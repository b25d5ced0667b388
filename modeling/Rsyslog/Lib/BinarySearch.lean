import Mathlib.Data.Nat.Notation
import Mathlib.Data.Int.Notation
import Mathlib.Tactic.Common

/-!
# Binary search

A binary search in a range looks at the middle and goes on in one of the halves. `sgn i` says where
it has to look further: before `i` if it is negative, behind `i` if it is positive. `probes` are the
places that are looked at.

A `Probe` is the last place and what was found there. Its `floor` is the last place that is not
behind what is looked for; `floor_bisect` says that this is what a search finds.
-/

namespace Rsyslog.Lib

structure Probe where
  idx : ℕ
  sgn : ℤ
  deriving DecidableEq

def Probe.floor (p : Probe) : Option ℕ :=
  if p.sgn < 0 then if p.idx = 0 then none else some (p.idx - 1) else some p.idx

/-- Search in `[l, u)`. The range gets smaller in each round. -/
def bisect (sgn : ℕ → ℤ) : ℕ → ℕ → ℕ → Probe → Probe
  | 0, _, _, last => last
  | fuel + 1, l, u, last =>
    if l < u then
      if sgn ((l + u) / 2) < 0 then bisect sgn fuel l ((l + u) / 2) ⟨(l + u) / 2, sgn ((l + u) / 2)⟩
      else if 0 < sgn ((l + u) / 2) then
        bisect sgn fuel ((l + u) / 2 + 1) u ⟨(l + u) / 2, sgn ((l + u) / 2)⟩
      else ⟨(l + u) / 2, sgn ((l + u) / 2)⟩
    else last

def probes (sgn : ℕ → ℤ) : ℕ → ℕ → ℕ → List ℕ
  | 0, _, _ => []
  | fuel + 1, l, u =>
    if l < u then
      (l + u) / 2 ::
        if sgn ((l + u) / 2) < 0 then probes sgn fuel l ((l + u) / 2)
        else if 0 < sgn ((l + u) / 2) then probes sgn fuel ((l + u) / 2 + 1) u
        else []
    else []

section

variable {sgn sgn' : ℕ → ℤ}

def floorOf : ℕ → Option ℕ
  | 0 => none
  | t + 1 => some t

/-- `t` of the `n` places are not behind what is looked for. -/
structure Splits (sgn : ℕ → ℤ) (n t : ℕ) : Prop where
  le : t ≤ n
  nonneg_iff : ∀ i < n, 0 ≤ sgn i ↔ i < t
  of_eq_zero : ∀ i < n, sgn i = 0 → i + 1 = t

lemma floor_bisect {n t : ℕ} (h : Splits sgn n t) {fuel l u : ℕ} {last : Probe}
    (hl : l ≤ t) (hu : t ≤ u) (hn : u ≤ n) (hfuel : u - l ≤ fuel)
    (hlast : l = u → last.floor = floorOf t) : (bisect sgn fuel l u last).floor = floorOf t := by
  induction fuel generalizing l u last with
  | zero => exact hlast (by omega)
  | succ fuel ih =>
    rw [bisect]
    by_cases hlu : l < u
    · have hidx := h.nonneg_iff ((l + u) / 2) (by omega)
      rw [if_pos hlu]
      by_cases hneg : sgn ((l + u) / 2) < 0
      · rw [if_pos hneg]
        refine ih hl (by omega) (by omega) (by omega) fun heq => ?_
        obtain rfl : t = (l + u) / 2 := by omega
        rw [Probe.floor, if_pos hneg]
        cases (l + u) / 2 with
        | zero => rfl
        | succ i => rfl
      · rw [if_neg hneg]
        by_cases hpos : 0 < sgn ((l + u) / 2)
        · rw [if_pos hpos]
          refine ih (by omega) hu hn (by omega) fun heq => ?_
          obtain rfl : t = (l + u) / 2 + 1 := by omega
          rw [Probe.floor, if_neg hneg, floorOf]
        · rw [if_neg hpos, Probe.floor, if_neg hneg]
          have hzero := h.of_eq_zero ((l + u) / 2) (by omega) (by omega)
          rw [← hzero, floorOf]
    · rw [if_neg hlu]
      exact hlast (by omega)

/-- A search depends on what it looks at only. -/
lemma bisect_congr {fuel l u : ℕ} {last : Probe} (h : ∀ i ∈ probes sgn fuel l u, sgn' i = sgn i) :
    bisect sgn' fuel l u last = bisect sgn fuel l u last := by
  induction fuel generalizing l u last with
  | zero => rfl
  | succ fuel ih =>
    rw [bisect, bisect]
    rw [probes] at h
    by_cases hlu : l < u
    · rw [if_pos hlu] at h
      obtain ⟨hidx, hrest⟩ := List.forall_mem_cons.mp h
      rw [if_pos hlu, if_pos hlu, hidx]
      by_cases hneg : sgn ((l + u) / 2) < 0
      · rw [if_pos hneg] at hrest
        rw [if_pos hneg, if_pos hneg, ih hrest]
      · rw [if_neg hneg] at hrest
        rw [if_neg hneg, if_neg hneg]
        by_cases hpos : 0 < sgn ((l + u) / 2)
        · rw [if_pos hpos] at hrest
          rw [if_pos hpos, if_pos hpos, ih hrest]
        · rw [if_neg hpos, if_neg hpos]
    · rw [if_neg hlu, if_neg hlu]

/-- If everything is behind, the search ends at the first place. -/
lemma floor_bisect_of_neg {fuel u : ℕ} {last : Probe} (h : ∀ i < u, sgn i < 0) (hfuel : u ≤ fuel)
    (hlast : u = 0 → last.floor = none) : (bisect sgn fuel 0 u last).floor = none := by
  have hsplits : Splits sgn u 0 :=
    ⟨Nat.zero_le u, fun i hi => by have := h i hi; omega, fun i hi => by have := h i hi; omega⟩
  exact floor_bisect hsplits (Nat.le_refl 0) (Nat.zero_le u) (Nat.le_refl u) (by omega)
    fun heq => hlast heq.symm

/-- Let the first `f` places seem to be behind. If a search that sees where they are would look at
one of them, the search finds nothing. -/
lemma floor_bisect_eq_none {f fuel l u : ℕ} {last : Probe} (hneg : ∀ i < f, sgn' i < 0)
    (hsame : ∀ i, f ≤ i → sgn' i = sgn i) (hl : l = 0 ∨ f < l) (hfuel : u - l ≤ fuel)
    (h : ∃ i ∈ probes sgn fuel l u, i < f) : (bisect sgn' fuel l u last).floor = none := by
  induction fuel generalizing l u last with
  | zero =>
    obtain ⟨i, hi, -⟩ := h
    exact absurd hi List.not_mem_nil
  | succ fuel ih =>
    obtain ⟨i, hi, hif⟩ := h
    rw [probes] at hi
    by_cases hlu : l < u
    · rw [if_pos hlu] at hi
      rw [bisect, if_pos hlu]
      by_cases hf : (l + u) / 2 < f
      · obtain rfl : l = 0 := by omega
        rw [if_pos (hneg _ hf)]
        refine floor_bisect_of_neg (fun j hj => hneg j (by omega)) (by omega) fun hzero => ?_
        rw [Probe.floor, if_pos (hneg _ hf), if_pos hzero]
      · have hi := (List.mem_cons.mp hi).resolve_left (by omega)
        rw [hsame _ (by omega)]
        by_cases hidx : sgn ((l + u) / 2) < 0
        · rw [if_pos hidx] at hi ⊢
          exact ih hl (by omega) ⟨i, hi, hif⟩
        · rw [if_neg hidx] at hi ⊢
          by_cases hidx' : 0 < sgn ((l + u) / 2)
          · rw [if_pos hidx'] at hi ⊢
            exact ih (Or.inr (by omega)) (by omega) ⟨i, hi, hif⟩
          · rw [if_neg hidx'] at hi
            exact absurd hi List.not_mem_nil
    · rw [if_neg hlu] at hi
      exact absurd hi List.not_mem_nil

end

end Rsyslog.Lib
