import Rsyslog.Dynstats.Bucket

/-!
# The number of counters with several threads

`dynstats_inc` in threads that run at the same time. Between its accesses to the bucket (the search
under the read lock, the check of the limit, the section under the write lock and the increment of
`metricCount`) other threads and resets may come. A counter is given by its metric here.
-/

namespace Rsyslog.Dynstats

open List

/-- The active table and its list have the same counters. A survivor that was taken up again is left
in the table of survivors. -/
structure Shared where
  ctrs : List Metric
  survivor_table : List Metric
  survivor_ctrs : List Metric
  metricCount : UInt32
  deriving DecidableEq

/-- What a thread does next. -/
inductive Phase
  | idle
  | check (metric : Metric)
  | insert (metric : Metric)
  | count
  deriving DecidableEq

section

variable (maxCardinality : UInt32)

/-- The next access of a thread. If it is idle, it calls `dynstats_inc` for the metric. -/
def Shared.access (b : Shared) (metric : Metric) : Phase → Shared × Phase
  | .idle => (b, if metric = [] ∨ metric ∈ b.ctrs then .idle else .check metric)
  | .check metric => (b, if b.metricCount ≥ maxCardinality then .idle else .insert metric)
  | .insert metric =>
    if metric ∈ b.ctrs then (b, .idle)
    else if metric ∈ b.survivor_table then
      ({ b with ctrs := metric :: b.ctrs, survivor_ctrs := b.survivor_ctrs.erase metric }, .idle)
    else ({ b with ctrs := metric :: b.ctrs }, .count)
  | .count => ({ b with metricCount := b.metricCount + 1 }, .idle)

def Shared.reset (b : Shared) : Shared where
  ctrs := []
  survivor_table := b.ctrs
  survivor_ctrs := b.ctrs
  metricCount := b.metricCount - UInt32.ofNat b.survivor_ctrs.length

/-- A reset, or an access of the thread `i`. -/
inductive Event (n : ℕ)
  | reset
  | access (i : Fin n) (metric : Metric)

def concurrentStep {n : ℕ} (s : Shared × (Fin n → Phase)) : Event n → Shared × (Fin n → Phase)
  | .reset => (s.1.reset, s.2)
  | .access i metric =>
    let (b, phase) := s.1.access maxCardinality metric (s.2 i)
    (b, Function.update s.2 i phase)

end

def Shared.total (b : Shared) : ℕ := b.ctrs.length + b.survivor_ctrs.length

/-- What is counted is what is there, as long as one thread adds to it. -/
structure Counted (maxCardinality : UInt32) (b : Shared) (phase : Phase) : Prop where
  survivor_or : ∀ m ∈ b.survivor_table, m ∈ b.survivor_ctrs ∨ m ∈ b.ctrs
  count : b.metricCount + (if phase = .count then 1 else 0) = UInt32.ofNat b.total
  le_max : b.total ≤ maxCardinality.toNat
  lt_max : ∀ metric, phase = .insert metric → b.total < maxCardinality.toNat

variable {maxCardinality : UInt32} {n : ℕ}

section

variable {b : Shared} {phase : Phase} (h : Counted maxCardinality b phase)

include h

lemma Counted.access (metric : Metric) :
    Counted maxCardinality (b.access maxCardinality metric phase).1
      (b.access maxCardinality metric phase).2 := by
  obtain ⟨hsurvivor, hcount, hle, hlt⟩ := h
  cases phase with
  | idle =>
    rw [Shared.access]
    split_ifs <;> exact ⟨hsurvivor, hcount, hle, fun _ h => nomatch h⟩
  | check metric =>
    rw [Shared.access]
    split_ifs with hmax
    · exact ⟨hsurvivor, hcount, hle, fun _ h => nomatch h⟩
    · refine ⟨hsurvivor, hcount, hle, fun _ _ => ?_⟩
      have hlt : b.metricCount.toNat < maxCardinality.toNat := UInt32.not_le.mp hmax
      have hsize := maxCardinality.toNat_lt
      rwa [← UInt32.add_zero b.metricCount, show b.metricCount + 0 = _ from hcount,
        UInt32.toNat_ofNat', Nat.mod_eq_of_lt (by omega)] at hlt
  | insert metric =>
    have hlt := hlt metric rfl
    rw [Shared.access]
    split_ifs with hactive hfound
    · exact ⟨hsurvivor, hcount, hle, fun _ h => nomatch h⟩
    · have hmem := (hsurvivor metric hfound).resolve_right hactive
      have htotal :
          (metric :: b.ctrs).length + (b.survivor_ctrs.erase metric).length = b.total := by
        have := length_pos_of_mem hmem
        rw [length_erase_of_mem hmem, length_cons, Shared.total]
        omega
      refine ⟨fun m hm => ?_, ?_, Nat.le_trans (Nat.le_of_eq htotal) hle, fun _ h => nomatch h⟩
      · by_cases heq : m = metric
        · exact .inr (heq ▸ mem_cons_self)
        · exact (hsurvivor m hm).imp (mem_erase_of_ne heq).mpr (mem_cons_of_mem _)
      · exact hcount.trans (congrArg UInt32.ofNat htotal.symm)
    · have htotal : (metric :: b.ctrs).length + b.survivor_ctrs.length = b.total + 1 := by
        rw [length_cons, Shared.total]
        omega
      refine ⟨fun m hm => (hsurvivor m hm).imp_right (mem_cons_of_mem _), ?_,
        Nat.le_trans (Nat.le_of_eq htotal) hlt, fun _ h => nomatch h⟩
      have hzero : b.metricCount = UInt32.ofNat b.total := by simpa using hcount
      rw [Shared.total, htotal, UInt32.ofNat_add, ← hzero]
      rfl
  | count => exact ⟨hsurvivor, (UInt32.add_zero _).trans hcount, hle, fun _ h => nomatch h⟩

lemma Counted.reset : Counted maxCardinality b.reset phase := by
  obtain ⟨hsurvivor, hcount, hle, hlt⟩ := h
  have htotal : b.reset.total = b.ctrs.length := by rw [Shared.total, Shared.reset]; simp
  have hless : b.reset.total ≤ b.total := by
    rw [htotal]
    exact Nat.le_add_right _ _
  refine ⟨fun m hm => .inl hm, ?_, Nat.le_trans hless hle,
    fun metric hm => Nat.lt_of_le_of_lt hless (hlt metric hm)⟩
  rw [Shared.total, UInt32.ofNat_add] at hcount
  rw [htotal, Shared.reset]
  grind

end

/-- All threads, of which there is at most one, are in the same phase. -/
def Lone (maxCardinality : UInt32) (s : Shared × (Fin n → Phase)) : Prop :=
  ∃ phase, (∀ i, s.2 i = phase) ∧ Counted maxCardinality s.1 phase

lemma Lone.step (hn : n ≤ 1) {s : Shared × (Fin n → Phase)} (h : Lone maxCardinality s)
    (e : Event n) : Lone maxCardinality (concurrentStep maxCardinality s e) := by
  obtain ⟨phase, hall, hcounted⟩ := h
  cases e with
  | reset => exact ⟨phase, hall, hcounted.reset⟩
  | access i metric =>
    rw [← hall i] at hcounted
    refine ⟨_, fun j => ?_, hcounted.access metric⟩
    rw [show j = i by omega]
    exact Function.update_self ..

lemma exists_metrics (k : ℕ) : ∃ (ctrs : List Metric), ctrs.length = k ∧
    ∃ a c, c ≠ a ∧ (a ≠ [] ∧ a ∉ ctrs) ∧ c ≠ [] ∧ c ∉ ctrs := by
  refine ⟨(range k).map fun i => replicate (i + 1) 97, by simp, replicate (k + 1) 97,
    replicate (k + 2) 97, ?_⟩
  simp

/-- The limit is kept in all runs exactly if there are not two threads. -/
theorem cardinality_iff (maxCardinality : UInt32) (hmax : 0 < maxCardinality) (n : ℕ) :
    (∀ b, Counted maxCardinality b .idle → ∀ events : List (Event n),
        (events.foldl (concurrentStep maxCardinality) (b, fun _ => .idle)).1.total ≤
          maxCardinality.toNat) ↔ n ≤ 1 := by
  constructor
  · intro h
    by_contra hn
    obtain ⟨ctrs, hlength, a, c, hac, ha, hc⟩ := exists_metrics (maxCardinality.toNat - 1)
    have hpos : 1 ≤ maxCardinality.toNat := UInt32.lt_iff_toNat_lt.mp hmax
    have hcount : maxCardinality - 1 = UInt32.ofNat (maxCardinality.toNat - 1) := by
      rw [UInt32.ofNat_sub hpos, UInt32.ofNat_toNat]
      rfl
    have hroom : ¬maxCardinality ≤ maxCardinality - 1 := by
      have hlt := maxCardinality.toNat_lt
      rw [UInt32.le_iff_toNat_le, hcount, UInt32.toNat_ofNat', Nat.mod_eq_of_lt (by omega)]
      omega
    have htotal : Shared.total ⟨ctrs, [], [], maxCardinality - 1⟩ = maxCardinality.toNat - 1 :=
      hlength
    have hb : Counted maxCardinality ⟨ctrs, [], [], maxCardinality - 1⟩ .idle :=
      ⟨by simp, by rw [htotal, hcount]; exact UInt32.add_zero _,
        by rw [htotal]; exact Nat.sub_le _ _, by simp⟩
    have hle := h _ hb [.access ⟨0, by omega⟩ a, .access ⟨1, by omega⟩ c, .access ⟨0, by omega⟩ a,
      .access ⟨1, by omega⟩ c, .access ⟨0, by omega⟩ a, .access ⟨1, by omega⟩ c]
    simp [concurrentStep, Shared.access, ha, hc, hac, hroom, Shared.total, hlength] at hle
    omega
  · intro hn b hb events
    have hlone : Lone maxCardinality
        (events.foldl (concurrentStep maxCardinality) (b, fun _ : Fin n => .idle)) :=
      foldlRecOn events _ ⟨.idle, fun _ => rfl, hb⟩ fun s hs e _ => hs.step hn e
    obtain ⟨phase, -, hcounted⟩ := hlone
    exact hcounted.le_max

/-- One thread and the first metric. -/
theorem cardinality_one :
    ([.access 0 [97], .access 0 [97], .access 0 [97], .access 0 [97]].foldl
      (concurrentStep (n := 1) 1) (⟨[], [], [], 0⟩, fun _ => .idle)).1.total ≤ 1 :=
  (cardinality_iff 1 (by decide) 1).mpr (by decide) _ ⟨by simp, rfl, by decide, by simp⟩ _

/-- Two threads that check the limit before one of them has added its metric. -/
theorem cardinality_two :
    ([.access 0 [97], .access 1 [98], .access 0 [97], .access 1 [98], .access 0 [97],
      .access 1 [98]].foldl (concurrentStep (n := 2) 1) (⟨[], [], [], 0⟩, fun _ => .idle)).1.total =
        2 := by
  decide

end Rsyslog.Dynstats
