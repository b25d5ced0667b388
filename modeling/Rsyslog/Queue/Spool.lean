import Mathlib.Data.Prod.Lex
import Rsyslog.Queue.Store

/-!
# The spool files of a disk queue

Positions in the spool are ordered by file number, then by offset. As long as the file numbers do
not come round, every record ends behind all earlier ones, so a position that is the end of a record
names the records behind it: `recsAfter` at the end of the `j`-th record is the list of records from
the `j`-th on. `Disk.Rep` says that the records behind `pReadDeq` are those not yet handed out.
-/

namespace Rsyslog.Queue

open List

variable {μ : Type}

/-! ## Positions -/

namespace Pos

instance : PartialOrder Pos :=
  PartialOrder.lift (fun p => toLex (p.iCurrFNum, p.iCurrOffs)) fun p q h => by
    cases p; cases q; simpa using h

lemma lt_iff {p q : Pos} : p < q ↔
    p.iCurrFNum < q.iCurrFNum ∨ p.iCurrFNum = q.iCurrFNum ∧ p.iCurrOffs < q.iCurrOffs :=
  Prod.Lex.lt_iff

lemma le_iff {p q : Pos} : p ≤ q ↔
    p.iCurrFNum < q.iCurrFNum ∨ p.iCurrFNum = q.iCurrFNum ∧ p.iCurrOffs ≤ q.iCurrOffs :=
  Prod.Lex.le_iff

instance : DecidableLE Pos := fun _ _ => decidable_of_iff _ le_iff.symm

instance : DecidableLT Pos := fun _ _ => decidable_of_iff _ lt_iff.symm

lemma iCurrFNum_mono {p q : Pos} (h : p ≤ q) : p.iCurrFNum ≤ q.iCurrFNum := by
  rcases le_iff.mp h with h | h <;> omega

end Pos

/-! ## Writing a record -/

lemma pos_of_mem_flushSizes {sIOBufSize len c : ℕ} (hc : c ∈ flushSizes sIOBufSize len) :
    0 < c := by
  rcases mem_append.mp hc with hc | hc
  · obtain ⟨hne, rfl⟩ := mem_replicate.mp hc
    exact Nat.pos_of_ne_zero fun h => hne (by rw [h, Nat.div_zero])
  · split at hc
    case isTrue => cases hc
    case isFalse h => rw [mem_singleton.mp hc]; exact Nat.pos_of_ne_zero h

lemma flushSizes_ne_nil (sIOBufSize : ℕ) {len : ℕ} (hlen : 0 < len) :
    flushSizes sIOBufSize len ≠ [] := by
  intro h
  obtain ⟨hrep, hlast⟩ := append_eq_nil_iff.mp h
  have hdiv : len / sIOBufSize = 0 := replicate_eq_nil_iff _ |>.mp hrep
  have hmod : len % sIOBufSize = 0 := by
    by_contra hne
    rw [if_neg hne] at hlast
    cases hlast
  have := Nat.div_add_mod len sIOBufSize
  rw [hdiv] at this
  omega

/-- One physical write ends behind the stream's position, and the stream is not before that end
afterwards and at most one file further, unless the file numbers come round. -/
lemma strmPhysWrite_pos (iMaxFileSize : ℕ) (w : WriteState) {c : ℕ} (hc : 0 < c)
    (hwrap : w.pos.iCurrFNum + 1 < iMaxFiles) :
    w.pos < (strmPhysWrite iMaxFileSize w c).recEnd ∧
      (strmPhysWrite iMaxFileSize w c).recEnd ≤ (strmPhysWrite iMaxFileSize w c).pos ∧
      (strmPhysWrite iMaxFileSize w c).pos.iCurrFNum ≤ w.pos.iCurrFNum + 1 := by
  refine ⟨Pos.lt_iff.mpr (.inr ⟨rfl, Nat.lt_add_of_pos_right hc⟩), ?_, ?_⟩ <;>
    simp only [strmPhysWrite]
  · split
    · exact Pos.le_iff.mpr (.inl (by simp [Nat.mod_eq_of_lt hwrap]))
    · exact le_rfl
  · split
    · exact Nat.mod_le _ _
    · exact Nat.le_succ _

lemma foldl_strmPhysWrite_pos (iMaxFileSize : ℕ) (cs : List ℕ) (w : WriteState)
    (hcs : ∀ c ∈ cs, 0 < c) (hne : cs ≠ []) (hwrap : w.pos.iCurrFNum + cs.length < iMaxFiles) :
    w.pos < (cs.foldl (strmPhysWrite iMaxFileSize) w).recEnd ∧
      (cs.foldl (strmPhysWrite iMaxFileSize) w).recEnd ≤
        (cs.foldl (strmPhysWrite iMaxFileSize) w).pos ∧
      (cs.foldl (strmPhysWrite iMaxFileSize) w).pos.iCurrFNum ≤ w.pos.iCurrFNum + cs.length := by
  induction cs generalizing w with
  | nil => exact absurd rfl hne
  | cons c cs ih =>
    rw [length_cons] at hwrap
    obtain ⟨hlt, hle, hf⟩ := strmPhysWrite_pos iMaxFileSize w (hcs c mem_cons_self) (by omega)
    rw [foldl_cons, length_cons]
    by_cases hnil : cs = []
    · subst hnil
      exact ⟨hlt, hle, hf⟩
    · obtain ⟨hlt', hle', hf'⟩ := ih (strmPhysWrite iMaxFileSize w c)
        (fun c hc => hcs c (mem_cons_of_mem _ hc)) hnil (by omega)
      exact ⟨hlt.trans_le (hle.trans hlt'.le), hle', by omega⟩

/-! ## Records behind a position -/

def ends (recs : List (μ × Pos)) : List Pos := firstPos :: recs.map Prod.snd

lemma ends_concat (recs : List (μ × Pos)) (r : μ × Pos) :
    ends (recs ++ [r]) = ends recs ++ [r.2] := by simp [ends]

lemma ends_lt {recs : List (μ × Pos)} {i j : ℕ} {p q : Pos} (hsorted : (ends recs).Pairwise (· < ·))
    (hij : i < j) (hp : (ends recs)[i]? = some p) (hq : (ends recs)[j]? = some q) : p < q := by
  obtain ⟨hi, hpi⟩ := List.getElem?_eq_some_iff.mp hp
  obtain ⟨hj, hqj⟩ := List.getElem?_eq_some_iff.mp hq
  rw [← hpi, ← hqj]
  exact pairwise_iff_getElem.mp hsorted i j hi hj hij

lemma recsAfter_eq_drop {start p : Pos} {recs : List (μ × Pos)} {j : ℕ}
    (hsorted : (start :: recs.map Prod.snd).Pairwise (· < ·))
    (hp : (start :: recs.map Prod.snd)[j]? = some p) : recsAfter start p recs = recs.drop j := by
  induction recs generalizing start j with
  | nil => simp [recsAfter]
  | cons r rs ih =>
    cases j with
    | zero =>
      obtain rfl : start = p := by simpa using hp
      exact if_pos rfl
    | succ j =>
      rw [pairwise_cons] at hsorted
      have hne : start ≠ p := (hsorted.1 p (mem_of_getElem? hp)).ne
      rw [recsAfter, if_neg hne]
      exact ih hsorted.2 hp

/-- The spool is in order, and the records behind `pReadDeq` are those of `xs` from the `k`-th
on. -/
structure Disk.Rep (d : Disk μ) (xs : List μ) (k : ℕ) : Prop where
  live : k ≤ xs.length
  sorted : (ends d.recs).Pairwise (· < ·)
  written : ∀ p ∈ ends d.recs, p ≤ d.pWrite
  read : ∃ j, (ends d.recs)[j]? = some d.pReadDeq ∧ (d.recs.drop j).map Prod.fst = xs.drop k

namespace Disk.Rep

variable {d d' : Disk μ} {xs ys : List μ} {k l : ℕ}

lemma construct : Disk.Rep (qConstructDisk : Disk μ) [] 0 where
  live := le_rfl
  sorted := pairwise_singleton ..
  written := fun _ hp => (mem_singleton.mp hp).le
  read := ⟨0, rfl, rfl⟩

/-- The representation only looks at the records, the write and the dequeue position, and at what
is still to be handed out. -/
lemma congr (h : d.Rep xs k) (hrecs : d'.recs = d.recs) (hwrite : d'.pWrite = d.pWrite)
    (hread : d'.pReadDeq = d.pReadDeq) (hlive : l ≤ ys.length) (hdrop : ys.drop l = xs.drop k) :
    d'.Rep ys l where
  live := hlive
  sorted := hrecs ▸ h.sorted
  written := by rw [hrecs, hwrite]; exact h.written
  read := by rw [hrecs, hread, hdrop]; exact h.read

lemma qAdd [QMsg μ] {iMaxFileSize sIOBufSize : ℕ} (h : d.Rep xs k) (m : μ)
    (hwrap : d.pWrite.iCurrFNum + (flushSizes sIOBufSize (QMsg.recLen m)).length < iMaxFiles) :
    (qAddDisk iMaxFileSize sIOBufSize d m).Rep (xs ++ [m]) k := by
  obtain ⟨hlt, hle, -⟩ := foldl_strmPhysWrite_pos iMaxFileSize
    (flushSizes sIOBufSize (QMsg.recLen m)) ⟨d.pWrite, d.pWrite, d.fsize⟩
    (fun _ => pos_of_mem_flushSizes) (flushSizes_ne_nil _ (QMsg.recLen_pos m)) hwrap
  obtain ⟨j, hj, hdrop⟩ := h.read
  have hjlen : j < (ends d.recs).length := (List.getElem?_eq_some_iff.mp hj).1
  have hj' : j ≤ d.recs.length := by simpa [ends, Nat.lt_succ_iff] using hjlen
  refine ⟨?_, ?_, ?_, j, ?_, ?_⟩
  · rw [length_append]; exact Nat.le_add_right_of_le h.live
  · rw [qAddDisk, ends_concat, pairwise_append]
    refine ⟨h.sorted, pairwise_singleton .., fun p hp q hq => ?_⟩
    rw [mem_singleton.mp hq]
    exact (h.written p hp).trans_lt hlt
  · intro p hp
    rw [qAddDisk, ends_concat] at hp
    rcases mem_append.mp hp with hp | hp
    · exact (h.written p hp).trans (hlt.le.trans hle)
    · rw [mem_singleton.mp hp]; exact hle
  · rw [qAddDisk, ends_concat, getElem?_append_left hjlen]
    exact hj
  · rw [qAddDisk, drop_append_of_le_length hj', map_append, hdrop,
      drop_append_of_le_length h.live]
    rfl

lemma qDeq (h : d.Rep xs k) (hk : k < xs.length) :
    ∃ d', qDeqDisk d = (.ok xs[k], d') ∧ d'.Rep xs (k + 1) := by
  obtain ⟨j, hj, hdrop⟩ := h.read
  have hafter := recsAfter_eq_drop h.sorted hj
  rw [drop_eq_getElem_cons hk] at hdrop
  obtain ⟨⟨m, p⟩, rs, hrs, rfl, htail⟩ := map_eq_cons_iff.mp hdrop
  refine ⟨{ d with pReadDeq := p }, ?_, hk, h.sorted, h.written, j + 1, ?_, ?_⟩
  · rw [qDeqDisk, hafter, hrs]
  · have hget : d.recs[j]? = some (xs[k], p) := by
      rw [← head?_drop, hrs]; rfl
    rw [ends, getElem?_cons_succ, getElem?_map, hget]
    rfl
  · rw [← htail, drop_add_one_eq_tail_drop, hrs]
    rfl

lemma pReadDeq_ne_pWrite (h : d.Rep xs k) (hk : k < xs.length) : d.pReadDeq ≠ d.pWrite := by
  obtain ⟨j, hj, hdrop⟩ := h.read
  have hlt : j < d.recs.length := by
    have := congrArg List.length hdrop
    simp only [length_map, length_drop] at this
    omega
  have hnext : (ends d.recs)[j + 1]? = some d.recs[j].2 := by
    rw [ends, getElem?_cons_succ, getElem?_map, getElem?_eq_getElem hlt]
    rfl
  have hstep : d.pReadDeq < d.recs[j].2 := ends_lt h.sorted (Nat.lt_succ_self j) hj hnext
  exact (hstep.trans_le (h.written _ (mem_of_getElem? hnext))).ne

end Disk.Rep

end Rsyslog.Queue
