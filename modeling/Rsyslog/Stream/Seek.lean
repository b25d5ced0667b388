import Rsyslog.Stream.Circular
import Mathlib.Algebra.Order.Ring.Int
import Mathlib.Tactic.SplitIfs

/-!
# Seeking in circular streams

`strmMultiFileSeek` moves the position up to which a disk queue is processed, and deletes the files
before it. The writer takes the file numbers modulo `iMaxFiles`. The seek does not: it counts up
from the current number, and does nothing if the new number is lower.
-/

namespace Rsyslog.Stream.Circular

/-- The stream, the directory, what `stat` has stored, and the octets deleted. -/
structure Seek where
  iCurrFNum : ℕ
  iCurrOffs : ℕ
  files : Dir
  statBuf : ℕ
  bytesDel : ℕ

/-- Delete the current file. If `stat` fails then its buffer keeps the size of the file before. -/
def seekStep (s : Seek) : Seek :=
  let st_size := ((s.files s.iCurrFNum).map List.length).getD s.statBuf
  { s with
    statBuf := st_size
    bytesDel := s.bytesDel + st_size
    files := Function.update s.files s.iCurrFNum none
    iCurrFNum := s.iCurrFNum + 1 }

/-- The loop that counts down `skipped_files`. -/
def seekLoop : ℕ → Seek → Seek
  | 0, s => s
  | skipped_files + 1, s => seekLoop skipped_files (seekStep s)

def strmMultiFileSeek (s : Seek) (FNum offs : ℕ) : Seek :=
  if FNum = 0 ∧ offs = 0 then { s with bytesDel := 0 }
  else
    let skipped_files : ℤ := FNum - s.iCurrFNum
    { seekLoop skipped_files.toNat { s with bytesDel := 0 } with iCurrOffs := offs }

/-- The numbers from one file up to, but not including, another one. -/
def filesUpTo (m c f : ℕ) : List ℕ := (List.range' c ((f + m - c) % m)).map (· % m)

def sizeOf (files : Dir) (n : ℕ) : ℕ := ((files n).map List.length).getD 0

/-- The stream is where it is to be, and exactly the files before that are deleted. -/
structure Sought (m : ℕ) (s : Seek) (f offs : ℕ) (s' : Seek) : Prop where
  iCurrFNum : s'.iCurrFNum = f
  iCurrOffs : s'.iCurrOffs = offs
  files : ∀ n, s'.files n = if n ∈ filesUpTo m s.iCurrFNum f then none else s.files n
  bytesDel : s'.bytesDel = ((filesUpTo m s.iCurrFNum f).map (sizeOf s.files)).sum

variable {s : Seek} {m f offs n : ℕ}

open List

lemma seekLoop_eq (hfiles : ∀ i ∈ range' s.iCurrFNum n, s.files i ≠ none) :
    (seekLoop n s).iCurrFNum = s.iCurrFNum + n ∧
      (∀ i, (seekLoop n s).files i =
        if i ∈ range' s.iCurrFNum n then none else s.files i) ∧
      (seekLoop n s).bytesDel = s.bytesDel + ((range' s.iCurrFNum n).map (sizeOf s.files)).sum := by
  induction n generalizing s with
  | zero => exact ⟨rfl, fun i => rfl, rfl⟩
  | succ n ih =>
    rw [range'_succ] at hfiles ⊢
    have hnum : (seekStep s).iCurrFNum = s.iCurrFNum + 1 := rfl
    -- the files behind the current one are not touched when it is deleted
    have hkeep {i : ℕ} (hi : i ∈ range' (s.iCurrFNum + 1) n) :
        (seekStep s).files i = s.files i := by
      rw [mem_range'_1] at hi
      exact Function.update_of_ne (by omega) _ _
    have hsizes : (range' (s.iCurrFNum + 1) n).map (sizeOf (seekStep s).files) =
        (range' (s.iCurrFNum + 1) n).map (sizeOf s.files) :=
      map_congr_left fun i hi => by rw [sizeOf, hkeep hi, sizeOf]
    have hbytes : (seekStep s).bytesDel = s.bytesDel + sizeOf s.files s.iCurrFNum := by
      obtain ⟨file, hfile⟩ := Option.ne_none_iff_exists'.1 (hfiles s.iCurrFNum mem_cons_self)
      rw [seekStep, sizeOf, hfile]
      rfl
    obtain ⟨ihnum, ihfiles, ihbytes⟩ := @ih (seekStep s) fun i hi => by
      rw [hkeep hi]
      exact hfiles i (mem_cons_of_mem _ hi)
    rw [seekLoop]
    refine ⟨by omega, fun i => ?_, ?_⟩
    · rw [ihfiles, hnum]
      by_cases hi : i = s.iCurrFNum
      · have hdel : (seekStep s).files s.iCurrFNum = none := Function.update_self ..
        rw [hi, if_pos mem_cons_self, hdel, ite_self]
      · simp [hi, seekStep]
    · rw [ihbytes, hbytes, hnum, hsizes, map_cons, sum_cons, Nat.add_assoc]

lemma filesUpTo_of_le (hf : f < m) (hle : s.iCurrFNum ≤ f) :
    filesUpTo m s.iCurrFNum f = range' s.iCurrFNum (f - s.iCurrFNum) := by
  have hlen : (f + m - s.iCurrFNum) % m = f - s.iCurrFNum := by
    rw [Nat.sub_add_comm hle, Nat.add_mod_right, Nat.mod_eq_of_lt (by omega)]
  rw [filesUpTo, hlen]
  refine (map_congr_left fun i hi => Nat.mod_eq_of_lt ?_).trans (map_id' _)
  rw [mem_range'_1] at hi
  omega

lemma sought_seekLoop (hf : f < m) (hle : s.iCurrFNum ≤ f)
    (hfiles : ∀ i ∈ filesUpTo m s.iCurrFNum f, s.files i ≠ none) :
    Sought m s f offs
      { seekLoop (f - s.iCurrFNum) { s with bytesDel := 0 } with iCurrOffs := offs } := by
  rw [filesUpTo_of_le hf hle] at hfiles
  obtain ⟨hnum, hdel, hbytes⟩ := @seekLoop_eq { s with bytesDel := 0 } _ hfiles
  refine ⟨hnum.trans (Nat.add_sub_of_le hle), rfl, ?_, ?_⟩
  · rw [filesUpTo_of_le hf hle]
    exact hdel
  · rw [filesUpTo_of_le hf hle]
    exact hbytes.trans (Nat.zero_add _)

/-- The seek is right unless the numbers have wrapped around, or it is to the begin of file 0. -/
theorem strmMultiFileSeek_sought_iff (hf : f < m)
    (hfiles : ∀ i ∈ filesUpTo m s.iCurrFNum f, s.files i ≠ none) :
    Sought m s f offs (strmMultiFileSeek s f offs) ↔
      s.iCurrFNum ≤ f ∧ (f = 0 → offs = 0 → s.iCurrOffs = 0) := by
  rw [strmMultiFileSeek]
  split_ifs with hinit
  · obtain ⟨rfl, rfl⟩ := hinit
    constructor
    · exact fun h => ⟨Nat.le_of_eq h.iCurrFNum, fun _ _ => h.iCurrOffs⟩
    · rintro ⟨hle, hoffs⟩
      have hnone : filesUpTo m s.iCurrFNum 0 = [] := by
        rw [filesUpTo_of_le hf hle, Nat.zero_sub, range'_zero]
      refine ⟨Nat.le_zero.1 hle, hoffs rfl rfl, ?_, ?_⟩
      · rw [hnone]
        exact fun n => rfl
      · rw [hnone]
        rfl
  · dsimp only
    rw [show ((f : ℤ) - s.iCurrFNum).toNat = f - s.iCurrFNum by omega]
    by_cases hle : s.iCurrFNum ≤ f
    · exact iff_of_true (sought_seekLoop hf hle hfiles) ⟨hle, fun h0 h1 => absurd ⟨h0, h1⟩ hinit⟩
    · refine iff_of_false (fun h => hle ?_) fun h => hle h.1
      rw [show f - s.iCurrFNum = 0 by omega] at h
      exact Nat.le_of_eq h.iCurrFNum

/-- A stream at the end of file 0, with ten octets in each of three files. -/
def threeFiles (iCurrFNum : ℕ) : Seek :=
  ⟨iCurrFNum, 10, fun n => if n < 3 then some (List.replicate 10 0) else none, 0, 0⟩

theorem strmMultiFileSeek_sought_threeFiles :
    Sought 3 (threeFiles 0) 2 5 (strmMultiFileSeek (threeFiles 0) 2 5) :=
  (strmMultiFileSeek_sought_iff (by decide) (by decide)).2 (by decide)

/-- From file 2 the seek to file 0 deletes nothing and stays in file 2. -/
theorem strmMultiFileSeek_wrapped :
    ¬Sought 3 (threeFiles 2) 0 5 (strmMultiFileSeek (threeFiles 2) 0 5) :=
  fun h => absurd h.iCurrFNum (by decide)

end Rsyslog.Stream.Circular
