import Mathlib.Data.List.Basic
import Mathlib.Logic.Function.Basic

/-!
# Singly linked cells in a heap

A heap maps addresses to cells, each with a value and a link to the next cell. `Chain.Linked h as
xs` says that the addresses `as` are the cells of one list, in order, holding the values `xs`, and
that the last of them links nowhere.
-/

namespace Rsyslog.Lib.Chain

variable {α : Type*}

structure Cell (α : Type*) where
  pNext : Option ℕ
  val : α

/-- The cells at `as` form one list that holds `xs`. -/
def Linked (h : ℕ → Option (Cell α)) : List ℕ → List α → Prop
  | [], [] => True
  | a :: as, x :: xs => h a = some ⟨as.head?, x⟩ ∧ Linked h as xs
  | _, _ => False

namespace Linked

variable {h : ℕ → Option (Cell α)} {as : List ℕ} {xs : List α}

lemma length_eq (hl : Linked h as xs) : as.length = xs.length := by
  induction as generalizing xs with
  | nil => cases xs with
    | nil => rfl
    | cons _ _ => exact hl.elim
  | cons a as ih => cases xs with
    | nil => exact hl.elim
    | cons x xs => rw [List.length_cons, List.length_cons, ih hl.2]

/-- Every cell of the list holds its value and links to the next address. -/
lemma get (hl : Linked h as xs) {k : ℕ} {a : ℕ} (ha : as[k]? = some a) :
    ∃ x, xs[k]? = some x ∧ h a = some ⟨as[k + 1]?, x⟩ := by
  induction as generalizing xs k with
  | nil => simp at ha
  | cons b as ih => cases xs with
    | nil => exact hl.elim
    | cons x xs => cases k with
      | zero =>
        obtain rfl : b = a := by simpa using ha
        exact ⟨x, rfl, by rw [hl.1, List.head?_eq_getElem?]; rfl⟩
      | succ k => exact ih hl.2 (by simpa using ha)

open Function

/-- A write outside the list leaves it as it is. -/
lemma update_of_notMem (hl : Linked h as xs) {a : ℕ} (ha : a ∉ as) (c : Option (Cell α)) :
    Linked (update h a c) as xs := by
  induction as generalizing xs with
  | nil => cases xs with
    | nil => trivial
    | cons _ _ => exact hl.elim
  | cons b as ih => cases xs with
    | nil => exact hl.elim
    | cons x xs =>
      rw [List.mem_cons, not_or] at ha
      refine ⟨?_, ih hl.2 ha.2⟩
      rw [update_of_ne (Ne.symm ha.1)]
      exact hl.1

/-- Linking a new cell behind the last one appends to the list. -/
lemma snoc (hl : Linked h as xs) (hnd : as.Nodup) {last new : ℕ} {v x : α} {nx : Option ℕ}
    (hlast : as.getLast? = some last) (hcell : h last = some ⟨nx, v⟩) (hnew : new ∉ as) :
    Linked (update (update h new (some ⟨none, x⟩)) last (some ⟨some new, v⟩))
      (as ++ [new]) (xs ++ [x]) := by
  induction as generalizing xs with
  | nil => simp at hlast
  | cons a as ih => cases xs with
    | nil => exact hl.elim
    | cons y xs =>
      rw [List.mem_cons, not_or] at hnew
      rw [List.nodup_cons] at hnd
      cases as with
      | nil =>
        cases xs with
        | cons _ _ => exact hl.2.elim
        | nil =>
          obtain rfl : a = last := by simpa using hlast
          have hval : y = v := by simpa [hl.1] using congrArg (Option.map Cell.val) hcell
          refine ⟨?_, ?_, trivial⟩
          · rw [update_self, hval]; rfl
          · rw [update_of_ne hnew.1, update_self]; rfl
      | cons b bs =>
        have hlast' : (b :: bs).getLast? = some last := by
          rwa [List.getLast?_cons_cons] at hlast
        have hne : a ≠ last := by
          rintro rfl
          exact hnd.1 (List.mem_of_getLast? hlast')
        refine ⟨?_, ih hl.2 hnd.2 hlast' hnew.2⟩
        rw [update_of_ne hne, update_of_ne (Ne.symm hnew.1)]
        exact hl.1

/-- Releasing the first cell leaves the rest of the list. -/
lemma free {a : ℕ} (hl : Linked h (a :: as) xs) (hnd : (a :: as).Nodup) :
    Linked (update h a none) as xs.tail := by
  cases xs with
  | nil => exact hl.elim
  | cons x xs => exact update_of_notMem hl.2 (List.nodup_cons.mp hnd).1 none

end Linked

end Rsyslog.Lib.Chain
