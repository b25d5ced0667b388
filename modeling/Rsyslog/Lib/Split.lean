import Mathlib.Data.List.TakeWhile

/-!
# Parts between separators

A loop over a text takes what is before the next separator, goes on behind the separator, and ends
where the text ends: `parts`. It sees the parts that `List.splitOn` gives, but for the last one if
that is empty (`parts_eq`).
-/

namespace Rsyslog.Lib

open List

variable {α : Type*} [DecidableEq α]

/-- A text has no separator, or goes on behind the first one. -/
lemma cut_cases (sep : α) (text : List α) :
    (text.takeWhile (· != sep) = text ∧ text.dropWhile (· != sep) = [] ∧
      text.splitOn sep = [text]) ∨
    ∃ rest, text.dropWhile (· != sep) = sep :: rest ∧
      text = text.takeWhile (· != sep) ++ sep :: rest ∧
      text.splitOn sep = text.takeWhile (· != sep) :: rest.splitOn sep := by
  have hcut := takeWhile_append_dropWhile (p := (· != sep)) (l := text)
  have hpart : ∀ a ∈ text.takeWhile (· != sep), (a == sep) = false := by
    intro a ha
    simpa using mem_takeWhile_imp ha
  cases hrest : text.dropWhile (· != sep) with
  | nil =>
    rw [hrest, append_nil] at hcut
    rw [hcut] at hpart
    exact .inl ⟨hcut, rfl, splitOnP_eq_singleton hpart⟩
  | cons a rest =>
    have hsep : a = sep := by
      have := head?_dropWhile_not (· != sep) text
      rw [hrest] at this
      simpa using this
    subst hsep
    rw [hrest] at hcut
    refine .inr ⟨rest, rfl, hcut.symm, ?_⟩
    have hsplit := splitOnP_append_cons_of_forall_mem hpart a (by simp) rest
    rwa [hcut] at hsplit

/-- The parts that a loop sees which ends at the end of the text. -/
def parts (sep : α) : List α → List (List α)
  | [] => []
  | a :: as =>
    (a :: as).takeWhile (· != sep) :: parts sep (((a :: as).dropWhile (· != sep)).drop 1)
  termination_by text => text.length
  decreasing_by
    have := ((a :: as).dropWhile_sublist (· != sep)).length_le
    simp only [length_drop, length_cons] at this ⊢
    omega

@[simp]
lemma parts_nil (sep : α) : parts sep [] = [] := by
  rw [parts]

lemma parts_cons (sep a : α) (as : List α) :
    parts sep (a :: as) =
      (a :: as).takeWhile (· != sep) :: parts sep (((a :: as).dropWhile (· != sep)).drop 1) := by
  rw [parts]

def withoutLastEmpty (texts : List (List α)) : List (List α) :=
  if texts.getLast? = some [] then texts.dropLast else texts

/-- The last part is missed if it is empty. -/
lemma parts_eq (sep : α) (text : List α) :
    parts sep text = withoutLastEmpty (text.splitOn sep) := by
  fun_induction parts with
  | case1 => simp [withoutLastEmpty]
  | case2 a as ih =>
    rcases cut_cases sep (a :: as) with ⟨hpart, hnil, hsplit⟩ | ⟨rest, hcons, -, hsplit⟩
    · rw [hnil, hsplit, hpart]
      simp [withoutLastEmpty]
    · have hne : rest.splitOn sep ≠ [] := splitOnP_ne_nil _ _
      rw [hcons, drop_one, tail_cons] at ih ⊢
      rw [ih, hsplit, withoutLastEmpty, withoutLastEmpty, getLast?_cons_of_ne_nil hne,
        dropLast_cons_of_ne_nil hne]
      split <;> rfl

end Rsyslog.Lib
