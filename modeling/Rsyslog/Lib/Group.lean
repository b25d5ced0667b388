import Mathlib.Data.List.SplitBy

/-!
# Groups of neighbours

A list is cut into groups by comparing each element with what was kept of the one before it. What is
kept of an element may be different for the element that opens a group. If it is the same, then the
groups are those of `List.splitBy`.

`apart` takes groups of two apart.
-/

namespace Rsyslog.Lib

open List

variable {α β : Type} (same : β → β → Bool) (first key : α → β)

/-- The groups, with the one that is open and what was kept of its last element. -/
def groupsFrom : List α → β → List α → List (List α)
  | cur, _, [] => [cur]
  | cur, kept, x :: xs =>
    if same (key x) kept then groupsFrom (cur ++ [x]) (key x) xs
    else cur :: groupsFrom [x] (first x) xs

/-- The groups of a list. Of the first element of a group `first` is kept, of the others `key`. -/
def groups : List α → List (List α)
  | [] => []
  | x :: xs => groupsFrom same first key [x] (first x) xs

lemma flatten_groupsFrom (cur : List α) (kept : β) (xs : List α) :
    (groupsFrom same first key cur kept xs).flatten = cur ++ xs := by
  induction xs generalizing cur kept with
  | nil => simp [groupsFrom]
  | cons x xs ih =>
    unfold groupsFrom
    split
    · rw [ih, append_assoc, singleton_append]
    · rw [flatten_cons, ih, singleton_append]

lemma flatten_groups (xs : List α) : (groups same first key xs).flatten = xs := by
  cases xs with
  | nil => rfl
  | cons x xs => exact flatten_groupsFrom same first key [x] (first x) xs

lemma nil_notMem_groupsFrom {cur : List α} (hcur : cur ≠ []) (kept : β) (xs : List α) :
    [] ∉ groupsFrom same first key cur kept xs := by
  induction xs generalizing cur kept with
  | nil => simpa [groupsFrom] using hcur.symm
  | cons x xs ih =>
    unfold groupsFrom
    split
    · exact ih (by simp) _
    · rw [mem_cons, not_or]
      exact ⟨hcur.symm, ih (by simp) _⟩

lemma nil_notMem_groups (xs : List α) : [] ∉ groups same first key xs := by
  cases xs with
  | nil => exact not_mem_nil
  | cons x xs => exact nil_notMem_groupsFrom same first key (cons_ne_nil x []) _ xs

lemma splitBy_loop_eq (x : α) (g : List α) (gs : List (List α)) (xs : List α) :
    List.splitBy.loop (fun a b => same (key b) (key a)) xs x g gs =
      gs.reverse ++ groupsFrom same key key (g.reverse ++ [x]) (key x) xs := by
  induction xs generalizing x g gs with
  | nil => simp [List.splitBy.loop, groupsFrom]
  | cons y xs ih =>
    unfold List.splitBy.loop groupsFrom
    cases same (key y) (key x) with
    | true => simp [ih]
    | false => simp [ih]

/-- Where the same is kept of all elements, neighbours are compared. -/
lemma groups_key_eq_splitBy (xs : List α) :
    groups same key key xs = xs.splitBy fun a b => same (key b) (key a) := by
  cases xs with
  | nil => rfl
  | cons x xs => exact (splitBy_loop_eq same key x [] [] xs).symm

def pieces : List α → List (List α)
  | [a, b] => [[a], [b]]
  | g => [g]

def apart (gs : List (List α)) : List (List α) := gs.flatMap pieces

lemma flatten_pieces (g : List α) : (pieces g).flatten = g := by
  unfold pieces
  split <;> simp

lemma flatten_apart (gs : List (List α)) : (apart gs).flatten = gs.flatten := by
  induction gs with
  | nil => rfl
  | cons g gs ih => rw [apart, flatMap_cons, flatten_append, flatten_pieces, ← apart, ih,
      flatten_cons]

/-- Groups of two do not remain. -/
lemma mem_apart {gs : List (List α)} (hne : [] ∉ gs) {g : List α} (hg : g ∈ apart gs) :
    g.length = 1 ∨ 2 < g.length := by
  obtain ⟨g', hg', hm⟩ := mem_flatMap.1 hg
  match g', hg', hm with
  | [], hg', _ => exact absurd hg' hne
  | [a], _, hm => simp_all [pieces]
  | [a, b], _, hm => rcases (by simpa [pieces] using hm) with rfl | rfl <;> simp
  | a :: b :: c :: r, _, hm => simp_all [pieces]

/-- The other groups do. -/
lemma mem_apart_iff {gs : List (List α)} {g : List α} (hlen : 2 < g.length) :
    g ∈ apart gs ↔ g ∈ gs := by
  rw [apart, mem_flatMap]
  constructor
  · rintro ⟨g', hg', hm⟩
    unfold pieces at hm
    split at hm
    · rcases (by simpa using hm) with rfl | rfl <;> simp at hlen
    · rwa [mem_singleton.1 hm]
  · intro hg
    refine ⟨g, hg, ?_⟩
    match g, hlen with
    | a :: b :: c :: r, _ => exact mem_singleton.2 rfl

/-- What is written for each group does not change if a group of two is written as two of one. -/
lemma flatMap_apart {γ : Type} {f : List α → List γ} (hf : ∀ a b, f [a, b] = f [a] ++ f [b])
    (gs : List (List α)) : (apart gs).flatMap f = gs.flatMap f := by
  have hpieces (g : List α) : (pieces g).flatMap f = f g := by
    unfold pieces
    split
    · simp [hf]
    · simp
  rw [apart, flatMap_assoc]
  simp only [hpieces]

end Rsyslog.Lib
