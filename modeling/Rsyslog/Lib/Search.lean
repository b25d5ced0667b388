import Mathlib.Data.List.Basic

/-!
# Occurrences of a list in another

`replaceAll f r l` replaces the occurrences of `f` in `l` by `r` from the left, and looks for the
next one behind the one replaced. `tally f back l` counts the occurrences that such a scan finds if
it passes over `back` more elements wherever an occurrence begins and does not go on.

With `back = 0` these are the occurrences replaced, and no other scan finds more. `fields f l` is
what is between them.
-/

namespace Rsyslog.Lib

open List

/-- A scan that passes over elements first is a scan of what comes behind them. -/
lemma eq_drop {α β : Type*} {F : ℕ → List α → β} (nil : ∀ covered, F covered [] = F 0 [])
    (cons : ∀ covered x l, F (covered + 1) (x :: l) = F covered l) (covered : ℕ) (l : List α) :
    F covered l = F 0 (l.drop covered) := by
  induction l generalizing covered with
  | nil => rw [drop_nil, nil]
  | cons x l ih => cases covered with
    | zero => rfl
    | succ covered => rw [cons, ih, drop_succ_cons]

variable {α : Type*} [DecidableEq α]

/-- The first `covered` elements belong to an occurrence that has been replaced. -/
def replaceFrom (f r : List α) : ℕ → List α → List α
  | _, [] => []
  | covered + 1, _ :: l => replaceFrom f r covered l
  | 0, x :: l =>
    if f <+: x :: l then r ++ replaceFrom f r (f.length - 1) l else x :: replaceFrom f r 0 l

/-- The occurrences of `f` replaced by `r`, from the left. -/
def replaceAll (f r l : List α) : List α := replaceFrom f r 0 l

/-- The first `covered` elements have been passed over. -/
def tallyFrom (f : List α) (back : ℕ) : ℕ → List α → ℕ
  | _, [] => 0
  | covered + 1, _ :: l => tallyFrom f back covered l
  | 0, x :: l =>
    if f <+: x :: l then tallyFrom f back (f.length - 1) l + 1
    else tallyFrom f back (if f.head? = some x then back else 0) l

def tally (f : List α) (back : ℕ) (l : List α) : ℕ := tallyFrom f back 0 l

def fieldsFrom (f : List α) : ℕ → List α → List (List α)
  | _, [] => [[]]
  | covered + 1, _ :: l => fieldsFrom f covered l
  | 0, x :: l =>
    if f <+: x :: l then [] :: fieldsFrom f (f.length - 1) l
    else (fieldsFrom f 0 l).modifyHead (x :: ·)

/-- `l` split at the occurrences of `f`, from the left. -/
def fields (f l : List α) : List (List α) := fieldsFrom f 0 l

section Equations

variable {f r l : List α} {x : α} {back : ℕ}

@[simp] lemma replaceAll_nil : replaceAll f r [] = [] := rfl

@[simp] lemma tally_nil : tally f back [] = 0 := rfl

lemma replaceFrom_eq (covered : ℕ) : replaceFrom f r covered l = replaceAll f r (l.drop covered) :=
  eq_drop (fun covered => by cases covered <;> rfl) (fun _ _ _ => rfl) covered l

lemma tallyFrom_eq (covered : ℕ) : tallyFrom f back covered l = tally f back (l.drop covered) :=
  eq_drop (fun covered => by cases covered <;> rfl) (fun _ _ _ => rfl) covered l

lemma fieldsFrom_eq (covered : ℕ) : fieldsFrom f covered l = fields f (l.drop covered) :=
  eq_drop (fun covered => by cases covered <;> rfl) (fun _ _ _ => rfl) covered l

/-- Behind an occurrence the search goes on. -/
lemma replaceAll_append (hf : f ≠ []) : replaceAll f r (f ++ l) = r ++ replaceAll f r l := by
  obtain ⟨x, f, rfl⟩ := exists_cons_of_ne_nil hf
  have hpre : x :: f <+: x :: (f ++ l) := prefix_append _ _
  rw [replaceAll, cons_append, replaceFrom, replaceFrom_eq]
  simp

lemma tally_append (hf : f ≠ []) : tally f back (f ++ l) = tally f back l + 1 := by
  obtain ⟨x, f, rfl⟩ := exists_cons_of_ne_nil hf
  have hpre : x :: f <+: x :: (f ++ l) := prefix_append _ _
  rw [tally, cons_append, tallyFrom, tallyFrom_eq]
  simp

lemma fields_append (hf : f ≠ []) : fields f (f ++ l) = [] :: fields f l := by
  obtain ⟨x, f, rfl⟩ := exists_cons_of_ne_nil hf
  have hpre : x :: f <+: x :: (f ++ l) := prefix_append _ _
  rw [fields, cons_append, fieldsFrom, fieldsFrom_eq]
  simp

lemma fields_cons (h : ¬f <+: x :: l) : fields f (x :: l) = (fields f l).modifyHead (x :: ·) := by
  rw [fields, fieldsFrom, if_neg h]
  rfl

lemma replaceAll_cons (h : ¬f <+: x :: l) : replaceAll f r (x :: l) = x :: replaceAll f r l := by
  rw [replaceAll, replaceFrom, if_neg h]
  rfl

lemma tally_cons (h : ¬f <+: x :: l) :
    tally f back (x :: l) = tally f back (l.drop (if f.head? = some x then back else 0)) := by
  rw [tally, tallyFrom, if_neg h, tallyFrom_eq]

/-- There is no occurrence in what is shorter. -/
lemma replaceAll_of_length_lt (h : l.length < f.length) : replaceAll f r l = l := by
  induction l with
  | nil => rfl
  | cons x l ih =>
    rw [replaceAll_cons fun hpre => absurd hpre.length_le (by omega), ih (by simp at h; omega)]

lemma tally_of_length_lt (h : l.length < f.length) : tally f back l = 0 := by
  suffices hfrom : ∀ covered, tallyFrom f back covered l = 0 from hfrom 0
  induction l with
  | nil => exact fun covered => by cases covered <;> rfl
  | cons x l ih =>
    have hl : l.length < f.length := Nat.lt_of_succ_lt h
    intro covered
    cases covered with
    | zero =>
      rw [tallyFrom, if_neg fun hpre => absurd hpre.length_le (by omega)]
      exact ih hl _
    | succ covered => exact ih hl covered

end Equations

/-- The cases of a scan: nothing is left, an occurrence is found, or there is none here. -/
lemma scan_induction {f : List α} (hf : f ≠ []) {P : List α → Prop} (nil : P [])
    (found : ∀ l, P l → P (f ++ l)) (step : ∀ x l, ¬f <+: x :: l → P l → P (x :: l)) (l : List α) :
    P l := by
  induction hn : l.length using Nat.strongRecOn generalizing l with
  | ind n ih =>
    cases l with
    | nil => exact nil
    | cons x l =>
      by_cases hpre : f <+: x :: l
      · obtain ⟨l', hl'⟩ := hpre
        rw [← hl'] at hn ⊢
        have hpos : 0 < f.length := length_pos_iff.mpr hf
        rw [length_append] at hn
        exact found l' (ih l'.length (by omega) l' rfl)
      · rw [length_cons] at hn
        exact step x l hpre (ih l.length (by omega) l rfl)

/-- Every occurrence replaced changes the length by the difference of the two lengths. -/
lemma length_replaceAll {f : List α} (hf : f ≠ []) (r l : List α) :
    (replaceAll f r l).length + tally f 0 l * f.length = l.length + tally f 0 l * r.length := by
  induction l using scan_induction hf with
  | nil => simp
  | found l ih =>
    rw [replaceAll_append hf, tally_append hf, length_append, length_append,
      Nat.add_one_mul, Nat.add_one_mul]
    omega
  | step x l hpre ih =>
    rw [replaceAll_cons hpre, tally_cons hpre, ite_self, drop_zero, length_cons,
      length_cons]
    omega

/-- Starting earlier loses nothing, and passing over as much as `d` occurrences loses at most
`d`. -/
lemma tallyFrom_le {f : List α} {back d n m : ℕ} (h : m ≤ n + d * f.length) (l : List α) :
    tallyFrom f back n l ≤ tallyFrom f 0 m l + d := by
  induction l generalizing d n m with
  | nil => cases n <;> simp [tallyFrom]
  | cons x l ih =>
    by_cases hpre : f <+: x :: l
    · have hfound (b : ℕ) : tallyFrom f b 0 (x :: l) = tallyFrom f b (f.length - 1) l + 1 := by
        rw [tallyFrom, if_pos hpre]
      match n, m, d with
      | n + 1, m + 1, d => exact ih (by omega)
      | n + 1, 0, d =>
        have hrest := @ih (d + 1) n (f.length - 1) (by rw [Nat.add_one_mul]; omega)
        rwa [hfound, Nat.add_right_comm]
      | 0, m + 1, 0 => omega
      | 0, m + 1, d + 1 =>
        rw [Nat.add_one_mul] at h
        rw [hfound]
        exact Nat.succ_le_succ (ih (by omega))
      | 0, 0, d =>
        rw [hfound, hfound, Nat.add_right_comm]
        exact Nat.succ_le_succ (ih (Nat.le_add_right _ _))
    · -- the first scan may pass over something here, the second one does not
      obtain ⟨k, hk⟩ : ∃ k, tallyFrom f back 0 (x :: l) = tallyFrom f back k l :=
        ⟨_, by rw [tallyFrom, if_neg hpre]⟩
      have hnone : tallyFrom f 0 0 (x :: l) = tallyFrom f 0 0 l := by
        rw [tallyFrom, if_neg hpre, ite_self]
      match n, m with
      | n + 1, m + 1 => exact ih (by omega)
      | n + 1, 0 => exact hnone ▸ ih (Nat.zero_le _)
      | 0, m + 1 => exact hk ▸ ih (by omega)
      | 0, 0 =>
        rw [hk, hnone]
        exact ih (Nat.zero_le _)

/-- No scan finds more occurrences than the one that passes over nothing. -/
lemma tally_le (f : List α) (back : ℕ) (l : List α) : tally f back l ≤ tally f 0 l :=
  tallyFrom_le (d := 0) (n := 0) (Nat.zero_le _) l

end Rsyslog.Lib
