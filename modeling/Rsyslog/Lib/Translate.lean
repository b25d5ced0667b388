import Mathlib.Data.List.TakeWhile

/-!
# Translating a list element by element

`l.flatMap f` replaces every element `a` of `l` by the list `f a`. Code that escapes a text seldom
does this from the first element on: it copies what needs no change and translates the rest. The
lemmas say when this is the same.
-/

namespace Rsyslog.Lib

open List

variable {α β : Type*} {l : List α}

/-- Elements that stand for themselves are left alone. -/
lemma flatMap_eq_self {f : α → List α} (h : ∀ a ∈ l, f a = [a]) : l.flatMap f = l := by
  induction l with
  | nil => rfl
  | cons a l ih =>
    rw [flatMap_cons, h a mem_cons_self, ih fun a ha => h a (mem_cons_of_mem _ ha)]
    rfl

variable {f g : α → List β}

/-- Where two translations differ, they differ in the first place: then equal results, with
anything behind them, have been translated in the same way. -/
lemma flatMap_append_inj {r s : List β}
    (hfg : ∀ a ∈ l, f a = g a ∨ ∃ b t b' t', f a = b :: t ∧ g a = b' :: t' ∧ b ≠ b')
    (h : l.flatMap f ++ r = l.flatMap g ++ s) : (∀ a ∈ l, f a = g a) ∧ r = s := by
  induction l with
  | nil => exact ⟨fun a ha => absurd ha not_mem_nil, h⟩
  | cons a l ih =>
    obtain ⟨ha, hl⟩ := forall_mem_cons.mp hfg
    rw [flatMap_cons, flatMap_cons, append_assoc, append_assoc] at h
    rcases ha with ha | ⟨b, t, b', t', hf, hg, hne⟩
    · rw [ha] at h
      obtain ⟨hl', hrs⟩ := ih hl (append_cancel_left h)
      exact ⟨forall_mem_cons.mpr ⟨ha, hl'⟩, hrs⟩
    · rw [hf, hg, cons_append, cons_append] at h
      exact absurd (cons_eq_cons.mp h).1 hne

lemma length_flatMap_le (h : ∀ a ∈ l, (f a).length ≤ (g a).length) :
    (l.flatMap f).length ≤ (l.flatMap g).length := by
  induction l with
  | nil => exact Nat.le_refl _
  | cons a l ih =>
    obtain ⟨ha, hl⟩ := forall_mem_cons.mp h
    rw [flatMap_cons, flatMap_cons, length_append, length_append]
    exact Nat.add_le_add ha (ih hl)

/-- If nothing gets longer, a result of the same length has no piece that gets shorter. -/
lemma length_eq_of_length_flatMap_eq (h : ∀ a ∈ l, (f a).length ≤ (g a).length)
    (hlen : (l.flatMap f).length = (l.flatMap g).length) :
    ∀ a ∈ l, (f a).length = (g a).length := by
  induction l with
  | nil => exact fun a ha => absurd ha not_mem_nil
  | cons a l ih =>
    obtain ⟨ha, hl⟩ := forall_mem_cons.mp h
    have hle := length_flatMap_le hl
    rw [flatMap_cons, flatMap_cons, length_append, length_append] at hlen
    exact forall_mem_cons.mpr ⟨by omega, ih hl (by omega)⟩

variable (p : α → Bool)

/-- A scan that stops at the first element without `p` cuts the list there. -/
lemma take_length_takeWhile (l : List α) : l.take (l.takeWhile p).length = l.takeWhile p :=
  (prefix_iff_eq_take.mp (List.takeWhile_prefix p)).symm

lemma drop_length_takeWhile (l : List α) : l.drop (l.takeWhile p).length = l.dropWhile p := by
  have hdrop : (l.takeWhile p ++ l.dropWhile p).drop (l.takeWhile p).length = l.dropWhile p :=
    drop_left
  rwa [takeWhile_append_dropWhile] at hdrop

/-- The scan stops within the list exactly if there is an element without `p`. -/
lemma length_takeWhile_lt_iff (l : List α) :
    (l.takeWhile p).length < l.length ↔ ¬∀ a ∈ l, p a = true := by
  have hpre := takeWhile_prefix p (l := l)
  rw [← takeWhile_eq_self_iff, Nat.lt_iff_le_and_ne, and_iff_right hpre.length_le]
  exact not_congr ⟨hpre.eq_of_length, congrArg List.length⟩

/-! ## The first symbols of a kind, up to a number of them -/

lemma take_takeWhile_cons (p : α → Bool) (n : ℕ) (x : α) (l : List α) :
    ((x :: l).takeWhile p).take n =
      if p x = true ∧ 0 < n then x :: (l.takeWhile p).take (n - 1) else [] := by
  cases n with
  | zero => simp
  | succ n => by_cases hx : p x = true <;> simp [hx]

lemma take_takeWhile_append {p : α → Bool} {n : ℕ} {l r : List α} {x : α} (hl : ∀ y ∈ l, p y = true)
    (hlen : l.length ≤ n) (hx : p x = false) : ((l ++ x :: r).takeWhile p).take n = l := by
  rw [takeWhile_append_of_pos hl,
    takeWhile_cons_of_neg (by rw [hx]; exact Bool.false_ne_true), append_nil,
    take_of_length_le hlen]

lemma take_takeWhile_eq_self_iff {p : α → Bool} {n : ℕ} {l : List α} :
    (l.takeWhile p).take n = l ↔ (∀ x ∈ l, p x = true) ∧ l.length ≤ n := by
  constructor
  · intro h
    have hlen : l.length ≤ n := by
      rw [← h]
      exact length_take_le _ _
    refine ⟨fun x hx => ?_, hlen⟩
    rw [← h] at hx
    exact mem_takeWhile_imp (mem_of_mem_take hx)
  · rintro ⟨hall, hlen⟩
    rw [takeWhile_eq_self_iff.mpr hall, take_of_length_le hlen]

lemma exists_take_takeWhile_append (n : ℕ) (l : List α) : ∃ r, l = (l.takeWhile p).take n ++ r :=
  ((List.take_prefix _ _).trans (List.takeWhile_prefix _)).imp fun _ h => h.symm

end Rsyslog.Lib
