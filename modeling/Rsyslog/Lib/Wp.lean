import Mathlib.Logic.Basic

/-!
# Weakest preconditions for programs that may be cut short

A program is an `EStateM ε σ α`: it changes a state, and it either returns a value or is cut short
with the state it has reached. `Wp m Q E s` says where `m` can get from `s`: if it returns `a` in
`t`, then `Q a t`; if it is cut short in `t`, then `E t`.

With `E` true everywhere this is partial correctness, with `E` false everywhere total correctness,
and with `Q` false everywhere it says that the program does not return.
-/

namespace Rsyslog.Lib

variable {ε σ α β : Type}

/-- From `s`, the program returns only in `Q` and is cut short only in `E`. -/
def Wp (m : EStateM ε σ α) (Q : α → σ → Prop) (E : σ → Prop) (s : σ) : Prop :=
  match m s with
  | .ok a t => Q a t
  | .error _ t => E t

instance decidableWp {m : EStateM ε σ α} {Q : α → σ → Prop} {E : σ → Prop} {s : σ}
    [∀ a t, Decidable (Q a t)] [∀ t, Decidable (E t)] : Decidable (Wp m Q E s) :=
  match h : m s with
  | .ok a t => decidable_of_iff (Q a t) (by simp [Wp, h])
  | .error _ t => decidable_of_iff (E t) (by simp [Wp, h])

/-- What holds of the runs that return; a run that is cut short is not looked at. -/
abbrev Returns (m : EStateM ε σ α) (Q : α → σ → Prop) (s : σ) : Prop := Wp m Q (fun _ => True) s

section Rules

variable {m : EStateM ε σ α} {f : α → EStateM ε σ β} {Q Q' : α → σ → Prop} {R : β → σ → Prop}
  {E E' : σ → Prop} {s : σ}

@[simp] lemma wp_pure (a : α) : Wp (pure a : EStateM ε σ α) Q E s ↔ Q a s := Iff.rfl

@[simp] lemma wp_bind : Wp (m >>= f) R E s ↔ Wp m (fun a t => Wp (f a) R E t) E s := by
  simp only [Wp, bind, EStateM.bind]
  cases m s <;> rfl

@[simp] lemma wp_map (g : α → β) : Wp (g <$> m) R E s ↔ Wp m (fun a t => R (g a) t) E s := by
  simp only [Wp, Functor.map, EStateM.map]
  cases m s <;> rfl

@[simp] lemma wp_get {Q : σ → σ → Prop} : Wp (get : EStateM ε σ σ) Q E s ↔ Q s s := Iff.rfl

@[simp] lemma wp_modify {Q : Unit → σ → Prop} (g : σ → σ) :
    Wp (modify g : EStateM ε σ Unit) Q E s ↔ Q () (g s) := Iff.rfl

@[simp] lemma wp_throw (e : ε) : Wp (throw e : EStateM ε σ α) Q E s ↔ E s := Iff.rfl

@[simp] lemma wp_ite {c : Prop} [Decidable c] {m₁ m₂ : EStateM ε σ α} :
    Wp (if c then m₁ else m₂) Q E s ↔ (c → Wp m₁ Q E s) ∧ (¬c → Wp m₂ Q E s) := by
  by_cases h : c <;> simp [h]

/-- Both outcomes may be weakened. -/
lemma Wp.mono (h : Wp m Q E s) (hQ : ∀ a t, Q a t → Q' a t) (hE : ∀ t, E t → E' t) :
    Wp m Q' E' s := by
  unfold Wp at h ⊢
  cases hm : m s with
  | ok a t =>
    rw [hm] at h
    exact hQ a t h
  | error e t =>
    rw [hm] at h
    exact hE t h

lemma Wp.imp (h : Wp m Q E s) (hQ : ∀ a t, Q a t → Q' a t) : Wp m Q' E s :=
  h.mono hQ fun _ => id

lemma wp_trivial : Wp m (fun _ _ => True) (fun _ => True) s := by
  unfold Wp
  cases m s <;> trivial

lemma wp_congr (hQ : ∀ a t, Q a t ↔ Q' a t) : Wp m Q E s ↔ Wp m Q' E s :=
  ⟨fun h => h.imp fun a t => (hQ a t).mp, fun h => h.imp fun a t => (hQ a t).mpr⟩

/-- Two facts about one program hold together. -/
lemma Wp.and (h : Wp m Q E s) (h' : Wp m Q' E' s) :
    Wp m (fun a t => Q a t ∧ Q' a t) (fun t => E t ∧ E' t) s := by
  unfold Wp at h h' ⊢
  cases hm : m s with
  | ok a t | error e t =>
    rw [hm] at h h'
    exact ⟨h, h'⟩

/-- What is known of a program is known of the value it returns. -/
lemma Wp.ok {a : α} {t : σ} (h : Wp m Q E s) (hm : m s = .ok a t) : Q a t := by
  unfold Wp at h
  rwa [hm] at h

/-- A program that is never cut short returns. -/
lemma Wp.returns (h : Wp m Q (fun _ => False) s) : ∃ a t, m s = .ok a t ∧ Q a t := by
  unfold Wp at h
  cases hm : m s with
  | ok a t =>
    rw [hm] at h
    exact ⟨a, t, rfl, h⟩
  | error e t =>
    rw [hm] at h
    exact h.elim

/-- What a program returns from a given state is found by running it. -/
lemma returns_of_decide [∀ a t, Decidable (Q a t)]
    (h : decide (Wp m Q (fun _ => False) s) = true) : ∃ a t, m s = .ok a t ∧ Q a t :=
  (of_decide_eq_true h).returns

end Rules

/-! ## Invariants -/

/-- The program keeps the invariant, whether it returns or is cut short. -/
def Keeps (I : σ → Prop) (m : EStateM ε σ α) : Prop := ∀ s, I s → Wp m (fun _ => I) I s

section Keeps

variable {I : σ → Prop} {m m₁ m₂ : EStateM ε σ α} {f : α → EStateM ε σ β}

lemma Keeps.pure (a : α) : Keeps I (Pure.pure a : EStateM ε σ α) := fun _ hs => hs

lemma Keeps.throw (e : ε) : Keeps I (throw e : EStateM ε σ α) := fun _ hs => hs

lemma Keeps.get : Keeps I (MonadState.get : EStateM ε σ σ) := fun _ hs => hs

lemma Keeps.modify {g : σ → σ} (hg : ∀ s, I s → I (g s)) :
    Keeps I (modify g : EStateM ε σ Unit) := hg

lemma Keeps.bind (hm : Keeps I m) (hf : ∀ a, Keeps I (f a)) : Keeps I (m >>= f) := by
  intro s hs
  rw [wp_bind]
  exact (hm s hs).imp hf

lemma Keeps.ite {c : Prop} [Decidable c] (h₁ : c → Keeps I m₁) (h₂ : ¬c → Keeps I m₂) :
    Keeps I (if c then m₁ else m₂) := by
  by_cases h : c
  · simpa only [if_pos h] using h₁ h
  · simpa only [if_neg h] using h₂ h

end Keeps

end Rsyslog.Lib
