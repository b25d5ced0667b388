import Mathlib.Data.List.Basic

/-!
# Decoders that consume exactly what was written

A decoder runs in `EStateM` over some source of symbols. `src bs off` is the source with the symbols
`bs` still to come, at offset `off`. `Decodes src p bs a` says that `p` reads `a` from `bs` and
leaves whatever follows: the offset then stands right behind `bs`.
-/

namespace Rsyslog.Lib

variable {ε σ β α γ : Type}

/-- `p` reads `a` from `bs` and nothing more. -/
def Decodes (src : List β → ℕ → σ) (p : EStateM ε σ α) (bs : List β) (a : α) : Prop :=
  ∀ rest off, p (src (bs ++ rest) off) = .ok a (src rest (off + bs.length))

def replicateM (p : EStateM ε σ α) : ℕ → EStateM ε σ (List α)
  | 0 => pure []
  | n + 1 => do
    let a ← p
    let as ← replicateM p n
    pure (a :: as)

/-- A step that succeeds hands its result and its state on. -/
lemma bind_eq_of_ok {p : EStateM ε σ α} {f : α → EStateM ε σ γ} {s s' : σ} {a : α}
    (h : p s = .ok a s') : (p >>= f) s = f a s' := by
  show EStateM.bind p f s = _
  rw [EStateM.bind, h]

lemma get_bind (f : σ → EStateM ε σ γ) (s : σ) : (get >>= f) s = f s s := rfl

namespace Decodes

variable {src : List β → ℕ → σ} {p : EStateM ε σ α} {f : α → EStateM ε σ γ} {bs cs : List β}
  {a : α} {c : γ}

protected lemma pure (a : α) : Decodes src (pure a : EStateM ε σ α) [] a := fun _ _ => rfl

/-- Two decoders in a row read two pieces in a row. -/
protected lemma bind (hp : Decodes src p bs a) (hf : Decodes src (f a) cs c) :
    Decodes src (p >>= f) (bs ++ cs) c := by
  intro rest off
  rw [List.append_assoc, bind_eq_of_ok (hp _ _), hf, List.length_append, Nat.add_assoc]

/-- A decoder whose result is only passed on. -/
protected lemma map (g : α → γ) (hp : Decodes src p bs a) :
    Decodes src (p >>= fun x => pure (g x)) bs (g a) := by
  have h := hp.bind (f := fun x => pure (g x)) (Decodes.pure (g a))
  rwa [List.append_nil] at h

/-- A check that passes reads nothing. -/
protected lemma ite_neg {P : Prop} [Decidable P] {q : EStateM ε σ α} (hP : ¬P)
    (hp : Decodes src p bs a) : Decodes src (if P then q else p) bs a := by
  rwa [if_neg hP]

/-- The piece may be given in another form. -/
protected lemma cast (hp : Decodes src p bs a) (h : cs = bs) : Decodes src p cs a := by
  rwa [h]

end Decodes

end Rsyslog.Lib
