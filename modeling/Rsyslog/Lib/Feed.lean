import Mathlib.Data.List.Basic

/-!
# Machines that are fed symbol by symbol

A machine takes one symbol at a time and may emit outputs. `feed` runs it over a list. Two facts
carry most arguments about such machines: how the input is cut into pieces does not matter
(`feed_feed`), and a machine that gets from one resting state to the next over every single frame
does so over any sequence of frames (`feed_frames`).
-/

namespace Rsyslog.Lib

variable {σ β γ φ : Type}

/-- Feed the symbols one after the other, and collect what is emitted. -/
def feed (step : σ → β → σ × List γ) : σ → List β → σ × List γ
  | s, [] => (s, [])
  | s, b :: bs =>
    let r := step s b
    let r' := feed step r.1 bs
    (r'.1, r.2 ++ r'.2)

variable {step : σ → β → σ × List γ} {s s' s'' : σ} {b : β} {bs bs' : List β} {o o' : List γ}

@[simp] lemma feed_nil : feed step s [] = (s, []) := rfl

lemma feed_cons : feed step s (b :: bs) =
    ((feed step (step s b).1 bs).1, (step s b).2 ++ (feed step (step s b).1 bs).2) := rfl

/-- Go on from what was emitted so far. -/
def feedOn (step : σ → β → σ × List γ) (r : σ × List γ) (bs : List β) : σ × List γ :=
  ((feed step r.1 bs).1, r.2 ++ (feed step r.1 bs).2)

lemma feedOn_nil {r : σ × List γ} : feedOn step r [] = r := by
  rw [feedOn, feed_nil, List.append_nil]

lemma feedOn_cons : feedOn step (s, o) (b :: bs) =
    ((feedOn step (step s b) bs).1, o ++ (feedOn step (step s b) bs).2) := rfl

/-- One step, then the rest. -/
lemma feed_cons_of_eq (hstep : step s b = (s', o)) (hrest : feed step s' bs = (s'', o')) :
    feed step s (b :: bs) = (s'', o ++ o') := by
  rw [feed_cons, hstep, hrest]

lemma feed_append : feed step s (bs ++ bs') =
    ((feed step (feed step s bs).1 bs').1,
      (feed step s bs).2 ++ (feed step (feed step s bs).1 bs').2) := by
  induction bs generalizing s with
  | nil => rfl
  | cons b bs ih => rw [List.cons_append, feed_cons, ih, feed_cons, List.append_assoc]

lemma feed_append_of_eq (hfst : feed step s bs = (s', o)) (hsnd : feed step s' bs' = (s'', o')) :
    feed step s (bs ++ bs') = (s'', o ++ o') := by
  rw [feed_append, hfst, hsnd]

/-- **Cuts do not matter.** Feeding pieces is feeding what they make up. -/
theorem feed_feed (s : σ) (pieces : List (List β)) :
    feed (feed step) s pieces = feed step s pieces.flatten := by
  induction pieces generalizing s with
  | nil => rfl
  | cons piece pieces ih => rw [List.flatten_cons, feed_append, feed_cons, ih]

/-- **Frames follow frames.** A machine that reads every frame from any resting state, and rests
again after it, reads every sequence of frames. -/
theorem feed_frames {rest : σ → Prop} {enc : φ → List β} {out : φ → List γ} {frames : List φ}
    (hframe : ∀ f ∈ frames, ∀ s, rest s → ∃ s', feed step s (enc f) = (s', out f) ∧ rest s')
    (hs : rest s) :
    ∃ s', feed step s (frames.map enc).flatten = (s', (frames.map out).flatten) ∧ rest s' := by
  induction frames generalizing s with
  | nil => exact ⟨s, rfl, hs⟩
  | cons f frames ih =>
    obtain ⟨s₁, hread, hs₁⟩ := hframe f List.mem_cons_self s hs
    obtain ⟨s₂, hreads, hs₂⟩ := ih (fun g hg => hframe g (List.mem_cons_of_mem f hg)) hs₁
    exact ⟨s₂, feed_append_of_eq hread hreads, hs₂⟩

/-- **Lockstep.** Machines whose related states emit the same on each symbol emit the same on every
input. -/
theorem feed_lockstep {σ' β' : Type} {step' : σ' → β' → σ' × List γ} {R : σ → σ' → Prop}
    {f : β → β'}
    (hstep : ∀ s t b, R s t → (step s b).2 = (step' t (f b)).2 ∧ R (step s b).1 (step' t (f b)).1)
    {t : σ'} (h : R s t) : (feed step s bs).2 = (feed step' t (bs.map f)).2 := by
  induction bs generalizing s t with
  | nil => rfl
  | cons b bs ih =>
    obtain ⟨hout, hR⟩ := hstep s t b h
    rw [List.map_cons, feed_cons, feed_cons, hout, ih hR]

end Rsyslog.Lib
