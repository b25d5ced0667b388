import Mathlib.Data.List.Induction

/-!
# Runs of a partial step function

A machine is a function `step : σ → ι → Option σ`: `none` says that the step has no defined outcome.
`run` feeds it a list of inputs. `Always` says that a property holds in every state a run passes
through, `Along` that a condition on the state and the next input holds before every step.

An invariant that a step preserves under a condition holds along the runs that meet it
(`Always.of_along`), and a flag that a step clears exactly when the condition fails stays set
exactly in the runs that meet it (`always_iff_along`).
-/

namespace Rsyslog.Lib

variable {σ τ ι : Type*}

/-- Feed the inputs to the machine, from the left. -/
def run (step : σ → ι → Option σ) : σ → List ι → Option σ
  | s, [] => some s
  | s, i :: is => (step s i).bind fun s' => run step s' is

/-- `P` holds in every state the run passes through, the first one included. -/
def Always (step : σ → ι → Option σ) (P : σ → Prop) : σ → List ι → Prop
  | s, [] => P s
  | s, i :: is => P s ∧ ∀ s', step s i = some s' → Always step P s' is

/-- `cond` holds of the state and the input before every step of the run. -/
def Along (step : σ → ι → Option σ) (cond : σ → ι → Prop) : σ → List ι → Prop
  | _, [] => True
  | s, i :: is => cond s i ∧ ∀ s', step s i = some s' → Along step cond s' is

instance decidableAlong {step : σ → ι → Option σ} {cond : σ → ι → Prop}
    [∀ s i, Decidable (cond s i)] : ∀ s is, Decidable (Along step cond s is)
  | _, [] => .isTrue trivial
  | s, i :: is =>
    match h : step s i with
    | none => decidable_of_iff (cond s i) (by simp [Along, h])
    | some t =>
      have : Decidable (Along step cond t is) := decidableAlong t is
      decidable_of_iff (cond s i ∧ Along step cond t is) (by simp [Along, h])

variable {s : σ}

section Rules

variable {step : σ → ι → Option σ} {P Q Inv : σ → Prop} {cond : σ → ι → Prop}

@[simp] lemma run_nil (s : σ) : run step s [] = some s := rfl

lemma run_cons (s : σ) (i : ι) (is : List ι) :
    run step s (i :: is) = (step s i).bind fun s' => run step s' is := rfl

lemma along_cons {t : σ} {i : ι} {is : List ι} (h : step s i = some t) :
    Along step cond s (i :: is) ↔ cond s i ∧ Along step cond t is := by
  refine and_congr_right fun _ => ⟨fun hall => hall t h, fun ht u hu => ?_⟩
  rwa [Option.some.inj (hu.symm.trans h)]

lemma run_snoc (s : σ) (is : List ι) (i : ι) :
    run step s (is ++ [i]) = (run step s is).bind fun s' => step s' i := by
  induction is generalizing s with
  | nil => simp [run]
  | cons j is ih =>
    rw [List.cons_append, run_cons, run_cons, Option.bind_assoc]
    exact congrArg _ (funext ih)

/-- What is known of the inputs so far and of the state, if every step keeps it. -/
lemma run_tracks (R : List ι → σ → Prop)
    (hstep : ∀ is s i, R is s → ∃ s', step s i = some s' ∧ R (is ++ [i]) s') (h : R [] s)
    (is : List ι) : ∃ s', run step s is = some s' ∧ R is s' := by
  induction is using List.reverseRecOn with
  | nil => exact ⟨s, rfl, h⟩
  | append_singleton is i ih =>
    obtain ⟨t, ht, hR⟩ := ih
    obtain ⟨u, hu, hR'⟩ := hstep is t i hR
    exact ⟨u, by rw [run_snoc, ht]; exact hu, hR'⟩

/-- A machine whose step is defined wherever the invariant holds never gets stuck. -/
lemma run_defined (hstep : ∀ s i, Inv s → ∃ s', step s i = some s' ∧ Inv s') (is : List ι)
    (hs : Inv s) : ∃ s', run step s is = some s' ∧ Inv s' :=
  run_tracks (fun _ => Inv) (fun _ => hstep) hs is

/-- The same for a step that is defined only under `cond`. -/
lemma run_defined_of_along (hstep : ∀ s i, Inv s → cond s i → ∃ s', step s i = some s' ∧ Inv s')
    {is : List ι} (hs : Inv s) (h : Along step cond s is) :
    ∃ s', run step s is = some s' ∧ Inv s' := by
  induction is generalizing s with
  | nil => exact ⟨s, rfl, hs⟩
  | cons i is ih =>
    obtain ⟨t, ht, hinv⟩ := hstep s i hs h.1
    obtain ⟨u, hu, hinv'⟩ := ih hinv (h.2 t ht)
    exact ⟨u, by rw [run_cons, ht]; exact hu, hinv'⟩

lemma Always.mono (hPQ : ∀ s, P s → Q s) {is : List ι} (h : Always step P s is) :
    Always step Q s is := by
  induction is generalizing s with
  | nil => exact hPQ s h
  | cons i is ih => exact ⟨hPQ s h.1, fun t ht => ih (h.2 t ht)⟩

/-- An invariant that a step preserves under `cond` holds along every run that meets `cond`. -/
lemma Always.of_along (hstep : ∀ s i s', Inv s → cond s i → step s i = some s' → Inv s')
    {is : List ι} (hs : Inv s) (h : Along step cond s is) : Always step Inv s is := by
  induction is generalizing s with
  | nil => exact hs
  | cons i is ih => exact ⟨hs, fun t ht => ih (hstep s i t hs h.1 ht) (h.2 t ht)⟩

/-- Under an invariant, conditions that say the same say the same along a run. -/
lemma along_iff_along {cond' : σ → ι → Prop} (hiff : ∀ s i, Inv s → (cond s i ↔ cond' s i))
    (hstep : ∀ s i s', Inv s → cond' s i → step s i = some s' → Inv s') (is : List ι) (hs : Inv s) :
    Along step cond s is ↔ Along step cond' s is := by
  induction is generalizing s with
  | nil => exact Iff.rfl
  | cons i is ih =>
    constructor
    · rintro ⟨hc, h⟩
      have hc' := (hiff s i hs).mp hc
      exact ⟨hc', fun t ht => (ih (hstep s i t hs hc' ht)).mp (h t ht)⟩
    · rintro ⟨hc', h⟩
      exact ⟨(hiff s i hs).mpr hc', fun t ht => (ih (hstep s i t hs hc' ht)).mpr (h t ht)⟩

/-- Under an invariant, a flag that a step keeps exactly when `cond` holds is set along exactly
the runs that meet `cond`. -/
lemma always_iff_along (hinv : ∀ s i s', Inv s → step s i = some s' → Inv s')
    (hdef : ∀ s i, Inv s → ∃ s', step s i = some s')
    (hflag : ∀ s i s', Inv s → P s → step s i = some s' → (P s' ↔ cond s i)) (is : List ι)
    (hs : Inv s) (hP : P s) : Always step P s is ↔ Along step cond s is := by
  induction is generalizing s with
  | nil => exact ⟨fun _ => trivial, fun _ => hP⟩
  | cons i is ih =>
    obtain ⟨t, ht⟩ := hdef s i hs
    have hPt : Always step P t is → P t := by
      intro h
      cases is with
      | nil => exact h
      | cons _ _ => exact h.1
    rw [along_cons ht]
    constructor
    · rintro ⟨_, h⟩
      have hPt' := hPt (h t ht)
      exact ⟨(hflag s i t hs hP ht).mp hPt', (ih (hinv s i t hs ht) hPt').mp (h t ht)⟩
    · rintro ⟨hc, h⟩
      have hPt' := (hflag s i t hs hP ht).mpr hc
      refine ⟨hP, fun u hu => ?_⟩
      rw [Option.some.inj (hu.symm.trans ht)]
      exact (ih (hinv s i t hs ht) hPt').mpr h

end Rules

variable {step : σ → ι → Option σ}

/-- **Lock-step simulation.** If the machine takes a defined step wherever a total machine takes
one, and the states stay related, then its runs are defined and end in related states. -/
theorem run_sim {spec : τ → ι → τ} {R : σ → τ → Prop}
    (hstep : ∀ s t i, R s t → ∃ s', step s i = some s' ∧ R s' (spec t i)) {t : τ} (is : List ι)
    (h : R s t) : ∃ s', run step s is = some s' ∧ R s' (is.foldl spec t) := by
  refine run_tracks (fun is s => R s (is.foldl spec t)) (fun is s i hR => ?_) h is
  rw [List.foldl_append]
  exact hstep s _ i hR

end Rsyslog.Lib
