import Rsyslog.Action.Stable

/-!
# How often a retry calls the module

`actionDoRetry` is meant to call `tryResume` at most `iResumeRetryCount + 1` times. It counts the
answers SUSPENDED, and it leaves on OK; every other answer is asked for again without being counted
(`retry_bounded_iff`).
-/

namespace Rsyslog.Action

open Lib Nat

variable {μ : Type} {env : Env μ} {act : ActConf} {w : Wrkr μ} {E : Wrkr μ → Prop}

/-! ## The answers -/

def tryResumes : Hist μ → ℕ
  | [] => 0
  | .call .tryResume _ :: h => tryResumes h + 1
  | _ :: h => tryResumes h

/-- The `i`-th code that a retry goes by, when `a` are the answers of `tryResume`. -/
def heard (a : ℕ → RsRet) (w : Wrkr μ) (i : ℕ) : RsRet :=
  if i = 0 ∧ w.Distrusts then .suspended else a (tryResumes w.hist + i)

lemma heard_next (a : ℕ → RsRet) {t : Wrkr μ} (ht : ¬t.Distrusts)
    (hc : tryResumes t.hist = tryResumes w.hist + 1) (i : ℕ) : heard a t i = heard a w (i + 1) := by
  simp [heard, ht, hc, add_assoc, add_comm]

/-- The first `b` codes let a retry end that suspends the action at the SUSPENDED after `left` more:
one of them is OK, or they are `left + 1` times SUSPENDED. -/
def Ends (c : ℕ → RsRet) (left b : ℕ) : Prop :=
  (∃ i < b, c i = .ok) ∨ (b = left + 1 ∧ ∀ i < b, c i = .suspended)

section Ends

variable {c : ℕ → RsRet} {left b : ℕ}

lemma not_ends_zero : ¬Ends c left 0 := by
  rintro (⟨i, hi, -⟩ | ⟨h, -⟩)
  · exact absurd hi (not_lt_zero i)
  · exact absurd h.symm (succ_ne_zero left)

lemma ends_last (h : c 0 = .suspended) : Ends c 0 1 := by
  refine .inr ⟨rfl, ?_⟩
  intro i hi
  obtain rfl : i = 0 := by omega
  exact h

lemma exists_ok_succ (h : c 0 ≠ .ok) : (∃ i < b + 1, c i = .ok) ↔ ∃ i < b, c (i + 1) = .ok := by
  constructor
  · rintro ⟨_ | i, hi, hc⟩
    · exact absurd hc h
    · exact ⟨i, by omega, hc⟩
  · rintro ⟨i, hi, hc⟩
    exact ⟨i + 1, by omega, hc⟩

lemma ends_suspended (h : c 0 = .suspended) :
    Ends c (left + 1) (b + 1) ↔ Ends (fun i => c (i + 1)) left b := by
  have hall : (∀ i < b + 1, c i = .suspended) ↔ ∀ i < b, c (i + 1) = .suspended := by
    constructor
    · intro hc i hi
      exact hc (i + 1) (by omega)
    · rintro hc (_ | i) hi
      · exact h
      · exact hc i (by omega)
  rw [Ends, exists_ok_succ (by simp [h]), hall, succ_inj, Ends]

lemma ends_other (h : c 0 ≠ .ok) (h' : c 0 ≠ .suspended) (hb : b ≤ left) :
    Ends c left (b + 1) ↔ Ends (fun i => c (i + 1)) left b := by
  have hleft : ¬(b + 1 = left + 1 ∧ ∀ i < b + 1, c i = .suspended) :=
    fun hc => h' (hc.2 0 (succ_pos b))
  have hright : ¬(b = left + 1 ∧ ∀ i < b, c (i + 1) = .suspended) := fun hc => by omega
  rw [Ends, exists_ok_succ h, Ends, or_iff_left hleft, or_iff_left hright]

end Ends

section Bounded

variable {a : ℕ → RsRet} {k : ℕ} {j : ℤ} {iRet : RsRet} {Q : RsRet → Wrkr μ → Prop}

lemma wp_doRetryLoop_of_ne_rtry (hs : ∀ h, env.shutdownImmediate h = false)
    (hw : w.actState ≠ .rtry) :
    Wp (doRetryLoop env act (k + 1) j iRet) Q E w ↔ Q iRet (w.push (.shutdownImmediate false)) := by
  simp [wp_retryLoop_succ, hs, hw]

/-- One round of the loop goes by the code `heard a w 0`: it leaves RTRY on OK and on the last
SUSPENDED, and otherwise goes on. -/
lemma wp_doRetryLoop_round (hs : ∀ h, env.shutdownImmediate h = false)
    (ha : ∀ h, env.ret .tryResume h = a (tryResumes h)) {n : ℕ} (hn : act.iResumeRetryCount = n)
    (hw : w.actState = .rtry)
    (hout : ∀ u r, tryResumes u.hist = tryResumes w.hist + 1 → u.actState ≠ .rtry →
      (heard a w 0 = .ok ∨ heard a w 0 = .suspended ∧ n ≤ j) →
      Wp (doRetryLoop env act k j r) Q E u)
    (hnext : ∀ u r, tryResumes u.hist = tryResumes w.hist + 1 → ¬u.Distrusts →
      u.actState = .rtry → heard a w 0 = .suspended → j < n →
      Wp (doRetryLoop env act k (j + 1) r) Q E u)
    (hagain : ∀ u r, tryResumes u.hist = tryResumes w.hist + 1 → ¬u.Distrusts →
      u.actState = .rtry → heard a w 0 ≠ .ok → heard a w 0 ≠ .suspended →
      Wp (doRetryLoop env act k j r) Q E u) :
    Wp (doRetryLoop env act (k + 1) j iRet) Q E w := by
  set w' := w.push (.shutdownImmediate false) with hw'
  set t := w'.tried (env.ret .tryResume w'.hist) with ht
  have hr : (if w'.Distrusts then RsRet.suspended else env.ret .tryResume w'.hist) =
      heard a w 0 := by
    simp [hw', heard, ha, tryResumes]
  have hcount : tryResumes t.hist = tryResumes w.hist + 1 := by simp [ht, hw', tryResumes]
  have htrust : ¬t.Distrusts := Wrkr.tried_trusts _
  have hst : t.actState = .rtry := by simp [ht, hw', hw]
  simp only [wp_retryLoop_succ, hs, wp_callTryResume, ← hw', hr, ← ht]
  refine ⟨fun h => absurd hw (h.resolve_left (by simp)), fun _ _ => ⟨fun hc => ?_,
    fun hc => ⟨fun h => ?_, fun _ h => absurd h (by simp), fun h _ => ?_⟩, fun hc => ?_,
    fun hok hsusp _ => ?_⟩⟩
  · exact hout _ _ hcount (by simp) (.inl hc)
  · exact hout _ _ hcount (by simp) (.inr ⟨hc, by omega⟩)
  · exact hnext _ _ hcount htrust hst hc (by omega)
  · exact hagain _ _ hcount htrust hst (by simp [hc]) (by simp [hc])
  · exact hagain _ _ hcount htrust hst hok hsusp

lemma stable_tryResumes (c : ℕ) : Stable fun w : Wrkr μ => c ≤ tryResumes w.hist where
  push w e he hw := by
    cases he with
    | tryResume => exact le_succ_of_le hw
    | _ => exact hw
  state _ _ _ _ hw := hw

/-- The loop returns within `b` calls exactly if the first `b` codes let it end, and then `b + 1`
rounds are enough. -/
lemma doRetryLoop_ends (hs : ∀ h, env.shutdownImmediate h = false)
    (ha : ∀ h, env.ret .tryResume h = a (tryResumes h)) {n : ℕ} (hn : act.iResumeRetryCount = n)
    {b left fuel : ℕ} (hb : b ≤ left + 1) (hj : j + left = n) (hw : w.actState = .rtry) :
    Wp (doRetryLoop env act fuel j iRet)
      (fun _ t => tryResumes t.hist ≤ tryResumes w.hist + b ↔ Ends (heard a w) left b)
      (fun _ => Ends (heard a w) left b → fuel ≤ b) w := by
  induction b generalizing w left fuel iRet j with
  | zero =>
    obtain _ | k := fuel
    · exact fun _ => le_rfl
    -- the first round calls `tryResume`, and no round takes that back
    have hmore (u : Wrkr μ) (r : RsRet) (i : ℤ) (hu : tryResumes u.hist = tryResumes w.hist + 1) :
        Wp (doRetryLoop env act k i r)
          (fun _ t => tryResumes t.hist ≤ tryResumes w.hist + 0 ↔ Ends (heard a w) left 0)
          (fun _ => Ends (heard a w) left 0 → k + 1 ≤ 0) u := by
      refine (doRetryLoop_keeps env act (stable_tryResumes _) k i r u hu.ge).mono ?_
        fun _ _ h => absurd h not_ends_zero
      intro _ v hv
      exact iff_of_false (by omega) not_ends_zero
    exact wp_doRetryLoop_round hs ha hn hw (fun u r hu _ _ => hmore u r j hu)
      (fun u r hu _ _ _ _ => hmore u r (j + 1) hu) fun u r hu _ _ _ _ => hmore u r j hu
  | succ b ih =>
    obtain _ | k := fuel
    · exact fun _ => zero_le _
    -- one call less is left to a worker that goes on
    have hrest (u : Wrkr μ) (r : RsRet) (i : ℤ) (left' : ℕ)
        (hu : tryResumes u.hist = tryResumes w.hist + 1) (hd : ¬u.Distrusts)
        (hst : u.actState = .rtry) (hb' : b ≤ left' + 1) (hi : i + left' = n)
        (hends : Ends (heard a w) left (b + 1) ↔ Ends (fun i => heard a w (i + 1)) left' b) :
        Wp (doRetryLoop env act k i r)
          (fun _ t => tryResumes t.hist ≤ tryResumes w.hist + (b + 1) ↔
            Ends (heard a w) left (b + 1))
          (fun _ => Ends (heard a w) left (b + 1) → k + 1 ≤ b + 1) u := by
      have hheard : heard a u = fun i => heard a w (i + 1) := funext (heard_next a hd hu)
      refine (ih hb' hi hst).mono ?_ ?_
      · intro _ v hv
        rw [hends, ← hheard, ← hv, hu, add_assoc, add_comm 1 b]
      · intro v hv he
        exact succ_le_succ (hv (by rwa [hheard, ← hends]))
    refine wp_doRetryLoop_round hs ha hn hw ?_ ?_ ?_
    · intro u r hu hne hc
      have hends : Ends (heard a w) left (b + 1) := by
        rcases hc with hc | ⟨hc, hnj⟩
        · exact .inl ⟨0, succ_pos b, hc⟩
        · obtain rfl : left = 0 := by omega
          obtain rfl : b = 0 := by omega
          exact ends_last hc
      obtain _ | k := k
      · exact fun _ => by omega
      · rw [wp_doRetryLoop_of_ne_rtry hs hne]
        refine iff_of_true ?_ hends
        simp only [Wrkr.push_hist, tryResumes]
        omega
    · intro u r hu hd hst hc hlt
      obtain ⟨l, rfl⟩ : ∃ l, left = l + 1 := ⟨left - 1, by omega⟩
      exact hrest u r (j + 1) l hu hd hst (by omega) (by omega) (ends_suspended hc)
    · intro u r hu hd hst hok hsusp
      exact hrest u r j left hu hd hst (by omega) hj (ends_other hok hsusp (by omega))

/-- One call of `actionDoRetry` returns after at most `n + 1` calls of `tryResume` exactly if there
is nothing to retry, or one of the first `n + 1` answers is OK, or all of them are SUSPENDED. The
first answer counts as SUSPENDED if it is distrusted. -/
theorem retry_bounded_iff (hs : ∀ h, env.shutdownImmediate h = false)
    (ha : ∀ h, env.ret .tryResume h = a (tryResumes h)) {n : ℕ} (hn : act.iResumeRetryCount = n)
    (w : Wrkr μ) :
    (∃ fuel r t, actionDoRetry env act fuel w = .ok r t ∧
        tryResumes t.hist ≤ tryResumes w.hist + (n + 1)) ↔
      w.actState ≠ .rtry ∨ (∃ i ≤ n, heard a w i = .ok) ∨ ∀ i ≤ n, heard a w i = .suspended := by
  by_cases hw : w.actState = .rtry
  · have hends : (∃ i ≤ n, heard a w i = .ok) ∨ (∀ i ≤ n, heard a w i = .suspended) ↔
        Ends (heard a w) n (n + 1) := by
      simp [Ends, Nat.lt_succ_iff]
    have hloop (fuel : ℕ) : Wp (actionDoRetry env act fuel) _ _ w :=
      doRetryLoop_ends hs ha hn le_rfl (zero_add (n : ℤ)) hw
    rw [or_iff_right (not_not_intro hw), hends]
    constructor
    · rintro ⟨fuel, r, t, hret, hle⟩
      exact ((hloop fuel).ok hret).mp hle
    · intro h
      have hret : Wp (actionDoRetry env act (n + 2))
          (fun _ t => tryResumes t.hist ≤ tryResumes w.hist + (n + 1)) (fun _ => False) w := by
        refine (hloop (n + 2)).mono (fun _ _ hq => hq.mpr h) fun _ hcut => ?_
        exact absurd (hcut h) (not_succ_le_self (n + 1))
      obtain ⟨r, t, hret, hle⟩ := hret.returns
      exact ⟨n + 2, r, t, hret, hle⟩
  · refine iff_of_true ?_ (.inl hw)
    have hret : Wp (actionDoRetry env act 1)
        (fun _ t => tryResumes t.hist ≤ tryResumes w.hist + (n + 1)) (fun _ => False) w := by
      rw [actionDoRetry, wp_doRetryLoop_of_ne_rtry hs hw]
      simp only [Wrkr.push_hist, tryResumes]
      omega
    obtain ⟨r, t, hret, hle⟩ := hret.returns
    exact ⟨1, r, t, hret, hle⟩

end Bounded

/-! ## A module that asks to be disabled -/

def retrying : Wrkr Unit := { Wrkr.init Unit with actWrkrData := true, actState := .rtry }

def retryOnce : ActConf := ⟨false, false, 1, false⟩

theorem retry_bounded_when_suspended :
    (∀ i ≤ 1, heard (fun _ => .suspended) retrying i = .suspended) ∧
      ∃ fuel r t, actionDoRetry (.constant fun _ => .suspended) retryOnce fuel retrying = .ok r t ∧
        tryResumes t.hist ≤ tryResumes retrying.hist + (1 + 1) := by
  have hall : ∀ i ≤ 1, heard (fun _ => .suspended) retrying i = .suspended := by
    simp [heard]
  refine ⟨hall, ?_⟩
  exact (retry_bounded_iff (a := fun _ => .suspended) (n := 1) (fun _ => rfl) (fun _ => rfl) rfl
    retrying).mpr (.inr (.inr hall))

/-- `tryResume` answers DISABLE_ACTION every time: `actionDoRetry` does not return. -/
theorem retry_unbounded_when_disabled :
    ¬∃ fuel r t,
      actionDoRetry (.constant fun _ => .disableAction) retryOnce fuel retrying = .ok r t ∧
      tryResumes t.hist ≤ tryResumes retrying.hist + (1 + 1) := by
  rintro ⟨fuel, r, t, hret, hle⟩
  have hloop : Wp (actionDoRetry (.constant fun _ => .disableAction) retryOnce fuel) _ _ retrying :=
    doRetryLoop_ends (a := fun _ => .disableAction) (n := 1) (fun _ => rfl) (fun _ => rfl) rfl
      le_rfl (zero_add 1) rfl
  have hends := (hloop.ok hret).mp hle
  have hdis (i : ℕ) : heard (fun _ => .disableAction) retrying i = .disableAction := by
    simp [heard, Wrkr.Distrusts, retrying, Wrkr.init]
  rcases hends with ⟨i, -, hi⟩ | ⟨-, hall⟩
  · simp [hdis] at hi
  · have h0 := hall 0 (by omega)
    simp [hdis] at h0

end Rsyslog.Action
