import Rsyslog.Action.Stable

/-!
# Work only in a transaction

The module may be given messages only between a `beginTransaction` that answered OK and the moment
the action leaves ITX. The state is looked at before `doAction` and `endTransaction`, but not before
`commitTransaction`, which is called in every state in which `actionPrepare` returns OK.
-/

namespace Rsyslog.Action

open Lib

variable {μ : Type} {env : Env μ} {act : ActConf} {fuel : ℕ} {w t : Wrkr μ}

/-! ## Open transactions -/

/-- The last `beginTransaction` answered OK, and the action has not left ITX since. -/
def isOpen : Hist μ → Bool
  | [] => false
  | .call .beginTransaction .ok :: _ => true
  | .state st :: h => st == .itx && isOpen h
  | _ :: h => isOpen h

def Event.isWork : Event μ → Bool
  | .call (.doAction _) _ | .call (.commitTransaction _) _ | .call .endTransaction _ => true
  | _ => false

def bracketed : Hist μ → Bool
  | [] => true
  | e :: h => (!e.isWork || isOpen h) && bracketed h

/-- An attempt to commit that starts in state `st`, with history `h`, gets the action into a
transaction: it is ready or in one already, or it is to be retried, the time for it has come and no
shutdown is requested. -/
def Ready (env : Env μ) : ActState → Hist μ → Prop
  | .rdy, _ | .itx, _ => True
  | .rtry, h => env.shutdownImmediate h = false
  | .susp, h => env.retryDue h = true ∧
      env.shutdownImmediate (.state .rtry :: .retryDue true :: h) = false
  | .dataFail, _ => False

def Prepared (env : Env μ) : Hist μ → Prop
  | [] => True
  | .tryCommit st :: h => Ready env st (.tryCommit st :: h) ∧ Prepared env h
  | _ :: h => Prepared env h

/-! ## Preparation -/

/-- The worker knows of its open transaction, and its history is as good as `h`. -/
structure InStep (env : Env μ) (h : Hist μ) (w : Wrkr μ) : Prop where
  isOpen_of_itx : w.actState = .itx → isOpen w.hist = true
  bracketed_eq : bracketed w.hist = bracketed h
  prepared_iff : Prepared env w.hist ↔ Prepared env h

lemma stablePrep_inStep (env : Env μ) (h : Hist μ) : StablePrep (InStep env h) where
  push w e he hw := by cases he <;> exact { hw with }
  state w st hst _ hw := ⟨fun h => absurd h hst, hw.2, hw.3⟩
  createCall w r hw := { hw with }
  begin_ok w hw := ⟨fun _ => rfl, hw.2, hw.3⟩
  begin_ne w r hr hw := by
    refine ⟨fun hst => ?_, hw.2, hw.3⟩
    have hopen : isOpen (w.push (.call .beginTransaction r)).hist = isOpen w.hist := by
      cases r <;> simp_all [isOpen]
    rw [hopen]
    exact hw.1 hst

lemma doRetryLoop_rdy (n : ℕ) (j : ℤ) {iRet : RsRet}
    (h : iRet = .ok → w.actState = .rdy ∨
      w.actState = .rtry ∧ env.shutdownImmediate w.hist = false) :
    Wp (doRetryLoop env act n j iRet) (fun r t => r = .ok → t.actState = .rdy) (fun _ => True)
      w := by
  induction n generalizing w j iRet with
  | zero => trivial
  | succ n ih =>
    rw [wp_retryLoop_succ]
    refine ⟨fun hout hr => ?_, fun _ _ => wp_trivial.imp ?_⟩
    · refine (h hr).resolve_right fun ⟨hst, hs⟩ => ?_
      exact hout.elim (by simp [hs]) fun hne => hne hst
    · intro r t _
      refine ⟨fun _ => ih j fun _ => .inl rfl, fun _ => ⟨fun _ => ?_, ?_, fun _ _ => ?_⟩, ?_, ?_⟩
      · exact ih j (by simp)
      · simp
      · exact ih _ (by simp)
      · exact fun hr => ih j (by simp [hr])
      · exact fun hok _ _ => ih j fun h => absurd h hok

lemma actionDoRetry_rdy (hw : w.actState = .rtry) :
    Wp (actionDoRetry env act fuel)
      (fun r t => r = .ok → t.actState = .rdy ∨ env.shutdownImmediate w.hist = true)
      (fun _ => True) w := by
  cases hs : env.shutdownImmediate w.hist with
  | true => exact wp_trivial.imp fun _ _ _ _ => .inr rfl
  | false =>
    refine (doRetryLoop_rdy fuel 0 fun _ => .inr ⟨hw, hs⟩).imp ?_
    exact fun r t h hr => .inl (h hr)

lemma actionPrepare_itx (hready : Ready env w.actState w.hist) :
    Wp (actionPrepare env act fuel) (fun r t => r = .ok → t.actState = .itx) (fun _ => True) w := by
  by_cases hcr : w.actWrkrData = true
  · rw [wp_actionPrepare hcr, wp_actionTryResume]
    -- what is left to do after a retry that started
    have hretry (u : Wrkr μ) (hu : u.actState = .rtry) (hs : env.shutdownImmediate u.hist = false) :
        Wp (actionDoRetry env act fuel)
          (fun r t => (r ≠ .ok → r = .ok → t.actState = .itx) ∧
            (r = .ok → t.actState ≠ .rdy → RsRet.ok = .ok → t.actState = .itx) ∧
            (r = .ok → t.actState = .rdy → Wp (prepareReady env act fuel)
              (fun r t => r = .ok → t.actState = .itx) (fun _ => True) t)) (fun _ => True) u := by
      refine (actionDoRetry_rdy hu).imp ?_
      intro r t ht
      refine ⟨fun hr h => absurd h hr, fun hr hst => absurd (ht hr) (by simp [hst, hs]), ?_⟩
      exact fun _ _ => prepareReady_itx
    refine ⟨fun hst => hretry w hst ?_, fun hst _ => hretry _ rfl ?_, fun hst hdue => ?_, ?_⟩
    · simpa [hst, Ready] using hready
    · have h := hready
      rw [hst] at h
      exact h.2
    · have h := hready
      rw [hst] at h
      exact absurd h.1 (by simp [hdue])
    · intro hrtry hsusp
      refine ⟨fun h => absurd rfl h, fun _ hrdy _ => ?_, fun _ _ => prepareReady_itx⟩
      cases hst : w.actState <;> simp_all [Ready]
  · rw [wp_actionPrepare_create (by simpa using hcr)]
    exact ⟨fun hr h => absurd h hr, fun _ => prepareReady_itx⟩

/-! ## The engine -/

/-- The invariant of the engine: if all attempts to commit started ready, all work was done in a
transaction. -/
structure Sound (env : Env μ) (act : ActConf) (w : Wrkr μ) : Prop where
  isOpen_of_itx : w.actState = .itx → isOpen w.hist = true
  fresh : w.Fresh
  bracketed : (act.commitTransaction = true → Prepared env w.hist) → bracketed w.hist = true

lemma Sound.push {e : Event μ} (h : Sound env act w)
    (hopen : isOpen (e :: w.hist) = isOpen w.hist) (hwork : e.isWork = false)
    (hprep : Prepared env (e :: w.hist) → Prepared env w.hist) : Sound env act (w.push e) where
  isOpen_of_itx hst := hopen.trans (h.isOpen_of_itx hst)
  fresh := h.fresh
  bracketed hp := by
    simp only [Wrkr.push_hist, Action.bracketed, hwork]
    exact h.bracketed fun hc => hprep (hp hc)

lemma Sound.work {c : Call μ} {r : RsRet} (h : Sound env act w) (hc : c ≠ .beginTransaction)
    (hst : w.actState = .itx ∨ ¬(act.commitTransaction = true → Prepared env w.hist)) :
    Sound env act (w.push (.call c r)) := by
  have hopen : isOpen (.call c r :: w.hist) = isOpen w.hist := by
    cases c <;> first | rfl | exact absurd rfl hc
  refine ⟨fun hitx => hopen.trans (h.isOpen_of_itx hitx), h.fresh, fun hp => ?_⟩
  rcases hst with hst | hst
  · simp only [Wrkr.push_hist, Action.bracketed, h.isOpen_of_itx hst, Bool.or_true, Bool.true_and]
    exact h.bracketed hp
  · exact absurd hp hst

lemma Sound.setState (h : Sound env act w) (hcr : w.actWrkrData = true) (st : ActState)
    (hst : st ≠ .itx) : Sound env act (w.setState st) where
  isOpen_of_itx h := absurd h hst
  fresh := .inl hcr
  bracketed := h.bracketed

lemma Sound.handled (h : Sound env act w) (hcr : w.actWrkrData = true) (ret : RsRet) :
    Sound env act (w.handled ret) := by
  cases ret with
  | ok => exact { h.setState hcr .rdy (by simp) with }
  | suspended => exact { h.setState hcr .rtry (by simp) with }
  | deferCommit | previousCommitted | disableAction => exact { h with }
  | _ => exact h.setState hcr _ (by simp)

lemma actionPrepare_sound (h : Sound env act w) :
    Wp (actionPrepare env act fuel)
      (fun r t => Sound env act t ∧ (r = .ok → t.actWrkrData = true) ∧
        (Prepared env t.hist ↔ Prepared env w.hist)) (Sound env act) w := by
  have hstep : InStep env w.hist w := ⟨h.isOpen_of_itx, rfl, Iff.rfl⟩
  have hsound {t : Wrkr μ} (ht : InStep env w.hist t) (hfresh : t.Fresh) : Sound env act t :=
    ⟨ht.1, hfresh, fun hp => ht.2.trans (h.bracketed fun hc => ht.3.mp (hp hc))⟩
  refine ((actionPrepare_keeps env act fuel (stablePrep_inStep env w.hist) w hstep).and
    (actionPrepare_creates env act fuel h.fresh)).mono ?_ ?_
  · exact fun r t ht => ⟨hsound ht.1 ht.2.1, ht.2.2, ht.1.3⟩
  · exact fun t ht => hsound ht.1 ht.2

lemma stable_sound : Stable fun w : Wrkr μ => Sound env act w ∧ w.actWrkrData = true where
  push w e he hw := ⟨by cases he <;> exact hw.1.push rfl rfl id, hw.2⟩
  state w st hst _ hw := ⟨hw.1.setState hw.2 st hst, hw.2⟩
  inRow w n hw := ⟨{ hw.1 with }, hw.2⟩
  disable w hw := ⟨{ hw.1 with }, hw.2⟩

lemma actionDoRetry_sound : Keeps (Sound env act) (actionDoRetry env act fuel) := by
  intro w h
  by_cases hcr : w.actWrkrData = true
  · refine (doRetryLoop_keeps env act stable_sound fuel 0 .ok w ⟨h, hcr⟩).mono ?_ fun _ ht => ht.1
    exact fun _ _ ht => ht.1
  · have hst : w.actState = .rdy := h.fresh.resolve_left hcr
    exact actionDoRetry_idle (by simp [hst]) h (h.push rfl rfl id)

lemma actionProcessMessage_sound (m : μ) :
    Keeps (Sound env act) (actionProcessMessage env act fuel m) := by
  intro w h
  rw [wp_actionProcessMessage, wp_processMessage]
  refine (actionPrepare_sound (h.push rfl rfl id)).imp ?_
  rintro r t ⟨ht, hcr, -⟩
  have hleave {u : Wrkr μ} (hu : Sound env act u) :
      Sound env act (u.push (.processed m u.actState u.bDisabled)) := hu.push rfl rfl id
  refine ⟨fun _ => hleave ht, fun _ _ => hleave { ht with }, fun hr hst => ?_⟩
  have hauto : Sound env act (t.setAutoCommit false) := { ht with }
  have hcall := hauto.work (c := .doAction m) (r := env.ret (.doAction m) t.hist) (by simp)
    (.inl hst)
  exact hleave { hcall.handled (hcr hr) _ with }

lemma tryCommitEnd_sound (h : Sound env act w) (hst : w.actState = .itx) :
    Wp (tryCommitEnd env) (fun _ => Sound env act) (Sound env act) w := by
  have hcr : w.actWrkrData = true := h.fresh.resolve_right (by simp [hst])
  have hend := h.work (c := .endTransaction) (r := env.ret .endTransaction w.hist) (by simp)
    (.inl hst)
  rw [wp_tryCommitEnd]
  generalize env.ret .endTransaction w.hist = r at hend
  cases r with
  | ok | deferCommit | previousCommitted =>
    exact { hend.setState hcr .rdy (by simp) with }
  | suspended => exact { hend.setState hcr .rtry (by simp) with }
  | disableAction => exact { hend with }
  | _ => exact hend

lemma actionTryCommit_sound (ms : List μ) :
    Keeps (Sound env act) (actionTryCommit env act fuel ms) := by
  intro w h
  rw [wp_actionTryCommit]
  set v := w.push (.tryCommit w.actState) with hv
  have hsv : Sound env act v := h.push rfl rfl And.right
  -- in a module with `commitTransaction`, the attempt started ready or is one to be left out
  have hready : Wp (actionPrepare env act fuel)
      (fun r t => r = .ok → act.commitTransaction = true →
        t.actState = .itx ∨ ¬Prepared env v.hist) (fun _ => True) v := by
    by_cases hr : Ready env v.actState v.hist
    · exact (actionPrepare_itx hr).imp fun r t ht hok _ => .inl (ht hok)
    · exact wp_trivial.imp fun r t _ _ _ => .inr fun hp => hr hp.1
  refine ((actionPrepare_sound hsv).and hready).mono ?_ fun _ => And.left
  rintro r t ⟨⟨ht, hcr, hprep⟩, hready⟩
  refine ⟨fun _ => ht, fun hr => ?_⟩
  have hrest (r : RsRet) (u : Wrkr μ) (hu : Sound env act u) :
      (r ≠ .ok → Sound env act u) ∧
      (r = .ok → u.actState = .itx →
        Wp (tryCommitEnd env) (fun _ => Sound env act) (Sound env act) u) ∧
      (r = .ok → u.actState ≠ .itx → Sound env act u.readCode) :=
    ⟨fun _ => hu, fun _ hst => tryCommitEnd_sound hu hst, fun _ _ => { hu with }⟩
  rw [wp_doTransaction]
  constructor
  · intro hc
    have hwork : t.actState = .itx ∨ ¬(act.commitTransaction = true → Prepared env t.hist) :=
      (hready hr hc).imp_right fun hnp hp => hnp (hprep.mp (hp hc))
    have hcall := ht.work (c := .commitTransaction ms) (r := env.ret (.commitTransaction ms) t.hist)
      (by simp) hwork
    exact hrest _ _ { hcall.handled (hcr hr) _ with }
  · intro _
    refine (doTransactionLoop_keeps (fun m _ => actionProcessMessage_sound m) ?_ fuel .ok t
      ht).imp ?_
    · exact fun w hw => hw.push rfl rfl id
    · exact fun r u hu => hrest _ u hu

lemma kept_sound : Kept env act fuel (Sound env act) where
  mark w e he h := by cases he <;> exact h.push rfl rfl id
  prepare w h := (actionPrepare_sound h).imp fun _ _ ht => ht.1
  doRetry := actionDoRetry_sound
  process := actionProcessMessage_sound
  tryCommit := actionTryCommit_sound

/-- In every run in which all attempts to commit of a module with `commitTransaction` start ready,
all calls of `commitTransaction`, `doAction` and `endTransaction` are made in an open transaction,
also if the run is cut short. -/
theorem work_in_transaction (env : Env μ) (act : ActConf) (fuel : ℕ) (ops : List (Op μ)) :
    Wp (performAll env act fuel ops)
      (fun _ t => (act.commitTransaction = true → Prepared env t.hist) → bracketed t.hist = true)
      (fun t => (act.commitTransaction = true → Prepared env t.hist) → bracketed t.hist = true)
      (Wrkr.init μ) := by
  have hinit : Sound env act (Wrkr.init μ) :=
    ⟨fun h => absurd h (by simp [Wrkr.init]), .inr rfl, fun _ => rfl⟩
  exact (kept_sound.performAll ops _ hinit).mono (fun _ _ ht => ht.bracketed)
    fun _ ht => ht.bracketed

/-- A module that gets a message only at the second attempt. -/
def secondAttempt : Env Unit :=
  { (.constant fun _ => .ok : Env Unit) with ret := fun c h => match c with
    | .commitTransaction _ => if h.any Event.isWork then .ok else .suspended
    | _ => .ok }

/-- Both attempts are made in a transaction. -/
theorem work_in_transaction_secondAttempt :
    Wp (performAll secondAttempt ⟨true, true, 0, false⟩ 4 [.processMsg false (), .commit])
      (fun _ t => Prepared secondAttempt t.hist ∧ t.hist.countP Event.isWork = 2 ∧
        bracketed t.hist = true) (fun _ => False) (Wrkr.init Unit) := by
  have hwork := (work_in_transaction secondAttempt ⟨true, true, 0, false⟩ 4
    [.processMsg false (), .commit]).ok rfl
  exact ⟨⟨rfl, trivial, trivial⟩, rfl, hwork fun _ => ⟨rfl, trivial, trivial⟩⟩

/-- A module that is down: `commitTransaction` and `tryResume` answer SUSPENDED. -/
def downWorld (μ : Type) : Env μ := .constant fun c =>
  match c with
  | .commitTransaction _ | .tryResume => .suspended
  | _ => .ok

/-- The action of a module with `commitTransaction` is suspended at the first retry, and the next
attempt calls `commitTransaction` while it is. -/
theorem work_while_suspended :
    Wp (performAll (downWorld Unit) ⟨true, true, 0, false⟩ 4 [.processMsg false (), .commit])
      (fun _ t => bracketed t.hist = false) (fun _ => False) (Wrkr.init Unit) := by
  decide

end Rsyslog.Action
