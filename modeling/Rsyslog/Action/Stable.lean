import Rsyslog.Action.Engine

/-!
# What the functions can do to a worker

The functions below the transactions change a worker in few ways: they read the outside world, set
the state to RDY, RTRY or SUSP, and open a transaction. `Stable I` and `StablePrep I` list these
ways for a property `I` of workers.

The last section unfolds the functions above them, once each.
-/

namespace Rsyslog.Action

open Lib Wrkr

variable {μ : Type} {w t u : Wrkr μ}

/-! ## Properties that a retry keeps -/

/-- The events by which a retry records what it asks. -/
inductive Event.IsRead : Event μ → Prop
  | tryResume (r) : IsRead (.call .tryResume r)
  | shutdownImmediate (b) : IsRead (.shutdownImmediate b)
  | retryDue (b) : IsRead (.retryDue b)
  | externalState (b) : IsRead (.externalState b)
  | sleep : IsRead .sleep

/-- `I` survives what a retry does to a worker. -/
structure Stable (I : Wrkr μ → Prop) : Prop where
  push : ∀ w e, Event.IsRead e → I w → I (w.push e)
  state : ∀ w st, st ≠ .itx → st ≠ .dataFail → I w → I (w.setState st)
  inRow : ∀ w n, I w → I (w.setInRow n) := by
    first | exact fun _ _ hw => hw | exact fun _ _ hw => { hw with }
  disable : ∀ w, I w → I w.disable := by
    first | exact fun _ hw => hw | exact fun _ hw => { hw with }

/-- `I` survives what the preparation of an action does to a worker. -/
structure StablePrep (I : Wrkr μ → Prop) : Prop extends Stable I where
  create : ∀ w, I w → I w.create := by
    first | exact fun _ hw => hw | exact fun _ hw => { hw with }
  createCall : ∀ w r, I w → I (w.push (.call .createWrkrInstance r))
  begin_ok : ∀ w, I w → I ((w.push (.call .beginTransaction .ok)).setState .itx)
  begin_ne : ∀ w r, r ≠ .ok → I w → I (w.push (.call .beginTransaction r))

section Keeps

variable {I : Wrkr μ → Prop} (env : Env μ) (act : ActConf) (fuel : ℕ)

lemma getActionState_keeps : Keeps I (getActionState : Act μ ActState) := fun _ hw => hw

section

variable (h : Stable I)

include h

lemma Stable.log {e : Event μ} (he : e.IsRead) : Keeps I (log e) :=
  fun w hw => h.push w e he hw

lemma Stable.readShutdownImmediate : Keeps I (readShutdownImmediate env) :=
  fun w hw => h.push w _ (.shutdownImmediate _) hw

lemma Stable.setState {st : ActState} (hst : st ≠ .itx ∧ st ≠ .dataFail) :
    Keeps I (actionSetState st : Act μ Unit) :=
  fun w hw => h.state w st hst.1 hst.2 hw

lemma Stable.actionRetry : Keeps I (actionRetry : Act μ Unit) :=
  .bind (h.setState (by simp)) fun _ w hw => h.inRow w _ hw

lemma Stable.actionDisable : Keeps I (actionDisable : Act μ Unit) := h.disable

lemma checkExternalStateFile_keeps : Keeps I (checkExternalStateFile env act) := by
  refine .ite (fun _ => .bind .get fun w => .bind (h.log (.externalState _)) fun _ => ?_)
    fun _ => .pure _
  exact .ite (fun _ => .bind h.actionRetry fun _ => .pure _) fun _ => .pure _

lemma callTryResume_keeps : Keeps I (callTryResume env) := by
  refine .bind (fun w hw => h.push w _ (.tryResume _) hw) fun iRet => .bind .get fun w => ?_
  exact .ite (fun _ => .bind (fun w hw => h.inRow w 0 hw) fun _ => .pure _) fun _ => .pure _

/-- **A retry loop** keeps what is stable, if what it asks does. -/
lemma retryLoop_keeps {resume : Act μ RsRet} (hresume : Keeps I resume) (n : ℕ)
    (iRetries : ℤ) (iRet : RsRet) : Keeps I (retryLoop env act resume n iRetries iRet) := by
  induction n generalizing iRetries iRet with
  | zero => exact .throw ()
  | succ n ih =>
    refine .bind (h.readShutdownImmediate env) fun b => .ite (fun _ => .pure _) fun _ => ?_
    refine .bind getActionState_keeps fun st => .ite (fun _ => .pure _) fun _ => ?_
    refine .bind hresume fun r => ?_
    cases r with
    | ok => exact .bind (h.setState (by simp)) fun _ => ih _ _
    | suspended =>
      refine .ite (fun _ => .bind (h.setState (by simp)) fun _ => ih _ _) fun _ => ?_
      refine .bind (h.log .sleep) fun _ => .bind (h.readShutdownImmediate env) fun b => ?_
      exact .ite (fun _ => .pure _) fun _ => ih _ _
    | disableAction => exact .bind h.actionDisable fun _ => ih _ _
    | _ => exact ih _ _

lemma doRetryLoop_keeps (n : ℕ) (iRetries : ℤ) (iRet : RsRet) :
    Keeps I (doRetryLoop env act n iRetries iRet) :=
  retryLoop_keeps env act h (callTryResume_keeps env h) n iRetries iRet

lemma actionTryResume_keeps : Keeps I (actionTryResume env act fuel) := by
  have hretry : Keeps I (do
      if (← getActionState) = .rtry then actionDoRetry env act fuel else return .ok) :=
    .bind getActionState_keeps fun st =>
      .ite (fun _ => doRetryLoop_keeps env act h fuel 0 .ok) fun _ => .pure _
  refine .bind getActionState_keeps fun st => .ite (fun _ => ?_) fun _ => hretry
  refine .bind (fun w hw => h.push w _ (.retryDue _) hw) fun b => .ite (fun _ => ?_) fun _ => hretry
  exact .bind (h.setState (by simp)) fun _ => hretry

end

/-- What `beginTransaction` returns; without transactions it is not called. -/
def beginCode (env : Env μ) (act : ActConf) (w : Wrkr μ) : RsRet :=
  if act.isTransactional then env.ret .beginTransaction w.hist else .ok

/-- The worker after it returned `ret`. -/
def Wrkr.begun (w : Wrkr μ) (ret : RsRet) : Wrkr μ :=
  let t := w.push (.call .beginTransaction ret)
  match ret with
  | .ok => t.setState .itx
  | .suspended => (t.setState .rtry).setInRow (t.uResumeOKinRow + 1)
  | .disableAction => t.disable
  | _ => t

lemma wp_prepareBegin {Q : RsRet → Wrkr μ → Prop} {E : Wrkr μ → Prop} :
    Wp (prepareBegin env act) Q E w ↔ Q (beginCode env act w) (w.begun (beginCode env act w)) := by
  have hbegin {R : RsRet → Wrkr μ → Prop} : Wp (beginTransaction env act) R E w ↔
      R (beginCode env act w) (w.push (.call .beginTransaction (beginCode env act w))) := by
    cases h : act.isTransactional <;> simp [beginTransaction, beginCode, h]
  rw [prepareBegin, wp_bind, hbegin]
  generalize beginCode env act w = ret
  cases ret <;> simp [begun, actionRetry]

lemma prepareBegin_keeps (h : StablePrep I) : Keeps I (prepareBegin env act) := by
  intro w hw
  rw [wp_prepareBegin]
  cases beginCode env act w with
  | ok => exact h.begin_ok w hw
  | suspended => exact h.actionRetry _ (h.begin_ne w _ (by simp) hw)
  | disableAction => exact h.disable _ (h.begin_ne w _ (by simp) hw)
  | _ => exact h.begin_ne w _ (by simp) hw

lemma actionCheckAndCreateWrkrInstance_keeps (h : StablePrep I) :
    Keeps I (actionCheckAndCreateWrkrInstance env) := by
  refine .bind .get fun w => .ite (fun _ => .pure _) fun _ => ?_
  refine .bind (fun w hw => h.createCall w _ hw) fun r => .ite (fun _ => ?_) fun _ => .pure _
  exact .bind (.modify h.create) fun _ => .bind (h.setState (by simp)) fun _ => .pure _

lemma prepareReady_keeps (h : StablePrep I) : Keeps I (prepareReady env act fuel) := by
  refine .bind (checkExternalStateFile_keeps env act h.toStable) fun r => .ite (fun _ => ?_)
    fun _ => prepareBegin_keeps env act h
  refine .bind (retryLoop_keeps env act h.toStable
    (checkExternalStateFile_keeps env act h.toStable) fuel 0 .ok) fun r => ?_
  exact .ite (fun _ => .pure _) fun _ => prepareBegin_keeps env act h

/-- **The preparation** keeps what is stable. -/
lemma actionPrepare_keeps (h : StablePrep I) : Keeps I (actionPrepare env act fuel) := by
  refine .bind (actionCheckAndCreateWrkrInstance_keeps env h) fun r => .ite (fun _ => .pure _)
    fun _ => ?_
  refine .bind (actionTryResume_keeps env act fuel h.toStable) fun r => .ite (fun _ => .pure _)
    fun _ => ?_
  exact .bind getActionState_keeps fun st => .ite (fun _ => prepareReady_keeps env act fuel h)
    fun _ => .pure _

end Keeps

/-! ## The worker instance -/

/-- The instance is there, or the action is ready. -/
def Wrkr.Fresh (w : Wrkr μ) : Prop := w.actWrkrData = true ∨ w.actState = .rdy

lemma stablePrep_created : StablePrep fun w : Wrkr μ => w.actWrkrData = true where
  push _ _ _ hw := hw
  state _ _ _ _ hw := hw
  create _ _ := rfl
  createCall _ _ hw := hw
  begin_ok _ hw := hw
  begin_ne _ _ _ hw := hw

/-! ## The functions step by step -/

section

variable {env : Env μ} {act : ActConf} {fuel : ℕ} {E : Wrkr μ → Prop} {Q : RsRet → Wrkr μ → Prop}

@[simp] lemma Wrkr.push_distrusts (e : Event μ) : (w.push e).Distrusts ↔ w.Distrusts := Iff.rfl

/-- The worker after `tryResume` returned `ret`. -/
def Wrkr.tried (w : Wrkr μ) (ret : RsRet) : Wrkr μ :=
  let t := w.push (.call .tryResume ret)
  if w.Distrusts then t.setInRow 0 else t

variable (ret : RsRet)

@[simp] lemma Wrkr.tried_hist : (w.tried ret).hist = .call .tryResume ret :: w.hist := by
  unfold tried
  by_cases h : w.Distrusts <;> simp [h]

@[simp] lemma Wrkr.tried_actState : (w.tried ret).actState = w.actState := by
  unfold tried
  by_cases h : w.Distrusts <;> simp [h]

lemma Wrkr.tried_trusts : ¬(w.tried ret).Distrusts := by
  unfold tried
  by_cases h : w.Distrusts
  · rw [if_pos h]
    simp [Wrkr.Distrusts]
  · rw [if_neg h]
    exact h

/-- An answer that is distrusted counts as SUSPENDED. -/
lemma wp_callTryResume {Q : RsRet → Wrkr μ → Prop} :
    Wp (callTryResume env) Q E w ↔
      Q (if w.Distrusts then .suspended else env.ret .tryResume w.hist)
        (w.tried (env.ret .tryResume w.hist)) := by
  by_cases h : w.Distrusts <;> simp [callTryResume, tried, h]

/-- One round of the retry loop. -/
lemma wp_retryLoop_succ (resume : Act μ RsRet) (n : ℕ) (iRetries : ℤ) (iRet : RsRet) :
    Wp (retryLoop env act resume (n + 1) iRetries iRet) Q E w ↔
      let shutdown := env.shutdownImmediate w.hist
      let t := w.push (.shutdownImmediate shutdown)
      (shutdown = true ∨ w.actState ≠ .rtry → Q iRet t) ∧
      (shutdown = false → w.actState = .rtry → Wp resume (fun r u =>
          (r = .ok → Wp (retryLoop env act resume n iRetries .ok) Q E (u.setState .rdy)) ∧
          (r = .suspended →
            let last := act.iResumeRetryCount ≠ -1 ∧ iRetries ≥ act.iResumeRetryCount
            let shutdown := env.shutdownImmediate (u.push .sleep).hist
            let v := (u.push .sleep).push (.shutdownImmediate shutdown)
            (last → Wp (retryLoop env act resume n iRetries .suspended) Q E (u.setState .susp)) ∧
            (¬last → shutdown = true → Q .forceTerm v) ∧
            (¬last → shutdown = false →
              Wp (retryLoop env act resume n (iRetries + 1) .suspended) Q E v)) ∧
          (r = .disableAction → Wp (retryLoop env act resume n iRetries r) Q E u.disable) ∧
          (r ≠ .ok → r ≠ .suspended → r ≠ .disableAction →
            Wp (retryLoop env act resume n iRetries r) Q E u)) E t) := by
  rw [retryLoop, wp_bind, wp_readShutdownImmediate]
  cases env.shutdownImmediate w.hist with
  | true => simp
  | false =>
    by_cases hst : w.actState = .rtry
    · simp only [Bool.false_eq_true, if_false, wp_bind, wp_getActionState, push_actState, hst,
        ne_eq, not_true_eq_false, or_self, false_implies, true_implies, true_and]
      refine wp_congr fun r u => ?_
      cases r with
      | suspended =>
        by_cases hlast : act.iResumeRetryCount ≠ -1 ∧ iRetries ≥ act.iResumeRetryCount
        · simp [hlast, actionSuspend]
        · simp [hlast]
      | _ => simp
    · simp [hst]

/-- The code that `getReturnCode` returns. -/
def Wrkr.returnCode (w : Wrkr μ) : RsRet :=
  match w.actState with
  | .rdy => .ok
  | .itx => if w.bHadAutoCommit then .previousCommitted else .deferCommit
  | .rtry => .suspended
  | .susp => .actionFailed
  | .dataFail => .dataFail

/-- The worker after it. -/
@[simps] def Wrkr.readCode (w : Wrkr μ) : Wrkr μ :=
  { w with bHadAutoCommit := w.bHadAutoCommit && w.actState != .itx }

@[simp] lemma wp_getReturnCode : Wp getReturnCode Q E w ↔ Q w.returnCode w.readCode := by
  rcases w with ⟨_, st, _, auto, _⟩
  cases st <;> cases auto <;> exact Iff.rfl

/-- What `handleActionExecResult` makes of the code that the module returned. -/
def Wrkr.handled (w : Wrkr μ) : RsRet → Wrkr μ
  | .ok => (w.setState .rdy).setInRow 0
  | .deferCommit => w.setInRow 0
  | .previousCommitted => (w.setAutoCommit true).setInRow 0
  | .disableAction => w.disable
  | .suspended => (w.setState .rtry).setInRow (w.uResumeOKinRow + 1)
  | _ => w.setState .dataFail

@[simp] lemma wp_handleActionExecResult :
    Wp (handleActionExecResult ret) Q E w ↔
      Q (w.handled ret).returnCode (w.handled ret).readCode := by
  cases ret <;> simp [handleActionExecResult, handled, actionCommitted, actionRetry]

/-- The state after the module returned a code. -/
def ActState.next (st : ActState) : RsRet → ActState
  | .ok => .rdy
  | .deferCommit | .previousCommitted | .disableAction => st
  | .suspended => .rtry
  | _ => .dataFail

@[simp] lemma Wrkr.handled_actState : (w.handled ret).actState = w.actState.next ret := by
  cases ret <;> rfl

@[simp] lemma Wrkr.handled_actWrkrData : (w.handled ret).actWrkrData = w.actWrkrData := by
  cases ret <;> rfl

lemma Wrkr.returnCode_eq_ok : w.returnCode = .ok ↔ w.actState = .rdy := by
  unfold returnCode
  cases w.actState <;> cases w.bHadAutoCommit <;> simp

lemma Wrkr.returnCode_eq_suspended : w.returnCode = .suspended ↔ w.actState = .rtry := by
  unfold returnCode
  cases w.actState <;> cases w.bHadAutoCommit <;> simp

@[simp] lemma Wrkr.readCode_readCode : w.readCode.readCode = w.readCode := by
  simp [readCode]

lemma actionDoRetry_idle {I : Wrkr μ → Prop} (hst : w.actState ≠ .rtry) (hw : I w)
    (hpush : I (w.push (.shutdownImmediate (env.shutdownImmediate w.hist)))) :
    Wp (actionDoRetry env act fuel) (fun _ => I) I w := by
  cases fuel with
  | zero => exact hw
  | succ n => simp [actionDoRetry, retryLoop, hst, hpush]

lemma wp_actionTryResume :
    Wp (actionTryResume env act fuel) Q E w ↔
      (w.actState = .rtry → Wp (actionDoRetry env act fuel) Q E w) ∧
      (w.actState = .susp → env.retryDue w.hist = true →
        Wp (actionDoRetry env act fuel) Q E ((w.push (.retryDue true)).setState .rtry)) ∧
      (w.actState = .susp → env.retryDue w.hist = false → Q .ok (w.push (.retryDue false))) ∧
      (w.actState ≠ .rtry → w.actState ≠ .susp → Q .ok w) := by
  cases hst : w.actState <;> cases hb : env.retryDue w.hist <;> simp [actionTryResume, hst, hb]

/-- The preparation of a worker that has its instance. -/
lemma wp_actionPrepare (hcr : w.actWrkrData = true) :
    Wp (actionPrepare env act fuel) Q E w ↔
      Wp (actionTryResume env act fuel)
        (fun r t => (r ≠ .ok → Q r t) ∧ (r = .ok → t.actState ≠ .rdy → Q .ok t) ∧
          (r = .ok → t.actState = .rdy → Wp (prepareReady env act fuel) Q E t)) E w := by
  have hcreate {R : RsRet → Wrkr μ → Prop} :
      Wp (actionCheckAndCreateWrkrInstance env) R E w ↔ R .ok w := by
    simp [actionCheckAndCreateWrkrInstance, hcr]
  rw [actionPrepare, wp_bind, hcreate, if_neg (by simp), wp_bind]
  refine wp_congr fun r t => ?_
  by_cases hr : r = .ok
  · by_cases hst : t.actState = .rdy <;> simp [hr, hst]
  · simp [hr]

lemma wp_actionPrepare_idle (hst : w.actState = .itx ∨ w.actState = .dataFail)
    (hcr : w.actWrkrData = true) : Wp (actionPrepare env act fuel) Q E w ↔ Q .ok w := by
  rw [wp_actionPrepare hcr, wp_actionTryResume]
  rcases hst with hst | hst <;> simp [hst]

/-- That of one that has none. -/
lemma wp_actionPrepare_create (hcr : w.actWrkrData = false) :
    Wp (actionPrepare env act fuel) Q E w ↔
      let r := env.ret .createWrkrInstance w.hist
      let t := w.push (.call .createWrkrInstance r)
      (r ≠ .ok → Q r t) ∧
        (r = .ok → Wp (prepareReady env act fuel) Q E (t.create.setState .rdy)) := by
  by_cases hr : env.ret .createWrkrInstance w.hist = .ok
  · simp [actionPrepare, actionCheckAndCreateWrkrInstance, hcr, hr, wp_actionTryResume]
  · simp [actionPrepare, actionCheckAndCreateWrkrInstance, hcr, hr]

lemma wp_checkExternalStateFile :
    Wp (checkExternalStateFile env act) Q E w ↔
      (act.pszExternalStateFile = false → Q .ok w) ∧
      (act.pszExternalStateFile = true →
        let suspended := (env.stateFile w.hist).elim false stateFileSuspended
        let t := w.push (.externalState suspended)
        (suspended = true → Q .suspended ((t.setState .rtry).setInRow (t.uResumeOKinRow + 1))) ∧
        (suspended = false → Q .ok t)) := by
  cases hx : act.pszExternalStateFile with
  | false => simp [checkExternalStateFile, hx]
  | true =>
    cases hs : (env.stateFile w.hist).elim false stateFileSuspended <;>
      simp [checkExternalStateFile, hx, hs, actionRetry]

lemma wp_prepareReady :
    Wp (prepareReady env act fuel) Q E w ↔
      Wp (checkExternalStateFile env act)
        (fun r t => (r = .suspended → Wp (actionDoRetryExtFile env act fuel)
            (fun r u => (r ≠ .ok → Q r u) ∧ (r = .ok → Wp (prepareBegin env act) Q E u)) E t) ∧
          (r ≠ .suspended → Wp (prepareBegin env act) Q E t)) E w := by
  simp only [prepareReady, wp_bind, wp_ite, wp_pure, ne_eq, not_not]

/-- With OK, it is in a transaction. -/
lemma prepareReady_itx :
    Wp (prepareReady env act fuel) (fun r t => r = .ok → t.actState = .itx) (fun _ => True) w := by
  have hbegin (u : Wrkr μ) :
      Wp (prepareBegin env act) (fun r t => r = .ok → t.actState = .itx) (fun _ => True) u := by
    rw [wp_prepareBegin]
    intro hr
    rw [hr]
    rfl
  rw [wp_prepareReady]
  refine wp_trivial.imp ?_
  intro r t _
  refine ⟨fun _ => wp_trivial.imp ?_, fun _ => hbegin t⟩
  exact fun r u _ => ⟨fun hr h => absurd h hr, fun _ => hbegin u⟩

lemma actionPrepare_creates (env : Env μ) (act : ActConf) (fuel : ℕ) (hw : w.Fresh) :
    Wp (actionPrepare env act fuel) (fun r t => t.Fresh ∧ (r = .ok → t.actWrkrData = true))
      Wrkr.Fresh w := by
  by_cases hcr : w.actWrkrData = true
  · refine (actionPrepare_keeps env act fuel stablePrep_created w hcr).mono ?_ fun _ => .inl
    exact fun r t ht => ⟨.inl ht, fun _ => ht⟩
  · have hst : w.actState = .rdy := hw.resolve_left hcr
    rw [wp_actionPrepare_create (by simpa using hcr)]
    refine ⟨fun hr => ⟨.inr hst, fun h => absurd h hr⟩, fun _ => ?_⟩
    refine (prepareReady_keeps env act fuel stablePrep_created _ rfl).mono ?_ fun _ => .inl
    exact fun r t ht => ⟨.inl ht, fun _ => ht⟩

/-- The worker after `doAction` was called for `m` and returned `ret`. -/
def Wrkr.offered (w : Wrkr μ) (m : μ) (ret : RsRet) : Wrkr μ :=
  ((w.setAutoCommit false).push (.call (.doAction m) ret)).handled ret

variable (m : μ)

@[simp] lemma Wrkr.offered_actState (ret : RsRet) :
    (w.offered m ret).actState = w.actState.next ret :=
  handled_actState ret

@[simp] lemma Wrkr.offered_actWrkrData (ret : RsRet) :
    (w.offered m ret).actWrkrData = w.actWrkrData :=
  handled_actWrkrData ret

@[simp] lemma wp_actionCallDoAction :
    Wp (actionCallDoAction env m) Q E w ↔
      let u := w.offered m (env.ret (.doAction m) w.hist)
      Q u.returnCode u.readCode := by
  simp only [actionCallDoAction, wp_bind, wp_modify, wp_callModule, wp_handleActionExecResult]
  exact Iff.rfl

/-- A message is offered in a transaction only. -/
lemma wp_processMessage :
    Wp (processMessage env act fuel m) Q E w ↔
      Wp (actionPrepare env act fuel)
        (fun r t => (r ≠ .ok → Q r t) ∧ (r = .ok → t.actState ≠ .itx → Q t.returnCode t.readCode) ∧
          (r = .ok → t.actState = .itx →
            let u := t.offered m (env.ret (.doAction m) t.hist)
            Q u.returnCode u.readCode)) E w := by
  rw [processMessage, wp_bind]
  refine wp_congr fun r t => ?_
  by_cases hr : r = .ok
  · by_cases hst : t.actState = .itx
    · simp only [hr, hst, ne_eq, not_true_eq_false, if_false, wp_bind, wp_getActionState,
        wp_actionCallDoAction, wp_ite, wp_pure, wp_getReturnCode, readCode_readCode,
        false_implies, true_implies, true_and]
      generalize t.offered m (env.ret (.doAction m) t.hist) = u
      -- after OK the action is ready, and reading the code again changes nothing
      by_cases hok : u.returnCode = .ok
      · have hagain : u.readCode.returnCode = .ok := by
          rw [returnCode_eq_ok] at hok ⊢
          exact hok
        simp [hok, hagain]
      · simp [hok]
    · simp [hr, hst]
  · simp [hr]

lemma wp_actionProcessMessage :
    Wp (actionProcessMessage env act fuel m) Q E w ↔
      Wp (processMessage env act fuel m)
        (fun r t => Q r (t.push (.processed m t.actState t.bDisabled))) E
        (w.push (.processing m)) := by
  simp [actionProcessMessage]

/-- The code with which the loop goes on. -/
def RsRet.expected (r : RsRet) : RsRet :=
  if r = .deferCommit ∨ r = .previousCommitted then .ok else r

/-- One message of the loop, which is passed again after SUSPENDED. -/
lemma wp_doTransactionLoop_cons (n : ℕ) (m : μ) (ms : List μ) (iRet : RsRet) :
    Wp (doTransactionLoop env act fuel (n + 1) (m :: ms) iRet) Q E w ↔
      Wp (actionProcessMessage env act fuel m)
        (fun r t => (r = .suspended →
            Wp (doTransactionLoop env act fuel n (m :: ms) r) Q E (t.push .sleep)) ∧
          (r ≠ .suspended → r.expected ≠ .ok → Q r t) ∧
          (r.expected = .ok → Wp (doTransactionLoop env act fuel n ms r) Q E t)) E w := by
  rw [doTransactionLoop, wp_bind]
  refine wp_congr fun r t => ?_
  cases r <;> simp [RsRet.expected]

lemma doTransactionLoop_keeps {I : Wrkr μ → Prop} {ms : List μ}
    (hprocess : ∀ m ∈ ms, Keeps I (actionProcessMessage env act fuel m))
    (hsleep : ∀ w, I w → I (w.push .sleep)) (n : ℕ) (iRet : RsRet) :
    Keeps I (doTransactionLoop env act fuel n ms iRet) := by
  induction n generalizing ms iRet with
  | zero => cases ms with
    | nil => exact .pure _
    | cons m ms => exact .throw ()
  | succ n ih => cases ms with
    | nil => exact .pure _
    | cons m ms =>
      refine .bind (hprocess m (by simp)) fun r => .ite (fun _ => ?_) fun _ => ?_
      · exact .bind (fun w hw => hsleep w hw) fun _ => ih hprocess _
      · refine .ite (fun _ => .pure _) fun _ => ih ?_ _
        exact fun m hm => hprocess m (List.mem_cons_of_mem _ hm)

/-- The worker after `commitTransaction` was called for `ms` and returned `ret`. -/
def Wrkr.passed (w : Wrkr μ) (ms : List μ) (ret : RsRet) : Wrkr μ :=
  (w.push (.call (.commitTransaction ms) ret)).handled ret

variable (ms : List μ)

@[simp] lemma Wrkr.passed_actState (ret : RsRet) :
    (w.passed ms ret).actState = w.actState.next ret :=
  handled_actState ret

lemma wp_doTransaction :
    Wp (doTransaction env act fuel ms) Q E w ↔
      (act.commitTransaction = true →
        let u := w.passed ms (env.ret (.commitTransaction ms) w.hist)
        Q u.returnCode.expected u.readCode) ∧
      (act.commitTransaction = false →
        Wp (doTransactionLoop env act fuel fuel ms .ok) (fun r => Q r.expected) E w) := by
  cases hc : act.commitTransaction with
  | false => simp [doTransaction, hc, RsRet.expected]
  | true =>
    simp only [doTransaction, hc, if_true, actionCallCommitTransaction, wp_bind, wp_callModule,
      wp_handleActionExecResult, wp_pure, true_implies, Bool.true_eq_false, false_implies, and_true]
    exact Iff.rfl

/-- The worker after `endTransaction` returned `ret`. -/
def Wrkr.ended (w : Wrkr μ) (ret : RsRet) : Wrkr μ :=
  let t := w.push (.call .endTransaction ret)
  match ret with
  | .ok | .deferCommit | .previousCommitted => (t.setState .rdy).readCode
  | .suspended => ((t.setState .rtry).setInRow (t.uResumeOKinRow + 1)).readCode
  | .disableAction => t.disable.readCode
  | _ => t

/-- The code that `actionTryCommit` makes of the code of `endTransaction`. -/
def Wrkr.endCode (w : Wrkr μ) : RsRet → RsRet
  | .ok | .deferCommit | .previousCommitted => .ok
  | .disableAction => w.returnCode
  | ret => ret

lemma wp_tryCommitEnd :
    Wp (tryCommitEnd env) Q E w ↔
      let ret := env.ret .endTransaction w.hist
      Q (w.endCode ret) (w.ended ret) := by
  rw [tryCommitEnd, wp_bind, wp_callModule]
  generalize env.ret .endTransaction w.hist = ret
  cases ret <;> simp [ended, endCode, actionCommitted, actionRetry] <;> rfl

/-- An attempt to commit. -/
lemma wp_actionTryCommit :
    Wp (actionTryCommit env act fuel ms) Q E w ↔
      Wp (actionPrepare env act fuel)
        (fun r t => (r ≠ .ok → Q r t) ∧ (r = .ok → Wp (doTransaction env act fuel ms)
          (fun r u => (r ≠ .ok → Q r u) ∧
            (r = .ok → u.actState = .itx → Wp (tryCommitEnd env) Q E u) ∧
            (r = .ok → u.actState ≠ .itx → Q u.returnCode u.readCode)) E t)) E
        (w.push (.tryCommit w.actState)) := by
  rw [actionTryCommit, wp_bind, wp_getActionState, wp_bind, wp_log, wp_bind]
  refine wp_congr fun r t => ?_
  by_cases hr : r = .ok
  · simp only [hr, ne_eq, not_true_eq_false, if_false, false_implies, true_implies, true_and,
      wp_bind]
    refine wp_congr fun r u => ?_
    by_cases hr : r = .ok
    · by_cases hst : u.actState = .itx <;> simp [hr, hst]
    · simp [hr]
  · simp [hr]

lemma wp_leave (x : Exit) (r : RsRet) :
    Wp (leave x r) Q E w ↔ Q r ((w.push (.left x)).setParams []) := Iff.rfl

lemma wp_removeHardErrors_cons {Q : List μ → Wrkr μ → Prop} :
    Wp (actionTryRemoveHardErrorsFromBatch env act fuel (m :: ms)) Q E w ↔
      Wp (actionTryCommit env act fuel [m])
        (fun r t => (r = .suspended → Wp (actionTryRemoveHardErrorsFromBatch env act fuel ms)
            (fun left => Q (m :: left)) E t) ∧
          (r ≠ .suspended → r ≠ .ok → Wp (actionTryRemoveHardErrorsFromBatch env act fuel ms) Q E
            (t.push (.errorFile r [m]))) ∧
          (r = .ok → Wp (actionTryRemoveHardErrorsFromBatch env act fuel ms) Q E t)) E
        (w.setInRow 0) := by
  rw [actionTryRemoveHardErrorsFromBatch, wp_bind, wp_setActionResumeInRow, wp_bind]
  refine wp_congr fun r t => ?_
  by_cases hok : r = .ok
  · simp [hok]
  · simp [hok, actionWriteErrorFile]

/-- One attempt of the loop, and the retry after it. -/
lemma wp_commitLoop_succ (n : ℕ) :
    Wp (commitLoop env act fuel ms (n + 1)) Q E w ↔
      Wp (actionTryCommit env act fuel ms)
        (fun r t => (r = .forceTerm → Wp (leave .forceTerm .forceTerm) Q E t) ∧
          (r = .suspended → Wp (actionDoRetry env act fuel)
            (fun r u => (r = .forceTerm → Wp (leave .forceTerm .forceTerm) Q E u) ∧
              (r ≠ .forceTerm → r ≠ .ok →
                Wp (leave .retryFailed r) Q E (u.push (.errorFile r ms))) ∧
              (r = .ok → Wp (commitLoop env act fuel ms n) Q E u)) E t) ∧
          (r ≠ .forceTerm → r ≠ .suspended →
            let done := r = .ok ∨ r = .actionFailed ∨ t.actState = .rdy ∨ t.actState = .susp
            (done → Wp (leave (.done r) r) Q E t) ∧
            (¬done → Wp (commitLoop env act fuel ms n) Q E t))) E w := by
  rw [commitLoop, wp_bind]
  refine wp_congr fun r t => ?_
  by_cases hft : r = .forceTerm
  · simp [hft]
  · by_cases hsu : r = .suspended
    · simp only [hsu, reduceCtorEq, if_false, if_true, wp_bind, ne_eq, not_true_eq_false,
        false_implies, true_implies, and_true, true_and, implies_true]
      refine wp_congr fun r u => ?_
      by_cases hok : r = .ok
      · simp [hok]
      · simp [hok, actionWriteErrorFile]
    · simp [hft, hsu]

/-- The exits of `actionCommit`. -/
lemma wp_actionCommit :
    Wp (actionCommit env act fuel) Q E w ↔
      ((act.isTransactional = false ∨ w.iparams = []) →
        Wp (leave .nothing .ok) Q E (w.push (.commit w.iparams))) ∧
      (act.isTransactional = true → w.iparams ≠ [] → w.actState = .susp →
        Wp (leave .suspended .ok) Q E
          ((w.push (.commit w.iparams)).push (.errorFile .ok w.iparams))) ∧
      (act.isTransactional = true → w.iparams ≠ [] → w.actState ≠ .susp →
        Wp (actionTryCommit env act fuel w.iparams)
          (fun r t => (r = .ok → Wp (leave .committed .ok) Q E t) ∧
            (r ≠ .ok → (w.iparams.length = 1 →
                (r = .dataFail → Wp (leave .singleDataFail r) Q E t) ∧
                (r ≠ .dataFail → Wp (commitLoop env act fuel w.iparams fuel) Q E t)) ∧
              (w.iparams.length ≠ 1 →
                Wp (actionTryRemoveHardErrorsFromBatch env act fuel w.iparams)
                  (fun left u => (left = [] → Wp (leave .noneLeft .ok) Q E u) ∧
                    (left ≠ [] → Wp (commitLoop env act fuel left fuel) Q E u)) E t))) E
          (w.push (.commit w.iparams))) := by
  by_cases hnone : act.isTransactional = false ∨ w.iparams = []
  · have hnone' : (!act.isTransactional || w.iparams.isEmpty) = true := by simpa using hnone
    simp only [actionCommit, wp_bind, wp_get, wp_log, hnone', if_true]
    rcases hnone with h | h <;> simp [h]
  · obtain ⟨htx, hms⟩ := not_or.mp hnone
    by_cases hst : w.actState = .susp
    · simp [actionCommit, htx, hms, hst, actionWriteErrorFile]
    · simp [actionCommit, htx, hms, hst]

lemma wp_processMsgMain (htx : act.isTransactional = true) (auto : Bool) (m : μ) :
    Wp (processMsgMain env act fuel auto m) Q E w ↔
      Wp (actionPrepare env act fuel)
        (fun _ t => (t.returnCode = .ok ∧ auto = true →
            Wp (actionCommit env act fuel) Q E t.readCode) ∧
          (¬(t.returnCode = .ok ∧ auto = true) → Q t.returnCode t.readCode)) E
        (w.setParams (w.iparams ++ [m])) := by
  simp [processMsgMain, htx]

lemma wp_performAll_append {Q : Unit → Wrkr μ → Prop} (ops ops' : List (Op μ)) :
    Wp (performAll env act fuel (ops ++ ops')) Q E w ↔
      Wp (performAll env act fuel ops) (fun _ t => Wp (performAll env act fuel ops') Q E t) E
        w := by
  induction ops generalizing w with
  | nil => simp [performAll]
  | cons op ops ih =>
    rw [List.cons_append, performAll, performAll, wp_bind, wp_bind]
    exact wp_congr fun _ t => ih

end

/-! ## Properties that the engine keeps -/

/-- The events by which `actionCommit` records what it does. -/
inductive Event.IsMark : Event μ → Prop
  | errorFile (r m) : IsMark (.errorFile r m)
  | commit (ms) : IsMark (.commit ms)
  | left (x) : IsMark (.left x)

/-- `I` survives the attempts to commit and what happens between them. -/
structure Kept (env : Env μ) (act : ActConf) (fuel : ℕ) (I : Wrkr μ → Prop) : Prop where
  mark : ∀ w e, Event.IsMark e → I w → I (w.push e)
  params : ∀ w ms, I w → I (w.setParams ms) := by
    first | exact fun _ _ hw => hw | exact fun _ _ hw => { hw with }
  inRow : ∀ w n, I w → I (w.setInRow n) := by
    first | exact fun _ _ hw => hw | exact fun _ _ hw => { hw with }
  readCode : ∀ w, I w → I w.readCode := by
    first | exact fun _ hw => hw | exact fun _ hw => { hw with }
  prepare : Keeps I (actionPrepare env act fuel)
  doRetry : Keeps I (actionDoRetry env act fuel)
  process : ∀ m, Keeps I (actionProcessMessage env act fuel m)
  tryCommit : ∀ ms, Keeps I (actionTryCommit env act fuel ms)

namespace Kept

variable {env : Env μ} {act : ActConf} {fuel : ℕ} {I : Wrkr μ → Prop} (h : Kept env act fuel I)

include h

lemma leave (x : Exit) (r : RsRet) : Keeps I (leave x r : Act μ RsRet) :=
  fun w hw => h.params _ [] (h.mark w _ (.left _) hw)

lemma writeErrorFile (r : RsRet) (ms : List μ) : Keeps I (actionWriteErrorFile r ms) :=
  fun w hw => h.mark w _ (.errorFile _ _) hw

lemma removeHardErrors (ms : List μ) :
    Keeps I (actionTryRemoveHardErrorsFromBatch env act fuel ms) := by
  induction ms with
  | nil => exact .pure _
  | cons m ms ih =>
    refine .bind (fun w hw => h.inRow w 0 hw) fun _ => .bind (h.tryCommit _) fun r => ?_
    refine .ite (fun _ => .bind ih fun _ => .pure _) fun _ => .ite (fun _ => ?_) fun _ => ih
    exact .bind (h.writeErrorFile _ _) fun _ => ih

lemma commitLoop (ms : List μ) (n : ℕ) : Keeps I (commitLoop env act fuel ms n) := by
  induction n with
  | zero => exact .throw ()
  | succ n ih =>
    refine .bind (h.tryCommit ms) fun r => .ite (fun _ => h.leave _ _) fun _ => ?_
    refine .ite (fun _ => .bind h.doRetry fun r => ?_) fun _ => ?_
    · refine .ite (fun _ => h.leave _ _) fun _ => .ite (fun _ => ?_) fun _ => ih
      exact .bind (h.writeErrorFile _ _) fun _ => h.leave _ _
    · exact .bind getActionState_keeps fun st => .ite (fun _ => h.leave _ _) fun _ => ih

lemma actionCommit : Keeps I (actionCommit env act fuel) := by
  refine .bind .get fun w => .bind (fun w hw => h.mark w _ (.commit _) hw) fun _ => ?_
  refine .ite (fun _ => h.leave _ _) fun _ => .ite (fun _ => ?_) fun _ => ?_
  · exact .bind (h.writeErrorFile _ _) fun _ => h.leave _ _
  · refine .bind (h.tryCommit _) fun r => .ite (fun _ => h.leave _ _) fun _ => ?_
    refine .ite (fun _ => .ite (fun _ => h.leave _ _) fun _ => h.commitLoop _ _) fun _ => ?_
    exact .bind (h.removeHardErrors _) fun left =>
      .ite (fun _ => h.leave _ _) fun _ => h.commitLoop _ _

lemma processMsgMain (auto : Bool) (m : μ) : Keeps I (processMsgMain env act fuel auto m) := by
  have hrest (r : RsRet) : Keeps I (if r = .ok ∧ auto = true then Action.actionCommit env act fuel
      else pure r) := .ite (fun _ => h.actionCommit) fun _ => .pure _
  have hcode : Keeps I (getReturnCode : Act μ RsRet) := by
    intro w hw
    rw [wp_getReturnCode]
    exact h.readCode w hw
  refine .ite (fun _ => ?_) fun _ => .bind (h.process m) hrest
  exact .bind (.modify fun w hw => h.params w _ hw) fun _ => .bind h.prepare fun _ =>
    .bind hcode hrest

lemma performAll (ops : List (Op μ)) : Keeps I (performAll env act fuel ops) := by
  induction ops with
  | nil => exact .pure _
  | cons op ops ih =>
    refine .bind ?_ fun _ => ih
    match op with
    | .processMsg auto m => exact h.processMsgMain auto m
    | .commit => exact h.actionCommit

end Kept

end Rsyslog.Action
