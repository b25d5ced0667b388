import Mathlib.Data.List.DropRight
import Mathlib.Tactic.Simps.Basic
import Rsyslog.Lib.Decimal
import Rsyslog.Lib.Wp
import Rsyslog.Queue.Core

/-!
# The action engine

`action.c`: how a worker drives an output module. It is a state machine over `ActState` (`wti.h`),
moved by the return codes of the module, the shutdown flag, the clock and the external state file.
All of these are answers of an `Env`, which may choose them by everything that has happened so far.

What happens is recorded in `Wrkr.hist`, latest event first: every call of the module with its
answer, every change of state, every read of the outside world, the messages given to
`actionWriteErrorFile`, and marks for the functions that the properties speak about.

The loops of the engine take `fuel`. A run that is cut short keeps the worker it has reached, so a
statement about every `fuel` also speaks about the runs that never return.
-/

namespace Rsyslog.Action

open Lib
open Rsyslog.Queue (BatchElem BatchState)

/-! ## Data -/

/-- The codes that the engine tells apart; `err` stands for all others. -/
inductive RsRet
  | ok
  | suspended
  | disableAction
  | deferCommit
  | previousCommitted
  | actionFailed
  | forceTerm
  | dataFail
  | err (code : ℤ)
  deriving DecidableEq

inductive ActState
  | rdy
  | itx
  | rtry
  | susp
  | dataFail
  deriving DecidableEq

/-- The entry points of an output module, with the messages they are given. -/
inductive Call (μ : Type)
  | createWrkrInstance
  | tryResume
  | beginTransaction
  | doAction (m : μ)
  | commitTransaction (ms : List μ)
  | endTransaction
  deriving DecidableEq

inductive Exit
  | nothing
  | suspended
  | committed
  | singleDataFail
  | noneLeft
  | forceTerm
  | retryFailed
  | done (ret : RsRet)
  deriving DecidableEq

inductive Event (μ : Type)
  | call (c : Call μ) (ret : RsRet)
  | state (st : ActState)
  | errorFile (ret : RsRet) (ms : List μ)
  | shutdownImmediate (b : Bool)
  | retryDue (b : Bool)
  | externalState (suspended : Bool)
  | sleep
  | processing (m : μ)
  | processed (m : μ) (st : ActState) (bDisabled : Bool)
  | tryCommit (st : ActState)
  | commit (ms : List μ)
  | left (exit : Exit)
  deriving DecidableEq

abbrev Hist (μ : Type) := List (Event μ)

/-- The outside world. `retryDue` says whether `ttResumeRtry` has been reached: that field belongs
to the action and all of its workers set it. -/
structure Env (μ : Type) where
  ret : Call μ → Hist μ → RsRet
  shutdownImmediate : Hist μ → Bool
  retryDue : Hist μ → Bool
  stateFile : Hist μ → Option Bytes

/-- A world in which the module answers each call always alike, no shutdown is requested, the retry
time does not come and there is no state file. -/
def Env.constant {μ : Type} (f : Call μ → RsRet) : Env μ :=
  ⟨fun c _ => f c, fun _ => false, fun _ => false, fun _ => none⟩

/-- What the engine reads of an `action_t` and of its module: whether the module has
`beginTransaction` (`supportsTX`) and `commitTransaction`. -/
structure ActConf where
  isTransactional : Bool
  commitTransaction : Bool
  iResumeRetryCount : ℤ
  pszExternalStateFile : Bool

/-- `actWrkrInfo_t` of a worker and the action's `bDisabled`. `iparams` holds the first
`currIParam` entries. -/
structure Wrkr (μ : Type) where
  actWrkrData : Bool
  actState : ActState
  uResumeOKinRow : UInt16
  bHadAutoCommit : Bool
  iparams : List μ
  bDisabled : Bool
  hist : Hist μ

def Wrkr.init (μ : Type) : Wrkr μ := ⟨false, .rdy, 0, false, [], false, []⟩

variable {μ : Type}

/-! The assignments to the fields of a worker. -/

@[simps] def Wrkr.push (w : Wrkr μ) (e : Event μ) : Wrkr μ := { w with hist := e :: w.hist }

@[simps] def Wrkr.setState (w : Wrkr μ) (st : ActState) : Wrkr μ :=
  { w with actState := st, hist := .state st :: w.hist }

@[simps] def Wrkr.setInRow (w : Wrkr μ) (n : UInt16) : Wrkr μ := { w with uResumeOKinRow := n }

@[simps] def Wrkr.setAutoCommit (w : Wrkr μ) (b : Bool) : Wrkr μ := { w with bHadAutoCommit := b }

@[simps] def Wrkr.setParams (w : Wrkr μ) (ms : List μ) : Wrkr μ := { w with iparams := ms }

@[simps] def Wrkr.disable (w : Wrkr μ) : Wrkr μ := { w with bDisabled := true }

@[simps] def Wrkr.create (w : Wrkr μ) : Wrkr μ := { w with actWrkrData := true }

abbrev Act (μ α : Type) := EStateM Unit (Wrkr μ) α

def log (e : Event μ) : Act μ Unit := modify fun w => w.push e

def actionSetState (st : ActState) : Act μ Unit := modify fun w => w.setState st

def getActionState : Act μ ActState := do return (← get).actState

def setActionResumeInRow (n : UInt16) : Act μ Unit := modify fun w => w.setInRow n

def actionDisable : Act μ Unit := modify fun w => w.disable

section Steps

variable {w : Wrkr μ} {E : Wrkr μ → Prop} {Q : Unit → Wrkr μ → Prop}

@[simp] lemma wp_log (e : Event μ) : Wp (log e) Q E w ↔ Q () (w.push e) := Iff.rfl

@[simp] lemma wp_actionSetState (st : ActState) :
    Wp (actionSetState st) Q E w ↔ Q () (w.setState st) := Iff.rfl

@[simp] lemma wp_getActionState {Q : ActState → Wrkr μ → Prop} :
    Wp getActionState Q E w ↔ Q w.actState w := Iff.rfl

@[simp] lemma wp_setActionResumeInRow (n : UInt16) :
    Wp (setActionResumeInRow n) Q E w ↔ Q () (w.setInRow n) := Iff.rfl

@[simp] lemma wp_actionDisable : Wp actionDisable Q E w ↔ Q () w.disable := Iff.rfl

end Steps

/-! ## The outside world -/

section World

variable (env : Env μ)

def callModule (c : Call μ) : Act μ RsRet := do
  let ret := env.ret c (← get).hist
  log (.call c ret)
  return ret

def readShutdownImmediate : Act μ Bool := do
  let b := env.shutdownImmediate (← get).hist
  log (.shutdownImmediate b)
  return b

def readRetryDue : Act μ Bool := do
  let b := env.retryDue (← get).hist
  log (.retryDue b)
  return b

section Steps

variable {env} {w : Wrkr μ} {E : Wrkr μ → Prop}

@[simp] lemma wp_callModule (c : Call μ) {Q : RsRet → Wrkr μ → Prop} :
    Wp (callModule env c) Q E w ↔ Q (env.ret c w.hist) (w.push (.call c (env.ret c w.hist))) :=
  Iff.rfl

@[simp] lemma wp_readShutdownImmediate {Q : Bool → Wrkr μ → Prop} :
    Wp (readShutdownImmediate env) Q E w ↔
      Q (env.shutdownImmediate w.hist)
        (w.push (.shutdownImmediate (env.shutdownImmediate w.hist))) :=
  Iff.rfl

@[simp] lemma wp_readRetryDue {Q : Bool → Wrkr μ → Prop} :
    Wp (readRetryDue env) Q E w ↔
      Q (env.retryDue w.hist) (w.push (.retryDue (env.retryDue w.hist))) := Iff.rfl

end Steps

/-- Whether the content read from the state file says that the action is suspended: at most 1023
bytes are read, trailing white space behind the first byte is cut off, and the rest is compared as
a C string. -/
def stateFileSuspended (content : Bytes) : Bool :=
  let isSpace (c : UInt8) : Bool := c == 10 || c == 9 || c == 32
  match content.take 1023 with
  | [] => false
  | b :: bs => (b :: bs.rdropWhile isSpace).takeWhile (· != 0) == ascii "SUSPENDED"

end World

/-! ## States -/

/-- The code that goes with the state. Reading it clears `bHadAutoCommit`. -/
def getReturnCode : Act μ RsRet := do
  let w ← get
  match w.actState with
  | .rdy => return .ok
  | .itx =>
    if w.bHadAutoCommit then
      modify fun w => w.setAutoCommit false
      return .previousCommitted
    else return .deferCommit
  | .rtry => return .suspended
  | .susp => return .actionFailed
  | .dataFail => return .dataFail

def actionCommitted : Act μ Unit := actionSetState .rdy

def actionRetry : Act μ Unit := do
  actionSetState .rtry
  modify fun w => w.setInRow (w.uResumeOKinRow + 1)

/-- The time of the next retry, which this sets too, is read through `Env.retryDue`. -/
def actionSuspend : Act μ Unit := actionSetState .susp

section Engine

variable (env : Env μ) (act : ActConf) (fuel : ℕ)

def checkExternalStateFile : Act μ RsRet := do
  if act.pszExternalStateFile then
    let suspended := (env.stateFile (← get).hist).elim false stateFileSuspended
    log (.externalState suspended)
    if suspended then
      actionRetry
      return .suspended
    else return .ok
  else return .ok

/-! ## Retries -/

/-- A module that resumes and then does not work is not believed every tenth time
(`bTreatOKasSusp`). -/
def Wrkr.Distrusts (w : Wrkr μ) : Prop := w.uResumeOKinRow > 9 ∧ w.uResumeOKinRow % 10 = 0
deriving Decidable

def callTryResume : Act μ RsRet := do
  let iRet ← callModule env .tryResume
  if (← get).Distrusts then
    setActionResumeInRow 0
    return .suspended
  else return iRet

/-- The loop of `actionDoRetry` and `actionDoRetry_extFile`, which ask for the resumption in their
own way. Codes other than OK, SUSPENDED and DISABLE_ACTION change nothing. -/
def retryLoop (resume : Act μ RsRet) : ℕ → ℤ → RsRet → Act μ RsRet
  | 0, _, _ => throw ()
  | n + 1, iRetries, iRet => do
    if ← readShutdownImmediate env then return iRet
    else if (← getActionState) ≠ .rtry then return iRet
    else
      match ← resume with
      | .ok =>
        actionSetState .rdy
        retryLoop resume n iRetries .ok
      | .suspended =>
        if act.iResumeRetryCount ≠ -1 ∧ iRetries ≥ act.iResumeRetryCount then
          actionSuspend
          retryLoop resume n iRetries .suspended
        else
          log .sleep
          if ← readShutdownImmediate env then return .forceTerm
          else retryLoop resume n (iRetries + 1) .suspended
      | .disableAction =>
        actionDisable
        retryLoop resume n iRetries .disableAction
      | iRet => retryLoop resume n iRetries iRet

abbrev doRetryLoop : ℕ → ℤ → RsRet → Act μ RsRet := retryLoop env act (callTryResume env)

def actionDoRetry : Act μ RsRet := doRetryLoop env act fuel 0 .ok

/-- The state file takes the place of `tryResume`. -/
abbrev doRetryExtFileLoop : ℕ → ℤ → RsRet → Act μ RsRet :=
  retryLoop env act (checkExternalStateFile env act)

def actionDoRetryExtFile : Act μ RsRet := doRetryExtFileLoop env act fuel 0 .ok

/-! ## Preparing the action -/

def actionCheckAndCreateWrkrInstance : Act μ RsRet := do
  if (← get).actWrkrData then return .ok
  else
    let iRet ← callModule env .createWrkrInstance
    if iRet = .ok then
      modify fun w => w.create
      actionSetState .rdy
    return iRet

def actionTryResume : Act μ RsRet := do
  if (← getActionState) = .susp then
    if ← readRetryDue env then actionSetState .rtry
  if (← getActionState) = .rtry then actionDoRetry env act fuel
  else return .ok

/-- A module without transactions has a `beginTransaction` that does nothing. -/
def beginTransaction : Act μ RsRet := do
  if act.isTransactional then callModule env .beginTransaction
  else
    log (.call .beginTransaction .ok)
    return .ok

def prepareBegin : Act μ RsRet := do
  let iRet ← beginTransaction env act
  match iRet with
  | .ok => actionSetState .itx
  | .suspended => actionRetry
  | .disableAction => actionDisable
  | _ => pure ()
  return iRet

def prepareReady : Act μ RsRet := do
  if (← checkExternalStateFile env act) = .suspended then
    let iRet ← actionDoRetryExtFile env act fuel
    if iRet ≠ .ok then return iRet else prepareBegin env act
  else prepareBegin env act

def actionPrepare : Act μ RsRet := do
  let iRet ← actionCheckAndCreateWrkrInstance env
  if iRet ≠ .ok then return iRet
  else
    let iRet ← actionTryResume env act fuel
    if iRet ≠ .ok then return iRet
    else if (← getActionState) = .rdy then prepareReady env act fuel
    else return .ok

/-! ## Messages -/

def handleActionExecResult (ret : RsRet) : Act μ RsRet := do
  match ret with
  | .ok =>
    actionCommitted
    setActionResumeInRow 0
  | .deferCommit => setActionResumeInRow 0
  | .previousCommitted =>
    modify fun w => w.setAutoCommit true
    setActionResumeInRow 0
  | .disableAction => actionDisable
  | .suspended => actionRetry
  | _ => actionSetState .dataFail
  getReturnCode

def actionCallDoAction (m : μ) : Act μ RsRet := do
  modify fun w => w.setAutoCommit false
  let ret ← callModule env (.doAction m)
  handleActionExecResult ret

def actionCallCommitTransaction (ms : List μ) : Act μ RsRet := do
  let ret ← callModule env (.commitTransaction ms)
  handleActionExecResult ret

def processMessage (m : μ) : Act μ RsRet := do
  let iRet ← actionPrepare env act fuel
  if iRet ≠ .ok then return iRet
  else if (← getActionState) = .itx then
    let iRet ← actionCallDoAction env m
    if iRet ≠ .ok then return iRet else getReturnCode
  else getReturnCode

def actionProcessMessage (m : μ) : Act μ RsRet := do
  log (.processing m)
  let iRet ← processMessage env act fuel m
  let w ← get
  log (.processed m w.actState w.bDisabled)
  return iRet

/-! ## Transactions -/

/-- The loop of `doTransaction` over the messages that are left. A message that was refused with
SUSPENDED is submitted again. -/
def doTransactionLoop : ℕ → List μ → RsRet → Act μ RsRet
  | _, [], iRet => return iRet
  | 0, _ :: _, _ => throw ()
  | n + 1, m :: ms, _ => do
    let iRet ← actionProcessMessage env act fuel m
    if iRet = .suspended then
      log .sleep
      doTransactionLoop n (m :: ms) iRet
    else if iRet ≠ .deferCommit ∧ iRet ≠ .previousCommitted ∧ iRet ≠ .ok then return iRet
    else doTransactionLoop n ms iRet

def doTransaction (ms : List μ) : Act μ RsRet := do
  let iRet ←
    if act.commitTransaction then actionCallCommitTransaction env ms
    else doTransactionLoop env act fuel fuel ms .ok
  -- this is expected for a transactional action
  return if iRet = .deferCommit ∨ iRet = .previousCommitted then .ok else iRet

def tryCommitEnd : Act μ RsRet := do
  let iRet ← callModule env .endTransaction
  match iRet with
  | .ok | .deferCommit | .previousCommitted =>
    actionCommitted
    getReturnCode
  | .suspended =>
    actionRetry
    getReturnCode
  | .disableAction =>
    actionDisable
    getReturnCode
  | _ => return iRet

def actionTryCommit (ms : List μ) : Act μ RsRet := do
  log (.tryCommit (← getActionState))
  let iRet ← actionPrepare env act fuel
  if iRet ≠ .ok then return iRet
  else
    let iRet ← doTransaction env act fuel ms
    if iRet ≠ .ok then return iRet
    else if (← getActionState) = .itx then tryCommitEnd env
    else getReturnCode

def actionWriteErrorFile (ret : RsRet) (ms : List μ) : Act μ Unit := log (.errorFile ret ms)

def actionTryRemoveHardErrorsFromBatch : List μ → Act μ (List μ)
  | [] => return []
  | m :: ms => do
    setActionResumeInRow 0
    let ret ← actionTryCommit env act fuel [m]
    if ret = .suspended then return m :: (← actionTryRemoveHardErrorsFromBatch ms)
    else
      if ret ≠ .ok then actionWriteErrorFile ret [m]
      actionTryRemoveHardErrorsFromBatch ms

def leave (exit : Exit) (iRet : RsRet) : Act μ RsRet := do
  log (.left exit)
  modify fun w => w.setParams []
  return iRet

def commitLoop (ms : List μ) : ℕ → Act μ RsRet
  | 0 => throw ()
  | n + 1 => do
    let iRet ← actionTryCommit env act fuel ms
    if iRet = .forceTerm then leave .forceTerm .forceTerm
    else if iRet = .suspended then
      let iRet ← actionDoRetry env act fuel
      if iRet = .forceTerm then leave .forceTerm .forceTerm
      else if iRet ≠ .ok then
        actionWriteErrorFile iRet ms
        leave .retryFailed iRet
      else commitLoop ms n
    else
      let st ← getActionState
      if iRet = .ok ∨ iRet = .actionFailed ∨ st = .rdy ∨ st = .susp then leave (.done iRet) iRet
      else commitLoop ms n

def actionCommit : Act μ RsRet := do
  let w ← get
  let ms := w.iparams
  log (.commit ms)
  if !act.isTransactional || ms.isEmpty then leave .nothing .ok
  else if w.actState = .susp then
    actionWriteErrorFile .ok ms
    leave .suspended .ok
  else
    let iRet ← actionTryCommit env act fuel ms
    if iRet = .ok then leave .committed .ok
    else if ms.length = 1 then
      if iRet = .dataFail then leave .singleDataFail iRet
      else commitLoop env act fuel ms fuel
    else
      let left ← actionTryRemoveHardErrorsFromBatch env act fuel ms
      if left.isEmpty then leave .noneLeft .ok
      else commitLoop env act fuel left fuel

/-! ## The callers -/

def processMsgMain (bDoAutoCommit : Bool) (m : μ) : Act μ RsRet := do
  let iRet ←
    if act.isTransactional then
      -- the message is kept for the commit, `wtiNewIParam`
      modify fun w => w.setParams (w.iparams ++ [m])
      let _ ← actionPrepare env act fuel
      getReturnCode
    else actionProcessMessage env act fuel m
  if iRet = .ok ∧ bDoAutoCommit then actionCommit env act fuel
  else return iRet

def batchSetElemState (e : BatchElem μ) (newState : BatchState) : BatchElem μ :=
  if e.eltState ≠ .disc then { e with eltState := newState } else e

/-- The loop of `processBatchMain` over the elements that are left. -/
def batchLoop (bDoAutoCommit : Bool) : List (BatchElem μ) → Act μ (List (BatchElem μ))
  | [] => return []
  | e :: es => do
    if ← readShutdownImmediate env then return e :: es
    else if e.eltState = .disc then return e :: (← batchLoop bDoAutoCommit es)
    else
      let localRet ← processMsgMain env act fuel bDoAutoCommit e.pMsg
      let e' :=
        if localRet = .ok ∨ localRet = .deferCommit ∨ localRet = .actionFailed ∨
            localRet = .previousCommitted then batchSetElemState e .comm
        else e
      return e' :: (← batchLoop bDoAutoCommit es)

def processBatchMain (pElem : List (BatchElem μ)) : Act μ (RsRet × List (BatchElem μ)) := do
  let pElem ← batchLoop env act fuel (pElem.length = 1) pElem
  let iRet ← actionCommit env act fuel
  return (iRet, pElem)

/-- What the callers do with the action of a worker: they hand it a message, or they commit. -/
inductive Op (μ : Type)
  | processMsg (bDoAutoCommit : Bool) (m : μ)
  | commit

def perform : Op μ → Act μ RsRet
  | .processMsg bDoAutoCommit m => processMsgMain env act fuel bDoAutoCommit m
  | .commit => actionCommit env act fuel

def performAll : List (Op μ) → Act μ Unit
  | [] => return ()
  | op :: ops => do
    let _ ← perform env act fuel op
    performAll ops

end Engine

end Rsyslog.Action
