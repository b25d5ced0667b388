import Rsyslog.Queue.Core
import Rsyslog.Msg.Serialize

/-!
# The consumer of the main queue

`msgConsumer` and `preprocessBatch` of `rsyslogd.c`, and `processBatch` of `ruleset.c`. The messages
of a batch are checked and parsed, the script of its ruleset is executed for each of them, and in
the end the elements are marked as committed.

The flag behind `pbShutdownImmediate` may be set by another thread at any time, and stays set while
the batch is processed. What matters is which read sees it first, so the model counts the reads that
still find the flag clear. What the name lookup, the sender check, the parsers and the scripts
return is given. When the list of results is used up, the loop waits for the script it started last.
-/

namespace Rsyslog.Consumer

open Rsyslog.Msg
open Rsyslog.Queue (BatchElem BatchState)

variable {E : Env}

def NEEDS_PARSING : Int32 := 0x10
def NEEDS_ACLCHK_U : Int32 := 0x80

/-- What `net.cvthname` finds out about a sender. -/
structure Names where
  localName : Bytes
  fqdn : Bytes
  ip : Bytes
  deriving DecidableEq

/-- An element of a batch as it comes in, and what is returned by the calls made for it: the name
lookup (`none` if it fails), the check of the sender against the `UDP` list, and `parser.ParseMsg`
with the message it leaves (`true` for `RS_RET_OK`). -/
structure Arrival (E : Env) where
  elem : BatchElem (SMsg E)
  cvthname : Option Names
  isAllowedSender2 : Bytes → Bool
  ParseMsg : SMsg E → Bool × SMsg E

def hasFlag (pMsg : SMsg E) (flag : Int32) : Bool := pMsg.msgFlags &&& flag ≠ 0

/-! ## Preprocessing -/

/-- Check the sender. `none` says that the loop goes on with the next message. -/
def aclCheck (a : Arrival E) : Option (BatchElem (SMsg E)) :=
  let pMsg := a.elem.pMsg
  if hasFlag pMsg NEEDS_ACLCHK_U then
    match a.cvthname with
    | none => none
    | some names =>
      if a.isAllowedSender2 names.fqdn then
        -- save some of the info we obtained
        let pMsg := MsgSetRcvFromIP (MsgSetRcvFrom pMsg names.localName) names.ip
        some { a.elem with pMsg := { pMsg with msgFlags := pMsg.msgFlags &&& ~~~NEEDS_ACLCHK_U } }
      else some { a.elem with eltState := .disc }
  else some a.elem

def parseElem (a : Arrival E) (e : BatchElem (SMsg E)) : BatchElem (SMsg E) :=
  if hasFlag e.pMsg NEEDS_PARSING then
    let (ok, pMsg) := a.ParseMsg e.pMsg
    { e with pMsg := pMsg, eltState := if ok then e.eltState else .disc }
  else e

def preprocessElem (a : Arrival E) : BatchElem (SMsg E) :=
  match aclCheck a with
  | none => a.elem
  | some e => parseElem a e

def preprocessBatch : ℕ → List (Arrival E) → List (BatchElem (SMsg E)) × ℕ
  | clear, [] => ([], clear)
  | 0, as => (as.map Arrival.elem, 0)
  | clear + 1, a :: as =>
    let r := preprocessBatch clear as
    (preprocessElem a :: r.1, r.2)

/-! ## Execution -/

/-- What `scriptExec` returns, as far as the callers tell it apart. -/
inductive ScriptRet
  | ok
  | suspended
  | discardMsg
  | forceTerm
  | error
  deriving DecidableEq

/-- An execution of a script: its result, and how often it read the flag. -/
structure Attempt where
  ret : ScriptRet
  polls : ℕ
  deriving DecidableEq

/-- An execution that was started: which element of the batch, the ruleset, and the message. -/
structure Execution (E : Env) where
  i : ℕ
  pRuleset : Bytes
  pMsg : SMsg E

/-- How far a batch has come: the executions started, the elements, how many reads still find the
flag clear, and whether the loop has been left. -/
structure Progress (E : Env) where
  executed : List (Execution E)
  pElem : List (BatchElem (SMsg E))
  clear : ℕ
  left : Bool

def batchSetElemState (e : BatchElem (SMsg E)) (newState : BatchState) : BatchElem (SMsg E) :=
  if e.eltState ≠ .disc then { e with eltState := newState } else e

def startScript (pDflt : Bytes) (i : ℕ) (e : BatchElem (SMsg E)) : Execution E :=
  ⟨i, e.pMsg.pRuleset.getD pDflt, e.pMsg⟩

/-- The loop of `processBatch` from element `i` on. A script that is suspended is executed again. -/
def execLoop (pDflt : Bytes) :
    List Attempt → ℕ → ℕ → List (BatchElem (SMsg E)) → Progress E
  | _, _, clear, [] => ⟨[], [], clear, true⟩
  | _, _, 0, es => ⟨[], es, 0, true⟩
  | [], i, clear + 1, e :: es => ⟨[startScript pDflt i e], e :: es, clear, false⟩
  | att :: atts, i, clear + 1, e :: es =>
    let r := match att.ret with
      | .suspended => execLoop pDflt atts i (clear - att.polls) (e :: es)
      | .ok =>
        let r := execLoop pDflt atts (i + 1) (clear - att.polls) es
        { r with pElem := batchSetElemState e .comm :: r.pElem }
      | _ =>
        let r := execLoop pDflt atts (i + 1) (clear - att.polls) es
        { r with pElem := e :: r.pElem }
    { r with executed := startScript pDflt i e :: r.executed }

/-- The last loop of `msgConsumer`, which assigns the state directly. -/
def commitLoop : ℕ → List (BatchElem (SMsg E)) → List (BatchElem (SMsg E))
  | _, [] => []
  | 0, es => es
  | clear + 1, e :: es => { e with eltState := .comm } :: commitLoop clear es

/-- What goes on around a batch: how many reads find the flag clear, the executions of scripts in
turn, and how often the commit phase reads the flag. -/
structure Schedule where
  clear : ℕ
  attempts : List Attempt
  commitPolls : ℕ
  deriving DecidableEq

def msgConsumer (pDflt : Bytes) (s : Schedule) (batch : List (Arrival E)) : Progress E :=
  let (pElem, clear) := preprocessBatch s.clear batch
  let r := execLoop pDflt s.attempts 0 clear pElem
  if r.left then { r with pElem := commitLoop (r.clear - s.commitPolls) r.pElem } else r

end Rsyslog.Consumer
