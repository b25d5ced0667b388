import Rsyslog.Ratelimit.Limit

/-!
# Messages on their way to the queue

`ratelimitAddMsg` of `ratelimit.c` with what is below it: the rate limiter and the reduction of
repeated messages, `submitMsg2` and `multiSubmitMsg2` of `rsyslogd.c`, and the enqueue functions of
`queue.c`.

A message is passed on by its handle. The repeat candidate and a message that has been submitted may
be the same object, so a message that `submitMsg2` truncates is truncated for the ratelimiter as
well. What is decided elsewhere is input to the model: whether a message can be parsed, whether
there is memory for a copy, whether the queue still exists, and what the queue does with a message.
`taken`, `given` and `emitted` are history, and no function reads them.
-/

namespace Rsyslog.Ratelimit

open Lib

inductive RsRet
  | ok
  | discardMsg
  | queueFull
  | forceTerm
  | err
  deriving DecidableEq

structure Msg where
  msg : Bytes
  hostname : Bytes
  procid : Bytes
  appname : Bytes
  iLenRawMsg : ℕ
  iSeverity : ℤ
  ttGenTime : ℤ
  needsParsing : Bool
  deriving DecidableEq

/-- A message, the report that a message was repeated, or a segment of an oversize message. -/
inductive Obj (H : Type)
  | msg (h : H)
  | rep (times : ℤ) (h : H)
  | segment (i : ℕ) (o : Obj H)
  deriving DecidableEq

/-- `glblOversizeMsgInputMode_Accept` and its siblings. -/
inductive OversizeMode
  | accept
  | truncate
  | split
  deriving DecidableEq

/-- The settings, among them how many elements the multi-submit buffer of the caller has. -/
structure Cfg where
  bReduceRepeatMsgs : Bool
  severity : ℤ
  maxLine : ℕ
  oversizeMode : OversizeMode
  maxElem : ℕ
  deriving DecidableEq

inductive Full
  | discards
  | inputTerm
  | timedOut
  | condError
  | waited
  deriving DecidableEq

/-- What a storage driver does: keep the message, write it out and destruct it, or fail. -/
inductive QAdd
  | stored
  | onDisk
  | failed
  deriving DecidableEq

structure Enq where
  discarded : Bool
  full : List Full
  sampledOut : Bool
  qAdd : QAdd
  deriving DecidableEq

/-- A queue, with what it or its consumer does with one message. A direct queue holds no messages,
so it is never full. -/
inductive Queue
  | nonDirect (e : Enq)
  | direct (sampledOut : Bool) (iRet : RsRet)
  deriving DecidableEq

/-- A queue, with what it or its consumer does with the messages of a buffer. -/
inductive MultiQueue
  | nonDirect (enq : ℕ → Enq)
  | direct (iRet : ℕ → RsRet)

inductive Segment
  | noMemory
  | submitted (pQueue : Option Queue)

/-- What `submitMsg2` finds, for the message or for its segments. -/
structure Submit where
  pQueue : Option Queue
  segments : ℕ → Segment

variable {H : Type}

/-- The messages, the ratelimiter with its candidate, the multi-submit buffer and the queue; and the
history: references taken and given back, and the objects handed on. -/
structure Sys (H : Type) where
  heap : H → Msg
  rl : Ratelimiter
  pMsg : Option H
  nsupp : UInt32
  ppMsgs : List (Obj H)
  queue : List (Obj H)
  taken : List (Obj H)
  given : List (Obj H)
  emitted : List (Obj H)

namespace Sys

def take (s : Sys H) (o : Obj H) : Sys H := { s with taken := o :: s.taken }

def takeRep (rep : Option (Obj H)) (s : Sys H) : Sys H := rep.elim s s.take

def msgDestruct (o : Obj H) (s : Sys H) : Sys H := { s with given := o :: s.given }

end Sys

/-! ## The ratelimiter -/

def repMsgText (times : ℤ) (msg : Bytes) : Bytes :=
  ascii " message repeated " ++ decimalInt times ++ ascii " times: [" ++
    (cstring msg).take 800 ++ ascii "]"

def MsgReplaceMSG (msg : Bytes) (m : Msg) : Msg :=
  { m with msg := msg, iLenRawMsg := m.iLenRawMsg + msg.length - m.msg.length }

/-- `getRawMsgLen`. A segment is not longer than a line, and its length is not looked at. -/
def Sys.getRawMsgLen (s : Sys H) : Obj H → ℕ
  | .msg h => (s.heap h).iLenRawMsg
  | .rep times h => (MsgReplaceMSG (repMsgText times (s.heap h).msg) (s.heap h)).iLenRawMsg
  | .segment _ _ => 0

/-- With one message suppressed, the original message is used, and else a copy. The counter is
unsigned, and printed as an `int`. -/
def ratelimitGenRepMsg (memory : Bool) (nsupp : UInt32) (pMsg : H) : Option (Obj H) :=
  if nsupp = 1 then some (.msg pMsg)
  else if memory then some (.rep nsupp.toInt32.toInt pMsg)
  else none

def sameMsg (m m' : Msg) : Bool :=
  m.msg.length == m'.msg.length && cstring m.msg == cstring m'.msg &&
    cstring m.hostname == cstring m'.hostname && cstring m.procid == cstring m'.procid &&
    cstring m.appname == cstring m'.appname

def doLastMessageRepeatedNTimes (memory : Bool) (pMsg : H) (s : Sys H) :
    RsRet × Option (Obj H) × Sys H :=
  match s.pMsg with
  | none => (.ok, none, { s.take (.msg pMsg) with pMsg := some pMsg })
  | some last =>
    if sameMsg (s.heap pMsg) (s.heap last) then
      -- use current message, so we have the new timestamp
      (.discardMsg, none,
        { s.msgDestruct (.msg last) with nsupp := s.nsupp + 1, pMsg := some pMsg })
    else
      let ppRepMsg := if 0 < s.nsupp then ratelimitGenRepMsg memory s.nsupp last else none
      let s := ((s.takeRep ppRepMsg).msgDestruct (.msg last)).take (.msg pMsg)
      (.ok, ppRepMsg, { s with nsupp := 0, pMsg := some pMsg })

def namebuf (m : Msg) : Bytes :=
  (cstring m.hostname ++ ascii ":" ++ cstring m.appname).take 511

/-- A call of `ratelimitAddMsg`, with or without a multi-submit buffer, and what is found on the
way: the result of parsing, the time, memory for a report, and the queues. -/
structure Offer (H : Type) where
  pMsg : H
  bMultiSub : Bool
  parsed : Bool
  now : ℤ
  memory : Bool
  submitRep : Submit
  submit : Submit
  multiRep : Option MultiQueue
  multiOversize : Option MultiQueue
  multi : Option MultiQueue

variable (cfg : Cfg)

def Cfg.early : Prop := cfg.bReduceRepeatMsgs ∨ 0 < cfg.severity
deriving Decidable

def Sys.unparsed (c : Offer H) (s : Sys H) : Prop :=
  cfg.early ∧ (s.heap c.pMsg).needsParsing ∧ ¬ c.parsed
deriving Decidable

def Sys.limits (c : Offer H) (s : Sys H) : Prop :=
  s.rl.interval ≠ 0 ∧ cfg.severity ≤ if cfg.early then (s.heap c.pMsg).iSeverity else 0
deriving Decidable

def Sys.within (c : Offer H) (s : Sys H) : Ratelimiter × Bool × List Bytes :=
  let m := s.heap c.pMsg
  withinRatelimit s.rl ⟨m.ttGenTime, c.now, namebuf m⟩

def ratelimitMsg (c : Offer H) (s : Sys H) : RsRet × Option (Obj H) × Sys H :=
  if s.unparsed cfg c then (.discardMsg, none, s)
  else if s.limits cfg c ∧ ¬ (s.within c).2.1 then
    (.discardMsg, none, { s with rl := (s.within c).1 }.msgDestruct (.msg c.pMsg))
  else
    let s := if s.limits cfg c then { s with rl := (s.within c).1 } else s
    if cfg.bReduceRepeatMsgs then doLastMessageRepeatedNTimes c.memory c.pMsg s
    else (.ok, none, s)

/-! ## Enqueueing -/

/-- The rounds that wait, and then the enqueueing. When the inputs are told to terminate, the
function gives up. -/
def waitFull (o : Obj H) (add : Sys H → RsRet × Sys H) : List Full → Sys H → RsRet × Sys H
  | [], s => add s
  | .discards :: _, s => (.queueFull, s.msgDestruct o)
  | .inputTerm :: _, s => (.forceTerm, s)
  | .timedOut :: _, s => (.queueFull, s.msgDestruct o)
  | .condError :: _, s => (.queueFull, s.msgDestruct o)
  | .waited :: rounds, s => waitFull o add rounds s

def qAddDirectWithWti (iRet : RsRet) (o : Obj H) (s : Sys H) : RsRet × Sys H :=
  (iRet, s.msgDestruct o)

def qqueueAdd (e : Enq) (o : Obj H) (s : Sys H) : RsRet × Sys H :=
  if e.sampledOut then (.ok, s.msgDestruct o)
  else
    match e.qAdd with
    | .stored => (.ok, { s with queue := s.queue ++ [o] })
    | .onDisk => (.ok, s.msgDestruct o)
    | .failed => (.err, s)

def doEnqSingleObj (q : Queue) (o : Obj H) (s : Sys H) : RsRet × Sys H :=
  match q with
  | .nonDirect e =>
    if e.discarded then (.queueFull, s.msgDestruct o)
    else waitFull o (qqueueAdd e o) e.full s
  | .direct sampledOut iRet =>
    if sampledOut then (.ok, s.msgDestruct o) else qAddDirectWithWti iRet o s

def qqueueMultiEnqObjNonDirect (enq : ℕ → Enq) : ℕ → List (Obj H) → Sys H → RsRet × Sys H
  | _, [], s => (.ok, s)
  | i, o :: ppMsgs, s =>
    let (localRet, s) := doEnqSingleObj (.nonDirect (enq i)) o s
    if localRet ≠ .ok ∧ localRet ≠ .queueFull then (localRet, s)
    else qqueueMultiEnqObjNonDirect enq (i + 1) ppMsgs s

def qqueueMultiEnqObjDirect (iRet : ℕ → RsRet) : ℕ → List (Obj H) → Sys H → RsRet × Sys H
  | _, [], s => (.ok, s)
  | i, o :: ppMsgs, s =>
    let (r, s) := qAddDirectWithWti (iRet i) o s
    if r ≠ .ok then (r, s) else qqueueMultiEnqObjDirect iRet (i + 1) ppMsgs s

variable (iRet : ℕ → RsRet)

variable (enq : ℕ → Enq) (i : ℕ) (o : Obj H) (os : List (Obj H))

lemma qqueueMultiEnqObjDirect_cons (s : Sys H) :
    qqueueMultiEnqObjDirect iRet i (o :: os) s =
      if iRet i ≠ .ok then (iRet i, s.msgDestruct o)
      else qqueueMultiEnqObjDirect iRet (i + 1) os (s.msgDestruct o) := rfl

def MultiQueue.multiEnq (q : MultiQueue) (ppMsgs : List (Obj H)) (s : Sys H) : RsRet × Sys H :=
  match q with
  | .nonDirect enq => qqueueMultiEnqObjNonDirect enq 0 ppMsgs s
  | .direct iRet => qqueueMultiEnqObjDirect iRet 0 ppMsgs s

/-! ## Submitting -/

/-- The end of `submitMsg2`; what `qqueueEnqMsg` returns is not used. -/
def enqMsg (pQueue : Option Queue) (o : Obj H) (s : Sys H) : Sys H :=
  match pQueue with
  -- if a plugin logs a message during shutdown, the queue may no longer exist
  | none => s
  | some q => (doEnqSingleObj q o s).2

def nSegments (maxlen len : ℕ) : ℕ := len / maxlen + if len % maxlen ≠ 0 then 1 else 0

/-- The `n` segments from number `i` on. A segment is not oversize, so that it is enqueued. -/
def splitOversizeMessage (segments : ℕ → Segment) (o : Obj H) : ℕ → ℕ → Sys H → Sys H
  | 0, _, s => s
  | n + 1, i, s =>
    match segments i with
    | .noMemory => s
    | .submitted pQueue => splitOversizeMessage segments o n (i + 1)
        (enqMsg pQueue (.segment i o) (s.take (.segment i o)))

/-- What remains of a message of which the end of the raw message is cut off. -/
def MsgTruncateToMaxSize (maxMsgSize : ℕ) (m : Msg) : Msg :=
  { m with
    iLenRawMsg := maxMsgSize
    msg := m.msg.take (m.msg.length - (m.iLenRawMsg - maxMsgSize)) }

def Cfg.submitted (m : Msg) : Msg :=
  if cfg.maxLine < m.iLenRawMsg ∧ cfg.oversizeMode = .truncate then
    MsgTruncateToMaxSize cfg.maxLine m
  else m

section

variable [DecidableEq H]

def Sys.truncate (o : Obj H) (s : Sys H) : Sys H :=
  match o with
  | .msg h => { s with heap := Function.update s.heap h (cfg.submitted (s.heap h)) }
  | .rep _ _ => s
  | .segment _ _ => s

def submitMsg2 (env : Submit) (o : Obj H) (s : Sys H) : Sys H :=
  let len := s.getRawMsgLen o
  let s := { s with emitted := s.emitted ++ [o] }
  if cfg.maxLine < len ∧ cfg.oversizeMode = .split then
    (splitOversizeMessage env.segments o (nSegments cfg.maxLine len) 0 s).msgDestruct o
  else enqMsg env.pQueue o (s.truncate cfg o)

end

def multiSubmitMsg2 (pQueue : Option MultiQueue) (s : Sys H) : RsRet × Sys H :=
  if s.ppMsgs.length = 0 then (.ok, s)
  else
    match pQueue with
    | none => (.ok, s)
    | some q =>
      let (iRet, s) := q.multiEnq s.ppMsgs { s with emitted := s.emitted ++ s.ppMsgs }
      (iRet, { s with ppMsgs := [] })

def multiSubmitFlush (pQueue : Option MultiQueue) (s : Sys H) : RsRet × Sys H :=
  if 0 < s.ppMsgs.length then multiSubmitMsg2 pQueue s else (.ok, s)

/-- `ppMsgs[nElem++] = o`, and the elements are submitted if the buffer is full now. There is no
result if the array has no such element. -/
def addElem (pQueue : Option MultiQueue) (o : Obj H) (s : Sys H) : Option (RsRet × Sys H) :=
  if s.ppMsgs.length < cfg.maxElem then
    let s := { s with ppMsgs := s.ppMsgs ++ [o] }
    some (if s.ppMsgs.length = cfg.maxElem then multiSubmitMsg2 pQueue s else (.ok, s))
  else none

section

variable [DecidableEq H]

def addToMultiSub (c : Offer H) (s : Sys H) : Option (RsRet × Sys H) :=
  if cfg.maxLine < (s.heap c.pMsg).iLenRawMsg then
    -- we keep at least the previous batch as batch
    let (iRet, s) := if 0 < s.ppMsgs.length then multiSubmitMsg2 c.multiOversize s else (.ok, s)
    if iRet ≠ .ok then some (iRet, s)
    else some (.ok, submitMsg2 cfg c.submit (.msg c.pMsg) s)
  else addElem cfg c.multi (.msg c.pMsg) s

def addSingle (c : Offer H) (localRet : RsRet) (repMsg : Option (Obj H)) (s : Sys H) :
    RsRet × Sys H :=
  let s := repMsg.elim s fun o => submitMsg2 cfg c.submitRep o s
  if localRet ≠ .ok then (localRet, s)
  else (.ok, submitMsg2 cfg c.submit (.msg c.pMsg) s)

def addMulti (c : Offer H) (localRet : RsRet) (repMsg : Option (Obj H)) (s : Sys H) :
    Option (RsRet × Sys H) := do
  let (iRet, s) ← repMsg.elim (some (.ok, s)) fun o => addElem cfg c.multiRep o s
  if iRet ≠ .ok then some (iRet, s)
  else if localRet ≠ .ok then some (localRet, s)
  else addToMultiSub cfg c s

def ratelimitAddMsg (c : Offer H) (s : Sys H) : Option (RsRet × Sys H) :=
  let (localRet, repMsg, s) := ratelimitMsg cfg c s
  if c.bMultiSub then addMulti cfg c localRet repMsg s
  else some (addSingle cfg c localRet repMsg s)

/-- What a caller does: it constructs a message and adds it, or it flushes its buffer. -/
inductive Event (H : Type)
  | add (c : Offer H)
  | flush (pQueue : Option MultiQueue)

def step (s : Sys H) : Event H → Option (Sys H)
  | .add c => (ratelimitAddMsg cfg c (s.take (.msg c.pMsg))).map Prod.snd
  | .flush pQueue => some (multiSubmitFlush pQueue s).2

def ratelimitDestruct (memory : Bool) (env : Submit) (s : Sys H) : Sys H :=
  match s.pMsg with
  | none => s
  | some pMsg =>
    let s := if 0 < s.nsupp then
        let repMsg := ratelimitGenRepMsg memory s.nsupp pMsg
        repMsg.elim s fun o => submitMsg2 cfg env o (s.take o)
      else s
    { s.msgDestruct (.msg pMsg) with pMsg := none }

end

/-! ## What a queue returns -/

def Enq.consumes (e : Enq) : Bool := e.discarded || waits e.full
where
  waits : List Full → Bool
    | [] => e.sampledOut || e.qAdd ≠ .failed
    | .inputTerm :: _ => false
    | .waited :: rounds => waits rounds
    | _ :: _ => true

def Queue.consumes : Queue → Bool
  | .nonDirect e => e.consumes
  | .direct _ _ => true

variable (e : Enq) (o : Obj H) (s : Sys H)

/-- A message that is consumed is given back or stored, and the caller goes on; if it is not, the
caller gives up and nothing was done. -/
def Enqueues (consumed : Bool) (o : Obj H) (s : Sys H) (r : RsRet × Sys H) : Prop :=
  if consumed then
    (r.1 = .ok ∨ r.1 = .queueFull) ∧
      (r.2 = s.msgDestruct o ∨ r.2 = { s with queue := s.queue ++ [o] })
  else ¬(r.1 = .ok ∨ r.1 = .queueFull) ∧ r.2 = s

lemma enqueues_qqueueAdd : Enqueues (Enq.consumes.waits e []) o s (qqueueAdd e o s) := by
  unfold qqueueAdd Enq.consumes.waits
  by_cases hs : e.sampledOut
  · simp [Enqueues, hs]
  · cases hq : e.qAdd <;> simp [Enqueues, hs]

lemma enqueues_waitFull (rounds : List Full) (s : Sys H) :
    Enqueues (Enq.consumes.waits e rounds) o s (waitFull o (qqueueAdd e o) rounds s) := by
  induction rounds with
  | nil => exact enqueues_qqueueAdd e o s
  | cons r rounds ih =>
    cases r with
    | waited => exact ih
    | inputTerm | discards | timedOut | condError =>
      simp [Enqueues, waitFull, Enq.consumes.waits]

lemma enqueues_doEnqSingleObj : Enqueues e.consumes o s (doEnqSingleObj (.nonDirect e) o s) := by
  unfold doEnqSingleObj Enq.consumes
  by_cases hd : e.discarded
  · simp [Enqueues, hd]
  · simpa [hd] using enqueues_waitFull e o e.full s

lemma doEnqSingleObj_ret :
    (doEnqSingleObj (.nonDirect e) o s).1 = .ok ∨
      (doEnqSingleObj (.nonDirect e) o s).1 = .queueFull ↔ e.consumes := by
  have h := enqueues_doEnqSingleObj e o s
  unfold Enqueues at h
  split at h
  next hc => exact iff_of_true h.1 hc
  next hc => exact iff_of_false h.1 hc

lemma forall_consumes_cons (o : Obj H) (os : List (Obj H)) :
    (∀ j < (o :: os).length, (enq (i + j)).consumes) ↔
      (enq i).consumes ∧ ∀ j < os.length, (enq (i + 1 + j)).consumes := by
  rw [List.length_cons, Nat.forall_lt_succ_left]
  simp [Nat.add_assoc, Nat.add_comm 1]

/-- No element of a buffer with `n` of them is lost. A direct queue stops at an error, which may be
one of the last element. -/
def keepsAll (n : ℕ) : Option MultiQueue → Prop
  | none => True
  | some (.nonDirect enq) => ∀ i < n, (enq i).consumes
  | some (.direct iRet) => ∀ i, i + 1 < n → iRet i = .ok

def returnsOk (n : ℕ) : Option MultiQueue → Prop
  | none => True
  | some (.nonDirect enq) => ∀ i < n, (enq i).consumes
  | some (.direct iRet) => ∀ i < n, iRet i = .ok

lemma returnsOk.keepsAll {n : ℕ} {q : Option MultiQueue} (h : returnsOk n q) : keepsAll n q := by
  match q with
  | none => trivial
  | some (.nonDirect enq) => exact h
  | some (.direct iRet) => exact fun i hi => h i (by omega)

/-! ## What a queue leaves alone -/

def Moves (s s' : Sys H) : Prop :=
  ∃ queue taken given, s' = { s with queue := queue, taken := taken, given := given }

lemma Moves.refl : Moves s s := ⟨_, _, _, rfl⟩

lemma Moves.trans {s s' s'' : Sys H} (h : Moves s s') (h' : Moves s' s'') : Moves s s'' := by
  obtain ⟨_, _, _, rfl⟩ := h
  obtain ⟨queue, taken, given, rfl⟩ := h'
  exact ⟨queue, taken, given, rfl⟩

lemma moves_take : Moves s (s.take o) := ⟨_, _, _, rfl⟩

lemma moves_takeRep (rep : Option (Obj H)) (s : Sys H) : Moves s (s.takeRep rep) := by
  cases rep with
  | none => exact .refl s
  | some o => exact moves_take o s

lemma moves_msgDestruct : Moves s (s.msgDestruct o) := ⟨_, _, _, rfl⟩

lemma moves_doEnqSingleObj (q : Queue) (o : Obj H) (s : Sys H) :
    Moves s (doEnqSingleObj q o s).2 := by
  cases q with
  | nonDirect e =>
    have h := enqueues_doEnqSingleObj e o s
    unfold Enqueues at h
    split at h
    · obtain ⟨-, h | h⟩ := h <;> rw [h]
      · exact moves_msgDestruct o s
      · exact ⟨_, _, _, rfl⟩
    · rw [h.2]
      exact .refl s
  | direct sampledOut iRet =>
    simp only [doEnqSingleObj]
    split <;> exact moves_msgDestruct o s

lemma moves_enqMsg (pQueue : Option Queue) (o : Obj H) (s : Sys H) :
    Moves s (enqMsg pQueue o s) := by
  cases pQueue with
  | none => exact .refl s
  | some q => exact moves_doEnqSingleObj q o s

lemma moves_splitOversizeMessage (segments : ℕ → Segment) (o : Obj H) (n i : ℕ) (s : Sys H) :
    Moves s (splitOversizeMessage segments o n i s) := by
  induction n generalizing i s with
  | zero => exact .refl s
  | succ n ih =>
    simp only [splitOversizeMessage]
    split
    · exact .refl s
    · exact ((moves_take _ s).trans (moves_enqMsg _ _ _)).trans (ih _ _)

lemma multiEnqNonDirect_spec (s : Sys H) :
    ((qqueueMultiEnqObjNonDirect enq i os s).1 = .ok ↔ ∀ j < os.length, (enq (i + j)).consumes) ∧
      Moves s (qqueueMultiEnqObjNonDirect enq i os s).2 := by
  induction os generalizing i s with
  | nil => exact ⟨by simp [qqueueMultiEnqObjNonDirect], .refl s⟩
  | cons o os ih =>
    have hmoves := moves_doEnqSingleObj (.nonDirect (enq i)) o s
    rw [forall_consumes_cons, ← doEnqSingleObj_ret (enq i) o s]
    simp only [qqueueMultiEnqObjNonDirect]
    split
    · next hstop => exact ⟨iff_of_false hstop.1 fun h => (not_or.2 hstop) h.1, hmoves⟩
    · next hgo =>
      rw [← not_or, not_not] at hgo
      rw [(ih _ _).1]
      exact ⟨(and_iff_right hgo).symm, hmoves.trans (ih _ _).2⟩

lemma multiEnqDirect_spec (s : Sys H) :
    ((qqueueMultiEnqObjDirect iRet i os s).1 = .ok ↔ ∀ j < os.length, iRet (i + j) = .ok) ∧
      Moves s (qqueueMultiEnqObjDirect iRet i os s).2 := by
  induction os generalizing i s with
  | nil => exact ⟨by simp [qqueueMultiEnqObjDirect], .refl s⟩
  | cons o os ih =>
    rw [qqueueMultiEnqObjDirect_cons, List.length_cons, Nat.forall_lt_succ_left]
    split
    · next hr => exact ⟨iff_of_false hr fun h => hr h.1, moves_msgDestruct o s⟩
    · next hr =>
      refine ⟨?_, (moves_msgDestruct o s).trans (ih _ _).2⟩
      rw [(ih _ _).1, and_iff_right (show iRet (i + 0) = .ok from not_not.1 hr)]
      simp only [Nat.add_assoc, Nat.add_comm 1]

lemma multiSubmitMsg2_ret (q : Option MultiQueue) (s : Sys H) :
    (multiSubmitMsg2 q s).1 = .ok ↔ returnsOk s.ppMsgs.length q := by
  unfold multiSubmitMsg2
  split
  · next hn =>
    rw [hn]
    match q with
    | none | some (.nonDirect _) | some (.direct _) => simp [returnsOk]
  · match q with
    | none => simp [returnsOk]
    | some (.nonDirect enq) =>
      exact (multiEnqNonDirect_spec enq 0 s.ppMsgs _).1.trans (by simp [returnsOk])
    | some (.direct iRet) =>
      exact (multiEnqDirect_spec iRet 0 s.ppMsgs _).1.trans (by simp [returnsOk])

lemma moves_multiEnq (q : MultiQueue) (os : List (Obj H)) (s : Sys H) :
    Moves s (q.multiEnq os s).2 := by
  cases q with
  | nonDirect enq => exact (multiEnqNonDirect_spec enq 0 os s).2
  | direct iRet => exact (multiEnqDirect_spec iRet 0 os s).2

lemma multiSubmitFlush_eq (pQueue : Option MultiQueue) (s : Sys H) :
    multiSubmitFlush pQueue s = multiSubmitMsg2 pQueue s := by
  unfold multiSubmitFlush
  split
  · rfl
  · unfold multiSubmitMsg2
    rw [if_pos (by omega)]

lemma truncate_of_split [DecidableEq H] {cfg : Cfg} (hm : cfg.oversizeMode = .split) (o : Obj H)
    (s : Sys H) : s.truncate cfg o = s := by
  cases o with
  | msg h =>
    have hs : cfg.submitted (s.heap h) = s.heap h := if_neg fun h => by simp [hm] at h
    simp only [Sys.truncate, hs, Function.update_eq_self]
  | rep | segment => rfl

lemma moves_submitMsg2 [DecidableEq H] (env : Submit) (o : Obj H) (s : Sys H) :
    Moves ({ s with emitted := s.emitted ++ [o] }.truncate cfg o) (submitMsg2 cfg env o s) := by
  simp only [submitMsg2]
  split
  · next h =>
    rw [truncate_of_split h.2]
    exact (moves_splitOversizeMessage _ _ _ _ _).trans (moves_msgDestruct _ _)
  · exact moves_enqMsg _ _ _

end Rsyslog.Ratelimit
