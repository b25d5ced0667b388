import Mathlib.Data.Fintype.Basic
import Rsyslog.Lib.Run
import Rsyslog.Queue.Store

/-!
# The queue object and its workers

The functions of `queue.c` between the storage drivers and the worker threads: enqueue with its
discard and full checks, logical dequeue of a batch, completion of a batch with the re-enqueue of
unprocessed elements and the delete from the store, and the write of the `.qi` file.

Every function runs under the queue mutex and is one atomic step here. A wait on a condition
variable gives the mutex away, so nothing can come of it inside an atomic step: a wait for a free
slot ends in its timeout. An enqueue that waited with success is an enqueue at the later time.

`Hist` records what happened, for the statements about whole runs. No function reads it.
-/

namespace Rsyslog.Queue

open Lib

/-- `queueType_t`, without the direct mode, which stores nothing. -/
inductive QueueType
  | fixedArray
  | linkedList
  | disk
  deriving DecidableEq

structure QCfg where
  qType : QueueType
  iMaxQueueSize : ℕ
  iDeqBatchSize : ℤ
  iDiscardMrk : ℤ
  iDiscardSeverity : ℤ
  iSmpInterval : ℤ
  toEnq : ℤ
  bIsDA : Bool
  sizeOnDiskMax : ℕ
  iPersistUpdCnt : ℤ
  iMaxFileSize : ℕ
  sIOBufSize : ℕ

inductive BatchState
  | rdy
  | bad
  | sub
  | comm
  | disc
  deriving DecidableEq

/-- An element of a batch. `recEnd` is history: where the dequeue stream of a disk queue stood
right after the element was read. -/
structure BatchElem (μ : Type) where
  pMsg : μ
  eltState : BatchState
  recEnd : Pos

/-- `batch_t` of a worker. The array is kept to its first `nElem` entries. -/
structure Batch (μ : Type) where
  pElem : List (BatchElem μ)
  nElemDeq : ℕ
  deqID : ℕ

variable {μ : Type}

def Batch.nElem (b : Batch μ) : ℕ := b.pElem.length

def Batch.msgs (b : Batch μ) : List μ := b.pElem.map BatchElem.pMsg

def Batch.reset (b : Batch μ) : Batch μ := { b with pElem := [], nElemDeq := 0 }

def Batch.empty : Batch μ := { pElem := [], nElemDeq := 0, deqID := 0 }

/-- History of a queue: what was put into the store, what the dequeue loop dropped, the batches
handed out with their IDs, the messages of completed batches, and the results of the enqueues. -/
structure Hist (μ : Type) where
  accepted : List μ
  dropped : List μ
  handed : List (ℕ × List μ)
  completed : List μ
  results : List RsRet

inductive Store (μ : Type)
  | farray (a : FArray μ)
  | linklist (l : LinkList μ)
  | disk (d : Disk μ)

/-- `qqueue_t`. `msgCnt` is the static counter of `qqueueAdd`, `inputTerm` the process-wide flag
behind `glbl.GetGlobalInputTermState`. -/
structure QQueue (μ : Type) where
  store : Store μ
  iQueueSize : ℤ
  nLogDeq : ℤ
  deqIDAdd : ℕ
  deqIDDel : ℕ
  toDeleteLst : List (ℕ × ℤ)
  iUpdsSincePersist : ℤ
  msgCnt : ℤ
  bEnqOnly : Bool
  inputTerm : Bool
  hist : Hist μ

/-! ## Storage driver entries -/

variable (cfg : QCfg)

def Store.construct : Store μ :=
  match cfg.qType with
  | .fixedArray => .farray (qConstructFixedArray cfg.iMaxQueueSize)
  | .linkedList => .linklist qConstructLinkedList
  | .disk => .disk qConstructDisk

def Store.qAdd [QMsg μ] (pMsg : μ) : Store μ → Option (Store μ)
  | .farray a => (qAddFixedArray cfg.iMaxQueueSize a pMsg).map .farray
  | .linklist l => (qAddLinkedList l pMsg).map .linklist
  | .disk d => some (.disk (qAddDisk cfg.iMaxFileSize cfg.sIOBufSize d pMsg))

def Store.qDeq : Store μ → Option (Except RsRet μ × Store μ)
  | .farray a => (qDeqFixedArray cfg.iMaxQueueSize a).map fun r => (.ok r.1, .farray r.2)
  | .linklist l => (qDeqLinkedList l).map fun r => (.ok r.1, .linklist r.2)
  | .disk d => some ((qDeqDisk d).1, .disk (qDeqDisk d).2)

/-- A disk store has no `qDel`; its space is given back by moving `pReadDel`. -/
def Store.qDel : Store μ → Option (Store μ)
  | .farray a => some (.farray (qDelFixedArray cfg.iMaxQueueSize a))
  | .linklist l => (qDelLinkedList l).map .linklist
  | .disk d => some (.disk d)

def Store.qDels (cfg : QCfg) : ℕ → Store μ → Option (Store μ)
  | 0, s => some s
  | n + 1, s => (s.qDel cfg).bind (Store.qDels cfg n)

def Store.readPos : Store μ → Pos
  | .disk d => d.pReadDeq
  | _ => ⟨0, 0⟩

def Store.readAtWrite : Store μ → Bool
  | .disk d => d.pReadDeq = d.pWrite
  | _ => false

/-! ## Sizes, discarding, persisting -/

def getLogicalQueueSize (q : QQueue μ) : ℤ := q.iQueueSize - q.nLogDeq

def qqueueChkDiscardMsg [QMsg μ] (iQueueSize : ℤ) (pMsg : μ) : Bool :=
  decide (0 < cfg.iDiscardMrk ∧ iQueueSize ≥ cfg.iDiscardMrk ∧
    (QMsg.iSeverity pMsg : ℤ) ≥ cfg.iDiscardSeverity)

/-- Write the `.qi` file as a checkpoint. Only a disk queue has one. -/
def qqueuePersist (q : QQueue μ) : QQueue μ :=
  match q.store with
  | .disk d =>
    { q with store := .disk { d with
        qi := some ⟨q.iQueueSize, d.sizeOnDisk, d.pWrite, d.pReadDel, d.recs.length⟩ } }
  | _ => q

def qqueueChkPersist (q : QQueue μ) (nUpdates : ℕ) : QQueue μ :=
  if nUpdates = 0 then q
  else
    let q := { q with iUpdsSincePersist := q.iUpdsSincePersist + nUpdates }
    if cfg.iPersistUpdCnt ≠ 0 ∧ q.iUpdsSincePersist ≥ cfg.iPersistUpdCnt then
      { qqueuePersist q with iUpdsSincePersist := 0 }
    else q

/-! ## Enqueue -/

def isFull (q : QQueue μ) : Bool :=
  decide (cfg.iMaxQueueSize > 0 ∧ q.iQueueSize ≥ cfg.iMaxQueueSize) ||
    match q.store with
    | .disk d => decide (cfg.sizeOnDiskMax ≠ 0 ∧ d.sizeOnDisk > cfg.sizeOnDiskMax)
    -- a memory queue keeps `sizeOnDisk` at zero, also when it is disk-assisted
    | _ => cfg.bIsDA && decide (cfg.sizeOnDiskMax ≠ 0 ∧ (0 : ℤ) > cfg.sizeOnDiskMax)

def fullResult (q : QQueue μ) : RsRet :=
  if cfg.toEnq = 0 ∨ q.bEnqOnly then .queueFull
  else if q.inputTerm then .forceTerm
  else .queueFull

def nextMsgCnt (msgCnt : ℤ) : ℤ :=
  if cfg.iSmpInterval > 0 then (msgCnt + 1).tmod cfg.iSmpInterval else msgCnt

def qqueueAdd [QMsg μ] (q : QQueue μ) (pMsg : μ) : Option (QQueue μ) :=
  if cfg.iSmpInterval > 0 ∧ nextMsgCnt cfg q.msgCnt ≠ 0 then
    some { q with msgCnt := nextMsgCnt cfg q.msgCnt }
  else do
    let store ← q.store.qAdd cfg pMsg
    some { q with
      msgCnt := nextMsgCnt cfg q.msgCnt
      store
      iQueueSize := q.iQueueSize + 1
      hist := { q.hist with accepted := q.hist.accepted ++ [pMsg] } }

/-- The robustness write of the `.qi` file after a change of the spool file. -/
def forcePersist (q : QQueue μ) : QQueue μ :=
  match q.store with
  | .disk d =>
    if d.nForcePersist > 0 then
      qqueuePersist { q with store := .disk { d with nForcePersist := d.nForcePersist - 1 } }
    else q
  | _ => q

def QQueue.result (q : QQueue μ) (r : RsRet) : QQueue μ :=
  { q with hist := { q.hist with results := q.hist.results ++ [r] } }

def doEnqSingleObj [QMsg μ] (q : QQueue μ) (pMsg : μ) : Option (RsRet × QQueue μ) :=
  if qqueueChkDiscardMsg cfg q.iQueueSize pMsg then some (.queueFull, q.result .queueFull)
  else if isFull cfg q then some (fullResult cfg q, q.result (fullResult cfg q))
  else do
    let q ← qqueueAdd cfg q pMsg
    some (.ok, (forcePersist q).result .ok)

def qqueueEnqMsg [QMsg μ] (q : QQueue μ) (pMsg : μ) : Option (QQueue μ) := do
  let (iRet, q) ← doEnqSingleObj cfg q pMsg
  some (if iRet = .ok then qqueueChkPersist cfg q 1 else q)

/-- The loop of `qqueueMultiEnqObjNonDirect`: a full queue drops the message and goes on, any other
failure ends the loop. -/
def multiEnqLoop [QMsg μ] (cfg : QCfg) (q : QQueue μ) : List μ → Option (RsRet × QQueue μ)
  | [] => some (.ok, q)
  | pMsg :: ppMsgs => do
    let (localRet, q) ← doEnqSingleObj cfg q pMsg
    if localRet ≠ .ok ∧ localRet ≠ .queueFull then some (localRet, q)
    else multiEnqLoop cfg q ppMsgs

def qqueueMultiEnqObjNonDirect [QMsg μ] (q : QQueue μ) (ppMsgs : List μ) :
    Option (QQueue μ) := do
  let (iRet, q) ← multiEnqLoop cfg q ppMsgs
  some (if iRet = .ok then qqueueChkPersist cfg q ppMsgs.length else q)

/-! ## Delete -/

def deqIDSucc (deqID : ℕ) : ℕ := (deqID + 1) % 2 ^ 64

/-- A disk queue gives space back by moving `pReadDel` to where the last dequeue ended. Returns the
octets of the files deleted. -/
def Disk.seekDel (d : Disk μ) : Disk μ × ℕ :=
  let (pReadDel, fsize, bytesDel) :=
    strmMultiFileSeek d.fsize d.pReadDel d.deqFileNumOut d.deqOffs
  ({ d with pReadDel, fsize, sizeOnDisk := d.sizeOnDisk - bytesDel }, bytesDel)

def Store.deleteBatch (nElem : ℕ) : Store μ → Option (Store μ × ℕ)
  | .disk d => some (.disk d.seekDel.1, d.seekDel.2)
  | s => (s.qDels cfg nElem).map fun s => (s, 0)

def DoDeleteBatchFromQStore (q : QQueue μ) (nElem : ℕ) : Option (QQueue μ) := do
  let (store, bytesDel) ← q.store.deleteBatch cfg nElem
  let q := { q with
    store
    iQueueSize := q.iQueueSize - nElem
    nLogDeq := q.nLogDeq - nElem
    deqIDDel := deqIDSucc q.deqIDDel }
  some (if bytesDel ≠ 0 then qqueuePersist q else q)

/-- Link a new entry into the to-delete list, behind the first entry whose ID is not smaller, or at
the front when there is none. -/
def tdlAdd (toDeleteLst : List (ℕ × ℤ)) (deqID : ℕ) (nElemDeq : ℤ) : List (ℕ × ℤ) :=
  match toDeleteLst.findIdx? fun e => decide (deqID ≤ e.1) with
  | none => (deqID, nElemDeq) :: toDeleteLst
  | some i => toDeleteLst.insertIdx (i + 1) (deqID, nElemDeq)

def tdlDeleteLoop (cfg : QCfg) : List (ℕ × ℤ) → ℕ → QQueue μ → Option (QQueue μ)
  | [], _, q => some { q with toDeleteLst := [] }
  | (deqID, nElemDeq) :: rest, deqIDDel, q =>
    if deqIDDel = deqID then do
      let q ← DoDeleteBatchFromQStore cfg q nElemDeq.toNat
      tdlDeleteLoop cfg rest (deqIDSucc deqIDDel) q
    else some { q with toDeleteLst := (deqID, nElemDeq) :: rest }

/-- Remove a processed batch from the store. The count passed on is `nElem`. -/
def DeleteBatchFromQStore (q : QQueue μ) (pBatch : Batch μ) : Option (QQueue μ) :=
  if q.toDeleteLst = [] then DoDeleteBatchFromQStore cfg q pBatch.nElem
  else if pBatch.deqID = q.deqIDDel then do
    let q ← tdlDeleteLoop cfg q.toDeleteLst q.deqIDDel q
    DoDeleteBatchFromQStore cfg q pBatch.nElem
  else some { q with toDeleteLst := tdlAdd q.toDeleteLst pBatch.deqID pBatch.nElem }

/-- The loop of `DeleteProcessedBatch`: elements that were not processed are enqueued again.
Returns how many it tried. -/
def reEnqLoop [QMsg μ] (cfg : QCfg) : List (BatchElem μ) → ℕ → QQueue μ → Option (ℕ × QQueue μ)
  | [], nEnqueued, q => some (nEnqueued, q)
  | e :: es, nEnqueued, q =>
    if e.eltState = .rdy ∨ e.eltState = .sub then do
      let (_, q) ← doEnqSingleObj cfg q e.pMsg
      reEnqLoop cfg es (nEnqueued + 1) q
    else reEnqLoop cfg es nEnqueued q

def QQueue.complete (q : QQueue μ) (pBatch : Batch μ) : QQueue μ :=
  { q with hist := { q.hist with completed := q.hist.completed ++ pBatch.msgs } }

def DeleteProcessedBatch [QMsg μ] (q : QQueue μ) (pBatch : Batch μ) :
    Option (QQueue μ × Batch μ) := do
  let (nEnqueued, q) ← reEnqLoop cfg pBatch.pElem 0 q
  let q := qqueueChkPersist cfg q nEnqueued
  let q ← DeleteBatchFromQStore cfg q pBatch
  some (q.complete pBatch, pBatch.reset)

/-! ## Dequeue -/

def qqueueDeq (q : QQueue μ) : Option (Except RsRet μ × QQueue μ) := do
  let (iRet, store) ← q.store.qDeq cfg
  some (iRet, { q with store, nLogDeq := q.nLogDeq + 1 })

/-- The state of the dequeue loop: the queue, the elements taken so far (`nDequeued` of them), and
`nDiscarded`. -/
structure DeqLoop (μ : Type) where
  q : QQueue μ
  pElem : List (BatchElem μ)
  nDiscarded : ℕ

def QQueue.drop (q : QQueue μ) (pMsg : μ) : QQueue μ :=
  { q with hist := { q.hist with dropped := q.hist.dropped ++ [pMsg] } }

/-- A message was read, leaving the queue `q`: it is dropped or becomes an element of the batch. -/
def DeqLoop.next [QMsg μ] (l : DeqLoop μ) (pMsg : μ) (q : QQueue μ) : DeqLoop μ :=
  if qqueueChkDiscardMsg cfg q.iQueueSize pMsg then
    { l with q := q.drop pMsg, nDiscarded := l.nDiscarded + 1 }
  else { l with q, pElem := l.pElem ++ [⟨pMsg, .rdy, q.store.readPos⟩] }

/-- The loop of `DequeueConsumableElements`. Every round takes one off the logical size, so that
size is fuel enough. -/
def deqLoop [QMsg μ] (cfg : QCfg) : ℕ → DeqLoop μ → Option (RsRet × DeqLoop μ)
  | 0, l => some (.ok, l)
  | fuel + 1, l =>
    if getLogicalQueueSize l.q > 0 ∧ (l.pElem.length : ℤ) < cfg.iDeqBatchSize then
      if l.q.store.readAtWrite then
        some (.ok, { l with q := { l.q with
          iQueueSize := l.q.iQueueSize - getLogicalQueueSize l.q } })
      else
        match qqueueDeq cfg l.q with
        | none => none
        | some (.error localRet, q) => some (localRet, { l with q })
        | some (.ok pMsg, q) => deqLoop cfg fuel (l.next cfg pMsg q)
    else some (.ok, l)

def Store.deqBegin : Store μ → Store μ
  | .disk d => .disk { d with deqFileNumIn := d.pReadDeq.iCurrFNum }
  | s => s

def Store.deqEnd : Store μ → Store μ
  | .disk d =>
    .disk { d with deqOffs := d.pReadDeq.iCurrOffs, deqFileNumOut := d.pReadDeq.iCurrFNum }
  | s => s

def handOut (q : QQueue μ) (pElem : List (BatchElem μ)) (nElemDeq : ℕ) : QQueue μ × Batch μ :=
  let batch : Batch μ := ⟨pElem, nElemDeq, q.deqIDAdd⟩
  ({ q with
    deqIDAdd := deqIDSucc q.deqIDAdd
    hist := { q.hist with handed := q.hist.handed ++ [(batch.deqID, batch.msgs)] } }, batch)

/-- Complete the worker's previous batch and take the next one. An error in the loop leaves the
batch empty. -/
def DequeueConsumableElements [QMsg μ] (q : QQueue μ) (batch : Batch μ) :
    Option (QQueue μ × Batch μ) := do
  let nDeleted := batch.nElemDeq
  let (q, batch) ← DeleteProcessedBatch cfg q batch
  let q := { q with store := q.store.deqBegin }
  let (iRet, l) ← deqLoop cfg (getLogicalQueueSize q).toNat ⟨q, [], 0⟩
  if iRet ≠ .ok then some (l.q, batch)
  else
    let q := { l.q with store := l.q.store.deqEnd }
    let q := qqueueChkPersist cfg q (l.pElem.length + l.nDiscarded + nDeleted)
    some (handOut q l.pElem (l.pElem.length + l.nDiscarded))

def batchProcessed [QMsg μ] (q : QQueue μ) (batch : Batch μ) :
    Option (QQueue μ × Batch μ) := do
  let (q, batch) ← DeleteProcessedBatch cfg q batch
  some (qqueueChkPersist cfg q batch.nElemDeq, batch)

/-! ## The system -/

/-- A queue and its `n` workers, each with its batch. -/
structure Sys (μ : Type) (n : ℕ) where
  q : QQueue μ
  batch : Fin n → Batch μ

/-- The atomic steps: enqueues by the inputs, dequeues and completions by the workers, a worker's
consumer setting the state of one of its elements, and the flags that change at shutdown. -/
inductive Event (μ : Type) (n : ℕ)
  | enqMsg (pMsg : μ)
  | multiEnq (ppMsgs : List μ)
  | dequeue (w : Fin n)
  | complete (w : Fin n)
  | setState (w : Fin n) (i : ℕ) (eltState : BatchState)
  | setEnqOnly (bEnqOnly : Bool)
  | setInputTerm (inputTerm : Bool)

def Batch.setState (b : Batch μ) (i : ℕ) (eltState : BatchState) : Batch μ :=
  { b with pElem := b.pElem.modify i fun e => { e with eltState } }

def Sys.update {n : ℕ} (s : Sys μ n) (w : Fin n) (r : QQueue μ × Batch μ) : Sys μ n :=
  { q := r.1, batch := Function.update s.batch w r.2 }

def step [QMsg μ] {n : ℕ} (s : Sys μ n) : Event μ n → Option (Sys μ n)
  | .enqMsg pMsg => (qqueueEnqMsg cfg s.q pMsg).map fun q => { s with q }
  | .multiEnq ppMsgs => (qqueueMultiEnqObjNonDirect cfg s.q ppMsgs).map fun q => { s with q }
  | .dequeue w => (DequeueConsumableElements cfg s.q (s.batch w)).map (s.update w)
  | .complete w => (batchProcessed cfg s.q (s.batch w)).map (s.update w)
  | .setState w i eltState => some (s.update w (s.q, (s.batch w).setState i eltState))
  | .setEnqOnly bEnqOnly => some { s with q := { s.q with bEnqOnly } }
  | .setInputTerm inputTerm => some { s with q := { s.q with inputTerm } }

def QQueue.construct : QQueue μ :=
  { store := Store.construct cfg, iQueueSize := 0, nLogDeq := 0, deqIDAdd := 0, deqIDDel := 0,
    toDeleteLst := [], iUpdsSincePersist := 0, msgCnt := 0, bEnqOnly := false, inputTerm := false,
    hist := ⟨[], [], [], [], []⟩ }

def Sys.init (n : ℕ) : Sys μ n :=
  { q := QQueue.construct cfg, batch := fun _ => Batch.empty }

end Rsyslog.Queue
