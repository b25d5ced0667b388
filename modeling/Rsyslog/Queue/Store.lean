import Rsyslog.Lib.Chain
import Rsyslog.Lib.Ring

/-!
# The storage drivers of the queue

A `qqueue_t` keeps its messages in one of three stores: a ring of pointers (`FixedArray`), a list of
heap cells (`LinkedList`), or a sequence of spool files (`Disk`). A *logical* dequeue reads the next
message but keeps it stored; a delete gives the space back after the batch was processed.

`none` is undefined behaviour of the C code: a write past the ring, a read of a cell that was never
written, a `NULL` or dangling pointer. Memory allocation and file operations are taken to succeed.
-/

namespace Rsyslog.Queue

open Lib

/-- The return codes (`rsRetVal`) the queue functions use. -/
inductive RsRet
  | ok
  | queueFull
  | forceTerm
  | fileNotFound
  deriving DecidableEq

/-- What the queue looks at in a message: its severity, and the octets of its serialised form. -/
class QMsg (μ : Type) where
  iSeverity : μ → ℕ
  recLen : μ → ℕ
  recLen_pos : ∀ m, 0 < recLen m

variable {μ : Type}

/-! ## Fixed array -/

/-- `tVars.farray`: the ring and its three indices. -/
structure FArray (μ : Type) where
  deqhead : ℕ
  head : ℕ
  tail : ℕ
  pBuf : List (Option μ)

def qConstructFixedArray (iMaxQueueSize : ℕ) : FArray μ :=
  { deqhead := 0, head := 0, tail := 0, pBuf := List.replicate iMaxQueueSize none }

def qAddFixedArray (iMaxQueueSize : ℕ) (a : FArray μ) (pMsg : μ) : Option (FArray μ) :=
  if a.tail < a.pBuf.length then
    some { a with
      pBuf := a.pBuf.set a.tail (some pMsg)
      tail := Ring.succ iMaxQueueSize a.tail }
  else none

def qDeqFixedArray (iMaxQueueSize : ℕ) (a : FArray μ) : Option (μ × FArray μ) :=
  match a.pBuf[a.deqhead]? with
  | some (some pMsg) => some (pMsg, { a with deqhead := Ring.succ iMaxQueueSize a.deqhead })
  | _ => none

def qDelFixedArray (iMaxQueueSize : ℕ) (a : FArray μ) : FArray μ :=
  { a with head := Ring.succ iMaxQueueSize a.head }

/-! ## Linked list -/

/-- `tVars.linklist`: the three pointers, the cells they lead to, and the next free address. -/
structure LinkList (μ : Type) where
  pDeqRoot : Option ℕ
  pDelRoot : Option ℕ
  pLast : Option ℕ
  heap : ℕ → Option (Chain.Cell μ)
  brk : ℕ

def qConstructLinkedList : LinkList μ :=
  { pDeqRoot := none, pDelRoot := none, pLast := none, heap := fun _ => none, brk := 0 }

def qAddLinkedList (l : LinkList μ) (pMsg : μ) : Option (LinkList μ) := do
  let pEntry := l.brk
  let heap := Function.update l.heap pEntry (some ⟨none, pMsg⟩)
  let brk := l.brk + 1
  match l.pDelRoot with
  | none => some ⟨some pEntry, some pEntry, some pEntry, heap, brk⟩
  | some _ =>
    let last ← l.pLast
    let c ← heap last
    let pDeqRoot := if l.pDeqRoot = none then some pEntry else l.pDeqRoot
    some ⟨pDeqRoot, l.pDelRoot, some pEntry,
      Function.update heap last (some { c with pNext := some pEntry }), brk⟩

/-- A `NULL` message is handed to a caller that dereferences it, so it is undefined here. -/
def qDeqLinkedList (l : LinkList μ) : Option (μ × LinkList μ) := do
  let pEntry ← l.pDeqRoot
  let c ← l.heap pEntry
  some (c.val, { l with pDeqRoot := c.pNext })

def qDelLinkedList (l : LinkList μ) : Option (LinkList μ) :=
  if l.pDelRoot = l.pLast then
    some { l with
      pDelRoot := none, pDeqRoot := none, pLast := none
      heap := match l.pDelRoot with
        | some pEntry => Function.update l.heap pEntry none
        | none => l.heap }
  else do
    let pEntry ← l.pDelRoot
    let c ← l.heap pEntry
    some { l with pDelRoot := c.pNext, heap := Function.update l.heap pEntry none }

/-! ## Disk

A spool file position is a file number and an offset in that file. The write stream fills one file
after the other; a record is flushed in pieces of at most `sIOBufSize` octets, and the stream moves
on to the next file after any piece that takes the file to `iMaxFileSize`, so that a long record can
span files. A reader that has consumed a record stands at the end of its last octet.
-/

@[ext]
structure Pos where
  iCurrFNum : ℕ
  iCurrOffs : ℕ
  deriving DecidableEq

def iMaxFiles : ℕ := 10000000

/-- The `.qi` file that `qqueuePersist` writes. `nRec` is not in the file: it is the number of
records on disk when it was written. -/
structure Qi where
  iQueueSize : ℤ
  sizeOnDisk : ℤ
  pWrite : Pos
  pReadDel : Pos
  nRec : ℕ
  deriving DecidableEq

/-- `tVars.disk`, with the records written so far, each with the position of its end, and the sizes
of the spool files. -/
structure Disk (μ : Type) where
  recs : List (μ × Pos)
  fsize : ℕ → ℕ
  pWrite : Pos
  pReadDeq : Pos
  pReadDel : Pos
  deqFileNumIn : ℕ
  deqFileNumOut : ℕ
  deqOffs : ℕ
  sizeOnDisk : ℤ
  nForcePersist : ℕ
  qi : Option Qi

/-- The position of a new stream. -/
def firstPos : Pos := ⟨1, 0⟩

def qConstructDisk : Disk μ :=
  { recs := [], fsize := fun _ => 0, pWrite := firstPos, pReadDeq := firstPos, pReadDel := firstPos,
    deqFileNumIn := 0, deqFileNumOut := 0, deqOffs := 0, sizeOnDisk := 0, nForcePersist := 0,
    qi := none }

def flushSizes (sIOBufSize len : ℕ) : List ℕ :=
  List.replicate (len / sIOBufSize) sIOBufSize ++
    if len % sIOBufSize = 0 then [] else [len % sIOBufSize]

/-- The write stream while it writes a record: where it stands, where the last octet it wrote ends,
and the file sizes. -/
structure WriteState where
  pos : Pos
  recEnd : Pos
  fsize : ℕ → ℕ

def strmPhysWrite (iMaxFileSize : ℕ) (w : WriteState) (lenBuf : ℕ) : WriteState :=
  let iCurrOffs := w.pos.iCurrOffs + lenBuf
  { pos := if iCurrOffs ≥ iMaxFileSize then ⟨(w.pos.iCurrFNum + 1) % iMaxFiles, 0⟩
      else ⟨w.pos.iCurrFNum, iCurrOffs⟩
    recEnd := ⟨w.pos.iCurrFNum, iCurrOffs⟩
    fsize := Function.update w.fsize w.pos.iCurrFNum (w.fsize w.pos.iCurrFNum + lenBuf) }

/-- Serialise a message to the write stream and flush it. A change of the file number asks for two
writes of the `.qi` file. -/
def qAddDisk [QMsg μ] (iMaxFileSize sIOBufSize : ℕ) (d : Disk μ) (pMsg : μ) : Disk μ :=
  let w := (flushSizes sIOBufSize (QMsg.recLen pMsg)).foldl (strmPhysWrite iMaxFileSize)
    ⟨d.pWrite, d.pWrite, d.fsize⟩
  { d with
    recs := d.recs ++ [(pMsg, w.recEnd)]
    fsize := w.fsize
    pWrite := w.pos
    sizeOnDisk := d.sizeOnDisk + QMsg.recLen pMsg
    nForcePersist := if w.pos.iCurrFNum ≠ d.pWrite.iCurrFNum then 2 else d.nForcePersist }

/-- The records behind a position that is the start of the first of them or the end of one;
`start` is where the first one begins. -/
def recsAfter (start p : Pos) : List (μ × Pos) → List (μ × Pos)
  | [] => []
  | r :: rs => if start = p then r :: rs else recsAfter r.2 p rs

/-- Read the next record through `pReadDeq`. A stream at the end of a file goes on to the next
one. -/
def qDeqDisk (d : Disk μ) : Except RsRet μ × Disk μ :=
  match recsAfter firstPos d.pReadDeq d.recs with
  | [] => (.error .fileNotFound, d)
  | (pMsg, recEnd) :: _ => (.ok pMsg, { d with pReadDeq := recEnd })

def filesSize (fsize : ℕ → ℕ) (f n : ℕ) : ℕ := ((List.range n).map fun i => fsize (f + i)).sum

/-- `strmMultiFileSeek`: move the stream to offset `offs` of file `FNum`, unlinking the files it
leaves behind. The file number only ever counts up, and `0, 0` is ignored. Returns the octets
deleted. -/
def strmMultiFileSeek (fsize : ℕ → ℕ) (strm : Pos) (FNum offs : ℕ) : Pos × (ℕ → ℕ) × ℕ :=
  if FNum = 0 ∧ offs = 0 then (strm, fsize, 0)
  else
    let skipped := FNum - strm.iCurrFNum
    (⟨strm.iCurrFNum + skipped, offs⟩,
      fun f => if strm.iCurrFNum ≤ f ∧ f < strm.iCurrFNum + skipped then 0 else fsize f,
      filesSize fsize strm.iCurrFNum skipped)

end Rsyslog.Queue
