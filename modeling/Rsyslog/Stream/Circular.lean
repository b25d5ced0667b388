import Mathlib.Logic.Function.Basic
import Rsyslog.Lib.Decimal

/-!
# Circular streams

The writer and the reader of `stream.c` for a set of numbered files, as the disk queue uses them. A
full buffer is written to the current file, and if that file has reached its size then the next
write opens the next one. The reader goes on with the next file at the end of each.

Writes do not fail here, there is one thread, and neither compression nor encryption. A directory
gives the contents of the files by their numbers.
-/

namespace Rsyslog.Stream.Circular

abbrev Dir := ℕ → Option Bytes

inductive WriteMode
  | write
  | writeTrunc
  | writeAppend
  deriving DecidableEq

structure Cfg where
  sIOBufSize : ℕ
  iMaxFileSize : ℕ
  iMaxFiles : ℕ
  tOperationsMode : WriteMode
  buf_pos : 0 < sIOBufSize
  file_pos : 0 < iMaxFileSize
  files_pos : 0 < iMaxFiles

/-- A stream that is written to, with the octets in its buffer and the position of the open file.
The buffer never holds more than fits into it. -/
structure Strm (cfg : Cfg) where
  pIOBuf : Bytes
  fits : pIOBuf.length ≤ cfg.sIOBufSize
  fd : Option ℕ
  iCurrFNum : ℕ
  iCurrOffs : ℕ
  files : Dir

variable {cfg : Cfg}

/-! ## Writing -/

def writeAt (pos : ℕ) (data file : Bytes) : Bytes :=
  file.take pos ++ data ++ file.drop (pos + data.length)

def opened (mode : WriteMode) (file : Option Bytes) : Bytes :=
  if mode = .writeTrunc then [] else file.getD []

def strmOpenFile (s : Strm cfg) : Strm cfg :=
  match s.fd with
  | some _ => s
  | none =>
    let file := opened cfg.tOperationsMode (s.files s.iCurrFNum)
    let offs := if cfg.tOperationsMode = .writeAppend then file.length else 0
    { s with
      fd := some offs
      iCurrOffs := offs
      files := Function.update s.files s.iCurrFNum (some file) }

def doWriteCall (data : Bytes) (s : Strm cfg) : Strm cfg :=
  let pos := s.fd.getD 0
  { s with
    fd := some (pos + data.length)
    files := Function.update s.files s.iCurrFNum
      (some (writeAt pos data ((s.files s.iCurrFNum).getD []))) }

/-- The buffer is empty whenever a file is closed, so that there is nothing to flush. -/
def strmCloseFile (s : Strm cfg) : Strm cfg := { s with fd := none, iCurrOffs := 0 }

def strmNextFile (s : Strm cfg) : Strm cfg :=
  { strmCloseFile s with iCurrFNum := (s.iCurrFNum + 1) % cfg.iMaxFiles }

def strmCheckNextOutputFile (s : Strm cfg) : Strm cfg :=
  if s.fd = none then s
  else if cfg.iMaxFileSize ≤ s.iCurrOffs then strmNextFile s
  else s

def strmPhysWrite (data : Bytes) (s : Strm cfg) : Strm cfg :=
  let s := doWriteCall data (strmOpenFile s)
  strmCheckNextOutputFile { s with iCurrOffs := s.iCurrOffs + data.length }

def strmSchedWrite (s : Strm cfg) : Strm cfg :=
  strmPhysWrite s.pIOBuf { s with pIOBuf := [], fits := Nat.zero_le _ }

def strmFlushInternal (s : Strm cfg) : Strm cfg :=
  if 0 < s.pIOBuf.length then strmSchedWrite s else s

def strmFlush (s : Strm cfg) : Strm cfg := strmFlushInternal s

variable (s : Strm cfg)

@[simp] lemma pIOBuf_strmOpenFile : (strmOpenFile s).pIOBuf = s.pIOBuf := by
  unfold strmOpenFile
  split <;> rfl

@[simp] lemma pIOBuf_strmCheckNextOutputFile : (strmCheckNextOutputFile s).pIOBuf = s.pIOBuf := by
  unfold strmCheckNextOutputFile
  split
  · rfl
  · split <;> rfl

@[simp] lemma pIOBuf_strmPhysWrite (data : Bytes) (s : Strm cfg) :
    (strmPhysWrite data s).pIOBuf = s.pIOBuf := by
  simp [strmPhysWrite, doWriteCall]

@[simp] lemma pIOBuf_strmFlushInternal : (strmFlushInternal s).pIOBuf = [] := by
  unfold strmFlushInternal
  split
  · exact pIOBuf_strmPhysWrite _ _
  · next h => exact List.length_eq_zero_iff.1 (by omega)

def makeRoom (s : Strm cfg) : Strm cfg :=
  if s.pIOBuf.length = cfg.sIOBufSize then strmFlushInternal s else s

lemma makeRoom_lt : (makeRoom s).pIOBuf.length < cfg.sIOBufSize := by
  unfold makeRoom
  split
  · rw [pIOBuf_strmFlushInternal]
    exact cfg.buf_pos
  · have := s.fits
    omega

def copy (data : Bytes) (s : Strm cfg) (h : s.pIOBuf.length + data.length ≤ cfg.sIOBufSize) :
    Strm cfg :=
  { s with pIOBuf := s.pIOBuf ++ data, fits := by rwa [List.length_append] }

def strmWriteChar (c : UInt8) (s : Strm cfg) : Strm cfg :=
  copy [c] (makeRoom s) (makeRoom_lt s)

def chunk (data : Bytes) (s : Strm cfg) : Bytes :=
  data.take (cfg.sIOBufSize - s.pIOBuf.length)

lemma chunk_fits (data : Bytes) (s : Strm cfg) :
    s.pIOBuf.length + (chunk data s).length ≤ cfg.sIOBufSize := by
  have := s.fits
  rw [chunk, List.length_take]
  omega

def strmWriteLoop (data : Bytes) (s : Strm cfg) : Strm cfg :=
  let s' := copy (chunk data (makeRoom s)) (makeRoom s) (chunk_fits data (makeRoom s))
  let rest := data.drop (chunk data (makeRoom s)).length
  if 0 < rest.length then strmWriteLoop rest s' else s'
termination_by data.length
decreasing_by
  have hroom := makeRoom_lt s
  simp only [rest, List.length_drop, chunk, List.length_take] at *
  omega

def strmWrite (data : Bytes) (s : Strm cfg) : Strm cfg := makeRoom (strmWriteLoop data s)

inductive Op
  | write (data : Bytes)
  | writeChar (c : UInt8)
  | flush
  deriving DecidableEq

def step (s : Strm cfg) : Op → Strm cfg
  | .write data => strmWrite data s
  | .writeChar c => strmWriteChar c s
  | .flush => strmFlush s

def Op.data : Op → Bytes
  | .write data => data
  | .writeChar c => [c]
  | .flush => []

def construct (cfg : Cfg) : Strm cfg := ⟨[], Nat.zero_le _, none, 1, 0, fun _ => none⟩

/-! ## Reading -/

inductive RsRet
  | fileNotFound
  deriving DecidableEq

/-- How much `read()` returns of what the file has behind the position: all that is asked for if
there is so much, or less, but something unless the file is at its end. -/
structure ReadCall where
  sIOBufSize : ℕ
  amount : Bytes → ℕ
  le_size : ∀ rest, amount rest ≤ sIOBufSize
  le_rest : ∀ rest, amount rest ≤ rest.length
  eof_iff : ∀ rest, amount rest = 0 ↔ rest = []

/-- A stream that is read from, with the octets in its buffer that have not been read yet. -/
structure Reader where
  pIOBuf : Bytes
  iUngetC : Option UInt8
  fd : Option ℕ
  iCurrFNum : ℕ
  iCurrOffs : ℕ
  deriving DecidableEq

section Reading

variable (iMaxFiles : ℕ) (rd : ReadCall) (files : Dir)

def Reader.strmOpenFile (r : Reader) : Option (Reader × Bytes × ℕ) :=
  match r.fd, files r.iCurrFNum with
  | some pos, file => some (r, file.getD [], pos)
  | none, some file => some ({ r with fd := some 0, iCurrOffs := 0, pIOBuf := [] }, file, 0)
  | none, none => none

def Reader.strmNextFile (r : Reader) : Reader :=
  { r with fd := none, iCurrOffs := 0, iCurrFNum := (r.iCurrFNum + 1) % iMaxFiles }

/-- The loop that runs until data was read. There is no result if it does not end within the number
of rounds given. -/
def strmReadBuf : ℕ → Reader → Option (Except RsRet Unit × Reader)
  | 0, _ => none
  | rounds + 1, r =>
    match r.strmOpenFile files with
    | none => some (.error .fileNotFound, r)
    | some (r, file, pos) =>
      let iLenRead := rd.amount (file.drop pos)
      if iLenRead = 0 then strmReadBuf rounds (r.strmNextFile iMaxFiles)
      else some (.ok (), { r with
        pIOBuf := (file.drop pos).take iLenRead
        fd := some (pos + iLenRead) })

/-- The character that the buffer pointer is at, unless filling the buffer failed. -/
def nextChar : Except RsRet Unit × Reader → Option (Except RsRet UInt8 × Reader)
  | (.error e, r) => some (.error e, r)
  | (.ok (), r) =>
    match r.pIOBuf with
    | c :: pIOBuf => some (.ok c, { r with pIOBuf, iCurrOffs := r.iCurrOffs + 1 })
    | [] => none

def strmReadChar (rounds : ℕ) (r : Reader) : Option (Except RsRet UInt8 × Reader) :=
  match r.iUngetC with
  | some c => some (.ok c, { r with iUngetC := none, iCurrOffs := r.iCurrOffs + 1 })
  | none =>
    (if r.pIOBuf = [] then strmReadBuf iMaxFiles rd files rounds r else some (.ok (), r)).bind
      nextChar

def readChars (rounds : ℕ) : ℕ → Reader → Option (Bytes × Option RsRet)
  | 0, _ => some ([], none)
  | n + 1, r => do
    match ← strmReadChar iMaxFiles rd files rounds r with
    | (.error e, _) => some ([], some e)
    | (.ok c, r) => do
      let (cs, e) ← readChars rounds n r
      some (c :: cs, e)

end Reading

def Reader.construct : Reader := ⟨[], none, none, 1, 0⟩

end Rsyslog.Stream.Circular
