import Mathlib.Data.List.Basic

/-!
# Reading a stream character by character

The part of `stream.c` that the deserializer and the line reader rest on: a character comes from the
one-character push-back buffer if that is full, otherwise from the file. `iCurrOffs` counts the
characters read. Files, buffers and encryption padding are below this model: `data` is what the file
still holds behind the read position.
-/

namespace Rsyslog.Stream

/-- The return codes of the functions that read and write streams, objects and messages. -/
inductive RsRet
  | eof
  | providedBufferTooSmall
  | invalidNumber
  | invalidDelimiter
  | invalidHeader
  | invalidHeaderRecType
  | invalidHeaderVers
  | noPropline
  | invalidPropframe
  | invalidTrailer
  | dsPropSeqErr
  | invalidOID
  deriving DecidableEq

structure Strm where
  data : List UInt8
  iUngetC : Option UInt8
  iCurrOffs : ℕ
  deriving DecidableEq

abbrev Rd := EStateM RsRet Strm

def strmReadChar : Rd UInt8 := fun s =>
  match s.iUngetC with
  | some c => .ok c { s with iUngetC := none, iCurrOffs := s.iCurrOffs + 1 }
  | none =>
    match s.data with
    | [] => .error .eof s
    | c :: data => .ok c { s with data, iCurrOffs := s.iCurrOffs + 1 }

def strmUnreadChar (c : UInt8) : Rd Unit :=
  modify fun s => { s with iUngetC := some c, iCurrOffs := s.iCurrOffs - 1 }

def Strm.at (data : List UInt8) (iCurrOffs : ℕ) : Strm := ⟨data, none, iCurrOffs⟩

end Rsyslog.Stream
