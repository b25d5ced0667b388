import Rsyslog.Lib.Decimal
import Rsyslog.Lib.Feed
import Rsyslog.Stream.Char

/-!
# Reading records from a file that grows

`strmReadLine` of `stream.c` and the loop of `pollFileReal` in `imfile.c` that calls it. A call
takes characters until a record is complete or the file ends. In the latter case the unfinished
record is kept in `prevLineSegment`, and the next call goes on with it.

The three loops of `strmReadLine` differ in what they do with a character (`lineAct`). `bPrevWasNL`
is assigned before that read in some branches and after it in others, and an assignment after the
read is not reached when the file ends there.
-/

namespace Rsyslog.Stream

open Lib

inductive ReadMode
  | single
  | paragraph
  | indented
  deriving DecidableEq

structure LineCfg where
  mode : ReadMode
  bEscapeLF : Bool
  escapeLFString : Option Bytes
  trimLineOverBytes : ℕ
  deriving DecidableEq

variable (cfg : LineCfg)

def LineCfg.escapeLFString_len : ℕ :=
  match cfg.escapeLFString with
  | none => 4
  | some s => s.length

def LineCfg.escapeText : Bytes := cfg.escapeLFString.getD (ascii "#012")

/-- Drop `nTrunc` characters from the end, or nothing if there are not so many. -/
def rsCStrTruncate (str : Bytes) (nTrunc : ℕ) : Bytes :=
  if str.length < nTrunc then str else str.take (str.length - nTrunc)

def trimLine (str : Bytes) : Bytes :=
  if cfg.trimLineOverBytes > 0 ∧ str.length > cfg.trimLineOverBytes then
    rsCStrTruncate str (str.length - cfg.trimLineOverBytes) ++ [10]
  else str

/-- What is done with a character: the record is finished, possibly without the character, or the
next one is read. Then `bPrevWasNL` is `before` until that has succeeded, and `after` from there. -/
inductive LineAct
  | finished (str : Bytes) (bUnread : Bool)
  | goOn (str : Bytes) (before after : Bool)
  deriving DecidableEq

def lineAct (str : Bytes) (bPrevWasNL : Bool) (c : UInt8) : LineAct :=
  match cfg.mode with
  | .single =>
    if c ≠ 10 then .goOn (str ++ [c]) bPrevWasNL bPrevWasNL
    else .finished (trimLine cfg str) false
  | .paragraph =>
    if c ≠ 10 then .goOn (str ++ [c]) bPrevWasNL false
    else if str.length > 0 then
      if bPrevWasNL ∧ cfg.escapeLFString_len > 0 then
        .finished (rsCStrTruncate str (if cfg.bEscapeLF then cfg.escapeLFString_len else 1)) false
      else if cfg.bEscapeLF then .goOn (str ++ cfg.escapeText) bPrevWasNL true
      else .goOn (str ++ [c]) bPrevWasNL true
    else .finished str false
  | .indented =>
    if str.length = 0 then
      if c ≠ 10 then .goOn (str ++ [c]) bPrevWasNL bPrevWasNL
      else .finished (trimLine cfg str) false
    else if bPrevWasNL then
      if c = 32 ∨ c = 9 then .goOn (str ++ [c]) bPrevWasNL false
      else if cfg.bEscapeLF ∧ cfg.escapeLFString_len > 0 then
        .finished (trimLine cfg (rsCStrTruncate str cfg.escapeLFString_len)) true
      else .finished (trimLine cfg str) true
    else if c = 10 then
      if cfg.bEscapeLF ∧ cfg.escapeLFString_len > 0 then .goOn (str ++ cfg.escapeText) true true
      else .goOn (str ++ [c]) true true
    else .goOn (str ++ [c]) bPrevWasNL bPrevWasNL

/-- A stream with what `strmReadLine` keeps in it between calls. An unset `prevLineSegment` is
empty. -/
structure LineStrm where
  strm : Strm
  prevLineSegment : Bytes
  bPrevWasNL : Bool
  strtOffs : ℕ
  deriving DecidableEq

def LineStrm.construct : LineStrm := ⟨.at [] 0, [], false, 0⟩

abbrev LineRecord := Bytes × ℕ

/-- The end of a record: the next one starts at the current position. Only mode `0` leaves
`bPrevWasNL` alone. -/
def LineStrm.finish (s : LineStrm) (strm : Strm) : LineStrm :=
  ⟨strm, [], cfg.mode = .single && s.bPrevWasNL, strm.iCurrOffs⟩

/-- The loops of `strmReadLine`. `fuel` is enough if it exceeds the number of characters left. -/
def lineLoop (cfg : LineCfg) : ℕ → LineStrm → Bytes → UInt8 → LineStrm × Option LineRecord
  | 0, s, str, _ => ({ s with prevLineSegment := str }, none)
  | fuel + 1, s, str, c =>
    match lineAct cfg str s.bPrevWasNL c with
    | .finished str false => (s.finish cfg s.strm, some (str, s.strtOffs))
    | .finished str true =>
      match strmUnreadChar c s.strm with
      | .ok _ strm | .error _ strm => (s.finish cfg strm, some (str, s.strtOffs))
    | .goOn str before after =>
      match strmReadChar s.strm with
      | .ok c strm => lineLoop cfg fuel { s with strm, bPrevWasNL := after } str c
      | .error _ strm => ({ s with strm, bPrevWasNL := before, prevLineSegment := str }, none)

/-- Read a record. `none` is the end of the file. -/
def strmReadLine (s : LineStrm) : LineStrm × Option LineRecord :=
  match strmReadChar s.strm with
  | .ok c strm =>
    lineLoop cfg (strm.data.length + 1) { s with strm, prevLineSegment := [] } s.prevLineSegment c
  | .error _ strm => ({ s with strm }, none)

/-- Read records until the file ends. Every second call at least takes a character. -/
def pollLoop (cfg : LineCfg) : ℕ → LineStrm → LineStrm × List LineRecord
  | 0, s => (s, [])
  | fuel + 1, s =>
    match strmReadLine cfg s with
    | (s, none) => (s, [])
    | (s, some record) =>
      let r := pollLoop cfg fuel s
      (r.1, record :: r.2)

def pollFileReal (s : LineStrm) (appended : Bytes) : LineStrm × List LineRecord :=
  pollLoop cfg (2 * (s.strm.data.length + appended.length) + 3)
    { s with strm := { s.strm with data := s.strm.data ++ appended } }

end Rsyslog.Stream
