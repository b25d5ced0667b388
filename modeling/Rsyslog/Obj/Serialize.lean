import Rsyslog.Lib.Decimal
import Rsyslog.Stream.Char

/-!
# Serialized objects

The text form of objects in `obj.c`: a header line, one line per property, a trailer. Strings are
octet counted, numbers are decimal text up to a `:`, and a time is twelve of them. The writer is a
function to bytes, the reader runs on a stream.

A property is read into a `var_t` that is used again for the next one. Its value is a union, so the
fields of a `syslogTime_t` that the reader does not assign (`wday` and `inUTC`) keep what these
bytes of the union held before: `Var.wday` and `Var.inUTC`. The layout is that of a 64-bit
little-endian machine: `wday` lies in the fourth byte of a number or a pointer, `inUTC` behind both.
-/

namespace Rsyslog.Obj

open Lib Rsyslog.Stream

/-! ## Values -/

/-- `syslogTime_t`. The `intTiny` fields are meant to hold `0` to `127`. -/
structure SyslogTime where
  timeType : Int8
  month : Int8
  day : Int8
  wday : Int8
  hour : Int8
  minute : Int8
  second : Int8
  secfracPrecision : Int8
  offsetMinute : Int8
  offsetHour : Int8
  offsetMode : UInt8
  year : Int16
  secfrac : Int32
  inUTC : Int8
  deriving DecidableEq

def zeroTime : SyslogTime := ⟨0, 0, 0, 0, 0, 0, 0, 0, 0, 0, 0, 0, 0, 0⟩

/-- What `SerializeProp` is given: the property type and what the pointer points to. A `psz` is the
memory from the pointer on, of which only the part before the first NUL is the string. -/
inductive PropVal
  | none
  | psz (buf : Bytes)
  | short (n : Int16)
  | int (n : Int32)
  | long (n : Int64)
  | int64 (n : Int64)
  | cstr (s : Bytes)
  | syslogTime (t : SyslogTime)
  deriving DecidableEq

/-- `varType_t`. The reader converts any number to it. -/
inductive VarType
  | none
  | str
  | number
  | syslogTime
  | other (i : UInt32)
  deriving DecidableEq

def VarType.toLong : VarType → Int64
  | .none => 0
  | .str => 1
  | .number => 2
  | .syslogTime => 3
  | .other i => i.toUInt64.toInt64

def VarType.ofNumber (i : Int64) : VarType :=
  match i.toUInt64.toUInt32 with
  | 0 => .none
  | 1 => .str
  | 2 => .number
  | 3 => .syslogTime
  | n => .other n

inductive VarVal
  | none
  | str (pStr : Bytes)
  | num (num : Int64)
  | syslogTime (vSyslogTime : SyslogTime)
  deriving DecidableEq

/-- `var_t`. `wday` and `inUTC` are the bytes of the union at the places of these fields. -/
structure Var where
  pcsName : Bytes
  varType : VarType
  val : VarVal
  wday : Int8
  inUTC : Int8
  deriving DecidableEq

def Var.construct : Var := ⟨[], .none, .none, 0, 0⟩

def reinitVar (v : Var) : Var :=
  if v.varType = .str then { v with pcsName := [], val := .str [], wday := 0 }
  else { v with pcsName := [] }

/-! ## Writing -/

def COOKIE_OBJLINE : UInt8 := 60
def COOKIE_PROPLINE : UInt8 := 43
def COOKIE_ENDLINE : UInt8 := 62
def COOKIE_BLANKLINE : UInt8 := 46

/-- The digits of `srUtilItoA`, last one first. `room` is what is left of its 64-byte buffer. -/
def itoaDigits : ℕ → Int64 → Bytes
  | 0, _ => []
  | room + 1, iToConv =>
    (iToConv % 10 + 48).toUInt64.toUInt8 ::
      if iToConv / 10 > 0 then itoaDigits room (iToConv / 10) else []

def srUtilItoA (iLenBuf : ℕ) (iToConv : Int64) : Except RsRet Bytes :=
  let szBuf := itoaDigits 64 (if iToConv < 0 then iToConv * -1 else iToConv)
  if szBuf.length - 1 + 2 > iLenBuf then .error .providedBufferTooSmall
  else .ok ((if iToConv < 0 then [45] else []) ++ szBuf.reverse)

def strmWriteLong (i : Int64) : Except RsRet Bytes := srUtilItoA 32 i

def fmtSyslogTime (t : SyslogTime) : Bytes :=
  decimalInt t.timeType.toInt ++ [58] ++ (decimalInt t.year.toInt ++ [58] ++
  (decimalInt t.month.toInt ++ [58] ++ (decimalInt t.day.toInt ++ [58] ++
  (decimalInt t.hour.toInt ++ [58] ++ (decimalInt t.minute.toInt ++ [58] ++
  (decimalInt t.second.toInt ++ [58] ++ (decimalInt t.secfrac.toInt ++ [58] ++
  (decimalInt t.secfracPrecision.toInt ++ [58] ++ ([t.offsetMode] ++ [58] ++
  (decimalInt t.offsetHour.toInt ++ [58] ++ decimalInt t.offsetMinute.toInt))))))))))

def PropVal.text : PropVal → Except RsRet (VarType × Bytes)
  | .psz buf => .ok (.str, cstring buf)
  | .short n => (srUtilItoA 64 n.toInt64).map (VarType.number, ·)
  | .int n => (srUtilItoA 64 n.toInt64).map (VarType.number, ·)
  | .long n => (srUtilItoA 64 n).map (VarType.number, ·)
  | .int64 n => (srUtilItoA 64 n).map (VarType.number, ·)
  | .cstr s => .ok (.str, s)
  | .syslogTime t =>
    if (fmtSyslogTime t).length > 64 - 1 then .error .providedBufferTooSmall
    else .ok (.syslogTime, fmtSyslogTime t)
  | .none => .ok (.none, [])

def SerializeProp (pszPropName : Bytes) : Option PropVal → Except RsRet Bytes
  | none => .ok []
  | some pUsr => do
    let (vType, pszBuf) ← pUsr.text
    let type ← strmWriteLong vType.toLong
    let len ← strmWriteLong (Int64.ofNat pszBuf.length)
    return [COOKIE_PROPLINE] ++ (cstring pszPropName ++ [58] ++ (type ++ [58] ++ (len ++ [58] ++
      (pszBuf ++ [58] ++ [10]))))

def objSerializeHeader (pszRecType pszID : Bytes) (iObjVers : Int32) :
    Except RsRet Bytes := do
  let vers ← strmWriteLong iObjVers.toInt64
  return [COOKIE_OBJLINE] ++ pszRecType ++ [58, 49, 58] ++ (pszID ++ [58] ++ (vers ++ [58] ++ [10]))

def EndSerialize : Bytes := [COOKIE_ENDLINE, 69, 110, 100, 10, COOKIE_BLANKLINE, 10]

/-! ## Reading -/

def expect (c : UInt8) (iRet : RsRet) : Rd Unit := do
  let c' ← strmReadChar
  if c' ≠ c then throw iRet else pure ()

/-- Read up to the character `stop`, which is read too. `fuel` is enough if it exceeds the number of
characters left. -/
def untilLoop (stop : UInt8) : ℕ → Rd Bytes
  | 0 => throw .eof
  | fuel + 1 => do
    let c ← strmReadChar
    if c = stop then pure []
    else
      let s ← untilLoop stop fuel
      pure (c :: s)

def readUntil (stop : UInt8) : Rd Bytes := do
  let s ← get
  untilLoop stop (s.data.length + 2)

def objDeserializeEmbedStr : Rd Bytes := readUntil 58

def digitLoop : ℕ → Int64 → UInt8 → Rd (Int64 × UInt8)
  | 0, _, _ => throw .eof
  | fuel + 1, i, c =>
    if isDigit c then do
      let c' ← strmReadChar
      digitLoop fuel (i * 10 + c.toUInt64.toInt64 - 48) c'
    else pure (i, c)

def deserializeDigits (bIsNegative : Bool) (c : UInt8) : Rd Int64 := do
  if !isDigit c then throw .invalidNumber
  else
    let s ← get
    let r ← digitLoop (s.data.length + 2) 0 c
    if r.2 ≠ 58 then throw .invalidDelimiter
    else pure (if bIsNegative then r.1 * -1 else r.1)

def objDeserializeNumber : Rd Int64 := do
  let c ← strmReadChar
  if c = 45 then
    let c ← strmReadChar
    deserializeDigits true c
  else deserializeDigits false c

/-- Append `n` characters, the first of them already read, and read one more. -/
def strLoop : ℕ → UInt8 → Rd (Bytes × UInt8)
  | 0, c => pure ([], c)
  | n + 1, c => do
    let c' ← strmReadChar
    let r ← strLoop n c'
    pure (c :: r.1, r.2)

def objDeserializeStr (iLen : Int32) : Rd Bytes := do
  let c ← strmReadChar
  let r ← strLoop iLen.toInt.toNat c
  if r.2 ≠ 58 then throw .invalidDelimiter
  else pure r.1

def objDeserializeSyslogTime (pTime : SyslogTime) : Rd SyslogTime := do
  let timeType ← objDeserializeNumber
  let year ← objDeserializeNumber
  let month ← objDeserializeNumber
  let day ← objDeserializeNumber
  let hour ← objDeserializeNumber
  let minute ← objDeserializeNumber
  let second ← objDeserializeNumber
  let secfrac ← objDeserializeNumber
  let secfracPrecision ← objDeserializeNumber
  let offsetMode ← strmReadChar
  expect 58 .invalidDelimiter
  let offsetHour ← objDeserializeNumber
  let offsetMinute ← objDeserializeNumber
  pure { pTime with
    timeType := timeType.toInt8, year := year.toInt16, month := month.toInt8, day := day.toInt8
    hour := hour.toInt8, minute := minute.toInt8, second := second.toInt8
    secfrac := secfrac.toInt32, secfracPrecision := secfracPrecision.toInt8, offsetMode
    offsetHour := offsetHour.toInt8, offsetMinute := offsetMinute.toInt8 }

/-- `pszRecType` is `Obj` or `OPB`. The rest of the line is skipped. -/
def objDeserializeHeader (pszRecType : Bytes) : Rd (Bytes × Int32) := do
  expect COOKIE_OBJLINE .invalidHeader
  pszRecType.forM (expect · .invalidHeaderRecType)
  expect 58 .invalidHeader
  expect 49 .invalidHeaderVers
  expect 58 .invalidHeaderVers
  let strID ← objDeserializeEmbedStr
  let oVers ← objDeserializeNumber
  let _ ← readUntil 10
  pure (strID, oVers.toInt32)

def wdayByte (num : Int64) : Int8 := (num.toUInt64 >>> 24).toUInt8.toInt8

def deserializeVal (pProp : Var) (iLen : Int64) : Rd Var := do
  match pProp.varType with
  | .str =>
    let pStr ← objDeserializeStr iLen.toInt32
    pure { pProp with val := .str pStr }
  | .number =>
    let num ← objDeserializeNumber
    pure { pProp with val := .num num, wday := wdayByte num }
  | .syslogTime =>
    let t ← objDeserializeSyslogTime ⟨0, 0, 0, pProp.wday, 0, 0, 0, 0, 0, 0, 0, 0, 0, pProp.inUTC⟩
    pure { pProp with val := .syslogTime t }
  | .none | .other _ => pure pProp

def objDeserializeProperty (pProp : Var) : Rd Var := do
  let c ← strmReadChar
  if c ≠ COOKIE_PROPLINE then
    strmUnreadChar c
    throw .noPropline
  else
    let pcsName ← readUntil 58
    let i ← objDeserializeNumber
    let iLen ← objDeserializeNumber
    let pProp ← deserializeVal { pProp with pcsName, varType := .ofNumber i } iLen
    expect 10 .invalidPropframe
    pure pProp

def objDeserializeTrailer : Rd Unit :=
  EndSerialize.forM (expect · .invalidTrailer)

/-! ## Objects -/

/-- An object as it is written: its class and version, and the properties in their order. -/
structure Object where
  pszID : Bytes
  iObjVers : Int32
  props : List (Bytes × PropVal)
  deriving DecidableEq

/-- `BeginSerialize`, one `SerializeProp` per property, `EndSerialize`. -/
def serializeObj (o : Object) : Except RsRet Bytes := do
  let header ← objSerializeHeader (ascii "Obj") o.pszID o.iObjVers
  let lines ← o.props.mapM fun p => SerializeProp p.1 (some p.2)
  return header ++ (lines.flatten ++ EndSerialize)

/-- The loop of `objDeserializeProperties`: one variable takes every property in turn. -/
def propertiesLoop : ℕ → Var → Strm → EStateM.Result RsRet Strm (List Var)
  | 0, _, s => .error .eof s
  | fuel + 1, pVar, s =>
    match objDeserializeProperty pVar s with
    | .ok v s =>
      match propertiesLoop fuel (reinitVar v) s with
      | .ok vs s => .ok (v :: vs) s
      | .error iRet s => .error iRet s
    | .error .noPropline s => .ok [] s
    | .error iRet s => .error iRet s

def readProperties (pVar : Var) : Rd (List Var) := fun s =>
  propertiesLoop (s.data.length + 2) pVar s

def objDeserializeProperties : Rd (List Var) := do
  let vars ← readProperties Var.construct
  objDeserializeTrailer
  pure vars

structure ObjRead where
  strID : Bytes
  oVers : Int32
  vars : List Var
  endOffs : ℕ
  deriving DecidableEq

def deserializeObj : Rd ObjRead := do
  let header ← objDeserializeHeader (ascii "Obj")
  let vars ← objDeserializeProperties
  let s ← get
  pure ⟨header.1, header.2, vars, s.iCurrOffs⟩

def tryRecoverLoop : ℕ → Bool → Rd Unit
  | 0, _ => throw .eof
  | fuel + 1, bWasNL => do
    let c ← strmReadChar
    if c = 10 then tryRecoverLoop fuel true
    else if bWasNL ∧ c = COOKIE_OBJLINE then strmUnreadChar c
    else tryRecoverLoop fuel false

def objDeserializeTryRecover : Rd Unit := do
  let s ← get
  tryRecoverLoop (s.data.length + 2) false

def headerLoop : ℕ → Strm → EStateM.Result RsRet Strm (Bytes × Int32)
  | 0, s => .error .eof s
  | fuel + 1, s =>
    match objDeserializeHeader (ascii "Obj") s with
    | .ok header s => .ok header s
    | .error _ s =>
      match objDeserializeTryRecover s with
      | .ok _ s => headerLoop fuel s
      | .error iRet s => .error iRet s

def readHeader : Rd (Bytes × Int32) := fun s => headerLoop (s.data.length + 2) s

/-- An object of the class `pszTypeExpected`, whose properties `objDeserialize` reads. -/
def objDeserializeWithMethods {α : Type} (pszTypeExpected : Bytes) (objDeserialize : Rd α) :
    Rd α := do
  let header ← readHeader
  if header.1 ≠ pszTypeExpected then throw .invalidOID
  else
    let obj ← objDeserialize
    objDeserializeTrailer
    pure obj

end Rsyslog.Obj
