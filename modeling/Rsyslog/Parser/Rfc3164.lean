import Mathlib.Data.List.TakeWhile
import Rsyslog.Datetime.Timestamp
import Rsyslog.Msg.Serialize
import Rsyslog.Parser.Pri

/-!
# The RFC 3164 parser

`parse2` of `pmrfc3164.c`: timestamp, HOSTNAME and TAG, each of them if it is there, and MSG. It
guesses whether there is a HOSTNAME, and with `bForceTagEndingByColon` it goes back if what it took
for a TAG has no colon.

`parse2` is undefined where the code reads outside of the raw message and its terminator, or stores
behind the end of `bufParseHOSTNAME`.
-/

namespace Rsyslog.Parser.Rfc3164

open Lib Lib.Step Obj Msg Datetime

structure InstanceConf where
  bDetectYearAfterTimestamp : Bool
  bPermitSquareBracketsInHostname : Bool
  bPermitSlashesInHostname : Bool
  bPermitAtSignsInHostname : Bool
  bForceTagEndingByColon : Bool
  bRemoveMsgFirstSpace : Bool

def createInstance : InstanceConf where
  bDetectYearAfterTimestamp := false
  bPermitSquareBracketsInHostname := false
  bPermitSlashesInHostname := false
  bPermitAtSignsInHostname := false
  bForceTagEndingByColon := false
  bRemoveMsgFirstSpace := false

def CONF_TAG_MAXSIZE : ℕ := 512

def CONF_HOSTNAME_MAXSIZE : ℕ := 512

/-! ## Timestamp -/

def applyDfltTZ (pTime : SyslogTime) (tz : Bytes) : SyslogTime :=
  let digit i : ℤ := (tz.getD i 0).toNat - 48
  { pTime with
    offsetMode := tz.getD 0 0
    offsetHour := Int8.ofInt (digit 1 * 10 + digit 2)
    offsetMinute := Int8.ofInt (digit 4 * 10 + digit 5) }

section Timestamp

variable (glblFindTimezone : Bytes → Option TzInfo) (inst : InstanceConf) (pTime : SyslogTime)

def legacyTime : Step UInt8 SyslogTime :=
  ParseTIMESTAMP3164 glblFindTimezone false inst.bDetectYearAfterTimestamp pTime

def legacyTimeAfterSpace : Step UInt8 SyslogTime := do
  let ch ← peek
  let lenMsg ← remaining
  require (ch = 32 ∧ 1 < lenMsg)
  let _ ← next
  legacyTime glblFindTimezone inst pTime

def timestamp (dfltTZ : Bytes) : Step UInt8 SyslogTime := do
  let time ← attempt (ParseTIMESTAMP3339 pTime)
  match time with
  | some t => pure t
  | none => do
    let time ← attempt (legacyTime glblFindTimezone inst pTime)
    match time with
    | some t => pure (if dfltTZ.headD 0 ≠ 0 then applyDfltTZ t dfltTZ else t)
    | none => do
      let time ← attempt (legacyTimeAfterSpace glblFindTimezone inst pTime)
      pure (time.getD pTime)

end Timestamp

/-! ## HOSTNAME -/

def isalnum (c : UInt8) : Bool :=
  isDigit c || (65 ≤ c && c ≤ 90) || (97 ≤ c && c ≤ 122)

variable (inst : InstanceConf)

def hostChar (c : UInt8) : Bool :=
  isalnum c || c == 46 || c == 95 || c == 45 ||
    (c == 64 && inst.bPermitAtSignsInHostname) || (c == 47 && inst.bPermitSlashesInHostname)

def hostGoesOn (bHadSBracket : Bool) (lenMsg : ℤ) (i : ℕ) (c : UInt8) : Prop :=
  (i : ℤ) < lenMsg ∧ (hostChar inst c ∨ c = 93 ∧ bHadSBracket) ∧ i < CONF_HOSTNAME_MAXSIZE - 1
deriving Decidable

/-- The loop over the HOSTNAME. `bufParseHOSTNAME` holds what comes before the memory that is
given; its length is `i`. The octet behind the one that is stored is looked at, too. -/
def hostLoop (inst : InstanceConf) (bHadSBracket : Bool) (lenMsg : ℤ) :
    Bytes → Bytes → Option Bytes
  | buf, [] => if (buf.length : ℤ) < lenMsg then none else some buf
  | buf, [c] => if hostGoesOn inst bHadSBracket lenMsg buf.length c then none else some buf
  | buf, c :: d :: mem =>
    if hostGoesOn inst bHadSBracket lenMsg buf.length c then
      -- must be closing bracket
      if d = 93 then some (buf ++ [c])
      else hostLoop inst bHadSBracket lenMsg (buf ++ [c]) (d :: mem)
    else some buf

/-- A bracket that was opened has to be closed, and otherwise the last octet is no punctuation. -/
def hostEnd (bHadSBracket : Bool) (buf mem : Bytes) : Option (Bytes × Bool) :=
  if bHadSBracket then
    mem[buf.length]?.map fun c => if c = 93 then (buf ++ [93], true) else (buf, false)
  else mem[buf.length - 1]?.map fun c => (buf, isalnum c)

def isHostName (bHadSBracket : Bool) (buf mem : Bytes) : Option (Bytes × Bool) :=
  if buf = [] then some (buf, false)
  else do
    let (buf, isHost) ← hostEnd bHadSBracket buf mem
    let c ← mem[buf.length]?
    pure (buf, isHost && c == 32)

def hostRead (mem : Bytes) (lenMsg : ℤ) :
    Option (Option Bytes × ℕ) := do
  let ch ← mem.head?
  let bHadSBracket := inst.bPermitSquareBracketsInHostname && ch == 91
  let buf := if bHadSBracket then [91] else []
  let buf ← hostLoop inst bHadSBracket lenMsg buf (mem.drop buf.length)
  -- empty immediately after the hostname, but the hostname thus is valid
  if buf.length = lenMsg then pure (some buf, buf.length)
  else do
    let (buf, isHost) ← isHostName bHadSBracket buf mem
    if isHost then
      -- the terminator is stored at the index `buf.length`
      if buf.length < CONF_HOSTNAME_MAXSIZE then pure (some buf, buf.length + 1) else none
    else pure (none, 0)

def hostname : Step UInt8 (Option Bytes) := fun c =>
  match hostRead inst c.rest c.len with
  | some (host, n) => .ok host ⟨c.rest.drop n, c.len - n⟩
  | none => .error .outside c

/-! ## TAG -/

def tagLoop : Bytes → Bytes → ℤ → EStateM.Result Fault (Cursor UInt8) Bytes
  | buf, [], lenMsg => if 0 < lenMsg then .error .outside ⟨[], lenMsg⟩ else .ok buf ⟨[], lenMsg⟩
  | buf, c :: p2parse, lenMsg =>
    if 0 < lenMsg ∧ c ≠ 58 ∧ c ≠ 32 ∧ buf.length < CONF_TAG_MAXSIZE - 2 then
      tagLoop (buf ++ [c]) p2parse (lenMsg - 1)
    else .ok buf ⟨c :: p2parse, lenMsg⟩

def tagChars : Step UInt8 Bytes := fun c => tagLoop [] c.rest c.len

def tag : Step UInt8 (Bytes × ℕ) := do
  let buf ← tagChars
  whenNext 58 (pure (buf ++ [58], 0))
    (pure (if inst.bForceTagEndingByColon then ([45], buf.length + 1) else (buf, 0)))

/-! ## Messages -/

def headerless : Bytes → ℤ → Option Bool
  | [], lenMsg => if 0 < lenMsg then none else some false
  | c :: p2parse, lenMsg =>
    if 0 < lenMsg then
      if c = 32 ∨ c = 9 then headerless p2parse (lenMsg - 1) else some (c = 123 ∨ c = 91)
    else some false

def octetAt (rawMsg : Bytes) (offs : ℤ) : Option UInt8 :=
  if 0 ≤ offs then (rawMsg ++ [0])[offs.toNat]? else none

def firstSpace (rawMsg : Bytes) (p2parse : ℤ) : Option ℤ :=
  if inst.bRemoveMsgFirstSpace then
    (octetAt rawMsg p2parse).map fun c => if c = 32 then p2parse + 1 else p2parse
  else some p2parse

variable {E : Env}

def hostnamePart (pMsg : SMsg E) : Step UInt8 (Option Bytes) := do
  let lenMsg ← remaining
  if 0 < lenMsg ∧ pMsg.msgFlags &&& PARSE_HOSTNAME ≠ 0 then hostname inst else pure none

def hostnameAndTag (pMsg : SMsg E) : Step UInt8 (SMsg E × ℕ) := do
  let host ← hostnamePart inst pMsg
  let (bufParseTAG, back) ← tag inst
  pure (MsgSetTAG (host.elim pMsg (MsgSetHOSTNAME pMsg)) bufParseTAG, back)

section Parse2

variable (glblFindTimezone : Bytes → Option TzInfo) (inst : InstanceConf)
  (bParseHOSTNAMEandTAG : Bool)

/-- A message that is parsed: what is stored, and how far to go back from where the pointer is. -/
def header (pMsg : SMsg E) : Step UInt8 (SMsg E × ℕ) := do
  let t ← timestamp glblFindTimezone inst pMsg.tTIMESTAMP pMsg.dfltTZ
  let pMsg := { pMsg with
    tTIMESTAMP := if pMsg.msgFlags &&& IGNDATE ≠ 0 then pMsg.tRcvdAt else t }
  if bParseHOSTNAMEandTAG ∧ pMsg.msgFlags &&& INTERNAL_MSG = 0 then hostnameAndTag inst pMsg
  else pure (pMsg, 0)

def parse2Header (offAfterPRI : ℕ) (pMsg : SMsg E) : Option (SMsg E × ℤ) :=
  let mem := (pMsg.rawMsg ++ [0]).drop offAfterPRI
  let lenMsg : ℤ := pMsg.rawMsg.length - offAfterPRI
  if pMsg.iFacility.toNat = LOG_FAC_INVLD then some (pMsg, offAfterPRI)
  else do
    let isHeaderless ← headerless mem lenMsg
    if isHeaderless then pure (pMsg, (offAfterPRI : ℤ))
    else
      match header glblFindTimezone inst bParseHOSTNAMEandTAG pMsg ⟨mem, lenMsg⟩ with
      | .ok (pMsg, back) c => pure (pMsg, pMsg.rawMsg.length + 1 - c.rest.length - back)
      | .error _ _ => none

def parse2Offs (offAfterPRI : ℕ) (pMsg : SMsg E) : Option (SMsg E × ℤ) := do
  let (pMsg, p2parse) ← parse2Header glblFindTimezone inst bParseHOSTNAMEandTAG offAfterPRI
    (setProtocolVersion pMsg 0)
  let offs ← firstSpace inst pMsg.rawMsg p2parse
  pure (pMsg, offs)

end Parse2

end Rsyslog.Parser.Rfc3164
