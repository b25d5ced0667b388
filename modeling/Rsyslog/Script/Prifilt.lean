import Rsyslog.Script.Equality

/-!
# PRI filters

`struct funcData_prifilt` of `grammar/rainerscript.h` is a mask of severities for every facility.
This module has the functions that set up and combine masks, the function `prifilt()` that tests a
message, and the tables by which names of facilities and severities are decoded.

`LOG_NFACILITIES` is `24+1`, where the last facility is "invld". The masks have one more entry, for
the internal facility "mark".
-/

namespace Rsyslog.Script

open Lib

/-! ## Messages -/

structure Pri where
  iFacility : Fin 25
  iSeverity : Fin 8

namespace Msg

def syslogFacNames : Vector String 25 :=
  #v["kern", "user", "mail", "daemon", "auth", "syslog", "lpr", "news", "uucp", "cron", "authpriv",
    "ftp", "ntp", "audit", "alert", "clock", "local0", "local1", "local2", "local3", "local4",
    "local5", "local6", "local7", "invld"]

def syslogSeverityNames : Vector String 8 :=
  #v["emerg", "alert", "crit", "err", "warning", "notice", "info", "debug"]

def syslogNumberNames : Vector String 25 :=
  #v["0", "1", "2", "3", "4", "5", "6", "7", "8", "9", "10", "11", "12", "13", "14", "15", "16",
    "17", "18", "19", "20", "21", "22", "23", "24"]

end Msg

def getFacility (m : Pri) : Bytes :=
  if m.iFacility > 23 then ascii "invld" else ascii (Msg.syslogNumberNames.get m.iFacility)

def getFacilityStr (m : Pri) : Bytes :=
  if m.iFacility > 23 then ascii "invld" else ascii (Msg.syslogFacNames.get m.iFacility)

def getSeverity (m : Pri) : Bytes :=
  ascii (Msg.syslogNumberNames.get (m.iSeverity.castLE (by decide)))

def getSeverityStr (m : Pri) : Bytes := ascii (Msg.syslogSeverityNames.get m.iSeverity)

/-! ## Names of facilities and severities -/

namespace SrUtils

/-- The values `INTERNAL_NOPRI` and `TABLE_ALLPRI` are no severities. -/
def syslogPriNames : List (String × Int32) :=
  [("alert", 1), ("crit", 2), ("debug", 7), ("emerg", 0), ("err", 3), ("error", 3), ("info", 6),
    ("none", 0x10), ("notice", 5), ("panic", 0), ("warn", 4), ("warning", 4), ("*", 0xFF)]

/-- The facilities are multiplied by 8. `LOG_MARK` is facility 25 and `LOG_INVLD` facility 24. -/
def syslogFacNames : List (String × Int32) :=
  [("auth", 32), ("authpriv", 80), ("cron", 72), ("daemon", 24), ("kern", 0), ("lpr", 48),
    ("mail", 16), ("mark", 200), ("news", 56), ("ntp", 96), ("security", 32),
    ("bsd_security", 104), ("syslog", 40), ("user", 8), ("uucp", 64), ("ftp", 88),
    ("console", 112), ("local0", 128), ("local1", 136), ("local2", 144), ("local3", 152),
    ("local4", 160), ("local5", 168), ("local6", 176), ("local7", 184), ("invld", 192)]

end SrUtils

/-- `es_str2cstr` without an escape sequence for NUL, which drops the NULs. -/
def esStr2cstr (estr : Bytes) : Bytes := estr.filter (· != 0)

/-- `atoi` of a string that starts with a digit, as `strtol` cut down to an `int`. -/
def atoi (name : Bytes) : Int32 := Int32.ofInt (min (digitsValue 0 name) (2 ^ 63 - 1))

def tolower (c : UInt8) : UInt8 := if 65 ≤ c ∧ c ≤ 90 then c + 32 else c

/-- The value of a name, -1 if it is not in the table. Of a name of 79 characters or more the copy
in the buffer has no NUL, and what is read behind it is not defined. -/
def decodeSyslogName (name : Bytes) (codetab : List (String × Int32)) : Option Int32 :=
  if name.head?.any isDigit then some (atoi name)
  else if name.length ≥ 79 then none
  else
    let buf := name.map tolower
    some (((codetab.find? fun c => ascii c.1 == buf).map (·.2)).getD (-1))

/-! ## Masks -/

abbrev Pmask : Type := Fin 26 → UInt8

def Pmask.entry (pmask : Pmask) (m : Pri) : UInt8 := pmask (m.iFacility.castLE (by decide))

def doFunctPrifilt (pmask : Pmask) (m : Pri) : Int64 :=
  if pmask.entry m = 0 ∨ pmask.entry m &&& (1 <<< UInt8.ofNat m.iSeverity) = 0 then 0 else 1

/-- A new filter for all severities of a facility. The facility comes multiplied by 8. Without
memory for it, and for a facility that is out of range, there is no filter. -/
def cnffuncNewPrifilt (fac : Int32) : Option Pmask :=
  let fac := fac >>> 3
  if fac ≥ 26 ∨ fac < 0 then none
  else some fun i => if (i : ℤ) = fac.toInt then 0xFF else 0

def prifiltInvert (pmask : Pmask) : Pmask := fun i => ~~~pmask i

def lessthanmasks : Bytes := [0x00, 0x01, 0x03, 0x07, 0x0f, 0x1f, 0x3f, 0x7f, 0xff]

/-- `1 << sev` as an entry of a mask. Shifting by a negative number or into the sign is not
defined. -/
def severityBit (sev : Int32) : Option UInt8 :=
  if 0 ≤ sev ∧ sev < 31 then some (UInt8.ofNat (2 ^ sev.toInt.toNat)) else none

def lessthanmask (sev : Int32) : Option UInt8 :=
  if 0 ≤ sev then lessthanmasks[sev.toInt.toNat]? else none

def prifiltSetSeverity (pmask : Pmask) (sev : Int32) : CmpOp → Option Pmask
  | .eq => (severityBit sev).map fun bits _ => bits
  | .ne => (severityBit sev).map fun bits => prifiltInvert fun _ => bits
  | .lt => (lessthanmask sev).map fun bits _ => bits
  | .le => (lessthanmask (sev + 1)).map fun bits _ => bits
  | .gt => (lessthanmask (sev + 1)).map fun bits _ => ~~~bits
  | .ge => (lessthanmask sev).map fun bits _ => ~~~bits
  | _ => some pmask

def prifiltSetFacility (fac : ℕ) : CmpOp → Pmask
  | .eq => fun i => if i.val = fac then 0xFF else 0
  | .ne => prifiltInvert fun i => if i.val = fac then 0xFF else 0
  | .lt => fun i => if i.val < fac then 0xFF else 0
  | .le => fun i => if i.val < fac + 1 then 0xFF else 0
  | .ge => fun i => if i.val ≥ fac then 0xFF else 0
  | .gt => fun i => if i.val ≥ fac + 1 then 0xFF else 0
  | _ => fun _ => 0

inductive Junctor
  | and
  | or
  deriving DecidableEq

def prifiltCombine (pmask pmask2 : Pmask) : Junctor → Pmask
  | .and => fun i => pmask i &&& pmask2 i
  | .or => fun i => pmask i ||| pmask2 i

/-! ## What a mask matches -/

def Pmask.Matches (pmask : Pmask) (m : Pri) : Bool :=
  (pmask.entry m).toBitVec.getLsbD m.iSeverity

lemma and_bit_eq_zero (p : UInt8) (k : Fin 8) :
    p &&& (1 <<< UInt8.ofNat k) = 0 ↔ p.toBitVec.getLsbD k = false := by
  have hbit : ∀ k : Fin 8, (1 <<< UInt8.ofNat k : UInt8).toBitVec = BitVec.twoPow 8 k := by decide
  have hne : ∀ k : Fin 8, BitVec.twoPow 8 k ≠ 0#8 := by decide
  rw [← UInt8.toBitVec_inj, UInt8.toBitVec_and, hbit, BitVec.and_twoPow]
  cases p.toBitVec.getLsbD k with
  | false => simp
  | true => simpa using hne k

lemma doFunctPrifilt_eq (pmask : Pmask) (m : Pri) :
    doFunctPrifilt pmask m = ofBool (pmask.Matches m) := by
  have hzero : pmask.entry m = 0 → pmask.entry m &&& (1 <<< UInt8.ofNat m.iSeverity) = 0 := by
    intro h
    rw [h, UInt8.zero_and]
  have hiff := (or_iff_right_of_imp hzero).trans (and_bit_eq_zero (pmask.entry m) m.iSeverity)
  rw [doFunctPrifilt]
  cases hm : pmask.Matches m with
  | false => rw [if_pos (hiff.mpr hm), ofBool, if_neg (by decide)]
  | true =>
    rw [if_neg fun h => absurd (hiff.mp h) (by rw [← Pmask.Matches, hm]; decide), ofBool,
      if_pos rfl]

@[simp] lemma matches_invert (pmask : Pmask) (m : Pri) :
    (prifiltInvert pmask).Matches m = !pmask.Matches m := by
  have hlt : (m.iSeverity : ℕ) < 8 := m.iSeverity.isLt
  simp [Pmask.Matches, Pmask.entry, prifiltInvert, hlt]

def Junctor.apply (op : Junctor) (b c : Bool) : Bool :=
  match op with
  | .and => b && c
  | .or => b || c

@[simp] lemma matches_combine (pmask pmask2 : Pmask) (op : Junctor) (m : Pri) :
    (prifiltCombine pmask pmask2 op).Matches m = op.apply (pmask.Matches m) (pmask2.Matches m) := by
  cases op <;> simp [Pmask.Matches, Pmask.entry, prifiltCombine, Junctor.apply]

lemma matches_entries {P : Fin 26 → Prop} [DecidablePred P] (m : Pri) :
    Pmask.Matches (fun i => if P i then 0xFF else 0) m =
      decide (P (m.iFacility.castLE (by decide))) := by
  have hall : ∀ k : Fin 8, (0xFF : UInt8).toBitVec.getLsbD k = true := by decide
  rw [Pmask.Matches, Pmask.entry]
  split
  case isTrue h => rw [hall, decide_eq_true h]
  case isFalse h => simp [h]

end Rsyslog.Script
