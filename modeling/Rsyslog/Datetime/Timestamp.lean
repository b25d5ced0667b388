import Rsyslog.Lib.Cursor
import Rsyslog.Obj.Serialize

/-!
# Timestamps in messages

`ParseTIMESTAMP3339` and `ParseTIMESTAMP3164` of `datetime.c`. Both read through a pointer into the
message and a counter of the octets that are left, and they set neither of them if there is no
timestamp.
-/

namespace Rsyslog.Datetime

open Lib Lib.Step Obj List

def INT_MAX : ℕ := 2147483647

/-! ## Numbers -/

/-- The loop of `srSLMGParseInt32`; it stops before `int` could overflow. -/
def parseDigits : ℕ → Bytes → ℤ → EStateM.Result Fault (Cursor UInt8) ℕ
  | i, [], len => if 0 < len then .error .outside ⟨[], len⟩ else .ok i ⟨[], len⟩
  | i, x :: rest, len =>
    if 0 < len ∧ isDigit x ∧ i < INT_MAX / 10 - 1 then
      parseDigits (i * 10 + (x.toNat - 48)) rest (len - 1)
    else .ok i ⟨x :: rest, len⟩

/-- The digits at the pointer; without any, the number is 0. -/
def srSLMGParseInt32 : Step UInt8 ℕ := fun c => parseDigits 0 c.rest c.len

lemma ne_zero_of_isDigit {x : UInt8} (h : isDigit x = true) : x ≠ 0 := by
  rintro rfl
  exact absurd h (by decide)

lemma digit_le_nine {x : UInt8} (h : isDigit x = true) : x.toNat - 48 ≤ 9 := by
  have := isDigit_iff.1 h
  omega

/-! ## Parts that both formats have -/

/-- `TIME-SECFRAC` with the number of its digits. -/
def secfracPart : Step UInt8 (ℕ × ℕ) :=
  whenNext 46 (do
    let pszStart ← get
    let secfrac ← srSLMGParseInt32
    let pszTS ← get
    pure (secfrac, pszStart.rest.length - pszTS.rest.length)) (pure (0, 0))

/-- A timestamp ends at a space or with the message. -/
def endOfTimestamp : Step UInt8 Unit := do
  let lenStr ← remaining
  if 0 < lenStr then expect 32 else pure ()

/-! ## RFC 3339 -/

/-- `TIME-OFFSET`: `Z`, or a sign, hours and minutes. -/
def offsetPart : Step UInt8 (UInt8 × ℕ × ℕ) := do
  let lenStr ← remaining
  require (lenStr ≠ 0)
  let mode ← peek
  require (mode = 90 ∨ mode = 43 ∨ mode = 45)
  let _ ← next
  if mode = 90 then pure (90, 0, 0)
  else do
    let offsetHour ← srSLMGParseInt32
    require (offsetHour ≤ 23)
    expect 58
    let offsetMinute ← srSLMGParseInt32
    require (offsetMinute ≤ 59)
    pure (mode, offsetHour, offsetMinute)

/-- The fields that `ParseTIMESTAMP3339` sets: all but `wday` and `inUTC`. -/
def set3339 (pTime : SyslogTime) (year month day hour minute second : ℕ) (secfrac : ℕ × ℕ)
    (offset : UInt8 × ℕ × ℕ) : SyslogTime :=
  { pTime with
    timeType := 2
    year := Int16.ofInt year
    month := Int8.ofInt month
    day := Int8.ofInt day
    hour := Int8.ofInt hour
    minute := Int8.ofInt minute
    second := Int8.ofInt second
    secfrac := Int32.ofInt secfrac.1
    secfracPrecision := Int8.ofInt secfrac.2
    offsetMode := offset.1
    offsetHour := Int8.ofInt offset.2.1
    offsetMinute := Int8.ofInt offset.2.2 }

def ParseTIMESTAMP3339 (pTime : SyslogTime) : Step UInt8 SyslogTime := do
  let year ← srSLMGParseInt32
  expect 45
  require (year < 2100)
  let month ← srSLMGParseInt32
  require (1 ≤ month ∧ month ≤ 12)
  expect 45
  let day ← srSLMGParseInt32
  require (1 ≤ day ∧ day ≤ 31)
  expect 84
  let hour ← srSLMGParseInt32
  require (hour ≤ 23)
  expect 58
  let minute ← srSLMGParseInt32
  require (minute ≤ 59)
  expect 58
  let second ← srSLMGParseInt32
  require (second ≤ 60)
  let secfrac ← secfracPart
  let offset ← offsetPart
  endOfTimestamp
  pure (set3339 pTime year month day hour minute second secfrac offset)

/-! ## RFC 3164 -/

structure TzInfo where
  offsMode : UInt8
  offsHour : Int8
  offsMin : Int8

/-- A year in front of the month. The space behind it is not taken from the counter. -/
def yearInFront : Step UInt8 ℕ := do
  let ch ← peek
  if isDigit ch then do
    let year ← srSLMGParseInt32
    require (1970 ≤ year ∧ year ≤ 2100)
    let sp ← peek
    require (sp = 32)
    let _ ← advance
    pure year
  else pure 0

/-- A `switch` on the next octet, in lower or upper case. -/
def oneOf {β : Type} (branches : List (UInt8 × Step UInt8 β)) : Step UInt8 β := fun c =>
  match c.rest with
  | [] => .error .outside c
  | x :: rest =>
    match branches.find? fun b => x = b.1 ∨ x = b.1 - 32 with
    | some b => b.2 { c with rest := rest }
    | none => .error .reject c

/-- The letters of a month, looked at one after the other. -/
def letters {β : Type} (oneOf : List (UInt8 × β) → β) (found : ℕ → β) : β :=
  oneOf [
    (106, oneOf [
      (97, oneOf [(110, found 1)]),
      (117, oneOf [(110, found 6), (108, found 7)])]),
    (102, oneOf [(101, oneOf [(98, found 2)])]),
    (109, oneOf [(97, oneOf [(114, found 3), (121, found 5)])]),
    (97, oneOf [
      (112, oneOf [(114, found 4)]),
      (117, oneOf [(103, found 8)])]),
    (115, oneOf [(101, oneOf [(112, found 9)])]),
    (111, oneOf [(99, oneOf [(116, found 10)])]),
    (110, oneOf [(111, oneOf [(118, found 11)])]),
    (100, oneOf [(101, oneOf [(99, found 12)])])]

def monthName : Step UInt8 ℕ := letters oneOf pure

/-- The three letters are taken from the counter only behind the last one. -/
def month : Step UInt8 ℕ := do
  let month ← monthName
  count 3
  pure month

/-- A day of one digit has a space in front. -/
def padding : Step UInt8 Unit := do
  let ch ← peek
  if ch = 32 then next >>= fun _ => pure () else pure ()

/-- The hour, or a year as Cisco puts it there and then the hour. -/
def yearAndHour (year : ℕ) : Step UInt8 (ℕ × ℕ) := do
  let hour ← srSLMGParseInt32
  if year = 0 ∧ 1970 < hour ∧ hour < 2100 then do
    expect 32
    let hour' ← srSLMGParseInt32
    pure (hour, hour')
  else pure (year, hour)

/-- At most 15 octets of `tzstring` are filled. -/
def tzstringLoop : Bytes → Bytes → ℤ →
    EStateM.Result Fault (Cursor UInt8) Bytes
  | tzstring, [], lenStr =>
    if 0 < lenStr ∧ tzstring.length < 15 then .error .outside ⟨[], lenStr⟩
    else .ok tzstring ⟨[], lenStr⟩
  | tzstring, x :: rest, lenStr =>
    if 0 < lenStr ∧ tzstring.length < 15 ∧ x ≠ 58 ∧ x ≠ 32 then
      tzstringLoop (tzstring ++ [x]) rest (lenStr - 1)
    else .ok tzstring ⟨x :: rest, lenStr⟩

/-- The TZSTRING, if we are instructed to parse it and it is known. An offset mode of NUL means no
update. -/
def tzPart (glblFindTimezone : Bytes → Option TzInfo) (bParseTZ : Bool) :
    Step UInt8 (Option TzInfo) := do
  let lenStr ← remaining
  if bParseTZ ∧ 2 < lenStr then
    whenNext 32 (do
      let tzstring ← fun c => tzstringLoop [] c.rest c.len
      pure (if tzstring = [] then none
        else (glblFindTimezone (cstring tzstring)).filter (·.offsMode ≠ 0))) (pure none)
  else pure none

/-- Up to `n` digits are added to `y`. -/
def yearDigits : ℕ → ℕ → Bytes → Option ℕ
  | 0, y, _ => some y
  | _ + 1, _, [] => none
  | n + 1, y, x :: rest =>
    if isDigit x then yearDigits n (10 * y + (x.toNat - 48)) rest else some y

/-- The number in the four octets behind the next one; 0 if something else than a space follows. -/
def yearBehind (pszTS : Bytes) (lenStr : ℤ) : Option ℕ := do
  let y ← yearDigits 4 0 (pszTS.drop 1)
  if 6 < lenStr then do
    let ch ← pszTS[5]?
    pure (if ch ≠ 32 then 0 else y)
  else pure y

/-- The year is taken, with the space in front of it, if it can be one. -/
def takeYear (year : ℕ) : Step UInt8 ℕ := fun c =>
  match yearBehind c.rest c.len with
  | none => .error .outside c
  | some y => if 2000 ≤ y ∧ y < 2100 then .ok y ⟨c.rest.drop 5, c.len - 5⟩ else .ok year c

def yearAfterTime (bDetectYearAfterTime : Bool) (year : ℕ) : Step UInt8 ℕ := do
  let lenStr ← remaining
  if bDetectYearAfterTime ∧ year = 0 ∧ 5 < lenStr then do
    let ch ← peek
    if ch = 32 then takeYear year else pure year
  else pure year

section Timestamp3164

variable (glblFindTimezone : Bytes → Option TzInfo) (bParseTZ bDetectYearAfterTime : Bool)
  (pTime : SyslogTime)

/-- The fields that `ParseTIMESTAMP3164` sets; the year and the offset only if there are some. -/
def set3164 (year month day hour minute second : ℕ) (secfrac : ℕ × ℕ) (tzinfo : Option TzInfo) :
    SyslogTime :=
  { pTime with
    timeType := 1
    month := Int8.ofInt month
    year := if 0 < year then Int16.ofInt year else pTime.year
    day := Int8.ofInt day
    hour := Int8.ofInt hour
    minute := Int8.ofInt minute
    second := Int8.ofInt second
    secfrac := Int32.ofInt secfrac.1
    secfracPrecision := Int8.ofInt secfrac.2
    offsetMode := tzinfo.elim pTime.offsetMode TzInfo.offsMode
    offsetHour := tzinfo.elim pTime.offsetHour TzInfo.offsHour
    offsetMinute := tzinfo.elim pTime.offsetMinute TzInfo.offsMin }

/-- What `ParseTIMESTAMP3164` does after it has looked for a year in front. -/
def behindYear (year : ℕ) : Step UInt8 SyslogTime := do
  let month ← month
  expect 32
  padding
  let day ← srSLMGParseInt32
  require (1 ≤ day ∧ day ≤ 31)
  expect 32
  let yearHour ← yearAndHour year
  require (yearHour.2 ≤ 23)
  expect 58
  let minute ← srSLMGParseInt32
  require (minute ≤ 59)
  expect 58
  let second ← srSLMGParseInt32
  require (second ≤ 60)
  let secfrac ← secfracPart
  let tzinfo ← tzPart glblFindTimezone bParseTZ
  let year ← yearAfterTime bDetectYearAfterTime yearHour.1
  whenNext 58 (pure ()) (pure ())
  endOfTimestamp
  pure (set3164 pTime year month day yearHour.2 minute second secfrac tzinfo)

def ParseTIMESTAMP3164 : Step UInt8 SyslogTime := do
  let lenStr ← remaining
  require (3 ≤ lenStr)
  let year ← yearInFront
  behindYear glblFindTimezone bParseTZ bDetectYearAfterTime pTime year

end Timestamp3164

variable {mem : Bytes}

lemma isDigit_of_yearDigits {n y y' : ℕ} (h : yearDigits (n + 1) y mem = some y')
    (hy : (y + 1) * 10 ^ n ≤ y') : ∀ x ∈ mem.take (n + 1), isDigit x = true := by
  induction n generalizing y mem with
  | zero =>
    cases mem with
    | nil => exact nomatch h
    | cons x rest =>
      rw [yearDigits] at h
      split at h
      case isTrue hx => simpa using hx
      case isFalse =>
        have hyy : y = y' := Option.some.inj h
        omega
  | succ n ih =>
    cases mem with
    | nil => exact nomatch h
    | cons x rest =>
      rw [yearDigits] at h
      split at h
      case isTrue hx =>
        have hd : x.toNat - 48 ≤ 9 := digit_le_nine hx
        have hle : (10 * y + (x.toNat - 48) + 1) * 10 ^ n ≤ y' := by
          refine le_trans ?_ hy
          rw [pow_succ, mul_comm (10 ^ n), ← mul_assoc]
          exact Nat.mul_le_mul_right _ (by omega)
        exact forall_mem_cons.mpr ⟨hx, ih h hle⟩
      case isFalse =>
        have hyy : y = y' := Option.some.inj h
        have := Nat.le_mul_of_pos_right (y + 1) (Nat.pow_pos (n := n + 1) (show 0 < 10 by decide))
        omega

lemma yearDigits_isSome {n y : ℕ} (h : n ≤ mem.length) : ∃ y', yearDigits n y mem = some y' := by
  induction n generalizing y mem with
  | zero => exact ⟨y, by rw [yearDigits]⟩
  | succ n ih =>
    cases mem with
    | nil => exact absurd h (by simp)
    | cons x rest =>
      rw [yearDigits]
      split
      · exact ih (Nat.le_of_succ_le_succ h)
      · exact ⟨y, rfl⟩

/-- Where six octets are left, nothing outside is read. -/
lemma yearBehind_isSome {len : ℤ} (h : len ≤ mem.length) (hlen : 5 < len) :
    ∃ y, yearBehind mem len = some y := by
  obtain ⟨y, hy⟩ := @yearDigits_isSome (mem.drop 1) 4 0 (by rw [length_drop]; omega)
  rw [yearBehind, hy, Option.bind_eq_bind]
  split
  · have h5 : 5 < mem.length := by omega
    rw [getElem?_eq_getElem h5]
    exact ⟨_, rfl⟩
  · exact ⟨y, rfl⟩

lemma isDigit_of_yearBehind {len : ℤ} {y : ℕ} (h : yearBehind mem len = some y) (hy : 2000 ≤ y) :
    ∀ x ∈ (mem.drop 1).take 4, isDigit x = true := by
  rw [yearBehind, Option.bind_eq_bind, Option.bind_eq_some_iff] at h
  obtain ⟨y', hdigits, h⟩ := h
  have hyy : y' = y := by
    split at h
    · obtain ⟨ch, -, h⟩ := Option.bind_eq_some_iff.mp h
      have h := Option.some.inj h
      split at h
      · omega
      · exact h
    · exact Option.some.inj h
  exact isDigit_of_yearDigits hdigits (by omega)

end Rsyslog.Datetime
