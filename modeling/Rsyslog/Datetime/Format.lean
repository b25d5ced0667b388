import Mathlib.Tactic.Ring
import Rsyslog.Datetime.Timestamp
import Rsyslog.Lib.Reader
import Rsyslog.Lib.Translate

/-!
# What timestamps look like

The formats of the two parsers as readers. The parser for RFC 3164 follows its reader unless there
is a year in front: as the space behind the year is not taken from the counter, the rest is read as
if one more octet belonged to the text.
-/

namespace Rsyslog.Datetime

open Lib Lib.Step Obj List

namespace Format

/-! ## Formats -/

/-- The value of the digits at the start, as far as it is sure not to overflow, and what is left. -/
def digits : ℕ → Bytes → ℕ × Bytes
  | i, [] => (i, [])
  | i, x :: rest =>
    if isDigit x ∧ i < INT_MAX / 10 - 1 then digits (i * 10 + (x.toNat - 48)) rest
    else (i, x :: rest)

/-- A number; without digits it is 0. -/
def number : Reader UInt8 ℕ := fun text => some (digits 0 text)

/-- The fraction of a second, with the number of its digits. -/
def fraction : Reader UInt8 (ℕ × ℕ) :=
  Reader.whenNext 46
    (fun text => some (((digits 0 text).1, text.length - (digits 0 text).2.length),
      (digits 0 text).2))
    (pure (0, 0))

/-- `Z`, or the offset from UTC. -/
def offset : Reader UInt8 (UInt8 × ℕ × ℕ)
  | [] => none
  | mode :: text =>
    if mode = 90 then some ((90, 0, 0), text)
    else if mode = 43 ∨ mode = 45 then
      (do
        let offsetHour ← number
        Reader.require (offsetHour ≤ 23)
        Reader.expect 58
        let offsetMinute ← number
        Reader.require (offsetMinute ≤ 59)
        pure (mode, offsetHour, offsetMinute) : Reader UInt8 (UInt8 × ℕ × ℕ)) text
    else none

/-- The space behind a timestamp, or the end of the text. -/
def ends : Reader UInt8 Unit
  | [] => some ((), [])
  | x :: text => if x = 32 then some ((), text) else none

/-- A timestamp of RFC 3339. The parser follows it. -/
def timestamp3339 (pTime : SyslogTime) : Reader UInt8 SyslogTime := do
  let year ← number
  Reader.expect 45
  Reader.require (year < 2100)
  let month ← number
  Reader.require (1 ≤ month ∧ month ≤ 12)
  Reader.expect 45
  let day ← number
  Reader.require (1 ≤ day ∧ day ≤ 31)
  Reader.expect 84
  let hour ← number
  Reader.require (hour ≤ 23)
  Reader.expect 58
  let minute ← number
  Reader.require (minute ≤ 59)
  Reader.expect 58
  let second ← number
  Reader.require (second ≤ 60)
  let secfrac ← fraction
  let offset ← offset
  ends
  pure (set3339 pTime year month day hour minute second secfrac offset)

variable {β : Type}

/-- A letter, small or capital, and what follows it. -/
def oneOf (branches : List (UInt8 × Reader UInt8 β)) : Reader UInt8 β
  | [] => none
  | x :: text =>
    match branches.find? fun b => x = b.1 ∨ x = b.1 - 32 with
    | some b => b.2 text
    | none => none

/-- The name of a month. -/
def month : Reader UInt8 ℕ := letters oneOf pure

/-- The hour, or a year in front of it. -/
def yearAndHour (year : ℕ) : Reader UInt8 (ℕ × ℕ) := do
  let hour ← number
  if year = 0 ∧ 1970 < hour ∧ hour < 2100 then do
    Reader.expect 32
    let hour' ← number
    pure (hour, hour')
  else pure (year, hour)

/-- The name of a time zone. -/
def tzstring (text : Bytes) : Bytes := (text.takeWhile fun x => x ≠ 58 ∧ x ≠ 32).take 15

/-- A time zone, if they are to be parsed and it is known. -/
def timezone (glblFindTimezone : Bytes → Option TzInfo) (bParseTZ : Bool) :
    Reader UInt8 (Option TzInfo) := fun text =>
  if bParseTZ ∧ 2 < text.length then
    Reader.whenNext 32 (fun text => some (if tzstring text = [] then none
      else (glblFindTimezone (cstring (tzstring text))).filter (·.offsMode ≠ 0),
        text.drop (tzstring text).length)) (pure none) text
  else some (none, text)

/-- A year behind the time, if it is to be detected. -/
def yearAfterTime (bDetectYearAfterTime : Bool) (year : ℕ) : Reader UInt8 ℕ := fun text =>
  if bDetectYearAfterTime ∧ year = 0 ∧ 5 < text.length ∧ text.head? = some 32 then
    match yearBehind text text.length with
    | some y => if 2000 ≤ y ∧ y < 2100 then some (y, text.drop 5) else some (year, text)
    | none => none
  else some (year, text)

section Timestamp3164

variable (glblFindTimezone : Bytes → Option TzInfo) (bParseTZ bDetectYearAfterTime : Bool)
  (pTime : SyslogTime)

/-- A timestamp of RFC 3164 without a year in front. -/
def behindYear (year : ℕ) : Reader UInt8 SyslogTime := do
  let month ← month
  Reader.expect 32
  Reader.whenNext 32 (pure ()) (pure ())
  let day ← number
  Reader.require (1 ≤ day ∧ day ≤ 31)
  Reader.expect 32
  let yearHour ← yearAndHour year
  Reader.require (yearHour.2 ≤ 23)
  Reader.expect 58
  let minute ← number
  Reader.require (minute ≤ 59)
  Reader.expect 58
  let second ← number
  Reader.require (second ≤ 60)
  let secfrac ← fraction
  let tzinfo ← timezone glblFindTimezone bParseTZ
  let year ← yearAfterTime bDetectYearAfterTime yearHour.1
  Reader.whenNext 58 (pure ()) (pure ())
  ends
  pure (set3164 pTime year month day yearHour.2 minute second secfrac tzinfo)

/-- A year in front. -/
def year : Reader UInt8 ℕ := do
  let year ← number
  Reader.require (1970 ≤ year ∧ year ≤ 2100)
  Reader.expect 32
  pure year

end Timestamp3164

/-! ## Parts -/

variable (i : ℕ)

lemma parseDigits_append (text beyond : Bytes) :
    parseDigits i (text ++ beyond) text.length =
      .ok (digits i text).1 ⟨(digits i text).2 ++ beyond, (digits i text).2.length⟩ := by
  induction text generalizing i with
  | nil => cases beyond <;> rfl
  | cons x text ih =>
    have hlen : (0 : ℤ) < (x :: text).length := by
      rw [length_cons]
      omega
    rw [cons_append, parseDigits, digits]
    by_cases hx : isDigit x = true ∧ i < INT_MAX / 10 - 1
    · rw [if_pos ⟨hlen, hx⟩, if_pos hx, Cursor.length_cons_sub_one, ih]
    · rw [if_neg fun h => hx h.2, if_neg hx]
      rfl

lemma srSLMGParseInt32_append (text beyond : Bytes) :
    srSLMGParseInt32 ⟨text ++ beyond, text.length⟩ =
      .ok (digits 0 text).1 ⟨(digits 0 text).2 ++ beyond, (digits 0 text).2.length⟩ :=
  parseDigits_append 0 text beyond

/-- The number of which `i` are the first digits and `w` the others. -/
def valueFrom (i : ℕ) (w : Bytes) : ℕ := w.foldl (fun i x => i * 10 + (x.toNat - 48)) i

/-- What `digits` takes from the text. -/
lemma exists_digits_append (text : Bytes) :
    ∃ w, text = w ++ (digits i text).2 ∧ (∀ x ∈ w, isDigit x = true) ∧
      (digits i text).1 = valueFrom i w := by
  induction text generalizing i with
  | nil => exact ⟨[], rfl, fun _ hx => absurd hx not_mem_nil, rfl⟩
  | cons x text ih =>
    rw [digits]
    split
    case isTrue hx =>
      obtain ⟨w, htext, hw, hval⟩ := ih (i * 10 + (x.toNat - 48))
      exact ⟨x :: w, congrArg (x :: ·) htext, forall_mem_cons.mpr ⟨hx.1, hw⟩, hval⟩
    case isFalse => exact ⟨[], rfl, fun _ hx => absurd hx not_mem_nil, rfl⟩

lemma valueFrom_cons (x : UInt8) (w : Bytes) :
    valueFrom i (x :: w) = valueFrom (i * 10 + (x.toNat - 48)) w := by
  rw [valueFrom, valueFrom, foldl_cons]

lemma valueFrom_eq (w : Bytes) : valueFrom i w = i * 10 ^ w.length + valueFrom 0 w := by
  induction w generalizing i with
  | nil => simp [valueFrom]
  | cons x w ih =>
    rw [valueFrom_cons, valueFrom_cons, ih, ih (0 * 10 + _), length_cons]
    ring

lemma valueFrom_lt {w : Bytes} (hw : ∀ x ∈ w, isDigit x = true) :
    valueFrom 0 w < 10 ^ w.length := by
  induction w with
  | nil => simp [valueFrom]
  | cons x w ih =>
    rw [forall_mem_cons] at hw
    have hd := Nat.mul_le_mul_right (10 ^ w.length) (digit_le_nine hw.1)
    have hrest := ih hw.2
    rw [valueFrom_cons, valueFrom_eq, length_cons, pow_succ, Nat.zero_mul, Nat.zero_add]
    omega

/-- Text without a NUL can be left out. -/
lemma Passes.append {M : Bytes → Prop} (hM : Passes 0 M) {w mem : Bytes}
    (hw : 0 ∉ w) (h : M (w ++ mem)) : M mem := by
  induction w with
  | nil => exact h
  | cons x w ih =>
    rw [mem_cons, not_or] at hw
    exact ih hw.2 (hM x _ (Ne.symm hw.1) h)

section Follows

variable {M : Bytes → Prop} (hM : Passes 0 M)

include hM

lemma keeps_digits (i : ℕ) (text : Bytes) :
    ∃ w, text = w ++ (digits i text).2 ∧
      ∀ beyond, M (text ++ beyond) → M ((digits i text).2 ++ beyond) := by
  obtain ⟨w, htext, hw, -⟩ := exists_digits_append i text
  refine ⟨w, htext, fun beyond hmem => ?_⟩
  have hzero : 0 ∉ w := fun h0 => ne_zero_of_isDigit (hw 0 h0) rfl
  rw [htext, append_assoc] at hmem
  exact Passes.append hM hzero hmem

lemma follows_number : Follows M M srSLMGParseInt32 number := by
  intro text
  obtain ⟨w, htext, hkeeps⟩ := keeps_digits hM 0 text
  exact runs_some htext fun beyond hmem => ⟨srSLMGParseInt32_append text beyond, hkeeps beyond hmem⟩

lemma follows_fraction : Follows M M secfracPart fraction := by
  refine Follows.whenNext hM (by decide) (fun text => ?_) (Follows.pure _)
  obtain ⟨w, htext, hkeeps⟩ := keeps_digits hM 0 text
  refine runs_some htext fun beyond hmem => ⟨?_, hkeeps beyond hmem⟩
  have hlens : (text ++ beyond).length - ((digits 0 text).2 ++ beyond).length =
      text.length - (digits 0 text).2.length := by
    rw [length_append, length_append]
    omega
  rw [get_bind]
  rw [bind_eq_of_ok (srSLMGParseInt32_append text beyond), get_bind]
  dsimp only
  rw [hlens]
  rfl

lemma follows_offset : Follows M M offsetPart offset := by
  intro text
  refine Runs.remaining ?_
  cases text with
  | nil => exact runs_require_not (fun h => h rfl)
  | cons mode text =>
    refine Runs.require (by rw [length_cons]; omega) (Runs.peek ?_)
    rw [offset]
    by_cases hZ : mode = 90
    · subst hZ
      rw [if_pos rfl]
      exact Runs.require (.inl rfl) (Runs.next hM (by decide) (Follows.pure _ text))
    · simp only [if_neg hZ]
      by_cases hsign : mode = 43 ∨ mode = 45
      · have hmode : mode ≠ 0 := by rcases hsign with rfl | rfl <;> decide
        rw [if_pos hsign]
        refine Runs.require (.inr hsign) (Runs.next hM hmode ?_)
        have hint := follows_number hM
        refine hint.bind (fun _ => (Follows.require _).bind fun _ => ?_) text
        refine (Follows.expect hM (by decide)).bind fun _ => hint.bind fun _ => ?_
        exact (Follows.require _).bind fun _ => Follows.pure _
      · rw [if_neg hsign]
        exact runs_require_not (not_or.mpr ⟨hZ, hsign⟩)

lemma follows_ends : Follows M M endOfTimestamp ends := by
  intro text
  refine Runs.remaining ?_
  cases text with
  | nil => exact Follows.pure () []
  | cons x text =>
    rw [if_pos (by rw [length_cons]; omega)]
    exact Follows.expect hM (by decide) (x :: text)

/-- **RFC 3339.** The parser follows the format. -/
lemma follows_timestamp3339 (pTime : SyslogTime) :
    Follows M M (ParseTIMESTAMP3339 pTime) (timestamp3339 pTime) := by
  have hint := follows_number hM
  refine hint.bind fun _ => (Follows.expect hM (by decide)).bind fun _ => ?_
  refine (Follows.require _).bind fun _ => hint.bind fun _ => (Follows.require _).bind fun _ => ?_
  refine (Follows.expect hM (by decide)).bind fun _ => hint.bind fun _ => ?_
  refine (Follows.require _).bind fun _ => (Follows.expect hM (by decide)).bind fun _ => ?_
  refine hint.bind fun _ => (Follows.require _).bind fun _ => ?_
  refine (Follows.expect hM (by decide)).bind fun _ => hint.bind fun _ => ?_
  refine (Follows.require _).bind fun _ => (Follows.expect hM (by decide)).bind fun _ => ?_
  refine hint.bind fun _ => (Follows.require _).bind fun _ => ?_
  refine (follows_fraction hM).bind fun _ => (follows_offset hM).bind fun _ => ?_
  exact (follows_ends hM).bind fun _ => Follows.pure _

lemma follows_yearAndHour (year : ℕ) :
    Follows M M (Datetime.yearAndHour year) (yearAndHour year) := by
  refine (follows_number hM).bind fun _ => Follows.ite ?_ (Follows.pure _)
  refine (Follows.expect hM (by decide)).bind fun _ => ?_
  exact (follows_number hM).bind fun _ => Follows.pure _

end Follows

/-! ### Time zones and years behind the time -/

lemma tzstringLoop_append (tz text beyond : Bytes) :
    let w := (text.takeWhile fun x => x ≠ 58 ∧ x ≠ 32).take (15 - tz.length)
    tzstringLoop tz (text ++ beyond) text.length =
      .ok (tz ++ w) ⟨text.drop w.length ++ beyond, (text.drop w.length).length⟩ := by
  induction text generalizing tz with
  | nil =>
    cases beyond <;> simp [tzstringLoop]
  | cons x text ih =>
    have hlen : (0 : ℤ) < (x :: text).length := by
      rw [length_cons]
      omega
    dsimp only
    rw [cons_append, tzstringLoop, take_takeWhile_cons]
    by_cases hx : tz.length < 15 ∧ x ≠ 58 ∧ x ≠ 32
    · have hroom : 15 - tz.length - 1 = 15 - (tz ++ [x]).length := by
        rw [length_append, length_singleton]
        omega
      rw [if_pos ⟨hlen, hx⟩, if_pos ⟨decide_eq_true hx.2, Nat.sub_pos_of_lt hx.1⟩,
        Cursor.length_cons_sub_one, ih, hroom, append_assoc, singleton_append, length_cons,
        drop_succ_cons]
    · rw [if_neg fun h => hx h.2,
        if_neg fun h => hx ⟨Nat.lt_of_sub_pos h.2, of_decide_eq_true h.1⟩, append_nil]
      rfl

lemma yearDigits_append {n y : ℕ} {mem : Bytes} (h : n ≤ mem.length) (beyond : Bytes) :
    yearDigits n y (mem ++ beyond) = yearDigits n y mem := by
  induction n generalizing y mem with
  | zero => rw [yearDigits, yearDigits]
  | succ n ih =>
    cases mem with
    | nil => exact absurd h (by simp)
    | cons x mem =>
      rw [cons_append, yearDigits, yearDigits, ih (Nat.le_of_succ_le_succ h)]

variable {text : Bytes}

lemma yearBehind_append (h : 5 < text.length) (beyond : Bytes) (len : ℤ) :
    yearBehind (text ++ beyond) len = yearBehind text len := by
  rw [yearBehind, yearBehind, drop_append_of_le_length (by omega),
    yearDigits_append (by rw [length_drop]; omega), getElem?_append_left h]

section Follows

variable {M : Bytes → Prop} (hM : Passes 0 M)

include hM

/-- A time zone may have a NUL in it. -/
lemma follows_timezone (glblFindTimezone : Bytes → Option TzInfo) (bParseTZ : Bool) :
    Follows M (fun mem => bParseTZ = false → M mem) (tzPart glblFindTimezone bParseTZ)
      (timezone glblFindTimezone bParseTZ) := by
  intro text
  refine Runs.remaining ?_
  rw [timezone]
  by_cases htz : bParseTZ = true ∧ 2 < text.length
  · rw [if_pos htz, if_pos ⟨htz.1, by omega⟩]
    refine Follows.whenNext hM (by decide) (fun text => ?_)
      ((Follows.pure _).mono fun _ hmem _ => hmem) text
    refine runs_some (take_append_drop _ text).symm fun beyond _ =>
      ⟨?_, fun hoff => absurd (htz.1.symm.trans hoff) (by decide)⟩
    exact bind_eq_of_ok (tzstringLoop_append [] text beyond)
  · rw [if_neg htz, if_neg fun h => htz ⟨h.1, by omega⟩]
    exact (Follows.pure _).mono (fun _ hmem _ => hmem) text

lemma follows_yearAfterTime (bDetectYearAfterTime : Bool) (year : ℕ) :
    Follows M M (Datetime.yearAfterTime bDetectYearAfterTime year)
      (yearAfterTime bDetectYearAfterTime year) := by
  intro text
  refine Runs.remaining ?_
  rw [yearAfterTime]
  by_cases hyear : bDetectYearAfterTime = true ∧ year = 0 ∧ 5 < text.length
  · obtain ⟨hdetect, hzero, hlen⟩ := hyear
    rw [if_pos ⟨hdetect, hzero, by omega⟩]
    obtain ⟨x, text', rfl⟩ := exists_cons_of_length_pos (Nat.lt_of_le_of_lt (by omega) hlen)
    refine Runs.peek ?_
    by_cases hx : x = 32
    · subst hx
      rw [if_pos rfl, if_pos ⟨hdetect, hzero, hlen, rfl⟩]
      obtain ⟨y, hy⟩ := yearBehind_isSome (Int.le_refl _) (Int.ofNat_lt.mpr hlen)
      have htake (beyond : Bytes) :
          takeYear year ⟨32 :: text' ++ beyond, (32 :: text').length⟩ =
            if 2000 ≤ y ∧ y < 2100 then
              .ok y ⟨(32 :: text' ++ beyond).drop 5, (32 :: text').length - 5⟩
            else .ok year ⟨32 :: text' ++ beyond, (32 :: text').length⟩ := by
        rw [takeYear]
        dsimp only
        rw [yearBehind_append hlen, hy]
      rw [hy]
      dsimp only
      by_cases hrange : 2000 ≤ y ∧ y < 2100
      · rw [if_pos hrange]
        have hdigits := isDigit_of_yearBehind hy hrange.1
        have hzero : 0 ∉ (32 :: text').take 5 := not_mem_cons_of_ne_of_not_mem (by decide)
          fun h0 => ne_zero_of_isDigit (hdigits 0 h0) rfl
        refine runs_some (take_append_drop 5 _).symm fun beyond hmem => ⟨?_, ?_⟩
        · rw [htake, if_pos hrange, drop_append_of_le_length hlen.le, length_drop,
            Int.ofNat_sub hlen.le]
          rfl
        · rw [← take_append_drop 5 (32 :: text'), append_assoc] at hmem
          exact Passes.append hM hzero hmem
      · rw [if_neg hrange]
        refine runs_some (nil_append _).symm fun beyond hmem => ⟨?_, hmem⟩
        rw [htake, if_neg hrange]
    · rw [if_neg hx, if_neg fun h => hx (Option.some.inj h.2.2.2)]
      exact Follows.pure _ _
  · rw [if_neg fun h => hyear ⟨h.1, h.2.1, by omega⟩, if_neg fun h => hyear ⟨h.1, h.2.1, h.2.2.1⟩]
    exact Follows.pure _ text

end Follows

/-! ### The name of a month -/

/-- The step goes over the `n` octets that the reader takes and leaves the counter. On `n` octets or
more, or before a NUL, it gives up if the reader does. -/
def Looks (n : ℕ) (p : Step UInt8 β) (f : Reader UInt8 β) : Prop :=
  ∀ text beyond len,
    match f text with
    | some (b, rest) => p ⟨text ++ beyond, len⟩ = .ok b ⟨rest ++ beyond, len⟩ ∧
        ∃ w, text = w ++ rest ∧ w.length = n ∧ 0 ∉ w
    | none => n ≤ text.length ∨ 0 ∈ text → ∃ c, p ⟨text ++ beyond, len⟩ = .error .reject c

lemma looks_pure (b : β) : Looks 0 (pure b) (pure b) :=
  fun text _ _ => ⟨rfl, [], (nil_append text).symm, rfl, not_mem_nil⟩

/-- Each branch of the step looks as that of the reader does, and no letter is a NUL. -/
def Branches (n : ℕ) (ps : List (UInt8 × Step UInt8 β)) (fs : List (UInt8 × Reader UInt8 β)) :
    Prop :=
  List.Forall₂ (fun p f => p.1 = f.1 ∧ (f.1 ≠ 0 ∧ f.1 - 32 ≠ 0) ∧ Looks n p.2 f.2) ps fs

lemma looks_oneOf {n : ℕ} {ps : List (UInt8 × Step UInt8 β)} {fs : List (UInt8 × Reader UInt8 β)}
    (h : Branches n ps fs) : Looks (n + 1) (Datetime.oneOf ps) (oneOf fs) := by
  intro text beyond len
  cases text with
  | nil => exact fun hlen => absurd hlen (by simp)
  | cons x text =>
    rw [oneOf, cons_append, Datetime.oneOf]
    dsimp only
    induction h with
    | nil => exact fun _ => ⟨_, rfl⟩
    | @cons p f _ _ hpf _ ih =>
      obtain ⟨hletter, hne, hlooks⟩ := hpf
      rw [find?_cons, find?_cons, hletter]
      by_cases hx : x = f.1 ∨ x = f.1 - 32
      · have hx0 : 0 ≠ x := by
          rintro rfl
          exact hx.elim (fun h => hne.1 h.symm) fun h => hne.2 h.symm
        have hlooks := hlooks text beyond len
        rw [decide_eq_true hx]
        dsimp only
        cases hf : f.2 text with
        | some r =>
          rw [hf] at hlooks
          obtain ⟨hrun, w, rfl, hn, hw⟩ := hlooks
          exact ⟨hrun, x :: w, rfl, congrArg (· + 1) hn, not_mem_cons_of_ne_of_not_mem hx0 hw⟩
        | none =>
          rw [hf] at hlooks
          refine fun hmem => hlooks (hmem.imp Nat.le_of_succ_le_succ fun h0 => ?_)
          exact (mem_cons.mp h0).resolve_left hx0
      · rw [decide_eq_false hx]
        exact ih

lemma looks_month : Looks 3 monthName month := by
  have hbranch {n : ℕ} {l : UInt8} {p : Step UInt8 ℕ} {f : Reader UInt8 ℕ}
      {ps : List (UInt8 × Step UInt8 ℕ)} {fs : List (UInt8 × Reader UInt8 ℕ)}
      (hl : l ≠ 0 ∧ l - 32 ≠ 0) (hp : Looks n p f) (h : Branches n ps fs) :
      Branches n ((l, p) :: ps) ((l, f) :: fs) :=
    List.Forall₂.cons ⟨rfl, hl, hp⟩ h
  unfold monthName month letters
  repeat' first
    | exact looks_pure _
    | exact List.Forall₂.nil
    | refine looks_oneOf ?_
    | refine hbranch (by decide) ?_ ?_

lemma month_eq_none (h : text.length < 3) : month text = none := by
  cases hmonth : month text with
  | none => rfl
  | some r =>
    have hlooks := looks_month text [] 0
    rw [hmonth] at hlooks
    obtain ⟨-, w, rfl, hthree, -⟩ := hlooks
    rw [length_append] at h
    omega

lemma runs_month {M : Bytes → Prop} (hM : Passes 0 M) {text : Bytes}
    (h : 3 ≤ text.length) : Runs M M Datetime.month text (month text) := by
  have hlooks (beyond : Bytes) := looks_month text beyond text.length
  cases hmonth : month text with
  | none =>
    refine runs_none fun beyond _ => ?_
    have hend := hlooks beyond
    rw [hmonth] at hend
    obtain ⟨c, hc⟩ := hend (.inl h)
    exact ⟨c, bind_eq_of_error hc⟩
  | some r =>
    obtain ⟨m, rest⟩ := r
    simp only [hmonth] at hlooks
    obtain ⟨-, w, htext, hthree, hzero⟩ := hlooks []
    refine runs_some htext fun beyond hmem => ⟨?_, ?_⟩
    · rw [Datetime.month, bind_eq_of_ok (hlooks beyond).1]
      have hlen : (text.length : ℤ) - 3 = rest.length := by
        rw [htext, length_append]
        omega
      rw [← hlen]
      rfl
    · rw [htext, append_assoc] at hmem
      exact Passes.append hM hzero hmem

end Format

end Rsyslog.Datetime
