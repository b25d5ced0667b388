import Rsyslog.Datetime.Format

/-!
# Writing timestamps

`formatTimestamp3339` of `datetime.c`, and what comes back when its text is parsed again. Everything
but the fraction does. The parser takes fractions of any number of digits, while the formatter has
a table for six of them: for more, it takes the index modulo six.
-/

namespace Rsyslog.Datetime

open Lib Lib.Step Obj List Format Reader Int8

/-! ## The formatter -/

def place (n p : ℤ) : UInt8 := UInt8.ofInt ((n.tdiv p).tmod 10 + 48)

/-- The loop over the fraction, with `n` digits to go, when `power` is `10 ^ (n - 1)`. The `digit`
is a `short`. There is no result if the `int` overflows. -/
def secfracLoop : ℕ → ℤ → Option Bytes
  | 0, _ => some []
  | n + 1, secfrac => do
    let digit := (Int16.ofInt (secfrac.tdiv (10 ^ n))).toInt
    let secfrac := secfrac - digit * 10 ^ n
    if -2147483648 ≤ secfrac ∧ secfrac ≤ 2147483647 then do
      let pBuf ← secfracLoop n secfrac
      pure (UInt8.ofInt (digit + 48) :: pBuf)
    else none

/-- The fraction, whose power is looked up at `(secfracPrecision - 1) % 6`. -/
def formatSecfrac (ts : SyslogTime) : Option Bytes :=
  if 0 < ts.secfracPrecision.toInt then do
    let pBuf ← secfracLoop (((ts.secfracPrecision.toInt - 1) % 6).toNat + 1) ts.secfrac.toInt
    pure (46 :: pBuf)
  else some []

def formatOffset (ts : SyslogTime) : Bytes :=
  if ts.offsetMode = 90 then [90]
  else
    [ts.offsetMode, place ts.offsetHour.toInt 10, place ts.offsetHour.toInt 1, 58,
      place ts.offsetMinute.toInt 10, place ts.offsetMinute.toInt 1]

def formatTimestamp3339 (ts : SyslogTime) : Option Bytes := do
  let secfrac ← formatSecfrac ts
  pure ([
    place ts.year.toInt 1000, place ts.year.toInt 100, place ts.year.toInt 10,
    place ts.year.toInt 1, 45,
    place ts.month.toInt 10, place ts.month.toInt 1, 45,
    place ts.day.toInt 10, place ts.day.toInt 1, 84,
    place ts.hour.toInt 10, place ts.hour.toInt 1, 58,
    place ts.minute.toInt 10, place ts.minute.toInt 1, 58,
    place ts.second.toInt 10, place ts.second.toInt 1] ++ secfrac ++ formatOffset ts)

def SameTime (t t' : SyslogTime) : Prop :=
  t.year = t'.year ∧ t.month = t'.month ∧ t.day = t'.day ∧ t.hour = t'.hour ∧
    t.minute = t'.minute ∧ t.second = t'.second ∧ t.secfrac = t'.secfrac ∧
    t.secfracPrecision = t'.secfracPrecision ∧ t.offsetMode = t'.offsetMode ∧
    t.offsetHour = t'.offsetHour ∧ t.offsetMinute = t'.offsetMinute

def RoundTrips (pTime t : SyslogTime) : Prop :=
  ∃ pBuf t' c, formatTimestamp3339 t = some pBuf ∧
    ParseTIMESTAMP3339 pTime (.terminated 0 pBuf) = .ok t' c ∧ SameTime t t'

/-- The digits of the fraction in the text of a timestamp: what is behind a point in the time, which
starts with `T` and ends before the offset. -/
def fractionDigits (text : Bytes) : Bytes :=
  (((text.dropWhile (· ≠ 84)).takeWhile fun x => x ≠ 90 ∧ x ≠ 43 ∧ x ≠ 45).dropWhile
    (· ≠ 46)).drop 1

/-- There are at most six digits. The number of digits wraps around at 256, so there may be as many
more zeros in front of them. -/
def FractionKept (w : Bytes) : Prop :=
  w.length % 256 ≤ 6 ∧ ∀ x ∈ w.take (w.length - w.length % 256), x = 48
deriving Decidable

/-! ## Reading numerals -/

variable {rest : Bytes} {k : ℕ}

namespace Format

lemma digits_of_not_isDigit {i : ℕ} (h : rest.head?.any isDigit = false) :
    digits i rest = (i, rest) := by
  cases rest with
  | nil => rfl
  | cons x rest =>
    rw [head?_cons, Option.any_some] at h
    rw [digits, if_neg]
    rw [h]
    exact fun hx => absurd hx.1 Bool.false_ne_true

lemma digits_numeral {i n : ℕ} (h : i * 10 ^ k + n % 10 ^ k < INT_MAX / 10 - 1) (rest : Bytes) :
    digits i (numeral k n ++ rest) = digits (i * 10 ^ k + n % 10 ^ k) rest := by
  induction k generalizing i with
  | zero => simp [numeral, Nat.mod_one]
  | succ k ih =>
    have hd : n / 10 ^ k % 10 < 10 := Nat.mod_lt _ (by decide)
    have hval : i * 10 ^ (k + 1) + n % 10 ^ (k + 1) =
        (i * 10 + n / 10 ^ k % 10) * 10 ^ k + n % 10 ^ k := by
      rw [Nat.mod_pow_succ]
      ring
    have hi : i < INT_MAX / 10 - 1 :=
      lt_of_le_of_lt (le_trans (Nat.le_mul_of_pos_right i (Nat.pow_pos (by decide)))
        (Nat.le_add_right _ _)) h
    rw [numeral, cons_append, digits, if_pos ⟨isDigit_digit hd, hi⟩, toNat_digit hd,
      Nat.add_sub_cancel_left, ih (by rwa [← hval]), ← hval]

lemma number_numeral {n : ℕ} (hk : k ≤ 6) (hn : n < 10 ^ k)
    (hrest : rest.head?.any isDigit = false) : number (numeral k n ++ rest) = some (n, rest) := by
  have hval : 0 * 10 ^ k + n % 10 ^ k = n := by rw [Nat.zero_mul, Nat.zero_add, Nat.mod_eq_of_lt hn]
  have hlim : n < INT_MAX / 10 - 1 :=
    lt_trans (lt_of_lt_of_le hn (Nat.pow_le_pow_right (by decide) hk)) (by decide)
  rw [number, digits_numeral (by rwa [hval]), hval, digits_of_not_isDigit hrest]

end Format

/-! ## Writing numerals -/

lemma ofInt_digit {d : ℕ} (hd : d < 10) : UInt8.ofInt (d + 48) = digit d := by
  interval_cases d <;> rfl

lemma place_eq_digit (n k : ℕ) : place n (10 ^ k) = digit (n / 10 ^ k % 10) := by
  have hval : ((n : ℤ).tdiv (10 ^ k)).tmod 10 = (n / 10 ^ k % 10 : ℕ) := by
    rfl
  rw [place, hval, ofInt_digit (Nat.mod_lt _ (by decide))]

lemma twoDigits_eq (n : ℕ) : [place n 10, place n 1] = numeral 2 n :=
  congrArg₂ (fun x y => [x, y]) (place_eq_digit n 1) (place_eq_digit n 0)

lemma fourDigits_eq (n : ℕ) : [place n 1000, place n 100, place n 10, place n 1] = numeral 4 n := by
  rw [numeral, numeral, ← twoDigits_eq, ← place_eq_digit, ← place_eq_digit]
  rfl

lemma secfracLoop_eq (hk : k ≤ 6) (n : ℕ) :
    secfracLoop k (n % 10 ^ k : ℕ) = some (numeral k n) := by
  induction k with
  | zero => rfl
  | succ k ih =>
    have hd : n / 10 ^ k % 10 < 10 := Nat.mod_lt _ (by decide)
    have hdiv : ((n % 10 ^ (k + 1) : ℕ) : ℤ).tdiv (10 ^ k) = (n / 10 ^ k % 10 : ℕ) := by
      rw [← Nat.mod_mul_right_div_self, Int.ofNat_tdiv]
      rfl
    have hrest : ((n % 10 ^ (k + 1) : ℕ) : ℤ) - (n / 10 ^ k % 10 : ℕ) * 10 ^ k =
        (n % 10 ^ k : ℕ) := by
      rw [Nat.mod_pow_succ]
      push_cast
      ring
    have hpow : 10 ^ k ≤ 10 ^ 6 := Nat.pow_le_pow_right (by decide) (by omega)
    have hshort : (Int16.ofInt (n / 10 ^ k % 10 : ℕ)).toInt = (n / 10 ^ k % 10 : ℕ) :=
      Int16.toInt_ofInt_of_le (by omega) (by omega)
    rw [secfracLoop, hdiv, hshort, hrest, if_pos (by omega), ih (by omega), ofInt_digit hd]
    rfl

lemma length_of_secfracLoop {secfrac : ℤ} {pBuf : Bytes}
    (h : secfracLoop k secfrac = some pBuf) : pBuf.length = k := by
  induction k generalizing secfrac pBuf with
  | zero =>
    obtain rfl := Option.some.inj h
    rfl
  | succ k ih =>
    rw [secfracLoop] at h
    split at h
    case isTrue =>
      obtain ⟨pBuf', hrec, hpBuf⟩ := Option.bind_eq_some_iff.mp h
      obtain rfl := Option.some.inj hpBuf
      rw [length_cons, ih hrec]
    case isFalse => exact nomatch h

/-! ## What is accepted -/

structure Stamp where
  year : ℕ
  month : ℕ
  day : ℕ
  hour : ℕ
  minute : ℕ
  second : ℕ
  year_lt : year < 2100
  month_mem : 1 ≤ month ∧ month ≤ 12
  day_mem : 1 ≤ day ∧ day ≤ 31
  hour_le : hour ≤ 23
  minute_le : minute ≤ 59
  second_le : second ≤ 60

structure Offset where
  mode : UInt8
  hour : ℕ
  minute : ℕ
  valid : mode = 90 ∧ hour = 0 ∧ minute = 0 ∨ (mode = 43 ∨ mode = 45) ∧ hour ≤ 23 ∧ minute ≤ 59

namespace Stamp

def time (s : Stamp) (pTime : SyslogTime) (secfrac : ℕ × ℕ) (offset : UInt8 × ℕ × ℕ) : SyslogTime :=
  set3339 pTime s.year s.month s.day s.hour s.minute s.second secfrac offset

def text (s : Stamp) (rest : Bytes) : Bytes :=
  numeral 4 s.year ++ 45 :: (numeral 2 s.month ++ 45 :: (numeral 2 s.day ++ 84 ::
    (numeral 2 s.hour ++ 58 :: (numeral 2 s.minute ++ 58 :: (numeral 2 s.second ++ rest)))))

lemma two_digits (s : Stamp) : s.month < 10 ^ 2 ∧ s.day < 10 ^ 2 ∧ s.hour < 10 ^ 2 ∧
    s.minute < 10 ^ 2 ∧ s.second < 10 ^ 2 := by
  obtain ⟨_, _, _, _, _, _, _, hmonth, hday, hhour, hminute, hsecond⟩ := s
  dsimp only
  omega

end Stamp

variable (s : Stamp) (pTime : SyslogTime) (secfrac : ℕ × ℕ)

def Offset.text (o : Offset) : Bytes :=
  if o.mode = 90 then [90] else o.mode :: (numeral 2 o.hour ++ 58 :: numeral 2 o.minute)

variable (o : Offset)

def Format.tail3339 (s : Stamp) (pTime : SyslogTime) : Reader UInt8 SyslogTime := do
  let secfrac ← Format.fraction
  let offset ← Format.offset
  Format.ends
  pure (s.time pTime secfrac offset)

lemma Format.timestamp3339_text (hrest : rest.head?.any isDigit = false) :
    timestamp3339 pTime (s.text rest) = tail3339 s pTime rest := by
  have hyear : s.year < 10 ^ 4 := lt_trans s.year_lt (by decide)
  obtain ⟨hmonth, hday, hhour, hminute, hsecond⟩ := s.two_digits
  rw [timestamp3339, Stamp.text,
    bind_eq_of_some (number_numeral (by decide) hyear rfl), expect_bind,
    require_bind s.year_lt,
    bind_eq_of_some (number_numeral (by decide) hmonth rfl),
    require_bind s.month_mem, expect_bind,
    bind_eq_of_some (number_numeral (by decide) hday rfl),
    require_bind s.day_mem, expect_bind,
    bind_eq_of_some (number_numeral (by decide) hhour rfl),
    require_bind s.hour_le, expect_bind,
    bind_eq_of_some (number_numeral (by decide) hminute rfl),
    require_bind s.minute_le, expect_bind,
    bind_eq_of_some (number_numeral (by decide) hsecond hrest),
    require_bind s.second_le]
  rfl

variable {text : Bytes}

namespace Offset

def fields (o : Offset) : UInt8 × ℕ × ℕ := (o.mode, o.hour, o.minute)

lemma exists_text_eq_cons :
    ∃ rest, o.text = o.mode :: rest ∧ (o.mode = 90 ∨ o.mode = 43 ∨ o.mode = 45) := by
  rcases o.valid with ⟨hmode, -⟩ | ⟨hmode, -⟩
  · exact ⟨[], by rw [text, if_pos hmode, hmode], .inl hmode⟩
  · have hne : o.mode ≠ 90 := by rcases hmode with hmode | hmode <;> rw [hmode] <;> decide
    exact ⟨_, by rw [text, if_neg hne], .inr hmode⟩

lemma head_text : o.text.head?.any isDigit = false := by
  obtain ⟨rest, htext, hmode⟩ := o.exists_text_eq_cons
  rw [htext, head?_cons]
  rcases hmode with hmode | hmode | hmode <;> rw [hmode] <;> rfl

lemma read_text : Format.offset o.text = some (o.fields, []) := by
  rcases o.valid with ⟨hmode, hhour, hminute⟩ | ⟨hmode, hhour, hminute⟩
  · rw [text, fields, hmode, hhour, hminute]
    rfl
  · have hne : o.mode ≠ 90 := by rcases hmode with hmode | hmode <;> rw [hmode] <;> decide
    have hhour' : o.hour < 10 ^ 2 := lt_of_le_of_lt hhour (by decide)
    have hminute' : o.minute < 10 ^ 2 := lt_of_le_of_lt hminute (by decide)
    have hnumber : Format.number (numeral 2 o.minute ++ []) = some (o.minute, []) :=
      Format.number_numeral (by decide) hminute' rfl
    rw [append_nil] at hnumber
    rw [text, if_neg hne, Format.offset, if_neg hne, if_pos hmode,
      Reader.bind_eq_of_some (Format.number_numeral (by decide) hhour' rfl),
      Reader.require_bind hhour, Reader.expect_bind, Reader.bind_eq_of_some hnumber,
      Reader.require_bind hminute]
    rfl

lemma of_read {r : UInt8 × ℕ × ℕ} (h : Format.offset text = some (r, rest)) :
    ∃ o : Offset, r = o.fields ∧ ∃ text', text = o.mode :: text' := by
  cases text with
  | nil => cases h
  | cons mode text =>
    rw [Format.offset] at h
    by_cases hZ : mode = 90
    · rw [if_pos hZ] at h
      obtain ⟨rfl, -⟩ := Prod.mk.inj (Option.some.inj h)
      exact ⟨⟨90, 0, 0, .inl ⟨rfl, rfl, rfl⟩⟩, rfl, text, by rw [hZ]⟩
    · rw [if_neg hZ] at h
      by_cases hmode : mode = 43 ∨ mode = 45
      · rw [if_pos hmode] at h
        simp only [Reader.bind_eq_some_iff, Reader.require_eq_some_iff,
          Reader.pure_eq_some_iff] at h
        obtain ⟨hour, _, -, _, _, ⟨hhour, -⟩, _, _, -, minute, _, -, _, _, ⟨hminute, -⟩, rfl, -⟩ :=
          h
        exact ⟨⟨mode, hour, minute, .inr ⟨hmode, hhour, hminute⟩⟩, rfl, text, rfl⟩
      · rw [if_neg hmode] at h
        cases h

end Offset

/-! ## What is written -/

lemma formatOffset_time : formatOffset (s.time pTime secfrac o.fields) = o.text := by
  have hsmall : o.hour ≤ 23 ∧ o.minute ≤ 59 := by
    rcases o.valid with ⟨-, hhour, hminute⟩ | ⟨-, hhour, hminute⟩ <;> omega
  have hhour : (ofInt o.hour).toInt = o.hour :=
    toInt_ofInt_of_le (by omega) (by omega)
  have hminute : (ofInt o.minute).toInt = o.minute :=
    toInt_ofInt_of_le (by omega) (by omega)
  rw [Offset.text, ← twoDigits_eq, ← twoDigits_eq, ← hhour, ← hminute]
  rfl

lemma formatTimestamp3339_time :
    formatTimestamp3339 (s.time pTime secfrac o.fields) =
      (formatSecfrac (s.time pTime secfrac o.fields)).map fun w => s.text (w ++ o.text) := by
  have hyear : (Int16.ofInt s.year).toInt = s.year :=
    Int16.toInt_ofInt_of_le (le_trans (by decide) (Int.natCast_nonneg s.year))
      (lt_trans (Int.ofNat_lt.mpr s.year_lt) (by decide))
  have hsmall {n : ℕ} (hn : n < 10 ^ 2) : (ofInt n).toInt = n :=
    toInt_ofInt_of_le (by omega) (by omega)
  obtain ⟨hmonth, hday, hhour, hminute, hsecond⟩ := s.two_digits
  rw [formatTimestamp3339, formatOffset_time]
  cases formatSecfrac (s.time pTime secfrac o.fields) with
  | none => rfl
  | some w =>
    rw [Option.map_some, Stamp.text, ← fourDigits_eq, ← twoDigits_eq, ← twoDigits_eq,
      ← twoDigits_eq, ← twoDigits_eq, ← twoDigits_eq, ← hyear, ← hsmall hmonth, ← hsmall hday,
      ← hsmall hhour, ← hsmall hminute, ← hsmall hsecond]
    rfl

/-! ## Fractions -/

variable {w : Bytes} {t pTime : SyslogTime}

namespace Format

lemma digits_le {i : ℕ} (hi : i ≤ INT_MAX) (text : Bytes) : (digits i text).1 ≤ INT_MAX := by
  induction text generalizing i with
  | nil => exact hi
  | cons x text ih =>
    rw [digits]
    split
    case isTrue hx =>
      have hd := digit_le_nine hx.1
      refine ih ?_
      have hlt := hx.2
      omega
    case isFalse => exact hi

lemma fraction_eq_some {r : ℕ × ℕ} (h : fraction text = some (r, rest)) :
    ∃ w, (∀ x ∈ w, isDigit x = true) ∧ (text = 46 :: w ++ rest ∨ w = [] ∧ text = rest) ∧
      r = (valueFrom 0 w, w.length) ∧ r.1 ≤ INT_MAX ∧ r.1 < 10 ^ r.2 := by
  by_cases hx : ∃ text', text = 46 :: text'
  · obtain ⟨text, rfl⟩ := hx
    obtain ⟨rfl, rfl⟩ := Prod.mk.inj (Option.some.inj h)
    obtain ⟨w, htext, hw, hval⟩ := exists_digits_append 0 text
    have hlen : text.length - (digits 0 text).2.length = w.length := by
      have hlens := congrArg List.length htext
      rw [length_append] at hlens
      omega
    refine ⟨w, hw, .inl ?_, Prod.ext hval hlen, digits_le (Nat.zero_le _) text, ?_⟩
    · rw [cons_append, ← htext]
    · rw [hlen, hval]
      exact valueFrom_lt hw
  · have hnone : fraction text = some ((0, 0), text) := by
      cases text with
      | nil => rfl
      | cons x text => exact if_neg fun heq => hx ⟨text, by rw [heq]⟩
    obtain ⟨rfl, rfl⟩ := Prod.mk.inj (Option.some.inj (hnone.symm.trans h))
    exact ⟨[], fun _ hx => absurd hx not_mem_nil, .inr ⟨rfl, rfl⟩, rfl, by decide, by decide⟩

lemma number_eq_some {n : ℕ} (h : number text = some (n, rest)) :
    ∃ w, text = w ++ rest ∧ ∀ x ∈ w, isDigit x = true := by
  obtain ⟨w, htext, hw, -⟩ := exists_digits_append 0 text
  have hdigits : digits 0 text = (n, rest) := Option.some.inj h
  rw [hdigits] at htext
  exact ⟨w, htext, hw⟩

lemma fractionDigits_eq {date time fraction : Bytes} {o : Offset}
    (hdate : ∀ x ∈ date, isDigit x = true ∨ x = 45) (htime : ∀ x ∈ time, isDigit x = true ∨ x = 58)
    (hw : ∀ x ∈ w, isDigit x = true) (hfraction : fraction = 46 :: w ∨ w = [] ∧ fraction = []) :
    fractionDigits (date ++ 84 :: (time ++ (fraction ++ o.mode :: rest))) = w := by
  have hdigit {x : UInt8} (hx : isDigit x = true) : x ≠ 84 ∧ x ≠ 46 ∧ x ≠ 90 ∧ x ≠ 43 ∧ x ≠ 45 := by
    refine ⟨?_, ?_, ?_, ?_, ?_⟩ <;>
    · rintro rfl
      exact absurd hx (by decide)
  have htime' : ∀ x ∈ 84 :: time, x ≠ 46 ∧ x ≠ 90 ∧ x ≠ 43 ∧ x ≠ 45 := by
    refine forall_mem_cons.mpr ⟨by decide, fun x hx => ?_⟩
    rcases htime x hx with hx | rfl
    · exact (hdigit hx).2
    · decide
  have hT : (date ++ 84 :: (time ++ (fraction ++ o.mode :: rest))).dropWhile (· ≠ 84) =
      (84 :: time) ++ (fraction ++ o.mode :: rest) := by
    rw [dropWhile_append_of_pos]
    · rfl
    · intro x hx
      rcases hdate x hx with hx | rfl
      · exact decide_eq_true (hdigit hx).1
      · decide
  have hoffset : ((84 :: time) ++ (fraction ++ o.mode :: rest)).takeWhile
      (fun x => x ≠ 90 ∧ x ≠ 43 ∧ x ≠ 45) = (84 :: time) ++ fraction := by
    have hmode : ¬(o.mode ≠ 90 ∧ o.mode ≠ 43 ∧ o.mode ≠ 45) := by
      obtain ⟨-, -, hmode⟩ := o.exists_text_eq_cons
      rcases hmode with hmode | hmode | hmode <;> rw [hmode] <;> decide
    rw [takeWhile_append_of_pos fun x hx => decide_eq_true (htime' x hx).2,
      takeWhile_append_of_pos, takeWhile_cons_of_neg (by rwa [decide_eq_true_eq]),
      append_nil]
    intro x hx
    refine decide_eq_true ?_
    rcases hfraction with rfl | ⟨-, rfl⟩
    · rcases mem_cons.mp hx with rfl | hx
      · decide
      · exact (hdigit (hw x hx)).2.2
    · exact absurd hx not_mem_nil
  rw [fractionDigits, hT, hoffset,
    dropWhile_append_of_pos fun x hx => decide_eq_true (htime' x hx).1]
  rcases hfraction with rfl | ⟨rfl, rfl⟩ <;> rfl

lemma timestamp3339_eq_some (h : timestamp3339 pTime text = some (t, rest)) :
    ∃ (s : Stamp) (w : Bytes) (o : Offset), fractionDigits text = w ∧
      t = s.time pTime (valueFrom 0 w, w.length) o.fields ∧ (∀ x ∈ w, isDigit x = true) ∧
      valueFrom 0 w ≤ INT_MAX := by
  simp only [timestamp3339, Reader.bind_eq_some_iff, Reader.require_eq_some_iff,
    Reader.expect_eq_some_iff, Reader.pure_eq_some_iff] at h
  obtain ⟨year, _, hyear, _, _, rfl, _, _, ⟨hy, rfl⟩, h⟩ := h
  obtain ⟨month, _, hmonth, _, _, ⟨hmo, rfl⟩, _, _, rfl, h⟩ := h
  obtain ⟨day, _, hday, _, _, ⟨hd, rfl⟩, _, _, rfl, h⟩ := h
  obtain ⟨hour, _, hhour, _, _, ⟨hh, rfl⟩, _, _, rfl, h⟩ := h
  obtain ⟨minute, _, hminute, _, _, ⟨hmi, rfl⟩, _, _, rfl, h⟩ := h
  obtain ⟨second, _, hsecond, _, _, ⟨hs, rfl⟩, secfrac, _, hfraction, h⟩ := h
  obtain ⟨offset, _, hoffset, _, _, -, rfl, -⟩ := h
  obtain ⟨w₁, rfl, hw₁⟩ := number_eq_some hyear
  obtain ⟨w₂, rfl, hw₂⟩ := number_eq_some hmonth
  obtain ⟨w₃, rfl, hw₃⟩ := number_eq_some hday
  obtain ⟨w₄, rfl, hw₄⟩ := number_eq_some hhour
  obtain ⟨w₅, rfl, hw₅⟩ := number_eq_some hminute
  obtain ⟨w₆, rfl, hw₆⟩ := number_eq_some hsecond
  obtain ⟨w, hw, htext, rfl, hmax, -⟩ := fraction_eq_some hfraction
  obtain ⟨o, rfl, text', rfl⟩ := Offset.of_read hoffset
  refine ⟨⟨year, month, day, hour, minute, second, hy, hmo, hd, hh, hmi, hs⟩, w, o, ?_, rfl, hw,
    hmax⟩
  have hdate : ∀ x ∈ w₁ ++ 45 :: (w₂ ++ 45 :: w₃), isDigit x = true ∨ x = 45 := by
    simp only [mem_append, mem_cons]
    rintro x (hx | rfl | hx | rfl | hx)
    exacts [Or.inl (hw₁ x hx), .inr rfl, .inl (hw₂ x hx), .inr rfl, .inl (hw₃ x hx)]
  have htime : ∀ x ∈ w₄ ++ 58 :: (w₅ ++ 58 :: w₆), isDigit x = true ∨ x = 58 := by
    simp only [mem_append, mem_cons]
    rintro x (hx | rfl | hx | rfl | hx)
    exacts [Or.inl (hw₄ x hx), .inr rfl, .inl (hw₅ x hx), .inr rfl, .inl (hw₆ x hx)]
  rcases htext with rfl | ⟨rfl, rfl⟩
  · have hfraction := @fractionDigits_eq text' _ _ _ _ o hdate htime hw (.inl rfl)
    simpa only [append_assoc, cons_append] using hfraction
  · have hfraction := @fractionDigits_eq text' _ _ _ _ o hdate htime hw (.inr ⟨rfl, rfl⟩)
    simpa only [append_assoc, cons_append, nil_append] using hfraction

end Format

/-! ## Parsing what was written -/

lemma ParseTIMESTAMP3339_of_read (h : timestamp3339 pTime text = some (t, rest)) (beyond : Bytes) :
    ParseTIMESTAMP3339 pTime ⟨text ++ beyond, text.length⟩ =
      .ok t ⟨rest ++ beyond, rest.length⟩ := by
  have hends := (follows_timestamp3339 (passes_true 0) pTime text).ends beyond trivial
  rwa [h] at hends

lemma read_of_ParseTIMESTAMP3339 {beyond : Bytes} {c : Cursor UInt8}
    (h : ParseTIMESTAMP3339 pTime ⟨text ++ beyond, text.length⟩ = .ok t c) :
    ∃ rest, timestamp3339 pTime text = some (t, rest) := by
  have hends := (follows_timestamp3339 (passes_true 0) pTime text).ends beyond trivial
  rw [h] at hends
  cases hread : timestamp3339 pTime text with
  | none =>
    rw [hread] at hends
    obtain ⟨c', hc'⟩ := hends
    exact nomatch hc'
  | some r =>
    rw [hread] at hends
    obtain ⟨ht, -⟩ := EStateM.Result.ok.inj hends
    exact ⟨r.2, by rw [ht]⟩

section RoundTrip

variable {s : Stamp} {pTime pTime' : SyslogTime} {v d : ℕ} {o : Offset}

lemma formatSecfrac_eq_some (h : formatSecfrac t = some w) :
    w = [] ∨ ∃ pBuf, w = 46 :: pBuf ∧ pBuf.length ≤ 6 := by
  rw [formatSecfrac] at h
  split at h
  case isTrue =>
    obtain ⟨pBuf, hloop, hw⟩ := Option.bind_eq_some_iff.mp h
    refine .inr ⟨pBuf, (Option.some.inj hw).symm, ?_⟩
    rw [length_of_secfracLoop hloop]
    omega
  case isFalse => exact .inl (Option.some.inj h).symm

lemma head_formatSecfrac (h : formatSecfrac t = some w) :
    (w ++ o.text).head?.any isDigit = false := by
  obtain rfl | ⟨pBuf, rfl, -⟩ := formatSecfrac_eq_some h
  · exact o.head_text
  · rfl

lemma roundTrips_of_fraction {v' d' : ℕ}
    (hw : formatSecfrac (s.time pTime (v, d) o.fields) = some w)
    (hfraction : fraction (w ++ o.text) = some ((v', d'), o.text))
    (hv : Int32.ofInt v = Int32.ofInt v') (hd : ofInt d = ofInt d') :
    RoundTrips pTime' (s.time pTime (v, d) o.fields) := by
  have hread : timestamp3339 pTime' (s.text (w ++ o.text)) =
      some (s.time pTime' (v', d') o.fields, []) := by
    rw [timestamp3339_text s pTime' (head_formatSecfrac hw), tail3339,
      bind_eq_of_some hfraction, bind_eq_of_some o.read_text]
    rfl
  refine ⟨_, _, _, by rw [formatTimestamp3339_time, hw, Option.map_some],
    ParseTIMESTAMP3339_of_read hread [0], ?_⟩
  exact ⟨rfl, rfl, rfl, rfl, rfl, rfl, hv, hd, rfl, rfl, rfl⟩

lemma Format.fraction_offset (o : Offset) : fraction o.text = some ((0, 0), o.text) := by
  obtain ⟨rest, htext, hmode⟩ := o.exists_text_eq_cons
  have hne : o.mode ≠ 46 := by rcases hmode with hmode | hmode | hmode <;> rw [hmode] <;> decide
  rw [htext, fraction, Reader.whenNext, if_neg hne]
  rfl

lemma fraction_of_roundTrips (h : RoundTrips pTime' (s.time pTime (v, d) o.fields)) :
    ∃ w r rest, formatSecfrac (s.time pTime (v, d) o.fields) = some w ∧
      fraction (w ++ o.text) = some (r, rest) ∧ Int32.ofInt v = Int32.ofInt r.1 ∧
      ofInt d = ofInt r.2 := by
  obtain ⟨pBuf, t', c, hformat, hparse, hsame⟩ := h
  rw [formatTimestamp3339_time] at hformat
  obtain ⟨w, hw, rfl⟩ := Option.map_eq_some_iff.mp hformat
  obtain ⟨rest, hread⟩ := read_of_ParseTIMESTAMP3339 hparse
  rw [timestamp3339_text s pTime' (head_formatSecfrac hw)] at hread
  simp only [tail3339, bind_eq_some_iff, pure_eq_some_iff] at hread
  obtain ⟨secfrac, mid, hfraction, offset, _, -, _, _, -, rfl, -⟩ := hread
  obtain ⟨-, -, -, -, -, -, hv, hd, -⟩ := hsame
  exact ⟨w, secfrac, mid, hw, hfraction, hv, hd⟩

lemma fraction_numeral {n : ℕ} (hk : k ≤ 6) (hn : n < 10 ^ k) (o : Offset) :
    fraction (46 :: numeral k n ++ o.text) = some ((n, k), o.text) := by
  have hdigits : digits 0 (numeral k n ++ o.text) = (n, o.text) :=
    Option.some.inj (number_numeral hk hn o.head_text)
  rw [cons_append, fraction, Reader.whenNext, if_pos rfl, hdigits, length_append,
    length_numeral, Nat.add_sub_cancel]

lemma length_le_of_append_eq {pBuf mid : Bytes} (hw : ∀ x ∈ w, isDigit x = true)
    (h : w ++ mid = pBuf ++ o.text) : w.length ≤ pBuf.length := by
  rcases append_eq_append_iff.mp h with ⟨a, rfl, -⟩ | ⟨a, rfl, ha⟩
  · rw [length_append]
    omega
  · cases a with
    | nil => rw [append_nil]
    | cons x a =>
      have hx := hw x (mem_append_right _ mem_cons_self)
      have hhead := o.head_text
      rw [ha, cons_append, head?_cons, Option.any_some, hx] at hhead
      exact absurd hhead (by decide)

lemma toInt_secfrac {v : ℕ} (hv : v ≤ INT_MAX) : (Int32.ofInt v).toInt = v := by
  unfold INT_MAX at hv
  exact Int32.toInt_ofInt_of_le (by omega) (by omega)

lemma formatSecfrac_eq {n : ℕ} (hk : t.secfracPrecision.toInt = k) (hpos : 0 < k) (hle : k ≤ 6)
    (hn : t.secfrac.toInt = n) (hlt : n < 10 ^ k) : formatSecfrac t = some (46 :: numeral k n) := by
  have hcount : (((k : ℤ) - 1) % 6).toNat + 1 = k := by omega
  have hloop := secfracLoop_eq hle n
  rw [Nat.mod_eq_of_lt hlt] at hloop
  rw [formatSecfrac, hk, hn, if_pos (by omega), hcount, hloop]
  rfl

/-- The number of digits is kept in an `intTiny`. -/
lemma precision_eq_iff (hk : k ≤ 6) : ofInt d = ofInt k ↔ d % 256 = k := by
  rw [← toInt_inj, toInt_ofInt, toInt_ofInt, Int.bmod_def, Int.bmod_def]
  simp only [size]
  omega

/-- The timestamp comes back if the number of digits that is kept is at most six and the fraction
has no more digits. -/
lemma roundTrips_iff (hv : v ≤ INT_MAX) :
    RoundTrips pTime' (s.time pTime (v, d) o.fields) ↔ d % 256 ≤ 6 ∧ v < 10 ^ (d % 256) := by
  constructor
  · intro h
    obtain ⟨w, ⟨v', d'⟩, rest, hw, hfraction, hv', hd'⟩ := fraction_of_roundTrips h
    obtain ⟨w', hdigits, htext, hr, hmax, hlt⟩ := fraction_eq_some hfraction
    obtain ⟨-, rfl⟩ := Prod.mk.inj hr
    obtain rfl : v = v' := by
      have htoInt := congrArg Int32.toInt hv'
      rw [toInt_secfrac hv, toInt_secfrac hmax] at htoInt
      omega
    have hlen : w'.length ≤ 6 := by
      obtain rfl | ⟨pBuf, rfl, hsix⟩ := formatSecfrac_eq_some hw
      · rw [nil_append, fraction_offset] at hfraction
        obtain ⟨hr, -⟩ := Prod.mk.inj (Option.some.inj hfraction)
        rw [← (Prod.mk.inj hr).2]
        exact Nat.zero_le 6
      · rcases htext with htext | ⟨rfl, -⟩
        · exact le_trans (length_le_of_append_eq hdigits (List.cons.inj htext).2.symm) hsix
        · exact Nat.zero_le 6
    rw [(precision_eq_iff hlen).mp hd']
    exact ⟨hlen, hlt⟩
  · rintro ⟨hle, hlt⟩
    have hprec := (precision_eq_iff hle).mpr rfl
    have hfield : (s.time pTime (v, d) o.fields).secfracPrecision.toInt = (d % 256 : ℕ) := by
      rw [← toInt_ofInt_of_le (n := (d % 256 : ℕ)) (by omega) (by omega), ← hprec]
      rfl
    generalize d % 256 = k at *
    rcases Nat.eq_zero_or_pos k with rfl | hpos
    · obtain rfl : v = 0 := by omega
      have hnot : ¬0 < (s.time pTime (0, d) o.fields).secfracPrecision.toInt := by
        rw [hfield]
        decide
      exact roundTrips_of_fraction (if_neg hnot) (fraction_offset o) rfl hprec
    · exact roundTrips_of_fraction (formatSecfrac_eq hfield hpos hle (toInt_secfrac hv) hlt)
        (fraction_numeral hle hlt o) rfl hprec

/-! ## Digits and their number -/

lemma valueFrom_lt_iff (hw : ∀ x ∈ w, isDigit x = true) (hk : k ≤ w.length) :
    valueFrom 0 w < 10 ^ k ↔ ∀ x ∈ w.take (w.length - k), x = 48 := by
  induction w with
  | nil =>
    obtain rfl : k = 0 := Nat.le_zero.mp hk
    simp [valueFrom]
  | cons x w ih =>
    by_cases hall : k = (x :: w).length
    · rw [hall, Nat.sub_self]
      exact iff_of_true (valueFrom_lt hw) fun _ hx => absurd hx not_mem_nil
    rw [forall_mem_cons] at hw
    rw [length_cons] at hk hall
    have hcount : (x :: w).length - k = w.length - k + 1 := by
      rw [length_cons]
      omega
    have hzero : x.toNat - 48 = 0 ↔ x = 48 := by
      have hle := (isDigit_iff.1 hw.1).1
      simp only [← UInt8.toNat_inj, UInt8.reduceToNat]
      omega
    have hpow : 10 ^ k ≤ 10 ^ w.length := Nat.pow_le_pow_right (by decide) (by omega)
    rw [hcount, take_succ_cons, forall_mem_cons, ← ih hw.2 (by omega), valueFrom_cons,
      valueFrom_eq, Nat.zero_mul, Nat.zero_add, ← hzero]
    rcases Nat.eq_zero_or_pos (x.toNat - 48) with hd | hd
    · simp [hd]
    · have hle := Nat.le_mul_of_pos_left (10 ^ w.length) hd
      omega

end RoundTrip

/-- **Round trip.** A timestamp that was accepted comes back exactly if its fraction has at most six
digits, as far as the formatter can see. -/
theorem ParseTIMESTAMP3339_roundTrips_iff {pTime pTime' t : SyslogTime} {text beyond : Bytes}
    {c : Cursor UInt8} (h : ParseTIMESTAMP3339 pTime ⟨text ++ beyond, text.length⟩ = .ok t c) :
    RoundTrips pTime' t ↔ FractionKept (fractionDigits text) := by
  obtain ⟨rest, hread⟩ := read_of_ParseTIMESTAMP3339 h
  obtain ⟨s, w, o, hw, rfl, hdigits, hmax⟩ := timestamp3339_eq_some hread
  rw [roundTrips_iff hmax, hw, FractionKept, valueFrom_lt_iff hdigits (Nat.mod_le _ _)]

theorem ParseTIMESTAMP3339_roundTrips_ms :
    ∃ t c, ParseTIMESTAMP3339 zeroTime
        ⟨ascii "2003-10-11T22:14:15.003Z" ++ [0], (ascii "2003-10-11T22:14:15.003Z").length⟩ =
          .ok t c ∧
      RoundTrips zeroTime t := by
  have hread : timestamp3339 zeroTime (ascii "2003-10-11T22:14:15.003Z") =
      some (⟨2, 10, 11, 0, 22, 14, 15, 3, 0, 0, 90, 2003, 3, 0⟩, []) := by decide +kernel
  have hparse := ParseTIMESTAMP3339_of_read hread [0]
  exact ⟨_, _, hparse, (ParseTIMESTAMP3339_roundTrips_iff hparse).mpr (by decide +kernel)⟩

/-- Seven digits: the index of the power is zero, and all but one of the zeros are lost. -/
theorem formatTimestamp3339_seven_digits :
    ∃ t c, ParseTIMESTAMP3339 zeroTime
        ⟨ascii "2003-10-11T22:14:15.0000003Z" ++ [0],
          (ascii "2003-10-11T22:14:15.0000003Z").length⟩ = .ok t c ∧
      formatTimestamp3339 t = some (ascii "2003-10-11T22:14:15.3Z") ∧
      ¬RoundTrips zeroTime t := by
  have hread : timestamp3339 zeroTime (ascii "2003-10-11T22:14:15.0000003Z") =
      some (⟨2, 10, 11, 0, 22, 14, 15, 7, 0, 0, 90, 2003, 3, 0⟩, []) := by decide +kernel
  refine ⟨_, _, ParseTIMESTAMP3339_of_read hread [0], by decide +kernel, ?_⟩
  obtain ⟨s, w, o, hw, ht, -, hmax⟩ := timestamp3339_eq_some hread
  have hwidth : w.length = 7 := by
    rw [← hw]
    decide +kernel
  rw [ht, roundTrips_iff hmax, hwidth]
  exact fun h => absurd h.1 (by decide)

end Rsyslog.Datetime
