import Rsyslog.Datetime.Format

/-!
# The pointer and the counter

What callers of the timestamp parsers rely on: what is taken from the counter is what the pointer
has gone over, and nothing depends on the octets behind the text. The parser for RFC 3339 keeps to
this. The parser for RFC 3164 does not if it accepts a year in front of the timestamp.
-/

namespace Rsyslog.Datetime

open Lib Lib.Step Obj List Format Follows

/-- A call as its caller sees it: whether it succeeded, `*pTime`, `*ppszTS` and `*pLenStr`. There is
no result if the call reads outside of the memory. -/
def call (parse : SyslogTime → Step UInt8 SyslogTime) (pTime : SyslogTime) (c : Cursor UInt8) :
    Option (Bool × SyslogTime × Cursor UInt8) :=
  match parse pTime c with
  | .ok t c' => some (true, t, c')
  | .error .reject _ => some (false, pTime, c)
  | .error .outside _ => none

/-- Whatever is behind the text, the call has the same outcome. It goes `n` octets further, and
takes them from the counter; if it fails, it changes nothing. -/
def InSync (parse : SyslogTime → Step UInt8 SyslogTime) (pTime : SyslogTime)
    (text : Bytes) : Prop :=
  ∃ ok t n, n ≤ text.length ∧ (ok = false → t = pTime ∧ n = 0) ∧
    ∀ beyond, 0 ∈ beyond → call parse pTime ⟨text ++ beyond, text.length⟩ =
      some (ok, t, ⟨text.drop n ++ beyond, text.length - n⟩)

variable {rest : Bytes}

section Call

variable {parse : SyslogTime → Step UInt8 SyslogTime} {pTime : SyslogTime} {text : Bytes}

lemma inSync_of_reject (h : ∀ beyond, 0 ∈ beyond →
    ∃ c, parse pTime ⟨text ++ beyond, text.length⟩ = .error .reject c) :
    InSync parse pTime text := by
  refine ⟨false, pTime, 0, Nat.zero_le _, fun _ => ⟨rfl, rfl⟩, fun beyond hbeyond => ?_⟩
  obtain ⟨c, hc⟩ := h beyond hbeyond
  rw [call, hc, drop_zero, Int.ofNat_zero, Int.sub_zero]

lemma inSync_of_runs {M' : Bytes → Prop} {r : Option (SyslogTime × Bytes)}
    (h : Runs (0 ∈ ·) M' (parse pTime) text r) : InSync parse pTime text := by
  cases r with
  | none =>
    exact inSync_of_reject fun beyond hbeyond => h.ends beyond (mem_append_right _ hbeyond)
  | some r =>
    obtain ⟨t, rest⟩ := r
    obtain ⟨w, htext, -⟩ := h.keeps t rest rfl
    have hlens := congrArg List.length htext
    rw [length_append] at hlens
    refine ⟨true, t, w.length, by omega, fun hok => absurd hok (by decide),
      fun beyond hbeyond => ?_⟩
    have hrun : parse pTime ⟨text ++ beyond, text.length⟩ = .ok t ⟨rest ++ beyond, rest.length⟩ :=
      h.ends beyond (mem_append_right _ hbeyond)
    have hdrop : text.drop w.length = rest := by rw [htext, drop_left]
    have hlen : (text.length : ℤ) - w.length = rest.length := by omega
    rw [call, hrun, hdrop, hlen]

lemma not_inSync {t : SyslogTime} {beyond : Bytes} {len : ℤ} (hbeyond : 0 ∈ beyond)
    (hrun : parse pTime ⟨text ++ beyond, text.length⟩ = .ok t ⟨rest, len⟩)
    (hlen : len + beyond.length ≠ rest.length) : ¬InSync parse pTime text := by
  rintro ⟨ok, t', n, hn, -, hcall⟩
  have hcall := hcall beyond hbeyond
  rw [call, hrun] at hcall
  obtain ⟨hrest, hlen'⟩ := Cursor.mk.inj (Prod.mk.inj (Prod.mk.inj (Option.some.inj hcall)).2).2
  have hlens := congrArg List.length hrest
  rw [length_append, length_drop] at hlens
  omega

end Call

lemma inSync_ParseTIMESTAMP3339 (pTime : SyslogTime) (text : Bytes) :
    InSync ParseTIMESTAMP3339 pTime text :=
  inSync_of_runs (follows_timestamp3339 (passes_mem 0) pTime text)

/-! ## A year in front -/

section

variable {tz : Bytes → Option TzInfo} {bParseTZ bYear : Bool} {pTime : SyslogTime}
  {c : Cursor UInt8}

lemma ParseTIMESTAMP3164_of_le (hlen : 3 ≤ c.len) :
    ParseTIMESTAMP3164 tz bParseTZ bYear pTime c =
      (yearInFront >>= behindYear tz bParseTZ bYear pTime) c := by
  have hrun : (require (3 ≤ c.len) >>= fun _ => yearInFront >>=
      behindYear tz bParseTZ bYear pTime) c = _ :=
    bind_eq_of_ok (require_of hlen c)
  exact hrun

lemma ParseTIMESTAMP3164_of_lt (hlen : c.len < 3) :
    ParseTIMESTAMP3164 tz bParseTZ bYear pTime c = .error .reject c := by
  have hrun : (require (3 ≤ c.len) >>= fun _ => yearInFront >>=
      behindYear tz bParseTZ bYear pTime) c = _ :=
    bind_eq_of_error (require_of_not (Int.not_le.mpr hlen) c)
  exact hrun

lemma rejects_day {f : ℕ → Step UInt8 SyslogTime} (hmem : 0 ∈ c.rest) (hlen : c.len ≤ 0) :
    ∃ c', (padding >>= fun _ => srSLMGParseInt32 >>= fun day =>
      require (1 ≤ day ∧ day ≤ 31) >>= fun _ => f day) c = .error .reject c' := by
  obtain ⟨c', hpadding, hlen'⟩ : ∃ c', padding c = .ok () c' ∧ c'.len ≤ 0 := by
    obtain ⟨rest, len⟩ := c
    obtain ⟨x, rest, rfl⟩ := exists_cons_of_ne_nil (ne_nil_of_mem hmem)
    have hpeek : peek ⟨x :: rest, len⟩ = .ok x _ := rfl
    rw [padding, bind_eq_of_ok hpeek]
    by_cases hx : x = 32
    · exact ⟨⟨rest, len - 1⟩, by rw [if_pos hx]; rfl, by dsimp only at hlen ⊢; omega⟩
    · exact ⟨_, by rw [if_neg hx]; rfl, hlen⟩
  have hday : srSLMGParseInt32 c' = .ok 0 c' := by
    obtain ⟨rest, len⟩ := c'
    cases rest with
    | nil => exact if_neg (Int.not_lt.mpr hlen')
    | cons x rest => exact if_neg fun h => absurd h.1 (Int.not_lt.mpr hlen')
  rw [bind_eq_of_ok hpadding, bind_eq_of_ok hday]
  exact ⟨c', bind_eq_of_error (require_of_not (by decide) c')⟩

lemma rejects_behindYear (year : ℕ) (hmem : 0 ∈ c.rest) (hlen : c.len ≤ 2) :
    ∃ c', behindYear tz bParseTZ bYear pTime year c = .error .reject c' := by
  have hlooks := Format.looks_month c.rest [] c.len
  cases hmonth : Format.month c.rest with
  | none =>
    rw [hmonth, append_nil] at hlooks
    obtain ⟨c', hreject⟩ := hlooks (.inr hmem)
    exact ⟨c', bind_eq_of_error (bind_eq_of_error hreject)⟩
  | some r =>
    obtain ⟨m, rest⟩ := r
    simp only [hmonth, append_nil] at hlooks
    obtain ⟨hrun, w, hrest, -, hw⟩ := hlooks
    rw [hrest, mem_append, or_iff_right hw] at hmem
    obtain ⟨x, rest, rfl⟩ := exists_cons_of_ne_nil (ne_nil_of_mem hmem)
    have hrun : month c = .ok m ⟨x :: rest, c.len - 3⟩ := bind_eq_of_ok hrun
    have hne : c.len - 3 ≠ 0 := by omega
    have hadvance : advance ⟨x :: rest, c.len - 3⟩ = .ok x ⟨rest, c.len - 3⟩ := rfl
    rw [behindYear, bind_eq_of_ok hrun]
    by_cases hx : x = 32
    · have hspace : expect 32 ⟨x :: rest, c.len - 3⟩ = .ok () ⟨rest, c.len - 3 - 1⟩ := by
        rw [Step.expect, remaining_bind, bind_eq_of_ok (require_of hne _), bind_eq_of_ok hadvance]
        exact bind_eq_of_ok (require_of hx _)
      rw [bind_eq_of_ok hspace]
      exact rejects_day (passes_mem 0 x rest (by rw [hx]; decide) hmem) (by dsimp only; omega)
    · have hspace : expect 32 ⟨x :: rest, c.len - 3⟩ = .error .reject ⟨rest, c.len - 3⟩ := by
        rw [Step.expect, remaining_bind, bind_eq_of_ok (require_of hne _), bind_eq_of_ok hadvance]
        exact bind_eq_of_error (require_of_not hx _)
      exact ⟨_, bind_eq_of_error hspace⟩

lemma runs_padding {M : Bytes → Prop} (hM : Passes 0 M) (x : UInt8) (text : Bytes) :
    Runs M M padding (x :: text)
      (Reader.whenNext 32 (pure ()) (pure ()) (x :: text) : Option (Unit × Bytes)) := by
  refine Runs.peek ?_
  rw [Reader.whenNext]
  by_cases hx : x = 32
  · rw [if_pos hx, if_pos hx]
    exact Runs.next hM (by rw [hx]; decide) (pure () text)
  · rw [if_neg hx, if_neg hx]
    exact pure () (x :: text)

lemma follows_behindYear (year : ℕ) :
    Follows (0 ∈ ·) (fun mem => bParseTZ = false → 0 ∈ mem)
      (behindYear tz bParseTZ bYear pTime year)
      (Format.behindYear tz bParseTZ bYear pTime year) := by
  intro text
  have hM := passes_mem (0 : UInt8)
  have hM' : Passes (0 : UInt8) fun mem => bParseTZ = false → 0 ∈ mem :=
    fun x mem hx hmem hoff => hM x mem hx (hmem hoff)
  have hint := follows_number hM
  by_cases hlen : 3 ≤ text.length
  · refine Runs.bind (runs_month hM hlen) fun month rest _ => ?_
    refine Runs.bind (Follows.expect hM (by decide) rest) fun _ rest' _ => ?_
    cases rest' with
    | nil =>
      -- the parser looks for padding behind the text
      exact runs_none fun beyond hmem => rejects_day hmem (Int.le_refl 0)
    | cons x rest' =>
      refine Runs.bind (runs_padding hM x rest') fun _ rest'' _ => ?_
      refine hint.bind (fun _ => (Follows.require _).bind fun _ => ?_) rest''
      refine (Follows.expect hM (by decide)).bind fun _ => ?_
      refine (follows_yearAndHour hM year).bind fun _ => (Follows.require _).bind fun _ => ?_
      refine (Follows.expect hM (by decide)).bind fun _ => hint.bind fun _ => ?_
      refine (Follows.require _).bind fun _ => (Follows.expect hM (by decide)).bind fun _ => ?_
      refine hint.bind fun _ => (Follows.require _).bind fun _ => ?_
      refine (follows_fraction hM).bind fun _ => ?_
      refine (follows_timezone hM _ _).bind fun _ => ?_
      refine (follows_yearAfterTime hM' _ _).bind fun _ => ?_
      refine bind ?_ fun _ => (follows_ends hM').bind fun _ => pure _
      exact whenNext hM' (by decide) (pure _) (pure _)
  · rw [Format.behindYear, Reader.bind_eq_of_none (Format.month_eq_none (by omega))]
    exact runs_none fun beyond hmem => rejects_behindYear _ hmem (by dsimp only; omega)

variable {text : Bytes}

lemma yearInFront_of_isDigit {x : UInt8} {beyond : Bytes} {sp : UInt8} {mem : Bytes}
    (hx : isDigit x = true) (hmem : (Format.digits 0 (x :: text)).2 ++ beyond = sp :: mem) :
    yearInFront ⟨x :: text ++ beyond, (x :: text).length⟩ =
      if (1970 ≤ (Format.digits 0 (x :: text)).1 ∧ (Format.digits 0 (x :: text)).1 ≤ 2100) ∧
          sp = 32 then
        .ok (Format.digits 0 (x :: text)).1 ⟨mem, (Format.digits 0 (x :: text)).2.length⟩
      else .error .reject ⟨sp :: mem, (Format.digits 0 (x :: text)).2.length⟩ := by
  have hrun := srSLMGParseInt32_append (x :: text) beyond
  rw [hmem] at hrun
  have hpeek : peek ⟨x :: text ++ beyond, ((x :: text).length : ℤ)⟩ = .ok x _ := rfl
  rw [yearInFront, bind_eq_of_ok hpeek, if_pos hx]
  generalize Format.digits 0 (x :: text) = r at hrun
  rw [bind_eq_of_ok hrun]
  by_cases hyear : 1970 ≤ r.1 ∧ r.1 ≤ 2100
  · rw [bind_eq_of_ok (require_of hyear _)]
    have hpeek' : peek ⟨sp :: mem, (r.2.length : ℤ)⟩ = .ok sp _ := rfl
    rw [bind_eq_of_ok hpeek']
    by_cases hsp : sp = 32
    · rw [bind_eq_of_ok (require_of hsp _), if_pos ⟨hyear, hsp⟩]
      rfl
    · rw [bind_eq_of_error (require_of_not hsp _), if_neg fun h => hsp h.2]
  · rw [bind_eq_of_error (require_of_not hyear _), if_neg fun h => hyear h.1]

lemma isDigit_of_year (h : 1970 ≤ (Format.digits 0 text).1) :
    ∃ x text', text = x :: text' ∧ isDigit x = true ∧ 3 ≤ text.length := by
  obtain ⟨w, htext, hw, hval⟩ := Format.exists_digits_append 0 text
  have hlt := valueFrom_lt hw
  have hlen : 3 ≤ w.length := by
    by_contra hshort
    have hpow : 10 ^ w.length ≤ 10 ^ 2 := Nat.pow_le_pow_right (by decide) (by omega)
    omega
  have hlens := congrArg List.length htext
  rw [length_append] at hlens
  rcases w with _ | ⟨x, w⟩
  · exact absurd hlen (by decide)
  · exact ⟨x, _, htext, hw x mem_cons_self, by omega⟩

lemma year_eq_some_iff {year : ℕ} :
    Format.year text = some (year, rest) ↔
      Format.digits 0 text = (year, 32 :: rest) ∧ 1970 ≤ year ∧ year ≤ 2100 := by
  simp only [Format.year, Format.number, Reader.bind_eq_some_iff, Reader.require_eq_some_iff,
    Reader.expect_eq_some_iff, Reader.pure_eq_some_iff, Option.some.injEq]
  constructor
  · rintro ⟨y, _, hdigits, -, _, ⟨hrange, rfl⟩, -, _, rfl, rfl, rfl⟩
    exact ⟨hdigits, hrange⟩
  · rintro ⟨hdigits, hrange⟩
    exact ⟨year, _, hdigits, (), _, ⟨hrange, rfl⟩, (), rest, rfl, rfl, rfl⟩

lemma ParseTIMESTAMP3164_of_year {year : ℕ} (h : Format.year text = some (year, rest))
    (b : UInt8) (beyond : Bytes) :
    ParseTIMESTAMP3164 tz bParseTZ bYear pTime ⟨text ++ b :: beyond, text.length⟩ =
      behindYear tz bParseTZ bYear pTime year ⟨rest ++ [b] ++ beyond, (rest ++ [b]).length⟩ := by
  obtain ⟨hdigits, hrange⟩ := year_eq_some_iff.mp h
  have hyear : 1970 ≤ (Format.digits 0 text).1 := by
    rw [hdigits]
    exact hrange.1
  obtain ⟨x, text, rfl, hx, hlen⟩ := isDigit_of_year hyear
  have hmem : (Format.digits 0 (x :: text)).2 ++ b :: beyond = 32 :: (rest ++ [b] ++ beyond) := by
    rw [hdigits, append_assoc]
    rfl
  have hfront := yearInFront_of_isDigit hx hmem
  rw [hdigits, if_pos ⟨hrange, rfl⟩] at hfront
  rw [ParseTIMESTAMP3164_of_le (Int.ofNat_le.mpr hlen), bind_eq_of_ok hfront, length_append,
    length_singleton, length_cons]

/-- A timestamp without a year in front is read. If there is one, then no timestamp is accepted that
does not have a space behind it. -/
lemma runs_of_year_eq_none (h : Format.year text = none) :
    ∃ r, Runs (0 ∈ ·) (fun mem => bParseTZ = false → 0 ∈ mem)
      (ParseTIMESTAMP3164 tz bParseTZ bYear pTime) text r ∧
        (text.head?.any isDigit = true → r = none) := by
  by_cases hlen : 3 ≤ text.length
  case neg =>
    refine ⟨none, runs_none fun beyond _ => ?_, fun _ => rfl⟩
    exact ⟨_, ParseTIMESTAMP3164_of_lt (by dsimp only; omega)⟩
  have hrun (beyond : Bytes) := @ParseTIMESTAMP3164_of_le tz bParseTZ
    bYear pTime ⟨text ++ beyond, text.length⟩ (Int.ofNat_le.mpr hlen)
  obtain ⟨x, text, rfl⟩ := exists_cons_of_length_pos (Nat.lt_of_lt_of_le (by decide) hlen)
  by_cases hx : isDigit x = true
  · refine ⟨none, runs_none fun beyond hmem => ?_, fun _ => rfl⟩
    rw [hrun]
    obtain ⟨-, -, hkeeps⟩ := keeps_digits (passes_mem 0) 0 (x :: text)
    have hmem := hkeeps beyond hmem
    obtain ⟨sp, mem, hrest⟩ := exists_cons_of_ne_nil (ne_nil_of_mem hmem)
    have hfront := yearInFront_of_isDigit hx hrest
    rw [hrest] at hmem
    by_cases hsp : (1970 ≤ (Format.digits 0 (x :: text)).1 ∧
        (Format.digits 0 (x :: text)).1 ≤ 2100) ∧ sp = 32
    · obtain ⟨hrange, rfl⟩ := hsp
      rw [if_pos ⟨hrange, rfl⟩] at hfront
      cases hleft : (Format.digits 0 (x :: text)).2 with
      | nil =>
        -- the space is behind the text, where no timestamp is accepted
        rw [hleft] at hfront
        rw [bind_eq_of_ok hfront]
        exact rejects_behindYear _ (passes_mem 0 32 mem (by decide) hmem) (Int.natCast_nonneg 2)
      | cons y rest =>
        rw [hleft, cons_append] at hrest
        obtain ⟨rfl, -⟩ := List.cons.inj hrest
        rw [year_eq_some_iff.mpr ⟨Prod.ext rfl hleft, hrange⟩] at h
        exact nomatch h
    · rw [if_neg hsp] at hfront
      exact ⟨_, bind_eq_of_error hfront⟩
  · have hfront : Runs (0 ∈ ·) (0 ∈ ·) yearInFront (x :: text)
        ((pure 0 : Reader UInt8 ℕ) (x :: text)) := by
      refine Runs.peek ?_
      rw [if_neg hx]
      exact pure 0 _
    have hruns := hfront.bind fun year rest _ => @follows_behindYear tz bParseTZ
      bYear pTime year rest
    exact ⟨_, Runs.remaining (Runs.require (Int.ofNat_le.mpr hlen) hruns), fun h => absurd h hx⟩

lemma not_inSync_of_year {year : ℕ} {b : UInt8} (hyear : Format.year text = some (year, rest))
    (h : Format.behindYear tz bParseTZ bYear pTime year (rest ++ [b]) ≠ none) :
    ¬InSync (ParseTIMESTAMP3164 tz bParseTZ bYear) pTime text := by
  obtain ⟨⟨t, rest'⟩, hsome⟩ := Option.ne_none_iff_exists'.mp h
  have hrun := (@follows_behindYear tz bParseTZ bYear pTime year
    (rest ++ [b])).ends [0] (mem_append_right _ mem_cons_self)
  rw [hsome, ← ParseTIMESTAMP3164_of_year hyear b [0]] at hrun
  refine not_inSync (mem_cons_of_mem b mem_cons_self) hrun ?_
  simp only [length_append, length_cons, length_nil]
  omega

/-- Where no time zone is looked for, what is left of the text is terminated. If there was a year in
front, then the counter is one too high. -/
lemma ParseTIMESTAMP3164_terminated (text : Bytes) :
    (∃ t w text', ParseTIMESTAMP3164 tz false bYear pTime (.terminated 0 text) =
        .ok t (.counted 0 text' (if text.head?.any isDigit then 1 else 0)) ∧ text = w ++ text') ∨
      ∃ c, ParseTIMESTAMP3164 tz false bYear pTime (.terminated 0 text) = .error .reject c := by
  cases hyear : Format.year text with
  | none =>
    obtain ⟨r, hruns, hdigit⟩ := runs_of_year_eq_none hyear
    by_cases hx : text.head?.any isDigit = true
    · rw [hdigit hx] at hruns
      exact .inr (hruns.ends [0] (mem_append_right _ mem_cons_self))
    · rw [if_neg hx]
      simpa only [Cursor.counted_zero] using hruns.terminated
  | some r =>
    obtain ⟨year, rest⟩ := r
    obtain ⟨hdigits, hrange⟩ := year_eq_some_iff.mp hyear
    obtain ⟨v, htext, -⟩ := Format.exists_digits_append 0 text
    obtain ⟨x, text', rfl, hx, -⟩ := @isDigit_of_year text (by rw [hdigits]; exact hrange.1)
    have hruns := @follows_behindYear tz false bYear pTime year (rest ++ [0])
    have hmem : 0 ∈ rest ++ [0] ++ [] := mem_append_left _ (mem_append_right _ mem_cons_self)
    have hends := hruns.ends [] hmem
    rw [← ParseTIMESTAMP3164_of_year hyear 0 []] at hends
    cases hread : Format.behindYear tz false bYear pTime year (rest ++ [0]) with
    | none =>
      rw [hread] at hends
      exact .inr hends
    | some r =>
      obtain ⟨t, left⟩ := r
      obtain ⟨w, hleft, hkeeps⟩ := hruns.keeps t left hread
      rw [hread] at hends
      rcases eq_nil_or_concat' left with rfl | ⟨text'', z, rfl⟩
      · exact absurd (hkeeps [] hmem rfl) not_mem_nil
      · rw [← append_assoc] at hleft
        obtain ⟨rfl, hz⟩ := append_inj' hleft rfl
        obtain rfl := singleton_inj.mp hz
        refine .inl ⟨t, v ++ 32 :: w, text'', hends.trans ?_, ?_⟩
        · rw [append_nil, head?_cons, Option.any_some, if_pos hx, length_append, length_singleton]
          rfl
        · rw [htext, hdigits, append_assoc, cons_append]

end

/-- The parsers and their counters. For RFC 3164 it makes the difference whether a timestamp is
accepted behind a year in front, with one more octet than there is. -/
theorem timestamps_inSync_iff (glblFindTimezone : Bytes → Option TzInfo)
    (bParseTZ bDetectYearAfterTime : Bool) (pTime : SyslogTime) (text : Bytes) :
    InSync ParseTIMESTAMP3339 pTime text ∧
      (InSync (ParseTIMESTAMP3164 glblFindTimezone bParseTZ bDetectYearAfterTime) pTime text ↔
        ∀ year rest b, Format.year text = some (year, rest) →
          Format.behindYear glblFindTimezone bParseTZ bDetectYearAfterTime pTime year
            (rest ++ [b]) = none) := by
  refine ⟨inSync_ParseTIMESTAMP3339 pTime text, ?_⟩
  cases hyear : Format.year text with
  | none =>
    obtain ⟨r, hruns, -⟩ := runs_of_year_eq_none hyear
    exact ⟨fun _ _ _ _ h => (nomatch h), fun _ => inSync_of_runs hruns⟩
  | some r =>
    obtain ⟨year, rest⟩ := r
    constructor
    · intro hsync year' rest' b h
      obtain ⟨rfl, rfl⟩ := Prod.mk.inj (Option.some.inj h)
      by_contra hne
      exact not_inSync_of_year hyear hne hsync
    · intro hnone
      refine inSync_of_reject fun beyond hbeyond => ?_
      obtain ⟨b, beyond, rfl⟩ := exists_cons_of_ne_nil (ne_nil_of_mem hbeyond)
      have hends := (@follows_behindYear glblFindTimezone bParseTZ bDetectYearAfterTime pTime year
        (rest ++ [b])).ends beyond
      rw [hnone year rest b rfl] at hends
      rw [ParseTIMESTAMP3164_of_year hyear]
      refine hends ?_
      rw [append_assoc]
      exact mem_append_right _ hbeyond

/-- The pointer goes over 21 octets, and 20 are taken from the counter. -/
theorem not_inSync_year_in_front :
    ¬InSync (ParseTIMESTAMP3164 (fun _ => none) false false) zeroTime
      (ascii "2003 Oct 11 22:14:15 su") := by
  have hyear : Format.year (ascii "2003 Oct 11 22:14:15 su") =
      some (2003, ascii "Oct 11 22:14:15 su") := by decide +kernel
  refine @not_inSync_of_year _ _ _ _ _ _ _ 0 hyear ?_
  decide +kernel

end Rsyslog.Datetime
