import Mathlib.Tactic.SplitIfs
import Rsyslog.Lib.Decimal
import Rsyslog.Lib.Translate

/-!
# Sanitizing a received message

`SanitizeMsg` of `parser.c`. A first sweep replaces line feeds by spaces, if that is configured, and
looks for something to escape. If there is any, the message is copied: as it is up to where the
sweep ended, and the rest octet by octet. So octets that have to be escaped may be copied as they
are, and line feeds may be left that were to be replaced.
-/

namespace Rsyslog.Parser

open List

open Lib (ascii hexdigit)

/-- The options of `glbl.c` that matter here. -/
structure SanitizeOpts where
  dropTrailingLF : Bool
  spaceLF : Bool
  escapeControlCharacters : Bool
  escapeControlCharacterTab : Bool
  escape8Bit : Bool
  controlCharactersCStyle : Bool
  cCCEscapeChar : UInt8

/-! ## The code -/

variable (o : SanitizeOpts)

/-- A NUL at the end is dropped, and then a line feed, if that is configured. -/
def dropTrailing (msg : Bytes) : Bytes :=
  let msg := if msg.getLast? = some 0 then msg.dropLast else msg
  if o.dropTrailingLF ∧ msg.getLast? = some 10 then msg.dropLast else msg

/-- The sweep over the rest of the message: the rest as it is afterwards, how far the sweep got in
it, and `bNeedSanitize`. -/
def sweep (o : SanitizeOpts) : Bytes → Bytes × ℕ × Bool
  | [] => ([], 0, false)
  | c :: rest =>
    let (rest', iSrc, bNeedSanitize) := sweep o rest
    if c < 32 then
      if o.spaceLF ∧ c = 10 then (32 :: rest', iSrc + 1, bNeedSanitize)
      else if c = 0 ∨ o.escapeControlCharacters then
        if o.spaceLF then (c :: rest', iSrc + 1, true) else (c :: rest, 0, true)
      else (c :: rest', iSrc + 1, bNeedSanitize)
    else if 127 < c ∧ o.escape8Bit then (c :: rest, 0, true)
    else (c :: rest', iSrc + 1, bNeedSanitize)

variable (c : UInt8)

def hexEscape : Bytes :=
  [92, 120, hexdigit ((c &&& 0xF0) >>> (4 : UInt8)), hexdigit (c &&& 0xF)]

/-- `#` and three octal digits, or what else is configured as the escape character. -/
def octalEscape : Bytes :=
  [o.cCCEscapeChar, 48 + (c &&& 0o300) >>> (6 : UInt8), 48 + (c &&& 0o070) >>> (3 : UInt8),
    48 + (c &&& 0o007)]

/-- The letter that C has for the octet, or its number. -/
def cStyleEscape : Bytes :=
  if c = 0 then ascii "\\0"
  else if c = 7 then ascii "\\a"
  else if c = 8 then ascii "\\b"
  else if c = 27 then ascii "\\e"
  else if c = 12 then ascii "\\f"
  else if c = 10 then ascii "\\n"
  else if c = 13 then ascii "\\r"
  else if c = 9 then ascii "\\t"
  else if c = 11 then ascii "\\v"
  else hexEscape c

def escapeControl : Bytes :=
  if o.controlCharactersCStyle then cStyleEscape c else octalEscape o c

def escape8Bit : Bytes :=
  if o.controlCharactersCStyle then hexEscape c else octalEscape o c

/-- A tab is one only if it is to be escaped. -/
def isControl : Prop :=
  c < 32 ∧ (c ≠ 9 ∨ o.escapeControlCharacterTab)
deriving Decidable

/-- What one octet becomes while the message is copied: control characters that are not to be
escaped are dropped. -/
def copied : Bytes :=
  if isControl o c then
    if c = 0 ∨ o.escapeControlCharacters then escapeControl o c else []
  else if 127 < c ∧ o.escape8Bit then escape8Bit o c
  else [c]

/-- It ends where an escape might not fit. -/
def copyLoop (o : SanitizeOpts) (maxDest : ℕ) : Bytes → Bytes → Bytes
  | [], dst => dst
  | c :: src, dst =>
    if dst.length < maxDest - 3 then copyLoop o maxDest src (dst ++ copied o c) else dst

def sanitizeMsg (o : SanitizeOpts) (iMaxLine : ℕ) (rawMsg : Bytes) : Bytes :=
  let msg := dropTrailing o rawMsg
  let (pszMsg, iSrc, bNeedSanitize) := sweep o msg
  if bNeedSanitize then
    let maxDest := min (msg.length * 4) iMaxLine
    let iSrc := min (iSrc - 1) maxDest
    copyLoop o maxDest (pszMsg.drop iSrc) (pszMsg.take iSrc)
  else pszMsg

/-! ## What it is for -/

/-- A line feed that is to be replaced. -/
def isSpaced : Prop := o.spaceLF ∧ c = 10
deriving Decidable

/-- What an octet is to become, whatever stands around it. -/
def image : Bytes :=
  if isSpaced o c then [32]
  else if isControl o c ∧ (c = 0 ∨ o.escapeControlCharacters) then escapeControl o c
  else if 127 < c ∧ o.escape8Bit then escape8Bit o c
  else [c]

/-! ## The sweep -/

/-- The sweep ends here: at an 8-bit character that is to be escaped, and at a control character
only if line feeds are not replaced. -/
def stops : Bool :=
  (c < 32 && !o.spaceLF && (c == 0 || o.escapeControlCharacters)) || (127 < c && o.escape8Bit)

/-- The octet sets `bNeedSanitize`. -/
def flags : Bool :=
  (c < 32 && !(o.spaceLF && c == 10) && (c == 0 || o.escapeControlCharacters)) ||
    (127 < c && o.escape8Bit)

def spaced : UInt8 := if isSpaced o c then 32 else c

/-- The sweep in closed form. -/
lemma sweep_eq (o : SanitizeOpts) (msg : Bytes) :
    sweep o msg = ((msg.takeWhile (!stops o ·)).map (spaced o) ++ msg.dropWhile (!stops o ·),
      (msg.takeWhile (!stops o ·)).length, msg.any (flags o)) := by
  induction msg with
  | nil => rfl
  | cons c msg ih =>
    rw [sweep, ih, takeWhile_cons, dropWhile_cons]
    by_cases hstop : stops o c = true
    · simp only [hstop, Bool.not_true, Bool.false_eq_true, if_false, map_nil, nil_append,
        length_nil]
      simp only [stops, Bool.or_eq_true, Bool.and_eq_true, decide_eq_true_eq, Bool.not_eq_true',
        beq_iff_eq] at hstop
      rcases hstop with ⟨⟨hc, hspace⟩, hesc⟩ | ⟨hc, h8⟩
      · simp [hc, hspace, hesc, flags]
      · have hctrl : ¬c < 32 := by grind
        simp [hc, h8, hctrl, flags]
    · simp only [hstop, Bool.not_false, if_true, map_cons, cons_append, length_cons]
      simp only [stops] at hstop
      have hlow (h : c < 32) : ¬127 < c := by grind
      have hlf (h : c = 10) : c < 32 := by grind
      split_ifs with hc hspaced hesc hspace h8
      · simp [spaced, isSpaced, hspaced, flags]
      · have hne : c ≠ 10 := fun h => hspaced ⟨hspace, h⟩
        simp [spaced, isSpaced, flags, hc, hesc, hne]
      · simp_all
      · simp [spaced, isSpaced, hspaced, flags, hesc, hlow hc]
      · simp_all
      · have hne : c ≠ 10 := fun h => hc (hlf h)
        simp [spaced, isSpaced, flags, hc, h8, hne]

/-! ## One octet -/

def drops : Prop :=
  isControl o c ∧ c ≠ 0 ∧ o.escapeControlCharacters = false
deriving Decidable

def escapes : Prop :=
  ¬isSpaced o c ∧ isControl o c ∧ (c = 0 ∨ o.escapeControlCharacters)
deriving Decidable

lemma cStyleEscape_eq : ∃ t, cStyleEscape c = 92 :: t ∧ 1 ≤ t.length ∧ t.length ≤ 3 := by
  rw [cStyleEscape]
  iterate 9
    split
    · exact ⟨_, rfl, by decide⟩
  exact ⟨_, rfl, Nat.le_add_left 1 2, Nat.le_refl 3⟩

variable {o : SanitizeOpts}

/-- An escape is printable and longer than one octet. -/
lemma escapeControl_eq (hesc : 32 ≤ o.cCCEscapeChar) (c : UInt8) :
    ∃ b t, escapeControl o c = b :: t ∧ 32 ≤ b ∧ 1 ≤ t.length ∧ t.length ≤ 3 := by
  rw [escapeControl]
  split
  · obtain ⟨t, ht, hlen⟩ := cStyleEscape_eq c
    exact ⟨92, t, ht, by decide, hlen⟩
  · exact ⟨_, _, rfl, hesc, Nat.le_add_left 1 2, Nat.le_refl 3⟩

variable {c : UInt8}

/-- But for the octets that are dropped, copying gives the image. -/
lemma copied_of_not_spaced (h : ¬isSpaced o c) :
    copied o c = if drops o c then [] else image o c := by
  rw [copied, image, if_neg h]
  by_cases hctrl : isControl o c
  · by_cases hesc : c = 0 ∨ o.escapeControlCharacters
    · have hdrops : ¬drops o c := fun hd => by simp_all [drops]
      rw [if_pos hctrl, if_pos hesc, if_neg hdrops, if_pos ⟨hctrl, hesc⟩]
    · have hdrops : drops o c := ⟨hctrl, by simpa using not_or.mp hesc⟩
      rw [if_pos hctrl, if_neg hesc, if_pos hdrops]
  · have hdrops : ¬drops o c := fun hd => hctrl hd.1
    have hesc : ¬(isControl o c ∧ (c = 0 ∨ o.escapeControlCharacters)) := fun he => hctrl he.1
    rw [if_neg hctrl, if_neg hdrops, if_neg hesc]

lemma copied_space (o : SanitizeOpts) : copied o 32 = [32] := by
  have hctrl : ¬isControl o 32 := fun h => absurd h.1 (by decide)
  have h8 : ¬((127 : UInt8) < 32 ∧ o.escape8Bit) := fun h => absurd h.1 (by decide)
  rw [copied, if_neg hctrl, if_neg h8]

lemma copied_spaced (o : SanitizeOpts) (c : UInt8) :
    copied o (spaced o c) = if ¬isSpaced o c ∧ drops o c then [] else image o c := by
  rw [spaced]
  by_cases hspaced : isSpaced o c
  · rw [if_pos hspaced, if_neg fun h => h.1 hspaced, image, if_pos hspaced, copied_space]
  · rw [if_neg hspaced, copied_of_not_spaced hspaced]
    simp [hspaced]

/-- A line feed that the sweep did not reach is escaped or dropped. -/
lemma copied_of_spaced (h : isSpaced o c) :
    copied o c = if o.escapeControlCharacters then escapeControl o c else [] := by
  obtain ⟨-, rfl⟩ := h
  have hctrl : isControl o 10 := ⟨by decide, .inl (by decide)⟩
  rw [copied, if_pos hctrl]
  simp [show (10 : UInt8) ≠ 0 by decide]

/-- The sweep makes an octet its image unless it is to be escaped. -/
lemma image_of_not_stops (h : stops o c = false) :
    image o c = if escapes o c then escapeControl o c else [spaced o c] := by
  have h8 : ¬(127 < c ∧ o.escape8Bit) := fun h8 => by simp [stops, h8] at h
  rw [image, spaced]
  by_cases hspaced : isSpaced o c
  · have hesc : ¬escapes o c := fun he => he.1 hspaced
    rw [if_pos hspaced, if_neg hesc, if_pos hspaced]
  · simp [escapes, hspaced, if_neg h8]

/-! ## The whole message -/

lemma escape8Bit_length (o : SanitizeOpts) (c : UInt8) : (escape8Bit o c).length = 4 := by
  rw [escape8Bit]
  split <;> rfl

lemma copied_length (hesc : 32 ≤ o.cCCEscapeChar) (c : UInt8) : (copied o c).length ≤ 4 := by
  obtain ⟨b, t, ht, -, -, hlen⟩ := escapeControl_eq hesc c
  rw [copied]
  split_ifs <;> grind [escape8Bit_length]

/-- Without the limit on the length, the loop copies every octet. -/
lemma copyLoop_eq (hesc : 32 ≤ o.cCCEscapeChar) {maxDest : ℕ} {src dst : Bytes}
    (h : dst.length + 4 * src.length ≤ maxDest) :
    copyLoop o maxDest src dst = dst ++ src.flatMap (copied o) := by
  induction src generalizing dst with
  | nil => rw [copyLoop, flatMap_nil, append_nil]
  | cons c src ih =>
    have hlen := copied_length hesc c
    rw [length_cons] at h
    rw [copyLoop, if_pos (by omega), ih, flatMap_cons, append_assoc]
    rw [length_append]
    omega

/-- What the sweep went over. -/
def swept (o : SanitizeOpts) (msg : Bytes) : Bytes := msg.takeWhile (!stops o ·)

def unswept (o : SanitizeOpts) (msg : Bytes) : Bytes := msg.dropWhile (!stops o ·)

/-- This much is copied as the sweep left it. -/
def sweptFront (o : SanitizeOpts) (msg : Bytes) : Bytes :=
  (swept o msg).take ((swept o msg).length - 1)

def sweptLast (o : SanitizeOpts) (msg : Bytes) : Bytes :=
  (swept o msg).drop ((swept o msg).length - 1)

lemma swept_append_unswept (o : SanitizeOpts) (msg : Bytes) :
    swept o msg ++ unswept o msg = msg := takeWhile_append_dropWhile

lemma flags_of_stops (h : stops o c = true) : flags o c = true := by
  rw [stops] at h
  rw [flags]
  simp only [Bool.or_eq_true, Bool.and_eq_true, Bool.not_eq_true'] at h ⊢
  exact h.imp_left fun h => ⟨⟨h.1.1, by rw [h.1.2]; rfl⟩, h.2⟩

variable {msg : Bytes}

/-- Without `bNeedSanitize` the sweep went over the whole message. -/
lemma swept_of_not_flags (h : msg.any (flags o) = false) :
    swept o msg = msg ∧ unswept o msg = [] := by
  have hall : ∀ c ∈ msg, (!stops o c) = true := by
    intro c hc
    rw [Bool.not_eq_true']
    by_contra hstop
    rw [Bool.not_eq_false] at hstop
    exact absurd (flags_of_stops hstop) (by simpa using any_eq_false.mp h c hc)
  exact ⟨takeWhile_eq_self_iff.mpr hall, dropWhile_eq_nil_iff.mpr hall⟩

/-- The three parts of the result. -/
lemma sanitizeMsg_eq (hesc : 32 ≤ o.cCCEscapeChar) {iMaxLine : ℕ} {rawMsg : Bytes}
    (hmsg : dropTrailing o rawMsg = msg) (hlen : 4 * msg.length ≤ iMaxLine) :
    sanitizeMsg o iMaxLine rawMsg =
      if msg.any (flags o) then
        (sweptFront o msg).map (spaced o) ++
          ((sweptLast o msg).flatMap
              (fun c => copied o (spaced o c)) ++
            (unswept o msg).flatMap (copied o))
      else msg.map (spaced o) := by
  rw [sanitizeMsg, hmsg, sweep_eq]
  change (if _ then copyLoop o _ (((swept o msg).map (spaced o) ++ unswept o msg).drop
    (min ((swept o msg).length - 1) _)) _ else (swept o msg).map (spaced o) ++ unswept o msg) = _
  cases hflags : msg.any (flags o) with
  | false =>
    obtain ⟨hswept, hunswept⟩ := swept_of_not_flags hflags
    simp [hswept, hunswept]
  | true =>
    have hlens := congrArg List.length (swept_append_unswept o msg)
    rw [length_append] at hlens
    have hmin : min (msg.length * 4) iMaxLine = msg.length * 4 := Nat.min_eq_left (by omega)
    have hsrc : min ((swept o msg).length - 1) (msg.length * 4) = (swept o msg).length - 1 :=
      Nat.min_eq_left (by omega)
    simp only [if_true, hmin]
    change copyLoop o _ _ (((swept o msg).map (spaced o) ++ unswept o msg).take
      (min ((swept o msg).length - 1) _)) = _
    rw [hsrc, take_append_of_le_length (by rw [length_map]; omega),
      drop_append_of_le_length (by rw [length_map]; omega), copyLoop_eq hesc]
    · rw [flatMap_append, ← map_drop, flatMap_map, sweptFront, map_take, sweptLast]
    · simp only [length_take, length_append, length_drop, length_map]
      omega

lemma stops_of_mem_swept (h : c ∈ swept o msg) : stops o c = false := by
  simpa using mem_takeWhile_imp h

lemma flags_of_escapes (h : escapes o c) : flags o c = true := by
  obtain ⟨hspaced, ⟨hctrl, -⟩, hesc⟩ := h
  have hlf : (o.spaceLF && c == 10) = false := by
    rw [Bool.eq_false_iff]
    intro hlf
    exact hspaced (by simpa [isSpaced] using hlf)
  simp only [flags, hctrl, decide_true, hlf, Bool.not_false, Bool.true_and, Bool.or_eq_true,
    beq_iff_eq]
  exact .inl hesc

section Lengths

variable (hesc : 32 ≤ o.cCCEscapeChar)

include hesc

lemma singleton_spaced_eq_image_iff (h : stops o c = false) :
    [spaced o c] = image o c ↔ ¬escapes o c := by
  rw [image_of_not_stops h]
  split
  case isTrue he =>
    obtain ⟨b, t, ht, -, hlen, -⟩ := escapeControl_eq hesc c
    refine iff_of_false (fun heq => ?_) (not_not.mpr he)
    rw [ht] at heq
    obtain ⟨-, rfl⟩ := cons_eq_cons.mp heq
    exact absurd hlen (by decide)
  case isFalse he => exact iff_of_true rfl he

/-- An octet that is copied although it is to be escaped shows at once. -/
lemma spaced_or_image (h : stops o c = false) :
    [spaced o c] = image o c ∨
      ∃ b t b' t', [spaced o c] = b :: t ∧ image o c = b' :: t' ∧ b ≠ b' := by
  by_cases he : escapes o c
  · obtain ⟨b, t, ht, hb, -⟩ := escapeControl_eq hesc c
    refine .inr ⟨spaced o c, [], b, t, rfl, ?_, ?_⟩
    · rw [image_of_not_stops h, if_pos he, ht]
    · rw [spaced, if_neg he.1]
      have hlow : c < 32 := he.2.1.1
      grind
  · exact .inl ((singleton_spaced_eq_image_iff hesc h).mpr he)

/-- No image is empty. -/
lemma image_length_pos (c : UInt8) : 0 < (image o c).length := by
  obtain ⟨b, t, ht, -⟩ := escapeControl_eq hesc c
  rw [image]
  split_ifs <;> grind [escape8Bit_length]

lemma length_copied_spaced :
    (copied o (spaced o c)).length ≤ (image o c).length ∧
      ((copied o (spaced o c)).length = (image o c).length → drops o c → isSpaced o c) := by
  have hpos := image_length_pos hesc c
  rw [copied_spaced]
  split
  case isTrue => exact ⟨Nat.zero_le _, fun h => absurd h (Nat.ne_of_lt hpos)⟩
  case isFalse h => exact ⟨Nat.le_refl _, fun _ hdrops => by_contra fun hs => h ⟨hs, hdrops⟩⟩

/-- Behind the sweep no octet gets shorter if control characters are escaped, and none longer if
they are dropped. -/
lemma length_copied :
    (o.escapeControlCharacters = false → (copied o c).length ≤ (image o c).length) ∧
      (o.escapeControlCharacters = true → (image o c).length ≤ (copied o c).length) ∧
      ((copied o c).length = (image o c).length → ¬isSpaced o c ∧ ¬drops o c) := by
  have hpos := image_length_pos hesc c
  by_cases hspaced : isSpaced o c
  · have himage : image o c = [32] := if_pos hspaced
    rw [copied_of_spaced hspaced, himage, length_singleton]
    cases o.escapeControlCharacters with
    | false => simp
    | true =>
      obtain ⟨b, t, ht, -, hlen, -⟩ := escapeControl_eq hesc c
      rw [if_pos rfl, ht, length_cons]
      refine ⟨fun h => Bool.noConfusion h, fun _ => ?_, fun h => ?_⟩ <;> omega
  · rw [copied_of_not_spaced hspaced]
    split
    case isTrue hdrops =>
      refine ⟨fun _ => Nat.zero_le _, fun h => ?_, fun h => absurd h (Nat.ne_of_lt hpos)⟩
      exact absurd (hdrops.2.2.symm.trans h) Bool.false_ne_true
    case isFalse hdrops =>
      exact ⟨fun _ => Nat.le_refl _, fun _ => Nat.le_refl _, fun _ => ⟨hspaced, hdrops⟩⟩

end Lengths

/-- No octet is treated otherwise than its image says. -/
def Uniform (o : SanitizeOpts) (msg : Bytes) : Prop :=
  msg.any (flags o) = false ∨
    (∀ c ∈ sweptFront o msg, ¬escapes o c) ∧
    (∀ c ∈ sweptLast o msg, drops o c → isSpaced o c) ∧
    ∀ c ∈ unswept o msg, ¬isSpaced o c ∧ ¬drops o c

lemma map_spaced_eq (h : msg.any (flags o) = false) :
    msg.map (spaced o) = msg.flatMap (image o) := by
  rw [map_eq_flatMap]
  refine flatMap_congr fun c hc => ?_
  have hflags : ¬flags o c = true := by simpa using any_eq_false.mp h c hc
  have hstops : stops o c = false := Bool.eq_false_iff.mpr fun hs => hflags (flags_of_stops hs)
  have hescapes : ¬escapes o c := fun he => hflags (flags_of_escapes he)
  rw [image_of_not_stops hstops, if_neg hescapes]

/-- The octets from the last one of the sweep on: a piece that is wrong is too short, or too long,
and then so are all the others. -/
lemma copied_eq_image_iff (hesc : 32 ≤ o.cCCEscapeChar) (last rest : Bytes) :
    last.flatMap (fun c => copied o (spaced o c)) ++ rest.flatMap (copied o) =
        last.flatMap (image o) ++ rest.flatMap (image o) ↔
      (∀ c ∈ last, drops o c → isSpaced o c) ∧ ∀ c ∈ rest, ¬isSpaced o c ∧ ¬drops o c := by
  have hlast (c : UInt8) (_ : c ∈ last) := (length_copied_spaced hesc (c := c)).1
  constructor
  · intro h
    have hlen := congrArg List.length h
    rw [length_append, length_append] at hlen
    have hle := Lib.length_flatMap_le hlast
    cases hctrl : o.escapeControlCharacters with
    | false =>
      have hrest (c : UInt8) (_ : c ∈ rest) := (length_copied hesc (c := c)).1 hctrl
      have hle' := Lib.length_flatMap_le hrest
      constructor
      · intro c hc
        exact (length_copied_spaced hesc).2
          (Lib.length_eq_of_length_flatMap_eq hlast (by omega) c hc)
      · intro c hc
        exact (length_copied hesc).2.2 (Lib.length_eq_of_length_flatMap_eq hrest (by omega) c hc)
    | true =>
      have hdrops (c : UInt8) : ¬drops o c := fun hd =>
        Bool.false_ne_true (hd.2.2.symm.trans hctrl)
      have hsame : last.flatMap (fun c => copied o (spaced o c)) = last.flatMap (image o) :=
        flatMap_congr fun c _ => by rw [copied_spaced, if_neg fun hd => hdrops c hd.2]
      have hrest (c : UInt8) (_ : c ∈ rest) := (length_copied hesc (c := c)).2.1 hctrl
      rw [hsame] at hlen
      refine ⟨fun c _ hd => absurd hd (hdrops c), fun c hc => ?_⟩
      exact (length_copied hesc).2.2 (Lib.length_eq_of_length_flatMap_eq hrest (by omega) c hc).symm
  · rintro ⟨hlast', hrest⟩
    have hsame : last.flatMap (fun c => copied o (spaced o c)) = last.flatMap (image o) :=
      flatMap_congr fun c hc => by
        rw [copied_spaced, if_neg fun hd => hd.1 (hlast' c hc hd.2)]
    have hsame' : rest.flatMap (copied o) = rest.flatMap (image o) :=
      flatMap_congr fun c hc => by
        rw [copied_of_not_spaced (hrest c hc).1, if_neg (hrest c hc).2]
    rw [hsame, hsame']

lemma le_of_all {text : Bytes} (h : text.all (32 ≤ ·) = true) : ∀ x ∈ text, 32 ≤ x :=
  fun x hx => of_decide_eq_true (all_eq_true.mp h x hx)

lemma hexEscape_clean (c : UInt8) : ∀ x ∈ hexEscape c, 32 ≤ x :=
  le_of_all (Lib.forall_octet c.toNat_lt (by decide +kernel))

lemma cStyleEscape_clean (c : UInt8) : ∀ x ∈ cStyleEscape c, 32 ≤ x :=
  le_of_all (Lib.forall_octet c.toNat_lt (by decide +kernel))

lemma octalEscape_clean (hesc : 32 ≤ o.cCCEscapeChar) (c : UInt8) :
    ∀ x ∈ octalEscape o c, 32 ≤ x := by
  have hdigits : ∀ x ∈ [48 + (c &&& 0o300) >>> (6 : UInt8), 48 + (c &&& 0o070) >>> (3 : UInt8),
      48 + (c &&& 0o007)], 32 ≤ x :=
    le_of_all (Lib.forall_octet c.toNat_lt (by decide +kernel))
  exact forall_mem_cons.mpr ⟨hesc, hdigits⟩

/-- An image has no NUL, and control characters only if they are not escaped. -/
lemma image_clean (hesc : 32 ≤ o.cCCEscapeChar) {x : UInt8} (hx : x ∈ image o c) :
    x ≠ 0 ∧ (o.escapeControlCharacters = true →
      32 ≤ x ∨ x = 9 ∧ o.escapeControlCharacterTab = false) := by
  have hprintable (h : 32 ≤ x) : x ≠ 0 ∧ (o.escapeControlCharacters = true →
      32 ≤ x ∨ x = 9 ∧ o.escapeControlCharacterTab = false) :=
    ⟨by grind, fun _ => .inl h⟩
  rw [image] at hx
  split at hx
  case isTrue =>
    refine hprintable ?_
    rw [mem_singleton.mp hx]
    decide
  case isFalse =>
    split at hx
    case isTrue =>
      rw [escapeControl] at hx
      split at hx
      · exact hprintable (cStyleEscape_clean c x hx)
      · exact hprintable (octalEscape_clean hesc c x hx)
    case isFalse hctrl =>
      split at hx
      case isTrue =>
        rw [escape8Bit] at hx
        split at hx
        · exact hprintable (hexEscape_clean c x hx)
        · exact hprintable (octalEscape_clean hesc c x hx)
      case isFalse =>
        rw [mem_singleton.mp hx]
        constructor
        · rintro rfl
          exact hctrl ⟨⟨by decide, .inl (by decide)⟩, .inl rfl⟩
        · intro hcc
          by_contra hlow
          refine hctrl ⟨⟨?_, ?_⟩, .inr hcc⟩
          · grind
          · grind

/-- Every octet becomes its image exactly if those around it do not matter, and no image has a NUL
in it, or a control character if these are escaped. -/
theorem sanitizeMsg_iff (o : SanitizeOpts) (hesc : 32 ≤ o.cCCEscapeChar) (iMaxLine : ℕ)
    (rawMsg : Bytes) (hlen : 4 * (dropTrailing o rawMsg).length ≤ iMaxLine) :
    (sanitizeMsg o iMaxLine rawMsg = (dropTrailing o rawMsg).flatMap (image o) ↔
        Uniform o (dropTrailing o rawMsg)) ∧
      ∀ x ∈ (dropTrailing o rawMsg).flatMap (image o), x ≠ 0 ∧
        (o.escapeControlCharacters = true →
          32 ≤ x ∨ x = 9 ∧ o.escapeControlCharacterTab = false) := by
  constructor
  · rw [sanitizeMsg_eq hesc rfl hlen, Uniform]
    generalize dropTrailing o rawMsg = msg
    cases hflags : msg.any (flags o) with
    | false =>
      exact iff_of_true (map_spaced_eq hflags) (.inl rfl)
    | true =>
      have himage : msg.flatMap (image o) =
          (sweptFront o msg).flatMap (image o) ++
            ((sweptLast o msg).flatMap (image o) ++
              (unswept o msg).flatMap (image o)) := by
        rw [← append_assoc, ← flatMap_append, sweptFront, sweptLast, take_append_drop,
          ← flatMap_append, swept_append_unswept]
      have hstops (c : UInt8) (hc : c ∈ sweptFront o msg) :
          stops o c = false := stops_of_mem_swept (mem_of_mem_take hc)
      rw [himage, map_eq_flatMap, ← copied_eq_image_iff hesc]
      constructor
      · intro h
        obtain ⟨hhead, hrest⟩ := Lib.flatMap_append_inj
          (fun c hc => spaced_or_image hesc (hstops c hc)) h
        exact .inr ⟨fun c hc => (singleton_spaced_eq_image_iff hesc (hstops c hc)).mp
          (hhead c hc), hrest⟩
      · rintro (h | ⟨hhead, hrest⟩)
        · exact absurd h Bool.noConfusion
        · rw [hrest]
          refine congrArg (· ++ _) (flatMap_congr fun c hc => ?_)
          exact (singleton_spaced_eq_image_iff hesc (hstops c hc)).mpr (hhead c hc)
  · intro x hx
    obtain ⟨c, -, hc⟩ := mem_flatMap.mp hx
    exact image_clean hesc hc

def escapeAll : SanitizeOpts := ⟨true, false, true, true, true, false, 35⟩

/-- A tab, a NUL and an 8-bit character are escaped, and the line feed at the end is dropped. -/
theorem sanitizeMsg_escapeAll :
    sanitizeMsg escapeAll 8096 (ascii "su:\tfailed" ++ [0, 32, 200, 33, 10]) =
        ascii "su:#011failed#000 #310!" ∧
      ∀ x ∈ ascii "su:#011failed#000 #310!", 32 ≤ x := by
  obtain ⟨hiff, hclean⟩ := sanitizeMsg_iff escapeAll (by decide) 8096
    (ascii "su:\tfailed" ++ [0, 32, 200, 33, 10]) (by decide)
  exact ⟨hiff.mpr (.inr (by decide +kernel)), fun x hx => ((hclean x hx).2 rfl).resolve_right nofun⟩

/-- The sweep does not end at the control character, which is then copied as it is. -/
theorem sanitizeMsg_spaceLF_control :
    let o : SanitizeOpts := {escapeAll with spaceLF := true}
    sanitizeMsg o 8096 [1, 97] = [1, 97] ∧ image o 1 ++ image o 97 = ascii "#001a" := by
  decide

-- The sweep ends at the 8-bit character, and the line feed behind it is escaped.
example :
    let o : SanitizeOpts := {escapeAll with spaceLF := true}
    sanitizeMsg o 8096 [200, 10, 97] = ascii "#310#012a" ∧
      image o 200 ++ image o 10 ++ image o 97 = ascii "#310 a" := by
  decide

end Rsyslog.Parser
