import Rsyslog.Lib.Buffer
import Rsyslog.Lib.Translate
import Rsyslog.Script.Prifilt

/-!
# Encoding a value for JSON

`jsonEncode` of `msg.c` with its helpers. The value is left as it is as long as nothing in it has to
be escaped. Otherwise what stands before the first such octet is copied in one piece, and the rest
octet by octet, into a work buffer that starts on the stack and is replaced by ever larger ones on
the heap. The result is read back by `unescape`.

Storing an octet behind the end of the work buffer is `none`.
-/

namespace Rsyslog.Json

open List
open Option (bind_eq_bind bind_some map_some)

open Lib (Buffer ascii hexdigit)

/-! ## The code -/

def isPlain (c : UInt8) : Bool :=
  (0x30 ≤ c && c ≤ 0x5b) || (0x23 ≤ c && c ≤ 0x2e) || 0x5d ≤ c || c == 0x20 || c == 0x21

def numbuf : ℕ → UInt8 → Bytes → Bytes
  | 0, _, buf => buf
  | j + 1, c, buf => numbuf j (c / 16) (hexdigit (c % 16) :: buf)

/-- What the `switch` stores for an octet, apart from a backslash that already escapes. -/
def escape (c : UInt8) : Bytes :=
  if c = 0 then ascii "\\u0000"
  else if c = 34 then ascii "\\\""
  else if c = 47 then ascii "\\/"
  else if c = 92 then ascii "\\\\"
  else if c = 8 then ascii "\\b"
  else if c = 12 then ascii "\\f"
  else if c = 10 then ascii "\\n"
  else if c = 13 then ascii "\\r"
  else if c = 9 then ascii "\\t"
  else ascii "\\u" ++ numbuf 4 c []

def isEscaped (nc : UInt8) : Bool := nc ∈ ascii "\"/\\bfnrtu"

def makeRoom (b : Buffer UInt8) : Option (Buffer UInt8) :=
  if b.cap - 10 ≤ b.bytes.length then b.resize (2 * b.cap) else some b

variable (escapeAll : Bool)

/-- What is stored for the octet `c` with `nc` behind it, and whether `nc` is stored with it. -/
def stored (c nc : UInt8) : Bytes × Bool :=
  if isPlain c then ([c], false)
  else if c = 92 ∧ escapeAll = false ∧ isEscaped nc then ([c, nc], true)
  else (escape c, false)

/-- The loop over the octets behind the head, of which the first one may have been stored already.
The octet behind the last one is the NUL. -/
def escapeLoop (escapeAll : Bool) : Bool → Bytes → Buffer UInt8 → Option (Buffer UInt8)
  | _, [], b => some b
  | true, _ :: rest, b => escapeLoop escapeAll false rest b
  | false, c :: rest, b => do
    let b ← makeRoom b
    let b ← b.push (stored escapeAll c (rest.headD 0)).1
    escapeLoop escapeAll (stored escapeAll c (rest.headD 0)).2 rest b

/-- The buffer on the stack, or one on the heap if the head is too large for it. The lengths are
`unsigned`. -/
def wrkbuf (head : ℕ) : Buffer UInt8 :=
  ⟨if 100000 < (head + 10) % 2 ^ 32 then 2 * head % 2 ^ 32 else 100000, [], Nat.zero_le _⟩

/-- `jsonAddVal_escaped`; `dst` is the string so far, if there is one. -/
def jsonAddValEscaped (pSrc : Bytes) (head : ℕ) (dst : Option Bytes)
    (escapeAll : Bool) : Option Bytes := do
  let b ← (wrkbuf head).push (pSrc.take head)
  let b ← escapeLoop escapeAll false (pSrc.drop head) b
  some (dst.getD [] ++ b.bytes)

/-- `jsonAddVal`: the string afterwards, which is only created if it is needed. -/
def jsonAddVal (pSrc : Bytes) (dst : Option Bytes) (escapeAll : Bool) : Option (Option Bytes) :=
  let i := (pSrc.takeWhile isPlain).length
  if i < pSrc.length then (jsonAddValEscaped pSrc i dst escapeAll).map some
  else some (dst.map (· ++ pSrc))

/-- `jsonEncode`: the value, ended by a NUL, and its length after it; -1 stands for `strlen`. -/
def jsonEncode (pSrc : Bytes) (pBufLen : Int32) (escapeAll : Bool) :
    Option (Bytes × Int32) := do
  let buflen :=
    if pBufLen = -1 then (pSrc.takeWhile (· ≠ 0)).length % 2 ^ 32 else pBufLen.toUInt32.toNat
  let dst ← jsonAddVal (pSrc.take buflen) none escapeAll
  match dst with
  | some dst => some (Script.esStr2cstr dst, -1)
  | none => some (pSrc, pBufLen)

/-! ## What it is for -/

def valueText (v : Bytes × Int32) : Bytes :=
  if v.2 = -1 then v.1.takeWhile (· ≠ 0) else v.1.take v.2.toInt.toNat

def simpleEscape (e : UInt8) : Option UInt8 :=
  if e = 34 then some 34
  else if e = 92 then some 92
  else if e = 47 then some 47
  else if e = 98 then some 8
  else if e = 102 then some 12
  else if e = 110 then some 10
  else if e = 114 then some 13
  else if e = 116 then some 9
  else none

def hexValue (d : UInt8) : Option ℕ :=
  if 48 ≤ d ∧ d ≤ 57 then some (d.toNat - 48)
  else if 65 ≤ d ∧ d ≤ 70 then some (d.toNat - 55)
  else if 97 ≤ d ∧ d ≤ 102 then some (d.toNat - 87)
  else none

/-- The octet that four hex digits stand for. Code points from U+0080 on have more than one. -/
def hexEscape (d₁ d₂ d₃ d₄ : UInt8) : Option UInt8 := do
  let n := ((← hexValue d₁) * 16 + (← hexValue d₂)) * 256 + (← hexValue d₃) * 16 + (← hexValue d₄)
  if n < 128 then some (UInt8.ofNat n) else none

/-- The octets that the inside of a JSON string stands for. A quote, a control character or a
backslash that does not start an escape sequence must not occur there. -/
def unescape : Bytes → Option Bytes
  | [] => some []
  | c :: rest =>
    if c = 34 ∨ c < 32 then none
    else if c ≠ 92 then (unescape rest).map (c :: ·)
    else
      match rest with
      | [] => none
      | e :: rest =>
        if e ≠ 117 then (simpleEscape e).bind fun c => (unescape rest).map (c :: ·)
        else
          match rest with
          | d₁ :: d₂ :: d₃ :: d₄ :: rest =>
            (hexEscape d₁ d₂ d₃ d₄).bind fun c => (unescape rest).map (c :: ·)
          | _ => none

/-! ## The work buffer -/

def escapedText (escapeAll : Bool) : Bool → Bytes → Bytes
  | _, [] => []
  | true, _ :: rest => escapedText escapeAll false rest
  | false, c :: rest =>
    (stored escapeAll c (rest.headD 0)).1 ++
      escapedText escapeAll (stored escapeAll c (rest.headD 0)).2 rest

/-- There are four octets left, and more once the buffer has been doubled. -/
structure HasRoom (b : Buffer UInt8) : Prop where
  large : 100000 ≤ b.cap
  left : b.bytes.length + 4 ≤ b.cap

lemma wrkbuf_push {pSrc : Bytes} {head : ℕ} (h : head ≤ pSrc.length) (hhead : head < 2 ^ 31) :
    ∃ b, (wrkbuf head).push (pSrc.take head) = some b ∧ HasRoom b ∧ b.bytes = pSrc.take head := by
  have hlen : (pSrc.take head).length = head := length_take_of_le h
  have hcap : head + 10 ≤ (wrkbuf head).cap ∧ 100000 ≤ (wrkbuf head).cap := by
    rw [wrkbuf]
    dsimp only
    split <;> omega
  refine ⟨⟨(wrkbuf head).cap, pSrc.take head, by omega⟩,
    Buffer.filled_of_le (hlen.trans_le (by omega)), ⟨hcap.2, ?_⟩, rfl⟩
  dsimp only
  omega

lemma makeRoom_push {b : Buffer UInt8} (h : HasRoom b) {l : Bytes} (hl : l.length ≤ 6) :
    ∃ b', ((makeRoom b).bind fun b => b.push l) = some b' ∧ HasRoom b' ∧
      b'.bytes = b.bytes ++ l := by
  obtain ⟨hlarge, hleft⟩ := h
  have hpush (cap : ℕ) (hlarge : 100000 ≤ cap) (hleft : b.bytes.length + 10 ≤ cap) :
      ∃ b', Buffer.filled cap (b.bytes ++ l) = some b' ∧ HasRoom b' ∧ b'.bytes = b.bytes ++ l := by
    have hfits : (b.bytes ++ l).length + 4 ≤ cap := by
      rw [length_append]
      omega
    exact ⟨_, Buffer.filled_of_le (by omega), ⟨hlarge, hfits⟩, rfl⟩
  rw [makeRoom]
  split
  · obtain ⟨b', hb', hroom⟩ := hpush (2 * b.cap) (by omega) (by omega)
    exact ⟨b', (Buffer.filled_bind_push _ _ _).trans hb', hroom⟩
  · exact hpush b.cap hlarge (by omega)

variable {c : UInt8}

lemma escape_cases (h : isPlain c = false) :
    (∃ e, escape c = [92, e] ∧ simpleEscape e = some c ∧ isEscaped e = true) ∨
      escape c = 92 :: 117 :: numbuf 4 c [] ∧ c < 32 := by
  have hall : isPlain c = false → (escape c = [92, (escape c).getD 1 0] ∧
      simpleEscape ((escape c).getD 1 0) = some c ∧ isEscaped ((escape c).getD 1 0) = true) ∨
      escape c = 92 :: 117 :: numbuf 4 c [] ∧ c < 32 :=
    Lib.forall_octet c.toNat_lt (by decide +kernel)
  exact (hall h).imp_left fun he => ⟨_, he⟩

lemma stored_length (c nc : UInt8) : (stored escapeAll c nc).1.length ≤ 6 := by
  rw [stored]
  split
  · exact Nat.le_add_left 1 5
  · split
    · exact Nat.le_add_left 2 4
    · obtain ⟨e, he, -⟩ | ⟨hhex, -⟩ := escape_cases (Bool.eq_false_iff.mpr (by assumption))
      · rw [he]
        exact Nat.le_add_left 2 4
      · rw [hhex]
        exact Nat.le_refl 6

lemma escapeLoop_eq (escapeAll skip : Bool) (rest : Bytes) {b : Buffer UInt8} (h : HasRoom b) :
    ∃ b', escapeLoop escapeAll skip rest b = some b' ∧
      b'.bytes = b.bytes ++ escapedText escapeAll skip rest := by
  induction rest generalizing skip b with
  | nil => exact ⟨b, by rw [escapeLoop], by rw [escapedText, append_nil]⟩
  | cons c rest ih =>
    cases skip with
    | true => exact ih false h
    | false =>
      obtain ⟨b₁, hb₁, hroom, hbytes₁⟩ :=
        makeRoom_push h (stored_length escapeAll c (rest.headD 0))
      obtain ⟨b', hb', hbytes⟩ := ih (stored escapeAll c (rest.headD 0)).2 hroom
      refine ⟨b', ?_, by rw [hbytes, hbytes₁, append_assoc, escapedText]⟩
      rw [escapeLoop, bind_eq_bind, ← Option.bind_assoc, hb₁, bind_some, hb']

/-! ## The text -/

lemma escapedText_cons_plain (escapeAll : Bool) (h : isPlain c = true) (rest : Bytes) :
    escapedText escapeAll false (c :: rest) = c :: escapedText escapeAll false rest := by
  rw [escapedText, stored, if_pos h]
  rfl

lemma escapedText_cons_escape (h : isPlain c = false) (rest : Bytes) :
    escapedText true false (c :: rest) = escape c ++ escapedText true false rest := by
  rw [escapedText, stored, if_neg (Bool.eq_false_iff.mp h), if_neg fun h => nomatch h.2.1]

lemma escapedText_plain_append {head : Bytes} (h : ∀ c ∈ head, isPlain c = true) (rest : Bytes) :
    escapedText escapeAll false (head ++ rest) = head ++ escapedText escapeAll false rest := by
  induction head with
  | nil => rfl
  | cons c head ih =>
    obtain ⟨hc, hhead⟩ := forall_mem_cons.mp h
    rw [cons_append, escapedText_cons_plain escapeAll hc, ih hhead, cons_append]

lemma jsonAddVal_eq {pSrc : Bytes} (hlen : pSrc.length < 2 ^ 31)
    (dst : Option Bytes) (escapeAll : Bool) :
    jsonAddVal pSrc dst escapeAll =
      some (if pSrc.all isPlain then dst.map (· ++ pSrc)
        else some (dst.getD [] ++ escapedText escapeAll false pSrc)) := by
  have hi : (pSrc.takeWhile isPlain).length ≤ pSrc.length :=
    (List.takeWhile_prefix isPlain).length_le
  have hplain : ∀ c ∈ pSrc.takeWhile isPlain, isPlain c = true := fun c =>
    mem_takeWhile_imp
  rw [jsonAddVal]
  by_cases hall : pSrc.all isPlain = true
  · rw [if_pos hall,
      if_neg ((Lib.length_takeWhile_lt_iff _ _).not_left.mpr (all_eq_true.mp hall))]
  · obtain ⟨b, hpush, hroom, hhead⟩ := wrkbuf_push hi (by omega)
    obtain ⟨b', hloop, hbytes⟩ := escapeLoop_eq escapeAll false (pSrc.dropWhile isPlain) hroom
    have hsome : ¬∀ c ∈ pSrc, isPlain c = true := fun h => hall (all_eq_true.mpr h)
    rw [if_neg hall, if_pos ((Lib.length_takeWhile_lt_iff _ _).mpr hsome), jsonAddValEscaped, hpush,
      Lib.drop_length_takeWhile]
    simp only [bind_eq_bind, bind_some, hloop, map_some, hbytes, hhead,
      Lib.take_length_takeWhile]
    rw [← escapedText_plain_append escapeAll hplain, takeWhile_append_dropWhile]

/-! ## Reading it back -/

lemma not_special_of_plain (h : isPlain c = true) : ¬(c = 34 ∨ c < 32) ∧ c ≠ 92 := by
  grind [isPlain]

lemma unescape_cons_plain (h : isPlain c = true) (rest : Bytes) :
    unescape (c :: rest) = (unescape rest).map (c :: ·) := by
  obtain ⟨hspecial, hback⟩ := not_special_of_plain h
  rw [unescape.eq_def]
  simp [if_neg hspecial, if_pos hback]

variable {e : UInt8}

lemma unescape_simple (h : simpleEscape e = some c) (rest : Bytes) :
    unescape (92 :: e :: rest) = (unescape rest).map (c :: ·) := by
  have hu : e ≠ 117 := by
    rintro rfl
    exact absurd (h.symm.trans (show simpleEscape 117 = none by decide)) (Option.some_ne_none c)
  rw [unescape.eq_def]
  simp [if_pos hu, h]

lemma unescape_hex {d₁ d₂ d₃ d₄ : UInt8} (h : hexEscape d₁ d₂ d₃ d₄ = some c) (rest : Bytes) :
    unescape (92 :: 117 :: d₁ :: d₂ :: d₃ :: d₄ :: rest) = (unescape rest).map (c :: ·) := by
  rw [unescape.eq_def]
  simp [h]

lemma hexEscape_numbuf (h : c < 32) :
    hexEscape (hexdigit (c / 16 / 16 / 16 % 16)) (hexdigit (c / 16 / 16 % 16))
      (hexdigit (c / 16 % 16)) (hexdigit (c % 16)) = some c :=
  Lib.forall_octet (show c.toNat < 32 from h) (by decide)

lemma unescape_escape (h : isPlain c = false) (rest : Bytes) :
    unescape (escape c ++ rest) = (unescape rest).map (c :: ·) := by
  obtain ⟨e, he, hsimple, -⟩ | ⟨hhex, hctrl⟩ := escape_cases h
  · rw [he]
    exact unescape_simple hsimple rest
  · rw [hhex]
    exact unescape_hex (hexEscape_numbuf hctrl) rest

lemma unescape_escapedText (s : Bytes) : unescape (escapedText true false s) = some s := by
  induction s with
  | nil => rfl
  | cons c s ih =>
    cases hc : isPlain c with
    | true => rw [escapedText_cons_plain true hc, unescape_cons_plain hc, ih, map_some]
    | false => rw [escapedText_cons_escape hc, unescape_escape hc, ih, map_some]

lemma isPlain_numbuf (h : c < 32) : ∀ d ∈ numbuf 4 c [], isPlain d = true :=
  all_eq_true.mp (Lib.forall_octet (show c.toNat < 32 from h) (by decide))

lemma le_of_plain (h : isPlain c = true) : 32 ≤ c := by
  grind [isPlain]

lemma le_of_isEscaped (h : isEscaped e = true) : 32 ≤ e := by
  have hall : (ascii "\"/\\bfnrtu").all (fun e => decide (32 ≤ e)) = true := by decide
  exact of_decide_eq_true (all_eq_true.mp hall e (of_decide_eq_true h))

lemma le_of_mem_escape (h : isPlain c = false) : ∀ x ∈ escape c, 32 ≤ x := by
  obtain ⟨e, he, -, hescaped⟩ | ⟨hhex, hctrl⟩ := escape_cases h
  · rw [he, forall_mem_cons, forall_mem_singleton]
    exact ⟨by decide, le_of_isEscaped hescaped⟩
  · rw [hhex, forall_mem_cons, forall_mem_cons]
    exact ⟨by decide, by decide, fun d hd => le_of_plain (isPlain_numbuf hctrl d hd)⟩

lemma le_of_mem_stored (escapeAll : Bool) (nc : UInt8) :
    ∀ x ∈ (stored escapeAll c nc).1, 32 ≤ x := by
  rw [stored]
  split_ifs with hplain hpair
  · exact forall_mem_singleton.mpr (le_of_plain hplain)
  · exact forall_mem_cons.mpr ⟨by rw [hpair.1]; decide,
      forall_mem_singleton.mpr (le_of_isEscaped hpair.2.2)⟩
  · exact le_of_mem_escape (Bool.eq_false_iff.mpr hplain)

lemma le_of_mem_escapedText (escapeAll skip : Bool) (s : Bytes) :
    ∀ x ∈ escapedText escapeAll skip s, 32 ≤ x := by
  induction s generalizing skip with
  | nil => exact fun x hx => absurd hx not_mem_nil
  | cons c s ih =>
    cases skip with
    | true => exact ih false
    | false => exact forall_mem_append.mpr ⟨le_of_mem_stored escapeAll _, ih _⟩

/-- The length of a value, as `jsonEncode` is given it. -/
def IsLength (s : Bytes) (pBufLen : Int32) : Prop :=
  s.length < 2 ^ 31 ∧ (pBufLen = Int32.ofNat s.length ∨ pBufLen = -1 ∧ 0 ∉ s)

variable {s : Bytes}

lemma takeWhile_ne_zero (h : 0 ∉ s) : s.takeWhile (· ≠ 0) = s :=
  takeWhile_eq_self_iff.mpr fun _ hc => decide_eq_true fun hzero => h (hzero ▸ hc)

lemma ofNat_ne_neg_one {n : ℕ} (h : n < 2 ^ 31) : Int32.ofNat n ≠ -1 := by
  intro heq
  have hint : (n : ℤ) = -1 := (Int32.toInt_ofNat_of_lt h).symm.trans (congrArg Int32.toInt heq)
  omega

variable {pBufLen : Int32}

lemma valueText_of_isLength (h : IsLength s pBufLen) : valueText (s, pBufLen) = s := by
  rw [valueText]
  obtain ⟨hlen, rfl | ⟨rfl, hnul⟩⟩ := h
  · rw [if_neg (ofNat_ne_neg_one hlen), Int32.toInt_ofNat_of_lt hlen, Int.toNat_natCast,
      take_length]
  · rw [if_pos rfl, takeWhile_ne_zero hnul]

lemma buflen_eq (h : IsLength s pBufLen) :
    (if pBufLen = -1 then (s.takeWhile (· ≠ 0)).length % 2 ^ 32 else pBufLen.toUInt32.toNat) =
      s.length := by
  obtain ⟨hlen, rfl | ⟨rfl, hnul⟩⟩ := h
  · rw [if_neg (ofNat_ne_neg_one hlen), Int32.toUInt32_ofNat', UInt32.toNat_ofNat',
      Nat.mod_eq_of_lt (by omega)]
  · rw [if_pos rfl, takeWhile_ne_zero hnul, Nat.mod_eq_of_lt (by omega)]

lemma jsonEncode_eq (h : IsLength s pBufLen) (escapeAll : Bool) :
    jsonEncode s pBufLen escapeAll =
      some (if s.all isPlain then (s, pBufLen)
        else (Script.esStr2cstr (escapedText escapeAll false s), -1)) := by
  rw [jsonEncode]
  simp only [buflen_eq h, take_length, jsonAddVal_eq h.1, bind_eq_bind,
    bind_some]
  by_cases hall : s.all isPlain = true
  · simp only [if_pos hall, Option.map_none]
  · simp only [if_neg hall, Option.getD_none, nil_append]

lemma escapedText_of_plain (h : ∀ c ∈ s, isPlain c = true) (escapeAll : Bool) :
    escapedText escapeAll false s = s := by
  have happend := escapedText_plain_append escapeAll h []
  rwa [escapedText, append_nil] at happend

lemma valueText_cstr (h : 0 ∉ s) : valueText (Script.esStr2cstr s, -1) = s := by
  have hfilter : Script.esStr2cstr s = s :=
    filter_eq_self.mpr fun _ hc => bne_iff_ne.mpr fun hzero => h (hzero ▸ hc)
  rw [hfilter]
  exact takeWhile_ne_zero h

lemma exists_jsonEncode (hlen : IsLength s pBufLen) (escapeAll : Bool) :
    ∃ v, jsonEncode s pBufLen escapeAll = some v ∧
      valueText v = escapedText escapeAll false s := by
  refine ⟨_, jsonEncode_eq hlen escapeAll, ?_⟩
  split
  case isTrue hplain =>
    rw [valueText_of_isLength hlen, escapedText_of_plain (all_eq_true.mp hplain)]
  case isFalse =>
    refine valueText_cstr fun hmem => ?_
    exact absurd (le_of_mem_escapedText _ _ s 0 hmem) (by decide)

/-- The value is encoded within the bounds of the work buffer, and read back as it was. -/
theorem jsonEncode_unescape (s : Bytes) (pBufLen : Int32) (hlen : IsLength s pBufLen) :
    ∃ v, jsonEncode s pBufLen true = some v ∧ unescape (valueText v) = some s ∧
      ∀ c ∈ valueText v, 32 ≤ c := by
  obtain ⟨v, hv, htext⟩ := exists_jsonEncode hlen true
  refine ⟨v, hv, ?_, ?_⟩
  · rw [htext, unescape_escapedText]
  · rw [htext]
    exact le_of_mem_escapedText _ _ s

/-- A NUL, a quote and a bell, given with their length. -/
theorem jsonEncode_unescape_three :
    ∃ v, jsonEncode [0, 34, 7] 3 true = some v ∧ unescape (valueText v) = some [0, 34, 7] ∧
      ∀ c ∈ valueText v, 32 ≤ c :=
  jsonEncode_unescape [0, 34, 7] 3 ⟨by decide, .inl rfl⟩

/-! ## Encoding twice -/

def isHex (d : UInt8) : Bool := (hexValue d).isSome

/-- The text starts with `n` hex digits. -/
def hexDigits : ℕ → Bytes → Bool
  | 0, _ => true
  | _ + 1, [] => false
  | n + 1, d :: text => isHex d && hexDigits n text

/-- What may stand inside a JSON string. The digits of `\u` are looked at twice. -/
def validContent : Bytes → Bool
  | [] => true
  | [c] => c ≠ 34 && 32 ≤ c && c ≠ 92
  | c :: e :: text =>
    if c = 92 then
      if e = 117 then hexDigits 4 text && validContent text
      else (simpleEscape e).isSome && validContent text
    else c ≠ 34 && 32 ≤ c && validContent (e :: text)

/-- Every `\u` that is taken for an escape sequence has its digits. -/
def unicodeComplete : Bytes → Bool
  | [] => true
  | [_] => true
  | c :: e :: text =>
    if c = 92 ∧ isEscaped e then (e ≠ 117 || hexDigits 4 text) && unicodeComplete text
    else unicodeComplete (e :: text)

/-- What is stored for an octet, apart from a backslash that already escapes. -/
def storedAlone (c : UInt8) : Bytes := if isPlain c then [c] else escape c

lemma escapedText_pair {e : UInt8} (he : isEscaped e = true) (text : Bytes) :
    escapedText false false (92 :: e :: text) = 92 :: e :: escapedText false false text := by
  have hstored : stored false 92 ((e :: text).headD 0) = ([92, e], true) := by
    rw [stored, if_neg (by decide), if_pos ⟨rfl, rfl, he⟩]
    rfl
  rw [escapedText, hstored]
  rfl

lemma escapedText_alone {text : Bytes} (h : ¬(c = 92 ∧ isEscaped (text.headD 0) = true)) :
    escapedText false false (c :: text) = storedAlone c ++ escapedText false false text := by
  rw [escapedText, stored, if_neg (c := c = 92 ∧ _) fun hc => h ⟨hc.1, hc.2.2⟩, storedAlone]
  split <;> rfl

lemma validContent_plain (h : isPlain c = true) (text : Bytes) :
    validContent (c :: text) = validContent text := by
  obtain ⟨hspecial, hback⟩ := not_special_of_plain h
  obtain ⟨hquote, hctrl⟩ := not_or.mp hspecial
  cases text with
  | nil => simp [validContent, hquote, hback, UInt8.not_lt.mp hctrl]
  | cons e text =>
    rw [validContent, if_neg hback]
    simp [hquote, UInt8.not_lt.mp hctrl]

lemma validContent_plain_append {head : Bytes} (h : ∀ c ∈ head, isPlain c = true)
    (text : Bytes) : validContent (head ++ text) = validContent text := by
  induction head with
  | nil => rfl
  | cons c head ih =>
    obtain ⟨hc, hhead⟩ := forall_mem_cons.mp h
    rw [cons_append, validContent_plain hc, ih hhead]

lemma validContent_pair (he : isEscaped e = true) (text : Bytes) :
    validContent (92 :: e :: text) = ((e ≠ 117 || hexDigits 4 text) && validContent text) := by
  have hall : (ascii "\"/\\bfnrtu").all (fun e => e = 117 || (simpleEscape e).isSome) = true := by
    decide
  have hsimple := all_eq_true.mp hall e (of_decide_eq_true he)
  rw [validContent, if_pos rfl]
  by_cases hu : e = 117
  · simp [hu]
  · simp_all

lemma hexDigits_numbuf (h : c < 32) (text : Bytes) :
    hexDigits 4 (numbuf 4 c [] ++ text) = true := by
  have hall : (numbuf 4 c []).all isHex = true :=
    Lib.forall_octet (show c.toNat < 32 from h) (by decide)
  exact hall

lemma storedAlone_append (c : UInt8) (text : Bytes) :
    validContent (storedAlone c ++ text) = validContent text ∧
      escapedText false false (storedAlone c ++ text) =
        storedAlone c ++ escapedText false false text := by
  rw [storedAlone]
  cases hc : isPlain c with
  | true => exact ⟨validContent_plain hc text, escapedText_cons_plain false hc text⟩
  | false =>
    obtain ⟨e, he, hsimple, hescaped⟩ | ⟨hhex, hctrl⟩ := escape_cases hc
    · have hu : e ≠ 117 := by
        rintro rfl
        exact absurd hsimple (by simp [simpleEscape])
      rw [if_neg (by decide), he]
      exact ⟨by simpa [hu] using validContent_pair hescaped text, escapedText_pair hescaped text⟩
    · have hplain := isPlain_numbuf hctrl
      rw [if_neg (by decide), hhex]
      constructor
      · rw [cons_append, cons_append, validContent_pair (by decide), hexDigits_numbuf hctrl,
          validContent_plain_append hplain]
        rfl
      · rw [cons_append, cons_append, escapedText_pair (by decide),
          escapedText_plain_append false hplain]
        rfl

lemma hexDigits_escapedText (n : ℕ) (text : Bytes) :
    hexDigits n (escapedText false false text) = hexDigits n text := by
  induction n generalizing text with
  | zero => rfl
  | succ n ih =>
    cases text with
    | nil => rfl
    | cons c text =>
      cases hc : isPlain c with
      | true => rw [escapedText_cons_plain false hc, hexDigits, hexDigits, ih]
      | false =>
        have hhex : isHex c = false := by
          grind [isHex, hexValue, isPlain]
        have hback : ∃ tail, escapedText false false (c :: text) = 92 :: tail := by
          rw [escapedText, stored, if_neg (Bool.eq_false_iff.mp hc)]
          split_ifs with hpair
          · exact ⟨_, by rw [hpair.1]; rfl⟩
          · obtain ⟨e, he, -⟩ | ⟨he, -⟩ := escape_cases hc <;> exact ⟨_, by rw [he]; rfl⟩
        obtain ⟨tail, hback⟩ := hback
        rw [hback, hexDigits, hexDigits, hhex]
        rfl

lemma escapedText_spec (s : Bytes) :
    validContent (escapedText false false s) = unicodeComplete s ∧
      escapedText false false (escapedText false false s) = escapedText false false s := by
  fun_induction unicodeComplete s with
  | case1 => exact ⟨rfl, rfl⟩
  | case2 c =>
    rw [escapedText_alone fun h => absurd h.2 (by decide)]
    obtain ⟨hvalid, htext⟩ := storedAlone_append c []
    exact ⟨hvalid, htext⟩
  | case3 c e text h ih =>
    obtain ⟨rfl, he⟩ := h
    rw [escapedText_pair he, escapedText_pair he, validContent_pair he, hexDigits_escapedText, ih.1,
      ih.2]
    exact ⟨rfl, rfl⟩
  | case4 c e text h ih =>
    obtain ⟨hvalid, htext⟩ := storedAlone_append c (escapedText false false (e :: text))
    rw [escapedText_alone h, hvalid, htext, ih.1, ih.2]
    exact ⟨rfl, rfl⟩

/-- The text is valid inside a JSON string exactly if every `\u` in it that starts an escape
sequence has its digits. Encoding it again changes nothing. -/
theorem jsonEncode_valid_iff (s : Bytes) (pBufLen : Int32) (hlen : IsLength s pBufLen) :
    ∃ v, jsonEncode s pBufLen false = some v ∧
      (validContent (valueText v) = true ↔ unicodeComplete s = true) ∧
      ∀ len, IsLength (valueText v) len →
        ∃ w, jsonEncode (valueText v) len false = some w ∧ valueText w = valueText v := by
  obtain ⟨v, hv, htext⟩ := exists_jsonEncode hlen false
  obtain ⟨hvalid, htwice⟩ := escapedText_spec s
  refine ⟨v, hv, by rw [htext, hvalid], fun len hlen' => ?_⟩
  obtain ⟨w, hw, htext'⟩ := exists_jsonEncode hlen' false
  exact ⟨w, hw, by rw [htext', htext, htwice]⟩

theorem jsonEncode_valid_quoted :
    ∃ v, jsonEncode (ascii "\"C:\\temp\"\t\\u00e4") 16 false = some v ∧
      validContent (valueText v) = true := by
  obtain ⟨v, hv, hvalid, -⟩ :=
    jsonEncode_valid_iff (ascii "\"C:\\temp\"\t\\u00e4") 16 ⟨by decide, .inl rfl⟩
  exact ⟨v, hv, hvalid.mpr (by decide)⟩

/-- `\u` is left as it is. -/
theorem jsonEncode_unicode_invalid :
    jsonEncode [92, 117] 2 false = some ([92, 117], -1) ∧ validContent [92, 117] = false := by
  decide +kernel

end Rsyslog.Json
