import Mathlib.Data.List.DropRight
import Rsyslog.Lib.Decimal
import Rsyslog.Lib.Memory
import Rsyslog.Msg.Tag

/-!
# The process id in the TAG

The special parser of imuxsock pulls the TAG from the message into a buffer on the stack, and
`fixPID` then writes the process id that the kernel gives for the sender over the one in the text.
Where there is none it steps back by one octet, for the colon that it takes to be there.

A write outside of the buffer is undefined: the result is `none`.
-/

namespace Rsyslog.Imuxsock

open Lib List
open Rsyslog.Msg (CONF_TAG_MAXSIZE)

/-- `struct ucred`. A process id is not negative, and `pid_t` has 32 bits. -/
structure Ucred where
  pid : ℕ
  pid_lt : pid < 2 ^ 31

abbrev TagBuf := Block UInt8 CONF_TAG_MAXSIZE

/-- The loop that pulls the TAG; `parse` are the `lenMsg` octets that are left. -/
def pullTag (i : ℕ) : Bytes → Bytes
  | [] => []
  | c :: parse =>
    if c ≠ 32 ∧ i < CONF_TAG_MAXSIZE - 1 then c :: pullTag (i + 1) parse else []

/-- `i` after the loop that looks for the last `[`. -/
def skipBack (bufTAG : Bytes) : ℕ → ℤ
  | 0 => if bufTAG.getD 0 0 ≠ 91 then -1 else 0
  | i + 1 => if bufTAG.getD (i + 1) 0 ≠ 91 then skipBack bufTAG i else i + 1

/-- The text of `bufPID`, which has room for it (`length_bufPID_lt`). -/
def bufPID (cred : Ucred) : Bytes := 91 :: (decimal cred.pid ++ [93, 58])

def memcpy (bufTAG : TagBuf) (i : ℤ) (src : Bytes) : Option TagBuf :=
  if 0 ≤ i then bufTAG.write i.toNat src else none

def fixPID (bufTAG : TagBuf) (lenTag : ℕ) (cred : Option Ucred) : Option (TagBuf × ℤ) :=
  match cred with
  | none => some (bufTAG, lenTag)
  | some cred =>
    let lenPID := (bufPID cred).length
    let i := skipBack bufTAG.bytes lenTag
    let i := if i < 0 then (lenTag : ℤ) - 1 else i
    if i + lenPID > CONF_TAG_MAXSIZE then some (bufTAG, lenTag)
    else (memcpy bufTAG i (bufPID cred)).map (·, i + lenPID)

/-- What `SubmitMsg` does for the TAG, up to `MsgSetTAG`. -/
def submitTag (bWritePid : Bool) (bufParseTAG : TagBuf) (parse : Bytes)
    (cred : Option Ucred) : Option (TagBuf × ℤ) :=
  let tag := pullTag 0 parse
  (bufParseTAG.write 0 (tag ++ [0])).bind fun bufParseTAG =>
    if bWritePid then fixPID bufParseTAG tag.length cred else some (bufParseTAG, tag.length)

/-! ## What is meant -/

/-- The TAG up to its last `[`, or all of it. -/
def upToBracket (tag : Bytes) : Bytes :=
  if 91 ∈ tag then tag.rdropWhile (· ≠ 91) else tag

/-- What is before the last `[`, or else before a final colon. -/
def program (tag : Bytes) : Bytes :=
  if 91 ∈ tag ∨ tag.getLast? = some 58 then (upToBracket tag).dropLast else tag

/-- The process id behind `text`, or the TAG as it is if the buffer has no room for that. -/
def patched (tag text : Bytes) (cred : Ucred) : Bytes :=
  if text.length + (bufPID cred).length ≤ CONF_TAG_MAXSIZE then text ++ bufPID cred else tag

/-! ## The patch -/

lemma length_bufPID_lt (cred : Ucred) : (bufPID cred).length < 16 := by
  have hdigits : (decimal cred.pid).length ≤ 10 :=
    length_decimal_le (by decide) (cred.pid_lt.trans (by decide))
  simp only [bufPID, length_cons, length_append, length_nil]
  omega

lemma length_pullTag_le (i : ℕ) (parse : Bytes) (hi : i < CONF_TAG_MAXSIZE) :
    i + (pullTag i parse).length < CONF_TAG_MAXSIZE := by
  fun_induction pullTag i parse with
  | case1 | case3 => exact hi
  | case2 i c parse h ih =>
    have := ih (by omega)
    rw [length_cons]
    omega

/-- The scan ends before what `rdropWhile` keeps ends. -/
lemma skipBack_append (tag rest : Bytes) (c : UInt8) :
    skipBack (tag ++ c :: rest) tag.length = ((tag ++ [c]).rdropWhile (· ≠ 91)).length - 1 := by
  induction tag using reverseRecOn generalizing c rest with
  | nil => by_cases hc : c = 91 <;> simp [skipBack, hc, rdropWhile]
  | append_singleton tag d ih =>
    rw [length_append, length_singleton, skipBack, rdropWhile_concat]
    by_cases hc : c = 91
    · simp only [hc, ne_eq, not_true_eq_false, decide_false, Bool.false_eq_true, if_false]
      simp [add_sub_assoc]
    · have hrest := ih (c :: rest) d
      simp_all

variable {bufTAG : TagBuf} {tag rest : Bytes} {cred : Ucred}

lemma rdropWhile_ne_nil (hmem : 91 ∈ tag) : tag.rdropWhile (· ≠ 91) ≠ [] := fun h => by
  simpa using rdropWhile_eq_nil_iff.mp h 91 hmem

lemma exists_upToBracket (hne : tag ≠ []) :
    ∃ front c more, upToBracket tag = front ++ [c] ∧ tag = front ++ c :: more := by
  obtain ⟨⟨more, hmore⟩, hne⟩ : upToBracket tag <+: tag ∧ upToBracket tag ≠ [] := by
    rw [upToBracket]
    split
    case isTrue hmem => exact ⟨ rdropWhile_prefix _ _, rdropWhile_ne_nil hmem⟩
    case isFalse => exact ⟨prefix_rfl, hne⟩
  obtain ⟨front, c, heq⟩ := (eq_nil_or_concat _).resolve_left hne
  rw [concat_eq_append] at heq
  exact ⟨front, c, more, heq, by rw [← hmore, heq, append_assoc, singleton_append]⟩

lemma place_eq (hbuf : bufTAG.bytes = tag ++ 0 :: rest) :
    (if skipBack bufTAG.bytes tag.length < 0 then (tag.length : ℤ) - 1
      else skipBack bufTAG.bytes tag.length) = (upToBracket tag).length - 1 := by
  rw [hbuf, skipBack_append, rdropWhile_concat_pos _ _ _ (by decide), upToBracket]
  by_cases hmem : 91 ∈ tag
  · have := length_pos_iff.mpr (rdropWhile_ne_nil hmem)
    rw [if_pos hmem, if_neg (by omega)]
  · have hnil : tag.rdropWhile (· ≠ 91) = [] :=
      rdropWhile_eq_nil_iff.mpr fun c hc => by simpa using ne_of_mem_of_not_mem hc hmem
    rw [if_neg hmem, hnil, if_pos (by decide)]

/-- What is written, where there is an octet to step back to. -/
lemma fixPID_eq (hbuf : bufTAG.bytes = tag ++ 0 :: rest) (hne : tag ≠ []) :
    ∃ b n, fixPID bufTAG tag.length (some cred) = some (b, n) ∧
      b.bytes.take n.toNat = patched tag (upToBracket tag).dropLast cred := by
  obtain ⟨front, c, more, hup, htag⟩ := exists_upToBracket hne
  have hplace : ((upToBracket tag).length : ℤ) - 1 = front.length := by simp [hup]
  rw [fixPID, patched, hup, dropLast_concat]
  simp only [place_eq hbuf, hplace]
  by_cases hroom : front.length + (bufPID cred).length ≤ CONF_TAG_MAXSIZE
  · obtain ⟨b, hwrite, hbytes⟩ := bufTAG.write_of_le front.length (bufPID cred) hroom
    rw [if_neg (by omega), if_pos hroom, memcpy, if_pos (by omega), Int.toNat_natCast, hwrite]
    refine ⟨b, front.length + (bufPID cred).length, rfl, ?_⟩
    rw [hbytes, hbuf, htag, splice, append_assoc, take_left, ← append_assoc]
    exact take_left' (by rw [length_append]; omega)
  · rw [if_pos (by omega), if_neg hroom]
    exact ⟨_, _, rfl, by simp [hbuf]⟩

lemma fixPID_nil (hbuf : bufTAG.bytes = [] ++ 0 :: rest) :
    fixPID bufTAG ([] : Bytes).length (some cred) = none := by
  have hlen := length_bufPID_lt cred
  rw [fixPID]
  simp only [place_eq hbuf]
  rw [if_neg (by simp [upToBracket, CONF_TAG_MAXSIZE]; omega)]
  rfl

/-- Without a `[`, stepping back is right for a final colon only, or where nothing is written. -/
lemma patched_eq_iff (cred : Ucred) (hne : tag ≠ []) :
    patched tag (upToBracket tag).dropLast cred = patched tag (program tag) cred ↔
      91 ∈ tag ∨ tag.getLast? = some 58 ∨
        CONF_TAG_MAXSIZE + 1 < tag.length + (bufPID cred).length := by
  rw [program, ← or_assoc]
  split
  case isTrue h => simp [h]
  case isFalse h =>
    have hpid : 3 ≤ (bufPID cred).length := by simp [bufPID]
    have hpos := length_pos_iff.mpr hne
    rw [or_iff_right h, upToBracket, if_neg (not_or.mp h).1]
    constructor
    · intro heq
      have := congrArg length heq
      simp only [patched, length_dropLast] at this
      split_ifs at this <;> simp only [length_append, length_dropLast] at this <;> omega
    · intro hlong
      rw [patched, if_neg (by rw [length_dropLast]; omega), patched, if_neg (by omega)]

/-- The TAG is what it is meant to be exactly if it has a `[` or ends with a colon, or if it is too
long for the process id even without its last octet. -/
theorem submitTag_iff (bufParseTAG : TagBuf) (parse : Bytes) (cred : Ucred) :
    (∃ b n, submitTag true bufParseTAG parse (some cred) = some (b, n) ∧
        b.bytes.take n.toNat = patched (pullTag 0 parse) (program (pullTag 0 parse)) cred) ↔
      91 ∈ pullTag 0 parse ∨ (pullTag 0 parse).getLast? = some 58 ∨
        CONF_TAG_MAXSIZE + 1 < (pullTag 0 parse).length + (bufPID cred).length := by
  have hlen := length_pullTag_le 0 parse (by decide)
  obtain ⟨bufTAG, hwrite, hbytes⟩ := bufParseTAG.write_of_le 0 (pullTag 0 parse ++ [0])
    (by rw [length_append, length_singleton]; omega)
  rw [splice, take_zero, nil_append, append_assoc, singleton_append] at hbytes
  rw [submitTag, hwrite, Option.bind_some, if_pos rfl]
  generalize pullTag 0 parse = tag at *
  rcases eq_or_ne tag [] with rfl | hne
  · rw [fixPID_nil hbytes]
    have := length_bufPID_lt cred
    simp [CONF_TAG_MAXSIZE]
    omega
  · obtain ⟨b, n, hfix, htext⟩ := fixPID_eq hbytes hne
    rw [hfix, ← patched_eq_iff cred hne, ← htext]
    simp

/-- `su` loses its last letter; with no TAG at all, the `[` is written in front of the buffer. -/
theorem submitTag_noColon :
    (submitTag true ⟨replicate _ 0, length_replicate⟩ [115, 117] (some ⟨7, by decide⟩)).map
        (fun r => r.1.bytes.take r.2.toNat) = some [115, 91, 55, 93, 58] ∧
      patched [115, 117] (program [115, 117]) ⟨7, by decide⟩ = [115, 117, 91, 55, 93, 58] ∧
      (submitTag true ⟨replicate _ 0, length_replicate⟩ [] (some ⟨7, by decide⟩)).isNone := by
  decide +kernel

end Rsyslog.Imuxsock
