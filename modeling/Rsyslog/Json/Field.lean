import Rsyslog.Json.Encode

/-!
# A property as the member of a JSON object

`jsonField` of `msg.c`, which the template option `jsonf` stands for. In data type `auto` the text
is written as a number if it has digits only.
-/

namespace Rsyslog.Json

open List

inductive DataType
  | string
  | number
  | bool
  | auto
  deriving DecidableEq

inductive OnEmpty
  | keep
  | skip
  | null
  deriving DecidableEq

/-- The options of the template entry that matter for the field. -/
structure FieldEntry where
  fieldName : Bytes
  dataType : DataType
  onEmpty : OnEmpty

def fieldStart (tpe : FieldEntry) : Bytes := 34 :: (tpe.fieldName ++ [34, 58])

/-- `jsonField`: the text afterwards. There is no NUL in it, so that `es_str2cstr` copies it. -/
def jsonField (tpe : FieldEntry) (pSrc : Bytes) (escapeAll : Bool) : Option Bytes :=
  if pSrc = [] ∧ tpe.onEmpty = .skip then some pSrc
  else
    let dst := fieldStart tpe
    let addVal (dst : Bytes) := (jsonAddVal pSrc (some dst) escapeAll).map (·.getD dst)
    if pSrc = [] ∧ tpe.onEmpty = .null then some (dst ++ Lib.ascii "null")
    else
      match tpe.dataType with
      | .auto =>
        if pSrc ≠ [] ∧ pSrc.all Lib.isDigit then addVal dst
        else (addVal (dst ++ [34])).map (· ++ [34])
      | .string => (addVal (dst ++ [34])).map (· ++ [34])
      | .number => if pSrc = [] then some (dst ++ [48]) else addVal dst
      | .bool => some (dst ++ Lib.ascii (if pSrc = [48] then "false" else "true"))

/-- The digits of a JSON number: a zero, or no zero in front. -/
def IsNumber (text : Bytes) : Prop :=
  text ≠ [] ∧ text.all Lib.isDigit = true ∧ (text.head? = some 48 → text = [48])

/-- A member with the name, and with the text as its value. -/
def IsMember (tpe : FieldEntry) (text out : Bytes) : Prop :=
  unescape tpe.fieldName = some tpe.fieldName ∧
    ((∃ content, out = fieldStart tpe ++ 34 :: (content ++ [34]) ∧
        unescape content = some text) ∨
      tpe.dataType = .auto ∧ IsNumber text ∧ out = fieldStart tpe ++ text)

variable {tpe : FieldEntry} {text : Bytes}

lemma addVal_eq (hlen : text.length < 2 ^ 31) (dst : Bytes) :
    (jsonAddVal text (some dst) true).map (·.getD dst) =
      some (dst ++ escapedText true false text) := by
  rw [jsonAddVal_eq hlen, Option.map_some]
  split_ifs with hall
  · rw [escapedText_of_plain (all_eq_true.mp hall)]
    rfl
  · rfl

lemma isPlain_of_isDigit {c : UInt8} (h : Lib.isDigit c = true) : isPlain c = true := by
  grind [Lib.isDigit, isPlain]

lemma jsonField_eq (htype : tpe.dataType = .auto ∨ tpe.dataType = .string)
    (hlen : text.length < 2 ^ 31) :
    jsonField tpe text true = some (if text = [] ∧ tpe.onEmpty = .skip then []
      else fieldStart tpe ++ if text = [] ∧ tpe.onEmpty = .null then Lib.ascii "null"
      else if tpe.dataType = .auto ∧ text ≠ [] ∧ text.all Lib.isDigit then text
      else 34 :: (escapedText true false text ++ [34])) := by
  rw [jsonField]
  simp only [addVal_eq hlen, Option.map_some]
  rcases htype with htype | htype
  · simp only [htype, true_and]
    split_ifs with hskip hnull hdigits
    · rw [hskip.1]
    · rfl
    · rw [escapedText_of_plain fun c hc => isPlain_of_isDigit (all_eq_true.mp hdigits.2 c hc)]
    · rw [append_assoc, append_assoc, singleton_append]
  · simp only [htype, reduceCtorEq, false_and, if_false]
    split_ifs with hskip hnull
    · rw [hskip.1]
    · rfl
    · rw [append_assoc, append_assoc, singleton_append]

/-- The result is a member exactly if there is a text or an empty one is kept, and the text is not a
number with zeros in front. -/
theorem jsonField_isMember_iff (tpe : FieldEntry) (text : Bytes)
    (hname : ∀ c ∈ tpe.fieldName, isPlain c = true)
    (htype : tpe.dataType = .auto ∨ tpe.dataType = .string) (hlen : text.length < 2 ^ 31) :
    ∃ out, jsonField tpe text true = some out ∧
      (IsMember tpe text out ↔ (text ≠ [] ∨ tpe.onEmpty = .keep) ∧
        ¬(tpe.dataType = .auto ∧ text.all Lib.isDigit = true ∧ text.head? = some 48 ∧
          text ≠ [48])) := by
  have hunescape : unescape tpe.fieldName = some tpe.fieldName := by
    have h := unescape_escapedText tpe.fieldName
    rwa [escapedText_of_plain hname] at h
  refine ⟨_, jsonField_eq htype hlen, ?_⟩
  rw [IsMember, and_iff_right hunescape]
  split_ifs with hskip hnull hdigits
  · simp [hskip, fieldStart]
  · have hquote : Char.toUInt8 'n' ≠ 34 := by decide
    simp [hnull, IsNumber, Lib.ascii, hquote]
  · obtain ⟨htype, hne, hall⟩ := hdigits
    have hquote : ∀ content, text ≠ 34 :: (content ++ [34]) := by
      rintro content rfl
      exact absurd (all_eq_true.mp hall 34 mem_cons_self) (by decide)
    simp [htype, hne, hall, hquote, IsNumber]
  · refine iff_of_true (.inl ⟨_, rfl, unescape_escapedText text⟩) ⟨?_, ?_⟩
    · refine or_iff_not_imp_left.mpr fun hnil => ?_
      have hnil := not_not.mp hnil
      cases hempty : tpe.onEmpty with
      | keep => rfl
      | skip => exact absurd ⟨hnil, hempty⟩ hskip
      | null => exact absurd ⟨hnil, hempty⟩ hnull
    · rintro ⟨hauto, hall, hhead, -⟩
      refine hdigits ⟨hauto, ?_, hall⟩
      rintro rfl
      cases hhead

theorem jsonField_isMember_seven :
    ∃ out, jsonField ⟨[97], .auto, .keep⟩ [55] true = some out ∧
      IsMember ⟨[97], .auto, .keep⟩ [55] out := by
  obtain ⟨out, hout, hmember⟩ := jsonField_isMember_iff ⟨[97], .auto, .keep⟩ [55]
    (forall_mem_singleton.mpr rfl) (.inl rfl) (by decide)
  exact ⟨out, hout, hmember.mpr (by decide)⟩

/-- `007` is written as it is. -/
theorem jsonField_zeros :
    jsonField ⟨[97], .auto, .keep⟩ [48, 48, 55] true = some [34, 97, 34, 58, 48, 48, 55] ∧
      ¬IsNumber [48, 48, 55] := by
  refine ⟨by decide +kernel, fun h => ?_⟩
  exact absurd (h.2.2 rfl) (by decide)

end Rsyslog.Json
