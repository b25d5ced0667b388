import Mathlib.Data.List.Infix
import Rsyslog.Lib.Decimal

/-!
# Values of RainerScript

`struct svar` of `grammar/rainerscript.h` and the conversions `str2num`, `var2Number` and
`var2String` of `grammar/rainerscript.c`. A value is a number, a string or a reference to a JSON
object. All three lie in one union, so the number `d.n` of a JSON value is the address of the
object.

What is not part of rsyslog is in `Libs`, with its documented behaviour as fields.
-/

namespace Rsyslog.Script

open Lib

/-! ## Data -/

/-- What the libraries do. `J` is the type of JSON objects. -/
structure Libs (J : Type) where
  /-- `es_strcmp` -/
  strcmp : Bytes → Bytes → Int32
  strcmp_eq_zero : ∀ s t, strcmp s t = 0 ↔ s = t
  /-- `bsearch` on an array of strings, with `es_strcmp` as the order -/
  bsearch : Bytes → List Bytes → Bool
  bsearch_iff : ∀ s arr, arr.Pairwise (fun s t => strcmp s t ≤ 0) → (bsearch s arr = true ↔ s ∈ arr)
  /-- `es_strncmp` and `es_strncasecmp` -/
  strncmp : Bytes → Bytes → ℕ → Int32
  strncasecmp : Bytes → Bytes → ℕ → Int32
  /-- `es_strContains` and `es_strCaseContains`, -1 if the string is not found -/
  strContains : Bytes → Bytes → Int32
  strCaseContains : Bytes → Bytes → Int32
  /-- `json_object_get_int64` -/
  getInt64 : J → Int64
  /-- `json_object_get_string` -/
  getString : J → Bytes
  /-- The object is of type `json_type_int`. -/
  isInt : J → Bool
  getString_of_isInt : ∀ j, isInt j = true → getString j = decimalInt (getInt64 j).toInt

def Libs.ints : Libs Int64 where
  strcmp s t := if s = t then 0 else if s < t then -1 else 1
  strcmp_eq_zero s t := by
    by_cases h : s = t
    · simp [h]
    · by_cases hlt : s < t <;> simp [h, hlt]
  bsearch s arr := arr.contains s
  bsearch_iff s arr _ := List.contains_iff_mem
  strncmp s t n := if s.take n = t.take n then 0 else 1
  strncasecmp s t n := if s.take n = t.take n then 0 else 1
  strContains s t := if t <:+: s then 0 else -1
  strCaseContains s t := if t <:+: s then 0 else -1
  getInt64 j := j
  getString j := decimalInt j.toInt
  isInt _ := true
  getString_of_isInt _ _ := rfl

structure JsonRef (J : Type) where
  /-- The address, as a `long long`. -/
  addr : Int64
  obj : Option J
  addr_eq_zero : addr = 0 ↔ obj = none

inductive Svar (J : Type)
  | n (n : Int64)
  | s (estr : Bytes)
  | j (json : JsonRef J)

/-! ## Conversions -/

def str2numLoop : Int64 → Bytes → Int64 × Bytes
  | num, [] => (num, [])
  | num, c :: cs =>
    if isDigit c then str2numLoop (num * 10 + Int64.ofNat c.toNat - 48) cs else (num, c :: cs)

def str2num (s : Bytes) : Int64 × Bool :=
  match s with
  | [] => (0, true)
  | c :: cs =>
    if c = 45 then
      let (num, rest) := str2numLoop 0 cs
      (num * -1, rest.isEmpty)
    else
      let (num, rest) := str2numLoop 0 (c :: cs)
      (num * 1, rest.isEmpty)

section Conversions

variable {J : Type} (libs : Libs J)

def JsonRef.int64 (p : JsonRef J) : Int64 := p.obj.elim 0 libs.getInt64

def JsonRef.string (p : JsonRef J) : Bytes := p.obj.elim [] libs.getString

def var2Number : Svar J → Int64 × Bool
  | .n n => (n, true)
  | .s estr => str2num estr
  | .j json => (json.int64 libs, true)

def var2String : Svar J → Bytes
  | .n n => decimalInt n.toInt
  | .s estr => estr
  | .j json => json.string libs

end Conversions

end Rsyslog.Script
