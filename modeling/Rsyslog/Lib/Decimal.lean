import Mathlib.Data.List.Basic
import Mathlib.Data.Nat.Init
import Mathlib.Tactic.IntervalCases

/-!
# Decimal numerals as bytes

`decimal n` is the ASCII numeral of `n`. A reader that consumes it digit by digit is described by
one step: if reading the digit `d` takes the value `m` to `m * 10 + d`, reading the numeral of `n`
from `0` ends at `n` (`foldl_decimal`), whatever type the reader keeps its value in.
-/

namespace Rsyslog

/-- A string of octets. -/
abbrev Bytes := List UInt8

end Rsyslog

namespace Rsyslog.Lib

open List

def ascii (s : String) : Bytes := s.toList.map Char.toUInt8

/-- A statement about small octets can be checked for one after the other. -/
@[elab_as_elim]
lemma forall_octet {p : UInt8 → Prop} {k : ℕ} {c : UInt8} (hc : c.toNat < k)
    (h : ∀ n : Fin k, p (UInt8.ofNat n)) : p c := by
  have hn := h ⟨c.toNat, hc⟩
  rwa [UInt8.ofNat_toNat] at hn

/-- What is before the first NUL. -/
def cstring (buf : Bytes) : Bytes := buf.takeWhile (· ≠ 0)

def isspace (c : UInt8) : Bool := c == 32 || (9 ≤ c && c ≤ 13)

def hexdigit (d : UInt8) : UInt8 := if d < 10 then 48 + d else 55 + d

def digit (d : ℕ) : UInt8 := UInt8.ofNat (48 + d)

def isDigit (c : UInt8) : Bool := 48 ≤ c && c ≤ 57

def decimal (n : ℕ) : Bytes := (Nat.toDigits 10 n).map Char.toUInt8

def decimalInt (i : ℤ) : Bytes := (if i < 0 then [45] else []) ++ decimal i.natAbs

lemma isDigit_iff {c : UInt8} : isDigit c = true ↔ 48 ≤ c.toNat ∧ c.toNat ≤ 57 := by
  simp [isDigit, UInt8.le_iff_toNat_le]

lemma isDigit_digit {d : ℕ} (hd : d < 10) : isDigit (digit d) = true := by
  interval_cases d <;> rfl

lemma toNat_digit {d : ℕ} (hd : d < 10) : (digit d).toNat = 48 + d := by
  interval_cases d <;> rfl

/-- The last digit comes off the end. -/
lemma decimal_unfold (n : ℕ) :
    decimal n = (if n < 10 then [] else decimal (n / 10)) ++ [digit (n % 10)] := by
  have hchar : ∀ d < 10, (Nat.digitChar d).toUInt8 = digit d := by
    intro d hd
    interval_cases d <;> rfl
  rw [decimal, Nat.toDigits_eq_if (by omega)]
  split
  case isTrue hlt => simp [hchar n hlt, Nat.mod_eq_of_lt hlt]
  case isFalse => simp [decimal, hchar (n % 10) (Nat.mod_lt _ (by omega))]

lemma decimal_ne_nil (n : ℕ) : decimal n ≠ [] := by
  rw [decimal_unfold]
  exact append_ne_nil_of_right_ne_nil _ (cons_ne_nil _ _)

lemma isDigit_of_mem_decimal {n : ℕ} {c : UInt8} (hc : c ∈ decimal n) : isDigit c = true := by
  induction n using Nat.strong_induction_on with
  | _ n ih =>
    rw [decimal_unfold, mem_append] at hc
    rcases hc with hc | hc
    · by_cases hlt : n < 10
      · rw [if_pos hlt] at hc
        cases hc
      · rw [if_neg hlt] at hc
        exact ih (n / 10) (by omega) hc
    · rw [mem_singleton.mp hc]
      exact isDigit_digit (Nat.mod_lt _ (by omega))

/-- Below `10 ^ k` a numeral has at most `k` digits. -/
lemma length_decimal_le {n k : ℕ} (hk : 1 ≤ k) (hn : n < 10 ^ k) : (decimal n).length ≤ k := by
  induction k generalizing n with
  | zero => omega
  | succ k ih =>
    rw [decimal_unfold, length_append, length_singleton]
    by_cases hlt : n < 10
    · rw [if_pos hlt, length_nil]
      omega
    · rw [if_neg hlt]
      have hk' : 1 ≤ k := by
        rcases k with _ | k
        · rw [Nat.zero_add, Nat.pow_one] at hn
          exact absurd hn hlt
        · omega
      have hdiv : n / 10 < 10 ^ k := by
        rw [Nat.pow_succ] at hn
        omega
      have hlen := ih hk' hdiv
      omega

/-- **Reading a numeral.** A step that takes the value `m` to `m * 10 + d` on the digit `d`, as long
as the result does not exceed `n`, takes `0` to `n` on the numeral of `n`. -/
theorem foldl_decimal {α : Type*} (f : α → UInt8 → α) (v : ℕ → α) (n : ℕ)
    (hstep : ∀ m d, d < 10 → m * 10 + d ≤ n → f (v m) (digit d) = v (m * 10 + d)) :
    (decimal n).foldl f (v 0) = v n := by
  induction n using Nat.strong_induction_on with
  | _ n ih =>
    have hlast : f (v (n / 10)) (digit (n % 10)) = v n := by
      rw [hstep (n / 10) (n % 10) (Nat.mod_lt _ (by omega)) (by omega)]
      congr 1
      omega
    rw [decimal_unfold, foldl_append, foldl_cons, foldl_nil]
    by_cases hlt : n < 10
    · rw [if_pos hlt, foldl_nil]
      rwa [Nat.div_eq_of_lt hlt] at hlast
    · rw [if_neg hlt, ih (n / 10) (by omega) fun m d hd hle => hstep m d hd (by omega)]
      exact hlast

/-! ## Numerals of a given width -/

def numeral : ℕ → ℕ → Bytes
  | 0, _ => []
  | k + 1, n => digit (n / 10 ^ k % 10) :: numeral k n

lemma length_numeral (k n : ℕ) : (numeral k n).length = k := by
  induction k with
  | zero => rfl
  | succ k ih => rw [numeral, length_cons, ih]

end Rsyslog.Lib
