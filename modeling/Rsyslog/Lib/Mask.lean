import Mathlib.Data.Nat.Notation
import Mathlib.Tactic.IntervalCases

/-!
# Masks for the first bits of a number

`high b` has its first `b` bits set. Numbers agree in their first `b` bits exactly if they are the
same under the mask (`and_high_eq_iff`), and so do numbers made of several words, of which all that
follow the first `b` bits are cleared (`maskWords_eq_iff`). Bits are counted from the most
significant one.

`swap` reverses the bytes of a word of 32 bits.
-/

namespace Rsyslog.Lib

variable {w n : ℕ}

def high (w b : ℕ) : BitVec w := BitVec.allOnes w <<< (w - b)

open BitVec

lemma getMsbD_high {b : ℕ} (hb : b ≤ w) (i : ℕ) : (high w b).getMsbD i = decide (i < b) := by
  simp only [high, getMsbD_shiftLeft, getMsbD_allOnes, decide_eq_decide]
  omega

lemma and_high_zero (x : BitVec w) : x &&& high w 0 = 0 := by
  simp [high]

/-- Under the mask, numbers are the same if their first bits are. -/
lemma and_high_eq_iff {b : ℕ} (hb : b ≤ w) (x y : BitVec w) :
    x &&& high w b = y &&& high w b ↔ ∀ i < b, x.getMsbD i = y.getMsbD i := by
  constructor
  · intro h i hi
    have hbit := congrArg (getMsbD · i) h
    simpa [getMsbD_high hb, hi] using hbit
  · intro h
    apply eq_of_getMsbD_eq
    intro i hi
    rw [getMsbD_and, getMsbD_and, getMsbD_high hb]
    by_cases hib : i < b
    · rw [h i hib]
    · simp [hib]

/-! ## Several words -/

/-- The bit at a position of a number that is made of words, the first one on top. -/
def wordBit (words : Fin n → BitVec w) (i : ℕ) : Bool :=
  if h : i / w < n then (words ⟨i / w, h⟩).getMsbD (i % w) else false

def maskWords (b : ℕ) (words : Fin n → BitVec w) : Fin n → BitVec w :=
  fun j => if j < b / w then words j else if j = b / w then words j &&& high w (b % w) else 0

lemma wordBit_mul_add (words : Fin n → BitVec w) (j : Fin n) {k : ℕ} (hk : k < w) :
    wordBit words (w * j + k) = (words j).getMsbD k := by
  have hdiv : (w * j + k) / w = j := by
    rw [Nat.mul_add_div (by omega), Nat.div_eq_of_lt hk, Nat.add_zero]
  have hmod : (w * j + k) % w = k := by
    rw [Nat.mul_add_mod, Nat.mod_eq_of_lt hk]
  simp only [wordBit, hdiv, hmod, j.isLt, dif_pos]

/-- Under the mask, numbers of several words are the same if their first bits are. -/
lemma maskWords_eq_iff {b : ℕ} (hw : 0 < w) (hb : b ≤ w * n) (x y : Fin n → BitVec w) :
    maskWords b x = maskWords b y ↔ ∀ i < b, wordBit x i = wordBit y i := by
  have hrest := Nat.mod_lt b hw
  have hsum := Nat.div_add_mod b w
  constructor
  · intro h i hi
    have hik := Nat.mod_lt i hw
    have hisum := Nat.div_add_mod i w
    have hle : i / w ≤ b / w := Nat.div_le_div_right (by omega)
    have hj : i / w < n := Nat.div_lt_of_lt_mul (by omega)
    have hword := congrFun h ⟨i / w, hj⟩
    rw [← hisum, wordBit_mul_add x ⟨i / w, hj⟩ hik, wordBit_mul_add y ⟨i / w, hj⟩ hik]
    rcases Nat.lt_or_eq_of_le hle with hlt | heq
    · simp only [maskWords, hlt, if_true] at hword
      rw [hword]
    · -- the word in which the mask ends
      have hnot : ¬ i / w < b / w := by omega
      simp only [maskWords, if_neg hnot, if_pos heq] at hword
      rw [heq] at hisum
      exact (and_high_eq_iff hrest.le _ _).1 hword _ (by omega)
  · intro h
    funext j
    simp only [maskWords]
    split_ifs with hlt heq
    · apply eq_of_getMsbD_eq
      intro k hk
      have hpos : w * j + w ≤ w * (b / w) := by
        rw [← Nat.mul_succ]
        exact Nat.mul_le_mul_left w hlt
      rw [← wordBit_mul_add x j hk, ← wordBit_mul_add y j hk]
      exact h _ (by omega)
    · rw [and_high_eq_iff hrest.le]
      intro k hk
      rw [← wordBit_mul_add x j (hk.trans hrest), ← wordBit_mul_add y j (hk.trans hrest)]
      exact h _ (by rw [heq]; omega)
    · rfl

/-! ## Byte order -/

def swap (x : BitVec 32) : BitVec 32 :=
  x.extractLsb' 0 8 ++ x.extractLsb' 8 8 ++ x.extractLsb' 16 8 ++ x.extractLsb' 24 8

lemma getLsbD_swap (x : BitVec 32) (i : ℕ) (hi : i < 32) :
    (swap x).getLsbD i = x.getLsbD ((3 - i / 8) * 8 + i % 8) := by
  simp only [swap, getLsbD_append, getLsbD_extractLsb']
  interval_cases i <;> rfl

lemma swap_swap (x : BitVec 32) : swap (swap x) = x := by
  apply eq_of_getLsbD_eq
  intro i hi
  rw [getLsbD_swap _ i hi, getLsbD_swap _ _ (by omega)]
  congr 1
  omega

lemma swap_and (x y : BitVec 32) : swap (x &&& y) = swap x &&& swap y := by
  apply eq_of_getLsbD_eq
  intro i hi
  rw [getLsbD_and, getLsbD_swap _ i hi, getLsbD_swap _ i hi, getLsbD_swap _ i hi,
    getLsbD_and]

end Rsyslog.Lib
