import Mathlib.Data.Nat.Notation
import Mathlib.Data.List.Basic

/-!
# Blocks of memory

A block has a fixed number of places, each of which holds something from the beginning on. Reading
or writing outside of it has no defined outcome. `splice` is what a write leaves: the rules say what
is found before, in, and behind the places that were written.
-/

namespace Rsyslog.Lib

variable {α : Type*} {n : ℕ}

/-- `buf` with `text` written over what is there from place `i` on. -/
def splice (buf : List α) (i : ℕ) (text : List α) : List α :=
  buf.take i ++ (text ++ buf.drop (i + text.length))

section Splice

variable {buf text : List α} {i j : ℕ}

lemma splice_nil (buf : List α) (i : ℕ) : splice buf i [] = buf := by
  simp [splice]

lemma length_splice (h : i + text.length ≤ buf.length) :
    (splice buf i text).length = buf.length := by
  simp only [splice, List.length_append, List.length_take, List.length_drop]
  omega

/-- Before the place of the write, nothing changes. -/
lemma take_splice (hij : j ≤ i) (hi : i ≤ buf.length) :
    (splice buf i text).take j = buf.take j := by
  rw [splice, List.take_append_of_le_length (by rw [List.length_take]; omega), List.take_take,
    Nat.min_eq_left hij]

/-- What was written is read back. -/
lemma take_drop_splice (text : List α) (hi : i ≤ buf.length) :
    ((splice buf i text).drop i).take text.length = text := by
  have hlen : (buf.take i).length = i := by rw [List.length_take]; omega
  rw [splice, List.drop_left' hlen, List.take_left]

end Splice

/-- A block with `n` places. -/
structure Block (α : Type*) (n : ℕ) where
  bytes : List α
  length_bytes : bytes.length = n
  deriving DecidableEq

namespace Block

def write (b : Block α n) (i : ℕ) (text : List α) : Option (Block α n) :=
  if h : i + text.length ≤ n then
    some ⟨splice b.bytes i text, by
      rw [length_splice (by rw [b.length_bytes]; exact h), b.length_bytes]⟩
  else none

def read (b : Block α n) (k : ℕ) : Option (List α) := if k ≤ n then some (b.bytes.take k) else none

lemma write_of_le (b : Block α n) (i : ℕ) (text : List α) (h : i + text.length ≤ n) :
    ∃ b', b.write i text = some b' ∧ b'.bytes = splice b.bytes i text :=
  ⟨_, dif_pos h, rfl⟩

lemma write_eq_none (b : Block α n) {i : ℕ} {text : List α} (h : n < i + text.length) :
    b.write i text = none := dif_neg (by omega)

end Block

end Rsyslog.Lib
