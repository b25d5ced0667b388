import Mathlib.Data.List.Basic
import Mathlib.Data.Nat.ModEq

/-!
# Wrapping indices and the window of a ring buffer

A ring buffer of capacity `cap` is a list of `cap` optional cells and some indices that step from
`cap - 1` back to `0`. `Ring.idx cap head j` is the cell `j` places after `head`. `Ring.Window` says
that the cells from the `k`-th to the last place after `head` hold the corresponding members of a
list; the places before the `k`-th are still occupied, but what they hold no longer matters.
-/

namespace Rsyslog.Lib.Ring

open List

variable {α : Type*} {cap head i j k : ℕ}

def succ (cap i : ℕ) : ℕ := if i + 1 = cap then 0 else i + 1

def idx (cap head j : ℕ) : ℕ := (head + j) % cap

lemma idx_lt (hcap : 0 < cap) : idx cap head j < cap := Nat.mod_lt _ hcap

lemma succ_lt (h : i < cap) : succ cap i < cap := by
  unfold succ
  split <;> omega

lemma idx_zero (h : head < cap) : idx cap head 0 = head := Nat.mod_eq_of_lt h

/-- Stepping an index moves it one place further from the same head. -/
lemma succ_idx (hcap : 0 < cap) : succ cap (idx cap head j) = idx cap head (j + 1) := by
  have hlt : (head + j) % cap < cap := Nat.mod_lt _ hcap
  have hmod : (head + (j + 1)) % cap = ((head + j) % cap + 1) % cap := by
    rw [Nat.mod_add_mod, add_assoc]
  unfold succ idx
  rw [hmod]
  split
  case isTrue hwrap => rw [hwrap, Nat.mod_self]
  case isFalse hno => exact (Nat.mod_eq_of_lt (by omega)).symm

/-- Stepping the head moves every place by one. -/
lemma idx_succ : idx cap (succ cap head) j = idx cap head (j + 1) := by
  unfold succ idx
  split
  case isTrue hwrap =>
    rw [show head + (j + 1) = j + cap by omega, Nat.add_mod_right, zero_add]
  case isFalse => rw [show head + 1 + j = head + (j + 1) by omega]

/-- Places less than one turn apart are different cells. -/
lemma idx_ne (hi : i < cap) (hj : j < cap) (hne : i ≠ j) : idx cap head i ≠ idx cap head j := by
  intro heq
  have hmod : i ≡ j [MOD cap] := Nat.ModEq.add_left_cancel' head heq
  exact hne (by rwa [Nat.ModEq, Nat.mod_eq_of_lt hi, Nat.mod_eq_of_lt hj] at hmod)

/-- The places from the `k`-th on hold the members of `xs`. -/
structure Window (cap : ℕ) (buf : List (Option α)) (head k : ℕ) (xs : List α) : Prop where
  size : buf.length = cap
  head_lt : head < cap
  fits : xs.length ≤ cap
  live : k ≤ xs.length
  cell : ∀ i, k ≤ i → (h : i < xs.length) → buf[idx cap head i]? = some (some xs[i])

namespace Window

variable {buf : List (Option α)} {xs : List α}

/-- An empty window, whatever the cells hold. -/
lemma empty (hsize : buf.length = cap) (hhead : head < cap) : Window cap buf head 0 [] where
  size := hsize
  head_lt := hhead
  fits := Nat.zero_le _
  live := Nat.zero_le _
  cell := fun _ _ h => absurd h (Nat.not_lt_zero _)

/-- Writing the first free cell appends to the window. -/
lemma push (w : Window cap buf head k xs) (hroom : xs.length < cap) (x : α) :
    Window cap (buf.set (idx cap head xs.length) (some x)) head k (xs ++ [x]) where
  size := by rw [length_set, w.size]
  head_lt := w.head_lt
  fits := by rw [length_append, length_singleton]; omega
  live := by rw [length_append]; exact Nat.le_add_right_of_le w.live
  cell := by
    intro i hk hi
    rw [length_append, length_singleton] at hi
    rcases Nat.lt_succ_iff_lt_or_eq.mp hi with hlt | rfl
    · rw [getElem?_set_ne (idx_ne hroom (by omega) (by omega)), w.cell i hk hlt,
        getElem_append_left hlt]
    · have hin : idx cap head xs.length < buf.length := by
        rw [w.size]; exact idx_lt (by omega)
      rw [getElem?_set_self hin]
      simp

/-- The `k`-th place holds the `k`-th member, and can be given up. -/
lemma pop (w : Window cap buf head k xs) (hk : k < xs.length) :
    buf[idx cap head k]? = some (some xs[k]) ∧ Window cap buf head (k + 1) xs :=
  ⟨w.cell k le_rfl hk, w.size, w.head_lt, w.fits, hk, fun i hi h => w.cell i (by omega) h⟩

/-- Freeing the first place, which was given up before. -/
lemma free (w : Window cap buf head (k + 1) xs) : Window cap buf (succ cap head) k xs.tail where
  size := w.size
  head_lt := succ_lt w.head_lt
  fits := by have := w.fits; rw [length_tail]; omega
  live := by have := w.live; rw [length_tail]; omega
  cell := by
    intro i hi h
    rw [length_tail] at h
    rw [idx_succ, getElem_tail]
    exact w.cell (i + 1) (by omega) (by omega)

end Window

end Rsyslog.Lib.Ring
