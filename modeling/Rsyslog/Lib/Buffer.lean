import Mathlib.Data.Nat.Notation

/-!
# Buffers filled from the front

A buffer has room for `cap` elements, of which the first ones have been stored. Storing one behind
the last place is an error, and the result is `none`. A chain of stores and reallocations succeeds
exactly if the last of them does, as long as the room does not get smaller on the way (`filled`).
-/

namespace Rsyslog.Lib

structure Buffer (α : Type*) where
  cap : ℕ
  /-- What has been stored, from the first place on. -/
  bytes : List α
  fits : bytes.length ≤ cap

namespace Buffer

variable {α β : Type*}

/-- The buffer with room for `cap` elements that holds `l`. -/
def filled (cap : ℕ) (l : List α) : Option (Buffer α) :=
  if h : l.length ≤ cap then some ⟨cap, l, h⟩ else none

def push (b : Buffer α) (l : List α) : Option (Buffer α) := filled b.cap (b.bytes ++ l)

def resize (b : Buffer α) (n : ℕ) : Option (Buffer α) := filled n b.bytes

variable {l : List α} {cap : ℕ}

lemma filled_of_le (h : l.length ≤ cap) : filled cap l = some ⟨cap, l, h⟩ := dif_pos h

lemma filled_self (b : Buffer α) : filled b.cap b.bytes = some b := filled_of_le b.fits

lemma push_nil (b : Buffer α) : b.push [] = some b := by
  rw [push, List.append_nil, filled_self]

lemma filled_eq_none (h : cap < l.length) : filled cap l = none :=
  dif_neg (Nat.not_le.mpr h)

lemma filled_eq_some_iff {b : Buffer α} : filled cap l = some b ↔ b.cap = cap ∧ b.bytes = l := by
  constructor
  · intro h
    rw [filled] at h
    split at h
    · cases h
      exact ⟨rfl, rfl⟩
    · cases h
  · rintro ⟨rfl, rfl⟩
    exact filled_self b

lemma length_le_of_filled {b : Buffer α} (h : filled cap l = some b) : l.length ≤ cap := by
  obtain ⟨rfl, rfl⟩ := filled_eq_some_iff.mp h
  exact b.fits

/-- To go on from a filled buffer, it is enough to know what happens once it is there. -/
lemma filled_bind {f : Buffer α → Option β} {r : Option β}
    (hsome : ∀ h : l.length ≤ cap, f ⟨cap, l, h⟩ = r) (hnone : cap < l.length → r = none) :
    (filled cap l).bind f = r := by
  rw [filled]
  split
  case isTrue h => exact hsome h
  case isFalse h => exact (hnone (Nat.not_le.mp h)).symm

lemma filled_bind_push (cap : ℕ) (l l' : List α) :
    ((filled cap l).bind fun b => b.push l') = filled cap (l ++ l') := by
  refine filled_bind (fun _ => rfl) fun h => filled_eq_none ?_
  rw [List.length_append]
  omega

end Buffer

end Rsyslog.Lib
