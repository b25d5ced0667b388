import Mathlib.Data.Int.Notation
import Rsyslog.Lib.Decode

/-!
# Reading through a pointer and a counter

C code that parses a text often has a pointer to what comes next and, in a variable of its own, the
number of symbols left. A `Cursor` has both. A `Step` reads through the pointer: it may find that
the text is not what it looks for, and it may read outside of the memory it was given.

Texts in C are followed by a terminator.
-/

namespace Rsyslog.Lib

open List

variable {α β γ : Type}

/-- The memory from the pointer on, and the counter. -/
structure Cursor (α : Type) where
  rest : List α
  len : ℤ
  deriving DecidableEq

/-- How a step ends without a result: it gives up, or it reads outside of the memory. -/
inductive Fault
  | reject
  | outside
  deriving DecidableEq

abbrev Step (α β : Type) := EStateM Fault (Cursor α) β

namespace Step

def require (P : Prop) [Decidable P] : Step α Unit :=
  fun c => if P then .ok () c else .error .reject c

def remaining : Step α ℤ := fun c => .ok c.len c

def peek : Step α α := fun c =>
  match c.rest with
  | [] => .error .outside c
  | x :: _ => .ok x c

def advance : Step α α := fun c =>
  match c.rest with
  | [] => .error .outside c
  | x :: rest => .ok x { c with rest := rest }

def count (n : ℤ) : Step α Unit := fun c => .ok () { c with len := c.len - n }

/-- Try the step, and stay in place if it gives up. -/
def attempt (p : Step α β) : Step α (Option β) := fun c =>
  match p c with
  | .ok b c' => .ok (some b) c'
  | .error .reject _ => .ok none c
  | .error .outside c' => .error .outside c'

def next : Step α α := do
  let x ← advance
  count 1
  pure x

section DecidableEq

variable [DecidableEq α]

def expect (ch : α) : Step α Unit := do
  let len ← remaining
  require (len ≠ 0)
  let x ← advance
  require (x = ch)
  count 1

def nextIs (ch : α) : Step α Bool := fun c =>
  if 0 < c.len then
    match c.rest with
    | [] => .error .outside c
    | x :: _ => .ok (x = ch) c
  else .ok false c

/-- If the symbol `ch` comes next, go over it and do `yes`, otherwise do `no`. -/
def whenNext (ch : α) (yes no : Step α β) : Step α β := do
  let found ← nextIs ch
  if found then next >>= fun _ => yes else no

end DecidableEq

end Step

def Cursor.terminated (z : α) (text : List α) : Cursor α := ⟨text ++ [z], text.length⟩

/-- At the start of a text and its terminator, with a counter that is `k` too high. -/
def Cursor.counted (z : α) (text : List α) (k : ℕ) : Cursor α := ⟨text ++ [z], text.length + k⟩

variable {c c' : Cursor α}

/-! ## Terminated texts -/

open Step

section Terminated

variable {z : α} {text : List α}

lemma Cursor.drop_eq_terminated {n : ℕ} (h : n ≤ text.length) :
    ⟨(text ++ [z]).drop n, text.length - n⟩ = terminated z (text.drop n) := by
  rw [terminated, drop_append_of_le_length h, length_drop]
  exact congrArg _ (by omega)

lemma Cursor.counted_zero : counted z text 0 = terminated z text := by
  exact congrArg _ (Int.add_zero _)

variable {p : Step α β}

lemma Cursor.peek_cons (x : α) :
    peek (terminated z (x :: text)) = .ok x (terminated z (x :: text)) := rfl

lemma Cursor.length_cons_sub_one (x : α) : (((x :: text).length : ℕ) : ℤ) - 1 = text.length := by
  rw [length_cons]
  omega

lemma Cursor.next_cons (x : α) :
    Step.next (terminated z (x :: text)) = .ok x (terminated z text) := by
  simp only [Step.next, Step.advance, Step.count, terminated, Bind.bind, EStateM.bind,
    cons_append, length_cons_sub_one]
  rfl

lemma Cursor.terminated_len_pos (x : α) : 0 < (terminated z (x :: text)).len := by
  rw [terminated]
  dsimp only
  rw [length_cons]
  omega

lemma bind_eq_of_error {f : β → Step α γ} {e : Fault} (h : p c = .error e c') :
    (p >>= f) c = .error e c' := by
  show EStateM.bind p f c = _
  rw [EStateM.bind, h]

lemma attempt_of_ok {b : β} (h : p c = .ok b c') : attempt p c = .ok (some b) c' := by
  rw [attempt, h]

lemma attempt_of_reject (h : p c = .error .reject c') : attempt p c = .ok none c := by
  rw [attempt, h]

lemma require_of {P : Prop} [Decidable P] (h : P) (c : Cursor α) : Step.require P c = .ok () c :=
  if_pos h

lemma require_of_not {P : Prop} [Decidable P] (h : ¬P) (c : Cursor α) :
    Step.require P c = .error .reject c := if_neg h

lemma remaining_bind (f : ℤ → Step α β) (c : Cursor α) : (Step.remaining >>= f) c = f c.len c := rfl

section DecidableEq

variable [DecidableEq α] {yes no : Step α β} {ch : α}

lemma Cursor.expect_cons :
    Step.expect ch (terminated z (ch :: text)) = .ok () (terminated z text) := by
  have hlen : ((terminated z (ch :: text)).len ≠ 0) := (Int.ne_of_lt (terminated_len_pos ch)).symm
  simp only [Step.expect, Step.remaining, Step.require, Bind.bind, EStateM.bind, if_pos hlen]
  simp [Step.advance, Step.count, terminated]

lemma Cursor.expect_ne (h : text.head? ≠ some ch) :
    ∃ c, Step.expect ch (terminated z text) = .error .reject c := by
  cases text with
  | nil => exact ⟨_, rfl⟩
  | cons x text =>
    have hx : x ≠ ch := fun hx => h (by rw [hx, head?_cons])
    have hlen : ((terminated z (x :: text)).len ≠ 0) := (Int.ne_of_lt (terminated_len_pos x)).symm
    refine ⟨⟨text ++ [z], (terminated z (x :: text)).len⟩, ?_⟩
    simp only [Step.expect, Step.remaining, Step.require, Bind.bind, EStateM.bind, if_pos hlen]
    simp [Step.advance, terminated, if_neg hx]

lemma whenNext_of_cons {rest : List α} (hlen : 0 < c.len) (hrest : c.rest = ch :: rest) :
    whenNext ch yes no c = yes ⟨rest, c.len - 1⟩ := by
  have hnextIs : nextIs ch c = .ok (decide (ch = ch)) c := by
    rw [nextIs, if_pos hlen, hrest]
  have hnext : Step.next c = .ok ch ⟨rest, c.len - 1⟩ := by
    simp only [Step.next, Step.advance, Bind.bind, EStateM.bind, hrest]
    rfl
  rw [whenNext, bind_eq_of_ok hnextIs, if_pos (decide_eq_true rfl), bind_eq_of_ok hnext]

lemma whenNext_of_ne (h : c.len ≤ 0 ∨ ∃ x rest, c.rest = x :: rest ∧ x ≠ ch) :
    whenNext ch yes no c = no c := by
  have hnextIs : nextIs ch c = .ok false c := by
    rw [nextIs]
    split
    case isFalse => rfl
    case isTrue hlen =>
      rcases h with hlen' | ⟨x, rest, hrest, hx⟩
      · omega
      · rw [hrest]
        exact congrArg (EStateM.Result.ok · c) (decide_eq_false hx)
  rw [whenNext, bind_eq_of_ok hnextIs, if_neg Bool.false_ne_true]

lemma Cursor.whenNext_counted_cons (k : ℕ) :
    whenNext ch yes no (counted z (ch :: text) k) = yes (counted z text k) := by
  have hlen : ((ch :: text).length + k : ℤ) - 1 = text.length + k := by
    rw [length_cons]
    omega
  have hpos : 0 < (counted z (ch :: text) k).len := by
    simp only [counted]
    omega
  rw [whenNext_of_cons hpos cons_append]
  exact congrArg (fun len => yes ⟨text ++ [z], len⟩) hlen

/-- The terminator is looked at if the counter is too high. -/
lemma Cursor.whenNext_counted_ne {k : ℕ} (h : text.head? ≠ some ch) (hz : z ≠ ch) :
    whenNext ch yes no (counted z text k) = no (counted z text k) := by
  cases text with
  | nil => exact whenNext_of_ne (.inr ⟨z, [], rfl, hz⟩)
  | cons x text =>
    exact whenNext_of_ne (.inr ⟨x, _, rfl, fun hx => h (by rw [hx, head?_cons])⟩)

lemma Cursor.whenNext_cons :
    whenNext ch yes no (terminated z (ch :: text)) = yes (terminated z text) := by
  rw [← counted_zero, whenNext_counted_cons, counted_zero]

lemma Cursor.whenNext_ne (h : text.head? ≠ some ch) :
    whenNext ch yes no (terminated z text) = no (terminated z text) := by
  cases text with
  | nil => exact whenNext_of_ne (.inl (Int.le_refl 0))
  | cons x text =>
    exact whenNext_of_ne (.inr ⟨x, _, rfl, fun hx => h (by rw [hx, head?_cons])⟩)

end DecidableEq

end Terminated

end Rsyslog.Lib
