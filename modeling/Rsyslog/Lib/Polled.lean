import Mathlib.Data.Int.Notation
import Mathlib.Data.List.Basic

/-!
# Computations that poll a flag

Another thread may set a flag at any time, and the computation ends with the first read that finds
it set. What matters is which read that is, so a computation is started with the number of reads
that still find the flag clear, and leaves the number of those that are left. `Polled S n` is the
end of a computation that started with `n` of them.

A `PolledStep` can be started with any number up to a bound, which is what a recursive definition
needs whose calls all come after a read.
-/

namespace Rsyslog.Lib

/-- A computation ends with a code, or because it found the flag set. -/
inductive Outcome
  | ret (code : ℤ)
  | cut
  deriving DecidableEq

/-- The end of a computation: its outcome, how many reads still find the flag clear, and the
state. -/
structure Polled (S : Type) (n : ℕ) where
  outcome : Outcome
  left : ℕ
  state : S
  left_le : left ≤ n
  left_of_cut : outcome = .cut → left = 0

/-- A computation that can be started with at most `n` reads left. -/
def PolledStep (S : Type) (n : ℕ) : Type := (c : ℕ) → c ≤ n → S → Polled S c

section Operations

variable {S β : Type} {n m : ℕ}

def Polled.weaken (r : Polled S m) (h : m ≤ n) : Polled S n :=
  { r with left_le := Nat.le_trans r.left_le h }

def Polled.done (n : ℕ) (code : ℤ) (s : S) : Polled S n :=
  ⟨.ret code, n, s, Nat.le_refl n, nofun⟩

def Polled.andThen (r : Polled S n) (f : PolledStep S n) : Polled S n :=
  if r.outcome = .ret 0 then (f r.left r.left_le r.state).weaken r.left_le else r

namespace PolledStep

def code (f : S → ℤ × S) : PolledStep S n := fun c _ s => .done c (f s).1 (f s).2

def ok : PolledStep S n := fun c _ s => .done c 0 s

/-- A change of the state during which the flag is read, but not obeyed. -/
def reads (f : S → S × ℕ) : PolledStep S n := fun c _ s =>
  ⟨.ret 0, c - (f s).2, (f s).1, Nat.sub_le _ _, nofun⟩

def eval (f : S → β × S) (k : β → PolledStep S n) : PolledStep S n :=
  fun c hc s => k (f s).1 c hc (f s).2

def seq (a b : PolledStep S n) : PolledStep S n := fun c hc s =>
  (a c hc s).andThen fun c' hc' => b c' (Nat.le_trans hc' hc)

def seqs (as : List (PolledStep S n)) : PolledStep S n := as.foldr seq ok

end PolledStep

end Operations

end Rsyslog.Lib
