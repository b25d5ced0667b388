import Rsyslog.Lib.Polled
import Rsyslog.Script.Stmt

/-!
# Scripts and the immediate shutdown

`scriptExec` of `runtime/ruleset.c` with the flag that it reads before every statement, and with the
statements that call a ruleset or reload a lookup table. A script that finds the flag set ends there
with `RS_RET_FORCE_TERM`.

A ruleset may call itself, so a script need not end by itself. With a flag that is set sooner or
later it does end: all blocks and rulesets are executed after a read, so the recursion is on the
number of reads that find the flag clear.
-/

namespace Rsyslog.Script.Shutdown

open Lib

/-- `struct cnfstmt`, over a state `S` and the rulesets `R`. -/
inductive Stmt (S R : Type)
  | nop
  | stop
  /-- An action, which also says how often it reads the flag. -/
  | act (bDisabled : S → Bool) (submitToActQ : S → S × ℕ)
  /-- `set` and `unset` ignore the codes of the functions that they call. -/
  | set (exec : S → S)
  | unset (exec : S → S)
  | call (ruleset : R)
  /-- `none` is a ruleset that cannot be found. -/
  | callIndirect (ruleset : S → Option R × S)
  | ite (expr : S → Bool × S) (t_then t_else : List (Stmt S R))
  /-- Each of the items is assigned to the variable, which is deleted in the end. -/
  | foreach (items : S → List (S → ℤ × S) × S) (body : List (Stmt S R)) (msgDelJSON : S → ℤ × S)
  | prifilt (pmask : S → Bool) (t_then t_else : List (Stmt S R))
  | propfilt (eval : S → Bool) (t_then : List (Stmt S R))
  | reloadLookupTable (exec : S → ℤ × S)

/-- A ruleset. If it has a queue, then a call is made by handing a copy of the message to it, which
fails without memory. -/
structure Ruleset (S R : Type) where
  root : List (Stmt S R)
  pQueue : Option (S → ℤ × S)

section Execution

variable {S R : Type} {n : ℕ} (rulesets : R → Ruleset S R)

/-- `execCall` and `execCallIndirect`, for a ruleset that was found. -/
def execCall (run : List (Stmt S R) → PolledStep S n) (ruleset : R) : PolledStep S n :=
  match (rulesets ruleset).pQueue with
  | some submit => .code submit
  | none => run (rulesets ruleset).root

def execForeach (items : S → List (S → ℤ × S) × S) (body : PolledStep S n)
    (msgDelJSON : S → ℤ × S) : PolledStep S n :=
  .eval items fun items =>
    if items.isEmpty then .ok
    else (PolledStep.seqs (items.map fun item => .seq (.code item) body)).seq (.code msgDelJSON)

def execStmt (run : List (Stmt S R) → PolledStep S n) : Stmt S R → PolledStep S n
  | .nop => .ok
  | .stop => .code fun s => (discardmsg, s)
  | .act bDisabled submitToActQ =>
    .eval (fun s => (bDisabled s, s)) fun bDisabled =>
      if bDisabled then .ok else .reads submitToActQ
  | .set exec => .code fun s => (0, exec s)
  | .unset exec => .code fun s => (0, exec s)
  | .call ruleset => execCall rulesets run ruleset
  | .callIndirect ruleset =>
    .eval ruleset fun
      | none => .ok
      | some ruleset => execCall rulesets run ruleset
  | .ite expr t_then t_else => .eval expr fun bRet => run (if bRet then t_then else t_else)
  | .foreach items body msgDelJSON => execForeach items (run body) msgDelJSON
  | .prifilt pmask t_then t_else =>
    .eval (fun s => (pmask s, s)) fun bRet => run (if bRet then t_then else t_else)
  | .propfilt eval t_then =>
    .eval (fun s => (eval s, s)) fun bRet => if bRet then run t_then else .ok
  | .reloadLookupTable exec => .code exec

def scriptExec : (n : ℕ) → List (Stmt S R) → S → Polled S n
  | n, [], s => .done n 0 s
  | 0, _ :: _, s => ⟨.cut, 0, s, Nat.le_refl 0, fun _ => rfl⟩
  | n + 1, stmt :: next, s =>
    let run (stmts : List (Stmt S R)) : PolledStep S n := fun c _ => scriptExec c stmts
    (((execStmt rulesets run stmt).seq (run next)) n (Nat.le_refl n) s).weaken (Nat.le_succ n)
termination_by n => n

end Execution

end Rsyslog.Script.Shutdown
