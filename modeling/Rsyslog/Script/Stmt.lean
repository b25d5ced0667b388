import Rsyslog.Script.PriExpr

/-!
# Execution of statements

`scriptExec` of `runtime/ruleset.c`. Evaluating an expression can change the message, since a
function such as `parse_json()` stores variables, so expressions are evaluated here with the message
as a state (`evalOn`).

A statement list runs until a statement returns something else than `RS_RET_OK`. What is left out is
the immediate shutdown, which ends a script between any two statements, and the statements that
call another ruleset or reload a lookup table.
-/

namespace Rsyslog.Script

/-! ## Statements -/

/-- `struct cnfstmt`. `κ`, `α` and `ρ` are the names of variables that are set, the actions and the
property filters. -/
inductive Stmt (ν φ κ α ρ : Type)
  | nop
  | stop
  | act (a : α)
  | set (varname : κ) (expr : CnfExpr ν φ) (force_reset : Bool)
  | unset (varname : κ)
  | ite (expr : CnfExpr ν φ) (t_then t_else : List (Stmt ν φ κ α ρ))
  | foreach (var : κ) (collection : CnfExpr ν φ) (body : List (Stmt ν φ κ α ρ))
  | prifilt (pmask : Pmask) (t_then t_else : List (Stmt ν φ κ α ρ))
  | propfilt (filter : ρ) (t_then : List (Stmt ν φ κ α ρ))

abbrev Stmts (ν φ κ α ρ : Type) := List (Stmt ν φ κ α ρ)

/-- What a script works on. `M` is the state of the message, its variables and the actions. -/
structure Machine (ν φ κ α ρ J M : Type) where
  pri : M → Pri
  var : ν → M → Svar J
  /-- A function gives a value and may change the variables. -/
  func : φ → M → Svar J × M
  /-- The elements of an array, or an object for each key of an object. -/
  items : J → List (JsonRef J)
  msgSetJSONFromVar : κ → Svar J → Bool → M → ℤ × M
  msgDelJSON : κ → M → ℤ × M
  bDisabled : α → M → Bool
  submitToActQ : α → M → M
  evalPROPFILT : ρ → M → Bool

inductive Event (κ α J M : Type)
  | submit (a : α) (m : M)
  | assign (varname : κ) (val : Svar J)
  | unset (varname : κ)

structure ScriptState (κ α J M : Type) where
  msg : M
  trace : List (Event κ α J M)

section Execution

variable {ν φ κ α ρ J M : Type} (libs : Libs J) (mc : Machine ν φ κ α ρ J M)

/-! ## Expressions -/

def Machine.env (m : M) : Env (CnfVar ν) (CnfFunc φ) J :=
  msgEnv (mc.pri m) ⟨fun v => mc.var v m, fun f => (mc.func f m).1⟩

def doFuncCall (f : CnfFunc φ) (m : M) : Svar J × M :=
  match f with
  | .prifilt pmask => (.n (doFunctPrifilt pmask (mc.pri m)), m)
  | .other f => mc.func f m

/-- `cnfexprEval` on a message. The left operand is evaluated first. -/
def evalOn : CnfExpr ν φ → M → Svar J × M
  | .num val, m => (.n val, m)
  | .str estr, m => (.s estr, m)
  | .arr ar, m => (.s (ar.arr.head ar.ne_nil), m)
  | .var v, m => ((mc.env m).var v, m)
  | .func f, m => doFuncCall mc f m
  | .cmp op l r, m =>
    let (a, m) := evalOn l m
    let (b, m) := evalOn r m
    (.n (evalCmp libs op a r b), m)
  | .or l r, m =>
    let (a, m) := evalOn l m
    if (var2Number libs a).1 ≠ 0 then (.n 1, m)
    else
      let (b, m) := evalOn r m
      (.n (if (var2Number libs b).1 ≠ 0 then 1 else 0), m)
  | .and l r, m =>
    let (a, m) := evalOn l m
    if (var2Number libs a).1 ≠ 0 then
      let (b, m) := evalOn r m
      (.n (if (var2Number libs b).1 ≠ 0 then 1 else 0), m)
    else (.n 0, m)
  | .not r, m =>
    let (b, m) := evalOn r m
    (.n (ofBool ((var2Number libs b).1 == 0)), m)
  | .concat l r, m =>
    let (a, m) := evalOn l m
    let (b, m) := evalOn r m
    (.s (var2String libs a ++ var2String libs b), m)
  | .arith op l r, m =>
    let (a, m) := evalOn l m
    let (b, m) := evalOn r m
    (.n (evalArith libs op a b), m)
  | .minus r, m =>
    let (b, m) := evalOn r m
    (.n (-(var2Number libs b).1), m)

def evalBoolOn (expr : CnfExpr ν φ) (m : M) : Int32 × M :=
  let (a, m) := evalOn libs mc expr m
  ((var2Number libs a).1.toInt32, m)

/-- The condition of `execIf`, which keeps the `int` in an `sbool`, that is in one octet. -/
def conditionOn (expr : CnfExpr ν φ) (m : M) : Bool × M :=
  let (n, m) := evalBoolOn libs mc expr m
  (n.toInt8 != 0, m)

def evalCollectionOn (expr : CnfExpr ν φ) (m : M) : Option J × M :=
  match evalOn libs mc expr m with
  | (.j json, m) => (json.obj, m)
  | (_, m) => (none, m)

/-! ## Statements -/

abbrev ScriptM (κ α J M : Type) : Type → Type := EStateM ℤ (ScriptState κ α J M)

def discardmsg : ℤ := -2002

def chkiRet (iRet : ℤ) : ScriptM κ α J M Unit := if iRet = 0 then pure () else throw iRet

def evaluate {β : Type} (f : M → β × M) : ScriptM κ α J M β :=
  fun s => .ok (f s.msg).1 { s with msg := (f s.msg).2 }

def perform (event : M → Event κ α J M) (f : M → ℤ × M) : ScriptM κ α J M ℤ :=
  fun s => .ok (f s.msg).1 ⟨(f s.msg).2, s.trace ++ [event s.msg]⟩

def execAct (a : α) : ScriptM κ α J M Unit := do
  let bDisabled ← evaluate fun m => (mc.bDisabled a m, m)
  if bDisabled then return
  let _ ← perform (fun m => .submit a m) fun m => (0, mc.submitToActQ a m)

/-- The code of `msgSetJSONFromVar` is ignored, as is the one of `msgDelJSON` in `execUnset`. -/
def execSet (varname : κ) (expr : CnfExpr ν φ) (force_reset : Bool) :
    ScriptM κ α J M Unit := do
  let result ← evaluate (evalOn libs mc expr)
  let _ ← perform (fun _ => .assign varname result)
    (mc.msgSetJSONFromVar varname result force_reset)

def execUnset (varname : κ) : ScriptM κ α J M Unit := do
  let _ ← perform (fun _ => .unset varname) (mc.msgDelJSON varname)

def callForeach (var : κ) (body : ScriptM κ α J M Unit) : List (JsonRef J) → ScriptM κ α J M Unit
  | [] => pure ()
  | item :: items => do
    let iRet ← perform (fun _ => .assign var (.j item)) (mc.msgSetJSONFromVar var (.j item) true)
    chkiRet iRet
    body
    callForeach var body items

def execForeach (var : κ) (collection : CnfExpr ν φ) (body : ScriptM κ α J M Unit) :
    ScriptM κ α J M Unit := do
  let arr ← evaluate (evalCollectionOn libs mc collection)
  let items := (arr.map mc.items).getD []
  if items.isEmpty then return
  callForeach mc var body items
  let iRet ← perform (fun _ => .unset var) (mc.msgDelJSON var)
  chkiRet iRet

mutual

def execStmt : Stmt ν φ κ α ρ → ScriptM κ α J M Unit
  | .nop => pure ()
  | .stop => throw discardmsg
  | .act a => execAct mc a
  | .set varname expr force_reset => execSet libs mc varname expr force_reset
  | .unset varname => execUnset mc varname
  | .ite expr t_then t_else => do
    let bRet ← evaluate (conditionOn libs mc expr)
    if bRet then scriptExec t_then else scriptExec t_else
  | .foreach var collection body => execForeach libs mc var collection (scriptExec body)
  | .prifilt pmask t_then t_else => do
    let n ← evaluate fun m => (doFunctPrifilt pmask (mc.pri m), m)
    if n = 1 then scriptExec t_then else scriptExec t_else
  | .propfilt filter t_then => do
    let bRet ← evaluate fun m => (mc.evalPROPFILT filter m, m)
    if bRet then scriptExec t_then else pure ()

def scriptExec : Stmts ν φ κ α ρ → ScriptM κ α J M Unit
  | [] => pure ()
  | stmt :: next => do
    execStmt stmt
    scriptExec next

end

end Execution

end Rsyslog.Script
