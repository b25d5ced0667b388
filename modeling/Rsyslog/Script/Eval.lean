import Rsyslog.Script.Value

/-!
# Evaluation of expressions

`cnfexprEval` of `grammar/rainerscript.c` with its helpers `evalStrArrayCmp` and `eval_strcmp_like`.
The values of variables and of function calls are given by an `Env`; the operators are evaluated as
the code does. Most of them look at the types of the values only, but `==` and `<>` also at the node
of the right operand.
-/

namespace Rsyslog.Script

/-! ## Expressions -/

inductive CmpOp
  | eq
  | ne
  | le
  | ge
  | lt
  | gt
  | startsWith
  | startsWithI
  | contains
  | containsI
  deriving DecidableEq

inductive NumOp
  | add
  | sub
  | mul
  | div
  | mod
  deriving DecidableEq

/-- `struct cnfarray`: an array constant has an element. -/
structure CnfArray where
  arr : List Bytes
  ne_nil : arr ≠ []

/-- `struct cnfexpr` by the type of the node. `ν` and `φ` are the variables and the function
calls. -/
inductive Expr (ν φ : Type)
  | num (val : Int64)
  | str (estr : Bytes)
  | arr (ar : CnfArray)
  | var (v : ν)
  | func (f : φ)
  | cmp (op : CmpOp) (l r : Expr ν φ)
  | or (l r : Expr ν φ)
  | and (l r : Expr ν φ)
  | not (r : Expr ν φ)
  | concat (l r : Expr ν φ)
  | arith (op : NumOp) (l r : Expr ν φ)
  | minus (r : Expr ν φ)

structure Env (ν φ J : Type) where
  var : ν → Svar J
  func : φ → Svar J

section Eval

variable {ν φ J : Type} (libs : Libs J)

/-! ## Comparisons -/

def ofBool (b : Bool) : Int64 := if b then 1 else 0

def asBool (n : Int64) : Bool := n.toInt32 != 0

def Svar.dn : Svar J → Int64
  | .n val => val
  | .s _ => 0
  | .j json => json.addr

def esStreq (s t : Bytes) : Bool := libs.strcmp s t == 0

def esStrcmp (s t : Bytes) : Int64 := (libs.strcmp s t).toInt64

/-- The operators other than `==` and `<>` look for the first element for which they hold. -/
def evalStrArrayCmp (estr_l : Bytes) (ar : CnfArray) (cmpop : CmpOp) : Int64 :=
  ofBool (match cmpop with
    | .eq => libs.bsearch estr_l ar.arr
    | .ne => !libs.bsearch estr_l ar.arr
    | .startsWith => ar.arr.any fun s => libs.strncmp estr_l s s.length == 0
    | .startsWithI => ar.arr.any fun s => libs.strncasecmp estr_l s s.length == 0
    | .contains => ar.arr.any fun s => libs.strContains estr_l s != -1
    | .containsI => ar.arr.any fun s => libs.strCaseContains estr_l s != -1
    | .le | .ge | .lt | .gt => false)

/-- `CMP_EQ` for a left operand with the text `estr_l`. A right operand that is not a string is read
as a number. -/
def evalEqText (l : Svar J) (estr_l : Bytes) (rNode : Expr ν φ) (r : Svar J) : Int64 :=
  match rNode with
  | .str estr_r => ofBool (esStreq libs estr_l estr_r)
  | .arr ar => evalStrArrayCmp libs estr_l ar .eq
  | _ =>
    match r with
    | .s estr_r => ofBool (esStreq libs estr_l estr_r)
    | r =>
      let (n_l, convok_l) := var2Number libs l
      if convok_l then ofBool (n_l == r.dn) else ofBool (esStreq libs estr_l (var2String libs r))

/-- `CMP_EQ`. -/
def evalEq (l : Svar J) (rNode : Expr ν φ) (r : Svar J) : Int64 :=
  match l with
  | .s estr_l => evalEqText libs l estr_l rNode r
  | .j _ => evalEqText libs l (var2String libs l) rNode r
  | .n _ =>
    match r with
    | .s estr_r =>
      let (n_r, convok_r) := var2Number libs r
      if convok_r then ofBool (l.dn == n_r) else ofBool (esStreq libs estr_r (var2String libs l))
    | r => ofBool (l.dn == r.dn)

/-- `CMP_NE` for a left operand with the text `estr_l`. -/
def evalNeText (l : Svar J) (estr_l : Bytes) (r : Svar J) : Int64 :=
  match r with
  | .s estr_r => esStrcmp libs estr_l estr_r
  | r =>
    let (n_l, convok_l) := var2Number libs l
    if convok_l then ofBool (n_l != r.dn) else esStrcmp libs estr_l (var2String libs r)

/-- `CMP_NE`. Only for a string on the left it looks for an array on the right. -/
def evalNe (l : Svar J) (rNode : Expr ν φ) (r : Svar J) : Int64 :=
  match l with
  | .s estr_l =>
    match rNode with
    | .str estr_r => esStrcmp libs estr_l estr_r
    | .arr ar => evalStrArrayCmp libs estr_l ar .ne
    | _ => evalNeText libs l estr_l r
  | .j _ => evalNeText libs l (var2String libs l) r
  | .n _ =>
    match r with
    | .s estr_r =>
      let (n_r, convok_r) := var2Number libs r
      if convok_r then ofBool (l.dn != n_r) else esStrcmp libs estr_r (var2String libs l)
    | r => ofBool (l.dn != r.dn)

def evalStrcmpLike (l r : Svar J) : Int32 :=
  let (n_l, convok_l) := var2Number libs l
  let (n_r, convok_r) := var2Number libs r
  if convok_l && convok_r then (n_l - n_r).toInt32
  else libs.strcmp (var2String libs l) (var2String libs r)

def evalStrCmp (op : CmpOp) (holds : Bytes → Bytes → Bool) (l : Svar J)
    (rNode : Expr ν φ) (r : Svar J) : Int64 :=
  let estr_l := var2String libs l
  match rNode with
  | .arr ar => evalStrArrayCmp libs estr_l ar op
  | _ => ofBool (holds estr_l (var2String libs r))

def evalCmp (op : CmpOp) (l : Svar J) (rNode : Expr ν φ) (r : Svar J) : Int64 :=
  match op with
  | .eq => evalEq libs l rNode r
  | .ne => evalNe libs l rNode r
  | .le => ofBool (evalStrcmpLike libs l r ≤ 0)
  | .ge => ofBool (evalStrcmpLike libs l r ≥ 0)
  | .lt => ofBool (evalStrcmpLike libs l r < 0)
  | .gt => ofBool (evalStrcmpLike libs l r > 0)
  | .startsWith => evalStrCmp libs op (fun s t => libs.strncmp s t t.length == 0) l rNode r
  | .startsWithI => evalStrCmp libs op (fun s t => libs.strncasecmp s t t.length == 0) l rNode r
  | .contains => evalStrCmp libs op (fun s t => libs.strContains s t != -1) l rNode r
  | .containsI => evalStrCmp libs op (fun s t => libs.strCaseContains s t != -1) l rNode r

/-! ## Expressions -/

def evalArith (op : NumOp) (l r : Svar J) : Int64 :=
  let n_l := (var2Number libs l).1
  let n_r := (var2Number libs r).1
  match op with
  | .add => n_l + n_r
  | .sub => n_l - n_r
  | .mul => n_l * n_r
  | .div => if n_r = 0 then 0 else n_l / n_r
  | .mod => if n_r = 0 then 0 else n_l % n_r

variable (env : Env ν φ J)

def cnfexprEval : Expr ν φ → Svar J
  | .num val => .n val
  | .str estr => .s estr
  | .arr ar => .s (ar.arr.head ar.ne_nil)
  | .var v => env.var v
  | .func f => env.func f
  | .cmp op l r => .n (evalCmp libs op (cnfexprEval l) r (cnfexprEval r))
  | .or l r =>
    .n (if (var2Number libs (cnfexprEval l)).1 ≠ 0 then 1
      else if (var2Number libs (cnfexprEval r)).1 ≠ 0 then 1 else 0)
  | .and l r =>
    .n (if (var2Number libs (cnfexprEval l)).1 ≠ 0 then
      if (var2Number libs (cnfexprEval r)).1 ≠ 0 then 1 else 0
      else 0)
  | .not r => .n (ofBool ((var2Number libs (cnfexprEval r)).1 == 0))
  | .concat l r => .s (var2String libs (cnfexprEval l) ++ var2String libs (cnfexprEval r))
  | .arith op l r => .n (evalArith libs op (cnfexprEval l) (cnfexprEval r))
  | .minus r => .n (-(var2Number libs (cnfexprEval r)).1)

def cnfexprEvalBool (expr : Expr ν φ) : Bool :=
  asBool (var2Number libs (cnfexprEval libs env expr)).1

end Eval

end Rsyslog.Script
