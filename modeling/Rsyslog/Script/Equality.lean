import Rsyslog.Script.Eval

/-!
# The operators == and <>

Both operators are a tree of cases over the types of the operands. Where a JSON value on the right
is compared as a number, its address is taken for the number, since the union is read as `d.n`. The
same comparison with the operands exchanged calls `var2Number` and takes the number of the object.
`<>` has no case for a JSON value on the left and an array on the right.

`Equals` says what `==` compares, `equality_iff` for which operands the laws of equality hold.
-/

namespace Rsyslog.Script

open Lib Int64

/-! ## Integers -/

def digitsValue : ℤ → Bytes → ℤ
  | v, [] => v
  | v, c :: cs => if isDigit c then digitsValue (v * 10 + c.toNat - 48) cs else v

def strValue : Bytes → ℤ
  | [] => 0
  | c :: cs => if c = 45 then digitsValue 0 cs * -1 else digitsValue 0 (c :: cs) * 1

lemma str2numLoop_fst (v : ℤ) (cs : Bytes) :
    (str2numLoop (ofInt v) cs).1 = ofInt (digitsValue v cs) := by
  induction cs generalizing v with
  | nil => rfl
  | cons c cs ih =>
    by_cases hc : isDigit c = true
    · have hstep : ofInt v * 10 + ofNat c.toNat - 48 =
          ofInt (v * 10 + c.toNat - 48) := by
        rw [ofInt_sub, ofInt_add, ofInt_mul]
        rfl
      rw [str2numLoop, if_pos hc, digitsValue, if_pos hc, hstep, ih]
    · rw [str2numLoop, if_neg hc, digitsValue, if_neg hc]

lemma str2num_fst (s : Bytes) : (str2num s).1 = ofInt (strValue s) := by
  cases s with
  | nil => rfl
  | cons c cs =>
    by_cases hc : c = 45
    · rw [str2num, if_pos hc, strValue, if_pos hc, ofInt_mul, ← str2numLoop_fst]
      rfl
    · rw [str2num, if_neg hc, strValue, if_neg hc, ofInt_mul, ← str2numLoop_fst]
      rfl

section Operands

variable {J : Type} (libs : Libs J)

def Svar.integer? : Svar J → Option ℤ
  | .n val => some val.toInt
  | .s estr =>
    if (str2num estr).2 = true ∧ -2 ^ 63 ≤ strValue estr ∧ strValue estr < 2 ^ 63 then
      some (strValue estr)
    else none
  | .j json => json.obj.bind fun j => if libs.isInt j then some (libs.getInt64 j).toInt else none

def Svar.IsInteger : Svar J → Prop
  | .n _ => True
  | .s _ => False
  | .j json => ((Svar.j json).integer? libs).isSome

variable {libs}

lemma var2Number_of_integer? {v : Svar J} {x : ℤ} (h : v.integer? libs = some x) :
    (var2Number libs v).2 = true ∧ (var2Number libs v).1.toInt = x := by
  match v with
  | .n val => exact ⟨rfl, Option.some.inj h⟩
  | .s estr =>
    rw [Svar.integer?] at h
    split at h
    case isTrue hfits =>
      obtain ⟨hok, hle, hlt⟩ := hfits
      refine ⟨hok, ?_⟩
      rw [var2Number, str2num_fst, toInt_ofInt_of_le hle hlt]
      exact Option.some.inj h
    case isFalse => cases h
  | .j json =>
    obtain ⟨j, hj, hint⟩ := Option.bind_eq_some_iff.mp h
    split at hint
    case isTrue =>
      refine ⟨rfl, ?_⟩
      rw [var2Number, JsonRef.int64, hj]
      exact Option.some.inj hint
    case isFalse => cases hint

/-! ## What is compared -/

variable (libs)

def Equals : Svar J → Svar J → Prop
  | .s s, .s t => s = t
  | .s s, .n m => if (str2num s).2 then (str2num s).1 = m else s = decimalInt m.toInt
  | .s s, .j q => if (str2num s).2 then (str2num s).1 = q.addr else s = q.string libs
  | .j p, .s t => p.string libs = t
  | .j p, .n m => p.int64 libs = m
  | .j p, .j q => p.int64 libs = q.addr
  | .n n, .s t => if (str2num t).2 then n = (str2num t).1 else t = decimalInt n.toInt
  | .n n, .n m => n = m
  | .n n, .j q => n = q.addr

/-- Comparing `n` with the address of the object is comparing it with its number. -/
def AddrAgrees (n : Int64) (p : JsonRef J) : Prop := n = p.addr ↔ n = p.int64 libs

/-- Where the address of a JSON object is taken for its number, it makes no difference. -/
def AddrsAgree : Svar J → Svar J → Prop
  | .n n, .j p | .j p, .n n => AddrAgrees libs n p
  | .s s, .j p | .j p, .s s =>
    (str2num s).2 = true →
      ((str2num s).1 = p.addr ↔ s = p.string libs) ∧
      (((Svar.s s : Svar J).integer? libs).isSome → ((Svar.j p).integer? libs).isSome →
        AddrAgrees libs (str2num s).1 p)
  | .j p, .j q =>
    (p.int64 libs = q.addr ↔ q.int64 libs = p.addr) ∧
      (((Svar.j p).integer? libs).isSome → ((Svar.j q).integer? libs).isSome →
        AddrAgrees libs (p.int64 libs) q)
  | _, _ => True

/-- Of the elements of the array, the text of a JSON value can only be the first one. -/
def FirstOnly (ar : CnfArray) : Svar J → Prop
  | .j p => p.string libs ∈ ar.arr → p.string libs = ar.arr.head ar.ne_nil
  | _ => True

end Operands

section Eval

variable {ν φ J : Type} {libs : Libs J} {env : Env ν φ J}

@[simp] lemma asBool_ofBool (b : Bool) : asBool (ofBool b) = b := by
  cases b <;> rfl

@[simp] lemma asBool_esStrcmp (s t : Bytes) : asBool (esStrcmp libs s t) = !esStreq libs s t := by
  rw [asBool, esStrcmp, Int32.toInt32_toInt64]
  rfl

lemma esStreq_iff (s t : Bytes) : esStreq libs s t = true ↔ s = t := by
  rw [esStreq, beq_iff_eq, libs.strcmp_eq_zero]

lemma evalBool_cmp (op : CmpOp) (l r : Expr ν φ) :
    cnfexprEvalBool libs env (.cmp op l r) =
      asBool (evalCmp libs op (cnfexprEval libs env l) r (cnfexprEval libs env r)) := rfl

def Expr.IsOperand : Expr ν φ → Prop
  | .arr _ => False
  | _ => True

lemma eval_operand (a : Svar J) {r : Expr ν φ} (hr : r.IsOperand) :
    evalEq libs a r (cnfexprEval libs env r) =
        evalEq libs a (.num 0 : Expr ν φ) (cnfexprEval libs env r) ∧
      evalNe libs a r (cnfexprEval libs env r) =
        evalNe libs a (.num 0 : Expr ν φ) (cnfexprEval libs env r) := by
  cases r with
  | arr ar => exact hr.elim
  | str estr => cases a <;> exact ⟨rfl, rfl⟩
  | _ => exact ⟨rfl, rfl⟩

lemma evalEq_iff (a b : Svar J) :
    asBool (evalEq libs a (.num 0 : Expr ν φ) b) = true ↔ Equals libs a b := by
  match a, b with
  | .s s, .s t | .j p, .s t | .j p, .n m | .j p, .j q | .n n, .n m | .n n, .j q =>
    simp [evalEq, evalEqText, Equals, esStreq_iff, var2Number, var2String, Svar.dn]
  | .s s, .n m | .s s, .j q =>
    cases h : (str2num s).2 <;>
      simp [evalEq, evalEqText, Equals, esStreq_iff, var2Number, var2String, Svar.dn, h]
  | .n n, .s t =>
    cases h : (str2num t).2 <;>
      simp [evalEq, Equals, esStreq_iff, var2Number, var2String, Svar.dn, h]

lemma evalNe_eq_not (a b : Svar J) :
    asBool (evalNe libs a (.num 0 : Expr ν φ) b) =
      !asBool (evalEq libs a (.num 0 : Expr ν φ) b) := by
  match a, b with
  | .s s, .s t | .j p, .s t | .j p, .n m | .j p, .j q | .n n, .n m | .n n, .j q =>
    simp [evalEq, evalNe, evalEqText, evalNeText, var2Number, bne]
  | .s s, .n m | .s s, .j q =>
    cases h : (str2num s).2 <;> simp [evalEq, evalNe, evalEqText, evalNeText, var2Number, bne, h]
  | .n n, .s t =>
    cases h : (str2num t).2 <;> simp [evalEq, evalNe, var2Number, bne, h]

lemma evalBool_eq (l : Expr ν φ) {r : Expr ν φ} (hr : r.IsOperand) :
    cnfexprEvalBool libs env (.cmp .eq l r) = true ↔
      Equals libs (cnfexprEval libs env l) (cnfexprEval libs env r) := by
  rw [evalBool_cmp, evalCmp, (eval_operand _ hr).1, evalEq_iff]

lemma evalBool_ne (l : Expr ν φ) {r : Expr ν φ} (hr : r.IsOperand) :
    cnfexprEvalBool libs env (.cmp .ne l r) = !cnfexprEvalBool libs env (.cmp .eq l r) := by
  rw [evalBool_cmp, evalBool_cmp, evalCmp, evalCmp, (eval_operand _ hr).1, (eval_operand _ hr).2,
    evalNe_eq_not]

lemma evalBool_ne_arr (l : Expr ν φ) {ar : CnfArray}
    (hsorted : ar.arr.Pairwise fun s t => libs.strcmp s t ≤ 0) :
    cnfexprEvalBool libs env (.cmp .ne l (.arr ar)) =
        !cnfexprEvalBool libs env (.cmp .eq l (.arr ar)) ↔
      FirstOnly libs ar (cnfexprEval libs env l) := by
  rw [evalBool_cmp, evalBool_cmp, evalCmp, evalCmp]
  match cnfexprEval libs env l with
  | .s s => simp [evalEq, evalNe, evalEqText, evalStrArrayCmp, FirstOnly]
  | .n n =>
    -- the node on the right is not looked at
    have hne (b : Svar J) : evalNe libs (.n n) (.arr ar : Expr ν φ) b =
        evalNe libs (.n n) (.num 0 : Expr ν φ) b := rfl
    rw [hne, evalNe_eq_not]
    exact iff_of_true rfl trivial
  | .j p =>
    have hhead : ar.arr.head ar.ne_nil ∈ ar.arr := List.head_mem ar.ne_nil
    have hfind := libs.bsearch_iff (p.string libs) ar.arr hsorted
    simp only [evalEq, evalNe, evalEqText, evalNeText, evalStrArrayCmp, var2String, cnfexprEval,
      asBool_ofBool, asBool_esStrcmp, FirstOnly]
    rw [Bool.not_inj_iff, Bool.eq_iff_iff, hfind, esStreq_iff]
    exact ⟨fun h => h.mpr, fun h => ⟨fun heq => heq ▸ hhead, h⟩⟩

end Eval

/-! ## The laws -/

section

variable {J : Type} {libs : Libs J}

lemma integers_eq_iff {a b : Svar J} {x y : ℤ} (ha : a.integer? libs = some x)
    (hb : b.integer? libs = some y) : x = y ↔ (var2Number libs a).1 = (var2Number libs b).1 := by
  obtain ⟨-, rfl⟩ := var2Number_of_integer? ha
  obtain ⟨-, rfl⟩ := var2Number_of_integer? hb
  exact toInt_inj

lemma integerLaw_iff {a b : Svar J} {P : Prop} :
    (∀ x y, a.integer? libs = some x → b.integer? libs = some y → (P ↔ x = y)) ↔
      ((a.integer? libs).isSome → (b.integer? libs).isSome →
        (P ↔ (var2Number libs a).1 = (var2Number libs b).1)) := by
  constructor
  · intro h ha hb
    obtain ⟨x, hx⟩ := Option.isSome_iff_exists.mp ha
    obtain ⟨y, hy⟩ := Option.isSome_iff_exists.mp hb
    rw [h x y hx hy, integers_eq_iff hx hy]
  · intro h x y hx hy
    rw [h (by simp [hx]) (by simp [hy]), integers_eq_iff hx hy]

lemma integer?_str_isSome {s : Bytes} (h : ((Svar.s s : Svar J).integer? libs).isSome) :
    (str2num s).2 = true := by
  obtain ⟨x, hx⟩ := Option.isSome_iff_exists.mp h
  exact (var2Number_of_integer? hx).1

lemma equals_comm_of_plain {a b : Svar J} (ha : ∀ p, a ≠ .j p) (hb : ∀ p, b ≠ .j p) :
    Equals libs a b ↔ Equals libs b a := by
  match a, b with
  | .j p, _ => exact absurd rfl (ha p)
  | _, .j q => exact absurd rfl (hb q)
  | .s s, .s t => exact eq_comm
  | .n n, .n m => exact eq_comm
  | .s s, .n m | .n m, .s s =>
    simp only [Equals]
    split
    · exact eq_comm
    · exact Iff.rfl

variable (libs) in
def EqualsLaws (a b : Svar J) : Prop :=
  (Equals libs a b ↔ Equals libs b a) ∧
    (a.IsInteger libs ∨ b.IsInteger libs → (a.integer? libs).isSome → (b.integer? libs).isSome →
      (Equals libs a b ↔ (var2Number libs a).1 = (var2Number libs b).1))

lemma equalsLaws_comm {a b : Svar J} : EqualsLaws libs a b ↔ EqualsLaws libs b a := by
  have hswap (a b : Svar J) (h : EqualsLaws libs a b) : EqualsLaws libs b a := by
    refine ⟨h.1.symm, fun hint hb ha => ?_⟩
    rw [← h.1, h.2 hint.symm ha hb]
    exact eq_comm
  exact ⟨hswap a b, hswap b a⟩

lemma equalsLaws_str_json (s : Bytes) (q : JsonRef J) :
    EqualsLaws libs (.s s) (.j q) ↔ AddrsAgree libs (.s s) (.j q) := by
  cases hs : (str2num s).2 with
  | true =>
    have hcomm : q.string libs = s ↔ s = q.string libs := eq_comm
    simp only [EqualsLaws, Equals, AddrsAgree, AddrAgrees, var2Number, Svar.IsInteger, hs, if_true,
      hcomm, true_implies]
    exact ⟨fun h => ⟨h.1, fun hp hq => h.2 (.inr hq) hp hq⟩,
      fun h => ⟨h.1, fun _ hp hq => h.2 hp hq⟩⟩
  | false =>
    refine iff_of_true ⟨?_, fun _ h => ?_⟩ fun h => ?_
    · simp [Equals, hs, eq_comm]
    · simp [integer?_str_isSome h] at hs
    · simp [hs] at h

lemma equalsLaws_num_json (n : Int64) (q : JsonRef J) :
    EqualsLaws libs (.n n) (.j q) ↔ AddrsAgree libs (.n n) (.j q) := by
  have hcomm : q.int64 libs = n ↔ n = q.int64 libs := eq_comm
  simp only [EqualsLaws, Equals, AddrsAgree, AddrAgrees, var2Number, hcomm]
  exact ⟨fun h => h.1, fun h => ⟨h, fun _ _ _ => h⟩⟩

lemma equalsLaws_num_str (n : Int64) (t : Bytes) : EqualsLaws libs (.n n) (.s t) := by
  refine ⟨equals_comm_of_plain (by simp) (by simp), fun _ _ ht => ?_⟩
  simp [Equals, integer?_str_isSome ht, var2Number]

lemma equalsLaws_iff (a b : Svar J) : EqualsLaws libs a b ↔ AddrsAgree libs a b := by
  match a, b with
  | .s s, .s t =>
    refine iff_of_true ⟨equals_comm_of_plain (by simp) (by simp), fun h => ?_⟩ trivial
    exact (h.elim id id).elim
  | .n n, .n m =>
    exact iff_of_true ⟨equals_comm_of_plain (by simp) (by simp), fun _ _ _ => Iff.rfl⟩ trivial
  | .n n, .s t => exact iff_of_true (equalsLaws_num_str n t) trivial
  | .s s, .n m => exact iff_of_true (equalsLaws_comm.mpr (equalsLaws_num_str m s)) trivial
  | .n n, .j q => exact equalsLaws_num_json n q
  | .j p, .n m => exact equalsLaws_comm.trans (equalsLaws_num_json m p)
  | .j p, .j q =>
    exact ⟨fun h => ⟨h.1, fun hp hq => h.2 (.inl hp) hp hq⟩,
      fun h => ⟨h.1, fun _ hp hq => h.2 hp hq⟩⟩
  | .s s, .j q => exact equalsLaws_str_json s q
  | .j p, .s t => exact equalsLaws_comm.trans (equalsLaws_str_json t p)

end

/-- For operands `l` and `r` and a sorted array, `==` is symmetric, `<>` is its negation, also
against the array, and integers are equal by their values, exactly if it makes no difference where
an address is taken for a number, and the array has the text of a JSON operand at most as its first
element. -/
theorem equality_iff {ν φ J : Type} (libs : Libs J) (env : Env ν φ J) (l r : Expr ν φ)
    (ar : CnfArray) (hl : l.IsOperand) (hr : r.IsOperand)
    (hsorted : ar.arr.Pairwise fun s t => libs.strcmp s t ≤ 0) :
    (cnfexprEvalBool libs env (.cmp .eq l r) = cnfexprEvalBool libs env (.cmp .eq r l) ∧
      cnfexprEvalBool libs env (.cmp .ne l r) = !cnfexprEvalBool libs env (.cmp .eq l r) ∧
      cnfexprEvalBool libs env (.cmp .ne l (.arr ar)) =
        !cnfexprEvalBool libs env (.cmp .eq l (.arr ar)) ∧
      ((cnfexprEval libs env l).IsInteger libs ∨ (cnfexprEval libs env r).IsInteger libs →
        ∀ x y, (cnfexprEval libs env l).integer? libs = some x →
          (cnfexprEval libs env r).integer? libs = some y →
          (cnfexprEvalBool libs env (.cmp .eq l r) = true ↔ x = y))) ↔
      AddrsAgree libs (cnfexprEval libs env l) (cnfexprEval libs env r) ∧
        FirstOnly libs ar (cnfexprEval libs env l) := by
  rw [← equalsLaws_iff, ← evalBool_ne_arr l hsorted, Bool.eq_iff_iff, evalBool_eq l hr,
    evalBool_eq r hl, evalBool_ne l hr, integerLaw_iff]
  exact ⟨fun ⟨hsymm, _, harr, hint⟩ => ⟨⟨hsymm, hint⟩, harr⟩,
    fun ⟨⟨hsymm, hint⟩, harr⟩ => ⟨hsymm, rfl, harr, hint⟩⟩

def five : Env Unit Unit Int64 := ⟨fun _ => .j ⟨4096, some 5, by decide⟩, fun _ => .n 0⟩

theorem equality_of_numbers :
    cnfexprEvalBool .ints five (.cmp .eq (.num 5) (.str (ascii "05"))) =
        cnfexprEvalBool .ints five (.cmp .eq (.str (ascii "05")) (.num 5)) ∧
      cnfexprEvalBool .ints five (.cmp .ne (.num 5) (.str (ascii "05"))) =
        !cnfexprEvalBool .ints five (.cmp .eq (.num 5) (.str (ascii "05"))) ∧
      cnfexprEvalBool .ints five (.cmp .ne (.num 5) (.arr ⟨[ascii "1", ascii "5"], by decide⟩)) =
        !cnfexprEvalBool .ints five
          (.cmp .eq (.num 5) (.arr ⟨[ascii "1", ascii "5"], by decide⟩)) :=
  have hlaws := (equality_iff .ints five (.num 5) (.str (ascii "05"))
    ⟨[ascii "1", ascii "5"], by decide⟩ trivial trivial (by decide)).mpr ⟨trivial, trivial⟩
  ⟨hlaws.1, hlaws.2.1, hlaws.2.2.1⟩

/-- The number 5 is not the variable, but the variable is the number 5. The variable is in the
array, and it is not. -/
theorem equality_fails :
    cnfexprEvalBool .ints five (.cmp .eq (.num 5) (.var ())) = false ∧
      cnfexprEvalBool .ints five (.cmp .eq (.var ()) (.num 5)) = true ∧
      cnfexprEvalBool .ints five (.cmp .eq (.var ()) (.arr ⟨[ascii "1", ascii "5"], by decide⟩)) =
        true ∧
      cnfexprEvalBool .ints five (.cmp .ne (.var ()) (.arr ⟨[ascii "1", ascii "5"], by decide⟩)) =
        true := by
  decide

end Rsyslog.Script
