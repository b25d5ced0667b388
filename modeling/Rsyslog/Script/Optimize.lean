import Rsyslog.Script.Order
import Rsyslog.Script.Prifilt

/-!
# Optimization of expressions

`cnfexprOptimize` of `grammar/rainerscript.c`. It folds constants, sorts the arrays that `==` and
`<>` search, and turns comparisons of the facility or the severity into PRI filters, which it then
inverts and combines.

The functions return none where the code goes on with a NULL pointer, reads an uninitialized buffer
or uses a node that was freed.
-/

namespace Rsyslog.Script

open Lib Option
open Option (bind_eq_bind bind_eq_some_iff pure_def)

/-! ## The optimizer -/

/-- `struct cnfvar`, by the names that the optimizer knows. -/
inductive CnfVar (ν : Type)
  | syslogseverity
  | syslogfacility
  | syslogseverityText
  | syslogfacilityText
  | other (v : ν)

inductive CnfFunc (φ : Type)
  | prifilt (pmask : Pmask)
  | other (f : φ)

/-- The expressions that the optimizer is given. -/
abbrev CnfExpr (ν φ : Type) := Expr (CnfVar ν) (CnfFunc φ)

structure OptLibs where
  /-- `es_str2num` -/
  esStr2num : Bytes → Int64
  /-- `qsort` on an array of strings, with `es_strcmp` as the order -/
  qsort : List Bytes → List Bytes
  qsort_perm : ∀ arr, (qsort arr).Perm arr
  qsort_qsort : ∀ arr, qsort (qsort arr) = qsort arr

def OptLibs.lexicographic : OptLibs where
  esStr2num s := (str2num s).1
  qsort arr := arr.mergeSort fun s t => s ≤ t
  qsort_perm arr := List.mergeSort_perm arr _
  qsort_qsort arr := by
    refine List.mergeSort_of_pairwise (List.pairwise_mergeSort ?_ ?_ arr)
    · intro a b c hab hbc
      exact decide_eq_true (List.le_trans (of_decide_eq_true hab) (of_decide_eq_true hbc))
    · intro a b
      simpa using List.le_total a b

section Optimizer

variable {ν φ : Type} (libs : OptLibs)

def moved : CnfExpr ν φ → CnfExpr ν φ → Bool
  | .func _, _ => false
  | _, .func _ => true
  | _, _ => false

def constNumber : CnfExpr ν φ → Option Int64
  | .num val => some val
  | .str estr => some (libs.esStr2num estr)
  | _ => none

def constString : CnfExpr ν φ → Option Bytes
  | .num val => some (decimalInt val.toInt)
  | .str estr => some estr
  | _ => none

def getConstNumber (l r : CnfExpr ν φ) : Option (Int64 × Int64) := do
  let ln ← constNumber libs l
  let rn ← constNumber libs r
  return (ln, rn)

def constFoldConcat (l r : CnfExpr ν φ) : CnfExpr ν φ :=
  match constString l, constString r with
  | some estr_l, some estr_r => .str (estr_l ++ estr_r)
  | _, _ => .concat l r

def foldArith (op : NumOp) (ln rn : Int64) : Int64 :=
  match op with
  | .add => ln + rn
  | .sub => ln - rn
  | .mul => ln * rn
  | .div => if rn = 0 then 0 else ln / rn
  | .mod => if rn = 0 then 0 else ln % rn

def severityFilter (op : CmpOp) (sev : Int32) : Option (CnfExpr ν φ) := do
  let pmask ← cnffuncNewPrifilt 0
  let pmask ← prifiltSetSeverity pmask sev op
  return .func (.prifilt pmask)

/-- `cnfexprOptimize_CMP_severity_facility`. The constant is cut down to an `int` first. -/
def cnfexprOptimizeCmpSeverityFacility (op : CmpOp) (l r : CnfExpr ν φ) : Option (CnfExpr ν φ) :=
  match l, r with
  | .var .syslogseverity, .num val =>
    let sev := val.toInt32
    if 0 ≤ sev ∧ sev ≤ 7 then severityFilter op sev else some (.cmp op l r)
  | .var .syslogfacility, .num val =>
    let fac := val.toInt32
    if 0 ≤ fac ∧ fac ≤ 24 then some (.func (.prifilt (prifiltSetFacility fac.toInt.toNat op)))
    else some (.cmp op l r)
  | _, _ => some (.cmp op l r)

/-- `cnfexprOptimize_CMP_var`. Where there is no filter for a facility, the code goes on with NULL
as the filter or as the expression. -/
def cnfexprOptimizeCmpVar (op : CmpOp) (l r : CnfExpr ν φ) : Option (CnfExpr ν φ) :=
  match l, r with
  | .var .syslogfacilityText, .str estr => do
    let fac ← decodeSyslogName (esStr2cstr estr) SrUtils.syslogFacNames
    if fac = -1 then return .cmp op l r
    else
      let pmask ← cnffuncNewPrifilt fac
      return .func (.prifilt (if op = .ne then prifiltInvert pmask else pmask))
  | .var .syslogseverityText, .str estr => do
    let sev ← decodeSyslogName (esStr2cstr estr) SrUtils.syslogPriNames
    if sev = -1 then return .cmp op l r else severityFilter op sev
  | .var .syslogfacilityText, _ | .var .syslogseverityText, _ => some (.cmp op l r)
  | _, _ => cnfexprOptimizeCmpSeverityFacility op l r

def cnfexprOptimizeNot (r : CnfExpr ν φ) : CnfExpr ν φ :=
  match r with
  | .func (.prifilt pmask) => .func (.prifilt (prifiltInvert pmask))
  | r => .not r

def Junctor.expr : Junctor → CnfExpr ν φ → CnfExpr ν φ →
    CnfExpr ν φ
  | .and => .and
  | .or => .or

def cnfexprOptimizeAndOr (op : Junctor) (l r : CnfExpr ν φ) : CnfExpr ν φ :=
  match l, r with
  | .func (.prifilt pmask), .func (.prifilt pmask2) =>
    .func (.prifilt (prifiltCombine pmask pmask2 op))
  | l, r => op.expr l r

def cnfexprOptimizeCmpeqArr (ar : CnfArray) : CnfArray where
  arr := libs.qsort ar.arr
  ne_nil := fun h => ar.ne_nil (List.Perm.nil_eq (h ▸ libs.qsort_perm ar.arr)).symm

def swapArray (l r : CnfExpr ν φ) : CnfExpr ν φ × CnfExpr ν φ :=
  match l, r with
  | .arr ar, .arr ar' => (.arr ar, .arr ar')
  | .arr ar, r => (r, .arr ar)
  | l, r => (l, r)

def sortArray (r : CnfExpr ν φ) : CnfExpr ν φ :=
  match r with
  | .arr ar => .arr (cnfexprOptimizeCmpeqArr libs ar)
  | r => r

/-- What follows the optimization of the operands of `==` and `<>`. -/
def cnfexprOptimizeCmpeq (op : CmpOp) (l r : CnfExpr ν φ) : Option (CnfExpr ν φ) :=
  let (l, r) := swapArray l r
  let r := sortArray libs r
  match l with
  | .var _ => cnfexprOptimizeCmpVar op l r
  | _ => some (.cmp op l r)

/-- The operand of an arithmetic operator or of a concatenation is optimized where it is. The node
that the optimizer returns is not looked at, so it must be the old one. -/
def inPlace (expr : CnfExpr ν φ) (expr' : Option (CnfExpr ν φ)) : Option (CnfExpr ν φ) :=
  expr'.filter fun expr' => !moved expr expr'

def cnfexprOptimize : CnfExpr ν φ → Option (CnfExpr ν φ)
  | .concat l r => do
    let l' ← inPlace l (cnfexprOptimize l)
    let r' ← inPlace r (cnfexprOptimize r)
    return constFoldConcat l' r'
  | .arith op l r => do
    let l' ← inPlace l (cnfexprOptimize l)
    let r' ← inPlace r (cnfexprOptimize r)
    match getConstNumber libs l' r' with
    | some (ln, rn) => return .num (foldArith op ln rn)
    | none => return .arith op l' r'
  | .cmp op l r => do
    let l' ← cnfexprOptimize l
    let r' ← cnfexprOptimize r
    match op with
    | .eq | .ne => cnfexprOptimizeCmpeq libs op l' r'
    | .le | .ge | .lt | .gt => cnfexprOptimizeCmpSeverityFacility op l' r'
    | .startsWith | .startsWithI | .contains | .containsI => return .cmp op l' r'
  | .and l r => do
    let l' ← cnfexprOptimize l
    let r' ← cnfexprOptimize r
    return cnfexprOptimizeAndOr .and l' r'
  | .or l r => do
    let l' ← cnfexprOptimize l
    let r' ← cnfexprOptimize r
    return cnfexprOptimizeAndOr .or l' r'
  | .not r => do
    let r' ← cnfexprOptimize r
    return cnfexprOptimizeNot r'
  | expr => some expr

/-! ## What it returns -/

variable {libs} {l r e e' : CnfExpr ν φ} {op : CmpOp}

lemma severityFilter_some {sev : Int32} (h : severityFilter op sev = some e') :
    ∃ pmask, e' = .func (.prifilt pmask) := by
  simp only [severityFilter, bind_eq_bind, bind_eq_some_iff, pure_def,
    some.injEq] at h
  obtain ⟨_, _, pmask, _, h⟩ := h
  exact ⟨pmask, h.symm⟩

lemma optimizeCmpSeverityFacility_some (h : cnfexprOptimizeCmpSeverityFacility op l r = some e') :
    e' = .cmp op l r ∨ ∃ pmask, e' = .func (.prifilt pmask) := by
  rw [cnfexprOptimizeCmpSeverityFacility.eq_def] at h
  split at h
  · dsimp only at h
    split at h
    · exact .inr (severityFilter_some h)
    · exact .inl (some.inj h).symm
  · dsimp only at h
    split at h
    · exact .inr ⟨_, (some.inj h).symm⟩
    · exact .inl (some.inj h).symm
  · exact .inl (some.inj h).symm

lemma optimizeCmpVar_some (h : cnfexprOptimizeCmpVar op l r = some e') :
    e' = .cmp op l r ∨ ∃ pmask, e' = .func (.prifilt pmask) := by
  rw [cnfexprOptimizeCmpVar.eq_def] at h
  split at h
  · obtain ⟨fac, -, h⟩ := bind_eq_some_iff.mp h
    split at h
    · exact .inl (some.inj h).symm
    · obtain ⟨pmask, -, h⟩ := bind_eq_some_iff.mp h
      exact .inr ⟨_, (some.inj h).symm⟩
  · obtain ⟨sev, -, h⟩ := bind_eq_some_iff.mp h
    split at h
    · exact .inl (some.inj h).symm
    · exact .inr (severityFilter_some h)
  · exact .inl (some.inj h).symm
  · exact .inl (some.inj h).symm
  · exact optimizeCmpSeverityFacility_some h

lemma andOr_cases (op : Junctor) (l r : CnfExpr ν φ) :
    cnfexprOptimizeAndOr op l r = op.expr l r ∨
      ∃ pmask, cnfexprOptimizeAndOr op l r = .func (.prifilt pmask) := by
  rw [cnfexprOptimizeAndOr.eq_def]
  split
  · exact .inr ⟨_, rfl⟩
  · exact .inl rfl

lemma not_cases (r : CnfExpr ν φ) :
    cnfexprOptimizeNot r = .not r ∨ ∃ pmask, cnfexprOptimizeNot r = .func (.prifilt pmask) := by
  rw [cnfexprOptimizeNot.eq_def]
  split
  · exact .inr ⟨_, rfl⟩
  · exact .inl rfl

/-! ## Optimizing twice -/

lemma bind₂_eq_some {α β γ : Type} {o : Option α} {p : Option β} {f : α → β → Option γ} {c : γ}
    (h : (o.bind fun a => p.bind (f a)) = some c) :
    ∃ a b, o = some a ∧ p = some b ∧ f a b = some c := by
  obtain ⟨a, ha, h⟩ := bind_eq_some_iff.mp h
  obtain ⟨b, hb, h⟩ := bind_eq_some_iff.mp h
  exact ⟨a, b, ha, hb, h⟩

lemma inPlace_self (e : CnfExpr ν φ) : inPlace e (some e) = some e := by
  cases e <;> rfl

lemma inPlace_some {o : Option (CnfExpr ν φ)} (h : inPlace e o = some e') : o = some e' :=
  (filter_eq_some_iff.mp h).1

lemma swapArray_swapArray (l r : CnfExpr ν φ) :
    swapArray (swapArray l r).1 (sortArray libs (swapArray l r).2) =
      ((swapArray l r).1, sortArray libs (swapArray l r).2) := by
  cases l <;> cases r <;> rfl

lemma sortArray_sortArray (r : CnfExpr ν φ) :
    sortArray libs (sortArray libs r) = sortArray libs r := by
  cases r
  case arr ar => simp only [sortArray, cnfexprOptimizeCmpeqArr, libs.qsort_qsort]
  all_goals rfl

lemma optimizeCmpeq_some (h : cnfexprOptimizeCmpeq libs op l r = some e') :
    e' = .cmp op (swapArray l r).1 (sortArray libs (swapArray l r).2) ∨
      ∃ pmask, e' = .func (.prifilt pmask) := by
  rw [cnfexprOptimizeCmpeq.eq_def] at h
  dsimp only at h
  split at h
  · exact optimizeCmpVar_some h
  · exact .inl (some.inj h).symm

lemma optimizeCmpeq_again (op : CmpOp) (l r : CnfExpr ν φ) :
    cnfexprOptimizeCmpeq libs op (swapArray l r).1 (sortArray libs (swapArray l r).2) =
      cnfexprOptimizeCmpeq libs op l r := by
  simp only [cnfexprOptimizeCmpeq, swapArray_swapArray, sortArray_sortArray]

lemma optimize_operands (hl : cnfexprOptimize libs l = some l)
    (hr : cnfexprOptimize libs r = some r) :
    cnfexprOptimize libs (swapArray l r).1 = some (swapArray l r).1 ∧
      cnfexprOptimize libs (sortArray libs (swapArray l r).2) =
        some (sortArray libs (swapArray l r).2) := by
  have hsort {e : CnfExpr ν φ} (he : cnfexprOptimize libs e = some e) :
      cnfexprOptimize libs (sortArray libs e) = some (sortArray libs e) := by
    cases e
    case arr => rfl
    all_goals exact he
  rw [swapArray.eq_def]
  split
  · exact ⟨hl, hsort hr⟩
  · exact ⟨hr, hsort hl⟩
  · exact ⟨hl, hsort hr⟩

lemma constFoldConcat_cases (l r : CnfExpr ν φ) :
    constFoldConcat l r = .concat l r ∨ ∃ estr, constFoldConcat l r = .str estr := by
  rw [constFoldConcat]
  split
  · exact .inr ⟨_, rfl⟩
  · exact .inl rfl

lemma optimize_again (h : cnfexprOptimize libs e = some e')
    (he' : e' = e ∨ ∃ pmask, e' = .func (.prifilt pmask)) : cnfexprOptimize libs e' = some e' := by
  rcases he' with rfl | ⟨pmask, rfl⟩
  · exact h
  · rfl

/-! Each kind of expression is left as it is, if this is true of its operands. -/

lemma optimize_concat_again (hl : cnfexprOptimize libs l = some l)
    (hr : cnfexprOptimize libs r = some r) :
    cnfexprOptimize libs (constFoldConcat l r) = some (constFoldConcat l r) := by
  rcases constFoldConcat_cases l r with hfold | ⟨estr, hfold⟩
  · rw [hfold, cnfexprOptimize, hl, hr, inPlace_self, inPlace_self]
    exact congrArg some hfold
  · rw [hfold]
    rfl

lemma optimize_arith_again (op : NumOp) (hl : cnfexprOptimize libs l = some l)
    (hr : cnfexprOptimize libs r = some r) (hconst : getConstNumber libs l r = none) :
    cnfexprOptimize libs (.arith op l r) = some (.arith op l r) := by
  rw [cnfexprOptimize, hl, hr, inPlace_self, inPlace_self]
  simp [hconst]

lemma optimize_andOr_again (op : Junctor) (hl : cnfexprOptimize libs l = some l)
    (hr : cnfexprOptimize libs r = some r) :
    cnfexprOptimize libs (cnfexprOptimizeAndOr op l r) = some (cnfexprOptimizeAndOr op l r) := by
  refine optimize_again (e := op.expr l r) ?_ (andOr_cases op l r)
  cases op <;> rw [Junctor.expr, cnfexprOptimize, hl, hr] <;> rfl

lemma cnfexprOptimize_idem (h : cnfexprOptimize libs e = some e') :
    cnfexprOptimize libs e' = some e' := by
  induction e generalizing e' with
  | num | str | arr | var | func | minus =>
    cases h
    rfl
  | concat l r ihl ihr =>
    obtain ⟨l', r', hl, hr, h⟩ := bind₂_eq_some h
    obtain rfl := some.inj h
    exact optimize_concat_again (ihl (inPlace_some hl)) (ihr (inPlace_some hr))
  | arith op l r ihl ihr =>
    obtain ⟨l', r', hl, hr, h⟩ := bind₂_eq_some h
    cases hconst : getConstNumber libs l' r' with
    | some n =>
      rw [hconst] at h
      obtain rfl := some.inj h
      rfl
    | none =>
      rw [hconst] at h
      obtain rfl := some.inj h
      exact optimize_arith_again op (ihl (inPlace_some hl)) (ihr (inPlace_some hr)) hconst
  | cmp op l r ihl ihr =>
    obtain ⟨l', r', hl, hr, h⟩ := bind₂_eq_some h
    cases op
    case eq | ne =>
      obtain ⟨hl', hr'⟩ := optimize_operands (ihl hl) (ihr hr)
      refine optimize_again ?_ (optimizeCmpeq_some h)
      rw [cnfexprOptimize, hl', hr']
      exact (optimizeCmpeq_again _ l' r').trans h
    case le | ge | lt | gt =>
      refine optimize_again ?_ (optimizeCmpSeverityFacility_some h)
      rw [cnfexprOptimize, ihl hl, ihr hr]
      exact h
    case startsWith | startsWithI | contains | containsI =>
      obtain rfl := some.inj h
      rw [cnfexprOptimize, ihl hl, ihr hr]
      rfl
  | or l r ihl ihr =>
    obtain ⟨l', r', hl, hr, h⟩ := bind₂_eq_some h
    obtain rfl := some.inj h
    exact optimize_andOr_again .or (ihl hl) (ihr hr)
  | and l r ihl ihr =>
    obtain ⟨l', r', hl, hr, h⟩ := bind₂_eq_some h
    obtain rfl := some.inj h
    exact optimize_andOr_again .and (ihl hl) (ihr hr)
  | not r ih =>
    obtain ⟨r', hr, h⟩ := bind_eq_some_iff.mp h
    obtain rfl := some.inj h
    exact optimize_again (by rw [cnfexprOptimize, ih hr]; rfl) (not_cases r')

/-- Optimizing twice is optimizing once. -/
theorem cnfexprOptimize_twice (libs : OptLibs) (e : CnfExpr ν φ) :
    (cnfexprOptimize libs e).bind (cnfexprOptimize libs) = cnfexprOptimize libs e := by
  cases h : cnfexprOptimize libs e with
  | none => rfl
  | some e' => exact cnfexprOptimize_idem h

end Optimizer

end Rsyslog.Script
