import Rsyslog.Script.Eval

/-!
# The operators <, <=, > and >=

All four look at the sign of what `eval_strcmp_like` returns. For two numbers this is their
difference, returned as an `int`: of the 64 bits of the difference the lower 32 are left, and bit 31
is taken for the sign.
-/

namespace Rsyslog.Script

/-- The relation that an operator stands for, for those that compare by `eval_strcmp_like`. -/
def CmpOp.order? : CmpOp → Option (ℤ → ℤ → Prop)
  | .lt => some (· < ·)
  | .le => some (· ≤ ·)
  | .gt => some (· > ·)
  | .ge => some (· ≥ ·)
  | _ => none

def narrowed (d : ℤ) : ℤ := d.bmod (2 ^ 32)

lemma narrowed_of_fits {d : ℤ} (hle : -2 ^ 31 ≤ d) (hlt : d < 2 ^ 31) : narrowed d = d :=
  Int.bmod_eq_of_le (by omega) (by omega)

lemma ofBool_eq_one {b : Bool} : ofBool b = 1 ↔ b = true := by
  cases b <;> decide

section Eval

variable {ν φ J : Type} {libs : Libs J} {env : Env ν φ J}

lemma toInt_evalStrcmpLike {l r : Svar J} (hl : (var2Number libs l).2 = true)
    (hr : (var2Number libs r).2 = true) :
    (evalStrcmpLike libs l r).toInt =
      narrowed ((var2Number libs l).1.toInt - (var2Number libs r).1.toInt) := by
  have hdvd : (2 ^ 32 : ℕ) ∣ 2 ^ 64 := by norm_num
  have hsub :
      evalStrcmpLike libs l r = ((var2Number libs l).1 - (var2Number libs r).1).toInt32 := by
    simp [evalStrcmpLike, hl, hr, Bool.and_self]
  rw [hsub, Int64.toInt_toInt32, Int64.toInt_sub, Int.bmod_bmod_of_dvd hdvd, narrowed]

variable {op : CmpOp} {rel : ℤ → ℤ → Prop}

lemma evalCmp_order (hop : op.order? = some rel) (l r : Svar J) (rNode : Expr ν φ) :
    evalCmp libs op l rNode r = 1 ↔ rel (evalStrcmpLike libs l r).toInt 0 := by
  have hzero : (0 : Int32).toInt = 0 := rfl
  cases op <;> cases hop
  case le => rw [evalCmp, ofBool_eq_one, decide_eq_true_iff, Int32.le_iff_toInt_le, hzero]
  case ge =>
    rw [evalCmp, ofBool_eq_one, decide_eq_true_iff, ge_iff_le, Int32.le_iff_toInt_le, hzero]
  case lt => rw [evalCmp, ofBool_eq_one, decide_eq_true_iff, Int32.lt_iff_toInt_lt, hzero]
  case gt =>
    rw [evalCmp, ofBool_eq_one, decide_eq_true_iff, gt_iff_lt, Int32.lt_iff_toInt_lt, hzero]

lemma order_sub_zero (hop : op.order? = some rel) (x y : ℤ) : rel (x - y) 0 ↔ rel x y := by
  cases op <;> cases hop
  case le => exact sub_nonpos
  case ge => exact sub_nonneg
  case lt => exact sub_neg
  case gt => exact sub_pos

/-- For operands that convert, an ordering operator is right exactly if narrowing the difference
to an `int` does not change how it compares with zero. -/
theorem evalCmp_order_iff (hop : op.order? = some rel) (l r : Expr ν φ)
    (hl : (var2Number libs (cnfexprEval libs env l)).2 = true)
    (hr : (var2Number libs (cnfexprEval libs env r)).2 = true) :
    let x := (var2Number libs (cnfexprEval libs env l)).1.toInt
    let y := (var2Number libs (cnfexprEval libs env r)).1.toInt
    (cnfexprEval libs env (.cmp op l r) = .n 1 ↔ rel x y) ↔
      (rel (narrowed (x - y)) 0 ↔ rel (x - y) 0) := by
  intro x y
  have heval : cnfexprEval libs env (.cmp op l r) = .n 1 ↔ rel (narrowed (x - y)) 0 := by
    rw [cnfexprEval, Svar.n.injEq, evalCmp_order hop, toInt_evalStrcmpLike hl hr]
  rw [heval, order_sub_zero hop]

/-- `3 < 5` is evaluated as it should. -/
theorem evalCmp_order_three_five :
    (narrowed (3 - 5) < 0 ↔ (3 - 5 : ℤ) < 0) ∧
      cnfexprEval Libs.ints ⟨fun _ => .n 0, fun _ => .n 0⟩
        (.cmp .lt (.num 3) (.num 5) : Expr Unit Unit) = .n 1 := by
  have hop : CmpOp.lt.order? = some (· < ·) := rfl
  have hcond : narrowed (3 - 5) < 0 ↔ (3 - 5 : ℤ) < 0 := by decide
  exact ⟨hcond, ((evalCmp_order_iff hop (.num 3) (.num 5) rfl rfl).mpr hcond).mpr (by decide)⟩

/-- The difference of `4294967296` and `0` has no bits left. -/
theorem evalCmp_gt_high_bits :
    cnfexprEval Libs.ints ⟨fun _ => .n 0, fun _ => .n 0⟩
      (.cmp .gt (.num 4294967296) (.num 0) : Expr Unit Unit) = .n 0 ∧ (4294967296 : ℤ) > 0 :=
  ⟨rfl, by decide⟩

end Eval

end Rsyslog.Script
