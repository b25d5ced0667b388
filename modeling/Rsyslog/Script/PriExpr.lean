import Rsyslog.Script.Optimize

/-!
# Expressions over facility and severity

The optimizer turns the comparisons of such an expression into masks. A comparison is decoded in
another way than it is evaluated: a number is cut down to an `int`, and a name is looked up in a
table that ignores case, has aliases and takes a number for a name. `Faithful` says for which
constants this makes no difference.
-/

namespace Rsyslog.Script

open Lib Int32 Option

/-! ## The expressions -/

section

variable {ν φ J : Type}

def CmpOp.IsEquality : CmpOp → Prop
  | .eq | .ne => True
  | _ => False

def CmpOp.IsNumeric : CmpOp → Prop
  | .eq | .ne | .le | .ge | .lt | .gt => True
  | _ => False

inductive PriComparison : CnfExpr ν φ → Prop
  | severity {op : CmpOp} (hop : op.IsNumeric) (val : Int64) :
      PriComparison (.cmp op (.var .syslogseverity) (.num val))
  | facility {op : CmpOp} (hop : op.IsNumeric) (val : Int64) :
      PriComparison (.cmp op (.var .syslogfacility) (.num val))
  | severityText {op : CmpOp} (hop : op.IsEquality) (estr : Bytes) :
      PriComparison (.cmp op (.var .syslogseverityText) (.str estr))
  | facilityText {op : CmpOp} (hop : op.IsEquality) (estr : Bytes) :
      PriComparison (.cmp op (.var .syslogfacilityText) (.str estr))

inductive PriExpr : CnfExpr ν φ → Prop
  | comparison {e : CnfExpr ν φ} (h : PriComparison e) : PriExpr e
  | and {l r : CnfExpr ν φ} (hl : PriExpr l) (hr : PriExpr r) : PriExpr (.and l r)
  | or {l r : CnfExpr ν φ} (hl : PriExpr l) (hr : PriExpr r) : PriExpr (.or l r)
  | not {r : CnfExpr ν φ} (hr : PriExpr r) : PriExpr (.not r)

/-- `evalVar` and `prifilt()` for a message. `rest` has what does not come from its PRI. -/
def msgEnv (m : Pri) (rest : Env ν φ J) : Env (CnfVar ν) (CnfFunc φ) J where
  var
    | .syslogseverity => .s (getSeverity m)
    | .syslogfacility => .s (getFacility m)
    | .syslogseverityText => .s (getSeverityStr m)
    | .syslogfacilityText => .s (getFacilityStr m)
    | .other v => rest.var v
  func
    | .prifilt pmask => .n (doFunctPrifilt pmask m)
    | .other f => rest.func f

/-- The optimizer comes to an end, and what it returns is true on the same messages. -/
def SameOnMessages (libs : Libs J) (ol : OptLibs) (e : CnfExpr ν φ) : Prop :=
  ∃ e', cnfexprOptimize ol e = some e' ∧
    ∀ (m : Pri) (rest : Env ν φ J), (m.iFacility : ℕ) < 24 →
      cnfexprEvalBool libs (msgEnv m rest) e' = cnfexprEvalBool libs (msgEnv m rest) e

/-! ## The condition -/

/-- The text is no name of a severity, a number that stands for no severity, or the very text that
the message has for it. -/
def SeverityName (estr : Bytes) : Prop :=
  ∃ sev, decodeSyslogName (esStr2cstr estr) SrUtils.syslogPriNames = some sev ∧
    (sev = -1 ∨ 8 ≤ sev ∧ sev < 31 ∨
      ∃ k : Fin 8, sev = Int32.ofNat k ∧ estr = ascii (Msg.syslogSeverityNames.get k))

def FacilityName (estr : Bytes) : Prop :=
  ∃ fac, decodeSyslogName (esStr2cstr estr) SrUtils.syslogFacNames = some fac ∧
    (fac = -1 ∨ (24 : Int32) ≤ fac >>> (3 : Int32) ∧ fac >>> (3 : Int32) < (26 : Int32) ∨
      ∃ k : Fin 24, fac >>> (3 : Int32) = Int32.ofNat k ∧
        estr = ascii (Msg.syslogFacNames.get (k.castLE (by decide))))

/-- A constant that `==` or `<>` finds between 0 and `max` after narrowing was there before. -/
def NumberFits (op : CmpOp) (max : ℤ) (val : Int64) : Prop :=
  op.IsEquality → 0 ≤ narrowed val.toInt → narrowed val.toInt ≤ max → narrowed val.toInt = val.toInt

/-- The optimizer decodes the constants of all comparisons to what they are compared with. -/
def Faithful : CnfExpr ν φ → Prop
  | .cmp op (.var .syslogseverity) (.num val) => NumberFits op 7 val
  | .cmp op (.var .syslogfacility) (.num val) => NumberFits op 23 val
  | .cmp _ (.var .syslogseverityText) (.str estr) => SeverityName estr
  | .cmp _ (.var .syslogfacilityText) (.str estr) => FacilityName estr
  | .and l r => Faithful l ∧ Faithful r
  | .or l r => Faithful l ∧ Faithful r
  | .not r => Faithful r
  | _ => True

end

/-! ## Truth values -/

section

variable {ν φ J : Type} {libs : Libs J}

variable (libs) in
/-- The condition that `and`, `or` and `not` test. `cnfexprEvalBool` cuts the number down to an
`int` instead. -/
def numTrue (env : Env ν φ J) (e : Expr ν φ) : Bool :=
  (var2Number libs (cnfexprEval libs env e)).1 != 0

variable {env : Env ν φ J}

lemma numTrue_of_ofBool {e : Expr ν φ} {b : Bool} (h : cnfexprEval libs env e = .n (ofBool b)) :
    numTrue libs env e = b ∧ cnfexprEvalBool libs env e = b := by
  rw [numTrue, cnfexprEvalBool, h]
  cases b <;> exact ⟨rfl, rfl⟩

end

variable {op : CmpOp} {estr : Bytes}

section Message

variable {ν φ J : Type} {libs : Libs J} {m : Pri} {rest : Env ν φ J}

lemma eval_prifilt (pmask : Pmask) :
    cnfexprEval libs (msgEnv m rest) (.func (.prifilt pmask)) = .n (ofBool (pmask.Matches m)) := by
  rw [← doFunctPrifilt_eq]
  rfl

/-! ## Comparisons with numbers -/

def CmpOp.compares (op : CmpOp) (n val : ℤ) : Bool :=
  match op with
  | .eq => n = val
  | .ne => n ≠ val
  | .le => narrowed (n - val) ≤ 0
  | .ge => narrowed (n - val) ≥ 0
  | .lt => narrowed (n - val) < 0
  | .gt => narrowed (n - val) > 0
  | _ => false

def CmpOp.holds (op : CmpOp) (n val : ℤ) : Bool :=
  match op with
  | .eq => n = val
  | .ne => n ≠ val
  | .le => n ≤ val
  | .ge => n ≥ val
  | .lt => n < val
  | .gt => n > val
  | _ => false

lemma eval_cmp_num {env : Env ν φ J} (hop : op.IsNumeric) {v : ν} {n : Int64}
    (hv : env.var v = .s estr) (hn : str2num estr = (n, true)) (val : Int64) :
    cnfexprEval libs env (.cmp op (.var v) (.num val)) =
      .n (ofBool (op.compares n.toInt val.toInt)) := by
  have hl : cnfexprEval libs env (.var v) = .s estr := hv
  have hnum : var2Number libs (.s estr) = (n, true) := hn
  have hsub : (evalStrcmpLike libs (.s estr) (.n val)).toInt = narrowed (n.toInt - val.toInt) := by
    rw [toInt_evalStrcmpLike (by rw [hnum]) rfl, hnum]
    rfl
  have hzero : (0 : Int32).toInt = 0 := rfl
  rw [cnfexprEval, hl]
  cases op
  case eq =>
    simp [evalCmp, evalEq, evalEqText, cnfexprEval, hnum, Svar.dn, CmpOp.compares,
      ← Int64.toInt_inj, beq_eq_decide]
  case ne =>
    simp [evalCmp, evalNe, evalNeText, cnfexprEval, hnum, Svar.dn, CmpOp.compares,
      ← Int64.toInt_inj, bne, beq_eq_decide]
  case le | ge | lt | gt =>
    simp [evalCmp, cnfexprEval, CmpOp.compares, le_iff_toInt_le, lt_iff_toInt_lt, hsub, hzero]
  all_goals exact hop.elim

lemma narrowed_sub {n val : ℤ} (hn : 0 ≤ n) (hn24 : n ≤ 24) (hval : 0 ≤ narrowed val)
    (hval24 : narrowed val ≤ 24) : narrowed (n - val) = n - narrowed val := by
  rw [narrowed, ← Int.sub_bmod_bmod]
  exact narrowed_of_fits (by rw [← narrowed]; omega) (by rw [← narrowed]; omega)

lemma compares_eq_holds {n val : ℤ} (hn : 0 ≤ n) (hn24 : n ≤ 24) (hval : 0 ≤ narrowed val)
    (hval24 : narrowed val ≤ 24)
    (hfits : op.IsEquality → n = narrowed val ∨ n = val → narrowed val = val) :
    op.compares n val = op.holds n (narrowed val) := by
  have hsub := narrowed_sub hn hn24 hval hval24
  cases op
  case eq | ne =>
    have hiff : n = val ↔ n = narrowed val := by
      refine ⟨fun h => ?_, fun h => ?_⟩
      · rw [hfits trivial (.inr h), h]
      · rw [← hfits trivial (.inl h), h]
    simp [CmpOp.compares, CmpOp.holds, hiff]
  case le | ge | lt | gt =>
    simp only [CmpOp.compares, CmpOp.holds, hsub, decide_eq_decide]
    omega
  all_goals rfl

/-- All constants are compared with as they should, exactly if `==` and `<>` do not find a constant
in the range that was not there before narrowing. -/
lemma compares_iff_numberFits {max : ℕ} {val : Int64} (hmax : max ≤ 23)
    (hval : 0 ≤ narrowed val.toInt) (hval24 : narrowed val.toInt ≤ 24) :
    (∀ n : ℕ, n ≤ max → op.holds n (narrowed val.toInt) = op.compares n val.toInt) ↔
      NumberFits op max val := by
  constructor
  · intro h hop hle hmax'
    have hn := h (narrowed val.toInt).toNat (by omega)
    rw [Int.toNat_of_nonneg hle] at hn
    cases op
    case eq | ne => simpa [CmpOp.holds, CmpOp.compares] using hn
    all_goals exact hop.elim
  · intro h n hn
    refine (compares_eq_holds (by omega) (by omega) hval hval24 fun hop hor => ?_).symm
    rcases hor with hor | hor
    · exact h hop hval (by omega)
    · have hsmall : narrowed n = n := narrowed_of_fits (by omega) (by omega)
      rw [← hor, hsmall]

/-! ### The masks -/

def severityBits (op : CmpOp) (sev : Int32) : Option UInt8 :=
  match op with
  | .eq => severityBit sev
  | .ne => (severityBit sev).map (~~~·)
  | .lt => lessthanmask sev
  | .le => lessthanmask (sev + 1)
  | .gt => (lessthanmask (sev + 1)).map (~~~·)
  | .ge => (lessthanmask sev).map (~~~·)
  | _ => none

lemma setSeverity_eq (hop : op.IsNumeric) (pmask : Pmask) (sev : Int32) :
    prifiltSetSeverity pmask sev op = (severityBits op sev).map fun bits _ => bits := by
  cases op
  case eq | lt | le => rfl
  case ne | gt | ge =>
    rw [severityBits, map_map]
    rfl
  all_goals exact hop.elim

lemma severityFilter_eq (hop : op.IsNumeric) (sev : Int32) : severityFilter op sev =
      (severityBits op sev).map fun bits => (.func (.prifilt fun _ => bits) : CnfExpr ν φ) := by
  have hnew : cnffuncNewPrifilt 0 = some fun i : Fin 26 => if (i : ℤ) = 0 then 0xFF else 0 := rfl
  rw [severityFilter, hnew, bind_eq_bind, bind_some, setSeverity_eq hop]
  cases severityBits op sev <;> rfl

lemma severityBits_spec (hop : op.IsNumeric) :
    ∀ s k : Fin 8, (severityBits op (ofNat s)).map (·.toBitVec.getLsbD k) =
      some (op.holds (k : ℕ) (s : ℕ)) := by
  cases op
  case eq | ne | lt | le | gt | ge => decide
  all_goals exact hop.elim

lemma matches_setFacility (hop : op.IsNumeric) (fac : ℕ) (m : Pri) :
    (prifiltSetFacility fac op).Matches m = op.holds (m.iFacility : ℕ) fac := by
  cases op
  case ne =>
    rw [prifiltSetFacility, matches_invert, matches_entries]
    simp [CmpOp.holds]
  case eq | lt | le | gt | ge =>
    rw [prifiltSetFacility, matches_entries, CmpOp.holds, decide_eq_decide, Fin.val_castLE]
    omega
  all_goals exact hop.elim

end Message

/-! ## Single comparisons -/

section

variable {ν φ J : Type} {libs : Libs J} {ol : OptLibs} {e : CnfExpr ν φ}

lemma sameOnMessages_of_unchanged (h : cnfexprOptimize ol e = some e) : SameOnMessages libs ol e :=
  ⟨e, h, fun _ _ _ => rfl⟩

lemma sameOnMessages_of_prifilt {pmask : Pmask} {b : Pri → Bool}
    (hopt : cnfexprOptimize ol e = some (.func (.prifilt pmask)))
    (heval : ∀ (m : Pri) (rest : Env ν φ J), (m.iFacility : ℕ) < 24 →
      cnfexprEvalBool libs (msgEnv m rest) e = b m) :
    SameOnMessages libs ol e ↔ ∀ m : Pri, (m.iFacility : ℕ) < 24 → pmask.Matches m = b m := by
  have hfilt (m : Pri) (rest : Env ν φ J) :
      cnfexprEvalBool libs (msgEnv m rest) (.func (.prifilt pmask)) = pmask.Matches m :=
    (numTrue_of_ofBool (eval_prifilt pmask)).2
  constructor
  · rintro ⟨e', he', hsame⟩ m hm
    rw [hopt] at he'
    cases he'
    have h := hsame m ⟨fun _ => .n 0, fun _ => .n 0⟩ hm
    rwa [hfilt, heval _ _ hm] at h
  · intro h
    refine ⟨_, hopt, fun m rest hm => ?_⟩
    rw [hfilt, heval _ _ hm, h m hm]

lemma int32_eq_ofNat_iff {x : Int32} {k : ℕ} (hk : k < 2 ^ 31) : x = ofNat k ↔ x.toInt = k := by
  rw [← toInt_inj, toInt_ofNat_of_lt hk]

lemma str2num_getSeverity (m : Pri) :
    str2num (getSeverity m) = (Int64.ofNat m.iSeverity, true) := by
  have h : ∀ k : Fin 8, str2num (ascii (Msg.syslogNumberNames.get (k.castLE (by decide)))) =
      (Int64.ofNat k, true) := by decide
  exact h m.iSeverity

lemma str2num_getFacility {m : Pri} (hm : (m.iFacility : ℕ) < 24) :
    str2num (getFacility m) = (Int64.ofNat m.iFacility, true) := by
  have h : ∀ k : Fin 25, k < 24 → str2num (ascii (Msg.syslogNumberNames.get k)) =
      (Int64.ofNat k, true) := by decide
  rw [getFacility, if_neg (by omega), h _ hm]

variable {v : CnfVar ν}

lemma optimize_number (ol : OptLibs) (hop : op.IsNumeric)
    (hv : v = .syslogseverity ∨ v = .syslogfacility) (val : Int64) :
    cnfexprOptimize ol (.cmp op (.var v) (.num val) : CnfExpr ν φ) =
      cnfexprOptimizeCmpSeverityFacility op (.var v) (.num val) := by
  rcases hv with rfl | rfl <;> cases op <;> first | rfl | exact hop.elim

lemma toInt32_range (val : Int64) (max : Int32) : 0 ≤ val.toInt32 ∧ val.toInt32 ≤ max ↔
      0 ≤ narrowed val.toInt ∧ narrowed val.toInt ≤ max.toInt := by
  rw [narrowed, ← Int64.toInt_toInt32, le_iff_toInt_le, le_iff_toInt_le]
  rfl

lemma toInt_ofNat_lt {n : ℕ} (hn : n < 25) : (Int64.ofNat n).toInt = n :=
  Int64.toInt_ofNat_of_lt (by omega)

/-- A comparison with a number. The optimizer makes it a filter for the narrowed number, if this is
between 0 and `limit`. -/
lemma sameOnMessages_number (hop : op.IsNumeric)
    (hv : v = .syslogseverity ∨ v = .syslogfacility) {val : Int64} (text : Pri → Bytes)
    (get : Pri → ℕ) (max : ℕ) {limit : Int32} {filter : Option (CnfExpr ν φ)} (hmax : max ≤ 23)
    (hmaxl : max ≤ limit.toInt) (hlimit : limit.toInt ≤ 24)
    (htext : ∀ (m : Pri) (rest : Env ν φ J), (msgEnv m rest).var v = .s (text m))
    (hnum : ∀ m : Pri, (m.iFacility : ℕ) < 24 → str2num (text m) = (Int64.ofNat (get m), true))
    (hget : ∀ P : ℕ → Prop,
      (∀ m : Pri, (m.iFacility : ℕ) < 24 → P (get m)) ↔ ∀ n ≤ max, P n)
    (hopt : cnfexprOptimizeCmpSeverityFacility op (.var v) (.num val) =
      if 0 ≤ val.toInt32 ∧ val.toInt32 ≤ limit then filter else some (.cmp op (.var v) (.num val)))
    (hin : 0 ≤ narrowed val.toInt → narrowed val.toInt ≤ limit.toInt →
      ∃ pmask : Pmask, filter = some (.func (.prifilt pmask)) ∧
        ∀ m : Pri, pmask.Matches m = op.holds (get m) (narrowed val.toInt)) :
    SameOnMessages libs ol (.cmp op (.var v) (.num val) : CnfExpr ν φ) ↔
      NumberFits op max val := by
  rw [← optimize_number ol hop hv] at hopt
  by_cases hrange : 0 ≤ narrowed val.toInt ∧ narrowed val.toInt ≤ limit.toInt
  · obtain ⟨pmask, hfilter, hmatches⟩ := hin hrange.1 hrange.2
    have heval (m : Pri) (rest : Env ν φ J) (hm : (m.iFacility : ℕ) < 24) :
        cnfexprEvalBool libs (msgEnv m rest) (.cmp op (.var v) (.num val)) =
          op.compares (get m) val.toInt := by
      have hle : get m ≤ max := (hget (· ≤ max)).mpr (fun _ h => h) m hm
      rw [(numTrue_of_ofBool (eval_cmp_num hop (htext m rest) (hnum m hm) val)).2,
        toInt_ofNat_lt (by omega)]
    rw [if_pos ((toInt32_range val limit).mpr hrange), hfilter] at hopt
    rw [sameOnMessages_of_prifilt hopt heval,
      ← compares_iff_numberFits hmax hrange.1 (by omega), ← hget]
    simp only [hmatches]
  · rw [if_neg (mt (toInt32_range val limit).mp hrange)] at hopt
    refine iff_of_true (sameOnMessages_of_unchanged hopt) fun _ hle hlt => ?_
    exact absurd ⟨hle, by omega⟩ hrange

lemma severityFilter_holds (hop : op.IsNumeric) {val : Int64} (hle : 0 ≤ narrowed val.toInt)
    (hlt : narrowed val.toInt ≤ 7) :
    ∃ pmask : Pmask, severityFilter op val.toInt32 = some (.func (.prifilt pmask) : CnfExpr ν φ) ∧
      ∀ m : Pri, pmask.Matches m = op.holds (m.iSeverity : ℕ) (narrowed val.toInt) := by
  have hsev : val.toInt32.toInt = narrowed val.toInt := Int64.toInt_toInt32 val
  obtain ⟨s, hs'⟩ : ∃ s : Fin 8, val.toInt32.toInt = (s : ℕ) :=
    ⟨⟨val.toInt32.toInt.toNat, by omega⟩, (Int.toNat_of_nonneg (hsev ▸ hle)).symm⟩
  have hs : val.toInt32 = ofNat s := (int32_eq_ofNat_iff (by omega)).mpr hs'
  obtain ⟨bits, hbits, -⟩ := map_eq_some_iff.mp (severityBits_spec hop s 0)
  refine ⟨fun _ => bits, ?_, fun m => ?_⟩
  · rw [severityFilter_eq hop, hs, hbits]
    rfl
  · have h := severityBits_spec hop s m.iSeverity
    rw [hbits, map_some, some.injEq] at h
    rw [Pmask.Matches, Pmask.entry, h, ← hsev, hs']

lemma sameOnMessages_severity (hop : op.IsNumeric) (val : Int64) :
    SameOnMessages libs ol (.cmp op (.var .syslogseverity) (.num val) : CnfExpr ν φ) ↔
      NumberFits op 7 val := by
  refine sameOnMessages_number hop (.inl rfl) getSeverity (fun m => m.iSeverity) 7 (by omega)
    (by decide) (by decide) (fun _ _ => rfl) (fun m _ => str2num_getSeverity m) (fun P => ?_)
    (cnfexprOptimizeCmpSeverityFacility.eq_1 ..) (severityFilter_holds hop)
  refine ⟨fun h n hn => ?_, fun h m _ => h _ (by omega)⟩
  exact h ⟨0, ⟨n, by omega⟩⟩ (by decide : ((0 : Fin 25) : ℕ) < 24)

lemma sameOnMessages_facility (hop : op.IsNumeric) (val : Int64) :
    SameOnMessages libs ol (.cmp op (.var .syslogfacility) (.num val) : CnfExpr ν φ) ↔
      NumberFits op 23 val := by
  refine sameOnMessages_number hop (.inr rfl) getFacility (fun m => m.iFacility) 23 (by omega)
    (by decide) (by decide) (fun _ _ => rfl) (fun m hm => str2num_getFacility hm) (fun P => ?_)
    (cnfexprOptimizeCmpSeverityFacility.eq_2 ..) fun hle _ => ⟨_, rfl, fun m => ?_⟩
  · exact ⟨fun h n hn => h ⟨⟨n, by omega⟩, 0⟩ (by simp; omega), fun h m _ => h _ (by omega)⟩
  · rw [matches_setFacility hop, Int64.toInt_toInt32, ← narrowed, Int.toNat_of_nonneg hle]

def CmpOp.ofEqual (op : CmpOp) (b : Bool) : Bool := if op = .ne then !b else b

lemma ofEqual_inj {b c : Bool} : op.ofEqual b = op.ofEqual c ↔ b = c := by
  rw [CmpOp.ofEqual, CmpOp.ofEqual]
  split
  · exact Bool.not_inj_iff
  · exact Iff.rfl

lemma eval_cmp_str {env : Env ν φ J} (hop : op.IsEquality) {v : ν} {text : Bytes}
    (hv : env.var v = .s text) (estr : Bytes) :
    numTrue libs env (.cmp op (.var v) (.str estr)) = op.ofEqual (text = estr) ∧
      cnfexprEvalBool libs env (.cmp op (.var v) (.str estr)) = op.ofEqual (text = estr) := by
  have hl : cnfexprEval libs env (.var v) = .s text := hv
  have heq : esStreq libs text estr = decide (text = estr) := by
    rw [Bool.eq_iff_iff, esStreq_iff, decide_eq_true_iff]
  cases op
  case eq =>
    refine numTrue_of_ofBool ?_
    rw [cnfexprEval, hl, evalCmp, evalEq, evalEqText, heq]
    rfl
  case ne =>
    have hval : cnfexprEval libs env (.cmp .ne (.var v) (.str estr)) =
        .n (esStrcmp libs text estr) := by
      rw [cnfexprEval, hl, evalCmp, evalNe]
    have hbool : cnfexprEvalBool libs env (.cmp .ne (.var v) (.str estr)) =
        CmpOp.ne.ofEqual (text = estr) := by
      rw [cnfexprEvalBool, hval, var2Number, asBool_esStrcmp, heq]
      rfl
    refine ⟨?_, hbool⟩
    -- widening the `int` of the comparison to a number keeps it nonzero
    rw [← hbool, numTrue, cnfexprEvalBool, hval, var2Number, esStrcmp, asBool,
      toInt32_toInt64, Bool.eq_iff_iff, bne_iff_ne, bne_iff_ne, ne_eq, ne_eq,
      ← Int64.toInt_inj, toInt_toInt64, ← toInt_inj]
    rfl
  all_goals exact hop.elim

lemma not_sameOnMessages_of_none (h : cnfexprOptimize ol e = none) : ¬SameOnMessages libs ol e := by
  rintro ⟨e', he', -⟩
  rw [h] at he'
  cases he'

lemma matches_ofEqual (pmask : Pmask) (m : Pri) :
    (if op = .ne then prifiltInvert pmask else pmask).Matches m = op.ofEqual (pmask.Matches m) := by
  rw [CmpOp.ofEqual]
  split
  · exact matches_invert pmask m
  · rfl

lemma severityFilter_equality (hop : op.IsEquality) (sev : Int32) :
    severityFilter op sev = (severityBit sev).map fun bits =>
      (.func (.prifilt (if op = .ne then prifiltInvert fun _ => bits else fun _ => bits)) :
        CnfExpr ν φ) := by
  cases op
  case eq =>
    rw [severityFilter_eq (show CmpOp.eq.IsNumeric from trivial)]
    rfl
  case ne =>
    rw [severityFilter_eq (show CmpOp.ne.IsNumeric from trivial), severityBits, map_map]
    rfl
  all_goals exact hop.elim

/-- If the names that messages have are decoded to their index, a code stands for the same messages
as a name if it is out of the range or the name is the one with this index. -/
lemma forall_name_iff {n : ℕ} {text : Fin n → Bytes} {code : ℤ} (hle : 0 ≤ code)
    (hcode : ∀ k, text k = estr → code = (k : ℕ)) :
    (∀ k : Fin n, ((k : ℕ) : ℤ) = code ↔ text k = estr) ↔
      n ≤ code ∨ ∃ k : Fin n, code = (k : ℕ) ∧ estr = text k := by
  constructor
  · intro h
    rcases le_or_gt (n : ℤ) code with hn | hn
    · exact .inl hn
    · have hk : ((⟨code.toNat, by omega⟩ : Fin n) : ℕ) = code := Int.toNat_of_nonneg hle
      exact .inr ⟨_, hk.symm, ((h _).mp hk).symm⟩
  · rintro (hn | ⟨k', hk', rfl⟩) k
    · exact ⟨fun hk => by omega, fun hk => (hcode k hk).symm⟩
    · refine ⟨fun hk => ?_, fun hk => (hcode k hk).symm⟩
      rw [Fin.ext (show (k : ℕ) = k' by omega)]

lemma optimize_name (ol : OptLibs) (hop : op.IsEquality)
    (hv : v = .syslogseverityText ∨ v = .syslogfacilityText) (estr : Bytes) :
    cnfexprOptimize ol (.cmp op (.var v) (.str estr) : CnfExpr ν φ) =
      cnfexprOptimizeCmpVar op (.var v) (.str estr) := by
  rcases hv with rfl | rfl <;> cases op <;> first | rfl | exact hop.elim

/-- A comparison with a name. The optimizer looks it up and makes a filter for `code` of what it
finds, if this is between 0 and `limit`. -/
lemma sameOnMessages_name (hop : op.IsEquality)
    (hvar : v = .syslogseverityText ∨ v = .syslogfacilityText) {found : Option Int32}
    (code : Int32 → Int32) {limit : Int32} (filter : Int32 → Pmask) (text : Pri → Bytes) (index : Pri → ℕ) {n : ℕ}
    (names : Fin n → Bytes) (hn : n < 2 ^ 31) (hlimit : n ≤ limit.toInt)
    (hv : ∀ (m : Pri) (rest : Env ν φ J), (msgEnv m rest).var v = .s (text m))
    (hindex : ∀ P : ℕ → Bytes → Prop,
      (∀ m : Pri, (m.iFacility : ℕ) < 24 → P (index m) (text m)) ↔ ∀ k : Fin n, P k (names k))
    (hmatches : ∀ c (m : Pri), 0 ≤ code c →
      (filter c).Matches m = decide ((index m : ℤ) = (code c).toInt))
    (hnames : ∀ k c, names k = estr → found = some c → c = -1 ∨ code c = ofNat k)
    (hopt : cnfexprOptimizeCmpVar op (.var v) (.str estr : CnfExpr ν φ) =
      found.bind fun c => if c = -1 then some (.cmp op (.var v) (.str estr))
        else if 0 ≤ code c ∧ code c < limit then
          some (.func (.prifilt (if op = .ne then prifiltInvert (filter c) else filter c)))
        else none) :
    SameOnMessages libs ol (.cmp op (.var v) (.str estr) : CnfExpr ν φ) ↔
      ∃ c, found = some c ∧ (c = -1 ∨ ofNat n ≤ code c ∧ code c < limit ∨
        ∃ k : Fin n, code c = ofNat k ∧ estr = names k) := by
  rw [← optimize_name ol hop hvar] at hopt
  cases found with
  | none => exact iff_of_false (not_sameOnMessages_of_none hopt) fun ⟨_, h, _⟩ => nomatch h
  | some c =>
    rw [bind_some] at hopt
    simp only [some.injEq, exists_eq_left']
    by_cases hneg : c = -1
    · rw [if_pos hneg] at hopt
      exact iff_of_true (sameOnMessages_of_unchanged hopt) (.inl hneg)
    rw [if_neg hneg] at hopt
    have hle : ofNat n ≤ code c ↔ (n : ℤ) ≤ (code c).toInt := by
      rw [le_iff_toInt_le, toInt_ofNat_of_lt hn]
    have heq (k : Fin n) : code c = ofNat k ↔ (code c).toInt = (k : ℕ) :=
      int32_eq_ofNat_iff (by omega)
    by_cases hrange : 0 ≤ code c ∧ code c < limit
    · have hcode (k : Fin n) (hk : names k = estr) : (code c).toInt = (k : ℕ) :=
        (heq k).mp ((hnames k c hk rfl).resolve_left hneg)
      rw [if_pos hrange] at hopt
      rw [sameOnMessages_of_prifilt hopt fun m rest _ => (eval_cmp_str hop (hv m rest) estr).2]
      simp only [matches_ofEqual, hmatches c _ hrange.1, ofEqual_inj, decide_eq_decide]
      rw [hindex fun i t => (i : ℤ) = (code c).toInt ↔ t = estr,
        forall_name_iff (le_iff_toInt_le.mp hrange.1) hcode]
      simp [hneg, hle, hrange.2, heq]
    · rw [if_neg hrange] at hopt
      refine iff_of_false (not_sameOnMessages_of_none hopt) ?_
      rw [le_iff_toInt_le, lt_iff_toInt_lt, toInt_zero] at hrange
      rintro (h | ⟨hn', hlt⟩ | ⟨k, hk, -⟩)
      · exact hneg h
      · exact hrange ⟨by have := hle.mp hn'; omega, lt_iff_toInt_lt.mp hlt⟩
      · have hk' := (heq k).mp hk
        exact hrange ⟨by omega, by omega⟩

lemma decode_severityNames : ∀ k : Fin 8,
    decodeSyslogName (esStr2cstr (ascii (Msg.syslogSeverityNames.get k))) SrUtils.syslogPriNames =
      some (ofNat k) := by
  decide

lemma matches_severityOf {sev : Int32} (hle : 0 ≤ sev) (m : Pri) :
    Pmask.Matches (fun _ => UInt8.ofNat (2 ^ sev.toInt.toNat)) m =
      decide (((m.iSeverity : ℕ) : ℤ) = sev.toInt) := by
  have hlt : (m.iSeverity : ℕ) < 8 := m.iSeverity.isLt
  have hbits : (UInt8.ofNat (2 ^ sev.toInt.toNat)).toBitVec =
    BitVec.ofNat 8 (2 ^ sev.toInt.toNat) := rfl
  have hle' : 0 ≤ sev.toInt := le_iff_toInt_le.mp hle
  rw [Pmask.Matches, Pmask.entry, hbits, BitVec.getLsbD_ofNat, Nat.testBit_two_pow,
    decide_eq_true hlt, Bool.true_and, decide_eq_decide]
  omega

lemma sameOnMessages_severityText (hop : op.IsEquality) (estr : Bytes) :
    SameOnMessages libs ol (.cmp op (.var .syslogseverityText) (.str estr) : CnfExpr ν φ) ↔
      SeverityName estr := by
  refine sameOnMessages_name hop (.inl rfl) (fun sev => sev)
    (fun sev _ => UInt8.ofNat (2 ^ sev.toInt.toNat)) getSeverityStr (fun m => m.iSeverity)
    (fun k : Fin 8 => ascii (Msg.syslogSeverityNames.get k)) (by omega) (by decide)
    (fun _ _ => rfl) (fun P => ?_) (fun sev m hle => matches_severityOf hle m)
    (fun k sev hk hdec => ?_) ?_
  · exact ⟨fun h k => h ⟨0, k⟩ (by decide : ((0 : Fin 25) : ℕ) < 24), fun h m _ => h m.iSeverity⟩
  · rw [← hk, decode_severityNames, some.injEq] at hdec
    exact .inr hdec.symm
  · rw [cnfexprOptimizeCmpVar]
    refine congrArg _ (funext fun sev => ?_)
    rw [severityFilter_equality hop, severityBit]
    split_ifs <;> rfl

/-- The texts that messages have for their facility are decoded to the facility, but for those that
are not in the table. -/
lemma decode_facilityNames : ∀ k : Fin 24,
    (decodeSyslogName (esStr2cstr (ascii (Msg.syslogFacNames.get (k.castLE (by decide)))))
      SrUtils.syslogFacNames).all fun fac => fac = -1 ∨ fac >>> (3 : Int32) = ofNat k := by
  decide

lemma forall_facilityStr (P : ℕ → Bytes → Prop) :
    (∀ m : Pri, (m.iFacility : ℕ) < 24 → P m.iFacility (getFacilityStr m)) ↔
      ∀ k : Fin 24, P k (ascii (Msg.syslogFacNames.get (k.castLE (by decide)))) := by
  constructor
  · intro h k
    have hk := h ⟨k.castLE (by decide), 0⟩ k.isLt
    rwa [getFacilityStr, if_neg (by have := k.isLt; simp [Fin.lt_def]; omega)] at hk
  · intro h m hm
    rw [getFacilityStr, if_neg (by omega)]
    exact h ⟨m.iFacility, hm⟩

lemma sameOnMessages_facilityText (hop : op.IsEquality) (estr : Bytes) :
    SameOnMessages libs ol (.cmp op (.var .syslogfacilityText) (.str estr) : CnfExpr ν φ) ↔
      FacilityName estr := by
  refine sameOnMessages_name hop (.inr rfl) (fun fac => fac >>> (3 : Int32))
    (fun fac i => if (i : ℤ) = (fac >>> (3 : Int32)).toInt then 0xFF else 0) getFacilityStr
    (fun m => m.iFacility)
    (fun k : Fin 24 => ascii (Msg.syslogFacNames.get (k.castLE (by decide)))) (by omega) (by decide)
    (fun _ _ => rfl) forall_facilityStr (fun fac m _ => matches_entries m)
    (fun k fac hk hdec => ?_) ?_
  · have hdecode := decode_facilityNames k
    rwa [hk, hdec, all_some, decide_eq_true_iff] at hdecode
  · rw [cnfexprOptimizeCmpVar]
    refine congrArg _ (funext fun fac => ?_)
    have hguard : fac >>> (3 : Int32) ≥ 26 ∨ fac >>> (3 : Int32) < 0 ↔
        ¬(0 ≤ fac >>> (3 : Int32) ∧ fac >>> (3 : Int32) < 26) := by
      rw [not_and_or, Int32.not_le, Int32.not_lt, or_comm]
    by_cases hrange : 0 ≤ fac >>> (3 : Int32) ∧ fac >>> (3 : Int32) < 26
    · rw [cnffuncNewPrifilt, if_neg fun h => hguard.mp h hrange, if_pos hrange]
      rfl
    · rw [cnffuncNewPrifilt, if_pos (hguard.mpr hrange), if_neg hrange]
      rfl

lemma sameOnMessages_comparison (h : PriComparison e) : SameOnMessages libs ol e ↔ Faithful e := by
  cases h with
  | severity hop val => exact sameOnMessages_severity hop val
  | facility hop val => exact sameOnMessages_facility hop val
  | severityText hop estr => exact sameOnMessages_severityText hop estr
  | facilityText hop estr => exact sameOnMessages_facilityText hop estr

end

/-! ## All expressions -/

section

variable {ν φ J : Type} {libs : Libs J} {ol : OptLibs} {e : CnfExpr ν φ}

/-- The expression is a condition on messages, for `and`, `or` and `not` as well as for
`cnfexprEvalBool`. -/
def Evaluates (libs : Libs J) (e : CnfExpr ν φ) (b : Pri → Env ν φ J → Bool) : Prop :=
  ∀ (m : Pri) (rest : Env ν φ J), (m.iFacility : ℕ) < 24 →
    numTrue libs (msgEnv m rest) e = b m rest ∧ cnfexprEvalBool libs (msgEnv m rest) e = b m rest

lemma evaluates_prifilt (pmask : Pmask) : Evaluates libs (.func (.prifilt pmask) : CnfExpr ν φ)
      fun m _ => pmask.Matches m :=
  fun _ _ _ => numTrue_of_ofBool (eval_prifilt pmask)

variable {b : Pri → Env ν φ J → Bool}

lemma matches_of_evaluates {pmask : Pmask} (h : Evaluates libs (.func (.prifilt pmask)) b)
    {m : Pri} {rest : Env ν φ J} (hm : (m.iFacility : ℕ) < 24) : b m rest = pmask.Matches m :=
  (h m rest hm).1.symm.trans (numTrue_of_ofBool (eval_prifilt pmask)).1

lemma evaluates_comparison (h : PriComparison e) : ∃ b, Evaluates libs e b := by
  cases h with
  | severity hop val =>
    exact ⟨_, fun m _ _ => numTrue_of_ofBool (eval_cmp_num hop rfl (str2num_getSeverity m) val)⟩
  | facility hop val =>
    exact ⟨_, fun m _ hm => numTrue_of_ofBool (eval_cmp_num hop rfl (str2num_getFacility hm) val)⟩
  | severityText hop estr => exact ⟨_, fun _ _ _ => eval_cmp_str hop rfl estr⟩
  | facilityText hop estr => exact ⟨_, fun _ _ _ => eval_cmp_str hop rfl estr⟩

variable {l r : CnfExpr ν φ} {c : Pri → Env ν φ J → Bool}

lemma evaluates_junctor (op : Junctor) (hl : Evaluates libs l b) (hr : Evaluates libs r c) :
    Evaluates libs (op.expr l r) fun m rest => op.apply (b m rest) (c m rest) := by
  intro m rest hm
  dsimp only
  rw [← (hl m rest hm).1, ← (hr m rest hm).1]
  apply numTrue_of_ofBool
  cases op <;> rw [Junctor.expr, cnfexprEval, numTrue, numTrue] <;>
    by_cases hl : (var2Number libs (cnfexprEval libs (msgEnv m rest) l)).1 = 0 <;>
      by_cases hr : (var2Number libs (cnfexprEval libs (msgEnv m rest) r)).1 = 0 <;>
        simp [hl, hr, ofBool, Junctor.apply]

lemma evaluates_not (hr : Evaluates libs r b) :
    Evaluates libs (.not r) fun m rest => !b m rest := by
  intro m rest hm
  dsimp only
  rw [← (hr m rest hm).1]
  refine numTrue_of_ofBool ?_
  rw [cnfexprEval, numTrue, bne, Bool.not_not]

lemma evaluates_andOr (op : Junctor) (hl : Evaluates libs l b) (hr : Evaluates libs r c) :
    Evaluates libs (cnfexprOptimizeAndOr op l r) fun m rest => op.apply (b m rest) (c m rest) := by
  rw [cnfexprOptimizeAndOr.eq_def]
  split
  · intro m rest hm
    dsimp only
    rw [matches_of_evaluates hl hm, matches_of_evaluates hr hm, ← matches_combine]
    exact evaluates_prifilt _ m rest hm
  · exact evaluates_junctor op hl hr

lemma evaluates_optimizeNot (hr : Evaluates libs r b) :
    Evaluates libs (cnfexprOptimizeNot r) fun m rest => !b m rest := by
  rw [cnfexprOptimizeNot.eq_def]
  split
  · intro m rest hm
    dsimp only
    rw [matches_of_evaluates hr hm, ← matches_invert]
    exact evaluates_prifilt _ m rest hm
  · exact evaluates_not hr

lemma optimize_comparison {e' : CnfExpr ν φ} (h : PriComparison e)
    (hopt : cnfexprOptimize ol e = some e') : e' = e ∨ ∃ pmask, e' = .func (.prifilt pmask) := by
  cases h with
  | severity hop val =>
    exact optimizeCmpSeverityFacility_some ((optimize_number ol hop (.inl rfl) val).symm.trans hopt)
  | facility hop val =>
    exact optimizeCmpSeverityFacility_some ((optimize_number ol hop (.inr rfl) val).symm.trans hopt)
  | severityText hop estr =>
    exact optimizeCmpVar_some ((optimize_name ol hop (.inl rfl) estr).symm.trans hopt)
  | facilityText hop estr =>
    exact optimizeCmpVar_some ((optimize_name ol hop (.inr rfl) estr).symm.trans hopt)

/-- What the optimizer returns is the same condition as the expression. -/
def SameCondition (libs : Libs J) (ol : OptLibs) (e : CnfExpr ν φ) : Prop :=
  ∃ e' b, cnfexprOptimize ol e = some e' ∧ Evaluates libs e' b ∧ Evaluates libs e b

lemma SameCondition.junctor (op : Junctor) (hl : SameCondition libs ol l)
    (hr : SameCondition libs ol r) : SameCondition libs ol (op.expr l r) := by
  obtain ⟨l', b, hoptl, hl', hl⟩ := hl
  obtain ⟨r', c, hoptr, hr', hr⟩ := hr
  refine ⟨_, _, ?_, evaluates_andOr op hl' hr', evaluates_junctor op hl hr⟩
  cases op <;> rw [Junctor.expr, cnfexprOptimize, hoptl, hoptr] <;> rfl

/-- If the constants of all comparisons are decoded to what they are compared with, the optimizer
keeps the condition. -/
lemma optimize_priExpr (h : PriExpr e) (hf : Faithful e) : SameCondition libs ol e := by
  induction h with
  | @comparison e h =>
    obtain ⟨b, hb⟩ : ∃ b, Evaluates libs e b := evaluates_comparison h
    obtain ⟨e', hopt, hsame⟩ : SameOnMessages libs ol e := (sameOnMessages_comparison h).mpr hf
    refine ⟨e', b, hopt, ?_, hb⟩
    rcases optimize_comparison h hopt with rfl | ⟨pmask, rfl⟩
    · exact hb
    · intro m rest hm
      obtain ⟨hnum, hbool⟩ := @evaluates_prifilt ν φ J libs pmask m rest hm
      rw [hnum, ← hbool, hsame m rest hm, (hb m rest hm).2]
      exact ⟨rfl, rfl⟩
  | and _ _ ihl ihr => exact .junctor .and (ihl hf.1) (ihr hf.2)
  | or _ _ ihl ihr => exact .junctor .or (ihl hf.1) (ihr hf.2)
  | not _ ih =>
    obtain ⟨r', b, hopt, hr', hr⟩ := ih hf
    refine ⟨_, _, ?_, evaluates_optimizeNot hr', evaluates_not hr⟩
    rw [cnfexprOptimize, hopt]
    rfl

/-- The optimizer keeps an expression over facility and severity if all its comparisons are
faithful, and for a single comparison only then. -/
theorem optimize_faithful {e : CnfExpr ν φ} (h : PriExpr e) :
    (Faithful e → SameOnMessages libs ol e) ∧
      (PriComparison e → (SameOnMessages libs ol e ↔ Faithful e)) := by
  refine ⟨fun hf => ?_, sameOnMessages_comparison⟩
  obtain ⟨e', b, hopt, he', he⟩ := @optimize_priExpr ν φ J libs ol e h hf
  refine ⟨e', hopt, fun m rest hm => ?_⟩
  rw [(he' m rest hm).2, (he m rest hm).2]

/-- `$syslogseverity <= 3 and not ($syslogfacility-text == "mail")` is kept. -/
theorem optimize_faithful_err_not_mail : SameOnMessages Libs.ints OptLibs.lexicographic
      (.and (.cmp .le (.var .syslogseverity) (.num 3))
        (.not (.cmp .eq (.var .syslogfacilityText) (.str (ascii "mail")))) :
        CnfExpr Unit Unit) := by
  have hmail : FacilityName (ascii "mail") := ⟨16, by decide, .inr (.inr ⟨2, by decide, rfl⟩)⟩
  have hle : CmpOp.le.IsNumeric := trivial
  have heq : CmpOp.eq.IsEquality := trivial
  exact (optimize_faithful (.and (.comparison (.severity hle 3))
    (.not (.comparison (.facilityText heq (ascii "mail")))))).1 ⟨fun h => h.elim, hmail⟩

/-- The alias "error" stands for severity 3 in the filter, but no message has it as a text. The
number `4294967299` is 3 after narrowing. -/
theorem optimize_unfaithful : (∃ e', cnfexprOptimize OptLibs.lexicographic
        (.cmp .eq (.var .syslogseverityText) (.str (ascii "error")) : CnfExpr Unit Unit) = some e' ∧
      cnfexprEvalBool Libs.ints (msgEnv ⟨0, 3⟩ ⟨fun _ => .n 0, fun _ => .n 0⟩) e' = true ∧
      cnfexprEvalBool Libs.ints (msgEnv ⟨0, 3⟩ ⟨fun _ => .n 0, fun _ => .n 0⟩)
        (.cmp .eq (.var .syslogseverityText) (.str (ascii "error")) : CnfExpr Unit Unit) = false) ∧
    ∃ e', cnfexprOptimize OptLibs.lexicographic (.cmp .eq (.var .syslogseverity) (.num 4294967299) :
          CnfExpr Unit Unit) = some e' ∧
      cnfexprEvalBool Libs.ints (msgEnv ⟨0, 3⟩ ⟨fun _ => .n 0, fun _ => .n 0⟩) e' = true ∧
      cnfexprEvalBool Libs.ints (msgEnv ⟨0, 3⟩ ⟨fun _ => .n 0, fun _ => .n 0⟩)
        (.cmp .eq (.var .syslogseverity) (.num 4294967299) : CnfExpr Unit Unit) = false :=
  ⟨⟨_, rfl, rfl, rfl⟩, _, rfl, rfl, rfl⟩

end

end Rsyslog.Script
