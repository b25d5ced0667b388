import Rsyslog.Script.StmtOptimize

/-!
# The optimized statements do the same

An action of `omdiscard` does not end a script, as `execAct` does not look at what the action
returns. It is the optimizer that makes it end the script, by turning it into `stop`. Up to this
the optimized list does what the list did, if its expressions give what they gave, and if nothing is
lost with the conditions that are dropped.
-/

namespace Rsyslog.Script

section Sound

variable {ν φ κ α ρ J M : Type} (libs : Libs J) (mc : Machine ν φ κ α ρ J M) (ol : OptLibs)
  (isDiscard : α → Bool)

/-! ## The conditions -/

mutual

/-- The statement with the actions of `omdiscard` read as `stop`. The optimizer does not look at the
`else` of a PRI filter, which a configuration cannot have. -/
def stopDiscardsStmt : Stmt ν φ κ α ρ → Stmt ν φ κ α ρ
  | .act a => if isDiscard a then .stop else .act a
  | .ite expr t_then t_else => .ite expr (stopDiscards t_then) (stopDiscards t_else)
  | .foreach var collection body => .foreach var collection (stopDiscards body)
  | .prifilt pmask t_then t_else => .prifilt pmask (stopDiscards t_then) t_else
  | .propfilt filter t_then => .propfilt filter (stopDiscards t_then)
  | .nop => .nop
  | .stop => .stop
  | .set varname expr force_reset => .set varname expr force_reset
  | .unset varname => .unset varname

def stopDiscards : Stmts ν φ κ α ρ → Stmts ν φ κ α ρ
  | [] => []
  | stmt :: next => stopDiscardsStmt stmt :: stopDiscards next

end

/-- The optimizer keeps what an expression is evaluated to by `eval`, with its effect on the
message. -/
def KeptExpr {β : Type} (eval : CnfExpr ν φ → M → β × M) (expr : CnfExpr ν φ) : Prop :=
  ∃ expr', cnfexprOptimize ol expr = some expr' ∧ ∀ m, eval expr' m = eval expr m

mutual

/-- The optimizer keeps all expressions, and an `if` of which it leaves nothing has a condition
without an effect on the message. -/
def KeptStmt : Stmt ν φ κ α ρ → Prop
  | .set _ expr _ => KeptExpr ol (evalOn libs mc) expr
  | .ite expr t_then t_else =>
    KeptExpr ol (conditionOn libs mc) expr ∧ Kept t_then ∧ Kept t_else ∧
      (rewrite ol isDiscard t_then = some [] → rewrite ol isDiscard t_else = some [] →
        ∀ m, (conditionOn libs mc expr m).2 = m)
  | .foreach _ collection body => KeptExpr ol (evalCollectionOn libs mc) collection ∧ Kept body
  | .prifilt _ t_then _ => Kept t_then
  | .propfilt _ t_then => Kept t_then
  | .nop | .stop | .act _ | .unset _ => True

def Kept : Stmts ν φ κ α ρ → Prop
  | [] => True
  | stmt :: next => KeptStmt stmt ∧ Kept next

end

/-! ## Running lists -/

variable {libs mc ol isDiscard}

lemma scriptExec_append (l l' : Stmts ν φ κ α ρ) :
    scriptExec libs mc (l ++ l') = (do scriptExec libs mc l; scriptExec libs mc l') := by
  induction l with
  | nil => simp [scriptExec]
  | cons stmt next ih => simp [scriptExec, ih]

lemma scriptExec_singleton (stmt : Stmt ν φ κ α ρ) :
    scriptExec libs mc [stmt] = execStmt libs mc stmt := by
  simp [scriptExec]

lemma evaluate_eq_pure {β : Type} {f : M → β × M} {b : β} (h : ∀ m, f m = (b, m)) :
    (evaluate f : ScriptM κ α J M β) = pure b := by
  funext s
  rw [evaluate, h]
  rfl

lemma evaluate_discard {β γ : Type} {f : M → β × M} (h : ∀ m, (f m).2 = m)
    (k : ScriptM κ α J M γ) : (do let _ ← evaluate f; k) = k := by
  funext s
  change k { s with msg := (f s.msg).2 } = k s
  rw [h]

lemma matches_of_isAlways {pmask : Pmask} (h : isAlways pmask = true) (m : Pri) :
    pmask.Matches m = true := by
  have hall : ∀ k : Fin 8, (0xFF : UInt8).toBitVec.getLsbD k = true := by decide
  rw [Pmask.Matches, Pmask.entry, of_decide_eq_true h, hall]

lemma exec_ite_prifilt (pmask : Pmask) (t_then t_else : Stmts ν φ κ α ρ) :
    execStmt libs mc (.ite (.func (.prifilt pmask)) t_then t_else) =
      execStmt libs mc (.prifilt pmask t_then t_else) := by
  funext s
  rw [execStmt, execStmt]
  change (if (doFunctPrifilt pmask (mc.pri s.msg)).toInt32.toInt8 != 0 then
        scriptExec libs mc t_then else scriptExec libs mc t_else) s =
    (if doFunctPrifilt pmask (mc.pri s.msg) = 1 then scriptExec libs mc t_then
      else scriptExec libs mc t_else) s
  rw [doFunctPrifilt_eq]
  cases pmask.Matches (mc.pri s.msg) <;> rfl

lemma exec_rewritePRIFilt (pmask : Pmask) (t_then t_else : Stmts ν φ κ α ρ) :
    scriptExec libs mc (rewritePRIFilt pmask t_then t_else) =
      execStmt libs mc (.prifilt pmask t_then t_else) := by
  rw [rewritePRIFilt]
  split
  case isTrue halways =>
    have hone (m : M) : doFunctPrifilt pmask (mc.pri m) = 1 := by
      rw [doFunctPrifilt_eq, matches_of_isAlways halways]
      rfl
    rw [execStmt, evaluate_eq_pure fun m => by rw [hone m], pure_bind, if_pos rfl]
  case isFalse => exact scriptExec_singleton _

lemma exec_rewriteIf (expr : CnfExpr ν φ) (t_then t_else : Stmts ν φ κ α ρ)
    (hpure : t_then = [] → t_else = [] → ∀ m, (conditionOn libs mc expr m).2 = m) :
    scriptExec libs mc (rewriteIf expr t_then t_else) =
      execStmt libs mc (.ite expr t_then t_else) := by
  rcases rewriteIf_cases expr t_then t_else with ⟨⟨hthen, helse⟩, h⟩ | ⟨-, ⟨pmask, rfl, h⟩ | ⟨-, h⟩⟩
  · rw [h, execStmt]
    simp only [hthen, helse, ite_self]
    exact (evaluate_discard (hpure hthen helse) _).symm
  · rw [h, exec_rewritePRIFilt, exec_ite_prifilt]
  · rw [h, scriptExec_singleton]

/-! ## The rewriting -/

mutual

lemma exec_rewriteStmt (stmt : Stmt ν φ κ α ρ) (hk : KeptStmt libs mc ol isDiscard stmt) :
    ∃ l, rewriteStmt ol isDiscard stmt = some l ∧
      scriptExec libs mc l = execStmt libs mc (stopDiscardsStmt isDiscard stmt) := by
  cases stmt with
  | nop =>
    refine ⟨_, rfl, ?_⟩
    rw [stopDiscardsStmt, execStmt, scriptExec]
  | stop | unset | act => exact ⟨_, rfl, scriptExec_singleton _⟩
  | set varname expr force_reset =>
    obtain ⟨expr', hexpr, hsame⟩ := hk
    refine ⟨_, by rw [rewriteStmt, hexpr]; rfl, ?_⟩
    rw [scriptExec_singleton, stopDiscardsStmt, execStmt, execStmt, execSet, execSet,
      funext hsame]
  | ite expr t_then t_else =>
    obtain ⟨⟨expr', hexpr, hsame⟩, hkthen, hkelse, hpure⟩ := hk
    obtain ⟨t_then', hthen, hexthen⟩ := exec_rewrite t_then hkthen
    obtain ⟨t_else', helse, hexelse⟩ := exec_rewrite t_else hkelse
    refine ⟨_, by rw [rewriteStmt, hexpr, hthen, helse]; rfl, ?_⟩
    rw [stopDiscardsStmt, exec_rewriteIf]
    · rw [execStmt, execStmt, hexthen, hexelse, funext hsame]
    · rintro rfl rfl m
      rw [hsame, hpure hthen helse]
  | foreach var collection body =>
    obtain ⟨⟨collection', hcoll, hsame⟩, hkbody⟩ := hk
    obtain ⟨body', hbody, hexbody⟩ := exec_rewrite body hkbody
    refine ⟨_, by rw [rewriteStmt, hcoll, hbody]; rfl, ?_⟩
    rw [scriptExec_singleton, stopDiscardsStmt, execStmt, execStmt, hexbody, execForeach,
      execForeach, funext hsame]
  | prifilt pmask t_then t_else =>
    obtain ⟨t_then', hthen, hexthen⟩ := exec_rewrite t_then hk
    refine ⟨_, by rw [rewriteStmt, hthen]; rfl, ?_⟩
    rw [exec_rewritePRIFilt, stopDiscardsStmt, execStmt, execStmt, hexthen]
  | propfilt filter t_then =>
    obtain ⟨t_then', hthen, hexthen⟩ := exec_rewrite t_then hk
    refine ⟨_, by rw [rewriteStmt, hthen]; rfl, ?_⟩
    rw [scriptExec_singleton, stopDiscardsStmt, execStmt, execStmt, hexthen]

lemma exec_rewrite (l : Stmts ν φ κ α ρ) (hk : Kept libs mc ol isDiscard l) :
    ∃ l', rewrite ol isDiscard l = some l' ∧
      scriptExec libs mc l' = scriptExec libs mc (stopDiscards isDiscard l) := by
  cases l with
  | nil => exact ⟨_, rfl, rfl⟩
  | cons stmt next =>
    obtain ⟨stmts, hstmt, hexstmt⟩ := exec_rewriteStmt stmt hk.1
    obtain ⟨next', hnext, hexnext⟩ := exec_rewrite next hk.2
    refine ⟨_, by rw [rewrite, hstmt, hnext]; rfl, ?_⟩
    rw [scriptExec_append, hexstmt, hexnext, stopDiscards, scriptExec]

end

/-! ## The optimizer -/

/-- The optimizer comes to an end, and its list does what the list did with the actions of
`omdiscard` read as `stop`. -/
theorem exec_cnfstmtOptimize (l : Stmts ν φ κ α ρ) (hk : Kept libs mc ol isDiscard l) :
    ∃ l', (∀ fuel, weight l ≤ fuel → cnfstmtOptimize ol isDiscard fuel l = some l') ∧
      ∀ s, scriptExec libs mc l' s = scriptExec libs mc (stopDiscards isDiscard l) s := by
  obtain ⟨l', hl', hexec⟩ := exec_rewrite l hk
  exact ⟨l', fun fuel hfuel => cnfstmtOptimize_eq hl' hfuel, fun s => by rw [hexec]⟩

/-- A message that is nothing but its PRI, with actions that are told apart by `true` for
`omdiscard`. -/
def priMachine : Machine Unit Unit Unit Bool Unit Int64 Pri where
  pri m := m
  var _ _ := .n 0
  func _ m := (.n 0, m)
  items _ := []
  msgSetJSONFromVar _ _ _ m := (0, m)
  msgDelJSON _ m := (0, m)
  bDisabled _ _ := false
  submitToActQ _ m := m
  evalPROPFILT _ _ := true

/-- A condition that is always true, and an `if` that does nothing. -/
def alwaysList : List (Stmt Unit Unit Unit Bool Unit) :=
  [.ite (.func (.prifilt fun _ => 0xFF)) [.act false, .stop] [.unset ()], .ite (.num 1) [.nop] []]

theorem exec_alwaysList :
    ∃ l', (∀ fuel, weight alwaysList ≤ fuel →
        cnfstmtOptimize OptLibs.lexicographic id fuel alwaysList = some l') ∧
      ∀ s, scriptExec Libs.ints priMachine l' s =
        scriptExec Libs.ints priMachine (stopDiscards id alwaysList) s := by
  have hkept : Kept Libs.ints priMachine OptLibs.lexicographic id alwaysList :=
    ⟨⟨⟨_, rfl, fun _ => rfl⟩, ⟨trivial, trivial, trivial⟩, ⟨trivial, trivial⟩, fun h => nomatch h⟩,
      ⟨⟨_, rfl, fun _ => rfl⟩, ⟨trivial, trivial⟩, trivial, fun _ _ _ => rfl⟩, trivial⟩
  exact exec_cnfstmtOptimize alwaysList hkept

/-- Before the optimization the action behind `omdiscard` is submitted, afterwards it is not. -/
theorem exec_omdiscard :
    (∃ l', cnfstmtOptimize OptLibs.lexicographic id 3
        [(.act true : Stmt Unit Unit Unit Bool Unit), .act false] = some l' ∧
      scriptExec Libs.ints priMachine l' ⟨⟨0, 0⟩, []⟩ = .error (-2002) ⟨⟨0, 0⟩, []⟩) ∧
    scriptExec Libs.ints priMachine [.act true, .act false] ⟨⟨0, 0⟩, []⟩ =
      .ok () ⟨⟨0, 0⟩, [.submit true ⟨0, 0⟩, .submit false ⟨0, 0⟩]⟩ :=
  ⟨⟨_, rfl, rfl⟩, rfl⟩

end Sound

end Rsyslog.Script
