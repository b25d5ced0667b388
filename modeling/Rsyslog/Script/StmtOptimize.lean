import Rsyslog.Script.Stmt

/-!
# Optimization of statements

`cnfstmtOptimize` of `grammar/rainerscript.c`. It walks a list of statements and changes it on the
way: an `if` whose condition has become a PRI filter is made a PRI filter statement, and the body of
a filter that is always true takes the place of the filter. The first statement of such a body is
not looked at again, the others are. In the end the NOPs are removed.

`rewrite` replaces every statement by a list of statements, one by one. The walk comes to the same
list (`cnfstmtOptimize_eq`), because what was optimized once is not changed again.
-/

namespace Rsyslog.Script

open Option (bind_eq_some_iff)

open Option

section Optimizer

variable {ν φ κ α ρ : Type} (ol : OptLibs) (isDiscard : α → Bool)

/-! ## The optimizer -/

def Stmt.isNop : Stmt ν φ κ α ρ → Bool
  | .nop => true
  | _ => false

def removeNOPs (root : Stmts ν φ κ α ρ) : Stmts ν φ κ α ρ :=
  root.filter fun stmt => !stmt.isNop

def isAlways (pmask : Pmask) : Bool := decide (∀ i, pmask i = 0xFF)

/-- A statement after its optimization, and the statements that were linked in behind it. `optimize`
is what is called for the lists in the statement. -/
def cnfstmtOptimizePRIFilt (optimize : Stmts ν φ κ α ρ → Option (Stmts ν φ κ α ρ))
    (pmask : Pmask) (t_then t_else : Stmts ν φ κ α ρ) :
    Option (Stmt ν φ κ α ρ × Stmts ν φ κ α ρ) := do
  let t_then ← optimize t_then
  if isAlways pmask then
    match t_then with
    | [] => return (.nop, [])
    | subroot :: last => return (subroot, last)
  else return (.prifilt pmask t_then t_else, [])

def cnfstmtOptimizeIf (optimize : Stmts ν φ κ α ρ → Option (Stmts ν φ κ α ρ))
    (expr : CnfExpr ν φ) (t_then t_else : Stmts ν φ κ α ρ) :
    Option (Stmt ν φ κ α ρ × Stmts ν φ κ α ρ) := do
  let expr ← cnfexprOptimize ol expr
  let t_then ← optimize t_then
  let t_else ← optimize t_else
  if t_then.isEmpty && t_else.isEmpty then return (.nop, [])
  else
    match expr with
    | .func (.prifilt pmask) => cnfstmtOptimizePRIFilt optimize pmask t_then t_else
    | expr => return (.ite expr t_then t_else, [])

/-- One round of the loop of `cnfstmtOptimize`. The actions of `omdiscard` become `stop`. -/
def optimizeStmt (optimize : Stmts ν φ κ α ρ → Option (Stmts ν φ κ α ρ)) :
    Stmt ν φ κ α ρ → Option (Stmt ν φ κ α ρ × Stmts ν φ κ α ρ)
  | .ite expr t_then t_else => cnfstmtOptimizeIf ol optimize expr t_then t_else
  | .foreach var collection body => do
    let collection ← cnfexprOptimize ol collection
    let body ← optimize body
    return (.foreach var collection body, [])
  | .prifilt pmask t_then t_else => cnfstmtOptimizePRIFilt optimize pmask t_then t_else
  | .propfilt filter t_then => do
    let t_then ← optimize t_then
    return (.propfilt filter t_then, [])
  | .set varname expr force_reset => do
    let expr ← cnfexprOptimize ol expr
    return (.set varname expr force_reset, [])
  | .act a => some (if isDiscard a then .stop else .act a, [])
  | .stop => some (.stop, [])
  | .unset varname => some (.unset varname, [])
  | .nop => some (.nop, [])

def optimizeLoop (optimize : Stmts ν φ κ α ρ → Option (Stmts ν φ κ α ρ)) :
    ℕ → Stmts ν φ κ α ρ → Option (Stmts ν φ κ α ρ)
  | _, [] => some []
  | 0, _ :: _ => none
  | fuel + 1, stmt :: next => do
    let (stmt, linked) ← optimizeStmt ol isDiscard optimize stmt
    let next ← optimizeLoop optimize fuel (linked ++ next)
    return stmt :: next

def cnfstmtOptimize : ℕ → Stmts ν φ κ α ρ → Option (Stmts ν φ κ α ρ)
  | 0, _ => none
  | fuel + 1, root =>
    (optimizeLoop ol isDiscard (cnfstmtOptimize fuel) fuel root).map removeNOPs

/-! ## Rewriting -/

def rewritePRIFilt (pmask : Pmask) (t_then t_else : Stmts ν φ κ α ρ) : Stmts ν φ κ α ρ :=
  if isAlways pmask then t_then else [.prifilt pmask t_then t_else]

/-- What becomes of an `if`, given its parts after their optimization. -/
def rewriteIf (expr : CnfExpr ν φ) (t_then t_else : Stmts ν φ κ α ρ) : Stmts ν φ κ α ρ :=
  if t_then.isEmpty && t_else.isEmpty then []
  else
    match expr with
    | .func (.prifilt pmask) => rewritePRIFilt pmask t_then t_else
    | expr => [.ite expr t_then t_else]

mutual

def rewriteStmt : Stmt ν φ κ α ρ → Option (Stmts ν φ κ α ρ)
  | .nop => some []
  | .stop => some [.stop]
  | .act a => some [if isDiscard a then .stop else .act a]
  | .unset varname => some [.unset varname]
  | .set varname expr force_reset => do
    let expr ← cnfexprOptimize ol expr
    return [.set varname expr force_reset]
  | .ite expr t_then t_else => do
    let expr ← cnfexprOptimize ol expr
    let t_then ← rewrite t_then
    let t_else ← rewrite t_else
    return rewriteIf expr t_then t_else
  | .foreach var collection body => do
    let collection ← cnfexprOptimize ol collection
    let body ← rewrite body
    return [.foreach var collection body]
  | .prifilt pmask t_then t_else => do
    let t_then ← rewrite t_then
    return rewritePRIFilt pmask t_then t_else
  | .propfilt filter t_then => do
    let t_then ← rewrite t_then
    return [.propfilt filter t_then]

def rewrite : Stmts ν φ κ α ρ → Option (Stmts ν φ κ α ρ)
  | [] => some []
  | stmt :: next => do
    let stmts ← rewriteStmt stmt
    let next ← rewrite next
    return stmts ++ next

end

/-! ## What was optimized once -/

mutual

def StableStmt : Stmt ν φ κ α ρ → Prop
  | .nop => False
  | .stop => True
  | .act a => isDiscard a = false
  | .unset _ => True
  | .set _ expr _ => cnfexprOptimize ol expr = some expr
  | .ite expr t_then t_else =>
    cnfexprOptimize ol expr = some expr ∧ (∀ pmask, expr ≠ .func (.prifilt pmask)) ∧
      Stable t_then ∧ Stable t_else ∧ ¬(t_then = [] ∧ t_else = [])
  | .foreach _ collection body => cnfexprOptimize ol collection = some collection ∧ Stable body
  | .prifilt pmask t_then _ => isAlways pmask = false ∧ Stable t_then
  | .propfilt _ t_then => Stable t_then

def Stable : Stmts ν φ κ α ρ → Prop
  | [] => True
  | stmt :: next => StableStmt stmt ∧ Stable next

end

mutual

def weightStmt : Stmt ν φ κ α ρ → ℕ
  | .nop | .stop | .act _ | .set _ _ _ | .unset _ => 1
  | .ite _ t_then t_else => 1 + weight t_then + weight t_else
  | .foreach _ _ body => 1 + weight body
  | .prifilt _ t_then _ => 1 + weight t_then
  | .propfilt _ t_then => 1 + weight t_then

def weight : Stmts ν φ κ α ρ → ℕ
  | [] => 1
  | stmt :: next => weightStmt stmt + weight next

end

lemma weight_pos (l : Stmts ν φ κ α ρ) : 1 ≤ weight l := by
  induction l with
  | nil => exact le_refl 1
  | cons stmt next ih =>
    rw [weight]
    omega

lemma weight_append (l l' : Stmts ν φ κ α ρ) : weight (l ++ l') + 1 = weight l + weight l' := by
  induction l with
  | nil => rw [List.nil_append, weight, Nat.add_comm]
  | cons stmt next ih =>
    rw [List.cons_append, weight, weight]
    omega

variable {ol isDiscard} {l : Stmts ν φ κ α ρ}

lemma stable_append {l' : Stmts ν φ κ α ρ} :
    Stable ol isDiscard (l ++ l') ↔ Stable ol isDiscard l ∧ Stable ol isDiscard l' := by
  induction l with
  | nil => simp [Stable]
  | cons stmt l ih => rw [List.cons_append, Stable, Stable, ih, and_assoc]

variable {stmt : Stmt ν φ κ α ρ}

lemma stable_singleton (h : StableStmt ol isDiscard stmt) :
    Stable ol isDiscard [stmt] := ⟨h, trivial⟩

lemma rewriteIf_cases (expr : CnfExpr ν φ) (t_then t_else : Stmts ν φ κ α ρ) :
    (t_then = [] ∧ t_else = []) ∧ rewriteIf expr t_then t_else = [] ∨
      ¬(t_then = [] ∧ t_else = []) ∧
        ((∃ pmask, expr = .func (.prifilt pmask) ∧
            rewriteIf expr t_then t_else = rewritePRIFilt pmask t_then t_else) ∨
          (∀ pmask, expr ≠ .func (.prifilt pmask)) ∧
            rewriteIf expr t_then t_else = [.ite expr t_then t_else]) := by
  by_cases hempty : t_then = [] ∧ t_else = []
  · exact .inl ⟨hempty, by simp [rewriteIf, hempty]⟩
  · refine .inr ⟨hempty, ?_⟩
    rw [rewriteIf.eq_def, if_neg (by simpa using hempty)]
    split
    · exact .inl ⟨_, rfl, rfl⟩
    · rename_i hne
      exact .inr ⟨hne, rfl⟩

variable {t_then t_else : Stmts ν φ κ α ρ}

lemma rewritePRIFilt_spec (pmask : Pmask) (t_else : Stmts ν φ κ α ρ)
    (h : Stable ol isDiscard t_then) :
    Stable ol isDiscard (rewritePRIFilt pmask t_then t_else) ∧
      weight (rewritePRIFilt pmask t_then t_else) ≤ 2 + weight t_then := by
  rw [rewritePRIFilt]
  split
  case isTrue => exact ⟨h, by omega⟩
  case isFalse halways =>
    refine ⟨stable_singleton ⟨Bool.eq_false_iff.mpr halways, h⟩, ?_⟩
    rw [weight, weight, weightStmt]
    omega

lemma rewriteIf_spec {expr : CnfExpr ν φ} (hexpr : cnfexprOptimize ol expr = some expr)
    (hthen : Stable ol isDiscard t_then) (helse : Stable ol isDiscard t_else) :
    Stable ol isDiscard (rewriteIf expr t_then t_else) ∧
      weight (rewriteIf expr t_then t_else) ≤ 2 + weight t_then + weight t_else := by
  rcases rewriteIf_cases expr t_then t_else with ⟨-, h⟩ | ⟨hempty, ⟨pmask, -, h⟩ | ⟨hne, h⟩⟩
  · rw [h, weight]
    exact ⟨trivial, by omega⟩
  · obtain ⟨hstable, hle⟩ := rewritePRIFilt_spec pmask t_else hthen
    rw [h]
    exact ⟨hstable, by omega⟩
  · rw [h, weight, weight, weightStmt]
    exact ⟨stable_singleton ⟨hexpr, hne, hthen, helse, hempty⟩, by omega⟩

mutual

lemma rewriteStmt_spec (stmt : Stmt ν φ κ α ρ) {l : Stmts ν φ κ α ρ}
    (h : rewriteStmt ol isDiscard stmt = some l) :
    Stable ol isDiscard l ∧ weight l ≤ weightStmt stmt + 1 := by
  cases stmt with
  | nop =>
    cases h
    exact ⟨trivial, by simp [weight, weightStmt]⟩
  | stop | unset =>
    cases h
    exact ⟨stable_singleton trivial, by simp [weight, weightStmt]⟩
  | act a =>
    cases h
    split
    · exact ⟨stable_singleton trivial, by simp [weight, weightStmt]⟩
    · rename_i hact
      exact ⟨stable_singleton (Bool.eq_false_iff.mpr hact), by simp [weight, weightStmt]⟩
  | set varname expr force_reset =>
    obtain ⟨expr', hexpr, h⟩ := bind_eq_some_iff.mp h
    cases h
    exact ⟨stable_singleton (cnfexprOptimize_idem hexpr), by simp [weight, weightStmt]⟩
  | ite expr t_then t_else =>
    obtain ⟨expr', hexpr, h⟩ := bind_eq_some_iff.mp h
    obtain ⟨t_then', hthen, h⟩ := bind_eq_some_iff.mp h
    obtain ⟨t_else', helse, h⟩ := bind_eq_some_iff.mp h
    cases h
    obtain ⟨hsthen, hle₁⟩ := rewrite_spec t_then hthen
    obtain ⟨hselse, hle₂⟩ := rewrite_spec t_else helse
    obtain ⟨hstable, hle⟩ := rewriteIf_spec (cnfexprOptimize_idem hexpr) hsthen hselse
    rw [weightStmt]
    exact ⟨hstable, by omega⟩
  | foreach var collection body =>
    obtain ⟨collection', body', hcoll, hbody, h⟩ := bind₂_eq_some h
    cases h
    obtain ⟨hsbody, hle⟩ := rewrite_spec body hbody
    simp only [weight, weightStmt]
    exact ⟨stable_singleton ⟨cnfexprOptimize_idem hcoll, hsbody⟩, by omega⟩
  | prifilt pmask t_then t_else =>
    obtain ⟨t_then', hthen, h⟩ := bind_eq_some_iff.mp h
    cases h
    obtain ⟨hsthen, hle₁⟩ := rewrite_spec t_then hthen
    obtain ⟨hstable, hle⟩ := rewritePRIFilt_spec pmask t_else hsthen
    rw [weightStmt]
    exact ⟨hstable, by omega⟩
  | propfilt filter t_then =>
    obtain ⟨t_then', hthen, h⟩ := bind_eq_some_iff.mp h
    cases h
    obtain ⟨hsthen, hle⟩ := rewrite_spec t_then hthen
    simp only [weight, weightStmt]
    exact ⟨stable_singleton hsthen, by omega⟩

lemma rewrite_spec (l : Stmts ν φ κ α ρ) {l' : Stmts ν φ κ α ρ}
    (h : rewrite ol isDiscard l = some l') : Stable ol isDiscard l' ∧ weight l' ≤ weight l := by
  cases l with
  | nil =>
    cases h
    exact ⟨trivial, le_refl _⟩
  | cons stmt next =>
    obtain ⟨stmts, next', hstmt, hnext, h⟩ := bind₂_eq_some h
    cases h
    obtain ⟨hstmts, hle₁⟩ := rewriteStmt_spec stmt hstmt
    obtain ⟨hnext', hle₂⟩ := rewrite_spec next hnext
    have happend := weight_append stmts next'
    rw [weight]
    exact ⟨stable_append.mpr ⟨hstmts, hnext'⟩, by omega⟩

end

mutual

lemma rewriteStmt_of_stable (stmt : Stmt ν φ κ α ρ) (h : StableStmt ol isDiscard stmt) :
    rewriteStmt ol isDiscard stmt = some [stmt] := by
  cases stmt with
  | nop => exact h.elim
  | stop | unset => rfl
  | act a => rw [rewriteStmt, show isDiscard a = false from h, if_neg Bool.false_ne_true]
  | set varname expr force_reset =>
    rw [rewriteStmt, show cnfexprOptimize ol expr = some expr from h]
    rfl
  | ite expr t_then t_else =>
    obtain ⟨hexpr, hne, hthen, helse, hempty⟩ := h
    have hif : rewriteIf expr t_then t_else = [.ite expr t_then t_else] := by
      rcases rewriteIf_cases expr t_then t_else with ⟨h, -⟩ | ⟨-, ⟨pmask, h, -⟩ | ⟨-, h⟩⟩
      · exact absurd h hempty
      · exact absurd h (hne pmask)
      · exact h
    rw [rewriteStmt, hexpr, rewrite_of_stable t_then hthen, rewrite_of_stable t_else helse]
    exact congrArg some hif
  | foreach var collection body =>
    rw [rewriteStmt, h.1, rewrite_of_stable body h.2]
    rfl
  | prifilt pmask t_then t_else =>
    rw [rewriteStmt, rewrite_of_stable t_then h.2]
    simp [rewritePRIFilt, h.1]
  | propfilt filter t_then =>
    rw [rewriteStmt, rewrite_of_stable t_then h]
    rfl

lemma rewrite_of_stable (l : Stmts ν φ κ α ρ) (h : Stable ol isDiscard l) :
    rewrite ol isDiscard l = some l := by
  cases l with
  | nil => rfl
  | cons stmt next =>
    rw [rewrite, rewriteStmt_of_stable stmt h.1, rewrite_of_stable next h.2]
    rfl

end

lemma rewrite_append {l₁ l₂ l₁' l₂' : Stmts ν φ κ α ρ}
    (h₁ : rewrite ol isDiscard l₁ = some l₁') (h₂ : rewrite ol isDiscard l₂ = some l₂') :
    rewrite ol isDiscard (l₁ ++ l₂) = some (l₁' ++ l₂') := by
  induction l₁ generalizing l₁' with
  | nil =>
    cases h₁
    exact h₂
  | cons stmt l₁ ih =>
    obtain ⟨stmts, hstmt, h₁⟩ := bind_eq_some_iff.mp h₁
    obtain ⟨l₁'', hl₁, h₁⟩ := bind_eq_some_iff.mp h₁
    cases h₁
    rw [List.cons_append, rewrite, hstmt, ih hl₁, List.append_assoc]
    rfl

/-! ## The walk -/

lemma weightStmt_pos (stmt : Stmt ν φ κ α ρ) : 1 ≤ weightStmt stmt := by
  cases stmt <;> rw [weightStmt] <;> omega

lemma removeNOPs_of_stable (h : Stable ol isDiscard l) : removeNOPs l = l := by
  induction l with
  | nil => rfl
  | cons stmt next ih =>
    have hstmt : (!stmt.isNop) = true := by
      cases stmt
      case nop => exact h.1.elim
      all_goals rfl
    rw [removeNOPs, List.filter_cons, if_pos hstmt]
    exact congrArg (stmt :: ·) (ih h.2)

lemma removeNOPs_cons (stmt : Stmt ν φ κ α ρ) (l : Stmts ν φ κ α ρ) :
    removeNOPs (stmt :: l) = removeNOPs [stmt] ++ removeNOPs l :=
  List.filter_append [stmt] l

variable (ol isDiscard) in
/-- A call for a list of weight at most `fuel` comes to the rewritten list. -/
def Follows (fuel : ℕ) (optimize : Stmts ν φ κ α ρ → Option (Stmts ν φ κ α ρ)) : Prop :=
  ∀ l l', weight l ≤ fuel → rewrite ol isDiscard l = some l' → optimize l = some l'

variable (ol isDiscard) in
/-- A statement is replaced by `l`: this is the node itself, unless it is a NOP, and what was linked
in behind it, which is not changed any more. -/
def Replaces (r : Option (Stmt ν φ κ α ρ × Stmts ν φ κ α ρ)) (l : Stmts ν φ κ α ρ) (w : ℕ) : Prop :=
  ∃ stmt linked, r = some (stmt, linked) ∧ removeNOPs (stmt :: linked) = l ∧
    Stable ol isDiscard linked ∧ weight linked ≤ w

variable {fuel : ℕ} {optimize : Stmts ν φ κ α ρ → Option (Stmts ν φ κ α ρ)}

lemma replaces_single {w : ℕ} (h : StableStmt ol isDiscard stmt) (hw : 1 ≤ w) :
    Replaces ol isDiscard (some (stmt, [])) [stmt] w :=
  ⟨stmt, [], rfl, removeNOPs_of_stable (stable_singleton h), trivial, hw⟩

lemma replaces_nop {w : ℕ} (hw : 1 ≤ w) :
    Replaces ol isDiscard (some ((.nop : Stmt ν φ κ α ρ), [])) [] w :=
  ⟨.nop, [], rfl, rfl, trivial, hw⟩

lemma optimizePRIFilt_replaces {pmask : Pmask} {t_then' : Stmts ν φ κ α ρ}
    (hopt : optimize t_then = some t_then') (hstable : Stable ol isDiscard t_then') {w : ℕ}
    (hw : weight t_then' ≤ w) :
    Replaces ol isDiscard (cnfstmtOptimizePRIFilt optimize pmask t_then t_else)
      (rewritePRIFilt pmask t_then' t_else) w := by
  have hpos := weight_pos t_then'
  rw [cnfstmtOptimizePRIFilt, hopt, bind_eq_bind, bind_some, rewritePRIFilt]
  cases halways : isAlways pmask with
  | false => exact replaces_single ⟨halways, hstable⟩ (by omega)
  | true =>
    cases t_then' with
    | nil => exact replaces_nop (by omega)
    | cons subroot last =>
      refine ⟨subroot, last, rfl, removeNOPs_of_stable hstable, hstable.2, ?_⟩
      rw [weight] at hw
      omega

lemma optimizeIf_replaces {expr expr' : CnfExpr ν φ} {t_then' t_else' : Stmts ν φ κ α ρ}
    (hf : Follows ol isDiscard fuel optimize) (hexpr : cnfexprOptimize ol expr = some expr')
    (hthen : rewrite ol isDiscard t_then = some t_then') (hwthen : weight t_then ≤ fuel)
    (helse : rewrite ol isDiscard t_else = some t_else') (hwelse : weight t_else ≤ fuel) {w : ℕ}
    (hw : weight t_then ≤ w) :
    Replaces ol isDiscard (cnfstmtOptimizeIf ol optimize expr t_then t_else)
      (rewriteIf expr' t_then' t_else') w := by
  have hpos := weight_pos t_then
  obtain ⟨hsthen, hle⟩ := rewrite_spec t_then hthen
  rw [cnfstmtOptimizeIf, hexpr, hf _ _ hwthen hthen, hf _ _ hwelse helse]
  simp only [bind_eq_bind, bind_some]
  rcases rewriteIf_cases expr' t_then' t_else' with ⟨hempty, h⟩ | ⟨hempty, h⟩
  · rw [h, if_pos (by simpa using hempty)]
    exact replaces_nop (by omega)
  · rw [if_neg (by simpa using hempty)]
    rcases h with ⟨pmask, rfl, h⟩ | ⟨hne, h⟩
    · -- the filter optimizes the list a second time
      rw [h]
      exact optimizePRIFilt_replaces
        (hf _ _ (by omega) (rewrite_of_stable t_then' hsthen)) hsthen (by omega)
    · have hstable : StableStmt ol isDiscard (.ite expr' t_then' t_else') :=
        ⟨cnfexprOptimize_idem hexpr, hne, hsthen, (rewrite_spec t_else helse).1, hempty⟩
      rw [h]
      split
      · exact absurd rfl (hne _)
      · exact replaces_single hstable (by omega)

lemma optimizeStmt_replaces (hf : Follows ol isDiscard fuel optimize)
    (h : rewriteStmt ol isDiscard stmt = some l) (hw : weightStmt stmt ≤ fuel) :
    Replaces ol isDiscard (optimizeStmt ol isDiscard optimize stmt) l (weightStmt stmt) := by
  have hstable := (rewriteStmt_spec stmt h).1
  cases stmt with
  | nop =>
    cases h
    exact replaces_nop (le_refl 1)
  | stop | unset | act =>
    cases h
    exact replaces_single hstable.1 (le_refl 1)
  | set varname expr force_reset =>
    obtain ⟨expr', hexpr, h⟩ := bind_eq_some_iff.mp h
    cases h
    rw [optimizeStmt, hexpr]
    exact replaces_single hstable.1 (le_refl 1)
  | ite expr t_then t_else =>
    obtain ⟨expr', hexpr, h⟩ := bind_eq_some_iff.mp h
    obtain ⟨t_then', hthen, h⟩ := bind_eq_some_iff.mp h
    obtain ⟨t_else', helse, h⟩ := bind_eq_some_iff.mp h
    cases h
    rw [weightStmt] at hw ⊢
    exact optimizeIf_replaces hf hexpr hthen (by omega) helse (by omega) (by omega)
  | foreach var collection body =>
    obtain ⟨collection', body', hcoll, hbody, h⟩ := bind₂_eq_some h
    cases h
    rw [weightStmt] at hw ⊢
    rw [optimizeStmt, hcoll, hf _ _ (by omega) hbody]
    exact replaces_single hstable.1 (by omega)
  | prifilt pmask t_then t_else =>
    obtain ⟨t_then', hthen, h⟩ := bind_eq_some_iff.mp h
    cases h
    obtain ⟨hsthen, hle⟩ := rewrite_spec t_then hthen
    rw [weightStmt] at hw ⊢
    exact optimizePRIFilt_replaces (hf _ _ (by omega) hthen) hsthen (by omega)
  | propfilt filter t_then =>
    obtain ⟨t_then', hthen, h⟩ := bind_eq_some_iff.mp h
    cases h
    rw [weightStmt] at hw ⊢
    rw [optimizeStmt, hf _ _ (by omega) hthen]
    exact replaces_single hstable.1 (by omega)

lemma optimizeLoop_follows (hf : Follows ol isDiscard fuel optimize) {n : ℕ}
    {work work' : Stmts ν φ κ α ρ} (h : rewrite ol isDiscard work = some work')
    (hn : weight work ≤ n + 1) (hfuel : weight work ≤ fuel + 1) :
    (optimizeLoop ol isDiscard optimize n work).map removeNOPs = some work' := by
  induction n generalizing work work' with
  | zero =>
    cases work with
    | nil =>
      cases h
      rfl
    | cons stmt next =>
      have hpos := weightStmt_pos stmt
      have hpos' := weight_pos next
      rw [weight] at hn
      omega
  | succ n ih =>
    cases work with
    | nil =>
      cases h
      rfl
    | cons stmt next =>
      obtain ⟨stmts, next', hstmt, hnext, h⟩ := bind₂_eq_some h
      cases h
      have hpos := weight_pos next
      rw [weight] at hn hfuel
      obtain ⟨stmt', linked, hopt, hl, hstable, hle⟩ :=
        optimizeStmt_replaces hf hstmt (by omega)
      have happend := weight_append linked next
      have hrest := ih (rewrite_append (rewrite_of_stable linked hstable) hnext) (by omega)
        (by omega)
      obtain ⟨rest, hloop, hrest⟩ := map_eq_some_iff.mp hrest
      rw [optimizeLoop, hopt]
      simp only [bind_eq_bind, bind_some, hloop, pure_def, map_some]
      rw [← hl, removeNOPs_cons, hrest, removeNOPs_cons stmt' linked, removeNOPs_of_stable hstable,
        List.append_assoc]

lemma cnfstmtOptimize_eq {l' : Stmts ν φ κ α ρ} (h : rewrite ol isDiscard l = some l')
    (hfuel : weight l ≤ fuel) : cnfstmtOptimize ol isDiscard fuel l = some l' := by
  induction fuel generalizing l l' with
  | zero =>
    have hpos := weight_pos l
    omega
  | succ fuel ih => exact optimizeLoop_follows (fun _ _ hle h => ih h hle) h hfuel hfuel

end Optimizer

end Rsyslog.Script
