import Rsyslog.Consumer.Checks
import Rsyslog.Script.Shutdown

/-!
# Which messages are put back into the queue

`processBatch` marks a message as committed if its script returns `RS_RET_OK`. A script that is
ended by `stop`, or by an error, returns something else, so its message is left to the last loop of
`msgConsumer`, which marks all elements but is given up once the flag is set. `DeleteProcessedBatch`
puts back what is not marked, so a message that a script was done with is executed again after a
restart exactly if the flag is set between the end of its script and its turn in that loop.
-/

namespace Rsyslog.Consumer.Scripts

open Lib Rsyslog.Msg Rsyslog.Script.Shutdown List
open Rsyslog.Queue (BatchElem BatchState QCfg QMsg QQueue reEnqLoop doEnqSingleObj)

def suspended : ℤ := -2007

variable {E : Env} {G : Type}

/-! ## Execution of a batch -/

/-- An execution of a script: for which element, how it ended, and how often the flag was read. -/
structure Ran where
  i : ℕ
  outcome : Outcome
  polls : ℕ
  deriving DecidableEq

/-- The script has run to its end: it was not cut short, and need not be executed again. -/
def Ran.Finished (x : Ran) : Prop := x.outcome ≠ .cut ∧ x.outcome ≠ .ret suspended
deriving Decidable

/-- A batch after its executions: how many reads still find the flag clear, and the state apart from
the messages. -/
structure Phase (E : Env) (G : Type) where
  ran : List Ran
  pElem : List (BatchElem (SMsg E))
  clear : ℕ
  rest : G

section Execution

variable (rulesets : Bytes → Ruleset (SMsg E × G) Bytes) (pDflt : Bytes)

def execElem (clear : ℕ) (e : BatchElem (SMsg E)) (rest : G) : Polled (SMsg E × G) clear :=
  scriptExec rulesets clear (rulesets (e.pMsg.pRuleset.getD pDflt)).root (e.pMsg, rest)

def processBatch (clear i : ℕ) (es : List (BatchElem (SMsg E))) (rest : G) : Phase E G :=
  match clear, es with
  | clear, [] => ⟨[], [], clear, rest⟩
  | 0, es => ⟨[], es, 0, rest⟩
  | clear + 1, e :: es =>
    let r := execElem rulesets pDflt clear e rest
    let e := { e with pMsg := r.state.1 }
    let ran : Ran := ⟨i, r.outcome, clear - r.left⟩
    if r.outcome = .ret suspended then
      let p := processBatch r.left i (e :: es) r.state.2
      { p with ran := ran :: p.ran }
    else
      let p := processBatch r.left (i + 1) es r.state.2
      let e := if r.outcome = .ret 0 then batchSetElemState e .comm else e
      { p with ran := ran :: p.ran, pElem := e :: p.pElem }
termination_by clear
decreasing_by all_goals exact Nat.lt_succ_of_le (Polled.left_le _)

def msgConsumer (clear commitPolls : ℕ) (batch : List (Arrival E)) (rest : G) : Phase E G :=
  let (pElem, clear) := preprocessBatch clear batch
  let p := processBatch rulesets pDflt clear 0 pElem rest
  { p with pElem := commitLoop (p.clear - commitPolls) p.pElem }

end Execution

/-! ## Elements that are put back -/

def isPutBack {μ : Type} (e : BatchElem μ) : Prop := e.eltState = .rdy ∨ e.eltState = .sub
deriving Decidable

def PutBack (es : List (BatchElem (SMsg E))) (j : ℕ) : Prop := ∃ e, es[j]? = some e ∧ isPutBack e

/-- The script for element `j` has returned `RS_RET_OK`. -/
def Phase.Marked (p : Phase E G) (j : ℕ) : Prop := ∃ x ∈ p.ran, x.i = j ∧ x.outcome = .ret 0

@[simp] lemma putBack_nil (j : ℕ) : ¬ PutBack ([] : List (BatchElem (SMsg E))) j := by
  rintro ⟨e, he, -⟩
  simp at he

variable (e : BatchElem (SMsg E))

@[simp] lemma putBack_cons_zero (es : List (BatchElem (SMsg E))) :
    PutBack (e :: es) 0 ↔ isPutBack e := by
  simp [PutBack]

@[simp] lemma putBack_cons_succ (es : List (BatchElem (SMsg E))) (j : ℕ) :
    PutBack (e :: es) (j + 1) ↔ PutBack es j := by
  simp [PutBack]

lemma not_isPutBack_comm : ¬ isPutBack (batchSetElemState e .comm) := by
  unfold isPutBack batchSetElemState
  split
  · simp
  · next h => simp [not_ne_iff.1 h]

lemma putBack_commitLoop (clear : ℕ) (es : List (BatchElem (SMsg E))) (j : ℕ) :
    PutBack (commitLoop clear es) j ↔ PutBack es j ∧ clear ≤ j := by
  induction es generalizing clear j with
  | nil => cases clear <;> simp [commitLoop]
  | cons e es ih =>
    cases clear with
    | zero => simp [commitLoop]
    | succ clear =>
      rw [commitLoop]
      cases j with
      | zero => simp [isPutBack]
      | succ j => simp [ih]

section Phase

variable {rulesets : Bytes → Ruleset (SMsg E × G) Bytes} {pDflt : Bytes}

/-- What the executions say about the elements from `i` on. -/
structure Accounts (i : ℕ) (es : List (BatchElem (SMsg E))) (p : Phase E G) : Prop where
  from_i : ∀ x ∈ p.ran, i ≤ x.i
  putBack_iff : ∀ j, PutBack p.pElem j ↔ PutBack es j ∧ ¬ p.Marked (i + j)
  /-- A script comes to an end once. -/
  once : ∀ x ∈ p.ran, x.Finished → x.outcome ≠ .ret 0 → ¬ p.Marked x.i

variable {p : Phase E G}

lemma Phase.marked_cons {x : Ran} {es : List (BatchElem (SMsg E))} {j : ℕ} :
    ({ p with ran := x :: p.ran, pElem := es } : Phase E G).Marked j ↔
      x.i = j ∧ x.outcome = .ret 0 ∨ p.Marked j := exists_mem_cons_iff ..

variable {es : List (BatchElem (SMsg E))}

lemma Accounts.not_marked {i j : ℕ} (h : Accounts i es p) (hj : j < i) : ¬ p.Marked j := by
  rintro ⟨x, hx, rfl, -⟩
  exact absurd (h.from_i x hx) (Nat.not_le.2 hj)

lemma Accounts.again {i : ℕ} {e : BatchElem (SMsg E)} {pMsg : SMsg E} (polls : ℕ)
    (h : Accounts i ({ e with pMsg } :: es) p) :
    Accounts i (e :: es) { p with ran := ⟨i, .ret suspended, polls⟩ :: p.ran } := by
  have hmarked (j : ℕ) :
      ({ p with ran := ⟨i, .ret suspended, polls⟩ :: p.ran } : Phase E G).Marked j ↔
        p.Marked j := by
    rw [Phase.marked_cons]
    simp [suspended]
  refine ⟨forall_mem_cons.2 ⟨Nat.le_refl i, h.from_i⟩, fun j => ?_, ?_⟩
  · rw [hmarked, h.putBack_iff]
    cases j <;> simp [isPutBack]
  · refine forall_mem_cons.2 ⟨fun hfin => absurd rfl hfin.2, fun x hx hfin hret => ?_⟩
    rw [hmarked]
    exact h.once x hx hfin hret

lemma Accounts.ended {i : ℕ} {e : BatchElem (SMsg E)} (pMsg : SMsg E) (outcome : Outcome)
    (polls : ℕ) (h : Accounts (i + 1) es p) :
    Accounts i (e :: es) { p with
      ran := ⟨i, outcome, polls⟩ :: p.ran
      pElem := (if outcome = .ret 0 then batchSetElemState { e with pMsg } .comm
        else { e with pMsg }) :: p.pElem } := by
  have hi := h.not_marked (Nat.lt_succ_self i)
  refine ⟨forall_mem_cons.2 ⟨Nat.le_refl i, fun x hx => Nat.le_of_succ_le (h.from_i x hx)⟩,
    fun j => ?_, ?_⟩
  · rw [Phase.marked_cons]
    cases j with
    | zero =>
      by_cases hret : outcome = .ret 0
      · simp [hret, not_isPutBack_comm]
      · simp [hret, hi, isPutBack]
    | succ j =>
      have hj : i + 1 + j = i + (j + 1) := by omega
      simp [h.putBack_iff, hj]
  · refine forall_mem_cons.2 ⟨fun _ hret => ?_, fun x hx hfin hret => ?_⟩
    · rw [Phase.marked_cons]
      simpa [hi] using hret
    · rw [Phase.marked_cons]
      have hlt := h.from_i x hx
      have hmarked := h.once x hx hfin hret
      simp only [hmarked, or_false]
      omega

/-! ## Reads of the flag -/

def Ran.attempt (x : Ran) : Attempt where
  ret := match x.outcome with
    | .cut => .forceTerm
    | .ret code =>
      if code = 0 then .ok
      else if code = suspended then .suspended
      else if code = Script.discardmsg then .discardMsg
      else .error
  polls := x.polls

@[simp] lemma Ran.polls_attempt (x : Ran) : x.attempt.polls = x.polls := rfl

/-! ## The whole consumer -/

/-- Whatever scripts do, an execution either leaves the element for another one or ends it. -/
lemma processBatch_spec (rulesets : Bytes → Ruleset (SMsg E × G) Bytes)
    (pDflt : Bytes) (clear i : ℕ) (es : List (BatchElem (SMsg E))) (rest : G) :
    Accounts i es (processBatch rulesets pDflt clear i es rest) ∧
      (processBatch rulesets pDflt clear i es rest).clear =
        clear - reads ((processBatch rulesets pDflt clear i es rest).ran.map Ran.attempt) := by
  induction clear using Nat.strongRecOn generalizing i es rest with
  | _ clear ih =>
    unfold processBatch
    split
    · exact ⟨⟨by simp, fun j => by simp, by simp⟩, rfl⟩
    · exact ⟨⟨by simp, fun j => by simp [Phase.Marked], by simp⟩, rfl⟩
    · next clear e es =>
      have hle := (execElem rulesets pDflt clear e rest).left_le
      have hih := ih _ (Nat.lt_succ_of_le hle)
      dsimp only
      split
      · next hret =>
        obtain ⟨haccounts, hclear⟩ := hih i (_ :: es) (execElem rulesets pDflt clear e rest).state.2
        rw [hret]
        refine ⟨haccounts.again _, hclear.trans ?_⟩
        simp only [map_cons, reads_cons, Ran.polls_attempt]
        omega
      · obtain ⟨haccounts, hclear⟩ := hih (i + 1) es (execElem rulesets pDflt clear e rest).state.2
        refine ⟨haccounts.ended _ _ _, hclear.trans ?_⟩
        simp only [map_cons, reads_cons, Ran.polls_attempt]
        omega

def Phase.readsBefore (p : Phase E G) (nElem commitPolls : ℕ) : ℕ :=
  nElem + reads (p.ran.map Ran.attempt) + commitPolls

lemma putBack_msgConsumer (clear commitPolls : ℕ) (batch : List (Arrival E)) (rest : G) (j : ℕ) :
    PutBack (msgConsumer rulesets pDflt clear commitPolls batch rest).pElem j ↔
      PutBack (preprocessBatch clear batch).1 j ∧
      ¬ (msgConsumer rulesets pDflt clear commitPolls batch rest).Marked j ∧
      clear ≤ (msgConsumer rulesets pDflt clear commitPolls batch rest).readsBefore
        batch.length commitPolls + j := by
  obtain ⟨haccounts, hclear⟩ := processBatch_spec rulesets pDflt (preprocessBatch clear batch).2 0
    (preprocessBatch clear batch).1 rest
  have hiff := haccounts.putBack_iff j
  rw [(preprocessBatch_spec _ _).2] at hclear
  rw [Nat.zero_add] at hiff
  simp only [msgConsumer, putBack_commitLoop, hiff, and_assoc, Phase.readsBefore]
  refine and_congr_right fun _ => and_congr_right fun _ => ?_
  rw [(preprocessBatch_spec _ _).2, hclear]
  omega

end Phase

/-- A message is put back only if its script has not run to its end, exactly if the flag is still
clear when the last loop gets to the messages that could be put back and whose script has ended
otherwise than with `RS_RET_OK`. -/
theorem putBack_only_unfinished_iff (rulesets : Bytes → Ruleset (SMsg E × G) Bytes) (pDflt : Bytes)
    (clear commitPolls : ℕ) (batch : List (Arrival E)) (rest : G) :
    let p := msgConsumer rulesets pDflt clear commitPolls batch rest
    (∀ j, PutBack p.pElem j → ∀ x ∈ p.ran, x.i = j → ¬ x.Finished) ↔
      ∀ x ∈ p.ran, x.Finished → x.outcome ≠ .ret 0 → PutBack (preprocessBatch clear batch).1 x.i →
        p.readsBefore batch.length commitPolls + x.i < clear := by
  constructor
  · intro hclaim x hx hfin hret hfresh
    by_contra hlate
    have honce := (processBatch_spec rulesets pDflt _ 0 _ rest).1.once x hx hfin hret
    have hput := (putBack_msgConsumer clear commitPolls batch rest x.i).2
      ⟨hfresh, honce, Nat.not_lt.1 hlate⟩
    exact hclaim x.i hput x hx rfl hfin
  · rintro hcond j hput x hx rfl hfin
    obtain ⟨hfresh, hmarked, hlate⟩ := (putBack_msgConsumer clear commitPolls batch rest x.i).1 hput
    have hret : x.outcome ≠ .ret 0 := fun hret => hmarked ⟨x, hx, rfl, hret⟩
    exact absurd (hcond x hx hfin hret hfresh) (Nat.not_lt.2 hlate)

/-! ## A script that ends with `stop` -/

def stopping : Bytes → Ruleset (SMsg plainEnv × Unit) Bytes :=
  fun _ => ⟨[.stop], none⟩

/-- The flag is set right after the script has ended with `stop`: nothing was cut short, and the
message is put back. -/
theorem stopped_put_back :
    let p := msgConsumer stopping [] 3 0 [arrival 0 none true true] ()
    p.ran = [⟨0, .ret Script.discardmsg, 1⟩] ∧ (∀ x ∈ p.ran, x.Finished) ∧
      p.pElem.map BatchElem.eltState = [.rdy] := by
  decide +kernel

end Rsyslog.Consumer.Scripts
