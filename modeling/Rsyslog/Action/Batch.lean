import Rsyslog.Action.Commit

/-!
# The batch of an action queue

`processBatchMain` marks an element as COMM, so that the queue deletes it, when `processMsgMain`
returns. For a transactional action that is before the commit, and the result of the commit is not
looked at: if `actionCommit` is aborted with FORCE_TERM, the elements stay marked. Nothing else
marks an element that is not done with (`marked_settled`).
-/

namespace Rsyslog.Action

open Lib List
open Rsyslog.Queue (BatchElem BatchState)

variable {μ : Type} {env : Env μ} {act : ActConf} {fuel : ℕ} {w t : Wrkr μ} {m : μ} {h : Hist μ}

/-! ## Elements that may be deleted -/

/-- The messages that failed for good: the module asked to be disabled, or the action is
suspended. -/
def failed : Hist μ → List μ
  | [] => []
  | .call (.doAction m) .disableAction :: h => m :: failed h
  | .processed m .susp _ :: h => m :: failed h
  | _ :: h => failed h

def Event.isGiveUp : Event μ → Bool
  | .left x => x.givesUp
  | _ => false

/-- The message was committed, given to the error file, failed for good or was given up with its
batch. -/
def Settled (m : μ) (h : Hist μ) : Prop :=
  m ∈ handled h ∨ m ∈ failed h ∨ h.any Event.isGiveUp = true

instance [DecidableEq μ] : Decidable (Settled m h) := inferInstanceAs (Decidable (_ ∨ _ ∨ _))

lemma Settled.cons (hs : Settled m h) (e : Event μ) : Settled m (e :: h) := by
  refine hs.imp mem_handled_cons (Or.imp (fun hm => ?_) fun hup => ?_)
  · unfold failed
    split <;> simp_all
  · simp [hup]

/-- The commit was not aborted, the module has kept to its interface and has not refused a message
in the midst of a transaction. A module without transactions does not use the codes for them, nor
ACTION_FAILED. -/
structure Undisturbed (act : ActConf) (h : Hist μ) : Prop where
  regular : Regular h
  finished : .left .forceTerm ∉ h
  plain : act.isTransactional = false →
    ∀ c r, .call c r ∈ h → r.isDeferral = false ∧ r ≠ .actionFailed

lemma Undisturbed.of_cons {e : Event μ} (hu : Undisturbed act (e :: h)) : Undisturbed act h where
  regular := hu.regular.of_cons
  finished hmem := hu.finished (mem_cons_of_mem _ hmem)
  plain htx c r hmem := hu.plain htx c r (mem_cons_of_mem _ hmem)

/-! ## Messages that are accounted for -/

/-- Each message of `X` waits for the commit of a transactional action, or is settled. -/
def AccountedIn (act : ActConf) (X : List μ) (w : Wrkr μ) : Prop :=
  Undisturbed act w.hist → ∀ m ∈ X, act.isTransactional = true ∧ m ∈ w.iparams ∨ Settled m w.hist

lemma stablePrep_accountedIn (X : List μ) : StablePrep (AccountedIn act X) :=
  stablePrep_of_hist (P := fun ms h => Undisturbed act h →
      ∀ m ∈ X, act.isTransactional = true ∧ m ∈ ms ∨ Settled m h)
    fun _ e _ hw hu m hm => (hw hu.of_cons m hm).imp_right fun hs => hs.cons e

structure StillSettled (act : ActConf) (h g : Hist μ) : Prop where
  undisturbed : Undisturbed act g → Undisturbed act h
  settled : ∀ m, Settled m h → Settled m g

lemma kept_stillSettled (h : Hist μ) : Kept env act fuel fun w => StillSettled act h w.hist :=
  kept_of_hist fun e _ hg => ⟨fun hu => hg.undisturbed hu.of_cons,
    fun m hm => (hg.settled m hm).cons e⟩

lemma settled_of_givenUp (hup : givenUp h = true) (m : μ) : Settled m h := by
  unfold givenUp at hup
  split at hup
  · exact .inr (.inr (by simp [Event.isGiveUp, hup]))
  · simp at hup

lemma actionCommit_settles {X : List μ} (hw : AccountedIn act X w) :
    Wp (actionCommit env act fuel)
      (fun _ t => Undisturbed act t.hist → ∀ m ∈ X, Settled m t.hist) (fun _ => True) w := by
  have hgrown : Wp (actionCommit env act fuel) (fun _ t => StillSettled act w.hist t.hist)
      (fun t => StillSettled act w.hist t.hist) w :=
    (kept_stillSettled w.hist).actionCommit w ⟨id, fun _ => id⟩
  have hcommit : Wp (actionCommit env act fuel)
      (fun r t => act.isTransactional = true → Finished r t.hist → Regular t.hist →
        givenUp t.hist = false → ∀ m ∈ w.iparams, m ∈ handled t.hist) (fun _ => True) w := by
    by_cases htx : act.isTransactional = true
    · exact (actionCommit_handles htx).imp fun _ _ ht _ => ht
    · exact wp_trivial.imp fun _ _ _ h => absurd h htx
  refine (hgrown.and hcommit).mono ?_ fun _ _ => trivial
  rintro r t ⟨hgrown, ht⟩ hu m hm
  rcases hw (hgrown.undisturbed hu) m hm with ⟨htx, hwait⟩ | hs
  · by_cases hup : givenUp t.hist = true
    · exact settled_of_givenUp hup m
    · exact .inl (ht htx (fun _ => hu.finished) hu.regular (by simpa using hup) m hwait)
  · exact hgrown.settled m hs

def RsRet.Marks (r : RsRet) : Prop :=
  r = .ok ∨ r = .deferCommit ∨ r = .actionFailed ∨ r = .previousCommitted

lemma offered_settled (hplain : act.isTransactional = false) {ret : RsRet}
    (hmarks : (t.offered m ret).returnCode.Marks) (hu : Undisturbed act (t.offered m ret).hist) :
    Settled m (t.offered m ret).hist := by
  cases ret with
  | ok => exact .inl (mem_handled_cons (mem_append_left _ mem_cons_self))
  | disableAction => exact .inr (.inl mem_cons_self)
  | deferCommit | previousCommitted =>
    have hdefer := (hu.plain hplain _ _ mem_cons_self).1
    simp [RsRet.isDeferral] at hdefer
  | suspended =>
    have hmarks : RsRet.Marks .suspended := hmarks
    simp [RsRet.Marks] at hmarks
  | _ =>
    have hmarks : RsRet.Marks .dataFail := hmarks
    simp [RsRet.Marks] at hmarks

lemma answers_plain : Answers (μ := μ)
    (fun h => ∀ c r, .call c r ∈ h → r.isDeferral = false ∧ r ≠ .actionFailed) (fun _ => True)
    fun r _ => r.isDeferral = false ∧ r ≠ .actionFailed where
  of_cons _ _ hk c r hmem := hk c r (mem_cons_of_mem _ hmem)
  later _ _ := id
  ok _ _ _ := by simp [RsRet.isDeferral]
  suspended _ := by simp [RsRet.isDeferral]
  forceTerm _ := by simp [RsRet.isDeferral]
  call c r _ _ _ _ _ hk := hk c r mem_cons_self
  notDue _ _ _ := by simp [RsRet.isDeferral]

lemma actionProcessMessage_settles (hplain : act.isTransactional = false) (m : μ) :
    Wp (actionProcessMessage env act fuel m)
      (fun r t => r.Marks → Undisturbed act t.hist → Settled m t.hist) (fun _ => True) w := by
  rw [wp_actionProcessMessage, wp_processMessage]
  refine (actionPrepare_ok.and (answers_plain.actionPrepare trivial fun _ _ => by
    simp [RsRet.isDeferral])).mono ?_ fun _ _ => trivial
  rintro r t ⟨hok, hanswered⟩
  refine ⟨fun hr hmarks hu => ?_, fun hr hst hmarks hu => ?_, fun hr hst hmarks hu => ?_⟩
  · obtain ⟨hdefer, hfail⟩ :=
      hanswered fun c r hmem => hu.plain hplain c r (mem_cons_of_mem _ hmem)
    rcases hmarks with rfl | rfl | rfl | rfl <;> simp_all [RsRet.isDeferral]
  · have hrdy := (hok hr).2
    cases hst' : t.actState with
    | susp =>
      refine .inr (.inl ?_)
      simp [hst', failed]
    | rdy => exact absurd hst' hrdy
    | itx => exact absurd hst' hst
    | rtry | dataFail => simp [Wrkr.returnCode, hst', RsRet.Marks] at hmarks
  · exact (offered_settled hplain hmarks hu.of_cons).cons _

lemma processMsgMain_accountedIn {X : List μ} (auto : Bool) (m : μ) (hw : AccountedIn act X w) :
    Wp (processMsgMain env act fuel auto m)
      (fun r t => AccountedIn act X t ∧ (r.Marks → AccountedIn act (m :: X) t)) (fun _ => True)
      w := by
  have hsub {u : Wrkr μ} (hu : AccountedIn act (m :: X) u) : AccountedIn act X u :=
    fun h m' hm' => hu h m' (mem_cons_of_mem _ hm')
  -- what follows if the message is accounted for in any case
  have hrest (r : RsRet) (u : Wrkr μ) (hu : AccountedIn act X u)
      (hmarks : r.Marks → AccountedIn act (m :: X) u) :
      Wp (if r = .ok ∧ auto = true then actionCommit env act fuel else pure r)
        (fun r t => AccountedIn act X t ∧ (r.Marks → AccountedIn act (m :: X) t)) (fun _ => True)
        u := by
    rw [wp_ite]
    refine ⟨fun hr => ?_, fun _ => ⟨hu, hmarks⟩⟩
    refine (actionCommit_settles (hmarks (.inl hr.1))).imp ?_
    intro _ t ht
    have ht : AccountedIn act (m :: X) t := fun hu m' hm' => .inr (ht hu m' hm')
    exact ⟨hsub ht, fun _ => ht⟩
  rw [processMsgMain, wp_ite]
  constructor
  · intro htx
    have hstart : AccountedIn act (m :: X) (w.setParams (w.iparams ++ [m])) := by
      intro hu m' hm'
      rcases mem_cons.mp hm' with rfl | hm'
      · exact .inl ⟨htx, by simp⟩
      · exact (hw hu m' hm').imp_left fun h => ⟨htx, by simp [h.2]⟩
    simp only [wp_bind, wp_modify, wp_getReturnCode]
    refine (actionPrepare_keeps env act fuel (stablePrep_accountedIn _) _ hstart).mono ?_
      fun _ _ => trivial
    exact fun _ t ht => hrest _ t.readCode (hsub ht) fun _ => ht
  · intro htx
    have hplain : act.isTransactional = false := by simpa using htx
    have hkeep : Keeps (fun w => Undisturbed act w.hist → ∀ m ∈ X, Settled m w.hist)
        (actionProcessMessage env act fuel m) :=
      actionProcessMessage_of_hist (P := fun h => Undisturbed act h → ∀ m ∈ X, Settled m h)
        (fun e _ hs hu m hm => (hs hu.of_cons m hm).cons e) m
    have hstart (hu : Undisturbed act w.hist) : ∀ m ∈ X, Settled m w.hist :=
      fun m hm => (hw hu m hm).resolve_left fun h => htx h.1
    rw [wp_bind]
    refine ((hkeep w hstart).and (actionProcessMessage_settles hplain m)).mono ?_ fun _ _ => trivial
    rintro r t ⟨hX, hm⟩
    refine hrest r t (fun hu m' hm' => .inr (hX hu m' hm')) fun hmarks hu m' hm' => ?_
    rcases mem_cons.mp hm' with rfl | hm'
    · exact .inr (hm hmarks hu)
    · exact .inr (hX hu m' hm')

/-! ## The batch -/

lemma batchSetElemState_pMsg (e : BatchElem μ) (st : BatchState) :
    (batchSetElemState e st).pMsg = e.pMsg := by
  unfold batchSetElemState
  split <;> rfl

lemma batchLoop_accountedIn (auto : Bool) (es : List (BatchElem μ)) {X : List μ}
    (hw : AccountedIn act X w) :
    Wp (batchLoop env act fuel auto es)
      (fun es' t => ∃ Y, AccountedIn act (Y ++ X) t ∧
        ∀ e' ∈ es', e'.eltState = .comm → e' ∈ es ∨ e'.pMsg ∈ Y) (fun _ => True) w := by
  induction es generalizing w X with
  | nil => exact ⟨[], hw, by simp⟩
  | cons e es ih =>
    have hread : AccountedIn act X (w.push (.shutdownImmediate (env.shutdownImmediate w.hist))) :=
      (stablePrep_accountedIn X).push w _ (.shutdownImmediate _) hw
    simp only [batchLoop, wp_bind, wp_readShutdownImmediate, wp_ite, wp_pure]
    refine ⟨fun _ => ⟨[], hread, fun e' he' _ => .inl he'⟩, fun _ => ⟨fun _ => ?_, fun _ => ?_⟩⟩
    · refine (ih hread).imp ?_
      rintro es' t ⟨Y, ht, hY⟩
      refine ⟨Y, ht, fun e' he' hcomm => ?_⟩
      rcases mem_cons.mp he' with rfl | he'
      · exact .inl mem_cons_self
      · exact (hY e' he' hcomm).imp_left (mem_cons_of_mem e)
    · refine (processMsgMain_accountedIn auto e.pMsg hread).imp ?_
      rintro r t ⟨hX, hmarks⟩
      by_cases hr : r.Marks
      · refine (ih (hmarks hr)).imp ?_
        rintro es' u ⟨Y, hu, hY⟩
        refine ⟨Y ++ [e.pMsg], by simpa using hu, fun e' he' hcomm => ?_⟩
        rw [RsRet.Marks] at hr
        rw [if_pos hr] at he'
        rcases mem_cons.mp he' with rfl | he'
        · exact .inr (by simp [batchSetElemState_pMsg])
        · exact (hY e' he' hcomm).imp (mem_cons_of_mem e) (mem_append_left _)
      · refine (ih hX).imp ?_
        rintro es' u ⟨Y, hu, hY⟩
        refine ⟨Y, hu, fun e' he' hcomm => ?_⟩
        rw [RsRet.Marks] at hr
        rw [if_neg hr] at he'
        rcases mem_cons.mp he' with rfl | he'
        · exact .inl mem_cons_self
        · exact (hY e' he' hcomm).imp_left (mem_cons_of_mem e)

/-- Whenever a shutdown is requested: if the commit is not aborted with FORCE_TERM, the module keeps
to its interface and refuses no message in the midst of a transaction, then an element that
`processBatchMain` has marked as COMM was committed, given to the error file or failed for good. -/
theorem marked_settled (env : Env μ) (act : ActConf) (fuel : ℕ) (w : Wrkr μ)
    (es : List (BatchElem μ)) :
    Wp (processBatchMain env act fuel es)
      (fun x t => Undisturbed act t.hist →
        ∀ e ∈ x.2, e.eltState = .comm → e ∈ es ∨ Settled e.pMsg t.hist)
      (fun _ => True) w.restart := by
  have hstart : AccountedIn act [] w.restart := by simp [AccountedIn]
  simp only [processBatchMain, wp_bind, wp_pure]
  refine (batchLoop_accountedIn _ es hstart).imp ?_
  rintro es' t ⟨Y, ht, hY⟩
  refine (actionCommit_settles ht).imp ?_
  intro r u hu hund e he hcomm
  refine (hY e he hcomm).imp_right fun hmem => hu hund _ ?_
  exact mem_append_left _ hmem

def mixedElems : List (BatchElem ℕ) := [⟨1, .rdy, ⟨0, 0⟩⟩, ⟨2, .rdy, ⟨0, 0⟩⟩]

/-- One message goes to the error file, the other one is committed, and both are marked. -/
theorem marked_settled_mixed :
    ∃ x t, processBatchMain mixedWorld ⟨true, true, 0, false⟩ 3 mixedElems mixedBatch.restart =
        .ok x t ∧ x.2.map BatchElem.eltState = [.comm, .comm] ∧
      Undisturbed ⟨true, true, 0, false⟩ t.hist ∧
      ∀ e ∈ x.2, e.eltState = .comm → e ∈ mixedElems ∨ Settled e.pMsg t.hist := by
  have hruns : ∃ x t,
      processBatchMain mixedWorld ⟨true, true, 0, false⟩ 3 mixedElems mixedBatch.restart =
          .ok x t ∧ x.2.map BatchElem.eltState = [.comm, .comm] ∧ Regular t.hist ∧
        .left .forceTerm ∉ t.hist :=
    returns_of_decide (by decide +kernel)
  obtain ⟨x, t, hrun, hmarked, hreg, hterm⟩ := hruns
  have hund : Undisturbed ⟨true, true, 0, false⟩ t.hist := ⟨hreg, hterm, by simp⟩
  exact ⟨x, t, hrun, hmarked, hund, (marked_settled _ _ _ mixedBatch _).ok hrun hund⟩

/-! ## A shutdown during a retry -/

def shutdownWorld (μ : Type) : Env μ where
  ret c _ := match c with
    | .commitTransaction _ | .tryResume => .suspended
    | _ => .ok
  shutdownImmediate h := h.any fun e => match e with
    | .sleep => true
    | _ => false
  retryDue _ := false
  stateFile _ := none

/-- The commit is aborted, and the element is marked all the same. -/
theorem marked_after_force_term :
    Wp (processBatchMain (shutdownWorld Unit) ⟨true, true, 1, false⟩ 4 [⟨(), .rdy, ⟨0, 0⟩⟩])
      (fun x t => x.1 = .forceTerm ∧ x.2.map BatchElem.eltState = [.comm] ∧ ¬Settled () t.hist)
      (fun _ => False) (Wrkr.init Unit) := by
  decide +kernel

end Rsyslog.Action
