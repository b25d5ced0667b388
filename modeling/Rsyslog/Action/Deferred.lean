import Rsyslog.Action.Commit

/-!
# Deferred messages

By DEFER_COMMIT a module says that it holds the message in its transaction. If the transaction is
not committed before the next one begins, the message has to be passed again. The engine does so,
unless it gives the message to the error file or gives up the batch (`deferred_passed_again`).

As in `Rsyslog.Action.Commit`, the runs are left out in which a message is refused with SUSPENDED
while others are pending in its transaction.
-/

namespace Rsyslog.Action

open Lib

variable {μ : Type} {env : Env μ} {act : ActConf} {fuel : ℕ} {w t : Wrkr μ} {m : μ} {h : Hist μ}

/-! ## Deferrals -/

/-- The messages that were deferred in the present transaction and not reported as committed. -/
def pending : Hist μ → List μ
  | [] => []
  | .call (.doAction m) .deferCommit :: h => m :: pending h
  | .call (.doAction _) .ok :: _ | .call (.doAction _) .previousCommitted :: _
  | .call .endTransaction .ok :: _ | .call .beginTransaction _ :: _ => []
  | _ :: h => pending h

/-- A transaction has begun while `m` was pending, and `m` has not been passed again since. -/
def Owed (m : μ) : Hist μ → Prop
  | [] => False
  | .call .beginTransaction _ :: h => m ∈ pending h ∨ Owed m h
  | .call (.doAction m') _ :: h => m' ≠ m ∧ Owed m h
  | _ :: h => Owed m h

instance decidableOwed [DecidableEq μ] (m : μ) : (h : Hist μ) → Decidable (Owed m h)
  | [] => .isFalse id
  | e :: h => by
    have := decidableOwed m h
    rcases e with ⟨⟨⟩, _⟩ | _ <;> unfold Owed <;> infer_instance

def Due (m : μ) (h : Hist μ) : Prop := m ∈ pending h ∨ Owed m h

def filed : Hist μ → List μ
  | [] => []
  | .errorFile _ ms :: h => ms ++ filed h
  | _ :: h => filed h

/-- A message is refused with SUSPENDED while another one is pending, or the batch is given up. -/
def Event.Forgets (h : Hist μ) : Event μ → Prop
  | .call (.doAction m) .suspended => ∃ m' ∈ pending h, m' ≠ m
  | .left x => x.givesUp = true ∨ x = .forceTerm
  | _ => False

def Unforgotten : Hist μ → Prop
  | [] => True
  | e :: h => ¬e.Forgets h ∧ Unforgotten h

@[mk_iff] structure Orderly (h : Hist μ) : Prop where
  proper : Proper h
  unforgotten : Unforgotten h

section Decidable

variable [DecidableEq μ]

instance (e : Event μ) : Decidable (e.Forgets h) := by
  rcases e with ⟨⟨⟩, ⟨⟩⟩ | _ <;> unfold Event.Forgets <;> infer_instance

instance decidableUnforgotten : (h : Hist μ) → Decidable (Unforgotten h)
  | [] => .isTrue trivial
  | _ :: h => @instDecidableAnd _ _ _ (decidableUnforgotten h)

instance : Decidable (Orderly h) := decidable_of_iff' _ (orderly_iff h)

end Decidable

lemma Orderly.of_cons {e : Event μ} (ho : Orderly (e :: h)) : Orderly h :=
  ⟨ho.proper.of_cons, ho.unforgotten.2⟩

/-! ## What is due -/

/-- Only the messages of `X` and those in the error file are due. -/
def DueIn (X : Set μ) (w : Wrkr μ) : Prop :=
  Orderly w.hist → ∀ m, Due m w.hist → m ∈ X ∨ m ∈ filed w.hist

variable {X : Set μ}

lemma DueIn.mono {Y : Set μ} (hw : DueIn X w) (hXY : X ⊆ Y) : DueIn Y w :=
  fun ho m hm => (hw ho m hm).imp_left (@hXY m)

lemma DueIn.push {e : Event μ} (hw : DueIn X w) (hdue : ∀ m, Due m (e :: w.hist) → Due m w.hist)
    (hfiled : ∀ m ∈ filed w.hist, m ∈ filed (e :: w.hist)) : DueIn X (w.push e) :=
  fun ho m hm => (hw ho.of_cons m (hdue m hm)).imp_right (hfiled m)

lemma DueIn.setState (hw : DueIn X w) (st : ActState) : DueIn X (w.setState st) :=
  hw.push (e := .state st) (fun _ => id) fun _ => id

lemma due_begin {r : RsRet} (hm : Due m (.call .beginTransaction r :: h)) : Due m h :=
  hm.resolve_left List.not_mem_nil

lemma stablePrep_dueIn (X : Set μ) : StablePrep (DueIn X) where
  push w e he hw := by cases he <;> exact hw.push (fun _ => id) fun _ => id
  state _ _ _ _ hw := hw.setState _
  createCall _ _ hw := hw.push (fun _ => id) fun _ => id
  begin_ok w hw := by
    have hcall : DueIn X (w.push (.call .beginTransaction .ok)) :=
      hw.push (fun _ => due_begin) fun _ => id
    exact hcall.setState _
  begin_ne w r _ hw := hw.push (fun _ => due_begin) fun _ => id

lemma due_doAction {m' : μ} {r : RsRet} (hm : Due m (.call (.doAction m') r :: h)) :
    m' = m ∨ Due m h := by
  rcases hm with hm | hm
  · cases r with
    | deferCommit => exact (List.mem_cons.mp hm).imp Eq.symm .inl
    | ok | previousCommitted => exact absurd hm List.not_mem_nil
    | _ => exact .inr (.inl hm)
  · exact .inr (.inr hm.2)

lemma due_endTransaction {r : RsRet} (hm : Due m (.call .endTransaction r :: h)) : Due m h := by
  rcases hm with hm | hm
  · cases r with
    | ok => exact absurd hm List.not_mem_nil
    | _ => exact .inl hm
  · exact .inr hm

lemma actionProcessMessage_dueIn (hm : m ∈ X) :
    Keeps (DueIn X) (actionProcessMessage env act fuel m) := by
  intro w hw
  rw [wp_actionProcessMessage, wp_processMessage]
  have hstart : DueIn X (w.push (.processing m)) := hw.push (fun _ => id) fun _ => id
  refine (actionPrepare_keeps env act fuel (stablePrep_dueIn X) _ hstart).imp ?_
  intro r t ht
  have hleave {u : Wrkr μ} (hu : DueIn X u) :
      DueIn X (u.push (.processed m u.actState u.bDisabled)) := hu.push (fun _ => id) fun _ => id
  refine ⟨fun _ => hleave ht, fun _ _ => hleave ht, fun _ _ => hleave ?_⟩
  generalize env.ret (.doAction m) t.hist = ret
  have hcall : DueIn X ((t.setAutoCommit false).push (.call (.doAction m) ret)) := by
    intro ho m' hm'
    rcases due_doAction hm' with rfl | hm'
    · exact .inl hm
    · exact ht ho.of_cons m' hm'
  cases ret with
  | deferCommit | previousCommitted | disableAction => exact hcall
  | _ => exact hcall.setState _

/-! ## One attempt -/

/-- While the messages `ms` are still to be passed, only they and those of `S` are owed; the others
are pending in the open transaction at most. -/
def OwedIn (S : Set μ) (ms : List μ) (w : Wrkr μ) : Prop :=
  Orderly w.hist → ∀ m, Owed m w.hist ∨ m ∈ pending w.hist ∧ w.actState ≠ .itx →
    m ∈ ms ∨ m ∈ S ∨ m ∈ filed w.hist

variable {ms : List μ} {S : Set μ}

lemma owedIn_of_dueIn (hw : DueIn ({m | m ∈ ms} ∪ S) w) : OwedIn S ms w := by
  intro ho m hm
  have hdue : Due m w.hist := hm.elim .inr fun h => .inl h.1
  rcases hw ho m hdue with (hms | hS) | hfiled
  · exact .inl hms
  · exact .inr (.inl hS)
  · exact .inr (.inr hfiled)

lemma OwedIn.dueIn (hw : OwedIn S ms w) (hst : w.actState ≠ .itx) : DueIn ({m | m ∈ ms} ∪ S) w := by
  intro ho m hm
  rcases hw ho m (hm.elim (fun h => .inr ⟨h, hst⟩) .inl) with hms | hS | hfiled
  · exact .inl (.inl hms)
  · exact .inl (.inr hS)
  · exact .inr hfiled

lemma passing_owedIn (S : Set μ) : Passing env act fuel (OwedIn S) where
  improper ms w hp ho := absurd ho.proper hp
  note ms w e he hw ho m hm := by
    match e, he with
    | .sleep, _ | .processing _, _ | .processed _ _ _, _ => exact hw ho.of_cons m hm
  readCode ms w hw := hw
  prepare ms w hst hw := by
    refine (actionPrepare_keeps env act fuel (stablePrep_dueIn _) w (hw.dueIn hst)).mono ?_
      fun _ _ => trivial
    exact fun _ t ht => owedIn_of_dueIn ht
  taken m ms w ret hst hret hw := by
    -- the message is passed: what is owed besides it is still to be passed
    have howed (ho : Orderly w.hist) (m' : μ) (hm' : m ≠ m' ∧ Owed m' w.hist) :
        m' ∈ ms ∨ m' ∈ S ∨ m' ∈ filed w.hist := by
      refine (hw ho m' (.inl hm'.2)).imp_left fun hmem => ?_
      exact (List.mem_cons.mp hmem).resolve_left (Ne.symm hm'.1)
    intro ho m' hm'
    match ret, hret with
    | .ok, _ =>
      exact howed ho.of_cons.of_cons m' (hm'.resolve_right fun h => absurd h.1 List.not_mem_nil)
    | .deferCommit, _ | .previousCommitted, _ | .disableAction, _ =>
      exact howed ho.of_cons m' (hm'.resolve_right fun h => h.2 hst)
  refused m ms w hst hw ho m' hm' := by
    have hu : Unforgotten (.call (.doAction m) .suspended :: w.hist) := ho.of_cons.unforgotten
    rcases hm' with hm' | hm'
    · exact hw ho.of_cons.of_cons m' (.inl hm'.2)
    · have hself : m' = m := by_contra fun hne => hu.1 ⟨m', hm'.1, hne⟩
      exact .inl (by simp [hself])

lemma dueIn_errorFile (hw : DueIn ({m | m ∈ ms} ∪ S) w) (r : RsRet) :
    DueIn S (w.push (.errorFile r ms)) := by
  intro ho m hm
  rcases hw ho.of_cons m hm with (hms | hS) | hfiled
  · exact .inr (List.mem_append_left _ hms)
  · exact .inl hS
  · exact .inr (List.mem_append_right _ hfiled)

lemma ended_dueIn (hw : DueIn X w) (ret : RsRet) : DueIn X (w.ended ret) := by
  have hcall : DueIn X (w.push (.call .endTransaction ret)) :=
    hw.push (fun _ => due_endTransaction) fun _ => id
  cases ret with
  | ok | deferCommit | previousCommitted | suspended => exact hcall.setState _
  | _ => exact hcall

lemma ended_ok_dueIn {ret : RsRet} (hst : w.actState = .itx) (hret : w.endCode ret = .ok)
    (hw : OwedIn S [] w) : DueIn S (w.ended ret) := by
  intro ho m hm
  have hok : ret = .ok := Wrkr.endCode_ok hst hret ho.proper
  subst hok
  have howed : Owed m w.hist := hm.resolve_left List.not_mem_nil
  exact (hw ho.of_cons.of_cons m (.inl howed)).resolve_left (by simp)

lemma DueIn.leave (hw : DueIn X w) (x : Exit) : DueIn X ((w.push (.left x)).setParams []) :=
  hw.push (e := .left x) (fun _ => id) fun _ => id

lemma dueIn_giveUp {x : Exit} (hx : x.givesUp = true ∨ x = .forceTerm) :
    DueIn ∅ ((w.push (.left x)).setParams []) :=
  fun ho => absurd hx ho.unforgotten.1

section Engine

variable (hdo : act.commitTransaction = false)

include hdo

lemma actionTryCommit_dueIn (hw : DueIn ({m | m ∈ ms} ∪ S) w) :
    Wp (actionTryCommit env act fuel ms)
      (fun r t => DueIn ({m | m ∈ ms} ∪ S) t ∧ (r = .ok → DueIn S t)) (fun _ => True) w := by
  rw [wp_actionTryCommit]
  have hstart : DueIn ({m | m ∈ ms} ∪ S) (w.push (.tryCommit w.actState)) :=
    hw.push (fun _ => id) fun _ => id
  refine ((actionPrepare_keeps env act fuel (stablePrep_dueIn _) _ hstart).and
    actionPrepare_ok).mono ?_ fun _ _ => trivial
  rintro r t ⟨ht, hok⟩
  refine ⟨fun hr => ⟨ht, fun h => absurd h hr⟩, fun hr => ?_⟩
  rw [wp_doTransaction]
  refine ⟨by simp [hdo], fun _ => ?_⟩
  have hkeep : Keeps (DueIn ({m | m ∈ ms} ∪ S)) (doTransactionLoop env act fuel fuel ms .ok) :=
    doTransactionLoop_keeps (fun m hm => actionProcessMessage_dueIn (.inl hm))
      (fun w hw => hw.push (fun _ => id) fun _ => id) fuel .ok
  refine ((hkeep t ht).and ((passing_owedIn S).doTransactionLoop fuel ms .ok (hok hr).1
    (owedIn_of_dueIn ht))).mono ?_ fun _ _ => trivial
  rintro r u ⟨hu, howed⟩
  refine ⟨fun hr => ⟨hu, fun h => absurd h hr⟩, fun hr hst => ?_, fun hr hst => ⟨hu, fun _ => ?_⟩⟩
  · rw [wp_tryCommitEnd]
    exact ⟨ended_dueIn hu _, fun hret => ended_ok_dueIn hst hret (howed hr)⟩
  · have hdue : DueIn ({m | m ∈ []} ∪ S) u := (howed hr).dueIn hst
    exact hdue.mono (by simp)

lemma actionTryRemoveHardErrorsFromBatch_dueIn (hw : DueIn ({m | m ∈ ms} ∪ S) w) :
    Wp (actionTryRemoveHardErrorsFromBatch env act fuel ms)
      (fun left t => DueIn ({m | m ∈ left} ∪ S) t) (fun _ => True) w := by
  induction ms generalizing w S with
  | nil => exact hw
  | cons m ms ih =>
    have hstart : DueIn ({m' | m' ∈ [m]} ∪ ({m | m ∈ ms} ∪ S)) (w.setInRow 0) := by
      refine DueIn.mono (w := w) hw fun m' hm' => ?_
      simpa [or_assoc] using hm'
    rw [wp_removeHardErrors_cons]
    refine (actionTryCommit_dueIn hdo hstart).imp ?_
    rintro r t ⟨ht, hok⟩
    refine ⟨fun _ => ?_, fun _ _ => ih (dueIn_errorFile ht r), fun hr => ih (hok hr)⟩
    -- the message is left over, and due like those of `S`
    have hkeep : DueIn ({m | m ∈ ms} ∪ ({m' | m' ∈ [m]} ∪ S)) t :=
      ht.mono fun m' hm' => by simpa [or_left_comm] using hm'
    refine (ih hkeep).imp ?_
    intro left u hu
    exact hu.mono fun m' hm' => by simpa [or_left_comm, or_assoc] using hm'

lemma commitLoop_dueIn (n : ℕ) (hw : DueIn ({m | m ∈ ms} ∪ ∅) w) :
    Wp (commitLoop env act fuel ms n) (fun _ => DueIn ∅) (fun _ => True) w := by
  induction n generalizing w with
  | zero => trivial
  | succ n ih =>
    simp only [wp_commitLoop_succ, wp_leave]
    refine (actionTryCommit_dueIn hdo hw).imp ?_
    rintro r t ⟨ht, hok⟩
    refine ⟨fun _ => dueIn_giveUp (.inr rfl), fun _ => ?_, fun _ _ => ⟨fun _ => ?_, fun _ => ih ht⟩⟩
    · refine (doRetryLoop_keeps env act (stablePrep_dueIn _).toStable fuel 0 .ok t ht).mono ?_
        fun _ _ => trivial
      intro r u hu
      refine ⟨fun _ => dueIn_giveUp (.inr rfl), fun _ _ => ?_, fun _ => ih hu⟩
      exact (dueIn_errorFile hu r).leave _
    · by_cases hr : r = .ok
      · exact (hok hr).leave _
      · exact dueIn_giveUp (.inl (by simp [Exit.givesUp, hr]))

lemma actionCommit_dueIn (hw : DueIn ∅ w) :
    Wp (actionCommit env act fuel) (fun _ => DueIn ∅) (fun _ => True) w := by
  have hmark : DueIn ∅ (w.push (.commit w.iparams)) := hw.push (fun _ => id) fun _ => id
  have hstart : DueIn ({m | m ∈ w.iparams} ∪ ∅) (w.push (.commit w.iparams)) :=
    hmark.mono (Set.empty_subset _)
  rw [wp_actionCommit]
  refine ⟨fun _ => hmark.leave _, fun _ _ _ => (dueIn_errorFile hstart _).leave _, fun _ _ _ => ?_⟩
  refine (actionTryCommit_dueIn hdo hstart).imp ?_
  rintro r t ⟨ht, hok⟩
  refine ⟨fun hr => (hok hr).leave _, fun _ => ⟨fun _ => ⟨fun _ => ?_, fun _ => ?_⟩, fun _ => ?_⟩⟩
  · exact dueIn_giveUp (.inl rfl)
  · exact commitLoop_dueIn hdo fuel ht
  · refine (actionTryRemoveHardErrorsFromBatch_dueIn hdo ht).imp ?_
    refine fun left u hu => ⟨fun hleft => ?_, fun _ => commitLoop_dueIn hdo fuel hu⟩
    exact DueIn.leave (hu.mono (by simp [hleft])) _

end Engine

lemma perform_dueIn (htx : act.isTransactional = true) (hdo : act.commitTransaction = false)
    (op : Op μ) (hw : DueIn ∅ w) :
    Wp (perform env act fuel op) (fun _ => DueIn ∅) (fun _ => True) w := by
  match op with
  | .commit => exact actionCommit_dueIn hdo hw
  | .processMsg auto m =>
    rw [perform, wp_processMsgMain htx]
    refine (actionPrepare_keeps env act fuel (stablePrep_dueIn ∅)
      (w.setParams (w.iparams ++ [m])) hw).mono ?_ fun _ _ => trivial
    exact fun r t ht => ⟨fun _ => actionCommit_dueIn hdo ht, fun _ => ht⟩

/-- In every run of a transactional module that is driven through `doAction` and keeps to its
interface, with nothing forgotten, every message for which `doAction` returned DEFER_COMMIT was
covered by a later commit before the next transaction, passed again after that, or given to the
error file. -/
theorem deferred_passed_again (htx : act.isTransactional = true)
    (hdo : act.commitTransaction = false) (ops : List (Op μ)) :
    Wp (performAll env act fuel ops)
      (fun _ t => Orderly t.hist → ∀ m, m ∈ pending t.hist ∨ Owed m t.hist → m ∈ filed t.hist)
      (fun _ => True) (Wrkr.init μ) := by
  have hrun (ops : List (Op μ)) (w : Wrkr μ) (hw : DueIn ∅ w) :
      Wp (performAll env act fuel ops) (fun _ => DueIn ∅) (fun _ => True) w := by
    induction ops generalizing w with
    | nil => exact hw
    | cons op ops ih =>
      rw [performAll, wp_bind]
      exact (perform_dueIn htx hdo op hw).imp fun _ t ht => ih t ht
  have hinit : DueIn ∅ (Wrkr.init μ) := by
    rintro - m (h | h)
    · exact absurd h List.not_mem_nil
    · exact h.elim
  refine (hrun ops _ hinit).imp ?_
  exact fun _ t ht ho m hm => (ht ho m hm).resolve_left id

/-! ## Messages that are given up -/

def begins (h : Hist μ) : ℕ :=
  h.countP fun e => match e with
    | .call .beginTransaction _ => true
    | _ => false

/-- A module that defers all messages and does not get through to the end of a transaction. From the
third transaction on it does not even begin, and then it does not resume. -/
def failingWorld : Env ℕ where
  ret c h := match c with
    | .doAction _ => .deferCommit
    | .endTransaction => .suspended
    | .beginTransaction => if begins h < 2 then .ok else .suspended
    | .tryResume => if begins h < 4 then .ok else .suspended
    | _ => .ok
  shutdownImmediate _ := false
  retryDue _ := false
  stateFile _ := none

/-- A transactional action without `commitTransaction` that is not retried. -/
def deferringAction : ActConf := ⟨true, false, 0, false⟩

def twoMessages : List (Op ℕ) := [.processMsg false 1, .processMsg false 2]

/-- The first transaction does not get through to its end. -/
def resumingWorld : Env ℕ :=
  { failingWorld with ret := fun c h => match c with
    | .doAction _ => .deferCommit
    | .endTransaction => if begins h < 2 then .suspended else .ok
    | _ => .ok }

/-- Both messages are deferred, and passed again in transactions that are committed. -/
theorem deferred_two_messages :
    ∃ u t, performAll resumingWorld deferringAction 4 (twoMessages ++ [.commit]) (Wrkr.init ℕ) =
        .ok u t ∧
      (∀ m ∈ [1, 2], t.hist.count (.call (.doAction m) .deferCommit) = 2) ∧ Orderly t.hist ∧
      ∀ m, m ∈ pending t.hist ∨ Owed m t.hist → m ∈ filed t.hist := by
  have hruns : ∃ u t, performAll resumingWorld deferringAction 4 (twoMessages ++ [.commit])
      (Wrkr.init ℕ) = .ok u t ∧
        (∀ m ∈ [1, 2], t.hist.count (.call (.doAction m) .deferCommit) = 2) ∧ Orderly t.hist :=
    returns_of_decide (by decide +kernel)
  obtain ⟨u, t, hrun, hcount, ho⟩ := hruns
  exact ⟨u, t, hrun, hcount, ho, (deferred_passed_again rfl rfl _).ok hrun ho⟩

/-- The second message is deferred and not committed; after the next transaction began, it is given
to the error file without being passed again. -/
theorem deferred_not_passed_again :
    Wp (performAll failingWorld deferringAction 4 (twoMessages ++ [.commit]))
      (fun _ t => Owed 2 t.hist) (fun _ => False) (Wrkr.init ℕ) := by
  decide +kernel

end Rsyslog.Action
