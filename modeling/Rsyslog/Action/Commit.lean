import Rsyslog.Action.Passing

/-!
# What becomes of a batch

A message is done with when the module has reported its transaction as committed, or when it was
given to the error file (`handled`).

Two exits forget the batch: a single message with a hard error, and a retry loop that ends with a
code other than OK (`Exit.givesUp`). And the loop of `doTransaction` forgets the messages of a
transaction in which a later message is refused with SUSPENDED: only that one is passed again
(`Undropped`). `Spared` are the answers that keep the call from these exits.
-/

namespace Rsyslog.Action

open Lib List

variable {μ : Type} {env : Env μ} {act : ActConf} {fuel : ℕ} {w t : Wrkr μ} {m : μ} {h : Hist μ}

/-! ## Messages that are done with -/

def held : Hist μ → List μ
  | [] => []
  | .state st :: h => if st = .itx then held h else []
  | .call .beginTransaction _ :: _ => []
  | .call (.doAction m) _ :: h => m :: held h
  | .call (.commitTransaction ms) _ :: h => ms ++ held h
  | _ :: h => held h

/-- The messages that are done with by an event: those of a transaction that the module reports as
committed, and those that are given to the error file. -/
def Event.handles (h : Hist μ) : Event μ → List μ
  | .call (.doAction m) .ok => m :: held h
  | .call (.commitTransaction ms) .ok => ms ++ held h
  | .call .endTransaction .ok => held h
  | .errorFile _ ms => ms
  | _ => []

def handled : Hist μ → List μ
  | [] => []
  | e :: h => e.handles h ++ handled h

/-- A message is refused with SUSPENDED while the transaction holds another one. -/
def Event.Drops (h : Hist μ) : Event μ → Prop
  | .call (.doAction m) .suspended => ∃ m' ∈ held h, m' ≠ m
  | _ => False

def Undropped : Hist μ → Prop
  | [] => True
  | e :: h => ¬e.Drops h ∧ Undropped h

/-- The module has kept to its interface, and has not refused a message in the midst of a
transaction. -/
@[mk_iff] structure Regular (h : Hist μ) : Prop where
  proper : Proper h
  undropped : Undropped h

lemma Regular.of_cons {e : Event μ} (hr : Regular (e :: h)) : Regular h :=
  ⟨hr.proper.of_cons, hr.undropped.2⟩

section Decidable

variable [DecidableEq μ]

instance (e : Event μ) : Decidable (e.Drops h) := by
  unfold Event.Drops
  split <;> infer_instance

instance decidableUndropped : (h : Hist μ) → Decidable (Undropped h)
  | [] => .isTrue trivial
  | _ :: h => @instDecidableAnd _ _ _ (decidableUndropped h)

instance : Decidable (Regular h) := decidable_of_iff' _ (regular_iff h)

end Decidable

lemma mem_handled_cons {e : Event μ} (hm : m ∈ handled h) : m ∈ handled (e :: h) :=
  mem_append_right _ hm

/-! ## One attempt -/

/-- Of the messages `all`, those not in `ms` are done with or held by the open transaction. -/
def Passed (all ms : List μ) (w : Wrkr μ) : Prop :=
  Regular w.hist → ∀ m ∈ all, m ∈ ms ∨ m ∈ handled w.hist ∨ w.actState = .itx ∧ m ∈ held w.hist

lemma passing_passed (all : List μ) : Passing env act fuel (Passed all) where
  improper ms w hp hr := absurd hr.proper hp
  note ms w e he hw hr m hm := by
    refine (hw hr.of_cons m hm).imp_right (Or.imp mem_handled_cons ?_)
    match e, he with
    | .sleep, _ | .processing _, _ | .processed _ _ _, _ => exact id
  readCode ms w hw := hw
  prepare ms w hst hw := by
    -- outside a transaction nothing is held
    have hkeep := actionPrepare_keeps env act fuel
      (stablePrep_of_hist (P := fun _ h => Regular h → ∀ m ∈ all, m ∈ ms ∨ m ∈ handled h)
        fun _ e h hh hr m hm => (hh hr.of_cons m hm).imp_right mem_handled_cons) w
      fun hr m hm => (hw hr m hm).imp_right fun h => h.resolve_right fun h => hst h.1
    refine hkeep.mono ?_ fun _ _ => trivial
    exact fun _ t ht hr m hm => (ht hr m hm).imp_right .inl
  taken m ms w ret hst hret hw hr m' hm' := by
    match ret, hret with
    | .ok, _ =>
      rcases hw hr.of_cons.of_cons m' hm' with hms | hdone | ⟨-, hheld⟩
      · rcases mem_cons.mp hms with rfl | hms
        · exact .inr (.inl (by simp [Wrkr.offered, Wrkr.handled, handled, Event.handles]))
        · exact .inl hms
      · exact .inr (.inl (mem_handled_cons (mem_handled_cons hdone)))
      · simp [Wrkr.offered, Wrkr.handled, handled, Event.handles, hheld]
    | .deferCommit, _ | .previousCommitted, _ | .disableAction, _ =>
      rcases hw hr.of_cons m' hm' with hms | hdone | ⟨-, hheld⟩
      · rcases mem_cons.mp hms with rfl | hms
        · exact .inr (.inr ⟨hst, mem_cons_self⟩)
        · exact .inl hms
      · exact .inr (.inl (mem_handled_cons hdone))
      · exact .inr (.inr ⟨hst, mem_cons_of_mem _ hheld⟩)
  refused m ms w hst hw hr m' hm' := by
    rcases hw hr.of_cons.of_cons m' hm' with hms | hdone | ⟨-, hheld⟩
    · exact .inl hms
    · exact .inr (.inl (mem_handled_cons (mem_handled_cons hdone)))
    · have hu : Undropped (.call (.doAction m) .suspended :: w.hist) := hr.of_cons.undropped
      have hself : m' = m := by_contra fun hne => hu.1 ⟨m', hheld, hne⟩
      exact .inl (by simp [hself])

variable {ms : List μ}

lemma tryCommitEnd_handles (hst : w.actState = .itx)
    (hw : Regular w.hist → ∀ m ∈ ms, m ∈ handled w.hist ∨ m ∈ held w.hist) :
    Wp (tryCommitEnd env) (fun r t => r = .ok → Regular t.hist → ∀ m ∈ ms, m ∈ handled t.hist)
      (fun _ => True) w := by
  rw [wp_tryCommitEnd]
  intro ret hr hreg m hm
  have hok : ret = .ok := Wrkr.endCode_ok hst hr hreg.proper
  rw [hok] at hreg ⊢
  exact (hw hreg.of_cons.of_cons m hm).elim (fun h => mem_handled_cons (mem_handled_cons h))
    fun h => mem_handled_cons (mem_append_left _ h)

variable {ret : RsRet}

lemma held_passed (hst : (w.passed ms ret).actState = .itx) :
    ∀ m ∈ ms, m ∈ held (w.passed ms ret).hist := by
  intro m hm
  match ret with
  | .deferCommit | .previousCommitted | .disableAction => exact mem_append_left _ hm

lemma handled_passed (hrdy : w.actState ≠ .rdy) (hst : (w.passed ms ret).actState = .rdy) :
    ∀ m ∈ ms, m ∈ handled (w.passed ms ret).hist := by
  intro m hm
  match ret with
  | .ok => exact mem_handled_cons (mem_append_left _ (mem_append_left _ hm))
  | .deferCommit | .previousCommitted | .disableAction => exact absurd hst hrdy

lemma actionTryCommit_handles (ms : List μ) :
    Wp (actionTryCommit env act fuel ms)
      (fun r t => r = .ok → Regular t.hist → ∀ m ∈ ms, m ∈ handled t.hist) (fun _ => True) w := by
  rw [wp_actionTryCommit]
  refine actionPrepare_ok.imp ?_
  refine fun r t ht => ⟨fun hr h => absurd h hr, fun hr => ?_⟩
  obtain ⟨hcr, hrdy⟩ := ht hr
  rw [wp_doTransaction]
  constructor
  · refine fun _ => ⟨fun hr h => absurd h hr, fun _ hst => ?_, fun _ _ hcode _ => ?_⟩
    · exact tryCommitEnd_handles hst fun _ m hm => .inr (held_passed hst m hm)
    · have hst := Wrkr.returnCode_eq_ok.mp hcode
      exact handled_passed hrdy hst
  · intro _
    have hstart : Passed ms ms t := fun _ m hm => .inl hm
    refine ((passing_passed ms).doTransactionLoop fuel ms .ok hcr hstart).imp ?_
    intro r u hu
    refine ⟨fun hr h => absurd h hr, fun hr hst => ?_, fun hr hst hcode hreg m hm => ?_⟩
    · refine tryCommitEnd_handles hst fun hreg m hm => ?_
      exact ((hu hr hreg m hm).resolve_left (by simp)).imp_right And.right
    · exact ((hu hr hreg m hm).resolve_left (by simp)).resolve_right fun h => hst h.1

/-! ## The exits -/

def Exit.givesUp : Exit → Bool
  | .singleDataFail => true
  | .done r => r != .ok
  | _ => false

def givenUp : Hist μ → Bool
  | .left x :: _ => x.givesUp
  | _ => false

/-- Nothing that was done with in `h` is open again. -/
structure Grown (h g : Hist μ) : Prop where
  handled : ∀ m ∈ handled h, m ∈ Action.handled g
  regular : Regular g → Regular h

lemma kept_grown (h : Hist μ) : Kept env act fuel fun w => Grown h w.hist :=
  kept_of_hist fun _ _ hg => ⟨fun m hm => mem_handled_cons (hg.handled m hm),
    fun hr => hg.regular hr.of_cons⟩

lemma grown_refl (h : Hist μ) : Grown h h := ⟨fun _ => id, id⟩

lemma actionTryRemoveHardErrorsFromBatch_handles (ms : List μ) :
    Wp (actionTryRemoveHardErrorsFromBatch env act fuel ms)
      (fun left t => Regular t.hist → ∀ m ∈ ms, m ∈ left ∨ m ∈ handled t.hist)
      (fun _ => True) w := by
  induction ms generalizing w with
  | nil => exact fun _ => by simp
  | cons m ms ih =>
    -- the messages behind `m`, with what is known of `m` before
    have hrest (u : Wrkr μ) : Wp (actionTryRemoveHardErrorsFromBatch env act fuel ms)
        (fun left t => Grown u.hist t.hist ∧
          (Regular t.hist → ∀ m ∈ ms, m ∈ left ∨ m ∈ handled t.hist)) (fun _ => True) u :=
      (((kept_grown u.hist).removeHardErrors ms u (grown_refl _)).and ih).mono (fun _ _ => id)
        fun _ _ => trivial
    rw [wp_removeHardErrors_cons]
    refine (actionTryCommit_handles [m]).imp ?_
    intro r t ht
    refine ⟨fun _ => (hrest t).imp ?_, fun _ _ => ?_, fun hok => ?_⟩
    · rintro left u ⟨-, hu⟩ hreg m' hm'
      rcases mem_cons.mp hm' with rfl | hm'
      · exact .inl mem_cons_self
      · exact (hu hreg m' hm').imp_left (mem_cons_of_mem m)
    · refine (hrest _).imp ?_
      rintro left u ⟨hgrown, hu⟩ hreg m' hm'
      rcases mem_cons.mp hm' with rfl | hm'
      · exact .inr (hgrown.handled _ (mem_append_left _ mem_cons_self))
      · exact hu hreg m' hm'
    · refine (hrest t).imp ?_
      rintro left u ⟨hgrown, hu⟩ hreg m' hm'
      rcases mem_cons.mp hm' with rfl | hm'
      · exact .inr (hgrown.handled _ (ht hok (hgrown.regular hreg) _ (by simp)))
      · exact hu hreg m' hm'

def Finished (r : RsRet) (h : Hist μ) : Prop := r = .forceTerm → .left .forceTerm ∉ h

lemma not_finished {h : Hist μ} : ¬Finished .forceTerm (.left .forceTerm :: h) :=
  fun hf => hf rfl (by simp)

lemma commitLoop_handles (ms : List μ) (n : ℕ) :
    Wp (commitLoop env act fuel ms n)
      (fun r t => Finished r t.hist → Regular t.hist → givenUp t.hist = false →
        ∀ m ∈ ms, m ∈ handled t.hist) (fun _ => True) w := by
  induction n generalizing w with
  | zero => trivial
  | succ n ih =>
    simp only [wp_commitLoop_succ, wp_leave]
    refine (actionTryCommit_handles ms).imp ?_
    intro r t ht
    refine ⟨fun _ h => absurd h not_finished, fun _ => ?_, fun _ _ => ⟨fun _ => ?_, fun _ => ih⟩⟩
    · refine wp_trivial.imp ?_
      refine fun r u _ => ⟨fun _ h => absurd h not_finished, fun _ _ _ _ _ m hm => ?_, fun _ => ih⟩
      exact mem_handled_cons (mem_append_left _ hm)
    · intro _ hreg hup m hm
      exact mem_handled_cons (ht (by simpa [givenUp, Exit.givesUp] using hup) hreg.of_cons m hm)

@[simps] def Wrkr.restart (w : Wrkr μ) : Wrkr μ := { w with hist := [] }

lemma actionCommit_handles (htx : act.isTransactional = true) :
    Wp (actionCommit env act fuel)
      (fun r t => Finished r t.hist → Regular t.hist → givenUp t.hist = false →
        ∀ m ∈ w.iparams, m ∈ handled t.hist) (fun _ => True) w := by
  rw [wp_actionCommit]
  refine ⟨?_, fun _ _ _ _ _ _ m hm => ?_, fun _ _ _ => ?_⟩
  · rintro (h | h)
    · exact absurd htx (by simp [h])
    · exact fun _ _ _ => by simp [h]
  · exact mem_handled_cons (mem_append_left _ hm)
  · refine (actionTryCommit_handles w.iparams).imp ?_
    intro r t ht
    refine ⟨fun hr _ hreg _ m hm => mem_handled_cons (ht hr hreg.of_cons m hm), fun hr => ⟨?_, ?_⟩⟩
    · exact fun _ => ⟨fun _ _ _ hup => absurd hup (by simp [givenUp, Exit.givesUp]),
        fun _ => commitLoop_handles _ _⟩
    · intro _
      refine (actionTryRemoveHardErrorsFromBatch_handles w.iparams).imp ?_
      intro left u hu
      refine ⟨fun hleft _ hreg _ m hm => ?_, fun _ => ?_⟩
      · have hm := hu hreg.of_cons m hm
        exact mem_handled_cons (hm.resolve_left (by simp [hleft]))
      · refine ((commitLoop_handles left fuel).and
          ((kept_grown u.hist).commitLoop left fuel u (grown_refl _))).mono ?_ fun _ _ => trivial
        rintro r v ⟨hv, hgrown⟩ hr hreg hup m hm
        rcases hu (hgrown.regular hreg) m hm with hm | hm
        · exact hv hr hreg hup m hm
        · exact hgrown.handled m hm

/-! ## Attempts that do not give up -/

/-- An answer after which an attempt can go on or be made again: the module says OK or SUSPENDED, or
takes a message into its transaction, and a suspended action may be retried. An attempt does not
start in DATAFAIL. -/
def Event.isMild : Event μ → Bool
  | .call (.doAction _) r | .call (.commitTransaction _) r => r.isTaken || r == .suspended
  | .call _ r => r == .ok || r == .suspended
  | .retryDue b => b
  | .tryCommit st => st != .dataFail
  | _ => true

def attempts (h : Hist μ) : ℕ :=
  h.countP fun e => match e with
    | .tryCommit _ => true
    | _ => false

/-- The attempts of a batch of `n` messages that come before its retry loop: with the whole batch
and with each message. For a single message the first one counts too. -/
def early (n : ℕ) : ℕ := if n = 1 then 0 else n + 1

/-- All answers behind the early attempts are mild. -/
def Spared (n : ℕ) : Hist μ → Prop
  | [] => True
  | e :: h => (early n < attempts (e :: h) → e.isMild = true) ∧ Spared n h

instance decidableSpared (n : ℕ) : (h : Hist μ) → Decidable (Spared n h)
  | [] => .isTrue trivial
  | _ :: h => @instDecidableAnd _ _ _ (decidableSpared n h)

variable {n : ℕ}

variable {k : ℕ}

lemma le_attempts_cons (e : Event μ) (h : Hist μ) (hk : k ≤ attempts h) :
    k ≤ attempts (e :: h) := by
  rw [attempts, countP_cons]
  exact hk.trans (Nat.le_add_right _ _)

lemma actionTryCommit_attempts (hk : k ≤ attempts w.hist) (ms : List μ) :
    Wp (actionTryCommit env act fuel ms) (fun _ t => k + 1 ≤ attempts t.hist) (fun _ => True)
      w := by
  refine (actionTryCommit_grows le_attempts_cons ms ?_).mono (fun _ _ => id) fun _ _ => trivial
  simpa [attempts] using hk

lemma removeHardErrors_attempts (hk : k ≤ attempts w.hist) (ms : List μ) :
    Wp (actionTryRemoveHardErrorsFromBatch env act fuel ms)
      (fun _ t => k + ms.length ≤ attempts t.hist) (fun _ => True) w := by
  induction ms generalizing w k with
  | nil => exact hk
  | cons m ms ih =>
    rw [wp_removeHardErrors_cons, length_cons, ← Nat.add_assoc, Nat.add_right_comm]
    refine (actionTryCommit_attempts (w := w.setInRow 0) hk [m]).imp fun r t ht => ?_
    exact ⟨fun _ => ih ht, fun _ _ => ih (le_attempts_cons _ _ ht), fun _ => ih ht⟩

def RsRet.Soft (r : RsRet) : Prop := r = .ok ∨ r = .suspended ∨ r = .forceTerm

lemma answers_spared (n : ℕ) : Answers (μ := μ) (Spared n) (fun h => early n < attempts h)
    fun r st => r.Soft ∧ (r = .ok → st ≠ .susp ∧ st ≠ .dataFail) where
  of_cons _ _ hk := hk.2
  later := le_attempts_cons
  ok _ hsusp hfail := ⟨.inl rfl, fun _ => ⟨hsusp, hfail⟩⟩
  suspended _ := ⟨.inr (.inl rfl), by simp⟩
  forceTerm _ := ⟨.inr (.inr rfl), by simp⟩
  call c r h st hc hne hL hk := by
    have hmild := hk.1 (le_attempts_cons _ _ hL)
    have hsusp : r = .suspended := by
      cases c <;> simp_all [Event.isMild, Call.isPassing]
    simp [hsusp, RsRet.Soft]
  notDue h hL hk := absurd (hk.1 (le_attempts_cons _ _ hL)) (by simp [Event.isMild])

/-- A later attempt is under way, and it has not led to DATAFAIL. -/
def Going (n : ℕ) (w : Wrkr μ) : Prop :=
  early n < attempts w.hist ∧ (Spared n w.hist → w.actState ≠ .dataFail)

lemma Going.push (hw : Going n w) (e : Event μ) : Going n (w.push e) :=
  ⟨le_attempts_cons _ _ hw.1, fun hs => hw.2 hs.2⟩

lemma Going.setState (hw : Going n w) {st : ActState} (hst : st ≠ .dataFail) :
    Going n (w.setState st) :=
  ⟨le_attempts_cons _ _ hw.1, fun _ => hst⟩

lemma stablePrep_going (n : ℕ) : StablePrep (Going n : Wrkr μ → Prop) where
  push _ _ _ hw := hw.push _
  state _ _ _ hst hw := hw.setState hst
  createCall _ _ hw := hw.push _
  begin_ok _ hw := (hw.push _).setState (by simp)
  begin_ne _ _ _ hw := hw.push _

/-- The preparation of an attempt leads into a transaction, or the action is to be retried. -/
lemma actionPrepare_going (hw : Going n w) :
    Wp (actionPrepare env act fuel) (fun r t => Going n t ∧ (Spared n t.hist → r.Soft ∧
      (r = .ok → t.actState = .itx ∨ t.actState = .rtry))) (fun _ => True) w := by
  refine ((actionPrepare_keeps env act fuel (stablePrep_going n) w hw).and
    (actionPrepare_ok.and ((answers_spared n).actionPrepare hw.1
      fun hst hk => absurd hst (hw.2 hk)))).mono ?_ fun _ _ => trivial
  rintro r t ⟨ht, hok, hk⟩
  refine ⟨ht, fun hs => ⟨(hk hs).1, fun hr => ?_⟩⟩
  obtain ⟨hsusp, hfail⟩ := (hk hs).2 hr
  have hrdy := (hok hr).2
  cases hst : t.actState <;> simp_all

/-- A call that passes messages has moved the state from `st`: the answer was mild. -/
lemma next_of_mild {st : ActState} {r : RsRet} (hst : st = .itx ∨ st = .rtry)
    (hr : (r.isTaken || r == .suspended) = true) :
    st.next r = .rdy ∨ st.next r = .itx ∨ st.next r = .rtry := by
  rcases hst with rfl | rfl <;> cases r <;> simp_all [ActState.next, RsRet.isTaken]

lemma handled_going {c : Call μ} {r : RsRet} (hc : c.isPassing = true) (hw : Going n w)
    (hst : Spared n w.hist → w.actState = .itx ∨ w.actState = .rtry) :
    Going n ((w.push (.call c r)).handled r) ∧
      (Spared n ((w.push (.call c r)).handled r).hist →
        w.actState.next r = .rdy ∨ w.actState.next r = .itx ∨ w.actState.next r = .rtry) := by
  have hnext (hs : Spared n (.call c r :: w.hist)) :
      w.actState.next r = .rdy ∨ w.actState.next r = .itx ∨ w.actState.next r = .rtry := by
    refine next_of_mild (hst hs.2) ?_
    have hmild := hs.1 (le_attempts_cons _ _ hw.1)
    cases c <;> simp_all [Event.isMild, Call.isPassing]
  have hspared (hs : Spared n ((w.push (.call c r)).handled r).hist) :
      Spared n (.call c r :: w.hist) := by
    cases r with
    | deferCommit | previousCommitted | disableAction => exact hs
    | _ => exact hs.2
  refine ⟨⟨handled_of_hist le_attempts_cons r (le_attempts_cons _ _ hw.1), fun hs => ?_⟩,
    fun hs => hnext (hspared hs)⟩
  rw [Wrkr.handled_actState]
  rcases hnext (hspared hs) with h | h | h <;> simp [h]

lemma soft_or_deferral (h : w.actState = .rdy ∨ w.actState = .itx ∨ w.actState = .rtry) :
    w.returnCode = .suspended ∧ w.actState = .rtry ∨
      w.returnCode.expected = .ok ∧ (w.actState = .rdy ∨ w.actState = .itx) := by
  unfold Wrkr.returnCode
  rcases h with h | h | h
  · simp [h, RsRet.expected]
  · cases w.bHadAutoCommit <;> simp [h, RsRet.expected]
  · simp [h]

/-- What the attempt to pass a message leaves, if it need not be made again. -/
def Taken (r : RsRet) (t : Wrkr μ) : Prop :=
  r = .forceTerm ∨ r.expected = .ok ∧ (t.actState = .rdy ∨ t.actState = .itx)

lemma actionProcessMessage_going (m : μ) (hw : Going n w) :
    Wp (actionProcessMessage env act fuel m) (fun r t => Going n t ∧
      (Spared n t.hist → r = .suspended ∨ Taken r t)) (fun _ => True) w := by
  rw [wp_actionProcessMessage, wp_processMessage]
  refine (actionPrepare_going (hw.push _)).imp ?_
  rintro r t ⟨ht, hsoft⟩
  refine ⟨fun hr => ⟨ht.push _, fun hs => ?_⟩, fun hr hst => ⟨ht.push _, fun hs => ?_⟩,
    fun hr hst => ?_⟩
  · rcases (hsoft hs.2).1 with hok | hsusp | hterm
    · exact absurd hok hr
    · exact .inl hsusp
    · exact .inr (.inl hterm)
  · have hrtry := ((hsoft hs.2).2 hr).resolve_left hst
    exact .inl (Wrkr.returnCode_eq_suspended.mpr hrtry)
  · obtain ⟨hgoing, hnext⟩ := handled_going (c := .doAction m) (w := t.setAutoCommit false)
      (r := env.ret (.doAction m) t.hist) rfl ht fun _ => .inl hst
    refine ⟨hgoing.push _, fun hs => ?_⟩
    have hcode := soft_or_deferral (w := t.offered m (env.ret (.doAction m) t.hist))
      (by simpa using hnext hs.2)
    exact hcode.imp And.left .inr

lemma doTransactionLoop_going (k : ℕ) (ms : List μ) (iRet : RsRet) (hw : Going n w)
    (hiRet : ms = [] → Spared n w.hist → Taken iRet w) :
    Wp (doTransactionLoop env act fuel k ms iRet) (fun r t => Going n t ∧
      (Spared n t.hist → Taken r t)) (fun _ => True) w := by
  induction k generalizing w ms iRet with
  | zero => cases ms with
    | nil => exact ⟨hw, hiRet rfl⟩
    | cons m ms => trivial
  | succ k ih => cases ms with
    | nil => exact ⟨hw, hiRet rfl⟩
    | cons m ms =>
      rw [wp_doTransactionLoop_cons]
      refine (actionProcessMessage_going m hw).imp ?_
      rintro r t ⟨ht, htaken⟩
      refine ⟨fun _ => ih _ _ (ht.push _) (by simp), fun hr _ => ⟨ht, fun hs => ?_⟩, fun hr => ?_⟩
      · exact (htaken hs).resolve_left hr
      · refine ih _ _ ht fun _ hs => (htaken hs).resolve_left ?_
        rintro rfl
        simp [RsRet.expected] at hr

lemma actionTryCommit_soft (hlate : early n ≤ attempts w.hist) {ms : List μ} (hms : ms ≠ []) :
    Wp (actionTryCommit env act fuel ms) (fun r t => Spared n t.hist → r.Soft) (fun _ => True)
      w := by
  have hstart : Going n (w.push (.tryCommit w.actState)) := by
    have hnow : early n < attempts (.tryCommit w.actState :: w.hist) := by
      simpa [attempts, Nat.lt_succ_iff] using hlate
    exact ⟨hnow, fun hs => by simpa [Event.isMild] using hs.1 hnow⟩
  rw [wp_actionTryCommit]
  refine (actionPrepare_going hstart).imp ?_
  rintro r t ⟨ht, hsoft⟩
  refine ⟨fun _ hs => (hsoft hs).1, fun hr => ?_⟩
  -- what follows the attempt to pass the messages
  have hrest (r : RsRet) (u : Wrkr μ) (hu : Going n u)
      (hcode : Spared n u.hist → r = .suspended ∨ Taken r u) :
      (r.expected ≠ .ok → Spared n u.hist → r.expected.Soft) ∧
      (r.expected = .ok → u.actState = .itx → Wp (tryCommitEnd env)
        (fun r t => Spared n t.hist → r.Soft) (fun _ => True) u) ∧
      (r.expected = .ok → u.actState ≠ .itx → Spared n u.readCode.hist → u.returnCode.Soft) := by
    refine ⟨fun hr hs => ?_, fun _ _ => ?_, fun hr hst hs => ?_⟩
    · rcases hcode hs with rfl | rfl | h
      · exact .inr (.inl rfl)
      · exact .inr (.inr rfl)
      · exact absurd h.1 hr
    · rw [wp_tryCommitEnd]
      intro ret hs
      clear_value ret
      have hcall : Spared n (.call .endTransaction ret :: u.hist) := by
        cases ret with
        | ok | deferCommit | previousCommitted | suspended => exact hs.2
        | _ => exact hs
      have hmild := hcall.1 (le_attempts_cons _ _ hu.1)
      cases ret <;> simp_all [Event.isMild, Wrkr.endCode, RsRet.Soft]
    · rcases hcode hs with rfl | rfl | ⟨-, h | h⟩
      · simp [RsRet.expected] at hr
      · simp [RsRet.expected] at hr
      · exact .inl (Wrkr.returnCode_eq_ok.mpr h)
      · exact absurd h hst
  rw [wp_doTransaction]
  constructor
  · intro _
    obtain ⟨hgoing, hnext⟩ := handled_going (c := .commitTransaction ms)
      (r := env.ret (.commitTransaction ms) t.hist) rfl ht fun hs => (hsoft hs).2 hr
    refine hrest _ _ hgoing fun hs => ?_
    have hcode := soft_or_deferral (w := t.passed ms (env.ret (.commitTransaction ms) t.hist))
      (by simpa using hnext hs)
    exact hcode.imp And.left .inr
  · intro _
    refine (doTransactionLoop_going fuel ms .ok ht fun h => absurd h hms).imp ?_
    exact fun r u hu => hrest r u hu.1 fun hs => .inr (hu.2 hs)

lemma commitLoop_spared (hms : ms ≠ []) (k : ℕ) (hlate : early n ≤ attempts w.hist) :
    Wp (commitLoop env act fuel ms k) (fun _ t => Spared n t.hist → givenUp t.hist = false)
      (fun _ => True) w := by
  induction k generalizing w with
  | zero => trivial
  | succ k ih =>
    simp only [wp_commitLoop_succ, wp_leave]
    refine ((actionTryCommit_soft hlate hms).and (actionTryCommit_attempts hlate ms)).mono ?_
      fun _ _ => trivial
    rintro r t ⟨hsoft, ht⟩
    have ht : early n ≤ attempts t.hist := Nat.le_of_succ_le ht
    refine ⟨fun _ _ => rfl, fun _ => ?_, fun hft hsu => ⟨fun _ hs => ?_, fun _ => ih ht⟩⟩
    · refine ((kept_of_hist le_attempts_cons).doRetry t ht).mono ?_ fun _ _ => trivial
      exact fun r u hu => ⟨fun _ _ => rfl, fun _ _ _ => rfl, fun _ => ih hu⟩
    · rcases hsoft hs.2 with rfl | rfl | rfl
      · rfl
      · exact absurd rfl hsu
      · exact absurd rfl hft

lemma actionCommit_spared :
    Wp (actionCommit env act fuel)
      (fun _ t => Spared w.iparams.length t.hist → givenUp t.hist = false) (fun _ => True) w := by
  rw [wp_actionCommit]
  refine ⟨fun _ _ => rfl, fun _ _ _ _ => rfl, fun _ hms _ => ?_⟩
  by_cases hone : w.iparams.length = 1
  · have hearly : early w.iparams.length = 0 := by rw [early, if_pos hone]
    refine (actionTryCommit_soft (n := w.iparams.length) (hearly ▸ Nat.zero_le _) hms).imp ?_
    intro r t hsoft
    refine ⟨fun _ _ => rfl, fun _ => ⟨fun _ => ⟨fun hfail hs => ?_, fun _ => ?_⟩, ?_⟩⟩
    · exact absurd (hsoft hs.2) (by simp [hfail, RsRet.Soft])
    · exact commitLoop_spared hms fuel (hearly ▸ Nat.zero_le _)
    · exact fun h => absurd hone h
  · refine (actionTryCommit_attempts (Nat.zero_le _) w.iparams).imp ?_
    intro r t ht
    refine ⟨fun _ _ => rfl, fun _ => ⟨fun h => absurd h hone, fun _ => ?_⟩⟩
    refine (removeHardErrors_attempts ht w.iparams).imp ?_
    intro left u hu
    refine ⟨fun _ _ => rfl, fun hleft => commitLoop_spared hleft fuel ?_⟩
    rw [early, if_neg hone]
    omega

/-! ## The whole -/

/-- The module of a transactional action keeps to its interface and refuses no message in the midst
of a transaction. When `actionCommit` returns a code other than FORCE_TERM, each message is part of
a committed transaction or was given to the error file, if all answers in the retry loop, and for a
single message in the first attempt too, are mild. -/
theorem batch_handled (htx : act.isTransactional = true) (w : Wrkr μ) :
    Wp (actionCommit env act fuel)
      (fun r t => r ≠ .forceTerm → Regular t.hist → Spared w.iparams.length t.hist →
        ∀ m ∈ w.iparams, m ∈ handled t.hist) (fun _ => True) w.restart := by
  refine ((actionCommit_handles htx (w := w.restart)).and actionCommit_spared).mono ?_
    fun _ _ => trivial
  exact fun r t ht hr hreg hs => ht.1 (fun h => absurd h hr) hreg (ht.2 hs)

/-- Of two messages the first one gets a hard error, and the other one is refused once. -/
def mixedWorld : Env ℕ where
  ret c h := match c with
    | .commitTransaction ms =>
      if 1 ∈ ms then .err (-1) else if attempts h < 4 then .suspended else .ok
    | _ => .ok
  shutdownImmediate _ := false
  retryDue _ := false
  stateFile _ := none

def mixedBatch : Wrkr ℕ := ⟨true, .rdy, 0, false, [1, 2], false, []⟩

/-- The first message is given to the error file, and the second one is committed in the retry
loop. -/
theorem batch_handled_mixed :
    Wp (actionCommit mixedWorld ⟨true, true, 0, false⟩ 3)
      (fun r t => r ≠ .forceTerm ∧ Regular t.hist ∧ Spared 2 t.hist ∧
        ∀ m ∈ mixedBatch.iparams, m ∈ handled t.hist) (fun _ => False) mixedBatch.restart := by
  have hrun : Wp (actionCommit mixedWorld ⟨true, true, 0, false⟩ 3)
      (fun r t => r ≠ .forceTerm ∧ Regular t.hist ∧ Spared 2 t.hist) (fun _ => False)
      mixedBatch.restart := by
    decide +kernel
  refine (hrun.and (batch_handled rfl mixedBatch)).mono ?_ fun _ h => h.1
  exact fun r t ⟨⟨hr, hreg, hs⟩, h⟩ => ⟨hr, hreg, hs, h hr hreg hs⟩

/-- A module with `commitTransaction` that cannot process its messages. -/
def hardWorld (μ : Type) : Env μ := .constant fun c =>
  match c with
  | .commitTransaction _ => .err (-1)
  | _ => .ok

def oneMessage : Wrkr Unit := ⟨true, .rdy, 0, false, [()], false, []⟩

/-- The message gets a hard error, and `actionCommit` leaves without the error file. -/
theorem batch_of_one_forgotten :
    Wp (actionCommit (hardWorld Unit) ⟨true, true, 0, false⟩ 3)
      (fun r t => r ≠ .forceTerm ∧ () ∉ handled t.hist) (fun _ => False) oneMessage.restart := by
  decide

end Rsyslog.Action
