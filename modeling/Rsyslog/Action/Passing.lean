import Rsyslog.Action.Stable

/-!
# Passing a batch to `doAction`

A message leaves the loop of `doTransaction` when `actionProcessMessage` returns OK, DEFER_COMMIT or
PREVIOUS_COMMITTED. In a module that keeps to its interface these codes come from `doAction` only.
-/

namespace Rsyslog.Action

open Lib

variable {μ : Type} {env : Env μ} {act : ActConf} {fuel : ℕ} {w t : Wrkr μ}

/-! ## The history grows -/

/-- What stays true when the history grows survives a preparation. -/
lemma stablePrep_of_hist {P : List μ → Hist μ → Prop} (hP : ∀ ms e h, P ms h → P ms (e :: h)) :
    StablePrep fun w : Wrkr μ => P w.iparams w.hist where
  push _ _ _ := hP _ _ _
  state _ _ _ _ := hP _ _ _
  createCall _ _ := hP _ _ _
  begin_ok _ hw := hP _ _ _ (hP _ _ _ hw)
  begin_ne _ _ _ := hP _ _ _

section Grows

variable {P : Hist μ → Prop} (hP : ∀ e h, P h → P (e :: h))

include hP

lemma handled_of_hist (ret : RsRet) (hw : P w.hist) : P (w.handled ret).hist := by
  cases ret with
  | deferCommit | previousCommitted | disableAction => exact hw
  | _ => exact hP _ _ hw

lemma ended_of_hist (ret : RsRet) (hw : P w.hist) : P (w.ended ret).hist := by
  cases ret with
  | ok | deferCommit | previousCommitted | suspended => exact hP _ _ (hP _ _ hw)
  | _ => exact hP _ _ hw

lemma actionProcessMessage_of_hist (m : μ) :
    Keeps (fun w => P w.hist) (actionProcessMessage env act fuel m) := by
  intro w hw
  rw [wp_actionProcessMessage, wp_processMessage]
  refine (actionPrepare_keeps env act fuel (stablePrep_of_hist fun _ => hP) _ (hP _ _ hw)).imp ?_
  refine fun r t ht => ⟨fun _ => hP _ _ ht, fun _ _ => hP _ _ ht, fun _ _ => hP _ _ ?_⟩
  exact handled_of_hist hP _ (hP _ _ ht)

/-- It need only hold once the attempt is recorded. -/
lemma actionTryCommit_grows (ms : List μ) (hw : P (.tryCommit w.actState :: w.hist)) :
    Wp (actionTryCommit env act fuel ms) (fun _ t => P t.hist) (fun t => P t.hist) w := by
  rw [wp_actionTryCommit]
  refine (actionPrepare_keeps env act fuel (stablePrep_of_hist fun _ => hP) _ hw).imp ?_
  refine fun r t ht => ⟨fun _ => ht, fun _ => ?_⟩
  have hrest (r : RsRet) (u : Wrkr μ) (hu : P u.hist) :
      (r ≠ .ok → P u.hist) ∧
      (r = .ok → u.actState = .itx →
        Wp (tryCommitEnd env) (fun _ t => P t.hist) (fun t => P t.hist) u) ∧
      (r = .ok → u.actState ≠ .itx → P u.readCode.hist) := by
    refine ⟨fun _ => hu, fun _ _ => ?_, fun _ _ => hu⟩
    rw [wp_tryCommitEnd]
    exact ended_of_hist hP _ hu
  rw [wp_doTransaction]
  refine ⟨fun _ => hrest _ _ (handled_of_hist hP _ (hP _ _ ht)), fun _ => ?_⟩
  refine (doTransactionLoop_keeps (fun m _ => actionProcessMessage_of_hist hP m) ?_ fuel .ok t
    ht).imp ?_
  · exact fun w hw => hP _ _ hw
  · exact fun r u hu => hrest _ u hu

lemma actionTryCommit_of_hist (ms : List μ) :
    Keeps (fun w => P w.hist) (actionTryCommit env act fuel ms) :=
  fun _ hw => actionTryCommit_grows hP ms (hP _ _ hw)

/-- **What stays true when the history grows** survives the whole engine. -/
lemma kept_of_hist : Kept env act fuel fun w => P w.hist where
  mark _ _ _ := hP _ _
  prepare := actionPrepare_keeps env act fuel (stablePrep_of_hist fun _ => hP)
  doRetry := doRetryLoop_keeps env act (stablePrep_of_hist fun _ => hP).toStable fuel 0 .ok
  process := actionProcessMessage_of_hist hP
  tryCommit := actionTryCommit_of_hist hP

end Grows

/-! ## The interface of a module -/

/-- The codes by which a message is part of a transaction. -/
def RsRet.isDeferral : RsRet → Bool
  | .deferCommit | .previousCommitted => true
  | _ => false

lemma RsRet.expected_eq_ok {r : RsRet} : r.expected = .ok ↔ r = .ok ∨ r.isDeferral = true := by
  cases r <;> simp [RsRet.expected, RsRet.isDeferral]

/-- Only `doAction` and `commitTransaction` may return such a code. -/
def Event.isProper : Event μ → Bool
  | .call (.doAction _) _ | .call (.commitTransaction _) _ => true
  | .call _ r => !r.isDeferral
  | _ => true

/-- The module has kept to its interface. -/
def Proper (h : Hist μ) : Prop := ∀ e ∈ h, e.isProper = true
deriving Decidable

lemma Proper.of_cons {e : Event μ} {h : Hist μ} (hp : Proper (e :: h)) : Proper h :=
  fun e he => hp e (List.mem_cons_of_mem _ he)

/-- The calls that pass messages. -/
def Call.isPassing : Call μ → Bool
  | .doAction _ | .commitTransaction _ => true
  | _ => false

/-- What is known of the codes of a preparation. `K` is what the history is taken to be like, `L`
says from when on, and `G` what then holds of a code and the state that it comes with. -/
structure Answers (K L : Hist μ → Prop) (G : RsRet → ActState → Prop) : Prop where
  of_cons : ∀ e h, K (e :: h) → K h
  later : ∀ e h, L h → L (e :: h)
  ok : ∀ st, st ≠ .susp → st ≠ .dataFail → G .ok st
  suspended : ∀ st, G .suspended st
  forceTerm : ∀ st, G .forceTerm st
  call : ∀ c r h st, Call.isPassing c = false → r ≠ .ok → L h → K (.call c r :: h) → G r st
  notDue : ∀ h, L h → K (.retryDue false :: h) → G .ok .susp

namespace Answers

variable {K L : Hist μ → Prop} {G : RsRet → ActState → Prop} (h : Answers K L G)

include h

lemma retryLoop {resume : Act μ RsRet} (hresume : ∀ w, L w.hist → Wp resume
      (fun r u => L u.hist ∧ (r ≠ .ok → K u.hist → ∀ st, G r st)) (fun _ => True) w)
    (n : ℕ) (j : ℤ) {iRet : RsRet} (hL : L w.hist) (hw : K w.hist → G iRet w.actState) :
    Wp (retryLoop env act resume n j iRet) (fun r t => L t.hist ∧ (K t.hist → G r t.actState))
      (fun _ => True) w := by
  induction n generalizing w j iRet with
  | zero => trivial
  | succ n ih =>
    rw [wp_retryLoop_succ]
    refine ⟨fun _ => ⟨h.later _ _ hL, fun hk => hw (h.of_cons _ _ hk)⟩, fun _ _ => ?_⟩
    refine (hresume _ (h.later _ _ hL)).imp ?_
    rintro r u ⟨hLu, hother⟩
    refine ⟨fun _ => ih j (h.later _ _ hLu) fun _ => h.ok _ (by simp) (by simp), fun _ =>
      ⟨fun _ => ih j (h.later _ _ hLu) fun _ => h.suspended _,
        fun _ _ => ⟨h.later _ _ (h.later _ _ hLu), fun _ => h.forceTerm _⟩,
        fun _ _ => ih _ (h.later _ _ (h.later _ _ hLu)) fun _ => h.suspended _⟩, ?_, ?_⟩
    · exact fun hr => ih j hLu fun hk => hother (by simp [hr]) hk _
    · exact fun hok _ _ => ih j hLu fun hk => hother hok hk _

/-- An answer other than OK is the one that the module gave, or SUSPENDED. -/
lemma callTryResume (w : Wrkr μ) (hL : L w.hist) :
    Wp (callTryResume env) (fun r u => L u.hist ∧ (r ≠ .ok → K u.hist → ∀ st, G r st))
      (fun _ => True) w := by
  rw [wp_callTryResume, Wrkr.tried_hist]
  generalize env.ret .tryResume _ = ret
  refine ⟨h.later _ _ hL, fun hne hk st => ?_⟩
  by_cases hd : w.Distrusts
  · simpa only [if_pos hd] using h.suspended st
  · rw [if_neg hd] at hne ⊢
    exact h.call _ _ _ st rfl hne hL hk

lemma checkExternalStateFile (w : Wrkr μ) (hL : L w.hist) :
    Wp (checkExternalStateFile env act)
      (fun r u => L u.hist ∧ (r ≠ .ok → K u.hist → ∀ st, G r st)) (fun _ => True) w := by
  rw [wp_checkExternalStateFile]
  exact ⟨fun _ => ⟨hL, by simp⟩, fun _ => ⟨fun _ => ⟨h.later _ _ (h.later _ _ hL),
    fun _ _ => h.suspended⟩, fun _ => ⟨h.later _ _ hL, by simp⟩⟩⟩

lemma prepareReady (hL : L w.hist) :
    Wp (prepareReady env act fuel) (fun r t => K t.hist → G r t.actState) (fun _ => True) w := by
  have hbegin (u : Wrkr μ) (hu : L u.hist) :
      Wp (prepareBegin env act) (fun r t => K t.hist → G r t.actState) (fun _ => True) u := by
    rw [wp_prepareBegin]
    cases beginCode env act u with
    | ok => exact fun _ => h.ok _ (by simp [Wrkr.begun]) (by simp [Wrkr.begun])
    | suspended => exact fun _ => h.suspended _
    | _ => exact h.call .beginTransaction _ _ _ rfl (by simp) hu
  rw [wp_prepareReady, wp_checkExternalStateFile]
  refine ⟨fun _ => ⟨by simp, fun _ => hbegin w hL⟩, fun _ => ⟨fun _ => ⟨fun _ => ?_, by simp⟩,
    fun _ => ⟨by simp, fun _ => hbegin _ (h.later _ _ hL)⟩⟩⟩
  refine (h.retryLoop h.checkExternalStateFile fuel 0 (h.later _ _ (h.later _ _ hL))
    fun _ => h.ok _ (by simp) (by simp)).imp ?_
  rintro r u ⟨hu, hG⟩
  exact ⟨fun _ => hG, fun _ => hbegin u hu⟩

lemma actionPrepare (hL : L w.hist) (hw : w.actState = .dataFail → K w.hist → G .ok .dataFail) :
    Wp (actionPrepare env act fuel) (fun r t => K t.hist → G r t.actState) (fun _ => True) w := by
  by_cases hcr : w.actWrkrData = true
  · have hretry (u : Wrkr μ) (hu : L u.hist) (hst : u.actState = .rtry) :
        Wp (actionDoRetry env act fuel) (fun r t => (r ≠ .ok → K t.hist → G r t.actState) ∧
          (r = .ok → t.actState ≠ .rdy → K t.hist → G .ok t.actState) ∧
          (r = .ok → t.actState = .rdy → Wp (Action.prepareReady env act fuel)
            (fun r t => K t.hist → G r t.actState) (fun _ => True) t)) (fun _ => True) u := by
      have hstart : K u.hist → G .ok u.actState := fun _ => h.ok _ (by simp [hst]) (by simp [hst])
      refine (h.retryLoop h.callTryResume fuel 0 hu hstart).imp ?_
      rintro r t ⟨hLt, ht⟩
      exact ⟨fun _ => ht, fun hr _ => hr ▸ ht, fun _ _ => h.prepareReady hLt⟩
    rw [wp_actionPrepare hcr, wp_actionTryResume]
    refine ⟨fun hst => hretry _ hL hst, fun _ _ => hretry _ (h.later _ _ (h.later _ _ hL)) rfl,
      fun hst _ => ?_, fun hrtry hsusp => ?_⟩
    · refine ⟨fun hr => absurd rfl hr, fun _ _ hk => ?_, fun _ hrdy => by simp [hst] at hrdy⟩
      exact hst ▸ h.notDue _ hL hk
    · refine ⟨fun hr => absurd rfl hr, fun _ _ hk => ?_, fun _ _ => h.prepareReady hL⟩
      by_cases hfail : w.actState = .dataFail
      · exact hfail ▸ hw hfail hk
      · exact h.ok _ hsusp hfail
  · rw [wp_actionPrepare_create (by simpa using hcr)]
    exact ⟨fun hr => h.call .createWrkrInstance _ _ _ rfl hr hL,
      fun _ => h.prepareReady (h.later _ _ (h.later _ _ hL))⟩

end Answers

/-- Of a proper module, no preparation returns a deferral. -/
lemma answers_proper : Answers (μ := μ) Proper (fun _ => True) fun r _ => r.isDeferral = false where
  of_cons _ _ := Proper.of_cons
  later _ _ := id
  ok _ _ _ := rfl
  suspended _ := rfl
  forceTerm _ := rfl
  call c r h st hc _ _ hp := by
    have hproper := hp _ List.mem_cons_self
    cases c <;> simp_all [Event.isProper, Call.isPassing]
  notDue _ _ _ := rfl

/-- With OK, the instance is there and the action is not merely ready. -/
lemma actionPrepare_ok :
    Wp (actionPrepare env act fuel) (fun r t => r = .ok → t.actWrkrData = true ∧ t.actState ≠ .rdy)
      (fun _ => True) w := by
  have hready (u : Wrkr μ) (hcr : u.actWrkrData = true) : Wp (prepareReady env act fuel)
      (fun r t => r = .ok → t.actWrkrData = true ∧ t.actState ≠ .rdy) (fun _ => True) u := by
    refine ((prepareReady_keeps env act fuel stablePrep_created u hcr).and prepareReady_itx).mono ?_
      fun _ _ => trivial
    exact fun r t ht hr => ⟨ht.1, by simp [ht.2 hr]⟩
  by_cases hcr : w.actWrkrData = true
  · rw [wp_actionPrepare hcr]
    refine (actionTryResume_keeps env act fuel stablePrep_created.toStable w hcr).mono ?_
      fun _ _ => trivial
    exact fun r t ht => ⟨fun hr h => absurd h hr, fun _ hst _ => ⟨ht, hst⟩, fun _ _ => hready t ht⟩
  · rw [wp_actionPrepare_create (by simpa using hcr)]
    exact ⟨fun hr h => absurd h hr, fun _ => hready _ rfl⟩

/-- Of a proper module, `endTransaction` counts as OK only if it returned OK. -/
lemma Wrkr.endCode_ok {ret : RsRet} (hst : w.actState = .itx) (hr : w.endCode ret = .ok)
    (hp : Proper (w.ended ret).hist) : ret = .ok := by
  have himproper (r : RsRet) (hd : r.isDeferral = true)
      (hp : Proper (.state .rdy :: .call .endTransaction r :: w.hist)) : False := by
    have hcall := hp (.call .endTransaction r) (by simp)
    simp [Event.isProper, hd] at hcall
  cases ret with
  | ok => rfl
  | deferCommit => exact (himproper .deferCommit rfl hp).elim
  | previousCommitted => exact (himproper .previousCommitted rfl hp).elim
  | disableAction => exact absurd (Wrkr.returnCode_eq_ok.mp hr) (by simp [hst])
  | _ => exact hr

/-! ## The loop of `doTransaction` -/

/-- The marks that are made on the way of a message. -/
def Event.IsNote : Event μ → Prop
  | .sleep | .processing _ | .processed _ _ _ => True
  | _ => False

/-- The codes of `doAction` with which a message is passed. -/
def RsRet.isTaken : RsRet → Bool
  | .ok | .deferCommit | .previousCommitted | .disableAction => true
  | _ => false

lemma ActState.next_eq_rtry {ret : RsRet} : ActState.next .itx ret = .rtry ↔ ret = .suspended := by
  cases ret <;> simp [ActState.next]

lemma RsRet.isTaken_iff {ret : RsRet} :
    ret.isTaken = true ↔ ActState.next .itx ret = .rdy ∨ ActState.next .itx ret = .itx := by
  cases ret <;> simp [ActState.next, RsRet.isTaken]

lemma Wrkr.returnCode_passed :
    w.returnCode = .ok ∨ w.returnCode.isDeferral = true ↔
      w.actState = .rdy ∨ w.actState = .itx := by
  unfold Wrkr.returnCode
  cases w.actState <;> cases w.bHadAutoCommit <;> simp [RsRet.isDeferral]

/-- `I ms` holds while the messages `ms` are still to be passed: it may be given up when the module
does not keep to its interface, it survives a preparation outside a transaction, and it follows the
answers of `doAction`. -/
structure Passing (env : Env μ) (act : ActConf) (fuel : ℕ) (I : List μ → Wrkr μ → Prop) : Prop where
  improper : ∀ ms w, ¬Proper w.hist → I ms w
  note : ∀ ms w e, Event.IsNote e → I ms w → I ms (w.push e)
  readCode : ∀ ms w, I ms w → I ms w.readCode
  prepare : ∀ ms w, w.actState ≠ .itx → I ms w →
    Wp (actionPrepare env act fuel) (fun _ => I ms) (fun _ => True) w
  taken : ∀ m ms w ret, w.actState = .itx → RsRet.isTaken ret = true → I (m :: ms) w →
    I ms (w.offered m ret)
  refused : ∀ m ms w, w.actState = .itx → I (m :: ms) w → I (m :: ms) (w.offered m .suspended)

namespace Passing

variable {I : List μ → Wrkr μ → Prop} (h : Passing env act fuel I)

include h

lemma actionPrepare (ms : List μ) (hcr : w.actWrkrData = true) (hw : I ms w) :
    Wp (actionPrepare env act fuel)
      (fun r t => I ms t ∧ t.actWrkrData = true ∧ (r = .ok → t.actState ≠ .rdy) ∧
        (Proper t.hist → r.isDeferral = false)) (fun _ => True) w := by
  by_cases hst : w.actState = .itx
  · rw [wp_actionPrepare_idle (.inl hst) hcr]
    exact ⟨hw, hcr, fun _ => by simp [hst], fun _ => rfl⟩
  · have hcreated := actionPrepare_keeps env act fuel stablePrep_created w hcr
    refine ((h.prepare ms w hst hw).and (hcreated.and (actionPrepare_ok.and
      (answers_proper.actionPrepare trivial fun _ _ => rfl)))).mono ?_ fun _ _ => trivial
    exact fun r t ht => ⟨ht.1, ht.2.1, fun hr => (ht.2.2.1 hr).2, ht.2.2.2⟩

/-- After SUSPENDED the message is still to be passed, after a code as above it is not. -/
lemma actionProcessMessage (m : μ) (ms : List μ) (hcr : w.actWrkrData = true) (hw : I (m :: ms) w) :
    Wp (actionProcessMessage env act fuel m)
      (fun r t => t.actWrkrData = true ∧ (r = .suspended → I (m :: ms) t) ∧
        (r = .ok ∨ r.isDeferral = true → I ms t)) (fun _ => True) w := by
  rw [wp_actionProcessMessage, wp_processMessage]
  refine (h.actionPrepare (m :: ms) (w := w.push (.processing m)) hcr
    (h.note _ _ _ trivial hw)).imp ?_
  rintro r t ⟨ht, hcr, hrdy, hanswered⟩
  have hnote {ms : List μ} {u : Wrkr μ} (hu : I ms u) :
      I ms (u.push (.processed m u.actState u.bDisabled)) := h.note _ _ _ trivial hu
  refine ⟨fun hr => ⟨hcr, fun _ => hnote ht, ?_⟩, fun hr hst => ⟨hcr, fun _ => ?_, ?_⟩, ?_⟩
  · rintro (hok | hdefer)
    · exact absurd hok hr
    · exact h.improper _ _ fun hp => by simp [hanswered hp.of_cons] at hdefer
  · exact hnote (h.readCode _ _ ht)
  · rw [Wrkr.returnCode_passed]
    rintro (hst' | hst')
    · exact absurd hst' (hrdy hr)
    · exact absurd hst' hst
  · intro _ hst
    refine ⟨by simpa using hcr, fun hcode => ?_, fun hcode => ?_⟩
    · rw [Wrkr.returnCode_eq_suspended, Wrkr.offered_actState, hst, ActState.next_eq_rtry] at hcode
      rw [hcode]
      exact hnote (h.readCode _ _ (h.refused m ms t hst ht))
    · rw [Wrkr.returnCode_passed, Wrkr.offered_actState, hst, ← RsRet.isTaken_iff] at hcode
      exact hnote (h.readCode _ _ (h.taken m ms t _ hst hcode ht))

/-- **The loop** that ends with OK has passed all messages. -/
lemma doTransactionLoop (n : ℕ) (ms : List μ) (iRet : RsRet) (hcr : w.actWrkrData = true)
    (hw : I ms w) :
    Wp (doTransactionLoop env act fuel n ms iRet) (fun r t => r.expected = .ok → I [] t)
      (fun _ => True) w := by
  induction n generalizing w ms iRet with
  | zero => cases ms with
    | nil => exact fun _ => hw
    | cons m ms => trivial
  | succ n ih => cases ms with
    | nil => exact fun _ => hw
    | cons m ms =>
      rw [wp_doTransactionLoop_cons]
      refine (h.actionProcessMessage m ms hcr hw).imp ?_
      rintro r t ⟨hcr, hagain, hpassed⟩
      refine ⟨fun hr => ?_, fun _ hne hr => absurd hr hne, fun hr => ?_⟩
      · exact ih (m :: ms) r hcr (h.note _ _ _ trivial (hagain hr))
      · exact ih ms r hcr (hpassed (RsRet.expected_eq_ok.mp hr))

end Passing

end Rsyslog.Action
