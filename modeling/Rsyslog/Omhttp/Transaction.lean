import Rsyslog.Action.Stable
import Rsyslog.Omhttp.Batch

/-!
# omhttp under the action engine

Here omhttp is the module of the engine: it answers from the state that the calls so far have left
it in (`replay`).

`delivered_iff` says for which messages every one of them reaches its path.
-/

namespace Rsyslog.Omhttp

open Lib
open Rsyslog.Action hiding beginTransaction

/-! ## The module -/

section

variable (pData : InstanceData)

def replay : Hist Msg → WrkrInstance
  | [] => ⟨.empty, []⟩
  | .call .beginTransaction _ :: h => beginTransaction pData (replay h)
  | .call (.doAction m) _ :: h => (doAction pData up (replay h) m).2
  | .call .endTransaction _ :: h => (endTransaction pData up (replay h)).2
  | _ :: h => replay h

def omhttp (world : Env Msg) : Env Msg :=
  { world with ret := fun
    | .doAction m, h => (doAction pData up (replay pData h) m).1
    | _, _ => .ok }

/-- An action of omhttp: the module has `beginTransaction`, and no `commitTransaction`. -/
def actConf (iResumeRetryCount : ℤ) : ActConf := ⟨true, false, iResumeRetryCount, false⟩

end

/-! ## The action prepared -/

section Run

variable {pData : InstanceData} {world : Env Msg} {n : ℤ} {fuel : ℕ} {w : Wrkr Msg}
  {s : WrkrInstance} {ms : List Msg}

/-- The action is in a transaction, with omhttp in state `s`. -/
structure InTx (pData : InstanceData) (s : WrkrInstance) (w : Wrkr Msg) : Prop where
  created : w.actWrkrData = true
  itx : w.actState = .itx
  replay : replay pData w.hist = s

/-- The action is ready, with omhttp in state `s`. -/
structure Ready (pData : InstanceData) (s : WrkrInstance) (w : Wrkr Msg) : Prop where
  rdy : w.actState = .rdy
  replay : replay pData w.hist = s

/-- The next message finds omhttp in state `s`. -/
def Open (pData : InstanceData) (s : WrkrInstance) (w : Wrkr Msg) : Prop :=
  InTx pData s w ∨ ∃ s₀, Ready pData s₀ w ∧ beginTransaction pData s₀ = s

/-- The action has failed for good, with omhttp in state `s`. -/
structure Stuck (pData : InstanceData) (s : WrkrInstance) (w : Wrkr Msg) : Prop where
  created : w.actWrkrData = true
  dataFail : w.actState = .dataFail
  replay : replay pData w.hist = s

lemma Open.push {e : Event Msg} (hw : Open pData s w)
    (he : replay pData (e :: w.hist) = replay pData w.hist) : Open pData s (w.push e) :=
  hw.imp (fun h => ⟨h.1, h.2, he.trans h.3⟩) fun ⟨s₀, h, hs⟩ => ⟨s₀, ⟨h.1, he.trans h.2⟩, hs⟩

lemma Open.ne_susp (hw : Open pData s w) : w.actState ≠ .susp := by
  rcases hw with hin | ⟨s₀, hr, -⟩
  · simp [hin.itx]
  · simp [hr.rdy]

lemma Open.posts (hw : Open pData s w) : (replay pData w.hist).posts = s.posts := by
  rcases hw with hin | ⟨s₀, hr, rfl⟩
  · rw [hin.replay]
  · rw [hr.replay, beginTransaction]
    by_cases hbatch : pData.batchMode = true <;> simp [hbatch, initializeBatch]

lemma prepareReady_inTx {s₀ : WrkrInstance} (hcr : w.actWrkrData = true)
    (hw : replay pData w.hist = s₀) :
    Wp (prepareReady (omhttp pData world) (actConf n) fuel)
      (fun r t => r = .ok ∧ InTx pData (beginTransaction pData s₀) t ∧ t.iparams = w.iparams)
      (fun _ => False) w := by
  rw [wp_prepareReady, wp_checkExternalStateFile]
  refine ⟨fun _ => ⟨by simp, fun _ => ?_⟩, by simp [actConf]⟩
  exact ⟨rfl, ⟨hcr, rfl, congrArg (beginTransaction pData) hw⟩, rfl⟩

lemma actionPrepare_inTx (hw : Open pData s w) :
    Wp (actionPrepare (omhttp pData world) (actConf n) fuel)
      (fun r t => r = .ok ∧ InTx pData s t ∧ t.iparams = w.iparams) (fun _ => False) w := by
  rcases hw with hin | ⟨s₀, ⟨hst, hreplay⟩, rfl⟩
  · rw [wp_actionPrepare_idle (.inl hin.itx) hin.created]
    exact ⟨rfl, hin, rfl⟩
  · cases hcr : w.actWrkrData with
    | true =>
      rw [wp_actionPrepare hcr, wp_actionTryResume]
      simpa [hst] using prepareReady_inTx hcr hreplay
    | false =>
      rw [wp_actionPrepare_create hcr]
      exact ⟨fun h => absurd rfl h, fun _ => prepareReady_inTx rfl hreplay⟩

/-! ## Messages -/

variable {m : Msg}

lemma actionProcessMessage_open {Q : RsRet → Wrkr Msg → Prop} (hw : Open pData s w)
    (hQ : ∀ t, InTx pData s t →
      let u := t.offered m (doAction pData up s m).1
      replay pData u.hist = (doAction pData up s m).2 → u.actWrkrData = true →
        Q u.returnCode (u.readCode.push (.processed m u.actState u.bDisabled))) :
    Wp (actionProcessMessage (omhttp pData world) (actConf n) fuel m) Q (fun _ => False) w := by
  rw [wp_actionProcessMessage, wp_processMessage]
  refine (actionPrepare_inTx (hw.push rfl)).imp ?_
  rintro r t ⟨rfl, ht, -⟩
  refine ⟨by simp, fun _ h => absurd ht.itx h, fun _ _ => ?_⟩
  obtain ⟨hcr, hst, rfl⟩ := ht
  refine hQ t ⟨hcr, hst, rfl⟩ ?_ ((Wrkr.offered_actWrkrData m _).trans hcr)
  cases (doAction pData up (replay pData t.hist) m).1 <;> rfl

/-- omhttp takes the message in state `s`, and the next one finds it in the other state. -/
inductive Takes (pData : InstanceData) (s : WrkrInstance) (m : Msg) : WrkrInstance → Prop
  | ends : (doAction pData up s m).1 = .ok →
    Takes pData s m (beginTransaction pData (doAction pData up s m).2)
  | defers :
    (doAction pData up s m).1 = .previousCommitted ∨ (doAction pData up s m).1 = .deferCommit →
    Takes pData s m (doAction pData up s m).2

lemma actionProcessMessage_takes {s' : WrkrInstance} (hw : Open pData s w)
    (hm : Takes pData s m s') :
    Wp (actionProcessMessage (omhttp pData world) (actConf n) fuel m)
      (fun r t => (r = .ok ∨ r = .previousCommitted ∨ r = .deferCommit) ∧ Open pData s' t)
      (fun _ => False) w := by
  refine actionProcessMessage_open hw ?_
  intro t ht u hreplay hcr
  cases hm with
  | ends hret =>
    have hst : u.actState = .rdy := by simp [u, hret, ActState.next]
    exact ⟨.inl (Wrkr.returnCode_eq_ok.mpr hst), .inr ⟨_, ⟨hst, hreplay⟩, rfl⟩⟩
  | defers hret =>
    have hst : u.actState = .itx := by
      rcases hret with h | h <;> simp [u, h, ActState.next, ht.itx]
    refine ⟨.inr ?_, .inl ⟨hcr, hst, hreplay⟩⟩
    by_cases hauto : u.bHadAutoCommit = true <;> simp [Wrkr.returnCode, hst, hauto]

lemma actionProcessMessage_fails {code : ℤ} (hw : Open pData s w)
    (hret : (doAction pData up s m).1 = .err code) :
    Wp (actionProcessMessage (omhttp pData world) (actConf n) fuel m)
      (fun r t => r = .dataFail ∧ Stuck pData (doAction pData up s m).2 t) (fun _ => False) w := by
  refine actionProcessMessage_open hw ?_
  intro t ht u hreplay hcr
  have hst : u.actState = .dataFail := by simp [u, hret, ActState.next]
  exact ⟨by simp [Wrkr.returnCode, hst], hcr, hst, hreplay⟩

/-! ## Transactions -/

lemma actionTryCommit_open {Q : RsRet → Wrkr Msg → Prop} (hw : Open pData s w)
    (hQ : ∀ t, InTx pData s t →
      Wp (doTransactionLoop (omhttp pData world) (actConf n) fuel fuel ms .ok)
        (fun r u => (r.expected ≠ .ok → Q r.expected u) ∧
          (r.expected = .ok → u.actState = .itx → Wp (tryCommitEnd (omhttp pData world)) Q
            (fun _ => False) u) ∧
          (r.expected = .ok → u.actState ≠ .itx → Q u.returnCode u.readCode))
        (fun _ => False) t) :
    Wp (actionTryCommit (omhttp pData world) (actConf n) fuel ms) Q (fun _ => False) w := by
  rw [wp_actionTryCommit]
  refine (actionPrepare_inTx (hw.push rfl)).imp ?_
  rintro r t ⟨rfl, ht, -⟩
  refine ⟨by simp, fun _ => ?_⟩
  rw [wp_doTransaction]
  exact ⟨by simp [actConf], fun _ => hQ t ht⟩

section Taken

variable {I : List Msg → WrkrInstance → Prop}
  (hI : ∀ m ms s, I (m :: ms) s → ∃ s', Takes pData s m s' ∧ I ms s')

include hI

/-- All messages are taken. `I` relates those that are left to the state that they find. -/
lemma doTransactionLoop_takes {k : ℕ} (hk : ms.length ≤ k) {r : RsRet} (hr : r.expected = .ok)
    (hs : I ms s) (hw : Open pData s w) :
    Wp (doTransactionLoop (omhttp pData world) (actConf n) fuel k ms r)
      (fun r t => r.expected = .ok ∧ ∃ u, I [] u ∧ Open pData u t) (fun _ => False) w := by
  induction ms generalizing w s k r with
  | nil =>
    rw [doTransactionLoop]
    exact ⟨hr, s, hs, hw⟩
  | cons m ms ih =>
    obtain ⟨k, rfl⟩ := Nat.exists_eq_add_one.mpr (Nat.lt_of_lt_of_le (Nat.zero_lt_succ _) hk)
    obtain ⟨s', hm, hs'⟩ := hI m ms s hs
    rw [wp_doTransactionLoop_cons]
    refine (actionProcessMessage_takes hw hm).imp ?_
    rintro r t ⟨hr, ht⟩
    have hexp : r.expected = .ok := by rcases hr with rfl | rfl | rfl <;> rfl
    refine ⟨fun h => ?_, fun _ h => absurd hexp h, fun _ => ?_⟩
    · rcases hr with hr | hr | hr <;> simp [hr] at h
    · exact ih (Nat.le_of_succ_le_succ hk) hexp hs' ht

lemma actionTryCommit_takes (hbatch : pData.batchMode = true) (hfuel : ms.length ≤ fuel)
    (hs : I ms s) (hw : Open pData s w) :
    Wp (actionTryCommit (omhttp pData world) (actConf n) fuel ms)
      (fun r t => r = .ok ∧
        ∃ u, I [] u ∧ (replay pData t.hist).posts = (endTransaction pData up u).2.posts)
      (fun _ => False) w := by
  refine actionTryCommit_open hw fun t ht => ?_
  refine (doTransactionLoop_takes hI hfuel rfl hs (.inl ht)).imp ?_
  rintro r v ⟨hr, u, hu, hv⟩
  rw [hr]
  rcases hv with hin | ⟨s₀, hready, rfl⟩
  · refine ⟨by simp, fun _ _ => ⟨rfl, u, hu, ?_⟩, fun _ h => absurd hin.itx h⟩
    rw [← hin.replay]
    rfl
  · refine ⟨by simp, fun _ h => by simp [hready.rdy] at h, fun _ _ =>
      ⟨Wrkr.returnCode_eq_ok.mpr hready.rdy, _, hu, ?_⟩⟩
    -- nothing is left in the batch of the next transaction
    rw [← hready.replay]
    simp [beginTransaction, hbatch, initializeBatch, endTransaction, Batch.empty, Batch.nmemb,
      Wrkr.readCode]

/-- **A commit** posts what all messages have left to be posted. -/
theorem actionCommit_takes (hbatch : pData.batchMode = true) (hfuel : ms.length ≤ fuel)
    (hms : ms ≠ []) (hparams : w.iparams = ms) (hs : I ms s) (hw : Open pData s w) :
    Wp (actionCommit (omhttp pData world) (actConf n) fuel)
      (fun _ t => ∃ u, I [] u ∧ (replay pData t.hist).posts = (endTransaction pData up u).2.posts)
      (fun _ => False) w := by
  rw [wp_actionCommit, hparams]
  refine ⟨by simp [actConf, hms], fun _ _ h => absurd h hw.ne_susp, fun _ _ _ => ?_⟩
  refine (actionTryCommit_takes hI hbatch hfuel hs (hw.push rfl)).imp ?_
  rintro r t ⟨rfl, ht⟩
  exact ⟨fun _ => ht, by simp⟩

end Taken

section Refused

lemma doTransactionLoop_fails {r : RsRet} {k : ℕ} (hk : 0 < k) {P : Wrkr Msg → Prop}
    (h : Wp (actionProcessMessage (omhttp pData world) (actConf n) fuel m)
      (fun r t => r = .dataFail ∧ P t) (fun _ => False) w) :
    Wp (doTransactionLoop (omhttp pData world) (actConf n) fuel k (m :: ms) r)
      (fun r t => r = .dataFail ∧ P t) (fun _ => False) w := by
  obtain ⟨k, rfl⟩ := Nat.exists_eq_add_one.mpr hk
  rw [wp_doTransactionLoop_cons]
  refine h.imp ?_
  rintro r t ⟨rfl, ht⟩
  exact ⟨by simp, fun _ _ => ⟨rfl, ht⟩, fun h => absurd h (by decide)⟩

lemma actionProcessMessage_stuck (hw : Stuck pData s w) :
    Wp (actionProcessMessage (omhttp pData world) (actConf n) fuel m)
      (fun r t => r = .dataFail ∧ Stuck pData s t) (fun _ => False) w := by
  obtain ⟨hcr, hst, hreplay⟩ := hw
  have hst' : (w.push (.processing m)).actState = .dataFail := hst
  rw [wp_actionProcessMessage, wp_processMessage, wp_actionPrepare_idle (.inr hst') hcr]
  refine ⟨by simp, fun _ _ => ⟨?_, hcr, hst, hreplay⟩, fun _ h => ?_⟩
  · rw [Wrkr.returnCode, hst']
  · simp [hst] at h

lemma actionTryCommit_stuck (hfuel : 0 < fuel) (hw : Stuck pData s w) :
    Wp (actionTryCommit (omhttp pData world) (actConf n) fuel (m :: ms))
      (fun r t => r = .dataFail ∧ Stuck pData s t) (fun _ => False) w := by
  have hst : (w.push (.tryCommit w.actState)).actState = .dataFail := hw.dataFail
  rw [wp_actionTryCommit, wp_actionPrepare_idle (.inr hst) hw.created]
  refine ⟨by simp, fun _ => ?_⟩
  rw [wp_doTransaction]
  refine ⟨by simp [actConf], fun _ => ?_⟩
  have hstuck : Stuck pData s (w.push (.tryCommit w.actState)) := ⟨hw.1, hw.2, hw.3⟩
  refine (doTransactionLoop_fails hfuel (actionProcessMessage_stuck hstuck)).imp ?_
  rintro r t ⟨rfl, ht⟩
  exact ⟨fun _ => ⟨rfl, ht⟩, by simp [RsRet.expected], by simp [RsRet.expected]⟩

lemma removeHardErrors_stuck (hfuel : 0 < fuel) (hw : Stuck pData s w) :
    Wp (actionTryRemoveHardErrorsFromBatch (omhttp pData world) (actConf n) fuel ms)
      (fun left t => left = [] ∧ Stuck pData s t) (fun _ => False) w := by
  induction ms generalizing w with
  | nil => exact ⟨rfl, hw⟩
  | cons m ms ih =>
    rw [wp_removeHardErrors_cons]
    have hstuck : Stuck pData s (w.setInRow 0) := ⟨hw.1, hw.2, hw.3⟩
    refine (actionTryCommit_stuck hfuel hstuck).imp ?_
    rintro r t ⟨rfl, ht⟩
    have ht' : Stuck pData s (t.push (.errorFile .dataFail [m])) := ⟨ht.1, ht.2, ht.3⟩
    exact ⟨by simp, fun _ _ => ih ht', by simp⟩

lemma actionCommit_refused {code : ℤ} (hfuel : 0 < fuel)
    (hret : (doAction pData up s m).1 = .err code) (hw : Open pData s w)
    (hparams : w.iparams = m :: ms) :
    Wp (actionCommit (omhttp pData world) (actConf n) fuel)
      (fun _ t => replay pData t.hist = (doAction pData up s m).2) (fun _ => False) w := by
  have hattempt : Wp (actionTryCommit (omhttp pData world) (actConf n) fuel (m :: ms))
      (fun r t => r = .dataFail ∧ Stuck pData (doAction pData up s m).2 t) (fun _ => False)
      (w.push (.commit (m :: ms))) := by
    refine actionTryCommit_open (hw.push rfl) fun t ht => ?_
    refine (doTransactionLoop_fails hfuel (actionProcessMessage_fails (.inl ht) hret)).imp ?_
    rintro r u ⟨rfl, hu⟩
    exact ⟨fun _ => ⟨rfl, hu⟩, by simp [RsRet.expected], by simp [RsRet.expected]⟩
  rw [wp_actionCommit, hparams]
  refine ⟨by simp [actConf], fun _ _ h => absurd h hw.ne_susp, fun _ _ _ => hattempt.imp ?_⟩
  rintro r t ⟨rfl, ht⟩
  refine ⟨by simp, fun _ => ⟨fun _ => ⟨fun _ => ht.replay, by simp⟩, fun _ => ?_⟩⟩
  refine (removeHardErrors_stuck hfuel ht).imp ?_
  rintro left u ⟨rfl, hu⟩
  exact ⟨fun _ => hu.replay, by simp⟩

end Refused

/-! ## The run -/

theorem processMsg_open (hw : Open pData s w) :
    Wp (perform (omhttp pData world) (actConf n) fuel (.processMsg false m))
      (fun _ t => Open pData s t ∧ t.iparams = w.iparams ++ [m]) (fun _ => False) w := by
  have hw' : Open pData s (w.setParams (w.iparams ++ [m])) :=
    hw.imp (fun h => ⟨h.1, h.2, h.3⟩) fun ⟨s₀, h, hs⟩ => ⟨s₀, ⟨h.1, h.2⟩, hs⟩
  rw [perform, wp_processMsgMain rfl]
  refine (actionPrepare_inTx hw').imp ?_
  rintro r t ⟨-, ht, hparams⟩
  exact ⟨fun h => absurd h.2 (by simp), fun _ => ⟨.inl ⟨ht.1, ht.2, ht.3⟩, hparams⟩⟩

lemma processMsgs_open (hw : Open pData s w) :
    Wp (performAll (omhttp pData world) (actConf n) fuel (ms.map (.processMsg false)))
      (fun _ t => Open pData s t ∧ t.iparams = w.iparams ++ ms) (fun _ => False) w := by
  induction ms generalizing w with
  | nil => exact ⟨hw, by simp⟩
  | cons m ms ih =>
    rw [List.map_cons, performAll, wp_bind]
    refine (processMsg_open hw).imp ?_
    rintro r t ⟨ht, hparams⟩
    simpa [hparams] using ih ht

/-- A ready worker is handed the messages and commits them. Each message is sent once, in a request
to its path, exactly if a batch is a single message, or every message that starts a new batch is
followed by one with its path. -/
theorem delivered_iff (hbatch : pData.batchMode = true) (hdyn : pData.dynRestPath = true)
    (hrdy : w.actState = .rdy) (hparams : w.iparams = []) (hfuel : ms.length ≤ fuel) :
    Wp (performAll (omhttp pData world) (actConf n) fuel (ms.map (.processMsg false) ++ [.commit]))
      (fun _ t => ∃ posts, (replay pData t.hist).posts = (replay pData w.hist).posts ++ posts ∧
        (Delivered ms posts ↔ ms = [] ∨ pData.maxBatchSize = 1 ∨
          (2 ≤ pData.maxBatchSize ∧ Steady pData .empty ms)))
      (fun _ => False) w := by
  have hopen : Open pData ⟨.empty, (replay pData w.hist).posts⟩ w :=
    .inr ⟨_, ⟨hrdy, rfl⟩, by simp [beginTransaction, hbatch, initializeBatch]⟩
  generalize (replay pData w.hist).posts = sent at hopen ⊢
  rw [wp_performAll_append]
  refine (processMsgs_open hopen).imp ?_
  rintro - t ⟨ht, hms⟩
  rw [hparams] at hms
  simp only [performAll, perform, wp_bind, wp_pure]
  by_cases hnil : ms = []
  · rw [wp_actionCommit, hms]
    refine ⟨fun _ => ⟨[], ?_, by simp [hnil, Delivered]⟩, by simp [hnil], by simp [hnil]⟩
    rw [List.append_nil]
    exact ht.posts
  · obtain hmax | hmax | hmax : pData.maxBatchSize = 0 ∨ pData.maxBatchSize = 1 ∨
        2 ≤ pData.maxBatchSize := by omega
    · obtain ⟨m, ms, rfl⟩ := List.exists_cons_of_ne_nil hnil
      obtain ⟨hret, hposts⟩ := doAction_none hbatch hdyn hmax sent m
      refine (actionCommit_refused (Nat.lt_of_lt_of_le (by simp) hfuel) hret ht hms).imp ?_
      intro r u hu
      refine ⟨_, hu ▸ hposts, ?_⟩
      simp [Delivered, hmax]
    · refine (actionCommit_takes (I := fun rest u => u.batch = .empty ∧
        u.posts ++ rest.map (fun m => ⟨m.restPath, [m]⟩) =
          sent ++ ms.map fun m => ⟨m.restPath, [m]⟩) ?_ hbatch hfuel hnil hms ⟨rfl, rfl⟩ ht).imp ?_
      · rintro m rest ⟨-, posts⟩ ⟨rfl, h⟩
        obtain ⟨hret, hposts⟩ := doAction_single hbatch hdyn hmax posts m
        refine ⟨_, .ends hret, ?_⟩
        simpa [beginTransaction, hbatch, initializeBatch, hposts] using h
      · rintro - v ⟨⟨-, posts⟩, ⟨rfl, h⟩, hv⟩
        rw [List.map_nil, List.append_nil] at h
        refine ⟨_, hv.trans h, ?_⟩
        simp [Delivered, Post.Right, hmax, List.flatMap_map]
    · refine (actionCommit_takes (I := fun rest u =>
        passAll pData up u rest = passAll pData up ⟨.empty, sent⟩ ms)
        ?_ hbatch hfuel hnil hms rfl ht).imp ?_
      · intro m rest u h
        rw [passAll_cons up hbatch hmax rfl] at h
        exact ⟨_, .defers (doAction_defers hbatch hmax), h⟩
      rintro - v ⟨u, hu, hv⟩
      obtain ⟨posts, hposts, hmsgs, hright⟩ := passAll_posts hbatch hdyn hmax ⟨.empty, sent⟩ ms
      rw [← hu] at hposts
      refine ⟨posts, hv.trans hposts, ?_⟩
      have hone : pData.maxBatchSize ≠ 1 := by omega
      rw [Delivered, hmsgs, hright]
      simp [Batch.empty, hnil, hone, hmax]

end Run

def defaults : InstanceData := ⟨some (ascii "path"), true, true, .newline, 10485760, 100⟩

/-- Two messages each to two paths. -/
def twoPaths : List Msg :=
  [⟨ascii "x", ascii "a"⟩, ⟨ascii "y", ascii "a"⟩, ⟨ascii "z", ascii "b"⟩, ⟨ascii "x", ascii "b"⟩]

theorem delivered_twoPaths :
    Wp (performAll (omhttp defaults (.constant fun _ => .ok)) (actConf 0) 4
        (twoPaths.map (.processMsg false) ++ [.commit]))
      (fun _ t => Delivered twoPaths (replay defaults t.hist).posts) (fun _ => False)
      (Wrkr.init Msg) := by
  have hsteady : Steady defaults .empty twoPaths := by
    simp only [twoPaths, Steady]
    decide
  refine (delivered_iff (by rfl) (by rfl) (by rfl) (by rfl) (by decide)).imp ?_
  rintro - t ⟨posts, hposts, hiff⟩
  rw [hposts]
  exact hiff.mpr (.inr (.inr ⟨by decide, hsteady⟩))

/-- Of two messages with different paths, the second goes to the name of the template. -/
theorem not_delivered_two :
    Wp (performAll (omhttp defaults (.constant fun _ => .ok)) (actConf 0) 2
        [.processMsg false ⟨ascii "x", ascii "a"⟩, .processMsg false ⟨ascii "y", ascii "b"⟩,
          .commit])
      (fun _ t =>
        (replay defaults t.hist).posts = [⟨ascii "a", [⟨ascii "x", ascii "a"⟩]⟩,
          ⟨ascii "path", [⟨ascii "y", ascii "b"⟩]⟩] ∧
        ¬Delivered [⟨ascii "x", ascii "a"⟩, ⟨ascii "y", ascii "b"⟩] (replay defaults t.hist).posts)
      (fun _ => False) (Wrkr.init Msg) := by
  decide +kernel

end Rsyslog.Omhttp
