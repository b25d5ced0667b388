import Rsyslog.Action.Stable

/-!
# After a hard error

A code other than OK, DEFER_COMMIT, PREVIOUS_COMMITTED, DISABLE_ACTION and SUSPENDED says that the
message cannot be processed; the action goes to DATAFAIL, from where it must be brought back by a
normal retry. But nothing retries in DATAFAIL: from then on no message is offered to the module.
-/

namespace Rsyslog.Action

open Lib

variable {μ : Type} {env : Env μ} {act : ActConf} {fuel : ℕ} {w t : Wrkr μ}

/-! ## What happened to the messages -/

def RsRet.isHard : RsRet → Bool
  | .ok | .deferCommit | .previousCommitted | .disableAction | .suspended => false
  | _ => true

def lastHard : Hist μ → Bool
  | [] => false
  | .processing _ :: _ => false
  | .call (.doAction _) r :: h => r.isHard || lastHard h
  | _ :: h => lastHard h

def before : Hist μ → Hist μ
  | [] => []
  | .processing _ :: h => h
  | _ :: h => before h

def Offered (m : μ) : Hist μ → Prop
  | [] => False
  | .processing _ :: _ => False
  | .call (.doAction m') _ :: h => m' = m ∨ Offered m h
  | _ :: h => Offered m h

/-- Every message that was processed next after one with a hard error was offered to the module, or
the action was suspended, retrying or disabled. -/
def AgainOffered : Hist μ → Prop
  | [] => True
  | .processed m st bDisabled :: h =>
    (lastHard (before h) = true → Offered m h ∨ st = .susp ∨ st = .rtry ∨ bDisabled = true) ∧
      AgainOffered h
  | _ :: h => AgainOffered h

/-- Every message that was processed next after one with a hard error met a disabled action. -/
def OnlyDisabled : Hist μ → Prop
  | [] => True
  | .processed _ _ bDisabled :: h =>
    (lastHard (before h) = true → bDisabled = true) ∧ OnlyDisabled h
  | _ :: h => OnlyDisabled h

/-! ## The invariant -/

structure Stuck (w : Wrkr μ) : Prop where
  fresh : w.Fresh
  dataFail : lastHard w.hist = true → w.actState = .dataFail ∧ w.actWrkrData = true
  offered_iff : AgainOffered w.hist ↔ OnlyDisabled w.hist

/-- The message being processed is the one of `h`, and no hard error has come. -/
structure Unharmed (h : Hist μ) (w : Wrkr μ) : Prop where
  before_eq : before w.hist = before h
  lastHard_eq : lastHard w.hist = false
  offered_iff : AgainOffered w.hist ↔ OnlyDisabled w.hist

lemma stablePrep_unharmed (h : Hist μ) : StablePrep (Unharmed h) where
  push w e he hw := by cases he <;> exact { hw with }
  state w st _ _ hw := { hw with }
  createCall w r hw := { hw with }
  begin_ok w hw := { hw with }
  begin_ne w r _ hw := { hw with }

lemma actionPrepare_unharmed {h : Hist μ} (hw : Unharmed h w) (hfresh : w.Fresh) :
    Wp (actionPrepare env act fuel)
      (fun r t => Unharmed h t ∧ t.Fresh ∧ (r = .ok → t.actWrkrData = true))
      (fun t => Unharmed h t ∧ t.Fresh) w :=
  (actionPrepare_keeps env act fuel (stablePrep_unharmed h) w hw).and
    (actionPrepare_creates env act fuel hfresh)

lemma offered_hard (m : μ) {ret : RsRet} (hlast : lastHard t.hist = false)
    (h : lastHard (t.offered m ret).hist = true) : (t.offered m ret).actState = .dataFail := by
  cases ret <;>
    simp_all [Wrkr.offered, Wrkr.handled, lastHard, RsRet.isHard]

lemma offered_before (m : μ) (ret : RsRet) : before (t.offered m ret).hist = before t.hist := by
  cases ret <;> rfl

lemma offered_againOffered (m : μ) (ret : RsRet) :
    AgainOffered (t.offered m ret).hist ↔ AgainOffered t.hist := by
  cases ret <;> exact Iff.rfl

lemma offered_onlyDisabled (m : μ) (ret : RsRet) :
    OnlyDisabled (t.offered m ret).hist ↔ OnlyDisabled t.hist := by
  cases ret <;> exact Iff.rfl

lemma actionProcessMessage_stuck (m : μ) : Keeps Stuck (actionProcessMessage env act fuel m) := by
  intro w h
  rw [wp_actionProcessMessage, wp_processMessage]
  cases hlast : lastHard w.hist with
  | true =>
    obtain ⟨hst, hcr⟩ := h.dataFail hlast
    rw [wp_actionPrepare_idle (w := w.push (.processing m)) (.inr hst) hcr]
    refine ⟨fun h => absurd rfl h, fun _ _ => ?_, fun _ hitx => absurd hitx (by simp [hst])⟩
    refine ⟨.inl hcr, fun _ => ⟨hst, hcr⟩, ?_⟩
    simp [AgainOffered, OnlyDisabled, before, Offered, hst, hlast, h.offered_iff]
  | false =>
    have hw : Unharmed (.processing m :: w.hist) (w.push (.processing m)) :=
      ⟨rfl, rfl, h.offered_iff⟩
    refine (actionPrepare_unharmed hw h.fresh).mono ?_ ?_
    · rintro r t ⟨ht, hfresh, hcr⟩
      -- the message before this one got no hard error, so nothing is asked of this one
      have hnone {g : Hist μ} (hbefore : before g = before t.hist)
          (hiff : AgainOffered g ↔ OnlyDisabled g) (st : ActState) (b : Bool) :
          AgainOffered (.processed m st b :: g) ↔ OnlyDisabled (.processed m st b :: g) := by
        simp [AgainOffered, OnlyDisabled, hbefore, ht.before_eq, before, hlast, hiff]
      have hstay {u : Wrkr μ} (hu : u.hist = t.hist) (hfresh : u.Fresh) :
          Stuck (u.push (.processed m u.actState u.bDisabled)) := by
        refine ⟨hfresh, fun hh => ?_, ?_⟩
        · simp [lastHard, hu, ht.lastHard_eq] at hh
        · rw [Wrkr.push_hist, hu]
          exact hnone rfl ht.offered_iff _ _
      refine ⟨fun _ => hstay rfl hfresh, fun _ _ => hstay rfl hfresh, fun hr hst => ?_⟩
      refine ⟨.inl (by simpa using hcr hr), fun hh => ?_, ?_⟩
      · exact ⟨offered_hard m ht.lastHard_eq hh, by simpa using hcr hr⟩
      · refine hnone (offered_before m _) ?_ _ _
        exact (offered_againOffered m _).trans
          (ht.offered_iff.trans (offered_onlyDisabled m _).symm)
    · exact fun t ht => ⟨ht.2, fun hh => absurd hh (by simp [ht.1.lastHard_eq]), ht.1.offered_iff⟩

/-! ## The engine -/

lemma Stuck.push {e : Event μ} (h : Stuck w) (hlast : lastHard (e :: w.hist) = lastHard w.hist)
    (hagain : AgainOffered (e :: w.hist) ↔ AgainOffered w.hist)
    (honly : OnlyDisabled (e :: w.hist) ↔ OnlyDisabled w.hist) : Stuck (w.push e) :=
  ⟨h.fresh, fun hh => h.dataFail (hlast ▸ hh), hagain.trans (h.offered_iff.trans honly.symm)⟩

lemma Stuck.of_unharmed {h : Hist μ} (hw : Unharmed h w) (hfresh : w.Fresh) : Stuck w :=
  ⟨hfresh, fun hh => absurd hh (by simp [hw.lastHard_eq]), hw.offered_iff⟩

lemma Stuck.unharmed (h : Stuck w) (hst : w.actState ≠ .dataFail) : Unharmed w.hist w :=
  ⟨rfl, Bool.eq_false_iff.mpr fun hh => hst (h.dataFail hh).1, h.offered_iff⟩

lemma actionPrepare_stuck : Keeps Stuck (actionPrepare env act fuel) := by
  intro w h
  cases hlast : lastHard w.hist with
  | true =>
    obtain ⟨hst, hcr⟩ := h.dataFail hlast
    rw [wp_actionPrepare_idle (.inr hst) hcr]
    exact h
  | false =>
    refine (actionPrepare_unharmed ⟨rfl, hlast, h.offered_iff⟩ h.fresh).mono ?_ ?_
    · exact fun r t ht => .of_unharmed ht.1 ht.2.1
    · exact fun t ht => .of_unharmed ht.1 ht.2

lemma actionDoRetry_stuck : Keeps Stuck (actionDoRetry env act fuel) := by
  intro w h
  by_cases hst : w.actState = .rtry
  · have hcr : w.actWrkrData = true := h.fresh.resolve_right (by simp [hst])
    have hkeep := doRetryLoop_keeps env act (stablePrep_unharmed w.hist).toStable fuel 0 .ok w
      (h.unharmed (by simp [hst]))
    have hcreated := doRetryLoop_keeps env act stablePrep_created.toStable fuel 0 .ok w hcr
    refine (hkeep.and hcreated).mono ?_ ?_
    · exact fun _ t ht => .of_unharmed ht.1 (.inl ht.2)
    · exact fun t ht => .of_unharmed ht.1 (.inl ht.2)
  · exact actionDoRetry_idle hst h (h.push rfl Iff.rfl Iff.rfl)

lemma tryCommitEnd_stuck (h : Stuck w) (hst : w.actState = .itx) :
    Wp (tryCommitEnd env) (fun _ => Stuck) Stuck w := by
  have hcr : w.actWrkrData = true := h.fresh.resolve_right (by simp [hst])
  have hw := h.unharmed (by simp [hst])
  rw [wp_tryCommitEnd]
  refine .of_unharmed (h := w.hist) ?_ (.inl ?_) <;> generalize env.ret .endTransaction w.hist = ret
  · cases ret <;> exact { hw with }
  · cases ret <;> exact hcr

lemma actionTryCommit_stuck (hdo : act.commitTransaction = false) (ms : List μ) :
    Keeps Stuck (actionTryCommit env act fuel ms) := by
  intro w h
  rw [wp_actionTryCommit]
  refine (actionPrepare_stuck _ (h.push rfl Iff.rfl Iff.rfl)).imp ?_
  refine fun r t ht => ⟨fun _ => ht, fun _ => ?_⟩
  rw [wp_doTransaction]
  refine ⟨by simp [hdo], fun _ => ?_⟩
  refine (doTransactionLoop_keeps (fun m _ => actionProcessMessage_stuck m) ?_ fuel .ok t ht).imp ?_
  · exact fun w hw => hw.push rfl Iff.rfl Iff.rfl
  · exact fun r u hu => ⟨fun _ => hu, fun _ hst => tryCommitEnd_stuck hu hst,
      fun _ _ => { hu with }⟩

lemma kept_stuck (hdo : act.commitTransaction = false) : Kept env act fuel Stuck where
  mark w e he h := by cases he <;> exact h.push rfl Iff.rfl Iff.rfl
  prepare := actionPrepare_stuck
  doRetry := actionDoRetry_stuck
  process := actionProcessMessage_stuck
  tryCommit := actionTryCommit_stuck hdo

/-- In every run of a module driven through `doAction`, a message that is processed next after one
with a hard error is offered to the module, or meets an action that is suspended, retrying or
disabled, exactly if the action is disabled: from DATAFAIL there is no other way. -/
theorem offered_after_hard_error_iff (hdo : act.commitTransaction = false) (ops : List (Op μ)) :
    Wp (performAll env act fuel ops) (fun _ t => AgainOffered t.hist ↔ OnlyDisabled t.hist)
      (fun t => AgainOffered t.hist ↔ OnlyDisabled t.hist) (Wrkr.init μ) := by
  have hinit : Stuck (Wrkr.init μ) := ⟨.inr rfl, fun h => absurd h (by simp [Wrkr.init, lastHard]),
    Iff.rfl⟩
  refine ((kept_stuck hdo).performAll ops _ hinit).mono ?_ ?_
  · exact fun _ _ ht => ht.offered_iff
  · exact fun _ ht => ht.offered_iff

def badMessage : Env ℕ := .constant fun c =>
  match c with
  | .doAction 0 => .err (-1)
  | _ => .ok

def plainAction : ActConf := ⟨false, false, 0, false⟩

/-- The bad message is the last one. -/
theorem offered_after_hard_error_last :
    Wp (performAll badMessage plainAction 1 [.processMsg false 1, .processMsg false 0])
      (fun _ t => lastHard t.hist = true ∧ AgainOffered t.hist) (fun _ => False) (Wrkr.init ℕ) := by
  have hiff := (@offered_after_hard_error_iff ℕ badMessage plainAction 1 rfl
    [.processMsg false 1, .processMsg false 0]).ok rfl
  exact ⟨rfl, hiff.mpr ⟨by decide, by decide, trivial⟩⟩

/-- After the bad message, the good one is not offered to the module. -/
theorem not_offered_after_hard_error :
    Wp (performAll badMessage plainAction 1 [.processMsg false 0, .processMsg false 1])
      (fun _ t => ¬AgainOffered t.hist) (fun _ => False) (Wrkr.init ℕ) := by
  intro h
  have hnext : False ∨ ActState.dataFail = .susp ∨ ActState.dataFail = .rtry ∨ false = true :=
    h.1 rfl
  simp at hnext

end Rsyslog.Action
