import Rsyslog.Action.Retry

/-!
# A module that resumes and never works

`uResumeOKinRow` guards against a module whose `tryResume` always answers OK and whose
`commitTransaction` never works: every tenth time in a row OK is taken for SUSPENDED. That stops
`actionCommit` only if no retry is configured at all; with one retry or more, `actionDoRetry` asks
again, is told OK, and the loop of `actionCommit` goes on for ever (`commits_bounded_iff`).
-/

namespace Rsyslog.Action

open Lib

variable {μ : Type} {env : Env μ} {act : ActConf} {w t : Wrkr μ} {fuel k : ℕ}

/-- No shutdown is requested, `beginTransaction` and `tryResume` answer OK, and `commitTransaction`
answers SUSPENDED. -/
structure Env.FalselyResumes (env : Env μ) : Prop where
  no_shutdown : ∀ h, env.shutdownImmediate h = false
  begin_ok : ∀ h, env.ret .beginTransaction h = .ok
  resume_ok : ∀ h, env.ret .tryResume h = .ok
  commit_suspended : ∀ ms h, env.ret (.commitTransaction ms) h = .suspended

def commits : Hist μ → ℕ
  | [] => 0
  | .call (.commitTransaction _) _ :: h => commits h + 1
  | _ :: h => commits h

/-- `t` is `w` after some steps of an existing worker instance, with `n` more commits tried. -/
structure Wrkr.After (w t : Wrkr μ) (n : ℕ) : Prop where
  created : t.actWrkrData = true
  commits_eq : commits t.hist = commits w.hist + n

/-! ## Retries -/

lemma doRetryLoop_trusts (he : env.FalselyResumes) (hcr : w.actWrkrData = true)
    (hw : w.actState = .rtry) (hd : ¬w.Distrusts) (j : ℤ) (r : RsRet) :
    Wp (doRetryLoop env act k j r)
      (fun r t => r = .ok ∧ t.actState = .rdy ∧ t.uResumeOKinRow = w.uResumeOKinRow ∧ w.After t 0)
      (fun _ => k < 2) w := by
  obtain _ | _ | k := k
  · simp [retryLoop]
  · simp [retryLoop, he.no_shutdown, hw, wp_callTryResume, he.resume_ok, hd]
  · simp [retryLoop, he.no_shutdown, hw, wp_callTryResume, he.resume_ok, hd, Wrkr.tried]
    exact ⟨hcr, by simp [commits]⟩

/-- How a retry of such a module can end: the action is ready, or, if no retries are configured, the
action is suspended because the module is not believed. -/
lemma actionDoRetry_falsely (he : env.FalselyResumes) {n : ℕ} (hn : act.iResumeRetryCount = n)
    (hcr : w.actWrkrData = true) (hw : w.actState = .rtry) :
    Wp (actionDoRetry env act fuel)
      (fun r t => w.After t 0 ∧
        ((r = .ok ∧ t.actState = .rdy ∧ (n = 0 → ¬w.Distrusts) ∧
            (¬w.Distrusts → t.uResumeOKinRow = w.uResumeOKinRow)) ∨
          (r = .suspended ∧ t.actState = .susp ∧ t.uResumeOKinRow = 0 ∧ n = 0 ∧ w.Distrusts)))
      (fun _ => fuel < 3) w := by
  by_cases hd : w.Distrusts
  · obtain _ | k := fuel
    · simp [actionDoRetry, retryLoop]
    set w' := w.push (.shutdownImmediate false) with hw'
    set v := w'.tried (env.ret .tryResume w'.hist) with hv
    have hvcr : v.actWrkrData = true := by simp [hv, hw', Wrkr.tried, hd, hcr]
    have hvrow : v.uResumeOKinRow = 0 := by simp [hv, hw', Wrkr.tried, hd]
    have hvcom : commits v.hist = commits w.hist := by simp [hv, hw', commits]
    -- the first answer counts as SUSPENDED
    simp only [actionDoRetry, wp_retryLoop_succ, he.no_shutdown, wp_callTryResume, ← hw', ← hv,
      if_pos (show w'.Distrusts from hd)]
    refine ⟨fun h => absurd hw (h.resolve_left (by simp)), fun _ _ => ⟨by simp,
      fun _ => ⟨fun h => ?_, by simp, fun h _ => ?_⟩,
      by simp, by simp⟩⟩
    · obtain rfl : n = 0 := by omega
      obtain _ | k := k
      · simp [retryLoop]
      · rw [wp_doRetryLoop_of_ne_rtry he.no_shutdown (by simp)]
        exact ⟨⟨hvcr, by simpa [commits] using hvcom⟩, .inr ⟨rfl, rfl, hvrow, rfl, hd⟩⟩
    · refine (doRetryLoop_trusts (w := (v.push .sleep).push (.shutdownImmediate false)) he hvcr
        (by simp [hv, hw', hw]) (Wrkr.tried_trusts _) _ _).mono ?_ fun _ h => by omega
      rintro r t ⟨hr, hst, -, haft⟩
      refine ⟨⟨haft.created, ?_⟩, .inl ⟨hr, hst, fun hn0 => ?_, fun h => absurd hd h⟩⟩
      · simpa [commits, hvcom] using haft.commits_eq
      · omega
  · refine (doRetryLoop_trusts he hcr hw hd 0 .ok).mono ?_ fun _ h => by omega
    rintro r t ⟨hr, hst, hrow, haft⟩
    exact ⟨haft, .inl ⟨hr, hst, fun _ => hd, fun _ => hrow⟩⟩

/-! ## One attempt -/

/-- How waking up such a module can end: the answer was believed or not asked for, or the action is
suspended because the answer was not believed. -/
def Woken (n : ℕ) (w : Wrkr μ) (r : RsRet) (t : Wrkr μ) : Prop :=
  w.After t 0 ∧
    ((r = .ok ∧ (n = 0 → t.uResumeOKinRow = w.uResumeOKinRow)) ∨
      (r = .suspended ∧ t.actState = .susp ∧ t.uResumeOKinRow = 0 ∧ n = 0 ∧ w.Distrusts ∧
        w.actState ≠ .rdy))

/-- How an attempt to commit can end: the module was asked and refused, or it was not asked because
it was not believed. -/
def Refused (n : ℕ) (w : Wrkr μ) (r : RsRet) (t : Wrkr μ) : Prop :=
  r = .suspended ∧
    ((w.After t 1 ∧ t.actState = .rtry ∧ (n = 0 → t.uResumeOKinRow = w.uResumeOKinRow + 1)) ∨
      (w.After t 0 ∧ t.actState = .susp ∧ t.uResumeOKinRow = 0 ∧ n = 0 ∧ w.Distrusts ∧
        w.actState ≠ .rdy))

lemma Refused.created {n : ℕ} {r : RsRet} (h : Refused n w r t) : t.actWrkrData = true := by
  rcases h with ⟨-, ⟨h, -⟩ | ⟨h, -⟩⟩
  · exact h.created
  · exact h.created

lemma Refused.commits_le {n : ℕ} {r : RsRet} (h : Refused n w r t) :
    commits t.hist ≤ commits w.hist + 1 := by
  rcases h with ⟨-, ⟨h, -⟩ | ⟨h, -⟩⟩
  · exact h.commits_eq.le
  · exact h.commits_eq.le.trans (Nat.le_succ _)

section Attempt

variable (he : env.FalselyResumes) {n : ℕ} (hn : act.iResumeRetryCount = n)
  (htx : act.isTransactional = true) (hcom : act.commitTransaction = true)
  (hx : act.pszExternalStateFile = false ∨ ∀ h, env.stateFile h = none)
  (hcr : w.actWrkrData = true)

include he hn hcr

lemma actionTryResume_falsely :
    Wp (actionTryResume env act fuel) (Woken n w) (fun _ => fuel < 3) w := by
  rw [wp_actionTryResume]
  refine ⟨?_, ?_, ?_, ?_⟩
  · intro hw
    refine (actionDoRetry_falsely he hn hcr hw).imp ?_
    rintro r t ⟨haft, ⟨hr, -, hd, hrow⟩ | ⟨hr, hst, hrow, h0, hd⟩⟩
    · exact ⟨haft, .inl ⟨hr, fun h0 => hrow (hd h0)⟩⟩
    · exact ⟨haft, .inr ⟨hr, hst, hrow, h0, hd, by simp [hw]⟩⟩
  · intro hw _
    refine (actionDoRetry_falsely (w := (w.push (.retryDue true)).setState .rtry) he hn hcr
      rfl).imp ?_
    rintro r t ⟨haft, ⟨hr, -, hd, hrow⟩ | ⟨hr, hst, hrow, h0, hd⟩⟩
    · exact ⟨⟨haft.created, haft.commits_eq⟩, .inl ⟨hr, fun h0 => hrow (hd h0)⟩⟩
    · exact ⟨⟨haft.created, haft.commits_eq⟩, .inr ⟨hr, hst, hrow, h0, hd, by simp [hw]⟩⟩
  · exact fun _ _ => ⟨⟨hcr, rfl⟩, .inl ⟨rfl, fun _ => rfl⟩⟩
  · exact fun _ _ => ⟨⟨hcr, rfl⟩, .inl ⟨rfl, fun _ => rfl⟩⟩

include htx hx

lemma actionPrepare_falsely :
    Wp (actionPrepare env act fuel) (Woken n w) (fun _ => fuel < 3) w := by
  rw [wp_actionPrepare hcr]
  refine (actionTryResume_falsely he hn hcr).imp ?_
  rintro r t h
  refine ⟨fun _ => h, fun hr _ => by rwa [hr] at h, fun hr hst => ?_⟩
  obtain ⟨haft, hrow⟩ : w.After t 0 ∧ (n = 0 → t.uResumeOKinRow = w.uResumeOKinRow) := by
    rcases h with ⟨haft, ⟨-, h⟩ | ⟨h, -⟩⟩
    · exact ⟨haft, h⟩
    · simp [hr] at h
  -- the transaction is opened, whether or not the state file was looked at
  have hbegin (u : Wrkr μ) (hu : t.After u 0) (hurow : u.uResumeOKinRow = t.uResumeOKinRow) :
      Wp (prepareBegin env act) (Woken n w) (fun _ => fuel < 3) u := by
    simp only [prepareBegin, beginTransaction, htx, if_true, wp_bind, wp_callModule, he.begin_ok,
      wp_actionSetState, wp_pure]
    refine ⟨⟨hu.created, ?_⟩, .inl ⟨rfl, fun h0 => hurow.trans (hrow h0)⟩⟩
    simp [commits, hu.commits_eq, haft.commits_eq]
  rw [wp_prepareReady, wp_checkExternalStateFile]
  refine ⟨fun _ => ⟨by simp, fun _ => ?_⟩, fun hext => ?_⟩
  · exact hbegin t ⟨haft.created, rfl⟩ rfl
  · have hfile : ∀ h, env.stateFile h = none := by simpa [hext] using hx
    simpa [hfile] using hbegin (t.push (.externalState false)) ⟨haft.created, rfl⟩ rfl

include hcom

lemma actionTryCommit_falsely (ms : List μ) :
    Wp (actionTryCommit env act fuel ms) (Refused n w) (fun _ => fuel < 3) w := by
  rw [wp_actionTryCommit]
  refine (actionPrepare_falsely (w := w.push (.tryCommit w.actState)) he hn htx hx hcr).imp ?_
  rintro r t ⟨haft, ⟨rfl, hrow⟩ | ⟨rfl, hst, hrow, h0, hd, hne⟩⟩
  · refine ⟨by simp, fun _ => ?_⟩
    rw [wp_doTransaction, he.commit_suspended]
    refine ⟨fun _ => ?_, fun h => absurd hcom (by simp [h])⟩
    have hcode : (t.passed ms .suspended).returnCode.expected = .suspended := rfl
    simp only [hcode]
    refine ⟨fun _ => ⟨rfl, .inl ⟨⟨haft.created, ?_⟩, rfl, fun h0 => ?_⟩⟩, ?_, ?_⟩
    · exact congrArg (· + 1) haft.commits_eq
    · exact congrArg (· + 1) (hrow h0)
    · exact fun h => absurd h (by simp)
    · exact fun h => absurd h (by simp)
  · refine ⟨fun _ => ?_, by simp⟩
    exact ⟨rfl, .inr ⟨⟨haft.created, haft.commits_eq⟩, hst, hrow, h0, hd, hne⟩⟩

lemma actionTryRemoveHardErrorsFromBatch_falsely (ms : List μ) :
    Wp (actionTryRemoveHardErrorsFromBatch env act fuel ms)
      (fun left t => left = ms ∧ t.actWrkrData = true ∧
        commits t.hist ≤ commits w.hist + ms.length) (fun _ => fuel < 3) w := by
  induction ms generalizing w with
  | nil => exact ⟨rfl, hcr, le_rfl⟩
  | cons m ms ih =>
    rw [wp_removeHardErrors_cons]
    refine (actionTryCommit_falsely (w := w.setInRow 0) he hn htx hcom hx hcr [m]).imp ?_
    intro r t h
    refine ⟨fun _ => ?_, fun hr => absurd h.1 hr, fun hr => absurd (h.1.symm.trans hr) (by simp)⟩
    refine (ih h.created).imp ?_
    rintro left u ⟨rfl, hu, hle⟩
    have hle' := h.commits_le
    simp only [Wrkr.setInRow_hist] at hle'
    refine ⟨rfl, hu, ?_⟩
    simp only [List.length_cons]
    omega

end Attempt

/-! ## No retries configured -/

/-- The number of further false resumes after which the module is not believed. The counter is a
`uint16_t`: behind 65530 it wraps around before it meets a multiple of ten. -/
def untilDistrust (r : UInt16) : ℕ :=
  if r.toNat < 65530 then 10 - r.toNat % 10 else 65546 - r.toNat

lemma untilDistrust_pos (r : UInt16) : 0 < untilDistrust r := by
  have hr := r.toNat_lt
  unfold untilDistrust
  split <;> omega

lemma untilDistrust_le (r : UInt16) : untilDistrust r ≤ 16 := by
  unfold untilDistrust
  split <;> omega

lemma Wrkr.distrusts_iff : w.Distrusts ↔
    9 < w.uResumeOKinRow.toNat ∧ w.uResumeOKinRow.toNat % 10 = 0 := by
  simp only [Wrkr.Distrusts, gt_iff_lt, UInt16.lt_iff_toNat_lt, ← UInt16.toNat_inj,
    UInt16.toNat_mod]
  rfl

lemma untilDistrust_succ {r : UInt16} (hrow : t.uResumeOKinRow = r + 1) (ht : ¬t.Distrusts) :
    untilDistrust t.uResumeOKinRow < untilDistrust r := by
  have hr := r.toNat_lt
  rw [Wrkr.distrusts_iff, hrow] at ht
  rw [hrow]
  unfold untilDistrust
  have hsucc : (r + 1).toNat = (r.toNat + 1) % 65536 := by simp [UInt16.toNat_add]
  split <;> split <;> omega

def Wrkr.Asks (w : Wrkr μ) : Prop := ¬w.Distrusts ∨ w.actState = .rdy

section NoRetries

variable (he : env.FalselyResumes) (hn : act.iResumeRetryCount = (0 : ℕ))
  (htx : act.isTransactional = true) (hcom : act.commitTransaction = true)
  (hx : act.pszExternalStateFile = false) (hcr : w.actWrkrData = true)

include he hn htx hcom hx hcr

/-- One round of the loop: it leaves with the messages in the error file, or it goes on closer to
the next distrust. -/
lemma wp_commitLoop_round (ms : List μ) {Q : RsRet → Wrkr μ → Prop} {E : Wrkr μ → Prop}
    (hcut : ∀ t, fuel < 3 → E t) (hout : ∀ r t, commits t.hist ≤ commits w.hist + 1 → Q r t)
    (hon : ∀ u, u.actWrkrData = true → u.Asks → commits u.hist ≤ commits w.hist + 1 →
      (w.Asks → untilDistrust u.uResumeOKinRow < untilDistrust w.uResumeOKinRow) →
      Wp (commitLoop env act fuel ms k) Q E u) :
    Wp (commitLoop env act fuel ms (k + 1)) Q E w := by
  rw [wp_commitLoop_succ]
  refine (actionTryCommit_falsely he hn htx hcom (.inl hx) hcr ms).mono ?_ hcut
  rintro r t ⟨rfl, hrefused⟩
  refine ⟨by simp, fun _ => ?_, by simp⟩
  rcases hrefused with ⟨haft, hst, hrow⟩ | ⟨haft, hst, hrow, -, hd, hne⟩
  · refine (actionDoRetry_falsely he hn haft.created hst).mono ?_ hcut
    rintro r u ⟨hu, ⟨rfl, hust, htrust, hurow⟩ | ⟨rfl, -, -, -, -⟩⟩
    · refine ⟨by simp, by simp, fun _ => ?_⟩
      refine hon u hu.created (.inr hust) ?_ fun _ => ?_
      · rw [hu.commits_eq, haft.commits_eq]
      · rw [hurow (htrust rfl)]
        exact untilDistrust_succ (hrow rfl) (htrust rfl)
    · refine ⟨by simp, fun _ _ => hout _ _ ?_, by simp⟩
      simp only [Wrkr.setParams_hist, Wrkr.push_hist, commits, hu.commits_eq, haft.commits_eq]
      exact le_rfl
  · obtain _ | f := fuel
    · exact hcut _ (by omega)
    · rw [actionDoRetry, wp_doRetryLoop_of_ne_rtry he.no_shutdown (by simp [hst])]
      refine ⟨by simp, by simp, fun _ => ?_⟩
      refine hon _ haft.created (.inl ?_) ?_ fun hasks => ?_
      · simp [Wrkr.Distrusts, hrow]
      · simpa [commits] using haft.commits_eq.le.trans (Nat.le_succ _)
      · rcases hasks with h | h
        · exact absurd hd h
        · exact absurd h hne

/-- From a worker that will ask the module, the number of commits tried is the distance to the next
distrust. -/
lemma commitLoop_asks {d : ℕ} (hasks : w.Asks) (ms : List μ)
    (hd : untilDistrust w.uResumeOKinRow ≤ d) (hk : d ≤ k) :
    Wp (commitLoop env act fuel ms k) (fun _ t => commits t.hist ≤ commits w.hist + d)
      (fun _ => fuel < 3) w := by
  induction d generalizing w k with
  | zero =>
    have hpos := untilDistrust_pos w.uResumeOKinRow
    omega
  | succ d ih =>
    obtain ⟨k, rfl⟩ : ∃ k', k = k' + 1 := ⟨k - 1, by omega⟩
    refine wp_commitLoop_round he hn htx hcom hx hcr ms (fun _ => id) ?_ ?_
    · omega
    · intro u hu hua hle hlt
      have hlt := hlt hasks
      refine (ih hu hua (by omega) (by omega)).imp ?_
      omega

lemma commitLoop_bounded (ms : List μ) (hk : 17 ≤ k) :
    Wp (commitLoop env act fuel ms k) (fun _ t => commits t.hist ≤ commits w.hist + 17)
      (fun _ => fuel < 3) w := by
  obtain ⟨k, rfl⟩ : ∃ k', k = k' + 1 := ⟨k - 1, by omega⟩
  refine wp_commitLoop_round he hn htx hcom hx hcr ms (fun _ => id) ?_ ?_
  · omega
  · intro u hu hua hle _
    refine (commitLoop_asks he hn htx hcom hx hu hua ms (untilDistrust_le _) (by omega)).imp ?_
    omega

/-- `actionCommit` returns, and tries at most one commit with the whole batch, one with each message
and 17 in its loop. -/
lemma actionCommit_bounded :
    Wp (actionCommit env act 17)
      (fun _ t => commits t.hist ≤ commits w.hist + (w.iparams.length + 18)) (fun _ => False)
      w := by
  have hleave (x : Exit) (r : RsRet) (u : Wrkr μ)
      (hu : commits u.hist ≤ commits w.hist + (w.iparams.length + 18)) :
      Wp (leave x r) (fun _ t => commits t.hist ≤ commits w.hist + (w.iparams.length + 18))
        (fun _ => False) u := by
    simpa [leave, commits] using hu
  have hloop (ms : List μ) (u : Wrkr μ) (hu : u.actWrkrData = true)
      (hle : commits u.hist ≤ commits w.hist + (w.iparams.length + 1)) :
      Wp (commitLoop env act 17 ms 17)
        (fun _ t => commits t.hist ≤ commits w.hist + (w.iparams.length + 18)) (fun _ => False)
        u := by
    refine (commitLoop_bounded he hn htx hcom hx hu ms le_rfl).mono ?_ fun _ h => by omega
    omega
  rw [wp_actionCommit]
  refine ⟨fun _ => hleave _ _ _ (Nat.le_add_right _ _),
    fun _ _ _ => hleave _ _ _ (Nat.le_add_right _ _), fun _ _ _ => ?_⟩
  refine (actionTryCommit_falsely (w := w.push (.commit w.iparams)) he hn htx hcom (.inl hx) hcr
    w.iparams).mono ?_ fun _ h => by omega
  intro r t h
  have hle : commits t.hist ≤ commits w.hist + 1 := h.commits_le
  refine ⟨fun hr => absurd (h.1.symm.trans hr) (by simp), fun _ => ⟨fun _ => ⟨?_, ?_⟩, fun _ => ?_⟩⟩
  · intro hr
    exact absurd (h.1.symm.trans hr) (by simp)
  · intro _
    exact hloop w.iparams t h.created (by omega)
  · refine (actionTryRemoveHardErrorsFromBatch_falsely he hn htx hcom (.inl hx) h.created
      w.iparams).mono ?_ fun _ h => by omega
    rintro left u ⟨rfl, hu, hule⟩
    exact ⟨fun _ => hleave _ _ _ (by omega), fun _ => hloop _ u hu (by omega)⟩

end NoRetries

/-! ## An action suspended by its state file -/

section

variable (he : env.FalselyResumes) {n : ℕ} (hn : act.iResumeRetryCount = n)
  (hx : act.pszExternalStateFile = true) (hfile : ∀ h, env.stateFile h = some (ascii "SUSPENDED"))
  (hdue : ∀ h, env.retryDue h = true) (hcr : w.actWrkrData = true)

lemma stateFileSuspended_suspended : stateFileSuspended (ascii "SUSPENDED") = true := by decide

include hx hfile in
lemma wp_checkExternalStateFile_suspended {Q : RsRet → Wrkr μ → Prop} {E : Wrkr μ → Prop} :
    Wp (checkExternalStateFile env act) Q E w ↔
      Q .suspended
        (((w.push (.externalState true)).setState .rtry).setInRow (w.uResumeOKinRow + 1)) := by
  simp [wp_checkExternalStateFile, hx, hfile, stateFileSuspended_suspended]

/-- The action ends suspended. -/
def Suspends (r : RsRet) (t : Wrkr μ) : Prop :=
  r = .suspended ∧ t.actState = .susp ∧ t.actWrkrData = true

include he hx hfile hcr in
lemma doRetryExtFileLoop_suspends (hw : w.actState = .rtry) (j : ℤ) (r : RsRet) :
    Wp (doRetryExtFileLoop env act k j r) Suspends (fun _ => True) w := by
  induction k generalizing w j r with
  | zero => trivial
  | succ k ih =>
    simp only [retryLoop, wp_bind, wp_readShutdownImmediate, he.no_shutdown,
      wp_getActionState, wp_ite, wp_checkExternalStateFile_suspended hx hfile]
    refine ⟨by simp, fun _ => ⟨fun h => absurd hw h, fun _ => ⟨?_, ?_⟩⟩⟩
    · intro _
      obtain _ | k := k
      · trivial
      · simp [actionSuspend, retryLoop, he.no_shutdown, hcr, Suspends]
    · intro _
      simp only [wp_log, Bool.false_eq_true, false_implies, not_false_eq_true, true_implies,
        true_and]
      exact ih (by simpa using hcr) rfl _ _

include he hn hx hfile hdue hcr

lemma actionPrepare_suspends (hw : w.actState = .rdy ∨ w.actState = .susp) :
    Wp (actionPrepare env act fuel) Suspends (fun _ => True) w := by
  have hready (u : Wrkr μ) (hu : u.actWrkrData = true) :
      Wp (prepareReady env act fuel) Suspends (fun _ => True) u := by
    rw [wp_prepareReady, wp_checkExternalStateFile_suspended hx hfile]
    refine ⟨fun _ => ?_, by simp⟩
    refine (doRetryExtFileLoop_suspends he hx hfile (by simpa using hu) rfl 0 .ok).imp ?_
    rintro r t ⟨rfl, ht⟩
    exact ⟨fun _ => ⟨rfl, ht⟩, by simp⟩
  rw [wp_actionPrepare hcr, wp_actionTryResume]
  rcases hw with hw | hw
  · simpa [hw] using hready w hcr
  · simp only [hw, hdue]
    refine ⟨by simp, fun _ _ => ?_, by simp, by simp⟩
    -- the retry makes the action ready for the file, or suspends it itself
    refine (actionDoRetry_falsely (w := (w.push (.retryDue true)).setState .rtry) he hn hcr
      rfl).mono ?_ fun _ _ => trivial
    rintro r t ⟨haft, ⟨rfl, ht, -⟩ | ⟨rfl, ht, -⟩⟩
    · exact ⟨by simp, fun _ h => absurd ht h, fun _ _ => hready t haft.created⟩
    · exact ⟨fun _ => ⟨rfl, ht, haft.created⟩, by simp, by simp⟩

lemma actionTryCommit_suspends (hw : w.actState = .rdy ∨ w.actState = .susp) (ms : List μ) :
    Wp (actionTryCommit env act fuel ms) Suspends (fun _ => True) w := by
  rw [wp_actionTryCommit]
  refine (actionPrepare_suspends he hn hx hfile hdue (by simpa using hcr)
    (by simpa using hw)).imp ?_
  rintro r t ⟨rfl, ht⟩
  exact ⟨fun _ => ⟨rfl, ht⟩, by simp⟩

end

/-! ## The bound -/

/-- For a module that resumes and never works, the commits that `actionCommit` tries with a batch of
`size` messages have a bound. -/
def CommitsBounded (μ : Type) (act : ActConf) (size : ℕ) : Prop :=
  ∃ bound, ∀ (env : Env μ) (w : Wrkr μ), env.FalselyResumes → w.actWrkrData = true →
    w.iparams.length = size →
    ∃ fuel r t, actionCommit env act fuel w = .ok r t ∧ commits t.hist ≤ commits w.hist + bound

def falseWorld (μ : Type) : Env μ := .constant fun c =>
  match c with
  | .commitTransaction _ => .suspended
  | _ => .ok

def suspendedWorld (μ : Type) : Env μ :=
  { falseWorld μ with
    retryDue := fun _ => true
    stateFile := fun _ => some (ascii "SUSPENDED") }

def ready {μ : Type} (ms : List μ) : Wrkr μ := ⟨true, .rdy, 0, false, ms, false, []⟩

lemma falseWorld_falselyResumes : (falseWorld μ).FalselyResumes where
  no_shutdown _ := rfl
  begin_ok _ := rfl
  resume_ok _ := rfl
  commit_suspended _ _ := rfl

lemma suspendedWorld_falselyResumes : (suspendedWorld μ).FalselyResumes :=
  { falseWorld_falselyResumes with }

def NeverReturns (x : Act μ RsRet) (w : Wrkr μ) : Prop :=
  Wp x (fun _ _ => False) (fun _ => True) w

/-- A commit is refused in `I` and leaves the worker in `J`; a retry in `J` leads back to `I`. -/
structure Circles (env : Env μ) (act : ActConf) (fuel : ℕ) (I J : Wrkr μ → Prop) : Prop where
  refused : ∀ ms w, I w →
    Wp (actionTryCommit env act fuel ms) (fun r t => r = .suspended ∧ J t) (fun _ => True) w
  retried : ∀ w, J w →
    Wp (actionDoRetry env act fuel) (fun r t => r = .ok ∧ I t) (fun _ => True) w
  again : ∀ w row, J w → I (w.setInRow row)

section Circles

variable {I J : Wrkr μ → Prop} (h : Circles env act fuel I J)

include h

lemma Circles.commitLoop (hw : I w) (ms : List μ) :
    NeverReturns (commitLoop env act fuel ms k) w := by
  induction k generalizing w with
  | zero => trivial
  | succ k ih =>
    rw [NeverReturns, wp_commitLoop_succ]
    refine (h.refused ms w hw).imp ?_
    rintro r t ⟨rfl, ht⟩
    refine ⟨by simp, fun _ => (h.retried t ht).imp ?_, by simp⟩
    rintro r u ⟨rfl, hu⟩
    exact ⟨by simp, by simp, fun _ => ih hu⟩

lemma Circles.removeHardErrors (hw : J w) (ms : List μ) :
    Wp (actionTryRemoveHardErrorsFromBatch env act fuel ms) (fun left t => left = ms ∧ J t)
      (fun _ => True) w := by
  induction ms generalizing w with
  | nil => exact ⟨rfl, hw⟩
  | cons m ms ih =>
    rw [wp_removeHardErrors_cons]
    refine (h.refused [m] _ (h.again w 0 hw)).imp ?_
    rintro r t ⟨rfl, ht⟩
    refine ⟨fun _ => (ih ht).imp ?_, by simp, by simp⟩
    rintro left u ⟨rfl, hu⟩
    exact ⟨rfl, hu⟩

lemma Circles.actionCommit {ms : List μ} (hms : ms ≠ []) (htx : act.isTransactional = true)
    (hw : I ((ready ms).push (.commit ms))) :
    NeverReturns (actionCommit env act fuel) (ready ms) := by
  have hloop (t : Wrkr μ) (ht : J t) : NeverReturns (Action.commitLoop env act fuel ms fuel) t :=
    h.commitLoop (h.again t t.uResumeOKinRow ht) ms
  rw [NeverReturns, wp_actionCommit]
  refine ⟨by simp [htx, ready, hms], by simp [ready], fun _ _ _ => (h.refused ms _ hw).imp ?_⟩
  rintro r t ⟨rfl, ht⟩
  refine ⟨by simp, fun _ => ⟨fun _ => ⟨by simp, fun _ => hloop t ht⟩,
    fun _ => (h.removeHardErrors ht ms).imp ?_⟩⟩
  rintro left u ⟨rfl, hu⟩
  exact ⟨fun h => absurd h hms, fun _ => hloop u hu⟩

end Circles

lemma falseWorld_never_returns {n : ℕ} (hn : act.iResumeRetryCount = n) (h0 : n ≠ 0)
    (htx : act.isTransactional = true) (hcom : act.commitTransaction = true) {ms : List μ}
    (hms : ms ≠ []) (fuel : ℕ) :
    NeverReturns (actionCommit (falseWorld μ) act fuel) (ready ms) := by
  have he := falseWorld_falselyResumes (μ := μ)
  have hcircles : Circles (falseWorld μ) act fuel (fun t => t.actWrkrData = true)
      fun t => t.actWrkrData = true ∧ t.actState = .rtry := by
    refine ⟨fun ms w hw => ?_, fun w hw => ?_, fun _ _ h => h.1⟩
    · refine (actionTryCommit_falsely he hn htx hcom (.inr fun _ => rfl) hw ms).mono ?_
        fun _ _ => trivial
      rintro r t ⟨rfl, ⟨haft, hst, -⟩ | ⟨-, -, -, hn0, -⟩⟩
      · exact ⟨rfl, haft.created, hst⟩
      · exact absurd hn0 h0
    · refine (actionDoRetry_falsely he hn hw.1 hw.2).mono ?_ fun _ _ => trivial
      rintro r u ⟨hu, ⟨rfl, -⟩ | ⟨-, -, -, hn0, -⟩⟩
      · exact ⟨rfl, hu.created⟩
      · exact absurd hn0 h0
  exact hcircles.actionCommit hms htx rfl

lemma suspendedWorld_never_returns {n : ℕ} (hn : act.iResumeRetryCount = n)
    (htx : act.isTransactional = true) (hx : act.pszExternalStateFile = true) {ms : List μ}
    (hms : ms ≠ []) (fuel : ℕ) :
    NeverReturns (actionCommit (suspendedWorld μ) act fuel) (ready ms) := by
  have he := suspendedWorld_falselyResumes (μ := μ)
  have hcircles : Circles (suspendedWorld μ) act fuel
      (fun t => (t.actState = .rdy ∨ t.actState = .susp) ∧ t.actWrkrData = true)
      fun t => t.actState = .susp ∧ t.actWrkrData = true := by
    refine ⟨fun ms w hw => ?_, fun w hw => ?_, fun _ _ h => ⟨.inr h.1, h.2⟩⟩
    · exact actionTryCommit_suspends he hn hx (fun _ => rfl) (fun _ => rfl) hw.2 hw.1 ms
    · obtain _ | f := fuel
      · trivial
      · rw [actionDoRetry, wp_doRetryLoop_of_ne_rtry he.no_shutdown (by simp [hw.1])]
        exact ⟨rfl, .inr hw.1, hw.2⟩
  exact hcircles.actionCommit hms htx ⟨.inl rfl, rfl⟩

/-- The commits tried have a bound exactly if there is nothing to commit, or no retry is configured
and the action has no state file. -/
theorem commits_bounded_iff [Inhabited μ] {n : ℕ} (hn : act.iResumeRetryCount = n)
    (htx : act.isTransactional = true) (hcom : act.commitTransaction = true) (size : ℕ) :
    CommitsBounded μ act size ↔ size = 0 ∨ (n = 0 ∧ act.pszExternalStateFile = false) := by
  constructor
  · rintro ⟨bound, hbound⟩
    by_contra hbad
    obtain ⟨hsize, hbad⟩ := not_or.mp hbad
    have hms : List.replicate size (default : μ) ≠ [] := by simpa using hsize
    have hreturns {env : Env μ} (he : env.FalselyResumes) :=
      hbound env (ready (List.replicate size default)) he rfl (List.length_replicate ..)
    by_cases hx : act.pszExternalStateFile = true
    · obtain ⟨fuel, r, t, hret, -⟩ := hreturns suspendedWorld_falselyResumes
      exact (suspendedWorld_never_returns hn htx hx hms fuel).ok hret
    · have h0 : n ≠ 0 := fun h0 => hbad ⟨h0, by simpa using hx⟩
      obtain ⟨fuel, r, t, hret, -⟩ := hreturns falseWorld_falselyResumes
      exact (falseWorld_never_returns hn h0 htx hcom hms fuel).ok hret
  · rintro (rfl | ⟨rfl, hx⟩)
    · refine ⟨0, fun env w he hcr hsize => ?_⟩
      have hms : w.iparams = [] := List.length_eq_zero_iff.mp hsize
      have hret : Wp (actionCommit env act 0) (fun _ t => commits t.hist ≤ commits w.hist + 0)
          (fun _ => False) w := by
        rw [wp_actionCommit]
        simp [hms, wp_leave, commits]
      obtain ⟨r, t, hret, hle⟩ := hret.returns
      exact ⟨0, r, t, hret, hle⟩
    · refine ⟨size + 18, fun env w he hcr hsize => ?_⟩
      obtain ⟨r, t, hret, hle⟩ := (actionCommit_bounded he hn htx hcom hx hcr).returns
      exact ⟨17, r, t, hret, by rwa [hsize] at hle⟩

/-- An action of a module with `commitTransaction` that is not retried. -/
def neverRetried : ActConf := ⟨true, true, 0, false⟩

theorem commits_bounded_of_no_retries :
    neverRetried.iResumeRetryCount = (0 : ℕ) ∧ CommitsBounded Unit neverRetried 2 :=
  ⟨rfl, (commits_bounded_iff (n := 0) rfl rfl rfl 2).mpr (.inr ⟨rfl, rfl⟩)⟩

/-- One message and one retry configured: `actionCommit` does not return. -/
theorem commits_unbounded_with_retry :
    (falseWorld Unit).FalselyResumes ∧
      ¬∃ fuel r t,
        actionCommit (falseWorld Unit) ⟨true, true, 1, false⟩ fuel (ready [()]) = .ok r t := by
  refine ⟨falseWorld_falselyResumes, ?_⟩
  rintro ⟨fuel, r, t, hret⟩
  exact (falseWorld_never_returns (n := 1) rfl (by decide) rfl rfl (by simp) fuel).ok hret

end Rsyslog.Action
