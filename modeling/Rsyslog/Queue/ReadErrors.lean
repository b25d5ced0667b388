import Mathlib.Data.List.Perm.Basic
import Rsyslog.Queue.Counters

/-!
# Reads of a disk queue that fail

Here, unlike in `Rsyslog.Queue.Core`, the result of every read is given: a message or an error, and
where the stream stands afterwards.

The loop of `DequeueConsumableElements` stores the messages in the batch as it reads them, but the
numbers of elements are set at the very end. If a read fails then the function returns with both at
zero: the messages read before are neither handed out nor discarded, and `nLogDeq` counts them, and
the failed read, for ever. `Sys.lag` is how far the counter is ahead of the batches. It never goes
down, and it goes up exactly with a failed read and with the completion of a batch of which messages
were discarded.
-/

namespace Rsyslog.Queue

open Lib
open Option (bind_eq_bind bind_some map_some)

variable {μ : Type}

/-! ## Dequeueing with given reads -/

abbrev ReadResult (μ : Type) := Except RsRet μ × Pos

def Store.readTo (p : Pos) : Store μ → Store μ
  | .disk d => .disk { d with pReadDeq := p }
  | s => s

def QQueue.readTo (q : QQueue μ) (p : Pos) : QQueue μ :=
  { q with store := q.store.readTo p, nLogDeq := q.nLogDeq + 1 }

structure ReadLoop (μ : Type) where
  iRet : Except RsRet Unit
  l : DeqLoop μ
  got : List μ

/-- The loop of `DequeueConsumableElements`, where `rd k` is what the `k`-th read returns. -/
def readLoop [QMsg μ] (cfg : QCfg) : ℕ → (ℕ → ReadResult μ) → DeqLoop μ → ReadLoop μ
  | 0, _, l => ⟨.ok (), l, []⟩
  | fuel + 1, rd, l =>
    if getLogicalQueueSize l.q > 0 ∧ (l.pElem.length : ℤ) < cfg.iDeqBatchSize then
      if l.q.store.readAtWrite then
        ⟨.ok (), { l with q := { l.q with
          iQueueSize := l.q.iQueueSize - getLogicalQueueSize l.q } }, []⟩
      else
        let q := l.q.readTo (rd 0).2
        match (rd 0).1 with
        | .error localRet => ⟨.error localRet, { l with q }, []⟩
        | .ok pMsg =>
          let r := readLoop cfg fuel (fun k => rd (k + 1)) (l.next cfg pMsg q)
          { r with got := pMsg :: r.got }
    else ⟨.ok (), l, []⟩

structure DeqCall (μ : Type) where
  iRet : Except RsRet Unit
  q : QQueue μ
  batch : Batch μ
  got : List μ

def dequeueReads [QMsg μ] (cfg : QCfg) (rd : ℕ → ReadResult μ) (q : QQueue μ) (batch : Batch μ) :
    Option (DeqCall μ) := do
  let nDeleted := batch.nElemDeq
  let (q, batch) ← DeleteProcessedBatch cfg q batch
  let q := { q with store := q.store.deqBegin }
  let r := readLoop cfg (getLogicalQueueSize q).toNat rd ⟨q, [], 0⟩
  match r.iRet with
  | .error e => some ⟨.error e, r.l.q, batch, r.got⟩
  | .ok () =>
    let q := { r.l.q with store := r.l.q.store.deqEnd }
    let q := qqueueChkPersist cfg q (r.l.pElem.length + r.l.nDiscarded + nDeleted)
    let (q, batch) := handOut q r.l.pElem (r.l.pElem.length + r.l.nDiscarded)
    some ⟨.ok (), q, batch, r.got⟩

def stepReads [QMsg μ] {n : ℕ} (cfg : QCfg) (s : Sys μ n) (e : Event μ n × (ℕ → ReadResult μ)) :
    Option (Sys μ n) :=
  match e.1 with
  | .dequeue w => (dequeueReads cfg e.2 s.q (s.batch w)).map fun c => s.update w (c.q, c.batch)
  | ev => step cfg s ev

/-! ## The intact spool -/

section

def Disk.reads (d : Disk μ) : ℕ → ReadResult μ
  | 0 => ((qDeqDisk d).1, (qDeqDisk d).2.pReadDeq)
  | k + 1 => Disk.reads (qDeqDisk d).2 k

lemma qDeqDisk_snd (d : Disk μ) :
    (qDeqDisk d).2 = { d with pReadDeq := (qDeqDisk d).2.pReadDeq } := by
  unfold qDeqDisk
  split <;> rfl

variable [QMsg μ] {cfg : QCfg}

lemma store_next (l : DeqLoop μ) (pMsg : μ) (q : QQueue μ) :
    (l.next cfg pMsg q).q.store = q.store := by
  unfold DeqLoop.next
  split <;> rfl

lemma deqLoop_eq_readLoop (fuel : ℕ) {l : DeqLoop μ} {d : Disk μ} (hd : l.q.store = .disk d) :
    (deqLoop cfg fuel l).map Prod.snd = some (readLoop cfg fuel d.reads l).l := by
  induction fuel generalizing l d with
  | zero => rfl
  | succ fuel ih =>
    have hdeq : qqueueDeq cfg l.q = some ((d.reads 0).1, l.q.readTo (d.reads 0).2) := by
      simp only [qqueueDeq, QQueue.readTo, hd, Store.qDeq, Store.readTo, Disk.reads]
      rw [bind_eq_bind, bind_some, ← qDeqDisk_snd]
    unfold deqLoop readLoop
    split
    · split
      · rfl
      · rw [hdeq]
        cases (d.reads 0).1 with
        | error e => rfl
        | ok pMsg =>
          have hstore : (l.next cfg pMsg (l.q.readTo (d.reads 0).2)).q.store =
              .disk (qDeqDisk d).2 := by
            rw [store_next, QQueue.readTo, hd, Store.readTo, Disk.reads, ← qDeqDisk_snd]
          exact ih hstore
    · rfl

end

/-! ## The queue on disk -/

structure QQueue.Spools (q : QQueue μ) : Prop where
  disk : ∃ d, q.store = .disk d
  toDeleteLst : q.toDeleteLst = []

section Spools

variable [QMsg μ] {cfg : QCfg} {q q' : QQueue μ}

lemma Enqs.spools {ms : List μ} (h : Enqs cfg q ms q') (hq : q.Spools) :
    q'.Spools ∧ q'.nLogDeq = q.nLogDeq := by
  have htdl := h.ledger.toDeleteLst.trans hq.toDeleteLst
  suffices hd : (∃ d, q'.store = .disk d) ∧ q'.nLogDeq = q.nLogDeq from ⟨⟨hd.1, htdl⟩, hd.2⟩
  clear htdl
  induction h with
  | refl => exact ⟨hq.disk, rfl⟩
  | note _ _ _ _ ih => exact ih
  | force _ _ _ ih => exact ⟨⟨_, rfl⟩, ih.2⟩
  | persist _ ih =>
    obtain ⟨⟨d, hd⟩, hlog⟩ := ih
    exact ⟨⟨_, by rw [qqueuePersist, hd]⟩, by rw [qqueuePersist_eq]; exact hlog⟩
  | add _ _ hstore ih =>
    obtain ⟨⟨d, hd⟩, hlog⟩ := ih
    rw [hd] at hstore
    exact ⟨⟨_, (Option.some.inj hstore).symm⟩, hlog⟩

lemma takes_spools (cfg : QCfg) : Takes cfg fun _ (q : QQueue μ) => q.Spools where
  add h _ := by
    obtain ⟨d, hd⟩ := h.disk
    exact ⟨_, by rw [hd]; rfl⟩
  next h _ henq := (henq.spools h).1

/-- Completing a batch takes the number of its elements off `nLogDeq`, not the number that was
dequeued for it. -/
lemma QQueue.Spools.deleteProcessedBatch (hq : q.Spools) (cfg : QCfg) (b : Batch μ) :
    ∃ q', DeleteProcessedBatch cfg q b = some (q', b.reset) ∧ q'.Spools ∧
      q'.nLogDeq = q.nLogDeq - b.nElem ∧ q'.hist.dropped = q.hist.dropped := by
  obtain ⟨n, ms, q₀, hre, -, henqs⟩ := (takes_spools cfg).reEnqLoop b.pElem 0 hq
  have h₁ := henqs.chkPersist n
  obtain ⟨⟨⟨d, hd⟩, htdl⟩, hlog₁⟩ := h₁.spools hq
  have hdel : ∃ q₂, DoDeleteBatchFromQStore cfg (qqueueChkPersist cfg q₀ n) b.nElem = some q₂ ∧
      q₂.Spools ∧ q₂.nLogDeq = (qqueueChkPersist cfg q₀ n).nLogDeq - b.nElem ∧
      q₂.hist.dropped = (qqueueChkPersist cfg q₀ n).hist.dropped := by
    rw [DoDeleteBatchFromQStore, hd]
    refine ⟨_, rfl, ?_⟩
    split <;> exact ⟨⟨⟨_, rfl⟩, htdl⟩, rfl, rfl⟩
  obtain ⟨q₂, hdel, hq₂, hlog, hdropped⟩ := hdel
  refine ⟨q₂.complete b, ?_, { hq₂ with }, ?_, ?_⟩
  · simp [DeleteProcessedBatch, hre, DeleteBatchFromQStore, htdl, hdel]
  · exact hlog.trans (by rw [hlog₁])
  · exact hdropped.trans h₁.ledger.dropped

end Spools

/-! ## The loop -/

section

def ReadLoop.failed (r : ReadLoop μ) : ℕ :=
  match r.iRet with
  | .ok () => 0
  | .error _ => 1

/-- What the loop has read is in the batch or was dropped, and `nLogDeq` counts every read. -/
structure LoopReads (l : DeqLoop μ) (r : ReadLoop μ) (taken dropped : List μ) : Prop where
  pElem : r.l.pElem.map BatchElem.pMsg = l.pElem.map BatchElem.pMsg ++ taken
  hist : r.l.q.hist.dropped = l.q.hist.dropped ++ dropped
  nDiscarded : r.l.nDiscarded = l.nDiscarded + dropped.length
  got : r.got.Perm (taken ++ dropped)
  nLogDeq : r.l.q.nLogDeq = l.q.nLogDeq + r.got.length + r.failed
  spools : l.q.Spools → r.l.q.Spools

lemma QQueue.Spools.readTo {q : QQueue μ} (h : q.Spools) (p : Pos) : (q.readTo p).Spools := by
  obtain ⟨⟨d, hd⟩, htdl⟩ := h
  exact ⟨⟨_, by rw [QQueue.readTo, hd, Store.readTo]⟩, htdl⟩

lemma LoopReads.stop {l : DeqLoop μ} {q : QQueue μ} (hlog : q.nLogDeq = l.q.nLogDeq)
    (hdropped : q.hist.dropped = l.q.hist.dropped) (hspools : l.q.Spools → q.Spools) :
    LoopReads l ⟨.ok (), { l with q }, []⟩ [] [] :=
  ⟨by simp, by simpa using hdropped, rfl, .refl _, by simpa [ReadLoop.failed] using hlog, hspools⟩

variable [QMsg μ] {cfg : QCfg}

lemma LoopReads.read {l : DeqLoop μ} {r : ReadLoop μ} {taken dropped : List μ} (pMsg : μ)
    (p : Pos) (h : LoopReads (l.next cfg pMsg (l.q.readTo p)) r taken dropped) :
    ∃ taken dropped, LoopReads l { r with got := pMsg :: r.got } taken dropped := by
  have hlog : (l.next cfg pMsg (l.q.readTo p)).q.nLogDeq = l.q.nLogDeq + 1 := by
    unfold DeqLoop.next
    split <;> rfl
  have hspools : l.q.Spools → r.l.q.Spools := by
    intro hq
    refine h.spools ?_
    unfold DeqLoop.next
    split <;> exact ⟨(hq.readTo p).disk, hq.toDeleteLst⟩
  have hcount : r.l.q.nLogDeq = l.q.nLogDeq + (pMsg :: r.got).length + r.failed := by
    rw [h.nLogDeq, List.length_cons]
    omega
  obtain ⟨hpElem, hhist, hnDiscarded, hgot, -, -⟩ := h
  unfold DeqLoop.next at hpElem hhist hnDiscarded
  split at hpElem
  case isTrue hdisc =>
    rw [if_pos hdisc] at hhist hnDiscarded
    refine ⟨taken, pMsg :: dropped, hpElem, ?_, ?_, ?_, hcount, hspools⟩
    · rw [hhist]
      simp [QQueue.drop, QQueue.readTo]
    · rw [hnDiscarded, List.length_cons]
      dsimp only
      omega
    · exact (hgot.cons pMsg).trans List.perm_middle.symm
  case isFalse hdisc =>
    rw [if_neg hdisc] at hhist hnDiscarded
    refine ⟨pMsg :: taken, dropped, ?_, hhist, hnDiscarded, hgot.cons pMsg, hcount, hspools⟩
    rw [hpElem]
    simp

lemma readLoop_reads (fuel : ℕ) (rd : ℕ → ReadResult μ) (l : DeqLoop μ) :
    ∃ taken dropped, LoopReads l (readLoop cfg fuel rd l) taken dropped := by
  induction fuel generalizing rd l with
  | zero => exact ⟨[], [], .stop rfl rfl id⟩
  | succ fuel ih =>
    unfold readLoop
    split
    · split
      · exact ⟨[], [], .stop rfl rfl fun hq => { hq with }⟩
      · cases hrd : (rd 0).1 with
        | error e =>
          refine ⟨[], [], by simp, by simp [QQueue.readTo], rfl, .refl _, ?_, ?_⟩
          · simp [QQueue.readTo, ReadLoop.failed]
          · exact fun hq => hq.readTo _
        | ok pMsg =>
          obtain ⟨taken, dropped, h⟩ := ih (fun k => rd (k + 1))
            (l.next cfg pMsg (l.q.readTo (rd 0).2))
          exact h.read pMsg (rd 0).2
    · exact ⟨[], [], .stop rfl rfl id⟩

def ReadsFine (cfg : QCfg) : ℕ → (ℕ → ReadResult μ) → DeqLoop μ → Prop
  | 0, _, _ => True
  | fuel + 1, rd, l =>
    (getLogicalQueueSize l.q > 0 ∧ (l.pElem.length : ℤ) < cfg.iDeqBatchSize) →
      l.q.store.readAtWrite = false →
      ∃ pMsg, (rd 0).1 = .ok pMsg ∧
        ReadsFine cfg fuel (fun k => rd (k + 1)) (l.next cfg pMsg (l.q.readTo (rd 0).2))

lemma readLoop_failed_iff (fuel : ℕ) (rd : ℕ → ReadResult μ) (l : DeqLoop μ) :
    (readLoop cfg fuel rd l).failed = 0 ↔ ReadsFine cfg fuel rd l := by
  induction fuel generalizing rd l with
  | zero => exact ⟨fun _ => trivial, fun _ => rfl⟩
  | succ fuel ih =>
    unfold readLoop ReadsFine
    by_cases hgo : getLogicalQueueSize l.q > 0 ∧ (l.pElem.length : ℤ) < cfg.iDeqBatchSize
    · rw [if_pos hgo]
      cases hat : l.q.store.readAtWrite with
      | true => simp [ReadLoop.failed]
      | false =>
        cases hrd : (rd 0).1 with
        | error e => simp [ReadLoop.failed, hgo]
        | ok pMsg =>
          have hrest := ih (fun k => rd (k + 1)) (l.next cfg pMsg (l.q.readTo (rd 0).2))
          simp only [hgo, and_self, forall_const, Except.ok.injEq, exists_eq_left', ← hrest]
          rfl
    · simp [ReadLoop.failed, hgo]

end

/-! ## A call -/

def DeqCall.Accounted (c : DeqCall μ) (q : QQueue μ) : Prop :=
  ∃ dropped, c.q.hist.dropped = q.hist.dropped ++ dropped ∧
    c.got.Perm (c.batch.msgs ++ dropped)

section Call

variable [QMsg μ] {cfg : QCfg} {q : QQueue μ}

/-- The reads of the call succeed, once the previous batch has been completed. -/
def CallFine (cfg : QCfg) (rd : ℕ → ReadResult μ) (q : QQueue μ) (b : Batch μ) : Prop :=
  ∀ q₁ b₁, DeleteProcessedBatch cfg q b = some (q₁, b₁) →
    ReadsFine cfg (getLogicalQueueSize q₁).toNat rd ⟨{ q₁ with store := q₁.store.deqBegin }, [], 0⟩

lemma QQueue.Spools.dequeueReads (hq : q.Spools) (cfg : QCfg) (rd : ℕ → ReadResult μ)
    (b : Batch μ) :
    ∃ (c : DeqCall μ) (extra : ℕ), Queue.dequeueReads cfg rd q b = some c ∧ c.q.Spools ∧
      c.batch.nElem ≤ c.batch.nElemDeq ∧
      c.q.nLogDeq = q.nLogDeq - b.nElem + c.batch.nElemDeq + extra ∧
      (extra = 0 ↔ CallFine cfg rd q b) ∧ (CallFine cfg rd q b → c.Accounted q) := by
  obtain ⟨q₁, hdel, hq₁, hlog, hdropped⟩ := hq.deleteProcessedBatch cfg b
  have hbegin : ({ q₁ with store := q₁.store.deqBegin } : QQueue μ).Spools := by
    obtain ⟨⟨d, hd⟩, htdl⟩ := hq₁
    exact ⟨⟨_, by rw [hd, Store.deqBegin]⟩, htdl⟩
  have hfine : CallFine cfg rd q b ↔ ReadsFine cfg (getLogicalQueueSize q₁).toNat rd
      ⟨{ q₁ with store := q₁.store.deqBegin }, [], 0⟩ := by
    constructor
    · exact fun h => h q₁ _ hdel
    · intro h q₂ b₂ h₂
      obtain ⟨rfl, -⟩ := Prod.mk.inj (Option.some.inj (hdel.symm.trans h₂))
      exact h
  obtain ⟨taken, dropped, hreads⟩ : ∃ taken dropped, LoopReads _ (readLoop cfg
    (getLogicalQueueSize q₁).toNat rd ⟨{ q₁ with store := q₁.store.deqBegin }, [], 0⟩)
    taken dropped := readLoop_reads _ rd _
  rw [hfine, ← readLoop_failed_iff]
  simp only [Queue.dequeueReads, hdel, bind_eq_bind, bind_some]
  rw [show getLogicalQueueSize ({ q₁ with store := q₁.store.deqBegin } : QQueue μ) =
    getLogicalQueueSize q₁ from rfl]
  generalize readLoop cfg (getLogicalQueueSize q₁).toNat rd
    ⟨{ q₁ with store := q₁.store.deqBegin }, [], 0⟩ = r at hreads
  have hq' := hreads.spools hbegin
  have hcount := hreads.nLogDeq
  cases hret : r.iRet with
  | error e =>
    -- the batch stays as it was reset, whatever was read
    have hfailed : r.failed = 1 := by rw [ReadLoop.failed, hret]
    refine ⟨_, r.got.length + 1, rfl, hq', Nat.le_refl _, ?_, ?_, ?_⟩
    · rw [hcount, hfailed, ← hlog]
      simp [Batch.reset, add_assoc]
    · simp [hfailed]
    · simp [hfailed]
  | ok u =>
    have hfailed : r.failed = 0 := by rw [ReadLoop.failed, hret]
    have hpersist : Enqs cfg { r.l.q with store := r.l.q.store.deqEnd } []
        (qqueueChkPersist cfg { r.l.q with store := r.l.q.store.deqEnd }
          (r.l.pElem.length + r.l.nDiscarded + b.nElemDeq)) := Enqs.refl.chkPersist _
    have hend : ({ r.l.q with store := r.l.q.store.deqEnd } : QQueue μ).Spools := by
      obtain ⟨⟨d, hd⟩, htdl⟩ := hq'
      exact ⟨⟨_, by rw [hd, Store.deqEnd]⟩, htdl⟩
    obtain ⟨hspools, hlog'⟩ := hpersist.spools hend
    have hmsgs : r.l.pElem.map BatchElem.pMsg = taken := hreads.pElem
    have hlen : r.got.length = r.l.pElem.length + r.l.nDiscarded := by
      have htaken := congrArg List.length hmsgs
      rw [List.length_map] at htaken
      rw [hreads.got.length_eq, List.length_append, htaken, hreads.nDiscarded, Nat.zero_add]
    refine ⟨_, 0, rfl, { hspools with }, Nat.le_add_right _ _, ?_, ?_, ?_⟩
    · refine hlog'.trans ?_
      change r.l.q.nLogDeq = _ + ((r.l.pElem.length + r.l.nDiscarded : ℕ) : ℤ) + _
      rw [hcount, hfailed, ← hlog, hlen]
    · simp [hfailed]
    · intro _
      refine ⟨dropped, ?_, ?_⟩
      · exact hpersist.ledger.dropped.trans (hreads.hist.trans (by rw [hdropped]))
      · subst hmsgs
        exact hreads.got

end Call

/-! ## Runs -/

section

variable {n : ℕ}

def Sys.inBatches (s : Sys μ n) : ℕ := ∑ w, (s.batch w).nElemDeq

def Sys.lag (s : Sys μ n) : ℤ := s.q.nLogDeq - s.inBatches

lemma Sys.lag_update (s : Sys μ n) (w : Fin n) (q : QQueue μ) (b : Batch μ) :
    (s.update w (q, b)).lag =
      s.lag + (q.nLogDeq - s.q.nLogDeq) + ((s.batch w).nElemDeq - b.nElemDeq) := by
  have hsum : (s.update w (q, b)).inBatches + (s.batch w).nElemDeq = s.inBatches + b.nElemDeq :=
    s.sum_update Batch.nElemDeq w (q, b)
  have hq : (s.update w (q, b)).q = q := rfl
  unfold Sys.lag
  rw [hq]
  omega

structure SpoolSys (s : Sys μ n) : Prop where
  spools : s.q.Spools
  nElem_le : ∀ w, (s.batch w).nElem ≤ (s.batch w).nElemDeq

variable {s : Sys μ n}

lemma SpoolSys.update (h : SpoolSys s) (w : Fin n) {r : QQueue μ × Batch μ} (hq : r.1.Spools)
    (hb : r.2.nElem ≤ r.2.nElemDeq) : SpoolSys (s.update w r) := by
  refine ⟨hq, fun v => ?_⟩
  by_cases hv : v = w
  · subst hv
    rwa [Sys.update_batch_self]
  · rw [Sys.update_batch_of_ne s hv]
    exact h.nElem_le v

lemma SpoolSys.setState (h : SpoolSys s) (w : Fin n) (i : ℕ) (st : BatchState) :
    SpoolSys (s.update w (s.q, (s.batch w).setState i st)) ∧
      (s.update w (s.q, (s.batch w).setState i st)).lag = s.lag := by
  have hlen : ((s.batch w).setState i st).nElem = (s.batch w).nElem := by
    simp [Batch.setState, Batch.nElem]
  have hdeq : ((s.batch w).setState i st).nElemDeq = (s.batch w).nElemDeq := rfl
  refine ⟨h.update w h.spools ?_, ?_⟩
  · rw [hlen, hdeq]
    exact h.nElem_le w
  · rw [s.lag_update, hdeq, sub_self, sub_self, add_zero, add_zero]

lemma SpoolSys.init {cfg : QCfg} (hdisk : cfg.qType = .disk) :
    SpoolSys (Sys.init cfg n : Sys μ n) ∧ (Sys.init cfg n : Sys μ n).lag = 0 := by
  refine ⟨⟨⟨⟨qConstructDisk, ?_⟩, rfl⟩, fun w => Nat.le_refl _⟩, ?_⟩
  · simp only [Sys.init, QQueue.construct, Store.construct, hdisk]
  · simp [Sys.lag, Sys.init, QQueue.construct, Sys.inBatches, Batch.empty]

variable [QMsg μ]

/-- No read of the step fails, and no message was discarded when the batch that it completes was
dequeued. -/
def Clean (cfg : QCfg) (s : Sys μ n) (e : Event μ n × (ℕ → ReadResult μ)) : Prop :=
  match e.1 with
  | .dequeue w => (s.batch w).nElem = (s.batch w).nElemDeq ∧ CallFine cfg e.2 s.q (s.batch w)
  | .complete w => (s.batch w).nElem = (s.batch w).nElemDeq
  | _ => True

lemma SpoolSys.complete (h : SpoolSys s) (cfg : QCfg) (w : Fin n) :
    ∃ s', Queue.step cfg s (.complete w) = some s' ∧ SpoolSys s' ∧
      s'.lag = s.lag + ((s.batch w).nElemDeq - (s.batch w).nElem) := by
  obtain ⟨q', hdel, hq', hlog, -⟩ := h.spools.deleteProcessedBatch cfg (s.batch w)
  refine ⟨s.update w (q', (s.batch w).reset), ?_, h.update w hq' (Nat.le_refl _), ?_⟩
  · rw [Queue.step, batchProcessed, hdel]
    rfl
  · have hreset : (s.batch w).reset.nElemDeq = 0 := rfl
    rw [s.lag_update]
    omega

lemma SpoolSys.dequeue (h : SpoolSys s) (cfg : QCfg) (rd : ℕ → ReadResult μ) (w : Fin n) :
    ∃ (c : DeqCall μ) (extra : ℕ), dequeueReads cfg rd s.q (s.batch w) = some c ∧
      SpoolSys (s.update w (c.q, c.batch)) ∧
      (s.update w (c.q, c.batch)).lag = s.lag + ((s.batch w).nElemDeq - (s.batch w).nElem) + extra ∧
      (extra = 0 ↔ CallFine cfg rd s.q (s.batch w)) ∧
      (CallFine cfg rd s.q (s.batch w) → c.Accounted s.q) := by
  obtain ⟨c, extra, hc, hq, hle, hlog, hextra, hacc⟩ := h.spools.dequeueReads cfg rd (s.batch w)
  refine ⟨c, extra, hc, h.update w hq hle, ?_, hextra, hacc⟩
  rw [s.lag_update]
  omega

lemma SpoolSys.enqs (h : SpoolSys s) {cfg : QCfg} {ms : List μ} {q' : QQueue μ}
    (henq : Enqs cfg s.q ms q') :
    SpoolSys { s with q := q' } ∧ ({ s with q := q' } : Sys μ n).lag = s.lag := by
  refine ⟨⟨(henq.spools h.spools).1, h.nElem_le⟩, ?_⟩
  simp only [Sys.lag, (henq.spools h.spools).2]
  rfl

lemma SpoolSys.step (h : SpoolSys s) (cfg : QCfg) (e : Event μ n × (ℕ → ReadResult μ)) :
    ∃ s', stepReads cfg s e = some s' ∧ SpoolSys s' ∧ s.lag ≤ s'.lag ∧
      (s'.lag = s.lag ↔ Clean cfg s e) := by
  obtain ⟨e, rd⟩ := e
  -- the steps that read and complete nothing
  have hkeep : ∀ s' : Sys μ n, SpoolSys s' ∧ s'.lag = s.lag → stepReads cfg s (e, rd) = some s' →
      Clean cfg s (e, rd) → ∃ s', stepReads cfg s (e, rd) = some s' ∧ SpoolSys s' ∧
        s.lag ≤ s'.lag ∧ (s'.lag = s.lag ↔ Clean cfg s (e, rd)) :=
    fun s' hs' hstep hclean => ⟨s', hstep, hs'.1, hs'.2.ge, iff_of_true hs'.2 hclean⟩
  cases e with
  | enqMsg m =>
    obtain ⟨ms, q', -, henqs, henq⟩ := (takes_spools cfg).qqueueEnqMsg m h.spools
    exact hkeep _ (h.enqs henqs) (by simp [stepReads, Queue.step, henq]) trivial
  | multiEnq offered =>
    obtain ⟨ms, q', -, henqs, henq⟩ :=
      (takes_spools cfg).qqueueMultiEnqObjNonDirect offered h.spools
    exact hkeep _ (h.enqs henqs) (by simp [stepReads, Queue.step, henq]) trivial
  | dequeue w =>
    obtain ⟨c, extra, hc, hs', hlag, hextra, -⟩ := h.dequeue cfg rd w
    have hle := h.nElem_le w
    refine ⟨_, by simp [stepReads, hc], hs', by omega, ?_⟩
    simp only [Clean, ← hextra]
    omega
  | complete w =>
    obtain ⟨s', hs', hsys, hlag⟩ := h.complete cfg w
    have hle := h.nElem_le w
    refine ⟨s', hs', hsys, by omega, ?_⟩
    simp only [Clean]
    omega
  | setState w i st => exact hkeep _ (h.setState w i st) rfl trivial
  | setEnqOnly b =>
    exact hkeep { s with q := { s.q with bEnqOnly := b } }
      ⟨⟨{ h.spools with }, h.nElem_le⟩, rfl⟩ rfl trivial
  | setInputTerm b =>
    exact hkeep { s with q := { s.q with inputTerm := b } }
      ⟨⟨{ h.spools with }, h.nElem_le⟩, rfl⟩ rfl trivial

lemma SpoolSys.run (h : SpoolSys s) (cfg : QCfg) (es : List (Event μ n × (ℕ → ReadResult μ))) :
    ∃ s', Lib.run (stepReads cfg) s es = some s' ∧ SpoolSys s' ∧ s.lag ≤ s'.lag ∧
      (s'.lag = s.lag ↔ Along (stepReads cfg) (Clean cfg) s es) := by
  induction es generalizing s with
  | nil => exact ⟨s, rfl, h, le_rfl, iff_of_true rfl trivial⟩
  | cons e es ih =>
    obtain ⟨s₁, hs₁, h₁, hle₁, hiff₁⟩ := h.step cfg e
    obtain ⟨s', hs', h', hle', hiff'⟩ := ih h₁
    refine ⟨s', by rw [run_cons, hs₁]; exact hs', h', hle₁.trans hle', ?_⟩
    have hboth : s'.lag = s.lag ↔ s₁.lag = s.lag ∧ s'.lag = s₁.lag := by omega
    rw [hboth, hiff₁, hiff', along_cons hs₁]

/-- After a call in a run of a disk queue, every message that it read is in the worker's batch or
was discarded, and `nLogDeq` is the number of elements in all batches, exactly if no read has failed
so far and no batch with discarded messages was completed. -/
theorem dequeue_accounted_iff {cfg : QCfg} (hdisk : cfg.qType = .disk) (n : ℕ)
    (es : List (Event μ n × (ℕ → ReadResult μ))) (w : Fin n) (rd : ℕ → ReadResult μ) :
    ∃ s c, Lib.run (stepReads cfg) (Sys.init cfg n) es = some s ∧
      dequeueReads cfg rd s.q (s.batch w) = some c ∧
      (c.Accounted s.q ∧ c.q.nLogDeq = (s.update w (c.q, c.batch)).inBatches ↔
        Along (stepReads cfg) (Clean cfg) (Sys.init cfg n) es ∧ Clean cfg s (.dequeue w, rd)) := by
  obtain ⟨hinit, hzero⟩ := SpoolSys.init (μ := μ) (n := n) hdisk
  obtain ⟨s, hs, hsys, hle, hiff⟩ := hinit.run cfg es
  obtain ⟨c, extra, hc, -, hlag, hextra, hacc⟩ := hsys.dequeue cfg rd w
  refine ⟨s, c, hs, hc, ?_⟩
  have hle' := hsys.nElem_le w
  have hexact : c.q.nLogDeq = (s.update w (c.q, c.batch)).inBatches ↔
      (s.update w (c.q, c.batch)).lag = 0 := by
    have hq : (s.update w (c.q, c.batch)).q = c.q := rfl
    rw [Sys.lag, hq]
    omega
  have hclean : Clean cfg s (.dequeue w, rd) ↔
      (s.batch w).nElem = (s.batch w).nElemDeq ∧ extra = 0 := by
    simp only [Clean, hextra]
  rw [← hiff, hclean]
  constructor
  · omega
  · rintro ⟨hrun, hbatch, hreads⟩
    exact ⟨hacc (hextra.1 hreads), by omega⟩

end

/-! ## A message that is lost -/

def thenFails (m : Fin 8) : ℕ → ReadResult (Fin 8)
  | 0 => (.ok m, ⟨1, 1⟩)
  | _ => (.error .fileNotFound, ⟨1, 1⟩)

def twoEnqueued : List (Event (Fin 8) 1 × (ℕ → ReadResult (Fin 8))) :=
  [(.enqMsg (severity 3), thenFails (severity 3)), (.enqMsg (severity 3), thenFails (severity 3))]

def sole : Fin 1 := ⟨0, Nat.one_pos⟩

/-- Where both messages can be read, both are in the batch. -/
theorem dequeue_accounted_iff_twoEnqueued :
    ∃ s c, Lib.run (stepReads (discardingCfg .disk)) (Sys.init (discardingCfg .disk) 1)
        twoEnqueued = some s ∧
      dequeueReads (discardingCfg .disk) (fun _ => (.ok (severity 3), ⟨1, 1⟩)) s.q (s.batch sole) =
        some c ∧
      c.Accounted s.q ∧ c.q.nLogDeq = (s.update sole (c.q, c.batch)).inBatches := by
  obtain ⟨s, c, hs, hc, hiff⟩ := @dequeue_accounted_iff _ _ (discardingCfg .disk) rfl 1
    twoEnqueued sole fun _ => (.ok (severity 3), ⟨1, 1⟩)
  refine ⟨s, c, hs, hc, hiff.mpr ⟨⟨trivial, fun _ _ => ⟨trivial, fun _ _ => trivial⟩⟩, ?_⟩⟩
  cases hs
  refine ⟨rfl, fun q₁ b₁ h => (readLoop_failed_iff ..).mp ?_⟩
  cases h
  decide +kernel

/-- One message was read, and is neither in the batch nor discarded. Both reads are counted. -/
theorem read_before_failure_lost :
    ∃ s c, Lib.run (stepReads (discardingCfg .disk)) (Sys.init (discardingCfg .disk) 1)
        twoEnqueued = some s ∧
      dequeueReads (discardingCfg .disk) (thenFails (severity 3)) s.q (s.batch sole) = some c ∧
      c.got = [severity 3] ∧ c.batch.msgs = [] ∧ c.q.hist.dropped = s.q.hist.dropped ∧
      c.q.nLogDeq = 2 ∧ (s.update sole (c.q, c.batch)).inBatches = 0 :=
  ⟨_, _, rfl, rfl, rfl, rfl, rfl, rfl, by decide⟩

end Rsyslog.Queue
