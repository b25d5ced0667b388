import Mathlib.Algebra.BigOperators.Fin
import Mathlib.Algebra.Order.BigOperators.Group.Finset
import Rsyslog.Queue.Effect

/-!
# The two counters of a queue over whole runs

`iQueueSize` counts what the store holds, `nLogDeq` what of it was handed out. The invariant `Inv`
ties both to the history: the store holds what was accepted and not completed, and what is handed
out and not deleted is what the workers hold, plus every message that the dequeue loop ever dropped.

`DequeueConsumableElements` counts a dropped message in `nElemDeq`, but the completion of the batch
deletes only `nElem` messages, so a dropped message stays counted in both counters.
`counters_exact_iff` says that this is the only way to lose count.
-/

namespace Rsyslog.Queue

open Lib List

variable {μ : Type} {cfg : QCfg} {n : ℕ}

/-! ## The ledger of a queue -/

def Hist.deqCount (h : Hist μ) : ℕ := h.dropped.length + (h.handed.map fun b => b.2.length).sum

def Hist.waiting (h : Hist μ) : List μ := h.accepted.drop h.deqCount

/-- The history explains a store that holds `xs`, the first `k` of them handed out. -/
structure QQueue.Explains (q : QQueue μ) (xs : List μ) (k : ℕ) : Prop where
  size : q.hist.accepted.length = q.hist.completed.length + xs.length
  deqCount : q.hist.deqCount = q.hist.completed.length + k
  waiting : q.hist.waiting = xs.drop k

lemma QQueue.Explains.ledger {q q' : QQueue μ} {xs acc comp : List μ} {k : ℕ}
    (h : q.Explains xs k) (hlive : k ≤ xs.length) (hled : Ledger q acc comp q')
    (hcomp : comp.length ≤ k) : q'.Explains ((xs ++ acc).drop comp.length) (k - comp.length) := by
  have hcount : q'.hist.deqCount = q.hist.deqCount := by
    rw [Hist.deqCount, Hist.deqCount, hled.dropped, hled.handed]
  have hsize := h.size
  have hdeq := h.deqCount
  refine ⟨?_, ?_, ?_⟩
  · rw [hled.accepted, hled.completed, length_append, length_append, length_drop,
      length_append]
    omega
  · rw [hled.completed, length_append]
    omega
  · rw [Hist.waiting, hcount, hled.accepted, drop_append_of_le_length (by omega),
      drop_drop, show comp.length + (k - comp.length) = k by omega,
      drop_append_of_le_length hlive, ← h.waiting]
    rfl

lemma QQueue.Explains.read {q q' : QQueue μ} {xs : List μ} {k : ℕ} (h : q.Explains xs k) (j : ℕ)
    (haccepted : q'.hist.accepted = q.hist.accepted)
    (hcompleted : q'.hist.completed = q.hist.completed)
    (hcount : q'.hist.deqCount = q.hist.deqCount + j) : q'.Explains xs (k + j) where
  size := by rw [haccepted, hcompleted]; exact h.size
  deqCount := by rw [hcount, hcompleted, h.deqCount, add_assoc]
  waiting := by
    rw [Hist.waiting, hcount, haccepted, ← drop_drop, ← drop_drop, ← h.waiting]
    rfl

/-! ## The invariant -/

def Sys.held (s : Sys μ n) : ℕ := ∑ w, (s.batch w).nElem

lemma Sys.nElem_le_held (s : Sys μ n) (w : Fin n) : (s.batch w).nElem ≤ s.held :=
  Finset.single_le_sum (f := fun w => (s.batch w).nElem) (fun _ _ => Nat.zero_le _)
    (Finset.mem_univ w)

lemma Sys.sum_update (f : Batch μ → ℕ) (s : Sys μ n) (w : Fin n) (r : QQueue μ × Batch μ) :
    (∑ v, f ((s.update w r).batch v)) + f (s.batch w) = (∑ v, f (s.batch v)) + f r.2 := by
  have hupd : ∀ v, f (Function.update s.batch w r.2 v) =
      Function.update (fun v => f (s.batch v)) w (f r.2) v := fun v => by
    by_cases hv : v = w
    · subst hv
      rw [Function.update_self, Function.update_self]
    · rw [Function.update_of_ne hv, Function.update_of_ne hv]
  have hsum := Finset.sum_erase_add Finset.univ (fun v => f (s.batch v)) (Finset.mem_univ w)
  simp only [Sys.update, hupd, Finset.sum_update_of_mem (Finset.mem_univ w),
    Finset.sdiff_singleton_eq_erase]
  omega

lemma Sys.held_update (s : Sys μ n) (w : Fin n) (r : QQueue μ × Batch μ) :
    (s.update w r).held + (s.batch w).nElem = s.held + r.2.nElem :=
  s.sum_update Batch.nElem w r

structure Inv (cfg : QCfg) (s : Sys μ n) (xs : List μ) (k : ℕ) : Prop where
  holds : s.q.Holds cfg xs k
  explains : s.q.Explains xs k
  toDeleteLst : s.q.toDeleteLst = []
  handedOut : k = s.q.hist.dropped.length + s.held

lemma Inv.init (hmax : cfg.qType = .fixedArray → 1 ≤ cfg.iMaxQueueSize) :
    Inv cfg (Sys.init cfg n : Sys μ n) [] 0 where
  holds := ⟨Store.Rep.construct hmax, rfl, rfl⟩
  explains := ⟨rfl, rfl, rfl⟩
  toDeleteLst := rfl
  handedOut := by
    simp [Sys.init, QQueue.construct, Sys.held, Batch.nElem, Batch.empty]

@[simp] lemma Batch.nElem_reset (b : Batch μ) : b.reset.nElem = 0 := rfl

lemma Batch.length_msgs (b : Batch μ) : b.msgs.length = b.nElem := length_map _

@[simp] lemma Sys.update_batch_self (s : Sys μ n) (w : Fin n) (r : QQueue μ × Batch μ) :
    (s.update w r).batch w = r.2 := Function.update_self ..

lemma Sys.update_batch_of_ne (s : Sys μ n) {v w : Fin n} (hv : v ≠ w) (r : QQueue μ × Batch μ) :
    (s.update w r).batch v = s.batch v := Function.update_of_ne hv ..

lemma Sys.update_update (s : Sys μ n) (w : Fin n) (r r' : QQueue μ × Batch μ) :
    (s.update w r).update w r' = s.update w r' := by
  simp [Sys.update, Function.update_idem]

variable [QMsg μ] {s s' : Sys μ n} {xs : List μ} {k : ℕ}

def Event.offers (s : Sys μ n) : Event μ n → List μ
  | .enqMsg pMsg => [pMsg]
  | .multiEnq ppMsgs => ppMsgs
  | .dequeue w => (s.batch w).msgs
  | .complete w => (s.batch w).msgs
  | _ => []

lemma Inv.enqs (h : Inv cfg s xs k) {q' : QQueue μ} {ms : List μ} (henq : Enqs cfg s.q ms q')
    (hroom : s.q.store.Room cfg ms) : Inv cfg { s with q := q' } (xs ++ ms) k where
  holds := henq.holds h.holds hroom
  explains := h.explains.ledger h.holds.rep.live henq.ledger (Nat.zero_le _)
  toDeleteLst := henq.ledger.toDeleteLst.trans h.toDeleteLst
  handedOut := by rw [henq.ledger.dropped]; exact h.handedOut

lemma Inv.complete (h : Inv cfg s xs k) (w : Fin n) (hroom : s.q.store.Room cfg (s.batch w).msgs) :
    ∃ q' ms, DeleteProcessedBatch cfg s.q (s.batch w) = some (q', (s.batch w).reset) ∧
      Ledger s.q ms (s.batch w).msgs q' ∧
      Inv cfg (s.update w (q', (s.batch w).reset)) ((xs ++ ms).drop (s.batch w).nElem)
        (k - (s.batch w).nElem) := by
  have hle : (s.batch w).nElem ≤ k := by
    have := h.handedOut
    have := s.nElem_le_held w
    omega
  obtain ⟨ms, -, q₂, -, -, -, hdel, hholds, hled⟩ :=
    DeleteProcessedBatch_spec h.holds h.toDeleteLst hle hroom
  have hexp := h.explains.ledger h.holds.rep.live hled (by rwa [Batch.length_msgs])
  rw [Batch.length_msgs] at hexp
  refine ⟨q₂.complete (s.batch w), ms, hdel, hled, hholds, hexp,
    hled.toDeleteLst.trans h.toDeleteLst, ?_⟩
  have hheld := s.held_update w (q₂.complete (s.batch w), (s.batch w).reset)
  have hk := h.handedOut
  rw [Batch.nElem_reset] at hheld
  show k - _ = (q₂.complete (s.batch w)).hist.dropped.length + _
  rw [hled.dropped]
  omega

/-- A dequeue by `w` keeps the invariant. `q₁` is the queue after the completion of the previous
batch, `rs` is what the loop read. -/
lemma Inv.dequeue (h : Inv cfg s xs k) (w : Fin n) (hroom : s.q.store.Room cfg (s.batch w).msgs) :
    ∃ q₁ ms rs r, DeleteProcessedBatch cfg s.q (s.batch w) = some (q₁, (s.batch w).reset) ∧
      Ledger s.q ms (s.batch w).msgs q₁ ∧
      ReadsUpTo cfg q₁.iQueueSize 0 q₁.hist.waiting.length rs ∧
      rs.map Prod.fst = q₁.hist.waiting.take rs.length ∧
      DequeueConsumableElements cfg s.q (s.batch w) = some r ∧ Dequeued cfg q₁ rs r ∧
      Inv cfg (s.update w r) ((xs ++ ms).drop (s.batch w).nElem)
        (k - (s.batch w).nElem + rs.length) := by
  obtain ⟨q₁, ms, hcomp, hled, hinv⟩ := h.complete w hroom
  obtain ⟨rs, store, r, hreads, hupto, -, hdeq, hr, hholds⟩ :=
    DequeueConsumableElements_spec hcomp hinv.holds
  have hlen : k - (s.batch w).nElem + rs.length ≤ ((xs ++ ms).drop (s.batch w).nElem).length := by
    have := hupto.le
    have := hinv.holds.rep.live
    omega
  have hwait : q₁.hist.waiting = _ := hinv.explains.waiting
  have hcount := takeElems_length_add_dropElems_length cfg q₁.iQueueSize rs
  have hnew : r.2.nElem = (takeElems cfg q₁.iQueueSize rs).length := by rw [hr.batch]; rfl
  refine ⟨q₁, ms, rs, r, hcomp, hled, ?_, ?_, hdeq, hr, hholds, ?_, ?_, ?_⟩
  · rwa [hwait, length_drop]
  · rw [hwait]
    exact (hreads.spec hinv.holds.rep.deqBegin hlen).1
  · refine hinv.explains.read rs.length ?_ ?_ ?_ <;> simp only [Sys.update, hr.hist, Hist.deqCount,
      length_append, map_append, sum_append, map_cons, map_nil,
      sum_singleton, Batch.length_msgs, hnew]
    omega
  · exact hr.toDeleteLst.trans hinv.toDeleteLst
  · have hheld := (s.update w (q₁, (s.batch w).reset)).held_update w r
    have hempty : ((s.update w (q₁, (s.batch w).reset)).batch w).nElem = 0 := by simp
    have hk : k - (s.batch w).nElem =
        q₁.hist.dropped.length + (s.update w (q₁, (s.batch w).reset)).held := hinv.handedOut
    rw [Sys.update_update] at hheld
    show _ = r.1.hist.dropped.length + _
    rw [hr.hist, length_append]
    omega

/-! ## Exact counting -/

/-- No message to drop is among those that the step's dequeue may read: the first `iDeqBatchSize`
that wait when the worker's previous batch has been completed. -/
def NoDiscard (cfg : QCfg) (s : Sys μ n) : Event μ n → Prop
  | .dequeue w => ∀ q₁ b₁, DeleteProcessedBatch cfg s.q (s.batch w) = some (q₁, b₁) →
      ∀ m ∈ q₁.hist.waiting.take cfg.iDeqBatchSize.toNat,
        qqueueChkDiscardMsg cfg q₁.iQueueSize m = false
  | _ => True

instance (cfg : QCfg) (s : Sys μ n) : ∀ e : Event μ n, Decidable (NoDiscard cfg s e)
  | .dequeue w =>
    match h : DeleteProcessedBatch cfg s.q (s.batch w) with
    | none => .isTrue fun _ _ heq => by rw [h] at heq; cases heq
    | some (q₁, _) =>
      decidable_of_iff (∀ m ∈ q₁.hist.waiting.take cfg.iDeqBatchSize.toNat,
        qqueueChkDiscardMsg cfg q₁.iQueueSize m = false) (by simp [NoDiscard, h])
  | .enqMsg _ | .multiEnq _ | .complete _ | .setState .. | .setEnqOnly _ | .setInputTerm _ =>
    .isTrue trivial

lemma Inv.step (h : Inv cfg s xs k) (e : Event μ n) (hroom : s.q.store.Room cfg (e.offers s)) :
    ∃ s' ys j, step cfg s e = some s' ∧ Inv cfg s' ys j ∧
      (s'.q.hist.dropped = s.q.hist.dropped ↔ NoDiscard cfg s e) := by
  cases e with
  | enqMsg m =>
    obtain ⟨ms, q', hms, henqs, henq⟩ := takes_holds.qqueueEnqMsg m ⟨_, h.holds, hroom⟩
    exact ⟨_, _, _, by rw [Queue.step, henq]; rfl, h.enqs henqs (hroom.sublist hms),
      iff_of_true henqs.ledger.dropped trivial⟩
  | multiEnq offered =>
    obtain ⟨ms, q', hms, henqs, henq⟩ :=
      takes_holds.qqueueMultiEnqObjNonDirect offered ⟨_, h.holds, hroom⟩
    exact ⟨_, _, _, by rw [Queue.step, henq]; rfl, h.enqs henqs (hroom.sublist hms),
      iff_of_true henqs.ledger.dropped trivial⟩
  | dequeue w =>
    obtain ⟨q₁, ms, rs, r, hcomp, hled, hupto, hmap, hdeq, hr, hinv⟩ := h.dequeue w hroom
    refine ⟨_, _, _, by rw [Queue.step, hdeq]; rfl, hinv, ?_⟩
    have hdropped : (s.update w r).q.hist.dropped =
        s.q.hist.dropped ++ dropElems cfg q₁.iQueueSize rs := by
      rw [Sys.update, hr.hist, hled.dropped]
    -- what is dropped is decided at the size the loop starts with, once the batch is completed
    rw [hdropped, append_right_eq_self, hupto.dropElems_eq_nil_iff hmap]
    constructor
    · intro hkeep q₂ b₂ hcomp₂
      obtain ⟨rfl, -⟩ := Prod.mk.inj (Option.some.inj (hcomp.symm.trans hcomp₂))
      exact hkeep
    · intro hno
      exact hno q₁ _ hcomp
  | complete w =>
    obtain ⟨q', ms, hdel, hled, hinv⟩ := h.complete w hroom
    exact ⟨_, _, _, by rw [Queue.step, batchProcessed, hdel]; rfl, hinv,
      iff_of_true hled.dropped trivial⟩
  | setState w i st =>
    refine ⟨_, _, _, rfl, { h with handedOut := ?_ }, iff_of_true rfl trivial⟩
    have hheld := s.held_update w (s.q, (s.batch w).setState i st)
    rw [show ((s.batch w).setState i st).nElem = (s.batch w).nElem by
      simp [Batch.setState, Batch.nElem]] at hheld
    rw [Nat.add_right_cancel hheld]
    exact h.handedOut
  | setEnqOnly b | setInputTerm b =>
    exact ⟨_, _, _, rfl, { h with holds := { h.holds with }, explains := { h.explains with } },
      iff_of_true rfl trivial⟩

/-- The counters say what the history says, and are zero once everything was dequeued and every
batch completed. -/
def CountersExact (s : Sys μ n) : Prop :=
  s.q.iQueueSize = (s.q.hist.accepted.length : ℤ) -
      ((s.q.hist.dropped.length + s.q.hist.completed.length : ℕ) : ℤ) ∧
    0 ≤ s.q.nLogDeq ∧ s.q.nLogDeq ≤ s.q.iQueueSize ∧
    (s.q.hist.waiting = [] → (∀ w, (s.batch w).nElem = 0) → s.q.iQueueSize = 0 ∧ s.q.nLogDeq = 0)

omit [QMsg μ] in
lemma Inv.countersExact_iff (h : Inv cfg s xs k) : CountersExact s ↔ s.q.hist.dropped = [] := by
  have hlive := h.holds.rep.live
  have hsize := h.explains.size
  rw [CountersExact, h.holds.size, h.holds.logDeq]
  constructor
  · rintro ⟨hcount, -⟩
    exact eq_nil_of_length_eq_zero (by omega)
  · intro hnil
    rw [hnil, length_nil]
    refine ⟨by omega, by omega, by omega, fun hwait hidle => ?_⟩
    have hheld : s.held = 0 := Finset.sum_eq_zero fun w _ => hidle w
    have hk := h.handedOut
    rw [hnil, length_nil] at hk
    have hdrop := congrArg List.length (h.explains.waiting.symm.trans hwait)
    rw [length_drop, length_nil] at hdrop
    omega

/-- **Exactly the runs without a discard at dequeue keep count.** A run of a memory queue never
leaves defined behaviour, and its counters are exact in every state if and only if none of its
dequeues meets a message to drop. -/
theorem counters_exact_iff (hmem : cfg.qType ≠ .disk) (hmax : 1 ≤ cfg.iMaxQueueSize) (n : ℕ)
    (es : List (Event μ n)) :
    (∃ s, run (step cfg) (Sys.init cfg n) es = some s) ∧
      (Always (step cfg) CountersExact (Sys.init cfg n) es ↔
        Along (step cfg) (NoDiscard cfg) (Sys.init cfg n) es) := by
  have hstep : ∀ (s : Sys μ n) (e : Event μ n), (∃ xs k, Inv cfg s xs k) →
      ∃ s', step cfg s e = some s' ∧ (∃ xs k, Inv cfg s' xs k) ∧
        (s'.q.hist.dropped = s.q.hist.dropped ↔ NoDiscard cfg s e) := by
    rintro s e ⟨xs, k, h⟩
    obtain ⟨s', ys, j, hs', hinv, hiff⟩ := h.step e (h.holds.rep.room_of_memory hmem _)
    exact ⟨s', hs', ⟨ys, j, hinv⟩, hiff⟩
  have hinit : ∃ xs k, Inv cfg (Sys.init cfg n : Sys μ n) xs k := ⟨[], 0, Inv.init fun _ => hmax⟩
  have hkeep : ∀ (s : Sys μ n) (e : Event μ n) (s' : Sys μ n), (∃ xs k, Inv cfg s xs k) →
      step cfg s e = some s' → ∃ xs k, Inv cfg s' xs k := by
    intro s e s' h hs'
    obtain ⟨t, ht, hinv, -⟩ := hstep s e h
    rwa [Option.some.inj (hs'.symm.trans ht)]
  have hflag : ∀ (s : Sys μ n) (e : Event μ n) (s' : Sys μ n), (∃ xs k, Inv cfg s xs k) →
      CountersExact s → step cfg s e = some s' → (CountersExact s' ↔ NoDiscard cfg s e) := by
    rintro s e s' ⟨xs, k, h⟩ hexact hs'
    obtain ⟨t, ht, ⟨ys, j, hinv⟩, hiff⟩ := hstep s e ⟨xs, k, h⟩
    obtain rfl := Option.some.inj (hs'.symm.trans ht)
    rw [hinv.countersExact_iff, ← hiff, h.countersExact_iff.mp hexact]
  constructor
  · obtain ⟨s, hs, -⟩ := run_defined
      (fun s e h => (hstep s e h).imp fun _ h => ⟨h.1, h.2.1⟩) es hinit
    exact ⟨s, hs⟩
  · exact always_iff_along hkeep (fun s e h => (hstep s e h).imp fun _ h => h.1) hflag es hinit
      ((Inv.init fun _ => hmax).countersExact_iff.mpr rfl)

/-! ## A run that loses count -/

instance : QMsg (Fin 8) where
  iSeverity m := m
  recLen _ := 1
  recLen_pos _ := Nat.one_pos

def severity (n : ℕ) : Fin 8 := Fin.ofNat 8 n

def worker (n : ℕ) : Fin 2 := Fin.ofNat 2 n

def discardingCfg (qType : QueueType) : QCfg where
  qType := qType
  iMaxQueueSize := 10
  iDeqBatchSize := 8
  iDiscardMrk := 2
  iDiscardSeverity := 5
  iSmpInterval := 0
  toEnq := 0
  bIsDA := false
  sizeOnDiskMax := 0
  iPersistUpdCnt := 0
  iMaxFileSize := 1000
  sIOBufSize := 4096

def twoWorkerRun : List (Event (Fin 8) 2) :=
  [.enqMsg (severity 6), .dequeue (worker 0), .enqMsg (severity 3), .enqMsg (severity 3),
    .complete (worker 0), .dequeue (worker 1)]

theorem counters_exact_iff_twoWorkerRun :
    (discardingCfg .linkedList).qType ≠ .disk ∧ 1 ≤ (discardingCfg .linkedList).iMaxQueueSize ∧
      (Always (step (discardingCfg .linkedList)) CountersExact
          (Sys.init (discardingCfg .linkedList) 2)
          twoWorkerRun ↔
        Along (step (discardingCfg .linkedList)) (NoDiscard (discardingCfg .linkedList))
          (Sys.init (discardingCfg .linkedList) 2) twoWorkerRun) :=
  ⟨by decide, by decide, (counters_exact_iff (by decide) (by decide) 2 twoWorkerRun).2⟩

/-- Two informational messages are enqueued below the discard mark, and dropped when they are
dequeued. The batch is completed and nothing is left, but both counters stay at two. -/
def LosesCount (qType : QueueType) : Prop :=
  ∃ s, run (step (discardingCfg qType)) (Sys.init (discardingCfg qType) 1 : Sys (Fin 8) 1)
      [.enqMsg 6, .enqMsg 6, .dequeue 0, .complete 0] = some s ∧
    s.q.hist.accepted = [6, 6] ∧ s.q.hist.dropped = [6, 6] ∧ s.q.hist.waiting = [] ∧
    (∀ w, (s.batch w).nElem = 0) ∧ s.q.iQueueSize = 2 ∧ s.q.nLogDeq = 2

theorem dropped_messages_stay_counted : LosesCount .fixedArray ∧ LosesCount .linkedList := by
  constructor
  · exact ⟨_, rfl, rfl, rfl, rfl, by decide, rfl, rfl⟩
  · exact ⟨_, rfl, rfl, rfl, rfl, by decide, rfl, rfl⟩

end Rsyslog.Queue
