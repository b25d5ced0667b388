import Mathlib.Data.List.Flatten
import Rsyslog.Queue.Counters

/-!
# Both memory back ends implement one bounded FIFO

What a queue is for, without indices and pointers: a list of stored messages with a bound, from
which batches are handed out in order, and from which messages go only when their batch is
completed. `Fifo` is that list with its history, `FifoSys` adds the workers.

`Sim` relates a system to its abstract counterpart. Each queue function is simulated by one
operation of the list, and so is every run, whichever back end stores the messages.
-/

namespace Rsyslog.Queue

open Lib List Batch

variable {μ : Type} {n : ℕ}

/-! ## The abstract queue -/

/-- A bounded FIFO with its history. The first `taken` of the stored messages are handed out. -/
structure Fifo (μ : Type) where
  stored : List μ
  taken : ℕ
  bEnqOnly : Bool
  inputTerm : Bool
  accepted : List μ
  handed : List (List μ)
  results : List RsRet

namespace Fifo

def empty : Fifo μ := ⟨[], 0, false, false, [], [], []⟩

def waiting (f : Fifo μ) : List μ := f.stored.drop f.taken

def full (cfg : QCfg) (f : Fifo μ) : RsRet :=
  if cfg.toEnq = 0 ∨ f.bEnqOnly then .queueFull
  else if f.inputTerm then .forceTerm
  else .queueFull

def offer (cfg : QCfg) (f : Fifo μ) (m : μ) : RsRet × Fifo μ :=
  if f.stored.length < cfg.iMaxQueueSize then
    (.ok, { f with
      stored := f.stored ++ [m], accepted := f.accepted ++ [m], results := f.results ++ [.ok] })
  else (f.full cfg, { f with results := f.results ++ [f.full cfg] })

def offerAll (cfg : QCfg) (f : Fifo μ) : List μ → Fifo μ
  | [] => f
  | m :: ms =>
    if (f.offer cfg m).1 ≠ .ok ∧ (f.offer cfg m).1 ≠ .queueFull then (f.offer cfg m).2
    else offerAll cfg (f.offer cfg m).2 ms

def reoffer (cfg : QCfg) (f : Fifo μ) : List (μ × BatchState) → Fifo μ
  | [] => f
  | (m, st) :: es =>
    if st = .rdy ∨ st = .sub then reoffer cfg (f.offer cfg m).2 es else reoffer cfg f es

def release (n : ℕ) (f : Fifo μ) : Fifo μ :=
  { f with stored := f.stored.drop n, taken := f.taken - n }

def hand (n : ℕ) (f : Fifo μ) : Fifo μ :=
  { f with
    taken := f.taken + (f.waiting.take n).length
    handed := f.handed ++ [f.waiting.take n] }

end Fifo

structure FifoSys (μ : Type) (n : ℕ) where
  fifo : Fifo μ
  batch : Fin n → List (μ × BatchState)

namespace FifoSys

def init : FifoSys μ n := ⟨Fifo.empty, fun _ => []⟩

/-- Complete the batch of `w`: offer again what was not processed, then give the slots back. -/
def complete (cfg : QCfg) (a : FifoSys μ n) (w : Fin n) : Fifo μ :=
  (a.fifo.reoffer cfg (a.batch w)).release (a.batch w).length

def step (cfg : QCfg) (a : FifoSys μ n) : Event μ n → FifoSys μ n
  | .enqMsg m => { a with fifo := (a.fifo.offer cfg m).2 }
  | .multiEnq ms => { a with fifo := a.fifo.offerAll cfg ms }
  | .dequeue w =>
    let f := a.complete cfg w
    { fifo := f.hand cfg.iDeqBatchSize.toNat
      batch := Function.update a.batch w
        ((f.waiting.take cfg.iDeqBatchSize.toNat).map fun m => (m, .rdy)) }
  | .complete w => { fifo := a.complete cfg w, batch := Function.update a.batch w [] }
  | .setState w i st =>
    { a with batch := Function.update a.batch w ((a.batch w).modify i fun e => (e.1, st)) }
  | .setEnqOnly b => { a with fifo := { a.fifo with bEnqOnly := b } }
  | .setInputTerm b => { a with fifo := { a.fifo with inputTerm := b } }

end FifoSys

/-! ## The abstract queue keeps order -/

lemma Fifo.waiting_hand (f : Fifo μ) (j : ℕ) : (f.hand j).waiting = f.waiting.drop j := by
  show f.stored.drop (f.taken + (f.waiting.take j).length) = _
  rw [← drop_drop, length_take]
  show f.waiting.drop _ = _
  rcases Nat.le_total j f.waiting.length with hj | hj
  · rw [min_eq_left hj]
  · rw [min_eq_right hj, drop_eq_nil_of_le hj, drop_length]

lemma Fifo.taken_offer (cfg : QCfg) (f : Fifo μ) (m : μ) : (f.offer cfg m).2.taken = f.taken := by
  unfold Fifo.offer
  split <;> rfl

lemma Fifo.taken_reoffer (cfg : QCfg) (f : Fifo μ) (es : List (μ × BatchState)) :
    (f.reoffer cfg es).taken = f.taken := by
  induction es generalizing f with
  | nil => rfl
  | cons e es ih =>
    unfold Fifo.reoffer
    split
    · rw [ih, Fifo.taken_offer]
    · exact ih f

/-- What was handed out, followed by what waits, is what was accepted, in order. -/
structure Fifo.InOrder (f : Fifo μ) : Prop where
  live : f.taken ≤ f.stored.length
  order : f.handed.flatten ++ f.waiting = f.accepted

namespace Fifo.InOrder

variable {cfg : QCfg} {f : Fifo μ}

lemma offer (h : f.InOrder) (m : μ) : (f.offer cfg m).2.InOrder := by
  unfold Fifo.offer
  split
  · refine ⟨?_, ?_⟩
    · simpa using Nat.le_succ_of_le h.live
    · simp only [Fifo.waiting, drop_append_of_le_length h.live, ← append_assoc]
      exact congrArg (· ++ [m]) h.order
  · exact ⟨h.live, h.order⟩

lemma offerAll (h : f.InOrder) (ms : List μ) :
    (f.offerAll cfg ms).InOrder ∧ (f.offerAll cfg ms).taken = f.taken := by
  induction ms generalizing f with
  | nil => exact ⟨h, rfl⟩
  | cons m ms ih =>
    have htaken := f.taken_offer cfg m
    unfold Fifo.offerAll
    split
    · exact ⟨h.offer m, htaken⟩
    · exact (ih (h.offer m)).imp_right (·.trans htaken)

lemma reoffer (h : f.InOrder) (es : List (μ × BatchState)) : (f.reoffer cfg es).InOrder := by
  induction es generalizing f with
  | nil => exact h
  | cons e es ih =>
    unfold Fifo.reoffer
    split
    · exact ih (h.offer e.1)
    · exact ih h

lemma release (h : f.InOrder) {j : ℕ} (hj : j ≤ f.taken) : (f.release j).InOrder := by
  have hlive := h.live
  refine ⟨?_, ?_⟩
  · simp only [Fifo.release, length_drop]
    omega
  · simp only [Fifo.release, Fifo.waiting, drop_drop,
      show j + (f.taken - j) = f.taken by omega]
    exact h.order

lemma hand (h : f.InOrder) (j : ℕ) : (f.hand j).InOrder := by
  have hlive := h.live
  refine ⟨?_, ?_⟩
  · simp only [Fifo.hand, Fifo.waiting, length_take, length_drop]
    omega
  · rw [Fifo.waiting_hand, Fifo.hand, flatten_append, flatten_singleton,
      append_assoc, take_append_drop]
    exact h.order

end Fifo.InOrder

/-! ## Simulation of the queue functions -/

/-- A memory queue with at least one slot, without sampling and without discarding. -/
structure QCfg.Plain (μ : Type) [QMsg μ] (cfg : QCfg) : Prop where
  memory : cfg.qType ≠ .disk
  slots : 1 ≤ cfg.iMaxQueueSize
  noSampling : cfg.iSmpInterval ≤ 0
  not_discarded : ∀ (iQueueSize : ℤ) (m : μ), qqueueChkDiscardMsg cfg iQueueSize m = false

structure QSim (cfg : QCfg) (q : QQueue μ) (f : Fifo μ) : Prop where
  holds : q.Holds cfg f.stored f.taken
  toDeleteLst : q.toDeleteLst = []
  bEnqOnly : q.bEnqOnly = f.bEnqOnly
  inputTerm : q.inputTerm = f.inputTerm
  accepted : q.hist.accepted = f.accepted
  results : q.hist.results = f.results
  handed : q.hist.handed = f.handed.mapIdx fun i ms => (i % 2 ^ 64, ms)
  deqIDAdd : q.deqIDAdd = f.handed.length % 2 ^ 64

lemma Fifo.offerAll_qType (cfg : QCfg) (qType : QueueType) (f : Fifo μ) (ms : List μ) :
    f.offerAll { cfg with qType } ms = f.offerAll cfg ms := by
  induction ms generalizing f with
  | nil => rfl
  | cons m ms ih =>
    rw [Fifo.offerAll, ih]
    rfl

lemma Fifo.reoffer_qType (cfg : QCfg) (qType : QueueType) (f : Fifo μ)
    (es : List (μ × BatchState)) : f.reoffer { cfg with qType } es = f.reoffer cfg es := by
  induction es generalizing f with
  | nil => rfl
  | cons e es ih =>
    rw [Fifo.reoffer, ih, ih]
    rfl

lemma FifoSys.step_qType (cfg : QCfg) (qType : QueueType) :
    (FifoSys.step { cfg with qType } : FifoSys μ n → Event μ n → FifoSys μ n) =
      FifoSys.step cfg := by
  funext a e
  cases e with
  | multiEnq ms => simp only [FifoSys.step, Fifo.offerAll_qType]
  | dequeue w | complete w => simp only [FifoSys.step, FifoSys.complete, Fifo.reoffer_qType]
  | _ => rfl

def Batch.view (b : Batch μ) : List (μ × BatchState) := b.pElem.map fun e => (e.pMsg, e.eltState)

lemma Batch.view_setState (b : Batch μ) (i : ℕ) (st : BatchState) :
    (b.setState i st).view = b.view.modify i fun e => (e.1, st) := by
  refine ext_getElem? fun j => ?_
  simp only [view, setState, getElem?_map, getElem?_modify]
  by_cases hij : i = j
  · cases b.pElem[j]? <;> simp [hij]
  · simp [hij]

lemma Batch.length_view (b : Batch μ) : b.view.length = b.nElem := length_map _

variable {cfg : QCfg} {q : QQueue μ} {f : Fifo μ}

namespace QSim

lemma store_ne_disk [QMsg μ] {xs : List μ} {k : ℕ} (h : q.Holds cfg xs k) (hcfg : cfg.Plain μ)
    (d : Disk μ) : q.store ≠ .disk d := by
  intro hd
  have hrep := h.rep
  rw [hd] at hrep
  exact hcfg.memory hrep.1

variable (h : QSim cfg q f)

include h

lemma fullResult_eq : fullResult cfg q = f.full cfg := by
  rw [fullResult, Fifo.full, h.bEnqOnly, h.inputTerm]

lemma chkPersist (nUpdates : ℕ) : QSim cfg (qqueueChkPersist cfg q nUpdates) f := by
  have hholds := h.holds.chkPersist nUpdates
  obtain ⟨store, u, heq⟩ := qqueueChkPersist_eq cfg q nUpdates
  rw [heq] at hholds ⊢
  exact { h with holds := hholds }

lemma persisted (r : RsRet) (nUpdates : ℕ) :
    QSim cfg (if r = .ok then qqueueChkPersist cfg q nUpdates else q) f := by
  split
  · exact h.chkPersist nUpdates
  · exact h

variable [QMsg μ] (hcfg : cfg.Plain μ)

include hcfg

lemma isFull_eq : isFull cfg q = !decide (f.stored.length < cfg.iMaxQueueSize) := by
  have hsize := h.holds.size
  have hslots := hcfg.slots
  unfold isFull
  split
  case h_1 d hd => exact absurd hd (store_ne_disk h.holds hcfg d)
  case h_2 =>
    have hneg : ¬ (cfg.sizeOnDiskMax ≠ 0 ∧ (0 : ℤ) > cfg.sizeOnDiskMax) := by omega
    rw [decide_eq_false hneg, Bool.and_false, Bool.or_false, ← decide_not, decide_eq_decide]
    omega

lemma offer (m : μ) :
    ∃ q', doEnqSingleObj cfg q m = some ((f.offer cfg m).1, q') ∧
      QSim cfg q' (f.offer cfg m).2 := by
  have hnodiscard := hcfg.not_discarded q.iQueueSize m
  unfold Fifo.offer
  by_cases hslot : f.stored.length < cfg.iMaxQueueSize
  · obtain ⟨store, hstore, hrep⟩ :=
      h.holds.rep.qAdd m (fun _ => hslot) (h.holds.rep.room_of_memory hcfg.memory _)
    have hcnt : nextMsgCnt cfg q.msgCnt = q.msgCnt := if_neg (not_lt.mpr hcfg.noSampling)
    set q₁ : QQueue μ := { q with
      store
      iQueueSize := q.iQueueSize + 1
      hist := { q.hist with accepted := q.hist.accepted ++ [m] } } with hq₁
    have hadd : qqueueAdd cfg q m = some q₁ := by
      rw [qqueueAdd, if_neg (by have := hcfg.noSampling; omega), hstore, hcnt]
      rfl
    have hholds : q₁.Holds cfg (f.stored ++ [m]) f.taken := by
      refine ⟨hrep, ?_, h.holds.logDeq⟩
      show q.iQueueSize + 1 = _
      rw [h.holds.size, length_append]
      rfl
    -- a queue in memory has nothing to persist
    have hforce : forcePersist q₁ = q₁ := by
      unfold forcePersist
      split
      case h_1 d hd => exact absurd hd (store_ne_disk hholds hcfg d)
      case h_2 => rfl
    rw [if_pos hslot]
    refine ⟨q₁.result .ok, ?_,
      { h with holds := { hholds with }, accepted := ?_, results := ?_ }⟩
    · simp [doEnqSingleObj, hnodiscard, h.isFull_eq hcfg, hslot, hadd, hforce]
    · exact congrArg (· ++ [m]) h.accepted
    · exact congrArg (· ++ [RsRet.ok]) h.results
  · rw [if_neg hslot]
    refine ⟨q.result (f.full cfg), ?_, { h with holds := { h.holds with }, results := ?_ }⟩
    · simp [doEnqSingleObj, hnodiscard, h.isFull_eq hcfg, hslot, h.fullResult_eq]
    · exact congrArg (· ++ [f.full cfg]) h.results

lemma offerAll (ms : List μ) :
    ∃ r q', multiEnqLoop cfg q ms = some (r, q') ∧ QSim cfg q' (f.offerAll cfg ms) := by
  induction ms generalizing q f with
  | nil => exact ⟨.ok, q, rfl, h⟩
  | cons m ms ih =>
    obtain ⟨q₁, henq, h₁⟩ := h.offer hcfg m
    simp only [multiEnqLoop, henq, Option.bind_eq_bind, Option.bind_some, Fifo.offerAll]
    split
    · exact ⟨_, q₁, rfl, h₁⟩
    · exact ih h₁

lemma reoffer (es : List (BatchElem μ)) (j : ℕ) :
    ∃ j' q', reEnqLoop cfg es j q = some (j', q') ∧
      QSim cfg q' (f.reoffer cfg (es.map fun e => (e.pMsg, e.eltState))) := by
  induction es generalizing q f j with
  | nil => exact ⟨j, q, rfl, h⟩
  | cons e es ih =>
    simp only [reEnqLoop, map_cons, Fifo.reoffer]
    split
    · obtain ⟨q₁, henq, h₁⟩ := h.offer hcfg e.pMsg
      obtain ⟨j', q', hloop, h'⟩ := ih h₁ (j + 1)
      exact ⟨j', q', by rw [henq]; exact hloop, h'⟩
    · exact ih h j

lemma complete {b : Batch μ} (hb : b.nElem ≤ f.taken) :
    ∃ q', DeleteProcessedBatch cfg q b = some (q', b.reset) ∧
      QSim cfg q' ((f.reoffer cfg b.view).release b.nElem) := by
  obtain ⟨j, q₀, hloop, h₀⟩ := h.reoffer hcfg b.pElem 0
  have h₁ := h₀.chkPersist j
  have htaken : b.nElem ≤ (f.reoffer cfg b.view).taken := by rwa [Fifo.taken_reoffer]
  obtain ⟨store, hdel, hholds⟩ := DoDeleteBatchFromQStore_spec h₁.holds htaken
  refine ⟨((qqueueChkPersist cfg q₀ j).deleted b.nElem store).complete b, ?_,
    { h₁ with holds := { hholds with } }⟩
  simp [DeleteProcessedBatch, hloop, DeleteBatchFromQStore, h₁.toDeleteLst, hdel]

end QSim

variable [QMsg μ]

lemma ReadsUpTo.length_eq {iQueueSize : ℤ} {left : ℕ} {rs : List (μ × Pos)}
    (h : ReadsUpTo cfg iQueueSize 0 left rs) (hcfg : cfg.Plain μ) :
    rs.length = min cfg.iDeqBatchSize.toNat left := by
  have htake : ∀ rs : List (μ × Pos), (takeElems cfg iQueueSize rs).length = rs.length := by
    intro rs
    rw [takeElems, length_map, filter_eq_self.mpr fun r _ => by
      simp [hcfg.not_discarded iQueueSize r.1]]
  have hle := h.le
  have hstop := h.stop
  rw [htake] at hstop
  rcases eq_nil_or_concat' rs with rfl | ⟨rs₁, r, rfl⟩
  · rw [length_nil] at hstop hle ⊢
    omega
  · have hgo := h.go rs₁ r [] rfl
    rw [htake] at hgo
    rw [length_append, length_singleton] at hle hstop ⊢
    omega

/-- `DequeueConsumableElements` hands out the next batch, from the state `q₁` that the completion of
the worker's previous one left. -/
lemma QSim.hand {q₁ : QQueue μ} {f₁ : Fifo μ} {b b₁ : Batch μ} (h₁ : QSim cfg q₁ f₁)
    (hcfg : cfg.Plain μ) (hcomp : DeleteProcessedBatch cfg q b = some (q₁, b₁)) :
    ∃ q' b', DequeueConsumableElements cfg q b = some (q', b') ∧
      QSim cfg q' (f₁.hand cfg.iDeqBatchSize.toNat) ∧
      b'.view = (f₁.waiting.take cfg.iDeqBatchSize.toNat).map fun m => (m, .rdy) := by
  obtain ⟨rs, store, r, hreads, hupto, -, hdeq, hr, hholds⟩ :=
    DequeueConsumableElements_spec hcomp h₁.holds
  have hlive : f₁.taken ≤ f₁.stored.length := h₁.holds.rep.live
  have hlen := hupto.length_eq hcfg
  have hwait : rs.map Prod.fst = f₁.waiting.take cfg.iDeqBatchSize.toNat := by
    have hle : f₁.taken + rs.length ≤ f₁.stored.length := by have := hupto.le; omega
    rw [(hreads.spec h₁.holds.rep.deqBegin hle).1, hlen, Fifo.waiting]
    rcases Nat.le_total cfg.iDeqBatchSize.toNat (f₁.stored.length - f₁.taken) with hj | hj
    · rw [min_eq_left hj]
    · rw [min_eq_right hj, take_of_length_le (by rw [length_drop]),
        take_of_length_le (by rwa [length_drop])]
  have hkeep : takeElems cfg q₁.iQueueSize rs = rs.map fun r => ⟨r.1, .rdy, r.2⟩ := by
    rw [takeElems, filter_eq_self.mpr fun r _ => by
      simp [hcfg.not_discarded q₁.iQueueSize r.1]]
  have hmsgs : r.2.msgs = f₁.waiting.take cfg.iDeqBatchSize.toNat := by
    rw [hr.batch, msgs, hkeep, map_map, ← hwait]
    rfl
  refine ⟨r.1, r.2, hdeq, ⟨?_, hr.toDeleteLst.trans h₁.toDeleteLst,
    hr.bEnqOnly.trans h₁.bEnqOnly, hr.inputTerm.trans h₁.inputTerm, ?_, ?_, ?_, ?_⟩, ?_⟩
  · rw [Fifo.hand, ← hwait, length_map]
    exact hholds
  · rw [hr.hist]; exact h₁.accepted
  · rw [hr.hist]; exact h₁.results
  · rw [hr.hist, hmsgs, h₁.handed, h₁.deqIDAdd, Fifo.hand, mapIdx_concat]
  · rw [hr.deqIDAdd, h₁.deqIDAdd, deqIDSucc, Fifo.hand, length_append, length_singleton,
      Nat.mod_add_mod]
  · rw [hr.batch, view, hkeep, map_map, ← hwait, map_map]
    rfl

/-! ## Simulation of the system -/

structure Sim (cfg : QCfg) (s : Sys μ n) (a : FifoSys μ n) : Prop where
  queue : QSim cfg s.q a.fifo
  inOrder : a.fifo.InOrder
  batch : ∀ w, (s.batch w).view = a.batch w
  taken : a.fifo.taken = s.held

lemma Sim.init (hcfg : cfg.Plain μ) : Sim cfg (Sys.init cfg n : Sys μ n) FifoSys.init where
  queue := ⟨⟨Store.Rep.construct fun _ => hcfg.slots, rfl, rfl⟩, rfl, rfl, rfl, rfl, rfl, rfl, rfl⟩
  inOrder := ⟨le_rfl, rfl⟩
  batch := fun _ => rfl
  taken := by simp [Sys.init, Sys.held, nElem, empty, FifoSys.init, Fifo.empty]

variable {a : FifoSys μ n}

omit [QMsg μ] in
lemma Sim.nElem_le_taken {s : Sys μ n} (h : Sim cfg s a) (w : Fin n) :
    (s.batch w).nElem ≤ a.fifo.taken := h.taken ▸ s.nElem_le_held w

omit [QMsg μ] in
lemma Sim.update {s : Sys μ n} (h : Sim cfg s a) (w : Fin n) {r : QQueue μ × Batch μ}
    {f' : Fifo μ} {es : List (μ × BatchState)} (hq : QSim cfg r.1 f') (horder : f'.InOrder)
    (hview : r.2.view = es) (htaken : f'.taken + (s.batch w).nElem = a.fifo.taken + r.2.nElem) :
    Sim cfg (s.update w r) ⟨f', Function.update a.batch w es⟩ where
  queue := hq
  inOrder := horder
  batch := by
    intro v
    by_cases hv : v = w
    · subst hv
      simp [Sys.update, hview]
    · simp [Sys.update, Function.update_of_ne hv, h.batch v]
  taken := by
    have hheld := s.held_update w r
    have := h.taken
    show f'.taken = _
    omega

lemma Sim.complete {s : Sys μ n} (h : Sim cfg s a) (hcfg : cfg.Plain μ) (w : Fin n) :
    ∃ q', DeleteProcessedBatch cfg s.q (s.batch w) = some (q', (s.batch w).reset) ∧
      QSim cfg q' (a.complete cfg w) ∧ (a.complete cfg w).InOrder ∧
      (a.complete cfg w).taken + (s.batch w).nElem = a.fifo.taken := by
  obtain ⟨q', hdel, hq'⟩ := h.queue.complete hcfg (h.nElem_le_taken w)
  have hle := h.nElem_le_taken w
  have hlen : (a.batch w).length = (s.batch w).nElem := by rw [← h.batch w, length_view]
  rw [h.batch w, ← hlen] at hq'
  refine ⟨q', hdel, hq', (h.inOrder.reoffer _).release ?_, ?_⟩
  · rw [Fifo.taken_reoffer]; omega
  · simp only [FifoSys.complete, Fifo.release, Fifo.taken_reoffer]
    omega

/-- **Every step is simulated.** -/
theorem Sim.step {s : Sys μ n} (h : Sim cfg s a) (hcfg : cfg.Plain μ) (e : Event μ n) :
    ∃ s', step cfg s e = some s' ∧ Sim cfg s' (a.step cfg e) := by
  cases e with
  | enqMsg m =>
    obtain ⟨q', henq, hq'⟩ := h.queue.offer hcfg m
    exact ⟨{ s with q := _ }, by rw [Queue.step, qqueueEnqMsg, henq]; rfl, hq'.persisted _ 1,
      h.inOrder.offer m, h.batch, (Fifo.taken_offer cfg a.fifo m).trans h.taken⟩
  | multiEnq ms =>
    obtain ⟨r, q', henq, hq'⟩ := h.queue.offerAll hcfg ms
    obtain ⟨horder, htaken⟩ := h.inOrder.offerAll ms
    exact ⟨{ s with q := _ }, by rw [Queue.step, qqueueMultiEnqObjNonDirect, henq]; rfl,
      hq'.persisted r ms.length, horder, h.batch, htaken.trans h.taken⟩
  | dequeue w =>
    obtain ⟨q₁, hdel, hq₁, horder, htaken⟩ := h.complete hcfg w
    obtain ⟨q', b', hdeq, hq', hview⟩ := hq₁.hand hcfg hdel
    refine ⟨_, by rw [Queue.step, hdeq]; rfl, h.update w hq' (horder.hand _) hview ?_⟩
    have hnew : b'.nElem = ((a.complete cfg w).waiting.take cfg.iDeqBatchSize.toNat).length := by
      rw [← length_view, hview, length_map]
    rw [hnew]
    show (a.complete cfg w).taken + _ + _ = _
    omega
  | complete w =>
    obtain ⟨q₁, hdel, hq₁, horder, htaken⟩ := h.complete hcfg w
    have hcomp : batchProcessed cfg s.q (s.batch w) = some (q₁, (s.batch w).reset) := by
      rw [batchProcessed, hdel]
      rfl
    exact ⟨_, by rw [Queue.step, hcomp]; rfl, h.update w hq₁ horder rfl (by simpa using htaken)⟩
  | setState w i st =>
    refine ⟨_, rfl, h.update w h.queue h.inOrder ?_ ?_⟩
    · rw [← h.batch w, view_setState]
    · simp [setState, nElem]
  | setEnqOnly b =>
    exact ⟨_, rfl, { h with
      queue := { h.queue with holds := { h.queue.holds with }, bEnqOnly := rfl }
      inOrder := { h.inOrder with } }⟩
  | setInputTerm b =>
    exact ⟨_, rfl, { h with
      queue := { h.queue with holds := { h.queue.holds with }, inputTerm := rfl }
      inOrder := { h.inOrder with } }⟩

/-! ## The back ends -/

/-- The observable behaviour of a system: the answers to its enqueues, the messages accepted, and
the batches handed out under increasing IDs are those of the abstract queue. -/
structure Implements (s : Sys μ n) (a : FifoSys μ n) : Prop where
  results : s.q.hist.results = a.fifo.results
  accepted : s.q.hist.accepted = a.fifo.accepted
  handed : s.q.hist.handed = a.fifo.handed.mapIdx fun i ms => (i % 2 ^ 64, ms)
  batch : ∀ w, (s.batch w).view = a.batch w

lemma run_implements (hcfg : cfg.Plain μ) (es : List (Event μ n)) :
    ∃ s, run (step cfg) (Sys.init cfg n) es = some s ∧
      Implements s (es.foldl (FifoSys.step cfg) FifoSys.init) ∧
      (es.foldl (FifoSys.step cfg) FifoSys.init).fifo.InOrder := by
  obtain ⟨s, hs, h⟩ := run_sim (fun s a e h => Sim.step (s := s) (a := a) h hcfg e) es
    (Sim.init (n := n) hcfg)
  exact ⟨s, hs, ⟨h.queue.results, h.queue.accepted, h.queue.handed, h.batch⟩, h.inOrder⟩

/-- As `qqueueCorrectParams` leaves it: the discard mark is set, and the severity turns it off. -/
def smallCfg : QCfg :=
  { discardingCfg .fixedArray with iMaxQueueSize := 2, iDiscardMrk := 1, iDiscardSeverity := 8 }

lemma smallCfg_not_discarded (iQueueSize : ℤ) (m : Fin 8) :
    qqueueChkDiscardMsg smallCfg iQueueSize m = false := by
  refine decide_eq_false fun h => ?_
  have hsev : (m : ℤ) ≥ 8 := h.2.2
  omega

def outOfOrderRun : List (Event (Fin 8) 2) :=
  [.enqMsg (severity 1), .dequeue (worker 0), .enqMsg (severity 2), .dequeue (worker 1),
    .enqMsg (severity 3), .setState (worker 1) 0 .comm, .complete (worker 1),
    .enqMsg (severity 4), .dequeue (worker 1)]

/-- What the abstract queue does in that run. -/
example : (outOfOrderRun.foldl (FifoSys.step smallCfg) FifoSys.init).fifo.handed = [[1], [2], [4]] ∧
    (outOfOrderRun.foldl (FifoSys.step smallCfg) FifoSys.init).fifo.results =
      [.ok, .ok, .queueFull, .ok] := by decide

end Rsyslog.Queue
