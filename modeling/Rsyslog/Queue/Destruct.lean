import Rsyslog.Queue.Counters

/-!
# The destructor of a memory queue

Two parts of `qqueueDestruct`. With `shutdown.queue.doublesize` it doubles `iMaxQueueSize` while
workers still use the queue. The slots of a fixed array stay as they are, so its indices no longer
wrap where the slots end; the ring works on as long as no index gets there
(`doubled_serves_iff`).

In the end the storage driver discards what is left in `queueDrain`. The loop counts down before it
tests, so it leaves the last message (`queueDrain_not_drains`).
-/

namespace Rsyslog.Queue

open Lib List Nat Ring

variable {μ : Type}

/-! ## A ring of twice its size -/

/-- What workers do with the ring: dequeue a message, enqueue one again, and delete one. -/
inductive RingOp (μ : Type)
  | deq
  | add (pMsg : μ)
  | del

def ringStep (iMaxQueueSize : ℕ) (s : FArray μ × List μ) : RingOp μ → Option (FArray μ × List μ)
  | .deq => (qDeqFixedArray iMaxQueueSize s.1).map fun r => (r.2, s.2 ++ [r.1])
  | .add pMsg => (qAddFixedArray iMaxQueueSize s.1 pMsg).map fun a => (a, s.2)
  | .del => some (qDelFixedArray iMaxQueueSize s.1, s.2)

def fifoOut : List μ → List (RingOp μ) → List μ
  | _, [] => []
  | [], .deq :: ops => fifoOut [] ops
  | m :: waiting, .deq :: ops => m :: fifoOut waiting ops
  | waiting, .add m :: ops => fifoOut (waiting ++ [m]) ops
  | waiting, .del :: ops => fifoOut waiting ops

/-- Workers dequeue only while messages wait, and they enqueue again only what was handed out.
`waiting` and `out` count these messages. -/
def Admissible : ℕ → ℕ → List (RingOp μ) → Prop
  | _, _, [] => True
  | waiting, out, .deq :: ops => 0 < waiting ∧ Admissible (waiting - 1) (out + 1) ops
  | waiting, out, .add _ :: ops => 0 < out ∧ Admissible (waiting + 1) (out - 1) ops
  | waiting, out, .del :: ops => Admissible waiting out ops

def nDeq : List (RingOp μ) → ℕ
  | [] => 0
  | .deq :: ops => nDeq ops + 1
  | .add _ :: ops | .del :: ops => nDeq ops

def nAdd : List (RingOp μ) → ℕ
  | [] => 0
  | .add _ :: ops => nAdd ops + 1
  | .deq :: ops | .del :: ops => nAdd ops

/-- All slots that the operations use exist, and the messages `waiting` and those that are added are
handed out in order. -/
def Serves (iMaxQueueSize : ℕ) (a : FArray μ) (waiting : List μ) (ops : List (RingOp μ)) : Prop :=
  ∃ a', run (ringStep iMaxQueueSize) (a, []) ops = some (a', fifoOut waiting ops)

/-- Where the `e`-th message is, counted from the moment of doubling. The first `old` are where the
ring has put them, the others follow `tail`. -/
def slotOf (n deqhead tail old e : ℕ) : ℕ :=
  if e < old then Ring.idx n deqhead e else tail + (e - old)

/-- The ring after some operations with its new size. `old` were waiting at the moment of doubling,
with `k` more handed out; `added` came later, and `d` have been handed out. -/
structure FArray.Shifted (n deqhead tail k : ℕ) (old added : List μ) (d : ℕ) (a : FArray μ) :
    Prop where
  slots : a.pBuf.length = n
  deqhead_eq : a.deqhead = deqhead + d
  tail_eq : a.tail = tail + added.length
  deqhead_le : deqhead + d ≤ n
  tail_le : tail + added.length ≤ n
  live : d ≤ (old ++ added).length
  again : added.length ≤ k + d
  cell : ∀ e m, d ≤ e → (old ++ added)[e]? = some m →
    a.pBuf[slotOf n deqhead tail old.length e]? = some (some m)

section Doubled

variable {n deqhead tail k d : ℕ} {old added : List μ} {a : FArray μ}

lemma FArray.Shifted.deq_eq_none (h : a.Shifted n deqhead tail k old added d)
    (hge : n ≤ deqhead + d) : qDeqFixedArray (2 * n) a = none := by
  have hcell : a.pBuf[a.deqhead]? = none := by
    rw [List.getElem?_eq_none_iff, h.slots, h.deqhead_eq]
    exact hge
  rw [qDeqFixedArray, hcell]

lemma FArray.Shifted.del (h : a.Shifted n deqhead tail k old added d) :
    (qDelFixedArray (2 * n) a).Shifted n deqhead tail k old added d := { h with }

section Slots

variable (htail : tail = Ring.idx n deqhead old.length)

include htail

lemma slotOf_next (hlt : deqhead + d < n) : slotOf n deqhead tail old.length d = deqhead + d := by
  unfold slotOf
  split
  · exact mod_eq_of_lt hlt
  · rw [htail, idx, mod_eq_of_lt (by omega)]
    omega

lemma slotOf_ne (hfits : k + old.length ≤ n) (hagain : added.length < k + d) {e : ℕ} (hd : d ≤ e)
    (he : e < old.length + added.length) :
    slotOf n deqhead tail old.length e ≠ tail + added.length := by
  unfold slotOf
  split
  case isFalse => omega
  case isTrue hold =>
    intro heq
    have hmod : deqhead + e ≡ deqhead + (old.length + added.length) [MOD n] := by
      calc deqhead + e ≡ idx n deqhead e [MOD n] := (mod_modEq _ _).symm
        _ ≡ tail + added.length [MOD n] := by rw [heq]
        _ ≡ deqhead + old.length + added.length [MOD n] := by
          rw [htail]
          exact (mod_modEq _ _).add_right _
        _ = deqhead + (old.length + added.length) := Nat.add_assoc ..
    have hdvd := (modEq_iff_dvd' (by omega)).mp (Nat.ModEq.add_left_cancel' deqhead hmod)
    have hle := le_of_dvd (by omega) hdvd
    omega

variable (h : a.Shifted n deqhead tail k old added d)

include h

lemma FArray.Shifted.deq (hlt : deqhead + d < n) {m : μ} (hwait : (old ++ added)[d]? = some m) :
    ∃ a', qDeqFixedArray (2 * n) a = some (m, a') ∧
      a'.Shifted n deqhead tail k old added (d + 1) := by
  have hcell := h.cell d m le_rfl hwait
  rw [slotOf_next htail hlt, ← h.deqhead_eq] at hcell
  refine ⟨{ a with deqhead := deqhead + d + 1 }, ?_, ?_⟩
  · rw [qDeqFixedArray, hcell, Ring.succ, h.deqhead_eq, if_neg (by omega)]
  · exact ⟨h.slots, rfl, h.tail_eq, hlt, h.tail_le, (List.getElem?_eq_some_iff.mp hwait).1,
      le_succ_of_le h.again, fun e m he => h.cell e m (by omega)⟩

lemma FArray.Shifted.add (hfits : k + old.length ≤ n) (hlt : tail + added.length < n)
    (hagain : added.length < k + d) (m : μ) :
    ∃ a', qAddFixedArray (2 * n) a m = some a' ∧
      a'.Shifted n deqhead tail k old (added ++ [m]) d := by
  have hslot : a.tail < a.pBuf.length := by
    rw [h.slots, h.tail_eq]
    exact hlt
  have hlen : (added ++ [m]).length = added.length + 1 := by simp
  refine ⟨{ a with pBuf := a.pBuf.set a.tail (some m), tail := tail + added.length + 1 }, ?_, ?_⟩
  · rw [qAddFixedArray, if_pos hslot, Ring.succ, h.tail_eq, if_neg (by omega)]
  · refine ⟨by rw [length_set, h.slots], h.deqhead_eq, by rw [hlen]; rfl, h.deqhead_le,
      by omega, ?_, by omega, fun e x hd he => ?_⟩
    · have := h.live
      rw [length_append] at this ⊢
      omega
    · rw [← append_assoc, getElem?_append] at he
      split at he
      case isTrue hin =>
        rw [length_append] at hin
        rw [getElem?_set_ne, h.cell e x hd he]
        rw [h.tail_eq]
        exact (slotOf_ne htail hfits hagain hd hin).symm
      case isFalse hout =>
        obtain ⟨hlast, hx⟩ := List.getElem?_eq_some_iff.mp he
        obtain rfl : m = x := by simpa using hx
        rw [length_singleton, length_append] at hlast
        rw [length_append] at hout
        have hslot' : slotOf n deqhead tail old.length e = a.tail := by
          rw [slotOf, if_neg (by omega), h.tail_eq]
          omega
        rw [hslot', getElem?_set_self hslot]

lemma FArray.Shifted.run_iff (hfits : k + old.length ≤ n) {ops : List (RingOp μ)}
    (hadm : Admissible ((old ++ added).length - d) (k + d - added.length) ops) (out : List μ) :
    (∃ a', run (ringStep (2 * n)) (a, out) ops =
        some (a', out ++ fifoOut ((old ++ added).drop d) ops)) ↔
      deqhead + d + nDeq ops ≤ n ∧ tail + added.length + nAdd ops ≤ n := by
  induction ops generalizing a added d out with
  | nil => simpa [fifoOut, nDeq, nAdd] using ⟨h.deqhead_le, h.tail_le⟩
  | cons op ops ih =>
    cases op with
    | deq =>
      obtain ⟨hpos, hadm⟩ := hadm
      have hwait := getElem?_eq_getElem (l := old ++ added) (i := d) (by omega)
      rw [drop_eq_getElem_cons (by omega), fifoOut, run_cons, nDeq, nAdd]
      rcases lt_or_ge (deqhead + d) n with hlt | hge
      · obtain ⟨a', ha', h'⟩ := h.deq htail hlt hwait
        simp only [ringStep, ha', Option.map_some, Option.bind_some]
        rw [append_cons out _ (fifoOut _ ops)]
        have hagain := h.again
        refine (ih h' ?_ _).trans ?_
        · rwa [← Nat.add_assoc, Nat.sub_add_comm hagain]
        · omega
      · have hnone : ringStep (2 * n) (a, out) .deq = none := by
          rw [ringStep, h.deq_eq_none hge]
          rfl
        rw [hnone]
        exact iff_of_false (by simp) (by omega)
    | add m =>
      obtain ⟨hpos, hadm⟩ := hadm
      rw [fifoOut, run_cons, nDeq, nAdd]
      rcases lt_or_ge (tail + added.length) n with hlt | hge
      · obtain ⟨a', ha', h'⟩ := h.add htail hfits hlt (by omega) m
        simp only [ringStep, ha', Option.map_some, Option.bind_some]
        have hlive := h.live
        have hlen : (added ++ [m]).length = added.length + 1 := by simp
        rw [← drop_append_of_le_length hlive, append_assoc]
        refine (ih h' ?_ _).trans ?_
        · rw [← Nat.sub_add_comm hlive] at hadm
          rwa [length_append, hlen, ← Nat.add_assoc, ← length_append]
        · omega
      · have hnone : ringStep (2 * n) (a, out) (.add m) = none := by
          rw [ringStep, qAddFixedArray, if_neg (by rw [h.slots, h.tail_eq]; omega)]
          rfl
        rw [hnone]
        exact iff_of_false (by simp) (by omega)
    | del =>
      exact ih h.del hadm out

end Slots

lemma FArray.Rep.shifted {xs : List μ} (h : a.Rep n xs k) :
    a.tail = idx n a.deqhead (xs.drop k).length ∧
      a.Shifted n a.deqhead a.tail k (xs.drop k) [] 0 := by
  have hlive := h.window.live
  have hcap : 0 < n := zero_lt_of_lt h.window.head_lt
  have hidx (e : ℕ) : idx n a.deqhead e = idx n a.head (k + e) := by
    rw [h.deqhead, idx, idx, idx, mod_add_mod, Nat.add_assoc]
  refine ⟨?_, h.window.size, rfl, rfl, ?_, ?_, Nat.zero_le _, Nat.zero_le _, fun e m _ he => ?_⟩
  · rw [hidx, length_drop, Nat.add_sub_cancel' hlive, h.tail]
  · rw [h.deqhead]
    exact (idx_lt hcap).le
  · rw [h.tail]
    exact (idx_lt hcap).le
  · rw [append_nil] at he
    have hlt := (List.getElem?_eq_some_iff.mp he).1
    rw [getElem?_drop] at he
    obtain ⟨hin, rfl⟩ := List.getElem?_eq_some_iff.mp he
    rw [slotOf, if_pos hlt, hidx]
    exact h.window.cell (k + e) (le_add_right k e) hin

end Doubled

/-- After `iMaxQueueSize` was doubled, the ring remains a FIFO exactly for the operations that do
not take `deqhead` or `tail` behind the last slot. -/
theorem doubled_serves_iff {n k : ℕ} {a : FArray μ} {xs : List μ} {ops : List (RingOp μ)}
    (h : a.Rep n xs k) (hadm : Admissible (xs.length - k) k ops) :
    Serves (2 * n) a (xs.drop k) ops ↔ a.deqhead + nDeq ops ≤ n ∧ a.tail + nAdd ops ≤ n := by
  obtain ⟨htail, hshift⟩ := h.shifted
  have hfits : k + (xs.drop k).length ≤ n := by
    have := h.window.live
    have := h.window.fits
    rw [length_drop]
    omega
  have hadm' : Admissible ((xs.drop k ++ []).length - 0) k ops := by simpa using hadm
  have hiff := hshift.run_iff htail hfits hadm' []
  simpa [Serves] using hiff

def oneOfTwo : FArray (Fin 8) := ⟨0, 0, 1, [some (severity 3), none]⟩

lemma oneOfTwo_rep : oneOfTwo.Rep 2 [severity 3] 0 where
  window := by
    refine ⟨rfl, by decide, by decide, by decide, fun i _ hi => ?_⟩
    obtain rfl : i = 0 := by simpa using hi
    rfl
  deqhead := rfl
  tail := rfl

theorem doubled_serves_oneOfTwo :
    Serves 4 oneOfTwo [severity 3] [.deq, .add (severity 3), .deq, .del] :=
  (doubled_serves_iff oneOfTwo_rep (by simp [Admissible])).mpr (by decide)

/-- The operations that bring a ring of two slots to the state in which it is full and its second
message is in the first slot. -/
def fillWrapped : List (RingOp (Fin 8)) :=
  [.add (severity 1), .add (severity 2), .deq, .del, .add (severity 3)]

/-- Both messages of a full ring are dequeued. If the size is doubled before, the second dequeue
reads behind the last slot. -/
theorem doubled_reads_outside :
    (run (ringStep 2) (qConstructFixedArray 2, []) (fillWrapped ++ [.deq, .deq])).map (·.2) =
        some [severity 1, severity 2, severity 3] ∧
      ((run (ringStep 2) (qConstructFixedArray 2, []) fillWrapped).bind
        fun s => run (ringStep 4) s [.deq, .deq]).isNone = true := by
  decide +kernel

/-! ## Discarding what is left -/

/-- `qDeq` of the memory queues, with a NULL message for a list that has no more. A disk queue is
not drained. -/
def Store.qDeqOrNull (cfg : QCfg) : Store μ → Option (Option μ × Store μ)
  | .farray a => (qDeqFixedArray cfg.iMaxQueueSize a).map fun r => (some r.1, .farray r.2)
  | .linklist l =>
    if l.pDeqRoot = none then some (none, .linklist l)
    else (qDeqLinkedList l).map fun r => (some r.1, .linklist r.2)
  | .disk _ => none

/-- The loop of `queueDrain`, in at most `fuel` rounds. The messages that are destructed are
collected. -/
def drainLoop (cfg : QCfg) : ℕ → QQueue μ → List μ → Option (QQueue μ × List μ)
  | 0, _, _ => none
  | fuel + 1, q, destructed =>
    let q := { q with iQueueSize := q.iQueueSize - 1 }
    if q.iQueueSize > 0 then do
      let (pMsg, store) ← q.store.qDeqOrNull cfg
      let store ← store.qDel cfg
      drainLoop cfg fuel { q with store } (destructed ++ pMsg.toList)
    else some (q, destructed)

def queueDrain (cfg : QCfg) (q : QQueue μ) : Option (QQueue μ × List μ) :=
  drainLoop cfg (q.iQueueSize.toNat + 1) q []

def Drains (cfg : QCfg) (q : QQueue μ) (xs : List μ) : Prop :=
  ∃ q' destructed, queueDrain cfg q = some (q', destructed) ∧ destructed.Perm xs ∧
    q'.iQueueSize = 0

section Drain

variable {cfg : QCfg} {q : QQueue μ} {xs : List μ}

lemma Store.Rep.qDeqOrNull {s : Store μ} {m : μ} (h : s.Rep cfg (m :: xs) 0)
    (hmem : cfg.qType ≠ .disk) :
    ∃ s' s'', s.qDeqOrNull cfg = some (some m, s') ∧ s'.qDel cfg = some s'' ∧
      s''.Rep cfg xs 0 := by
  cases s with
  | farray a =>
    obtain ⟨a', ha, h'⟩ := h.2.qDeq (succ_pos _)
    exact ⟨.farray a', _, by rw [Store.qDeqOrNull, ha]; rfl, rfl, h.1, h'.qDel⟩
  | linklist l =>
    obtain ⟨l', hl, h'⟩ := h.2.qDeq (succ_pos _)
    obtain ⟨l'', hl'', h''⟩ := h'.qDel
    have hroot : l.pDeqRoot ≠ none := by
      intro hnone
      rw [qDeqLinkedList, hnone] at hl
      cases hl
    refine ⟨.linklist l', .linklist l'', ?_, by rw [Store.qDel, hl'']; rfl, h.1, h''⟩
    rw [Store.qDeqOrNull, if_neg hroot, hl]
    rfl
  | disk d => exact absurd h.1 hmem

lemma drainLoop_eq {fuel : ℕ} (hfuel : xs.length < fuel) (hrep : q.store.Rep cfg xs 0)
    (hsize : q.iQueueSize = xs.length) (hmem : cfg.qType ≠ .disk) (destructed : List μ) :
    ∃ q', drainLoop cfg fuel q destructed = some (q', destructed ++ xs.dropLast) ∧
      q'.iQueueSize = if xs = [] then -1 else 0 := by
  induction xs generalizing fuel q destructed with
  | nil =>
    obtain ⟨fuel, rfl⟩ : ∃ f, fuel = f + 1 := ⟨fuel - 1, by omega⟩
    simp [drainLoop, hsize]
  | cons m xs ih =>
    obtain ⟨fuel, rfl⟩ : ∃ f, fuel = f + 1 := ⟨fuel - 1, by omega⟩
    rw [length_cons] at hfuel hsize
    cases xs with
    | nil =>
      simp [drainLoop, hsize]
    | cons m' xs =>
      obtain ⟨s', s'', hdeq, hdel, hrep'⟩ := hrep.qDeqOrNull hmem
      have hpos : q.iQueueSize - 1 > 0 := by
        rw [hsize, length_cons]
        omega
      have hlt : (m' :: xs).length < fuel := by omega
      obtain ⟨q', hq', hsize'⟩ := ih
        (q := { q with store := s'', iQueueSize := q.iQueueSize - 1 }) hlt hrep'
        (by dsimp only; omega) (destructed ++ [m])
      refine ⟨q', ?_, hsize'⟩
      rw [dropLast_cons_cons, append_cons destructed, ← hq', drainLoop, if_pos hpos, hdeq]
      simp [hdel, Option.toList_some]

/-- `queueDrain` destructs all messages but the last one. The counter is -1 behind it if there was
no message. -/
lemma queueDrain_eq (hrep : q.store.Rep cfg xs 0) (hsize : q.iQueueSize = xs.length)
    (hmem : cfg.qType ≠ .disk) :
    ∃ q', queueDrain cfg q = some (q', xs.dropLast) ∧
      q'.iQueueSize = if xs = [] then -1 else 0 := by
  exact drainLoop_eq (by rw [hsize, Int.toNat_natCast]; omega) hrep hsize hmem []

/-- No memory queue without an outstanding batch is drained: neither one with messages nor an
empty one. -/
theorem queueDrain_not_drains (hrep : q.store.Rep cfg xs 0) (hsize : q.iQueueSize = xs.length)
    (hmem : cfg.qType = .fixedArray ∨ cfg.qType = .linkedList) : ¬ Drains cfg q xs := by
  have hdisk : cfg.qType ≠ .disk := by
    intro h
    rw [h] at hmem
    exact hmem.elim nofun nofun
  obtain ⟨q', hq', hsize'⟩ := queueDrain_eq hrep hsize hdisk
  rintro ⟨r, destructed, hr, hperm, hzero⟩
  obtain ⟨rfl, rfl⟩ := Prod.mk.inj (Option.some.inj (hr.symm.trans hq'))
  have hlen := hperm.length_eq
  rw [length_dropLast] at hlen
  obtain rfl : xs = [] := eq_nil_of_length_eq_zero (by omega)
  rw [if_pos rfl] at hsize'
  omega

end Drain

def twoSlots : QCfg := { discardingCfg .fixedArray with iMaxQueueSize := 2 }

def oneMessage : QQueue (Fin 8) :=
  { (QQueue.construct twoSlots : QQueue (Fin 8)) with store := .farray oneOfTwo, iQueueSize := 1 }

theorem queueDrain_not_drains_oneMessage : ¬ Drains twoSlots oneMessage [severity 3] :=
  queueDrain_not_drains ⟨rfl, oneOfTwo_rep⟩ rfl (.inl rfl)

/-- One message is not destructed, and an empty queue is left with a size of -1. -/
theorem queueDrain_leaves_message :
    (queueDrain twoSlots oneMessage).map (fun r => (r.1.iQueueSize, r.2)) = some (0, []) ∧
      (queueDrain twoSlots (QQueue.construct twoSlots : QQueue (Fin 8))).map
        (fun r => (r.1.iQueueSize, r.2)) = some (-1, []) := by
  decide +kernel

end Rsyslog.Queue
