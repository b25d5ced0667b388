import Mathlib.Algebra.Order.BigOperators.Group.List
import Mathlib.Algebra.Order.Ring.Nat
import Rsyslog.Queue.Backend

/-!
# What the queue functions do

Every statement about runs rests on three facts proved here once.

* An enqueue of any kind, a re-enqueue and a check for persisting are made of few small changes:
  bookkeeping, a write of the `.qi` file, and the addition of one message to a store that is not
  full. `Enqs q ms q'` is the closure of these changes, with the messages added. What they preserve,
  the functions preserve.
* A delete takes the given number off both counters.
* The dequeue loop reads a run of messages, keeps those that the discard check lets pass, and drops
  the others.

`QQueue.Holds cfg q xs k` is the invariant that makes them defined: the store holds `xs`, the first
`k` handed out, and the two counters say so.
-/

namespace Rsyslog.Queue

open Lib List DeqLoop
open Option (bind_eq_some_iff bind_eq_bind bind_some)

variable {μ : Type} {cfg : QCfg} {q q' : QQueue μ} {xs ms : List μ} {k : ℕ}

structure QQueue.Holds (cfg : QCfg) (q : QQueue μ) (xs : List μ) (k : ℕ) : Prop where
  rep : q.store.Rep cfg xs k
  size : q.iQueueSize = xs.length
  logDeq : q.nLogDeq = k

/-- What happened to the history and the dequeue IDs between two states of a queue without a batch
being handed out: `acc` was accepted and `comp` was completed. -/
structure Ledger (q : QQueue μ) (acc comp : List μ) (q' : QQueue μ) : Prop where
  accepted : q'.hist.accepted = q.hist.accepted ++ acc
  completed : q'.hist.completed = q.hist.completed ++ comp
  dropped : q'.hist.dropped = q.hist.dropped
  handed : q'.hist.handed = q.hist.handed
  toDeleteLst : q'.toDeleteLst = q.toDeleteLst
  deqIDAdd : q'.deqIDAdd = q.deqIDAdd

lemma Ledger.trans {q'' : QQueue μ} {acc comp acc' comp' : List μ} (h : Ledger q acc comp q')
    (h' : Ledger q' acc' comp' q'') : Ledger q (acc ++ acc') (comp ++ comp') q'' where
  accepted := by rw [h'.accepted, h.accepted, append_assoc]
  completed := by rw [h'.completed, h.completed, append_assoc]
  dropped := h'.dropped.trans h.dropped
  handed := h'.handed.trans h.handed
  toDeleteLst := h'.toDeleteLst.trans h.toDeleteLst
  deqIDAdd := h'.deqIDAdd.trans h.deqIDAdd

lemma qqueuePersist_eq (q : QQueue μ) : qqueuePersist q = { q with store :=
    match q.store with
    | .disk d => .disk { d with
        qi := some ⟨q.iQueueSize, d.sizeOnDisk, d.pWrite, d.pReadDel, d.recs.length⟩ }
    | s => s } := by
  obtain ⟨store, _⟩ := q
  cases store <;> rfl

lemma qqueueChkPersist_eq (cfg : QCfg) (q : QQueue μ) (nUpdates : ℕ) :
    ∃ store u, qqueueChkPersist cfg q nUpdates = { q with store, iUpdsSincePersist := u } := by
  unfold qqueueChkPersist
  split
  · exact ⟨q.store, q.iUpdsSincePersist, rfl⟩
  · dsimp only
    split
    · rw [qqueuePersist_eq]
      exact ⟨_, 0, rfl⟩
    · exact ⟨q.store, _, rfl⟩

lemma slot_of_not_isFull (h : q.Holds cfg xs k) (hfull : isFull cfg q = false) :
    0 < cfg.iMaxQueueSize → xs.length < cfg.iMaxQueueSize := by
  have hsize := (Bool.or_eq_false_iff.mp hfull).1
  rw [decide_eq_false_iff_not, h.size] at hsize
  omega

lemma QQueue.Holds.persist (h : q.Holds cfg xs k) : (qqueuePersist q).Holds cfg xs k := by
  rw [qqueuePersist_eq]
  refine ⟨?_, h.size, h.logDeq⟩
  have hrep := h.rep
  split
  case h_1 hd =>
    rw [hd] at hrep
    exact hrep.disk_congr rfl rfl rfl hrep.live rfl
  case h_2 => exact hrep

lemma QQueue.Holds.chkPersist (h : q.Holds cfg xs k) (nUpdates : ℕ) :
    (qqueueChkPersist cfg q nUpdates).Holds cfg xs k := by
  unfold qqueueChkPersist
  split
  · exact h
  · have hnote : ({ q with iUpdsSincePersist := q.iUpdsSincePersist + nUpdates } :
        QQueue μ).Holds cfg xs k := { h with }
    dsimp only
    split
    · exact { hnote.persist with }
    · exact hnote

/-- The queue after `n` messages were deleted, leaving the store `store`. -/
def QQueue.deleted (q : QQueue μ) (n : ℕ) (store : Store μ) : QQueue μ :=
  { q with
    store
    iQueueSize := q.iQueueSize - n
    nLogDeq := q.nLogDeq - n
    deqIDDel := deqIDSucc q.deqIDDel }

lemma QQueue.deleted_ledger (q : QQueue μ) (n : ℕ) (store : Store μ) :
    Ledger q [] [] (q.deleted n store) :=
  ⟨by simp [deleted], by simp [deleted], rfl, rfl, rfl, rfl⟩

lemma DoDeleteBatchFromQStore_spec {n : ℕ} (hq : q.Holds cfg xs k) (hn : n ≤ k) :
    ∃ store, DoDeleteBatchFromQStore cfg q n = some (q.deleted n store) ∧
      (q.deleted n store).Holds cfg (xs.drop n) (k - n) := by
  have hlive := hq.rep.live
  have hsize : q.iQueueSize - n = ((xs.drop n).length : ℤ) := by
    rw [hq.size, length_drop]; omega
  have hlog : q.nLogDeq - n = ((k - n : ℕ) : ℤ) := by rw [hq.logDeq]; omega
  have hdel : ∃ store bytesDel, q.store.deleteBatch cfg n = some (store, bytesDel) ∧
      store.Rep cfg (xs.drop n) (k - n) := by
    obtain ⟨store, hstore⟩ : ∃ store, q.store = store := ⟨_, rfl⟩
    have hrep := hq.rep
    rw [hstore] at hrep ⊢
    cases store with
    | disk d =>
      refine ⟨_, _, rfl, hrep.disk_congr rfl rfl rfl ?_ ?_⟩
      · rw [length_drop]; omega
      · rw [drop_drop, show n + (k - n) = k by omega]
    | farray a | linklist l =>
      obtain ⟨s', hs', hrep'⟩ := hrep.qDels hn
      exact ⟨s', 0, by simp [Store.deleteBatch, hs'], hrep'⟩
  obtain ⟨store, bytesDel, hstore, hrep⟩ := hdel
  have hcounters : (q.deleted n store).Holds cfg (xs.drop n) (k - n) := ⟨hrep, hsize, hlog⟩
  have heq : DoDeleteBatchFromQStore cfg q n = some
      (if bytesDel ≠ 0 then qqueuePersist (q.deleted n store) else q.deleted n store) := by
    rw [DoDeleteBatchFromQStore, hstore]
    rfl
  by_cases hbytes : bytesDel ≠ 0
  · refine ⟨(qqueuePersist (q.deleted n store)).store, ?_, hcounters.persist.rep, hsize, hlog⟩
    rw [heq, if_pos hbytes, qqueuePersist_eq]
    rfl
  · exact ⟨store, by rw [heq, if_neg hbytes], hcounters⟩

/-! ## Enqueue -/

variable [QMsg μ]

inductive Enqs (cfg : QCfg) (q : QQueue μ) : List μ → QQueue μ → Prop
  | refl : Enqs cfg q [] q
  /-- Bookkeeping that no other function of the model depends on. -/
  | note {ms : List μ} {q' : QQueue μ} (h : Enqs cfg q ms q') (msgCnt iUpdsSincePersist : ℤ)
      (results : List RsRet) :
      Enqs cfg q ms { q' with
        msgCnt, iUpdsSincePersist, hist := { q'.hist with results } }
  | force {ms : List μ} {q' : QQueue μ} {d : Disk μ} (h : Enqs cfg q ms q')
      (hd : q'.store = .disk d) (nForcePersist : ℕ) :
      Enqs cfg q ms { q' with store := .disk { d with nForcePersist } }
  | persist {ms : List μ} {q' : QQueue μ} (h : Enqs cfg q ms q') :
      Enqs cfg q ms (qqueuePersist q')
  | add {ms : List μ} {q' : QQueue μ} {m : μ} {store : Store μ} (h : Enqs cfg q ms q')
      (hfull : isFull cfg q' = false) (hstore : q'.store.qAdd cfg m = some store) :
      Enqs cfg q (ms ++ [m]) { q' with
        store
        iQueueSize := q'.iQueueSize + 1
        hist := { q'.hist with accepted := q'.hist.accepted ++ [m] } }

namespace Enqs

lemma trans {q'' : QQueue μ} {ns : List μ} (h : Enqs cfg q ms q') (h' : Enqs cfg q' ns q'') :
    Enqs cfg q (ms ++ ns) q'' := by
  induction h' with
  | refl => rwa [append_nil]
  | note _ c u r ih => exact ih.note c u r
  | force _ hd n ih => exact ih.force hd n
  | persist _ ih => exact ih.persist
  | add _ hfull hstore ih =>
    rw [← append_assoc]
    exact ih.add hfull hstore

lemma forcePersist (h : Enqs cfg q ms q') : Enqs cfg q ms (forcePersist q') := by
  unfold Queue.forcePersist
  split
  case h_1 d hd =>
    split
    · exact (h.force hd _).persist
    · exact h
  case h_2 => exact h

lemma result (h : Enqs cfg q ms q') (r : RsRet) : Enqs cfg q ms (q'.result r) :=
  h.note q'.msgCnt q'.iUpdsSincePersist _

lemma chkPersist (h : Enqs cfg q ms q') (nUpdates : ℕ) :
    Enqs cfg q ms (qqueueChkPersist cfg q' nUpdates) := by
  unfold qqueueChkPersist
  split
  · exact h
  · have hnote := h.note q'.msgCnt (q'.iUpdsSincePersist + nUpdates) q'.hist.results
    dsimp only
    split
    · exact hnote.persist.note _ 0 _
    · exact hnote

end Enqs

/-- What makes the enqueue of a list of messages defined. After the first one, it is left for the
rest. -/
structure Takes (cfg : QCfg) (I : List μ → QQueue μ → Prop) : Prop where
  add {m : μ} {ns : List μ} {q : QQueue μ} (h : I (m :: ns) q) (hfull : isFull cfg q = false) :
    ∃ store, q.store.qAdd cfg m = some store
  next {m : μ} {ms ns : List μ} {q q' : QQueue μ} (h : I (m :: ns) q) (hms : ms.Sublist [m])
    (henq : Enqs cfg q ms q') : I ns q'

namespace Takes

variable {I : List μ → QQueue μ → Prop} (hI : Takes cfg I)

include hI

lemma doEnqSingleObj {m : μ} {ns : List μ} (h : I (m :: ns) q) :
    ∃ r ms q', Queue.doEnqSingleObj cfg q m = some (r, q') ∧ ms.Sublist [m] ∧
      Enqs cfg q ms q' := by
  unfold Queue.doEnqSingleObj
  split
  · exact ⟨_, [], _, rfl, nil_sublist _, Enqs.refl.result _⟩
  split
  · exact ⟨_, [], _, rfl, nil_sublist _, Enqs.refl.result _⟩
  case isFalse hfull =>
    have hnote : Enqs cfg q [] { q with msgCnt := nextMsgCnt cfg q.msgCnt } :=
      Enqs.refl.note (nextMsgCnt cfg q.msgCnt) q.iUpdsSincePersist q.hist.results
    unfold qqueueAdd
    split
    · exact ⟨_, [], _, rfl, nil_sublist _, hnote.forcePersist.result _⟩
    · have hfull := Bool.eq_false_iff.mpr hfull
      obtain ⟨store, hstore⟩ := hI.add h hfull
      rw [hstore]
      exact ⟨_, [m], _, rfl, .refl _, (hnote.add hfull hstore).forcePersist.result _⟩

lemma multiEnqLoop {offered : List μ} (h : I offered q) :
    ∃ r ms q', Queue.multiEnqLoop cfg q offered = some (r, q') ∧ ms.Sublist offered ∧
      Enqs cfg q ms q' := by
  induction offered generalizing q with
  | nil => exact ⟨_, [], _, rfl, nil_sublist _, .refl⟩
  | cons m rest ih =>
    obtain ⟨r, ms, q₁, henq, hms, h₁⟩ := hI.doEnqSingleObj h
    simp only [Queue.multiEnqLoop, henq, bind_eq_bind, bind_some]
    split
    · exact ⟨_, ms, _, rfl, hms.trans (by simp), h₁⟩
    · obtain ⟨r', ns, q', hrest, hns, h₂⟩ := ih (hI.next h hms h₁)
      exact ⟨r', ms ++ ns, q', hrest, hms.append hns, h₁.trans h₂⟩

lemma reEnqLoop (es : List (BatchElem μ)) (n : ℕ) (h : I (es.map BatchElem.pMsg) q) :
    ∃ n' ms q', Queue.reEnqLoop cfg es n q = some (n', q') ∧
      ms.Sublist (es.map BatchElem.pMsg) ∧ Enqs cfg q ms q' := by
  induction es generalizing q n with
  | nil => exact ⟨_, [], _, rfl, nil_sublist _, .refl⟩
  | cons e rest ih =>
    unfold Queue.reEnqLoop
    split
    · obtain ⟨r, ms, q₁, henq, hms, h₁⟩ := hI.doEnqSingleObj h
      obtain ⟨n', ns, q', hrest, hns, h₂⟩ := ih (n + 1) (hI.next h hms h₁)
      rw [henq]
      exact ⟨n', ms ++ ns, q', hrest, hms.append hns, h₁.trans h₂⟩
    · obtain ⟨n', ns, q', hrest, hns, h₂⟩ := ih n (hI.next h (nil_sublist _) .refl)
      exact ⟨n', ns, q', hrest, hns.cons _, h₂⟩

lemma qqueueEnqMsg (m : μ) (h : I [m] q) :
    ∃ ms q', ms.Sublist [m] ∧ Enqs cfg q ms q' ∧ Queue.qqueueEnqMsg cfg q m = some q' := by
  obtain ⟨r, ms, q₁, henq, hms, h₁⟩ := hI.doEnqSingleObj h
  refine ⟨ms, _, hms, ?_, by rw [Queue.qqueueEnqMsg, henq]; rfl⟩
  split
  · exact h₁.chkPersist 1
  · exact h₁

lemma qqueueMultiEnqObjNonDirect (offered : List μ) (h : I offered q) :
    ∃ ms q', ms.Sublist offered ∧ Enqs cfg q ms q' ∧
      Queue.qqueueMultiEnqObjNonDirect cfg q offered = some q' := by
  obtain ⟨r, ms, q₁, henq, hms, h₁⟩ := hI.multiEnqLoop h
  refine ⟨ms, _, hms, ?_, by rw [Queue.qqueueMultiEnqObjNonDirect, henq]; rfl⟩
  split
  · exact h₁.chkPersist _
  · exact h₁

end Takes

/-! ## What the changes preserve -/

lemma Enqs.ledger (h : Enqs cfg q ms q') : Ledger q ms [] q' := by
  induction h with
  | refl => exact ⟨by simp, by simp, rfl, rfl, rfl, rfl⟩
  | note _ _ _ _ ih | force _ _ _ ih => exact { ih with }
  | persist _ ih =>
    rw [qqueuePersist_eq]
    exact { ih with }
  | add _ _ _ ih =>
    refine { ih with accepted := ?_ }
    simp only [ih.accepted, append_assoc]

lemma Store.Room.sublist {s : Store μ} {ns : List μ} (h : s.Room cfg ns)
    (hsub : ms.Sublist ns) : s.Room cfg ms := by
  cases s with
  | disk d =>
    refine lt_of_le_of_lt (Nat.add_le_add_left ?_ _) h
    exact (hsub.map _).sum_le_sum fun _ _ => Nat.zero_le _
  | _ => trivial

lemma Store.Room.qAdd {s s' : Store μ} {m : μ} (h : s.Room cfg (m :: ms))
    (hadd : s.qAdd cfg m = some s') : s'.Room cfg ms := by
  cases s with
  | disk d =>
    obtain rfl := Option.some.inj hadd
    simp only [Store.Room, map_cons, sum_cons] at h ⊢
    have hpos := foldl_strmPhysWrite_pos cfg.iMaxFileSize
      (flushSizes cfg.sIOBufSize (QMsg.recLen m)) ⟨d.pWrite, d.pWrite, d.fsize⟩
      (fun _ => pos_of_mem_flushSizes) (flushSizes_ne_nil _ (QMsg.recLen_pos m))
      (by dsimp only; omega)
    have hle := hpos.2.2
    simp only [qAddDisk]
    dsimp only at hle
    omega
  | farray a =>
    obtain ⟨a', -, rfl⟩ := Option.map_eq_some_iff.mp hadd
    trivial
  | linklist l =>
    obtain ⟨l', -, rfl⟩ := Option.map_eq_some_iff.mp hadd
    trivial

lemma Enqs.room {ns : List μ} (h : Enqs cfg q ms q') (hroom : q.store.Room cfg (ms ++ ns)) :
    q'.store.Room cfg ns := by
  induction h generalizing ns with
  | refl => exact hroom
  | note _ _ _ _ ih => exact ih hroom
  | force _ hd _ ih => have := ih hroom; rw [hd] at this; exact this
  | persist _ ih =>
    have := ih hroom
    rw [qqueuePersist_eq]
    split
    case h_1 hd => rw [hd] at this; exact this
    case h_2 => exact this
  | add _ _ hstore ih =>
    rw [append_assoc] at hroom
    exact (ih hroom).qAdd hstore

lemma Enqs.holds (h : Enqs cfg q ms q') (hq : q.Holds cfg xs k)
    (hroom : q.store.Room cfg ms) : q'.Holds cfg (xs ++ ms) k := by
  induction h with
  | refl => rwa [append_nil]
  | note _ _ _ _ ih => exact ⟨(ih hroom).rep, (ih hroom).size, (ih hroom).logDeq⟩
  | force _ hd _ ih =>
    obtain ⟨hrep, hsize, hlog⟩ := ih hroom
    rw [hd] at hrep
    exact ⟨hrep.disk_congr rfl rfl rfl hrep.live rfl, hsize, hlog⟩
  | persist _ ih => exact (ih hroom).persist
  | @add ms q₁ m store henq hfull hstore ih =>
    have hq₁ := ih (hroom.sublist (sublist_append_left ..))
    obtain ⟨s', hs', hrep⟩ := hq₁.rep.qAdd m (slot_of_not_isFull hq₁ hfull) (henq.room hroom)
    obtain rfl : s' = store := Option.some.inj (hs'.symm.trans hstore)
    rw [← append_assoc]
    refine ⟨hrep, ?_, hq₁.logDeq⟩
    have hlen : (xs ++ ms ++ [m]).length = (xs ++ ms).length + 1 := length_append
    have hsize := hq₁.size
    dsimp only
    omega

/-- The enqueue functions are defined while the store is in order and there are enough file
numbers. -/
lemma takes_holds :
    Takes cfg fun ns (q : QQueue μ) => ∃ xs, q.Holds cfg xs k ∧ q.store.Room cfg ns where
  add := by
    rintro m ns q ⟨xs, hq, hroom⟩ hfull
    obtain ⟨store, hstore, -⟩ :=
      hq.rep.qAdd m (slot_of_not_isFull hq hfull) (hroom.sublist (by simp))
    exact ⟨store, hstore⟩
  next := by
    rintro m ms ns q q' ⟨xs, hq, hroom⟩ hms henq
    have hsub : (ms ++ ns).Sublist (m :: ns) := hms.append (List.Sublist.refl ns)
    exact ⟨_, henq.holds hq (hroom.sublist ((sublist_append_left ..).trans hsub)),
      henq.room (hroom.sublist hsub)⟩

/-! ## Delete -/

/-- Completing a batch whose messages are stored and handed out: some of its messages are enqueued
again, then as many as it has are deleted, and the batch is empty. -/
lemma DeleteProcessedBatch_spec {b : Batch μ} (hq : q.Holds cfg xs k) (htdl : q.toDeleteLst = [])
    (hb : b.nElem ≤ k) (hroom : q.store.Room cfg b.msgs) :
    ∃ ms q₁ q₂, ms.Sublist b.msgs ∧ Enqs cfg q ms q₁ ∧
      DoDeleteBatchFromQStore cfg q₁ b.nElem = some q₂ ∧
      DeleteProcessedBatch cfg q b = some (q₂.complete b, b.reset) ∧
      (q₂.complete b).Holds cfg ((xs ++ ms).drop b.nElem) (k - b.nElem) ∧
      Ledger q ms b.msgs (q₂.complete b) := by
  obtain ⟨n, ms, q₀, hre, hms, henqs⟩ := takes_holds.reEnqLoop b.pElem 0 ⟨_, hq, hroom⟩
  have h₁ := henqs.chkPersist n
  have hq₁ := h₁.holds hq (hroom.sublist hms)
  obtain ⟨store, hdel, hq₂⟩ := DoDeleteBatchFromQStore_spec hq₁ hb
  refine ⟨ms, _, _, hms, h₁, hdel, ?_, { hq₂ with }, ?_⟩
  · have htdl₁ : (qqueueChkPersist cfg q₀ n).toDeleteLst = [] := h₁.ledger.toDeleteLst.trans htdl
    simp [DeleteProcessedBatch, hre, DeleteBatchFromQStore, htdl₁, hdel]
  · have h := h₁.ledger.trans (QQueue.deleted_ledger _ b.nElem store)
    rw [append_nil] at h
    exact { h with completed := by simpa [QQueue.complete] using h.completed }

/-! ## Dequeue -/

def takeElems (cfg : QCfg) (iQueueSize : ℤ) (rs : List (μ × Pos)) : List (BatchElem μ) :=
  (rs.filter fun r => !qqueueChkDiscardMsg cfg iQueueSize r.1).map fun r => ⟨r.1, .rdy, r.2⟩

def dropElems (cfg : QCfg) (iQueueSize : ℤ) (rs : List (μ × Pos)) : List μ :=
  (rs.filter fun r => qqueueChkDiscardMsg cfg iQueueSize r.1).map Prod.fst

lemma takeElems_append (cfg : QCfg) (iQueueSize : ℤ) (rs rs' : List (μ × Pos)) :
    takeElems cfg iQueueSize (rs ++ rs') =
      takeElems cfg iQueueSize rs ++ takeElems cfg iQueueSize rs' := by
  simp [takeElems]

lemma takeElems_length_add_dropElems_length (cfg : QCfg) (iQueueSize : ℤ) (rs : List (μ × Pos)) :
    (takeElems cfg iQueueSize rs).length + (dropElems cfg iQueueSize rs).length = rs.length := by
  rw [takeElems, dropElems, length_map, length_map, add_comm]
  exact (length_eq_length_filter_add _).symm

/-- The state of the loop after it has read `rs`, ending with the store `store`. -/
def DeqLoop.after (cfg : QCfg) (l : DeqLoop μ) (rs : List (μ × Pos)) (store : Store μ) :
    DeqLoop μ where
  q := { l.q with
    store
    nLogDeq := l.q.nLogDeq + rs.length
    hist := { l.q.hist with
      dropped := l.q.hist.dropped ++ dropElems cfg l.q.iQueueSize rs } }
  pElem := l.pElem ++ takeElems cfg l.q.iQueueSize rs
  nDiscarded := l.nDiscarded + (dropElems cfg l.q.iQueueSize rs).length

lemma DeqLoop.next_after (cfg : QCfg) (l : DeqLoop μ) (m : μ) (s₁ : Store μ) (rs : List (μ × Pos))
    (store : Store μ) :
    (l.next cfg m { l.q with store := s₁, nLogDeq := l.q.nLogDeq + 1 }).after cfg rs store =
      l.after cfg ((m, s₁.readPos) :: rs) store := by
  have hcount : l.q.nLogDeq + 1 + rs.length = l.q.nLogDeq + (rs.length + 1 : ℕ) := by omega
  by_cases hdisc : qqueueChkDiscardMsg cfg l.q.iQueueSize m = true
  · simp [next, DeqLoop.after, takeElems, dropElems, QQueue.drop, hdisc, hcount]
    omega
  · simp [next, DeqLoop.after, takeElems, dropElems, hdisc, hcount]

lemma DeqLoop.next_holds {l : DeqLoop μ} {m : μ} {q : QQueue μ} (hq : q.Holds cfg xs k) :
    (l.next cfg m q).q.Holds cfg xs k ∧ (l.next cfg m q).q.store = q.store ∧
      (l.next cfg m q).q.iQueueSize = q.iQueueSize := by
  unfold next
  split
  · exact ⟨{ hq with }, rfl, rfl⟩
  · exact ⟨hq, rfl, rfl⟩

lemma DeqLoop.after_nil (l : DeqLoop μ) : l.after cfg [] l.q.store = l := by
  simp [DeqLoop.after, takeElems, dropElems]

/-- The loop reads a record only into a batch that is not full, and stops when nothing is left or
the batch is full: `n` elements are in the batch and `left` messages in the store before it. -/
structure ReadsUpTo (cfg : QCfg) (iQueueSize : ℤ) (n left : ℕ) (rs : List (μ × Pos)) : Prop where
  le : rs.length ≤ left
  go : ∀ rs₁ r rs₂, rs = rs₁ ++ r :: rs₂ →
    ((n + (takeElems cfg iQueueSize rs₁).length : ℕ) : ℤ) < cfg.iDeqBatchSize
  stop : rs.length = left ∨
    cfg.iDeqBatchSize ≤ ((n + (takeElems cfg iQueueSize rs).length : ℕ) : ℤ)

lemma ReadsUpTo.nil {iQueueSize : ℤ} {n left : ℕ} (h : left = 0 ∨ cfg.iDeqBatchSize ≤ (n : ℤ)) :
    ReadsUpTo cfg iQueueSize n left ([] : List (μ × Pos)) where
  le := Nat.zero_le _
  go := fun rs₁ _ _ heq => by cases rs₁ <;> cases heq
  stop := by
    rcases h with rfl | h
    · exact .inl rfl
    · exact .inr (by simpa [takeElems] using h)

lemma ReadsUpTo.cons {l : DeqLoop μ} {q₁ : QQueue μ} {m : μ} {p : Pos} {left : ℕ}
    {rs : List (μ × Pos)} (hlen : (l.pElem.length : ℤ) < cfg.iDeqBatchSize)
    (hnext : (l.next cfg m q₁).pElem.length =
      l.pElem.length + (takeElems cfg l.q.iQueueSize [(m, p)]).length)
    (h : ReadsUpTo cfg l.q.iQueueSize (l.next cfg m q₁).pElem.length left rs) :
    ReadsUpTo cfg l.q.iQueueSize l.pElem.length (left + 1) ((m, p) :: rs) := by
  have hsplit : ∀ rs : List (μ × Pos),
      l.pElem.length + (takeElems cfg l.q.iQueueSize ((m, p) :: rs)).length =
        (l.next cfg m q₁).pElem.length + (takeElems cfg l.q.iQueueSize rs).length := by
    intro rs
    have happ := congrArg List.length (takeElems_append cfg l.q.iQueueSize [(m, p)] rs)
    rw [singleton_append, length_append] at happ
    omega
  refine ⟨Nat.succ_le_succ h.le, ?_, ?_⟩
  · intro rs₁ r rs₂ heq
    cases rs₁ with
    | nil => simpa [takeElems] using hlen
    | cons x rs₁ =>
      obtain ⟨rfl, hrs⟩ := List.cons.inj heq
      rw [hsplit]
      exact h.go rs₁ r rs₂ hrs
  · rw [hsplit, length_cons]
    rcases h.stop with hstop | hstop
    · exact .inl (by omega)
    · exact .inr hstop

lemma ReadsUpTo.dropElems_eq_nil_iff {iQueueSize : ℤ} {ws : List μ} {rs : List (μ × Pos)}
    (h : ReadsUpTo cfg iQueueSize 0 ws.length rs) (hrs : rs.map Prod.fst = ws.take rs.length) :
    dropElems cfg iQueueSize rs = [] ↔
      ∀ m ∈ ws.take cfg.iDeqBatchSize.toNat, qqueueChkDiscardMsg cfg iQueueSize m = false := by
  rw [dropElems, map_eq_nil_iff, filter_eq_nil_iff]
  constructor
  · intro hkeep m hm
    have htake : takeElems cfg iQueueSize rs = rs.map fun r => ⟨r.1, .rdy, r.2⟩ := by
      rw [takeElems, filter_eq_self.mpr fun r hr => by simp [hkeep r hr]]
    have hmem : m ∈ rs.map Prod.fst := by
      rw [hrs]
      rcases h.stop with hstop | hstop
      · rw [hstop, take_length]
        exact mem_of_mem_take hm
      · rw [htake, length_map] at hstop
        exact (take_sublist_take_left (by omega)).mem hm
    obtain ⟨r, hr, rfl⟩ := mem_map.mp hmem
    simpa using hkeep r hr
  · intro hkeep r hr hdrop
    -- split the records before the first one that was dropped
    obtain ⟨r₁, hfind⟩ := Option.isSome_iff_exists.mp (find?_isSome
      (p := fun r => qqueueChkDiscardMsg cfg iQueueSize r.1) |>.mpr ⟨r, hr, hdrop⟩)
    obtain ⟨hfirst, rs₁, rs₂, heq, hbefore⟩ := find?_eq_some_iff_append.mp hfind
    have htake : (takeElems cfg iQueueSize rs₁).length = rs₁.length := by
      rw [takeElems, length_map, filter_eq_self.mpr hbefore]
    have hgo := h.go rs₁ r₁ rs₂ heq
    have hget : (rs.map Prod.fst)[rs₁.length]? = some r₁.1 := by simp [heq]
    have hws : ws[rs₁.length]? = some r₁.1 := by
      rw [hrs, getElem?_take] at hget
      split at hget
      · exact hget
      · cases hget
    have hlt : rs₁.length < cfg.iDeqBatchSize.toNat := by omega
    have hmem : r₁.1 ∈ ws.take cfg.iDeqBatchSize.toNat :=
      mem_of_getElem? (i := rs₁.length) (by rw [getElem?_take, if_pos hlt, hws])
    rw [hkeep _ hmem] at hfirst
    cases hfirst

/-- **The dequeue loop.** It reads on until nothing is left or the batch is full. -/
theorem deqLoop_spec {fuel : ℕ} {l : DeqLoop μ} (hq : l.q.Holds cfg xs k)
    (hfuel : xs.length - k ≤ fuel) :
    ∃ rs store, l.q.store.Reads cfg rs store ∧
      ReadsUpTo cfg l.q.iQueueSize l.pElem.length (xs.length - k) rs ∧
      deqLoop cfg fuel l = some (.ok, l.after cfg rs store) := by
  induction fuel generalizing l k with
  | zero => exact ⟨[], l.q.store, .nil _, .nil (.inl (by omega)), by rw [DeqLoop.after_nil]; rfl⟩
  | succ fuel ih =>
    by_cases hgo : getLogicalQueueSize l.q > 0 ∧ (l.pElem.length : ℤ) < cfg.iDeqBatchSize
    · have hk : k < xs.length := by
        have := hgo.1
        rw [getLogicalQueueSize, hq.size, hq.logDeq] at this
        omega
      obtain ⟨s₁, hdeq, hrep₁⟩ := hq.rep.qDeq hk
      set q₁ : QQueue μ := { l.q with store := s₁, nLogDeq := l.q.nLogDeq + 1 } with hq₁def
      have hloop : deqLoop cfg (fuel + 1) l = deqLoop cfg fuel (l.next cfg xs[k] q₁) := by
        rw [deqLoop, if_pos hgo, if_neg (by simp [hq.rep.readAtWrite hk])]
        simp only [qqueueDeq, hdeq, bind_eq_bind, bind_some]
        rfl
      have hq₁ : q₁.Holds cfg xs (k + 1) := ⟨hrep₁, hq.size, by rw [hq₁def, hq.logDeq]; rfl⟩
      obtain ⟨hnext, hstore, hsize⟩ := next_holds (l := l) (m := xs[k]) hq₁
      obtain ⟨rs, store, hreads, hupto, hrest⟩ := ih hnext (by omega)
      rw [hstore] at hreads
      rw [hsize] at hupto
      have hone := congrArg (fun l => l.pElem.length) (next_after cfg l xs[k] s₁ [] s₁)
      refine ⟨(xs[k], s₁.readPos) :: rs, store, .cons hdeq hreads, ?_,
        hloop.trans (hrest.trans (by rw [next_after]))⟩
      rw [show xs.length - k = xs.length - (k + 1) + 1 by omega]
      exact .cons hgo.2 (by simpa [DeqLoop.after, takeElems] using hone) hupto
    · refine ⟨[], l.q.store, .nil _, .nil ?_, by rw [DeqLoop.after_nil, deqLoop, if_neg hgo]⟩
      rw [getLogicalQueueSize, hq.size, hq.logDeq] at hgo
      omega

/-- The queue after the loop has read `rs`, before it is persisted. -/
def afterReads (cfg : QCfg) (q : QQueue μ) (rs : List (μ × Pos)) (store : Store μ) : QQueue μ :=
  { q with
    store := store.deqEnd
    nLogDeq := q.nLogDeq + rs.length
    hist := { q.hist with dropped := q.hist.dropped ++ dropElems cfg q.iQueueSize rs } }

/-- What a dequeue that read `rs` from the state `q₁` returns, the store apart. -/
structure Dequeued (cfg : QCfg) (q₁ : QQueue μ) (rs : List (μ × Pos)) (r : QQueue μ × Batch μ) :
    Prop where
  batch : r.2 = ⟨takeElems cfg q₁.iQueueSize rs, rs.length, q₁.deqIDAdd⟩
  hist : r.1.hist = { q₁.hist with
    dropped := q₁.hist.dropped ++ dropElems cfg q₁.iQueueSize rs
    handed := q₁.hist.handed ++ [(q₁.deqIDAdd, r.2.msgs)] }
  toDeleteLst : r.1.toDeleteLst = q₁.toDeleteLst
  deqIDAdd : r.1.deqIDAdd = deqIDSucc q₁.deqIDAdd
  bEnqOnly : r.1.bEnqOnly = q₁.bEnqOnly
  inputTerm : r.1.inputTerm = q₁.inputTerm
  msgCnt : r.1.msgCnt = q₁.msgCnt

/-- **Dequeue of a batch**, from the state `q₁` that the completion of the previous one left: a run
of messages is read, and those not dropped are handed out. -/
theorem DequeueConsumableElements_spec {b b₁ : Batch μ} {q₁ : QQueue μ}
    (hcomp : DeleteProcessedBatch cfg q b = some (q₁, b₁)) (hq₁ : q₁.Holds cfg xs k) :
    ∃ rs store r, q₁.store.deqBegin.Reads cfg rs store ∧
      ReadsUpTo cfg q₁.iQueueSize 0 (xs.length - k) rs ∧
      r = handOut (qqueueChkPersist cfg (afterReads cfg q₁ rs store) (rs.length + b.nElemDeq))
        (takeElems cfg q₁.iQueueSize rs) rs.length ∧
      DequeueConsumableElements cfg q b = some r ∧ Dequeued cfg q₁ rs r ∧
      r.1.Holds cfg xs (k + rs.length) := by
  have hfuel : xs.length - k ≤
      (getLogicalQueueSize { q₁ with store := q₁.store.deqBegin }).toNat := by
    show xs.length - k ≤ (q₁.iQueueSize - q₁.nLogDeq).toNat
    rw [hq₁.size, hq₁.logDeq]
    omega
  have hbegin : ({ q₁ with store := q₁.store.deqBegin } : QQueue μ).Holds cfg xs k :=
    ⟨hq₁.rep.deqBegin, hq₁.size, hq₁.logDeq⟩
  obtain ⟨rs, store, hreads, hupto, hloop⟩ :=
    deqLoop_spec (l := ⟨{ q₁ with store := q₁.store.deqBegin }, [], 0⟩) hbegin hfuel
  have hlen : k + rs.length ≤ xs.length := by have := hupto.le; have := hq₁.rep.live; omega
  have hafter : (afterReads cfg q₁ rs store).Holds cfg xs (k + rs.length) := by
    refine ⟨((hreads.spec hq₁.rep.deqBegin hlen).2).deqEnd, hq₁.size, ?_⟩
    show q₁.nLogDeq + rs.length = _
    rw [hq₁.logDeq]
    rfl
  have hpersist := hafter.chkPersist (rs.length + b.nElemDeq)
  have hcount := takeElems_length_add_dropElems_length cfg q₁.iQueueSize rs
  refine ⟨rs, store, _, hreads, hupto, rfl, ?_, ?_,
    hpersist.rep, hpersist.size, hpersist.logDeq⟩
  · simp only [DequeueConsumableElements, hcomp, bind_eq_bind, bind_some, hloop,
      ne_eq, not_true_eq_false, if_false]
    simp only [DeqLoop.after, nil_append, Nat.zero_add, hcount]
    rfl
  · obtain ⟨store', u, heq⟩ := qqueueChkPersist_eq cfg (afterReads cfg q₁ rs store)
      (rs.length + b.nElemDeq)
    rw [heq]
    exact ⟨rfl, rfl, rfl, rfl, rfl, rfl, rfl⟩

end Rsyslog.Queue
