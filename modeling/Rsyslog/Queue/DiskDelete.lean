import Rsyslog.Queue.Counters

/-!
# The delete position of a disk queue

A completion moves `pReadDel` to where the last dequeue ended, whichever worker's dequeue that was.
With one batch in flight at a time this is the end of the completed batch. With two, completing one
of them (or merely asking for a new batch) moves the position past the records of the other, which a
restart then does not read again, and which `iQueueSize` still counts.

`SpoolInv` is what every `SafeStep` preserves.
-/

namespace Rsyslog.Queue

open Lib List

variable {μ : Type} {cfg : QCfg} {n : ℕ}

/-! ## Positions and record indices -/

variable {recs : List (μ × Pos)} {p : Pos}

lemma ends_inj {i j : ℕ} (hsorted : (ends recs).Pairwise (· < ·)) (hi : (ends recs)[i]? = some p)
    (hj : (ends recs)[j]? = some p) : i = j := by
  rcases Nat.lt_trichotomy i j with hlt | heq | hgt
  · exact absurd (ends_lt hsorted hlt hi hj) (lt_irrefl p)
  · exact heq
  · exact absurd (ends_lt hsorted hgt hj hi) (lt_irrefl p)

lemma le_length_of_ends {i : ℕ} (hi : (ends recs)[i]? = some p) : i ≤ recs.length := by
  have := (List.getElem?_eq_some_iff.mp hi).1
  simpa [ends, Nat.lt_succ_iff] using this

lemma ends_append_of_some {more : List (μ × Pos)} {i : ℕ} (hi : (ends recs)[i]? = some p) :
    (ends (recs ++ more))[i]? = some p := by
  have hlt := (List.getElem?_eq_some_iff.mp hi).1
  have happ : ends (recs ++ more) = ends recs ++ more.map Prod.snd := by simp [ends]
  rw [happ, getElem?_append_left hlt]
  exact hi

lemma firstPos_le {i : ℕ} (hsorted : (ends recs).Pairwise (· < ·))
    (hi : (ends recs)[i]? = some p) : firstPos ≤ p := by
  cases i with
  | zero => exact (Option.some.inj hi).le
  | succ i => exact (ends_lt hsorted i.succ_pos rfl hi).le

/-- Where a delete takes `pReadDel`: to the end of the last dequeue, if there was one. -/
def Disk.deqMark (d : Disk μ) : Pos :=
  if d.deqFileNumOut = 0 ∧ d.deqOffs = 0 then d.pReadDel else ⟨d.deqFileNumOut, d.deqOffs⟩

variable {d : Disk μ}

lemma seekDel_pReadDel (hle : d.pReadDel ≤ d.deqMark) : d.seekDel.1.pReadDel = d.deqMark := by
  have hfile := Pos.iCurrFNum_mono hle
  simp only [Disk.seekDel, strmMultiFileSeek, Disk.deqMark] at hfile ⊢
  split
  case isTrue => rfl
  case isFalse hset =>
    rw [if_neg hset] at hfile
    exact Pos.ext (Nat.add_sub_cancel' hfile) rfl

lemma seekDel_deqMark (hle : d.pReadDel ≤ d.deqMark) : d.seekDel.1.deqMark = d.deqMark := by
  rw [Disk.deqMark, seekDel_pReadDel hle]
  split
  case isTrue => rfl
  case isFalse hset => exact (if_neg hset).symm

/-! ## The invariant of the spool -/

/-- A `.qi` file names the records that were not deleted when it was written, and counts them. -/
def QiOk (d : Disk μ) (i : ℕ) (qi : Qi) : Prop :=
  ∃ iq, iq ≤ i ∧ iq ≤ qi.nRec ∧ qi.nRec ≤ d.recs.length ∧ (ends d.recs)[iq]? = some qi.pReadDel ∧
    qi.iQueueSize = ((qi.nRec - iq : ℕ) : ℤ)

/-- The first `i` records are deleted, the first `j` dequeued. -/
structure SpoolInv (q : QQueue μ) (d : Disk μ) (i j : ℕ) : Prop where
  store : q.store = .disk d
  le : i ≤ j
  del : (ends d.recs)[i]? = some d.pReadDel
  read : (ends d.recs)[j]? = some d.pReadDeq
  size : q.iQueueSize = ((d.recs.length - i : ℕ) : ℤ)
  qi : ∀ qi, d.qi = some qi → QiOk d i qi

/-- Records may be added; everything the deletes and dequeues go by stays. -/
structure Disk.Extends (d d' : Disk μ) : Prop where
  recs : ∃ more, d'.recs = d.recs ++ more
  pReadDeq : d'.pReadDeq = d.pReadDeq
  deqMark : d'.deqMark = d.deqMark

lemma Disk.Extends.refl (d : Disk μ) : d.Extends d := ⟨⟨[], by simp⟩, rfl, rfl⟩

lemma Disk.Extends.trans {d d' d'' : Disk μ} (h : d.Extends d') (h' : d'.Extends d'') :
    d.Extends d'' := by
  obtain ⟨more, hmore⟩ := h.recs
  obtain ⟨more', hmore'⟩ := h'.recs
  exact ⟨⟨more ++ more', by rw [hmore', hmore, append_assoc]⟩, h'.pReadDeq.trans h.pReadDeq,
    h'.deqMark.trans h.deqMark⟩

namespace SpoolInv

variable {q q' : QQueue μ} {d : Disk μ} {i j : ℕ}

lemma congr (h : SpoolInv q d i j) (hstore : q'.store = q.store)
    (hsize : q'.iQueueSize = q.iQueueSize) : SpoolInv q' d i j :=
  ⟨hstore.trans h.store, h.le, h.del, h.read, hsize.trans h.size, h.qi⟩

lemma persist (h : SpoolInv q d i j) : ∃ d', SpoolInv (qqueuePersist q) d' i j ∧ d.Extends d' := by
  have hi := le_length_of_ends h.del
  refine ⟨{ d with qi := some ⟨q.iQueueSize, d.sizeOnDisk, d.pWrite, d.pReadDel, d.recs.length⟩ },
    ⟨by rw [qqueuePersist, h.store], h.le, h.del, h.read, ?_, ?_⟩, ⟨⟨[], by simp⟩, rfl, rfl⟩⟩
  · rw [qqueuePersist_eq]; exact h.size
  · intro qi hqi
    obtain rfl := Option.some.inj hqi
    exact ⟨i, le_rfl, hi, le_rfl, h.del, h.size⟩

lemma chkPersist (cfg : QCfg) (h : SpoolInv q d i j) (nUpdates : ℕ) :
    ∃ d', SpoolInv (qqueueChkPersist cfg q nUpdates) d' i j ∧ d.Extends d' := by
  unfold qqueueChkPersist
  split
  · exact ⟨d, h, .refl d⟩
  · have hnote : SpoolInv { q with iUpdsSincePersist := q.iUpdsSincePersist + nUpdates } d i j :=
      h.congr rfl rfl
    dsimp only
    split
    · obtain ⟨d', h', hext⟩ := hnote.persist
      exact ⟨d', h'.congr rfl rfl, hext⟩
    · exact ⟨d, hnote, .refl d⟩

lemma enqs [QMsg μ] {ms : List μ} (h : SpoolInv q d i j) (henq : Enqs cfg q ms q') :
    ∃ d', SpoolInv q' d' i j ∧ d.Extends d' := by
  induction henq with
  | refl => exact ⟨d, h, .refl d⟩
  | note _ _ _ _ ih =>
    obtain ⟨d', h', hext⟩ := ih
    exact ⟨d', h'.congr rfl rfl, hext⟩
  | force _ hd nForcePersist ih =>
    obtain ⟨d', h', hext⟩ := ih
    obtain rfl : _ = d' := by simpa using hd.symm.trans h'.store
    exact ⟨_, ⟨rfl, h'.le, h'.del, h'.read, h'.size, h'.qi⟩, hext.recs, hext.pReadDeq,
      hext.deqMark⟩
  | persist _ ih =>
    obtain ⟨d', h', hext⟩ := ih
    obtain ⟨d'', h'', hext'⟩ := h'.persist
    exact ⟨d'', h'', hext.trans hext'⟩
  | @add ms q₁ m store _ _ hstore ih =>
    obtain ⟨d', h', hext⟩ := ih
    rw [h'.store] at hstore
    obtain rfl := Option.some.inj hstore
    have hi := le_length_of_ends h'.del
    have hadd : d'.Extends (qAddDisk cfg.iMaxFileSize cfg.sIOBufSize d' m) :=
      ⟨⟨_, rfl⟩, rfl, rfl⟩
    refine ⟨_, ⟨rfl, h'.le, ends_append_of_some h'.del, ends_append_of_some h'.read, ?_, ?_⟩,
      hext.trans hadd⟩
    · have hsize := h'.size
      simp only [qAddDisk, length_append, length_singleton]
      omega
    · intro qi hqi
      obtain ⟨iq, h₁, h₂, h₃, h₄, h₅⟩ := h'.qi qi hqi
      refine ⟨iq, h₁, h₂, ?_, ends_append_of_some h₄, h₅⟩
      rw [qAddDisk, length_append]
      omega

lemma delete (h : SpoolInv q d i j) (hsorted : (ends d.recs).Pairwise (· < ·))
    (hmark : d.deqMark = d.pReadDeq) {nElem : ℕ}
    (hsize : q.iQueueSize - nElem = ((d.recs.length - j : ℕ) : ℤ))
    (hdel : DoDeleteBatchFromQStore cfg q nElem = some q') :
    ∃ d', SpoolInv q' d' j j ∧ d.Extends d' := by
  have hle : d.pReadDel ≤ d.deqMark := by
    rw [hmark]
    rcases Nat.lt_or_eq_of_le h.le with hlt | rfl
    · exact (ends_lt hsorted hlt h.del h.read).le
    · exact (Option.some.inj (h.del.symm.trans h.read)).le
  have hpos : d.seekDel.1.pReadDel = d.pReadDeq := (seekDel_pReadDel hle).trans hmark
  have hseek : SpoolInv (q.deleted nElem (.disk d.seekDel.1)) d.seekDel.1 j j := by
    refine ⟨rfl, le_rfl, ?_, h.read, hsize, fun qi hqi => ?_⟩
    · rw [hpos]; exact h.read
    · obtain ⟨iq, hiq, hrest⟩ := h.qi qi hqi
      exact ⟨iq, hiq.trans h.le, hrest⟩
  have hext : d.Extends d.seekDel.1 :=
    ⟨⟨[], by simp [Disk.seekDel]⟩, rfl, seekDel_deqMark hle⟩
  rw [DoDeleteBatchFromQStore, h.store] at hdel
  obtain rfl := Option.some.inj hdel
  split
  · obtain ⟨d', h', hext'⟩ := hseek.persist
    exact ⟨d', h', hext.trans hext'⟩
  · exact ⟨_, hseek, hext⟩

end SpoolInv

lemma Store.Reads.disk {s' : Store μ} {rs : List (μ × Pos)} {j : ℕ}
    (hreads : Store.Reads cfg (.disk d) rs s') (hsorted : (ends d.recs).Pairwise (· < ·))
    (hj : (ends d.recs)[j]? = some d.pReadDeq) (hlen : j + rs.length ≤ d.recs.length) :
    ∃ p, s' = .disk { d with pReadDeq := p } ∧ (ends d.recs)[j + rs.length]? = some p ∧
      rs = (d.recs.drop j).take rs.length := by
  generalize hs : Store.disk d = s at hreads
  induction hreads generalizing d j with
  | nil s => exact ⟨d.pReadDeq, hs.symm, hj, rfl⟩
  | @cons s s₁ s₂ m rs hdeq _ ih =>
    subst hs
    rw [length_cons] at hlen
    have hlt : j < d.recs.length := by omega
    have hdrop := recsAfter_eq_drop hsorted hj
    rw [drop_eq_getElem_cons hlt] at hdrop
    simp only [Store.qDeq, qDeqDisk, hdrop, Option.some.injEq, Prod.mk.injEq, Except.ok.injEq]
      at hdeq
    obtain ⟨rfl, rfl⟩ := hdeq
    have hnext : (ends d.recs)[j + 1]? = some d.recs[j].2 := by
      rw [ends, getElem?_cons_succ, getElem?_map, getElem?_eq_getElem hlt]
      rfl
    obtain ⟨p, hs', hp, hrs⟩ := ih (d := { d with pReadDeq := d.recs[j].2 }) (j := j + 1) hsorted
      hnext (by show j + 1 + _ ≤ d.recs.length; omega) rfl
    refine ⟨p, hs', ?_, ?_⟩
    · rw [length_cons, show j + (rs.length + 1) = j + 1 + rs.length by omega]
      exact hp
    · rw [length_cons, drop_eq_getElem_cons hlt]
      exact congrArg (_ :: ·) hrs

namespace SpoolInv

variable {q q₁ : QQueue μ} {b b₁ : Batch μ} {d : Disk μ} {xs : List μ} {i j k : ℕ}

lemma waiting (h : SpoolInv q d i j) (hq : q.Holds cfg xs k) :
    d.Rep xs k ∧ d.recs.length - j = xs.length - k := by
  have hrep : d.Rep xs k := by
    have := hq.rep
    rw [h.store] at this
    exact this.2
  obtain ⟨j', hj', hdrop⟩ := hrep.read
  obtain rfl := ends_inj hrep.sorted h.read hj'
  have hlen := congrArg List.length hdrop
  rw [length_map, length_drop, length_drop] at hlen
  exact ⟨hrep, hlen⟩

lemma complete [QMsg μ] (h : SpoolInv q d i j) (hmark : d.deqMark = d.pReadDeq)
    (hq : q.Holds cfg xs b.nElem) (htdl : q.toDeleteLst = []) (hroom : q.store.Room cfg b.msgs) :
    ∃ q₁ d₁ ys, DeleteProcessedBatch cfg q b = some (q₁, b.reset) ∧ q₁.Holds cfg ys 0 ∧
      SpoolInv q₁ d₁ j j ∧ d.Extends d₁ := by
  obtain ⟨ms, q', q₂, hms, henqs, hdel, hcomp, hholds, -⟩ :=
    DeleteProcessedBatch_spec hq htdl le_rfl hroom
  obtain ⟨d', h', hext⟩ := h.enqs henqs
  have hq' := henqs.holds hq (hroom.sublist hms)
  obtain ⟨hrep, hlen⟩ := h'.waiting hq'
  have hmark' : d'.deqMark = d'.pReadDeq := by rw [hext.deqMark, hext.pReadDeq, hmark]
  have hsize : q'.iQueueSize - b.nElem = ((d'.recs.length - j : ℕ) : ℤ) := by
    have := hrep.live
    rw [hq'.size]
    omega
  obtain ⟨d₁, h₁, hext₁⟩ := h'.delete hrep.sorted hmark' hsize hdel
  rw [Nat.sub_self] at hholds
  exact ⟨_, d₁, _, hcomp, hholds, h₁.congr rfl rfl, hext.trans hext₁⟩

/-- A dequeue with no other batch in flight: the new batch is made of records behind the delete
position, and the next delete will go to the end of it. -/
lemma dequeue [QMsg μ] (h : SpoolInv q₁ d j j) (hq₁ : q₁.Holds cfg xs 0)
    (hcomp : DeleteProcessedBatch cfg q b = some (q₁, b₁)) :
    ∃ r d' j', DequeueConsumableElements cfg q b = some r ∧ SpoolInv r.1 d' j j' ∧
      d'.deqMark = d'.pReadDeq ∧
      ∀ e ∈ r.2.pElem, (e.pMsg, e.recEnd) ∈ d'.recs.drop j := by
  obtain ⟨rs, store, r, hreads, hupto, hr, hdeq, hdequeued, -⟩ :=
    DequeueConsumableElements_spec hcomp hq₁
  obtain ⟨hrep, hlen⟩ := h.waiting hq₁
  have hj := le_length_of_ends h.read
  have hle := hupto.le
  rw [h.store] at hreads
  obtain ⟨p, rfl, hp, hrs⟩ := hreads.disk (j := j) hrep.sorted h.read (by
    show j + rs.length ≤ d.recs.length
    omega)
  set d₁ : Disk μ := { d with
    pReadDeq := p
    deqFileNumIn := d.pReadDeq.iCurrFNum
    deqOffs := p.iCurrOffs
    deqFileNumOut := p.iCurrFNum } with hd₁
  have hafter : SpoolInv (afterReads cfg q₁ rs (.disk { d with
      pReadDeq := p, deqFileNumIn := d.pReadDeq.iCurrFNum })) d₁ j (j + rs.length) :=
    ⟨rfl, Nat.le_add_right _ _, h.del, hp, h.size, h.qi⟩
  obtain ⟨d', h', hext⟩ := hafter.chkPersist cfg (rs.length + b.nElemDeq)
  obtain ⟨more, hmore⟩ := hext.recs
  refine ⟨r, d', j + rs.length, hdeq, ?_, ?_, ?_⟩
  · rw [hr]
    exact h'.congr rfl rfl
  · rw [hext.deqMark, hext.pReadDeq]
    have hfile : 0 < p.iCurrFNum := Pos.iCurrFNum_mono (firstPos_le hrep.sorted hp)
    exact if_neg fun hzero => hfile.ne' hzero.1
  · intro e he
    rw [hdequeued.batch] at he
    obtain ⟨x, hx, rfl⟩ := mem_map.mp he
    have hmem : x ∈ d.recs.drop j := by
      have hx' := (mem_filter.mp hx).1
      rw [hrs] at hx'
      exact mem_of_mem_take hx'
    rw [hmore, drop_append_of_le_length hj]
    exact mem_append_left _ hmem

end SpoolInv

/-! ## Runs that complete one batch at a time -/

/-- The system of a disk queue with the first `i` records deleted and the first `j` dequeued: what
the workers hold is stored behind the delete position. -/
structure Spooled (s : Sys μ n) (d : Disk μ) (i j : ℕ) : Prop where
  spool : SpoolInv s.q d i j
  mark : d.deqMark = d.pReadDeq
  flight : ∀ w, ∀ e ∈ (s.batch w).pElem, (e.pMsg, e.recEnd) ∈ d.recs.drop i

def Sys.Alone (s : Sys μ n) (w : Fin n) : Prop := ∀ v, v ≠ w → (s.batch v).nElem = 0
deriving Decidable

variable {s : Sys μ n}

lemma Sys.Alone.held {w : Fin n} (h : s.Alone w) : s.held = (s.batch w).nElem :=
  Finset.sum_eq_single w (fun v _ hv => h v hv) fun hw => absurd (Finset.mem_univ w) hw

lemma Sys.Alone.flight {w : Fin n} (h : s.Alone w) {r : QQueue μ × Batch μ} {P : BatchElem μ → Prop}
    (hr : ∀ e ∈ r.2.pElem, P e) : ∀ v, ∀ e ∈ ((s.update w r).batch v).pElem, P e := by
  intro v e he
  by_cases hv : v = w
  · subst hv
    rw [Sys.update_batch_self] at he
    exact hr e he
  · rw [Sys.update_batch_of_ne s hv, eq_nil_of_length_eq_zero (h v hv)] at he
    cases he

lemma Batch.mem_setState {b : Batch μ} {m : ℕ} {st : BatchState} {e : BatchElem μ}
    (he : e ∈ (b.setState m st).pElem) :
    ∃ e' ∈ b.pElem, e.pMsg = e'.pMsg ∧ e.recEnd = e'.recEnd := by
  obtain ⟨l, hl⟩ := mem_iff_getElem?.mp he
  rw [Batch.setState, getElem?_modify] at hl
  obtain ⟨e', he', rfl⟩ := Option.map_eq_some_iff.mp hl
  refine ⟨e', mem_of_getElem? he', ?_⟩
  split <;> exact ⟨rfl, rfl⟩

/-- A step that the delete position survives: the spool has file numbers left, nothing is dropped
at dequeue, and a worker completes a batch only while no other worker holds messages. -/
def SafeStep [QMsg μ] (cfg : QCfg) (s : Sys μ n) (e : Event μ n) : Prop :=
  s.q.store.Room cfg (e.offers s) ∧ NoDiscard cfg s e ∧
    match e with
    | .dequeue w => s.Alone w
    | .complete w => s.Alone w
    | _ => True

instance [QMsg μ] (cfg : QCfg) (s : Sys μ n) (e : Event μ n) : Decidable (SafeStep cfg s e) := by
  cases e <;> unfold SafeStep <;> infer_instance

section Steps

variable [QMsg μ] {s : Sys μ n} {xs : List μ} {d : Disk μ} {i j k : ℕ}

lemma Spooled.enqs (h : Spooled s d i j) {q' : QQueue μ} {ms : List μ}
    (henq : Enqs cfg s.q ms q') : ∃ d' i' j', Spooled { s with q := q' } d' i' j' := by
  obtain ⟨d', h', hext⟩ := h.spool.enqs henq
  obtain ⟨more, hmore⟩ := hext.recs
  refine ⟨d', i, j, h', by rw [hext.deqMark, hext.pReadDeq, h.mark], fun w e he => ?_⟩
  rw [hmore, drop_append_of_le_length (le_length_of_ends h.spool.del)]
  exact mem_append_left _ (h.flight w e he)

lemma Spooled.step (h : Spooled s d i j) (hinv : Inv cfg s xs k)
    (hnil : s.q.hist.dropped = []) {e : Event μ n} (hsafe : SafeStep cfg s e) :
    ∃ s' d' i' j', step cfg s e = some s' ∧ Spooled s' d' i' j' := by
  obtain ⟨hroom, -, halone⟩ := hsafe
  -- without drops, all that was handed out and not deleted is in the batch of a lone worker
  have hcomplete : ∀ w, s.Alone w → s.q.store.Room cfg (s.batch w).msgs →
      ∃ q₁ d₁ ys, DeleteProcessedBatch cfg s.q (s.batch w) = some (q₁, (s.batch w).reset) ∧
        q₁.Holds cfg ys 0 ∧ SpoolInv q₁ d₁ j j ∧ d.Extends d₁ := by
    intro w hw hroom
    have hk : k = (s.batch w).nElem := by
      rw [hinv.handedOut, hnil, length_nil, hw.held, Nat.zero_add]
    exact h.spool.complete h.mark (hk ▸ hinv.holds) hinv.toDeleteLst hroom
  cases e with
  | enqMsg m =>
    obtain ⟨ms, q', -, henqs, henq⟩ := takes_holds.qqueueEnqMsg m ⟨_, hinv.holds, hroom⟩
    exact ⟨_, (h.enqs henqs).imp fun _ h => h.imp fun _ h => h.imp fun _ h =>
      ⟨by rw [Queue.step, henq]; rfl, h⟩⟩
  | multiEnq offered =>
    obtain ⟨ms, q', -, henqs, henq⟩ :=
      takes_holds.qqueueMultiEnqObjNonDirect offered ⟨_, hinv.holds, hroom⟩
    exact ⟨_, (h.enqs henqs).imp fun _ h => h.imp fun _ h => h.imp fun _ h =>
      ⟨by rw [Queue.step, henq]; rfl, h⟩⟩
  | dequeue w =>
    obtain ⟨q₁, d₁, ys, hcomp, hholds, hspool, -⟩ := hcomplete w halone hroom
    obtain ⟨r, d', j', hdeq, hspool', hmark, hflight⟩ := hspool.dequeue hholds hcomp
    exact ⟨s.update w r, d', j, j', by rw [Queue.step, hdeq]; rfl, hspool', hmark,
      halone.flight (P := fun e => (e.pMsg, e.recEnd) ∈ d'.recs.drop j) hflight⟩
  | complete w =>
    obtain ⟨q₁, d₁, ys, hcomp, -, hspool, hext⟩ := hcomplete w halone hroom
    refine ⟨s.update w (q₁, (s.batch w).reset), d₁, j, j,
      by rw [Queue.step, batchProcessed, hcomp]; rfl, hspool,
      by rw [hext.deqMark, hext.pReadDeq, h.mark], ?_⟩
    exact halone.flight (P := fun e => (e.pMsg, e.recEnd) ∈ d₁.recs.drop j) fun e he => by cases he
  | setState w m st =>
    refine ⟨_, d, i, j, rfl, h.spool, h.mark, fun v e he => ?_⟩
    by_cases hv : v = w
    · subst hv
      rw [Sys.update_batch_self] at he
      obtain ⟨e', he', heq⟩ := Batch.mem_setState he
      rw [heq.1, heq.2]
      exact h.flight v e' he'
    · rw [Sys.update_batch_of_ne s hv] at he
      exact h.flight v e he
  | setEnqOnly b | setInputTerm b =>
    exact ⟨_, d, i, j, rfl, h.spool.congr rfl rfl, h.mark, h.flight⟩

end Steps

/-! ## What a restart would find -/

/-- A restart that reads from `pReadDel` finds every message the workers hold, and the counter says
how many records it finds; the same for what the `.qi` file holds, when there is one. -/
def DeletePosExact (s : Sys μ n) : Prop :=
  ∀ d, s.q.store = .disk d →
    (∀ w, ∀ e ∈ (s.batch w).pElem, (e.pMsg, e.recEnd) ∈ recsAfter firstPos d.pReadDel d.recs) ∧
    s.q.iQueueSize = ((recsAfter firstPos d.pReadDel d.recs).length : ℤ) ∧
    ∀ qi, d.qi = some qi →
      (∀ w, ∀ e ∈ (s.batch w).pElem, (e.pMsg, e.recEnd) ∈ recsAfter firstPos qi.pReadDel d.recs) ∧
      qi.iQueueSize = ((recsAfter firstPos qi.pReadDel (d.recs.take qi.nRec)).length : ℤ)

lemma ends_take {i m : ℕ} (hi : (ends recs)[i]? = some p) (him : i ≤ m) :
    (ends (recs.take m))[i]? = some p := by
  have htake : ends (recs.take m) = (ends recs).take (m + 1) := by simp [ends, map_take]
  rw [htake, getElem?_take, if_pos (Nat.lt_succ_of_le him), hi]

lemma Spooled.deletePosExact {i j : ℕ} (h : Spooled s d i j)
    (hsorted : (ends d.recs).Pairwise (· < ·)) : DeletePosExact s := by
  intro d' hd'
  obtain rfl : d = d' := by simpa using h.spool.store.symm.trans hd'
  have hdel := recsAfter_eq_drop hsorted h.spool.del
  refine ⟨fun w e he => ?_, ?_, fun qi hqi => ?_⟩
  · rw [hdel]
    exact h.flight w e he
  · rw [hdel, length_drop]
    exact h.spool.size
  · obtain ⟨iq, hle, hrec, hlen, hpos, hsize⟩ := h.spool.qi qi hqi
    constructor
    · intro w e he
      rw [recsAfter_eq_drop hsorted hpos]
      exact (drop_sublist_drop_left _ hle).mem (h.flight w e he)
    · have hsorted' : (ends (d.recs.take qi.nRec)).Pairwise (· < ·) := by
        refine hsorted.sublist ?_
        exact ((take_sublist _ _).map Prod.snd).cons_cons _
      rw [recsAfter_eq_drop hsorted' (ends_take hpos hrec), length_drop, length_take,
        Nat.min_eq_left hlen]
      exact hsize

/-- **Runs that complete one batch at a time are safe.** As long as no step completes a batch while
another worker holds messages, drops a message or runs out of spool file numbers, the run stays
defined, and in every state of it the delete position, in memory and on disk, is right. -/
theorem delete_position_safe [QMsg μ] (hdisk : cfg.qType = .disk) (n : ℕ) (es : List (Event μ n))
    (hsafe : Along (step cfg) (SafeStep cfg) (Sys.init cfg n) es) :
    (∃ s, run (step cfg) (Sys.init cfg n) es = some s) ∧
      Always (step cfg) DeletePosExact (Sys.init cfg n) es := by
  let I : Sys μ n → Prop := fun s => ∃ xs k d i j,
    Inv cfg s xs k ∧ s.q.hist.dropped = [] ∧ Spooled s d i j
  have hinit : I (Sys.init cfg n) := by
    refine ⟨[], 0, qConstructDisk, 0, 0, Inv.init (by simp [hdisk]), rfl, ⟨?_, le_rfl, rfl, rfl,
      rfl, fun _ h => by cases h⟩, rfl, fun _ _ h => by cases h⟩
    simp [Sys.init, QQueue.construct, Store.construct, hdisk]
  have hstep : ∀ s e, I s → SafeStep cfg s e → ∃ s', step cfg s e = some s' ∧ I s' := by
    rintro s e ⟨xs, k, d, i, j, hinv, hnil, hspool⟩ hsafe
    obtain ⟨s', ys, l, hs', hinv', hiff⟩ := hinv.step e hsafe.1
    obtain ⟨t, d', i', j', ht, hspool'⟩ := hspool.step hinv hnil hsafe
    obtain rfl := Option.some.inj (hs'.symm.trans ht)
    exact ⟨s', hs', ys, l, d', i', j', hinv', (hiff.mpr hsafe.2.1).trans hnil, hspool'⟩
  have hexact : ∀ s, I s → DeletePosExact s := by
    rintro s ⟨xs, k, d, i, j, hinv, -, hspool⟩
    exact hspool.deletePosExact (hspool.spool.waiting hinv.holds).1.sorted
  constructor
  · obtain ⟨s, hs, -⟩ := run_defined_of_along hstep hinit hsafe
    exact ⟨s, hs⟩
  · refine (Always.of_along (fun s e s' h hc hs' => ?_) hinit hsafe).mono hexact
    obtain ⟨t, ht, hinv⟩ := hstep s e h hc
    rwa [Option.some.inj (hs'.symm.trans ht)]

/-! ## Two batches in flight -/

/-- A disk queue that hands out one message at a time and writes its `.qi` file on every update. -/
def spoolCfg : QCfg where
  qType := .disk
  iMaxQueueSize := 10
  iDeqBatchSize := 1
  iDiscardMrk := 0
  iDiscardSeverity := 8
  iSmpInterval := 0
  toEnq := 0
  bIsDA := false
  sizeOnDiskMax := 0
  iPersistUpdCnt := 1
  iMaxFileSize := 1000
  sIOBufSize := 4096

def turnsRun : List (Event (Fin 8) 2) :=
  [.enqMsg (severity 3), .enqMsg (severity 4), .dequeue (worker 0), .complete (worker 0),
    .dequeue (worker 1), .enqMsg (severity 5), .dequeue (worker 1), .complete (worker 1)]

theorem delete_position_safe_turnsRun :
    Along (step spoolCfg) (SafeStep spoolCfg) (Sys.init spoolCfg 2) turnsRun ∧
      Always (step spoolCfg) DeletePosExact (Sys.init spoolCfg 2) turnsRun :=
  ⟨by decide, (delete_position_safe rfl 2 turnsRun (by decide)).2⟩

/-- Worker 0 takes the first message, worker 1 the second. Asking for its next batch, worker 1
completes an empty one, and the delete position moves past the record that worker 0 still holds. The
queue and the `.qi` file count two messages, but a restart finds one record. -/
theorem delete_position_skips_record_in_flight :
    ∃ s d qi, run (step spoolCfg) (Sys.init spoolCfg 2 : Sys (Fin 8) 2)
        [.enqMsg 3, .enqMsg 4, .dequeue 0, .dequeue 1] = some s ∧
      s.q.store = .disk d ∧ d.qi = some qi ∧
      (s.batch 0).msgs = [3] ∧ s.q.hist.completed = [] ∧
      (recsAfter firstPos d.pReadDel d.recs).map Prod.fst = [4] ∧ s.q.iQueueSize = 2 ∧
      (recsAfter firstPos qi.pReadDel (d.recs.take qi.nRec)).map Prod.fst = [4] ∧
      qi.iQueueSize = 2 :=
  ⟨_, _, _, rfl, rfl, rfl, rfl, rfl, by decide, rfl, by decide, rfl⟩

end Rsyslog.Queue
