import Rsyslog.Queue.Counters

/-!
# Sampling

With a sampling interval of `n`, a queue is to store every `n`-th message offered to it. The counter
behind this is a static variable of `qqueueAdd`, so all queues of the process count with the same
one. `Queues` are the queues with this counter.
-/

namespace Rsyslog.Queue

open Lib

/-! ## Several queues -/

/-- The queues of a process, and the static counter of `qqueueAdd`. `destructed` is history: the
messages that were taken out, by queue. -/
structure Queues (ι μ : Type) where
  msgCnt : ℤ
  queue : ι → QQueue μ
  destructed : ι → List μ

section Sampling

variable {ι μ : Type} [DecidableEq ι] [QMsg μ] (cfg : ι → QCfg)

def takenOut (cfg : QCfg) (msgCnt : ℤ) : Bool :=
  decide (cfg.iSmpInterval > 0 ∧ nextMsgCnt cfg msgCnt ≠ 0)

def Queues.add (s : Queues ι μ) (o : ι × μ) : Option (Queues ι μ) := do
  let q ← qqueueAdd (cfg o.1) { s.queue o.1 with msgCnt := s.msgCnt } o.2
  return {
    msgCnt := q.msgCnt
    queue := Function.update s.queue o.1 q
    destructed :=
      if takenOut (cfg o.1) s.msgCnt then
        Function.update s.destructed o.1 (s.destructed o.1 ++ [o.2])
      else s.destructed }

def Queues.construct : Queues ι μ := ⟨0, fun i => QQueue.construct (cfg i), fun _ => []⟩

/-! ## The intention -/

/-- The messages at the positions that are multiples of `n`, counted from 1. -/
def everyNth (n : ℕ) (xs : List μ) : List μ :=
  ((xs.zipIdx 1).filter fun x => n ∣ x.2).map Prod.fst

def otherThanNth (n : ℕ) (xs : List μ) : List μ :=
  ((xs.zipIdx 1).filter fun x => ¬ n ∣ x.2).map Prod.fst

def offeredTo (i : ι) (offers : List (ι × μ)) : List μ :=
  (offers.filter fun o => o.1 = i).map Prod.snd

def smpInterval (i : ι) : ℕ := (cfg i).iSmpInterval.toNat

/-- Queue `i` has stored every `n`-th of the messages offered to it and destructed the others. -/
def Queues.Sampled (s : Queues ι μ) (offers : List (ι × μ)) (i : ι) : Prop :=
  (s.queue i).hist.accepted = everyNth (smpInterval cfg i) (offeredTo i offers) ∧
    s.destructed i = otherThanNth (smpInterval cfg i) (offeredTo i offers)

/-- Whatever is offered to whichever queues, each of them stores every `n`-th message. -/
def Samples : Prop :=
  ∀ offers : List (ι × μ), ∃ s : Queues ι μ,
    run (Queues.add cfg) (Queues.construct cfg) offers = some s ∧ ∀ i, s.Sampled cfg offers i

/-! ## The lists -/

omit [QMsg μ] in
lemma offeredTo_snoc (i : ι) (offers : List (ι × μ)) (o : ι × μ) :
    offeredTo i (offers ++ [o]) =
      if o.1 = i then offeredTo i offers ++ [o.2] else offeredTo i offers := by
  by_cases h : o.1 = i <;> simp [offeredTo, List.filter_append, h]

omit [QMsg μ] in
lemma everyNth_snoc (n : ℕ) (xs : List μ) (m : μ) :
    everyNth n (xs ++ [m]) =
      if n ∣ xs.length + 1 then everyNth n xs ++ [m] else everyNth n xs := by
  by_cases h : n ∣ xs.length + 1 <;>
    simp [everyNth, List.zipIdx_append, List.filter_append, Nat.add_comm 1, h]

omit [QMsg μ] in
lemma otherThanNth_snoc (n : ℕ) (xs : List μ) (m : μ) :
    otherThanNth n (xs ++ [m]) =
      if n ∣ xs.length + 1 then otherThanNth n xs else otherThanNth n xs ++ [m] := by
  by_cases h : n ∣ xs.length + 1 <;>
    simp [otherThanNth, List.zipIdx_append, List.filter_append, Nat.add_comm 1, h]

/-! ## A call -/

/-- `qAdd` is defined. A ring that is full is written over: that there is room is checked before
`qqueueAdd` is called. -/
def Store.Addable (cfg : QCfg) : Store μ → Prop
  | .farray a => a.tail < cfg.iMaxQueueSize ∧ a.pBuf.length = cfg.iMaxQueueSize
  | .linklist l => ∃ xs k, l.Rep xs k
  | .disk _ => True

lemma Store.Addable.qAdd {cfg : QCfg} {store : Store μ} (h : store.Addable cfg) (m : μ) :
    ∃ store', store.qAdd cfg m = some store' ∧ store'.Addable cfg := by
  cases store with
  | farray a =>
    refine ⟨.farray _, by rw [Store.qAdd, qAddFixedArray, if_pos (h.2 ▸ h.1)]; rfl, ?_, ?_⟩
    · exact Ring.succ_lt h.1
    · rw [List.length_set, h.2]
  | linklist l =>
    obtain ⟨xs, k, hrep⟩ := h
    obtain ⟨l', hl, hrep'⟩ := hrep.qAdd m
    exact ⟨.linklist l', by rw [Store.qAdd, hl]; rfl, _, _, hrep'⟩
  | disk d => exact ⟨_, rfl, trivial⟩

structure Queues.Ready (c : ℕ) (s : Queues ι μ) : Prop where
  msgCnt : s.msgCnt = c
  addable : ∀ i, (s.queue i).store.Addable (cfg i)

variable {cfg}

omit [DecidableEq ι] [QMsg μ] in
lemma nextMsgCnt_eq {i : ι} (hi : 1 ≤ (cfg i).iSmpInterval) (c : ℕ) :
    nextMsgCnt (cfg i) c = ((c + 1) % smpInterval cfg i : ℕ) := by
  have hn : ((smpInterval cfg i : ℕ) : ℤ) = (cfg i).iSmpInterval := Int.toNat_of_nonneg (by omega)
  rw [nextMsgCnt, if_pos (by omega), ← hn]
  rfl

omit [DecidableEq ι] in
lemma takenOut_eq {i : ι} (hi : 1 ≤ (cfg i).iSmpInterval) (c : ℕ) :
    takenOut (cfg i) c = decide ((c + 1) % smpInterval cfg i ≠ 0) := by
  rw [takenOut, nextMsgCnt_eq hi]
  refine decide_eq_decide.mpr ⟨fun h hzero => h.2 ?_, fun h => ⟨hi, fun hzero => h ?_⟩⟩
  · rw [hzero]
    rfl
  · exact Int.natCast_eq_zero.mp hzero

omit [DecidableEq ι] in
lemma qqueueAdd_spec {c : ℕ} {i : ι} {q : QQueue μ} (hi : 1 ≤ (cfg i).iSmpInterval)
    (hc : q.msgCnt = c) (h : q.store.Addable (cfg i)) (m : μ) :
    ∃ q', qqueueAdd (cfg i) q m = some q' ∧ q'.msgCnt = ((c + 1) % smpInterval cfg i : ℕ) ∧
      q'.store.Addable (cfg i) ∧ q'.hist.accepted =
        if (c + 1) % smpInterval cfg i = 0 then q.hist.accepted ++ [m] else q.hist.accepted := by
  have hnext := nextMsgCnt_eq hi c
  have hout := decide_eq_decide.mp (takenOut_eq hi c)
  rw [← hc] at hnext hout
  by_cases hzero : (c + 1) % smpInterval cfg i = 0
  · obtain ⟨store, hstore, hadd⟩ := h.qAdd m
    rw [qqueueAdd, if_neg fun h => hout.mp h hzero, hstore]
    exact ⟨_, rfl, hnext, hadd, (if_pos hzero).symm⟩
  · rw [qqueueAdd, if_pos (hout.mpr hzero)]
    exact ⟨_, rfl, hnext, h, (if_neg hzero).symm⟩

lemma Queues.Ready.add {c : ℕ} {s : Queues ι μ} (h : s.Ready cfg c) {i : ι}
    (hi : 1 ≤ (cfg i).iSmpInterval) (m : μ) :
    ∃ s', s.add cfg (i, m) = some s' ∧ s'.Ready cfg ((c + 1) % smpInterval cfg i) ∧
      (∀ j, (s'.queue j).hist.accepted =
        if i = j ∧ (c + 1) % smpInterval cfg i = 0 then (s.queue j).hist.accepted ++ [m]
        else (s.queue j).hist.accepted) ∧
      ∀ j, s'.destructed j =
        if i = j ∧ (c + 1) % smpInterval cfg i ≠ 0 then s.destructed j ++ [m]
        else s.destructed j := by
  let q₀ : QQueue μ := { s.queue i with msgCnt := s.msgCnt }
  have hstore : q₀.store.Addable (cfg i) := h.addable i
  obtain ⟨q, hq, hcnt, hadd, hacc⟩ := qqueueAdd_spec hi (show q₀.msgCnt = c from h.msgCnt) hstore m
  have hout := takenOut_eq hi c
  rw [← h.msgCnt] at hout
  refine ⟨_, by rw [Queues.add, hq]; rfl, ⟨hcnt, fun j => ?_⟩, fun j => ?_, fun j => ?_⟩ <;>
    dsimp only <;> rcases eq_or_ne j i with rfl | hne
  · rwa [Function.update_self]
  · rw [Function.update_of_ne hne]
    exact h.addable j
  · rw [Function.update_self, hacc]
    simp [q₀]
  · simp [Function.update_of_ne hne, hne.symm]
  · rw [hout]
    split <;> simp_all
  · rw [hout]
    split <;> simp [Function.update_of_ne hne, hne.symm]

/-! ## All calls -/

variable (cfg) in
def count (offers : List (ι × μ)) : ℕ :=
  offers.foldl (fun c o => (c + 1) % smpInterval cfg o.1) 0

omit [DecidableEq ι] [QMsg μ] in
lemma count_snoc (offers : List (ι × μ)) (o : ι × μ) :
    count cfg (offers ++ [o]) = (count cfg offers + 1) % smpInterval cfg o.1 := by
  simp [count]

def InTurn (cfg : ι → QCfg) (offers : List (ι × μ)) (o : ι × μ) : Prop :=
  count cfg (offers ++ [o]) = 0 ↔ smpInterval cfg o.1 ∣ (offeredTo o.1 offers).length + 1

lemma Queues.Sampled.add_iff {offers : List (ι × μ)} {o : ι × μ} {s s' : Queues ι μ}
    (hi : ∀ i, 1 ≤ (cfg i).iSmpInterval) (h : s.Ready cfg (count cfg offers))
    (hs : ∀ i, s.Sampled cfg offers i) (hs' : s.add cfg o = some s') :
    (∀ i, s'.Sampled cfg (offers ++ [o]) i) ↔ InTurn cfg offers o := by
  obtain ⟨t, ht, -, hacc, hdes⟩ := h.add (hi o.1) o.2
  obtain rfl := Option.some.inj (hs'.symm.trans ht)
  rw [InTurn, count_snoc]
  constructor
  · intro hall
    have hstored := (hall o.1).1
    rw [hacc, offeredTo_snoc, if_pos rfl, everyNth_snoc, (hs o.1).1] at hstored
    by_cases hz : (count cfg offers + 1) % smpInterval cfg o.1 = 0 <;>
      by_cases hd : smpInterval cfg o.1 ∣ (offeredTo o.1 offers).length + 1 <;>
        simp [hz, hd] at hstored ⊢
  · intro hturn i
    rw [Queues.Sampled, hacc, hdes, offeredTo_snoc, (hs i).1, (hs i).2]
    by_cases hio : o.1 = i
    · subst hio
      simp [everyNth_snoc, otherThanNth_snoc, hturn, ite_not]
    · simp [hio]

section Construct

variable (hmax : ∀ i, (cfg i).qType = .fixedArray → 1 ≤ (cfg i).iMaxQueueSize)

include hmax

omit [DecidableEq ι] [QMsg μ] in
lemma Queues.Ready.construct : (Queues.construct cfg : Queues ι μ).Ready cfg 0 where
  msgCnt := rfl
  addable i := by
    show (Store.construct (cfg i) : Store μ).Addable (cfg i)
    unfold Store.construct
    split
    case h_1 hq => exact ⟨hmax i hq, List.length_replicate⟩
    case h_2 => exact ⟨[], 0, LinkList.Rep.construct⟩
    case h_3 => trivial

variable (hi : ∀ i, 1 ≤ (cfg i).iSmpInterval)

include hi

lemma run_add (offers : List (ι × μ)) : ∃ s : Queues ι μ,
    run (Queues.add cfg) (Queues.construct cfg) offers = some s ∧
      s.Ready cfg (count cfg offers) := by
  refine run_tracks (fun offers (s : Queues ι μ) => s.Ready cfg (count cfg offers))
    (fun done s o h => ?_) (Queues.Ready.construct hmax) offers
  obtain ⟨s', hs', hready, -⟩ := h.add (hi o.1) o.2
  exact ⟨s', hs', by rwa [count_snoc]⟩

lemma samples_iff_inTurn : Samples (μ := μ) cfg ↔ ∀ offers (o : ι × μ), InTurn cfg offers o := by
  constructor
  · intro h offers o
    obtain ⟨s, hs, hready⟩ := run_add hmax hi offers
    obtain ⟨s₁, hs₁, hsampled⟩ := h offers
    obtain ⟨s₂, hs₂, hsampled'⟩ := h (offers ++ [o])
    obtain rfl := Option.some.inj (hs.symm.trans hs₁)
    have hlast : s.add cfg o = some s₂ := by
      rw [run_snoc, hs] at hs₂
      exact hs₂
    exact (Queues.Sampled.add_iff hi hready hsampled hlast).mp hsampled'
  · intro h offers
    let Good (done : List (ι × μ)) (s : Queues ι μ) : Prop :=
      s.Ready cfg (count cfg done) ∧ ∀ i, s.Sampled cfg done i
    have hinit : Good [] (Queues.construct cfg) :=
      ⟨Queues.Ready.construct hmax, fun i => ⟨rfl, rfl⟩⟩
    have hstep (done : List (ι × μ)) (s : Queues ι μ) (o : ι × μ) (hgood : Good done s) :
        ∃ s', s.add cfg o = some s' ∧ Good (done ++ [o]) s' := by
      obtain ⟨s', hs', hready, -⟩ := hgood.1.add (hi o.1) o.2
      exact ⟨s', hs', by rwa [count_snoc],
        (Queues.Sampled.add_iff hi hgood.1 hgood.2 hs').mpr (h done o)⟩
    obtain ⟨s, hs, -, hsampled⟩ := run_tracks Good hstep hinit offers
    exact ⟨s, hs, hsampled⟩

end Construct

/-! ## The shared counter -/

omit [QMsg μ] in
lemma inTurn_of_apart
    (h : ∀ i j, i ≠ j → smpInterval cfg i = 1 ∧ smpInterval cfg j = 1)
    (offers : List (ι × μ)) (o : ι × μ) : InTurn cfg offers o := by
  have hcount (i : ι) : count cfg offers ≡ (offeredTo i offers).length [MOD smpInterval cfg i] := by
    induction offers using List.reverseRecOn with
    | nil => rfl
    | append_singleton offers p ih =>
      rw [count_snoc, offeredTo_snoc]
      by_cases hp : p.1 = i
      · rw [hp, if_pos rfl, List.length_append]
        exact (Nat.mod_modEq _ _).trans (ih.add_right 1)
      · rw [(h p.1 i hp).2]
        exact Nat.modEq_one
  rw [InTurn, count_snoc, ← Nat.dvd_iff_mod_eq_zero]
  exact ((hcount o.1).add_right 1).dvd_iff dvd_rfl

omit [QMsg μ] in
lemma offeredTo_replicate (i : ι) (m : μ) (k : ℕ) :
    offeredTo i (List.replicate k (i, m)) = List.replicate k m := by
  simp [offeredTo]

omit [DecidableEq ι] [QMsg μ] in
lemma count_replicate (i : ι) (m : μ) {k : ℕ} (hk : k < smpInterval cfg i) :
    count cfg (List.replicate k (i, m)) = k := by
  induction k with
  | zero => rfl
  | succ k ih =>
    rw [List.replicate_succ', count_snoc, ih (by omega), Nat.mod_eq_of_lt hk]

/-- A counter at `a` that is taken modulo `b` and counted up comes to a multiple of `a` only if `b`
had its turn, too. -/
lemma not_turn_of_turn {a b : ℕ} (ha : 2 ≤ a) (hb : 1 ≤ b) (hfirst : a % b = 0 ↔ b ∣ 1) :
    (a % b + 1) % a ≠ 0 := by
  rcases Nat.eq_or_lt_of_le hb with rfl | hb
  · rw [Nat.mod_one, Nat.mod_eq_of_lt (by omega)]
    exact one_ne_zero
  · have hne : a % b ≠ 0 := fun h => by
      have := Nat.le_of_dvd one_pos (hfirst.mp h)
      omega
    rcases Nat.lt_or_ge a b with hab | hab
    · rw [Nat.mod_eq_of_lt hab, Nat.add_mod_left, Nat.mod_eq_of_lt (by omega)]
      exact one_ne_zero
    · have hlt : a % b < b := Nat.mod_lt a (by omega)
      have hstep : a % b + 1 < a := by
        refine lt_of_le_of_ne (by omega) fun heq => hne ?_
        obtain rfl : a = b := by omega
        exact Nat.mod_self a
      rw [Nat.mod_eq_of_lt hstep]
      exact Nat.succ_ne_zero _

omit [QMsg μ] in
lemma exists_not_inTurn {i j : ι} (hij : i ≠ j) (hi : 2 ≤ smpInterval cfg i)
    (hj : 1 ≤ smpInterval cfg j) (m : μ) :
    ∃ offers, ∃ o : ι × μ, ¬ InTurn cfg offers o := by
  by_contra! h
  -- queue `i` is about to store when queue `j` gets a message
  set offers := List.replicate (smpInterval cfg i - 1) (i, m)
  have hcount : count cfg offers + 1 = smpInterval cfg i := by
    rw [count_replicate i m (by omega)]
    omega
  have hother : offeredTo j offers = [] := by simp [offers, offeredTo, hij]
  have hfirst := h offers (j, m)
  rw [InTurn, count_snoc, hcount, hother] at hfirst
  have hown : (offeredTo i (offers ++ [(j, m)])).length + 1 = smpInterval cfg i := by
    rw [offeredTo_snoc, if_neg hij.symm, offeredTo_replicate, List.length_replicate]
    omega
  have hlast := h (offers ++ [(j, m)]) (i, m)
  rw [InTurn, count_snoc, count_snoc, hcount, hown] at hlast
  exact not_turn_of_turn hi hj hfirst (hlast.mpr dvd_rfl)

/-- The queues sample as intended, whatever is offered to them, exactly if there is only one of
them or all intervals are 1. -/
theorem samples_iff [Inhabited μ] (hi : ∀ i, 1 ≤ (cfg i).iSmpInterval)
    (hmax : ∀ i, (cfg i).qType = .fixedArray → 1 ≤ (cfg i).iMaxQueueSize) :
    Samples (μ := μ) cfg ↔
      ∀ i j, i ≠ j → (cfg i).iSmpInterval = 1 ∧ (cfg j).iSmpInterval = 1 := by
  have hpos (i : ι) : 1 ≤ smpInterval cfg i := by
    have := hi i
    rw [smpInterval]
    omega
  have hone (i : ι) : smpInterval cfg i = 1 ↔ (cfg i).iSmpInterval = 1 := by
    rw [smpInterval]
    omega
  simp only [← hone]
  rw [samples_iff_inTurn hmax hi]
  refine ⟨fun h => ?_, fun h offers o => inTurn_of_apart h offers o⟩
  have hleft (i j : ι) (hij : i ≠ j) : smpInterval cfg i = 1 := by
    by_contra hne
    have htwo : 2 ≤ smpInterval cfg i := by
      have := hpos i
      omega
    obtain ⟨offers, o, hnot⟩ := exists_not_inTurn hij htwo (hpos j) (default : μ)
    exact hnot (h offers o)
  exact fun i j hij => ⟨hleft i j hij, hleft j i hij.symm⟩

end Sampling

/-! ## Two queues -/

def sampled (n : ℤ) : QCfg where
  qType := .linkedList
  iMaxQueueSize := 10
  iDeqBatchSize := 1
  iDiscardMrk := 0
  iDiscardSeverity := 0
  iSmpInterval := n
  toEnq := 0
  bIsDA := false
  sizeOnDiskMax := 0
  iPersistUpdCnt := 0
  iMaxFileSize := 1
  sIOBufSize := 1

/-- One queue that stores every third message, and three that store all of them. -/
theorem samples_iff_many : Samples (ι := Unit) (μ := Fin 8) (fun _ => sampled 3) ∧
    Samples (ι := Fin 3) (μ := Fin 8) fun _ => sampled 1 :=
  ⟨(samples_iff (fun _ => by decide) fun _ h => absurd h (by decide)).mpr fun _ _ h => absurd rfl h,
    (samples_iff (fun _ => by decide) fun _ h => absurd h (by decide)).mpr fun _ _ _ => ⟨rfl, rfl⟩⟩

def twoQueues : Bool → QCfg := fun _ => sampled 2

def oneOfferEach : List (Bool × Fin 8) := [(false, severity 6), (true, severity 7)]

/-- Each of two queues gets one message, and the second queue stores it. -/
theorem shared_counter_disturbs :
    (run (Queues.add twoQueues) (Queues.construct twoQueues) oneOfferEach).map
        (fun s => ((s.queue true).hist.accepted, s.destructed true)) = some ([severity 7], []) ∧
      everyNth (smpInterval twoQueues true) (offeredTo true oneOfferEach) = [] ∧
      otherThanNth (smpInterval twoQueues true) (offeredTo true oneOfferEach) = [severity 7] := by
  decide +kernel

end Rsyslog.Queue
