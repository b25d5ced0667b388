import Rsyslog.Lib.Heap
import Rsyslog.Lib.Run

/-!
# Buckets of dynamic statistics

The counters of a dyn-stats bucket of `dynstats.c`. A metric that is incremented for the first time
gets a counter in the active table. A reset makes the active counters survivors, whose values are
taken up again when they are incremented before the next reset, and destroys the survivors of the
reset before.

A counter is an object on the heap, which the tables and the lists refer to by its address. The
bucket has non-resettable counters, its lock is free and memory is there.
-/

namespace Rsyslog.Dynstats

open Lib List UInt64
open Option (map_some)

abbrev Metric := List UInt8

structure Ctr where
  metric : Metric
  ctr : UInt64
  deriving DecidableEq

/-- The fields of `dynstats_bucket_t` for the counters, with the counters themselves. Hash tables
are lists of keys and addresses, linked lists are lists of addresses. -/
structure Bucket where
  heap : Heap Ctr
  table : List (Metric × ℕ)
  ctrs : List ℕ
  survivor_table : List (Metric × ℕ)
  survivor_ctrs : List ℕ
  metricCount : ℕ
  deriving DecidableEq

inductive RsRet
  | ok
  | outOfMemory
  deriving DecidableEq

def statsCounterInc (heap : Heap Ctr) (ctr : ℕ) : Option (Heap Ctr) :=
  (heap.read ctr).bind fun c => heap.write ctr { c with ctr := c.ctr + 1 }

def destroyCountersIn (b : Bucket) (ctrs : List ℕ) : Option Bucket :=
  (b.heap.freeAll ctrs).map fun heap =>
    { b with heap := heap, metricCount := b.metricCount - ctrs.length }

def rebuildSurvivorTable (b : Bucket) : Option Bucket :=
  (destroyCountersIn b b.survivor_ctrs).map fun b =>
    { b with survivor_table := b.table, survivor_ctrs := b.ctrs, table := [], ctrs := [] }

/-- The counter `ctr` is made for the metric; it is destroyed again if it is not the one that is
used. -/
def addNewCtr (maxCardinality : ℕ) (b : Bucket) (metric : Metric) (doInitialIncrement : Bool) :
    Option (RsRet × Bucket) :=
  if b.metricCount ≥ maxCardinality then some (.outOfMemory, b)
  else
    let heap := (b.heap.alloc ⟨metric, 0⟩).1
    let ctr := (b.heap.alloc ⟨metric, 0⟩).2
    let inc := fun (heap : Heap Ctr) (ctr : ℕ) =>
      if doInitialIncrement then statsCounterInc heap ctr else some heap
    match b.table.lookup metric with
    | some found_ctr =>
      (inc heap found_ctr).bind fun heap =>
        (heap.free ctr).map fun heap => (.ok, { b with heap := heap })
    | none =>
      match b.survivor_table.lookup metric with
      | none =>
        (inc heap ctr).map fun heap =>
          (.ok, { b with
            heap := heap, table := (metric, ctr) :: b.table, ctrs := ctr :: b.ctrs
            metricCount := b.metricCount + 1 })
      | some survivor_ctr =>
        (inc heap survivor_ctr).bind fun heap =>
          (heap.free ctr).map fun heap =>
            (.ok, { b with
              heap := heap
              table := (metric, survivor_ctr) :: b.table
              ctrs := survivor_ctr :: b.ctrs
              survivor_ctrs := b.survivor_ctrs.erase survivor_ctr })

variable (GatherStats : Bool) (maxCardinality : ℕ) (b : Bucket) (metric : Metric)

def inc (b : Bucket) (metric : Metric) : Option (RsRet × Bucket) :=
  if ¬GatherStats then some (.ok, b)
  else if metric.length = 0 then some (.ok, b)
  else
    match b.table.lookup metric with
    | some ctr => (statsCounterInc b.heap ctr).map fun heap => (.ok, { b with heap := heap })
    | none => addNewCtr maxCardinality b metric true

def newBucket : Bucket := ⟨[], [], [], [], [], 0⟩

inductive Op
  | inc (metric : Metric)
  | reset
  deriving DecidableEq

section

variable (GatherStats : Bool) (maxCardinality : ℕ)

/-- `none` is the use of a counter that was destroyed. -/
def step (b : Bucket) : Op → Option Bucket
  | .inc metric => (inc GatherStats maxCardinality b metric).map Prod.snd
  | .reset => rebuildSurvivorTable b

end

/-! ## The counters of a bucket -/

def counterOf (b : Bucket) (metric : Metric) : Option ℕ :=
  (b.table.lookup metric).or (b.survivor_table.lookup metric)

def HasCounter (b : Bucket) (metric : Metric) (ctr : ℕ) (value : UInt64) : Prop :=
  counterOf b metric = some ctr ∧ b.heap.read ctr = some ⟨metric, value⟩
deriving Decidable

def Active (b : Bucket) (metric : Metric) : Prop := (b.table.lookup metric).isSome
deriving Decidable

/-- Every entry of a table is a counter of its metric that is there, every counter is on one list
once, and both lists together are what `metricCount` counts. A survivor that was taken up again is
left in the table of survivors. -/
structure Valid (b : Bucket) : Prop where
  alive : ∀ p, p ∈ b.table ∨ p ∈ b.survivor_table → ∃ v, b.heap.read p.2 = some ⟨p.1, v⟩
  ctrs_eq : b.ctrs = b.table.map Prod.snd
  of_survivor : ∀ a ∈ b.survivor_ctrs, ∃ m, (m, a) ∈ b.survivor_table
  survivor_or : ∀ p ∈ b.survivor_table, p.2 ∈ b.survivor_ctrs ∨ p ∈ b.table
  nodup : (b.ctrs ++ b.survivor_ctrs).Nodup
  count : b.metricCount = b.ctrs.length + b.survivor_ctrs.length
  le_max : b.metricCount ≤ maxCardinality

lemma valid_newBucket : Valid maxCardinality newBucket where
  alive := by simp [newBucket]
  ctrs_eq := rfl
  of_survivor := by simp [newBucket]
  survivor_or := by simp [newBucket]
  nodup := nodup_nil
  count := rfl
  le_max := Nat.zero_le _

variable {v : UInt64}

section Step

variable {GatherStats : Bool} {maxCardinality : ℕ} {b b' : Bucket} {metric x : Metric}

/-! ## Tables -/

variable {t : List (Metric × ℕ)} {a : ℕ}

lemma mem_of_lookup (h : t.lookup metric = some a) : (metric, a) ∈ t := by
  obtain ⟨l₁, l₂, rfl, -⟩ := lookup_eq_some_iff.mp h
  exact mem_append_right _ mem_cons_self

lemma not_mem_of_lookup (h : t.lookup metric = none) (a : ℕ) : (metric, a) ∉ t := by
  intro hmem
  have := lookup_eq_none_iff.mp h _ hmem
  simp at this

lemma lookup_cons_eq (x : Metric) :
    ((metric, a) :: t).lookup x = if x = metric then some a else t.lookup x := by
  rw [lookup_cons]
  split_ifs with h
  · rw [h, beq_self_eq_true]
  · rw [beq_eq_false_iff_ne.mpr h]

lemma counterOf_of_active (h : b.table.lookup metric = some a) :
    counterOf b metric = some a := by rw [counterOf, h, Option.some_or]

lemma counterOf_of_not_active (h : b.table.lookup metric = none) :
    counterOf b metric = b.survivor_table.lookup metric := by rw [counterOf, h, Option.none_or]

/-! ## Counters on the heap -/

variable {heap : Heap Ctr}

lemma exists_statsCounterInc (ha : heap.read a = some ⟨metric, v⟩) :
    ∃ heap', statsCounterInc heap a = some heap' ∧
      ∀ c, heap'.read c = if c = a then some ⟨metric, v + 1⟩ else heap.read c := by
  obtain ⟨heap', hwrite, hread⟩ := Heap.exists_write ha ⟨metric, v + 1⟩
  exact ⟨heap', by rw [statsCounterInc, ha]; exact hwrite, hread⟩

lemma exists_inc_alloc_free (ha : heap.read a = some ⟨metric, v⟩) (new : Ctr) :
    ∃ heap₁ heap', statsCounterInc (heap.alloc new).1 a = some heap₁ ∧
      heap₁.free (heap.alloc new).2 = some heap' ∧
      ∀ c, heap'.read c = if c = a then some ⟨metric, v + 1⟩ else heap.read c := by
  obtain ⟨heap₁, hinc, hread₁⟩ := exists_statsCounterInc (Heap.read_alloc_of_read ha new)
  have hne : (heap.alloc new).2 ≠ a := by
    rintro rfl
    rw [Heap.read_fresh] at ha
    cases ha
  have hnew : heap₁.read (heap.alloc new).2 = some new := by
    rw [hread₁, if_neg hne, Heap.read_alloc, if_pos rfl]
  obtain ⟨heap', hfree, hread'⟩ := Heap.exists_free hnew
  refine ⟨heap₁, heap', hinc, hfree, fun c => ?_⟩
  rw [hread', hread₁, Heap.read_alloc]
  by_cases hc : c = (heap.alloc new).2
  · rw [if_pos hc, hc, if_neg hne, Heap.read_fresh]
  · rw [if_neg hc, if_neg hc]

/-! ## What a step does -/

structure Others (metric : Metric) (b b' : Bucket) : Prop where
  lookup_eq : ∀ x, x ≠ metric → b'.table.lookup x = b.table.lookup x
  survivor_table_eq : b'.survivor_table = b.survivor_table
  read_eq : ∀ a m v, b.heap.read a = some ⟨m, v⟩ → m ≠ metric → b'.heap.read a = some ⟨m, v⟩

lemma Others.refl (metric : Metric) (b : Bucket) : Others metric b b :=
  ⟨fun _ _ => rfl, rfl, fun _ _ _ h _ => h⟩

lemma Others.active (h : Others metric b b') (hx : x ≠ metric) (hactive : Active b x) :
    Active b' x := by
  rw [Active, h.lookup_eq x hx]
  exact hactive

lemma Others.hasCounter (h : Others metric b b') (hx : x ≠ metric) {c : ℕ}
    (hc : HasCounter b x c v) : HasCounter b' x c v := by
  refine ⟨?_, h.read_eq c x v hc.2 hx⟩
  rw [counterOf, h.lookup_eq x hx, h.survivor_table_eq]
  exact hc.1

/-- The metric is counted: its counter is active, and one more than it was. -/
structure Counts (metric : Metric) (b b' : Bucket) : Prop where
  active : Active b' metric
  counter : ∀ c v, HasCounter b metric c v → HasCounter b' metric c (v + 1)
  new : counterOf b metric = none → ∃ c, HasCounter b' metric c 1

section Cases

variable {heap : Heap Ctr} {a : ℕ} {v : UInt64} (h : Valid maxCardinality b)

include h

/-- The parts that the cases share: the counter `a` of the metric is read as one more, or is new. -/
lemma counted {b' : Bucket} (hlookup : ∀ x, b'.table.lookup x =
      if x = metric then some a else b.table.lookup x)
    (hsurvivor : b'.survivor_table = b.survivor_table)
    (hread : ∀ c, b'.heap.read c = if c = a then some ⟨metric, v + 1⟩ else b.heap.read c)
    (hold : counterOf b metric = some a ∧ b.heap.read a = some ⟨metric, v⟩ ∨
      counterOf b metric = none ∧ b.heap.read a = none ∧ v = 0) :
    (∀ p, p = (metric, a) ∨ p ∈ b.table ∨ p ∈ b.survivor_table →
      ∃ w, b'.heap.read p.2 = some ⟨p.1, w⟩) ∧ Others metric b b' ∧ Counts metric b b' := by
  have hother : ∀ m w, b.heap.read a = some ⟨m, w⟩ → m = metric := by
    intro m w hm
    obtain ⟨-, hv⟩ | ⟨-, hv, -⟩ := hold
    · cases hm.symm.trans hv
      rfl
    · cases hm.symm.trans hv
  have hactive : b'.table.lookup metric = some a := (hlookup metric).trans (if_pos rfl)
  have hone : HasCounter b' metric a (v + 1) :=
    ⟨counterOf_of_active hactive, (hread a).trans (if_pos rfl)⟩
  refine ⟨fun p hp => ?_, ⟨fun x hx => (hlookup x).trans (if_neg hx), hsurvivor, ?_⟩, ?_, ?_, ?_⟩
  · obtain rfl | hp := hp
    · exact ⟨_, (hread a).trans (if_pos rfl)⟩
    · obtain ⟨w, hw⟩ := h.alive p hp
      rw [hread]
      by_cases hpa : p.2 = a
      · rw [hpa] at hw
        exact ⟨_, by rw [if_pos hpa, hother _ _ hw]⟩
      · exact ⟨w, by rw [if_neg hpa, hw]⟩
  · intro c m w hc hm
    rw [hread, if_neg, hc]
    rintro rfl
    exact hm (hother m w hc)
  · rw [Active, hactive]
    rfl
  · intro c w hc
    obtain ⟨hcounter, hv⟩ | ⟨hnone, -⟩ := hold
    · cases hc.1.symm.trans hcounter
      cases hc.2.symm.trans hv
      exact hone
    · cases hc.1.symm.trans hnone
  · intro hnone
    obtain ⟨hcounter, -⟩ | ⟨-, -, rfl⟩ := hold
    · cases hnone.symm.trans hcounter
    · exact ⟨a, hone⟩

lemma count_active (hlookup : b.table.lookup metric = some a)
    (ha : b.heap.read a = some ⟨metric, v⟩)
    (hread : ∀ c, heap.read c = if c = a then some ⟨metric, v + 1⟩ else b.heap.read c) :
    Valid maxCardinality { b with heap := heap } ∧ Others metric b { b with heap := heap } ∧
      Counts metric b { b with heap := heap } := by
  have hsame (x : Metric) : b.table.lookup x = if x = metric then some a else b.table.lookup x := by
    split_ifs with hx
    · rw [hx, hlookup]
    · rfl
  obtain ⟨halive, hspec⟩ : _ ∧ Others metric b { b with heap := heap } ∧ _ :=
    counted h hsame rfl hread (.inl ⟨counterOf_of_active hlookup, ha⟩)
  exact ⟨{ h with alive := fun p hp => halive p (.inr hp) }, hspec⟩

lemma count_new (hlt : b.metricCount < maxCardinality) (hlookup : b.table.lookup metric = none)
    (hsurvivor : b.survivor_table.lookup metric = none) (ha : b.heap.read a = none)
    (hread : ∀ c, heap.read c = if c = a then some ⟨metric, 0 + 1⟩ else b.heap.read c) :
    let b' : Bucket := { b with
      heap := heap, table := (metric, a) :: b.table, ctrs := a :: b.ctrs
      metricCount := b.metricCount + 1 }
    Valid maxCardinality b' ∧ Others metric b b' ∧ Counts metric b b' := by
  have hold : ∀ p, p ∈ b.table ∨ p ∈ b.survivor_table → p.2 ≠ a := by
    rintro p hp rfl
    obtain ⟨v, hv⟩ := h.alive p hp
    rw [ha] at hv
    cases hv
  have hfresh : a ∉ b.ctrs ++ b.survivor_ctrs := by
    rw [mem_append, h.ctrs_eq]
    rintro (hmem | hmem)
    · obtain ⟨p, hp, heq⟩ := mem_map.mp hmem
      exact hold p (.inl hp) heq
    · obtain ⟨m, hm⟩ := h.of_survivor a hmem
      exact hold _ (.inr hm) rfl
  intro b'
  obtain ⟨halive, hspec⟩ : _ ∧ Others metric b b' ∧ _ := counted h lookup_cons_eq rfl hread
    (.inr ⟨(counterOf_of_not_active hlookup).trans hsurvivor, ha, rfl⟩)
  refine ⟨⟨fun p hp => halive p (or_assoc.mp (hp.imp_left mem_cons.mp)),
    congrArg (a :: ·) h.ctrs_eq, h.of_survivor, ?_, ?_, ?_, hlt⟩, hspec⟩
  · exact fun p hp => (h.survivor_or p hp).imp_right (mem_cons_of_mem _)
  · exact nodup_cons.mpr ⟨hfresh, h.nodup⟩
  · change b.metricCount + 1 = (a :: b.ctrs).length + b.survivor_ctrs.length
    rw [length_cons, h.count]
    omega

lemma count_survivor (hlookup : b.table.lookup metric = none)
    (hsurvivor : b.survivor_table.lookup metric = some a) (ha : b.heap.read a = some ⟨metric, v⟩)
    (hread : ∀ c, heap.read c = if c = a then some ⟨metric, v + 1⟩ else b.heap.read c) :
    let b' : Bucket := { b with
      heap := heap, table := (metric, a) :: b.table, ctrs := a :: b.ctrs
      survivor_ctrs := b.survivor_ctrs.erase a }
    Valid maxCardinality b' ∧ Others metric b b' ∧ Counts metric b b' := by
  have hmem : a ∈ b.survivor_ctrs :=
    (h.survivor_or _ (mem_of_lookup hsurvivor)).resolve_right (not_mem_of_lookup hlookup a)
  intro b'
  obtain ⟨halive, hspec⟩ : _ ∧ Others metric b b' ∧ _ := counted h lookup_cons_eq rfl hread
    (.inl ⟨(counterOf_of_not_active hlookup).trans hsurvivor, ha⟩)
  refine ⟨⟨fun p hp => halive p (or_assoc.mp (hp.imp_left mem_cons.mp)),
    congrArg (a :: ·) h.ctrs_eq, fun c hc => h.of_survivor c (mem_of_mem_erase hc), ?_, ?_, ?_,
    h.le_max⟩, hspec⟩
  · intro p hp
    by_cases hpa : p.2 = a
    · obtain ⟨w, hw⟩ := h.alive p (.inr hp)
      rw [hpa, ha] at hw
      cases hw
      exact .inr (mem_cons.mpr (.inl (Prod.ext rfl hpa)))
    · exact (h.survivor_or p hp).imp ((mem_erase_of_ne hpa).mpr) (mem_cons_of_mem _)
  · have hperm : (b.ctrs ++ b.survivor_ctrs).Perm (a :: b.ctrs ++ b.survivor_ctrs.erase a) :=
      ((perm_cons_erase hmem).append_left b.ctrs).trans perm_middle
    exact hperm.nodup h.nodup
  · have hpos := length_pos_of_mem hmem
    rw [length_cons, length_erase_of_mem hmem, h.count]
    omega

end Cases

lemma exists_addNewCtr (h : Valid maxCardinality b) (hlookup : b.table.lookup metric = none)
    (hlt : b.metricCount < maxCardinality) :
    ∃ b', addNewCtr maxCardinality b metric true = some (.ok, b') ∧ Valid maxCardinality b' ∧
      Others metric b b' ∧ Counts metric b b' := by
  unfold addNewCtr
  rw [if_neg (Nat.not_le.mpr hlt)]
  simp only [hlookup, if_true]
  cases hsurvivor : b.survivor_table.lookup metric with
  | none =>
    have hnew : (b.heap.alloc ⟨metric, 0⟩).1.read (b.heap.alloc ⟨metric, 0⟩).2 =
        some ⟨metric, 0⟩ := by rw [Heap.read_alloc, if_pos rfl]
    obtain ⟨heap, hinc, hread⟩ := exists_statsCounterInc hnew
    refine ⟨_, by rw [hinc]; rfl, count_new h hlt hlookup hsurvivor (Heap.read_fresh _ _) ?_⟩
    intro c
    rw [hread, Heap.read_alloc]
    split_ifs <;> rfl
  | some a =>
    obtain ⟨v, hv⟩ := h.alive _ (.inr (mem_of_lookup hsurvivor))
    obtain ⟨heap₁, heap, hinc, hfree, hread⟩ := exists_inc_alloc_free hv ⟨metric, 0⟩
    refine ⟨_, ?_, count_survivor h hlookup hsurvivor hv hread⟩
    simp [hinc, hfree]

/-- **An increment.** It is ignored if nothing is gathered, if the metric has no name, or if its
counter is not active and there are as many counters as there may be. -/
def Ignored (GatherStats : Bool) (maxCardinality : ℕ) (b : Bucket) (metric : Metric) : Prop :=
  ¬GatherStats ∨ metric = [] ∨ (¬Active b metric ∧ maxCardinality ≤ b.metricCount)

lemma step_inc_of_ignored (h : Ignored GatherStats maxCardinality b metric) :
    step GatherStats maxCardinality b (.inc metric) = some b := by
  rcases h with hnot | rfl | ⟨hactive, hfull⟩
  · rw [step, inc, if_pos hnot, map_some]
  · rw [step, inc, if_pos (length_nil), ite_self, map_some]
  · have hlookup : b.table.lookup metric = none := Option.not_isSome_iff_eq_none.mp hactive
    rw [step, inc, hlookup]
    split_ifs
    · rfl
    · simp [addNewCtr, if_pos hfull]
    · rfl

lemma exists_step_inc (h : Valid maxCardinality b)
    (hcounts : ¬Ignored GatherStats maxCardinality b metric) :
    ∃ b', step GatherStats maxCardinality b (.inc metric) = some b' ∧ Valid maxCardinality b' ∧
      Others metric b b' ∧ Counts metric b b' := by
  obtain ⟨hgather, hempty, hroom⟩ : ¬_ ∧ ¬_ ∧ ¬_ := by simpa only [Ignored, not_or] using hcounts
  rw [step, inc, if_neg hgather, if_neg (by simpa using hempty)]
  cases hlookup : b.table.lookup metric with
  | none =>
    have hlt : b.metricCount < maxCardinality := by
      by_contra hle
      exact hroom ⟨by simp [Active, hlookup], Nat.not_lt.mp hle⟩
    obtain ⟨b', hadd, hspec⟩ := exists_addNewCtr h hlookup hlt
    exact ⟨b', by simp [hadd], hspec⟩
  | some a =>
    obtain ⟨v, hv⟩ := h.alive _ (.inl (mem_of_lookup hlookup))
    obtain ⟨heap, hinc, hread⟩ := exists_statsCounterInc hv
    exact ⟨_, by simp [hinc], count_active h hlookup hv hread⟩

/-- **A reset.** The active counters are the survivors, and no counter is active. -/
theorem exists_step_reset (h : Valid maxCardinality b) :
    ∃ b', step GatherStats maxCardinality b .reset = some b' ∧ Valid maxCardinality b' ∧
      ∀ x c v, Active b x → HasCounter b x c v → HasCounter b' x c v := by
  obtain ⟨hnodup, hnodup', hdisjoint⟩ := nodup_append.mp h.nodup
  have halive : ∀ a ∈ b.survivor_ctrs, ∃ c, b.heap.read a = some c := by
    intro a ha
    obtain ⟨m, hm⟩ := h.of_survivor a ha
    obtain ⟨v, hv⟩ := h.alive _ (.inr hm)
    exact ⟨_, hv⟩
  obtain ⟨heap, hfree, hread⟩ := Heap.exists_freeAll halive hnodup'
  have hkept : ∀ p ∈ b.table, heap.read p.2 = b.heap.read p.2 := by
    intro p hp
    have hctr : p.2 ∈ b.ctrs := by
      rw [h.ctrs_eq]
      exact mem_map_of_mem hp
    rw [hread, if_neg fun hmem => hdisjoint _ hctr _ hmem rfl]
  refine ⟨⟨heap, [], [], b.table, b.ctrs, b.metricCount - b.survivor_ctrs.length⟩, ?_,
    ⟨?_, rfl, ?_, ?_, hnodup, ?_, ?_⟩, ?_⟩
  · simp [step, rebuildSurvivorTable, destroyCountersIn, hfree]
  · intro p hp
    have hp : p ∈ b.table := hp.resolve_left not_mem_nil
    rw [hkept p hp]
    exact h.alive p (.inl hp)
  · intro a ha
    rw [h.ctrs_eq] at ha
    obtain ⟨p, hp, rfl⟩ := mem_map.mp ha
    exact ⟨p.1, hp⟩
  · intro p hp
    rw [h.ctrs_eq]
    exact .inl (mem_map_of_mem hp)
  · rw [h.count, Nat.add_sub_cancel, length_nil, Nat.zero_add]
  · exact Nat.le_trans (Nat.sub_le _ _) h.le_max
  · intro x c v hactive hc
    obtain ⟨a, ha⟩ := Option.isSome_iff_exists.mp hactive
    cases hc.1.symm.trans (counterOf_of_active ha)
    exact ⟨ha, (hkept _ (mem_of_lookup ha)).trans hc.2⟩

lemma exists_step_others (h : Valid maxCardinality b) (metric : Metric) :
    ∃ b', step GatherStats maxCardinality b (.inc metric) = some b' ∧ Valid maxCardinality b' ∧
      Others metric b b' := by
  by_cases hignored : Ignored GatherStats maxCardinality b metric
  · exact ⟨b, step_inc_of_ignored hignored, h, .refl metric b⟩
  · obtain ⟨b', hstep, hvalid, hothers, -⟩ := exists_step_inc h hignored
    exact ⟨b', hstep, hvalid, hothers⟩

lemma exists_step (h : Valid maxCardinality b) (op : Op) :
    ∃ b', step GatherStats maxCardinality b op = some b' ∧ Valid maxCardinality b' := by
  cases op with
  | inc metric =>
    obtain ⟨b', hstep, hvalid, -⟩ := exists_step_others h metric
    exact ⟨b', hstep, hvalid⟩
  | reset =>
    obtain ⟨b', hstep, hvalid, -⟩ := exists_step_reset h
    exact ⟨b', hstep, hvalid⟩

end Step

/-- No history uses a counter that was destroyed, and what `metricCount` counts is never more than
`maxCardinality`. -/
lemma exists_run (ops : List Op) :
    ∃ b, run (step GatherStats maxCardinality) newBucket ops = some b ∧ Valid maxCardinality b :=
  run_defined (fun _ op h => exists_step h op) ops (valid_newBucket maxCardinality)

/-! ## Counters that are used -/

/-- The metric is incremented between any two resets that follow each other; `touched` says whether
it has been since the last one. -/
def UsedFrom (x : Metric) : Bool → List Op → Prop
  | _, [] => True
  | touched, .inc metric :: ops => UsedFrom x (touched || metric == x) ops
  | touched, .reset :: ops => touched ∧ UsedFrom x false ops

instance decidableUsedFrom (x : Metric) : ∀ touched ops, Decidable (UsedFrom x touched ops)
  | _, [] => .isTrue trivial
  | touched, .inc metric :: ops => decidableUsedFrom x (touched || metric == x) ops
  | _, .reset :: ops => @instDecidableAnd _ _ _ (decidableUsedFrom x false ops)

/-- A call for the metric finds its counter active, or fewer counters than there may be. -/
def HasRoom (x : Metric) (b : Bucket) (op : Op) : Prop :=
  op = .inc x → Active b x ∨ b.metricCount < maxCardinality
deriving Decidable

section Used

variable {GatherStats : Bool} {maxCardinality : ℕ} {x : Metric} {c : ℕ}

/-- At every point of the history the metric has this counter, and the counter has counted every
call from the value `v` on. -/
def KeptFrom (GatherStats : Bool) (maxCardinality : ℕ) (x : Metric) (c : ℕ) (b : Bucket)
    (v : UInt64) (ops : List Op) : Prop :=
  ∀ past, past <+: ops → ∃ b', run (step GatherStats maxCardinality) b past = some b' ∧
    HasCounter b' x c (v + UInt64.ofNat (past.count (.inc x)))

variable {b : Bucket}

lemma KeptFrom.nil (h : HasCounter b x c v) : KeptFrom GatherStats maxCardinality x c b v [] := by
  intro past hpast
  rw [prefix_nil.mp hpast]
  exact ⟨b, rfl, by simpa using h⟩

lemma keptFrom_cons {b' : Bucket} {w : UInt64} {op : Op} {ops : List Op} (h : HasCounter b x c v)
    (hstep : step GatherStats maxCardinality b op = some b')
    (hw : v + ofNat ([op].count (.inc x)) = w) :
    KeptFrom GatherStats maxCardinality x c b v (op :: ops) ↔
      KeptFrom GatherStats maxCardinality x c b' w ops := by
  have hcount : ∀ past : List Op, v + ofNat ((op :: past).count (.inc x)) =
      w + ofNat (past.count (.inc x)) := by
    intro past
    rw [← singleton_append, count_append, UInt64.ofNat_add, ← hw, UInt64.add_assoc]
  constructor
  · intro hkept past hpast
    obtain ⟨b₁, hrun, hcounter⟩ := hkept (op :: past) ((prefix_cons_inj op).mpr hpast)
    rw [run_cons, hstep] at hrun
    exact ⟨b₁, hrun, hcount past ▸ hcounter⟩
  · intro hkept past hpast
    rcases prefix_cons_iff.mp hpast with rfl | ⟨rest, rfl, hrest⟩
    · exact ⟨b, rfl, by simpa using h⟩
    · obtain ⟨b₁, hrun, hcounter⟩ := hkept rest hrest
      exact ⟨b₁, by rw [run_cons, hstep]; exact hrun, (hcount rest).symm ▸ hcounter⟩

lemma ofNat_count_self : ofNat ([Op.inc x].count (.inc x)) = 1 := by
  rw [count_singleton_self]
  rfl

lemma ofNat_count_of_ne {op : Op} (h : op ≠ .inc x) (v : UInt64) :
    v + ofNat ([op].count (.inc x)) = v := by
  rw [count_eq_zero_of_not_mem fun hmem => h (mem_singleton.mp hmem).symm]
  exact UInt64.add_zero v

lemma not_keptFrom_of_ignored {ops : List Op} (hcounter : HasCounter b x c v)
    (hignored : Ignored GatherStats maxCardinality b x) :
    ¬KeptFrom GatherStats maxCardinality x c b v (.inc x :: ops) := by
  intro hkept
  obtain ⟨b', hrun, hcounter'⟩ := hkept [.inc x] ⟨ops, rfl⟩
  rw [run_cons, step_inc_of_ignored hignored] at hrun
  cases hrun
  have hvalue := hcounter.2.symm.trans hcounter'.2
  simp at hvalue

lemma not_ignored (hgather : GatherStats = true) (hx : x ≠ [])
    (hroom : Active b x ∨ b.metricCount < maxCardinality) :
    ¬Ignored GatherStats maxCardinality b x := by
  rintro (hoff | hempty | ⟨hactive, hfull⟩)
  · exact hoff hgather
  · exact hx hempty
  · exact hroom.elim hactive (Nat.not_lt.mpr hfull)

lemma keptFrom_iff_along {touched : Bool} {ops : List Op} (hgather : GatherStats = true)
    (hx : x ≠ []) (hvalid : Valid maxCardinality b) (hcounter : HasCounter b x c v)
    (htouched : touched → Active b x) (hused : UsedFrom x touched ops) :
    KeptFrom GatherStats maxCardinality x c b v ops ↔
      Along (step GatherStats maxCardinality) (HasRoom maxCardinality x) b ops := by
  induction ops generalizing b v touched with
  | nil => exact iff_of_true (KeptFrom.nil hcounter) trivial
  | cons op ops ih =>
    cases op with
    | reset =>
      obtain ⟨b', hstep, hvalid', hkeeps⟩ :
          ∃ b', step GatherStats maxCardinality b .reset = some b' ∧ _ := exists_step_reset hvalid
      have hcounter' := hkeeps x c v (htouched hused.1) hcounter
      have hroom : HasRoom maxCardinality x b .reset := fun h => by cases h
      rw [keptFrom_cons hcounter hstep (ofNat_count_of_ne (by simp) v), along_cons hstep,
        ih hvalid' hcounter' (by simp) hused.2, and_iff_right hroom]
    | inc metric =>
      by_cases hmetric : metric = x
      · subst hmetric
        by_cases hroom : Active b metric ∨ b.metricCount < maxCardinality
        · obtain ⟨b', hstep, hvalid', -, hcounts⟩ :=
            exists_step_inc hvalid (not_ignored hgather hx hroom)
          have hroom' : HasRoom maxCardinality metric b (.inc metric) := fun _ => hroom
          rw [keptFrom_cons hcounter hstep (congrArg (v + ·) ofNat_count_self), along_cons hstep,
            ih hvalid' (hcounts.counter c v hcounter) (fun _ => hcounts.active) hused,
            and_iff_right hroom']
        · obtain ⟨hactive, hfull⟩ := not_or.mp hroom
          exact iff_of_false
            (not_keptFrom_of_ignored hcounter (.inr (.inr ⟨hactive, Nat.not_lt.mp hfull⟩)))
            fun halong => hroom (halong.1 rfl)
      · have hne : x ≠ metric := Ne.symm hmetric
        have hroom : HasRoom maxCardinality x b (.inc metric) := fun h =>
          absurd (Op.inc.inj h) hmetric
        have hused' : UsedFrom x touched ops := by
          rwa [UsedFrom, beq_eq_false_iff_ne.mpr hmetric, Bool.or_false] at hused
        obtain ⟨b', hstep, hvalid', hothers⟩ :
            ∃ b', step GatherStats maxCardinality b (.inc metric) = some b' ∧ _ :=
          exists_step_others hvalid metric
        rw [keptFrom_cons hcounter hstep (ofNat_count_of_ne (by simpa using hmetric) v),
          along_cons hstep, ih hvalid' (hothers.hasCounter hne hcounter)
            (fun ht => hothers.active hne (htouched ht)) hused', and_iff_right hroom]

end Used

/-- **The counter of a metric that is used.** A metric that has a counter and is incremented between
any two resets keeps it, with the number of calls since its creation as the value, exactly when
every call for it finds its counter active or fewer counters than `maxCardinality`, those of the
survivors included. -/
theorem counter_kept_iff (history ops : List Op) (x : Metric) (b b₁ : Bucket) (c : ℕ)
    (hrun : run (step GatherStats maxCardinality) newBucket history = some b)
    (hnone : counterOf b x = none) (hcreated : step GatherStats maxCardinality b (.inc x) = some b₁)
    (hcounter : counterOf b₁ x = some c) (hused : UsedFrom x true ops) :
    (∀ past, past <+: ops → ∃ b', run (step GatherStats maxCardinality) b₁ past = some b' ∧
        HasCounter b' x c (1 + ofNat (past.count (.inc x)))) ↔
      Along (step GatherStats maxCardinality) (HasRoom maxCardinality x) b₁ ops := by
  obtain ⟨b₀, hrun₀, hvalid⟩ := exists_run GatherStats maxCardinality history
  cases hrun.symm.trans hrun₀
  have hnot : ¬Ignored GatherStats maxCardinality b x := by
    intro hignored
    cases hcreated.symm.trans (step_inc_of_ignored hignored)
    cases hnone.symm.trans hcounter
  obtain ⟨b₂, hstep, hvalid₂, -, hcounts⟩ := exists_step_inc hvalid hnot
  cases hcreated.symm.trans hstep
  obtain ⟨c', hc'⟩ := hcounts.new hnone
  cases hcounter.symm.trans hc'.1
  obtain ⟨hgather, hx, -⟩ : ¬_ ∧ ¬_ ∧ ¬_ := by simpa only [Ignored, not_or] using hnot
  exact keptFrom_iff_along (not_not.mp hgather) hx hvalid₂ hc' (fun _ => hcounts.active) hused

/-- Two metrics may have counters, and only one gets one: its counter is taken up after a reset. -/
theorem counter_kept_iff_oneMetric :
    (∀ past, past <+: [Op.reset, .inc [97], .reset] →
      ∃ b', run (step true 2) ⟨[some ⟨[97], 1⟩], [([97], 0)], [0], [], [], 1⟩ past = some b' ∧
        HasCounter b' [97] 0 (1 + ofNat (past.count (.inc [97])))) ↔
      Along (step true 2) (HasRoom 2 [97]) ⟨[some ⟨[97], 1⟩], [([97], 0)], [0], [], [], 1⟩
        [.reset, .inc [97], .reset] :=
  counter_kept_iff true 2 [] _ [97] newBucket _ 0 rfl (by decide +kernel) (by decide +kernel)
    (by decide +kernel) (by decide +kernel)

/-- With one counter at most, the one that there is cannot be taken up again: after `inc`, `reset`
and `inc` its value is 1, and after the next reset it is gone. -/
theorem survivor_not_revived :
    UsedFrom [97] false [.inc [97], .reset, .inc [97], .reset] ∧
    (run (step true 1) newBucket [.inc [97], .reset, .inc [97]]).any
        (fun b => decide (HasCounter b [97] 0 1)) ∧
      (run (step true 1) newBucket [.inc [97], .reset, .inc [97], .reset]).any
        (fun b => decide (counterOf b [97] = none)) := by
  decide +kernel

end Rsyslog.Dynstats
