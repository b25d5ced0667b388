import Mathlib.Algebra.Group.Nat.Defs
import Mathlib.Data.List.Sort
import Rsyslog.Lib.BinarySearch
import Rsyslog.Lib.Decimal

/-!
# Sparse array lookup tables

`build_SparseArrayTable` and `lookupKey_sprsArr` of `lookup.c`. The rows are sorted by `qsort`, and
a key is looked up by a binary search for the last row whose index is not larger.

Both comparison functions return the difference of two unsigned numbers as an `int`. Where it does
not fit, the rows have no order, so that nothing is known of what `qsort` makes of them, and the
search takes a row that far below the key for one above it.
-/

namespace Rsyslog.Lookup

open Lib List

/-- A row of the table: what `json_object_get_int` says about its index, if it has one, and its
value. -/
structure Row where
  index : Option Int32
  value : Bytes
  deriving DecidableEq

/-- `lookup_sparseArray_tab_entry_t`, with the text that `interned_val_ref` points to. -/
structure Entry where
  key : UInt32
  interned_val_ref : Bytes
  deriving DecidableEq

def qs_arrcmp_sprsArrtab (s1 s2 : Entry) : Int32 :=
  if s1.key < s2.key then -1 else (s1.key - s2.key).toInt32

def bs_arrcmp_sprsArrtab (key : UInt32) (s2 : Entry) : Int32 :=
  if key < s2.key then -1 else (key - s2.key).toInt32

variable {α : Type}

structure TotalOn (cmp : α → α → Int32) (l : List α) : Prop where
  neg_iff : ∀ a ∈ l, ∀ b ∈ l, cmp a b < 0 ↔ 0 < cmp b a
  trans : ∀ a ∈ l, ∀ b ∈ l, ∀ c ∈ l, cmp a b ≤ 0 → cmp b c ≤ 0 → cmp a c ≤ 0

lemma TotalOn.total {cmp : α → α → Int32} {l : List α} (h : TotalOn cmp l) (a b : {x // x ∈ l}) :
    cmp a b ≤ 0 ∨ cmp b a ≤ 0 := by
  by_contra hnot
  rw [not_or, Int32.not_le, Int32.not_le] at hnot
  exact absurd ((h.neg_iff b b.2 a a.2).mpr hnot.1) (Int32.not_lt.mpr (Int32.le_of_lt hnot.2))

/-- What is known about `qsort`: it sorts if the comparison function is a total order. -/
structure Qsort (α : Type) where
  sort : (α → α → Int32) → List α → List α
  length_sort : ∀ cmp l, (sort cmp l).length = l.length
  sort_perm : ∀ cmp l, TotalOn cmp l → (sort cmp l).Perm l
  sort_pairwise : ∀ cmp l, TotalOn cmp l → (sort cmp l).Pairwise fun a b => cmp a b ≤ 0

def Row.entry (r : Row) : Option Entry := r.index.map fun i => ⟨i.toUInt32, r.value⟩

def build_SparseArrayTable (qsort : Qsort Entry) (rows : List Row) : Option (List Entry) := do
  let entries ← rows.mapM Row.entry
  pure (if 0 < entries.length then qsort.sort qs_arrcmp_sprsArrtab entries else entries)

def bsearch_lte (comp_fn : α → Int32) (base : List α) : Option α :=
  if base.length = 0 then none
  else
    let last := bisect (fun idx => (base[idx]?.map comp_fn).elim 0 Int32.toInt) base.length 0
      base.length ⟨0, 0⟩
    last.floor.bind (base[·]?)

def defaultVal (noMatch : Option Bytes) : Bytes := noMatch.getD []

def lookupKey_sprsArr (entries : List Entry) (noMatch : Option Bytes) (key : UInt32) : Bytes :=
  let entry := if entries.length = 0 then none
    else bsearch_lte (bs_arrcmp_sprsArrtab key) entries
  match entry with
  | none => defaultVal noMatch
  | some entry => entry.interned_val_ref

/-! ## What a lookup is for -/

/-- The value of the row with the greatest index that is not larger than the key, or the value for
no match if there is none. -/
def IsAnswer (entries : List Entry) (noMatch : Option Bytes) (key : UInt32)
    (value : Bytes) : Prop :=
  (∃ e ∈ entries, e.key ≤ key ∧ (∀ e' ∈ entries, e'.key ≤ key → e'.key ≤ e.key) ∧
    value = e.interned_val_ref) ∨
  (∀ e ∈ entries, key < e.key) ∧ value = defaultVal noMatch

/-- The table is built from the rows and answers the lookup, whatever `qsort` does where nothing is
known of it. `read` are the rows as they are read. -/
def Answers (rows : List Row) (read : List Entry) (noMatch : Option Bytes) (key : UInt32) : Prop :=
  ∀ qsort : Qsort Entry, ∃ entries, build_SparseArrayTable qsort rows = some entries ∧
    IsAnswer read noMatch key (lookupKey_sprsArr entries noMatch key)

def inOrder (entries : List Entry) : List Entry := entries.mergeSort fun a b => a.key ≤ b.key

def side (key : UInt32) (e : Entry) : ℤ := if key < e.key then -1 else key.toNat - e.key.toNat

def compared (entries : List Entry) (key : UInt32) : List Entry :=
  (probes (fun idx => (inOrder entries)[idx]?.elim 0 (side key)) (inOrder entries).length 0
    (inOrder entries).length).filterMap ((inOrder entries)[·]?)

/-! ## Comparisons -/

variable {key : UInt32}

variable {e : Entry}

lemma toInt_bs_arrcmp_of_near (h : key.toNat < e.key.toNat + 2 ^ 31) :
    (bs_arrcmp_sprsArrtab key e).toInt = side key e := by
  rw [bs_arrcmp_sprsArrtab, side]
  by_cases hlt : key < e.key
  · rw [if_pos hlt, if_pos hlt]
    rfl
  · have hle : e.key ≤ key := UInt32.not_lt.mp hlt
    have hsub := UInt32.toNat_sub_of_le key e.key hle
    have hle' := UInt32.le_iff_toNat_le.mp hle
    rw [if_neg hlt, if_neg hlt]
    show (key - e.key).toBitVec.toInt = _
    rw [BitVec.toInt_eq_toNat_of_lt, UInt32.toNat_toBitVec, hsub, Int.ofNat_sub hle']
    rw [UInt32.toNat_toBitVec]
    omega

lemma bs_arrcmp_neg_of_far (h : e.key.toNat + 2 ^ 31 ≤ key.toNat) :
    (bs_arrcmp_sprsArrtab key e).toInt < 0 := by
  have hle : e.key ≤ key := UInt32.le_iff_toNat_le.mpr (by omega)
  have hsub := UInt32.toNat_sub_of_le key e.key hle
  rw [bs_arrcmp_sprsArrtab, if_neg (UInt32.not_lt.mpr hle)]
  show (key - e.key).toBitVec.toInt < 0
  rw [BitVec.toInt_neg_iff, UInt32.toNat_toBitVec]
  omega

lemma side_nonneg_iff : 0 ≤ side key e ↔ e.key ≤ key := by
  rw [side]
  by_cases hlt : key < e.key
  · rw [if_pos hlt]
    exact ⟨fun h => absurd h (by decide), fun h => absurd hlt (UInt32.not_lt.mpr h)⟩
  · have hle := UInt32.not_lt.mp hlt
    have hle' := UInt32.le_iff_toNat_le.mp hle
    rw [if_neg hlt]
    exact ⟨fun _ => hle, fun _ => by omega⟩

lemma key_eq_of_side_eq_zero (h : side key e = 0) : e.key = key := by
  rw [side] at h
  split at h
  · exact absurd h (by decide)
  · exact UInt32.toNat_inj.mp (by omega)

def Close (entries : List Entry) : Prop :=
  ∀ a ∈ entries, ∀ b ∈ entries, a.key.toNat < b.key.toNat + 2 ^ 31

variable {a b : Entry}

lemma qs_arrcmp_le_iff (h : a.key.toNat < b.key.toNat + 2 ^ 31) :
    qs_arrcmp_sprsArrtab a b ≤ 0 ↔ a.key ≤ b.key := by
  have hint : (qs_arrcmp_sprsArrtab a b).toInt = side a.key b := toInt_bs_arrcmp_of_near h
  rw [Int32.le_iff_toInt_le, hint, Int32.toInt_zero, side]
  by_cases hlt : a.key < b.key
  · rw [if_pos hlt]
    exact ⟨fun _ => UInt32.le_of_lt hlt, fun _ => by decide⟩
  · rw [if_neg hlt, UInt32.le_iff_toNat_le]
    omega

lemma qs_arrcmp_neg_iff (h : a.key.toNat < b.key.toNat + 2 ^ 31) :
    qs_arrcmp_sprsArrtab a b < 0 ↔ a.key < b.key := by
  have hint : (qs_arrcmp_sprsArrtab a b).toInt = side a.key b := toInt_bs_arrcmp_of_near h
  rw [Int32.lt_iff_toInt_lt, hint, Int32.toInt_zero, ← not_le, side_nonneg_iff, UInt32.not_le]

lemma qs_arrcmp_pos_iff (h : a.key.toNat < b.key.toNat + 2 ^ 31) :
    0 < qs_arrcmp_sprsArrtab a b ↔ b.key < a.key := by
  rw [← Int32.not_le, qs_arrcmp_le_iff h, UInt32.not_le]

lemma totalOn_iff (entries : List Entry) :
    TotalOn qs_arrcmp_sprsArrtab entries ↔ Close entries := by
  constructor
  · intro h a ha b hb
    by_contra hfar
    have hneg : (qs_arrcmp_sprsArrtab a b).toInt < 0 := bs_arrcmp_neg_of_far (by omega)
    have hpos := (h.neg_iff a ha b hb).mp (Int32.lt_iff_toInt_lt.mpr hneg)
    have hlt : b.key < a.key := UInt32.lt_iff_toNat_lt.mpr (by omega)
    have hba : qs_arrcmp_sprsArrtab b a = -1 := if_pos hlt
    rw [hba] at hpos
    exact absurd hpos (by decide)
  · intro h
    constructor
    · intro a ha b hb
      rw [qs_arrcmp_neg_iff (h a ha b hb), qs_arrcmp_pos_iff (h b hb a ha)]
    · intro a ha b hb c hc
      rw [qs_arrcmp_le_iff (h a ha b hb), qs_arrcmp_le_iff (h b hb c hc),
        qs_arrcmp_le_iff (h a ha c hc)]
      exact UInt32.le_trans

/-! ## Order -/

section

variable {entries : List Entry}

lemma inOrder_perm (entries : List Entry) : (inOrder entries).Perm entries :=
  mergeSort_perm entries _

lemma inOrder_pairwise (entries : List Entry) :
    (inOrder entries).Pairwise fun a b => a.key ≤ b.key := by
  have htrans : IsTrans Entry fun a b => a.key ≤ b.key := ⟨fun _ _ _ => UInt32.le_trans⟩
  have htotal : Std.Total fun a b : Entry => a.key ≤ b.key :=
    ⟨fun a b => UInt32.le_total a.key b.key⟩
  exact pairwise_mergeSort' _ entries

lemma sort_eq_inOrder (qsort : Qsort Entry) (h : (entries.map Entry.key).Nodup)
    (hclose : Close entries) : qsort.sort qs_arrcmp_sprsArrtab entries = inOrder entries := by
  have htotal := (totalOn_iff entries).mpr hclose
  have hperm := qsort.sort_perm _ _ htotal
  refine List.Perm.eq_of_pairwise ?_ ?_ (inOrder_pairwise entries)
    (hperm.trans (inOrder_perm entries).symm)
  · intro a b ha hb hab hba
    exact inj_on_of_nodup_map h (hperm.mem_iff.mp ha) ((inOrder_perm entries).mem_iff.mp hb)
      (UInt32.le_antisymm hab hba)
  · refine (qsort.sort_pairwise _ _ htotal).imp_of_mem fun ha hb hab => ?_
    exact (qs_arrcmp_le_iff (hclose _ (hperm.mem_iff.mp ha) _ (hperm.mem_iff.mp hb))).mp hab

lemma exists_threshold {P : Entry → Prop} [DecidablePred P]
    (hP : ∀ a ∈ entries, ∀ b ∈ entries, a.key ≤ b.key → P b → P a) :
    ∃ t ≤ (inOrder entries).length,
      ∀ i (hi : i < (inOrder entries).length), P (inOrder entries)[i] ↔ i < t := by
  have hmem {i : ℕ} (hi : i < (inOrder entries).length) : (inOrder entries)[i] ∈ entries :=
    (inOrder_perm entries).mem_iff.mp (getElem_mem hi)
  refine ⟨(inOrder entries).findIdx fun e => ¬P e, findIdx_le_length, fun i hi => ?_⟩
  constructor
  · intro hi'
    by_contra hge
    have hk : (inOrder entries).findIdx (fun e => ¬P e) < (inOrder entries).length := by omega
    have hnot : ¬P ((inOrder entries).get ⟨_, hk⟩) :=
      of_decide_eq_true (findIdx_getElem (w := hk))
    rcases Nat.lt_or_eq_of_le (Nat.not_lt.mp hge) with hlt | heq
    · have hle := pairwise_iff_getElem.mp (inOrder_pairwise entries) _ i hk hi hlt
      exact hnot (hP _ (hmem hk) _ (hmem hi) hle hi')
    · subst heq
      exact hnot hi'
  · intro hlt
    have hnot := not_of_lt_findIdx hlt
    simpa using hnot

lemma exists_splits (h : (entries.map Entry.key).Nodup) (key : UInt32) :
    ∃ t, Splits (fun idx => (inOrder entries)[idx]?.elim 0 (side key)) (inOrder entries).length t ∧
      ∀ i (hi : i < (inOrder entries).length), (inOrder entries)[i].key ≤ key ↔ i < t := by
  obtain ⟨t, hle, ht⟩ := @exists_threshold entries (fun e => e.key ≤ key) _
    fun _ _ _ _ hab hb => UInt32.le_trans hab hb
  refine ⟨t, ⟨hle, fun i hi => ?_, fun i hi hzero => ?_⟩, ht⟩
  · rw [getElem?_eq_getElem hi, Option.elim_some, side_nonneg_iff, ht i hi]
  · rw [getElem?_eq_getElem hi] at hzero
    have hkey := key_eq_of_side_eq_zero hzero
    have hit : i < t := (ht i hi).mp (UInt32.le_of_eq hkey)
    by_contra hne
    -- the next row would have the same index
    have hi' : i + 1 < (inOrder entries).length := by omega
    have hle' := (ht (i + 1) hi').mpr (by omega)
    have hge := pairwise_iff_getElem.mp (inOrder_pairwise entries) i (i + 1) hi hi' (by omega)
    have hnodup : (inOrder entries).Pairwise fun a b => a.key ≠ b.key :=
      pairwise_map.mp (((inOrder_perm entries).map Entry.key).nodup_iff.mpr h)
    refine pairwise_iff_getElem.mp hnodup i (i + 1) hi hi' (by omega) ?_
    exact UInt32.le_antisymm hge (hkey ▸ hle')

end

/-! ## The search -/

section

variable {entries : List Entry} {noMatch : Option Bytes} {key : UInt32}

def valueOf (noMatch : Option Bytes) : Option Entry → Bytes
  | none => defaultVal noMatch
  | some entry => entry.interned_val_ref

lemma lookupKey_sprsArr_eq (hne : entries ≠ []) :
    lookupKey_sprsArr entries noMatch key =
      valueOf noMatch ((bisect (fun idx => (entries[idx]?.map (bs_arrcmp_sprsArrtab key)).elim 0
        Int32.toInt) entries.length 0 entries.length ⟨0, 0⟩).floor.bind (entries[·]?)) := by
  have hlen : entries.length ≠ 0 := fun h => hne (eq_nil_of_length_eq_zero h)
  rw [lookupKey_sprsArr, if_neg hlen, bsearch_lte, if_neg hlen]
  rfl

lemma isAnswer_bisect (h : (entries.map Entry.key).Nodup) (hne : entries ≠ []) :
    IsAnswer entries noMatch key (valueOf noMatch
      ((bisect (fun idx => (inOrder entries)[idx]?.elim 0 (side key)) (inOrder entries).length 0
        (inOrder entries).length ⟨0, 0⟩).floor.bind ((inOrder entries)[·]?))) := by
  have hlen : (inOrder entries).length = entries.length := (inOrder_perm entries).length_eq
  have hpos : 0 < entries.length := length_pos_iff.mpr hne
  obtain ⟨t, hsplits, ht⟩ := exists_splits h key
  rw [floor_bisect hsplits (Nat.zero_le t) hsplits.le (Nat.le_refl _) (Nat.sub_le _ _)
    fun heq => by omega]
  have hindex {e : Entry} (he : e ∈ entries) :
      ∃ i, ∃ hi : i < (inOrder entries).length, (inOrder entries)[i] = e :=
    getElem_of_mem ((inOrder_perm entries).mem_iff.mpr he)
  cases t with
  | zero =>
    refine .inr ⟨fun e he => ?_, rfl⟩
    obtain ⟨i, hi, rfl⟩ := hindex he
    exact UInt32.not_le.mp fun hle => absurd ((ht i hi).mp hle) (Nat.not_lt_zero i)
  | succ t =>
    have htn : t < (inOrder entries).length := hsplits.le
    have hvalue : (floorOf (t + 1)).bind ((inOrder entries)[·]?) = some (inOrder entries)[t] :=
      getElem?_eq_getElem htn
    rw [hvalue]
    refine .inl ⟨(inOrder entries)[t], (inOrder_perm entries).mem_iff.mp (getElem_mem htn),
      (ht t htn).mpr (Nat.lt_succ_self t), fun e he hle => ?_, rfl⟩
    obtain ⟨i, hi, rfl⟩ := hindex he
    rcases Nat.lt_or_eq_of_le (Nat.le_of_lt_succ ((ht i hi).mp hle)) with hlt | rfl
    · exact pairwise_iff_getElem.mp (inOrder_pairwise entries) i t hi htn hlt
    · exact UInt32.le_refl _

/-- **The lookup in a table in order.** The answer is found if no row far below the key is compared
with it. Otherwise there is no match. -/
theorem lookupKey_sprsArr_inOrder (h : (entries.map Entry.key).Nodup) (hne : entries ≠ []) :
    IsAnswer entries noMatch key (lookupKey_sprsArr (inOrder entries) noMatch key) ↔
      (∀ e ∈ compared entries key, key.toNat < e.key.toNat + 2 ^ 31) ∨
        IsAnswer entries noMatch key (defaultVal noMatch) := by
  have hne' : inOrder entries ≠ [] :=
    fun hnil => hne (nil_perm.mp (hnil ▸ inOrder_perm entries))
  rw [lookupKey_sprsArr_eq hne']
  by_cases hnear : ∀ e ∈ compared entries key, key.toNat < e.key.toNat + 2 ^ 31
  · rw [bisect_congr fun i hi => ?_]
    · exact ⟨fun _ => .inl hnear, fun _ => isAnswer_bisect h hne⟩
    · cases he : (inOrder entries)[i]? with
      | none => rfl
      | some e =>
        exact toInt_bs_arrcmp_of_near (hnear e (mem_filterMap.mpr ⟨i, hi, he⟩))
  · obtain ⟨e, he, hfar⟩ : ∃ e ∈ compared entries key, ¬key.toNat < e.key.toNat + 2 ^ 31 := by
      simpa only [not_forall, exists_prop] using hnear
    obtain ⟨j, hj, hje⟩ := mem_filterMap.mp he
    obtain ⟨hjn, hjget⟩ := List.getElem?_eq_some_iff.mp hje
    obtain ⟨f, hf, hfar_iff⟩ :=
      @exists_threshold entries (fun e => e.key.toNat + 2 ^ 31 ≤ key.toNat) _
      fun a _ b _ hab hb => by
        have hle := UInt32.le_iff_toNat_le.mp hab
        omega
    rw [floor_bisect_eq_none (f := f) ?_ ?_ (.inl rfl) (Nat.sub_le _ _) ⟨j, hj, ?_⟩]
    · exact ⟨.inr, fun h => h.resolve_left hnear⟩
    · intro i hi
      have hin : i < (inOrder entries).length := by omega
      rw [getElem?_eq_getElem hin]
      exact bs_arrcmp_neg_of_far ((hfar_iff i hin).mpr hi)
    · intro i hi
      by_cases hin : i < (inOrder entries).length
      · rw [getElem?_eq_getElem hin]
        refine toInt_bs_arrcmp_of_near ?_
        have hnot := (hfar_iff i hin).not.mpr (by omega)
        omega
      · rw [getElem?_eq_none (by omega)]
        rfl
    · refine (hfar_iff j hjn).mp ?_
      rw [hjget]
      omega

end

/-! ## What is not known of `qsort` -/

section

open Classical in
/-- A `qsort` that fills the array with one element where its comparison is no total order. -/
noncomputable def spoil (e : α) : Qsort α where
  sort cmp l := if TotalOn cmp l then (l.attach.mergeSort fun a b => cmp a b ≤ 0).map Subtype.val
    else l.map fun _ => e
  length_sort cmp l := by
    split
    · rw [length_map, length_mergeSort, length_attach]
    · rw [length_map]
  sort_perm cmp l h := by
    rw [if_pos h]
    have hperm := (mergeSort_perm l.attach fun a b => cmp a b ≤ 0).map Subtype.val
    rwa [attach_map_subtype_val] at hperm
  sort_pairwise cmp l h := by
    rw [if_pos h, pairwise_map]
    have htrans : IsTrans {x // x ∈ l} fun a b => cmp a b ≤ 0 :=
      ⟨fun a b c => h.trans a a.2 b b.2 c c.2⟩
    have htotal : Std.Total fun a b : {x // x ∈ l} => cmp a b ≤ 0 := ⟨h.total⟩
    exact pairwise_mergeSort' _ l.attach

lemma lookupKey_sprsArr_const {entries : List Entry} (hne : entries ≠ [])
    (noMatch : Option Bytes) (key : UInt32) (value : Bytes) :
    lookupKey_sprsArr (entries.map fun _ => ⟨key, value⟩) noMatch key = value := by
  obtain ⟨e, entries, rfl⟩ := exists_cons_of_ne_nil hne
  have hget {i : ℕ} (hi : i < entries.length + 1) :
      ((e :: entries).map fun _ => (⟨key, value⟩ : Entry))[i]? = some ⟨key, value⟩ := by
    rw [getElem?_map, getElem?_eq_getElem hi, Option.map_some]
  have hsame : (bs_arrcmp_sprsArrtab key ⟨key, value⟩).toInt = 0 := by
    rw [toInt_bs_arrcmp_of_near (by dsimp only; omega), side, if_neg (UInt32.lt_irrefl key)]
    exact Int.sub_self _
  rw [lookupKey_sprsArr_eq (by rw [map_cons]; exact cons_ne_nil _ _), length_map,
    length_cons, bisect, if_pos (Nat.succ_pos _), hget (by omega), Option.map_some,
    Option.elim_some, hsame, if_neg (Int.lt_irrefl 0), if_neg (Int.lt_irrefl 0), Probe.floor,
    if_neg (Int.lt_irrefl 0), Option.bind_some]
  dsimp only
  rw [hget (by omega)]
  rfl

lemma exists_not_mem (l : List Bytes) : ∃ text, text ∉ l := by
  refine ⟨0 :: l.flatten, fun h => ?_⟩
  have hlen := (sublist_flatten_of_mem h).length_le
  rw [length_cons] at hlen
  omega

end

/-- **Lookups in sparse arrays.** They are answered if the comparison is a total order on the rows
and the search compares the key with no row that is 2^31 or more below it; or if there is no match
where there should be one, but the value is the same. -/
theorem lookupKey_sprsArr_answers_iff {rows : List Row} {read : List Entry}
    {noMatch : Option Bytes} {key : UInt32} (hread : rows.mapM Row.entry = some read)
    (hdistinct : (read.map Entry.key).Nodup) :
    Answers rows read noMatch key ↔ Close read ∧
      ((∀ e ∈ compared read key, key.toNat < e.key.toNat + 2 ^ 31) ∨
        IsAnswer read noMatch key (defaultVal noMatch)) := by
  by_cases hne : read = []
  · subst hne
    have hbuild (qsort : Qsort Entry) : build_SparseArrayTable qsort rows = some [] := by
      rw [build_SparseArrayTable, hread]
      rfl
    have hnone : compared [] key = [] := by simp [compared, inOrder]
    constructor
    · refine fun _ => ⟨fun a ha => absurd ha not_mem_nil, .inl fun e he => ?_⟩
      rw [hnone] at he
      exact absurd he not_mem_nil
    · intro _ qsort
      exact ⟨[], hbuild qsort, .inr ⟨fun e he => absurd he not_mem_nil, rfl⟩⟩
  · have hbuild (qsort : Qsort Entry) : build_SparseArrayTable qsort rows =
        some (qsort.sort qs_arrcmp_sprsArrtab read) := by
      rw [build_SparseArrayTable, hread, Option.bind_eq_bind, Option.bind_some,
        if_pos (length_pos_iff.mpr hne)]
      rfl
    by_cases hclose : Close read
    · have hsort (qsort : Qsort Entry) := sort_eq_inOrder qsort hdistinct hclose
      have hlookup := @lookupKey_sprsArr_inOrder read noMatch key hdistinct hne
      constructor
      · intro hanswers
        obtain ⟨entries, hentries, hanswer⟩ := hanswers (spoil ⟨0, []⟩)
        rw [hbuild, hsort, Option.some.injEq] at hentries
        subst hentries
        exact ⟨hclose, hlookup.mp hanswer⟩
      · rintro ⟨-, hcond⟩ qsort
        exact ⟨inOrder read, by rw [hbuild, hsort], hlookup.mpr hcond⟩
    · refine ⟨fun hanswers => absurd hanswers ?_, fun h => absurd h.1 hclose⟩
      obtain ⟨value, hvalue⟩ := exists_not_mem
        (defaultVal noMatch :: read.map Entry.interned_val_ref)
      rw [mem_cons, not_or] at hvalue
      intro hanswers
      obtain ⟨entries, hentries, hanswer⟩ := hanswers (spoil ⟨key, value⟩)
      have hspoil : (spoil (⟨key, value⟩ : Entry)).sort qs_arrcmp_sprsArrtab read =
          read.map fun _ => ⟨key, value⟩ := if_neg ((totalOn_iff read).not.mpr hclose)
      rw [hbuild, hspoil, Option.some.injEq] at hentries
      subst hentries
      rw [lookupKey_sprsArr_const hne] at hanswer
      rcases hanswer with ⟨e, he, -, -, rfl⟩ | ⟨-, rfl⟩
      · exact hvalue.2 (mem_map_of_mem he)
      · exact hvalue.1 rfl

lemma mem_of_mem_compared {entries : List Entry} (h : e ∈ compared entries key) : e ∈ entries := by
  obtain ⟨i, -, hi⟩ := mem_filterMap.mp h
  exact (inOrder_perm entries).mem_iff.mp (mem_of_getElem? hi)

theorem lookupKey_sprsArr_answers_between :
    Answers [⟨some 20, [98]⟩, ⟨some 10, [97]⟩] [⟨20, [98]⟩, ⟨10, [97]⟩] none 15 := by
  refine (lookupKey_sprsArr_answers_iff rfl (by decide)).mpr ⟨?_, .inl fun e he => ?_⟩
  · show ∀ a ∈ [(⟨20, [98]⟩ : Entry), ⟨10, [97]⟩], ∀ b ∈ [(⟨20, [98]⟩ : Entry), ⟨10, [97]⟩],
      a.key.toNat < b.key.toNat + 2 ^ 31
    simp
  · have hmem := mem_of_mem_compared he
    simp only [mem_cons, not_mem_nil, or_false] at hmem
    rcases hmem with rfl | rfl <;> decide

/-- A single row for everything from zero on, and a key of 2^31. -/
theorem lookupKey_sprsArr_far : ¬Answers [⟨some 0, [97]⟩] [⟨0, [97]⟩] none 2147483648 := by
  intro hanswers
  obtain ⟨entries, hbuild, hanswer⟩ := hanswers (spoil ⟨0, []⟩)
  have hclose : Close [⟨0, [97]⟩] := by
    intro a ha b hb
    rw [mem_singleton.mp ha, mem_singleton.mp hb]
    decide
  have hsort := (spoil (⟨0, []⟩ : Entry)).sort_perm _ _ ((totalOn_iff [⟨0, [97]⟩]).mpr hclose)
  have hentries : some ((spoil (⟨0, []⟩ : Entry)).sort qs_arrcmp_sprsArrtab [⟨0, [97]⟩]) =
      some entries := hbuild
  rw [perm_singleton.mp hsort, Option.some.injEq] at hentries
  subst hentries
  have hlookup : lookupKey_sprsArr [⟨0, [97]⟩] none 2147483648 = [] := by decide +kernel
  rcases hanswer with ⟨e, he, -, -, hvalue⟩ | ⟨hall, -⟩
  · rw [mem_singleton.mp he] at hvalue
    exact absurd hvalue (by decide)
  · exact absurd (hall _ mem_cons_self) (by decide)

end Rsyslog.Lookup
