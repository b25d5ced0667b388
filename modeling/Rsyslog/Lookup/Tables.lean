import Mathlib.Data.List.Lex
import Mathlib.Data.List.Perm.Basic
import Rsyslog.Lib.Decimal
import Rsyslog.Lookup.SparseArray

/-!
# String and array lookup tables

`lookupBuildTable_v1`, `build_StringTable` and `build_ArrayTable` of `lookup.c` with the functions
that look up a key. The values are interned before: they are sorted, each is kept once, and the
table refers to what a binary search finds for the value of a row.

A string table is sorted by `strcmp`, which is a total order. An array table is sorted by the same
difference of unsigned numbers as a sparse one, which is none on indexes that are 2^31 or more
apart. The indexes of an array are checked for gaps by counting up from the first one, and the count
goes from 2^32 - 1 on to 0.
-/

namespace Rsyslog.Lookup

open Lib List Entry
open Option (bind_eq_bind bind_some map_eq_some_iff getD_some isSome_iff_exists)

/-! ## Library functions -/

/-- `Qsort` with the one thing more that array tables need: the array is rearranged, whatever the
comparison function. -/
structure Sorter (α : Type) extends Qsort α where
  perm : ∀ cmp l, (sort cmp l).Perm l

lemma Sorter.ite_sort {α : Type} (qsort : Sorter α) (cmp : α → α → Int32) (l : List α) :
    (if 0 < l.length then qsort.sort cmp l else l) = qsort.sort cmp l := by
  split
  next => rfl
  next hempty =>
    obtain rfl := eq_nil_of_length_eq_zero (Nat.eq_zero_of_not_pos hempty)
    exact (perm_nil.mp (qsort.perm cmp [])).symm

/-- The elements the key is behind of come first, those it is before of come last. -/
def InOrderOf {α : Type} (cmp : α → Int32) (l : List α) : Prop :=
  l.Pairwise fun a b => (cmp a < 0 → cmp b < 0) ∧ (0 < cmp b → 0 < cmp a)

/-- What is known about `bsearch`: it finds an element in an array that is in order. -/
structure Bsearch (α : Type) where
  search : (α → Int32) → List α → Option α
  search_some : ∀ cmp l e, InOrderOf cmp l → search cmp l = some e → e ∈ l ∧ cmp e = 0
  search_none : ∀ cmp l, InOrderOf cmp l → search cmp l = none → ∀ e ∈ l, cmp e ≠ 0

def ustrcmp : Bytes → Bytes → Int32
  | [], [] => 0
  | [], _ :: _ => -1
  | _ :: _, [] => 1
  | a :: s, b :: t => if a < b then -1 else if b < a then 1 else ustrcmp s t

/-! ## Tables -/

/-- A row of the table: its index, as `json_object_get_string` and as `json_object_get_int` give it,
and its value. Both may be missing. -/
structure JRow where
  index : Option (Bytes × Int32)
  value : Option Bytes
  deriving DecidableEq

structure JRoot where
  noMatch : Option Bytes
  type : Option Bytes
  table : Option (List JRow)

structure StrEntry where
  key : Bytes
  interned_val_ref : Bytes
  deriving DecidableEq

inductive Table
  | str (entries : List StrEntry)
  | arr (first_key : UInt32) (interned_val_refs : List Bytes)
  | sprsArr (entries : List Entry)
  deriving DecidableEq

structure LookupTable where
  table : Table
  noMatch : Option Bytes
  deriving DecidableEq

structure Libc where
  qsortVals : Sorter Bytes
  qsortStr : Sorter StrEntry
  qsortArr : Sorter Entry
  qsortSprs : Sorter Entry
  bsearchVals : Bsearch Bytes
  bsearchStr : Bsearch StrEntry

def qs_arrcmp_strtab (s1 s2 : StrEntry) : Int32 := ustrcmp s1.key s2.key

def bs_arrcmp_strtab (key : Bytes) (s2 : StrEntry) : Int32 := ustrcmp key s2.key

/-- `uint32_index_val_t` has the fields of an entry of a sparse array, and the comparison is the
same. -/
def qs_arrcmp_uint32_index_val : Entry → Entry → Int32 := qs_arrcmp_sprsArrtab

def uniqFrom : Bytes → List Bytes → List Bytes
  | _, [] => []
  | prev, curr :: rest =>
    if ustrcmp prev curr ≠ 0 then curr :: uniqFrom curr rest else uniqFrom curr rest

def uniq : List Bytes → List Bytes
  | [] => []
  | v :: vs => v :: uniqFrom v vs

def internedVals (libc : Libc) (all_values : List Bytes) : List Bytes :=
  uniq (libc.qsortVals.sort ustrcmp all_values)

def canonicalValueRef (libc : Libc) (interned_vals : List Bytes) (value : Bytes) :
    Option Bytes := libc.bsearchVals.search (ustrcmp value) interned_vals

def build_StringTable (libc : Libc) (interned_vals : List Bytes) (jtab : List JRow) :
    Option Table := do
  let entries ← jtab.mapM fun jrow => do
    let index ← jrow.index
    let value ← jrow.value
    let ref ← canonicalValueRef libc interned_vals value
    pure (StrEntry.mk index.1 ref)
  pure (.str (if 0 < entries.length then libc.qsortStr.sort qs_arrcmp_strtab entries else entries))

/-- The second loop of `build_ArrayTable`, behind the index `prev_index`. -/
def arrRefs (libc : Libc) (interned_vals : List Bytes) :
    Option UInt32 → List Entry → Option (List Bytes)
  | _, [] => some []
  | prev_index, e :: rest =>
    if prev_index.all fun prev => e.key == prev + 1 then
      (canonicalValueRef libc interned_vals e.interned_val_ref).bind fun ref =>
        (arrRefs libc interned_vals (some e.key) rest).map (ref :: ·)
    else none

def build_ArrayTable (libc : Libc) (interned_vals : List Bytes) (jtab : List JRow) :
    Option Table := do
  let indexes ← jtab.mapM fun jrow => do
    let index ← jrow.index
    let value ← jrow.value
    pure (Entry.mk index.2.toUInt32 value)
  let indexes :=
    if 0 < indexes.length then libc.qsortArr.sort qs_arrcmp_uint32_index_val indexes else indexes
  let refs ← arrRefs libc interned_vals none indexes
  pure (.arr ((indexes.head?.map Entry.key).getD 0) refs)

/-- The rows for `build_SparseArrayTable`, with the values they refer to. -/
def sparseRows (libc : Libc) (interned_vals : List Bytes) (jtab : List JRow) : Option (List Row) :=
  jtab.mapM fun jrow => do
    let value ← jrow.value
    let ref ← canonicalValueRef libc interned_vals value
    pure (Row.mk (jrow.index.map Prod.snd) ref)

def lookupBuildTable_v1 (libc : Libc) (jroot : JRoot) : Option LookupTable := do
  let jtab ← jroot.table
  let table_type := jroot.type.getD (ascii "string")
  let all_values ← jtab.mapM JRow.value
  let interned_vals := internedVals libc all_values
  let table ←
    if table_type = ascii "array" then build_ArrayTable libc interned_vals jtab
    else if table_type = ascii "sparseArray" then do
      let rows ← sparseRows libc interned_vals jtab
      let entries ← build_SparseArrayTable libc.qsortSprs.toQsort rows
      pure (.sprsArr entries)
    else if table_type = ascii "string" then build_StringTable libc interned_vals jtab
    else none
  pure ⟨table, jroot.noMatch⟩

def lookupKey_str (libc : Libc) (entries : List StrEntry) (noMatch : Option Bytes)
    (key : Bytes) : Bytes :=
  let entry := if entries.length = 0 then none
    else libc.bsearchStr.search (bs_arrcmp_strtab key) entries
  match entry with
  | none => defaultVal noMatch
  | some entry => entry.interned_val_ref

/-- `none` is a place outside of the array. -/
def lookupKey_arr (first_key : UInt32) (interned_val_refs : List Bytes)
    (noMatch : Option Bytes) (uint_key : UInt32) : Option Bytes :=
  if interned_val_refs.length = 0 ∨ uint_key < first_key then some (defaultVal noMatch)
  else
    let idx := uint_key - first_key
    if idx.toNat ≥ interned_val_refs.length then some (defaultVal noMatch)
    else interned_val_refs[idx.toNat]?

/-! ## What a table is for -/

structure FullRow where
  text : Bytes
  int : Int32
  value : Bytes
  deriving DecidableEq

namespace FullRow

def json (r : FullRow) : JRow := ⟨some (r.text, r.int), some r.value⟩

def uint (r : FullRow) : UInt32 := r.int.toUInt32

def strEntry (r : FullRow) : StrEntry := ⟨r.text, r.value⟩

def arrEntry (r : FullRow) : Entry := ⟨r.uint, r.value⟩

end FullRow

/-- The value of the row with the key, or the value for no match if there is none. -/
def IsValue {κ : Type} (rows : List FullRow) (index : FullRow → κ) (noMatch : Option Bytes)
    (key : κ) (value : Bytes) : Prop :=
  (∃ r ∈ rows, index r = key ∧ value = r.value) ∨
    (∀ r ∈ rows, index r ≠ key) ∧ value = defaultVal noMatch

def Contiguous (indexes : List UInt32) : Prop :=
  ∃ first : ℕ, (indexes.map UInt32.toNat).Perm ((List.range indexes.length).map (first + ·))

/-- The numbers from `first` on, where 0 is the one after 2^32 - 1. -/
def countUp (first : UInt32) (n : ℕ) : List UInt32 :=
  (List.range n).map fun i => first + UInt32.ofNat i

/-- The numbers are a range without a gap if 0 is the one after 2^32 - 1. -/
def Cyclic (indexes : List UInt32) : Prop := ∃ first, indexes.Perm (countUp first indexes.length)

def Near (indexes : List UInt32) : Prop :=
  ∀ a ∈ indexes, ∀ b ∈ indexes, a.toNat < b.toNat + 2 ^ 31

/-- A string table is built and gives the right values, whatever the library functions do where
nothing is known of them. -/
def StringRight (rows : List FullRow) (noMatch : Option Bytes) : Prop :=
  ∀ (libc : Libc) (type : Option Bytes), type = none ∨ type = some (ascii "string") →
    ∃ entries, lookupBuildTable_v1 libc ⟨noMatch, type, some (rows.map FullRow.json)⟩ =
        some ⟨.str entries, noMatch⟩ ∧
      ∀ key, IsValue rows FullRow.text noMatch key (lookupKey_str libc entries noMatch key)

/-- An array table is built exactly from indexes without a gap, and then gives the right values. -/
def ArrayRight (rows : List FullRow) (noMatch : Option Bytes) : Prop :=
  ∀ libc : Libc,
    let built :=
      lookupBuildTable_v1 libc ⟨noMatch, some (ascii "array"), some (rows.map FullRow.json)⟩
    (built.isSome ↔ Contiguous (rows.map FullRow.uint)) ∧
      ∀ t, built = some t → ∃ first_key refs, t = ⟨.arr first_key refs, noMatch⟩ ∧
        ∀ key, ∃ value, lookupKey_arr first_key refs noMatch key = some value ∧
          IsValue rows FullRow.uint noMatch key value

/-! ## The order of texts -/

def nums (s : Bytes) : List ℕ := s.map UInt8.toNat

variable {s t : Bytes}

lemma nums_cons_lt (a b : UInt8) (s t : Bytes) :
    nums (a :: s) < nums (b :: t) ↔ a < b ∨ a = b ∧ nums s < nums t := by
  rw [nums, nums, map_cons, map_cons, cons_lt_cons_iff, UInt8.toNat_inj]
  rfl

lemma ustrcmp_eq (s t : Bytes) :
    ustrcmp s t = if nums s < nums t then -1 else if nums t < nums s then 1 else 0 := by
  induction s generalizing t with
  | nil => cases t <;> simp [ustrcmp, nums]
  | cons a s ih =>
    cases t with
    | nil => simp [ustrcmp, nums]
    | cons b t =>
      rw [ustrcmp, ih]
      simp only [nums_cons_lt]
      by_cases hab : a = b
      · simp [hab]
      · by_cases hlt : a < b
        · simp [hlt]
        · have hgt : b < a := UInt8.lt_of_le_of_ne (UInt8.not_lt.mp hlt) (Ne.symm hab)
          simp [hlt, hgt, hab]

lemma ustrcmp_neg_iff : ustrcmp s t < 0 ↔ nums s < nums t := by
  rw [ustrcmp_eq]
  split_ifs with hlt hgt
  · exact iff_of_true (by decide) hlt
  · exact iff_of_false (by decide) hlt
  · exact iff_of_false (by decide) hlt

lemma ustrcmp_pos_iff : 0 < ustrcmp s t ↔ nums t < nums s := by
  rw [ustrcmp_eq]
  split_ifs with hlt hgt
  · exact iff_of_false (by decide) hlt.asymm
  · exact iff_of_true (by decide) hgt
  · exact iff_of_false (by decide) hgt

lemma ustrcmp_le_iff : ustrcmp s t ≤ 0 ↔ nums s ≤ nums t := by
  rw [← Int32.not_lt, ustrcmp_pos_iff, not_lt]

lemma ustrcmp_eq_zero_iff : ustrcmp s t = 0 ↔ s = t := by
  constructor
  · intro h
    have hlt : ¬nums s < nums t := ustrcmp_neg_iff.not.mp (by rw [h]; decide)
    have hgt : ¬nums t < nums s := ustrcmp_pos_iff.not.mp (by rw [h]; decide)
    exact map_injective_iff.mpr (fun _ _ => UInt8.toNat_inj.mp)
      (le_antisymm (not_lt.mp hgt) (not_lt.mp hlt))
  · rintro rfl
    simp [ustrcmp_eq]

section Texts

variable {α : Type} (key : α → Bytes)

lemma totalOn_ustrcmp (l : List α) : TotalOn (fun a b => ustrcmp (key a) (key b)) l where
  neg_iff a _ b _ := by rw [ustrcmp_neg_iff, ustrcmp_pos_iff]
  trans a _ b _ c _ := by
    simp only [ustrcmp_le_iff]
    exact le_trans

lemma search_ustrcmp {l : List α} (bsearch : Bsearch α)
    (h : l.Pairwise fun a b => ustrcmp (key a) (key b) ≤ 0) (s : Bytes) :
    (∃ e ∈ l, s = key e ∧ bsearch.search (fun e => ustrcmp s (key e)) l = some e) ∨
      (∀ e ∈ l, s ≠ key e) ∧ bsearch.search (fun e => ustrcmp s (key e)) l = none := by
  have horder : InOrderOf (fun e => ustrcmp s (key e)) l := by
    refine h.imp fun hab => ?_
    rw [ustrcmp_le_iff] at hab
    simp only [ustrcmp_neg_iff, ustrcmp_pos_iff]
    exact ⟨fun hs => hs.trans_le hab, fun hs => hab.trans_lt hs⟩
  cases hsearch : bsearch.search (fun e => ustrcmp s (key e)) l with
  | none =>
    refine .inr ⟨fun e he heq => ?_, rfl⟩
    exact bsearch.search_none _ _ horder hsearch e he (ustrcmp_eq_zero_iff.mpr heq)
  | some e =>
    obtain ⟨hmem, hzero⟩ := bsearch.search_some _ _ e horder hsearch
    exact .inl ⟨e, hmem, ustrcmp_eq_zero_iff.mp hzero, rfl⟩

end Texts

/-! ## Interned values -/

lemma uniqFrom_sublist (prev : Bytes) (vs : List Bytes) : (uniqFrom prev vs).Sublist vs := by
  induction vs generalizing prev with
  | nil => exact .slnil
  | cons curr rest ih =>
    rw [uniqFrom]
    split
    · exact (ih curr).cons_cons curr
    · exact (ih curr).cons curr

lemma mem_uniqFrom {prev v : Bytes} {vs : List Bytes} (h : v ∈ vs) :
    v = prev ∨ v ∈ uniqFrom prev vs := by
  induction vs generalizing prev with
  | nil => exact absurd h not_mem_nil
  | cons curr rest ih =>
    have hrest : v = curr ∨ v ∈ uniqFrom curr rest := by
      rcases mem_cons.mp h with rfl | h
      · exact .inl rfl
      · exact ih h
    rw [uniqFrom]
    split
    next => exact .inr (mem_cons.mpr hrest)
    next heq => exact hrest.imp_left fun h => h.trans (ustrcmp_eq_zero_iff.mp (not_not.mp heq)).symm

lemma uniq_sublist (vs : List Bytes) : (uniq vs).Sublist vs := by
  cases vs with
  | nil => exact .slnil
  | cons v vs => exact (uniqFrom_sublist v vs).cons_cons v

lemma mem_uniq {v : Bytes} {vs : List Bytes} (h : v ∈ vs) : v ∈ uniq vs := by
  cases vs with
  | nil => exact absurd h not_mem_nil
  | cons w vs =>
    rcases mem_cons.mp h with rfl | h
    · exact mem_cons_self
    · exact mem_cons.mpr (mem_uniqFrom h)

lemma canonicalValueRef_eq (libc : Libc) {all_values : List Bytes} {v : Bytes}
    (h : v ∈ all_values) : canonicalValueRef libc (internedVals libc all_values) v = some v := by
  have hsorted : (internedVals libc all_values).Pairwise fun a b => ustrcmp a b ≤ 0 :=
    (libc.qsortVals.sort_pairwise _ _ (totalOn_ustrcmp id all_values)).sublist (uniq_sublist _)
  have hmem : v ∈ internedVals libc all_values :=
    mem_uniq ((libc.qsortVals.perm _ _).mem_iff.mpr h)
  rcases search_ustrcmp id libc.bsearchVals hsorted v with ⟨e, -, rfl, hfound⟩ | ⟨hnone, -⟩
  · exact hfound
  · exact absurd rfl (hnone v hmem)

open FullRow

section Rows

variable {rows : List FullRow} {noMatch : Option Bytes}

lemma mapM_json {β : Type} {f : JRow → Option β} {g : FullRow → β}
    (h : ∀ r ∈ rows, f r.json = some (g r)) :
    (rows.map json).mapM f = some (rows.map g) := by
  induction rows with
  | nil => rfl
  | cons r rows ih =>
    obtain ⟨hr, hrows⟩ := forall_mem_cons.mp h
    rw [map_cons, mapM_cons, hr, ih hrows]
    rfl

lemma mapM_value : (rows.map json).mapM JRow.value = some (rows.map value) :=
  mapM_json fun _ _ => rfl

/-! ## String tables -/

lemma build_StringTable_eq (libc : Libc) :
    build_StringTable libc (internedVals libc (rows.map value)) (rows.map json) =
      some (.str (libc.qsortStr.sort qs_arrcmp_strtab (rows.map strEntry))) := by
  have hread := @mapM_json rows _ (fun jrow => do
    let index ← jrow.index
    let value ← jrow.value
    let ref ← canonicalValueRef libc (internedVals libc (rows.map FullRow.value)) value
    pure (StrEntry.mk index.1 ref)) strEntry fun r hr => by
      simp only [json, bind_eq_bind, bind_some,
        canonicalValueRef_eq libc (mem_map_of_mem hr)]
      rfl
  rw [build_StringTable, hread, bind_eq_bind, bind_some, libc.qsortStr.ite_sort]
  rfl

lemma lookupBuildTable_string (libc : Libc) {type : Option Bytes}
    (htype : type = none ∨ type = some (ascii "string")) :
    lookupBuildTable_v1 libc ⟨noMatch, type, some (rows.map json)⟩ =
      some ⟨.str (libc.qsortStr.sort qs_arrcmp_strtab (rows.map strEntry)), noMatch⟩ := by
  have htype' : type.getD (ascii "string") = ascii "string" := by
    rcases htype with rfl | rfl <;> rfl
  simp only [lookupBuildTable_v1, bind_eq_bind, bind_some, mapM_value, htype',
    if_neg (show ascii "string" ≠ ascii "sparseArray" by decide), if_true, build_StringTable_eq]
  rfl

/-- **String tables.** Every key has the value of its row. -/
theorem stringRight (rows : List FullRow) (noMatch : Option Bytes) : StringRight rows noMatch := by
  intro libc type htype
  refine ⟨_, lookupBuildTable_string libc htype, fun key => ?_⟩
  have hperm := libc.qsortStr.perm qs_arrcmp_strtab (rows.map strEntry)
  have hsorted := libc.qsortStr.sort_pairwise qs_arrcmp_strtab _
    (totalOn_ustrcmp StrEntry.key (rows.map strEntry))
  rw [lookupKey_str, hperm.length_eq, length_map]
  by_cases hempty : rows.length = 0
  · rw [eq_nil_of_length_eq_zero hempty]
    exact .inr ⟨fun r hr => absurd hr not_mem_nil, rfl⟩
  rw [if_neg hempty]
  rcases search_ustrcmp StrEntry.key libc.bsearchStr hsorted key with
    ⟨e, he, hkey, hfound⟩ | ⟨hnone, hfound⟩
  · obtain ⟨r, hr, rfl⟩ := mem_map.mp (hperm.mem_iff.mp he)
    rw [show libc.bsearchStr.search (bs_arrcmp_strtab key) _ = _ from hfound]
    exact .inl ⟨r, hr, hkey.symm, rfl⟩
  · rw [show libc.bsearchStr.search (bs_arrcmp_strtab key) _ = _ from hfound]
    refine .inr ⟨fun r hr heq => ?_, rfl⟩
    exact hnone _ (hperm.mem_iff.mpr (mem_map_of_mem hr)) heq.symm

/-! ## Array tables -/

theorem countUp_succ (first : UInt32) (n : ℕ) :
    countUp first (n + 1) = first :: countUp (first + 1) n := by
  rw [countUp, range_succ_eq_map, map_cons, map_map]
  refine congrArg₂ List.cons (UInt32.add_zero first) (map_congr_left fun i _ => ?_)
  rw [Function.comp_apply, Nat.succ_eq_add_one, UInt32.ofNat_add, UInt32.add_comm (UInt32.ofNat i),
    ← UInt32.add_assoc]
  rfl

section Refs

variable {libc : Libc} {interned_vals : List Bytes} {l : List Entry}
  (hrefs : ∀ e ∈ l, canonicalValueRef libc interned_vals e.interned_val_ref =
    some e.interned_val_ref)

include hrefs

def CountsUp (l : List Entry) : Prop :=
  l.map Entry.key = countUp ((l.head?.map Entry.key).getD 0) l.length

omit hrefs in
lemma countsUp_cons {e : Entry} : CountsUp (e :: l) ↔
    l.map Entry.key = countUp (e.key + 1) l.length := by
  rw [CountsUp, head?_cons, Option.map_some, getD_some, length_cons, countUp_succ,
    map_cons, cons_eq_cons, and_iff_right rfl]

lemma arrRefs_iff {prev : Option UInt32} {refs : List Bytes} :
    arrRefs libc interned_vals prev l = some refs ↔
      l.map key = countUp ((prev.map (· + 1)).getD ((l.head?.map key).getD 0)) l.length ∧
        l.map interned_val_ref = refs := by
  induction l generalizing prev refs with
  | nil => simp [arrRefs, countUp]
  | cons e l ih =>
    obtain ⟨he, hl⟩ := forall_mem_cons.mp hrefs
    have hprev : prev.all (fun prev => e.key == prev + 1) ↔
        e.key = (prev.map (· + 1)).getD e.key := by cases prev <;> simp
    rw [arrRefs, he, length_cons, countUp_succ, map_cons, map_cons, cons_eq_cons, head?_cons,
      Option.map_some, getD_some, ← hprev]
    split_ifs with hkey
    · rw [← hprev.mp hkey, bind_some, map_eq_some_iff]
      simp only [ih hl, Option.map_some, getD_some, hkey, true_and]
      constructor
      · rintro ⟨rest, ⟨hcount, hrest⟩, rfl⟩
        exact ⟨hcount, by rw [hrest]⟩
      · rintro ⟨hcount, rfl⟩
        exact ⟨_, ⟨hcount, rfl⟩, rfl⟩
    · exact iff_of_false (by simp) fun h => hkey h.1.1

end Refs

def sortedIndexes (libc : Libc) (rows : List FullRow) : List Entry :=
  libc.qsortArr.sort qs_arrcmp_uint32_index_val (rows.map arrEntry)

lemma sortedIndexes_perm (libc : Libc) (rows : List FullRow) :
    (sortedIndexes libc rows).Perm (rows.map arrEntry) := libc.qsortArr.perm _ _

lemma build_ArrayTable_eq (libc : Libc) (interned_vals : List Bytes) :
    build_ArrayTable libc interned_vals (rows.map json) =
      (arrRefs libc interned_vals none (sortedIndexes libc rows)).map fun refs =>
        .arr (((sortedIndexes libc rows).head?.map key).getD 0) refs := by
  have hread := @mapM_json rows _ (fun jrow => do
    let index ← jrow.index
    let value ← jrow.value
    pure (mk index.2.toUInt32 value)) arrEntry fun r _ => rfl
  rw [build_ArrayTable, hread, bind_eq_bind, bind_some]
  simp only [libc.qsortArr.ite_sort, sortedIndexes]
  cases arrRefs libc interned_vals none _ <;> rfl

lemma lookupBuildTable_array_iff (libc : Libc) (t : LookupTable) :
    lookupBuildTable_v1 libc ⟨noMatch, some (ascii "array"), some (rows.map json)⟩ =
        some t ↔
      CountsUp (sortedIndexes libc rows) ∧
        t = ⟨.arr (((sortedIndexes libc rows).head?.map key).getD 0)
          ((sortedIndexes libc rows).map interned_val_ref), noMatch⟩ := by
  have hrefs : ∀ e ∈ sortedIndexes libc rows,
      canonicalValueRef libc (internedVals libc (rows.map value)) e.interned_val_ref =
        some e.interned_val_ref := by
    intro e he
    obtain ⟨r, hr, rfl⟩ := mem_map.mp ((sortedIndexes_perm libc rows).mem_iff.mp he)
    exact canonicalValueRef_eq libc (mem_map_of_mem hr)
  simp only [lookupBuildTable_v1, bind_eq_bind, bind_some, mapM_value,
    getD_some, if_true, build_ArrayTable_eq, Option.bind_eq_some_iff, map_eq_some_iff,
    Option.pure_def, Option.some.injEq, arrRefs_iff hrefs]
  constructor
  · rintro ⟨_, ⟨refs, ⟨hcount, rfl⟩, rfl⟩, rfl⟩
    exact ⟨hcount, rfl⟩
  · rintro ⟨hcount, rfl⟩
    exact ⟨_, ⟨_, ⟨hcount, rfl⟩, rfl⟩, rfl⟩

end Rows

/-! ## Counting up -/

theorem length_countUp (first : UInt32) (n : ℕ) : (countUp first n).length = n := by
  rw [countUp, length_map, length_range]

lemma countsUp_iff {l : List Entry} : CountsUp l ↔ ∃ first, l.map key = countUp first l.length := by
  refine ⟨fun h => ⟨_, h⟩, ?_⟩
  rintro ⟨first, h⟩
  cases l with
  | nil => rfl
  | cons e l =>
    rw [map_cons, length_cons, countUp_succ, cons_eq_cons] at h
    rw [countsUp_cons, h.1]
    exact h.2

lemma toNat_countUp {first : UInt32} {n : ℕ} (h : (countUp first n).Pairwise (· < ·)) :
    (countUp first n).map UInt32.toNat = (List.range n).map (first.toNat + ·) := by
  induction n generalizing first with
  | zero => rfl
  | succ n ih =>
    rw [countUp_succ, pairwise_cons] at h
    rw [countUp_succ, map_cons, ih h.2, range_succ_eq_map, map_cons, map_map]
    refine congrArg₂ List.cons rfl (map_congr_left fun i hi => ?_)
    have hpos : 0 < n := Nat.zero_lt_of_lt (mem_range.mp hi)
    have hnext : first < first + 1 := by
      refine h.1 _ ?_
      obtain ⟨m, rfl⟩ := Nat.exists_eq_succ_of_ne_zero hpos.ne'
      rw [countUp_succ]
      exact mem_cons_self
    have hlt := UInt32.lt_iff_toNat_lt.mp hnext
    have hsum : (first + 1).toNat = (first.toNat + 1) % 2 ^ 32 := UInt32.toNat_add first 1
    rw [Function.comp_apply]
    omega

lemma eq_countUp {l : List UInt32} {first n : ℕ}
    (h : l.map UInt32.toNat = (List.range n).map (first + ·)) :
    l = countUp (UInt32.ofNat first) n := by
  have hl : l = (l.map UInt32.toNat).map UInt32.ofNat := by
    rw [map_map]
    conv_lhs => rw [← map_id l]
    exact map_congr_left fun a _ => by simp
  rw [hl, h, map_map]
  exact map_congr_left fun i _ => by rw [Function.comp_apply, UInt32.ofNat_add]

lemma exists_perm_of_map {α β : Type} {f : α → β} {l : List α} {l' : List β}
    (h : (l.map f).Perm l') : ∃ target : List α, l' = target.map f ∧ target.Perm l := by
  have hrel : Relation.Comp (· = List.map f ·) List.Perm l' l := by
    rw [eq_map_comp_perm]
    exact h.symm
  exact hrel

lemma Contiguous.cyclic {indexes : List UInt32} (h : Contiguous indexes) : Cyclic indexes := by
  obtain ⟨first, hperm⟩ := h
  obtain ⟨l, hl, hlperm⟩ := exists_perm_of_map hperm
  exact ⟨_, hlperm.symm.trans (.of_eq (eq_countUp hl.symm))⟩

/-! ## Indexes that are near -/

section

variable {rows : List FullRow}

lemma map_key_arrEntry : (rows.map arrEntry).map key = rows.map uint := by
  rw [map_map]
  rfl

lemma near_iff_close : Near (rows.map uint) ↔ Close (rows.map arrEntry) := by
  simp only [Near, Close, forall_mem_map]
  rfl

variable (hdistinct : (rows.map uint).Nodup)

include hdistinct

lemma inOrder_increasing : ((inOrder (rows.map arrEntry)).map key).Pairwise (· < ·) := by
  have hperm := (inOrder_perm (rows.map arrEntry)).map key
  rw [map_key_arrEntry] at hperm
  have hnodup := hperm.nodup_iff.mpr hdistinct
  rw [pairwise_map]
  refine ((inOrder_pairwise _).and (pairwise_map.mp hnodup)).imp fun h => ?_
  exact UInt32.lt_of_le_of_ne h.1 h.2

lemma countsUp_inOrder_iff :
    CountsUp (inOrder (rows.map arrEntry)) ↔ Contiguous (rows.map uint) := by
  have hperm := (inOrder_perm (rows.map arrEntry)).map key
  rw [map_key_arrEntry] at hperm
  have hlen : (inOrder (rows.map arrEntry)).length = (rows.map uint).length := by
    rw [← hperm.length_eq, length_map]
  have hinc := inOrder_increasing hdistinct
  rw [countsUp_iff, hlen]
  constructor
  · rintro ⟨first, hcount⟩
    rw [hcount] at hinc hperm
    refine ⟨first.toNat, ?_⟩
    rw [← toNat_countUp hinc]
    exact (hperm.map _).symm
  · rintro ⟨first, hrange⟩
    refine ⟨UInt32.ofNat first, eq_countUp ?_⟩
    refine List.Perm.eq_of_pairwise (fun a b _ _ hab hba => Nat.le_antisymm hab hba) ?_ ?_
      ((hperm.map _).trans hrange)
    · rw [pairwise_map]
      exact hinc.imp fun h => (UInt32.lt_iff_toNat_lt.mp h).le
    · rw [pairwise_map]
      exact pairwise_le_range.imp fun h => by omega

omit hdistinct in
lemma lookupKey_arr_countUp {noMatch : Option Bytes} {l : List Entry} {first : UInt32}
    (hperm : l.Perm (rows.map arrEntry))
    (hkeys : l.map (fun e => e.key.toNat) = (List.range l.length).map (first.toNat + ·))
    (key : UInt32) :
    ∃ value, lookupKey_arr first (l.map interned_val_ref) noMatch key = some value ∧
      IsValue rows uint noMatch key value := by
  have hplace {i : ℕ} {r : FullRow} (h : l[i]? = some r.arrEntry) :
      i < l.length ∧ r.uint.toNat = first.toNat + i := by
    obtain ⟨hi, -⟩ := List.getElem?_eq_some_iff.mp h
    have hat := congrArg (·[i]?) hkeys
    simp only [getElem?_map, h, getElem?_range hi] at hat
    exact ⟨hi, Option.some.inj hat⟩
  -- a key outside of the range belongs to no row
  have hnone (hout : key.toNat < first.toNat ∨ first.toNat + l.length ≤ key.toNat) :
      IsValue rows uint noMatch key (defaultVal noMatch) := by
    refine .inr ⟨fun r hr heq => ?_, rfl⟩
    obtain ⟨i, hi⟩ := getElem?_of_mem (hperm.mem_iff.mpr (mem_map_of_mem hr))
    have htoNat := hplace hi
    rw [heq] at htoNat
    omega
  rw [lookupKey_arr, length_map]
  split
  next h =>
    refine ⟨_, rfl, hnone (h.elim (fun hlen => ?_) fun hlt => .inl (UInt32.lt_iff_toNat_lt.mp hlt))⟩
    omega
  next h =>
    have hle : first ≤ key := UInt32.not_lt.mp fun hlt => h (.inr hlt)
    have hsub := UInt32.toNat_sub_of_le key first hle
    have hle' := UInt32.le_iff_toNat_le.mp hle
    by_cases hge : (key - first).toNat ≥ l.length
    · exact ⟨_, if_pos hge, hnone (.inr (by omega))⟩
    · have hread := getElem?_eq_getElem (Nat.not_le.mp hge)
      obtain ⟨r, hr, heq⟩ := mem_map.mp (hperm.mem_iff.mp (mem_of_getElem? hread))
      rw [← heq] at hread
      have hkey := (hplace hread).2
      refine ⟨r.value, ?_, .inl ⟨r, hr, UInt32.toNat_inj.mp (by omega), rfl⟩⟩
      refine (if_neg hge).trans ?_
      rw [getElem?_map, hread]
      rfl

lemma arrayRight_of_near (noMatch : Option Bytes) (hnear : Near (rows.map uint)) :
    ArrayRight rows noMatch := by
  intro libc
  have hdistinct' : ((rows.map arrEntry).map key).Nodup := by
    rwa [map_key_arrEntry]
  have hsorted : sortedIndexes libc rows = inOrder (rows.map arrEntry) :=
    sort_eq_inOrder libc.qsortArr.toQsort hdistinct' (near_iff_close.mp hnear)
  have hbuilt := @lookupBuildTable_array_iff rows noMatch libc
  rw [hsorted] at hbuilt
  constructor
  · rw [isSome_iff_exists, ← countsUp_inOrder_iff hdistinct]
    simp only [hbuilt]
    exact ⟨fun h => h.elim fun _ h => h.1, fun h => ⟨_, h, rfl⟩⟩
  · intro t ht
    obtain ⟨hcount, rfl⟩ := (hbuilt t).mp ht
    refine ⟨_, _, rfl, lookupKey_arr_countUp (inOrder_perm _) ?_⟩
    have hinc := inOrder_increasing hdistinct
    rw [hcount] at hinc
    rw [← toNat_countUp hinc, ← hcount, map_map]
    rfl

end

/-! ## Indexes that are far apart -/

section

variable {α : Type}

def insertion (α : Type) : Sorter α where
  sort cmp l := l.insertionSort fun a b => cmp a b ≤ 0
  length_sort _ _ := length_insertionSort _ _
  sort_perm _ _ _ := perm_insertionSort _ _
  sort_pairwise cmp l h := by
    -- the comparison is an order on the elements of the list only
    let r : {x // x ∈ l} → {x // x ∈ l} → Prop := fun a b => cmp a b ≤ 0
    have htrans : IsTrans _ r := ⟨fun a b c => h.trans a a.2 b b.2 c c.2⟩
    have htotal : Std.Total r := ⟨h.total⟩
    have hsorted := pairwise_insertionSort r l.attach
    have hmap := map_insertionSort r (fun a b => cmp a b ≤ 0) Subtype.val l.attach
      fun _ _ _ _ => Iff.rfl
    rw [attach_map_subtype_val] at hmap
    rw [← hmap, pairwise_map]
    exact hsorted
  perm _ _ := perm_insertionSort _ _

open Classical in
/-- A `qsort` that gives a certain arrangement where its comparison is no total order. -/
noncomputable def arrange (target : List α) : Sorter α where
  sort cmp l := if TotalOn cmp l then (insertion α).sort cmp l
    else if target.Perm l then target else l
  length_sort cmp l := by
    split_ifs with htotal hperm
    · exact (insertion α).length_sort cmp l
    · exact hperm.length_eq
    · rfl
  sort_perm cmp l h := by
    rw [if_pos h]
    exact (insertion α).sort_perm cmp l h
  sort_pairwise cmp l h := by
    rw [if_pos h]
    exact (insertion α).sort_pairwise cmp l h
  perm cmp l := by
    split_ifs with htotal hperm
    · exact (insertion α).perm cmp l
    · exact hperm
    · exact .refl l

def scan (α : Type) : Bsearch α where
  search cmp l := l.find? fun e => cmp e == 0
  search_some cmp l e _ h := by
    have hzero := find?_some h
    exact ⟨mem_of_find?_eq_some h, by simpa using hzero⟩
  search_none cmp l _ h e he := by
    have hnot := find?_eq_none.mp h e he
    simpa using hnot

def simpleLibc (qsortArr : Sorter Entry) : Libc where
  qsortVals := insertion _
  qsortStr := insertion _
  qsortArr := qsortArr
  qsortSprs := insertion _
  bsearchVals := scan _
  bsearchStr := scan _

end

section Far

variable {rows : List FullRow} {noMatch : Option Bytes}

lemma sortedIndexes_arrange {target : List Entry} (hfar : ¬Near (rows.map uint))
    (hperm : target.Perm (rows.map arrEntry)) :
    sortedIndexes (simpleLibc (arrange target)) rows = target := by
  have hnot : ¬TotalOn qs_arrcmp_uint32_index_val (rows.map arrEntry) := fun h =>
    hfar (near_iff_close.mpr ((totalOn_iff _).mp h))
  exact (if_neg hnot).trans (if_pos hperm)

lemma arrayRight_of_not_cyclic (hcyclic : ¬Cyclic (rows.map uint)) : ArrayRight rows noMatch := by
  intro libc
  have hnot : ¬CountsUp (sortedIndexes libc rows) := by
    intro hcount
    have hperm := (sortedIndexes_perm libc rows).map key
    rw [map_key_arrEntry, hcount] at hperm
    have hlen := hperm.length_eq
    rw [length_countUp] at hlen
    rw [hlen] at hperm
    exact hcyclic ⟨_, hperm.symm⟩
  have hnone : ∀ t, lookupBuildTable_v1 libc
      ⟨noMatch, some (ascii "array"), some (rows.map json)⟩ ≠ some t := fun t ht =>
    hnot ((lookupBuildTable_array_iff libc t).mp ht).1
  refine ⟨iff_of_false ?_ fun h => hcyclic h.cyclic, fun t ht => absurd ht (hnone t)⟩
  rw [isSome_iff_exists]
  rintro ⟨t, ht⟩
  exact hnone t ht

lemma ArrayRight.countsUp_iff {target : List Entry} (hright : ArrayRight rows noMatch)
    (hfar : ¬Near (rows.map uint)) (hperm : target.Perm (rows.map arrEntry)) :
    CountsUp target ↔ Contiguous (rows.map uint) := by
  rw [← (hright (simpleLibc (arrange target))).1, isSome_iff_exists]
  simp only [lookupBuildTable_array_iff, sortedIndexes_arrange hfar hperm]
  exact ⟨fun h => ⟨_, h, rfl⟩, fun h => h.elim fun _ h => h.1⟩

/-- If they do, there is an order that passes the check although there is a gap, or one that does
not although there is none. -/
lemma not_arrayRight (hfar : ¬Near (rows.map uint))
    (hcyclic : Cyclic (rows.map uint)) : ¬ArrayRight rows noMatch := by
  intro hright
  by_cases hgap : Contiguous (rows.map uint)
  · obtain ⟨a, ha, b, hb, hab⟩ : ∃ a ∈ rows, ∃ b ∈ rows, b.uint.toNat + 2 ^ 31 ≤ a.uint.toNat := by
      simpa [Near] using hfar
    have hne : a.arrEntry ≠ b.arrEntry := by
      intro heq
      have : a.uint.toNat = b.uint.toNat := congrArg (fun e => e.key.toNat) heq
      omega
    have ha' : a.arrEntry ∈ (rows.map arrEntry).erase b.arrEntry :=
      (mem_erase_of_ne hne).mpr (mem_map_of_mem ha)
    have hperm := ((perm_cons_erase (mem_map_of_mem hb)).trans
      ((perm_cons_erase ha').cons b.arrEntry)).symm
    have hcount := (hright.countsUp_iff hfar hperm).mpr hgap
    rw [countsUp_cons, length_cons, countUp_succ, map_cons, cons_eq_cons] at hcount
    have hnext : a.uint.toNat = (b.uint.toNat + 1) % 2 ^ 32 :=
      (congrArg UInt32.toNat hcount.1).trans (UInt32.toNat_add b.uint 1)
    omega
  · obtain ⟨first, hperm⟩ := hcyclic
    rw [← map_key_arrEntry] at hperm
    obtain ⟨target, htarget, htperm⟩ := exists_perm_of_map hperm
    have hcount : CountsUp target := by
      rw [Lookup.countsUp_iff]
      exact ⟨first, by rw [← htarget, length_map, htperm.length_eq]⟩
    exact hgap ((hright.countsUp_iff hfar htperm).mp hcount)

end Far

/-- **Lookup tables.** In a string table every key has its value. An array table with distinct
indexes is accepted exactly if they have no gap, and then gives every key its value, if no two
indexes are 2^31 or more apart or they do not even count up with 0 for the one after 2^32 - 1.
Otherwise it depends on what `qsort` does with a comparison that is no order. -/
theorem tables_right_iff (rows : List FullRow) (noMatch : Option Bytes) :
    StringRight rows noMatch ∧
      ((rows.map uint).Nodup →
        (ArrayRight rows noMatch ↔
          Near (rows.map uint) ∨ ¬Cyclic (rows.map uint))) := by
  refine ⟨stringRight rows noMatch, fun hdistinct => ?_⟩
  by_cases hnear : Near (rows.map uint)
  · exact iff_of_true (arrayRight_of_near hdistinct noMatch hnear) (.inl hnear)
  · by_cases hcyclic : Cyclic (rows.map uint)
    · exact iff_of_false (not_arrayRight hnear hcyclic) fun h => h.elim hnear fun h => h hcyclic
    · exact iff_of_true (arrayRight_of_not_cyclic hcyclic) (.inr hcyclic)

/-- The indexes 5 and 4. -/
theorem tables_right_iff_two : ArrayRight [⟨[53], 5, [98]⟩, ⟨[52], 4, [97]⟩] none := by
  refine ((tables_right_iff _ _).2 (by decide +kernel)).mpr (.inl fun a ha b hb => ?_)
  have hmem : ∀ c ∈ [(5 : UInt32), 4], c = 5 ∨ c = 4 := by simp
  have ha := hmem a ha
  have hb := hmem b hb
  rcases ha with rfl | rfl <;> rcases hb with rfl | rfl <;> decide

/-- The indexes -1 and 0, as unsigned numbers 2^32 - 1 and 0: the table is accepted, and there is no
value for 0. -/
theorem minus_one_and_zero_accepted :
    let built := lookupBuildTable_v1 (simpleLibc (insertion _))
      ⟨none, some (ascii "array"),
        some [⟨some ([45, 49], -1), some [97]⟩, ⟨some ([48], 0), some [98]⟩]⟩
    built = some ⟨.arr 4294967295 [[97], [98]], none⟩ ∧
      lookupKey_arr 4294967295 [[97], [98]] none 0 = some [] := by
  decide +kernel

end Rsyslog.Lookup
