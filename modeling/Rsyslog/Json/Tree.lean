import Mathlib.Logic.Function.Basic
import Rsyslog.Lib.Decimal
import Rsyslog.Lib.Translate

/-!
# JSON variables

The trees behind `$!` and `$.`, as `msg.c` reads and writes them. A name component of the form
`name[index]` is resolved to an element if `name` is an array; otherwise it is an ordinary member
name. `jsonVarExtract` does this, also for the containers on the way to a variable that is set. The
variable itself and containers that are missing are always added under the component as it stands.

Objects are maps, as those of libfastjson are taken to be; a NULL pointer is `null`.
-/

namespace Rsyslog.Json

open List

open Lib (isDigit isspace)

abbrev Key := Bytes

inductive JsonObject (α : Type*)
  | null
  | scalar (a : α)
  | array (elems : List (JsonObject α))
  | object (members : Key → Option (JsonObject α))

/-! ## The code -/

/-- The digits of `strtol`, and what is left behind them. Without digits nothing is consumed. -/
def strtolDigits (s : Bytes) (neg : Bool) (t : Bytes) : ℤ × Bytes :=
  let digits := t.takeWhile isDigit
  if digits = [] then (0, s)
  else
    let n : ℤ := digits.foldl (fun n c => n * 10 + (c.toNat - 48)) 0
    (if neg then -n else n, t.dropWhile isDigit)

/-- `strtol` with base 10, with the number as it is even if it does not fit. -/
def strtol (s : Bytes) : ℤ × Bytes :=
  match s.dropWhile isspace with
  | 45 :: t => strtolDigits s true t
  | 43 :: t => strtolDigits s false t
  | t => strtolDigits s false t

def arrayIdx (key : Key) : Option (Key × Int32) :=
  match key.dropWhile (· ≠ 91) with
  | [] => none
  | _ :: start =>
    let arrayIdxEnd := start.dropWhile (· ≠ 93)
    let num := strtol start
    if arrayIdxEnd.length = 1 ∧ (-2 ^ 63 ≤ num.1 ∧ num.1 < 2 ^ 63) ∧ num.2 = arrayIdxEnd then
      some (key.takeWhile (· ≠ 91), Int32.ofInt num.1)
    else none

variable {α : Type*}

def objectGetEx : JsonObject α → Key → Option (JsonObject α)
  | .object members, key => members key
  | _, _ => none

def objectAdd (root : JsonObject α) (key : Key) (json : JsonObject α) : JsonObject α :=
  match root with
  | .object members => .object (Function.update members key (some json))
  | root => root

def nonNull : Option (JsonObject α) → Option (JsonObject α)
  | some .null => none
  | json => json

def elementOf (root : JsonObject α) (key : Key) : Option (Key × List (JsonObject α) × Int32) :=
  match arrayIdx key with
  | some (name, idx) =>
    match objectGetEx root name with
    | some (.array elems) => some (name, elems, idx)
    | _ => none
  | none => none

/-- `json_object_array_get_idx`; there is nothing before the first element. -/
def arrayGetIdx (elems : List (JsonObject α)) (idx : Int32) : Option (JsonObject α) :=
  if idx < 0 then none else elems[idx.toInt.toNat]?

def jsonVarExtract (root : JsonObject α) (key : Key) : Option (JsonObject α) :=
  match elementOf root key with
  | some (_, elems, idx) => nonNull (arrayGetIdx elems idx)
  | none => nonNull (objectGetEx root key)

/-- The tree after the value that `jsonVarExtract` finds has become `json`. -/
def jsonVarReplace (root : JsonObject α) (key : Key) (json : JsonObject α) : JsonObject α :=
  match elementOf root key with
  | some (name, elems, idx) => objectAdd root name (.array (elems.set idx.toInt.toNat json))
  | none => objectAdd root key json

inductive RsRetVal
  | ok
  | invldSetop
  deriving DecidableEq

/-- `jsonPathFindParent` without `bCreate`: the names lead from one container to the next. -/
def jsonPathFindParent : List Key → JsonObject α → Option (JsonObject α)
  | [], parent => some parent
  | name :: names, root => (jsonVarExtract root name).bind (jsonPathFindParent names)

/-- `jsonPathFindParent` with `bCreate`, and what is then done to the parent. -/
def withParent (act : JsonObject α → RsRetVal × JsonObject α) :
    List Key → JsonObject α → RsRetVal × JsonObject α
  | [], parent => act parent
  | name :: names, root =>
    match jsonVarExtract root name with
    | some json => (withParent act names json).map id (jsonVarReplace root name)
    | none =>
      match root with
      | .object _ =>
        (withParent act names (.object fun _ => none)).map id (objectAdd root name)
      | _ => (.invldSetop, root)

def setLeaf (leaf : Key) (json : JsonObject α) (parent : JsonObject α) : RsRetVal × JsonObject α :=
  match parent with
  | .object _ => (.ok, objectAdd parent leaf json)
  | _ => (.invldSetop, parent)

/-! ## Paths -/

def lookup (root : JsonObject α) : List Key → Option (JsonObject α)
  | [] => some root
  | name :: names => (jsonVarExtract root name).bind fun json => lookup json names

inductive Step
  | key (name : Key)
  | index (idx : Int32)
  deriving DecidableEq

def stepsOf (key : Key) : List Step :=
  match arrayIdx key with
  | some (name, idx) => [.key name, .index idx]
  | none => [.key key]

def Apart (p q : List Step) : Prop := ¬p <+: q ∧ ¬q <+: p

variable {key name : Key} {idx : Int32}

lemma not_mem_of_arrayIdx (h : arrayIdx key = some (name, idx)) : 91 ∉ name ∧ 91 ∈ key := by
  rw [arrayIdx] at h
  split at h
  case h_1 => cases h
  case h_2 c start hstart =>
    dsimp only at h
    split at h
    case isTrue =>
      obtain ⟨rfl, -⟩ := Prod.mk.inj (Option.some.inj h)
      refine ⟨fun hmem => absurd (mem_takeWhile_imp hmem) (by decide), ?_⟩
      by_contra hkey
      have hnil : key.dropWhile (· ≠ 91) = [] := dropWhile_eq_nil_iff.mpr fun c hc =>
        decide_eq_true fun hc' => hkey (hc' ▸ hc)
      rw [hstart] at hnil
      cases hnil
    case isFalse => cases h

lemma ne_of_arrayIdx (h : arrayIdx key = some (name, idx)) : name ≠ key := by
  obtain ⟨hname, hkey⟩ := not_mem_of_arrayIdx h
  rintro rfl
  exact hname hkey

lemma arrayIdx_eq_none (h : 91 ∉ name) : arrayIdx name = none := by
  cases hidx : arrayIdx name with
  | none => rfl
  | some idx => exact absurd (not_mem_of_arrayIdx hidx).2 h

/-! ## One node -/

variable {json : JsonObject α} {members : Key → Option (JsonObject α)}

lemma objectGetEx_objectAdd :
    objectGetEx (objectAdd (.object members) key json) key = some json := by
  rw [objectAdd, objectGetEx, Function.update_self]

variable {key' : Key}

lemma objectGetEx_objectAdd_ne (root : JsonObject α) (json : JsonObject α) (h : key' ≠ key) :
    objectGetEx (objectAdd root key json) key' = objectGetEx root key' := by
  cases root with
  | object members => rw [objectAdd, objectGetEx, objectGetEx, Function.update_of_ne h]
  | _ => rfl

variable {root : JsonObject α} {elems : List (JsonObject α)}

lemma elementOf_eq_some :
    elementOf root key = some (name, elems, idx) ↔
      arrayIdx key = some (name, idx) ∧ objectGetEx root name = some (.array elems) := by
  rw [elementOf]
  constructor
  · intro h
    split at h
    · split at h
      · cases h
        exact ⟨by assumption, by assumption⟩
      · cases h
    · cases h
  · rintro ⟨hidx, hget⟩
    simp only [hidx, hget]

variable {root' : JsonObject α}

lemma elementOf_objectAdd_ne (root : JsonObject α) (json : JsonObject α)
    (hname : ∀ name idx, arrayIdx key' = some (name, idx) → name ≠ key) :
    elementOf (objectAdd root key json) key' = elementOf root key' := by
  cases hidx : arrayIdx key' with
  | none => simp only [elementOf, hidx]
  | some p => simp only [elementOf, hidx, objectGetEx_objectAdd_ne root json (hname p.1 p.2 hidx)]

lemma jsonVarExtract_objectAdd_ne (root : JsonObject α) (json : JsonObject α) (hkey : key' ≠ key)
    (hname : ∀ name idx, arrayIdx key' = some (name, idx) → name ≠ key) :
    jsonVarExtract (objectAdd root key json) key' = jsonVarExtract root key' := by
  rw [jsonVarExtract, jsonVarExtract, elementOf_objectAdd_ne root json hname,
    objectGetEx_objectAdd_ne root json hkey]

lemma jsonVarExtract_objectAdd_self (members : Key → Option (JsonObject α)) (key : Key)
    (json : JsonObject α) :
    jsonVarExtract (objectAdd (.object members) key json) key =
      if (elementOf (.object members) key).isSome then jsonVarExtract (.object members) key
      else nonNull (some json) := by
  rw [jsonVarExtract, jsonVarExtract, objectGetEx_objectAdd,
    elementOf_objectAdd_ne _ json fun _ _ => ne_of_arrayIdx]
  cases elementOf (.object members) key <;> rfl

lemma elementOf_eq_none (hidx : arrayIdx key = some (name, idx))
    (hget : ∀ elems, objectGetEx root name ≠ some (.array elems)) : elementOf root key = none := by
  rw [elementOf, hidx]
  dsimp only
  split
  · exact absurd (by assumption) (hget _)
  · rfl

lemma jsonVarExtract_objectAdd_name (hidx : arrayIdx key = some (name, idx))
    (hold : ∀ elems, objectGetEx root name ≠ some (.array elems))
    (hnew : ∀ elems, objectGetEx (objectAdd root name json) name ≠ some (.array elems)) :
    jsonVarExtract (objectAdd root name json) key = jsonVarExtract root key := by
  rw [jsonVarExtract, jsonVarExtract, elementOf_eq_none hidx hold, elementOf_eq_none hidx hnew,
    objectGetEx_objectAdd_ne root json (ne_of_arrayIdx hidx).symm]

def IsObject (json : JsonObject α) : Prop := ∃ members, json = .object members

lemma IsObject.nonNull (h : IsObject json) : nonNull (some json) = some json := by
  obtain ⟨members, rfl⟩ := h
  rfl

lemma IsObject.ne_array (h : IsObject json) (elems : List (JsonObject α)) :
    json ≠ .array elems := by
  obtain ⟨members, rfl⟩ := h
  exact fun h => nomatch h

lemma jsonVarExtract_eq_none (h : ∀ key, objectGetEx root key = none) (key : Key) :
    jsonVarExtract root key = none := by
  have helem : elementOf root key = none := by
    rw [elementOf]
    split
    · rw [h]
    · rfl
  rw [jsonVarExtract, helem, h]
  rfl

lemma isObject_of_extract (h : jsonVarExtract root key = some json) : IsObject root := by
  cases root with
  | object members => exact ⟨members, rfl⟩
  | _ =>
    rw [jsonVarExtract_eq_none fun _ => rfl] at h
    cases h

lemma isObject_objectAdd (h : IsObject root) (key : Key) (json : JsonObject α) :
    IsObject (objectAdd root key json) := by
  obtain ⟨members, rfl⟩ := h
  exact ⟨_, rfl⟩

lemma isObject_jsonVarReplace (h : IsObject root) (key : Key) (json : JsonObject α) :
    IsObject (jsonVarReplace root key json) := by
  rw [jsonVarReplace]
  split
  · exact isObject_objectAdd h _ _
  · exact isObject_objectAdd h _ _

lemma stepsOf_of_some (h : arrayIdx key = some (name, idx)) :
    stepsOf key = [.key name, .index idx] := by
  simp only [stepsOf, h]

lemma stepsOf_of_none (h : arrayIdx key = none) : stepsOf key = [.key key] := by
  simp only [stepsOf, h]

lemma jsonVarExtract_objectAdd_object (hold : ∀ elems, members key ≠ some (.array elems))
    (hjson : IsObject json) (hkey : key' ≠ key) :
    jsonVarExtract (objectAdd (.object members) key json) key' =
      jsonVarExtract (.object members) key' := by
  by_cases hname : ∃ idx, arrayIdx key' = some (key, idx)
  · obtain ⟨idx, hidx⟩ := hname
    refine jsonVarExtract_objectAdd_name hidx hold fun elems hget => ?_
    rw [objectGetEx_objectAdd] at hget
    exact hjson.ne_array elems (Option.some.inj hget)
  · refine jsonVarExtract_objectAdd_ne _ json hkey fun name idx hidx hname' => hname ?_
    exact ⟨idx, hname' ▸ hidx⟩

lemma objectAdd_cases (hnone : jsonVarExtract (.object members) key = none)
    (hjson : IsObject json) (key' : Key) :
    (stepsOf key' = stepsOf key ∧ jsonVarExtract (.object members) key' = none ∧
        jsonVarExtract (objectAdd (.object members) key json) key' = some json) ∨
      jsonVarExtract (objectAdd (.object members) key json) key' =
        jsonVarExtract (.object members) key' := by
  by_cases hkey : key' = key
  · subst hkey
    rw [jsonVarExtract_objectAdd_self, hjson.nonNull]
    split
    · exact .inr rfl
    · exact .inl ⟨rfl, hnone, rfl⟩
  · by_cases helem : elementOf (.object members) key = none
    · refine .inr (jsonVarExtract_objectAdd_object (fun elems hget => ?_) hjson hkey)
      rw [jsonVarExtract, helem] at hnone
      simp only [objectGetEx, hget, nonNull] at hnone
      cases hnone
    · refine .inr (jsonVarExtract_objectAdd_ne _ json hkey fun name idx hidx hname => ?_)
      subst hname
      refine helem ?_
      rw [elementOf, arrayIdx_eq_none (not_mem_of_arrayIdx hidx).1]

variable {json' : JsonObject α}

lemma nonNull_eq_some {json : Option (JsonObject α)} (h : nonNull json = some json') :
    json = some json' := by
  rw [nonNull.eq_def] at h
  split at h
  · cases h
  · exact h

lemma arrayGetIdx_eq_some (h : arrayGetIdx elems idx = some json) :
    ¬idx < 0 ∧ idx.toInt.toNat < elems.length := by
  rw [arrayGetIdx] at h
  split at h
  case isTrue => cases h
  case isFalse hneg => exact ⟨hneg, (List.getElem?_eq_some_iff.mp h).1⟩

lemma arrayGetIdx_set_self (h : arrayGetIdx elems idx = some json) (json' : JsonObject α) :
    arrayGetIdx (elems.set idx.toInt.toNat json') idx = some json' := by
  obtain ⟨hneg, hlen⟩ := arrayGetIdx_eq_some h
  rw [arrayGetIdx, if_neg hneg, getElem?_set_self hlen]

lemma arrayGetIdx_set_ne {idx' : Int32} (hneg : ¬idx < 0) (hne : idx' ≠ idx)
    (json' : JsonObject α) :
    arrayGetIdx (elems.set idx.toInt.toNat json') idx' = arrayGetIdx elems idx' := by
  rw [arrayGetIdx, arrayGetIdx]
  split
  case isTrue => rfl
  case isFalse hneg' =>
    rw [getElem?_set_ne]
    intro heq
    rw [Int32.lt_iff_toInt_lt, Int32.toInt_zero] at hneg hneg'
    exact hne (Int32.toInt_inj.mp (by omega))

lemma elementOf_replace_cases (hidx : arrayIdx key = some (name, idx))
    (hget : objectGetEx (.object members) name = some (.array elems))
    (hjson : arrayGetIdx elems idx = some json) (json' : JsonObject α) (key' : Key) :
    (stepsOf key' = stepsOf key ∧ elementOf (.object members) key' = some (name, elems, idx) ∧
        elementOf (objectAdd (.object members) name (.array (elems.set idx.toInt.toNat json')))
          key' = some (name, elems.set idx.toInt.toNat json', idx)) ∨
      jsonVarExtract (objectAdd (.object members) name (.array (elems.set idx.toInt.toNat json')))
        key' = jsonVarExtract (.object members) key' ∨
      key' = name := by
  cases hidx' : arrayIdx key' with
  | none =>
    by_cases hkey : key' = name
    · exact .inr (.inr hkey)
    · refine .inr (.inl (jsonVarExtract_objectAdd_ne _ _ hkey fun name' idx' h' => ?_))
      rw [hidx'] at h'
      cases h'
  | some p' =>
    obtain ⟨name', idx'⟩ := p'
    by_cases hnames : name' = name
    · subst hnames
      have hold : elementOf (.object members) key' = some (name', elems, idx') :=
        elementOf_eq_some.mpr ⟨hidx', hget⟩
      have hnew : elementOf (objectAdd (.object members) name'
          (.array (elems.set idx.toInt.toNat json'))) key' =
            some (name', elems.set idx.toInt.toNat json', idx') :=
        elementOf_eq_some.mpr ⟨hidx', objectGetEx_objectAdd⟩
      by_cases hidxs : idx' = idx
      · subst hidxs
        exact .inl ⟨by rw [stepsOf_of_some hidx', stepsOf_of_some hidx], hold, hnew⟩
      · refine .inr (.inl ?_)
        rw [jsonVarExtract, jsonVarExtract, hold, hnew]
        dsimp only
        rw [arrayGetIdx_set_ne (arrayGetIdx_eq_some hjson).1 hidxs]
    · refine .inr (.inl (jsonVarExtract_objectAdd_ne _ _ ?_ fun name'' idx'' h'' => ?_))
      · rintro rfl
        exact (not_mem_of_arrayIdx hidx).1 (not_mem_of_arrayIdx hidx').2
      · rw [hidx'] at h''
        cases h''
        exact hnames

lemma jsonVarExtract_jsonVarReplace (h : jsonVarExtract root key = some json)
    (hjson' : IsObject json') :
    jsonVarExtract (jsonVarReplace root key json') key = some json' := by
  obtain ⟨members, rfl⟩ := isObject_of_extract h
  cases helem : elementOf (.object members) key with
  | none =>
    rw [jsonVarReplace, helem]
    simp [jsonVarExtract_objectAdd_self, helem, hjson'.nonNull]
  | some p =>
    have hidx := (elementOf_eq_some.mp helem).1
    rw [jsonVarExtract, helem] at h
    rw [jsonVarReplace, helem, jsonVarExtract,
      elementOf_eq_some.mpr ⟨hidx, objectGetEx_objectAdd⟩]
    dsimp only
    rw [arrayGetIdx_set_self (nonNull_eq_some h), hjson'.nonNull]

/-- The value that has been replaced is found under the same steps, and the array that it may be an
element of under the name. Everything else is as it was. -/
lemma jsonVarReplace_cases (h : jsonVarExtract root key = some json) (hjson : IsObject json)
    (hjson' : IsObject json') (key' : Key) :
    (stepsOf key' = stepsOf key ∧ jsonVarExtract root key' = some json ∧
        jsonVarExtract (jsonVarReplace root key json') key' = some json') ∨
      jsonVarExtract (jsonVarReplace root key json') key' = jsonVarExtract root key' ∨
      (stepsOf key' <+: stepsOf key ∧ (∃ elems, jsonVarExtract root key' = some (.array elems)) ∧
        ∃ elems, jsonVarExtract (jsonVarReplace root key json') key' = some (.array elems)) := by
  have hfound := jsonVarExtract_jsonVarReplace h hjson'
  obtain ⟨members, rfl⟩ := isObject_of_extract h
  cases helem : elementOf (.object members) key with
  | none =>
    rw [jsonVarReplace, helem] at hfound ⊢
    by_cases hkey : key' = key
    · subst hkey
      exact .inl ⟨rfl, h, hfound⟩
    · refine .inr (.inl (jsonVarExtract_objectAdd_object (fun elems hget => ?_) hjson' hkey))
      rw [jsonVarExtract, helem] at h
      have hmember : members key = some json := nonNull_eq_some h
      rw [hmember] at hget
      exact hjson.ne_array elems (Option.some.inj hget)
  | some p =>
    obtain ⟨name, elems, idx⟩ := p
    obtain ⟨hidx, hget⟩ := elementOf_eq_some.mp helem
    rw [jsonVarExtract, helem] at h
    have hjsonAt := nonNull_eq_some h
    rw [jsonVarReplace, helem]
    obtain ⟨hsteps, hold, hnew⟩ | hsame | rfl :=
      elementOf_replace_cases hidx hget hjsonAt json' key'
    · refine .inl ⟨hsteps, ?_, ?_⟩
      · rw [jsonVarExtract, hold]
        exact h
      · rw [jsonVarExtract, hnew]
        dsimp only
        rw [arrayGetIdx_set_self hjsonAt, hjson'.nonNull]
    · exact .inr (.inl hsame)
    · have hidx' := arrayIdx_eq_none (not_mem_of_arrayIdx hidx).1
      refine .inr (.inr ⟨?_, ⟨elems, ?_⟩, ⟨elems.set idx.toInt.toNat json', ?_⟩⟩)
      · rw [stepsOf_of_none hidx', stepsOf_of_some hidx]
        exact ⟨[.index idx], rfl⟩
      · simp only [jsonVarExtract, elementOf, hidx', hget, nonNull]
      · simp only [jsonVarExtract, elementOf, hidx', objectGetEx_objectAdd, nonNull]

/-! ## Whole paths -/

variable {names : List Key}

lemma withParent_cons {act : JsonObject α → RsRetVal × JsonObject α}
    (h : withParent act (name :: names) root = (.ok, root')) :
    (∃ json json', jsonVarExtract root name = some json ∧
        withParent act names json = (.ok, json') ∧ root' = jsonVarReplace root name json') ∨
      ∃ members json', root = .object members ∧ jsonVarExtract root name = none ∧
        withParent act names (.object fun _ => none) = (.ok, json') ∧
        root' = objectAdd root name json' := by
  rw [withParent.eq_def] at h
  dsimp only at h
  split at h
  case h_1 json hjson =>
    obtain ⟨hok, hroot⟩ := Prod.mk.inj h
    exact .inl ⟨json, _, hjson, Prod.ext hok rfl, hroot.symm⟩
  case h_2 hnone =>
    split at h
    case h_1 members =>
      obtain ⟨hok, hroot⟩ := Prod.mk.inj h
      exact .inr ⟨members, _, rfl, hnone, Prod.ext hok rfl, hroot.symm⟩
    case h_2 => cases h

variable {leaf : Key}

lemma setLeaf_ok {parent parent' : JsonObject α} (h : setLeaf leaf json parent = (.ok, parent')) :
    ∃ members, parent = .object members ∧ parent' = objectAdd parent leaf json := by
  cases parent with
  | object members =>
    cases h
    exact ⟨members, rfl, rfl⟩
  | _ => cases h

lemma withParent_isObject (h : withParent (setLeaf leaf json) names root = (.ok, root')) :
    IsObject root ∧ IsObject root' := by
  cases names with
  | nil =>
    obtain ⟨members, rfl, rfl⟩ := setLeaf_ok h
    exact ⟨⟨members, rfl⟩, isObject_objectAdd ⟨members, rfl⟩ _ _⟩
  | cons name names =>
    obtain ⟨json, json', hjson, -, rfl⟩ | ⟨members, json', rfl, -, -, rfl⟩ := withParent_cons h
    · have hroot := isObject_of_extract hjson
      exact ⟨hroot, isObject_jsonVarReplace hroot _ _⟩
    · exact ⟨⟨members, rfl⟩, isObject_objectAdd ⟨members, rfl⟩ _ _⟩

lemma Apart.of_append {p q s : List Step} (h : Apart (s ++ p) (s ++ q)) : Apart p q :=
  ⟨fun hpq => h.1 ((prefix_append_right_inj s).mpr hpq),
    fun hqp => h.2 ((prefix_append_right_inj s).mpr hqp)⟩

lemma Apart.ne_nil {p : List Step} (h : Apart p (names.flatMap stepsOf)) : names ≠ [] := by
  rintro rfl
  exact h.2 nil_prefix

lemma lookup_eq_none (h : ∀ key, objectGetEx root key = none) (hne : names ≠ []) :
    lookup root names = none := by
  cases names with
  | nil => exact absurd rfl hne
  | cons name names => rw [lookup, jsonVarExtract_eq_none h, Option.bind_none]

lemma lookup_of_apart (h : withParent (setLeaf leaf json) names root = (.ok, root'))
    {path : List Key} (hapart : Apart ((names ++ [leaf]).flatMap stepsOf) (path.flatMap stepsOf)) :
    lookup root' path = lookup root path := by
  induction names generalizing root root' path with
  | nil =>
    obtain ⟨members, rfl, rfl⟩ := setLeaf_ok h
    cases path with
    | nil => exact absurd rfl hapart.ne_nil
    | cons key path =>
      have hsteps : ¬stepsOf leaf <+: stepsOf key := fun hpre => hapart.1 (by
        simpa using hpre.trans (prefix_append _ _))
      have hsame : jsonVarExtract (objectAdd (.object members) leaf json) key =
          jsonVarExtract (.object members) key := by
        refine jsonVarExtract_objectAdd_ne _ json ?_ fun name idx hidx hname => hsteps ?_
        · rintro rfl
          exact hsteps (prefix_refl _)
        · subst hname
          rw [stepsOf_of_some hidx, stepsOf_of_none (arrayIdx_eq_none (not_mem_of_arrayIdx hidx).1)]
          exact ⟨[.index idx], rfl⟩
      rw [lookup, lookup, hsame]
  | cons name names ih =>
    cases path with
    | nil => exact absurd rfl hapart.ne_nil
    | cons key path =>
      rw [cons_append, flatMap_cons, flatMap_cons] at hapart
      rw [lookup, lookup]
      obtain ⟨json₁, json₂, hjson, hrun, rfl⟩ | ⟨members, json₂, rfl, hnone, hrun, rfl⟩ :=
        withParent_cons h
      · obtain ⟨hobj₁, hobj₂⟩ := withParent_isObject hrun
        obtain ⟨hsteps, hold, hnew⟩ | hsame | ⟨hpre, ⟨l, hold⟩, ⟨l', hnew⟩⟩ :=
          jsonVarReplace_cases hjson hobj₁ hobj₂ key
        · rw [hold, hnew]
          rw [hsteps] at hapart
          exact ih hrun hapart.of_append
        · rw [hsame]
        · have hne : path ≠ [] := by
            rintro rfl
            rw [flatMap_nil, append_nil] at hapart
            exact hapart.2 (hpre.trans (prefix_append _ _))
          rw [hold, hnew]
          exact (lookup_eq_none (fun _ => rfl) hne).trans (lookup_eq_none (fun _ => rfl) hne).symm
      · obtain ⟨-, hobj₂⟩ := withParent_isObject hrun
        obtain ⟨hsteps, hold, hnew⟩ | hsame := objectAdd_cases hnone hobj₂ key
        · rw [hsteps] at hapart
          rw [hold, hnew]
          have hne := hapart.of_append.ne_nil
          exact (ih hrun hapart.of_append).trans (lookup_eq_none (fun _ => rfl) hne)
        · rw [hsame]

/-- Nothing that is added on the way to a variable stands under an index into an array: neither the
first container that is missing nor the variable, unless the element has that value already. -/
def Reached (leaf : Key) (json : JsonObject α) : List Key → JsonObject α → Prop
  | [], root => elementOf root leaf = none ∨ jsonVarExtract root leaf = some json
  | name :: names, root =>
    match jsonVarExtract root name with
    | some json' => Reached leaf json names json'
    | none => elementOf root name = none

lemma elementOf_empty (key : Key) :
    elementOf (.object fun _ => none : JsonObject α) key = none := by
  rw [elementOf]
  split <;> rfl

lemma reached_empty (leaf : Key) (json : JsonObject α) (names : List Key) :
    Reached leaf json names (.object fun _ => none) := by
  cases names with
  | nil => exact .inl (elementOf_empty leaf)
  | cons name names =>
    rw [Reached, jsonVarExtract_eq_none fun _ => rfl]
    exact elementOf_empty name

lemma lookup_self_iff (hjson : json ≠ .null)
    (h : withParent (setLeaf leaf json) names root = (.ok, root')) :
    lookup root' (names ++ [leaf]) = some json ↔ Reached leaf json names root := by
  induction names generalizing root root' with
  | nil =>
    obtain ⟨members, rfl, rfl⟩ := setLeaf_ok h
    have hnonNull : nonNull (some json) = some json := by
      cases json with
      | null => exact absurd rfl hjson
      | _ => rfl
    rw [nil_append, lookup, jsonVarExtract_objectAdd_self, hnonNull, Reached]
    cases helem : elementOf (.object members) leaf with
    | none => simp [lookup]
    | some p =>
      simp [Option.isSome_some, lookup, Option.bind_fun_some]
  | cons name names ih =>
    rw [cons_append, lookup, Reached]
    obtain ⟨json₁, json₂, hjson₁, hrun, rfl⟩ | ⟨members, json₂, rfl, hnone, hrun, rfl⟩ :=
      withParent_cons h
    · obtain ⟨-, hobj₂⟩ := withParent_isObject hrun
      rw [jsonVarExtract_jsonVarReplace hjson₁ hobj₂, hjson₁]
      exact ih hrun
    · obtain ⟨-, hobj₂⟩ := withParent_isObject hrun
      rw [jsonVarExtract_objectAdd_self, hobj₂.nonNull, hnone]
      cases helem : elementOf (.object members) name with
      | none => simpa using (ih hrun).mpr (reached_empty leaf json names)
      | some p => simp

end Rsyslog.Json
