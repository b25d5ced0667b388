import Mathlib.Data.List.GetD
import Rsyslog.Json.Tree

/-!
# Setting and finding JSON variables by name

`jsonFind` and `msgAddJSON` of `msg.c`. The name of a variable starts with `!` (the variables of the
message) or `.` (local variables), and `!` separates its components. The functions walk through it
with pointers, which are positions here.
-/

namespace Rsyslog.Json

open List

variable {α : Type*}

/-! ## The code -/

def octetAt (name : Bytes) (i : ℕ) : UInt8 := name.getD i 0

def leafLoop (name : Bytes) : ℕ → ℕ
  | 0 => 0
  | i + 1 => if octetAt name (i + 1) = 33 then i + 1 else leafLoop name i

def jsonPathGetLeaf (name : Bytes) : ℕ :=
  let i := leafLoop name name.length
  if octetAt name i = 33 ∨ octetAt name i = 46 ∨ octetAt name i = 47 then i + 1 else i

/-- The component that `jsonPathFindNext` reads at `i`, and the position behind it. -/
def nextName (name : Bytes) (leaf i : ℕ) : Key × ℕ :=
  let p := if octetAt name i = 33 ∨ i = 0 ∧ (octetAt name i = 46 ∨ octetAt name i = 47) then i + 1
    else i
  let namebuf := (((name.take leaf).drop p).takeWhile (· ≠ 33)).take 1023
  (namebuf, p + namebuf.length)

/-- The components that the loop of `jsonPathFindParent` goes through, at most `fuel` of them. -/
def namesLoop (name : Bytes) (leaf : ℕ) : ℕ → ℕ → List Key
  | 0, _ => []
  | fuel + 1, i =>
    if i < leaf - 1 then
      (nextName name leaf i).1 :: namesLoop name leaf fuel (nextName name leaf i).2
    else []

def parentNames (name : Bytes) : List Key :=
  (namesLoop name (jsonPathGetLeaf name) name.length 0).filter (· ≠ [])

def leafName (name : Bytes) : Key := name.drop (jsonPathGetLeaf name)

/-- The JSON variables of a message; a tree that is NULL is `none`. -/
structure MsgVars (α : Type*) where
  json : Option (JsonObject α)
  localvars : Option (JsonObject α)

def MsgVars.root (vars : MsgVars α) (c : UInt8) : Option (JsonObject α) :=
  if c = 33 then vars.json else if c = 46 then vars.localvars else none

def MsgVars.setRoot (vars : MsgVars α) (c : UInt8) (root : JsonObject α) : MsgVars α :=
  if c = 33 then { vars with json := some root }
  else if c = 46 then { vars with localvars := some root }
  else vars

def jsonMerge : JsonObject α → JsonObject α → JsonObject α
  | .object existing, .object json => .object fun key => (json key).or (existing key)
  | existing, _ => existing

def jsonFind (vars : MsgVars α) (name : Bytes) : Option (JsonObject α) :=
  (vars.root (octetAt name 0)).bind fun root =>
    if name = [33] ∨ name = [46] then some root
    else (jsonPathFindParent (parentNames name) root).bind fun parent =>
      jsonVarExtract parent (leafName name)

/-- `msgAddJSON`. What is created on the way to a variable has no members, so that `leafnode` can be
looked up beforehand. -/
def msgAddJSON (vars : MsgVars α) (name : Bytes) (json : JsonObject α) (forceReset : Bool) :
    RsRetVal × MsgVars α :=
  let c := octetAt name 0
  if octetAt name 1 = 0 then
    (.ok, vars.setRoot c (match vars.root c with
      | none => json
      | some root => jsonMerge root json))
  else
    let root := (vars.root c).getD (.object fun _ => none)
    let set := (withParent (setLeaf (leafName name) json) (parentNames name) root).map id
      (vars.setRoot c)
    let leafnode := (jsonPathFindParent (parentNames name) root).bind fun parent =>
      jsonVarExtract parent (leafName name)
    match forceReset, leafnode, json with
    | false, some _, .object _ => (.ok, vars.setRoot c (jsonMerge root json))
    | false, some (.object _), _ => (.invldSetop, vars)
    | _, _, _ => set

/-! ## Names -/

structure VarPath where
  /-- The first character, `!` or `.` -/
  indicator : UInt8
  comps : List Key
  indicator_eq : indicator = 33 ∨ indicator = 46
  comps_ne : comps ≠ []
  /-- Only `!` or `.` stands for the whole tree. -/
  comps_ne_root : comps ≠ [[]]
  clean : ∀ c ∈ comps, 33 ∉ c ∧ 0 ∉ c
  /-- `MAX_VARIABLE_NAME_LEN` -/
  short : ∀ c ∈ comps, c.length < 1024

def VarPath.name (p : VarPath) : Bytes := p.indicator :: [33].intercalate p.comps

/-- The steps from the root to the variable. An empty component in front of the last one has
none. -/
def VarPath.steps (p : VarPath) : List Step :=
  (p.comps.dropLast.filter (· ≠ []) ++ [p.comps.getLast p.comps_ne]).flatMap stepsOf

/-- The variables are in different trees, or neither name is a prefix of the other. -/
def VarPath.Apart (p q : VarPath) : Prop :=
  p.indicator ≠ q.indicator ∨ Json.Apart p.steps q.steps

def separated (comps : List Key) : Bytes := comps.flatMap (· ++ [33])

lemma intercalate_concat (init : List Key) (last : Key) :
    [33].intercalate (init ++ [last]) = separated init ++ last := by
  induction init with
  | nil => simp [List.intercalate, separated]
  | cons c init ih =>
    cases init with
    | nil => simp [List.intercalate, separated]
    | cons c' init =>
      rw [cons_append, cons_append, intercalate_cons_cons, ← cons_append, ih]
      simp [separated]

def VarPath.front (p : VarPath) : Bytes := p.indicator :: separated p.comps.dropLast

def VarPath.last (p : VarPath) : Key := p.comps.getLast p.comps_ne

variable (p : VarPath)

lemma VarPath.name_eq : p.name = p.front ++ p.last := by
  rw [name, front, cons_append, last, ← intercalate_concat, dropLast_append_getLast]

lemma VarPath.last_mem : p.last ∈ p.comps := getLast_mem p.comps_ne

lemma octetAt_append_right (front last : Bytes) (i : ℕ) :
    octetAt (front ++ last) (front.length + i) = octetAt last i := by
  rw [octetAt, getD_append_right _ _ _ _ (Nat.le_add_right _ _), Nat.add_sub_cancel_left]
  rfl

lemma octetAt_ne {l : Bytes} {c : UInt8} (hc : c ≠ 0) (h : c ∉ l) (i : ℕ) : octetAt l i ≠ c := by
  rw [octetAt]
  rcases Nat.lt_or_ge i l.length with hlt | hge
  · rw [getD_eq_getElem _ _ hlt]
    exact fun heq => h (heq ▸ getElem_mem hlt)
  · rw [getD_eq_default _ _ hge]
    exact hc.symm

lemma leafLoop_eq {name : Bytes} {k n : ℕ} (hk : k ≤ n) (h : k = 0 ∨ octetAt name k = 33)
    (hno : ∀ i, k < i → octetAt name i ≠ 33) : leafLoop name n = k := by
  induction n with
  | zero => exact (Nat.le_zero.mp hk).symm
  | succ n ih =>
    rw [leafLoop]
    rcases Nat.lt_or_ge k (n + 1) with hlt | hge
    · rw [if_neg (hno _ hlt), ih (by omega)]
    · have heq : k = n + 1 := by omega
      subst heq
      rw [if_pos (h.resolve_left (Nat.succ_ne_zero n))]

lemma VarPath.front_eq : ∃ pre s, p.front = pre ++ [s] ∧ (pre = [] ∧ s = p.indicator ∨ s = 33) := by
  rcases eq_nil_or_concat p.comps.dropLast with hnil | ⟨init, c, hinit⟩
  · exact ⟨[], p.indicator, by rw [front, hnil]; rfl, .inl ⟨rfl, rfl⟩⟩
  · refine ⟨p.indicator :: (separated init ++ c), 33, ?_, .inr rfl⟩
    rw [front, hinit]
    simp [separated]

lemma octetAt_concat (pre : Bytes) (s : UInt8) (l : Bytes) :
    octetAt (pre ++ s :: l) pre.length = s :=
  octetAt_append_right pre (s :: l) 0

lemma VarPath.jsonPathGetLeaf_name : jsonPathGetLeaf p.name = p.front.length := by
  obtain ⟨pre, s, hfront, hs⟩ := p.front_eq
  have hname : p.name = pre ++ s :: p.last := by
    rw [name_eq, hfront, append_assoc, singleton_append]
  have hat : octetAt p.name pre.length = s := by rw [hname, octetAt_concat]
  have hloop : leafLoop p.name p.name.length = pre.length := by
    refine leafLoop_eq ?_ ?_ fun i hi => ?_
    · rw [hname, length_append]
      omega
    · rcases hs with ⟨rfl, -⟩ | rfl
      · exact .inl rfl
      · exact .inr hat
    · obtain ⟨j, rfl⟩ := Nat.exists_eq_add_of_lt hi
      rw [hname, Nat.add_assoc, octetAt_append_right]
      exact octetAt_ne (by decide) (p.clean _ p.last_mem).1 j
  have hsep : s = 33 ∨ s = 46 ∨ s = 47 := by
    rcases hs with ⟨-, rfl⟩ | rfl
    · exact p.indicator_eq.imp_right Or.inl
    · exact .inl rfl
  rw [jsonPathGetLeaf, hloop, hat, if_pos hsep, hfront, length_append, length_singleton]

lemma VarPath.leafName_name : leafName p.name = p.last := by
  rw [leafName, jsonPathGetLeaf_name, name_eq, drop_left]

lemma takeWhile_ne_sep {c : Key} (h : 33 ∉ c) (l : Bytes) :
    (c ++ 33 :: l).takeWhile (· ≠ 33) = c := by
  have hc : ∀ x ∈ c, decide (x ≠ 33) = true := fun x hx =>
    decide_eq_true fun heq => h (heq ▸ hx)
  rw [takeWhile_append_of_pos hc, takeWhile_cons_of_neg (by decide), append_nil]

lemma nextName_eq {pre : Bytes} {s : UInt8} {c : Key} (rest last : Bytes)
    (hs : s = 33 ∨ pre = [] ∧ s = 46) (hc : 33 ∉ c) (hlen : c.length < 1024) :
    nextName (pre ++ s :: (c ++ 33 :: rest) ++ last) (pre ++ s :: (c ++ 33 :: rest)).length
      pre.length = (c, (pre ++ s :: c).length) := by
  have hat : octetAt (pre ++ s :: (c ++ 33 :: rest) ++ last) pre.length = s := by
    rw [append_assoc, cons_append, octetAt_concat]
  have hsep : s = 33 ∨ pre.length = 0 ∧ (s = 46 ∨ s = 47) :=
    hs.imp_right fun h => ⟨length_eq_zero_iff.mpr h.1, .inl h.2⟩
  have hdrop : (pre ++ s :: (c ++ 33 :: rest)).drop (pre.length + 1) = c ++ 33 :: rest := by
    simp
  rw [nextName, hat, if_pos hsep, take_left, hdrop, takeWhile_ne_sep hc,
    take_of_length_le (by omega), length_append, length_cons]
  rw [Nat.add_assoc, Nat.add_comm 1]

lemma namesLoop_eq {front : Bytes} (pre : Bytes) {s : UInt8} {comps : List Key} {fuel : ℕ}
    (hfront : front = pre ++ s :: separated comps) (hs : s = 33 ∨ pre = [] ∧ s = 46)
    (hcomps : ∀ c ∈ comps, 33 ∉ c ∧ c.length < 1024) (hfuel : comps.length ≤ fuel) (last : Bytes) :
    namesLoop (front ++ last) front.length fuel pre.length = comps := by
  induction comps generalizing pre s fuel with
  | nil =>
    cases fuel with
    | zero => rfl
    | succ fuel =>
      rw [namesLoop]
      rw [hfront]
      simp [separated]
  | cons c comps ih =>
    obtain ⟨⟨hc, hlen⟩, hcs⟩ := forall_mem_cons.mp hcomps
    have hsep : separated (c :: comps) = c ++ 33 :: separated comps := by simp [separated]
    rw [hsep] at hfront
    cases fuel with
    | zero => exact absurd hfuel (Nat.not_succ_le_zero _)
    | succ fuel =>
      have hnext := nextName_eq (separated comps) last hs hc hlen
      rw [← hfront] at hnext
      have hmore : pre.length < front.length - 1 := by
        rw [hfront, length_append, length_cons, length_append, length_cons]
        omega
      have hrest : front = (pre ++ s :: c) ++ 33 :: separated comps := by
        rw [hfront, append_assoc, cons_append]
      rw [namesLoop, if_pos hmore, hnext]
      exact congrArg (c :: ·) (ih _ hrest (.inl rfl) hcs (Nat.le_of_succ_le_succ hfuel))

lemma length_le_separated (comps : List Key) : comps.length ≤ (separated comps).length := by
  induction comps with
  | nil => exact Nat.le_refl 0
  | cons c comps ih =>
    have hsep : separated (c :: comps) = c ++ 33 :: separated comps := by simp [separated]
    rw [hsep, length_append, length_cons, length_cons]
    omega

lemma VarPath.parentNames_name : parentNames p.name = p.comps.dropLast.filter (· ≠ []) := by
  have hs : p.indicator = 33 ∨ ([] : Bytes) = [] ∧ p.indicator = 46 :=
    p.indicator_eq.imp_right fun h => ⟨rfl, h⟩
  have hcomps : ∀ c ∈ p.comps.dropLast, 33 ∉ c ∧ c.length < 1024 := fun c hc =>
    have hmem := (dropLast_sublist _).subset hc
    ⟨(p.clean c hmem).1, p.short c hmem⟩
  have hfuel : p.comps.dropLast.length ≤ p.name.length := by
    have := length_le_separated p.comps.dropLast
    rw [name_eq, length_append, front, length_cons]
    omega
  rw [parentNames, jsonPathGetLeaf_name]
  rw [name_eq] at hfuel ⊢
  exact congrArg _ (namesLoop_eq [] rfl hs hcomps hfuel p.last)

def VarPath.names (p : VarPath) : List Key := p.comps.dropLast.filter (· ≠ []) ++ [p.last]

lemma VarPath.tail_ne_nil : separated p.comps.dropLast ++ p.last ≠ [] := by
  intro hnil
  obtain ⟨hsep, hlast⟩ := append_eq_nil_iff.mp hnil
  have hinit : p.comps.dropLast = [] := by
    have hlen := length_le_separated p.comps.dropLast
    rw [hsep] at hlen
    exact length_eq_zero_iff.mp (Nat.le_zero.mp hlen)
  refine p.comps_ne_root ?_
  rw [← dropLast_append_getLast p.comps_ne, hinit, show p.comps.getLast _ = [] from hlast]
  rfl

lemma VarPath.tail_no_nul : 0 ∉ separated p.comps.dropLast ++ p.last := by
  intro hmem
  rcases mem_append.mp hmem with hmem | hmem
  · obtain ⟨c, hc, hzero⟩ := mem_flatMap.mp hmem
    rcases mem_append.mp hzero with hzero | hzero
    · exact (p.clean c ((dropLast_sublist _).subset hc)).2 hzero
    · exact absurd (mem_singleton.mp hzero) (by decide)
  · exact (p.clean _ p.last_mem).2 hmem

lemma VarPath.octetAt_name : octetAt p.name 0 = p.indicator ∧ octetAt p.name 1 ≠ 0 := by
  rw [name_eq, front, cons_append]
  refine ⟨rfl, ?_⟩
  cases htail : separated p.comps.dropLast ++ p.last with
  | nil => exact absurd htail p.tail_ne_nil
  | cons c tail =>
    intro hzero
    refine p.tail_no_nul ?_
    rw [htail]
    exact hzero ▸ mem_cons_self

/-! ## Setting and finding -/

lemma lookup_concat (root : JsonObject α) (names : List Key) (leaf : Key) :
    lookup root (names ++ [leaf]) =
      (jsonPathFindParent names root).bind fun parent => jsonVarExtract parent leaf := by
  induction names generalizing root with
  | nil => exact Option.bind_fun_some _
  | cons name names ih =>
    rw [cons_append, jsonPathFindParent, Option.bind_assoc]
    exact congrArg _ (funext fun json => ih json)

variable (vars : MsgVars α)

lemma jsonFind_name (p : VarPath) :
    jsonFind vars p.name = (vars.root p.indicator).bind fun root => lookup root p.names := by
  have hroot : ¬(p.name = [33] ∨ p.name = [46]) := by
    have htail := p.tail_ne_nil
    rw [p.name_eq, VarPath.front, cons_append, cons_eq_cons, cons_eq_cons]
    exact fun h => h.elim (fun h => htail h.2) fun h => htail h.2
  rw [jsonFind, p.octetAt_name.1, p.parentNames_name, p.leafName_name]
  simp only [if_neg hroot, ← lookup_concat, VarPath.names]

lemma MsgVars.root_setRoot_self {c : UInt8} (hc : c = 33 ∨ c = 46) (root : JsonObject α) :
    (vars.setRoot c root).root c = some root := by
  rcases hc with rfl | rfl <;> rfl

lemma MsgVars.root_setRoot_ne {c c' : UInt8} (hc : c' ≠ c) (root : JsonObject α) :
    (vars.setRoot c root).root c' = vars.root c' := by
  rw [setRoot]
  split
  case isTrue h =>
    subst h
    simp only [MsgVars.root, if_neg hc]
  case isFalse =>
    split
    case isTrue h =>
      subst h
      simp only [MsgVars.root, if_neg hc]
    case isFalse => rfl

lemma msgAddJSON_name (p : VarPath) (json : JsonObject α) :
    msgAddJSON vars p.name json true =
      (withParent (setLeaf p.last json) (p.comps.dropLast.filter (· ≠ []))
        ((vars.root p.indicator).getD (.object fun _ => none))).map id
          (vars.setRoot p.indicator) := by
  rw [msgAddJSON, p.octetAt_name.1, if_neg p.octetAt_name.2, p.parentNames_name, p.leafName_name]

/-- The variable is found again exactly if nothing on the way was added under an index into an
array, and other variables are as they were. -/
theorem msgAddJSON_iff (vars : MsgVars α) (p : VarPath) (json : JsonObject α)
    (hjson : json ≠ .null) (hok : (msgAddJSON vars p.name json true).1 = .ok) :
    (jsonFind (msgAddJSON vars p.name json true).2 p.name = some json ↔
        Reached p.last json (p.comps.dropLast.filter (· ≠ []))
          ((vars.root p.indicator).getD (.object fun _ => none))) ∧
      ∀ q : VarPath, p.Apart q →
        jsonFind (msgAddJSON vars p.name json true).2 q.name = jsonFind vars q.name := by
  rw [msgAddJSON_name] at hok ⊢
  rw [Prod.map_fst] at hok
  have hrun := Prod.ext (y := (RsRetVal.ok, _)) hok rfl
  rw [Prod.map_snd]
  refine ⟨?_, fun q hapart => ?_⟩
  · rw [jsonFind_name, vars.root_setRoot_self p.indicator_eq]
    exact lookup_self_iff hjson hrun
  · rw [jsonFind_name, jsonFind_name]
    by_cases hind : q.indicator = p.indicator
    · have hsteps : Json.Apart (p.names.flatMap stepsOf) (q.names.flatMap stepsOf) :=
        hapart.resolve_left (not_not.mpr hind.symm)
      rw [hind, vars.root_setRoot_self p.indicator_eq, Option.bind_some,
        lookup_of_apart hrun hsteps]
      cases vars.root p.indicator with
      | none => exact lookup_eq_none (fun _ => rfl) hsteps.ne_nil
      | some root => rfl
    · rw [vars.root_setRoot_ne hind]

def aZero : VarPath where
  indicator := 33
  comps := [[97, 91, 48, 93]]
  indicator_eq := .inl rfl
  comps_ne := by decide
  comps_ne_root := by decide
  clean := by decide
  short := by decide

/-- `!b!c` -/
def nested : VarPath where
  indicator := 33
  comps := [[98], [99]]
  indicator_eq := .inl rfl
  comps_ne := by decide
  comps_ne_root := by decide
  clean := by decide
  short := by decide

def arrayVars : MsgVars ℕ :=
  ⟨some (.object fun key => if key = [97] then some (.array [.scalar 0]) else none), none⟩

/-- Beside an array `a` an object is made for a variable, and the elements of `a` stay. -/
theorem msgAddJSON_nested :
    jsonFind (msgAddJSON arrayVars nested.name (.scalar 1) true).2 nested.name = some (.scalar 1) ∧
      jsonFind (msgAddJSON arrayVars nested.name (.scalar 1) true).2 aZero.name =
        some (.scalar 0) := by
  obtain ⟨hfound, hothers⟩ := msgAddJSON_iff arrayVars nested (.scalar 1) nofun rfl
  exact ⟨hfound.mpr rfl, hothers aZero (.inr ⟨by decide, by decide⟩)⟩

/-- With an array `a` the value that has been set is not the one that is found. -/
theorem msgAddJSON_aZero_array :
    (msgAddJSON arrayVars aZero.name (.scalar 1) true).1 = .ok ∧
      jsonFind (msgAddJSON arrayVars aZero.name (.scalar 1) true).2 aZero.name = some (.scalar 0) :=
  ⟨rfl, rfl⟩

end Rsyslog.Json
