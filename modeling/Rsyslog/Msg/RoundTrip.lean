import Rsyslog.Msg.Serialize
import Rsyslog.Obj.RoundTrip

/-!
# Messages that went through a disk queue

What a message is after `MsgSerialize` and `MsgDeserialize` (`readBack`), and exactly which messages
come back the same (`msg_read_back_iff`). What is lost: everything behind the first NUL of a string
that is written as a C string (the raw message among them, although its length is known), the upper
half of `ttGenTime`, the default time zone, and what the text form of a time has no place for.
-/

namespace Rsyslog.Msg

open Lib Rsyslog.Stream Rsyslog.Obj List

variable {E : Env}

/-! ## Optional properties in a fixed order -/

/-- A property that is looked for, what is done with it, and its value if it was written. -/
structure Row (E : Env) where
  name : String
  set : SMsg E → Var → SMsg E
  val : Option PropVal

def present (rows : List (Row E)) : List (Bytes × PropVal) :=
  rows.filterMap fun r => r.val.map (ascii r.name, ·)

def applyRows : SMsg E → Var → List (Row E) → SMsg E × Var
  | m, v, [] => (m, v)
  | m, v, r :: rows =>
    match r.val with
    | none => applyRows m v rows
    | some val =>
      applyRows (r.set m (val.readInto v (ascii r.name)))
        (reinitVar (val.readInto v (ascii r.name))) rows

def lines (ps : List (Bytes × PropVal)) : Bytes :=
  (ps.map fun p => propLine p.1 p.2).flatten

lemma lines_cons (p : Bytes × PropVal) (ps : List (Bytes × PropVal)) :
    lines (p :: ps) = propLine p.1 p.2 ++ lines ps := by
  rfl

lemma pcsName_readInto (v : Var) (name : Bytes) (val : PropVal) :
    (val.readInto v name).pcsName = cstring name := by
  cases val <;> rfl

variable {m : SMsg E}

variable {rows : List (Row E)}

lemma fst_mem_names {p last : Bytes × PropVal} (hp : p ∈ present rows ++ [last]) :
    p.1 ∈ rows.map (fun r => ascii r.name) ++ [last.1] := by
  rcases mem_append.mp hp with hp | hp
  · obtain ⟨r, hr, hval⟩ := mem_filterMap.mp hp
    obtain ⟨val, -, rfl⟩ := Option.map_eq_some_iff.mp hval
    exact mem_append_left _ (mem_map.mpr ⟨r, hr, rfl⟩)
  · rw [mem_singleton.mp hp]
    exact mem_append_right _ (mem_singleton.mpr rfl)

/-- **Reading rows.** With distinct names, every property finds its row, and reading ends with the
last property, which no row is about. -/
theorem decodes_rows {last : Bytes × PropVal} (hread : ∀ p ∈ present rows ++ [last], Readable p)
    (hnames : (rows.map (fun r => ascii r.name) ++ [last.1]).Nodup)
    (hnul : ∀ s ∈ rows.map (fun r => ascii r.name) ++ [last.1], cstring s = s) (m : SMsg E)
    (v : Var) :
    Decodes Strm.at (do
        let v' ← objDeserializeProperty v
        (rows.map fun r => (r.name, r.set)).foldlM ifProp (m, v'))
      (lines (present rows ++ [last]))
      ((applyRows m v rows).1, last.2.readInto (applyRows m v rows).2 last.1) := by
  induction rows generalizing m v with
  | nil =>
    obtain ⟨hname, hval⟩ := hread last (by simp)
    have h := (decodes_property v hname hval).bind (f := fun v' => pure (m, v')) (.pure _)
    refine h.cast ?_
    rfl
  | cons r rows ih =>
    rw [map_cons, cons_append, nodup_cons] at hnames
    rw [map_cons, cons_append, forall_mem_cons] at hnul
    cases hval : r.val with
    | none =>
      -- the property read next belongs to a later row
      have hpres : present (r :: rows) = present rows := by simp [present, hval]
      have happly : applyRows m v (r :: rows) = applyRows m v rows := by simp [applyRows, hval]
      rw [hpres] at hread
      rw [hpres, happly]
      have hrest := ih hread hnames.2 hnul.2 m v
      obtain ⟨p, ps, hps⟩ := exists_cons_of_ne_nil
        (append_ne_nil_of_right_ne_nil (present rows) (cons_ne_nil last []))
      rw [hps] at hread hrest ⊢
      have hmem : p.1 ∈ rows.map (fun r => ascii r.name) ++ [last.1] :=
        fst_mem_names (hps ▸ mem_cons_self)
      have hne : (p.2.readInto v p.1).pcsName ≠ ascii r.name := by
        rw [pcsName_readInto, hnul.2 _ hmem]
        rintro heq
        exact hnames.1 (heq ▸ hmem)
      obtain ⟨hname, hstor⟩ := hread p mem_cons_self
      intro rest off
      have hrun := hrest rest off
      rw [lines_cons, append_assoc, bind_eq_of_ok (decodes_property v hname hstor _ _)] at hrun ⊢
      rw [map_cons, foldlM_cons, ifProp, if_neg hne]
      exact hrun
    | some val =>
      have hpres : present (r :: rows) = (ascii r.name, val) :: present rows := by
        simp [present, hval]
      have happly : applyRows m v (r :: rows) =
          applyRows (r.set m (val.readInto v (ascii r.name)))
            (reinitVar (val.readInto v (ascii r.name))) rows := by
        simp [applyRows, hval]
      rw [hpres, cons_append, forall_mem_cons] at hread
      rw [hpres, happly]
      refine (decodes_property v hread.1.1 hread.1.2).bind ?_
      have hname : (val.readInto v (ascii r.name)).pcsName = ascii r.name := by
        rw [pcsName_readInto, hnul.1]
      rw [map_cons, foldlM_cons, ifProp, if_pos hname, bind_assoc]
      exact ih hread.2 hnames.2 hnul.2 _ _

lemma mapM_SerializeProp {ps : List (String × Option PropVal)}
    (hps : ∀ p ∈ ps, ∀ val, p.2 = some val → val.Storable) :
    ∃ ls, (ps.mapM fun p => SerializeProp (ascii p.1) p.2) = .ok ls ∧
      ls.flatten = lines (ps.filterMap fun p => p.2.map (ascii p.1, ·)) := by
  induction ps with
  | nil => exact ⟨[], rfl, rfl⟩
  | cons p ps ih =>
    obtain ⟨ls, hls, hflat⟩ := ih fun q hq => hps q (mem_cons_of_mem _ hq)
    obtain ⟨name, val⟩ := p
    cases val with
    | none =>
      refine ⟨[] :: ls, ?_, by simpa using hflat⟩
      rw [mapM_cons, hls]
      rfl
    | some val =>
      refine ⟨propLine (ascii name) val :: ls, ?_, ?_⟩
      · rw [mapM_cons, SerializeProp_eq _ (hps _ mem_cons_self val rfl), hls]
        rfl
      · rw [flatten_cons, hflat]
        exact (lines_cons (ascii name, val) _).symm

lemma mapM_SerializeProp_error {ps : List (String × Option PropVal)} {p : String × Option PropVal}
    (hp : p ∈ ps) (herr : ∀ l, SerializeProp (ascii p.1) p.2 ≠ .ok l) (ls : List Bytes) :
    (ps.mapM fun p => SerializeProp (ascii p.1) p.2) ≠ .ok ls := by
  induction ps generalizing ls with
  | nil => cases hp
  | cons q ps ih =>
    intro h
    rw [mapM_cons] at h
    cases hq : SerializeProp (ascii q.1) q.2 with
    | error e => rw [hq] at h; cases h
    | ok l =>
      rcases mem_cons.mp hp with rfl | hp
      · exact herr l hq
      · cases hrest : ps.mapM fun p => SerializeProp (ascii p.1) p.2 with
        | error e => rw [hq, hrest] at h; cases h
        | ok ls' => exact ih hp ls' hrest

/-! ## The rows of a message -/

section

variable (m) (rcvFrom rcvFromIP : Bytes)

/-- The setters with the values that `MsgSerialize` writes for them. -/
def msgRows : List (Row E) :=
  List.zipWith (fun s p => ⟨s.1, s.2, p.2⟩) msgSetters (msgProps m rcvFrom rcvFromIP)

lemma msgProps_eq :
    msgProps m rcvFrom rcvFromIP = (msgRows m rcvFrom rcvFromIP).map (fun r => (r.name, r.val)) ++
      [("offMSG", some (.int m.offMSG))] := rfl

lemma present_msgRows :
    ((msgProps m rcvFrom rcvFromIP).filterMap fun p => p.2.map (ascii p.1, ·)) =
      present (msgRows m rcvFrom rcvFromIP) ++ [(ascii "offMSG", .int m.offMSG)] := by
  rw [msgProps_eq, filterMap_append]
  rfl

def msgNames : List String :=
  ["iProtocolVersion", "iSeverity", "iFacility", "msgFlags", "ttGenTime", "tRcvdAt", "tTIMESTAMP",
    "pszTAG", "pszRawMsg", "pszHOSTNAME", "pszInputName", "pszRcvFrom", "pszRcvFromIP",
    "pszStrucData", "json", "localvars", "pCSAPPNAME", "pCSPROCID", "pCSMSGID", "pszUUID",
    "pszRuleset", "offMSG"]

lemma names_msgRows :
    (msgRows m rcvFrom rcvFromIP).map (fun r => ascii r.name) ++ [ascii "offMSG"] =
      msgNames.map ascii := rfl

end

lemma msgNames_nodup : (msgNames.map ascii).Nodup := by decide

lemma msgNames_plain : ∀ s ∈ msgNames.map ascii, 58 ∉ s ∧ 0 ∉ s := by decide

/-! ## What the setters do -/

/-- The rows take `m` to `m'`, whatever the variable held before. -/
def ReadAs (m : SMsg E) (rows : List (Row E)) (m' : SMsg E) : Prop :=
  ∀ v, (applyRows m v rows).1 = m'

lemma ReadAs.nil (m : SMsg E) : ReadAs m [] m := fun _ => rfl

lemma ReadAs.some {m' : SMsg E} {name : String} {set : SMsg E → Var → SMsg E} {val : PropVal}
    (m₁ : SMsg E) (hset : ∀ v, set m (val.readInto v (ascii name)) = m₁) (h : ReadAs m₁ rows m') :
    ReadAs m (⟨name, set, some val⟩ :: rows) m' := by
  intro v
  rw [← hset v] at h
  exact h _

lemma ReadAs.opt {α : Type} {m' : SMsg E} {name : String} {set : SMsg E → Var → SMsg E}
    {f : α → PropVal} {o : Option α} (upd : Option α → SMsg E) (hnone : upd none = m)
    (hset : ∀ a v, set m ((f a).readInto v (ascii name)) = upd (.some a))
    (h : ReadAs (upd o) rows m') : ReadAs m (⟨name, set, o.map f⟩ :: rows) m' := by
  intro v
  cases o with
  | none =>
    rw [hnone] at h
    exact h v
  | some a =>
    rw [← hset a v] at h
    exact h _

def flagsRead (flags : Int32) : Int32 :=
  if flags &&& NEEDS_DNSRESOL ≠ 0 then flags &&& ~~~NEEDS_DNSRESOL else flags

def timeRead (ttGenTime : Int64) : Int64 := ttGenTime.toInt32.toInt64

def stampRead (ttGenTime : Int64) (t : SyslogTime) : SyslogTime :=
  { t with wday := wdayByte (timeRead ttGenTime), inUTC := 0 }

def readRows (m : SMsg E) (rcvFrom rcvFromIP : Bytes) : SMsg E where
  iProtocolVersion := m.iProtocolVersion
  iSeverity := m.iSeverity
  iFacility := m.iFacility
  msgFlags := flagsRead m.msgFlags
  ttGenTime := timeRead m.ttGenTime
  tRcvdAt := stampRead m.ttGenTime m.tRcvdAt
  tTIMESTAMP := stampRead m.ttGenTime m.tTIMESTAMP
  TAG := cstring m.TAG
  pszRawMsg := m.pszRawMsg.map cstring
  offMSG := -1
  iLenMSG := (m.pszRawMsg.map cstring).elim 0 fun s => s.length
  pszHOSTNAME := m.pszHOSTNAME.map cstring
  pInputName := some (cstring (getInputName m))
  pRcvFrom := some (cstring rcvFrom)
  pfrominet := none
  pRcvFromIP := some (cstring rcvFromIP)
  pszStrucData := m.pszStrucData.map fun s => cstring (cstring s)
  json := m.json.bind fun j => E.json_tokener_parse (cstring (E.json_object_get_string j).1)
  localvars := m.localvars.bind fun j =>
    E.json_tokener_parse (cstring (E.json_object_get_string j).1)
  pCSAPPNAME := m.pCSAPPNAME.map fun s => if cstring s = [] then [45] else cstring s
  pCSPROCID := m.pCSPROCID.map cstring
  pCSMSGID := m.pCSMSGID.map cstring
  pszUUID := m.pszUUID.map fun s => cstring (cstring s)
  pRuleset := m.pRuleset.bind fun s =>
    if E.rulesetKnown (cstring (cstring s)) then some (cstring (cstring s)) else none
  dfltTZ := []
  flowCtlType := .noDelay

def readHead (m : SMsg E) : SMsg E :=
  { (msgBaseConstruct : SMsg E) with
    iProtocolVersion := m.iProtocolVersion
    iSeverity := m.iSeverity
    iFacility := m.iFacility
    msgFlags := m.msgFlags
    ttGenTime := timeRead m.ttGenTime
    tRcvdAt := stampRead m.ttGenTime m.tRcvdAt
    tTIMESTAMP := stampRead m.ttGenTime m.tTIMESTAMP }

lemma applyRows_head (m : SMsg E) (rcvFrom rcvFromIP : Bytes) :
    ∃ v, applyRows msgBaseConstruct Var.construct (msgRows m rcvFrom rcvFromIP) =
      applyRows (readHead m) v ((msgRows m rcvFrom rcvFromIP).drop 7) := by
  have hproto : (if m.iProtocolVersion.toShort.toInt64.toInt32 = 1 then ProtocolVersion.rfc5424
      else .legacy) = m.iProtocolVersion := by
    cases m.iProtocolVersion <;> rfl
  have hhead : readHead m = { (msgBaseConstruct : SMsg E) with
      iProtocolVersion := if m.iProtocolVersion.toShort.toInt64.toInt32 = 1 then .rfc5424
        else .legacy
      iSeverity := m.iSeverity.toInt16.toInt64.toInt16.toUInt16
      iFacility := m.iFacility.toInt16.toInt64.toInt16.toUInt16
      msgFlags := m.msgFlags.toInt64.toInt32
      ttGenTime := timeRead m.ttGenTime
      tRcvdAt := stampRead m.ttGenTime m.tRcvdAt
      tTIMESTAMP := stampRead m.ttGenTime m.tTIMESTAMP } := by
    rw [hproto]
    simp [readHead]
  rw [hhead]
  exact ⟨_, rfl⟩

lemma MsgSetRcvFrom_eq (m : SMsg E) (buf : Bytes) :
    MsgSetRcvFrom m buf = { m with msgFlags := flagsRead m.msgFlags, pRcvFrom := some buf } := by
  unfold MsgSetRcvFrom flagsRead
  split_ifs <;> rfl

lemma MsgSetRawMsg_first (hoff : m.offMSG = -1) (hlen : m.iLenMSG = 0)
    (hraw : m.pszRawMsg = none) (buf : Bytes) :
    MsgSetRawMsg m buf = { m with pszRawMsg := some buf, iLenMSG := buf.length } := by
  have hpos : (buf.length : ℤ) > (-1 : Int32).toInt := by
    have h : (-1 : Int32).toInt = -1 := rfl
    omega
  rw [MsgSetRawMsg, hoff, if_pos hpos, hlen, SMsg.rawMsg, hraw]
  simp

lemma MsgSetRulesetByName_first (h : m.pRuleset = none) (name : Bytes) :
    MsgSetRulesetByName m name = { m with
      pRuleset := if E.rulesetKnown (cstring name) then some (cstring name) else none } := by
  unfold MsgSetRulesetByName
  split_ifs
  · rfl
  · rw [← h]

lemma readAs_tail (m : SMsg E) (rcvFrom rcvFromIP : Bytes) :
    ReadAs (readHead m) ((msgRows m rcvFrom rcvFromIP).drop 7) (readRows m rcvFrom rcvFromIP) := by
  let m₁ : SMsg E := { readHead m with TAG := cstring m.TAG }
  refine .some m₁ (fun _ => rfl) ?_
  let m₂ (o : Option Bytes) : SMsg E := { m₁ with
    pszRawMsg := o.map cstring
    iLenMSG := (o.map cstring).elim 0 fun s => s.length }
  refine .opt m₂ rfl (fun s _ => MsgSetRawMsg_first rfl rfl rfl (cstring s)) ?_
  let m₃ (o : Option Bytes) : SMsg E := { m₂ m.pszRawMsg with pszHOSTNAME := o.map cstring }
  refine .opt m₃ rfl (fun _ _ => rfl) ?_
  let m₄ : SMsg E := { m₃ m.pszHOSTNAME with pInputName := some (cstring (getInputName m)) }
  refine .some m₄ (fun _ => rfl) ?_
  let m₅ : SMsg E := { m₄ with
    msgFlags := flagsRead m.msgFlags
    pRcvFrom := some (cstring rcvFrom) }
  refine .some m₅ (fun _ => MsgSetRcvFrom_eq m₄ _) ?_
  let m₆ : SMsg E := { m₅ with pRcvFromIP := some (cstring rcvFromIP) }
  refine .some m₆ (fun _ => rfl) ?_
  let m₇ (o : Option Bytes) : SMsg E := { m₆ with
    pszStrucData := o.map fun s => cstring (cstring s) }
  refine .opt m₇ rfl (fun _ _ => rfl) ?_
  let m₈ (o : Option E.Json) : SMsg E := { m₇ m.pszStrucData with
    json := o.bind fun j => E.json_tokener_parse (cstring (E.json_object_get_string j).1) }
  refine .opt m₈ rfl (fun _ _ => rfl) ?_
  let m₉ (o : Option E.Json) : SMsg E := { m₈ m.json with
    localvars := o.bind fun j => E.json_tokener_parse (cstring (E.json_object_get_string j).1) }
  refine .opt m₉ rfl (fun _ _ => rfl) ?_
  let n₁ (o : Option Bytes) : SMsg E := { m₉ m.localvars with
    pCSAPPNAME := o.map fun s => if cstring s = [] then [45] else cstring s }
  refine .opt n₁ rfl (fun _ _ => rfl) ?_
  let n₂ (o : Option Bytes) : SMsg E := { n₁ m.pCSAPPNAME with pCSPROCID := o.map cstring }
  refine .opt n₂ rfl (fun _ _ => rfl) ?_
  let n₃ (o : Option Bytes) : SMsg E := { n₂ m.pCSPROCID with pCSMSGID := o.map cstring }
  refine .opt n₃ rfl (fun _ _ => rfl) ?_
  let n₄ (o : Option Bytes) : SMsg E := { n₃ m.pCSMSGID with
    pszUUID := o.map fun s => cstring (cstring s) }
  refine .opt n₄ rfl (fun _ _ => rfl) ?_
  let n₅ (o : Option Bytes) : SMsg E := { n₄ m.pszUUID with
    pRuleset := o.bind fun s =>
      if E.rulesetKnown (cstring (cstring s)) then some (cstring (cstring s)) else none }
  refine .opt n₅ rfl (fun s _ => MsgSetRulesetByName_first rfl (cstring s)) (.nil _)

lemma applyRows_msgRows (m : SMsg E) (rcvFrom rcvFromIP : Bytes) :
    (applyRows msgBaseConstruct Var.construct (msgRows m rcvFrom rcvFromIP)).1 =
      readRows m rcvFrom rcvFromIP := by
  obtain ⟨v, hv⟩ := applyRows_head m rcvFrom rcvFromIP
  rw [hv]
  exact readAs_tail m rcvFrom rcvFromIP v

/-! ## A message as a whole -/

/-- What the types and the setters see to: a length is an `int`, what is set from a C string has no
NUL, and an APPNAME is never empty. -/
structure SMsg.WellFormed (m : SMsg E) : Prop where
  TAG : m.TAG.length < 2 ^ 31
  rawMsg : ∀ s ∈ m.pszRawMsg, s.length < 2 ^ 31
  HOSTNAME : ∀ s ∈ m.pszHOSTNAME, s.length < 2 ^ 31
  inputName : ∀ s ∈ m.pInputName, s.length < 2 ^ 31
  rcvFrom : ∀ s ∈ m.pRcvFrom, s.length < 2 ^ 31
  rcvFromIP : ∀ s ∈ m.pRcvFromIP, s.length < 2 ^ 31
  strucData : ∀ s ∈ m.pszStrucData, 0 ∉ s ∧ s.length < 2 ^ 31
  APPNAME : ∀ s ∈ m.pCSAPPNAME, s ≠ [] ∧ 0 ∉ s ∧ s.length < 2 ^ 31
  PROCID : ∀ s ∈ m.pCSPROCID, s.length < 2 ^ 31
  MSGID : ∀ s ∈ m.pCSMSGID, 0 ∉ s ∧ s.length < 2 ^ 31
  UUID : ∀ s ∈ m.pszUUID, 0 ∉ s ∧ s.length < 2 ^ 31
  ruleset : ∀ s ∈ m.pRuleset, 0 ∉ s ∧ s.length < 2 ^ 31

def msgBytes (m : SMsg E) (rcvFrom rcvFromIP : Bytes) : Bytes :=
  headerLine (ascii "Obj") (ascii "msg") 1 ++
    (lines (present (msgRows m rcvFrom rcvFromIP) ++ [(ascii "offMSG", .int m.offMSG)]) ++
      EndSerialize)

def readBack (m : SMsg E) (rcvFrom rcvFromIP : Bytes) : SMsg E :=
  MsgSetMSGoffs (readRows m rcvFrom rcvFromIP) m.offMSG

lemma length_cstring_lt {s : Bytes} {n : ℕ} (h : s.length < n) : (cstring s).length < n :=
  lt_of_le_of_lt (takeWhile_sublist _).length_le h

variable {o : Option Bytes}

lemma length_getD_lt (h : ∀ s ∈ o, s.length < 2 ^ 31) : (o.getD []).length < 2 ^ 31 := by
  cases o with
  | none => norm_num
  | some s => exact h s rfl

lemma SMsg.WellFormed.resolveDNS (h : m.WellFormed) :
    (∀ s ∈ (Msg.resolveDNS m).pRcvFrom, s.length < 2 ^ 31) ∧
      ∀ s ∈ (Msg.resolveDNS m).pRcvFromIP, s.length < 2 ^ 31 := by
  unfold Msg.resolveDNS
  split
  · split
    · rename_i localName ip _
      rw [MsgSetRcvFrom_eq]
      exact ⟨fun s hs => by cases hs; exact localName.2, fun s hs => by cases hs; exact ip.2⟩
    · exact ⟨h.rcvFrom, h.rcvFromIP⟩
  · exact ⟨h.rcvFrom, h.rcvFromIP⟩

variable {rcvFrom : Bytes}

lemma length_of_getRcvFrom (h : ∀ s ∈ m.pRcvFrom, s.length < 2 ^ 31)
    (hget : getRcvFrom m = some rcvFrom) : rcvFrom.length < 2 ^ 31 := by
  unfold getRcvFrom at hget
  split_ifs at hget
  · cases hget
    norm_num
  · cases hget
    exact length_getD_lt h

section Written

variable (h : m.WellFormed) (hget : getRcvFrom (resolveDNS m) = some rcvFrom)
  (htimes : ∀ t ∈ [m.tRcvdAt, m.tTIMESTAMP], (fmtSyslogTime t).length ≤ 63)

include h hget htimes

lemma storable_msgProps : ∀ p ∈ msgProps m rcvFrom (getRcvFromIP (resolveDNS m)),
    ∀ val, p.2 = some val → val.Storable := by
  have hopt : ∀ (o : Option Bytes) (f : Bytes → PropVal), (∀ s ∈ o, s.length < 2 ^ 31) →
      (∀ s, s.length < 2 ^ 31 → (f s).Storable) → ∀ val, o.map f = some val → val.Storable := by
    intro o f ho hf val hval
    obtain ⟨s, hs, rfl⟩ := Option.map_eq_some_iff.mp hval
    exact hf s (ho s hs)
  have hpsz : ∀ s : Bytes, s.length < 2 ^ 31 → (PropVal.psz s).Storable := fun s hs =>
    length_cstring_lt hs
  have hsome : ∀ v : PropVal, v.Storable → ∀ val, some v = some val → val.Storable := by
    rintro v hv val ⟨⟩
    exact hv
  have hjson : ∀ (o : Option E.Json) val,
      (o.map fun j => PropVal.psz (E.json_object_get_string j).1) = some val → val.Storable := by
    intro o val hval
    obtain ⟨j, -, rfl⟩ := Option.map_eq_some_iff.mp hval
    exact hpsz _ (E.json_object_get_string j).2.2
  simp only [forall_mem_cons, not_mem_nil, false_implies, implies_true, and_true] at htimes
  simp only [msgProps, forall_mem_cons, not_mem_nil, false_implies, implies_true,
    and_true]
  exact ⟨hsome _ trivial, hsome _ trivial, hsome _ trivial, hsome _ trivial, hsome _ trivial,
    hsome _ htimes.1, hsome _ htimes.2, hsome _ (hpsz _ h.TAG), hopt _ _ h.rawMsg hpsz,
    hopt _ _ h.HOSTNAME hpsz, hsome _ (hpsz _ (length_getD_lt h.inputName)),
    hsome _ (hpsz _ (length_of_getRcvFrom h.resolveDNS.1 hget)),
    hsome _ (hpsz _ (length_getD_lt h.resolveDNS.2)),
    hopt _ _ (fun s hs => (h.strucData s hs).2) hpsz, hjson _, hjson _,
    hopt _ _ (fun s hs => (h.APPNAME s hs).2.2) fun _ => id, hopt _ _ h.PROCID fun _ => id,
    hopt _ _ (fun s hs => (h.MSGID s hs).2) fun _ => id,
    hopt _ _ (fun s hs => (h.UUID s hs).2) hpsz, hopt _ _ (fun s hs => (h.ruleset s hs).2) hpsz,
    hsome _ trivial⟩

lemma MsgSerialize_eq :
    MsgSerialize m = some (.ok (msgBytes m rcvFrom (getRcvFromIP (resolveDNS m)))) := by
  obtain ⟨ls, hls, hflat⟩ := mapM_SerializeProp (storable_msgProps h hget htimes)
  rw [present_msgRows] at hflat
  rw [MsgSerialize, hget, Option.map_some, msgBytes, ← hflat]
  rw [hls]
  rfl

/-- **What is read back**, for every message whose times fit. -/
theorem decodes_msg :
    Decodes Strm.at deserializeMsg (msgBytes m rcvFrom (getRcvFromIP (resolveDNS m)))
      (readBack m rcvFrom (getRcvFromIP (resolveDNS m))) := by
  have hstorable := storable_msgProps h hget htimes
  generalize getRcvFromIP (resolveDNS m) = rcvFromIP at hstorable ⊢
  set last : Bytes × PropVal := (ascii "offMSG", .int m.offMSG) with hlast
  have hnames := names_msgRows m rcvFrom rcvFromIP
  have hplain : ∀ s ∈ (msgRows m rcvFrom rcvFromIP).map (fun r => ascii r.name) ++ [last.1],
      58 ∉ s ∧ 0 ∉ s := fun s hs => msgNames_plain s (hnames ▸ hs)
  have hread : ∀ p ∈ present (msgRows m rcvFrom rcvFromIP) ++ [last], Readable p := by
    intro p hp
    obtain ⟨hcolon, hnul⟩ := hplain _ (fst_mem_names hp)
    refine ⟨by rwa [cstring_eq_self hnul], ?_⟩
    rw [← present_msgRows] at hp
    obtain ⟨q, hq, hval⟩ := mem_filterMap.mp hp
    obtain ⟨val, hsome, rfl⟩ := Option.map_eq_some_iff.mp hval
    exact hstorable q hq val hsome
  have hrows := decodes_rows hread (hnames ▸ msgNames_nodup)
    (fun s hs => cstring_eq_self (hplain s hs).2)
    msgBaseConstruct Var.construct
  have hprops : Decodes Strm.at (MsgDeserialize msgBaseConstruct)
      (lines (present (msgRows m rcvFrom rcvFromIP) ++ [last])) (readBack m rcvFrom rcvFromIP) := by
    rw [readBack, ← applyRows_msgRows]
    have hoffs : (varNum (last.2.readInto (applyRows msgBaseConstruct Var.construct
        (msgRows m rcvFrom rcvFromIP)).2 last.1)).toInt32 = m.offMSG := Int32.toInt32_toInt64 _
    have hend := hrows.bind (f := fun r => if r.2.pcsName ≠ ascii "offMSG" then throw .dsPropSeqErr
      else pure (MsgSetMSGoffs r.1 (varNum r.2).toInt32)) (.ite_neg ?_ (.pure _))
    · rw [append_nil, hoffs, bind_assoc] at hend
      exact hend
    · exact not_not_intro rfl
  exact decodes_withMethods (by decide) 1 hprops

end Written

lemma fits_of_MsgSerialize {bytes : Bytes} (hser : MsgSerialize m = some (.ok bytes)) :
    (∃ rcvFrom, getRcvFrom (resolveDNS m) = some rcvFrom) ∧
      ∀ t ∈ [m.tRcvdAt, m.tTIMESTAMP], (fmtSyslogTime t).length ≤ 63 := by
  obtain ⟨rcvFrom, hget, hok⟩ := Option.map_eq_some_iff.mp hser
  refine ⟨⟨rcvFrom, hget⟩, ?_⟩
  intro t ht
  by_contra hlong
  have herr : ∀ name l, SerializeProp name (some (.syslogTime t)) ≠ .ok l := by
    intro name l hl
    rw [SerializeProp, PropVal.text, if_pos (by omega)] at hl
    cases hl
  have hmem : ∃ p ∈ msgProps m rcvFrom (getRcvFromIP (resolveDNS m)),
      p.2 = some (.syslogTime t) := by
    rcases mem_pair.mp ht with rfl | rfl
    · exact ⟨("tRcvdAt", _), by simp [msgProps], rfl⟩
    · exact ⟨("tTIMESTAMP", _), by simp [msgProps], rfl⟩
  obtain ⟨p, hp, hpt⟩ := hmem
  cases hls : (msgProps m rcvFrom (getRcvFromIP (resolveDNS m))).mapM fun p =>
    SerializeProp (ascii p.1) p.2 with
  | error e =>
    rw [hls] at hok
    cases hok
  | ok ls => exact mapM_SerializeProp_error hp (fun l => hpt ▸ herr _ l) ls hls

/-! ## Which messages come back the same -/

structure SameMsg (m m' : SMsg E) : Prop where
  protocolVersion : m'.iProtocolVersion = m.iProtocolVersion
  severity : m'.iSeverity = m.iSeverity
  facility : m'.iFacility = m.iFacility
  flags : m'.msgFlags = m.msgFlags
  ttGenTime : m'.ttGenTime = m.ttGenTime
  rcvdAt : m'.tRcvdAt = m.tRcvdAt
  timestamp : m'.tTIMESTAMP = m.tTIMESTAMP
  TAG : m'.TAG = m.TAG
  rawMsg : m'.rawMsg = m.rawMsg
  MSG : m'.MSG = m.MSG
  HOSTNAME : m'.pszHOSTNAME = m.pszHOSTNAME
  inputName : getInputName m' = getInputName m
  rcvFrom : getRcvFrom m' = getRcvFrom m
  rcvFromIP : getRcvFromIP m' = getRcvFromIP m
  strucData : m'.pszStrucData = m.pszStrucData
  json : m'.json = m.json
  localvars : m'.localvars = m.localvars
  APPNAME : m'.pCSAPPNAME = m.pCSAPPNAME
  PROCID : m'.pCSPROCID = m.pCSPROCID
  MSGID : m'.pCSMSGID = m.pCSMSGID
  UUID : m'.pszUUID = m.pszUUID
  dfltTZ : m'.dfltTZ = m.dfltTZ

/-- The messages that come back the same. No name lookup is pending, the seconds fit an `int`, the
times fit their buffer and have in `wday` and `inUTC` what the variable they are read into happens
to hold, no string has a NUL, the MSG reaches to the end, and there is no default time zone. -/
structure SMsg.Restorable (m : SMsg E) : Prop where
  resolved : m.msgFlags &&& NEEDS_DNSRESOL = 0
  ttGenTime : -2 ^ 31 ≤ m.ttGenTime.toInt ∧ m.ttGenTime.toInt < 2 ^ 31
  times : ∀ t ∈ [m.tRcvdAt, m.tTIMESTAMP], (fmtSyslogTime t).length ≤ 63
  stamps : ∀ t ∈ [m.tRcvdAt, m.tTIMESTAMP], t.wday = wdayByte m.ttGenTime ∧ t.inUTC = 0
  TAG : 0 ∉ m.TAG
  rawMsg : 0 ∉ m.rawMsg
  msgLen : 0 ≤ m.offMSG → m.rawMsg.length ≤ m.offMSG.toInt.toNat + m.iLenMSG.toNat
  HOSTNAME : ∀ s ∈ m.pszHOSTNAME, 0 ∉ s
  inputName : 0 ∉ getInputName m
  rcvFrom : 0 ∉ m.pRcvFrom.getD []
  rcvFromIP : 0 ∉ getRcvFromIP m
  PROCID : ∀ s ∈ m.pCSPROCID, 0 ∉ s
  dfltTZ : m.dfltTZ = []

lemma cstring_eq_self_iff {s : Bytes} : cstring s = s ↔ 0 ∉ s := by
  refine ⟨fun h hmem => ?_, cstring_eq_self⟩
  rw [← h] at hmem
  have := mem_takeWhile_imp hmem
  simp at this

lemma map_cstring_eq_self_iff : o.map cstring = o ↔ ∀ s ∈ o, 0 ∉ s := by
  cases o <;> simp [cstring_eq_self_iff]

lemma timeRead_eq_self_iff {t : Int64} : timeRead t = t ↔ -2 ^ 31 ≤ t.toInt ∧ t.toInt < 2 ^ 31 := by
  rw [timeRead, ← Int64.toInt_inj, Int32.toInt_toInt64, Int64.toInt_toInt32, Int.bmod_def]
  omega

lemma flagsRead_eq_self_iff {flags : Int32} :
    flagsRead flags = flags ↔ flags &&& NEEDS_DNSRESOL = 0 := by
  unfold flagsRead
  split_ifs with h
  · refine ⟨fun heq => ?_, fun h0 => absurd h0 h⟩
    rw [← heq, Int32.and_assoc]
    simp
  · tauto

lemma stampRead_eq_self_iff {ttGenTime : Int64} {t : SyslogTime} :
    stampRead ttGenTime t = t ↔ t.wday = wdayByte (timeRead ttGenTime) ∧ t.inUTC = 0 := by
  cases t
  simp [stampRead, eq_comm]

section ReadBack

variable (rcvFrom) (rcvFromIP : Bytes)

lemma rawMsg_readBack : (readBack m rcvFrom rcvFromIP).rawMsg = cstring m.rawMsg := by
  show (m.pszRawMsg.map cstring).getD [] = cstring (m.pszRawMsg.getD [])
  cases m.pszRawMsg <;> rfl

lemma MSG_readBack (h : 0 ≤ m.offMSG) :
    (readBack m rcvFrom rcvFromIP).MSG = some ((cstring m.rawMsg).drop m.offMSG.toInt.toNat) := by
  have hlen : (cstring m.rawMsg).length - m.offMSG.toInt.toNat ≤
      (readBack m rcvFrom rcvFromIP).iLenMSG.toNat := by
    rw [← rawMsg_readBack rcvFrom rcvFromIP]
    show _ ≤ (if m.offMSG.toInt > (readBack m rcvFrom rcvFromIP).rawMsg.length then (0 : ℤ)
      else (readBack m rcvFrom rcvFromIP).rawMsg.length - m.offMSG.toInt).toNat
    split_ifs <;> omega
  show (if m.offMSG < 0 then none else some (((readBack m rcvFrom rcvFromIP).rawMsg.drop
    m.offMSG.toInt.toNat).take _)) = _
  rw [if_neg (Int32.not_lt.mpr h), rawMsg_readBack, take_of_length_le]
  rwa [length_drop]

lemma MSG_readBack_eq_iff (hraw : 0 ∉ m.rawMsg) :
    (readBack m rcvFrom rcvFromIP).MSG = m.MSG ↔
      (0 ≤ m.offMSG → m.rawMsg.length ≤ m.offMSG.toInt.toNat + m.iLenMSG.toNat) := by
  by_cases h : 0 ≤ m.offMSG
  · rw [MSG_readBack _ _ h, SMsg.MSG, if_neg (Int32.not_lt.mpr h), cstring_eq_self hraw,
      Option.some_inj]
    constructor
    · intro heq _
      have hlen := congrArg List.length heq
      rw [length_take, length_drop] at hlen
      omega
    · intro hle
      rw [take_of_length_le]
      rw [length_drop]
      have := hle h
      omega
  · have hneg : m.offMSG < 0 := Int32.not_le.mp h
    simp only [h, false_implies, iff_true]
    rw [SMsg.MSG, SMsg.MSG, if_pos hneg]
    exact if_pos hneg

lemma getRcvFrom_of_resolved (h : m.msgFlags &&& NEEDS_DNSRESOL = 0) :
    getRcvFrom m = some (m.pRcvFrom.getD []) := by
  rw [getRcvFrom, if_neg (by simp [h]), if_neg (by simp [h])]

lemma getRcvFrom_readBack (h : m.msgFlags &&& NEEDS_DNSRESOL = 0) :
    getRcvFrom (readBack m rcvFrom rcvFromIP) = some (cstring rcvFrom) := by
  refine getRcvFrom_of_resolved (m := readBack m rcvFrom rcvFromIP) ?_
  show flagsRead m.msgFlags &&& _ = 0
  rw [flagsRead_eq_self_iff.mpr h, h]

end ReadBack

lemma bind_parse_json (o : Option E.Json) :
    (o.bind fun j => E.json_tokener_parse (cstring (E.json_object_get_string j).1)) = o := by
  rcases o with _ | j
  · rfl
  · show E.json_tokener_parse _ = _
    rw [cstring_eq_self (E.json_object_get_string j).2.1, E.parse_get_string]

lemma map_cstring_cstring (h : ∀ s ∈ o, 0 ∉ s) : (o.map fun s => cstring (cstring s)) = o := by
  rcases o with _ | s
  · rfl
  · show some (cstring (cstring s)) = _
    rw [cstring_eq_self (h s rfl), cstring_eq_self (h s rfl)]

lemma map_appName (h : m.WellFormed) :
    (m.pCSAPPNAME.map fun s => if cstring s = [] then [45] else cstring s) = m.pCSAPPNAME := by
  cases hname : m.pCSAPPNAME with
  | none => rfl
  | some s =>
    obtain ⟨hne, hnul, -⟩ := h.APPNAME s hname
    rw [Option.map_some, cstring_eq_self hnul, if_neg hne]

lemma SMsg.Restorable.of_sameMsg (hflags : m.msgFlags &&& NEEDS_DNSRESOL = 0)
    (htimes : ∀ t ∈ [m.tRcvdAt, m.tTIMESTAMP], (fmtSyslogTime t).length ≤ 63)
    (hs : SameMsg m (readBack m (m.pRcvFrom.getD []) (getRcvFromIP m))) : m.Restorable := by
  have hgen : timeRead m.ttGenTime = m.ttGenTime := hs.ttGenTime
  -- `wday` is a byte of the number that was read into the union before, which is `ttGenTime`
  have hstamp : ∀ t ∈ [m.tRcvdAt, m.tTIMESTAMP],
      t.wday = wdayByte m.ttGenTime ∧ t.inUTC = 0 := by
    have hrcvd := stampRead_eq_self_iff.mp hs.rcvdAt
    have htime := stampRead_eq_self_iff.mp hs.timestamp
    rw [hgen] at hrcvd htime
    simpa using ⟨hrcvd, htime⟩
  have hraw : 0 ∉ m.rawMsg :=
    cstring_eq_self_iff.mp ((rawMsg_readBack _ _).symm.trans hs.rawMsg)
  have hfrom := (getRcvFrom_readBack (m.pRcvFrom.getD []) (getRcvFromIP m) hflags).symm.trans
    (hs.rcvFrom.trans (getRcvFrom_of_resolved hflags))
  exact {
    resolved := hflags
    ttGenTime := timeRead_eq_self_iff.mp hgen
    times := htimes
    stamps := hstamp
    TAG := cstring_eq_self_iff.mp hs.TAG
    rawMsg := hraw
    msgLen := (MSG_readBack_eq_iff _ _ hraw).mp hs.MSG
    HOSTNAME := map_cstring_eq_self_iff.mp hs.HOSTNAME
    inputName := cstring_eq_self_iff.mp hs.inputName
    rcvFrom := cstring_eq_self_iff.mp (Option.some_inj.mp hfrom)
    rcvFromIP := cstring_eq_self_iff.mp hs.rcvFromIP
    PROCID := map_cstring_eq_self_iff.mp hs.PROCID
    dfltTZ := hs.dfltTZ.symm }

lemma SMsg.Restorable.sameMsg (hr : m.Restorable) (h : m.WellFormed) :
    SameMsg m (readBack m (m.pRcvFrom.getD []) (getRcvFromIP m)) := by
  have hflags := hr.resolved
  have hgen : timeRead m.ttGenTime = m.ttGenTime := timeRead_eq_self_iff.mpr hr.ttGenTime
  have hstamp : ∀ t ∈ [m.tRcvdAt, m.tTIMESTAMP], stampRead m.ttGenTime t = t := by
    intro t ht
    refine stampRead_eq_self_iff.mpr ?_
    rw [hgen]
    exact hr.stamps t ht
  exact {
    protocolVersion := rfl
    severity := rfl
    facility := rfl
    flags := flagsRead_eq_self_iff.mpr hflags
    ttGenTime := hgen
    rcvdAt := hstamp _ (by simp)
    timestamp := hstamp _ (by simp)
    TAG := cstring_eq_self hr.TAG
    rawMsg := (rawMsg_readBack _ _).trans (cstring_eq_self hr.rawMsg)
    MSG := (MSG_readBack_eq_iff _ _ hr.rawMsg).mpr hr.msgLen
    HOSTNAME := map_cstring_eq_self_iff.mpr hr.HOSTNAME
    inputName := cstring_eq_self hr.inputName
    rcvFrom := by
      rw [getRcvFrom_readBack _ _ hflags, getRcvFrom_of_resolved hflags, cstring_eq_self hr.rcvFrom]
    rcvFromIP := cstring_eq_self hr.rcvFromIP
    strucData := map_cstring_cstring fun s hs => (h.strucData s hs).1
    json := bind_parse_json _
    localvars := bind_parse_json _
    APPNAME := map_appName h
    PROCID := map_cstring_eq_self_iff.mpr hr.PROCID
    MSGID := map_cstring_eq_self_iff.mpr fun s hs => (h.MSGID s hs).1
    UUID := map_cstring_cstring fun s hs => (h.UUID s hs).1
    dfltTZ := hr.dfltTZ.symm }

/-- **Messages through a disk queue.** A message is written and read back the same exactly if it is
restorable. -/
theorem msg_read_back_iff (m : SMsg E) (h : m.WellFormed) (rest : Bytes) (off : ℕ) :
    (∃ bytes m', MsgSerialize m = some (.ok bytes) ∧
      deserializeMsg (.at (bytes ++ rest) off) = .ok m' (.at rest (off + bytes.length)) ∧
      SameMsg m m') ↔ m.Restorable := by
  have hresolved : m.msgFlags &&& NEEDS_DNSRESOL = 0 → resolveDNS m = m := fun hflags =>
    if_neg (by simp [hflags])
  constructor
  · rintro ⟨bytes, m', hser, hdes, hsame⟩
    obtain ⟨⟨rcvFrom, hget⟩, htimes⟩ := fits_of_MsgSerialize hser
    rw [MsgSerialize_eq h hget htimes] at hser
    cases hser
    rw [decodes_msg h hget htimes rest off] at hdes
    cases hdes
    -- the flags that are read back have no lookup pending
    have hflags := flagsRead_eq_self_iff.mp hsame.flags
    rw [hresolved hflags, getRcvFrom_of_resolved hflags] at hget
    cases hget
    rw [hresolved hflags] at hsame
    exact .of_sameMsg hflags htimes hsame
  · intro hr
    have hget : getRcvFrom (resolveDNS m) = some (m.pRcvFrom.getD []) := by
      rw [hresolved hr.resolved, getRcvFrom_of_resolved hr.resolved]
    refine ⟨_, _, MsgSerialize_eq h hget hr.times, decodes_msg h hget hr.times rest off, ?_⟩
    rw [hresolved hr.resolved]
    exact hr.sameMsg h

def noon : SyslogTime where
  timeType := 1
  month := 3
  day := 17
  wday := 6
  hour := 12
  minute := 0
  second := 0
  secfracPrecision := 0
  offsetMinute := 0
  offsetHour := 0
  offsetMode := 43
  year := 1973
  secfrac := 0
  inUTC := 0

def noonMsg : SMsg plainEnv :=
  { msgBaseConstruct with
    iSeverity := 5
    iFacility := 1
    ttGenTime := 101217600
    tRcvdAt := noon
    tTIMESTAMP := noon
    TAG := ascii "t:"
    pszRawMsg := some (ascii "<13>t: hi")
    offMSG := 6
    iLenMSG := 3
    pszHOSTNAME := some (ascii "h")
    pInputName := some (ascii "imudp")
    pRcvFrom := some (ascii "h")
    pRcvFromIP := some (ascii "127.0.0.1")
    pCSAPPNAME := some (ascii "t") }

lemma noonMsg_wellFormed : noonMsg.WellFormed := by
  constructor <;> decide

lemma fits_noon : ∀ t ∈ [noon, noon], (fmtSyslogTime t).length ≤ 63 := by
  have hnoon : (fmtSyslogTime noon).length ≤ 63 := by
    refine length_fmtSyslogTime_le ?_
    simp only [forall_mem_cons, not_mem_nil, false_implies, implies_true, and_true]
    decide
  simpa using hnoon

theorem msg_read_back_iff_noonMsg : noonMsg.WellFormed ∧ ∃ bytes m',
    MsgSerialize noonMsg = some (.ok bytes) ∧
      deserializeMsg (.at (bytes ++ []) 0) = .ok m' (.at [] (0 + bytes.length)) ∧
      SameMsg noonMsg m' := by
  have hr : noonMsg.Restorable := {
    resolved := by decide
    ttGenTime := by decide
    times := fits_noon
    stamps := by decide
    TAG := by decide
    rawMsg := by decide
    msgLen := by decide
    HOSTNAME := by decide
    inputName := by decide
    rcvFrom := by decide
    rcvFromIP := by decide
    PROCID := by decide
    dfltTZ := rfl }
  exact ⟨noonMsg_wellFormed, (msg_read_back_iff noonMsg noonMsg_wellFormed [] 0).mpr hr⟩

/-- A message as an input submits it, with a NUL in its text and a default time zone, received in
the year 2100. -/
def nulMsg : SMsg plainEnv :=
  { noonMsg with
    ttGenTime := 4102444800
    TAG := []
    pszRawMsg := some (ascii "<13>a" ++ [0] ++ ascii "b")
    offMSG := -1
    iLenMSG := 7
    dfltTZ := ascii "+02:00" }

/-- The text behind the NUL, the upper half of the time and the default time zone are lost. -/
theorem msg_cut_at_nul : ∃ bytes m', MsgSerialize nulMsg = some (.ok bytes) ∧
    deserializeMsg (.at (bytes ++ []) 0) = .ok m' (.at [] (0 + bytes.length)) ∧
    m'.rawMsg = ascii "<13>a" ∧ m'.ttGenTime = -192522496 ∧ m'.dfltTZ = [] ∧
    ¬SameMsg nulMsg m' := by
  have hwf : nulMsg.WellFormed := by
    constructor <;> decide
  have hget : getRcvFrom (resolveDNS nulMsg) = some (ascii "h") := rfl
  refine ⟨_, _, MsgSerialize_eq hwf hget fits_noon, decodes_msg hwf hget fits_noon [] 0, ?_,
    by decide, rfl, fun hs => ?_⟩
  · decide
  · exact absurd hs.dfltTZ (by decide)

end Rsyslog.Msg
