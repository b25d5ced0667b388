import Rsyslog.Datetime.Format
import Rsyslog.Msg.Serialize

/-!
# The RFC 5424 parser

`parse` of `pmrfc5424.c`: version, timestamp, four fields that end at a space, structured data and
MSG. Return codes are ignored, so a message may end anywhere. All fields go through one work buffer,
which is as long as the text and is modelled by the string in it.

Structured data that is not there is not written to the buffer: what is stored for it is the MSGID,
which is still in the buffer.
-/

namespace Rsyslog.Parser.Rfc5424

open Lib Lib.Step Obj Msg Datetime List Cursor

/-! ## Fields -/

def fieldLoop : Bytes → Bytes → ℤ → EStateM.Result Fault (Cursor UInt8) Bytes
  | pResult, [], lenStr =>
    if 0 < lenStr then .error .outside ⟨[], lenStr⟩ else .ok pResult ⟨[], lenStr⟩
  | pResult, x :: p2parse, lenStr =>
    if 0 < lenStr ∧ x ≠ 32 then fieldLoop (pResult ++ [x]) p2parse (lenStr - 1)
    else .ok pResult ⟨x :: p2parse, lenStr⟩

def parseRFCField : Step UInt8 (Bytes × Bool) := do
  let pResult ← fun c => fieldLoop [] c.rest c.len
  whenNext 32 (pure (pResult, false)) (pure (pResult, true))

/-- The loop over structured data. There may be spaces in it, and a `]` that is escaped. -/
def structuredDataLoop : Bytes → Bytes → ℤ →
    EStateM.Result Fault (Cursor UInt8) (Bytes × Bool)
  | pResult, [], lenStr =>
    if 0 < lenStr then .error .outside ⟨[], lenStr⟩ else .ok (pResult, true) ⟨[], lenStr⟩
  | pResult, [x], lenStr =>
    if 2 ≤ lenStr then .error .outside ⟨[x], lenStr⟩
    else if 0 < lenStr ∧ x = 93 then .ok (pResult ++ [x], false) ⟨[], lenStr - 1⟩
    else .ok (pResult, true) ⟨[x], lenStr⟩
  | pResult, x :: y :: p2parse, lenStr =>
    if lenStr < 2 then
      if 0 < lenStr ∧ x = 93 then .ok (pResult ++ [x], false) ⟨y :: p2parse, lenStr - 1⟩
      else .ok (pResult, true) ⟨x :: y :: p2parse, lenStr⟩
    else if x = 92 ∧ y = 93 then structuredDataLoop (pResult ++ [x, y]) p2parse (lenStr - 2)
    else if x = 93 ∧ y = 32 then .ok (pResult ++ [x], false) ⟨y :: p2parse, lenStr - 1⟩
    else structuredDataLoop (pResult ++ [x]) (y :: p2parse) (lenStr - 1)

def bracketed : Step UInt8 (Bytes × Bool) := fun c => structuredDataLoop [] c.rest c.len

def structuredData : Step UInt8 (Bytes × Bool) := do
  let ch ← peek
  if ch = 45 then next >>= fun _ => pure ([45], false) else bracketed

def parseRFCStructuredData (pBuf : Bytes) : Step UInt8 (Bytes × Bool) := do
  let lenStr ← remaining
  if lenStr = 0 then pure (pBuf, true)
  else do
    let ch ← peek
    if ch ≠ 91 ∧ ch ≠ 45 then pure (pBuf, true)
    else do
      let (pResult, iRet) ← structuredData
      whenNext 32 (pure (pResult, iRet)) (pure (pResult, true))

/-! ## Messages -/

variable {E : Env}

def octetAndSpace (x : UInt8) : Step UInt8 Unit := do
  let lenMsg ← remaining
  require (2 ≤ lenMsg)
  expect x
  expect 32

def timestamp (pMsg : SMsg E) : Step UInt8 (Option SyslogTime) := do
  let nil ← attempt (octetAndSpace 45)
  match nil with
  | some () => pure (some pMsg.tRcvdAt)
  | none => do
    let time ← attempt (ParseTIMESTAMP3339 pMsg.tTIMESTAMP)
    pure (time.map fun t => if pMsg.msgFlags &&& IGNDATE ≠ 0 then pMsg.tRcvdAt else t)

def fields (pMsg : SMsg E) : Step UInt8 (SMsg E) := do
  let (pBuf, _) ← parseRFCField
  let pMsg := MsgSetHOSTNAME pMsg (cstring pBuf)
  let (pBuf, _) ← parseRFCField
  let pMsg := MsgSetAPPNAME pMsg pBuf
  let (pBuf, _) ← parseRFCField
  let pMsg := MsgSetPROCID pMsg pBuf
  let (pBuf, _) ← parseRFCField
  let pMsg := MsgSetMSGID pMsg pBuf
  let (pBuf, _) ← parseRFCStructuredData pBuf
  pure (MsgSetStructuredData pMsg pBuf)

def header (pMsg : SMsg E) : Step UInt8 (SMsg E) := do
  octetAndSpace 49
  let pMsg := setProtocolVersion pMsg 1
  let time ← timestamp pMsg
  match time with
  | none => pure pMsg
  | some t => fields { pMsg with tTIMESTAMP := t }

def parse (offAfterPRI : ℕ) (pMsg : SMsg E) : Except Fault (SMsg E) :=
  match header pMsg ⟨(pMsg.rawMsg ++ [0]).drop offAfterPRI, pMsg.rawMsg.length - offAfterPRI⟩ with
  | .ok pMsg c =>
    .ok (MsgSetMSGoffs pMsg (Int32.ofInt (pMsg.rawMsg.length + 1 - c.rest.length)))
  | .error e _ => .error e

/-! ## Pieces of the text -/

/-- `field` ends before the next space of `text`, or at its end, and `rest` comes behind it. -/
def FieldOf (text field rest : Bytes) : Prop :=
  32 ∉ field ∧ (text = field ++ 32 :: rest ∨ text = field ∧ rest = [])

def startsData (text : Bytes) : Prop := text.head? = some 91 ∨ text.head? = some 45
deriving Decidable

/-- `data` is the structured data that is parsed from `text`, and `msg` comes behind it. It is empty
if there is none. -/
def DataOf (text data msg : Bytes) : Prop :=
  (startsData text ∧ ∀ pBuf, ∃ iRet,
    parseRFCStructuredData pBuf (.terminated 0 text) = .ok (data, iRet) (.terminated 0 msg)) ∨
  ¬startsData text ∧ data = [] ∧ msg = text

lemma fieldLoop_terminated (pResult text : Bytes) :
    fieldLoop pResult (text ++ [0]) text.length =
      .ok (pResult ++ text.takeWhile (· ≠ 32)) (.terminated 0 (text.dropWhile (· ≠ 32))) := by
  induction text generalizing pResult with
  | nil =>
    rw [takeWhile_nil, append_nil]
    rfl
  | cons x text ih =>
    have hlen : (((x :: text).length : ℕ) : ℤ) - 1 = text.length := by
      rw [length_cons]
      omega
    rw [cons_append, fieldLoop]
    by_cases hx : x = 32
    · simp [hx, terminated]
    · rw [hlen, ih]
      simp [hx]

lemma parseRFCField_terminated (text : Bytes) :
    ∃ field iRet rest, parseRFCField (.terminated 0 text) = .ok (field, iRet) (.terminated 0 rest) ∧
      FieldOf text field rest := by
  have hloop := fieldLoop_terminated [] text
  have hrun : parseRFCField (.terminated 0 text) =
      whenNext 32 (pure (text.takeWhile (· ≠ 32), false)) (pure (text.takeWhile (· ≠ 32), true))
        (.terminated 0 (text.dropWhile (· ≠ 32))) := by
    have hchars : (fun c : Cursor UInt8 => fieldLoop [] c.rest c.len) (.terminated 0 text) = _ :=
      hloop
    exact bind_eq_of_ok hchars
  have hfield : 32 ∉ text.takeWhile (· ≠ 32) := fun h => by
    simpa using mem_takeWhile_imp h
  have happend : text.takeWhile (· ≠ 32) ++ text.dropWhile (· ≠ 32) = text :=
    takeWhile_append_dropWhile
  cases hdrop : text.dropWhile (· ≠ 32) with
  | nil =>
    rw [hdrop, append_nil] at happend
    rw [hdrop] at hrun
    exact ⟨_, true, [], hrun, hfield, .inr ⟨happend.symm, rfl⟩⟩
  | cons x rest =>
    have hx : x = 32 := by
      have hhead := head?_dropWhile_not (· ≠ (32 : UInt8)) text
      rw [hdrop] at hhead
      simpa using hhead
    subst hx
    rw [hdrop] at happend
    rw [hdrop, whenNext_cons] at hrun
    exact ⟨_, false, rest, hrun, hfield, .inl happend.symm⟩

lemma structuredDataLoop_terminated (pResult text : Bytes) :
    ∃ data iRet rest, structuredDataLoop pResult (text ++ [0]) text.length =
      .ok (pResult ++ data, iRet) (.terminated 0 rest) ∧ text = data ++ rest := by
  induction hn : text.length using Nat.strong_induction_on generalizing pResult text with
  | _ n ih =>
    subst hn
    -- the memory has an octet more than the text
    rcases text with _ | ⟨x, _ | ⟨y, text⟩⟩
    · exact ⟨[], true, [], by rw [append_nil]; rfl, rfl⟩
    · by_cases hx : x = 93
      · subst hx
        exact ⟨[93], false, [], rfl, rfl⟩
      · refine ⟨[], true, [x], ?_, rfl⟩
        rw [append_nil, singleton_append, structuredDataLoop, if_pos (by simp),
          if_neg fun h => hx h.2]
        rfl
    · have hlen : ¬(((x :: y :: text).length : ℕ) : ℤ) < 2 := by
        simp only [length_cons]
        omega
      rw [cons_append, cons_append, structuredDataLoop]
      by_cases hescaped : x = 92 ∧ y = 93
      · have hlen2 : (((x :: y :: text).length : ℕ) : ℤ) - 2 = text.length := by
          simp only [length_cons]
          omega
        obtain ⟨data, iRet, rest, hrun, htext⟩ := ih text.length
          (by simp only [length_cons]; omega) (pResult ++ [x, y]) text rfl
        refine ⟨x :: y :: data, iRet, rest, ?_, by rw [htext]; rfl⟩
        rw [if_pos hescaped, hlen2, hrun, append_assoc]
        rfl
      · have hlen1 : (((x :: y :: text).length : ℕ) : ℤ) - 1 = (y :: text).length := by
          simp only [length_cons]
          omega
        rw [if_neg hescaped]
        by_cases hend : x = 93 ∧ y = 32
        · refine ⟨[x], false, y :: text, ?_, rfl⟩
          rw [if_pos hend, hlen1]
          rfl
        · obtain ⟨data, iRet, rest, hrun, htext⟩ := ih (y :: text).length
            (by simp only [length_cons]; omega) (pResult ++ [x]) (y :: text) rfl
          refine ⟨x :: data, iRet, rest, ?_, by rw [htext]; rfl⟩
          rw [if_neg hend, hlen1, ← cons_append, hrun, append_assoc]
          rfl

variable {text : Bytes}

lemma structuredData_terminated (h : text ≠ []) :
    ∃ data iRet rest, structuredData (.terminated 0 text) =
      .ok (data, iRet) (.terminated 0 rest) ∧ text = data ++ rest := by
  obtain ⟨x, text, rfl⟩ := exists_cons_of_ne_nil h
  rw [structuredData, bind_eq_of_ok (peek_cons x)]
  by_cases hx : x = 45
  · refine ⟨[45], false, text, ?_, by rw [hx]; rfl⟩
    rw [if_pos hx, bind_eq_of_ok (next_cons x)]
    rfl
  · obtain ⟨data, iRet, rest, hrun, htext⟩ := structuredDataLoop_terminated [] (x :: text)
    rw [if_neg hx]
    exact ⟨data, iRet, rest, hrun, htext⟩

lemma parseRFCStructuredData_of_not (h : ¬startsData text) (pBuf : Bytes) :
    parseRFCStructuredData pBuf (.terminated 0 text) = .ok (pBuf, true) (.terminated 0 text) := by
  cases text with
  | nil => rfl
  | cons x text =>
    have hx : x ≠ 91 ∧ x ≠ 45 := by
      simpa [startsData, not_or] using h
    have hlen : (terminated 0 (x :: text)).len ≠ 0 := (terminated_len_pos x).ne'
    rw [parseRFCStructuredData, remaining_bind, if_neg hlen, bind_eq_of_ok (peek_cons x),
      if_pos hx]
    rfl

lemma parseRFCStructuredData_of_starts (h : startsData text) :
    ∃ data sep msg, text = data ++ sep ++ msg ∧ (sep = [] ∨ sep = [32]) ∧
      ∀ pBuf, ∃ iRet, parseRFCStructuredData pBuf (.terminated 0 text) =
        .ok (data, iRet) (.terminated 0 msg) := by
  have hne : text ≠ [] := by
    rintro rfl
    exact absurd h (by decide)
  obtain ⟨data, iRet, rest, hdata, htext⟩ := structuredData_terminated hne
  obtain ⟨x, text, rfl⟩ := exists_cons_of_ne_nil hne
  have hrun (pBuf : Bytes) : parseRFCStructuredData pBuf (.terminated 0 (x :: text)) =
      whenNext 32 (pure (data, iRet)) (pure (data, true)) (.terminated 0 rest) := by
    have hx : ¬(x ≠ 91 ∧ x ≠ 45) := by
      simpa [startsData, imp_iff_not_or] using h
    have hlen : (terminated 0 (x :: text)).len ≠ 0 := (terminated_len_pos x).ne'
    rw [parseRFCStructuredData, remaining_bind, if_neg hlen, bind_eq_of_ok (peek_cons x),
      if_neg hx, bind_eq_of_ok hdata]
  by_cases hsp : rest.head? = some 32
  · obtain ⟨msg, rfl⟩ := head?_eq_some_iff.mp hsp
    refine ⟨data, [32], msg, by rw [htext, append_assoc]; rfl, .inr rfl, fun pBuf => ?_⟩
    exact ⟨iRet, by rw [hrun, whenNext_cons]; rfl⟩
  · refine ⟨data, [], rest, by rw [htext, append_nil], .inl rfl, fun pBuf => ?_⟩
    exact ⟨true, by rw [hrun, whenNext_ne hsp]; rfl⟩

lemma parseRFCStructuredData_terminated (pBuf text : Bytes) :
    ∃ data iRet msg, parseRFCStructuredData pBuf (.terminated 0 text) =
      .ok (if startsData text then data else pBuf, iRet) (.terminated 0 msg) ∧
        DataOf text data msg := by
  by_cases hstarts : startsData text
  · obtain ⟨data, sep, msg, -, -, hparsed⟩ := parseRFCStructuredData_of_starts hstarts
    obtain ⟨iRet, hdata⟩ := hparsed pBuf
    exact ⟨data, iRet, msg, by rw [if_pos hstarts, hdata], .inl ⟨hstarts, hparsed⟩⟩
  · refine ⟨[], true, text, ?_, .inr ⟨hstarts, rfl, rfl⟩⟩
    rw [if_neg hstarts, parseRFCStructuredData_of_not hstarts]

structure Pieces (text : Bytes) where
  hostname : Bytes
  appname : Bytes
  procid : Bytes
  msgid : Bytes
  strucData : Bytes
  msg : Bytes
  afterHostname : Bytes
  afterAppname : Bytes
  afterProcid : Bytes
  afterMsgid : Bytes
  hostname_of : FieldOf text hostname afterHostname
  appname_of : FieldOf afterHostname appname afterAppname
  procid_of : FieldOf afterAppname procid afterProcid
  msgid_of : FieldOf afterProcid msgid afterMsgid
  strucData_of : DataOf afterMsgid strucData msg

def IsSep (sep : Bytes) : Prop := sep = [] ∨ sep = [32]

lemma FieldOf.eq_takeWhile {field rest : Bytes} (h : FieldOf text field rest) :
    field = text.takeWhile (· ≠ 32) ∧ rest = (text.dropWhile (· ≠ 32)).tail := by
  obtain ⟨hsp, htext⟩ := h
  have hall : ∀ x ∈ field, decide (x ≠ 32) = true := fun x hx =>
    decide_eq_true fun h32 => hsp (h32 ▸ hx)
  rcases htext with rfl | ⟨rfl, rfl⟩
  · rw [takeWhile_append_of_pos hall, dropWhile_append_of_pos hall]
    simp
  · rw [takeWhile_eq_self_iff.mpr hall, dropWhile_eq_nil_iff.mpr hall]
    exact ⟨rfl, rfl⟩

lemma FieldOf.join {field rest : Bytes} (h : FieldOf text field rest) :
    ∃ sep, IsSep sep ∧ text = field ++ sep ++ rest := by
  obtain ⟨-, htext | ⟨htext, hrest⟩⟩ := h
  · exact ⟨[32], .inr rfl, by rw [htext, append_assoc]; rfl⟩
  · exact ⟨[], .inl rfl, by rw [htext, hrest, append_nil, append_nil]⟩

lemma DataOf.join {data msg : Bytes} (h : DataOf text data msg) :
    ∃ sep, IsSep sep ∧ text = data ++ sep ++ msg := by
  rcases h with ⟨hstarts, hparsed⟩ | ⟨-, rfl, rfl⟩
  · obtain ⟨data', sep, msg', htext, hsep, hparsed'⟩ := parseRFCStructuredData_of_starts hstarts
    obtain ⟨iRet, hrun⟩ := hparsed []
    obtain ⟨iRet', hrun'⟩ := hparsed' []
    rw [hrun'] at hrun
    obtain ⟨hdata, hmsg⟩ := EStateM.Result.ok.inj hrun
    rw [← (Prod.mk.inj hdata).1, ← append_cancel_right (congrArg rest hmsg)]
    exact ⟨sep, hsep, htext⟩
  · exact ⟨[], .inl rfl, rfl⟩

lemma Pieces.join (l : Pieces text) :
    ∃ s₁ s₂ s₃ s₄ s₅, IsSep s₁ ∧ IsSep s₂ ∧ IsSep s₃ ∧ IsSep s₄ ∧ IsSep s₅ ∧
      text = l.hostname ++ s₁ ++ (l.appname ++ s₂ ++ (l.procid ++ s₃ ++ (l.msgid ++ s₄ ++
        (l.strucData ++ s₅ ++ l.msg)))) := by
  obtain ⟨s₁, h₁, hhostname⟩ := l.hostname_of.join
  obtain ⟨s₂, h₂, happname⟩ := l.appname_of.join
  obtain ⟨s₃, h₃, hprocid⟩ := l.procid_of.join
  obtain ⟨s₄, h₄, hmsgid⟩ := l.msgid_of.join
  obtain ⟨s₅, h₅, hdata⟩ := l.strucData_of.join
  refine ⟨s₁, s₂, s₃, s₄, s₅, h₁, h₂, h₃, h₄, h₅, ?_⟩
  rw [← hdata, ← hmsgid, ← hprocid, ← happname, ← hhostname]

/-! ## Whole messages -/

/-- The fields as they are stored: as C strings, and an APP-NAME that is empty as the RFC 5424 NIL
value. If there is no structured data, the buffer still has the MSGID in it. -/
def stored {text : Bytes} (l : Pieces text) (pMsg : SMsg E) : SMsg E :=
  { pMsg with
    pszHOSTNAME := some (cstring l.hostname)
    pCSAPPNAME := some (if cstring l.appname = [] then [45] else cstring l.appname)
    pCSPROCID := some (cstring l.procid)
    pCSMSGID := some (cstring l.msgid)
    pszStrucData := some (cstring (if startsData l.afterMsgid then l.strucData else l.msgid)) }

lemma fields_terminated (pMsg : SMsg E) (text : Bytes) :
    ∃ l : Pieces text, fields pMsg (.terminated 0 text) =
      .ok (stored l pMsg) (.terminated 0 l.msg) := by
  obtain ⟨hostname, r₁, t₁, hrun₁, hostname_of⟩ := parseRFCField_terminated text
  obtain ⟨appname, r₂, t₂, hrun₂, appname_of⟩ := parseRFCField_terminated t₁
  obtain ⟨procid, r₃, t₃, hrun₃, procid_of⟩ := parseRFCField_terminated t₂
  obtain ⟨msgid, r₄, t₄, hrun₄, msgid_of⟩ := parseRFCField_terminated t₃
  obtain ⟨data, r₅, msg, hrun₅, data_of⟩ := parseRFCStructuredData_terminated msgid t₄
  refine ⟨⟨hostname, appname, procid, msgid, data, msg, t₁, t₂, t₃, t₄, hostname_of, appname_of,
    procid_of, msgid_of, data_of⟩, ?_⟩
  rw [fields, bind_eq_of_ok hrun₁]
  dsimp only
  rw [bind_eq_of_ok hrun₂]
  rw [bind_eq_of_ok hrun₃]
  rw [bind_eq_of_ok hrun₄]
  rw [bind_eq_of_ok hrun₅]
  rfl

def afterTimestamp (pTime : SyslogTime) (text : Bytes) : Option Bytes :=
  if text.take 2 = [45, 32] then some (text.drop 2)
  else match ParseTIMESTAMP3339 pTime (.terminated 0 text) with
    | .ok _ c => some c.rest.dropLast
    | .error _ _ => none

lemma octetAndSpace_terminated (x : UInt8) (text : Bytes) :
    (∃ text', text = x :: 32 :: text' ∧
        octetAndSpace x (.terminated 0 text) = .ok () (.terminated 0 text')) ∨
      text.take 2 ≠ [x, 32] ∧ ∃ c, octetAndSpace x (.terminated 0 text) = .error .reject c := by
  rcases text with _ | ⟨y, _ | ⟨sp, text⟩⟩
  · exact .inr ⟨nofun, _, rfl⟩
  · exact .inr ⟨fun h => (nomatch (List.cons.inj h).2), _, rfl⟩
  · have hlen : 2 ≤ (terminated 0 (y :: sp :: text)).len := by
      simp only [terminated, length_cons]
      omega
    rw [octetAndSpace, remaining_bind, bind_eq_of_ok (require_of hlen _)]
    by_cases hy : y = x
    · subst hy
      rw [bind_eq_of_ok expect_cons]
      by_cases hsp : sp = 32
      · subst hsp
        exact .inl ⟨text, rfl, expect_cons⟩
      · refine .inr ⟨fun h => hsp ?_, expect_ne fun h => hsp (Option.some.inj h)⟩
        exact (List.cons.inj (List.cons.inj h).2).1
    · have hhead : (y :: sp :: text).head? ≠ some x := fun h => hy (Option.some.inj h)
      obtain ⟨c, hreject⟩ := expect_ne (z := (0 : UInt8)) hhead
      exact .inr ⟨fun h => hy (List.cons.inj h).1, c, bind_eq_of_error hreject⟩

lemma timestamp_terminated (pMsg : SMsg E) (text : Bytes) :
    timestamp pMsg (.terminated 0 text) = .ok none (.terminated 0 text) ∧
        afterTimestamp pMsg.tTIMESTAMP text = none ∨
      ∃ t w text', timestamp pMsg (.terminated 0 text) = .ok (some t) (.terminated 0 text') ∧
        afterTimestamp pMsg.tTIMESTAMP text = some text' ∧ text = w ++ text' := by
  rcases octetAndSpace_terminated 45 text with ⟨text', rfl, hnil⟩ | ⟨htake, c', hnil⟩
  · refine .inr ⟨pMsg.tRcvdAt, [45, 32], text', ?_, ?_, rfl⟩
    · rw [timestamp, bind_eq_of_ok (attempt_of_ok hnil)]
      rfl
    · exact if_pos rfl
  · rw [timestamp, bind_eq_of_ok (attempt_of_reject hnil), afterTimestamp, if_neg htake]
    dsimp only
    rcases (Format.follows_timestamp3339 (passes_mem 0) pMsg.tTIMESTAMP text).terminated with
      ⟨t, w, text', hrun, htext⟩ | ⟨c', hrun⟩
    · refine .inr ⟨if pMsg.msgFlags &&& IGNDATE ≠ 0 then pMsg.tRcvdAt else t, w, text', ?_, ?_,
        htext⟩
      · rw [bind_eq_of_ok (attempt_of_ok hrun)]
        rfl
      · rw [hrun]
        exact congrArg some dropLast_concat
    · refine .inl ⟨?_, ?_⟩
      · rw [bind_eq_of_ok (attempt_of_reject hrun)]
        rfl
      · rw [hrun]

def offsOf (pMsg : SMsg E) (msg : Bytes) : Int32 :=
  Int32.ofInt (pMsg.rawMsg.length - msg.length)

lemma offsOf_eq (pMsg : SMsg E) (msg : Bytes) :
    Int32.ofInt (pMsg.rawMsg.length + 1 - (terminated 0 msg).rest.length) = offsOf pMsg msg := by
  rw [offsOf, terminated]
  rw [length_append, length_singleton, Nat.cast_add, Nat.cast_one,
    add_sub_add_right_eq_sub]

lemma parse_cases {offAfterPRI : ℕ} {pMsg : SMsg E} (hoff : offAfterPRI ≤ pMsg.rawMsg.length) :
    parse offAfterPRI pMsg = .error .reject ∨
      ∃ text, pMsg.rawMsg.drop offAfterPRI = 49 :: 32 :: text ∧
        (afterTimestamp pMsg.tTIMESTAMP text = none ∧
            parse offAfterPRI pMsg =
              .ok (MsgSetMSGoffs (setProtocolVersion pMsg 1) (offsOf pMsg text)) ∨
          ∃ t w text', afterTimestamp pMsg.tTIMESTAMP text = some text' ∧ text = w ++ text' ∧
            ∃ l : Pieces text', parse offAfterPRI pMsg = .ok (MsgSetMSGoffs
              (stored l { setProtocolVersion pMsg 1 with tTIMESTAMP := t })
              (offsOf pMsg l.msg))) := by
  rw [parse, drop_eq_terminated hoff]
  rcases octetAndSpace_terminated 49 (pMsg.rawMsg.drop offAfterPRI) with
    ⟨text, htext, hversion⟩ | ⟨-, c, hversion⟩
  · refine .inr ⟨text, htext, ?_⟩
    rw [header, bind_eq_of_ok hversion]
    rcases timestamp_terminated (setProtocolVersion pMsg 1) text with
      ⟨htime, hafter⟩ | ⟨t, w, text', htime, hafter, hsplit⟩
    · refine .inl ⟨hafter, ?_⟩
      rw [bind_eq_of_ok htime]
      exact congrArg (fun offs => Except.ok (MsgSetMSGoffs _ offs)) (offsOf_eq pMsg text)
    · obtain ⟨l, hfields⟩ :=
        fields_terminated { setProtocolVersion pMsg 1 with tTIMESTAMP := t } text'
      refine .inr ⟨t, w, text', hafter, hsplit, l, ?_⟩
      rw [bind_eq_of_ok htime]
      dsimp only
      rw [hfields]
      exact congrArg (fun offs => Except.ok (MsgSetMSGoffs _ offs)) (offsOf_eq pMsg l.msg)
  · refine .inl ?_
    rw [header, bind_eq_of_error hversion]

lemma MSG_of_offsOf {pMsg pMsg' : SMsg E} {w msg : Bytes} (hraw : pMsg.rawMsg = w ++ msg)
    (hlen : pMsg.rawMsg.length < 2 ^ 31) (hraw' : pMsg'.rawMsg = pMsg.rawMsg) :
    (MsgSetMSGoffs pMsg' (offsOf pMsg msg)).MSG = some msg := by
  have hoffs : (offsOf pMsg msg).toInt = w.length := by
    rw [offsOf, hraw, length_append, Nat.cast_add, add_sub_cancel_right]
    rw [hraw, length_append] at hlen
    exact Int32.toInt_ofInt_of_le (by omega) (by omega)
  have hnonneg : ¬offsOf pMsg msg < 0 := by
    rw [Int32.lt_iff_toInt_lt, Int32.toInt_zero]
    omega
  have hle : ¬(w.length : ℤ) > (w ++ msg).length := by
    rw [length_append]
    omega
  have hrest : (((w ++ msg).length : ℤ) - w.length).toNat = msg.length := by
    rw [length_append]
    omega
  have hkeep : (MsgSetMSGoffs pMsg' (offsOf pMsg msg)).rawMsg = w ++ msg := hraw'.trans hraw
  rw [SMsg.MSG, hkeep, MsgSetMSGoffs]
  rw [if_neg hnonneg, hoffs, hraw', hraw, if_neg hle, hrest, Int.toNat_natCast, drop_left,
    take_length]

def received (rawMsg : Bytes) : SMsg plainEnv :=
  { msgBaseConstruct with pszRawMsg := some rawMsg }

example : (parse 0 (received (ascii "1 - h a p m x"))).toOption.map SMsg.pszStrucData =
    some (some (ascii "m")) := by
  decide +kernel

end Rsyslog.Parser.Rfc5424
