import Rsyslog.Msg.RawMsg
import Rsyslog.Ratelimit.Submit

/-!
# Oversize messages

`submitMsg2` and `splitOversizeMessage` of `rsyslogd.c` with `MsgDup` of `msg.c`: what is enqueued
for a message whose raw text is longer than a line may be. In the mode "split" the message is
duplicated for each segment, the raw text of the copy is set to the segment, and the copy is
submitted.

Memory is there and the queue takes every message. The report of an oversize message and its log
file are left out.
-/

namespace Rsyslog.Msg

open List

open Rsyslog.Ratelimit (OversizeMode nSegments)

variable {E : Env}

/-- The settings `maxMessageSize` and `oversizemsg.input.mode`. -/
structure OversizeCfg where
  maxLine : ℕ
  maxLine_pos : 0 < maxLine
  mode : OversizeMode

def MsgDup (old : SMsg E) : SMsg E :=
  { (msgBaseConstruct : SMsg E) with
    ttGenTime := old.ttGenTime
    tTIMESTAMP := old.tTIMESTAMP
    iSeverity := old.iSeverity
    iFacility := old.iFacility
    msgFlags := old.msgFlags
    iProtocolVersion := old.iProtocolVersion
    tRcvdAt := old.tRcvdAt
    offMSG := old.offMSG
    iLenMSG := old.iLenMSG
    -- one member of the union `rcvFrom` is in use
    pfrominet := if old.msgFlags &&& NEEDS_DNSRESOL ≠ 0 then old.pfrominet else none
    pRcvFrom := if old.msgFlags &&& NEEDS_DNSRESOL ≠ 0 then none else old.pRcvFrom
    pRcvFromIP := old.pRcvFromIP
    pInputName := old.pInputName
    TAG := old.TAG
    pszRawMsg := old.pszRawMsg
    pszHOSTNAME := old.pszHOSTNAME
    pszStrucData := old.pszStrucData.map Lib.cstring
    pCSAPPNAME := old.pCSAPPNAME
    pCSPROCID := old.pCSPROCID
    pCSMSGID := old.pCSMSGID
    json := old.json
    localvars := old.localvars }

def segments (maxlen : ℕ) (rawmsg : Bytes) : List Bytes :=
  let nsegments := rawmsg.length / maxlen
  let len_last_segment := rawmsg.length % maxlen
  (List.range nsegments).map (fun i => (rawmsg.drop (i * maxlen)).take maxlen) ++
    if len_last_segment ≠ 0 then [(rawmsg.drop (nsegments * maxlen)).take len_last_segment] else []

lemma length_le_of_mem_segments {maxlen : ℕ} (hpos : 0 < maxlen) {rawmsg seg : Bytes}
    (h : seg ∈ segments maxlen rawmsg) : seg.length ≤ maxlen := by
  simp only [segments, mem_append, mem_map] at h
  obtain ⟨i, -, rfl⟩ | h := h
  · exact length_take_le _ _
  · split at h
    · rw [mem_singleton.mp h]
      exact (length_take_le _ _).trans (Nat.mod_lt _ hpos).le
    · cases h

def submitMsg2 (cfg : OversizeCfg) (m : SMsg E) : List (SMsg E) :=
  if cfg.maxLine < m.rawMsg.length then
    match cfg.mode with
    | .split =>
      (segments cfg.maxLine m.rawMsg).attach.flatMap fun seg =>
        submitMsg2 cfg (MsgSetRawMsg (MsgDup m) seg.1)
    | .truncate => [MsgTruncateToMaxSize cfg.maxLine m]
    | .accept => [m]
  else [m]
termination_by m.rawMsg.length
decreasing_by
  exact (length_le_of_mem_segments cfg.maxLine_pos seg.2).trans_lt (by assumption)

/-! ## The segments -/

section

variable {maxlen : ℕ} {rawmsg : Bytes}

lemma flatten_slices (n : ℕ) :
    ((List.range n).map fun i => (rawmsg.drop (i * maxlen)).take maxlen).flatten =
      rawmsg.take (n * maxlen) := by
  induction n with
  | zero => simp
  | succ n ih =>
    rw [range_succ, map_append, flatten_append, ih, Nat.succ_mul, take_add]
    simp

lemma flatten_segments (maxlen : ℕ) (rawmsg : Bytes) :
    (segments maxlen rawmsg).flatten = rawmsg := by
  have hdiv := Nat.div_add_mod' rawmsg.length maxlen
  rw [segments, flatten_append, flatten_slices]
  split
  next =>
    rw [flatten_singleton, ← take_add, hdiv, take_length]
  next h =>
    rw [flatten_nil, append_nil, take_of_length_le]
    omega

lemma length_pos_of_mem_segments {seg : Bytes} (hpos : 0 < maxlen)
    (h : seg ∈ segments maxlen rawmsg) : 0 < seg.length := by
  have hdiv := Nat.div_add_mod' rawmsg.length maxlen
  simp only [segments, mem_append, mem_map, mem_range] at h
  obtain ⟨i, hi, rfl⟩ | h := h
  · have : (i + 1) * maxlen ≤ rawmsg.length / maxlen * maxlen := Nat.mul_le_mul_right _ hi
    rw [Nat.succ_mul] at this
    rw [length_take, length_drop]
    omega
  · split at h
    · rw [mem_singleton.mp h, length_take, length_drop]
      omega
    · cases h

end

/-! ## What is enqueued -/

lemma submitMsg2_of_le {cfg : OversizeCfg} {m : SMsg E} (h : m.rawMsg.length ≤ cfg.maxLine) :
    submitMsg2 cfg m = [m] := by
  rw [submitMsg2, if_neg (Nat.not_lt.mpr h)]

lemma submitMsg2_of_split {cfg : OversizeCfg} (hmode : cfg.mode = .split) {m : SMsg E}
    (h : cfg.maxLine < m.rawMsg.length) :
    submitMsg2 cfg m =
      (segments cfg.maxLine m.rawMsg).map fun seg => MsgSetRawMsg (MsgDup m) seg := by
  have hseg : ∀ seg ∈ segments cfg.maxLine m.rawMsg,
      submitMsg2 cfg (MsgSetRawMsg (MsgDup m) seg) = [MsgSetRawMsg (MsgDup m) seg] := by
    intro seg hseg
    exact submitMsg2_of_le (length_le_of_mem_segments cfg.maxLine_pos hseg)
  rw [submitMsg2, if_pos h, hmode]
  rw [List.flatMap_congr (fun seg _ => hseg seg.1 seg.2), map_eq_flatMap]
  simp

def SMsg.rcvFrom (m : SMsg E) : Option E.SockAddr ⊕ Option Bytes :=
  if m.msgFlags &&& NEEDS_DNSRESOL ≠ 0 then .inl m.pfrominet else .inr m.pRcvFrom

/-- The properties that say when, from whom and by which input a message was received, and those
that the input sets. -/
structure SameOrigin (m m' : SMsg E) : Prop where
  rcvFrom : m'.rcvFrom = m.rcvFrom
  rcvFromIP : m'.pRcvFromIP = m.pRcvFromIP
  inputName : m'.pInputName = m.pInputName
  rcvdAt : m'.tRcvdAt = m.tRcvdAt
  dfltTZ : m'.dfltTZ = m.dfltTZ
  flowCtlType : m'.flowCtlType = m.flowCtlType

lemma SameOrigin.refl (m : SMsg E) : SameOrigin m m := ⟨rfl, rfl, rfl, rfl, rfl, rfl⟩

/-- What `MsgDup` does not copy is as in a new message. -/
structure SMsg.Copied (m : SMsg E) : Prop where
  ruleset : m.pRuleset = none
  dfltTZ : m.dfltTZ = []
  flowCtlType : m.flowCtlType = .noDelay

lemma SMsg.Copied.sameOrigin_segment {m : SMsg E} (h : m.Copied) (seg : Bytes) :
    SameOrigin m (MsgSetRawMsg (MsgDup m) seg) := by
  refine ⟨?_, rfl, rfl, rfl, h.dfltTZ.symm, h.flowCtlType.symm⟩
  simp only [SMsg.rcvFrom, MsgSetRawMsg, MsgDup]
  split <;> rfl

/-- What the messages enqueued for `m` are to be. -/
structure SplitInto (maxLine : ℕ) (m : SMsg E) (out : List (SMsg E)) : Prop where
  length : ∀ m' ∈ out, 1 ≤ m'.rawMsg.length ∧ m'.rawMsg.length ≤ maxLine
  rawMsg : (out.map SMsg.rawMsg).flatten = m.rawMsg
  origin : ∀ m' ∈ out, SameOrigin m m'
  ruleset : ∀ m' ∈ out, m'.pRuleset = m.pRuleset

/-- **Splitting.** The segments are the raw text in pieces of the right size, and they come from
where the message came from. But they have the ruleset, the time zone and the flow control of the
message only if these are the default ones. -/
theorem submitMsg2_splitInto_iff (maxLine : ℕ) (hpos : 0 < maxLine) (m : SMsg E) :
    SplitInto maxLine m (submitMsg2 ⟨maxLine, hpos, .split⟩ m) ↔
      m.rawMsg ≠ [] ∧ (m.rawMsg.length ≤ maxLine ∨ m.Copied) := by
  by_cases hle : m.rawMsg.length ≤ maxLine
  · rw [submitMsg2_of_le hle]
    constructor
    · intro h
      refine ⟨fun hnil => ?_, .inl hle⟩
      have := (h.length m (mem_singleton_self m)).1
      rw [hnil] at this
      cases this
    · rintro ⟨hne, -⟩
      constructor <;> simp [hle, length_pos_iff.mpr hne, Nat.succ_le_iff, SameOrigin.refl]
  · have hlt : maxLine < m.rawMsg.length := Nat.lt_of_not_le hle
    have hne : m.rawMsg ≠ [] := ne_nil_of_length_pos (by omega)
    rw [submitMsg2_of_split rfl hlt]
    obtain ⟨seg₀, hseg₀⟩ : ∃ seg, seg ∈ segments maxLine m.rawMsg := by
      refine exists_mem_of_ne_nil _ fun hnil => hne ?_
      rw [← flatten_segments maxLine m.rawMsg, hnil, flatten_nil]
    constructor
    · intro h
      have hrule := h.ruleset _ (mem_map_of_mem hseg₀)
      have horigin := h.origin _ (mem_map_of_mem hseg₀)
      exact ⟨hne, .inr ⟨hrule.symm, horigin.dfltTZ.symm, horigin.flowCtlType.symm⟩⟩
    · rintro ⟨-, hcopied⟩
      have hcopied := hcopied.resolve_left hle
      refine ⟨?_, ?_, ?_, ?_⟩
      · rintro _ hm
        obtain ⟨seg, hseg, rfl⟩ := mem_map.mp hm
        exact ⟨length_pos_of_mem_segments hpos hseg, length_le_of_mem_segments hpos hseg⟩
      · rw [map_map]
        exact (congrArg List.flatten (map_id _)).trans (flatten_segments _ _)
      · rintro _ hm
        obtain ⟨seg, -, rfl⟩ := mem_map.mp hm
        exact hcopied.sameOrigin_segment seg
      · rintro _ hm
        obtain ⟨seg, -, rfl⟩ := mem_map.mp hm
        exact hcopied.ruleset.symm

def freeMsg : SMsg plainEnv :=
  { (msgBaseConstruct : SMsg plainEnv) with
    pszRawMsg := some [97, 98, 99]
    pInputName := some [105] }

theorem submitMsg2_splitInto_iff_freeMsg :
    2 < freeMsg.rawMsg.length ∧
      SplitInto 2 freeMsg (submitMsg2 ⟨2, by decide, .split⟩ freeMsg) :=
  ⟨by decide, (submitMsg2_splitInto_iff 2 (by decide) freeMsg).mpr
    ⟨by decide, .inr ⟨rfl, rfl, rfl⟩⟩⟩

def boundMsg : SMsg plainEnv := { freeMsg with pRuleset := some [114] }

/-- In lines of two octets the message is split, and its segments are for the default ruleset. -/
theorem segments_lose_ruleset :
    (submitMsg2 ⟨2, by decide, .split⟩ boundMsg).map (fun m => (m.rawMsg, m.pRuleset)) =
      [([97, 98], none), ([99], none)] := by
  rw [submitMsg2_of_split rfl (by decide)]
  decide

end Rsyslog.Msg
