import Rsyslog.Tcp.Session

/-!
# The receiver of imptcp

`processDataRcvd` and `DataRcvdUncompressed` of `imptcp.c`, which were taken from `tcps_sess.c` and
changed: a counted frame is copied piece by piece, not octet by octet, and the octet that finds the
buffer full is stored in the emptied buffer, also where the rest of the message is discarded. There
it stays, and the next message of the connection is put behind it (`submitted`).

Framing by a regular expression, compressed streams and log messages are not part of the model.
-/

namespace Rsyslog.Imptcp

open List Rsyslog.Lib Rsyslog.Tcp

/-- The settings of a listener that a session looks at. -/
structure PtcpSrv where
  bSuppOctetFram : Bool
  bSPFramingFix : Bool
  iAddtlFrameDelim : ℤ
  maxFrameSize : ℤ
  discardTruncatedMsg : Bool
  multiLine : Bool
  iMaxLine : ℕ
  iMaxLine_ge : 128 ≤ iMaxLine

variable (cfg : PtcpSrv)

def PtcpSrv.isDelim (c : UInt8) : Bool :=
  c = 10 || (cfg.iAddtlFrameDelim ≠ TCPSRV_NO_ADDTL_DELIMITER && charToInt c = cfg.iAddtlFrameDelim)

def doSubmitMsg (s : TcpsSess) : TcpsSess × List Bytes :=
  ({ s with pMsg := [] }, if s.pMsg = [] then [] else [s.pMsg])

def PtcpSrv.store (s : TcpsSess) (c : UInt8) : TcpsSess :=
  { s with pMsg := if s.pMsg.length < cfg.iMaxLine then s.pMsg ++ [c] else s.pMsg }

def inOctetCnt (s : TcpsSess) (c : UInt8) : TcpsSess :=
  if isDigit c then { cfg.store s c with iOctetsRemain := cntDigit s.iOctetsRemain c }
  else
    let s := if s.iOctetsRemain < 1 then { s with eFraming := .octetStuffing } else s
    let s := if s.iOctetsRemain > cfg.maxFrameSize then { s with eFraming := .octetStuffing }
      else { s with pMsg := [] }
    { s with inputState := .eInMsg }

def flush (s : TcpsSess) : TcpsSess × List Bytes :=
  if s.pMsg.length ≥ cfg.iMaxLine then
    let r := doSubmitMsg s
    (if cfg.discardTruncatedMsg then { r.1 with inputState := .eInMsgTruncating } else r.1, r.2)
  else (s, [])

/-- `eInMsg` with octet stuffing. `next` is the octet behind `c` in the receive buffer. -/
def inMsgStuffing (s : TcpsSess) (c : UInt8) (next : Option UInt8) : TcpsSess × List Bytes :=
  let r := flush cfg s
  if cfg.isDelim c ∧ (cfg.multiLine → next = none ∨ next = some 60) then
    let r' := doSubmitMsg r.1
    ({ r'.1 with inputState := .eAtStrtFram }, r.2 ++ r'.2)
  else (cfg.store r.1 c, r.2)

/-- `eInMsg` with octet counting, and how many octets of the receive buffer it takes. -/
def inMsgCounting (s : TcpsSess) (buff : Bytes) : TcpsSess × List Bytes × ℕ :=
  let octets := min s.iOctetsRemain.toNat buff.length
  -- what finds no room in the buffer is discarded
  let octetsToCopy := min octets (cfg.iMaxLine - s.pMsg.length)
  let s := { s with
    pMsg := s.pMsg ++ buff.take octetsToCopy, iOctetsRemain := s.iOctetsRemain - octets }
  if s.iOctetsRemain = 0 then
    let r := doSubmitMsg s
    ({ r.1 with inputState := .eAtStrtFram }, r.2, octets)
  else (s, [], octets)

def inFrame (s : TcpsSess) (c : UInt8) (rest : Bytes) : TcpsSess × List Bytes × ℕ :=
  match s.inputState with
  | .eInOctetCnt => (inOctetCnt cfg s c, [], 1)
  | .eInMsgTruncating =>
    (if cfg.isDelim c then { s with inputState := .eAtStrtFram } else s, [], 1)
  | .eInMsg =>
    match s.eFraming with
    | .octetStuffing =>
      let r := inMsgStuffing cfg s c rest.head?
      (r.1, r.2, 1)
    | .octetCounting => inMsgCounting cfg s (c :: rest)
  -- the start of a frame was left before
  | .eAtStrtFram => (s, [], 1)

/-- One call: the session, what it submits, and how many octets of the receive buffer it takes. -/
def processDataRcvd (s : TcpsSess) (c : UInt8) (rest : Bytes) : TcpsSess × List Bytes × ℕ :=
  if s.inputState = .eAtStrtFram then
    if cfg.bSuppOctetFram ∧ isDigit c then
      inFrame cfg { s with
        inputState := .eInOctetCnt, iOctetsRemain := 0, eFraming := .octetCounting } c rest
    else if cfg.bSPFramingFix ∧ c = 32 then (s, [], 1)
    else inFrame cfg { s with inputState := .eInMsg, eFraming := .octetStuffing } c rest
  else inFrame cfg s c rest

/-- One received chunk. A count is at least one while a counted message is read, so that every call
takes an octet. -/
def DataRcvdUncompressed (cfg : PtcpSrv) (s : TcpsSess) : Bytes → TcpsSess × List Bytes
  | [] => (s, [])
  | c :: rest =>
    let r := processDataRcvd cfg s c rest
    let r' := DataRcvdUncompressed cfg r.1 (rest.drop (r.2.2 - 1))
    (r'.1, r.2.1 ++ r'.2)
termination_by pData => pData.length
decreasing_by simp only [length_drop, length_cons]; omega

/-! ## Chunks

A counted frame is copied in blocks that end where the receive buffer ends, everything else goes
octet by octet. Both come to the same, since a block can be cut behind its first octet
(`inMsgCounting_cons`). -/

section

variable {cfg : PtcpSrv} {s : TcpsSess} {c : UInt8} {rest : Bytes}

lemma inMsgCounting_last (h : s.iOctetsRemain ≤ 1) :
    inMsgCounting cfg s (c :: rest) = inMsgCounting cfg s [c] ∧
      (inMsgCounting cfg s (c :: rest)).2.2 ≤ 1 := by
  have hoctets (n : ℕ) : min s.iOctetsRemain.toNat (n + 1) = s.iOctetsRemain.toNat := by omega
  have htake (n : ℕ) : (c :: rest).take (min s.iOctetsRemain.toNat n) =
      [c].take (min s.iOctetsRemain.toNat n) :=
    @take_append_of_le_length _ [c] rest _ (by rw [length_singleton]; omega)
  simp only [inMsgCounting, length_cons, length_nil, hoctets, htake, true_and]
  split <;> (dsimp only; omega)

/-- A block that goes on behind its first octet is the block of that octet and the rest. -/
lemma inMsgCounting_cons (h : 1 < s.iOctetsRemain) (hrest : rest ≠ []) :
    ∃ s', inMsgCounting cfg s [c] = (s', [], 1) ∧ s'.inputState = s.inputState ∧
      s'.eFraming = s.eFraming ∧ ∃ n, (inMsgCounting cfg s' rest).2.2 = n + 1 ∧
        inMsgCounting cfg s (c :: rest) =
          ((inMsgCounting cfg s' rest).1, (inMsgCounting cfg s' rest).2.1, n + 2) := by
  have hlen : 0 < rest.length := length_pos_iff.mpr hrest
  have hone : min s.iOctetsRemain.toNat 1 = 1 := by omega
  obtain ⟨n, hn⟩ : ∃ n, min s.iOctetsRemain.toNat (rest.length + 1) = n + 2 :=
    ⟨min s.iOctetsRemain.toNat (rest.length + 1) - 2, by omega⟩
  have hn' : min (s.iOctetsRemain - (1 : ℕ)).toNat rest.length = n + 1 := by omega
  have hleft : s.iOctetsRemain - (1 : ℕ) - (n + 1 : ℕ) = s.iOctetsRemain - (n + 2 : ℕ) := by omega
  have htake : s.pMsg ++ [c].take (min 1 (cfg.iMaxLine - s.pMsg.length)) ++ rest.take (min (n + 1)
        (cfg.iMaxLine - (s.pMsg ++ [c].take (min 1 (cfg.iMaxLine - s.pMsg.length))).length)) =
      s.pMsg ++ (c :: rest).take (min (n + 2) (cfg.iMaxLine - s.pMsg.length)) := by
    rw [length_append, Nat.sub_add_eq]
    cases cfg.iMaxLine - s.pMsg.length with
    | zero => simp
    | succ room => simp [show min (n + 2) (room + 1) = min (n + 1) room + 1 by omega]
  refine ⟨{ s with
    pMsg := s.pMsg ++ [c].take (min 1 (cfg.iMaxLine - s.pMsg.length))
    iOctetsRemain := s.iOctetsRemain - (1 : ℕ) }, ?_, rfl, rfl, n, ?_, ?_⟩
  · simp only [inMsgCounting, length_singleton, hone]
    exact if_neg (by omega)
  · simp only [inMsgCounting, hn']
    split <;> rfl
  · simp only [inMsgCounting, length_cons, hn, hn', htake, hleft]
    split <;> rfl

/-- The session is inside of a counted message that does not end with the next octet. -/
def InBlock (s : TcpsSess) : Prop :=
  s.inputState = .eInMsg ∧ s.eFraming = .octetCounting ∧ 1 < s.iOctetsRemain

lemma processDataRcvd_counting (hs : s.inputState = .eInMsg)
    (hfram : s.eFraming = .octetCounting) (c : UInt8) (rest : Bytes) :
    processDataRcvd cfg s c rest = inMsgCounting cfg s (c :: rest) := by
  simp [processDataRcvd, inFrame, hs, hfram]

lemma processDataRcvd_of_not_inBlock (hmulti : cfg.multiLine = false) (h : ¬InBlock s)
    (rest : Bytes) :
    processDataRcvd cfg s c rest = processDataRcvd cfg s c [] ∧
      (processDataRcvd cfg s c rest).2.2 ≤ 1 := by
  have hframe {s : TcpsSess} (h : ¬InBlock s) :
      inFrame cfg s c rest = inFrame cfg s c [] ∧ (inFrame cfg s c rest).2.2 ≤ 1 := by
    simp only [inFrame, inMsgStuffing, hmulti]
    cases hstate : s.inputState with
    | eInMsg =>
      cases hfram : s.eFraming with
      | octetStuffing => simp
      | octetCounting =>
        exact inMsgCounting_last (not_lt.mp fun hremain => h ⟨hstate, hfram, hremain⟩)
    | _ => exact ⟨rfl, le_rfl⟩
  rw [processDataRcvd, processDataRcvd]
  split
  case isTrue =>
    split
    · exact hframe (by simp [InBlock])
    split
    · exact ⟨rfl, le_rfl⟩
    · exact hframe (by simp [InBlock])
  case isFalse => exact hframe h

/-- The call for one octet that is received alone. -/
def octetRcvd (cfg : PtcpSrv) (s : TcpsSess) (c : UInt8) : TcpsSess × List Bytes :=
  ((processDataRcvd cfg s c []).1, (processDataRcvd cfg s c []).2.1)

lemma DataRcvdUncompressed_cons (hmulti : cfg.multiLine = false) :
    DataRcvdUncompressed cfg s (c :: rest) =
      ((DataRcvdUncompressed cfg (octetRcvd cfg s c).1 rest).1,
        (octetRcvd cfg s c).2 ++ (DataRcvdUncompressed cfg (octetRcvd cfg s c).1 rest).2) := by
  rw [DataRcvdUncompressed, octetRcvd]
  cases rest with
  | nil => rw [drop_nil]
  | cons d rest =>
    by_cases h : InBlock s
    · obtain ⟨s', hfirst, hs, hfram, n, hn, hblock⟩ := inMsgCounting_cons h.2.2 (cons_ne_nil d rest)
      rw [processDataRcvd_counting h.1 h.2.1, processDataRcvd_counting h.1 h.2.1, hblock, hfirst,
        DataRcvdUncompressed.eq_2 cfg s',
        processDataRcvd_counting (hs.trans h.1) (hfram.trans h.2.1), hn]
      rfl
    · obtain ⟨hsame, hone⟩ := processDataRcvd_of_not_inBlock hmulti h (d :: rest)
      rw [Nat.sub_eq_zero_of_le hone, drop_zero, hsame]

lemma feed_chunks (hmulti : cfg.multiLine = false) (chunks : List Bytes) :
    feed (DataRcvdUncompressed cfg) s chunks = feed (octetRcvd cfg) s chunks.flatten := by
  have hfeed : DataRcvdUncompressed cfg = feed (octetRcvd cfg) := by
    funext s pData
    induction pData generalizing s with
    | nil => rw [DataRcvdUncompressed, feed_nil]
    | cons c rest ih => rw [DataRcvdUncompressed_cons hmulti, feed_cons, ih]
  rw [hfeed, feed_feed]

/-- **Chunks do not matter.** Without multi-line mode, what is submitted and the session behind it
depend only on the octets. -/
theorem session_of_chunks (hmulti : cfg.multiLine = false) {chunks chunks' : List Bytes}
    (h : chunks.flatten = chunks'.flatten) :
    feed (DataRcvdUncompressed cfg) .construct chunks =
      feed (DataRcvdUncompressed cfg) .construct chunks' := by
  rw [feed_chunks hmulti, feed_chunks hmulti, h]

end

/-! ## What is submitted -/

def sent (msgs : List Bytes) : Bytes := msgs.flatMap (· ++ [10])

def truncated (n : ℕ) (msgs : List Bytes) : List Bytes :=
  (msgs.map (take n)).filter (· ≠ [])

/-- The messages as they do arrive, with the octets `left` in the buffer. -/
def submitted (n : ℕ) : Bytes → List Bytes → List Bytes
  | _, [] => []
  | left, m :: msgs =>
    truncated n [left ++ m] ++ submitted n (((left ++ m).drop n).take 1) msgs

/-- A message holds no delimiter, and its first octet has no meaning of its own at the start of a
frame. -/
structure Plain (m : Bytes) : Prop where
  noDelim : ∀ c ∈ m, cfg.isDelim c = false
  noDigit : ∀ c ∈ m.head?, cfg.bSuppOctetFram → isDigit c = false
  noSpace : ∀ c ∈ m.head?, cfg.bSPFramingFix → c ≠ 32

variable {cfg : PtcpSrv} {s : TcpsSess} {c : UInt8} {m : Bytes} {msgs : List Bytes} {n : ℕ}

@[simp] lemma truncated_nil : truncated n [] = [] := rfl

lemma truncated_cons (m : Bytes) (msgs : List Bytes) :
    truncated n (m :: msgs) = truncated n [m] ++ truncated n msgs := by
  rw [← singleton_append]
  simp only [truncated, map_append, filter_append]

lemma truncated_of_length_le (h : m.length ≤ n) : truncated n [m] = if m = [] then [] else [m] := by
  by_cases hm : m = [] <;> simp [truncated, take_of_length_le h, hm]

@[simp] lemma isDelim_LF : cfg.isDelim 10 = true := by
  simp [PtcpSrv.isDelim]

/-! ## What is read

A session between two frames may have octets in its buffer. -/

section

variable {left : Bytes} {fram : TCPFRAMINGMODE} {k : ℤ}

/-- Discarding goes on to the delimiter, which finds the buffer as it was left. -/
lemma feed_truncating (hm : ∀ c ∈ m, cfg.isDelim c = false) :
    feed (octetRcvd cfg) ⟨.eInMsgTruncating, fram, k, left⟩ (m ++ [10]) =
      (⟨.eAtStrtFram, fram, k, left⟩, []) := by
  have hoctet (c : UInt8) : octetRcvd cfg ⟨.eInMsgTruncating, fram, k, left⟩ c =
      (if cfg.isDelim c then ⟨.eAtStrtFram, fram, k, left⟩
        else ⟨.eInMsgTruncating, fram, k, left⟩, []) := rfl
  induction m with
  | nil => rw [nil_append, feed_cons, hoctet, isDelim_LF, if_pos rfl, feed_nil, nil_append]
  | cons c m ih =>
    obtain ⟨hc, hm⟩ := forall_mem_cons.mp hm
    rw [cons_append, feed_cons, hoctet, hc, if_neg (by decide), ih hm, nil_append]

variable (hsingle : cfg.multiLine = false) (hdiscard : cfg.discardTruncatedMsg = true)

include hsingle hdiscard

/-- The rest of a message. The octet that finds the buffer full is what the buffer holds then. -/
lemma feed_inMsg (hm : ∀ c ∈ m, cfg.isDelim c = false) (hleft : left.length ≤ cfg.iMaxLine) :
    feed (octetRcvd cfg) ⟨.eInMsg, .octetStuffing, k, left⟩ (m ++ [10]) =
      (⟨.eAtStrtFram, .octetStuffing, k, ((left ++ m).drop cfg.iMaxLine).take 1⟩,
        truncated cfg.iMaxLine [left ++ m]) := by
  have hoctet (left : Bytes) (c : UInt8) :
      octetRcvd cfg ⟨.eInMsg, .octetStuffing, k, left⟩ c =
        inMsgStuffing cfg ⟨.eInMsg, .octetStuffing, k, left⟩ c none := rfl
  induction m generalizing left with
  | nil =>
    have hout : inMsgStuffing cfg ⟨.eInMsg, .octetStuffing, k, left⟩ 10 none =
        (⟨.eAtStrtFram, .octetStuffing, k, []⟩, truncated cfg.iMaxLine [left]) := by
      rw [truncated_of_length_le hleft]
      by_cases hfull : cfg.iMaxLine ≤ left.length <;>
        simp [inMsgStuffing, flush, doSubmitMsg, hfull, hsingle, hdiscard]
    rw [nil_append, feed_cons, hoctet, hout, append_nil, drop_eq_nil_of_le hleft, feed_nil,
      append_nil]
    rfl
  | cons c m ih =>
    obtain ⟨hc, hm⟩ := forall_mem_cons.mp hm
    rw [cons_append, feed_cons, hoctet]
    rcases hleft.lt_or_eq with hlt | heq
    · have hout : inMsgStuffing cfg ⟨.eInMsg, .octetStuffing, k, left⟩ c none =
          (⟨.eInMsg, .octetStuffing, k, left ++ [c]⟩, []) := by
        simp [inMsgStuffing, flush, PtcpSrv.store, hc, hlt, Nat.not_le.mpr hlt]
      have hroom : (left ++ [c]).length ≤ cfg.iMaxLine := by
        rw [length_append, length_singleton]
        exact hlt
      rw [hout, ih hm hroom, append_assoc, singleton_append, nil_append]
    · have hpos := cfg.iMaxLine_ge
      have hne : left ≠ [] := ne_nil_of_length_pos (by omega)
      have hout : inMsgStuffing cfg ⟨.eInMsg, .octetStuffing, k, left⟩ c none =
          (⟨.eInMsgTruncating, .octetStuffing, k, [c]⟩, [left]) := by
        simp [inMsgStuffing, flush, doSubmitMsg, PtcpSrv.store, hc, heq, hne, hdiscard,
          show 0 < cfg.iMaxLine by omega]
      rw [hout, feed_truncating hm, ← heq, drop_left, append_nil]
      simp [truncated, hne]

/-- A message and its delimiter, from one frame to the next. -/
lemma feed_message (hm : Plain cfg m) (hleft : left.length ≤ cfg.iMaxLine) :
    feed (octetRcvd cfg) ⟨.eAtStrtFram, fram, k, left⟩ (m ++ [10]) =
      (⟨.eAtStrtFram, .octetStuffing, k, ((left ++ m).drop cfg.iMaxLine).take 1⟩,
        truncated cfg.iMaxLine [left ++ m]) := by
  -- the first octet is read as any other octet of a message
  have hfirst (c : UInt8) (hdigit : cfg.bSuppOctetFram → isDigit c = false)
      (hspace : cfg.bSPFramingFix → c ≠ 32) : octetRcvd cfg ⟨.eAtStrtFram, fram, k, left⟩ c =
        octetRcvd cfg ⟨.eInMsg, .octetStuffing, k, left⟩ c := by
    have hnd : ¬(cfg.bSuppOctetFram = true ∧ isDigit c = true) := fun ⟨hsupp, hc⟩ =>
      Bool.false_ne_true ((hdigit hsupp).symm.trans hc)
    have hns : ¬(cfg.bSPFramingFix = true ∧ c = 32) := fun ⟨hfix, hc⟩ => hspace hfix hc
    simp [octetRcvd, processDataRcvd, if_neg hnd, if_neg hns]
  rw [← feed_inMsg hsingle hdiscard hm.noDelim hleft]
  cases m with
  | nil => rw [nil_append, feed_cons, hfirst 10 (fun _ => rfl) (fun _ => by decide), feed_cons]
  | cons c m =>
    rw [cons_append, feed_cons, hfirst c (hm.noDigit c rfl) (hm.noSpace c rfl), feed_cons]

/-- **All messages** arrive as `submitted` says. -/
theorem feed_sent (hplain : ∀ m ∈ msgs, Plain cfg m) (hleft : left.length ≤ cfg.iMaxLine) :
    (feed (octetRcvd cfg) ⟨.eAtStrtFram, fram, k, left⟩ (sent msgs)).2 =
      submitted cfg.iMaxLine left msgs := by
  induction msgs generalizing left fram with
  | nil => rfl
  | cons m msgs ih =>
    obtain ⟨hm, hplain⟩ := forall_mem_cons.mp hplain
    have hleft' : (((left ++ m).drop cfg.iMaxLine).take 1).length ≤ cfg.iMaxLine :=
      (length_take_le _ _).trans (by have := cfg.iMaxLine_ge; omega)
    rw [sent, flatMap_cons, feed_append, feed_message hsingle hdiscard hm hleft, ← sent,
      ih hplain hleft', submitted]

end

/-! ## When that is right -/

/-- No message follows one that is too long, unless it and all others start with as many octets as
the buffer holds, each of them the octet that was one too many. -/
def Unspoilt (n : ℕ) : List Bytes → Prop
  | [] => True
  | m :: msgs => match m[n]? with
    | some c => ∀ m' ∈ msgs, m'.take n = replicate n c
    | none => Unspoilt n msgs

lemma length_truncated_le_submitted (left : Bytes) (msgs : List Bytes) :
    (truncated n msgs).length ≤ (submitted n left msgs).length := by
  induction msgs generalizing left with
  | nil => simp
  | cons m msgs ih =>
    have hfst : (truncated n [m]).length ≤ (truncated n [left ++ m]).length := by
      by_cases hm : m.take n = []
      · simp [truncated, hm]
      · have hlm : (left ++ m).take n ≠ [] := by
          intro hlm
          rw [take_eq_nil_iff, append_eq_nil_iff] at hlm
          exact hm (take_eq_nil_iff.mpr (hlm.imp_right And.right))
        simp [truncated, hm, hlm]
    rw [truncated_cons, submitted, length_append, length_append]
    exact Nat.add_le_add hfst (ih _)

lemma take_cons_eq_take_iff : (c :: m).take n = m.take n ↔ m.take n = replicate n c := by
  induction n generalizing m with
  | zero => simp
  | succ n ih =>
    cases m with
    | nil => simp [replicate_succ]
    | cons d m =>
      rw [take_succ_cons, take_succ_cons, replicate_succ, cons.injEq, cons.injEq]
      constructor
      · rintro ⟨rfl, h⟩
        exact ⟨rfl, ih.mp h⟩
      · rintro ⟨rfl, h⟩
        exact ⟨rfl, ih.mpr h⟩

/-- With an octet in the buffer, every message has to hide it. -/
lemma submitted_singleton_eq_iff (hn : 0 < n) :
    submitted n [c] msgs = truncated n msgs ↔ ∀ m ∈ msgs, m.take n = replicate n c := by
  induction msgs with
  | nil => simp [submitted]
  | cons m msgs ih =>
    have hne : (c :: m).take n ≠ [] := by simp [take_eq_nil_iff, hn.ne']
    have hsub : submitted n [c] (m :: msgs) =
        (c :: m).take n :: submitted n (((c :: m).drop n).take 1) msgs := by
      simp [submitted, truncated, hne]
    rw [hsub, truncated_cons, forall_mem_cons]
    by_cases hm : m.take n = []
    · have hlen := length_truncated_le_submitted (n := n) (((c :: m).drop n).take 1) msgs
      constructor
      · intro h
        have := congrArg length h
        simp [truncated, hm] at this hlen
        omega
      · rintro ⟨h, -⟩
        rw [hm] at h
        exact absurd (congrArg length h) (by simp [hn.ne])
    · have htr : truncated n [m] = [m.take n] := by simp [truncated, hm]
      rw [htr, singleton_append, cons.injEq, take_cons_eq_take_iff]
      refine and_congr_right fun h => ?_
      have hnext : ((c :: m).drop n).take 1 = [c] := by
        obtain ⟨k, rfl⟩ := Nat.exists_eq_succ_of_ne_zero hn.ne'
        have hk : m[k]? = some c := by
          rw [← getElem?_take_of_lt (Nat.lt_succ_self k), h, getElem?_replicate, if_pos (by omega)]
        rw [drop_succ_cons, take_one, head?_drop, hk, Option.toList_some]
      rw [hnext, ih]

lemma submitted_nil_eq_iff (hn : 0 < n) :
    submitted n [] msgs = truncated n msgs ↔ Unspoilt n msgs := by
  induction msgs with
  | nil => simp [submitted, Unspoilt]
  | cons m msgs ih =>
    rw [truncated_cons, submitted, nil_append, append_cancel_left_eq, Unspoilt]
    cases hm : m[n]? with
    | none =>
      rw [drop_eq_nil_of_le (getElem?_eq_none_iff.mp hm)]
      exact ih
    | some c =>
      have hnext : (m.drop n).take 1 = [c] := by
        rw [take_one, head?_drop, hm, Option.toList_some]
      rw [hnext]
      exact submitted_singleton_eq_iff hn

/-- **The messages of a connection.** With octet stuffing, and the rest of a too long message
discarded, each message arrives cut to the size of the buffer, however the stream is cut into
chunks, if and only if none is spoilt by the octet that a message before it left behind. -/
theorem messages_received_iff (cfg : PtcpSrv) (hdiscard : cfg.discardTruncatedMsg = true)
    (hsingle : cfg.multiLine = false) (msgs : List Bytes) (hplain : ∀ m ∈ msgs, Plain cfg m)
    (chunks : List Bytes) (hstream : chunks.flatten = sent msgs) :
    (feed (DataRcvdUncompressed cfg) TcpsSess.construct chunks).2 = truncated cfg.iMaxLine msgs ↔
      Unspoilt cfg.iMaxLine msgs := by
  have hn : 0 < cfg.iMaxLine := by have := cfg.iMaxLine_ge; omega
  rw [feed_chunks hsingle, hstream, TcpsSess.construct,
    feed_sent hsingle hdiscard hplain (Nat.zero_le _)]
  exact submitted_nil_eq_iff hn

def discarding : PtcpSrv :=
  ⟨true, true, TCPSRV_NO_ADDTL_DELIMITER, 200000, true, false, 128, le_rfl⟩

lemma plain_discarding (hm : ∀ c ∈ m, c = 97 ∨ c = 98) : Plain discarding m := by
  refine ⟨fun c hc => ?_, fun c hc _ => ?_, fun c hc _ => ?_⟩
  · rcases hm c hc with rfl | rfl <;> decide
  · rcases hm c (mem_of_mem_head? hc) with rfl | rfl <;> decide
  · rcases hm c (mem_of_mem_head? hc) with rfl | rfl <;> decide

theorem session_of_chunks_frames :
    feed (DataRcvdUncompressed discarding) .construct [[51, 32, 97], [98, 99, 10]] =
      feed (DataRcvdUncompressed discarding) .construct [[51], [32, 97, 98, 99, 10]] :=
  session_of_chunks rfl rfl

theorem messages_received_lastTooLong :
    (feed (DataRcvdUncompressed discarding) TcpsSess.construct
      [[97], 10 :: 10 :: replicate 130 98, [97, 10]]).2 = [[97], replicate 128 98] := by
  have hmsgs : ∀ m ∈ [[97], [], replicate 130 98 ++ [97]], ∀ c ∈ m, c = 97 ∨ c = (98 : UInt8) := by
    simp
  have hrcvd := (messages_received_iff discarding rfl rfl [[97], [], replicate 130 98 ++ [97]]
    (fun m hm => plain_discarding (hmsgs m hm)) [[97], 10 :: 10 :: replicate 130 98, [97, 10]]
    (by decide)).mpr (by simp [Unspoilt, discarding])
  exact hrcvd.trans (by decide)

/-- After a message of 129 octets, the message `a` arrives as `ba`. -/
theorem message_received_spoilt :
    (feed (DataRcvdUncompressed discarding) TcpsSess.construct
      [sent [replicate 128 97 ++ [98], [97]]]).2 = [replicate 128 97, [98, 97]] ∧
    truncated discarding.iMaxLine [replicate 128 97 ++ [98], [97]] = [replicate 128 97, [97]] := by
  have hmsgs : ∀ m ∈ [replicate 128 97 ++ [98], [97]], ∀ c ∈ m, c = 97 ∨ c = (98 : UInt8) := by
    simp
  rw [feed_chunks rfl, flatten_singleton, TcpsSess.construct,
    feed_sent rfl rfl (fun m hm => plain_discarding (hmsgs m hm)) (Nat.zero_le _)]
  decide

end Rsyslog.Imptcp
