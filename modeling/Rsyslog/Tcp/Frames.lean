import Rsyslog.Tcp.Session

/-!
# Frames on a connection

What a session submits for a frame, in one function: `frameOut` follows the octets of the message
through the buffer. Under either framing the session submits just that and is at the start of a
frame again afterwards, so frames can follow each other in any mix, cut into reads in any way.

Without `discardTruncatedMsg`, a message that is too long is split, but the octet that finds the
buffer full is in none of the parts.
-/

namespace Rsyslog.Tcp

open Lib List

variable {cfg : TcpSrv} {s : TcpsSess} {c : UInt8} {cs buf : Bytes}

structure TcpsSess.AtStrtFram (s : TcpsSess) : Prop where
  state : s.inputState = .eAtStrtFram
  empty : s.pMsg = []

/-- What is submitted when `cs` is left of the message and `buf` is in the buffer. -/
def frameOut (cfg : TcpSrv) : Bytes → Bytes → List Bytes
  | buf, [] => if buf = [] then [] else [buf]
  | buf, c :: cs =>
    if buf.length < cfg.iMaxLine then frameOut cfg (buf ++ [c]) cs
    else if cfg.discardTruncatedMsg then [buf]
    else buf :: frameOut cfg [] cs

/-! ## Octet-counted messages -/

lemma ne_nil_of_full (h : ¬buf.length < cfg.iMaxLine) : buf ≠ [] := by
  rintro rfl
  have hpos := cfg.iMaxLine_ge
  simp at h
  omega

lemma feed_truncating_counted (cfg : TcpSrv) (c : UInt8) (cs : Bytes) :
    feed (processDataRcvd cfg) ⟨.eInMsgTruncating, .octetCounting, (c :: cs).length, []⟩ (c :: cs) =
      (⟨.eAtStrtFram, .octetCounting, 0, []⟩, []) := by
  have hstep (n : ℕ) (c : UInt8) : processDataRcvd cfg
      ⟨.eInMsgTruncating, .octetCounting, (n + 1 : ℕ), []⟩ c =
        (⟨if n = 0 then .eAtStrtFram else .eInMsgTruncating, .octetCounting, n, []⟩, []) := by
    simp only [processDataRcvd, inFrame, inMsgTruncating]
    grind
  induction cs generalizing c with
  | nil => exact feed_cons_of_eq (hstep 0 c) feed_nil
  | cons d cs ih => exact feed_cons_of_eq (hstep (cs.length + 1) c) (ih d)

lemma countOctet_counting (cfg : TcpSrv) (buf : Bytes) (submitted : List Bytes) (n : ℕ) :
    countOctet ⟨.eInMsg, .octetCounting, n + 1, buf⟩ submitted =
      if n = 0 then (⟨.eAtStrtFram, .octetCounting, 0, []⟩, submitted ++ frameOut cfg buf [])
      else (⟨.eInMsg, .octetCounting, n, buf⟩, submitted) := by
  simp only [countOctet, defaultDoSubmitMessage, frameOut]
  grind

lemma inMsg_counting (n : ℕ) (buf : Bytes) (c : UInt8) :
    inMsg cfg ⟨.eInMsg, .octetCounting, n + 1, buf⟩ c =
      if buf.length < cfg.iMaxLine then
        countOctet ⟨.eInMsg, .octetCounting, n + 1, buf ++ [c]⟩ []
      else if cfg.discardTruncatedMsg then
        (⟨if n = 0 then .eAtStrtFram else .eInMsgTruncating, .octetCounting, n, []⟩, [buf])
      else countOctet ⟨.eInMsg, .octetCounting, n + 1, []⟩ [buf] := by
  have hfull : ¬buf.length < cfg.iMaxLine → buf ≠ [] := ne_nil_of_full
  rw [inMsg, if_neg (by simp)]
  split_ifs <;> simp_all [defaultDoSubmitMessage]

/-- **The message of an octet-counted frame**, from behind any octet of it on. -/
theorem feed_counted (cfg : TcpSrv) (buf : Bytes) (submitted : List Bytes) (cs : Bytes) :
    feedOn (processDataRcvd cfg)
      (countOctet ⟨.eInMsg, .octetCounting, cs.length + 1, buf⟩ submitted) cs =
      (⟨.eAtStrtFram, .octetCounting, 0, []⟩, submitted ++ frameOut cfg buf cs) := by
  induction cs generalizing buf submitted with
  | nil => rw [countOctet_counting cfg, length_nil, if_pos rfl, feedOn_nil]
  | cons c cs ih =>
    have hstep : processDataRcvd cfg ⟨.eInMsg, .octetCounting, (cs.length + 1 : ℕ), buf⟩ c =
        inMsg cfg ⟨.eInMsg, .octetCounting, cs.length + 1, buf⟩ c := rfl
    rw [countOctet_counting cfg, length_cons, if_neg (Nat.succ_ne_zero _), feedOn_cons,
      hstep, inMsg_counting, frameOut]
    split_ifs with _ _ hlen
    · rw [ih, nil_append]
    · rw [length_eq_zero_iff.mp hlen]
      rfl
    · obtain ⟨d, cs, rfl⟩ := exists_cons_of_length_pos (Nat.pos_of_ne_zero hlen)
      rw [feedOn, feed_truncating_counted, append_nil]
    · rw [ih, singleton_append]

/-! ## Octet-stuffed messages -/

theorem feed_truncating_stuffed {d : UInt8} {k : ℤ} (hd : cfg.isDelim d = true)
    (hcs : ∀ c ∈ cs, cfg.isDelim c = false) :
    feed (processDataRcvd cfg) ⟨.eInMsgTruncating, .octetStuffing, k, []⟩ (cs ++ [d]) =
      (⟨.eAtStrtFram, .octetStuffing, k, []⟩, []) := by
  have hstep (c : UInt8) : processDataRcvd cfg ⟨.eInMsgTruncating, .octetStuffing, k, []⟩ c =
      if cfg.isDelim c then (⟨.eAtStrtFram, .octetStuffing, k, []⟩, [])
      else (⟨.eInMsgTruncating, .octetStuffing, k, []⟩, []) := rfl
  induction cs with
  | nil => rw [nil_append, feed_cons, hstep, if_pos hd, feed_nil, append_nil]
  | cons c cs ih =>
    rw [forall_mem_cons] at hcs
    rw [cons_append, feed_cons, hstep, hcs.1, if_neg Bool.false_ne_true, ih hcs.2, append_nil]

/-- **The message of an octet-stuffed frame**, from any point of it on. -/
theorem feed_stuffed {d : UInt8} {k : ℤ} (hd : cfg.isDelim d = true)
    (hcs : ∀ c ∈ cs, cfg.isDelim c = false) (buf : Bytes) :
    feed (processDataRcvd cfg) ⟨.eInMsg, .octetStuffing, k, buf⟩ (cs ++ [d]) =
      (⟨.eAtStrtFram, .octetStuffing, k, []⟩, frameOut cfg buf cs) := by
  induction cs generalizing buf with
  | nil =>
    have hstep : processDataRcvd cfg ⟨.eInMsg, .octetStuffing, k, buf⟩ d =
        (⟨.eAtStrtFram, .octetStuffing, k, []⟩, frameOut cfg buf []) :=
      (inMsg.eq_def ..).trans (if_pos ⟨hd, rfl⟩)
    rw [nil_append, feed_cons, hstep, feed_nil, append_nil]
  | cons c cs ih =>
    rw [forall_mem_cons] at hcs
    have hstep : processDataRcvd cfg ⟨.eInMsg, .octetStuffing, k, buf⟩ c =
        if buf.length < cfg.iMaxLine then (⟨.eInMsg, .octetStuffing, k, buf ++ [c]⟩, [])
        else if cfg.discardTruncatedMsg then (⟨.eInMsgTruncating, .octetStuffing, k, []⟩, [buf])
        else (⟨.eInMsg, .octetStuffing, k, []⟩, [buf]) := by
      have hfull : ¬buf.length < cfg.iMaxLine → buf ≠ [] := ne_nil_of_full
      refine (inMsg.eq_def ..).trans ((if_neg (by simp [hcs.1])).trans ?_)
      split_ifs <;> simp_all [countOctet, defaultDoSubmitMessage]
    rw [cons_append, feed_cons, hstep, frameOut]
    split_ifs
    · exact ih hcs.2 _
    · rw [feed_truncating_stuffed hd hcs.2, append_nil]
    · rw [ih hcs.2, singleton_append]

/-! ## Whole frames -/

def octetCount (digits : Bytes) : ℕ := digits.foldl (fun n d => n * 10 + (d.toNat - 48)) 0

inductive Frame
  | counted (digits msg : Bytes)
  | stuffed (msg : Bytes) (delim : UInt8)

def Frame.msg : Frame → Bytes
  | .counted _ msg | .stuffed msg _ => msg

def Frame.bytes : Frame → Bytes
  | .counted digits msg => digits ++ [32] ++ msg
  | .stuffed msg delim => msg ++ [delim]

def Frame.WellFormed (cfg : TcpSrv) : Frame → Prop
  | .counted digits msg =>
    cfg.bSuppOctetFram ∧ digits ≠ [] ∧ (∀ d ∈ digits, isDigit d) ∧ octetCount digits = msg.length ∧
      msg ≠ [] ∧ msg.length ≤ cfg.maxFrameSize
  | .stuffed msg delim =>
    cfg.isDelim delim ∧ (∀ c ∈ msg, cfg.isDelim c = false) ∧
      ∀ c ∈ (msg ++ [delim]).head?,
        ¬(isDigit c ∧ cfg.bSuppOctetFram) ∧ ¬(c = 32 ∧ cfg.bSPFramingFix)

lemma foldl_cntDigit {ds : Bytes} (hds : ∀ d ∈ ds, isDigit d) (n : ℕ)
    (hle : ds.foldl (fun n d => n * 10 + (d.toNat - 48)) n ≤ 200000000) :
    n ≤ 200000000 ∧
      ds.foldl cntDigit n = ds.foldl (fun n d => n * 10 + (d.toNat - 48)) n := by
  induction ds generalizing n with
  | nil => exact ⟨hle, rfl⟩
  | cons d ds ih =>
    rw [forall_mem_cons] at hds
    rw [foldl_cons] at hle
    obtain ⟨hnext, hrest⟩ := ih hds.2 _ hle
    have hdigit := (isDigit_iff.1 hds.1).1
    have hn : n ≤ 200000000 := by omega
    have hstep : cntDigit n d = (n * 10 + (d.toNat - 48) : ℕ) := by
      rw [cntDigit]
      omega
    rw [foldl_cons, foldl_cons, ← hrest, hstep]
    exact ⟨hn, rfl⟩

lemma octetCount_decimal (n : ℕ) : octetCount (decimal n) = n := by
  refine foldl_decimal _ id n fun m d hd _ => ?_
  rw [toNat_digit hd]
  show m * 10 + (48 + d - 48) = m * 10 + d
  omega

lemma feed_digits (cfg : TcpSrv) {ds : Bytes} (hds : ∀ d ∈ ds, isDigit d) (n : ℤ) (buf : Bytes) :
    ∃ buf', feed (processDataRcvd cfg) ⟨.eInOctetCnt, .octetCounting, n, buf⟩ ds =
      (⟨.eInOctetCnt, .octetCounting, ds.foldl cntDigit n, buf'⟩, []) := by
  induction ds generalizing n buf with
  | nil => exact ⟨buf, rfl⟩
  | cons d ds ih =>
    rw [forall_mem_cons] at hds
    obtain ⟨buf', hrest⟩ := ih hds.2 (cntDigit n d)
      (if buf.length < cfg.iMaxLine then buf ++ [d] else buf)
    have hstep : processDataRcvd cfg ⟨.eInOctetCnt, .octetCounting, n, buf⟩ d = _ :=
      (inOctetCnt.eq_def ..).trans (if_pos hds.1)
    exact ⟨buf', feed_cons_of_eq hstep hrest⟩

/-- **One frame.** From the start of a frame to the start of the next, its message goes through the
buffer. -/
theorem feed_frame {f : Frame} (hf : f.WellFormed cfg) (hs : s.AtStrtFram) :
    ∃ s', feed (processDataRcvd cfg) s f.bytes = (s', frameOut cfg [] f.msg) ∧ s'.AtStrtFram := by
  obtain ⟨state, fram, k, buf⟩ := s
  obtain ⟨rfl, rfl⟩ : state = .eAtStrtFram ∧ buf = [] := ⟨hs.state, hs.empty⟩
  cases f with
  | counted digits msg =>
    obtain ⟨hsupp, hne, hds, hcount, hmsg, hmax⟩ := hf
    obtain ⟨d, ds, rfl⟩ := exists_cons_of_ne_nil hne
    obtain ⟨c, cs, rfl⟩ := exists_cons_of_ne_nil hmsg
    -- the first digit is read like one that comes after the start of the frame
    have hstart : processDataRcvd cfg ⟨.eAtStrtFram, fram, k, []⟩ d =
        processDataRcvd cfg ⟨.eInOctetCnt, .octetCounting, 0, []⟩ d := by
      rw [processDataRcvd, if_pos rfl, if_pos ⟨hds d mem_cons_self, hsupp⟩]
      rfl
    have hmaxSize := cfg.maxFrameSize_le
    have hvalue : (d :: ds).foldl cntDigit 0 = (c :: cs).length := by
      rw [← hcount]
      exact (foldl_cntDigit hds 0 (show octetCount (d :: ds) ≤ 200000000 by omega)).2
    obtain ⟨buf, hdigits⟩ := feed_digits cfg hds 0 []
    rw [feed_cons, ← hstart, ← feed_cons, hvalue] at hdigits
    have hspace : processDataRcvd cfg ⟨.eInOctetCnt, .octetCounting, (c :: cs).length, buf⟩ 32 =
        (⟨.eInMsg, .octetCounting, (c :: cs).length, []⟩, []) := by
      have hpos : ¬((c :: cs).length : ℤ) < 1 := by simp
      have hmax' : ¬((c :: cs).length : ℤ) > cfg.maxFrameSize := hmax.not_gt
      refine (inOctetCnt.eq_def cfg _ 32).trans ((if_neg (by decide)).trans ?_)
      simp only [if_neg hpos, if_neg hmax']
    have hbody := feed_counted cfg [] [] (c :: cs)
    rw [countOctet_counting cfg, length_cons, if_neg (Nat.succ_ne_zero _)] at hbody
    have hcount := feed_append_of_eq hdigits (feed_cons_of_eq hspace feed_nil)
    exact ⟨_, feed_append_of_eq hcount hbody, rfl, rfl⟩
  | stuffed msg delim =>
    obtain ⟨hdelim, hmsg, hfirst⟩ := hf
    obtain ⟨c, rest, hbytes⟩ := exists_cons_of_ne_nil
      (append_ne_nil_of_right_ne_nil msg (cons_ne_nil delim []))
    rw [hbytes] at hfirst
    obtain ⟨hdigit, hspace⟩ := hfirst c rfl
    have hstart : processDataRcvd cfg ⟨.eAtStrtFram, fram, k, []⟩ c =
        processDataRcvd cfg ⟨.eInMsg, .octetStuffing, k, []⟩ c := by
      rw [processDataRcvd, if_pos rfl, if_neg hdigit, if_neg hspace]
      rfl
    have hbody := feed_stuffed (k := k) hdelim hmsg []
    rw [hbytes, feed_cons, ← hstart, ← feed_cons, ← hbytes] at hbody
    exact ⟨_, hbody, rfl, rfl⟩

/-! ## Messages that are truncated -/

theorem frameOut_discard (hdiscard : cfg.discardTruncatedMsg = true)
    (hbuf : buf.length ≤ cfg.iMaxLine)
    (hne : buf ++ cs ≠ []) : frameOut cfg buf cs = [(buf ++ cs).take cfg.iMaxLine] := by
  induction cs generalizing buf with
  | nil =>
    rw [append_nil] at hne ⊢
    rw [frameOut, if_neg hne, take_of_length_le hbuf]
  | cons c cs ih =>
    rw [frameOut]
    split_ifs with hroom
    · rw [ih (by rw [length_append]; exact hroom) (by simp), append_assoc]
      rfl
    · rw [take_append_of_le_length (by omega), take_of_length_le hbuf]

/-- What may be sent: under either framing, to a session with these settings. -/
structure Sendable (cfg : TcpSrv) (tcp_framing : TCPFRAMINGMODE) (msg : Bytes) : Prop where
  nonempty : msg ≠ []
  counted : tcp_framing = .octetCounting →
    cfg.bSuppOctetFram = true ∧ msg.length ≤ cfg.maxFrameSize
  stuffed : tcp_framing = .octetStuffing →
    (∀ c ∈ msg, cfg.isDelim c = false) ∧ ∀ c ∈ msg.head?,
      c ≠ 122 ∧ (cfg.bSuppOctetFram = true → isDigit c = false) ∧
        (cfg.bSPFramingFix = true → c ≠ 32)

lemma sendable_stuffed {cfg : TcpSrv} {c : UInt8} {cs : Bytes}
    (hdelim : (c :: cs).all (fun c => !cfg.isDelim c) = true) (hz : c ≠ 122)
    (hdigit : isDigit c = false) (hsp : c ≠ 32) : Sendable cfg .octetStuffing (c :: cs) where
  nonempty := cons_ne_nil c cs
  counted := nofun
  stuffed _ := by
    refine ⟨fun b hb => by simpa using all_eq_true.mp hdelim b hb, ?_⟩
    rintro b ⟨⟩
    exact ⟨hz, fun _ => hdigit, fun _ => hsp⟩

def frameOf (delim : UInt8) : TCPFRAMINGMODE × Bytes → Frame
  | (.octetCounting, msg) => .counted (decimal msg.length) msg
  | (.octetStuffing, msg) => .stuffed msg delim

lemma frameOf_wellFormed {delim : UInt8} (hdelim : cfg.isDelim delim = true)
    {m : TCPFRAMINGMODE × Bytes} (hm : Sendable cfg m.1 m.2) :
    (frameOf delim m).WellFormed cfg := by
  obtain ⟨framing, msg⟩ := m
  cases framing with
  | octetCounting =>
    obtain ⟨hsupp, hmax⟩ := hm.counted rfl
    exact ⟨hsupp, decimal_ne_nil _, fun d hd => isDigit_of_mem_decimal hd, octetCount_decimal _,
      hm.nonempty, hmax⟩
  | octetStuffing =>
    obtain ⟨hfree, hfirst⟩ := hm.stuffed rfl
    refine ⟨hdelim, hfree, fun c hc => ?_⟩
    rw [head?_append_of_ne_nil _ hm.nonempty] at hc
    obtain ⟨-, hdigit, hspace⟩ := hfirst c hc
    exact ⟨fun h => by simp [hdigit h.2] at h, fun h => hspace h.2 h.1⟩

lemma eq_of_charToInt_eq {c d : UInt8} (h : charToInt c = d.toNat) : c = d := by
  have hc : charToInt c = if 2 * c.toNat < 256 then (c.toNat : ℤ) else c.toNat - 256 :=
    BitVec.toInt_eq_toNat_cond c.toBitVec
  have hlt := c.toNat_lt
  rw [hc] at h
  split_ifs at h
  · exact UInt8.toNat_inj.mp (by omega)
  · omega

lemma TCPSendBldFrame_eq {delim : UInt8} (hdelim : cfg.isDelim delim = true)
    {m : TCPFRAMINGMODE × Bytes} (hm : Sendable cfg m.1 m.2) :
    TCPSendBldFrame m.1 delim m.2 = some (frameOf delim m).bytes := by
  obtain ⟨framing, msg⟩ := m
  cases framing with
  | octetCounting =>
    have hmax : (msg.length : ℤ) ≤ cfg.maxFrameSize := (hm.counted rfl).2
    have hmaxSize := cfg.maxFrameSize_le
    have hint : (Int32.ofNat msg.length).toInt = msg.length := Int32.toInt_ofNat_of_lt (by omega)
    have hnum : decimalInt (Int32.ofNat msg.length).toInt = decimal msg.length := by
      rw [hint, decimalInt, if_neg (by omega), Int.natAbs_natCast, nil_append]
    rw [TCPSendBldFrame, hnum]
    simp only [ite_self]
    rfl
  | octetStuffing =>
    obtain ⟨hfree, hfirst⟩ := hm.stuffed rfl
    have hz : msg.head? ≠ some 122 := fun h => (hfirst 122 h).1 rfl
    have hlast := getLast_mem hm.nonempty
    have hadd : charToInt (msg.getLast hm.nonempty) ≠ delim.toNat := by
      intro heq
      have hdelim' := hfree _ hlast
      rw [eq_of_charToInt_eq heq, hdelim] at hdelim'
      cases hdelim'
    rw [TCPSendBldFrame, if_neg hz, getLast?_eq_some_getLast hm.nonempty]
    exact congrArg some (if_pos hadd)

/-- **Messages arrive.** Whatever mix of framings they are sent in and however the stream is cut
into reads, the messages are submitted in order, each cut to the size of the buffer. -/
theorem frames_received (cfg : TcpSrv) (hdiscard : cfg.discardTruncatedMsg = true) (delim : UInt8)
    (hdelim : cfg.isDelim delim = true) (msgs : List (TCPFRAMINGMODE × Bytes))
    (hmsgs : ∀ m ∈ msgs, Sendable cfg m.1 m.2) :
    ∃ frames, (msgs.mapM fun m => TCPSendBldFrame m.1 delim m.2) = some frames ∧
      ∀ reads : List Bytes, reads.flatten = frames.flatten →
        ∃ s, feed (DataRcvd cfg) .construct reads =
            (s, msgs.map fun m => m.2.take cfg.iMaxLine) ∧ s.inputState = .eAtStrtFram := by
  refine ⟨msgs.map fun m => (frameOf delim m).bytes, ?_, ?_⟩
  · induction msgs with
    | nil => rfl
    | cons m msgs ih =>
      rw [forall_mem_cons] at hmsgs
      rw [mapM_cons, TCPSendBldFrame_eq hdelim hmsgs.1, ih hmsgs.2]
      rfl
  · intro reads hreads
    have hframe : ∀ m ∈ msgs, ∀ s : TcpsSess, s.AtStrtFram →
        ∃ s', feed (processDataRcvd cfg) s (frameOf delim m).bytes =
          (s', [m.2.take cfg.iMaxLine]) ∧ s'.AtStrtFram := by
      intro m hm s hs
      have hout : frameOut cfg [] (frameOf delim m).msg = [m.2.take cfg.iMaxLine] := by
        have hmsg : (frameOf delim m).msg = m.2 := by
          obtain ⟨_ | _, _⟩ := m <;> rfl
        have hempty : ([] : Bytes).length ≤ cfg.iMaxLine := Nat.zero_le _
        rw [hmsg]
        exact frameOut_discard hdiscard hempty (hmsgs m hm).nonempty
      rw [← hout]
      exact feed_frame (frameOf_wellFormed hdelim (hmsgs m hm)) hs
    obtain ⟨s, hfeed, hs⟩ := feed_frames hframe (s := .construct) ⟨rfl, rfl⟩
    refine ⟨s, ?_, hs.state⟩
    show feed (feed (processDataRcvd cfg)) _ _ = _
    rw [feed_feed, hreads, hfeed, ← flatMap_def, ← map_eq_flatMap]

/-- An `imtcp` listener with its defaults, but for `discardTruncatedMsg` and the maximum length. -/
def lineListener : TcpSrv where
  bSuppOctetFram := true
  bSPFramingFix := false
  bDisableLFDelim := false
  addtlFrameDelim := TCPSRV_NO_ADDTL_DELIMITER
  maxFrameSize := 200000
  discardTruncatedMsg := true
  iMaxLine := 128
  maxFrameSize_le := by decide
  iMaxLine_ge := by decide

def mixedMsgs : List (TCPFRAMINGMODE × Bytes) :=
  [(.octetStuffing, ascii "<13>a"), (.octetCounting, List.replicate 130 10),
    (.octetStuffing, ascii "<13>b")]

theorem frames_received_mixedMsgs :
    ∃ frames, (mixedMsgs.mapM fun m => TCPSendBldFrame m.1 10 m.2) = some frames ∧
      ∀ reads : List Bytes, reads.flatten = frames.flatten →
        ∃ s, feed (DataRcvd lineListener) .construct reads =
          (s, [ascii "<13>a", List.replicate 128 10, ascii "<13>b"]) ∧
          s.inputState = .eAtStrtFram := by
  have hmsgs : ∀ m ∈ mixedMsgs, Sendable lineListener m.1 m.2 := by
    intro m hm
    simp only [mixedMsgs, mem_cons, not_mem_nil, or_false] at hm
    rcases hm with rfl | rfl | rfl
    · exact sendable_stuffed (c := 60) (by decide) (by decide) (by decide) (by decide)
    · exact ⟨by simp, fun _ => ⟨rfl, by simp [lineListener]⟩, nofun⟩
    · exact sendable_stuffed (c := 60) (by decide) (by decide) (by decide) (by decide)
  exact frames_received lineListener rfl 10 rfl mixedMsgs hmsgs

/-- A listener without octet-counted framing takes the count for a part of the message. -/
theorem octet_count_not_supported :
    (TCPSendBldFrame .octetCounting 10 (ascii "hi")).map
        (feed (DataRcvd { lineListener with bSuppOctetFram := false }) .construct [·]) =
      some (⟨.eInMsg, .octetStuffing, 0, ascii "2 hi"⟩, []) := by
  decide

/-! ## Messages that are split -/

lemma frameOut_append (hfit : buf.length + cs.length ≤ cfg.iMaxLine) (cs' : Bytes) :
    frameOut cfg buf (cs ++ cs') = frameOut cfg (buf ++ cs) cs' := by
  induction cs generalizing buf with
  | nil => rw [nil_append, append_nil]
  | cons c cs ih =>
    rw [length_cons] at hfit
    rw [cons_append, frameOut, if_pos (by omega), ih (by simp; omega), append_assoc]
    rfl

lemma flatten_frameOut_of_le (hfit : buf.length + cs.length ≤ cfg.iMaxLine) :
    (frameOut cfg buf cs).flatten = buf ++ cs := by
  have hall := frameOut_append hfit []
  rw [append_nil, frameOut] at hall
  rw [hall]
  split_ifs with h
  · rw [h]
    rfl
  · simp

lemma frameOut_spec (hbuf : buf.length ≤ cfg.iMaxLine) :
    (∀ m ∈ frameOut cfg buf cs, m.length ≤ cfg.iMaxLine) ∧
      (frameOut cfg buf cs).flatten.length ≤ buf.length + cs.length ∧
      (cfg.iMaxLine < buf.length + cs.length →
        (frameOut cfg buf cs).flatten.length < buf.length + cs.length) := by
  induction cs generalizing buf with
  | nil =>
    rw [frameOut]
    split_ifs <;> simp [hbuf]
  | cons c cs ih =>
    rw [frameOut, length_cons]
    split_ifs with hroom hdiscard
    · obtain ⟨hmem, hlen⟩ := @ih (buf ++ [c]) (by rw [length_append]; exact hroom)
      rw [length_append, length_singleton] at hlen
      exact ⟨hmem, by omega⟩
    · simp [hbuf]
    · obtain ⟨hmem, hlen⟩ := @ih [] (Nat.zero_le _)
      rw [length_nil] at hlen
      rw [flatten_cons, length_append]
      exact ⟨forall_mem_cons.mpr ⟨hbuf, hmem⟩, by omega⟩

/-- **Splitting loses octets.** The messages submitted for a frame make up its content exactly if it
fits the buffer, so that it is not split. -/
theorem split_lossless_iff (cfg : TcpSrv) (s : TcpsSess) (hs : s.AtStrtFram) (f : Frame)
    (hf : f.WellFormed cfg) :
    (∃ s' out, feed (processDataRcvd cfg) s f.bytes = (s', out) ∧ s'.AtStrtFram ∧
      (∀ m ∈ out, m.length ≤ cfg.iMaxLine) ∧ out.flatten = f.msg) ↔
      f.msg.length ≤ cfg.iMaxLine := by
  have hempty : ([] : Bytes).length ≤ cfg.iMaxLine := Nat.zero_le _
  obtain ⟨s₁, hfeed, hs₁⟩ := feed_frame hf hs
  obtain ⟨hmem, -, hlt⟩ := @frameOut_spec cfg f.msg [] hempty
  constructor
  · rintro ⟨s', out, hout, -, -, hflat⟩
    rw [hfeed] at hout
    cases hout
    rw [hflat, length_nil] at hlt
    omega
  · intro hfit
    refine ⟨s₁, _, hfeed, hs₁, hmem, ?_⟩
    rw [flatten_frameOut_of_le (by rw [length_nil]; omega), nil_append]

def splitListener : TcpSrv := { lineListener with discardTruncatedMsg := false }

def aFrame (rest : Bytes) : Frame := .stuffed (List.replicate 128 97 ++ rest) 10

lemma aFrame_wellFormed {rest : Bytes} (hrest : 10 ∉ rest) :
    (aFrame rest).WellFormed splitListener := by
  refine ⟨rfl, fun c hc => ?_, fun c hc => ?_⟩
  · rcases mem_append.mp hc with hc | hc
    · rw [eq_of_mem_replicate hc]
      rfl
    · have hne : c ≠ 10 := fun h => hrest (h ▸ hc)
      simp [TcpSrv.isDelim, hne, splitListener, lineListener]
  · cases hc
    decide

theorem split_lossless_iff_aFrame :
    ∃ s' out, feed (processDataRcvd splitListener) .construct (aFrame []).bytes = (s', out) ∧
      s'.AtStrtFram ∧ (∀ m ∈ out, m.length ≤ 128) ∧ out.flatten = (aFrame []).msg :=
  (split_lossless_iff splitListener .construct ⟨rfl, rfl⟩ (aFrame [])
    (aFrame_wellFormed (by simp))).mpr (by simp [aFrame, Frame.msg, splitListener, lineListener])

/-- Of the line with `bc` after them, the `b` is lost. -/
theorem split_loses_octet :
    ∃ s', feed (processDataRcvd splitListener) .construct (aFrame (ascii "bc")).bytes =
      (s', [List.replicate 128 97, ascii "c"]) ∧ s'.AtStrtFram := by
  have hwf : (aFrame (ascii "bc")).WellFormed splitListener := aFrame_wellFormed (by decide)
  obtain ⟨s', hfeed, hs'⟩ := feed_frame (s := .construct) hwf ⟨rfl, rfl⟩
  refine ⟨s', ?_, hs'⟩
  have hfit : ([] : Bytes).length + (List.replicate 128 (97 : UInt8)).length ≤
      splitListener.iMaxLine := by simp [splitListener, lineListener]
  rw [hfeed, aFrame, Frame.msg, frameOut_append hfit]
  show (s', frameOut splitListener (List.replicate 128 97) [98, 99]) = (s', [_, [99]])
  simp [frameOut, splitListener, lineListener]

end Rsyslog.Tcp
