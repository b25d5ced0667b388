import Rsyslog.Lib.Memory
import Rsyslog.Lib.Run
import Rsyslog.Msg.Serialize

/-!
# The raw message and its MSG part

The setters of `msg.c` that change the raw message, with the memory they write to. The MSG part is
the end of the raw message from `offMSG` on, and its length is kept in a field of its own: each
setter corrects that field by the difference it makes to the length of the raw message.

A short raw message is stored in the message object, a longer one in a block from `malloc`, which
may fail. Octets that nobody has written are those the block came with. A call for which a length
is not of type `int` has no outcome.
-/

namespace Rsyslog.Msg

open Lib List
open Option (bind_some bind_eq_some_iff map_eq_some_iff map_some)

def CONF_RAWMSG_BUFSIZE : ℕ := 101

inductive RawBuf
  | null
  /-- `szRawMsg` -/
  | fixed
  | heap (n : ℕ) (block : Block UInt8 n)
  deriving DecidableEq

/-- The fields of `smsg_t` for the raw message and its MSG part. -/
structure RawMsg where
  szRawMsg : Block UInt8 CONF_RAWMSG_BUFSIZE
  pszRawMsg : RawBuf
  iLenRawMsg : ℕ
  iLenMSG : ℤ
  offMSG : ℕ
  deriving DecidableEq

abbrev Malloc := (n : ℕ) → Option (Block UInt8 n)

inductive RsRet
  | ok
  | outOfMemory
  deriving DecidableEq

namespace RawMsg

/-! ## Memory -/

def buf (m : RawMsg) : Bytes :=
  match m.pszRawMsg with
  | .null => []
  | .fixed => m.szRawMsg.bytes
  | .heap _ b => b.bytes

def write (m : RawMsg) (i : ℕ) (text : Bytes) : Option RawMsg :=
  match m.pszRawMsg with
  | .null => none
  | .fixed => (m.szRawMsg.write i text).map fun b => { m with szRawMsg := b }
  | .heap n b => (b.write i text).map fun b' => { m with pszRawMsg := .heap n b' }

def read (m : RawMsg) (k : ℕ) : Option Bytes :=
  match m.pszRawMsg with
  | .null => none
  | .fixed => m.szRawMsg.read k
  | .heap _ b => b.read k

def rawMsg (m : RawMsg) : Bytes := m.buf.take m.iLenRawMsg

def MSG (m : RawMsg) : Bytes :=
  if m.iLenMSG = 0 then [] else (m.buf.drop m.offMSG).take m.iLenMSG.toNat

/-! ## Setters -/

/-- `none` is an assertion that fails. -/
def MsgSetMSGoffs (m : RawMsg) (offs : ℕ) : Option RawMsg :=
  if m.iLenRawMsg < offs then
    if offs - 1 = m.iLenRawMsg then some { m with offMSG := offs, iLenMSG := 0 } else none
  else some { m with offMSG := offs, iLenMSG := m.iLenRawMsg - offs }

def putMSG (m : RawMsg) (text : Bytes) (lenNew : ℤ) : Option RawMsg :=
  (if 0 < text.length then m.write m.offMSG text else some m).bind fun m =>
    if lenNew < 0 then none
    else (m.write lenNew.toNat [0]).map fun m =>
      { m with iLenRawMsg := lenNew.toNat, iLenMSG := text.length }

variable (malloc : Malloc)

/-- The new buffer of `MsgReplaceMSG`, with the octets before the MSG part copied to it. -/
def growBuf (m : RawMsg) (size : ℕ) : Option (RsRet × RawMsg) :=
  match malloc size with
  | none => some (.outOfMemory, m)
  | some bufNew =>
    (m.read m.offMSG).bind fun head =>
      (bufNew.write 0 head).map fun b => (.ok, { m with pszRawMsg := .heap _ b })

/-- `none` is an access outside of the memory. -/
def MsgReplaceMSG (m : RawMsg) (text : Bytes) : Option (RsRet × RawMsg) :=
  let lenNew : ℤ := m.iLenRawMsg + text.length - m.iLenMSG
  (if text.length > m.iLenMSG ∧ lenNew ≥ CONF_RAWMSG_BUFSIZE then
    growBuf malloc m (lenNew.toNat + 1)
  else some (.ok, m)).bind fun r =>
    match r.1 with
    | .ok => (putMSG r.2 text lenNew).map (RsRet.ok, ·)
    | .outOfMemory => some r

/-- `none` is an assertion that fails, or an access outside of the memory. -/
def MsgTruncateToMaxSize (maxMsgSize : ℕ) (m : RawMsg) : Option RawMsg :=
  if m.iLenRawMsg > maxMsgSize then
    let deltaSize : ℤ := m.iLenRawMsg - maxMsgSize
    (m.write maxMsgSize [0]).map fun m =>
      { m with
        iLenRawMsg := maxMsgSize
        iLenMSG := if m.iLenMSG < deltaSize then 0 else m.iLenMSG - deltaSize }
  else none

def rawMsgBuf (lenMsg : ℕ) : RawBuf × ℕ :=
  if lenMsg < CONF_RAWMSG_BUFSIZE then (.fixed, lenMsg)
  else
    match malloc (lenMsg + 1) with
    | some b => (.heap _ b, lenMsg)
    | none => (.fixed, CONF_RAWMSG_BUFSIZE - 1)

def MsgSetRawMsg (m : RawMsg) (text : Bytes) : Option RawMsg :=
  let deltaSize : ℤ := text.length - m.iLenRawMsg
  let r := rawMsgBuf malloc text.length
  (write { m with pszRawMsg := r.1, iLenRawMsg := r.2 } 0 (text.take r.2)).bind fun m =>
    (m.write r.2 [0]).map fun m =>
      { m with iLenMSG := if m.iLenRawMsg > m.offMSG then m.iLenMSG + deltaSize else 0 }

/-! ## Calls -/

inductive Call
  | setRawMsg (malloc : Malloc) (text : Bytes)
  | replaceMSG (malloc : Malloc) (text : Bytes)
  | truncateToMaxSize

variable (maxLine : ℕ)

def outcome (m : RawMsg) : Call → Option (RsRet × RawMsg)
  | .setRawMsg malloc text => (MsgSetRawMsg malloc m text).map (RsRet.ok, ·)
  | .replaceMSG malloc text => MsgReplaceMSG malloc m text
  | .truncateToMaxSize => (MsgTruncateToMaxSize maxLine m).map (RsRet.ok, ·)

/-- The lengths that are computed are of type `int`, the size of a new buffer among them. -/
def InInt (m : RawMsg) : Call → Prop
  | .setRawMsg _ text => text.length < 2 ^ 31
  | .replaceMSG _ text => m.iLenRawMsg + text.length + 1 < 2 ^ 31
  | .truncateToMaxSize => True

instance (m : RawMsg) (c : Call) : Decidable (InInt m c) := by
  cases c <;> unfold InInt <;> infer_instance

/-- What a call returns and leaves, with the size `glblGetMaxLine` gives. -/
def call (m : RawMsg) (c : Call) : Option (RsRet × RawMsg) :=
  if InInt m c then outcome maxLine m c else none

def step (m : RawMsg) (c : Call) : Option RawMsg := (call maxLine m c).map Prod.snd

/-- The length of the MSG part is that of the raw message from `offMSG` on. -/
def LenMSGCorrect (m : RawMsg) : Prop := m.iLenMSG = max 0 ((m.iLenRawMsg : ℤ) - m.offMSG)
deriving Decidable

/-- What a call that succeeds owes to its caller: `MsgReplaceMSG` replaces the MSG part and nothing
else. -/
def Replaced (m m' : RawMsg) : Call → Prop
  | .replaceMSG _ text => m'.MSG = text ∧ m'.rawMsg.take m.offMSG = m.rawMsg.take m.offMSG
  | _ => True

/-- The call has an outcome, after which the length is correct and the text is the new one. -/
def Correct (m : RawMsg) (c : Call) : Prop :=
  ∃ ret m', call maxLine m c = some (ret, m') ∧ m'.LenMSGCorrect ∧ (ret = .ok → Replaced m m' c)

/-! ## What a write leaves -/

/-- `m'` is `m` after the write of `text` at `pszRawMsg + i`. -/
structure Written (m m' : RawMsg) (i : ℕ) (text : Bytes) : Prop where
  ne_null : m'.pszRawMsg ≠ .null
  buf_eq : m'.buf = splice m.buf i text
  fits : i + text.length ≤ m.buf.length
  iLenRawMsg_eq : m'.iLenRawMsg = m.iLenRawMsg
  iLenMSG_eq : m'.iLenMSG = m.iLenMSG
  offMSG_eq : m'.offMSG = m.offMSG

variable {text : Bytes} {m m' : RawMsg}

lemma Written.length_buf {i : ℕ} (h : Written m m' i text) :
    m'.buf.length = m.buf.length := by rw [h.buf_eq, length_splice h.fits]

/-- Either kind of buffer is a block that is read and written. -/
lemma exists_block (hnull : m.pszRawMsg ≠ .null) :
    ∃ (n : ℕ) (b : Block UInt8 n) (put : Block UInt8 n → RawMsg), m.buf = b.bytes ∧
      (∀ k, m.read k = b.read k) ∧ (∀ i text, m.write i text = (b.write i text).map put) ∧
      ∀ b', (put b').pszRawMsg ≠ .null ∧ (put b').buf = b'.bytes ∧
        (put b').iLenRawMsg = m.iLenRawMsg ∧ (put b').iLenMSG = m.iLenMSG ∧
        (put b').offMSG = m.offMSG := by
  cases h : m.pszRawMsg with
  | null => exact absurd h hnull
  | fixed =>
    refine ⟨_, m.szRawMsg, fun b => { m with szRawMsg := b }, ?_, ?_, ?_, ?_⟩ <;>
      simp [buf, read, write, h]
  | heap n b =>
    refine ⟨n, b, fun b => { m with pszRawMsg := .heap n b }, ?_, ?_, ?_, ?_⟩ <;>
      simp [buf, read, write, h]

lemma write_of_null (h : m.pszRawMsg = .null) (i : ℕ) (text : Bytes) :
    m.write i text = none := by simp [write, h]

lemma write_cases (i : ℕ) (text : Bytes) (hnull : m.pszRawMsg ≠ .null) :
    m.write i text = none ∧ m.buf.length < i + text.length ∨
      ∃ m', m.write i text = some m' ∧ Written m m' i text := by
  obtain ⟨n, b, put, hbuf, -, hwrite, hput⟩ := exists_block hnull
  have hlen : m.buf.length = n := by rw [hbuf, b.length_bytes]
  by_cases hfits : i + text.length ≤ n
  · obtain ⟨b', hb', hbytes⟩ := b.write_of_le i text hfits
    obtain ⟨hne, hbuf', hraw, hMSG, hoff⟩ := hput b'
    refine .inr ⟨put b', by rw [hwrite, hb', map_some], hne, ?_, by omega, hraw, hMSG, hoff⟩
    rw [hbuf', hbytes, hbuf]
  · exact .inl ⟨by rw [hwrite, b.write_eq_none (by omega)]; rfl, by omega⟩

/-! ## What a call leaves -/

/-- The raw message lies inside of its buffer, with room for the octet that ends it, and its length
is of type `int`. -/
structure Valid (m : RawMsg) : Prop where
  of_null : m.pszRawMsg = .null → m.iLenRawMsg = 0
  lt_length : m.pszRawMsg ≠ .null → m.iLenRawMsg < m.buf.length
  int : m.iLenRawMsg < 2 ^ 31

/-- `m'` is `m` after the last lines of `MsgReplaceMSG`. -/
structure Put (m m' : RawMsg) (text : Bytes) (lenNew : ℕ) : Prop where
  ne_null : m'.pszRawMsg ≠ .null
  buf_eq : m'.buf = splice (splice m.buf m.offMSG text) lenNew [0]
  lt_length : lenNew < m.buf.length
  length_buf : m'.buf.length = m.buf.length
  iLenRawMsg_eq : m'.iLenRawMsg = lenNew
  iLenMSG_eq : m'.iLenMSG = text.length
  offMSG_eq : m'.offMSG = m.offMSG

lemma putMSG_of_null (h : m.pszRawMsg = .null) (text : Bytes) (lenNew : ℕ) :
    putMSG m text lenNew = none := by
  simp [putMSG, write_of_null h]

lemma putMSG_cases (text : Bytes) (lenNew : ℕ) (hnull : m.pszRawMsg ≠ .null) :
    putMSG m text lenNew = none ∧
        (m.buf.length ≤ lenNew ∨ text ≠ [] ∧ m.buf.length < m.offMSG + text.length) ∨
      ∃ m', putMSG m text lenNew = some m' ∧ Put m m' text lenNew := by
  have hfirst : (if 0 < text.length then m.write m.offMSG text else some m) = none ∧
        text ≠ [] ∧ m.buf.length < m.offMSG + text.length ∨
      ∃ m₁, (if 0 < text.length then m.write m.offMSG text else some m) = some m₁ ∧
        m₁.pszRawMsg ≠ .null ∧ m₁.buf = splice m.buf m.offMSG text ∧
        m₁.buf.length = m.buf.length ∧ m₁.offMSG = m.offMSG := by
    cases text with
    | nil => exact .inr ⟨m, if_neg (by simp), hnull, (splice_nil _ _).symm, rfl, rfl⟩
    | cons c cs =>
      rw [if_pos (show 0 < (c :: cs).length from Nat.succ_pos _)]
      exact (write_cases m.offMSG (c :: cs) hnull).imp (fun h => ⟨h.1, cons_ne_nil _ _, h.2⟩)
        fun ⟨m₁, hm₁, hw⟩ => ⟨m₁, hm₁, hw.ne_null, hw.buf_eq, hw.length_buf, hw.offMSG_eq⟩
  rw [putMSG]
  obtain ⟨hnone, hlong⟩ | ⟨m₁, hm₁, hnull₁, hbuf₁, hlen₁, hoff₁⟩ := hfirst
  · exact .inl ⟨by rw [hnone]; rfl, .inr hlong⟩
  rw [hm₁, bind_some, if_neg (by omega), Int.toNat_natCast]
  obtain ⟨hnone, hlong⟩ | ⟨m₂, hm₂, hw⟩ := write_cases lenNew [0] hnull₁
  · exact .inl ⟨by rw [hnone]; rfl, .inl (by rw [length_singleton] at hlong; omega)⟩
  · have hlt := hw.fits
    refine .inr ⟨{ m₂ with iLenRawMsg := lenNew, iLenMSG := text.length }, by rw [hm₂, map_some],
      hw.ne_null, hbuf₁ ▸ hw.buf_eq, ?_, hw.length_buf.trans hlen₁, rfl, rfl,
      hw.offMSG_eq.trans hoff₁⟩
    rw [length_singleton] at hlt
    omega

lemma Put.valid {lenNew : ℕ} (h : Put m m' text lenNew) (hint : lenNew < 2 ^ 31) : m'.Valid where
  of_null hnull := absurd hnull h.ne_null
  lt_length _ := by
    rw [h.iLenRawMsg_eq, h.length_buf]
    exact h.lt_length
  int := by rwa [h.iLenRawMsg_eq]

lemma Put.take_buf {lenNew k : ℕ} (h : Put m m' text lenNew) (hoff : k ≤ m.offMSG) (hk : k ≤ lenNew)
    (htext : text = [] ∨ m.offMSG + text.length ≤ m.buf.length) : m'.buf.take k = m.buf.take k := by
  have hlt := h.lt_length
  obtain rfl | htext := htext
  · rw [h.buf_eq, splice_nil, take_splice hk hlt.le]
  · rw [h.buf_eq, take_splice hk (by rw [length_splice htext]; omega), take_splice hoff (by omega)]

lemma Put.MSG_eq (h : Put m m' text (m.offMSG + text.length)) : m'.MSG = text := by
  have hlt := h.lt_length
  have hlen : (splice m.buf m.offMSG text).length = m.buf.length := length_splice hlt.le
  rw [MSG, h.iLenMSG_eq, h.offMSG_eq]
  split
  next h0 => exact (length_eq_zero_iff.mp (by omega)).symm
  next =>
    calc (m'.buf.drop m.offMSG).take (text.length : ℤ).toNat
        = (m'.buf.take (m.offMSG + text.length)).drop m.offMSG := by
          rw [drop_take, Int.toNat_natCast, Nat.add_sub_cancel_left]
      _ = ((splice m.buf m.offMSG text).drop m.offMSG).take text.length := by
          rw [h.buf_eq, take_splice le_rfl (by omega), drop_take, Nat.add_sub_cancel_left]
      _ = text := take_drop_splice text (by omega)

def Fits (text : Bytes) : Prop :=
  text.length < CONF_RAWMSG_BUFSIZE ∨ malloc (text.length + 1) ≠ none
deriving Decidable

lemma rawMsgBuf_room (m : RawMsg) (text : Bytes) :
    let r := rawMsgBuf malloc text.length
    let size := (buf { m with pszRawMsg := r.1 }).length
    r.1 ≠ .null ∧ r.2 = (if Fits malloc text then text.length else CONF_RAWMSG_BUFSIZE - 1) ∧
      r.2 ≤ text.length ∧ r.2 < size ∧ CONF_RAWMSG_BUFSIZE ≤ size := by
  dsimp only
  by_cases h : text.length < CONF_RAWMSG_BUFSIZE
  · rw [if_pos (show Fits malloc text from .inl h), rawMsgBuf, if_pos h]
    simpa [buf, m.szRawMsg.length_bytes] using h
  · rw [rawMsgBuf, if_neg h]
    cases hmalloc : malloc (text.length + 1) with
    | some b =>
      rw [if_pos (show Fits malloc text from .inr (by simp [hmalloc]))]
      simp only [buf, b.length_bytes]
      exact ⟨by simp, trivial, le_rfl, by omega, by omega⟩
    | none =>
      rw [if_neg (show ¬Fits malloc text by simp [Fits, h, hmalloc])]
      simp only [buf, m.szRawMsg.length_bytes]
      exact ⟨by simp, trivial, by omega, by decide, le_rfl⟩

lemma MsgSetRawMsg_spec (m : RawMsg) (text : Bytes) (hint : text.length < 2 ^ 31) :
    ∃ m', MsgSetRawMsg malloc m text = some m' ∧ m'.Valid ∧ m'.offMSG = m.offMSG ∧
      m'.iLenRawMsg = (if Fits malloc text then text.length else CONF_RAWMSG_BUFSIZE - 1) ∧
      m'.iLenMSG = (if m'.iLenRawMsg > m.offMSG then
        m.iLenMSG + (text.length - m.iLenRawMsg) else 0) ∧
      m'.pszRawMsg ≠ .null ∧ m'.iLenRawMsg ≤ text.length ∧
      (∃ stale, m'.buf = text.take m'.iLenRawMsg ++ 0 :: stale) ∧
      CONF_RAWMSG_BUFSIZE ≤ m'.buf.length := by
  obtain ⟨hnull, hstored, hle, hlt, hsize⟩ := rawMsgBuf_room malloc m text
  rw [← hstored, MsgSetRawMsg]
  generalize rawMsgBuf malloc text.length = r at hnull hle hlt hsize ⊢
  have htake : (text.take r.2).length = r.2 := by rw [length_take]; omega
  obtain ⟨-, hlong⟩ | ⟨m₁, hm₁, hw₁⟩ := write_cases 0 (text.take r.2)
    (m := { m with pszRawMsg := r.1, iLenRawMsg := r.2 }) hnull
  · rw [htake] at hlong
    exact absurd hlong (by simp only [buf] at hlt ⊢; omega)
  have hlt₁ : r.2 < m₁.buf.length := by rw [hw₁.length_buf]; exact hlt
  have hbuf₁ : m₁.buf.take r.2 = text.take r.2 := by
    rw [hw₁.buf_eq, splice, take_zero, nil_append, take_left' htake]
  obtain ⟨-, hlong⟩ | ⟨m₂, hm₂, hw₂⟩ := write_cases r.2 [0] hw₁.ne_null
  · rw [length_singleton] at hlong
    omega
  have hlen₂ : m₂.iLenRawMsg = r.2 := hw₂.iLenRawMsg_eq.trans hw₁.iLenRawMsg_eq
  have hoff₂ : m₂.offMSG = m.offMSG := hw₂.offMSG_eq.trans hw₁.offMSG_eq
  refine ⟨{ m₂ with iLenMSG := if m₂.iLenRawMsg > m.offMSG then
      m.iLenMSG + (text.length - m.iLenRawMsg) else 0 },
    ?_, ⟨fun h => absurd h hw₂.ne_null, fun _ => ?_, hlen₂.trans_lt (by omega)⟩, hoff₂, hlen₂,
    rfl, hw₂.ne_null, hlen₂.trans_le hle, ⟨m₁.buf.drop (r.2 + 1), ?_⟩, ?_⟩
  · rw [hm₁, bind_some, hm₂, map_some, hoff₂, hw₂.iLenMSG_eq, hw₁.iLenMSG_eq]
  · change m₂.iLenRawMsg < m₂.buf.length
    rw [hlen₂, hw₂.length_buf]
    exact hlt₁
  · change m₂.buf = text.take m₂.iLenRawMsg ++ _
    rw [hlen₂, hw₂.buf_eq, splice, hbuf₁]
    rfl
  · exact hsize.trans_eq (hw₂.length_buf.trans hw₁.length_buf).symm

lemma MsgTruncateToMaxSize_spec {maxMsgSize : ℕ} (hvalid : m.Valid)
    (h : maxMsgSize < m.iLenRawMsg) :
    ∃ m', MsgTruncateToMaxSize maxMsgSize m = some m' ∧ m'.Valid ∧ m'.offMSG = m.offMSG ∧
      m'.iLenRawMsg = maxMsgSize ∧
      (m'.iLenMSG = if m.iLenMSG < m.iLenRawMsg - maxMsgSize then 0
        else m.iLenMSG - (m.iLenRawMsg - maxMsgSize)) ∧
      m'.rawMsg = m.rawMsg.take maxMsgSize := by
  have hnull : m.pszRawMsg ≠ .null := fun hnull => by
    have := hvalid.of_null hnull
    omega
  have hlt := hvalid.lt_length hnull
  obtain ⟨-, hlong⟩ | ⟨m₁, hm₁, hw⟩ := write_cases maxMsgSize [0] hnull
  · rw [length_singleton] at hlong
    omega
  refine ⟨{ m₁ with
      iLenRawMsg := maxMsgSize
      iLenMSG := if m.iLenMSG < m.iLenRawMsg - maxMsgSize then 0
        else m.iLenMSG - (m.iLenRawMsg - maxMsgSize) },
    by rw [MsgTruncateToMaxSize, if_pos h, hm₁, map_some, hw.iLenMSG_eq],
    ⟨fun h => absurd h hw.ne_null, fun _ => ?_, h.trans hvalid.int⟩, hw.offMSG_eq, rfl, rfl, ?_⟩
  · change maxMsgSize < m₁.buf.length
    rw [hw.length_buf]
    omega
  · change m₁.buf.take maxMsgSize = _
    rw [hw.buf_eq, take_splice le_rfl (by omega), rawMsg, take_take, min_eq_left h.le]

/-! ## When a call is correct -/

/-- `MsgReplaceMSG` needs a larger buffer and does not get it. -/
def Refused (m : RawMsg) (text : Bytes) : Prop :=
  m.iLenRawMsg - m.offMSG < text.length ∧
    CONF_RAWMSG_BUFSIZE ≤ m.iLenRawMsg + text.length - (m.iLenRawMsg - m.offMSG) ∧
    malloc (m.iLenRawMsg + text.length - (m.iLenRawMsg - m.offMSG) + 1) = none

/-- The new MSG part is not longer than the old one, is stored in a new buffer, or fits into the one
in use. -/
def HasRoom (m : RawMsg) (text : Bytes) : Prop :=
  m.offMSG + text.length ≤ m.iLenRawMsg ∨ CONF_RAWMSG_BUFSIZE ≤ m.offMSG + text.length ∨
    m.offMSG + text.length < m.buf.length

def Keeps (m : RawMsg) : Call → Prop
  | .setRawMsg malloc text =>
    Fits malloc text ∧ (text.length ≤ m.offMSG ∨ m.offMSG ≤ m.iLenRawMsg) ∨
      ¬Fits malloc text ∧ CONF_RAWMSG_BUFSIZE - 1 ≤ m.offMSG
  | .replaceMSG malloc text =>
    Refused malloc m text ∨
      m.pszRawMsg ≠ .null ∧ (text = [] ∨ m.offMSG ≤ m.iLenRawMsg ∧ HasRoom m text)
  | .truncateToMaxSize => maxLine < m.iLenRawMsg

def Fine (m : RawMsg) (c : Call) : Prop := InInt m c ∧ Keeps maxLine m c

instance : DecidableRel (Fine maxLine) := fun m c => by
  unfold Fine
  cases c <;> unfold Keeps Refused HasRoom <;> infer_instance

/-- What a call comes to: it has no outcome, or the length is correct and the text the new one
afterwards, exactly if it keeps them so. -/
def Settles (m : RawMsg) (c : Call) (result : Option (RsRet × RawMsg)) : Prop :=
  result = none ∧ ¬Keeps maxLine m c ∨
    ∃ ret m', result = some (ret, m') ∧ (Keeps maxLine m c → m'.Valid) ∧
      (m'.LenMSGCorrect ∧ (ret = .ok → Replaced m m' c) ↔ Keeps maxLine m c)

section Steps

variable {malloc : Malloc} {maxLine : ℕ} {m : RawMsg} {text : Bytes}

lemma lenNew_eq (hlen : m.LenMSGCorrect) :
    (m.iLenRawMsg + text.length - m.iLenMSG : ℤ) =
      (m.iLenRawMsg + text.length - (m.iLenRawMsg - m.offMSG) : ℕ) := by
  rw [hlen]
  omega

lemma growBuf_cases {size : ℕ} {bufNew : Block UInt8 size} (hmalloc : malloc size = some bufNew)
    (hsize : m.offMSG ≤ m.iLenRawMsg → m.offMSG ≤ size) (hvalid : m.Valid) :
    growBuf malloc m size = none ∧ (m.pszRawMsg = .null ∨ m.iLenRawMsg < m.offMSG) ∨
      ∃ m₁, growBuf malloc m size = some (.ok, m₁) ∧ m.pszRawMsg ≠ .null ∧ m₁.pszRawMsg ≠ .null ∧
        m₁.buf.length = size ∧ m₁.buf.take m.offMSG = m.buf.take m.offMSG ∧
        m₁.offMSG = m.offMSG := by
  by_cases hnull : m.pszRawMsg = .null
  · exact .inl ⟨by simp [growBuf, hmalloc, read, hnull], .inl hnull⟩
  have hlt := hvalid.lt_length hnull
  obtain ⟨n, b, -, hbuf, hread, -⟩ := exists_block hnull
  have hn : m.buf.length = n := by rw [hbuf, b.length_bytes]
  rw [growBuf, hmalloc]
  simp only [hread, Block.read]
  by_cases hoff : m.offMSG ≤ n
  · have hhead : (b.bytes.take m.offMSG).length = m.offMSG := by
      rw [length_take, b.length_bytes, Nat.min_eq_left hoff]
    rw [if_pos hoff, bind_some]
    by_cases hfits : m.offMSG ≤ size
    · obtain ⟨b', hb', hbytes⟩ := bufNew.write_of_le 0 (b.bytes.take m.offMSG) (by omega)
      refine .inr ⟨{ m with pszRawMsg := .heap _ b' }, by rw [hb', map_some], hnull, by simp,
        b'.length_bytes, ?_, rfl⟩
      have htake := take_drop_splice (b.bytes.take m.offMSG) (Nat.zero_le bufNew.bytes.length)
      rwa [hhead, ← hbytes, ← hbuf] at htake
    · exact .inl ⟨by rw [bufNew.write_eq_none (by omega)]; rfl, .inr (by omega)⟩
  · exact .inl ⟨by rw [if_neg hoff]; rfl, .inr (by omega)⟩

/-- The last lines of `MsgReplaceMSG`, with the buffer in use or a new one. -/
lemma settles_putMSG {m₁ : RawMsg} (hnull : m.pszRawMsg ≠ .null) (hnull₁ : m₁.pszRawMsg ≠ .null)
    (hrefused : ¬Refused malloc m text) (hoff₁ : m₁.offMSG = m.offMSG)
    (hhead : m₁.buf.take (min m.offMSG m.iLenRawMsg) = m.buf.take (min m.offMSG m.iLenRawMsg))
    (hroom : m.offMSG ≤ m.iLenRawMsg → (HasRoom m text ↔ m.offMSG + text.length < m₁.buf.length))
    (hlt : text = [] → m.iLenRawMsg < m₁.buf.length)
    (hint : m.iLenRawMsg + text.length + 1 < 2 ^ 31) :
    Settles maxLine m (.replaceMSG malloc text) ((putMSG m₁ text
      (m.iLenRawMsg + text.length - (m.iLenRawMsg - m.offMSG) : ℕ)).map (RsRet.ok, ·)) := by
  have hfine : Keeps maxLine m (.replaceMSG malloc text) ↔
      text = [] ∨ m.offMSG ≤ m.iLenRawMsg ∧ m.offMSG + text.length < m₁.buf.length := by
    rw [Keeps, or_iff_right hrefused, and_iff_right hnull]
    exact or_congr_right (and_congr_right hroom)
  have hempty : text = [] ↔ text.length = 0 := length_eq_zero_iff.symm
  rw [Settles, hfine, hempty]
  rw [hempty] at hlt
  obtain ⟨hnone, hlong⟩ | ⟨m', hm', hput⟩ := putMSG_cases text
    (m.iLenRawMsg + text.length - (m.iLenRawMsg - m.offMSG)) hnull₁
  · refine .inl ⟨by rw [hnone]; rfl, ?_⟩
    rw [Ne, hempty, hoff₁] at hlong
    omega
  have hlt' := hput.lt_length
  refine .inr ⟨_, m', by rw [hm', map_some], fun _ => hput.valid (by omega), ?_⟩
  rw [LenMSGCorrect, hput.iLenMSG_eq, hput.iLenRawMsg_eq, hput.offMSG_eq, hoff₁]
  constructor
  · rintro ⟨hlen, -⟩
    omega
  · intro h
    refine ⟨by omega, fun _ => ⟨?_, ?_⟩⟩
    · by_cases hoff : m.offMSG ≤ m.iLenRawMsg
      · have hnew : m.iLenRawMsg + text.length - (m.iLenRawMsg - m.offMSG) =
            m₁.offMSG + text.length := by omega
        exact (hnew ▸ hput).MSG_eq
      · obtain rfl := hempty.mpr (by omega)
        rw [MSG, hput.iLenMSG_eq]
        rfl
    · have htake := @Put.take_buf _ _ _ _ (min m.offMSG m.iLenRawMsg) hput (by omega) (by omega)
        (by rw [hempty]; omega)
      rw [rawMsg, rawMsg, take_take, take_take, hput.iLenRawMsg_eq, ← hhead, ← htake]
      congr 1
      omega

lemma settles_replaceMSG (hvalid : m.Valid) (hlen : m.LenMSGCorrect)
    (hint : m.iLenRawMsg + text.length + 1 < 2 ^ 31) :
    Settles maxLine m (.replaceMSG malloc text) (MsgReplaceMSG malloc m text) := by
  rw [MsgReplaceMSG, lenNew_eq hlen]
  by_cases hgrow : m.iLenRawMsg - m.offMSG < text.length ∧
      CONF_RAWMSG_BUFSIZE ≤ m.iLenRawMsg + text.length - (m.iLenRawMsg - m.offMSG)
  · rw [if_pos ⟨by rw [hlen]; omega, by omega⟩, Int.toNat_natCast]
    cases hmalloc : malloc (m.iLenRawMsg + text.length - (m.iLenRawMsg - m.offMSG) + 1) with
    | none =>
      have hrefused : Keeps maxLine m (.replaceMSG malloc text) := .inl ⟨hgrow.1, hgrow.2, hmalloc⟩
      refine .inr ⟨.outOfMemory, m, by rw [growBuf, hmalloc]; rfl, fun _ => hvalid, ?_⟩
      exact iff_of_true ⟨hlen, by simp⟩ hrefused
    | some bufNew =>
      have hrefused : ¬Refused malloc m text := fun h => by simp [h.2.2] at hmalloc
      have hne : text ≠ [] := fun h => by simp [h] at hgrow
      obtain ⟨hnone, h⟩ | ⟨m₁, hm₁, hnull, hnull₁, hlen₁, hhead, hoff₁⟩ :=
        growBuf_cases hmalloc (by omega) hvalid
      · refine .inl ⟨by rw [hnone]; rfl, ?_⟩
        rintro (hf | ⟨hnull, hf⟩)
        · exact hrefused hf
        · exact (hf.resolve_left hne).1.not_gt (h.resolve_left hnull)
      · rw [hm₁, bind_some]
        refine settles_putMSG hnull hnull₁ hrefused hoff₁ ?_ (fun hoff => ?_)
          (fun h => absurd h hne) hint
        · have htake := congrArg (List.take (min m.offMSG m.iLenRawMsg)) hhead
          rwa [take_take, take_take, Nat.min_eq_left (Nat.min_le_left _ _)] at htake
        · change HasRoom m text ↔ m.offMSG + text.length < m₁.buf.length
          unfold HasRoom
          omega
  · rw [if_neg fun h => hgrow ⟨by rw [hlen] at h; omega, by omega⟩, bind_some]
    by_cases hnull : m.pszRawMsg = .null
    · refine .inl ⟨by simp only [putMSG_of_null hnull]; rfl, ?_⟩
      rintro (hf | hf)
      · exact hgrow ⟨hf.1, hf.2.1⟩
      · exact hf.1 hnull
    · have hlt := hvalid.lt_length hnull
      refine settles_putMSG hnull hnull (fun h => hgrow ⟨h.1, h.2.1⟩) rfl rfl (fun hoff => ?_)
        (fun _ => hlt) hint
      change HasRoom m text ↔ m.offMSG + text.length < m.buf.length
      unfold HasRoom
      omega

lemma settles_outcome (hvalid : m.Valid) (hlen : m.LenMSGCorrect) {c : Call} (hint : InInt m c) :
    Settles maxLine m c (outcome maxLine m c) := by
  cases c with
  | replaceMSG malloc text => exact settles_replaceMSG hvalid hlen hint
  | setRawMsg malloc text =>
    obtain ⟨m', hm', hvalid', hoff', hlen', hMSG', -⟩ := MsgSetRawMsg_spec malloc m text hint
    refine .inr ⟨.ok, m', by rw [outcome, hm']; rfl, fun _ => hvalid', ?_⟩
    refine (and_iff_left fun _ => trivial).trans ?_
    rw [LenMSGCorrect, hMSG', hlen, hlen', hoff', Keeps]
    by_cases hfits : Fits malloc text
    · simp only [hfits, if_true, true_and, not_true, false_and, or_false]
      split <;> omega
    · have hlong : CONF_RAWMSG_BUFSIZE ≤ text.length := not_lt.mp fun h => hfits (.inl h)
      simp only [hfits, if_false, false_and, not_false_iff, true_and, false_or]
      split <;> omega
  | truncateToMaxSize =>
    by_cases h : maxLine < m.iLenRawMsg
    · obtain ⟨m', hm', hvalid', hoff', hlen', hMSG', -⟩ := MsgTruncateToMaxSize_spec hvalid h
      refine .inr ⟨.ok, m', by rw [outcome, hm']; rfl, fun _ => hvalid', ?_⟩
      refine iff_of_true ⟨?_, fun _ => trivial⟩ h
      rw [LenMSGCorrect, hMSG', hlen, hlen', hoff']
      split <;> omega
    · exact .inl ⟨by rw [outcome, MsgTruncateToMaxSize, if_neg h]; rfl, h⟩

lemma correct_iff_fine (hvalid : m.Valid) (hlen : m.LenMSGCorrect) (c : Call) :
    Correct maxLine m c ↔ Fine maxLine m c := by
  rw [Correct, Fine, call]
  by_cases hint : InInt m c
  swap
  · simp [hint]
  rw [if_pos hint, and_iff_right hint]
  obtain ⟨hnone, hkeeps⟩ | ⟨ret, m', hm', -, hiff⟩ :=
    @settles_outcome maxLine m hvalid hlen c hint
  · exact iff_of_false (fun ⟨ret, m', hm', _⟩ => by cases hnone.symm.trans hm') hkeeps
  · rw [← hiff, hm']
    constructor
    · rintro ⟨ret, m', h, hcorrect⟩
      cases h
      exact hcorrect
    · intro hcorrect
      exact ⟨ret, m', rfl, hcorrect⟩

lemma MsgSetMSGoffs_spec (hvalid : m.Valid) {offs : ℕ} (hoffs : offs ≤ m.iLenRawMsg + 1) :
    ∃ m', MsgSetMSGoffs m offs = some m' ∧ m'.Valid ∧ m'.LenMSGCorrect := by
  unfold MsgSetMSGoffs
  split
  next hlt =>
    rw [if_pos (by omega)]
    refine ⟨_, rfl, { hvalid with }, ?_⟩
    simp only [LenMSGCorrect]
    omega
  next hle =>
    refine ⟨_, rfl, { hvalid with }, ?_⟩
    simp only [LenMSGCorrect]
    omega

end Steps

/-- **The length of the MSG part.** After `MsgSetMSGoffs`, sequences of calls keep the length
correct and replace what they are to replace exactly if each call meets `Fine`: a message without a
MSG part is not given one, a text that grows beyond `offMSG` finds a raw message that reached up to
there, and there is memory for a text that is stored. -/
theorem calls_correct_iff (m : RawMsg) (hvalid : m.Valid) (offs : ℕ)
    (hoffs : offs ≤ m.iLenRawMsg + 1) (calls : List Call) :
    ∃ m₀, MsgSetMSGoffs m offs = some m₀ ∧ m₀.LenMSGCorrect ∧
      (Along (step maxLine) (Correct maxLine) m₀ calls ↔
        Along (step maxLine) (Fine maxLine) m₀ calls) := by
  obtain ⟨m₀, hm₀, hvalid₀, hlen₀⟩ := MsgSetMSGoffs_spec hvalid hoffs
  have hiff : ∀ (m : RawMsg) (c : Call), m.Valid ∧ m.LenMSGCorrect →
      (Correct maxLine m c ↔ Fine maxLine m c) := fun m c h => correct_iff_fine h.1 h.2 c
  refine ⟨m₀, hm₀, hlen₀, along_iff_along hiff ?_ calls ⟨hvalid₀, hlen₀⟩⟩
  intro m c m' h hfine hm'
  rw [step, call, if_pos hfine.1] at hm'
  obtain ⟨-, hnot⟩ | ⟨ret, m₁, hm₁, hvalid₁, hlen₁⟩ :=
    @settles_outcome maxLine m h.1 h.2 c hfine.1
  · exact absurd hfine.2 hnot
  · rw [hm₁] at hm'
    cases hm'
    exact ⟨hvalid₁ hfine.2, (hlen₁.mpr hfine.2).1⟩

def zeroed : Malloc := fun n => some ⟨List.replicate n 0, length_replicate⟩

def rawAb : RawMsg where
  szRawMsg := ⟨[97, 98] ++ List.replicate 99 0, rfl⟩
  pszRawMsg := .fixed
  iLenRawMsg := 2
  iLenMSG := 0
  offMSG := 0

/-- The message `ab` becomes `acd`, then `wxyz`, and is cut to three octets. -/
theorem calls_correct_iff_rawAb : ∃ m₀, MsgSetMSGoffs rawAb 1 = some m₀ ∧
    Along (step 3) (Correct 3) m₀
      [.replaceMSG zeroed [99, 100], .setRawMsg zeroed [119, 120, 121, 122],
        .truncateToMaxSize] := by
  obtain ⟨m₀, hm₀, -, hiff⟩ := calls_correct_iff 3 rawAb ⟨nofun, fun _ => by decide, by decide⟩ 1
    (by decide) [.replaceMSG zeroed [99, 100], .setRawMsg zeroed [119, 120, 121, 122],
      .truncateToMaxSize]
  refine ⟨m₀, hm₀, hiff.mpr ?_⟩
  cases hm₀
  decide +kernel

/-- A message without a MSG part has the length of the raw message plus one as its offset. The
longer text has three octets from there on, and the field says four; the octet that ends the raw
message takes the place of the last one of the new MSG part. -/
theorem no_MSG_part_lengths_wrong : ((MsgSetMSGoffs rawAb 3).bind fun m =>
        step 8096 m (.setRawMsg zeroed [97, 98, 32, 99, 100, 101])).map
        (fun m => (m.offMSG, m.iLenRawMsg, m.iLenMSG)) = some (3, 6, 4) ∧
      ((MsgSetMSGoffs rawAb 3).bind fun m => step 8096 m (.replaceMSG zeroed [99, 100])).map
        (fun m => (m.offMSG, m.iLenRawMsg, m.iLenMSG, m.MSG)) = some (3, 4, 2, [99, 0]) := by
  decide +kernel

end RawMsg

/-! ## Setters without the buffer -/

section Whole

variable {E : Env} {raw : RawMsg} {m : SMsg E}

/-- The setter `MsgTruncateToMaxSize` without the buffer, for a raw message that is longer. -/
def MsgTruncateToMaxSize (maxMsgSize : ℕ) (m : SMsg E) : SMsg E :=
  { m with
    pszRawMsg := m.pszRawMsg.map (List.take maxMsgSize)
    iLenMSG := if m.iLenMSG < m.rawMsg.length - maxMsgSize then 0
      else m.iLenMSG - (m.rawMsg.length - maxMsgSize) }

/-- The fields with the buffer stand for those of the whole message. -/
structure RawMsg.StandsFor (raw : RawMsg) (m : SMsg E) : Prop where
  valid : raw.Valid
  rawMsg : raw.rawMsg = m.rawMsg
  iLenMSG : raw.iLenMSG = m.iLenMSG
  offMSG : (raw.offMSG : ℤ) = m.offMSG.toInt

namespace RawMsg.StandsFor

lemma length_eq (h : raw.StandsFor m) : raw.iLenRawMsg = m.rawMsg.length := by
  rw [← h.rawMsg, RawMsg.rawMsg, length_take, eq_comm, min_eq_left_iff]
  by_cases hnull : raw.pszRawMsg = .null
  · rw [h.valid.of_null hnull]
    exact Nat.zero_le _
  · exact (h.valid.lt_length hnull).le

/-- With memory for the text, both setters of the raw message do the same. -/
lemma setRawMsg (h : raw.StandsFor m) {malloc : Malloc} {text : Bytes}
    (hfits : Fits malloc text) (hint : text.length < 2 ^ 31) :
    ∃ raw', raw.MsgSetRawMsg malloc text = some raw' ∧
      raw'.StandsFor (Msg.MsgSetRawMsg m text) := by
  obtain ⟨raw', hrun, hvalid, hoff, hlen, hMSG, -, -, ⟨stale, hbuf⟩, -⟩ :=
    MsgSetRawMsg_spec malloc raw text hint
  rw [if_pos hfits] at hlen
  refine ⟨raw', hrun, hvalid, ?_, ?_, ?_⟩
  · rw [RawMsg.rawMsg, hbuf, hlen, take_length, take_left]
    rfl
  · rw [hMSG, hlen, h.iLenMSG, h.length_eq]
    simp [Msg.MsgSetRawMsg, ← h.offMSG, Nat.cast_lt]
  · rw [hoff]
    exact h.offMSG

lemma truncateToMaxSize (h : raw.StandsFor m) {maxMsgSize : ℕ}
    (hlong : maxMsgSize < m.rawMsg.length) :
    ∃ raw', raw.MsgTruncateToMaxSize maxMsgSize = some raw' ∧
      raw'.StandsFor (Msg.MsgTruncateToMaxSize maxMsgSize m) := by
  rw [← h.length_eq] at hlong
  obtain ⟨raw', hrun, hvalid, hoff, hlen, hMSG, hraw⟩ := MsgTruncateToMaxSize_spec h.valid hlong
  refine ⟨raw', hrun, hvalid, ?_, ?_, ?_⟩
  · rw [hraw, h.rawMsg]
    cases hm : m.pszRawMsg <;> simp [SMsg.rawMsg, Msg.MsgTruncateToMaxSize, hm]
  · rw [hMSG, h.iLenMSG, h.length_eq]
    rfl
  · rw [hoff]
    exact h.offMSG

lemma setMSGoffs (h : raw.StandsFor m) {offs : Int32} (hpos : 0 ≤ offs.toInt)
    (hoffs : offs.toInt ≤ m.rawMsg.length + 1) :
    ∃ raw', raw.MsgSetMSGoffs offs.toInt.toNat = some raw' ∧
      raw'.StandsFor (Msg.MsgSetMSGoffs m offs) := by
  have hlen := h.length_eq
  unfold RawMsg.MsgSetMSGoffs Msg.MsgSetMSGoffs
  split
  next hlt =>
    rw [if_pos (by omega)]
    exact ⟨_, rfl, { h.valid with }, h.rawMsg, (if_pos (by omega)).symm, Int.toNat_of_nonneg hpos⟩
  next hle =>
    refine ⟨_, rfl, { h.valid with }, h.rawMsg, ?_, Int.toNat_of_nonneg hpos⟩
    rw [if_neg (by omega), hlen, Int.toNat_of_nonneg hpos]

end RawMsg.StandsFor

end Whole

end Rsyslog.Msg
