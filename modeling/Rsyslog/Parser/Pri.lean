import Rsyslog.Msg.RawMsg

/-!
# The PRI part

Two pieces of code find the end of the PRI part of a raw message: `ParsePRI` of `parser.c`, which
keeps it in `offAfterPRI`, and the property getter `getRawMsgAfterPRI` of `msg.c`, which looks for
the `>` itself. Both read the buffer of the raw message, the getter without a look at the length, so
the octets behind the raw message are part of what it reads.
-/

namespace Rsyslog.Parser

open Lib Msg List
open Option (bind_some map_some getD_some)

def LOG_MAXPRI : ℕ := 191

def DEFUPRI : ℕ := 8 * 1 + 5

def LOG_FAC_INVLD : ℕ := 24

def LOG_PRI_INVLD : ℕ := 8 * LOG_FAC_INVLD + 7

def pri2fac (pri : ℕ) : ℕ := if pri / 8 > 23 then LOG_FAC_INVLD else pri / 8

def pri2sev (pri : ℕ) : ℕ := pri % 8

structure PriMsg where
  raw : RawMsg
  /-- `msgFlags & NO_PRI_IN_RAW` -/
  noPriInRaw : Bool
  iFacility : ℕ
  iSeverity : ℕ
  offAfterPRI : ℕ

def msgSetPRI (m : PriMsg) (pri : ℕ) : PriMsg :=
  let pri := if pri > LOG_MAXPRI then LOG_PRI_INVLD else pri
  { m with iFacility := pri2fac pri, iSeverity := pri2sev pri }

def MsgSetAfterPRIOffs (m : PriMsg) (offs : ℕ) : PriMsg := { m with offAfterPRI := offs }

/-- The loop of `ParsePRI`, at the octet `msg` of the buffer: where it ends, and the value of the
digits. -/
def pullPri (buf : Bytes) : (lenMsg msg pri : ℕ) → Option (ℕ × ℕ)
  | 0, msg, pri => some (msg, pri)
  | lenMsg + 1, msg, pri =>
    if lenMsg = 0 then some (msg, pri)
    else buf[msg + 1]?.bind fun c =>
      if isDigit c ∧ pri ≤ LOG_MAXPRI then
        pullPri buf lenMsg (msg + 1) ((10 * pri + (c.toNat - 48)) % 2 ^ 16)
      else some (msg + 1, pri)

/-- The PRI and the place behind it, for a raw message that starts with `<`. -/
def pullPriPart (raw : RawMsg) : Option (ℕ × ℕ) :=
  (pullPri raw.buf raw.iLenRawMsg 0 0).bind fun r =>
    raw.buf[r.1]?.map fun c =>
      if c = 62 then (r.1 + 1, if r.2 > LOG_MAXPRI then LOG_PRI_INVLD else r.2)
      else (r.1, LOG_PRI_INVLD)

/-- `none` is an access outside of the memory. -/
def ParsePRI (m : PriMsg) : Option PriMsg :=
  if m.noPriInRaw then some (MsgSetAfterPRIOffs m 0)
  else
    m.raw.buf[0]?.bind fun c =>
      (if c = 60 then pullPriPart m.raw else some (0, DEFUPRI)).map fun r =>
        MsgSetAfterPRIOffs (msgSetPRI m r.2) (if r.2 = LOG_PRI_INVLD then 0 else r.1)

/-- The place behind the PRI part as the getter sees it: a `>` is looked for behind one, two and
three octets. -/
def offOfPri (raw : RawMsg) : Option ℕ :=
  raw.buf[0]?.bind fun c =>
    if c = 60 then
      raw.buf[2]?.bind fun c₂ =>
        if c₂ = 62 then some 3
        else raw.buf[3]?.bind fun c₃ =>
          if c₃ = 62 then some 4
          else raw.buf[4]?.map fun c₄ => if c₄ = 62 then 5 else 0
    else some 0

structure RawText where
  /-- The place in the raw message, or none for the constant empty text. -/
  pBuf : Option ℕ
  piLen : ℤ
  deriving DecidableEq

def getRawMsgAfterPRI (raw : RawMsg) : Option RawText :=
  match raw.pszRawMsg with
  | .null => some ⟨none, 0⟩
  | _ => (offOfPri raw).map fun off => ⟨some off, raw.iLenRawMsg - off⟩

/-! ## Stored raw messages -/

/-- The raw message `text` as `MsgSetRawMsg` leaves it: ended by a NUL, in a buffer that is not
smaller than the one inside of the message object. The octets behind are those that happen to be
there. -/
structure Stored (raw : RawMsg) (text : Bytes) : Prop where
  ne_null : raw.pszRawMsg ≠ .null
  buf_eq : ∃ stale, raw.buf = text ++ 0 :: stale
  le_length : CONF_RAWMSG_BUFSIZE ≤ raw.buf.length
  iLenRawMsg_eq : raw.iLenRawMsg = text.length

namespace Stored

variable {raw : RawMsg} {text : Bytes}

lemma getElem?_of_lt (h : Stored raw text) {i : ℕ} (hi : i < text.length) :
    raw.buf[i]? = text[i]? := by
  obtain ⟨stale, hbuf⟩ := h.buf_eq
  rw [hbuf, getElem?_append_left hi]

lemma exists_getElem? (h : Stored raw text) {i : ℕ} (hi : i < CONF_RAWMSG_BUFSIZE) :
    ∃ c, raw.buf[i]? = some c :=
  ⟨_, getElem?_eq_getElem (hi.trans_le h.le_length)⟩

lemma head (h : Stored raw text) : raw.buf[0]? = some (text.head?.getD 0) := by
  obtain ⟨stale, hbuf⟩ := h.buf_eq
  rw [hbuf]
  cases text <;> rfl

end Stored

/-! ## The loop over the digits -/

def priValue (pri : ℕ) (ds : Bytes) : ℕ := ds.foldl (fun v c => 10 * v + (c.toNat - 48)) pri

lemma le_priValue (pri : ℕ) (ds : Bytes) : pri ≤ priValue pri ds := by
  induction ds generalizing pri with
  | nil => exact le_rfl
  | cons c ds ih => exact le_trans (by omega) (ih (10 * pri + (c.toNat - 48)))

variable {c : UInt8}

lemma nextPri_mod {pri : ℕ} (hpri : pri ≤ LOG_MAXPRI) (hc : isDigit c = true) :
    (10 * pri + (c.toNat - 48)) % 2 ^ 16 = 10 * pri + (c.toNat - 48) := by
  have := isDigit_iff.1 hc
  unfold LOG_MAXPRI at hpri
  omega

variable {rest : Bytes}

section Loop

variable {buf : Bytes}

lemma pullPri_cons {msg pri n : ℕ} (hc : buf[msg + 1]? = some c) :
    pullPri buf (n + 2) msg pri =
      if isDigit c ∧ pri ≤ LOG_MAXPRI then
        pullPri buf (n + 1) (msg + 1) ((10 * pri + (c.toNat - 48)) % 2 ^ 16)
      else some (msg + 1, pri) := by
  rw [pullPri, if_neg (Nat.succ_ne_zero n), hc, bind_some]

lemma pullPri_digits {ds : Bytes} (hds : ∀ d ∈ ds, isDigit d = true) (hc : isDigit c = false)
    {msg pri n : ℕ} (hmsg : ∀ i, i ≤ ds.length → buf[msg + 1 + i]? = (ds ++ c :: rest)[i]?)
    (hpri : priValue pri ds ≤ LOG_MAXPRI) :
    pullPri buf (ds.length + n + 2) msg pri = some (msg + ds.length + 1, priValue pri ds) := by
  induction ds generalizing msg pri with
  | nil =>
    have hread : buf[msg + 1]? = some c := hmsg 0 le_rfl
    rw [pullPri_cons hread, if_neg (by simp [hc])]
    rfl
  | cons d ds ih =>
    have hd := hds d mem_cons_self
    have hle : pri ≤ LOG_MAXPRI := (le_priValue pri (d :: ds)).trans hpri
    have hread : buf[msg + 1]? = some d := hmsg 0 (Nat.zero_le _)
    have hnext : ∀ i, i ≤ ds.length → buf[msg + 1 + 1 + i]? = (ds ++ c :: rest)[i]? := by
      intro i hi
      have := hmsg (i + 1) (Nat.succ_le_succ hi)
      rwa [← Nat.add_assoc, Nat.add_right_comm] at this
    rw [length_cons, show ds.length + 1 + n + 2 = ds.length + n + 1 + 2 by omega,
      pullPri_cons hread, if_pos ⟨hd, hle⟩, nextPri_mod hle hd,
      ih (fun d hd => hds d (mem_cons_of_mem _ hd)) hnext hpri]
    congr 2
    omega

/-- What the loop has read when it ends: digits, and then nothing more or one octet that stops it.
-/
structure Pulled (rest : Bytes) (msg pri msg' pri' : ℕ) (ds : Bytes) : Prop where
  digits : ∀ d ∈ ds, isDigit d = true
  value : pri' = priValue pri ds
  stopped : (rest = ds ∧ msg' = msg + ds.length) ∨
    ∃ c rest', rest = ds ++ c :: rest' ∧ msg' = msg + ds.length + 1

lemma Pulled.cons {ds : Bytes} {msg pri msg' pri' : ℕ} {d : UInt8} (hd : isDigit d = true)
    (h : Pulled rest (msg + 1) (10 * pri + (d.toNat - 48)) msg' pri' ds) :
    Pulled (d :: rest) msg pri msg' pri' (d :: ds) where
  digits := forall_mem_cons.mpr ⟨hd, h.digits⟩
  value := h.value
  stopped := by
    rcases h.stopped with ⟨rfl, rfl⟩ | ⟨c, rest', rfl, rfl⟩
    · exact .inl ⟨rfl, by rw [length_cons]; omega⟩
    · exact .inr ⟨c, rest', rfl, by rw [length_cons]; omega⟩

lemma exists_pulled {msg : ℕ} (pri : ℕ)
    (hmsg : ∀ i, i < rest.length → buf[msg + 1 + i]? = rest[i]?) :
    ∃ msg' pri' ds, pullPri buf (rest.length + 1) msg pri = some (msg', pri') ∧
      Pulled rest msg pri msg' pri' ds := by
  induction rest generalizing msg pri with
  | nil => exact ⟨msg, pri, [], rfl, by simp, rfl, .inl ⟨rfl, rfl⟩⟩
  | cons c rest ih =>
    have hread : buf[msg + 1]? = some c := hmsg 0 (Nat.succ_pos _)
    rw [length_cons, pullPri_cons hread]
    split
    next h =>
      rw [nextPri_mod h.2 h.1]
      have hnext : ∀ i, i < rest.length → buf[msg + 1 + 1 + i]? = rest[i]? := by
        intro i hi
        have := hmsg (i + 1) (Nat.succ_lt_succ hi)
        rwa [← Nat.add_assoc, Nat.add_right_comm] at this
      obtain ⟨msg', pri', ds, hrun, hpulled⟩ := ih _ hnext
      exact ⟨msg', pri', c :: ds, hrun, hpulled.cons h.1⟩
    next => exact ⟨msg + 1, pri, [], rfl, by simp, rfl, .inr ⟨c, rest, rfl, rfl⟩⟩

end Loop

/-! ## The PRI part that is accepted -/

/-- The text starts with a PRI part of the digits `ds`. -/
structure HasPri (ds text : Bytes) : Prop where
  ne_nil : ds ≠ []
  digits : ∀ d ∈ ds, isDigit d = true
  value_le : priValue 0 ds ≤ LOG_MAXPRI
  starts : ∃ rest, text = 60 :: (ds ++ 62 :: rest)

section Accept

variable {raw : RawMsg} {text ds : Bytes}

lemma getLast_ne_gt (hds : ∀ d ∈ ds, isDigit d = true) (hc : (60 :: ds)[ds.length]? = some c) :
    c ≠ 62 := by
  rintro rfl
  rcases mem_cons.mp (mem_of_getElem? hc) with heq | hmem
  · exact absurd heq (by decide)
  · exact absurd (hds _ hmem) (by decide)

variable (h : Stored raw text)

include h

lemma Stored.getElem?_rest (htext : text = c :: rest) {i : ℕ}
    (hi : i < rest.length) : raw.buf[0 + 1 + i]? = rest[i]? := by
  subst htext
  rw [Nat.add_comm, h.getElem?_of_lt (Nat.succ_lt_succ hi), getElem?_cons_succ]

lemma pullPriPart_of_hasPri (hpri : HasPri ds text) :
    pullPriPart raw = some (ds.length + 2, priValue 0 ds) := by
  obtain ⟨rest, htext⟩ := hpri.starts
  have hread : ∀ i, i ≤ ds.length → raw.buf[0 + 1 + i]? = (ds ++ 62 :: rest)[i]? := fun i hi =>
    h.getElem?_rest htext (by rw [length_append, length_cons]; omega)
  have hlen : raw.iLenRawMsg = ds.length + rest.length + 2 := by
    rw [h.iLenRawMsg_eq, htext]
    simp only [length_cons, length_append]
    omega
  have hend : raw.buf[0 + ds.length + 1]? = some 62 := by
    rw [Nat.add_right_comm, hread ds.length le_rfl, getElem?_append_right le_rfl,
      Nat.sub_self]
    rfl
  rw [pullPriPart, hlen, pullPri_digits hpri.digits rfl hread hpri.value_le,
    bind_some, hend, map_some, if_pos rfl, if_neg (by simpa using hpri.value_le),
    Nat.zero_add]

lemma pullPriPart_of_not_hasPri (hlt : text.head? = some 60) (hempty : ¬[60, 62] <+: text)
    (hnot : ∀ ds, ¬HasPri ds text) : ∃ off, pullPriPart raw = some (off, LOG_PRI_INVLD) := by
  obtain ⟨rest, rfl⟩ := head?_eq_some_iff.mp hlt
  obtain ⟨msg', pri', ds, hrun, hpulled⟩ :=
    exists_pulled 0 fun i hi => h.getElem?_rest rfl hi
  rw [pullPriPart, h.iLenRawMsg_eq, length_cons, hrun, bind_some]
  have hvalue := hpulled.value
  rcases hpulled.stopped with ⟨rfl, rfl⟩ | ⟨c, rest', rfl, rfl⟩
  · have hread := h.getElem?_of_lt (i := 0 + rest.length) (by rw [length_cons]; omega)
    rw [hread, Nat.zero_add, getElem?_eq_getElem (Nat.lt_succ_self _), map_some,
      if_neg (getLast_ne_gt hpulled.digits (getElem?_eq_getElem (Nat.lt_succ_self _)))]
    exact ⟨_, rfl⟩
  · have hread : raw.buf[0 + ds.length + 1]? = some c := by
      rw [Nat.add_right_comm, h.getElem?_rest rfl (by simp),
        getElem?_append_right le_rfl, Nat.sub_self]
      rfl
    rw [hread, map_some]
    by_cases hc : c = 62
    · subst hc
      have hne : ds ≠ [] := by
        rintro rfl
        exact hempty ⟨rest', rfl⟩
      have hbig : pri' > LOG_MAXPRI := by
        by_contra hle
        exact hnot ds ⟨hne, hpulled.digits, by omega, rest', rfl⟩
      rw [if_pos hbig]
      exact ⟨_, rfl⟩
    · rw [if_neg hc]
      exact ⟨_, rfl⟩

/-! ## The place of the getter -/

lemma offOfPri_of_lt (hlt : text.head? = some 60) :
    offOfPri raw = some (if raw.buf[2]? = some 62 then 3 else if raw.buf[3]? = some 62 then 4
      else if raw.buf[4]? = some 62 then 5 else 0) := by
  obtain ⟨c₂, h₂⟩ := h.exists_getElem? (i := 2) (by decide)
  obtain ⟨c₃, h₃⟩ := h.exists_getElem? (i := 3) (by decide)
  obtain ⟨c₄, h₄⟩ := h.exists_getElem? (i := 4) (by decide)
  rw [offOfPri, h.head, hlt, h₂, h₃, h₄]
  simp only [getD_some, bind_some, map_some, if_true, Option.some.injEq]
  split_ifs <;> rfl

lemma offOfPri_of_not_lt (hlt : text.head? ≠ some 60) : offOfPri raw = some 0 := by
  rw [offOfPri, h.head, bind_some, if_neg]
  cases text with
  | nil => decide
  | cons c text => simpa using hlt

lemma offOfPri_of_hasPri (hpri : HasPri ds text) (hle : ds.length ≤ 3) :
    offOfPri raw = some (ds.length + 2) := by
  obtain ⟨rest, htext⟩ := hpri.starts
  have hread : ∀ i, i ≤ ds.length → raw.buf[i + 1]? = (ds ++ 62 :: rest)[i]? := fun i hi => by
    have := h.getElem?_rest htext (i := i) (by rw [length_append, length_cons]; omega)
    rwa [Nat.add_comm] at this
  have hend : raw.buf[ds.length + 1]? = some 62 := by
    rw [hread _ le_rfl, getElem?_append_right le_rfl, Nat.sub_self]
    rfl
  have hdigit : ∀ i, i < ds.length → raw.buf[i + 1]? ≠ some 62 := by
    intro i hi heq
    rw [hread i hi.le, getElem?_append_left hi] at heq
    exact absurd (hpri.digits _ (mem_of_getElem? heq)) (by decide)
  have hpos : 0 < ds.length := length_pos_of_ne_nil hpri.ne_nil
  rw [offOfPri_of_lt h (by rw [htext]; rfl)]
  generalize ds.length = n at hle hend hdigit hpos ⊢
  interval_cases n
  · rw [if_pos hend]
  · rw [if_neg (hdigit 1 (by decide)), if_pos hend]
  · rw [if_neg (hdigit 1 (by decide)), if_neg (hdigit 2 (by decide)), if_pos hend]

lemma exists_offOfPri :
    ∃ off, offOfPri raw = some off ∧
      (off = 0 ∨ 3 ≤ off ∧ off ≤ 5 ∧ raw.buf[off - 1]? = some 62) := by
  by_cases hlt : text.head? = some 60
  · refine ⟨_, offOfPri_of_lt h hlt, ?_⟩
    split_ifs with h₂ h₃ h₄
    · exact .inr ⟨by decide, by decide, h₂⟩
    · exact .inr ⟨by decide, by decide, h₃⟩
    · exact .inr ⟨by decide, by decide, h₄⟩
    · exact .inl rfl
  · exact ⟨0, offOfPri_of_not_lt h hlt, .inl rfl⟩

lemma offOfPri_eq_zero_iff (hlt : text.head? = some 60) (hempty : ¬[60, 62] <+: text) :
    offOfPri raw = some 0 ↔ 62 ∉ raw.buf.take 5 := by
  have hfirst : raw.buf[0]? ≠ some 62 ∧ raw.buf[1]? ≠ some 62 := by
    obtain ⟨stale, hbuf⟩ := h.buf_eq
    match text with
    | [_] => simp_all
    | _ :: c :: _ => simp_all [@eq_comm _ 62 c]
  have hmem : 62 ∈ raw.buf.take 5 ↔ ∃ i < 5, raw.buf[i]? = some 62 := by
    simp only [mem_iff_getElem?, getElem?_take, Option.ite_none_right_eq_some]
  rw [offOfPri_of_lt h hlt, hmem]
  simp only [Nat.exists_lt_succ_right, Nat.not_lt_zero, false_and, exists_false, false_or, hfirst]
  split_ifs <;> simp_all

lemma getRawMsgAfterPRI_eq :
    getRawMsgAfterPRI raw = (offOfPri raw).map fun off => ⟨some off, raw.iLenRawMsg - off⟩ := by
  unfold getRawMsgAfterPRI
  split
  next hnull => exact absurd hnull h.ne_null
  next => rfl

end Accept

/-! ## Both together -/

def PriMsg.withPri (m : PriMsg) (pri offs : ℕ) : PriMsg :=
  { m with iFacility := pri2fac pri, iSeverity := pri2sev pri, offAfterPRI := offs }

section Parsed

variable {m : PriMsg} {text ds : Bytes}

lemma ParsePRI_of_hasPri (h : Stored m.raw text) (hflag : m.noPriInRaw = false)
    (hpri : HasPri ds text) : ParsePRI m = some (m.withPri (priValue 0 ds) (ds.length + 2)) := by
  obtain ⟨rest, htext⟩ := hpri.starts
  have hle := hpri.value_le
  have hne : priValue 0 ds ≠ LOG_PRI_INVLD := ne_of_lt (hle.trans_lt (by decide))
  rw [ParsePRI, if_neg (by simp [hflag]), h.head, htext, bind_some, head?_cons,
    getD_some, if_pos rfl, pullPriPart_of_hasPri h hpri, map_some, if_neg hne]
  simp only [msgSetPRI, if_neg (not_lt.mpr hle), MsgSetAfterPRIOffs, PriMsg.withPri]

/-- A text without a PRI part: it is invalid where it starts as if it had one, and the default
where it does not. -/
lemma ParsePRI_of_not_hasPri (h : Stored m.raw text) (hflag : m.noPriInRaw = false)
    (hempty : ¬[60, 62] <+: text) (hnot : ∀ ds, ¬HasPri ds text) :
    ParsePRI m = some (m.withPri (if text.head? = some 60 then LOG_PRI_INVLD else DEFUPRI) 0) := by
  rw [ParsePRI, if_neg (by simp [hflag]), h.head, bind_some]
  by_cases hlt : text.head? = some 60
  · obtain ⟨off, hoff⟩ := pullPriPart_of_not_hasPri h hlt hempty hnot
    rw [hlt, getD_some, if_pos rfl, hoff, map_some, if_pos rfl, if_pos rfl, msgSetPRI,
      if_pos (show LOG_PRI_INVLD > LOG_MAXPRI by decide), MsgSetAfterPRIOffs, PriMsg.withPri]
  · have hc : text.head?.getD 0 ≠ 60 := by
      cases text with
      | nil => decide
      | cons c text => simpa using hlt
    rw [if_neg hc, map_some, if_neg hlt]
    rfl

end Parsed

/-- The places of both pieces of code agree: there is no `<`, there is a PRI part of at most three
digits, or there is none and the first five octets have no `>`. -/
def SamePlace (raw : RawMsg) (text : Bytes) : Prop :=
  text.head? ≠ some 60 ∨ (∃ ds, HasPri ds text ∧ ds.length ≤ 3) ∨
    (∀ ds, ¬HasPri ds text) ∧ 62 ∉ raw.buf.take 5

lemma offAfterPRI_eq_iff {m m' : PriMsg} {text : Bytes} {off : ℕ} (h : Stored m.raw text)
    (hflag : m.noPriInRaw = false) (hempty : ¬[60, 62] <+: text) (hparsed : ParsePRI m = some m')
    (hoff : offOfPri m.raw = some off) : off = m'.offAfterPRI ↔ SamePlace m.raw text := by
  by_cases hpri : ∃ ds, HasPri ds text
  · obtain ⟨ds, hds⟩ := hpri
    cases hparsed.symm.trans (ParsePRI_of_hasPri h hflag hds)
    by_cases hle : ds.length ≤ 3
    · cases hoff.symm.trans (offOfPri_of_hasPri h hds hle)
      exact iff_of_true rfl (.inr (.inl ⟨ds, hds, hle⟩))
    · -- a `>` behind more than three digits is too far away for the getter
      obtain ⟨off', hoff', hseen⟩ := exists_offOfPri h
      cases hoff.symm.trans hoff'
      refine iff_of_false (fun heq => hle ?_) ?_
      · have hend : off = ds.length + 2 := heq
        omega
      · rintro (hlt | ⟨ds', hds', hle'⟩ | ⟨hnot, -⟩)
        · obtain ⟨rest, rfl⟩ := hds.starts
          exact hlt rfl
        · have hsame := ParsePRI_of_hasPri h hflag hds'
          rw [ParsePRI_of_hasPri h hflag hds] at hsame
          have hlen := congrArg PriMsg.offAfterPRI (Option.some.inj hsame)
          exact hle (Nat.add_right_cancel hlen ▸ hle')
        · exact hnot ds hds
  · have hnot : ∀ ds, ¬HasPri ds text := fun ds hds => hpri ⟨ds, hds⟩
    cases hparsed.symm.trans (ParsePRI_of_not_hasPri h hflag hempty hnot)
    by_cases hlt : text.head? = some 60
    · rw [SamePlace, or_iff_right (not_not_intro hlt),
        or_iff_right (fun ⟨ds, hds, _⟩ => hnot ds hds), and_iff_right hnot,
        ← offOfPri_eq_zero_iff h hlt hempty, hoff, Option.some.injEq]
      rfl
    · cases hoff.symm.trans (offOfPri_of_not_lt h hlt)
      exact iff_of_true rfl (.inl hlt)

/-- **The PRI part.** Unless a raw message is flagged to be without one or starts with `<>`, its PRI
part is accepted exactly when it is `<`, digits of a number up to 191, and `>`. Otherwise
`offAfterPRI` is 0 and the PRI is invalid, or the default if there is no `<`. The text of the getter
is the rest of the raw message behind its place, which is `offAfterPRI` exactly if `SamePlace`
holds; its length is negative only with a `>` behind the end of the raw message. -/
theorem parsePRI_accepts (m : PriMsg) (text : Bytes) (h : Stored m.raw text)
    (hempty : ¬[60, 62] <+: text) :
    ∃ m' off len, ParsePRI m = some m' ∧ getRawMsgAfterPRI m.raw = some ⟨some off, len⟩ ∧
      (m.noPriInRaw = true → m' = { m with offAfterPRI := 0 }) ∧
      (m.noPriInRaw = false →
        (0 < m'.offAfterPRI ↔ ∃ ds, HasPri ds text) ∧
        (∀ ds, HasPri ds text → m' = m.withPri (priValue 0 ds) (ds.length + 2)) ∧
        (m'.offAfterPRI = 0 →
          m' = m.withPri (if text.head? = some 60 then LOG_PRI_INVLD else DEFUPRI) 0) ∧
        (off = m'.offAfterPRI ↔ SamePlace m.raw text)) ∧
      len = (text.length : ℤ) - off ∧ len ≤ text.length ∧
      ((∀ i, text.length ≤ i → i ≤ 4 → m.raw.buf[i]? ≠ some 62) → 0 ≤ len) := by
  obtain ⟨off, hoff, hseen⟩ := exists_offOfPri h
  have hget : getRawMsgAfterPRI m.raw = some ⟨some off, (text.length : ℤ) - off⟩ := by
    rw [getRawMsgAfterPRI_eq h, hoff, h.iLenRawMsg_eq, map_some]
  have hle : (text.length : ℤ) - off ≤ text.length := by omega
  have hlen : (∀ i, text.length ≤ i → i ≤ 4 → m.raw.buf[i]? ≠ some 62) →
      (0 : ℤ) ≤ (text.length : ℤ) - off := by
    intro hbehind
    rcases hseen with rfl | ⟨-, hle, hgt⟩
    · omega
    · have : ¬text.length ≤ off - 1 := fun hout => hbehind _ hout (by omega) hgt
      omega
  cases hflag : m.noPriInRaw with
  | true =>
    refine ⟨{ m with offAfterPRI := 0 }, off, _, ?_, hget, fun _ => by rw [hflag],
      fun hf => absurd hf (by decide), rfl, hle, hlen⟩
    rw [ParsePRI, if_pos hflag, MsgSetAfterPRIOffs]
  | false =>
    by_cases hpri : ∃ ds, HasPri ds text
    · obtain ⟨ds, hds⟩ := hpri
      have hrun := ParsePRI_of_hasPri h hflag hds
      refine ⟨_, off, _, hrun, hget, fun hf => absurd hf (by decide), fun _ => ⟨?_, ?_, ?_, ?_⟩,
        rfl, hle, hlen⟩
      · exact iff_of_true (Nat.succ_pos _) ⟨ds, hds⟩
      · intro ds' hds'
        exact Option.some.inj (hrun.symm.trans (ParsePRI_of_hasPri h hflag hds'))
      · intro hzero
        exact absurd hzero (Nat.succ_ne_zero _)
      · exact offAfterPRI_eq_iff h hflag hempty hrun hoff
    · have hnot : ∀ ds, ¬HasPri ds text := fun ds hds => hpri ⟨ds, hds⟩
      have hrun := ParsePRI_of_not_hasPri h hflag hempty hnot
      refine ⟨_, off, _, hrun, hget, fun hf => absurd hf (by decide), fun _ => ⟨?_, ?_, ?_, ?_⟩,
        rfl, hle, hlen⟩
      · exact iff_of_false (Nat.lt_irrefl 0) hpri
      · exact fun ds hds => absurd hds (hnot ds)
      · exact fun _ => rfl
      · exact offAfterPRI_eq_iff h hflag hempty hrun hoff

def priMsg (text : Bytes) (h : text.length ≤ 100) : PriMsg where
  raw := {
    szRawMsg := ⟨text ++ List.replicate (101 - text.length) 0, by
      rw [length_append, length_replicate]
      unfold CONF_RAWMSG_BUFSIZE
      omega⟩
    pszRawMsg := .fixed
    iLenRawMsg := text.length
    iLenMSG := 0
    offMSG := 0 }
  noPriInRaw := false
  iFacility := 0
  iSeverity := 0
  offAfterPRI := 0

lemma stored_priMsg (text : Bytes) (h : text.length ≤ 100) : Stored (priMsg text h).raw text where
  ne_null := by simp [priMsg]
  buf_eq := by
    refine ⟨List.replicate (100 - text.length) 0, ?_⟩
    change text ++ List.replicate (101 - text.length) 0 = _
    rw [show 101 - text.length = 100 - text.length + 1 by omega, replicate_succ]
  le_length := (priMsg text h).raw.szRawMsg.length_bytes.ge
  iLenRawMsg_eq := rfl

def noticeText : Bytes := [60, 49, 51, 62, 97]

theorem parsePRI_accepts_notice : ¬[60, 62] <+: noticeText ∧ HasPri [49, 51] noticeText ∧
    ∃ m', ParsePRI (priMsg noticeText (by decide)) = some m' ∧
      m' = (priMsg noticeText (by decide)).withPri 13 4 := by
  have hpri : HasPri [49, 51] noticeText :=
    ⟨by decide, by decide +kernel, by decide +kernel, [97], rfl⟩
  obtain ⟨m', _, _, hrun, -, -, h, -⟩ :=
    parsePRI_accepts (priMsg noticeText (by decide)) noticeText (stored_priMsg _ _) (by decide)
  exact ⟨by decide, hpri, m', hrun, (h rfl).2.1 _ hpri⟩

def letterText : Bytes := [60, 97, 98, 62, 99]

/-- There is no PRI part, and the message gets the PRI for invalid ones, which is not the default.
The getter takes the letters for one. -/
theorem letters_get_invalid_pri : (∀ ds, ¬HasPri ds letterText) ∧
    (ParsePRI (priMsg letterText (by decide))).map
        (fun m => (m.iFacility, m.iSeverity, m.offAfterPRI)) = some (24, 7, 0) ∧
      (pri2fac DEFUPRI, pri2sev DEFUPRI) = (1, 5) ∧
      getRawMsgAfterPRI (priMsg letterText (by decide)).raw = some ⟨some 4, 1⟩ := by
  refine ⟨?_, by decide +kernel, by decide, by decide +kernel⟩
  intro ds h
  obtain ⟨rest, htext⟩ := h.starts
  cases ds with
  | nil => exact h.ne_nil rfl
  | cons d ds =>
    have hd : (97 : UInt8) = d := (List.cons.inj (List.cons.inj htext).2).1
    exact absurd (h.digits 97 (by rw [hd]; exact mem_cons_self)) (by decide)

end Rsyslog.Parser
