import Rsyslog.Datetime.Pointer
import Rsyslog.Parser.Hostname
import Rsyslog.Parser.Rfc5424

/-!
# Where MSG starts in RFC 3164 messages

The raw message is to consist of PRI, timestamp, HOSTNAME, TAG and MSG, with spaces between them.
Two things can go wrong with the offset of MSG. A year in front of the timestamp leaves the counter
one too high, and a TAG that goes on to the end of the message then takes the terminator with it.
And where a TAG has to end with a colon but does not, the pointer goes back one octet more than it
has moved: to the space before, if there is one, but otherwise into what was parsed before.
-/

namespace Rsyslog.Parser.Rfc3164

open Lib Lib.Step Obj Msg Datetime Cursor Nat
open Option (map_some map_eq_some_iff)
open Rfc5424 (IsSep)
open List (cons_append head?_cons length_cons append_assoc drop_left length_append append_nil
  length_nil length_singleton append_cons length_drop)

/-! ## Timestamp -/

def yearCount (text : Bytes) : ℕ := if text.head?.any isDigit then 1 else 0

section Timestamp

variable (tz : Bytes → Option TzInfo) (inst : InstanceConf) (pTime : SyslogTime)

/-- The text behind the timestamp, if there is one, and how much the counter is too high there. -/
def afterStamp (text : Bytes) : Bytes × ℕ :=
  match ParseTIMESTAMP3339 pTime (.terminated 0 text) with
  | .ok _ c => (c.rest.dropLast, 0)
  | .error _ _ =>
    match legacyTime tz inst pTime (.terminated 0 text) with
    | .ok _ c => (c.rest.dropLast, yearCount text)
    | .error _ _ =>
      if text.head? = some 32 then
        match legacyTime tz inst pTime (.terminated 0 text.tail) with
        | .ok _ c => (c.rest.dropLast, yearCount text.tail)
        | .error _ _ => (text, 0)
      else (text, 0)

lemma legacyTime_terminated (text : Bytes) :
    (∃ t w text', legacyTime tz inst pTime (.terminated 0 text) =
        .ok t (.counted 0 text' (yearCount text)) ∧ text = w ++ text') ∨
      ∃ c, legacyTime tz inst pTime (.terminated 0 text) = .error .reject c :=
  ParseTIMESTAMP3164_terminated text

lemma legacyTimeAfterSpace_of_ne {text : Bytes} (h : text.head? ≠ some 32) :
    ∃ c, legacyTimeAfterSpace tz inst pTime (.terminated 0 text) = .error .reject c := by
  cases text with
  | nil => exact ⟨_, rfl⟩
  | cons x text =>
    have hx : ¬(x = 32 ∧ 1 < (terminated 0 (x :: text)).len) := fun hx =>
      h (by rw [hx.1, head?_cons])
    refine ⟨.terminated 0 (x :: text), ?_⟩
    rw [legacyTimeAfterSpace, bind_eq_of_ok (peek_cons x), remaining_bind]
    exact bind_eq_of_error (require_of_not hx _)

lemma legacyTimeAfterSpace_cons (x : UInt8) (text : Bytes) :
    legacyTimeAfterSpace tz inst pTime (.terminated 0 (32 :: x :: text)) =
      legacyTime tz inst pTime (.terminated 0 (x :: text)) := by
  have hlen : (32 : UInt8) = 32 ∧ 1 < (terminated 0 (32 :: x :: text)).len := by
    refine ⟨rfl, ?_⟩
    simp only [terminated, length_cons]
    omega
  rw [legacyTimeAfterSpace, bind_eq_of_ok (peek_cons 32), remaining_bind,
    bind_eq_of_ok (require_of hlen _), bind_eq_of_ok (next_cons 32)]

lemma dropLast_counted (text : Bytes) (k : ℕ) : ((counted 0 text k).rest.dropLast, k) = (text, k) :=
  congrArg (·, k) List.dropLast_concat

lemma timestamp_counted (dfltTZ text : Bytes) :
    ∃ t w text' k, timestamp tz inst pTime dfltTZ (.terminated 0 text) =
        .ok t (.counted 0 text' k) ∧
      afterStamp tz inst pTime text = (text', k) ∧ text = w ++ text' ∧ k ≤ 1 := by
  have hyear (text : Bytes) : yearCount text ≤ 1 := by
    rw [yearCount]
    split <;> decide
  rw [timestamp, afterStamp]
  rcases (Format.follows_timestamp3339 (passes_mem 0) pTime text).terminated with
    ⟨t, w, text', hrun, htext⟩ | ⟨c, hrun⟩
  · rw [bind_eq_of_ok (attempt_of_ok hrun), hrun]
    exact ⟨t, w, text', 0, rfl, dropLast_counted text' 0, htext, zero_le _⟩
  rw [bind_eq_of_ok (attempt_of_reject hrun), hrun]
  dsimp only
  rcases legacyTime_terminated tz inst pTime text with
    ⟨t, w, text', hrun, htext⟩ | ⟨c, hrun⟩
  · rw [bind_eq_of_ok (attempt_of_ok hrun), hrun]
    exact ⟨_, w, text', yearCount text, rfl, dropLast_counted text' _, htext, hyear text⟩
  rw [bind_eq_of_ok (attempt_of_reject hrun), hrun]
  dsimp only
  by_cases hhead : text.head? = some 32
  · obtain ⟨text, rfl⟩ := List.head?_eq_some_iff.mp hhead
    rw [if_pos hhead, List.tail_cons]
    cases text with
    | nil => exact ⟨pTime, [], [32], 0, rfl, rfl, rfl, zero_le _⟩
    | cons x text =>
    have hspace := legacyTimeAfterSpace_cons tz inst pTime x text
    rcases legacyTime_terminated tz inst pTime (x :: text) with
      ⟨t, w, text', hrun, htext⟩ | ⟨c, hrun⟩
    · rw [bind_eq_of_ok (attempt_of_ok (hspace.trans hrun)), hrun]
      exact ⟨t, 32 :: w, text', _, rfl, dropLast_counted text' _, congrArg (32 :: ·) htext, hyear _⟩
    · rw [bind_eq_of_ok (attempt_of_reject (hspace.trans hrun)), hrun]
      exact ⟨pTime, [], 32 :: x :: text, 0, rfl, rfl, rfl, zero_le _⟩
  · obtain ⟨c, hspace⟩ := legacyTimeAfterSpace_of_ne tz inst pTime hhead
    rw [if_neg hhead, bind_eq_of_ok (attempt_of_reject hspace)]
    exact ⟨pTime, [], text, 0, rfl, rfl, rfl, zero_le _⟩

end Timestamp

/-! ## HOSTNAME -/

def hostTooLong (inst : InstanceConf) (text : Bytes) : Prop :=
  startsWithHost inst text ∧ (firstWord text).length = CONF_HOSTNAME_MAXSIZE
deriving Decidable

section Hostname

variable {inst : InstanceConf} {k : ℕ} {text host rest : Bytes}

lemma drop_counted {w rest : Bytes} (h : text = w ++ rest) :
    (⟨(text ++ [0]).drop w.length, text.length + k - w.length⟩ : Cursor UInt8) =
      .counted 0 rest k := by
  rw [h, append_assoc, drop_left, length_append, counted]
  simp only [mk.injEq, true_and]
  omega

/-- What parsing HOSTNAME comes to. -/
def hostResult (inst : InstanceConf) (text : Bytes) (k : ℕ) :
    EStateM.Result Fault (Cursor UInt8) (Option Bytes) :=
  if hostTooLong inst text then .error .outside (.counted 0 text k)
  else .ok ((hostOf inst k text).map Prod.fst)
    (.counted 0 ((hostOf inst k text).getD ([], text)).2 k)

lemma hostname_eq (hlen : 0 < text.length + k) :
    hostname inst (.counted 0 text k) = hostResult inst text k := by
  have hread : hostRead inst (counted 0 text k).rest (counted 0 text k).len =
      if hostTooLong inst text then none else some _ := hostRead_eq hlen
  rw [hostname, hread, hostResult]
  by_cases hlong : hostTooLong inst text
  · rw [if_pos hlong, if_pos hlong]
  rw [if_neg hlong, if_neg hlong]
  cases hhost : hostOf inst k text with
  | none => simp
  | some hr =>
    obtain ⟨host, rest⟩ := hr
    obtain ⟨-, sep, -, hw⟩ := hostOf_split hhost
    have hn : text.length - rest.length = (host ++ sep).length := by
      rw [hw, length_append, Nat.add_sub_cancel]
    dsimp only
    rw [hn]
    exact congrArg (EStateM.Result.ok (some host)) (drop_counted hw)

end Hostname

/-! ## TAG -/

def tagChar (c : UInt8) : Bool := c ≠ 58 ∧ c ≠ 32

def tagWord (text : Bytes) : Bytes := (text.takeWhile tagChar).take 510

def tagHasColon (text : Bytes) : Prop := (text.drop (tagWord text).length).head? = some 58
deriving Decidable

def tagTakesTerminator (k : ℕ) (text : Bytes) : Prop :=
  k = 1 ∧ text.all tagChar = true ∧ text.length < 510
deriving Decidable

section Tag

variable {inst : InstanceConf} {k : ℕ} {text : Bytes}

lemma tagLoop_append (buf text beyond : Bytes) :
    let w := (text.takeWhile tagChar).take (510 - buf.length)
    tagLoop buf (text ++ beyond) text.length =
      .ok (buf ++ w) ⟨(text ++ beyond).drop w.length, text.length - w.length⟩ := by
  induction text generalizing buf with
  | nil => cases beyond <;> simp [tagLoop]
  | cons c text ih =>
    dsimp only
    rw [cons_append, tagLoop, take_takeWhile_cons]
    by_cases hc : c ≠ 58 ∧ c ≠ 32 ∧ buf.length < 510
    · have hroom : 510 - buf.length - 1 = 510 - (buf ++ [c]).length := by
        rw [length_append, length_singleton]
        omega
      rw [if_pos ⟨Int.natCast_pos.mpr (Nat.succ_pos _), hc⟩,
        if_pos ⟨decide_eq_true ⟨hc.1, hc.2.1⟩, Nat.sub_pos_of_lt hc.2.2⟩,
        length_cons_sub_one, ih, hroom, append_assoc, List.singleton_append, length_cons,
        length_cons, List.drop_succ_cons, Nat.cast_succ, Nat.cast_succ, add_sub_add_right_eq_sub]
    · have hstop : ¬(tagChar c = true ∧ 0 < 510 - buf.length) := fun h =>
        hc ⟨(of_decide_eq_true h.1).1, (of_decide_eq_true h.1).2, Nat.lt_of_sub_pos h.2⟩
      rw [if_neg fun h => hc h.2, if_neg hstop, append_nil, length_nil, Nat.cast_zero, sub_zero]
      rfl

lemma tagWord_append_drop (text : Bytes) : tagWord text ++ text.drop (tagWord text).length = text :=
  List.prefix_iff_eq_append.mp ((List.take_prefix _ _).trans (List.takeWhile_prefix _))

lemma tagWord_replicate (hk : k ≤ 1) : tagWord (text ++ List.replicate k 0) =
    if tagTakesTerminator k text then text ++ [0] else tagWord text := by
  obtain rfl | rfl := le_one_iff_eq_zero_or_eq_one.mp hk
  · rw [if_neg fun h => absurd h.1 zero_ne_one, List.replicate_zero, append_nil]
  have hterm : tagTakesTerminator 1 text ↔
      (text.takeWhile tagChar).length = text.length ∧ text.length < 510 := by
    rw [tagTakesTerminator, and_iff_right rfl, List.all_eq_true, ← List.takeWhile_eq_self_iff]
    exact and_congr_left' ⟨congrArg List.length, (List.takeWhile_prefix _).eq_of_length⟩
  rw [tagWord, tagWord, List.takeWhile_append]
  simp only [hterm]
  split_ifs with hall hlen
  · exact List.take_of_length_le (by rw [length_append]; exact hlen.2)
  · rw [(List.takeWhile_prefix _).eq_of_length hall]
    exact List.take_append_of_le_length (by omega)
  · omega
  · rfl

/-- Where TAG ends: at the colon, behind the terminator or before it. -/
lemma tag_spec (hk : k ≤ 1) :
    (tagHasColon text ∧ ∃ w rest, text = w ++ rest ∧
      tag inst (.counted 0 text k) = .ok (w, 0) (.counted 0 rest k)) ∨
    (¬tagHasColon text ∧ ∃ w c, tag inst (.counted 0 text k) =
        .ok (if inst.bForceTagEndingByColon then ([45], w.length + 1) else (w, 0)) c ∧
      c.rest.length + w.length = text.length + 1 ∧
      (tagTakesTerminator k text ∧ c.rest = [] ∨ ¬tagTakesTerminator k text ∧
        ∃ rest, text = w ++ rest ∧ c = .counted 0 rest k)) := by
  have hchars : tagChars (.counted 0 text k) = .ok (tagWord (text ++ List.replicate k 0))
      ⟨(text ++ [0]).drop (tagWord (text ++ List.replicate k 0)).length,
        text.length + k - (tagWord (text ++ List.replicate k 0)).length⟩ := by
    have happend : text ++ [0] = text ++ List.replicate k 0 ++ List.replicate (1 - k) 0 := by
      obtain rfl | rfl := le_one_iff_eq_zero_or_eq_one.mp hk <;> simp
    have hloop := tagLoop_append [] (text ++ List.replicate k 0) (List.replicate (1 - k) 0)
    dsimp only at hloop
    rw [length_append, List.length_replicate, cast_add, ← happend] at hloop
    exact hloop
  rw [tagWord_replicate hk] at hchars
  have hword := tagWord_append_drop text
  by_cases hterm : tagTakesTerminator k text
  · have hself : tagWord text = text :=
      take_takeWhile_eq_self_iff.mpr ⟨List.all_eq_true.mp hterm.2.1, hterm.2.2.le⟩
    have hzero : (text.length + k - (text ++ [0]).length : ℤ) = 0 := by
      rw [hterm.1, length_append]
      exact Int.sub_self _
    rw [if_pos hterm, List.drop_length, hzero] at hchars
    refine .inr ⟨fun hcolon => ?_, text ++ [0], ⟨[], 0⟩, ?_, by simp, .inl ⟨hterm, rfl⟩⟩
    · rw [tagHasColon, hself, List.drop_length] at hcolon
      exact nomatch hcolon
    · rw [tag, bind_eq_of_ok hchars]
      rfl
  rw [if_neg hterm, drop_counted hword.symm] at hchars
  rw [tag, bind_eq_of_ok hchars]
  by_cases hcolon : tagHasColon text
  · obtain ⟨rest, hrest⟩ := List.head?_eq_some_iff.mp hcolon
    refine .inl ⟨hcolon, tagWord text ++ [58], rest, ?_, ?_⟩
    · rw [append_assoc, List.singleton_append, ← hrest, hword]
    · rw [hrest, whenNext_counted_cons]
      rfl
  · refine .inr ⟨hcolon, tagWord text, _, ?_, ?_, .inr ⟨hterm, _, hword.symm, rfl⟩⟩
    · rw [whenNext_counted_ne hcolon (by decide)]
      rfl
    · have hlen := congrArg List.length hword
      rw [length_append] at hlen
      rw [counted, length_append, length_singleton]
      omega

end Tag

/-! ## Messages -/

def isBlank (c : UInt8) : Bool := c = 32 ∨ c = 9

def isHeaderless (text : Bytes) : Bool :=
  (text.dropWhile isBlank).head?.any fun c => c = 123 ∨ c = 91

lemma headerless_eq (text : Bytes) :
    headerless (text ++ [0]) text.length = some (isHeaderless text) := by
  induction text with
  | nil => rfl
  | cons c text ih =>
    have hlen : (0 : ℤ) < (c :: text).length := by
      rw [length_cons]
      omega
    have hcount : ((c :: text).length - 1 : ℤ) = text.length := by
      rw [length_cons]
      omega
    rw [cons_append, headerless, if_pos hlen, hcount, isHeaderless]
    by_cases hc : c = 32 ∨ c = 9
    · have hblank : isBlank c = true := decide_eq_true hc
      rw [if_pos hc, ih, List.dropWhile_cons_of_pos hblank]
      rfl
    · have hblank : ¬isBlank c = true := fun h => hc (of_decide_eq_true h)
      rw [if_neg hc, List.dropWhile_cons_of_neg hblank, head?_cons,
        Option.any_some]

lemma firstSpace_natCast (inst : InstanceConf) {rawMsg : Bytes} {p : ℕ} (hp : p ≤ rawMsg.length) :
    ∃ sep rest, IsSep sep ∧ rawMsg.drop p = sep ++ rest ∧
      firstSpace inst rawMsg p = some ((p + sep.length : ℕ) : ℤ) := by
  have hoctet : octetAt rawMsg p = (rawMsg.drop p ++ [0]).head? := by
    rw [octetAt, if_pos (Int.natCast_nonneg p), Int.toNat_natCast,
      ← List.drop_append_of_le_length hp, List.head?_drop]
  by_cases hspace : inst.bRemoveMsgFirstSpace = true ∧ (rawMsg.drop p).head? = some 32
  · obtain ⟨rest, hrest⟩ := List.head?_eq_some_iff.mp hspace.2
    refine ⟨[32], rest, .inr rfl, hrest, ?_⟩
    rw [firstSpace, if_pos hspace.1, hoctet, hrest]
    rfl
  · refine ⟨[], rawMsg.drop p, .inl rfl, rfl, ?_⟩
    rw [firstSpace]
    split
    case isFalse => rfl
    case isTrue hremove =>
      have hne : (rawMsg.drop p).head? ≠ some 32 := fun h => hspace ⟨hremove, h⟩
      cases hdrop : rawMsg.drop p with
      | nil =>
        rw [hoctet, hdrop]
        rfl
      | cons c rest =>
        rw [hdrop, head?_cons] at hne
        rw [hoctet, hdrop, cons_append, head?_cons, map_some,
          if_neg fun hc => hne (by rw [hc])]
        rfl

def dropSpace (text : Bytes) : Bytes :=
  if text.getLast? = some 32 then text.dropLast else text

def between (text start rest : Bytes) : Bytes :=
  (text.take (text.length - rest.length)).drop start.length

lemma between_of_eq {text start mid rest : Bytes} (h : text = start ++ mid ++ rest) :
    between text start rest = mid := by
  have hlen : text.length - rest.length = (start ++ mid).length := by
    rw [h, length_append, Nat.add_sub_cancel]
  rw [between, hlen, h, List.take_left, drop_left]

lemma isSep_dropSpace (text : Bytes) :
    IsSep (between text (dropSpace text) []) ∧
      text = dropSpace text ++ between text (dropSpace text) [] ∧
      (between text (dropSpace text) [] = [] → (dropSpace text).getLast? ≠ some 32) := by
  rw [dropSpace]
  split
  case isTrue hlast =>
    have htext : text = text.dropLast ++ [32] := (List.dropLast_append_getLast? 32 hlast).symm
    have hsep : between text text.dropLast [] = [32] :=
      between_of_eq (by rw [append_nil, ← htext])
    rw [hsep]
    exact ⟨.inr rfl, htext, fun h => absurd h (List.cons_ne_nil 32 [])⟩
  case isFalse hlast =>
    have hsep : between text text [] = [] :=
      between_of_eq (by rw [append_nil, append_nil])
    rw [hsep]
    exact ⟨.inl rfl, (append_nil text).symm, fun _ => hlast⟩

/-- The parts of the text behind PRI: timestamp, HOSTNAME, what is behind them, and where TAG
starts. -/
structure Parts (text : Bytes) where
  stamp : Bytes
  sep₀ : Bytes
  host : Bytes
  sep₁ : Bytes
  rest : Bytes
  isSep₀ : IsSep sep₀
  isSep₁ : IsSep sep₁
  stamp_space : sep₀ = [] → stamp.getLast? ≠ some 32
  host_space : 32 ∉ host
  text_eq : text = stamp ++ sep₀ ++ host ++ sep₁ ++ rest

section Parts

variable {E : Env} (tz : Bytes → Option TzInfo) (inst : InstanceConf)
  (bParse : Bool) (off : ℕ) (pMsg : SMsg E)

def hasHeader : Prop :=
  pMsg.iFacility.toNat ≠ LOG_FAC_INVLD ∧ ¬isHeaderless (pMsg.rawMsg.drop off)
deriving Decidable

def hasTag : Prop :=
  hasHeader off pMsg ∧ bParse = true ∧ pMsg.msgFlags &&& INTERNAL_MSG = 0
deriving Decidable

def hasHost : Prop :=
  hasTag bParse off pMsg ∧ pMsg.msgFlags &&& PARSE_HOSTNAME ≠ 0
deriving Decidable

def stampRest : Bytes × ℕ :=
  if hasHeader off pMsg then
    afterStamp tz inst pMsg.tTIMESTAMP (pMsg.rawMsg.drop off)
  else (pMsg.rawMsg.drop off, 0)

def hostRest : Bytes × Bytes :=
  let (text, k) := stampRest tz inst off pMsg
  if hasHost bParse off pMsg then
    (hostOf inst k text).getD ([], text)
  else ([], text)

lemma stampRest_split :
    ∃ w, pMsg.rawMsg.drop off = w ++ (stampRest tz inst off pMsg).1 ∧
      (stampRest tz inst off pMsg).2 ≤ 1 := by
  rw [stampRest]
  split
  case isTrue =>
    obtain ⟨t, w, text', k, -, hafter, htext, hk⟩ := timestamp_counted tz inst
      pMsg.tTIMESTAMP pMsg.dfltTZ (pMsg.rawMsg.drop off)
    rw [hafter]
    exact ⟨w, htext, hk⟩
  case isFalse => exact ⟨[], rfl, zero_le 1⟩

lemma isSep_hostRest :
    let text := (stampRest tz inst off pMsg).1
    let r := hostRest tz inst bParse off pMsg
    IsSep (between text r.1 r.2) ∧ r.1 ++ between text r.1 r.2 ++ r.2 = text ∧ 32 ∉ r.1 := by
  rw [hostRest]
  generalize stampRest tz inst off pMsg = r
  obtain ⟨text, count⟩ := r
  have hnone : IsSep (between text [] text) ∧ [] ++ between text [] text ++ text = text ∧
      32 ∉ ([] : Bytes) := by
    have hsep : between text [] text = [] := between_of_eq rfl
    rw [hsep]
    exact ⟨.inl rfl, rfl, List.not_mem_nil⟩
  dsimp only
  split
  case isFalse => exact hnone
  case isTrue =>
    cases hhost : hostOf inst count text with
    | none => exact hnone
    | some hr =>
      obtain ⟨host, rest⟩ := hr
      obtain ⟨hspace, sep, hsep, htext⟩ := hostOf_split hhost
      rw [Option.getD_some, between_of_eq htext]
      exact ⟨hsep, htext.symm, hspace⟩

def stampText : Bytes :=
  between (pMsg.rawMsg.drop off) [] (stampRest tz inst off pMsg).1

lemma stampText_append : stampText tz inst off pMsg ++
    (stampRest tz inst off pMsg).1 = pMsg.rawMsg.drop off := by
  obtain ⟨w, htext, -⟩ := stampRest_split tz inst off pMsg
  have hw : stampText tz inst off pMsg = w := between_of_eq htext
  rw [hw, ← htext]

def parts : Parts (pMsg.rawMsg.drop off) where
  stamp := dropSpace (stampText tz inst off pMsg)
  sep₀ := between (stampText tz inst off pMsg) (dropSpace (stampText tz inst off pMsg)) []
  host := (hostRest tz inst bParse off pMsg).1
  sep₁ := between (stampRest tz inst off pMsg).1 (hostRest tz inst bParse off pMsg).1
    (hostRest tz inst bParse off pMsg).2
  rest := (hostRest tz inst bParse off pMsg).2
  isSep₀ := (isSep_dropSpace _).1
  isSep₁ := (isSep_hostRest tz inst bParse off pMsg).1
  stamp_space := (isSep_dropSpace _).2.2
  host_space := (isSep_hostRest tz inst bParse off pMsg).2.2
  text_eq := by
    have hhost := (isSep_hostRest tz inst bParse off pMsg).2.1
    have htext := stampText_append tz inst off pMsg
    rw [append_assoc, append_assoc, ← append_assoc _ (between _ _ _), hhost,
      ← (isSep_dropSpace _).2.1, htext]

end Parts

section Pointer

variable {E : Env} {tz : Bytes → Option TzInfo} {inst : InstanceConf}
  {bParse : Bool} {off : ℕ} {pMsg : SMsg E}

lemma hostnamePart_eq {text : Bytes} {k : ℕ} (hflag : pMsg.msgFlags &&& PARSE_HOSTNAME ≠ 0) :
    hostnamePart inst pMsg (.counted 0 text k) = hostResult inst text k := by
  rw [hostnamePart, remaining_bind]
  by_cases hlen : 0 < text.length + k
  · have hlen' : 0 < (counted 0 text k).len := Int.natCast_pos.mpr hlen
    rw [if_pos ⟨hlen', hflag⟩, hostname_eq hlen]
  · obtain rfl : text = [] := List.eq_nil_of_length_eq_zero (by omega)
    have hlen' : ¬0 < (counted 0 ([] : Bytes) k).len := fun h =>
      hlen (Int.natCast_pos.mp h)
    have hlong : ¬hostTooLong inst [] := fun h => absurd h.1.1 List.not_mem_nil
    rw [if_neg fun h => hlen' h.1, hostResult, if_neg hlong, hostOf_nil]
    rfl

variable (tz inst bParse) (hoff : off ≤ pMsg.rawMsg.length)
include hoff

lemma parse2Header_noHeader (h : ¬hasHeader off pMsg) :
    parse2Header tz inst bParse off pMsg = some (pMsg, (off : ℤ)) := by
  rw [parse2Header]
  by_cases hfac : pMsg.iFacility.toNat = LOG_FAC_INVLD
  · rw [if_pos hfac]
  · have hless : isHeaderless (pMsg.rawMsg.drop off) = true := by
      by_contra hless
      exact h ⟨hfac, hless⟩
    have hrun := headerless_eq (pMsg.rawMsg.drop off)
    rw [length_drop, cast_sub hoff, hless] at hrun
    rw [if_neg hfac, List.drop_append_of_le_length hoff, hrun]
    rfl

/-- A message with a header: its timestamp is read, and the pointer is behind it. -/
lemma parse2Header_of_header (h : hasHeader off pMsg) :
    ∃ t, parse2Header tz inst bParse off pMsg =
      match (if bParse ∧ pMsg.msgFlags &&& INTERNAL_MSG = 0 then
          hostnameAndTag inst { pMsg with tTIMESTAMP := t }
        else pure ({ pMsg with tTIMESTAMP := t }, 0) : Step UInt8 (SMsg E × ℕ))
        (.counted 0 (stampRest tz inst off pMsg).1 (stampRest tz inst off pMsg).2) with
      | .ok (pMsg, back) c => some (pMsg, (pMsg.rawMsg.length + 1 - c.rest.length - back : ℤ))
      | .error _ _ => none := by
  obtain ⟨t, w, text', k, hrun, hafter, -, -⟩ := timestamp_counted tz inst
    pMsg.tTIMESTAMP pMsg.dfltTZ (pMsg.rawMsg.drop off)
  have hless := headerless_eq (pMsg.rawMsg.drop off)
  rw [length_drop, cast_sub hoff, Bool.eq_false_iff.mpr h.2] at hless
  refine ⟨if pMsg.msgFlags &&& IGNDATE ≠ 0 then pMsg.tRcvdAt else t, ?_⟩
  rw [parse2Header, if_neg h.1, drop_eq_terminated hoff,
    List.drop_append_of_le_length hoff, hless, header, bind_eq_of_ok hrun, stampRest, if_pos h,
    hafter]
  rfl

lemma parse2Header_noTag (h : ¬hasTag bParse off pMsg) :
    ∃ pMsg' : SMsg E, parse2Header tz inst bParse off pMsg = some (pMsg',
        (pMsg.rawMsg.length - (stampRest tz inst off pMsg).1.length : ℤ)) ∧
      pMsg'.rawMsg = pMsg.rawMsg := by
  by_cases hhead : hasHeader off pMsg
  · obtain ⟨t, hrun⟩ := parse2Header_of_header tz inst bParse hoff hhead
    rw [if_neg fun htag => h ⟨hhead, htag⟩] at hrun
    have hpointer (text : Bytes) (k : ℕ) :
        (pMsg.rawMsg.length + 1 - (counted 0 text k).rest.length - (0 : ℕ) : ℤ) =
          pMsg.rawMsg.length - text.length := by
      simp only [counted, length_append, length_singleton]
      omega
    exact ⟨_, hrun.trans (congrArg (fun p => some (_, p)) (hpointer _ _)), rfl⟩
  · refine ⟨pMsg, ?_, rfl⟩
    rw [parse2Header_noHeader tz inst bParse hoff hhead, stampRest, if_neg hhead, length_drop]
    exact congrArg (fun p => some (pMsg, p)) (by omega)

lemma parse2Header_tag (h : hasTag bParse off pMsg)
    (hlong : ¬(hasHost bParse off pMsg ∧
      hostTooLong inst (stampRest tz inst off pMsg).1))
    {buf : Bytes} {back : ℕ} {c : Cursor UInt8}
    (htag : tag inst (.counted 0 (hostRest tz inst bParse off pMsg).2
      (stampRest tz inst off pMsg).2) = .ok (buf, back) c) :
    ∃ pMsg' : SMsg E, parse2Header tz inst bParse off pMsg =
        some (pMsg', (pMsg.rawMsg.length + 1 - c.rest.length - back : ℤ)) ∧
      pMsg'.rawMsg = pMsg.rawMsg ∧ pMsg'.TAG = buf ∧
      ((hostRest tz inst bParse off pMsg).1 ≠ [] → pMsg'.pszHOSTNAME =
          some (hostRest tz inst bParse off pMsg).1) := by
  obtain ⟨t, hrun⟩ := parse2Header_of_header tz inst bParse hoff h.1
  rw [hrun, if_pos h.2, hostnameAndTag]
  rw [hostRest] at htag ⊢
  generalize stampRest tz inst off pMsg = after at hlong htag ⊢
  obtain ⟨text, k⟩ := after
  dsimp only at htag ⊢ hlong
  let pMsg₁ := { pMsg with tTIMESTAMP := t }
  by_cases hhost : hasHost bParse off pMsg
  · rw [if_pos hhost] at htag ⊢
    have hpart : hostnamePart inst pMsg₁ (.counted 0 text k) = .ok _ _ :=
      (hostnamePart_eq hhost.2).trans (if_neg fun hlong' => hlong ⟨hhost, hlong'⟩)
    rw [bind_eq_of_ok hpart, bind_eq_of_ok htag]
    cases hostOf inst k text with
    | none => exact ⟨MsgSetTAG pMsg₁ buf, rfl, rfl, rfl, fun hne => absurd rfl hne⟩
    | some hr => exact ⟨MsgSetTAG (MsgSetHOSTNAME pMsg₁ hr.1) buf, rfl, rfl, rfl, fun _ => rfl⟩
  · rw [if_neg hhost] at htag ⊢
    have hflag : ¬pMsg.msgFlags &&& PARSE_HOSTNAME ≠ 0 := fun hflag => hhost ⟨h, hflag⟩
    have hpart : hostnamePart inst pMsg₁ (.counted 0 text k) = .ok none (.counted 0 text k) := by
      rw [hostnamePart, remaining_bind, if_neg fun hs => hflag hs.2]
      rfl
    rw [bind_eq_of_ok hpart, bind_eq_of_ok htag]
    exact ⟨MsgSetTAG pMsg₁ buf, rfl, rfl, rfl, fun hne => absurd rfl hne⟩

lemma parse2Header_tooLong (h : hasHost bParse off pMsg)
    (hlong : hostTooLong inst (stampRest tz inst off pMsg).1) :
    parse2Header tz inst bParse off pMsg = none := by
  obtain ⟨t, hrun⟩ := parse2Header_of_header tz inst bParse hoff h.1.1
  have hpart : hostnamePart inst { pMsg with tTIMESTAMP := t }
      (.counted 0 _ (stampRest tz inst off pMsg).2) = .error _ _ :=
    (hostnamePart_eq h.2).trans (if_pos hlong)
  rw [hrun, if_pos h.1.2, hostnameAndTag, bind_eq_of_error hpart]

end Pointer

/-! ## Offset -/

def IsFront (stamp host text : Bytes) : Prop :=
  ∃ s₀ s₁, IsSep s₀ ∧ IsSep s₁ ∧ text = stamp ++ s₀ ++ host ++ s₁

namespace Parts

variable {text w : Bytes} (l : Parts text)

def front : Bytes := l.stamp ++ l.sep₀ ++ l.host ++ l.sep₁

lemma isFront_front : IsFront l.stamp l.host l.front :=
  ⟨l.sep₀, l.sep₁, l.isSep₀, l.isSep₁, rfl⟩

open List

lemma isFront_of_space (h : l.front = w ++ [32]) : IsFront l.stamp l.host w := by
  rcases l.isSep₁ with h₁ | h₁
  · rw [front, h₁, append_nil] at h
    rcases eq_nil_or_concat' l.host with hhost | ⟨host, y, hhost⟩
    · rw [hhost, append_nil] at h
      rcases l.isSep₀ with h₀ | h₀
      · rw [h₀, append_nil] at h
        exact absurd (by rw [h, getLast?_concat]) (l.stamp_space h₀)
      · rw [h₀] at h
        refine ⟨[], [], .inl rfl, .inl rfl, ?_⟩
        rw [hhost, append_nil, append_nil, append_nil, append_cancel_right h]
    · rw [hhost, ← append_assoc] at h
      obtain ⟨-, hy⟩ := append_inj' h rfl
      have hmem : 32 ∈ l.host := by
        rw [hhost, hy]
        exact mem_concat_self
      exact absurd hmem l.host_space
  · rw [front, h₁] at h
    refine ⟨l.sep₀, [], l.isSep₀, .inl rfl, ?_⟩
    rw [append_nil, append_cancel_right h]

lemma ne_of_isFront {x : UInt8} {text' tag sep : Bytes} (hx : x ≠ 32)
    (h : l.front = w ++ [x]) (hfront : IsFront l.stamp l.host text') : w ≠ text' ++ tag ++ sep := by
  rintro rfl
  obtain ⟨s₀, s₁, -, -, rfl⟩ := hfront
  have h₁ : l.sep₁ = [] := l.isSep₁.resolve_right fun h₁ => by
    rw [front, h₁] at h
    exact hx (singleton_inj.mp (append_inj' h rfl).2).symm
  have hlen := congrArg length h
  simp only [front, length_append, length_singleton, h₁, length_nil] at hlen
  rcases l.isSep₀ with h₀ | h₀
  · rw [h₀, length_nil] at hlen
    omega
  -- the space before HOSTNAME would be a part of it
  rw [h₀, length_singleton] at hlen
  obtain ⟨rfl, rfl, rfl, rfl⟩ : s₀ = [] ∧ s₁ = [] ∧ tag = [] ∧ sep = [] := by
    simp only [← length_eq_zero_iff]
    omega
  simp only [front, h₀, h₁, append_nil, append_assoc] at h
  have hmem : 32 ∈ l.host ++ [x] := append_cancel_left h ▸ mem_cons_self
  exact (mem_append.mp hmem).elim l.host_space fun h32 => hx (mem_singleton.mp h32).symm

end Parts

lemma firstSpace_eq_some {inst : InstanceConf} {rawMsg : Bytes} {p offs : ℤ}
    (h : firstSpace inst rawMsg p = some offs) :
    offs = p ∨ offs = p + 1 ∧ inst.bRemoveMsgFirstSpace = true ∧ octetAt rawMsg p = some 32 := by
  rw [firstSpace] at h
  split at h
  case isFalse => exact .inl (Option.some.inj h).symm
  case isTrue hremove =>
    obtain ⟨c, hc, hoffs⟩ := map_eq_some_iff.mp h
    split at hoffs
    case isFalse => exact .inl hoffs.symm
    case isTrue h32 => exact .inr ⟨hoffs.symm, hremove, by rw [hc, h32]⟩

lemma octetAt_append (w rest : Bytes) (x : UInt8) : octetAt (w ++ x :: rest) w.length = some x := by
  rw [octetAt, Int.toNat_natCast, append_assoc, List.getElem?_append_right le_rfl, Nat.sub_self]
  rfl

section Offset

variable {E : Env} (tz : Bytes → Option TzInfo) (inst : InstanceConf)
  (bParse : Bool) (off : ℕ) (pMsg : SMsg E)

/-- MSG starts behind PRI and inside of the message, and between PRI and MSG there are only the
timestamp, HOSTNAME, TAG and separators. -/
def Consumes (l : Parts (pMsg.rawMsg.drop off)) : Prop :=
  ∃ (pMsg' : SMsg E) (offs : ℕ), parse2Offs tz inst bParse off pMsg = some (pMsg', (offs : ℤ)) ∧
    off ≤ offs ∧ offs ≤ pMsg.rawMsg.length ∧
    (l.host ≠ [] → pMsg'.pszHOSTNAME = some l.host) ∧
    ∃ front tag sep, IsFront l.stamp l.host front ∧ (tag = [] ∨ tag = pMsg'.TAG) ∧ IsSep sep ∧
      pMsg.rawMsg.drop off = front ++ tag ++ sep ++ pMsg.rawMsg.drop offs

/-- In front of the rest of the message is a space, which belongs to the header or is removed. -/
def spaceBefore (rest : Bytes) : Prop :=
  octetAt pMsg.rawMsg (pMsg.rawMsg.length - rest.length - 1) = some 32 ∧
    (off + rest.length < pMsg.rawMsg.length ∨ inst.bRemoveMsgFirstSpace = true)

/-- HOSTNAME fits into its buffer. TAG ends with the colon that is asked for, or there is a space
before it; if none is asked for, TAG ends before the terminator. -/
def endsInside : Prop :=
  let after := stampRest tz inst off pMsg
  let rest := (parts tz inst bParse off pMsg).rest
  ¬(hasHost bParse off pMsg ∧ hostTooLong inst after.1) ∧
    (tagHasColon rest ∨
      if inst.bForceTagEndingByColon then spaceBefore inst off pMsg rest
      else ¬tagTakesTerminator after.2 rest)

variable {tz inst bParse off pMsg}

lemma parse2Offs_of_header {pMsg' : SMsg E} {p : ℤ}
    (h : parse2Header tz inst bParse off (setProtocolVersion pMsg 0) = some (pMsg', p)) :
    parse2Offs tz inst bParse off pMsg = (firstSpace inst pMsg'.rawMsg p).map (pMsg', ·) := by
  rw [parse2Offs, h]
  cases hspace : firstSpace inst pMsg'.rawMsg p <;> simp [hspace]

section Pointer

variable {pMsg' : SMsg E} {p : ℤ} {l : Parts (pMsg.rawMsg.drop off)}
  (hrun : parse2Header tz inst bParse off (setProtocolVersion pMsg 0) = some (pMsg', p))
  (hraw : pMsg'.rawMsg = pMsg.rawMsg) (hhost : l.host ≠ [] → pMsg'.pszHOSTNAME = some l.host)
  (hoff : off ≤ pMsg.rawMsg.length)

include hrun hraw

lemma offs_cases {pMsg'' : SMsg E} {offs : ℤ}
    (h : parse2Offs tz inst bParse off pMsg = some (pMsg'', offs)) :
    offs = p ∨
      offs = p + 1 ∧ inst.bRemoveMsgFirstSpace = true ∧ octetAt pMsg.rawMsg p = some 32 := by
  rw [parse2Offs_of_header hrun, hraw] at h
  obtain ⟨offs', hspace, heq⟩ := map_eq_some_iff.mp h
  cases heq
  exact firstSpace_eq_some hspace

lemma not_consumes_of_lt (hp : pMsg.rawMsg.length < p) : ¬Consumes tz inst bParse off pMsg l := by
  rintro ⟨pMsg'', offs, hparse, -, hle, -⟩
  have hoffs := offs_cases hrun hraw hparse
  omega

include hoff hhost

lemma consumes_of_rest {front tag rest : Bytes} (hfront : IsFront l.stamp l.host front)
    (htag : tag = [] ∨ tag = pMsg'.TAG) (htext : pMsg.rawMsg.drop off = front ++ tag ++ rest)
    (hp : p = pMsg.rawMsg.length - rest.length) : Consumes tz inst bParse off pMsg l := by
  have hlen := congrArg List.length htext
  rw [length_drop, length_append, length_append] at hlen
  obtain ⟨n, hn⟩ : ∃ n, n = off + (front ++ tag).length := ⟨_, rfl⟩
  have hdrop : pMsg.rawMsg.drop n = rest := by
    rw [hn, ← List.drop_drop, htext, drop_left]
  rw [length_append] at hn
  have hpn : p = n := by omega
  obtain ⟨sep, rest', hsep, hrest, hspace⟩ :=
    firstSpace_natCast inst (show n ≤ pMsg.rawMsg.length by omega)
  have hlen' := congrArg List.length hrest
  rw [length_drop, length_append] at hlen'
  refine ⟨pMsg', n + sep.length, ?_, by omega, by omega, hhost, front, tag, sep, hfront, htag, hsep,
    ?_⟩
  · rw [parse2Offs_of_header hrun, hraw, hpn, hspace, map_some]
  · rw [htext, ← List.drop_drop, hrest, drop_left, append_assoc _ sep, ← hrest, hdrop]

lemma consumes_iff_spaceBefore (hp : p = pMsg.rawMsg.length - l.rest.length - 1) :
    Consumes tz inst bParse off pMsg l ↔
      spaceBefore inst off pMsg l.rest := by
  have htext : pMsg.rawMsg.drop off = l.front ++ l.rest := l.text_eq
  have hlen := congrArg List.length htext
  rw [length_drop, length_append] at hlen
  rcases List.eq_nil_or_concat' l.front with hnil | ⟨w, x, hfront⟩
  · rw [hnil, length_nil] at hlen
    constructor
    · rintro ⟨pMsg'', offs, hparse, hle, -⟩
      rcases offs_cases hrun hraw hparse with hsame | ⟨-, hremove, hoctet⟩
      · omega
      · exact ⟨hp ▸ hoctet, .inr hremove⟩
    · rintro ⟨hoctet, hor⟩
      have hremove : inst.bRemoveMsgFirstSpace = true := hor.resolve_left (by omega)
      rw [← hp] at hoctet
      have hspace : firstSpace inst pMsg.rawMsg p = some (off : ℤ) := by
        rw [firstSpace, if_pos hremove, hoctet, map_some, if_pos rfl]
        exact congrArg some (by omega)
      refine ⟨pMsg', off, ?_, le_rfl, hoff, hhost, l.front, [], [], l.isFront_front,
        Or.inl rfl, .inl rfl, ?_⟩
      · rw [parse2Offs_of_header hrun, hraw, hspace, map_some]
      · rw [hnil]
        rfl
  · have htext' : pMsg.rawMsg.drop off = w ++ x :: l.rest := by
      rw [append_cons, ← hfront]
      exact htext
    have hraw' : pMsg.rawMsg.take off ++ w ++ x :: l.rest = pMsg.rawMsg := by
      rw [append_assoc, ← htext', List.take_append_drop]
    rw [hfront, length_append, length_singleton] at hlen
    have hp' : p = (pMsg.rawMsg.take off ++ w).length := by
      rw [length_append, List.length_take]
      omega
    have hoctet : octetAt pMsg.rawMsg p = some x := by
      have hoctet := octetAt_append (pMsg.rawMsg.take off ++ w) l.rest x
      rwa [hraw', ← hp'] at hoctet
    constructor
    · rintro ⟨pMsg'', offs, hparse, -, -, -, front, tag, sep, hfront', -, -, hsplit⟩
      by_contra hbefore
      have hx : x ≠ 32 := fun hx => hbefore ⟨by rw [← hp, hoctet, hx], .inl (by omega)⟩
      have hoffs' : offs = (pMsg.rawMsg.take off ++ w).length := by
        rcases offs_cases hrun hraw hparse with hsame | ⟨-, -, h32⟩
        · omega
        · exact absurd (Option.some.inj (hoctet.symm.trans h32)) hx
      have hrest : pMsg.rawMsg.drop offs = x :: l.rest := by
        rw [hoffs']
        exact (congrArg (List.drop _) hraw').symm.trans drop_left
      rw [hrest] at hsplit
      have hw : w = front ++ tag ++ sep := List.append_cancel_right (htext'.symm.trans hsplit)
      exact l.ne_of_isFront hx hfront hfront' hw
    · rintro ⟨h32, -⟩
      rw [← hp, hoctet, Option.some.injEq] at h32
      rw [h32] at hfront
      have hback : pMsg.rawMsg.drop off = w ++ [] ++ 32 :: l.rest := by
        rw [append_nil, ← h32, ← htext']
      refine consumes_of_rest hrun hraw hhost hoff (l.isFront_of_space hfront) (.inl rfl) hback ?_
      rw [length_cons]
      omega

end Pointer

lemma consumes_iff_of_tag {l : Parts (pMsg.rawMsg.drop off)} {k : ℕ} (hk : k ≤ 1)
    (hoff : off ≤ pMsg.rawMsg.length)
    (hpointer : ∀ {buf : Bytes} {back : ℕ} {c : Cursor UInt8},
      tag inst (.counted 0 l.rest k) = .ok (buf, back) c →
      ∃ pMsg' : SMsg E, parse2Header tz inst bParse off (setProtocolVersion pMsg 0) =
            some (pMsg', (pMsg.rawMsg.length + 1 - c.rest.length - back : ℤ)) ∧
        pMsg'.rawMsg = pMsg.rawMsg ∧ pMsg'.TAG = buf ∧
        (l.host ≠ [] → pMsg'.pszHOSTNAME = some l.host)) :
    Consumes tz inst bParse off pMsg l ↔
      tagHasColon l.rest ∨
        if inst.bForceTagEndingByColon then spaceBefore inst off pMsg l.rest
        else ¬tagTakesTerminator k l.rest := by
  have hconsumes {tagText rest : Bytes} (hrest : l.rest = tagText ++ rest)
      (hrun : tag inst (.counted 0 l.rest k) = .ok (tagText, 0) (.counted 0 rest k)) :
      Consumes tz inst bParse off pMsg l := by
    obtain ⟨pMsg', hheader, hraw, hTAG, hhost⟩ := hpointer hrun
    have htext : pMsg.rawMsg.drop off = l.front ++ tagText ++ rest := by
      rw [append_assoc, ← hrest]
      exact l.text_eq
    refine consumes_of_rest hheader hraw hhost hoff l.isFront_front (.inr hTAG.symm) htext ?_
    simp only [counted, length_append, length_singleton]
    omega
  rcases @tag_spec inst k l.rest hk with
    ⟨hcolon, w, rest, hrest, hrun⟩ | ⟨hcolon, w, c, hrun, hback, hend⟩
  · exact iff_of_true (hconsumes hrest hrun) (.inl hcolon)
  rw [or_iff_right hcolon]
  by_cases hforce : inst.bForceTagEndingByColon = true
  · rw [if_pos hforce] at hrun ⊢
    obtain ⟨pMsg', hheader, hraw, -, hhost⟩ := hpointer hrun
    exact consumes_iff_spaceBefore hheader hraw hhost hoff (by omega)
  rw [if_neg hforce] at hrun ⊢
  rcases hend with ⟨hterm, hnil⟩ | ⟨hterm, rest, hrest, rfl⟩
  · obtain ⟨pMsg', hheader, hraw, -, -⟩ := hpointer hrun
    refine iff_of_false (not_consumes_of_lt hheader hraw ?_) fun h => h hterm
    rw [hnil, length_nil]
    omega
  · exact iff_of_true (hconsumes hrest hrun) hterm

lemma consumes_of_noTag (h : ¬hasTag bParse off pMsg) (hoff : off ≤ pMsg.rawMsg.length) :
    Consumes tz inst bParse off pMsg (parts tz inst bParse off pMsg) := by
  obtain ⟨pMsg', hrun, hraw⟩ :=
    @parse2Header_noTag _ tz inst bParse off (setProtocolVersion pMsg 0) hoff h
  have hrest : hostRest tz inst bParse off pMsg = ([], (stampRest tz inst off pMsg).1) := by
    exact if_neg fun hhost => h hhost.1
  refine consumes_of_rest hrun hraw (fun hne => absurd (congrArg Prod.fst hrest) hne) hoff
    (Parts.isFront_front _) (.inl rfl) ?_ rfl
  rw [append_nil]
  exact (parts tz inst bParse off pMsg).text_eq.trans (congrArg (_ ++ ·) (congrArg Prod.snd hrest))

/-- The offset of MSG is right if HOSTNAME and TAG are not parsed, or end where they have to. -/
theorem parse2Offs_consumes_iff (hoff : off ≤ pMsg.rawMsg.length) :
    Consumes tz inst bParse off pMsg (parts tz inst bParse off pMsg) ↔
      (hasTag bParse off pMsg → endsInside tz inst bParse off pMsg) := by
  by_cases htag : hasTag bParse off pMsg
  case neg => exact iff_of_true (consumes_of_noTag htag hoff) fun h => absurd h htag
  rw [forall_prop_of_true htag]
  by_cases hlong : hasHost bParse off pMsg ∧
    hostTooLong inst (stampRest tz inst off pMsg).1
  case pos =>
    refine iff_of_false ?_ fun h => h.1 hlong
    rintro ⟨pMsg', offs, hparse, -⟩
    have hnone := @parse2Header_tooLong _ tz inst bParse off
      (setProtocolVersion pMsg 0) hoff hlong.1 hlong.2
    rw [parse2Offs, hnone] at hparse
    exact absurd hparse (Option.some_ne_none _).symm
  obtain ⟨-, -, hk⟩ := stampRest_split tz inst off pMsg
  refine (consumes_iff_of_tag hk hoff fun hrun => ?_).trans (and_iff_right hlong).symm
  exact @parse2Header_tag _ tz inst bParse off
    (setProtocolVersion pMsg 0) hoff htag hlong _ _ _ hrun

end Offset

def received34 (rawMsg : Bytes) : SMsg plainEnv :=
  { Rfc5424.received rawMsg with iFacility := 4, iSeverity := 2, msgFlags := PARSE_HOSTNAME }

example : (parse2Offs (fun _ => none) createInstance true 4
    (received34 (ascii "<34>2003 Oct 11 22:14:15 mymachine su"))).map
      (fun r => (r.2, r.1.TAG)) = some (38, ascii "su" ++ [0]) := by
  decide +kernel

theorem parse2Offs_consumes_su :
    let pMsg := received34 (ascii "<34>Oct 11 22:14:15 mymachine su: failed")
    4 ≤ pMsg.rawMsg.length ∧ Consumes (fun _ => none) createInstance true 4 pMsg
      (parts (fun _ => none) createInstance true 4 pMsg) := by
  have hoff :
      4 ≤ (received34 (ascii "<34>Oct 11 22:14:15 mymachine su: failed")).rawMsg.length := by
    decide +kernel
  refine ⟨hoff, (parse2Offs_consumes_iff hoff).mpr fun _ => ⟨?_, .inl ?_⟩⟩
  · rintro ⟨-, hlong⟩
    exact absurd hlong (by decide +kernel)
  · decide +kernel

/-- The last octet of PRI becomes a part of MSG. -/
theorem parse2Offs_intoPRI :
    let inst := { createInstance with bForceTagEndingByColon := true }
    let pMsg := received34 (ascii "<34>a*b c")
    ¬Consumes (fun _ => none) inst true 4 pMsg (parts (fun _ => none) inst true 4 pMsg) := by
  rintro inst pMsg ⟨pMsg', offs, hparse, hle, -⟩
  have hoffs : (parse2Offs (fun _ => none) inst true 4 pMsg).map Prod.snd = some 3 := by
    decide +kernel
  rw [hparse] at hoffs
  have heq : (offs : ℤ) = 3 := Option.some.inj hoffs
  omega

end Rsyslog.Parser.Rfc3164
