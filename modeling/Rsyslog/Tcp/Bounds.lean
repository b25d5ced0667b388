import Rsyslog.Tcp.Session

/-!
# What holds in a session whatever is received

`Bounded` couples the buffer, the octet count, the framing and the state. Every octet keeps it
(`processDataRcvd_emits`), so it holds on any input, well formed or not. The same step lemma says
where the octets go: what is submitted and what is left in the buffer was there before, or is
the octet itself.
-/

namespace Rsyslog.Tcp

open Lib List

variable {cfg : TcpSrv} {s s' : TcpsSess} {c : UInt8} {l : Bytes}

/-- The buffer and the octet count are within their bounds, and inside of a counted message there is
an octet to come. -/
structure TcpsSess.Bounded (cfg : TcpSrv) (s : TcpsSess) : Prop where
  iMsg_le : s.pMsg.length ≤ cfg.iMaxLine
  octets_nonneg : 0 ≤ s.iOctetsRemain
  octets_le : s.iOctetsRemain ≤ 2000000009
  counted : s.inputState = .eInMsg ∨ s.inputState = .eInMsgTruncating →
    s.eFraming = .octetCounting → 1 ≤ s.iOctetsRemain

/-- The session is left bounded, and messages of admitted size were taken out of the octets. -/
structure Emits (cfg : TcpSrv) (l : Bytes) (r : TcpsSess × List Bytes) : Prop where
  bounded : r.1.Bounded cfg
  length : ∀ m ∈ r.2, 1 ≤ m.length ∧ m.length ≤ cfg.iMaxLine
  sublist : (r.2.flatten ++ r.1.pMsg).Sublist l

/-- Inside of a counted message, an octet is counted down. -/
lemma TcpsSess.Bounded.countDown (hs : s.Bounded cfg) (hfram : s.eFraming = .octetCounting)
    (hin : s.inputState = .eInMsg ∨ s.inputState = .eInMsgTruncating) {pMsg : Bytes}
    (hlen : pMsg.length ≤ cfg.iMaxLine) {st : InputState}
    (hst : st = .eAtStrtFram ∨ 1 ≤ s.iOctetsRemain - 1) :
    (⟨st, s.eFraming, s.iOctetsRemain - 1, pMsg⟩ : TcpsSess).Bounded cfg := by
  have hpos := hs.counted hin hfram
  have hle := hs.octets_le
  have hcount : 0 ≤ s.iOctetsRemain - 1 ∧ s.iOctetsRemain - 1 ≤ 2000000009 := by omega
  refine ⟨hlen, hcount.1, hcount.2, fun hin' _ => hst.resolve_left ?_⟩
  rintro rfl
  simp at hin'

lemma Emits.silent (hs : s.Bounded cfg) (hl : s.pMsg.Sublist l) : Emits cfg l (s, []) :=
  ⟨hs, fun _ hm => absurd hm not_mem_nil, hl⟩

lemma Emits.submit {submitted : List Bytes} (h : Emits cfg l (s, submitted)) (hs' : s'.Bounded cfg)
    (hempty : s'.pMsg = []) : Emits cfg l (s', submitted ++ (defaultDoSubmitMessage s).2) := by
  have hflat : (defaultDoSubmitMessage s).2.flatten = s.pMsg := by
    unfold defaultDoSubmitMessage
    split <;> simp_all
  refine ⟨hs', fun m hm => ?_, ?_⟩
  · rcases mem_append.1 hm with hm | hm
    · exact h.length m hm
    · unfold defaultDoSubmitMessage at hm
      split at hm
      · exact absurd hm not_mem_nil
      · next hne =>
        obtain rfl := mem_singleton.1 hm
        exact ⟨length_pos_iff.2 hne, h.bounded.iMsg_le⟩
  · rw [flatten_append, hflat, hempty, append_nil]
    exact h.sublist

lemma Emits.countOctet {submitted : List Bytes} (h : Emits cfg l (s, submitted))
    (hstate : s.inputState = .eInMsg) : Emits cfg l (countOctet s submitted) := by
  unfold Tcp.countOctet
  dsimp only
  split_ifs with hfram hlast
  · exact h.submit (h.bounded.countDown hfram (.inl hstate) (Nat.zero_le _) (.inl rfl)) rfl
  · refine ⟨h.bounded.countDown hfram (.inl hstate) h.bounded.iMsg_le (.inr ?_), h.length,
      h.sublist⟩
    exact Int.not_lt.1 hlast
  · exact h

lemma inMsg_emits (hs : s.Bounded cfg) (hstate : s.inputState = .eInMsg) (c : UInt8) :
    Emits cfg (s.pMsg ++ [c]) (inMsg cfg s c) := by
  have hkept : Emits cfg (s.pMsg ++ [c]) (s, []) := .silent hs (sublist_append_left _ _)
  unfold inMsg
  dsimp only
  split_ifs with hdelim hroom hdiscard hfram hlast
  · exact hkept.submit ⟨Nat.zero_le _, hs.octets_nonneg, hs.octets_le, by simp⟩ rfl
  · refine Emits.countOctet (.silent { hs with iMsg_le := ?_ } ?_) hstate
    · rw [length_append]
      exact hroom
    · exact List.Sublist.refl _
  · exact hkept.submit (hs.countDown hfram (.inl hstate) (Nat.zero_le _) (.inl rfl)) rfl
  · have hpos := hs.counted (.inl hstate) hfram
    exact hkept.submit (hs.countDown hfram (.inl hstate) (Nat.zero_le _) (.inr (by omega))) rfl
  · exact hkept.submit
      ⟨Nat.zero_le _, hs.octets_nonneg, hs.octets_le, fun _ h => absurd h hfram⟩ rfl
  · exact Emits.countOctet
      (hkept.submit { hs with iMsg_le := Nat.zero_le _ } rfl) hstate

lemma inMsgTruncating_emits (hs : s.Bounded cfg) (hstate : s.inputState = .eInMsgTruncating)
    (c : UInt8) : Emits cfg (s.pMsg ++ [c]) (inMsgTruncating cfg s c) := by
  have hkept : s.pMsg.Sublist (s.pMsg ++ [c]) := sublist_append_left _ _
  unfold inMsgTruncating
  split_ifs with hfram hlast hdelim
  · exact .silent (hs.countDown hfram (.inr hstate) hs.iMsg_le (.inl rfl)) hkept
  · exact .silent
      (hs.countDown hfram (.inr hstate) hs.iMsg_le (.inr (Int.not_lt.1 hlast))) hkept
  · exact .silent { hs with counted := by simp } hkept
  · exact .silent hs hkept

lemma cntDigit_bounds {n : ℤ} (hn : 0 ≤ n ∧ n ≤ 2000000009) (hc : isDigit c = true) :
    0 ≤ cntDigit n c ∧ cntDigit n c ≤ 2000000009 := by
  rw [isDigit_iff] at hc
  unfold cntDigit
  split <;> omega

lemma inOctetCnt_emits (hs : s.Bounded cfg) (hstate : s.inputState = .eInOctetCnt) (c : UInt8) :
    Emits cfg (s.pMsg ++ [c]) (inOctetCnt cfg s c) := by
  have hkept : s.pMsg.Sublist (s.pMsg ++ [c]) := sublist_append_left _ _
  unfold inOctetCnt
  split
  case isTrue hc =>
    obtain ⟨hnonneg, hle⟩ := cntDigit_bounds ⟨hs.octets_nonneg, hs.octets_le⟩ hc
    split_ifs with hroom
    · refine .silent ⟨?_, hnonneg, hle, by simp [hstate]⟩ (List.Sublist.refl _)
      rw [length_append]
      exact hroom
    · exact .silent ⟨hs.iMsg_le, hnonneg, hle, by simp [hstate]⟩ hkept
  case isFalse hc =>
    -- what is not a count is not counted, and an oversize one is kept as a part of the message
    dsimp only
    split_ifs with hzero hbig
    · exact .silent { hs with counted := by simp } hkept
    · exact .silent ⟨Nat.zero_le _, hs.octets_nonneg, hs.octets_le, by simp⟩ (nil_sublist _)
    · exact .silent { hs with counted := by simp } hkept
    · refine .silent ⟨Nat.zero_le _, hs.octets_nonneg, hs.octets_le, fun _ _ => ?_⟩
        (nil_sublist _)
      exact Int.not_lt.1 hzero

lemma inFrame_emits (hs : s.Bounded cfg) (c : UInt8) :
    Emits cfg (s.pMsg ++ [c]) (inFrame cfg s c) := by
  unfold inFrame
  split
  case h_1 hstate => exact inMsg_emits hs hstate c
  case h_2 hstate => exact inMsgTruncating_emits hs hstate c
  case h_3 hstate => exact inOctetCnt_emits hs hstate c
  case h_4 => exact .silent hs (sublist_append_left _ _)

lemma processDataRcvd_emits (hs : s.Bounded cfg) (c : UInt8) :
    Emits cfg (s.pMsg ++ [c]) (processDataRcvd cfg s c) := by
  unfold processDataRcvd
  split_ifs with hstart hdigit hspace
  · exact inFrame_emits (s := ⟨.eInOctetCnt, .octetCounting, 0, s.pMsg⟩)
      ⟨hs.iMsg_le, le_refl 0, show (0 : ℤ) ≤ 2000000009 by decide, by simp⟩ c
  · exact .silent hs (sublist_append_left _ _)
  · exact inFrame_emits (s := ⟨.eInMsg, .octetStuffing, s.iOctetsRemain, s.pMsg⟩)
      { hs with counted := by simp } c
  · exact inFrame_emits hs c

lemma feed_emits (hs : s.Bounded cfg) (cs : Bytes) :
    Emits cfg (s.pMsg ++ cs) (feed (processDataRcvd cfg) s cs) := by
  induction cs generalizing s with
  | nil => exact .silent hs (sublist_append_left _ _)
  | cons c cs ih =>
    have hstep := processDataRcvd_emits hs c
    have hrest := ih hstep.bounded
    rw [feed_cons]
    refine ⟨hrest.bounded, fun m hm => ?_, ?_⟩
    · exact (mem_append.1 hm).elim (hstep.length m) (hrest.length m)
    · rw [flatten_append, append_assoc]
      have hleft := hrest.sublist.append_left (processDataRcvd cfg s c).2.flatten
      have hright := hstep.sublist.append_right cs
      rw [append_assoc] at hright
      rw [append_cons]
      exact hleft.trans hright

/-- Whatever the octets are and however they are cut into reads, the session stays bounded after
each of them, and the messages submitted are of admitted size and form a subsequence of the
octets. -/
theorem session_bounded (cfg : TcpSrv) (pieces : List Bytes) :
    (∀ n, (feed (processDataRcvd cfg) .construct (pieces.flatten.take n)).1.Bounded cfg) ∧
      (∀ m ∈ (feed (DataRcvd cfg) .construct pieces).2, 1 ≤ m.length ∧ m.length ≤ cfg.iMaxLine) ∧
      (feed (DataRcvd cfg) .construct pieces).2.flatten.Sublist pieces.flatten := by
  have hstart : TcpsSess.construct.Bounded cfg :=
    ⟨Nat.zero_le _, le_refl 0, by decide, fun h => by simp [TcpsSess.construct] at h⟩
  have hall := feed_emits hstart pieces.flatten
  have hcuts : feed (DataRcvd cfg) .construct pieces =
      feed (processDataRcvd cfg) .construct pieces.flatten := feed_feed _ _
  rw [hcuts]
  exact ⟨fun n => (feed_emits hstart _).bounded, hall.length,
    (sublist_append_left _ _).trans hall.sublist⟩

end Rsyslog.Tcp
