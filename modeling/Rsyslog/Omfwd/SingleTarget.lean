import Rsyslog.Omfwd.Pool

/-!
# A single target whose connection breaks

When a call of `netstrm.Send` fails while a frame is added, the client opens a new connection and
adds the frame once more. `TCPSendInitTarget` does not flag the target as connected again, as
`doTryResume` does, so that a transaction with a single target gets no further.
-/

namespace Rsyslog.Omfwd

open Lib List
open Rsyslog.Action (RsRet)

section Single

variable {pData : InstanceData} {w : Wrkr 0}

lemma turn_single (w : Wrkr 0) : w.turn = 0 := Fin.fin_one_eq_zero _

lemma returns_msgLoop_disconnected (hdown : (w.target 0).bIsConnected = false)
    (msgs : List Bytes) (iRet : RsRet) :
    Returns (msgLoop pData msgs iRet) (fun _ w' => w'.session 0 = w.session 0) w := by
  cases msgs with
  | nil => rfl
  | cons psz msgs =>
    rw [Returns, msgLoop, wp_bind, tryTargets, wp_bind, wp_get, wp_bind]
    simp only [turn_single, hdown]
    rfl

lemma returns_tryTargets_single (hup : (w.target 0).bIsConnected = true) (psz : Bytes)
    (iRet : RsRet) :
    Returns (tryTargets pData psz 1 iRet) (fun r w' => ∃ frame, msgFrame pData psz = some frame ∧
      (r.1 = true ∧ Added pData frame r.2 (w.session 0) (w'.session 0) ∨
        ∃ frames, Down pData frames (w.session 0) (w'.session 0))) w := by
  rw [Returns, tryTargets, wp_bind, wp_get, wp_bind]
  simp only [turn_single, hup, if_true, wp_bind]
  refine returns_onTarget ((returns_processMsg psz).imp fun r s hr => ?_)
  obtain ⟨frame, hframe, hr⟩ := hr
  rw [wp_ite]
  refine ⟨fun _ => ⟨frame, hframe, ?_⟩, fun hbad => ⟨frame, hframe, ?_⟩⟩
  · exact hr.imp (fun hadded => ⟨rfl, hadded⟩) fun hlost => hlost.imp fun _ h => h.1
  · exact .inr ((hr.resolve_left fun hadded => hbad hadded.good).imp fun _ h => h.1)

lemma returns_msgLoop_single (hup : (w.target 0).bIsConnected = true) (msgs : List Bytes)
    (iRet : RsRet) (hret : iRet = .ok ∨ (w.target 0).sndBuf ≠ []) :
    Returns (msgLoop pData msgs iRet) (fun r w' =>
      (r.1 = true ∧ (r.2 = .ok ∨ (w'.target 0).sndBuf ≠ []) ∧
        ∃ frames : List Frame, msgs.map (msgFrame pData) = frames.map some ∧
          Moved pData frames (w.session 0) (w'.session 0)) ∨
        ∃ frames, Down pData frames (w.session 0) (w'.session 0)) w := by
  induction msgs generalizing w iRet with
  | nil => exact .inl ⟨rfl, hret, [], rfl, .refl _⟩
  | cons psz msgs ih =>
    rw [Returns, msgLoop, wp_bind]
    refine (returns_tryTargets_single hup psz iRet).imp fun r w₁ hr => ?_
    obtain ⟨frame, hframe, ⟨hr, hadded⟩ | ⟨fs, hdown⟩⟩ := hr
    · have hup₁ : (({ w₁ with nXmit := w₁.nXmit + 1 } : Wrkr 0).target 0).bIsConnected = true :=
        hadded.moved.connected.trans hup
      have hret₁ := hadded.buffered.imp_right fun h => h (frameOf_ne_nil hframe)
      rw [if_pos hr, wp_bind]
      refine (ih hup₁ r.2 hret₁).imp fun r' w₂ hr' => ?_
      obtain ⟨hr', hret₂, frames, hframes, hmoved⟩ | ⟨frames, hdown⟩ := hr'
      · refine .inl ⟨hr', hret₂, frame :: frames, ?_, hadded.moved.trans hmoved⟩
        rw [map_cons, map_cons, hframe, hframes]
      · exact .inr ⟨_, hadded.moved.trans_down hdown⟩
    · have hdown₁ : (({ w₁ with nXmit := w₁.nXmit + 1 } : Wrkr 0).target 0).bIsConnected = false :=
        hdown.connected
      rw [wp_ite]
      refine ⟨fun _ => ?_, fun _ => .inr ⟨fs, hdown⟩⟩
      refine (returns_msgLoop_disconnected hdown₁ msgs r.2).imp fun _ w₂ hw₂ => ?_
      exact .inr ⟨fs, by rw [hw₂]; exact hdown⟩

lemma returns_flushLoop_single (hup : (w.target 0).bIsConnected = true) (iRet : RsRet)
    (hret : iRet = .ok ∨ (w.target 0).sndBuf ≠ []) :
    Returns (flushLoop pData [0] iRet) (fun r w' => r = .ok ∧
      (Moved pData [] (w.session 0) (w'.session 0) ∧ (w'.target 0).sndBuf = [] ∨
        Down pData [] (w.session 0) (w'.session 0))) w := by
  rw [Returns, flushLoop, wp_bind, wp_get, wp_ite]
  refine ⟨fun _ => ?_, fun hskip => ?_⟩
  · rw [wp_bind]
    refine returns_onTarget (returns_flushTarget.imp fun r s hr => ?_)
    exact hr
  · have hempty : (w.target 0).sndBuf = [] := by_contra fun hbuf => hskip ⟨hup, hbuf⟩
    exact ⟨hret.resolve_right (not_not.mpr hempty), .inl ⟨.refl _, hempty⟩⟩

lemma returns_flushLoop_disconnected (hdown : (w.target 0).bIsConnected = false)
    (iRet : RsRet) : Returns (flushLoop pData [0] iRet) (fun _ w' => w' = w) w := by
  rw [Returns, flushLoop, wp_bind, wp_get, if_neg (by simp [hdown])]
  rfl

lemma returns_finish_single {r : RsRet} {Q : RsRet → Wrkr 0 → Prop}
    (h : Q (if (w.target 0).bIsConnected then r else .suspended) (countActiveTargets w)) :
    Returns (finish r) Q w := by
  have hcount : (countActiveTargets w).nActiveTargets =
      if (w.target 0).bIsConnected then 1 else 0 := by
    simp [countActiveTargets, finRange_succ, countP_cons]
  rw [Returns, finish, wp_bind, wp_modify, wp_bind, wp_get, hcount]
  by_cases hup : (w.target 0).bIsConnected = true
  · simpa [hup] using h
  · simpa [hup] using h

/-- **The messages.** All of them are sent, or the connection is lost and the transaction is
suspended. -/
theorem returns_sendMessages_single (hup : (w.target 0).bIsConnected = true) (msgs : List Bytes) :
    Returns (sendMessages pData msgs) (fun r w' =>
      (r = .ok ∧ (w'.target 0).sndBuf = [] ∧
        ∃ frames : List Frame, msgs.map (msgFrame pData) = frames.map some ∧
          Moved pData frames (w.session 0) (w'.session 0)) ∨
        (r = .suspended ∧ ∃ frames, Down pData frames (w.session 0) (w'.session 0))) w := by
  have hfinish {fs : List Frame} {v : Wrkr 0} (r : RsRet)
      (hdown : Down pData fs (w.session 0) (v.session 0)) :
      Returns (finish r) (fun r w' => r = .suspended ∧
        ∃ frames, Down pData frames (w.session 0) (w'.session 0)) v := by
    refine returns_finish_single ?_
    have hconn : (v.target 0).bIsConnected = false := hdown.connected
    rw [hconn]
    exact ⟨rfl, fs, hdown⟩
  have hup' : ((countActiveTargets w).target 0).bIsConnected = true := hup
  rw [Returns, sendMessages, wp_bind, wp_modify, wp_bind]
  refine (returns_msgLoop_single hup' msgs .ok (.inl rfl)).imp fun r w₁ h₁ => ?_
  obtain ⟨hall, hret, frames, hframes, hmoved⟩ | ⟨fs, hdown⟩ := h₁
  · have hup₁ : (w₁.target 0).bIsConnected = true := hmoved.connected.trans hup
    rw [if_pos hall, wp_bind]
    refine (returns_flushLoop_single hup₁ r.2 hret).imp fun r₂ w₂ h₂ => ?_
    obtain ⟨rfl, ⟨hmoved₂, hempty⟩ | hdown₂⟩ := h₂
    · refine returns_finish_single (.inl ⟨?_, hempty, frames, hframes, ?_⟩)
      · have hup₂ : (w₂.target 0).bIsConnected = true := hmoved₂.connected.trans hup₁
        rw [if_pos hup₂]
      · have hboth := hmoved.trans hmoved₂
        rwa [append_nil] at hboth
    · exact (hfinish .ok (hmoved.trans_down hdown₂)).imp fun _ _ => .inr
  · rw [wp_ite]
    refine ⟨fun _ => ?_, fun _ => (hfinish r.2 hdown).imp fun _ _ => .inr⟩
    rw [wp_bind]
    refine (returns_flushLoop_disconnected hdown.connected r.2).imp fun r₂ w₂ h₂ => ?_
    rw [h₂]
    exact (hfinish r₂ hdown).imp fun _ _ => .inr

end Single

lemma filterMap_of_map_eq {α β : Type} {f : α → Option β} {l : List α} {bs : List β}
    (h : l.map f = bs.map some) : l.filterMap f = bs := by
  have hid : l.filterMap f = (l.map f).filterMap id := by simp [filterMap_map]
  rw [hid, h]
  simp [filterMap_map]

lemma Target.flatten_accepted_restart (t : Target) : t.restart.accepted.flatten = t.sndBuf := by
  by_cases hempty : t.sndBuf = []
  · simp [Target.accepted, Target.restart, hempty]
  · simp [Target.accepted, Target.restart, hempty]

/-- **A single target.** The transaction finds its target connected, and only calls of
`netstrm.Send` fail. It returns OK, with the buffer and the frames of its messages sent once and in
order, if and only if none of these calls fails: the connection that replaces a broken one does not
help. -/
theorem single_target_delivers_iff (pData : InstanceData) (msgs : List Bytes) (w w₁ w' : Wrkr 0)
    (r : RsRet) (hfriendly : w.world.Friendly)
    (hstart : startTransaction pData w.restart = .ok .ok w₁)
    (hup : (w₁.target 0).bIsConnected = true)
    (hrun : commitTransaction pData msgs w.restart = .ok r w') (hsends : w'.world.sends = []) :
    (r = .ok ∧ (w'.target 0).taken =
        (w.target 0).sndBuf ++ (msgs.filterMap (msgFrame pData)).flatten) ↔
      none ∉ w.world.sends := by
  have hrest : commitTransaction pData msgs w.restart = sendMessages pData msgs w₁ := by
    simp [commitTransaction, bind, EStateM.bind, hstart]
  rw [hrest] at hrun
  have hidle := returns_startTransaction.ok hstart 0
  have hvalid := hidle.accepts (by simp) (w.target 0).valid_restart
  have hsends₁ : w₁.world.sends = w.world.sends := hidle.sends
  obtain ⟨rfl, hempty, frames, hframes, hmoved⟩ | ⟨rfl, frames, hdown⟩ :=
    (returns_sendMessages_single hup msgs).ok hrun
  · have hne : ∀ f ∈ frames, f ≠ [] := by
      intro f hf
      have hmem : some f ∈ msgs.map (msgFrame pData) := hframes ▸ mem_map_of_mem hf
      obtain ⟨psz, -, hpsz⟩ := mem_map.mp hmem
      exact frameOf_ne_nil hpsz
    obtain ⟨hvalid', haccepted⟩ := hmoved.accepts hne hvalid.1
    have hexact := hmoved.exact hne hvalid.1 (hidle.exact rfl)
    refine iff_of_true ⟨rfl, ?_⟩ fun hnone => ?_
    · have hheld : (w'.target 0).held = [] := hvalid'.held_eq_nil hempty
      calc (w'.target 0).taken
        _ = (w'.target 0).accepted.flatten := by
          rw [Target.accepted, hheld, append_nil]
          exact hexact
        _ = ((w.target 0).restart.accepted ++ frames).flatten := by
          refine congrArg List.flatten (haccepted.trans ?_)
          rw [hvalid.2, append_nil]
          rfl
        _ = _ := by
          rw [flatten_append, Target.flatten_accepted_restart, filterMap_of_map_eq hframes]
    · have hnone' := hmoved.sends.mp (hsends₁ ▸ hnone)
      have hnil : (w'.session 0).world.sends = [] := hsends
      rw [hnil] at hnone'
      cases hnone'
  · refine iff_of_false (fun h => by cases h.1) (not_not.mpr ?_)
    rw [← hsends₁]
    exact hdown.sends (hidle.friendly hfriendly)

def oneTarget (sends : List (Option ℕ)) : Wrkr 0 where
  target _ := { upTarget with maxLenSndBuf := 4, maxLenSndBuf_le := by decide }
  actualTarget := 0
  nXmit := 0
  nActiveTargets := 1
  world := ⟨sends, [true], [], [100, 100, 100]⟩

/-- Two messages that do not fit the buffer together, and no failure. -/
theorem single_target_delivers_iff_twoSends :
    ∃ w', commitTransaction plainInstance [[97], [98]] (oneTarget [some 2, some 2]).restart =
        .ok .ok w' ∧
      ((.ok = RsRet.ok ∧ (w'.target 0).taken = [] ++ [97, 10, 98, 10]) ↔
        none ∉ [some 2, some 2]) :=
  ⟨_, rfl, single_target_delivers_iff plainInstance [[97], [98]] (oneTarget [some 2, some 2]) _ _
    .ok ⟨by decide, by decide⟩ rfl rfl rfl rfl⟩

/-- The first call, made while the second frame is added, fails, and the client connects again. The
transaction is suspended, with the second frame left in the buffer. -/
theorem reconnect_suspends :
    ∃ w', commitTransaction plainInstance [[97], [98]] (oneTarget [none, some 2]).restart =
        .ok .suspended w' ∧
      (w'.target 0).calls = [(0, none), (1, some [97, 10])] ∧ (w'.target 0).sndBuf = [98, 10] ∧
      (w'.target 0).pNetstrm = some 1 ∧ (w'.target 0).bIsConnected = false :=
  ⟨_, rfl, by decide +kernel, by decide +kernel, by decide +kernel, by decide +kernel⟩

end Rsyslog.Omfwd
