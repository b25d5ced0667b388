import Rsyslog.Action.Engine
import Rsyslog.Tcp.Session

/-!
# A target of omfwd

Forwarding over TCP without compression, as `tools/omfwd.c` and the client of `runtime/tcpclt.c` do
it for one target of a pool. A frame is put into the send buffer of the target, which is sent when
the next frame does not fit. When that fails, the client has the connection closed and opened again
and tries the frame once more.

What the world answers is given in advance. A run that asks for more is cut short, so that a
statement about the runs that return speaks about every world.

`calls`, `held` and `handed` are history, and no function reads them.
-/

namespace Rsyslog.Omfwd

open Lib List
open Rsyslog.Action (RsRet)
open Rsyslog.Tcp (TCPFRAMINGMODE TCPSendBldFrame)

/-! ## Data -/

def SNDBUF_FIXED_BUFFER_SIZE : ℕ := 16 * 1024

/-- The settings that are read, among them the maximum size of a message. -/
structure InstanceData where
  tcp_framing : TCPFRAMINGMODE
  tcp_framingDelimiter : UInt8
  bResendLastOnRecon : Bool
  bExtendedConnCheck : Bool
  poolResumeInterval : ℕ
  iRebindInterval : ℤ
  iMaxLine : ℕ

structure World where
  sends : List (Option ℕ)
  connects : List Bool
  checks : List Bool
  times : List ℤ
  deriving DecidableEq

abbrev Frame := Bytes

/-- A call of `netstrm.Send`: the connection, and what was taken unless it failed. -/
abbrev SendCall := ℕ × Option Bytes

/-- `targetData_t`, with what its `tcpclt_t` remembers. `sndBuf` holds its first `offsSndBuf`
octets; a connection is known by its number. -/
structure Target where
  pNetstrm : Option ℕ
  nConnects : ℕ
  bIsConnected : Bool
  maxLenSndBuf : ℕ
  maxLenSndBuf_le : maxLenSndBuf ≤ SNDBUF_FIXED_BUFFER_SIZE
  sndBuf : Bytes
  ttResume : ℤ
  prevMsg : Option Frame
  calls : List SendCall
  held : List Frame
  handed : List (List Frame)
  deriving DecidableEq

structure Session where
  target : Target
  world : World
  deriving DecidableEq

/-- Why a run is cut short: the world has no answer left, or what the source does is undefined. -/
inductive Fault
  | noAnswer
  | undefined
  deriving DecidableEq

abbrev SessionM := EStateM Fault Session

/-- `RS_RET_OK` or one of the codes that say when a message is committed. -/
def good (r : RsRet) : Bool := r = .ok || r = .deferCommit || r = .previousCommitted

/-! ## The world -/

def GetTime : SessionM ℤ := fun s =>
  match s.world.times with
  | [] => .error .noAnswer s
  | now :: times => .ok now { s with world := { s.world with times := times } }

/-- All of the calls that set up a stream, up to `netstrm.Connect` and the keep-alive settings. -/
def connect : SessionM Bool := fun s =>
  match s.world.connects with
  | [] => .error .noAnswer s
  | up :: connects => .ok up { s with world := { s.world with connects := connects } }

def netstrmCheckConnection (pData : InstanceData) : SessionM Bool := fun s =>
  if pData.bExtendedConnCheck then
    match s.world.checks with
    | [] => .error .noAnswer s
    | up :: checks => .ok up { s with world := { s.world with checks := checks } }
  else .ok true s

/-- The calls of `netstrm.Send` for a buffer: whether all of it was taken, what each call took, and
the answers that are left. -/
def sendCalls : Bytes → List (Option ℕ) →
    Option (Bool × List (Option Bytes) × List (Option ℕ))
  | [], answers => some (true, [], answers)
  | _ :: _, [] => none
  | _ :: _, none :: answers => some (false, [none], answers)
  | c :: cs, some lenSend :: answers =>
    (sendCalls ((c :: cs).drop lenSend) answers).map fun r =>
      (r.1, some ((c :: cs).take lenSend) :: r.2.1, r.2.2)

def sendLoop (buf : Bytes) : SessionM Bool := fun s =>
  match s.target.pNetstrm with
  | none => .error .undefined s
  | some conn =>
    match sendCalls buf s.world.sends with
    | none => .error .noAnswer s
    | some (done, taken, answers) =>
      .ok done ⟨{ s.target with calls := s.target.calls ++ taken.map (conn, ·) },
        { s.world with sends := answers }⟩

/-! ## Functions for a target -/

section

variable (pData : InstanceData)

def DestructTCPTargetData : SessionM Unit := do
  let ttNow ← GetTime
  modify fun s => { s with target := { s.target with
    pNetstrm := none
    ttResume := ttNow + pData.poolResumeInterval
    bIsConnected := false } }

def suspend : SessionM RsRet := do
  DestructTCPTargetData pData
  pure .suspended

def CheckConnection : SessionM RsRet := do
  let up ← netstrmCheckConnection pData
  if up then pure .ok else suspend pData

def TCPSendBufUncompressed (buf : Bytes) : SessionM RsRet := do
  let up ← netstrmCheckConnection pData
  if up then do
    let done ← sendLoop buf
    if done then pure .ok else suspend pData
  else suspend pData

def emptySndBuf (s : Session) : Session :=
  { s with target := { s.target with
    sndBuf := []
    held := []
    handed := s.target.handed ++ [s.target.held] } }

def makeRoom (len : ℕ) : SessionM RsRet := do
  let s ← get
  if s.target.sndBuf ≠ [] ∧ s.target.sndBuf.length + len ≥ s.target.maxLenSndBuf then do
    let r ← TCPSendBufUncompressed pData s.target.sndBuf
    if r = .ok then do
      modify emptySndBuf
      pure .ok
    else pure r
  else pure .ok

/-- The second part of `TCPSendFrame`: a frame that is too large for the buffer is sent at once. -/
def putFrame (frame : Frame) : SessionM RsRet :=
  if frame.length > SNDBUF_FIXED_BUFFER_SIZE then do
    let r ← TCPSendBufUncompressed pData frame
    if r = .ok then do
      modify fun s => { s with target := { s.target with handed := s.target.handed ++ [[frame]] } }
      pure .ok
    else pure r
  else do
    modify fun s => { s with target := { s.target with
      sndBuf := s.target.sndBuf ++ frame
      held := s.target.held ++ [frame] } }
    pure .deferCommit

def TCPSendFrame (frame : Frame) : SessionM RsRet := do
  let r ← makeRoom pData frame.length
  if r = .ok then putFrame pData frame else pure r

/-- A stream that is set up is left as it is. `bIsConnected` is not touched. -/
def TCPSendInitTarget : SessionM RsRet := do
  let s ← get
  if s.target.pNetstrm = none then do
    let up ← connect
    if up then do
      modify fun s => { s with target := { s.target with
        pNetstrm := some s.target.nConnects
        nConnects := s.target.nConnects + 1 } }
      pure .ok
    else do
      DestructTCPTargetData pData
      pure (.err (-1))
  else pure .ok

def TCPSendPrepRetry : SessionM Unit := DestructTCPTargetData pData

def remember (frame : Frame) (s : Session) : Session :=
  if pData.bResendLastOnRecon then { s with target := { s.target with prevMsg := some frame } }
  else s

/-- One round of the loop of `Send` in `tcpclt.c`; `failed` is what comes after a failure to send. A
connection that cannot be opened is not tried again. -/
def sendRound (frame : Frame) (failed : RsRet → SessionM RsRet) : SessionM RsRet := do
  let r ← TCPSendInitTarget pData
  if r = .ok then do
    let r ← TCPSendFrame pData frame
    if good r then do
      modify (remember pData frame)
      pure r
    else failed r
  else pure r

def resendPrev : SessionM RsRet := do
  let s ← get
  match s.target.prevMsg with
  | none => pure .ok
  | some prev => do
    let r ← TCPSendInitTarget pData
    if r = .ok then TCPSendFrame pData prev else pure r

def retryRound (frame : Frame) : SessionM RsRet := do
  TCPSendPrepRetry pData
  let r ← resendPrev pData
  -- the code is not OK either when the stored message went into the buffer
  if r = .ok then sendRound pData frame pure else pure r

def frameOf (msg : Bytes) : Option Frame :=
  if msg = [] then none else TCPSendBldFrame pData.tcp_framing pData.tcp_framingDelimiter msg

def Send (msg : Bytes) : SessionM RsRet :=
  match frameOf pData msg with
  | none => throw .undefined
  | some frame => sendRound pData frame fun _ => retryRound pData frame

def processMsg (psz : Bytes) : SessionM RsRet := do
  let r ← Send pData (psz.take pData.iMaxLine)
  if good r then pure r else suspend pData

/-- It is not yet time to resume. The time is looked at only if another target is active. -/
def notYet (nActiveTargets : ℕ) : SessionM Bool := do
  let s ← get
  if s.target.ttResume > 0 ∧ nActiveTargets > 0 then do
    let ttNow ← GetTime
    pure (ttNow < s.target.ttResume)
  else pure false

def doTryResume (nActiveTargets : ℕ) : SessionM RsRet := do
  let s ← get
  if s.target.bIsConnected then pure .ok
  else do
    let early ← notYet nActiveTargets
    if early then pure .suspended
    else do
      let r ← TCPSendInitTarget pData
      if r = .ok then do
        modify fun s => { s with target := { s.target with bIsConnected := true } }
        pure .ok
      else pure .suspended

end

/-! ## Rules -/

structure World.Friendly (w : World) : Prop where
  connects : ∀ up ∈ w.connects, up = true
  checks : ∀ up ∈ w.checks, up = true

def Target.down (t : Target) (ttResume : ℤ) : Target :=
  { t with pNetstrm := none, ttResume := ttResume, bIsConnected := false }

def Target.sent (t : Target) (calls : List SendCall) : Target :=
  { t with calls := t.calls ++ calls }

structure Took (buf : Bytes) (s s' : Session) : Prop where
  target : ∃ conn, ∃ pieces : List Bytes, s.target.pNetstrm = some conn ∧
    pieces.flatten = buf ∧ s'.target = s.target.sent (pieces.map fun p => (conn, some p))
  sends : none ∈ s.world.sends ↔ none ∈ s'.world.sends
  friendly : s.world.Friendly → s'.world.Friendly

structure Broke (s s' : Session) : Prop where
  target : ∃ ttResume, ∃ calls : List SendCall, s'.target = (s.target.sent calls).down ttResume
  sends : s.world.Friendly → none ∈ s.world.sends
  friendly : s.world.Friendly → s'.world.Friendly

section Rules

variable {pData : InstanceData} {s : Session}

lemma returns_GetTime {Q : ℤ → Session → Prop}
    (h : ∀ now times, Q now { s with world := { s.world with times := times } }) :
    Returns GetTime Q s := by
  unfold Returns Wp GetTime
  cases s.world.times with
  | nil => trivial
  | cons now times => exact h now times

section

variable {Q : Bool → Session → Prop} (h : ∀ up (world : World), world.sends = s.world.sends →
  (s.world.Friendly → up = true ∧ world.Friendly) → Q up { s with world := world })

include h

lemma returns_connect : Returns connect Q s := by
  unfold Returns Wp connect
  cases hw : s.world.connects with
  | nil => trivial
  | cons up connects =>
    refine h up _ rfl fun hf => ⟨hf.connects up (by simp [hw]), fun u hu => ?_, hf.checks⟩
    exact hf.connects u (by rw [hw]; exact mem_cons_of_mem _ hu)

lemma returns_netstrmCheckConnection : Returns (netstrmCheckConnection pData) Q s := by
  unfold Returns Wp netstrmCheckConnection
  by_cases hcheck : pData.bExtendedConnCheck = true
  · simp only [hcheck, if_true]
    cases hw : s.world.checks with
    | nil => trivial
    | cons up checks =>
      refine h up _ rfl fun hf => ⟨hf.checks up (by simp [hw]), hf.connects, fun u hu => ?_⟩
      exact hf.checks u (by rw [hw]; exact mem_cons_of_mem _ hu)
  · simp only [hcheck]
    exact h true s.world rfl fun hf => ⟨rfl, hf⟩

end

lemma returns_DestructTCPTargetData {Q : Unit → Session → Prop}
    (h : ∀ ttResume (world : World), world.sends = s.world.sends →
      (s.world.Friendly → world.Friendly) → Q () ⟨s.target.down ttResume, world⟩) :
    Returns (DestructTCPTargetData pData) Q s := by
  rw [Returns, DestructTCPTargetData, wp_bind]
  exact returns_GetTime fun now times => h _ _ rfl fun hf => ⟨hf.connects, hf.checks⟩

lemma sendCalls_spec {buf : Bytes} {answers : List (Option ℕ)}
    {r : Bool × List (Option Bytes) × List (Option ℕ)} (h : sendCalls buf answers = some r) :
    (r.1 = true ∧ (none ∈ answers ↔ none ∈ r.2.2) ∧
        ∃ pieces : List Bytes, r.2.1 = pieces.map some ∧ pieces.flatten = buf) ∨
      (r.1 = false ∧ none ∈ answers) := by
  fun_induction sendCalls generalizing r with
  | case1 answers =>
    cases h
    exact .inl ⟨rfl, Iff.rfl, [], rfl, rfl⟩
  | case2 => cases h
  | case3 =>
    cases h
    exact .inr ⟨rfl, mem_cons_self⟩
  | case4 c cs lenSend answers ih =>
    obtain ⟨r', hr', rfl⟩ := Option.map_eq_some_iff.mp h
    obtain ⟨hdone, hsends, pieces, htaken, hflat⟩ | ⟨hfail, hnone⟩ := ih hr'
    · refine .inl ⟨hdone, by simpa using hsends, (c :: cs).take lenSend :: pieces, ?_, ?_⟩
      · simp [htaken]
      · rw [flatten_cons, hflat, take_append_drop]
    · exact .inr ⟨hfail, mem_cons_of_mem _ hnone⟩

lemma returns_sendLoop (buf : Bytes) :
    Returns (sendLoop buf) (fun done s' => if done then Took buf s s' else
      ∃ calls : List SendCall, s'.target = s.target.sent calls ∧ none ∈ s.world.sends ∧
        (s.world.Friendly → s'.world.Friendly)) s := by
  unfold Returns Wp sendLoop
  cases hconn : s.target.pNetstrm with
  | none => trivial
  | some conn =>
    cases hcalls : sendCalls buf s.world.sends with
    | none => trivial
    | some r =>
      obtain ⟨done, taken, answers⟩ := r
      obtain ⟨rfl, hsends, pieces, rfl, hflat⟩ | ⟨rfl, hnone⟩ := sendCalls_spec hcalls
      · refine ⟨⟨conn, pieces, hconn, hflat, ?_⟩, hsends, fun hf => ⟨hf.connects, hf.checks⟩⟩
        simp [Target.sent, Function.comp_def]
      · exact ⟨_, rfl, hnone, fun hf => ⟨hf.connects, hf.checks⟩⟩

lemma returns_suspend (s₀ : Session) (calls : List SendCall)
    (hcalls : s.target = s₀.target.sent calls) (hsends : s₀.world.Friendly → none ∈ s₀.world.sends)
    (hfriendly : s₀.world.Friendly → s.world.Friendly) :
    Returns (suspend pData) (fun r s' => r = .suspended ∧ Broke s₀ s') s := by
  rw [Returns, suspend, wp_bind]
  refine returns_DestructTCPTargetData fun ttResume world _ hworld => ⟨rfl, ?_, hsends, ?_⟩
  · exact ⟨ttResume, calls, by rw [hcalls]⟩
  · exact fun hf => hworld (hfriendly hf)

/-- **A buffer.** It is taken completely, or the connection is lost. -/
theorem returns_TCPSendBufUncompressed (buf : Bytes) :
    Returns (TCPSendBufUncompressed pData buf)
      (fun r s' => r = .ok ∧ Took buf s s' ∨ r = .suspended ∧ Broke s s') s := by
  rw [Returns, TCPSendBufUncompressed, wp_bind]
  refine returns_netstrmCheckConnection fun up world hsends hworld => ?_
  cases up with
  | false =>
    refine (returns_suspend s [] ?_ ?_ ?_).imp fun _ _ => .inr
    · simp [Target.sent]
    · exact fun hf => by cases (hworld hf).1
    · exact fun hf => (hworld hf).2
  | true =>
    rw [if_pos rfl, wp_bind]
    refine (returns_sendLoop buf).imp fun done s' hs' => ?_
    cases done with
    | true =>
      refine .inl ⟨rfl, hs'.target, ?_, fun hf => hs'.friendly (hworld hf).2⟩
      rw [← hsends]
      exact hs'.sends
    | false =>
      obtain ⟨calls, hcalls, hnone, hfriendly⟩ := hs'
      exact (returns_suspend s calls hcalls (fun _ => hsends ▸ hnone)
        fun hf => hfriendly (hworld hf).2).imp fun _ _ => .inr

end Rules

/-! ## The frames of a target -/

/-- Each of the buffers was taken on one connection, by consecutive calls, one buffer after the
other; other calls may lie between. -/
inductive Carries : List SendCall → List Bytes → Prop
  | nil : Carries [] []
  | skip {calls : List SendCall} {bufs : List Bytes} (c : SendCall)
    (h : Carries calls bufs) :
    Carries (calls ++ [c]) bufs
  | take {calls : List SendCall} {bufs : List Bytes} (conn : ℕ) (pieces : List Bytes)
    (h : Carries calls bufs) :
    Carries (calls ++ pieces.map fun p => (conn, some p)) (bufs ++ [pieces.flatten])

lemma Carries.append {calls : List SendCall} {bufs : List Bytes} (h : Carries calls bufs)
    (more : List SendCall) : Carries (calls ++ more) bufs := by
  induction more generalizing calls with
  | nil => rwa [append_nil]
  | cons c more ih =>
    rw [append_cons]
    exact ih (h.skip c)

structure Target.Valid (t : Target) : Prop where
  sndBuf_eq : t.sndBuf = t.held.flatten
  ne_nil : ∀ f ∈ t.held, f ≠ []
  carries : Carries t.calls (t.handed.map List.flatten)

def Target.accepted (t : Target) : List Frame := t.handed.flatten ++ t.held

def Target.taken (t : Target) : Bytes := (t.calls.filterMap Prod.snd).flatten

/-- Nothing was taken but the buffers that have been sent, each of them once. -/
def Target.Exact (t : Target) : Prop := t.taken = t.handed.flatten.flatten

lemma Target.Valid.held_eq_nil {t : Target} (h : t.Valid) (hempty : t.sndBuf = []) :
    t.held = [] := by
  refine eq_nil_iff_forall_not_mem.mpr fun f hf => h.ne_nil f hf ?_
  exact flatten_eq_nil_iff.mp (h.sndBuf_eq ▸ hempty) f hf

/-- From `t` to `t'`, the target accepts the frames. -/
def Accepts (frames : List Frame) (t t' : Target) : Prop :=
  (∀ f ∈ frames, f ≠ []) → t.Valid → t'.Valid ∧ t'.accepted = t.accepted ++ frames

lemma Accepts.trans {fs gs : List Frame} {t u v : Target} (h : Accepts fs t u)
    (h' : Accepts gs u v) : Accepts (fs ++ gs) t v := by
  intro hne hvalid
  obtain ⟨hu, hacc⟩ := h (fun f hf => hne f (mem_append_left _ hf)) hvalid
  obtain ⟨hv, hacc'⟩ := h' (fun f hf => hne f (mem_append_right _ hf)) hu
  exact ⟨hv, by rw [hacc', hacc, append_assoc]⟩

section Moves

variable (pData : InstanceData)

/-- The frames are accepted. -/
structure Advanced (frames : List Frame) (s s' : Session) : Prop where
  accepts : Accepts frames s.target s'.target
  prevMsg : pData.bResendLastOnRecon = false → s'.target.prevMsg = s.target.prevMsg
  friendly : s.world.Friendly → s'.world.Friendly

/-- The frames are accepted, the connection is as before, and no call of `netstrm.Send` failed. -/
structure Moved (frames : List Frame) (s s' : Session) : Prop extends
    Advanced pData frames s s' where
  exact : (∀ f ∈ frames, f ≠ []) → s.target.Valid → s.target.Exact → s'.target.Exact
  connected : s'.target.bIsConnected = s.target.bIsConnected
  sends : none ∈ s.world.sends ↔ none ∈ s'.world.sends

/-- The frames are accepted, and the target ends up as one that is not connected. -/
structure Down (frames : List Frame) (s s' : Session) : Prop extends
    Advanced pData frames s s' where
  connected : s'.target.bIsConnected = false
  sends : s.world.Friendly → none ∈ s.world.sends

variable {pData} {fs gs : List Frame} {s s' s'' : Session}

lemma Moved.refl (s : Session) : Moved pData [] s s :=
  ⟨⟨fun _ h => ⟨h, (append_nil _).symm⟩, fun _ => rfl, id⟩, fun _ _ => id, rfl, Iff.rfl⟩

lemma Advanced.trans (h : Advanced pData fs s s') (h' : Advanced pData gs s' s'') :
    Advanced pData (fs ++ gs) s s'' :=
  ⟨h.accepts.trans h'.accepts, fun hoff => (h'.prevMsg hoff).trans (h.prevMsg hoff),
    h'.friendly ∘ h.friendly⟩

lemma Moved.trans (h : Moved pData fs s s') (h' : Moved pData gs s' s'') :
    Moved pData (fs ++ gs) s s'' := by
  refine ⟨h.1.trans h'.1, fun hne hvalid hexact => ?_, h'.connected.trans h.connected,
    h.sends.trans h'.sends⟩
  have hfs : ∀ f ∈ fs, f ≠ [] := fun f hf => hne f (mem_append_left _ hf)
  exact h'.exact (fun f hf => hne f (mem_append_right _ hf)) (h.accepts hfs hvalid).1
    (h.exact hfs hvalid hexact)

lemma Moved.trans_down (h : Moved pData fs s s') (h' : Down pData gs s' s'') :
    Down pData (fs ++ gs) s s'' :=
  ⟨h.1.trans h'.1, h'.connected, fun hf => h.sends.mpr (h'.sends (h.friendly hf))⟩

lemma Down.trans_moved (h : Down pData fs s s') (h' : Moved pData gs s' s'') :
    Down pData (fs ++ gs) s s'' :=
  ⟨h.1.trans h'.1, h'.connected.trans h.connected, h.sends⟩

lemma Down.trans (h : Down pData fs s s') (h' : Down pData gs s' s'') :
    Down pData (fs ++ gs) s s'' :=
  ⟨h.1.trans h'.1, h'.connected, h.sends⟩

lemma Target.Exact.sent {t : Target} (h : t.Exact) (conn : ℕ) (pieces : List Bytes) :
    (t.sent (pieces.map fun p => (conn, some p))).taken =
      t.handed.flatten.flatten ++ pieces.flatten := by
  have htaken : (pieces.map fun p => (conn, some p)).filterMap Prod.snd = pieces := by
    simp
  rw [Target.taken, Target.sent, filterMap_append, htaken, flatten_append, ← h]
  rfl

lemma accepts_sent_down (t : Target) (calls : List SendCall) (ttResume : ℤ) :
    Accepts [] t ((t.sent calls).down ttResume) := fun _ h =>
  ⟨⟨h.sndBuf_eq, h.ne_nil, h.carries.append calls⟩, (append_nil _).symm⟩

lemma Broke.down (h : Broke s s') : Down pData [] s s' := by
  obtain ⟨ttResume, calls, htarget⟩ := h.target
  refine ⟨⟨?_, fun _ => ?_, h.friendly⟩, ?_, h.sends⟩
  · rw [htarget]
    exact accepts_sent_down _ _ _
  · rw [htarget]
    rfl
  · rw [htarget]
    rfl

lemma Took.moved_emptySndBuf (h : Took s.target.sndBuf s s') :
    Moved pData [] s (emptySndBuf s') := by
  obtain ⟨conn, pieces, hconn, hflat, htarget⟩ := h.target
  refine ⟨⟨fun _ hvalid => ⟨⟨rfl, by simp [emptySndBuf], ?_⟩, ?_⟩, fun _ => ?_, h.friendly⟩,
    fun _ hvalid hexact => ?_, ?_, h.sends⟩
  · have hcarries := hvalid.carries.take conn pieces
    rw [hflat, hvalid.sndBuf_eq] at hcarries
    simpa [emptySndBuf, htarget, Target.sent] using hcarries
  · simp [Target.accepted, emptySndBuf, htarget, Target.sent]
  · simp [emptySndBuf, htarget, Target.sent]
  · have htaken := hexact.sent conn pieces
    rw [hflat, hvalid.sndBuf_eq] at htaken
    rw [Target.Exact, emptySndBuf]
    simpa [htarget, Target.sent, Target.taken] using htaken
  · simp [emptySndBuf, htarget, Target.sent]

lemma Took.moved_past {frame : Frame} (h : Took frame s s') (hempty : s.target.sndBuf = []) :
    Moved pData [frame] s
      { s' with target := { s'.target with handed := s'.target.handed ++ [[frame]] } } := by
  obtain ⟨conn, pieces, hconn, hflat, htarget⟩ := h.target
  refine ⟨⟨fun _ hvalid => ?_, fun _ => ?_, h.friendly⟩, fun _ _ hexact => ?_, ?_, h.sends⟩
  · have hheld := hvalid.held_eq_nil hempty
    refine ⟨⟨?_, ?_, ?_⟩, ?_⟩
    · simpa [htarget, Target.sent] using hvalid.sndBuf_eq
    · simpa [htarget, Target.sent] using hvalid.ne_nil
    · have hcarries := hvalid.carries.take conn pieces
      rw [hflat] at hcarries
      simpa [htarget, Target.sent] using hcarries
    · simp [Target.accepted, htarget, Target.sent, hheld]
  · simp [htarget, Target.sent]
  · have htaken := hexact.sent conn pieces
    rw [hflat] at htaken
    rw [Target.Exact, htarget]
    simpa [Target.sent, Target.taken] using htaken
  · simp [htarget, Target.sent]

lemma moved_buffered (s : Session) (frame : Frame) :
    Moved pData [frame] s { s with target := { s.target with
      sndBuf := s.target.sndBuf ++ frame
      held := s.target.held ++ [frame] } } := by
  refine ⟨⟨fun hne hvalid => ⟨⟨?_, ?_, hvalid.carries⟩, ?_⟩, fun _ => rfl, id⟩, fun _ _ => id, rfl,
    Iff.rfl⟩
  · simp [hvalid.sndBuf_eq]
  · intro f hf
    obtain hf | hf := mem_append.mp hf
    · exact hvalid.ne_nil f hf
    · exact hne f hf
  · simp [Target.accepted]

structure Idle (s s' : Session) : Prop where
  sndBuf : s'.target.sndBuf = s.target.sndBuf
  calls : s'.target.calls = s.target.calls
  held : s'.target.held = s.target.held
  handed : s'.target.handed = s.target.handed
  prevMsg : s.target.prevMsg = none → s'.target.prevMsg = none
  sends : s'.world.sends = s.world.sends
  friendly : s.world.Friendly → s'.world.Friendly

lemma Idle.refl (s : Session) : Idle s s := ⟨rfl, rfl, rfl, rfl, id, rfl, id⟩

lemma Idle.trans (h : Idle s s') (h' : Idle s' s'') : Idle s s'' :=
  ⟨h'.sndBuf.trans h.sndBuf, h'.calls.trans h.calls, h'.held.trans h.held,
    h'.handed.trans h.handed, h'.prevMsg ∘ h.prevMsg, h'.sends.trans h.sends,
    h'.friendly ∘ h.friendly⟩

lemma Idle.accepts (h : Idle s s') : Accepts [] s.target s'.target := by
  refine fun _ hvalid => ⟨⟨?_, ?_, ?_⟩, ?_⟩
  · rw [h.sndBuf, h.held]
    exact hvalid.sndBuf_eq
  · rw [h.held]
    exact hvalid.ne_nil
  · rw [h.calls, h.handed]
    exact hvalid.carries
  · rw [Target.accepted, h.held, h.handed, append_nil]
    rfl

lemma Idle.exact (h : Idle s s') (hexact : s.target.Exact) : s'.target.Exact := by
  rw [Target.Exact, Target.taken, h.calls, h.handed]
  exact hexact

lemma Idle.moved (h : Idle s s') (hprev : s'.target.prevMsg = s.target.prevMsg)
    (hconn : s'.target.bIsConnected = s.target.bIsConnected) : Moved pData [] s s' :=
  ⟨⟨h.accepts, fun _ => hprev, h.friendly⟩, fun _ _ => h.exact, hconn, by rw [h.sends]⟩

/-! ## What the functions do -/

lemma returns_DestructTCPTargetData_idle :
    Returns (DestructTCPTargetData pData) (fun _ s' => Idle s s') s :=
  returns_DestructTCPTargetData fun _ _ hsends hworld =>
    ⟨rfl, rfl, rfl, rfl, id, hsends, hworld⟩

lemma returns_CheckConnection : Returns (CheckConnection pData) (fun _ s' => Idle s s') s := by
  rw [Returns, CheckConnection, wp_bind]
  refine returns_netstrmCheckConnection fun up world hsends hworld => ?_
  have hidle : Idle s { s with world := world } :=
    ⟨rfl, rfl, rfl, rfl, id, hsends, fun hf => (hworld hf).2⟩
  cases up with
  | true => exact hidle
  | false =>
    rw [if_neg (by simp), suspend, wp_bind]
    exact returns_DestructTCPTargetData_idle.imp fun _ _ h => hidle.trans h

lemma returns_makeRoom (len : ℕ) : Returns (makeRoom pData len) (fun r s' =>
      r = .ok ∧ Moved pData [] s s' ∧
          (s'.target.sndBuf = [] ∨ s'.target.sndBuf.length + len < s'.target.maxLenSndBuf) ∨
        r = .suspended ∧ Down pData [] s s') s := by
  rw [Returns, makeRoom, wp_bind, wp_get, wp_ite]
  refine ⟨fun hfull => ?_, fun hroom => .inl ⟨rfl, .refl s, ?_⟩⟩
  · rw [wp_bind]
    refine (returns_TCPSendBufUncompressed _).imp fun r s' hr => ?_
    obtain ⟨rfl, htook⟩ | ⟨rfl, hbroke⟩ := hr
    · exact .inl ⟨rfl, htook.moved_emptySndBuf, .inl rfl⟩
    · exact .inr ⟨rfl, hbroke.down⟩
  · by_cases hempty : s.target.sndBuf = []
    · exact .inl hempty
    · exact .inr (not_le.mp fun hle => hroom ⟨hempty, hle⟩)

structure Added (pData : InstanceData) (frame : Frame) (r : RsRet) (s s' : Session) : Prop where
  good : good r = true
  moved : Moved pData [frame] s s'
  buffered : r = .ok ∨ (frame ≠ [] → s'.target.sndBuf ≠ [])

variable (frame : Frame)

lemma returns_putFrame
    (hroom : s.target.sndBuf = [] ∨ s.target.sndBuf.length + frame.length < s.target.maxLenSndBuf) :
    Returns (putFrame pData frame) (fun r s' =>
      Added pData frame r s s' ∨ r = .suspended ∧ Down pData [] s s') s := by
  rw [Returns, putFrame, wp_ite]
  refine ⟨fun hlarge => ?_, fun _ => .inl ⟨rfl, moved_buffered s frame, .inr fun hne => ?_⟩⟩
  swap
  · exact append_ne_nil_of_right_ne_nil _ hne
  -- the buffer is not larger than that, so that a frame which is finds it empty
  have hempty : s.target.sndBuf = [] := hroom.resolve_right fun h => by
    have := s.target.maxLenSndBuf_le
    omega
  rw [wp_bind]
  refine (returns_TCPSendBufUncompressed _).imp fun r s' hr => ?_
  obtain ⟨rfl, htook⟩ | ⟨rfl, hbroke⟩ := hr
  · exact .inl ⟨rfl, htook.moved_past hempty, .inl rfl⟩
  · exact .inr ⟨rfl, hbroke.down⟩

/-- **A frame.** It is accepted, or the connection is lost and the buffer is as before. -/
theorem returns_TCPSendFrame : Returns (TCPSendFrame pData frame) (fun r s' =>
      Added pData frame r s s' ∨ r = .suspended ∧ Down pData [] s s') s := by
  rw [Returns, TCPSendFrame, wp_bind]
  refine (returns_makeRoom _).imp fun r s' hr => ?_
  obtain ⟨rfl, hmoved, hroom⟩ | ⟨rfl, hdown⟩ := hr
  · refine (returns_putFrame frame hroom).imp fun r' s'' hr' => ?_
    exact hr'.imp (fun h => ⟨h.good, hmoved.trans h.moved, h.buffered⟩)
      fun h => ⟨h.1, hmoved.trans_down h.2⟩
  · exact .inr ⟨rfl, hdown⟩

lemma returns_TCPSendInitTarget :
    Returns (TCPSendInitTarget pData) (fun r s' => Idle s s' ∧
      (r = .ok ∧ Moved pData [] s s' ∨ good r = false ∧ Down pData [] s s')) s := by
  rw [Returns, TCPSendInitTarget, wp_bind, wp_get, wp_ite]
  refine ⟨fun _ => ?_, fun _ => ⟨.refl s, .inl ⟨rfl, .refl s⟩⟩⟩
  rw [wp_bind]
  refine returns_connect fun up world hsends hworld => ?_
  cases up with
  | true =>
    have hidle : Idle s { s with
        target := { s.target with
          pNetstrm := some s.target.nConnects
          nConnects := s.target.nConnects + 1 }
        world := world } := ⟨rfl, rfl, rfl, rfl, id, hsends, fun hf => (hworld hf).2⟩
    exact ⟨hidle, .inl ⟨rfl, hidle.moved rfl rfl⟩⟩
  | false =>
    rw [if_neg (by simp), wp_bind]
    refine returns_DestructTCPTargetData fun ttResume world' hsends' hworld' => ?_
    have hidle : Idle s ⟨s.target.down ttResume, world'⟩ :=
      ⟨rfl, rfl, rfl, rfl, id, hsends'.trans hsends, fun hf => hworld' (hworld hf).2⟩
    refine ⟨hidle, .inr ⟨rfl, ⟨hidle.accepts, fun _ => rfl, hidle.friendly⟩, rfl, fun hf => ?_⟩⟩
    cases (hworld hf).1

lemma returns_notYet (nActiveTargets : ℕ) :
    Returns (notYet nActiveTargets) (fun _ s' => Idle s s') s := by
  rw [Returns, notYet, wp_bind, wp_get, wp_ite]
  refine ⟨fun _ => ?_, fun _ => .refl s⟩
  rw [wp_bind]
  exact returns_GetTime fun now times =>
    ⟨rfl, rfl, rfl, rfl, id, rfl, fun hf => ⟨hf.connects, hf.checks⟩⟩

lemma returns_doTryResume (nActiveTargets : ℕ) :
    Returns (doTryResume pData nActiveTargets) (fun _ s' => Idle s s') s := by
  rw [Returns, doTryResume, wp_bind, wp_get, wp_ite]
  refine ⟨fun _ => .refl s, fun _ => ?_⟩
  rw [wp_bind]
  refine (returns_notYet nActiveTargets).imp fun early s₁ h₁ => ?_
  cases early with
  | true => exact h₁
  | false =>
    rw [if_neg (by simp), wp_bind]
    refine returns_TCPSendInitTarget.imp fun r s₂ h₂ => ?_
    have hidle := h₁.trans h₂.1
    rw [wp_ite]
    refine ⟨fun _ => ?_, fun _ => hidle⟩
    exact hidle.trans ⟨rfl, rfl, rfl, rfl, id, rfl, id⟩

lemma moved_remember (s : Session) : Moved pData [] s (remember pData frame s) := by
  unfold remember
  split
  next hon =>
    refine ⟨⟨fun _ h => ⟨{ h with }, (append_nil _).symm⟩, fun hoff => ?_, id⟩, fun _ _ => id, rfl,
      Iff.rfl⟩
    rw [hon] at hoff
    cases hoff
  next => exact .refl s

lemma sndBuf_remember (s : Session) : (remember pData frame s).target.sndBuf = s.target.sndBuf := by
  unfold remember
  split <;> rfl

lemma returns_sendRound {failed : RsRet → SessionM RsRet} {Q : RsRet → Session → Prop}
    (hadded : ∀ r s', Added pData frame r s s' → Q r s')
    (hinit : ∀ r s', good r = false → Down pData [] s s' → Q r s')
    (hfailed : ∀ s', Down pData [] s s' → Returns (failed .suspended) Q s') :
    Returns (sendRound pData frame failed) Q s := by
  rw [Returns, sendRound, wp_bind]
  refine returns_TCPSendInitTarget.imp fun r s' hr => ?_
  obtain ⟨rfl, hmoved⟩ | ⟨hbad, hdown⟩ := hr.2
  · rw [if_pos rfl, wp_bind]
    refine (returns_TCPSendFrame frame).imp fun r' s'' hr' => ?_
    obtain hr' | ⟨rfl, hdown⟩ := hr'
    · rw [if_pos hr'.good]
      refine hadded r' _ ⟨hr'.good, (hmoved.trans hr'.moved).trans (moved_remember frame s''), ?_⟩
      rw [sndBuf_remember]
      exact hr'.buffered
    · exact hfailed s'' (hmoved.trans_down hdown)
  · rw [if_neg (by rintro rfl; cases hbad)]
    exact hinit r s' hbad hdown

def Went (pData : InstanceData) (frames : List Frame) (s s' : Session) : Prop :=
  Moved pData frames s s' ∨ Down pData frames s s'

lemma Went.trans (h : Went pData fs s s') (h' : Went pData gs s' s'') :
    Went pData (fs ++ gs) s s'' := by
  obtain h | h := h <;> obtain h' | h' := h'
  · exact .inl (h.trans h')
  · exact .inr (h.trans_down h')
  · exact .inr (h.trans_moved h')
  · exact .inr (h.trans h')

lemma Down.trans_went (h : Down pData fs s s') (h' : Went pData gs s' s'') :
    Down pData (fs ++ gs) s s'' := h'.elim h.trans_moved h.trans

lemma returns_resendPrev : Returns (resendPrev pData) (fun r s' =>
      (∃ frames, Went pData frames s s') ∧ (s.target.prevMsg = none → r = .ok ∧ s' = s)) s := by
  rw [Returns, resendPrev, wp_bind, wp_get]
  cases hprev : s.target.prevMsg with
  | none => exact ⟨⟨[], .inl (.refl s)⟩, fun _ => ⟨rfl, rfl⟩⟩
  | some prev =>
    simp only [wp_bind]
    refine returns_TCPSendInitTarget.imp fun r s' hr => ?_
    obtain ⟨rfl, hmoved⟩ | ⟨hbad, hdown⟩ := hr.2
    · refine (returns_TCPSendFrame prev).imp fun r' s'' hr' => ⟨?_, fun h => by cases h⟩
      exact hr'.elim (fun h => ⟨_, .inl (hmoved.trans h.moved)⟩)
        fun h => ⟨_, .inr (hmoved.trans_down h.2)⟩
    · rw [if_neg (by rintro rfl; cases hbad)]
      exact ⟨⟨[], .inr hdown⟩, fun h => by cases h⟩

lemma returns_TCPSendPrepRetry (hdown : s.target.bIsConnected = false) :
    Returns (TCPSendPrepRetry pData) (fun _ s' => Moved pData [] s s' ∧
      s'.target.prevMsg = s.target.prevMsg) s := by
  refine returns_DestructTCPTargetData fun ttResume world hsends hworld => ⟨?_, rfl⟩
  exact Idle.moved ⟨rfl, rfl, rfl, rfl, id, hsends, hworld⟩ rfl hdown.symm

lemma returns_retryRound (hdown : s.target.bIsConnected = false) :
    Returns (retryRound pData frame) (fun r s' => ∃ frames, Went pData frames s s' ∧
      (s.target.prevMsg = none →
        good r = true ∧ frames = [frame] ∨ good r = false ∧ frames = [])) s := by
  rw [Returns, retryRound, wp_bind]
  refine (returns_TCPSendPrepRetry hdown).imp fun _ s₁ h₁ => ?_
  obtain ⟨hmoved, hprev⟩ := h₁
  rw [wp_bind]
  refine returns_resendPrev.imp fun r s₂ h₂ => ?_
  obtain ⟨⟨resent, hwent⟩, hnone⟩ := h₂
  rw [hprev] at hnone
  -- without a stored message, nothing was accepted so far
  obtain ⟨fs, hfs, hnil⟩ : ∃ fs, Went pData fs s s₂ ∧ (s.target.prevMsg = none → fs = []) := by
    by_cases h : s.target.prevMsg = none
    · rw [(hnone h).2]
      exact ⟨[], .inl hmoved, fun _ => rfl⟩
    · exact ⟨_, Went.trans (.inl hmoved) hwent, fun h' => absurd h' h⟩
  by_cases hok : r = .ok
  · rw [if_pos hok]
    refine returns_sendRound frame ?_ ?_ ?_
    · intro r' s₃ h₃
      exact ⟨_, hfs.trans (.inl h₃.moved), fun h => .inl ⟨h₃.good, by rw [hnil h]; rfl⟩⟩
    · intro r' s₃ hbad hdown'
      exact ⟨_, hfs.trans (.inr hdown'), fun h => .inr ⟨hbad, by rw [hnil h]; rfl⟩⟩
    · intro s₃ hdown'
      exact ⟨_, hfs.trans (.inr hdown'), fun h => .inr ⟨rfl, by rw [hnil h]; rfl⟩⟩
  · rw [if_neg hok]
    exact ⟨_, hfs, fun h => absurd (hnone h).1 hok⟩

/-- The frame is accepted and the connection is as before, or the target ends up as one that is not
connected, even if the frame was accepted by a new connection. -/
def Sent (pData : InstanceData) (frame : Frame) (r : RsRet) (s s' : Session) : Prop :=
  Added pData frame r s s' ∨ ∃ fs, Down pData fs s s' ∧
    (pData.bResendLastOnRecon = false → s.target.prevMsg = none →
      good r = true ∧ fs = [frame] ∨ good r = false ∧ fs = [])

lemma returns_Send (msg : Bytes) : Returns (Send pData msg) (fun r s' =>
      ∃ frame, frameOf pData msg = some frame ∧ Sent pData frame r s s') s := by
  rw [Send]
  cases hframe : frameOf pData msg with
  | none => trivial
  | some frame =>
    refine returns_sendRound frame ?_ ?_ ?_
    · exact fun r s' hadded => ⟨frame, rfl, .inl hadded⟩
    · exact fun r s' hbad hdown => ⟨frame, rfl, .inr ⟨[], hdown, fun _ _ => .inr ⟨hbad, rfl⟩⟩⟩
    · intro s' hdown
      refine (returns_retryRound frame hdown.connected).imp fun r s'' hr => ?_
      obtain ⟨fs, hwent, hfs⟩ := hr
      refine ⟨frame, rfl, .inr ⟨_, hdown.trans_went hwent, fun hoff hprev => ?_⟩⟩
      exact hfs ((hdown.prevMsg hoff).trans hprev)

/-- **A message.** -/
theorem returns_processMsg (psz : Bytes) : Returns (processMsg pData psz) (fun r s' =>
      ∃ frame, frameOf pData (psz.take pData.iMaxLine) = some frame ∧ Sent pData frame r s s')
      s := by
  rw [Returns, processMsg, wp_bind]
  refine (returns_Send _).imp fun r s' hr => ?_
  obtain ⟨frame, hframe, hr⟩ := hr
  by_cases hgood : good r = true
  · rw [if_pos hgood]
    exact ⟨frame, hframe, hr⟩
  · rw [if_neg hgood]
    obtain hadded | ⟨fs, hdown, hfs⟩ := hr
    · exact absurd hadded.good hgood
    · rw [suspend, wp_bind]
      refine (returns_TCPSendPrepRetry hdown.connected).imp fun _ s'' h => ?_
      refine ⟨frame, hframe, .inr ⟨_, hdown.trans_moved h.1, fun hoff hprev => .inr ⟨rfl, ?_⟩⟩⟩
      obtain ⟨hgood', -⟩ | ⟨-, rfl⟩ := hfs hoff hprev
      · exact absurd hgood' hgood
      · rfl

lemma frameOf_ne_nil {msg : Bytes} {frame : Frame} (h : frameOf pData msg = some frame) :
    frame ≠ [] := by
  unfold frameOf at h
  split at h
  next => cases h
  next hmsg =>
    simp only [TCPSendBldFrame] at h
    generalize (if msg.head? = some 122 then TCPFRAMINGMODE.octetCounting
      else pData.tcp_framing) = mode at h
    cases mode with
    | octetStuffing =>
      obtain ⟨last, -, rfl⟩ := Option.map_eq_some_iff.mp h
      split <;> simp [hmsg]
    | octetCounting =>
      cases h
      simp

end Moves

end Rsyslog.Omfwd
