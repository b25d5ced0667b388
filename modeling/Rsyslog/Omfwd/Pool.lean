import Mathlib.Data.List.FinRange
import Rsyslog.Omfwd.Target

/-!
# The pool of omfwd

`commitTransaction` of `tools/omfwd.c` for one worker: the targets that are not connected are tried,
each message goes to the next target that takes it, and at the end the buffers of the targets that
are flagged as connected are sent.
-/

namespace Rsyslog.Omfwd

open Lib List
open Rsyslog.Action (RsRet)

/-- `wrkrInstanceData_t`, with the number of active targets of the instance and the world. -/
structure Wrkr (n : ℕ) where
  target : Fin (n + 1) → Target
  actualTarget : UInt32
  nXmit : ℤ
  nActiveTargets : ℕ
  world : World

abbrev WrkrM (n : ℕ) := EStateM Fault (Wrkr n)

variable {n : ℕ}

variable (w : Wrkr n)

def Wrkr.put (w : Wrkr n) (j : Fin (n + 1)) (s : Session) : Wrkr n :=
  { w with target := Function.update w.target j s.target, world := s.world }

def onTarget {α : Type} (j : Fin (n + 1)) (m : SessionM α) : WrkrM n α := fun w =>
  match m ⟨w.target j, w.world⟩ with
  | .ok a s => .ok a (w.put j s)
  | .error e s => .error e (w.put j s)

def Wrkr.turn (w : Wrkr n) : Fin (n + 1) := Fin.ofNat (n + 1) w.actualTarget.toNat

section Functions

variable (pData : InstanceData)

def countActiveTargets (w : Wrkr n) : Wrkr n :=
  { w with nActiveTargets := (List.finRange (n + 1)).countP fun j => (w.target j).bIsConnected }

/-- The loop of `poolTryResume`. The code of a check that fails is not kept. -/
def resumeLoop : List (Fin (n + 1)) → RsRet → Bool → WrkrM n RsRet
  | [], iRet, oneTargetOK => pure (if oneTargetOK then .ok else iRet)
  | j :: js, iRet, oneTargetOK => do
    let w ← get
    if (w.target j).bIsConnected then do
      let r ← onTarget j (CheckConnection pData)
      resumeLoop js iRet (oneTargetOK || r = .ok)
    else do
      let r ← onTarget j (doTryResume pData w.nActiveTargets)
      resumeLoop js r (oneTargetOK || r = .ok)

def poolTryResume : WrkrM n RsRet := resumeLoop pData (List.finRange (n + 1)) .ok false

/-- `DestructTCPInstanceData` and `initTCP`, which makes new clients. -/
def dropTargets : List (Fin (n + 1)) → WrkrM n Unit
  | [] => pure ()
  | j :: js => do
    onTarget j (DestructTCPTargetData pData)
    onTarget j (modify fun s => { s with target := { s.target with prevMsg := none } })
    dropTargets js

def rebind : WrkrM n Unit := do
  let w ← get
  if pData.iRebindInterval ≠ 0 then do
    modify fun w => { w with nXmit := w.nXmit + 1 }
    if w.nXmit ≥ pData.iRebindInterval then do
      modify fun w => { w with nXmit := 0 }
      dropTargets pData (List.finRange (n + 1))
    else pure ()
  else pure ()

/-- The targets are tried in turn, at most `k` of them; whether one took the message. -/
def tryTargets (psz : Bytes) : ℕ → RsRet → WrkrM n (Bool × RsRet)
  | 0, iRet => pure (false, iRet)
  | k + 1, iRet => do
    let w ← get
    let j := w.turn
    modify fun w => { w with actualTarget := w.actualTarget + 1 }
    if (w.target j).bIsConnected then do
      let r ← onTarget j (processMsg pData psz)
      if good r then pure (true, r) else tryTargets psz k r
    else tryTargets psz k iRet

def msgLoop : List Bytes → RsRet → WrkrM n (Bool × RsRet)
  | [], iRet => pure (true, iRet)
  | psz :: msgs, iRet => do
    let r ← tryTargets pData psz (n + 1) iRet
    if r.1 then do
      modify fun w => { w with nXmit := w.nXmit + 1 }
      msgLoop msgs r.2
    else pure (false, .suspended)

def flushTarget : SessionM RsRet := do
  let s ← get
  let r ← TCPSendBufUncompressed pData s.target.sndBuf
  if good r then do
    modify emptySndBuf
    pure r
  else do
    DestructTCPTargetData pData
    pure .ok

def flushLoop : List (Fin (n + 1)) → RsRet → WrkrM n RsRet
  | [], iRet => pure iRet
  | j :: js, iRet => do
    let w ← get
    if (w.target j).bIsConnected ∧ (w.target j).sndBuf ≠ [] then do
      let r ← onTarget j (flushTarget pData)
      flushLoop js r
    else flushLoop js iRet

def finish (iRet : RsRet) : WrkrM n RsRet := do
  modify countActiveTargets
  let w ← get
  pure (if w.nActiveTargets = 0 then .suspended else iRet)

def startTransaction : WrkrM n RsRet := do
  rebind pData
  poolTryResume pData

def sendMessages (msgs : List Bytes) : WrkrM n RsRet := do
  modify countActiveTargets
  let r ← msgLoop pData msgs .ok
  if r.1 then do
    let r ← flushLoop pData (List.finRange (n + 1)) r.2
    finish r
  else finish r.2

def commitTransaction (msgs : List Bytes) : WrkrM n RsRet := do
  let r ← startTransaction pData
  if r = .ok then sendMessages pData msgs else finish r

end Functions

/-! ## One function for one target -/

def Wrkr.session (w : Wrkr n) (j : Fin (n + 1)) : Session := ⟨w.target j, w.world⟩

variable {j : Fin (n + 1)}

lemma returns_onTarget {α : Type} {m : SessionM α} {Q : α → Wrkr n → Prop} {w : Wrkr n}
    (h : Returns m (fun a s => Q a (w.put j s)) (w.session j)) : Returns (onTarget j m) Q w := by
  unfold Returns Wp onTarget at *
  rw [Wrkr.session] at h
  cases hm : m ⟨w.target j, w.world⟩ <;> simp_all

lemma Wrkr.target_put_same (j : Fin (n + 1)) (s : Session) :
    (w.put j s).target j = s.target := Function.update_self ..

lemma Wrkr.target_put_of_ne {i : Fin (n + 1)} (h : i ≠ j) (s : Session) :
    (w.put j s).target i = w.target i := Function.update_of_ne h ..

lemma Wrkr.session_put_same (j : Fin (n + 1)) (s : Session) : (w.put j s).session j = s := by
  rw [Wrkr.session, Wrkr.target_put_same]
  rfl

/-! ## Before the messages -/

section

variable (js : List (Fin (n + 1))) {s : Session}

variable {pData : InstanceData} {w w' w'' : Wrkr n}

def Wrkr.Idle (w w' : Wrkr n) : Prop := ∀ j, Omfwd.Idle (w.session j) (w'.session j)

lemma Wrkr.Idle.refl (w : Wrkr n) : w.Idle w := fun j => .refl (w.session j)

lemma Wrkr.Idle.trans (h : w.Idle w') (h' : w'.Idle w'') : w.Idle w'' :=
  fun j => (h j).trans (h' j)

lemma Wrkr.Idle.put (h : Omfwd.Idle (w.session j) s) : w.Idle (w.put j s) := by
  intro i
  by_cases hi : i = j
  · subst hi
    rwa [Wrkr.session_put_same]
  · have htarget : ((w.put j s).session i).target = w.target i := w.target_put_of_ne hi s
    refine ⟨?_, ?_, ?_, ?_, ?_, h.sends, h.friendly⟩ <;> rw [htarget]
    exacts [rfl, rfl, rfl, rfl, id]

lemma returns_resumeLoop (iRet : RsRet) (oneTargetOK : Bool) :
    Returns (resumeLoop pData js iRet oneTargetOK) (fun _ w' => w.Idle w') w := by
  induction js generalizing w iRet oneTargetOK with
  | nil => exact .refl w
  | cons j js ih =>
    rw [Returns, resumeLoop, wp_bind, wp_get, wp_ite]
    constructor <;> intro _ <;> rw [wp_bind] <;> refine returns_onTarget ?_
    · refine returns_CheckConnection.imp fun r s hs => ?_
      exact (ih _ _).imp fun _ _ h => (Wrkr.Idle.put hs).trans h
    · refine (returns_doTryResume _).imp fun r s hs => ?_
      exact (ih _ _).imp fun _ _ h => (Wrkr.Idle.put hs).trans h

lemma returns_dropTargets : Returns (dropTargets pData js) (fun _ w' => w.Idle w') w := by
  induction js generalizing w with
  | nil => exact .refl w
  | cons j js ih =>
    rw [Returns, dropTargets, wp_bind]
    refine returns_onTarget (returns_DestructTCPTargetData_idle.imp fun _ s hs => ?_)
    rw [wp_bind]
    have hput := Wrkr.Idle.put hs
    refine returns_onTarget (ih.imp fun _ _ h => (hput.trans ?_).trans h)
    exact .put ⟨rfl, rfl, rfl, rfl, fun _ => rfl, rfl, id⟩

/-- **Before the messages.** Opening and closing connections leaves the buffers alone. -/
theorem returns_startTransaction : Returns (startTransaction pData) (fun _ w' => w.Idle w') w := by
  have hresume (v : Wrkr n) (hv : w.Idle v) :
      Returns (poolTryResume pData) (fun _ w' => w.Idle w') v :=
    (returns_resumeLoop _ _ _).imp fun _ _ h => hv.trans h
  rw [Returns, startTransaction, wp_bind, rebind, wp_bind, wp_get, wp_ite]
  refine ⟨fun _ => ?_, fun _ => hresume w (.refl w)⟩
  rw [wp_bind, wp_modify, wp_ite]
  refine ⟨fun _ => ?_, fun _ => hresume _ fun j => .refl (w.session j)⟩
  exact (returns_dropTargets _).imp fun _ v hv => hresume v hv

end

/-! ## Where the messages go -/

def framesFor (j : Fin (n + 1)) (placed : List (Fin (n + 1) × Frame)) : List Frame :=
  (placed.filter fun p => p.1 = j).map Prod.snd

lemma framesFor_append (j : Fin (n + 1)) (ps qs : List (Fin (n + 1) × Frame)) :
    framesFor j (ps ++ qs) = framesFor j ps ++ framesFor j qs := by
  simp [framesFor]

/-- Since `w₀`, each target has accepted what was given to it, and no stored message waits to be
sent again. -/
structure Tracks (w₀ : Wrkr n) (placed : List (Fin (n + 1) × Frame)) (w : Wrkr n) : Prop where
  valid : ∀ j, (w.target j).Valid
  prevMsg : ∀ j, (w.target j).prevMsg = none
  accepted : ∀ j, (w.target j).accepted = (w₀.target j).accepted ++ framesFor j placed

section Track

variable {pData : InstanceData} {w₀ w w' : Wrkr n} {placed : List (Fin (n + 1) × Frame)}

lemma Tracks.idle (h : Tracks w₀ placed w) (hidle : w.Idle w') : Tracks w₀ placed w' := by
  have hacc (j : Fin (n + 1)) := (hidle j).accepts (by simp) (h.valid j)
  refine ⟨fun j => (hacc j).1, fun j => (hidle j).prevMsg (h.prevMsg j), fun j => ?_⟩
  refine (hacc j).2.trans ?_
  rw [append_nil]
  exact h.accepted j

lemma Tracks.put (h : Tracks w₀ placed w) {frames : List Frame} {s : Session}
    (hne : ∀ f ∈ frames, f ≠ []) (hacc : Accepts frames (w.target j) s.target)
    (hprev : s.target.prevMsg = (w.target j).prevMsg) :
    Tracks w₀ (placed ++ frames.map (j, ·)) (w.put j s) := by
  obtain ⟨hvalid, hframes⟩ := hacc hne (h.valid j)
  have hat : ∀ i, i = j ∨
      (w.put j s).target i = w.target i ∧ framesFor i (frames.map (j, ·)) = [] := by
    intro i
    by_cases hi : i = j
    · exact .inl hi
    · refine .inr ⟨w.target_put_of_ne hi s, ?_⟩
      simp [framesFor, Ne.symm hi]
  refine ⟨fun i => ?_, fun i => ?_, fun i => ?_⟩ <;> obtain rfl | ⟨hi, hnone⟩ := hat i
  · rwa [Wrkr.target_put_same]
  · rw [hi]
    exact h.valid i
  · rw [Wrkr.target_put_same, hprev]
    exact h.prevMsg i
  · rw [hi]
    exact h.prevMsg i
  · have hall : framesFor i (frames.map (i, ·)) = frames := by
      simp [framesFor, filter_map, Function.comp_def]
    rw [Wrkr.target_put_same, framesFor_append, hframes, h.accepted i, hall, append_assoc]
  · rw [hi, framesFor_append, hnone, append_nil]
    exact h.accepted i

lemma returns_flushTarget :
    Returns (flushTarget pData) (fun r s' => r = .ok ∧
      (Moved pData [] s s' ∧ s'.target.sndBuf = [] ∨ Down pData [] s s')) s := by
  rw [Returns, flushTarget, wp_bind, wp_get, wp_bind]
  refine (returns_TCPSendBufUncompressed _).imp fun r s₁ hr => ?_
  obtain ⟨rfl, htook⟩ | ⟨rfl, hbroke⟩ := hr
  · exact ⟨rfl, .inl ⟨htook.moved_emptySndBuf, rfl⟩⟩
  · rw [if_neg (by decide), wp_bind]
    have hdown : Down pData [] s s₁ := hbroke.down
    refine (returns_TCPSendPrepRetry hdown.connected).imp fun _ s₂ h₂ => ?_
    exact ⟨rfl, .inr (hdown.trans_moved h₂.1)⟩

lemma returns_finish {r : RsRet} {Q : RsRet → Wrkr n → Prop}
    (h : ∀ r' k, (r' = .ok → r = .ok) → Q r' { w with nActiveTargets := k }) :
    Returns (finish r) Q w := by
  refine h _ _ fun hok => ?_
  split at hok
  · cases hok
  · exact hok

section Send

variable (hoff : pData.bResendLastOnRecon = false)

include hoff

lemma Tracks.put_went (h : Tracks w₀ placed w) {frames : List Frame} (hne : ∀ f ∈ frames, f ≠ [])
    (hwent : Went pData frames (w.session j) s) :
    Tracks w₀ (placed ++ frames.map (j, ·)) (w.put j s) := by
  obtain hmoved | hdown := hwent
  · exact h.put hne hmoved.accepts (hmoved.prevMsg hoff)
  · exact h.put hne hdown.accepts (hdown.prevMsg hoff)

abbrev msgFrame (pData : InstanceData) (psz : Bytes) : Option Frame :=
  frameOf pData (psz.take pData.iMaxLine)

/-- **A message.** A target has accepted it, or no target has. -/
theorem returns_tryTargets (psz : Bytes) (k : ℕ) (iRet : RsRet) (h : Tracks w₀ placed w) :
    Returns (tryTargets pData psz k iRet) (fun r w' =>
      r.1 = true ∧ (∃ j frame, msgFrame pData psz = some frame ∧
          Tracks w₀ (placed ++ [(j, frame)]) w') ∨
        r.1 = false ∧ Tracks w₀ placed w') w := by
  induction k generalizing w iRet with
  | zero => exact .inr ⟨rfl, h⟩
  | succ k ih =>
    rw [Returns, tryTargets, wp_bind, wp_get, wp_bind, wp_modify, wp_ite]
    refine ⟨fun _ => ?_, fun _ => ih _ { h with }⟩
    have hnow : Tracks w₀ placed { w with actualTarget := w.actualTarget + 1 } := { h with }
    rw [wp_bind]
    refine returns_onTarget ((returns_processMsg psz).imp fun r s hr => ?_)
    obtain ⟨frame, hframe, hr⟩ := hr
    have hne : ∀ f ∈ [frame], f ≠ [] := by simpa using frameOf_ne_nil hframe
    -- the frame was accepted, or nothing was
    obtain ⟨hgood, hwent⟩ | ⟨hbad, hwent⟩ :
        good r = true ∧ Went pData [frame] _ s ∨ good r = false ∧ Went pData [] _ s := by
      obtain hadded | ⟨fs, hdown, hfs⟩ := hr
      · exact .inl ⟨hadded.good, .inl hadded.moved⟩
      · obtain ⟨hgood, rfl⟩ | ⟨hbad, rfl⟩ := hfs hoff (hnow.prevMsg _)
        · exact .inl ⟨hgood, .inr hdown⟩
        · exact .inr ⟨hbad, .inr hdown⟩
    · rw [if_pos hgood]
      exact .inl ⟨rfl, _, frame, hframe, hnow.put_went hoff hne hwent⟩
    · rw [if_neg (by simp [hbad])]
      have hput := hnow.put_went hoff (by simp) hwent
      rw [map_nil, append_nil] at hput
      exact ih r hput

/-- **The messages.** If all were taken, each has been accepted by some target. -/
theorem returns_msgLoop (msgs : List Bytes) (iRet : RsRet) (h : Tracks w₀ placed w) :
    Returns (msgLoop pData msgs iRet) (fun r w' =>
      r.1 = true ∧ (∃ new : List (Fin (n + 1) × Frame),
          msgs.map (msgFrame pData) = new.map (some ·.2) ∧ Tracks w₀ (placed ++ new) w') ∨
        r = (false, .suspended)) w := by
  induction msgs generalizing w placed iRet with
  | nil => exact .inl ⟨rfl, [], rfl, by rwa [append_nil]⟩
  | cons psz msgs ih =>
    rw [Returns, msgLoop, wp_bind]
    refine (returns_tryTargets hoff psz _ iRet h).imp fun r w₁ hr => ?_
    obtain ⟨hr, j, frame, hframe, h₁⟩ | ⟨hr, -⟩ := hr
    · have hnext : Tracks w₀ (placed ++ [(j, frame)]) { w₁ with nXmit := w₁.nXmit + 1 } :=
        { h₁ with }
      rw [if_pos hr, wp_bind]
      refine (ih r.2 hnext).imp fun r' w₂ hr' => ?_
      refine hr'.imp (fun hdone => ⟨hdone.1, ?_⟩) id
      obtain ⟨new, hnew, h₂⟩ := hdone.2
      refine ⟨(j, frame) :: new, ?_, ?_⟩
      · rw [map_cons, map_cons, hframe, hnew]
      · rwa [append_cons]
    · rw [if_neg (by simp [hr])]
      exact .inr rfl

/-! ## The last loop -/

def Flushed (t : Target) : Prop := t.bIsConnected = true → t.sndBuf = []

/-- **The last loop.** The targets it was at are flushed or not connected. -/
theorem returns_flushLoop (js : List (Fin (n + 1))) (iRet : RsRet) (h : Tracks w₀ placed w) :
    Returns (flushLoop pData js iRet) (fun _ w' => Tracks w₀ placed w' ∧
      ∀ j, j ∈ js ∨ Flushed (w.target j) → Flushed (w'.target j)) w := by
  induction js generalizing w iRet with
  | nil => exact ⟨h, fun j hj => hj.resolve_left (by simp)⟩
  | cons j js ih =>
    rw [Returns, flushLoop, wp_bind, wp_get, wp_ite]
    refine ⟨fun _ => ?_, fun hskip => ?_⟩
    · rw [wp_bind]
      refine returns_onTarget (returns_flushTarget.imp fun r s hr => ?_)
      have hput := h.put_went hoff (by simp) (hr.2.imp_left And.left)
      rw [map_nil, append_nil] at hput
      refine (ih r hput).imp fun r' w' hr' => ⟨hr'.1, fun i hi => hr'.2 i ?_⟩
      by_cases hij : i = j
      · subst hij
        refine .inr ?_
        rw [Wrkr.target_put_same]
        obtain ⟨-, hempty⟩ | hdown := hr.2
        · exact fun _ => hempty
        · exact fun hconn => absurd hdown.connected (by rw [hconn]; decide)
      · rw [Wrkr.target_put_of_ne _ hij]
        exact hi.imp_left fun hmem => (mem_cons.mp hmem).resolve_left hij
    · refine (ih iRet h).imp fun r' w' hr' => ⟨hr'.1, fun i hi => hr'.2 i ?_⟩
      by_cases hij : i = j
      · subst hij
        exact .inr fun hconn => by_contra fun hbuf => hskip ⟨hconn, hbuf⟩
      · exact hi.imp_left fun hmem => (mem_cons.mp hmem).resolve_left hij

/-! ## The transaction -/

/-- The frames of the transaction went to the targets as `placed` says: each is among those that
were handed over to calls of `netstrm.Send` which succeeded, or in the send buffer of its target. -/
structure Delivered (pData : InstanceData) (msgs : List Bytes) (w₀ w : Wrkr n)
    (placed : List (Fin (n + 1) × Frame)) : Prop where
  frames : msgs.map (msgFrame pData) = placed.map (some ·.2)
  accepted : ∀ j, (w.target j).handed.flatten ++ (w.target j).held =
    (w₀.target j).handed.flatten ++ (w₀.target j).held ++ framesFor j placed
  handed : ∀ j, Carries (w.target j).calls ((w.target j).handed.map List.flatten)
  held : ∀ j, (w.target j).sndBuf = (w.target j).held.flatten

lemma returns_sendMessages (msgs : List Bytes) (h : Tracks w₀ [] w) :
    Returns (sendMessages pData msgs) (fun r w' => r = .ok →
      ∃ placed, Delivered pData msgs w₀ w' placed ∧ ∀ j, Flushed (w'.target j)) w := by
  have hcount : Tracks w₀ [] (countActiveTargets w) := { h with }
  rw [Returns, sendMessages, wp_bind, wp_modify, wp_bind]
  refine (returns_msgLoop hoff msgs .ok hcount).imp fun r w₁ h₁ => ?_
  obtain ⟨hall, placed, hframes, htracks₁⟩ | rfl := h₁
  · rw [if_pos hall, wp_bind]
    refine (returns_flushLoop hoff _ r.2 htracks₁).imp fun r₂ w₂ h₂ => ?_
    obtain ⟨htracks₂, hflushed⟩ := h₂
    refine returns_finish fun r' k _ _ => ⟨placed, ⟨hframes, htracks₂.accepted, ?_, ?_⟩, ?_⟩
    · exact fun j => (htracks₂.valid j).carries
    · exact fun j => (htracks₂.valid j).sndBuf_eq
    · exact fun j => hflushed j (.inl (mem_finRange j))
  · exact returns_finish fun r' _ hr' hok => by cases hr' hok

end Send

def Target.restart (t : Target) : Target :=
  { t with calls := [], handed := [], held := if t.sndBuf = [] then [] else [t.sndBuf] }

def Wrkr.restart (w : Wrkr n) : Wrkr n := { w with target := fun j => (w.target j).restart }

lemma Target.valid_restart (t : Target) : t.restart.Valid := by
  unfold Target.restart
  by_cases hempty : t.sndBuf = []
  · simp only [hempty, if_true]
    exact ⟨rfl, by simp, .nil⟩
  · simp only [hempty, if_false]
    exact ⟨by simp, by simpa using hempty, .nil⟩

/-- **A transaction that returns OK.** Unless messages are sent again on a new connection, each
message was taken by calls of `netstrm.Send` that succeeded, or is in the send buffer of its target,
which is empty if the target is flagged as connected. -/
theorem commitTransaction_keeps (pData : InstanceData) (hoff : pData.bResendLastOnRecon = false)
    (msgs : List Bytes) (w w' : Wrkr n) (hprev : ∀ j, (w.target j).prevMsg = none)
    (hok : commitTransaction pData msgs w.restart = .ok .ok w') :
    ∃ placed, Delivered pData msgs w.restart w' placed ∧
      ∀ j, (w'.target j).bIsConnected = true → (w'.target j).sndBuf = [] := by
  have hstart : Tracks w.restart [] w.restart :=
    ⟨fun j => (w.target j).valid_restart, hprev, fun j => (append_nil _).symm⟩
  have hrun : Returns (commitTransaction pData msgs) (fun r w' => r = .ok → ∃ placed,
      Delivered pData msgs w.restart w' placed ∧ ∀ j, Flushed (w'.target j)) w.restart := by
    rw [Returns, commitTransaction, wp_bind]
    refine returns_startTransaction.imp fun r w₁ h₁ => ?_
    rw [wp_ite]
    refine ⟨fun _ => returns_sendMessages hoff msgs (hstart.idle h₁), fun hr => ?_⟩
    exact returns_finish fun r' _ hr' hok' => absurd (hr' hok') hr
  exact hrun.ok hok rfl

end Track

section Inputs

def plainInstance : InstanceData where
  tcp_framing := .octetStuffing
  tcp_framingDelimiter := 10
  bResendLastOnRecon := false
  bExtendedConnCheck := false
  poolResumeInterval := 30
  iRebindInterval := 0
  iMaxLine := 8096

def upTarget : Target where
  pNetstrm := some 0
  nConnects := 1
  bIsConnected := true
  maxLenSndBuf := SNDBUF_FIXED_BUFFER_SIZE
  maxLenSndBuf_le := le_rfl
  sndBuf := []
  ttResume := 0
  prevMsg := none
  calls := []
  held := []
  handed := []

def twoTargets : Wrkr 1 where
  target _ := upTarget
  actualTarget := 0
  nXmit := 0
  nActiveTargets := 2
  world := ⟨[none, some 2], [], [], [100, 100]⟩

/-- The last loop cannot send the buffer of the first of two targets. -/
theorem commitTransaction_keeps_twoTargets :
    ∃ w', commitTransaction plainInstance [[97], [98]] twoTargets.restart = .ok .ok w' ∧
      ∃ placed, Delivered plainInstance [[97], [98]] twoTargets.restart w' placed ∧
        ∀ j, (w'.target j).bIsConnected = true → (w'.target j).sndBuf = [] :=
  ⟨_, rfl, commitTransaction_keeps plainInstance rfl [[97], [98]] twoTargets _ (fun _ => rfl) rfl⟩

/-- The transaction returns OK, and the message for the first target waits in its buffer. -/
theorem flush_fails_returns_ok :
    ∃ w', commitTransaction plainInstance [[97], [98]] twoTargets.restart = .ok .ok w' ∧
      (w'.target 0).sndBuf = [97, 10] ∧ (w'.target 0).calls = [(0, none)] ∧
      (w'.target 1).calls = [(0, some [98, 10])] :=
  ⟨_, rfl, by decide +kernel, by decide +kernel, by decide +kernel⟩

end Inputs

end Rsyslog.Omfwd
