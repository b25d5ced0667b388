import Mathlib.Algebra.Order.Group.Multiset
import Mathlib.Tactic.Abel
import Rsyslog.Lib.Run
import Rsyslog.Ratelimit.Submit

/-!
# Who owns a message

Every reference to a message is in one place: in the queue, with the ratelimiter as its candidate,
in the multi-submit buffer, or it has been given back. `Owes` accounts for the references, with
those that a function holds in its hands, or that nobody will ever give back, in a multiset of
their own. A function is given references, and `Settles` says when it loses none of them.

The functions lose references when they give up, and a full buffer that could not be submitted is
written beyond its end by the next message. `Sys.Safe` excludes just these cases.
-/

namespace Rsyslog.Ratelimit

open Lib Multiset
open Option (toList_some toList_none bind_some elim_some bind_eq_bind)
open Multiset (add_cons singleton_add cons_add coe_nil coe_singleton cons_coe coe_add cons_swap)

variable {H : Type}

/-- All references are accounted for by the places that keep one, and by `L`. -/
def Owes (L : Multiset (Obj H)) (s : Sys H) : Prop :=
  (s.taken : Multiset (Obj H)) = ↑s.given + ↑s.queue + ↑(s.pMsg.toList.map Obj.msg) + L

/-- Every reference is in one of the places where messages are kept, or was given back. -/
def Balanced (s : Sys H) : Prop := Owes ↑s.ppMsgs s

/-- All references but those in `L` are accounted for, or else some were lost; and none was lost
exactly under the condition. -/
def Settles (cond : Prop) (L : Multiset (Obj H)) (s : Sys H) : Prop :=
  ∃ lost : Multiset (Obj H), Owes (lost + L) s ∧ (lost = 0 ↔ cond)

/-- A call is undefined, and the condition does not hold, or it settles what it was given. -/
def Resolves (cond : Prop) (L : Multiset (Obj H)) : Option (Sys H) → Prop
  | none => ¬cond
  | some s => Settles cond (Multiset.ofList s.ppMsgs + L) s

/-! ## Rules -/

variable {s' : Sys H}

section Rules

variable {L : Multiset (Obj H)} {s : Sys H} {o : Obj H} {P Q : Prop}

lemma Owes.of_zero_add (h : Owes (0 + L) s) : Owes L s := by rwa [zero_add] at h

lemma Owes.take (h : Owes L s) : Owes (o ::ₘ L) (s.take o) := by
  simp only [Owes, Sys.take] at h ⊢
  rw [← cons_coe, h, add_cons]

lemma Owes.msgDestruct (h : Owes (o ::ₘ L) s) : Owes L (s.msgDestruct o) := by
  simp only [Owes, Sys.msgDestruct] at h ⊢
  rw [h, add_cons, ← cons_coe, cons_add, cons_add, cons_add]

lemma Owes.store (h : Owes (o ::ₘ L) s) : Owes L { s with queue := s.queue ++ [o] } := by
  simp only [Owes] at h ⊢
  rw [h, ← coe_add, coe_singleton, ← singleton_add]
  abel

lemma Owes.letGo {last : H} (h : Owes L s) (hp : s.pMsg = some last) :
    Owes (.msg last ::ₘ L) { s with pMsg := none } := by
  simp only [Owes, hp, toList_some, toList_none, List.map_cons, List.map_nil, coe_singleton,
    coe_nil, ← singleton_add] at h ⊢
  rw [h]
  abel

lemma Owes.keep {h : H} (hs : Owes (.msg h ::ₘ L) s) (hp : s.pMsg = none) :
    Owes L { s with pMsg := some h } := by
  simp only [Owes, hp, toList_some, toList_none, List.map_cons, List.map_nil, coe_singleton,
    coe_nil, ← singleton_add] at hs ⊢
  rw [hs]
  abel

lemma Owes.settles (h : Owes L s) (hP : P) : Settles P L s :=
  ⟨0, by rwa [zero_add], iff_of_true rfl hP⟩

lemma Owes.settles_not (h : Owes (o ::ₘ L) s) (hP : ¬ P) : Settles P L s :=
  ⟨{o}, by rwa [singleton_add], iff_of_false (singleton_ne_zero o) hP⟩

lemma Settles.drop (h : Settles P (o ::ₘ L) s) (hQ : ¬ Q) : Settles Q L s := by
  obtain ⟨lost, hl, _⟩ := h
  rw [add_cons, ← cons_add] at hl
  exact ⟨o ::ₘ lost, hl, iff_of_false (cons_ne_zero) hQ⟩

lemma Settles.congr (h : Settles P L s) (hPQ : P ↔ Q) : Settles Q L s :=
  let ⟨lost, hl, hiff⟩ := h
  ⟨lost, hl, hiff.trans hPQ⟩

lemma Settles.bind {X Y : Multiset (Obj H)} (h : Settles P (X + L) s)
    (h' : ∀ L', Owes (X + L') s → Settles Q (Y + L') s') : Settles (P ∧ Q) (Y + L) s' := by
  obtain ⟨lost, hl, hP⟩ := h
  rw [add_left_comm] at hl
  obtain ⟨lost', hl', hQ⟩ := h' _ hl
  refine ⟨lost' + lost, by rwa [add_assoc, add_left_comm lost Y L], ?_⟩
  rw [add_eq_zero_iff_of_nonneg (zero_le _) (zero_le _), hP, hQ, and_comm]

lemma Settles.resolves {X : Multiset (Obj H)} {t : Option (Sys H)} (h : Settles P (X + L) s)
    (h' : ∀ L', Owes (X + L') s → Resolves Q L' t) : Resolves (P ∧ Q) L t := by
  cases t with
  | none =>
    obtain ⟨lost, hl, -⟩ := h
    rw [add_left_comm] at hl
    exact fun hPQ => h' _ hl hPQ.2
  | some s' => exact h.bind h'

lemma Resolves.congr {t : Option (Sys H)} (h : Resolves P L t) (hPQ : P ↔ Q) : Resolves Q L t := by
  cases t with
  | none => exact fun hQ => h (hPQ.mpr hQ)
  | some s => exact Settles.congr h hPQ

lemma Settles.andThen (h : Settles P L s) (h' : ∀ L', Owes L' s → Settles Q L' s') :
    Settles (P ∧ Q) L s' := by
  rw [← zero_add L] at h ⊢
  exact h.bind fun L' hL => by
    rw [zero_add]
    exact h' L' hL.of_zero_add

lemma Settles.pass (h : Settles P (o ::ₘ L) s) (h' : ∀ L', Owes (o ::ₘ L') s → Settles Q L' s') :
    Settles (P ∧ Q) L s' := by
  rw [← zero_add L]
  exact h.bind fun L' hL => by
    rw [zero_add]
    rw [singleton_add] at hL
    exact h' L' hL

lemma Settles.balanced_iff (h : Settles P (ofList s.ppMsgs) s) : Balanced s ↔ P := by
  obtain ⟨lost, hl, hiff⟩ := h
  rw [← hiff]
  constructor
  · intro hb
    have hsum := (show (s.taken : Multiset (Obj H)) = _ from hb).symm.trans hl
    rw [add_comm lost, ← add_assoc] at hsum
    exact left_eq_add.1 hsum
  · rintro rfl
    exact hl.of_zero_add

end Rules

/-! ## Enqueueing -/

section

variable {L : Multiset (Obj H)} {s : Sys H} {o : Obj H}

lemma doEnqSingleObj_settles (q : Queue) (h : Owes (o ::ₘ L) s) :
    Settles q.consumes L (doEnqSingleObj q o s).2 := by
  cases q with
  | nonDirect e =>
    have henq := enqueues_doEnqSingleObj e o s
    unfold Enqueues at henq
    split at henq
    next hc =>
      obtain ⟨-, henq | henq⟩ := henq <;> rw [henq]
      · exact h.msgDestruct.settles hc
      · exact h.store.settles hc
    next hc =>
      rw [henq.2]
      exact h.settles_not hc
  | direct sampledOut iRet =>
    simp only [doEnqSingleObj]
    split <;> exact h.msgDestruct.settles rfl

end

/-! ## Submitting -/

/-- All `n` segments from number `i` on are consumed, as far as they come to be. -/
def consumesSegments (segments : ℕ → Segment) : ℕ → ℕ → Bool
  | 0, _ => true
  | n + 1, i =>
    match segments i with
    | .noMemory => true
    | .submitted pQueue => pQueue.any Queue.consumes && consumesSegments segments n (i + 1)

variable (cfg : Cfg) (env : Submit)

def Submit.consumes (env : Submit) (cfg : Cfg) (len : ℕ) : Bool :=
  if cfg.maxLine < len ∧ cfg.oversizeMode = .split then
    consumesSegments env.segments (nSegments cfg.maxLine len) 0
  else env.pQueue.any Queue.consumes

variable {r : RsRet × Sys H}

section Submitting

variable {L : Multiset (Obj H)} {s : Sys H} {o : Obj H}

lemma enqMsg_settles (pQueue : Option Queue) (h : Owes (o ::ₘ L) s) :
    Settles (pQueue.any Queue.consumes) L (enqMsg pQueue o s) := by
  cases pQueue with
  | none => exact h.settles_not (by simp)
  | some q => exact doEnqSingleObj_settles q h

lemma splitOversizeMessage_settles (segments : ℕ → Segment) (n i : ℕ) (h : Owes L s) :
    Settles (consumesSegments segments n i) L (splitOversizeMessage segments o n i s) := by
  induction n generalizing i s L with
  | zero => exact h.settles rfl
  | succ n ih =>
    unfold splitOversizeMessage consumesSegments
    cases segments i with
    | noMemory => exact h.settles rfl
    | submitted pQueue =>
      refine ((enqMsg_settles pQueue h.take).andThen fun L' h' => ih (i + 1) h').congr ?_
      rw [Bool.and_eq_true]

lemma Owes.truncate [DecidableEq H] (h : Owes L s) : Owes L (s.truncate cfg o) := by
  cases o <;> exact h

lemma submitMsg2_settles [DecidableEq H] (h : Owes (o ::ₘ L) s) :
    Settles (env.consumes cfg (s.getRawMsgLen o)) L (submitMsg2 cfg env o s) := by
  have he : Owes (o ::ₘ L) { s with emitted := s.emitted ++ [o] } := h
  unfold Submit.consumes
  simp only [submitMsg2]
  split
  · obtain ⟨lost, hl, hiff⟩ := splitOversizeMessage_settles (o := o) env.segments
      (nSegments cfg.maxLine (s.getRawMsgLen o)) 0 he
    rw [add_cons] at hl
    exact ⟨lost, hl.msgDestruct, hiff⟩
  · exact enqMsg_settles env.pQueue (he.truncate cfg)

lemma multiEnqNonDirect_settles (enq : ℕ → Enq) (i : ℕ) (os : List (Obj H))
    (h : Owes (ofList os + L) s) :
    Settles (∀ j < os.length, (enq (i + j)).consumes) L
      (qqueueMultiEnqObjNonDirect enq i os s).2 := by
  induction os generalizing i s L with
  | nil => exact h.of_zero_add.settles (by simp)
  | cons o os ih =>
    rw [← cons_coe, cons_add] at h
    have hset := doEnqSingleObj_settles (.nonDirect (enq i)) h
    have hret := doEnqSingleObj_ret (enq i) o s
    simp only [forall_consumes_cons, qqueueMultiEnqObjNonDirect]
    split
    · next hstop =>
      have hc : ¬ (enq i).consumes := fun hc => (not_or.2 hstop) (hret.2 hc)
      obtain ⟨lost, hl, hlost⟩ := hset
      rw [← add_assoc] at hl
      refine ⟨_, hl, ?_⟩
      rw [add_eq_zero_iff_of_nonneg (zero_le _) (zero_le _), hlost]
      simp [Queue.consumes, hc]
    · rw [← zero_add L]
      refine hset.bind fun L' hL => ?_
      rw [zero_add]
      exact ih (i + 1) hL

lemma multiEnqDirect_settles (iRet : ℕ → RsRet) (i : ℕ) (os : List (Obj H))
    (h : Owes (ofList os + L) s) :
    Settles (∀ j, j + 1 < os.length → iRet (i + j) = .ok) L
      (qqueueMultiEnqObjDirect iRet i os s).2 := by
  induction os generalizing i s L with
  | nil => exact h.of_zero_add.settles (by simp)
  | cons o os ih =>
    rw [← cons_coe, cons_add] at h
    have h' := h.msgDestruct
    rw [qqueueMultiEnqObjDirect_cons]
    split
    · next hr =>
      refine ⟨_, h', ?_⟩
      rw [coe_eq_zero]
      constructor
      · rintro rfl j hlt
        exact absurd hlt (by simp)
      · intro hj
        by_contra hne
        exact hr (hj 0 (by simpa using List.length_pos_iff.2 hne))
    · next hr =>
      refine (ih (i + 1) h').congr ⟨fun hj j hlt => ?_, fun hj j hlt => ?_⟩
      · cases j with
        | zero => exact not_not.1 hr
        | succ j => simpa only [Nat.add_assoc, Nat.add_comm 1] using hj j (by simpa using hlt)
      · simpa only [Nat.add_assoc, Nat.add_comm 1] using hj (j + 1) (by simpa using hlt)

variable (q : Option MultiQueue)

lemma multiSubmitMsg2_settles (h : Owes (ofList s.ppMsgs + L) s) :
    Settles (keepsAll s.ppMsgs.length q) (ofList (multiSubmitMsg2 q s).2.ppMsgs + L)
      (multiSubmitMsg2 q s).2 := by
  have he : Owes (ofList s.ppMsgs + L) { s with emitted := s.emitted ++ s.ppMsgs } := h
  unfold multiSubmitMsg2
  by_cases hn : s.ppMsgs.length = 0
  · simp only [hn]
    match q with
    | none => exact h.settles trivial
    | some (.nonDirect enq) => exact h.settles (by simp [keepsAll])
    | some (.direct iRet) => exact h.settles (by simp [keepsAll])
  · simp only [if_neg hn]
    match q with
    | none => exact h.settles trivial
    | some (.nonDirect enq) =>
      have hset := multiEnqNonDirect_settles enq 0 s.ppMsgs he
      rw [coe_nil, zero_add]
      exact hset.congr (by simp [keepsAll])
    | some (.direct iRet) =>
      have hset := multiEnqDirect_settles iRet 0 s.ppMsgs he
      rw [coe_nil, zero_add]
      exact hset.congr (by simp [keepsAll])

/-- How many elements are in the buffer after one was added to `n`. -/
def fillAfter (q : Option MultiQueue) (n : ℕ) : ℕ :=
  if n + 1 = cfg.maxElem ∧ q.isSome then 0 else n + 1

lemma length_multiSubmitMsg2 (hn : 0 < s.ppMsgs.length) :
    (multiSubmitMsg2 q s).2.ppMsgs.length = if q.isSome then 0 else s.ppMsgs.length := by
  cases q <;> simp [multiSubmitMsg2, Nat.pos_iff_ne_zero.1 hn]

lemma heap_multiSubmitMsg2 : (multiSubmitMsg2 q s).2.heap = s.heap := by
  unfold multiSubmitMsg2
  split
  · rfl
  · cases q with
    | none => rfl
    | some q =>
      obtain ⟨_, _, _, h⟩ := moves_multiEnq q s.ppMsgs { s with emitted := s.emitted ++ s.ppMsgs }
      simp only [h]

lemma addElem_fill {cfg : Cfg} {q : Option MultiQueue} (hr : addElem cfg q o s = some r) :
    s.ppMsgs.length < cfg.maxElem ∧ r.2.ppMsgs.length = fillAfter cfg q s.ppMsgs.length ∧
      (r.1 = .ok ↔ (s.ppMsgs.length + 1 = cfg.maxElem → returnsOk (s.ppMsgs.length + 1) q)) ∧
      r.2.heap = s.heap := by
  unfold addElem at hr
  split at hr
  case isFalse => contradiction
  next hroom =>
  rw [Option.some.injEq] at hr
  subst hr
  refine ⟨hroom, ?_⟩
  simp only [List.length_append, List.length_singleton, fillAfter]
  split
  · next hfull =>
    refine ⟨?_, (multiSubmitMsg2_ret q _).trans (by simp [hfull]), heap_multiSubmitMsg2 q⟩
    rw [length_multiSubmitMsg2 q (by simp)]
    simp [hfull]
  · next hnot => simp [hnot]

lemma addElem_settles {cfg : Cfg} {q : Option MultiQueue}
    (h : Owes (o ::ₘ (ofList s.ppMsgs + L)) s) (hr : addElem cfg q o s = some r) :
    Settles (s.ppMsgs.length + 1 = cfg.maxElem → keepsAll (s.ppMsgs.length + 1) q)
      (ofList r.2.ppMsgs + L) r.2 := by
  unfold addElem at hr
  split at hr
  case isFalse => contradiction
  set s' := { s with ppMsgs := s.ppMsgs ++ [o] } with hs'
  have hlen : s'.ppMsgs.length = s.ppMsgs.length + 1 := by simp [hs']
  have hO : Owes (ofList s'.ppMsgs + L) s' := by
    have hadd : ofList s'.ppMsgs = o ::ₘ ofList s.ppMsgs := by
      rw [← coe_add, coe_singleton, add_comm, singleton_add]
    rw [hadd, cons_add]
    exact h
  simp only [hlen, Option.some.injEq] at hr
  subst hr
  split
  · next hfull =>
    have hset := multiSubmitMsg2_settles q hO
    rw [hlen] at hset
    exact hset.congr (by simp [hfull])
  · next hroom => exact hO.settles (absurd · hroom)

end Submitting

/-! ## The ratelimiter -/

def Sys.repeats (c : Offer H) (s : Sys H) : Prop :=
  cfg.bReduceRepeatMsgs ∧ ∃ last ∈ s.pMsg, sameMsg (s.heap c.pMsg) (s.heap last)

def Sys.passes (c : Offer H) (s : Sys H) : Prop :=
  ¬ s.unparsed cfg c ∧ ¬ (s.limits cfg c ∧ ¬ (s.within c).2.1) ∧ ¬ s.repeats cfg c

def Sys.report (c : Offer H) (s : Sys H) : Option (Obj H) :=
  if cfg.bReduceRepeatMsgs ∧ 0 < s.nsupp then
    s.pMsg.bind fun last => ratelimitGenRepMsg c.memory s.nsupp last
  else none

section Ratelimiter

variable {L : Multiset (Obj H)} {s : Sys H}

lemma Owes.takeRep (h : Owes L s) (rep : Option (Obj H)) :
    Owes (ofList rep.toList + L) (s.takeRep rep) := by
  cases rep with
  | none =>
    change Owes (0 + L) s
    rwa [zero_add]
  | some o => exact h.take

lemma Owes.swap {last h : H} (hO : Owes (.msg h ::ₘ L) s) (hp : s.pMsg = some last) :
    Owes L { s.msgDestruct (.msg last) with pMsg := some h } :=
  Owes.keep (s := { s with pMsg := none }.msgDestruct (.msg last)) (hO.letGo hp).msgDestruct rfl

lemma doLast_new (memory : Bool) {h : H} (hO : Owes (.msg h ::ₘ L) s)
    (hnew : ¬ ∃ last ∈ s.pMsg, sameMsg (s.heap h) (s.heap last)) :
    ∃ rep s', doLastMessageRepeatedNTimes memory h s = (.ok, rep, s') ∧
      rep = (if 0 < s.nsupp then
        s.pMsg.bind fun last => ratelimitGenRepMsg memory s.nsupp last else none) ∧
      Owes (.msg h ::ₘ (ofList rep.toList + L)) s' ∧
      s'.heap = s.heap ∧ s'.ppMsgs = s.ppMsgs := by
  cases hp : s.pMsg with
  | none =>
    simp only [doLastMessageRepeatedNTimes, hp]
    refine ⟨none, _, rfl, by simp, ?_, rfl, rfl⟩
    rw [toList_none, coe_nil, zero_add]
    exact Owes.keep (s := s.take (.msg h)) hO.take hp
  | some last =>
    have hdiff : ¬ sameMsg (s.heap h) (s.heap last) := fun hs => hnew ⟨last, hp, hs⟩
    simp only [doLastMessageRepeatedNTimes, hp, if_neg hdiff, bind_some]
    set rep := if 0 < s.nsupp then ratelimitGenRepMsg memory s.nsupp last else none
    obtain ⟨queue, taken, given, hm⟩ := moves_takeRep rep s
    refine ⟨rep, _, rfl, rfl, ?_, by simp [hm, Sys.take, Sys.msgDestruct],
      by simp [hm, Sys.take, Sys.msgDestruct]⟩
    have hrep := hO.takeRep rep
    rw [add_cons] at hrep
    have hp' : (s.takeRep rep).pMsg = some last := by rw [hm]; exact hp
    exact Owes.swap (s := (s.takeRep rep).take (.msg h)) hrep.take hp'

lemma ratelimitMsg_owes (c : Offer H) (hO : Owes (.msg c.pMsg ::ₘ L) s) :
    ∃ r rep s', ratelimitMsg cfg c s = (r, rep, s') ∧ s'.heap = s.heap ∧ s'.ppMsgs = s.ppMsgs ∧
      (s.passes cfg c → r = .ok ∧ rep = s.report cfg c ∧
        Owes (.msg c.pMsg ::ₘ (ofList rep.toList + L)) s') ∧
      (¬ s.passes cfg c → r ≠ .ok ∧ rep = none ∧ Settles (¬ s.unparsed cfg c) L s') := by
  unfold ratelimitMsg
  by_cases hu : s.unparsed cfg c
  · rw [if_pos hu]
    exact ⟨_, _, _, rfl, rfl, rfl, fun h => absurd hu h.1,
      fun _ => ⟨nofun, rfl, hO.settles_not (not_not.2 hu)⟩⟩
  rw [if_neg hu]
  by_cases hl : s.limits cfg c ∧ ¬ (s.within c).2.1
  · rw [if_pos hl]
    refine ⟨_, _, _, rfl, rfl, rfl, fun h => absurd hl h.2.1, fun _ => ⟨nofun, rfl, ?_⟩⟩
    exact (Owes.msgDestruct (s := { s with rl := (s.within c).1 }) hO).settles hu
  rw [if_neg hl]
  -- the rate limiter's own state has no part in what follows
  obtain ⟨rl, hrl⟩ : ∃ rl, (if s.limits cfg c then { s with rl := (s.within c).1 } else s) =
      { s with rl := rl } := by
    split <;> exact ⟨_, rfl⟩
  have hO' : Owes (.msg c.pMsg ::ₘ L) { s with rl := rl } := hO
  simp only [hrl]
  by_cases hb : cfg.bReduceRepeatMsgs
  · rw [if_pos hb]
    by_cases hrep : ∃ last ∈ s.pMsg, sameMsg (s.heap c.pMsg) (s.heap last)
    · obtain ⟨last, hp, hsame⟩ := hrep
      simp only [doLastMessageRepeatedNTimes, Option.mem_def.mp hp, if_pos hsame]
      exact ⟨_, _, _, rfl, rfl, rfl, fun h => absurd ⟨hb, last, hp, hsame⟩ h.2.2,
        fun _ => ⟨nofun, rfl, (hO'.swap hp).settles hu⟩⟩
    · obtain ⟨rep, s', he, hr, hs', hheap, hpp⟩ := doLast_new c.memory hO' hrep
      refine ⟨_, rep, s', he, hheap, hpp, fun _ => ⟨rfl, ?_, hs'⟩,
        fun h => absurd ⟨hu, hl, fun h => hrep h.2⟩ h⟩
      rw [hr, Sys.report]
      simp [hb]
  · rw [if_neg hb]
    refine ⟨_, _, _, rfl, rfl, rfl, fun _ => ⟨rfl, ?_, ?_⟩,
      fun h => absurd ⟨hu, hl, fun h => hb h.1⟩ h⟩
    · simp [Sys.report, hb]
    · rw [toList_none, coe_nil, zero_add]
      exact hO'

end Ratelimiter

/-! ## Calls -/

def Sys.SafeSingle (c : Offer H) (s : Sys H) : Prop :=
  (∀ o ∈ s.report cfg c, c.submitRep.consumes cfg (s.getRawMsgLen o)) ∧
    c.submit.consumes cfg (s.heap c.pMsg).iLenRawMsg

/-- No reference is lost when the message is added to a buffer with `n` elements. -/
def Sys.SafeElem (c : Offer H) (s : Sys H) (n : ℕ) : Prop :=
  if cfg.maxLine < (s.heap c.pMsg).iLenRawMsg then
    returnsOk n c.multiOversize ∧ c.submit.consumes cfg (s.heap c.pMsg).iLenRawMsg
  else n < cfg.maxElem ∧ (n + 1 = cfg.maxElem → keepsAll (n + 1) c.multi)

def Sys.SafeMulti (c : Offer H) (s : Sys H) : Prop :=
  let n := s.ppMsgs.length
  if (s.report cfg c).isSome then
    n < cfg.maxElem ∧ (n + 1 = cfg.maxElem → returnsOk (n + 1) c.multiRep) ∧
      s.SafeElem cfg c (fillAfter cfg c.multiRep n)
  else s.SafeElem cfg c n

/-- No reference is lost in a call: the message can be parsed if it has to be, and if it is handed
on then there is a queue that consumes it, and a buffer with room. -/
def Sys.Safe (s : Sys H) : Event H → Prop
  | .add c => ¬ s.unparsed cfg c ∧
      (s.passes cfg c → if c.bMultiSub then s.SafeMulti cfg c else s.SafeSingle cfg c)
  | .flush pQueue => keepsAll s.ppMsgs.length pQueue

section Calls

variable [DecidableEq H] {L : Multiset (Obj H)} {s : Sys H} {cfg : Cfg} {c : Offer H}

lemma ppMsgs_submitMsg2 (o : Obj H) : (submitMsg2 cfg env o s).ppMsgs = s.ppMsgs := by
  obtain ⟨_, _, _, h⟩ := moves_submitMsg2 cfg env o s
  rw [h]
  cases o <;> rfl

lemma consumes_submitMsg2 (env env' : Submit) (o : Obj H) (h : H) :
    env.consumes cfg ((submitMsg2 cfg env' o s).heap h).iLenRawMsg =
      env.consumes cfg (s.heap h).iLenRawMsg := by
  by_cases hm : cfg.oversizeMode = .split
  · obtain ⟨_, _, _, hs⟩ := moves_submitMsg2 cfg env' o s
    rw [hs, truncate_of_split hm]
  · simp [Submit.consumes, hm]

lemma addToMultiSub_resolves (h : Owes (.msg c.pMsg ::ₘ (ofList s.ppMsgs + L)) s) :
    Resolves (s.SafeElem cfg c s.ppMsgs.length) L ((addToMultiSub cfg c s).map Prod.snd) := by
  unfold addToMultiSub Sys.SafeElem
  by_cases hover : cfg.maxLine < (s.heap c.pMsg).iLenRawMsg
  · rw [← add_cons] at h
    have hset := multiSubmitMsg2_settles c.multiOversize h
    have hret := multiSubmitMsg2_ret c.multiOversize s
    have hflush := multiSubmitFlush_eq c.multiOversize s
    unfold multiSubmitFlush at hflush
    simp only [hflush, if_pos hover]
    rw [add_cons] at hset
    by_cases hok : (multiSubmitMsg2 c.multiOversize s).1 = .ok
    · rw [if_neg (not_not.2 hok), Option.map_some, Resolves, ppMsgs_submitMsg2]
      have hret := hret.1 hok
      refine (hset.pass fun L' hL => submitMsg2_settles cfg c.submit hL).congr
        (and_congr (iff_of_true hret.keepsAll hret) ?_)
      rw [Sys.getRawMsgLen, heap_multiSubmitMsg2]
    · rw [if_pos hok]
      exact hset.drop fun h => hok (hret.2 h.1)
  · simp only [if_neg hover]
    cases hr : addElem cfg c.multi (.msg c.pMsg) s with
    | none => exact fun hroom => by simp [addElem, hroom.1] at hr
    | some r => exact (addElem_settles h hr).congr (by simp [(addElem_fill hr).1])

omit [DecidableEq H] in
lemma getRawMsgLen_congr (hheap : s'.heap = s.heap) (o : Obj H) :
    s'.getRawMsgLen o = s.getRawMsgLen o := by
  cases o <;> simp [Sys.getRawMsgLen, hheap]

lemma addSingle_settles {rep : Option (Obj H)} (hrep : rep = s.report cfg c)
    (hheap : s'.heap = s.heap) (h : Owes (.msg c.pMsg ::ₘ (ofList rep.toList + L)) s') :
    Settles (s.SafeSingle cfg c) L (addSingle cfg c .ok rep s').2 ∧
      (addSingle cfg c .ok rep s').2.ppMsgs = s'.ppMsgs := by
  simp only [addSingle, ne_eq, not_true_eq_false, if_false]
  unfold Sys.SafeSingle
  rw [← hrep]
  cases rep with
  | none =>
    rw [toList_none, coe_nil, zero_add] at h
    refine ⟨(submitMsg2_settles cfg c.submit h).congr ?_, ppMsgs_submitMsg2 _ _⟩
    rw [getRawMsgLen_congr hheap]
    simp [Sys.getRawMsgLen]
  | some o =>
    rw [toList_some, coe_singleton, singleton_add, cons_swap] at h
    have hset := submitMsg2_settles cfg c.submitRep h
    refine ⟨(hset.pass fun L' hL => submitMsg2_settles cfg c.submit hL).congr ?_, ?_⟩
    · rw [getRawMsgLen_congr hheap, Sys.getRawMsgLen, consumes_submitMsg2, hheap]
      simp
    · rw [ppMsgs_submitMsg2, elim_some, ppMsgs_submitMsg2]

omit [DecidableEq H] in
lemma safeElem_congr (hheap : s'.heap = s.heap) (n : ℕ) :
    s'.SafeElem cfg c n ↔ s.SafeElem cfg c n := by
  unfold Sys.SafeElem
  rw [hheap]

lemma addMulti_resolves {rep : Option (Obj H)} (hrep : rep = s.report cfg c)
    (hheap : s'.heap = s.heap) (hpp : s'.ppMsgs = s.ppMsgs)
    (h : Owes (.msg c.pMsg ::ₘ (ofList rep.toList + (ofList s.ppMsgs + L))) s') :
    Resolves (s.SafeMulti cfg c) L ((addMulti cfg c .ok rep s').map Prod.snd) := by
  simp only [addMulti, ne_eq, not_true_eq_false, if_false, Sys.SafeMulti]
  rw [← hrep]
  cases rep with
  | none =>
    rw [toList_none, coe_nil, zero_add, ← hpp] at h
    refine (addToMultiSub_resolves h).congr ?_
    rw [safeElem_congr hheap, hpp]
    simp
  | some o =>
    rw [toList_some, coe_singleton, singleton_add, cons_swap,
      ← add_cons, ← hpp] at h
    rw [elim_some, bind_eq_bind]
    cases hr : addElem cfg c.multiRep o s' with
    | none => exact fun hmulti => by simp [addElem, hpp, hmulti.1] at hr
    | some r =>
      have hset := addElem_settles h hr
      obtain ⟨hroom, hfill, hret, hheap'⟩ := addElem_fill hr
      rw [hpp] at hset hret hroom hfill
      rw [add_cons] at hset
      rw [bind_some]
      by_cases hok : r.1 = .ok
      · rw [if_neg (not_not.2 hok)]
        rw [← cons_add] at hset
        refine (hset.resolves fun L' hL =>
          addToMultiSub_resolves (by rwa [cons_add] at hL)).congr ?_
        have hret := hret.1 hok
        rw [safeElem_congr (hheap'.trans hheap), hfill]
        simp only [Option.isSome_some, if_true, hroom, true_and]
        exact and_congr (iff_of_true (fun hfull => (hret hfull).keepsAll) hret) Iff.rfl
      · rw [if_pos hok]
        exact hset.drop fun h => hok (hret.2 h.2.1)

lemma add_resolves (h : Owes (.msg c.pMsg ::ₘ (ofList s.ppMsgs + L)) s) :
    Resolves (s.Safe cfg (.add c)) L ((ratelimitAddMsg cfg c s).map Prod.snd) := by
  obtain ⟨localRet, rep, s', he, hheap, hpp, hpass, hstop⟩ := ratelimitMsg_owes cfg c h
  simp only [ratelimitAddMsg, he]
  by_cases hp : s.passes cfg c
  · obtain ⟨rfl, hrep, hO⟩ := hpass hp
    have hsafe : s.Safe cfg (.add c) ↔
        if c.bMultiSub then s.SafeMulti cfg c else s.SafeSingle cfg c := by
      exact ⟨fun h => h.2 hp, fun h => ⟨hp.1, fun _ => h⟩⟩
    split
    · next hm => exact (addMulti_resolves hrep hheap hpp hO).congr (by rw [hsafe, if_pos hm])
    · next hm =>
      obtain ⟨hset, hpp'⟩ := addSingle_settles hrep hheap hO
      rw [Option.map_some, Resolves, hpp', hpp]
      exact hset.congr (by rw [hsafe, if_neg hm])
  · obtain ⟨hne, rfl, hset⟩ := hstop hp
    have hend : (if c.bMultiSub then addMulti cfg c localRet none s'
        else some (addSingle cfg c localRet none s')) = some (localRet, s') := by
      split <;> simp [addMulti, addSingle, hne]
    rw [hend, Option.map_some, Resolves, hpp]
    exact hset.congr ⟨fun hu => ⟨hu, fun h => absurd h hp⟩, fun hs => hs.1⟩

/-! ## Runs -/

lemma step_resolves (e : Event H) (h : Owes (ofList s.ppMsgs + L) s) :
    Resolves (s.Safe cfg e) L (step cfg s e) := by
  cases e with
  | add c => exact add_resolves (s := s.take (.msg c.pMsg)) h.take
  | flush q =>
    rw [step, multiSubmitFlush_eq]
    exact multiSubmitMsg2_settles q h

lemma run_resolves (events : List (Event H)) (h : Owes (ofList s.ppMsgs + L) s) :
    Resolves (Along (step cfg) (Sys.Safe cfg) s events) L (run (step cfg) s events) := by
  induction events generalizing s L with
  | nil => exact h.settles trivial
  | cons e events ih =>
    have hstep : Resolves _ L (step cfg s e) := step_resolves e h
    rw [run_cons]
    cases h₁ : step cfg s e with
    | none =>
      rw [h₁] at hstep
      exact fun hsafe => hstep hsafe.1
    | some s₁ =>
      rw [h₁] at hstep
      exact (Settles.resolves hstep fun L' hL => ih hL).congr (by simp [Along, h₁])

/-- Every message that is offered, and every object that the functions make, is stored in the queue,
held as the repeat candidate, held in the multi-submit buffer or destructed, exactly if every call
is safe in its state. -/
theorem run_balanced_iff (cfg : Cfg) (s : Sys H) (hs : Balanced s) (events : List (Event H)) :
    (∃ s', run (step cfg) s events = some s' ∧ Balanced s') ↔
      Along (step cfg) (Sys.Safe cfg) s events := by
  have h : Owes (ofList s.ppMsgs + 0) s := by rw [add_zero]; exact hs
  have hrun : Resolves _ 0 (run (step cfg) s events) := run_resolves events h
  cases hr : run (step cfg) s events with
  | none =>
    rw [hr] at hrun
    exact iff_of_false nofun hrun
  | some s' =>
    rw [hr, Resolves, add_zero] at hrun
    simpa using hrun.balanced_iff

instance (s : Sys H) : Decidable (Balanced s) := inferInstanceAs (Decidable (_ = _))

instance (o : Option (Sys H)) : Decidable (∃ s', o = some s' ∧ Balanced s') :=
  match o with
  | none => isFalse nofun
  | some s => decidable_of_iff (Balanced s) (by simp)

end Calls

/-! ## References that are lost -/

/-- A ratelimiter that limits nothing, and two messages of which the second has to be parsed. -/
def start : Sys ℕ where
  heap h := ⟨ascii "text", ascii "host", [], ascii "app", 20, 6, 0, h = 1⟩
  rl := ⟨ascii "limiter", 0, 0, 0, 0, 0, false⟩
  pMsg := none
  nsupp := 0
  ppMsgs := []
  queue := []
  taken := []
  given := []
  emitted := []

def offer (h : ℕ) (bMultiSub : Bool) (parsed : Bool) (q : Option Queue)
    (multi : Option MultiQueue) : Event ℕ :=
  .add ⟨h, bMultiSub, parsed, 0, true, ⟨q, fun _ => .submitted q⟩, ⟨q, fun _ => .submitted q⟩,
    multi, multi, multi⟩

def storing : Enq := ⟨false, [], false, .stored⟩

theorem run_balanced_stored :
    ∃ s', run (step ⟨true, 0, 100, .accept, 2⟩) start
      [offer 0 false true (some (.nonDirect storing)) none] = some s' ∧ Balanced s' :=
  (run_balanced_iff _ start (by decide) _).2
    ⟨⟨by decide, fun _ => show Sys.SafeSingle _ _ start from ⟨by decide, by decide⟩⟩,
      fun _ _ => trivial⟩

/-- A reference is lost when a message cannot be parsed, without a queue, when a full queue gives up
on termination, and when storing the first of two messages of a buffer fails. -/
theorem run_not_balanced :
    (¬ ∃ s', run (step ⟨true, 0, 100, .accept, 2⟩) start
      [offer 1 false false (some (.nonDirect storing)) none] = some s' ∧ Balanced s') ∧
    (¬ ∃ s', run (step ⟨false, 0, 100, .accept, 2⟩) start
      [offer 0 false true none none] = some s' ∧ Balanced s') ∧
    (¬ ∃ s', run (step ⟨false, 0, 100, .accept, 2⟩) start
      [offer 0 false true (some (.nonDirect { storing with full := [.inputTerm] })) none] =
        some s' ∧ Balanced s') ∧
    ¬ ∃ s', run (step ⟨false, 0, 100, .accept, 2⟩) start
      [offer 0 true true none (some (.nonDirect fun _ => storing)),
        offer 1 true true none (some (.nonDirect fun i =>
          if i = 0 then { storing with qAdd := .failed } else storing))] = some s' ∧
      Balanced s' := by
  decide +kernel

end Rsyslog.Ratelimit
