import Mathlib.Data.List.TakeWhile
import Rsyslog.Lib.Group
import Rsyslog.Lib.Run
import Rsyslog.Ratelimit.Submit

/-!
# Repeated messages

With the reduction of repeated messages on, the ratelimiter hands on the first message of a run of
equal messages, keeps the last one as its candidate, and counts. The next different message, or the
end, makes it hand on what `describe` says: the candidate itself after one repetition, and a report
after more.

Two things stand in the way. The candidate may be the message that was just submitted, and then it
is cut off where `submitMsg2` truncates it: it is compared as it is now, not as it came, and with
`strcmp`. So the ratelimiter may make other groups of the messages than runs of equal ones. And the
counter is unsigned but printed with `%d`.
-/

namespace Rsyslog.Ratelimit

open Lib List Option

variable {H : Type}

def Sys.handed (s : Sys H) : List (Obj H) := s.emitted ++ s.ppMsgs

/-- What a run of equal messages is to be handed on as: its first message, and then nothing, the
last message, or the report how often it was repeated. -/
def describe : List H → List (Obj H)
  | [] => []
  | [a] => [.msg a]
  | [a, b] => [.msg a, .msg b]
  | a :: _ :: c :: rest =>
    [.msg a, .rep (rest.length + 2) ((c :: rest).getLast (cons_ne_nil c rest))]

def equalMsg (m m' : Msg) : Bool :=
  m.msg == m'.msg && m.hostname == m'.hostname && m.procid == m'.procid && m.appname == m'.appname

def runs (heap : H → Msg) (hs : List H) : List (List H) :=
  hs.splitBy fun a b => equalMsg (heap b) (heap a)

/-- The groups that the ratelimiter makes: messages are compared with `strcmp`, and one that was
handed on is compared as `submitMsg2` leaves it. -/
def grouped (cfg : Cfg) (heap : H → Msg) (hs : List H) : List (List H) :=
  groups sameMsg (fun h => cfg.submitted (heap h)) heap hs

def flushed (g : List H) : List (Obj H) :=
  let nsupp := UInt32.ofNat (g.length - 1)
  if 0 < nsupp then (g.getLast?.bind (ratelimitGenRepMsg true nsupp)).toList else []

def emits (g : List H) : List (Obj H) := (g.head?.map .msg).toList ++ flushed g

/-! ## What groups look like when they are handed on -/

section

lemma emits_singleton (a : H) : emits [a] = [.msg a] := rfl

lemma toInt32_toInt_eq_iff {n : ℕ} : (UInt32.ofNat n).toInt32.toInt = (n : ℤ) ↔ n < 2 ^ 31 := by
  have h : (UInt32.ofNat n).toInt32.toInt = Int.bmod n (2 ^ 32) := by
    change (BitVec.ofNat 32 n).toInt = _
    rw [BitVec.toInt_eq_toNat_bmod, BitVec.toNat_ofNat, Int.natCast_mod, Int.emod_bmod]
  rw [h, Int.bmod_def]
  split <;> omega

lemma emits_long (a b c : H) (r : List H) :
    emits (a :: b :: c :: r) = .msg a ::
      let nsupp := UInt32.ofNat (r.length + 2)
      let last := (c :: r).getLast (cons_ne_nil c r)
      if 0 < nsupp then [if nsupp = 1 then .msg last else .rep nsupp.toInt32.toInt last]
      else [] := by
  have hlast : (a :: b :: c :: r).getLast? = some ((c :: r).getLast (cons_ne_nil c r)) := by
    rw [getLast?_cons_cons, getLast?_cons_cons, getLast?_eq_getLast_of_ne_nil]
  have hlen : (a :: b :: c :: r).length - 1 = r.length + 2 := rfl
  simp only [emits, flushed, hlast, hlen, bind_some, ratelimitGenRepMsg]
  split_ifs <;> rfl

lemma emits_eq_describe {g : List H} (hg : g.length ≤ 2 ^ 31) : emits g = describe g := by
  match g with
  | [] => rfl
  | [a] => rfl
  | [a, b] => rfl
  | a :: b :: c :: r =>
    simp only [length_cons] at hg
    have hnat : (UInt32.ofNat (r.length + 2)).toNat = r.length + 2 :=
      Nat.mod_eq_of_lt (by omega)
    have hpos : 0 < UInt32.ofNat (r.length + 2) := by
      rw [UInt32.lt_iff_toNat_lt, hnat]
      exact Nat.zero_lt_succ _
    have hone : UInt32.ofNat (r.length + 2) ≠ 1 := by
      rw [ne_eq, ← UInt32.toNat_inj, hnat]
      simp
    rw [emits_long, if_pos hpos, if_neg hone, toInt32_toInt_eq_iff.2 (by omega)]
    rfl

lemma head_flatMap {f : List H → List (Obj H)} (hf : ∀ a g, (f (a :: g)).head? = some (.msg a))
    {gs : List (List H)} (hne : [] ∉ gs) : (gs.flatMap f).head? = (gs.flatten.head?).map .msg := by
  match gs, hne with
  | [], _ => rfl
  | [] :: gs, hne => simp at hne
  | (a :: g) :: gs, _ => simp [hf]

lemma head_describe (a : H) (g : List H) : (describe (a :: g)).head? = some (.msg a) := by
  match g with
  | [] | [_] | _ :: _ :: _ => rfl

lemma eq_of_getLast_eq {g g' : List H} {t t' : List H} (h : g ++ t = g' ++ t')
    (hnd : (g ++ t).Nodup) (hg : g ≠ []) (hg' : g' ≠ [])
    (hlast : g.getLast hg = g'.getLast hg') : g = g' := by
  have hpos := length_pos_iff.2 hg
  have hpos' := length_pos_iff.2 hg'
  have hi : (g ++ t)[g.length - 1]? = some (g.getLast hg) := by
    rw [getElem?_append_left (by omega), ← getLast?_eq_getElem?,
      getLast?_eq_getLast_of_ne_nil hg]
  have hi' : (g ++ t)[g'.length - 1]? = some (g.getLast hg) := by
    rw [h, getElem?_append_left (by omega), ← getLast?_eq_getElem?,
      getLast?_eq_getLast_of_ne_nil hg', hlast]
  have hlen : g.length - 1 = g'.length - 1 :=
    (getElem?_inj (by rw [length_append]; omega) hnd).1 (hi.trans hi'.symm)
  exact append_inj_left h (by omega)

lemma group_eq {p q : List H} {P Q : List (List H)} (hp : p.length = 1 ∨ 2 < p.length)
    (hq : q.length = 1 ∨ 2 < q.length) (hP : [] ∉ P) (hQ : [] ∉ Q)
    (hflat : p ++ P.flatten = q ++ Q.flatten) (hnd : (p ++ P.flatten).Nodup)
    (h : emits p ++ P.flatMap emits = describe q ++ Q.flatMap describe) :
    p = q ∧ q.length ≤ 2 ^ 31 := by
  have hhead := head_flatMap (f := emits) (fun _ _ => rfl) hP
  -- what follows a group is a message and no report
  have hnorep (n : ℤ) (x : H) (xs : List (Obj H)) : P.flatMap emits ≠ .rep n x :: xs := by
    intro he
    rw [he] at hhead
    cases hf : P.flatten.head? with
    | none | some y => simp [hf] at hhead
  match p, q, hp, hq with
  | [a], [a'], _, _ => simp_all
  | [a], a' :: b' :: c' :: r', _, _ =>
    simp only [emits_singleton, describe, cons_append, nil_append, List.cons.injEq] at h
    exact absurd h.2 (hnorep _ _ _)
  | a :: b :: c :: r, [a'], _, _ =>
    simp only [cons_append, nil_append, List.cons.injEq] at hflat
    have hb : (Q.flatMap describe).head? = some (.msg b) := by
      rw [head_flatMap head_describe hQ, ← hflat.2]
      rfl
    have hnot : b ∉ c :: r ++ P.flatten := (nodup_cons.1 (nodup_cons.1 hnd).2).1
    rw [mem_append, not_or] at hnot
    simp only [emits_long, describe, cons_append, nil_append, List.cons.injEq] at h
    rw [← h.2] at hb
    split_ifs at hb
    · have hlast := getLast_mem (cons_ne_nil c r)
      have heq : (c :: r).getLast (cons_ne_nil c r) = b := by simpa using hb
      exact absurd (heq ▸ hlast) hnot.1
    · simp at hb
    · rw [nil_append, hhead, map_eq_some_iff] at hb
      obtain ⟨x, hx, hxb⟩ := hb
      obtain rfl : x = b := by simpa using hxb
      exact absurd (mem_of_mem_head? hx) hnot.2
  | a :: b :: c :: r, a' :: b' :: c' :: r', _, _ =>
    simp only [emits_long] at h
    split_ifs at h <;> simp only [describe, cons_append, nil_append, List.cons.injEq] at h
    · exact absurd h.2.1 nofun
    · obtain ⟨-, hrep, -⟩ := h
      obtain ⟨hn, hlast⟩ := Obj.rep.inj hrep
      have heq : a :: b :: c :: r = a' :: b' :: c' :: r' :=
        eq_of_getLast_eq hflat hnd (by simp) (by simp) (by simpa using hlast)
      refine ⟨heq, ?_⟩
      obtain ⟨rfl, rfl, rfl, rfl⟩ := heq
      have hlt := (toInt32_toInt_eq_iff (n := r.length + 2)).1 (by simpa using hn)
      simp only [length_cons]
      omega
    · exact absurd h.2 (hnorep _ _ _)

/-- Groups of one or of more than two messages are handed on as runs are to be described only if
they are these runs, and the counter does not exceed what an `int` can hold. -/
lemma flatMap_emits_eq_iff {P Q : List (List H)}
    (hP : ∀ g ∈ P, g.length = 1 ∨ 2 < g.length) (hQ : ∀ g ∈ Q, g.length = 1 ∨ 2 < g.length)
    (hflat : P.flatten = Q.flatten) (hnd : P.flatten.Nodup) :
    P.flatMap emits = Q.flatMap describe ↔ P = Q ∧ ∀ g ∈ Q, g.length ≤ 2 ^ 31 := by
  have hne {R : List (List H)} (hR : ∀ g ∈ R, g.length = 1 ∨ 2 < g.length) : [] ∉ R :=
    fun h => by simpa using hR [] h
  constructor
  · induction P generalizing Q with
    | nil =>
      cases Q with
      | nil => simp
      | cons q Q => simp_all
    | cons p P ih =>
      intro h
      cases Q with
      | nil => simp_all
      | cons q Q =>
        simp only [flatMap_cons, flatten_cons] at h hflat hnd
        rw [forall_mem_cons] at hP hQ
        obtain ⟨rfl, hlen⟩ := group_eq hP.1 hQ.1 (hne hP.2) (hne hQ.2) hflat hnd h
        rw [emits_eq_describe hlen, append_cancel_left_eq] at h
        obtain ⟨rfl, hrest⟩ := ih hP.2 hQ.2 (append_cancel_left hflat) (nodup_append.1 hnd).2.1 h
        exact ⟨rfl, forall_mem_cons.2 ⟨hlen, hrest⟩⟩
  · rintro ⟨rfl, hlen⟩
    exact List.flatMap_congr fun g hg => emits_eq_describe (hlen g hg)

end

/-! ## Handing on -/

/-- The queue exists and takes the elements of a buffer without an error. -/
def Accepts (q : Option MultiQueue) : Prop := q.isSome ∧ ∀ n, returnsOk n q

def Sys.Room (cfg : Cfg) (bMultiSub : Bool) (s : Sys H) : Prop :=
  if bMultiSub then s.ppMsgs.length < cfg.maxElem else s.ppMsgs = []

/-- Some objects are handed on, and the ratelimiter is left as it is. Messages may be truncated. -/
structure Hands (s : Sys H) (os : List (Obj H)) (s' : Sys H) : Prop where
  handed : s'.handed = s.handed ++ os
  pMsg : s'.pMsg = s.pMsg
  nsupp : s'.nsupp = s.nsupp
  rl : s'.rl = s.rl
  heap : ∀ h, .msg h ∉ os → s'.heap h = s.heap h

lemma Hands.trans {s s' s'' : Sys H} {os os' : List (Obj H)} (h : Hands s os s')
    (h' : Hands s' os' s'') : Hands s (os ++ os') s'' where
  handed := by rw [h'.handed, h.handed, append_assoc]
  pMsg := h'.pMsg.trans h.pMsg
  nsupp := h'.nsupp.trans h.nsupp
  rl := h'.rl.trans h.rl
  heap x hx := by
    rw [mem_append, not_or] at hx
    rw [h'.heap x hx.2, h.heap x hx.1]

variable {q : Option MultiQueue}

lemma multiSubmitMsg2_hands (hq : Accepts q) (s : Sys H) :
    ∃ s', multiSubmitMsg2 q s = (.ok, s') ∧ Hands s [] s' ∧ s'.ppMsgs = [] ∧ s'.heap = s.heap := by
  have hret := (multiSubmitMsg2_ret q s).2 (hq.2 _)
  refine ⟨(multiSubmitMsg2 q s).2, Prod.ext hret rfl, ?_⟩
  obtain ⟨q, rfl⟩ := isSome_iff_exists.1 hq.1
  unfold multiSubmitMsg2
  split
  · next hn =>
    rw [length_eq_zero_iff] at hn
    exact ⟨⟨by simp, rfl, rfl, rfl, fun _ _ => rfl⟩, hn, rfl⟩
  · obtain ⟨_, _, _, h⟩ := moves_multiEnq q s.ppMsgs { s with emitted := s.emitted ++ s.ppMsgs }
    simp only [h]
    exact ⟨⟨by simp [Sys.handed], rfl, rfl, rfl, fun _ _ => rfl⟩, trivial, trivial⟩

lemma addElem_hands {cfg : Cfg} (hq : Accepts q) {s : Sys H} (hroom : s.Room cfg true) (o : Obj H) :
    ∃ s', addElem cfg q o s = some (.ok, s') ∧ Hands s [o] s' ∧ s'.heap = s.heap ∧
      s'.Room cfg true := by
  have hroom : s.ppMsgs.length < cfg.maxElem := by simpa [Sys.Room] using hroom
  have hadd : Hands s [o] { s with ppMsgs := s.ppMsgs ++ [o] } :=
    ⟨by simp [Sys.handed], rfl, rfl, rfl, fun _ _ => rfl⟩
  simp only [addElem, if_pos hroom]
  split
  · obtain ⟨s', hs', hh, hpp, hheap⟩ :=
      multiSubmitMsg2_hands hq { s with ppMsgs := s.ppMsgs ++ [o] }
    refine ⟨s', by rw [hs'], hadd.trans hh, hheap, ?_⟩
    simp only [Sys.Room, if_true, hpp, length_nil]
    omega
  · next hfull =>
    refine ⟨_, rfl, hadd, rfl, ?_⟩
    simp only [Sys.Room, if_true, length_append, length_singleton] at hfull ⊢
    omega

section Handing

variable [DecidableEq H] {cfg : Cfg} {s : Sys H} {c : Offer H}

lemma submitMsg2_hands (cfg : Cfg) (env : Submit) (o : Obj H) (hpp : s.ppMsgs = []) :
    Hands s [o] (submitMsg2 cfg env o s) ∧ (submitMsg2 cfg env o s).ppMsgs = [] := by
  obtain ⟨_, _, _, h⟩ := moves_submitMsg2 cfg env o s
  rw [h]
  cases o with
  | msg x =>
    refine ⟨⟨by simp [Sys.handed, Sys.truncate, hpp], rfl, rfl, rfl, fun y hy => ?_⟩, hpp⟩
    exact Function.update_of_ne (by simpa using hy) _ _
  | rep | segment =>
    exact ⟨⟨by simp [Sys.handed, Sys.truncate, hpp], rfl, rfl, rfl, fun _ _ => rfl⟩, hpp⟩

lemma heap_submitMsg2 (env : Submit) (h : H) :
    (submitMsg2 cfg env (.msg h) s).heap h = cfg.submitted (s.heap h) := by
  obtain ⟨_, _, _, hs⟩ := moves_submitMsg2 cfg env (.msg h) s
  rw [hs]
  simp [Sys.truncate]

lemma addToMultiSub_hands (hq : Accepts c.multiOversize) (hq' : Accepts c.multi)
    (hmax : 0 < cfg.maxElem) (hroom : s.Room cfg true) :
    ∃ s', addToMultiSub cfg c s = some (.ok, s') ∧ Hands s [.msg c.pMsg] s' ∧
      s'.heap c.pMsg = cfg.submitted (s.heap c.pMsg) ∧ s'.Room cfg true := by
  simp only [addToMultiSub]
  split
  · obtain ⟨s₁, h₁, hh, hpp, hheap⟩ := multiSubmitMsg2_hands hq s
    have hflush := multiSubmitFlush_eq c.multiOversize s
    rw [h₁] at hflush
    unfold multiSubmitFlush at hflush
    simp only [hflush, ne_eq, not_true_eq_false, if_false]
    obtain ⟨hh', hpp'⟩ := submitMsg2_hands cfg c.submit (.msg c.pMsg) hpp
    refine ⟨_, rfl, hh.trans hh', by rw [heap_submitMsg2, hheap], ?_⟩
    simp only [Sys.Room, if_true, hpp']
    exact hmax
  · next hover =>
    obtain ⟨s', hs', hh, hheap, hroom'⟩ := addElem_hands hq' hroom (.msg c.pMsg)
    refine ⟨s', hs', hh, ?_, hroom'⟩
    rw [hheap, Cfg.submitted, if_neg fun h => hover h.1]

/-- What a caller finds who is not disturbed: messages are parsed, there is memory, and a buffer
is taken by the queue. -/
def Event.Fine (bMultiSub : Bool) : Event H → Prop
  | .add c => c.bMultiSub = bMultiSub ∧ c.parsed ∧ c.memory ∧
      (bMultiSub → Accepts c.multiRep ∧ Accepts c.multiOversize ∧ Accepts c.multi)
  | .flush pQueue => bMultiSub → Accepts pQueue

variable {b : Bool}

lemma add_hands (hc : (Event.add c).Fine b) (hmax : 0 < cfg.maxElem) {rep : Option (Obj H)}
    (hrep : .msg c.pMsg ∉ rep.toList) (hroom : s.Room cfg b) :
    ∃ s', (if c.bMultiSub then addMulti cfg c .ok rep s else some (addSingle cfg c .ok rep s)) =
        some (.ok, s') ∧ Hands s (rep.toList ++ [.msg c.pMsg]) s' ∧
      s'.heap c.pMsg = cfg.submitted (s.heap c.pMsg) ∧ s'.Room cfg b := by
  obtain ⟨rfl, -, -, hq⟩ := hc
  cases hb : c.bMultiSub with
  | false =>
    have hpp : s.ppMsgs = [] := by simpa [Sys.Room, hb] using hroom
    cases rep with
    | none =>
      obtain ⟨hh, hpp'⟩ := submitMsg2_hands cfg c.submit (.msg c.pMsg) hpp
      exact ⟨_, rfl, hh, heap_submitMsg2 _ _, by simpa [Sys.Room] using hpp'⟩
    | some o =>
      obtain ⟨hh, hpp'⟩ := submitMsg2_hands cfg c.submitRep o hpp
      obtain ⟨hh', hpp''⟩ := submitMsg2_hands cfg c.submit (.msg c.pMsg) hpp'
      refine ⟨_, rfl, hh.trans hh', ?_, by simpa [Sys.Room] using hpp''⟩
      rw [elim_some, heap_submitMsg2, hh.heap _ hrep]
  | true =>
    rw [hb] at hroom
    obtain ⟨hq, hq', hq''⟩ := hq hb
    simp only [addMulti, if_true, ne_eq, not_true_eq_false, if_false]
    cases rep with
    | none =>
      obtain ⟨s', hs', hh, hheap, hroom'⟩ := addToMultiSub_hands hq' hq'' hmax hroom
      exact ⟨s', hs', hh, hheap, hroom'⟩
    | some o =>
      obtain ⟨s₁, h₁, hh, hheap, hroom'⟩ := addElem_hands hq hroom o
      obtain ⟨s', hs', hh', hheap', hroom''⟩ := addToMultiSub_hands hq' hq'' hmax hroom'
      refine ⟨s', ?_, hh.trans hh', by rw [hheap', hheap], hroom''⟩
      simpa [h₁] using hs'

/-! ## A message -/

omit [DecidableEq H] in
lemma ratelimitMsg_reduces (hred : cfg.bReduceRepeatMsgs) (hoff : s.rl.interval = 0)
    (hparsed : c.parsed) :
    ratelimitMsg cfg c s = doLastMessageRepeatedNTimes c.memory c.pMsg s := by
  have hu : ¬ s.unparsed cfg c := fun h => h.2.2 hparsed
  have hl : ¬ s.limits cfg c := fun h => h.1 hoff
  simp [ratelimitMsg, hu, hl, hred]

/-- The state between two messages: what was handed on, the messages of the open group, what is
kept of the last one of them, and the messages that are still to come. -/
structure TracksRun (cfg : Cfg) (b : Bool) (heap : H → Msg) (out : List (Obj H)) (cur : List H)
    (kept : Msg) (rest : List H) (s : Sys H) : Prop where
  handed : s.handed = out ++ (cur.head?.map .msg).toList
  pMsg : s.pMsg = cur.getLast?
  nsupp : s.nsupp = UInt32.ofNat (cur.length - 1)
  interval : s.rl.interval = 0
  kept : ∀ h ∈ cur.getLast?, s.heap h = kept
  fresh : ∀ h ∈ rest, s.heap h = heap h
  room : s.Room cfg b

variable {heap : H → Msg} {out : List (Obj H)} {cur rest : List H} {kept : Msg}

lemma TracksRun.flush (hq : b → Accepts q) (hmax : 0 < cfg.maxElem)
    (h : TracksRun cfg b heap out cur kept rest s) :
    ∃ s', step cfg s (.flush q) = some s' ∧ TracksRun cfg b heap out cur kept rest s' ∧
      s'.ppMsgs = [] := by
  cases b with
  | false =>
    have hpp : s.ppMsgs = [] := by simpa [Sys.Room] using h.room
    exact ⟨s, by simp [step, multiSubmitFlush, hpp], h, hpp⟩
  | true =>
    obtain ⟨s', hs', hh, hpp, hheap⟩ := multiSubmitMsg2_hands (hq rfl) s
    refine ⟨s', by rw [step, multiSubmitFlush_eq, hs'], ⟨?_, ?_, ?_, ?_, ?_, ?_, ?_⟩, hpp⟩
    · rw [hh.handed, append_nil, h.handed]
    · rw [hh.pMsg, h.pMsg]
    · rw [hh.nsupp, h.nsupp]
    · rw [hh.rl, h.interval]
    · rw [hheap]
      exact h.kept
    · rw [hheap]
      exact h.fresh
    · simpa [Sys.Room, hpp] using hmax

omit [DecidableEq H] in
lemma doLast_eq_new (memory : Bool) {x : H} (hnsupp : s.pMsg = none → s.nsupp = 0)
    (hnew : ∀ last ∈ s.pMsg, ¬ sameMsg (s.heap x) (s.heap last)) :
    ∃ s', doLastMessageRepeatedNTimes memory x s = (.ok,
        if 0 < s.nsupp then s.pMsg.bind (ratelimitGenRepMsg memory s.nsupp) else none, s') ∧
      Moves { s with pMsg := some x, nsupp := 0 } s' := by
  cases hp : s.pMsg with
  | none =>
    simp only [doLastMessageRepeatedNTimes, hp]
    refine ⟨_, by rw [Option.bind_none, ite_self], ?_⟩
    rw [← hnsupp hp]
    exact ⟨_, _, _, rfl⟩
  | some last =>
    simp only [doLastMessageRepeatedNTimes, hp, if_neg (hnew last hp), Option.bind_some]
    refine ⟨_, rfl, ?_⟩
    obtain ⟨_, _, _, hm⟩ := moves_takeRep
      (if 0 < s.nsupp then ratelimitGenRepMsg memory s.nsupp last else none) s
    simp only [hm, Sys.take, Sys.msgDestruct]
    exact ⟨_, _, _, rfl⟩

lemma TracksRun.repeated (hred : cfg.bReduceRepeatMsgs) (hc : (Event.add c).Fine b)
    (hcur : cur ≠ []) (h : TracksRun cfg b heap out cur kept (c.pMsg :: rest) s)
    (hsame : sameMsg (heap c.pMsg) kept) :
    ∃ s', step cfg s (.add c) = some s' ∧
      TracksRun cfg b heap out (cur ++ [c.pMsg]) (heap c.pMsg) rest s' := by
  have hlast := getLast?_eq_getLast_of_ne_nil hcur
  have hmsg := ratelimitMsg_reduces (s := s.take (.msg c.pMsg)) hred h.interval hc.2.1
  have hp : (s.take (.msg c.pMsg)).pMsg = some (cur.getLast hcur) := h.pMsg.trans hlast
  have hsame' : sameMsg ((s.take (.msg c.pMsg)).heap c.pMsg)
      ((s.take (.msg c.pMsg)).heap (cur.getLast hcur)) := by
    rw [show (s.take (.msg c.pMsg)).heap = s.heap from rfl, h.fresh _ mem_cons_self,
      h.kept _ hlast]
    exact hsame
  simp only [doLastMessageRepeatedNTimes, hp, if_pos hsame'] at hmsg
  refine ⟨(ratelimitMsg cfg c (s.take (.msg c.pMsg))).2.2, ?_, ?_⟩
  · simp only [step, ratelimitAddMsg, hmsg]
    split <;> rfl
  rw [hmsg]
  refine ⟨?_, ?_, ?_, h.interval, ?_, fun x hx => h.fresh x (by simp [hx]), h.room⟩
  · obtain ⟨a, r, rfl⟩ := exists_cons_of_ne_nil hcur
    exact h.handed
  · simp
  · have hlen : cur.length - 1 + 1 = cur.length :=
      Nat.sub_add_cancel (length_pos_iff.2 hcur)
    change s.nsupp + 1 = _
    rw [h.nsupp, length_append, length_singleton, Nat.add_sub_cancel]
    conv_rhs => rw [← hlen]
    rw [UInt32.ofNat_add]
    rfl
  · intro x hx
    obtain rfl : c.pMsg = x := by simpa using hx
    exact h.fresh _ mem_cons_self

omit [DecidableEq H] in
lemma ratelimitGenRepMsg_handle {memory : Bool} {nsupp : UInt32} {last x : H}
    (h : ratelimitGenRepMsg memory nsupp last = some (.msg x)) : x = last := by
  unfold ratelimitGenRepMsg at h
  split at h
  · simpa [eq_comm] using h
  · split at h <;> simp at h

omit [DecidableEq H] in
lemma TracksRun.report (h : TracksRun cfg b heap out cur kept rest s) :
    (if 0 < s.nsupp then s.pMsg.bind (ratelimitGenRepMsg true s.nsupp) else none).toList =
      flushed cur := by
  rw [h.nsupp, h.pMsg]
  simp only [flushed]
  split <;> rfl

omit [DecidableEq H] in
lemma mem_of_mem_flushed {x : H} (h : .msg x ∈ flushed cur) : x ∈ cur := by
  simp only [flushed] at h
  split at h
  · rw [Option.mem_toList, Option.bind_eq_some_iff] at h
    obtain ⟨last, hlast, hx⟩ := h
    rw [ratelimitGenRepMsg_handle hx]
    exact mem_of_getLast? hlast
  · simp at h

lemma TracksRun.new (hred : cfg.bReduceRepeatMsgs) (hc : (Event.add c).Fine b)
    (hmax : 0 < cfg.maxElem) (h : TracksRun cfg b heap out cur kept (c.pMsg :: rest) s)
    (hnd : (cur ++ c.pMsg :: rest).Nodup) (hnew : cur ≠ [] → ¬ sameMsg (heap c.pMsg) kept) :
    ∃ s', step cfg s (.add c) = some s' ∧
      TracksRun cfg b heap (out ++ emits cur) [c.pMsg] (cfg.submitted (heap c.pMsg)) rest s' := by
  have hmsg := ratelimitMsg_reduces (s := s.take (.msg c.pMsg)) hred h.interval hc.2.1
  have hdiff : ∀ last ∈ s.pMsg, ¬ sameMsg (s.heap c.pMsg) (s.heap last) := by
    intro last hl
    rw [h.pMsg] at hl
    rw [h.fresh _ mem_cons_self, h.kept _ hl]
    exact hnew (by rintro rfl; simp at hl)
  have hnone : s.pMsg = none → s.nsupp = 0 := by
    intro hp
    rw [h.pMsg, getLast?_eq_none_iff] at hp
    simp [h.nsupp, hp]
  obtain ⟨s₁, h₁, queue, taken, given, hm⟩ := doLast_eq_new c.memory (x := c.pMsg)
    (s := s.take (.msg c.pMsg)) hnone hdiff
  rw [h₁, hc.2.2.1] at hmsg
  have hrep := h.report
  set rep := if 0 < s.nsupp then s.pMsg.bind (ratelimitGenRepMsg true s.nsupp) else none
  -- the report is about a message of the group that is closed
  have hold (x : H) (hx : x ∉ cur) : .msg x ∉ rep.toList := by
    rw [hrep]
    exact fun hm => hx (mem_of_mem_flushed hm)
  obtain ⟨hcur, hrest, hdisj⟩ := nodup_append.1 hnd
  have hfresh : c.pMsg ∉ cur := fun hm => hdisj _ hm _ mem_cons_self rfl
  have hroom : s₁.Room cfg b := by
    rw [hm]
    exact h.room
  obtain ⟨s', hs', hh, hheap, hroom'⟩ := add_hands hc hmax (hold _ hfresh) hroom
  refine ⟨s', ?_, ?_⟩
  · simp only [step, ratelimitAddMsg, hmsg]
    exact congrArg (Option.map Prod.snd) hs'
  subst hm
  refine ⟨?_, hh.pMsg, hh.nsupp, ?_, ?_, ?_, hroom'⟩
  · rw [hh.handed, hrep]
    change s.handed ++ _ = _
    rw [h.handed]
    simp [emits]
  · rw [hh.rl]
    exact h.interval
  · intro x hx
    obtain rfl : c.pMsg = x := by simpa using hx
    rw [hheap]
    exact congrArg cfg.submitted (h.fresh _ mem_cons_self)
  · intro x hx
    have hne : x ≠ c.pMsg := fun he => (nodup_cons.1 hrest).1 (he ▸ hx)
    rw [hh.heap x]
    · exact h.fresh x (by simp [hx])
    · rw [mem_append, not_or]
      exact ⟨hold x fun hm => hdisj _ hm _ (by simp [hx]) rfl, by simpa using hne⟩

/-! ## Runs -/

def handles : List (Event H) → List H
  | [] => []
  | .add c :: events => c.pMsg :: handles events
  | .flush _ :: events => handles events

def finish (cfg : Cfg) (q : Option MultiQueue) (env : Submit) (s : Sys H) : Sys H :=
  ratelimitDestruct cfg true env (multiSubmitFlush q s).2

lemma TracksRun.emitted_finish (hq : b → Accepts q) (hmax : 0 < cfg.maxElem) (env : Submit)
    (h : TracksRun cfg b heap out cur kept [] s) :
    (finish cfg q env s).emitted = out ++ emits cur := by
  obtain ⟨s', hs', h', hpp⟩ := h.flush hq hmax
  rw [step, some.injEq] at hs'
  have hem : s'.emitted = out ++ (cur.head?.map .msg).toList := by
    rw [← h'.handed, Sys.handed, hpp, append_nil]
  unfold finish ratelimitDestruct
  rw [hs', emits, ← h'.report, ← append_assoc, ← hem]
  cases hp : s'.pMsg with
  | none => simp
  | some last =>
    simp only [bind_some]
    split
    · cases ratelimitGenRepMsg true s'.nsupp last with
      | none => simp [Sys.msgDestruct]
      | some o =>
        obtain ⟨hh, hpp'⟩ := submitMsg2_hands (s := s'.take o) cfg env o hpp
        have hsub := hh.handed
        rw [Sys.handed, hpp', append_nil, Sys.handed] at hsub
        simp only [Sys.msgDestruct, elim_some, hsub]
        simp [Sys.take, hpp]
    · simp [Sys.msgDestruct]

lemma TracksRun.emitted_run (hred : cfg.bReduceRepeatMsgs) (hmax : 0 < cfg.maxElem)
    (hq : b → Accepts q) (env : Submit) {events : List (Event H)} (hfine : ∀ e ∈ events, e.Fine b)
    (hnd : (cur ++ handles events).Nodup)
    (h : TracksRun cfg b heap out cur kept (handles events) s) :
    ∃ s', run (step cfg) s events = some s' ∧ (finish cfg q env s').emitted = out ++
      (if cur = [] then grouped cfg heap (handles events)
        else groupsFrom sameMsg (fun h => cfg.submitted (heap h)) heap cur kept
          (handles events)).flatMap emits := by
  induction events generalizing s out cur kept with
  | nil =>
    refine ⟨s, rfl, ?_⟩
    rw [h.emitted_finish hq hmax env]
    split
    · next hcur => rw [hcur]; rfl
    · simp [handles, groupsFrom]
  | cons e events ih =>
    rw [forall_mem_cons] at hfine
    cases e with
    | flush q' =>
      obtain ⟨s₁, h₁, h', -⟩ := h.flush hfine.1 hmax
      obtain ⟨s', hs', hem⟩ := ih hfine.2 hnd h'
      exact ⟨s', by rw [run_cons, h₁]; exact hs', hem⟩
    | add c =>
      simp only [handles] at h hnd ⊢
      by_cases hsame : cur ≠ [] ∧ sameMsg (heap c.pMsg) kept
      · obtain ⟨s₁, h₁, h'⟩ := h.repeated hred hfine.1 hsame.1 hsame.2
        obtain ⟨s', hs', hem⟩ := ih hfine.2 (by simpa using hnd) h'
        refine ⟨s', by rw [run_cons, h₁]; exact hs', ?_⟩
        rw [hem, if_neg (by simp), if_neg hsame.1, groupsFrom, if_pos hsame.2]
      · obtain ⟨s₁, h₁, h'⟩ := h.new hred hfine.1 hmax hnd fun hcur hs => hsame ⟨hcur, hs⟩
        obtain ⟨s', hs', hem⟩ := ih hfine.2 (nodup_append.1 hnd).2.1 h'
        refine ⟨s', by rw [run_cons, h₁]; exact hs', ?_⟩
        rw [hem, if_neg (by simp), append_assoc]
        congr 1
        split
        · next hcur => rw [hcur]; rfl
        · next hcur => rw [groupsFrom, if_neg fun hs => hsame ⟨hcur, hs⟩, flatMap_cons]

structure Fresh (s : Sys H) : Prop where
  pMsg : s.pMsg = none
  nsupp : s.nsupp = 0
  interval : s.rl.interval = 0
  ppMsgs : s.ppMsgs = []
  emitted : s.emitted = []

/-- With repeated messages reduced and rate limiting off, what is handed on describes each run of
equal messages completely, exactly if the groups of three and more messages that the ratelimiter
makes are the runs of that length, and none has more than `2 ^ 31` messages. -/
theorem emitted_describes_iff (cfg : Cfg) (hred : cfg.bReduceRepeatMsgs) (hmax : 0 < cfg.maxElem)
    (b : Bool) (s : Sys H) (hs : Fresh s) (events : List (Event H)) (hfine : ∀ e ∈ events, e.Fine b)
    (hnd : (handles events).Nodup) (q : Option MultiQueue) (hq : b → Accepts q) (env : Submit) :
    (∃ s', run (step cfg) s events = some s' ∧
        (finish cfg q env s').emitted = (runs s.heap (handles events)).flatMap describe) ↔
      apart (grouped cfg s.heap (handles events)) = apart (runs s.heap (handles events)) ∧
        ∀ r ∈ runs s.heap (handles events), r.length ≤ 2 ^ 31 := by
  have htracks :
      TracksRun cfg b s.heap [] [] ⟨[], [], [], [], 0, 0, 0, false⟩ (handles events) s := by
    refine ⟨?_, hs.pMsg, hs.nsupp, hs.interval, nofun, fun _ _ => rfl, ?_⟩
    · simp [Sys.handed, hs.ppMsgs, hs.emitted]
    · cases b <;> simp [Sys.Room, hs.ppMsgs, hmax]
  obtain ⟨s', hrun, hem⟩ := htracks.emitted_run hred hmax hq env hfine hnd
  rw [if_pos rfl, nil_append] at hem
  have hP : [] ∉ grouped cfg s.heap (handles events) := nil_notMem_groups _ _ _ _
  have hQ : [] ∉ runs s.heap (handles events) := by
    rw [runs, ← groups_key_eq_splitBy]
    exact nil_notMem_groups _ _ _ _
  have hflat : (apart (grouped cfg s.heap (handles events))).flatten =
      (apart (runs s.heap (handles events))).flatten := by
    rw [flatten_apart, flatten_apart, grouped, flatten_groups, runs, flatten_splitBy]
  have hnd' : (apart (grouped cfg s.heap (handles events))).flatten.Nodup := by
    rwa [flatten_apart, grouped, flatten_groups]
  have hkey := flatMap_emits_eq_iff (fun g hg => mem_apart hP hg) (fun g hg => mem_apart hQ hg)
    hflat hnd'
  rw [flatMap_apart fun a b => rfl, flatMap_apart fun a b => rfl] at hkey
  -- groups of one and of two are short enough
  have hlong : (∀ r ∈ apart (runs s.heap (handles events)), r.length ≤ 2 ^ 31) ↔
      ∀ r ∈ runs s.heap (handles events), r.length ≤ 2 ^ 31 := by
    refine forall_congr' fun r => ?_
    by_cases hr : 2 < r.length
    · rw [mem_apart_iff hr]
    · exact iff_of_true (fun _ => by omega) fun _ => by omega
  rw [hlong, ← hem] at hkey
  rw [← hkey]
  constructor
  · rintro ⟨s'', hrun', hem'⟩
    obtain rfl := some.inj (hrun.symm.trans hrun')
    exact hem'
  · exact fun h => ⟨s', hrun, h⟩

end Handing

/-! ## Examples -/

def thrice (len : ℕ) : Sys ℕ where
  heap _ := ⟨ascii "aaaabbbb", ascii "host", [], ascii "app", len, 6, 0, false⟩
  rl := ⟨ascii "limiter", 0, 0, 0, 0, 0, false⟩
  pMsg := none
  nsupp := 0
  ppMsgs := []
  queue := []
  taken := []
  given := []
  emitted := []

def stored : Submit := ⟨some (.nonDirect ⟨false, [], false, .stored⟩), fun _ => .noMemory⟩

def single (h : ℕ) : Event ℕ := .add ⟨h, false, true, 0, true, stored, stored, none, none, none⟩

/-- Messages that are not too long are reduced to the first one and a report. -/
theorem emitted_describes_thrice :
    ∃ s', run (step ⟨true, 0, 30, .truncate, 1⟩) (thrice 30) [single 0, single 1, single 2] =
        some s' ∧
      (finish ⟨true, 0, 30, .truncate, 1⟩ none stored s').emitted =
        (runs (thrice 30).heap [0, 1, 2]).flatMap describe :=
  (emitted_describes_iff _ rfl (by decide) false _ ⟨rfl, rfl, rfl, rfl, rfl⟩ _
    (by simp [single, Event.Fine]) (by decide) none nofun stored).2
    ⟨by decide +kernel, by decide +kernel⟩

/-- Three equal messages that are truncated are all handed on, and not reduced to the first one and
a report that it was repeated two times. -/
theorem emitted_truncated :
    (run (step ⟨true, 0, 30, .truncate, 1⟩) (thrice 31) [single 0, single 1, single 2]).map
        (fun s' => (finish ⟨true, 0, 30, .truncate, 1⟩ none stored s').emitted) =
      some [.msg 0, .msg 1, .msg 2] ∧
    (runs (thrice 31).heap [0, 1, 2]).flatMap describe = [.msg 0, .rep 2 2] := by
  decide +kernel

end Rsyslog.Ratelimit
