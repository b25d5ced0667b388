import Mathlib.Data.Prod.Lex
import Mathlib.Order.WellFounded
import Mathlib.Tactic.SplitIfs
import Rsyslog.Action.Engine

/-!
# Sending a datagram

`UDPSend` of `tools/omfwd.c` tries the addresses of the target, and for each of them the sockets,
until one takes the message. A datagram that the system finds too large is tried again with fewer
octets. Log messages and statistics are left out.

What a run does depends on what the calls of `sendto` come to. That is a sequence given in advance,
and the run is followed from call to call.
-/

namespace Rsyslog.Omfwd.Udp

open List
open Rsyslog.Action (RsRet)

def UDP_MAX_MSGSIZE : ℕ := 65507

def EMSGSIZE : ℤ := 90

/-- A call of `sendto` returns the length that was asked for, or another value. -/
inductive Sendto
  | sent
  | failed (lsent errno : ℤ)

/-- The settings that are read, and the single target. The number in front of the sockets is that of
the list. -/
structure Wrkr (α : Type*) where
  iRebindInterval : ℤ
  bSendToAll : Bool
  nXmit : ℤ
  pSockArray : Option (List ℤ)
  f_addr : List α
  bIsConnected : Bool

/-- A call of `UDPSend`: what it is given, and what the world answers. -/
structure Send (α : Type*) where
  w : Wrkr α
  len : ℕ
  doTryResume : Wrkr α → RsRet × Wrkr α
  answer : ℕ → Sendto

structure Vars where
  lsent : ℤ
  bSendSuccess : Bool
  reInit : Bool

/-- What the variables hold at a call of `sendto`, with the sockets behind the one in use. -/
structure Call (α : Type*) where
  w : Wrkr α
  ai_addr : α
  ai_next : List α
  sock : ℤ
  socks : List ℤ
  lenThisTry : ℕ
  vars : Vars

inductive Run (α : Type*)
  | sendto (c : Call α)
  | returned (iRet : RsRet) (w : Wrkr α)

variable {α : Type*}

def closeUDPSockets (w : Wrkr α) : Wrkr α :=
  if w.pSockArray.isSome then { w with pSockArray := none, f_addr := [], bIsConnected := false }
  else { w with bIsConnected := false }

def rebind (w : Wrkr α) : Wrkr α :=
  if w.iRebindInterval = 0 then w
  else if w.nXmit % w.iRebindInterval = 0 then closeUDPSockets { w with nXmit := 1 }
  else { w with nXmit := w.nXmit + 1 }

def finish (w : Wrkr α) (v : Vars) : Run α :=
  .returned (if v.bSendSuccess then .ok else .suspended) (if v.reInit then closeUDPSockets w else w)

/-- The loop over the addresses, at its next round. Without sockets its rounds do nothing. -/
def nextAddr (len : ℕ) (w : Wrkr α) (v : Vars) : List α → Run α
  | [] => finish w v
  | ai_addr :: ai_next =>
    match w.pSockArray with
    | some (sock :: socks) => .sendto ⟨w, ai_addr, ai_next, sock, socks, len, v⟩
    | _ => finish w v

def afterSocks (len : ℕ) (c : Call α) (v : Vars) : Run α :=
  if v.lsent = len ∧ ¬c.w.bSendToAll then finish c.w v else nextAddr len c.w v c.ai_next

def shrink (lenThisTry : ℕ) : ℕ := if lenThisTry > 1024 then lenThisTry - 1024 else 512

def step (len : ℕ) (c : Call α) : Sendto → Run α
  | .sent => afterSocks len c { c.vars with lsent := c.lenThisTry, bSendSuccess := true }
  | .failed lsent errno =>
    if errno = EMSGSIZE then
      .sendto { c with lenThisTry := shrink c.lenThisTry, vars := { c.vars with lsent := lsent } }
    else
      let v := { c.vars with lsent := lsent, reInit := true }
      match c.socks with
      | [] => afterSocks len c v
      | sock :: socks =>
        .sendto { c with sock := sock, socks := socks, lenThisTry := len, vars := v }

namespace Send

def lenToSend (s : Send α) : ℕ := min s.len UDP_MAX_MSGSIZE

/-- Up to the first call of `sendto`. -/
def enter (s : Send α) : Run α :=
  let w := rebind s.w
  let (iRet, w) := if w.pSockArray.isNone then s.doTryResume w else (.ok, w)
  if iRet ≠ .ok then .returned iRet w
  else if w.pSockArray.isNone then .returned .ok w
  else nextAddr s.lenToSend w ⟨0, false, false⟩ w.f_addr

end Send

/-- Where the run is when `k` calls of `sendto` have been answered. -/
def UDPSend (s : Send α) : ℕ → Run α
  | 0 => s.enter
  | k + 1 =>
    match UDPSend s k with
    | .sendto c => step s.lenToSend c (s.answer k)
    | .returned iRet w => .returned iRet w

/-! ## What is meant -/

/-- The run ends, no call asks for more octets than there are, and one for the same address and
socket asks for fewer than the one before it. -/
structure Good (s : Send α) : Prop where
  returns : ∃ k iRet w, UDPSend s k = .returned iRet w
  le : ∀ {k c}, UDPSend s k = .sendto c → c.lenThisTry ≤ s.len
  lt : ∀ {k c c'}, UDPSend s k = .sendto c → UDPSend s (k + 1) = .sendto c' →
    c'.ai_next = c.ai_next → c'.socks = c.socks → c'.lenThisTry < c.lenThisTry

def refused : Sendto → Prop
  | .sent => False
  | .failed _ errno => errno = EMSGSIZE

/-- How often a length can be made smaller. -/
def shrinks (lenThisTry : ℕ) : ℕ := (lenThisTry + 511) / 1024

/-- Of as many answers in a row as the length can be made smaller and one more, at least one is not
that the datagram is too large. -/
def InTime (s : Send α) : Prop :=
  ∀ k c, UDPSend s k = .sendto c → ∃ j ≤ shrinks s.lenToSend, ¬refused (s.answer (k + j))

/-! ## The lengths -/

lemma shrink_lt_iff {n : ℕ} : shrink n < n ↔ 0 < shrinks n := by
  unfold shrink shrinks
  split <;> omega

lemma shrinks_shrink (n : ℕ) : shrinks (shrink n) = shrinks n - 1 := by
  unfold shrink shrinks
  split <;> omega

/-! ## Runs -/

variable {s : Send α} {len k : ℕ} {w : Wrkr α} {c c' : Call α} {o : Sendto} {v : Vars}

/-- The call is for a later address or socket, and asks for the whole length. -/
structure Later (len : ℕ) (c c' : Call α) : Prop where
  lenThisTry_eq : c'.lenThisTry = len
  lt : c'.ai_next.length < c.ai_next.length ∨
    c'.ai_next = c.ai_next ∧ c'.socks.length < c.socks.length

lemma of_nextAddr {addrs : List α} (h : nextAddr len w v addrs = .sendto c) :
    c.lenThisTry = len ∧ c.ai_next.length < addrs.length := by
  unfold nextAddr at h
  split at h
  · cases h
  · split at h <;> cases h
    exact ⟨rfl, Nat.lt_succ_self _⟩

lemma later_of_afterSocks (h : afterSocks len c v = .sendto c') : Later len c c' := by
  unfold afterSocks at h
  split at h
  · cases h
  · exact ⟨(of_nextAddr h).1, .inl (of_nextAddr h).2⟩

lemma step_of_refused (ho : refused o) : ∃ v,
    step len c o = .sendto { c with lenThisTry := shrink c.lenThisTry, vars := v } := by
  cases o with
  | sent => exact ho.elim
  | failed lsent errno => exact ⟨_, if_pos ho⟩

lemma later_of_step (ho : ¬refused o) (h : step len c o = .sendto c') : Later len c c' := by
  cases o with
  | sent => exact later_of_afterSocks h
  | failed lsent errno =>
    have hother : errno ≠ EMSGSIZE := ho
    rw [step, if_neg hother] at h
    dsimp only at h
    split at h
    · exact later_of_afterSocks h
    case h_2 heq =>
      cases h
      exact ⟨rfl, .inr ⟨rfl, by simp [heq]⟩⟩

lemma UDPSend_succ (h : UDPSend s k = .sendto c) :
    UDPSend s (k + 1) = step s.lenToSend c (s.answer k) := by
  rw [UDPSend, h]

/-- What holds of the whole length, and still does when a datagram was refused and made smaller,
holds at every call. -/
lemma call_induct {p : ℕ → ℕ → Prop} (hwhole : ∀ {k c}, UDPSend s k = .sendto c → p k s.lenToSend)
    (hshrink : ∀ {k n}, refused (s.answer k) → p k n → p (k + 1) (shrink n))
    (h : UDPSend s k = .sendto c) : p k c.lenThisTry := by
  have hp := hwhole h
  induction k generalizing c with
  | zero =>
    unfold UDPSend Send.enter at h
    dsimp only at h
    split_ifs at h <;> rwa [(of_nextAddr h).1]
  | succ k ih =>
    cases hk : UDPSend s k with
    | returned iRet w => simp [UDPSend, hk] at h
    | sendto c₀ =>
      rw [UDPSend_succ hk] at h
      by_cases ho : refused (s.answer k)
      · obtain ⟨v, hv⟩ := step_of_refused ho
        cases hv.symm.trans h
        exact hshrink ho (ih hk (hwhole hk))
      · rwa [(later_of_step ho h).lenThisTry_eq]

lemma shrinks_le (h : UDPSend s k = .sendto c) : shrinks c.lenThisTry ≤ shrinks s.lenToSend := by
  refine call_induct (p := fun _ n => shrinks n ≤ _) (fun _ => Nat.le_refl _) (fun _ hle => ?_) h
  rw [shrinks_shrink]
  omega

/-- The lexicographic order in which the run goes down. -/
def place (c : Call α) : ℕ ×ₗ ℕ ×ₗ ℕ :=
  toLex (c.ai_next.length, toLex (c.socks.length, c.lenThisTry))

/-- The length can still be made smaller as often as the answers ask for it. -/
lemma InTime.call (hanswer : InTime s) (h : UDPSend s k = .sendto c) :
    c.lenThisTry ≤ s.len ∧ ∃ j ≤ shrinks c.lenThisTry, ¬refused (s.answer (k + j)) := by
  refine call_induct (p := fun k n => n ≤ s.len ∧ ∃ j ≤ shrinks n, ¬refused (s.answer (k + j)))
    (fun h => ⟨Nat.min_le_left _ _, hanswer _ _ h⟩) (fun {k n} ho hp => ?_) h
  obtain ⟨hle, j, hj, hother⟩ := hp
  cases j with
  | zero => exact absurd ho hother
  | succ j =>
    have hlt := shrink_lt_iff.mpr (Nat.zero_lt_of_lt hj)
    rw [← Nat.add_assoc, Nat.add_right_comm] at hother
    exact ⟨by omega, j, by rw [shrinks_shrink]; omega, hother⟩

lemma InTime.place_lt (hanswer : InTime s) (h : UDPSend s k = .sendto c)
    (h' : UDPSend s (k + 1) = .sendto c') : place c' < place c := by
  rw [UDPSend_succ h] at h'
  simp only [place, Prod.Lex.toLex_lt_toLex]
  by_cases ho : refused (s.answer k)
  · obtain ⟨v, hv⟩ := step_of_refused ho
    cases hv.symm.trans h'
    obtain ⟨-, j, hj, hother⟩ := hanswer.call h
    have hpos : 0 < j := Nat.pos_of_ne_zero fun hzero => hother (by rwa [hzero])
    exact .inr ⟨rfl, .inr ⟨rfl, shrink_lt_iff.mpr (by omega)⟩⟩
  · obtain hlt | ⟨heq, hlt⟩ := (later_of_step ho h').lt
    · exact .inl hlt
    · exact .inr ⟨congrArg length heq, .inl hlt⟩

/-- A run is as it is meant to be exactly if the answers come in time. -/
theorem good_UDPSend_iff (s : Send α) : Good s ↔ InTime s := by
  constructor
  · intro hgood k c hc
    by_contra! hrefused
    -- each refusal makes the length smaller, more often than it can be
    have hcalls : ∀ j ≤ shrinks s.lenToSend + 1, ∃ c,
        UDPSend s (k + j) = .sendto c ∧ shrinks c.lenThisTry + j ≤ shrinks s.lenToSend := by
      intro j hj
      induction j with
      | zero => exact ⟨c, hc, shrinks_le hc⟩
      | succ j ih =>
        obtain ⟨c, hc, hle⟩ := ih (by omega)
        obtain ⟨v, hv⟩ := step_of_refused (hrefused j (by omega))
        have hnext := (UDPSend_succ hc).trans hv
        have hpos := shrink_lt_iff.mp (hgood.lt hc hnext rfl rfl)
        exact ⟨_, hnext, by rw [shrinks_shrink]; omega⟩
    obtain ⟨c, -, hle⟩ := hcalls _ (Nat.le_refl _)
    omega
  · intro hanswer
    refine ⟨?_, fun h => (hanswer.call h).1, fun h h' hnext hsocks => ?_⟩
    · by_contra! hnever
      have hcall : ∀ k, ∃ c, UDPSend s k = .sendto c := by
        intro k
        cases hk : UDPSend s k with
        | sendto c => exact ⟨c, rfl⟩
        | returned iRet w => exact absurd hk (hnever k iRet w)
      choose c hc using hcall
      obtain ⟨k, hk⟩ := WellFounded.not_rel_apply_succ (r := (· < ·)) fun k => place (c k)
      exact hk (hanswer.place_lt (hc k) (hc (k + 1)))
    · simpa [place, Prod.Lex.toLex_lt_toLex, hnext, hsocks] using hanswer.place_lt h h'

/-- A target with one address and one socket, and a system that finds everything too large. -/
def refusing (len : ℕ) : Send Unit :=
  ⟨⟨0, false, 0, some [3], [()], true⟩, len, fun w => (.ok, w), fun _ => .failed (-1) EMSGSIZE⟩

/-- A message of 100 octets is tried again with 512, and then with 512 again. -/
theorem UDPSend_hundred : ∃ c c',
    UDPSend (refusing 100) 1 = .sendto c ∧ c.lenThisTry = 512 ∧
      UDPSend (refusing 100) 2 = .sendto c' ∧ c'.lenThisTry = 512 :=
  ⟨_, _, rfl, rfl, rfl, rfl⟩

end Rsyslog.Omfwd.Udp
