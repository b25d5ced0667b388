import Rsyslog.Queue.Core
import Rsyslog.Queue.Spool

/-!
# The back ends represent a list with a cursor

`Store.Rep cfg s xs k` says that the store `s` physically holds the messages `xs`, oldest first, the
first `k` of which were already handed out. For the ring this is a `Ring.Window`, for the linked
list a `Chain.Linked` list, for the spool files `Disk.Rep`. Each driver entry then has one
specification for all back ends: what it does to the list and the cursor, and that it is defined.
-/

namespace Rsyslog.Queue

open Lib List

variable {μ : Type} {xs : List μ} {k : ℕ}

/-! ## The ring -/

/-- The ring holds `xs`, with the first `k` handed out. -/
structure FArray.Rep (iMaxQueueSize : ℕ) (a : FArray μ) (xs : List μ) (k : ℕ) : Prop where
  window : Ring.Window iMaxQueueSize a.pBuf a.head k xs
  deqhead : a.deqhead = Ring.idx iMaxQueueSize a.head k
  tail : a.tail = Ring.idx iMaxQueueSize a.head xs.length

namespace FArray.Rep

variable {iMaxQueueSize : ℕ} {a : FArray μ}

lemma construct (hmax : 0 < iMaxQueueSize) :
    FArray.Rep iMaxQueueSize (qConstructFixedArray iMaxQueueSize : FArray μ) [] 0 where
  window := Ring.Window.empty length_replicate hmax
  deqhead := (Ring.idx_zero hmax).symm
  tail := (Ring.idx_zero hmax).symm

lemma qAdd (h : a.Rep iMaxQueueSize xs k) (hroom : xs.length < iMaxQueueSize) (m : μ) :
    ∃ a', qAddFixedArray iMaxQueueSize a m = some a' ∧ a'.Rep iMaxQueueSize (xs ++ [m]) k := by
  have hcap : 0 < iMaxQueueSize := by omega
  have hin : a.tail < a.pBuf.length := by
    rw [h.tail, h.window.size]
    exact Ring.idx_lt hcap
  refine ⟨_, if_pos hin, ?_, h.deqhead, ?_⟩
  · rw [h.tail]
    exact h.window.push hroom m
  · rw [h.tail, Ring.succ_idx hcap, length_append, length_singleton]

lemma qDeq (h : a.Rep iMaxQueueSize xs k) (hk : k < xs.length) :
    ∃ a', qDeqFixedArray iMaxQueueSize a = some (xs[k], a') ∧
      a'.Rep iMaxQueueSize xs (k + 1) := by
  obtain ⟨hcell, hwin⟩ := h.window.pop hk
  have hcap : 0 < iMaxQueueSize := by have := h.window.fits; omega
  refine ⟨{ a with deqhead := Ring.succ iMaxQueueSize a.deqhead }, ?_, hwin, ?_, h.tail⟩
  · simp only [qDeqFixedArray, h.deqhead, hcell]
  · rw [h.deqhead, Ring.succ_idx hcap]

lemma qDel (h : a.Rep iMaxQueueSize xs (k + 1)) :
    (qDelFixedArray iMaxQueueSize a).Rep iMaxQueueSize xs.tail k where
  window := h.window.free
  deqhead := by rw [qDelFixedArray, Ring.idx_succ, h.deqhead]
  tail := by
    have hlive := h.window.live
    rw [qDelFixedArray, Ring.idx_succ, h.tail, length_tail,
      show xs.length - 1 + 1 = xs.length by omega]

end FArray.Rep

/-! ## The linked list -/

/-- The list cells hold `xs`, with the first `k` handed out. -/
structure LinkList.Rep (l : LinkList μ) (xs : List μ) (k : ℕ) : Prop where
  live : k ≤ xs.length
  cells : ∃ addrs : List ℕ, Chain.Linked l.heap addrs xs ∧ addrs.Nodup ∧ (∀ a ∈ addrs, a < l.brk) ∧
    l.pDelRoot = addrs.head? ∧ l.pDeqRoot = addrs[k]? ∧ l.pLast = addrs.getLast?

namespace LinkList.Rep

variable {l : LinkList μ}

lemma construct : LinkList.Rep (qConstructLinkedList : LinkList μ) [] 0 :=
  ⟨le_rfl, [], trivial, nodup_nil, by simp, rfl, rfl, rfl⟩

lemma qAdd (h : l.Rep xs k) (m : μ) :
    ∃ l', qAddLinkedList l m = some l' ∧ l'.Rep (xs ++ [m]) k := by
  obtain ⟨hlive, addrs, hlinked, hnd, hbrk, hdel, hdeq, hlast⟩ := h
  have hlen := hlinked.length_eq
  have hfresh : l.brk ∉ addrs := fun hmem => lt_irrefl _ (hbrk _ hmem)
  have hlive' : k ≤ (xs ++ [m]).length := by rw [length_append]; omega
  have hbrk' : ∀ a ∈ addrs ++ [l.brk], a < l.brk + 1 := by
    intro a ha
    rcases mem_append.mp ha with ha | ha
    · exact Nat.lt_succ_of_lt (hbrk a ha)
    · rw [mem_singleton.mp ha]; exact Nat.lt_succ_self _
  cases addrs with
  | nil =>
    -- an empty list: all three pointers lead to the new cell
    obtain rfl : xs = [] := eq_nil_of_length_eq_zero hlen.symm
    obtain rfl : k = 0 := Nat.le_zero.mp hlive
    refine ⟨_, by simp only [qAddLinkedList, hdel, head?_nil]; rfl, hlive', [l.brk], ?_,
      nodup_singleton _, by simp, rfl, rfl, rfl⟩
    exact ⟨Function.update_self .., trivial⟩
  | cons a as =>
    obtain ⟨last, hl⟩ : ∃ last, (a :: as).getLast? = some last :=
      ⟨_, getLast?_eq_some_getLast (cons_ne_nil a as)⟩
    obtain ⟨i, hi⟩ : ∃ i, (a :: as)[i]? = some last :=
      mem_iff_getElem?.mp (mem_of_getLast? hl)
    obtain ⟨v, -, hcell⟩ := hlinked.get hi
    have hne : last ≠ l.brk := by
      rintro rfl
      exact hfresh (mem_of_getLast? hl)
    refine ⟨⟨if l.pDeqRoot = none then some l.brk else l.pDeqRoot, l.pDelRoot, some l.brk, _, _⟩,
      ?_, hlive', a :: as ++ [l.brk], hlinked.snoc hnd hl hcell hfresh, ?_, hbrk', hdel, ?_,
      getLast?_concat.symm⟩
    · simp only [qAddLinkedList, hdel, head?_cons, hlast, hl, Option.bind_eq_bind,
        Option.bind_some, Function.update_of_ne hne, hcell]
      rfl
    · refine nodup_append.mpr ⟨hnd, nodup_singleton _, ?_⟩
      rintro b hb c hc rfl
      exact hfresh (mem_singleton.mp hc ▸ hb)
    · rw [hdeq]
      rcases Nat.lt_or_ge k (a :: as).length with hk | hk
      · rw [getElem?_append_left hk, if_neg (by simp [getElem?_eq_getElem hk])]
      · obtain rfl : k = (a :: as).length := le_antisymm (hlen ▸ hlive) hk
        rw [getElem?_eq_none le_rfl, if_pos rfl, getElem?_concat_length]

lemma qDeq (h : l.Rep xs k) (hk : k < xs.length) :
    ∃ l', qDeqLinkedList l = some (xs[k], l') ∧ l'.Rep xs (k + 1) := by
  obtain ⟨-, addrs, hlinked, hnd, hbrk, hdel, hdeq, hlast⟩ := h
  have hk' : k < addrs.length := hlinked.length_eq ▸ hk
  obtain ⟨x, hx, hcell⟩ := hlinked.get (getElem?_eq_getElem hk')
  obtain rfl : xs[k] = x := by rw [getElem?_eq_getElem hk] at hx; exact Option.some.inj hx
  refine ⟨{ l with pDeqRoot := addrs[k + 1]? }, ?_, hk, addrs, hlinked, hnd, hbrk, hdel, rfl, hlast⟩
  simp [qDeqLinkedList, hdeq, getElem?_eq_getElem hk', hcell]

lemma qDel (h : l.Rep xs (k + 1)) : ∃ l', qDelLinkedList l = some l' ∧ l'.Rep xs.tail k := by
  obtain ⟨hlive, addrs, hlinked, hnd, hbrk, hdel, hdeq, hlast⟩ := h
  have hlen := hlinked.length_eq
  have hlive' : k ≤ xs.tail.length := by rw [length_tail]; omega
  cases addrs with
  | nil => exact absurd hlive (by rw [← hlen]; simp)
  | cons a as =>
    have hfree := hlinked.free hnd
    have hbrk' : ∀ b ∈ as, b < l.brk := fun b hb => hbrk b (mem_cons_of_mem a hb)
    cases as with
    | nil =>
      -- the last cell goes: all three pointers are reset
      have hlen1 : xs.length = 1 := hlen.symm
      refine ⟨_, if_pos (by rw [hdel, hlast]; rfl), hlive', [], ?_, nodup_nil, by simp, rfl,
        rfl, rfl⟩
      simpa only [hdel, head?_cons] using hfree
    | cons b bs =>
      have hne : l.pDelRoot ≠ l.pLast := by
        rw [hdel, hlast]
        intro heq
        exact (nodup_cons.mp hnd).1 (mem_of_getLast? heq.symm)
      obtain ⟨x, -, hcell⟩ := hlinked.get (k := 0) (a := a) rfl
      refine ⟨{ l with pDelRoot := some b, heap := _ }, ?_, hlive', b :: bs, hfree,
        (nodup_cons.mp hnd).2, hbrk', rfl, ?_, ?_⟩
      · rw [qDelLinkedList, if_neg hne]
        simp only [hdel, head?_cons, Option.bind_eq_bind, Option.bind_some, hcell]
        rfl
      · rw [hdeq, getElem?_cons_succ]
      · rw [hlast, getLast?_cons_cons]

end LinkList.Rep

/-! ## Every back end -/

/-- The store is the one the queue type asks for and holds `xs`, with the first `k` handed out. -/
def Store.Rep (cfg : QCfg) (xs : List μ) (k : ℕ) : Store μ → Prop
  | .farray a => cfg.qType = .fixedArray ∧ a.Rep cfg.iMaxQueueSize xs k
  | .linklist l => cfg.qType = .linkedList ∧ l.Rep xs k
  | .disk d => cfg.qType = .disk ∧ d.Rep xs k

/-- Writing `ms` does not bring the spool file numbers round. A memory store has no such limit. -/
def Store.Room [QMsg μ] (cfg : QCfg) (ms : List μ) : Store μ → Prop
  | .disk d => d.pWrite.iCurrFNum +
      (ms.map fun m => (flushSizes cfg.sIOBufSize (QMsg.recLen m)).length).sum < iMaxFiles
  | _ => True

instance [QMsg μ] (cfg : QCfg) (ms : List μ) : ∀ s : Store μ, Decidable (s.Room cfg ms)
  | .disk _ => Nat.decLt _ _
  | .farray _ | .linklist _ => .isTrue trivial

namespace Store.Rep

variable {cfg : QCfg} {s : Store μ}

lemma live (h : s.Rep cfg xs k) : k ≤ xs.length := by
  cases s with
  | farray a => exact h.2.window.live
  | linklist l | disk d => exact h.2.live

lemma room_of_memory [QMsg μ] (h : s.Rep cfg xs k) (hmem : cfg.qType ≠ .disk) (ms : List μ) :
    s.Room cfg ms := by
  cases s with
  | disk d => exact absurd h.1 hmem
  | _ => trivial

lemma construct (hmax : cfg.qType = .fixedArray → 1 ≤ cfg.iMaxQueueSize) :
    (Store.construct cfg : Store μ).Rep cfg [] 0 := by
  unfold Store.construct
  split
  case h_1 hq => exact ⟨hq, FArray.Rep.construct (hmax hq)⟩
  case h_2 hq => exact ⟨hq, LinkList.Rep.construct⟩
  case h_3 hq => exact ⟨hq, Disk.Rep.construct⟩

open Store

lemma qAdd [QMsg μ] (h : s.Rep cfg xs k) (m : μ)
    (hslot : 0 < cfg.iMaxQueueSize → xs.length < cfg.iMaxQueueSize) (hroom : s.Room cfg [m]) :
    ∃ s', s.qAdd cfg m = some s' ∧ s'.Rep cfg (xs ++ [m]) k := by
  cases s with
  | farray a =>
    have hcap : 0 < cfg.iMaxQueueSize := Nat.zero_lt_of_lt h.2.window.head_lt
    obtain ⟨a', ha, hrep⟩ := h.2.qAdd (hslot hcap) m
    exact ⟨.farray a', by rw [qAdd, ha]; rfl, h.1, hrep⟩
  | linklist l =>
    obtain ⟨l', hl, hrep⟩ := h.2.qAdd m
    exact ⟨.linklist l', by rw [qAdd, hl]; rfl, h.1, hrep⟩
  | disk d => exact ⟨_, rfl, h.1, h.2.qAdd m (by simpa [Store.Room] using hroom)⟩

lemma qDeq (h : s.Rep cfg xs k) (hk : k < xs.length) :
    ∃ s', s.qDeq cfg = some (.ok xs[k], s') ∧ s'.Rep cfg xs (k + 1) := by
  cases s with
  | farray a =>
    obtain ⟨a', ha, hrep⟩ := h.2.qDeq hk
    exact ⟨.farray a', by rw [qDeq, ha]; rfl, h.1, hrep⟩
  | linklist l =>
    obtain ⟨l', hl, hrep⟩ := h.2.qDeq hk
    exact ⟨.linklist l', by rw [qDeq, hl]; rfl, h.1, hrep⟩
  | disk d =>
    obtain ⟨d', hd, hrep⟩ := h.2.qDeq hk
    exact ⟨.disk d', by rw [qDeq, hd], h.1, hrep⟩

lemma disk_congr {d d' : Disk μ} {ys : List μ} {l : ℕ} (h : (disk d).Rep cfg xs k)
    (hrecs : d'.recs = d.recs) (hwrite : d'.pWrite = d.pWrite) (hread : d'.pReadDeq = d.pReadDeq)
    (hlive : l ≤ ys.length) (hdrop : ys.drop l = xs.drop k) : (disk d').Rep cfg ys l :=
  ⟨h.1, h.2.congr hrecs hwrite hread hlive hdrop⟩

lemma qDel (h : s.Rep cfg xs (k + 1)) : ∃ s', s.qDel cfg = some s' ∧ s'.Rep cfg xs.tail k := by
  cases s with
  | farray a => exact ⟨_, rfl, h.1, h.2.qDel⟩
  | linklist l =>
    obtain ⟨l', hl, hrep⟩ := h.2.qDel
    exact ⟨.linklist l', by rw [qDel, hl]; rfl, h.1, hrep⟩
  | disk d =>
    have hlive := h.live
    refine ⟨_, rfl, h.disk_congr rfl rfl rfl ?_ ?_⟩
    · rw [length_tail]; omega
    · rw [drop_tail]

lemma qDels {n : ℕ} (h : s.Rep cfg xs k) (hn : n ≤ k) :
    ∃ s', s.qDels cfg n = some s' ∧ s'.Rep cfg (xs.drop n) (k - n) := by
  induction n generalizing s xs k with
  | zero => exact ⟨s, rfl, h⟩
  | succ n ih =>
    obtain ⟨k, rfl⟩ : ∃ j, k = j + 1 := ⟨k - 1, by omega⟩
    obtain ⟨t, ht, hrep⟩ := h.qDel
    obtain ⟨u, hu, hrep'⟩ := ih hrep (by omega)
    refine ⟨u, by rw [qDels, ht]; exact hu, ?_⟩
    rwa [drop_tail, show k - n = k + 1 - (n + 1) by omega] at hrep'

lemma readAtWrite (h : s.Rep cfg xs k) (hk : k < xs.length) : s.readAtWrite = false := by
  cases s with
  | disk d => exact decide_eq_false (h.2.pReadDeq_ne_pWrite hk)
  | _ => rfl

lemma deqBegin (h : s.Rep cfg xs k) : s.deqBegin.Rep cfg xs k := by
  cases s with
  | disk d => exact h.disk_congr rfl rfl rfl h.live rfl
  | _ => exact h

lemma deqEnd (h : s.Rep cfg xs k) : s.deqEnd.Rep cfg xs k := by
  cases s with
  | disk d => exact h.disk_congr rfl rfl rfl h.live rfl
  | _ => exact h

end Store.Rep

/-! ## Reading a run of messages -/

/-- Successive logical dequeues, with the messages read and where the dequeue stream stood after
each. -/
inductive Store.Reads (cfg : QCfg) : Store μ → List (μ × Pos) → Store μ → Prop
  | nil (s : Store μ) : Store.Reads cfg s [] s
  | cons {s s₁ s₂ : Store μ} {m : μ} {rs : List (μ × Pos)} (hdeq : s.qDeq cfg = some (.ok m, s₁))
      (hrest : Store.Reads cfg s₁ rs s₂) : Store.Reads cfg s ((m, s₁.readPos) :: rs) s₂

lemma Store.Reads.spec {cfg : QCfg} {s s' : Store μ} {rs : List (μ × Pos)}
    (hreads : Store.Reads cfg s rs s') (h : s.Rep cfg xs k) (hlen : k + rs.length ≤ xs.length) :
    rs.map Prod.fst = (xs.drop k).take rs.length ∧ s'.Rep cfg xs (k + rs.length) := by
  induction hreads generalizing k with
  | nil s => exact ⟨rfl, h⟩
  | @cons s s₁ s₂ m rs hdeq _ ih =>
    rw [length_cons] at hlen
    have hk : k < xs.length := by omega
    obtain ⟨t, ht, hrep⟩ := h.qDeq hk
    obtain ⟨rfl, rfl⟩ : xs[k] = m ∧ t = s₁ := by
      rw [hdeq] at ht
      simpa [eq_comm] using ht
    obtain ⟨hmap, hrep'⟩ := ih hrep (by omega)
    refine ⟨?_, by rwa [length_cons, show k + (rs.length + 1) = k + 1 + rs.length by omega]⟩
    rw [map_cons, length_cons, hmap, drop_eq_getElem_cons hk, take_succ_cons]

end Rsyslog.Queue
