import Rsyslog.Mmanon.Ipv4

/-!
# Consistent replacement of IPv4 addresses

`findip` of `mmanon.c` keeps the replacement of every address in a binary trie that grows as
addresses come in. It branches at the bits from the highest to the second lowest one; the lowest one
selects one of the two texts in the last node.

What a node of the `union` holds is given by its level, and so is the type `Node`. One of the two
fields it has there is selected by a bit of the address, `more` and `ip_high` if it is set.
-/

namespace Rsyslog.Mmanon

open List

/-- A pointer to a node with `n` levels below it. -/
inductive Node : ℕ → Type
  | null {n : ℕ} : Node n
  | ips (text : Bool → Bytes) : Node 0
  | pointer {n : ℕ} (next : Bool → Node n) : Node (n + 1)

/-- Where there is no node, one is allocated and filled with zeros. -/
def Node.text : Node 0 → Bool → Bytes
  | .null, _ => []
  | .ips text, bit => text bit

def Node.next {n : ℕ} : Node (n + 1) → Bool → Node n
  | .null, _ => .null
  | .pointer next, bit => next bit

/-- `code_int` in mode `random`. -/
def code_int_random (bits ip random : ℕ) : ℕ := (code_int bits ip + random) % 2 ^ 32

/-- The node with the path to an address, and the text there, which is `ip` if there was none. -/
def findText (ip : Bytes) (num : ℕ) : (n : ℕ) → Node n → Node n × Bytes
  | 0, node =>
    let bit := num.testBit 0
    let found := if node.text bit = [] then ip else node.text bit
    (.ips (Function.update node.text bit found), found)
  | n + 1, node =>
    let bit := num.testBit (n + 1)
    let (current, found) := findText ip num n (node.next bit)
    (.pointer (Function.update node.next bit current), found)

/-- `random` is the number that is drawn if the address has no replacement yet. -/
def findip (bits : ℕ) (Root : Node 31) (address : Bytes) (random : ℕ) : Node 31 × Bytes :=
  let num := ipv42num address
  findText (num2ipv4 (code_int_random bits num random)) num 31 Root

/-- The replacements of the addresses of a run. -/
def replacements (bits : ℕ) : Node 31 → List (DottedQuad × ℕ) → List Bytes
  | _, [] => []
  | Root, (q, random) :: calls =>
    let (Root, text) := findip bits Root q.text random
    text :: replacements bits Root calls

/-- The text that is kept for an address, empty if there is none. -/
def slot (num : ℕ) : (n : ℕ) → Node n → Bytes
  | 0, node => node.text (num.testBit 0)
  | n + 1, node => slot num n (node.next (num.testBit (n + 1)))

lemma slot_null (num n : ℕ) : slot num n .null = [] := by
  induction n with
  | zero => rfl
  | succ n ih => exact ih

/-- What is found is kept for the addresses with the same bits, and for no others. -/
lemma findText_spec (ip : Bytes) (num m : ℕ) (n : ℕ) (node : Node n) :
    (findText ip num n node).2 = (if slot num n node = [] then ip else slot num n node) ∧
      slot m n (findText ip num n node).1 =
        if ∀ k ≤ n, m.testBit k = num.testBit k then (findText ip num n node).2
        else slot m n node := by
  induction n with
  | zero =>
    refine ⟨rfl, ?_⟩
    simp [findText, slot, Node.text, Function.update_apply]
  | succ n ih =>
    obtain ⟨htext, hslot⟩ := ih (node.next (num.testBit (n + 1)))
    refine ⟨htext, ?_⟩
    change slot m n (Function.update node.next _ _ _) = if _ then _ else slot m n (node.next _)
    rw [Function.update_apply]
    by_cases hbit : m.testBit (n + 1) = num.testBit (n + 1)
    · have hbits : (∀ k ≤ n + 1, m.testBit k = num.testBit k) ↔
          ∀ k ≤ n, m.testBit k = num.testBit k := by
        simp [Nat.le_succ_iff, or_imp, forall_and, hbit]
      rw [if_pos hbit, hslot, hbit]
      simp only [hbits]
      rfl
    · rw [if_neg hbit, if_neg fun h => hbit (h _ le_rfl)]

/-- The text is an address with the same upper bits. -/
def Replaces (bits num : ℕ) (text : Bytes) : Prop :=
  ∃ ip < 2 ^ 32, text = num2ipv4 ip ∧ ip / 2 ^ bits = num / 2 ^ bits

variable {bits num random : ℕ}

lemma Replaces.ne_nil {text : Bytes} (h : Replaces bits num text) : text ≠ [] := by
  obtain ⟨ip, -, rfl, -⟩ := h
  simp [num2ipv4]

lemma replaces_random (hbits : bits ≤ 32) (hnum : num < 2 ^ 32) (hrandom : random < 2 ^ bits) :
    Replaces bits num (num2ipv4 (code_int_random bits num random)) := by
  have hlt : num / 2 ^ bits < 2 ^ (32 - bits) := by
    rwa [Nat.div_lt_iff_lt_mul (Nat.two_pow_pos bits), ← pow_add, Nat.sub_add_cancel hbits]
  have hsum := Nat.mul_le_mul_right (2 ^ bits) hlt
  rw [← pow_add, Nat.sub_add_cancel hbits, Nat.succ_mul] at hsum
  have hcode : code_int_random bits num random = num / 2 ^ bits * 2 ^ bits + random := by
    rw [code_int_random, code_int, Nat.shiftRight_eq_div_pow, Nat.shiftLeft_eq]
    omega
  refine ⟨_, by omega, rfl, ?_⟩
  rw [hcode, mul_comm, Nat.mul_add_div (Nat.two_pow_pos bits), Nat.div_eq_of_lt hrandom, add_zero]

lemma DottedQuad.num_lt (q : DottedQuad) : q.num < 2 ^ 32 := by
  have ha := q.a.value_le
  have hb := q.b.value_le
  have hc := q.c.value_le
  have hd := q.d.value_le
  rw [DottedQuad.num]
  omega

lemma eq_of_testBit {m : ℕ} (hm : m < 2 ^ 32) (hnum : num < 2 ^ 32)
    (h : ∀ k ≤ 31, m.testBit k = num.testBit k) : m = num := by
  refine Nat.eq_of_testBit_eq fun k => ?_
  by_cases hk : k ≤ 31
  · exact h k hk
  · have hpow : 2 ^ 32 ≤ 2 ^ k := Nat.pow_le_pow_right (by decide) (by omega)
    rw [Nat.testBit_lt_two_pow (by omega), Nat.testBit_lt_two_pow (by omega)]

lemma findip_spec (bits : ℕ) (Root : Node 31) (q : DottedQuad) (random : ℕ) :
    (findip bits Root q.text random).2 = (if slot q.num 31 Root = [] then
        num2ipv4 (code_int_random bits q.num random) else slot q.num 31 Root) ∧
      ∀ m < 2 ^ 32, slot m 31 (findip bits Root q.text random).1 =
        if m = q.num then (findip bits Root q.text random).2 else slot m 31 Root := by
  rw [findip, ipv42num_quad]
  refine ⟨(findText_spec _ q.num 0 31 Root).1, fun m hm => ?_⟩
  have hbits : (∀ k ≤ 31, m.testBit k = q.num.testBit k) ↔ m = q.num :=
    ⟨eq_of_testBit hm q.num_lt, fun h _ _ => by rw [h]⟩
  rw [(findText_spec _ q.num m 31 Root).2]
  simp only [hbits]

lemma exists_replacements (hbits : bits ≤ 32) (calls : List (DottedQuad × ℕ))
    (hrandom : ∀ c ∈ calls, c.2 < 2 ^ bits) {Root : Node 31}
    (hroot : ∀ m < 2 ^ 32, slot m 31 Root ≠ [] → Replaces bits m (slot m 31 Root)) :
    ∃ f : ℕ → Bytes, replacements bits Root calls = calls.map (fun c => f c.1.num) ∧
      (∀ m < 2 ^ 32, slot m 31 Root ≠ [] → f m = slot m 31 Root) ∧
      ∀ c ∈ calls, Replaces bits c.1.num (f c.1.num) := by
  induction calls generalizing Root with
  | nil => exact ⟨fun m => slot m 31 Root, rfl, fun _ _ _ => rfl, fun _ h => absurd h not_mem_nil⟩
  | cons c calls ih =>
    obtain ⟨hc, hcalls⟩ := forall_mem_cons.mp hrandom
    have hlt := c.1.num_lt
    obtain ⟨hfound, hslot⟩ := findip_spec bits Root c.1 c.2
    have hgood : Replaces bits c.1.num (findip bits Root c.1.text c.2).2 := by
      rw [hfound]
      split_ifs with h
      · exact replaces_random hbits hlt hc
      · exact hroot _ hlt h
    have hroot' : ∀ m < 2 ^ 32, slot m 31 (findip bits Root c.1.text c.2).1 ≠ [] →
        Replaces bits m (slot m 31 (findip bits Root c.1.text c.2).1) := by
      intro m hm h
      rw [hslot m hm] at h ⊢
      split_ifs at h ⊢ with heq
      · rwa [heq]
      · exact hroot m hm h
    obtain ⟨f, hmap, hkept, hf⟩ := ih hcalls hroot'
    have hhead : f c.1.num = (findip bits Root c.1.text c.2).2 := by
      have hself := (hslot _ hlt).trans (if_pos rfl)
      rw [hkept _ hlt (by rw [hself]; exact hgood.ne_nil), hself]
    refine ⟨f, ?_, fun m hm h => ?_, forall_mem_cons.mpr ⟨by rwa [hhead], hf⟩⟩
    · rw [replacements, map_cons, hhead, ← hmap]
    · by_cases heq : m = c.1.num
      · rw [heq] at h ⊢
        rw [hhead, hfound, if_neg h]
      · have hsame := (hslot m hm).trans (if_neg heq)
        rw [hkept m hm (by rwa [hsame]), hsame]

/-- All occurrences of an address are replaced by the same text, which is an address with the same
upper bits. -/
theorem replacements_consistent (bits : ℕ) (hbits : bits ≤ 32) (calls : List (DottedQuad × ℕ))
    (hrandom : ∀ c ∈ calls, c.2 < 2 ^ bits) :
    ∃ f : ℕ → Bytes, replacements bits .null calls = calls.map (fun c => f c.1.num) ∧
      ∀ c ∈ calls, Replaces bits c.1.num (f c.1.num) := by
  have hnull (m : ℕ) (_ : m < 2 ^ 32) (h : slot m 31 .null ≠ []) :
      Replaces bits m (slot m 31 .null) := absurd (slot_null m 31) h
  obtain ⟨f, hmap, -, hf⟩ := exists_replacements hbits calls hrandom hnull
  exact ⟨f, hmap, hf⟩

theorem replacements_consistent_twice :
    ∃ f : ℕ → Bytes, replacements 8 .null [(lastDigit 52 rfl, 3), (lastDigit 52 rfl, 7)] =
      [f (lastDigit 52 rfl).num, f (lastDigit 52 rfl).num] := by
  obtain ⟨f, hmap, -⟩ := replacements_consistent 8 (by decide)
    [(lastDigit 52 rfl, 3), (lastDigit 52 rfl, 7)] (by simp)
  exact ⟨f, hmap⟩

end Rsyslog.Mmanon
