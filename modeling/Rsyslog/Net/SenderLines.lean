import Mathlib.Data.List.Forall2
import Rsyslog.Net.AllowedSender

/-!
# Who may send

The lines of a configuration that list addresses permit the senders that agree with one of the
addresses in as many bits as are configured (`permitted_iff`). A number of bits that is not valid
for the address stands for all of its bits.

The number is kept in eight bits before it is checked, so of a number that does not fit only the
remainder counts: `10.0.0.0/257` permits half of all addresses. Such numbers are left out here
(`IpEntry.Stored`).
-/

namespace Rsyslog.Net

open Lib List
open Option (map_some)

/-! ## Entries -/

inductive IpAddr
  | v4 (addr : BitVec 32)
  | v6 (addr : In6Addr) (scope : UInt32)

namespace IpAddr

def sockAddr : IpAddr → SockAddr
  | .v4 a => .inet a
  | .v6 a scope => .inet6 a scope

def length : IpAddr → ℕ
  | .v4 _ => 32
  | .v6 _ _ => 128

end IpAddr

/-- An address as it is configured, with the number behind the slash if there is one. -/
structure IpEntry where
  addr : IpAddr
  bits : Option ℕ

namespace IpEntry

def agreeing (e : IpEntry) : ℕ :=
  match e.bits with
  | none => e.addr.length
  | some n => if 1 ≤ n ∧ n ≤ e.addr.length then n else e.addr.length

/-- The number fits into an `int` when it is read, and it is not taken for a smaller one that is
valid when it is cut to eight bits. -/
def Stored (e : IpEntry) : Prop :=
  ∀ n ∈ e.bits, n + 48 < 2 ^ 31 ∧ (n < 256 ∨ n % 256 = 0 ∨ e.addr.length ≤ n % 256)

variable (env : Env)

/-- The first bits of sender and address are the same. An address with a scope is compared with its
scope. -/
def Permits (e : IpEntry) (pFrom : SockAddr) : Prop :=
  match e.addr, pFrom with
  | .v4 a, .inet ip =>
    ∀ i < e.agreeing, (env.order.htonl ip).getMsbD i = (env.order.htonl a).getMsbD i
  | .v4 a, .inet6 ip _ =>
    Mapped env ip ∧
      ∀ i < e.agreeing, (env.order.htonl (lastWord ip)).getMsbD i = (env.order.htonl a).getMsbD i
  | .v6 a scope, .inet6 ip fromScope =>
    (∀ i < e.agreeing,
      wordBit (fun j => env.order.htonl (ip j)) i = wordBit (fun j => env.order.htonl (a j)) i) ∧
      (scope = 0 ∨ fromScope = scope)
  | _, _ => False

end IpEntry

variable {bits : UInt8}

section Masks

variable (env : Env) (o : ByteOrder)

lemma htonl_htonl : Function.Involutive o.htonl := by
  cases o with
  | little => exact swap_swap
  | big => exact fun _ => rfl

lemma htonl_and (x y : BitVec 32) : o.htonl (x &&& y) = o.htonl x &&& o.htonl y := by
  cases o with
  | little => exact swap_and x y
  | big => rfl

lemma htonl_zero : o.htonl 0 = 0 := by
  cases o <;> rfl

lemma shiftOnes_eq {b : ℕ} (hpos : 0 < b) (hle : b ≤ 32) :
    shiftOnes (32 - (b : ℤ)) = some (high 32 b) := by
  have htoNat : (32 - (b : ℤ)).toNat = 32 - b := by omega
  rw [shiftOnes, if_pos (by omega), htoNat, high]

lemma htonl_and_mask (x : BitVec 32) (b : ℕ) :
    o.htonl (x &&& o.htonl (high 32 b)) = o.htonl x &&& high 32 b := by
  rw [htonl_and, htonl_htonl o]

lemma maskIP6_eq (addr : In6Addr) (hle : bits.toNat ≤ 128) :
    ∃ net, maskIP6 env addr bits = some net ∧
      (fun j => env.order.htonl (net j)) =
        maskWords bits.toNat fun j => env.order.htonl (addr j) := by
  unfold maskIP6
  by_cases hmod : bits.toNat % 32 = 0
  · refine ⟨_, if_pos hmod, ?_⟩
    funext j
    simp only [clearFrom, maskWords, hmod, and_high_zero, ite_self]
    split
    · rfl
    · exact htonl_zero _
  · have hi : bits.toNat / 32 < 4 := by omega
    have hmask : shiftOnes (32 - (bits.toNat : ℤ) % 32) = some (high 32 (bits.toNat % 32)) := by
      rw [← shiftOnes_eq (by omega) (by omega)]
      rfl
    refine ⟨_, by rw [if_neg hmod, dif_pos hi, hmask, map_some], ?_⟩
    funext j
    by_cases hj : j = ⟨bits.toNat / 32, hi⟩
    · subst hj
      simp [clearFrom, maskWords, htonl_and_mask]
    · have hne : (j : ℕ) ≠ bits.toNat / 32 := fun h => hj (Fin.ext h)
      simp only [clearFrom, maskWords, Function.update_of_ne hj, if_neg hne]
      by_cases hlt : (j : ℕ) < bits.toNat / 32
      · rw [if_pos (by omega), if_pos hlt]
      · rw [if_neg (by omega), if_neg hlt]
        exact htonl_zero _

end Masks

/-! ## The list -/

variable {es : List IpEntry}

section List

variable (env : Env)

lemma IpAddr.length_cases (a : IpAddr) : a.length = 32 ∨ a.length = 128 := by
  cases a with
  | v4 => exact .inl rfl
  | v6 => exact .inr rfl

lemma IpEntry.agreeing_bounds (e : IpEntry) : 0 < e.agreeing ∧ e.agreeing ≤ e.addr.length := by
  have hlen := e.addr.length_cases
  unfold agreeing
  split
  · omega
  · split <;> omega

lemma toNat_adjustBits {e : IpEntry} (h : e.Stored) :
    (adjustBits e.addr.length (UInt8.ofNat (e.bits.getD e.addr.length))).toNat = e.agreeing := by
  have hlen := e.addr.length_cases
  unfold adjustBits IpEntry.agreeing
  cases hbits : e.bits with
  | none =>
    simp only [Option.getD_none, UInt8.toNat_ofNat']
    rw [if_neg (by omega), UInt8.toNat_ofNat']
    omega
  | some n =>
    have hn := h n hbits
    simp only [Option.getD_some, UInt8.toNat_ofNat']
    by_cases hvalid : 1 ≤ n ∧ n ≤ e.addr.length
    · rw [if_pos hvalid, if_neg (by omega), UInt8.toNat_ofNat']
      omega
    · split <;> rw [UInt8.toNat_ofNat'] <;> omega

/-- An entry of the list permits the senders that a configured entry does. -/
def Holds (s : AllowedSender) (e : IpEntry) : Prop :=
  ∀ pFrom pszFromHost bChkDNS, ∃ b, maskCmp env s pFrom pszFromHost bChkDNS = some (.ofBool b) ∧
    (b = true ↔ e.Permits env pFrom)

lemma mapped_iff (ip : In6Addr) :
    IpEntry.Mapped env ip ↔
      ip 2 = (match env.order with | .little => 0xffff0000 | .big => 0x0000ffff) ∧
        ip 1 = 0 ∧ ip 0 = 0 := by
  have hword : env.order.htonl 0xffff =
      (match env.order with | .little => 0xffff0000 | .big => 0x0000ffff) := by
    cases env.order <;> decide
  simp only [IpEntry.Mapped, (htonl_htonl env.order).eq_iff, htonl_zero, hword]
  exact ⟨fun h => ⟨h.2.2, h.2.1, h.1⟩, fun h => ⟨h.2.2, h.2.1, h.1⟩⟩

lemma holds_inet {e : IpEntry} {a : BitVec 32} (haddr : e.addr = .v4 a)
    (hbits : bits.toNat = e.agreeing) :
    ∃ net, maskIP4 env a bits = some net ∧ Holds env ⟨.netAddr (.inet net), bits⟩ e := by
  have hbounds := e.agreeing_bounds
  rw [haddr, ← hbits, IpAddr.length] at hbounds
  have hmask := shiftOnes_eq hbounds.1 hbounds.2
  have hagrees (ip : BitVec 32) : ip &&& env.order.htonl (high 32 bits.toNat) =
      a &&& env.order.htonl (high 32 bits.toNat) ↔
      ∀ i < bits.toNat, (env.order.htonl ip).getMsbD i = (env.order.htonl a).getMsbD i := by
    rw [← (htonl_htonl env.order).injective.eq_iff, htonl_and_mask, htonl_and_mask,
      and_high_eq_iff hbounds.2]
  refine ⟨_, by rw [maskIP4, hmask, map_some], fun pFrom pszFromHost bChkDNS => ?_⟩
  cases pFrom with
  | inet ip =>
    refine ⟨_, (by simp only [maskCmp, hmask, map_some]; rfl), ?_⟩
    simp only [IpEntry.Permits, haddr, ← hbits, beq_iff_eq, hagrees]
  | inet6 ip scope =>
    refine ⟨_, (by simp only [maskCmp, hmask, map_some]; rfl), ?_⟩
    simp only [IpEntry.Permits, haddr, ← hbits, mapped_iff, Bool.and_eq_true, beq_iff_eq, hagrees]
    tauto
  | other =>
    refine ⟨false, rfl, ?_⟩
    simp [IpEntry.Permits, haddr]

lemma holds_inet6 {e : IpEntry} {a : In6Addr} {scope : UInt32} (haddr : e.addr = .v6 a scope)
    (hbits : bits.toNat = e.agreeing) :
    ∃ net, maskIP6 env a bits = some net ∧ Holds env ⟨.netAddr (.inet6 net scope), bits⟩ e := by
  have hbounds := e.agreeing_bounds
  rw [haddr, ← hbits] at hbounds
  obtain ⟨net, hnet, hwords⟩ := maskIP6_eq env a hbounds.2
  refine ⟨net, hnet, fun pFrom pszFromHost bChkDNS => ?_⟩
  cases pFrom with
  | inet ip =>
    refine ⟨false, rfl, ?_⟩
    simp [IpEntry.Permits, haddr]
  | inet6 ip fromScope =>
    obtain ⟨masked, hmasked, hwords'⟩ := maskIP6_eq env ip hbounds.2
    refine ⟨_, (by simp only [maskCmp, hmasked, map_some]; rfl), ?_⟩
    have hagrees : (∀ j, masked j = net j) ↔ ∀ i < bits.toNat,
        wordBit (fun j => env.order.htonl (ip j)) i =
          wordBit (fun j => env.order.htonl (a j)) i := by
      rw [← maskWords_eq_iff (by omega) hbounds.2, ← hwords, ← hwords', funext_iff]
      exact forall_congr' fun j => (htonl_htonl env.order).injective.eq_iff.symm
    have hscope : (if scope ≠ 0 then fromScope == scope else true) = true ↔
        scope = 0 ∨ fromScope = scope := by
      by_cases h0 : scope = 0 <;> simp [h0]
    simp [IpEntry.Permits, haddr, ← hbits, hagrees]
  | other =>
    refine ⟨false, rfl, ?_⟩
    simp [IpEntry.Permits, haddr]

lemma addAllowedSender_holds {e : IpEntry}
    (h : (adjustBits e.addr.length bits).toNat = e.agreeing) (root : List AllowedSender) :
    ∃ s, addAllowedSender env root (.netAddr e.addr.sockAddr) bits = some (.ok, root ++ [s]) ∧
      Holds env s e := by
  cases haddr : e.addr with
  | v4 a =>
    rw [haddr, IpAddr.length] at h
    obtain ⟨net, hnet, hholds⟩ := holds_inet env haddr h
    refine ⟨_, ?_, hholds⟩
    simp [addAllowedSender, IpAddr.sockAddr, hnet, addAllowedSenderEntry]
  | v6 a scope =>
    rw [haddr, IpAddr.length] at h
    obtain ⟨net, hnet, hholds⟩ := holds_inet6 env haddr h
    refine ⟨_, ?_, hholds⟩
    simp [addAllowedSender, IpAddr.sockAddr, hnet, addAllowedSenderEntry]

lemma checkList_iff {ss : List AllowedSender} (h : List.Forall₂ (Holds env) ss es)
    (pFrom : SockAddr) (pszFromHost : Bytes) (bChkDNS : Bool) :
    ∃ b, checkList env pFrom pszFromHost bChkDNS .denied ss = some (.ofBool b) ∧
      (b = true ↔ ∃ e ∈ es, e.Permits env pFrom) := by
  induction h with
  | nil => exact ⟨false, rfl, by simp⟩
  | cons hs _ ih =>
    obtain ⟨b, hcmp, hiff⟩ := hs pFrom pszFromHost bChkDNS
    obtain ⟨b', hrest, hiff'⟩ := ih
    rw [exists_mem_cons_iff, ← hiff, ← hiff', checkList, hcmp]
    cases b with
    | false => exact ⟨b', hrest, by simp⟩
    | true => exact ⟨true, rfl, by simp⟩

end List

/-! ## Lines -/

section

variable (env : Env) (behind : UInt8)

def value (digits : Bytes) : ℕ := digits.foldl (fun n c => n * 10 + (c.toNat - 48)) 0

/-- A text that `getaddrinfo` takes for an address, in brackets if it is one of IPv6. -/
inductive AddrText : Bytes → IpAddr → Prop
  | v4 {text : Bytes} {a : BitVec 32} :
    text.head? ≠ some 91 → env.numeric4 text = .found a → AddrText text (.v4 a)
  | v6 {inner : Bytes} {a : In6Addr} {scope : UInt32} :
    93 ∉ inner → env.numeric6 inner = .found (a, scope) →
      AddrText (91 :: (inner ++ [93])) (.v6 a scope)

inductive BitsText : Bytes → Option ℕ → Prop
  | none : BitsText [] none
  | some {digits : Bytes} :
    digits ≠ [] → (∀ c ∈ digits, isDigit c = true) → BitsText (47 :: digits) (some (value digits))

def isSep (c : UInt8) : Bool := c == 44 || isspace c

/-- An entry in front of the rest of a line. It ends with a separator or with the line, and behind
an address without bits at the very end of the line there does not happen to be a slash in the
buffer. -/
structure EntryText (e : IpEntry) (rest : Bytes) where
  addr : Bytes
  bits : Bytes
  sep : Bytes
  isAddr : AddrText env addr e.addr
  inAddr : ∀ c ∈ addr, inAddr c = true
  ne_nil : addr ≠ []
  ne_comment : addr.head? ≠ some 35
  isBits : BitsText bits e.bits
  isSep : ∀ c ∈ sep, isSep c = true
  cut : sep ≠ [] ∨ rest = []
  behind_ne : e.bits = none → sep = [] → behind ≠ 47

variable {env behind} in
def EntryText.text {e : IpEntry} {rest : Bytes} (t : EntryText env behind e rest) :
    Bytes := t.addr ++ (t.bits ++ (t.sep ++ rest))

inductive Written : Bytes → List IpEntry → Prop
  | done : Written [] []
  | comment (text : Bytes) : Written (35 :: text) []
  | entry {e : IpEntry} {rest : Bytes} {es : List IpEntry}
    (t : EntryText env behind e rest) : Written rest es → Written t.text (e :: es)

variable {text : Bytes}

lemma parsAddr_eq {a : IpAddr} (h : AddrText env text a) :
    parsAddr env text = .ok (.netAddr a.sockAddr, a.length) := by
  cases h with
  | v4 hhead hfound => simp [parsAddr, hhead, hfound, IpAddr.sockAddr, IpAddr.length]
  | v6 hmem hfound =>
    rename_i inner a scope
    have hinner : (inner ++ [93]).takeWhile (· != 93) = inner := by
      have hne : ∀ c ∈ inner, (c != 93) = true := by
        intro c hc
        simpa using ne_of_mem_of_not_mem hc hmem
      rw [takeWhile_append_of_pos hne]
      simp
    simp [parsAddr, hinner, hfound, IpAddr.sockAddr, IpAddr.length]

lemma le_foldl_digits (n : ℕ) (digits : Bytes) :
    n ≤ digits.foldl (fun n c => n * 10 + (c.toNat - 48)) n := by
  induction digits generalizing n with
  | nil => exact Nat.le_refl n
  | cons c digits ih =>
    have := ih (n * 10 + (c.toNat - 48))
    rw [foldl_cons]
    omega

variable {tail : Bytes}

lemma parsDigits_eq {digits : Bytes} (hdigits : ∀ c ∈ digits, isDigit c = true)
    (htail : ∀ c ∈ tail.head?, isDigit c = false) (n : ℕ)
    (hfits : digits.foldl (fun n c => n * 10 + (c.toNat - 48)) n + 48 < 2 ^ 31) :
    parsDigits n (digits ++ tail) =
      some (digits.foldl (fun n c => n * 10 + (c.toNat - 48)) n, tail) := by
  induction digits generalizing n with
  | nil =>
    cases tail with
    | nil => rfl
    | cons c tail => simp [parsDigits, htail c rfl]
  | cons c digits ih =>
    have hc := hdigits c mem_cons_self
    have hc48 := (isDigit_iff.1 hc).1
    have hle := le_foldl_digits (n * 10 + (c.toNat - 48)) digits
    rw [foldl_cons] at hfits ⊢
    have hstep : n * 10 + c.toNat - 48 = n * 10 + (c.toNat - 48) := by omega
    rw [cons_append, parsDigits, if_pos hc, if_pos (by omega), hstep]
    exact ih (fun d hd => hdigits d (mem_cons_of_mem _ hd)) _ hfits

lemma parsBits_eq {bits : Option ℕ} (h : BitsText text bits) (hfits : ∀ n ∈ bits, n + 48 < 2 ^ 31)
    (htail : ∀ c ∈ tail.head?, isDigit c = false) (hslash : bits = none → tail.headD behind ≠ 47)
    (single : ℕ) : parsBits behind single (text ++ tail) = .ok (bits.getD single, tail) := by
  cases h with
  | none =>
    rw [nil_append, parsBits, if_neg (hslash rfl)]
    rfl
  | some hne hdigits =>
    rename_i digits
    have hread := parsDigits_eq hdigits htail 0 (hfits _ rfl)
    cases digits with
    | nil => exact absurd rfl hne
    | cons c digits =>
      rw [cons_append] at hread
      simp [parsBits, hdigits c mem_cons_self, hread, value]

lemma takeWhile_append_eq {p : UInt8 → Bool} (htext : ∀ c ∈ text, p c = true)
    (htail : ∀ c ∈ tail.head?, p c = false) :
    (text ++ tail).takeWhile p = text ∧ (text ++ tail).dropWhile p = tail := by
  rw [takeWhile_append_of_pos htext, dropWhile_append_of_pos htext]
  cases tail with
  | nil => simp
  | cons c tail => simp [htail c rfl]

lemma isSep_facts {c : UInt8} : isSep c = true → inAddr c = false ∧ isDigit c = false ∧ c ≠ 47 :=
  forall_octet c.toNat_lt (by decide +kernel)

lemma BitsText.head_append {bits : Option ℕ} (h : BitsText text bits)
    (htail : ∀ c ∈ tail.head?, inAddr c = false) :
    ∀ c ∈ (text ++ tail).head?, inAddr c = false := by
  cases h with
  | none => exact htail
  | some _ _ =>
    intro c hc
    cases hc
    rfl

namespace EntryText

variable {env behind} {e : IpEntry} {rest : Bytes} (t : EntryText env behind e rest)

include t

lemma exists_cons : ∃ c cs, t.text = c :: cs ∧ Net.inAddr c = true ∧ c ≠ 35 := by
  obtain ⟨c, addr, haddr⟩ := exists_cons_of_ne_nil t.ne_nil
  refine ⟨c, addr ++ (t.bits ++ (t.sep ++ rest)), ?_, ?_, ?_⟩
  · rw [text, haddr, cons_append]
  · exact t.inAddr c (haddr ▸ mem_cons_self)
  · rintro rfl
    exact t.ne_comment (by rw [haddr]; rfl)

lemma tail_head : ∀ c ∈ (t.sep ++ rest).head?,
    Net.inAddr c = false ∧ isDigit c = false ∧ c ≠ 47 := by
  intro c hc
  cases hsep : t.sep with
  | nil =>
    rw [hsep, t.cut.resolve_left (not_not.2 hsep)] at hc
    cases hc
  | cons d sep =>
    rw [hsep] at hc
    cases hc
    exact isSep_facts (t.isSep _ (hsep ▸ mem_cons_self))

lemma parsAddrWithBits_eq (hrest : ∀ c ∈ rest.head?, Net.isSep c = false) (h : e.Stored) :
    parsAddrWithBits env behind t.text =
      .ok (.netAddr e.addr.sockAddr, e.bits.getD e.addr.length, rest) := by
  have hspace : t.text.dropWhile isspace = t.text := by
    obtain ⟨c, cs, htext, hc, -⟩ := t.exists_cons
    simp only [Net.inAddr, Bool.and_eq_true, Bool.not_eq_true'] at hc
    rw [htext, dropWhile_cons_of_neg (by rw [hc.2]; decide)]
  have haddr := takeWhile_append_eq t.inAddr (t.isBits.head_append fun c hc => (t.tail_head c hc).1)
  have hslash : e.bits = none → (t.sep ++ rest).headD behind ≠ 47 := by
    intro hnone
    cases htail : t.sep ++ rest with
    | nil => exact t.behind_ne hnone (append_eq_nil_iff.1 htail).1
    | cons c cs => exact (t.tail_head c (by rw [htail]; rfl)).2.2
  have hbits := parsBits_eq behind t.isBits (fun n hn => (h n hn).1)
    (fun c hc => (t.tail_head c hc).2.1) hslash e.addr.length
  refine (parsAddrWithBits_eq_ok env).2 ⟨e.addr.length, t.sep ++ rest, ?_, ?_, ?_⟩
  · rw [hspace, text, haddr.1, parsAddr_eq env t.isAddr]
  · rw [hspace, text, haddr.2, hbits]
  · exact (takeWhile_append_eq t.isSep hrest).2.symm

end EntryText

lemma Written.not_isSep (h : Written env behind text es) : ∀ c ∈ text.head?, isSep c = false := by
  cases h with
  | done => simp
  | comment => simp [isSep, isspace]
  | entry t _ =>
    intro c hc
    obtain ⟨d, cs, htext, hin, -⟩ := t.exists_cons
    rw [htext] at hc
    cases hc
    by_contra hsep
    rw [Bool.not_eq_false] at hsep
    rw [(isSep_facts hsep).1] at hin
    cases hin

lemma Written.exists_cons (h : Written env behind text es) (hne : es ≠ []) :
    ∃ c cs, text = c :: cs ∧ c ≠ 35 := by
  cases h with
  | done | comment => exact absurd rfl hne
  | entry t _ =>
    obtain ⟨c, cs, htext, -, hc⟩ := t.exists_cons
    exact ⟨c, cs, htext, hc⟩

lemma lineLoop_eq (h : Written env behind text es) (hstored : ∀ e ∈ es, e.Stored)
    (root : List AllowedSender) :
    ∃ rest ss, lineLoop env behind root text = (.ok rest, root ++ ss) ∧
      List.Forall₂ (Holds env) ss es := by
  induction h generalizing root with
  | done => exact ⟨[], [], by simp [lineLoop], .nil⟩
  | comment text => exact ⟨35 :: text, [], by simp [lineLoop], .nil⟩
  | @entry e rest es t hrest ih =>
    have he : e.Stored := hstored e mem_cons_self
    obtain ⟨s, hadd, hs⟩ := addAllowedSender_holds env (toNat_adjustBits he) root
    obtain ⟨left, ss, hloop, hss⟩ :=
      ih (fun e he => hstored e (mem_cons_of_mem _ he)) (root ++ [s])
    have hread := t.parsAddrWithBits_eq (Written.not_isSep env behind hrest) he
    obtain ⟨c, cs, htext, -, hc⟩ := t.exists_cons
    rw [htext] at hread ⊢
    refine ⟨left, s :: ss, ?_, .cons hs hss⟩
    simp [lineLoop_cons env hc, hread, hadd, hloop, append_assoc]

lemma lineLoop_blanks {blanks : Bytes} (hblanks : ∀ c ∈ blanks, isspace c = true)
    (htext : blanks ≠ [] → ∃ c cs, text = c :: cs ∧ c ≠ 35) (root : List AllowedSender) :
    lineLoop env behind root (blanks ++ text) = lineLoop env behind root text := by
  cases blanks with
  | nil => rfl
  | cons b blanks =>
    obtain ⟨c, cs, rfl, hc⟩ := htext (cons_ne_nil _ _)
    have hb : b ≠ 35 := by
      rintro rfl
      exact absurd (hblanks 35 mem_cons_self) (by decide)
    have hread : parsAddrWithBits env behind (b :: (blanks ++ c :: cs)) =
        parsAddrWithBits env behind (c :: cs) := by
      rw [← cons_append]
      simp only [parsAddrWithBits, dropWhile_append_of_pos hblanks]
    rw [cons_append, lineLoop_cons env hb, lineLoop_cons env hc, hread]

end

/-! ## The configuration -/

inductive Proto
  | udp | tcp | gss
  deriving DecidableEq

namespace Proto

def name : Proto → String
  | .udp => "udp"
  | .tcp => "tcp"
  | .gss => "gss"

def type : Proto → String
  | .udp => "UDP"
  | .tcp => "TCP"
  | .gss => "GSS"

def Known (env : Env) (proto : Proto) : Prop := proto = .gss → env.useGssapi = true

end Proto

def AllowRoots.get (roots : AllowRoots) : Proto → List AllowedSender
  | .udp => roots.udp
  | .tcp => roots.tcp
  | .gss => roots.gss

structure IpLine (env : Env) where
  pName : Bytes
  blanks : Bytes
  text : Bytes
  behind : UInt8
  proto : Proto
  entries : List IpEntry
  known : proto.Known env
  named : isNamed pName proto.name = true
  isspace : ∀ c ∈ blanks, isspace c = true
  written : Written env behind text entries
  listed : blanks ≠ [] → entries ≠ []
  stored : ∀ e ∈ entries, e.Stored

section Config

variable {env : Env}

def IpLine.conf (line : IpLine env) : ConfLine :=
  ⟨line.pName, line.blanks ++ line.text, line.behind⟩

def entriesFor (proto : Proto) (lines : List (IpLine env)) : List IpEntry :=
  lines.flatMap fun line => if line.proto = proto then line.entries else []

lemma IpLine.lineLoop_eq (line : IpLine env) (root : List AllowedSender) :
    ∃ rest ss, lineLoop env line.conf.behind root line.conf.text = (.ok rest, root ++ ss) ∧
      List.Forall₂ (Holds env) ss line.entries := by
  have hcons : line.blanks ≠ [] → ∃ c cs, line.text = c :: cs ∧ c ≠ 35 := fun hne =>
    Written.exists_cons env line.behind line.written (line.listed hne)
  rw [conf, lineLoop_blanks env line.behind line.isspace hcons]
  exact Net.lineLoop_eq env line.behind line.written line.stored root

/-- A line goes to the list of its protocol. -/
lemma addAllowedSenderLine_get {proto : Proto} (hknown : proto.Known env) {pName : Bytes}
    (hnamed : isNamed pName proto.name = true) (roots : AllowRoots) (behind : UInt8)
    (text : Bytes) :
    (addAllowedSenderLine env roots pName behind text).1 =
        (lineLoop env behind (roots.get proto) text).1 ∧
      ∀ p, (addAllowedSenderLine env roots pName behind text).2.get p =
        if proto = p then (lineLoop env behind (roots.get proto) text).2 else roots.get p := by
  have hname (name : String) : isNamed pName name = (ascii proto.name == ascii name) := by
    rw [isNamed, beq_iff_eq] at hnamed
    rw [isNamed, hnamed]
  unfold addAllowedSenderLine
  simp only [hname]
  cases proto with
  | udp | tcp => exact ⟨rfl, fun p => by cases p <;> rfl⟩
  | gss =>
    rw [hknown rfl]
    exact ⟨rfl, fun p => by cases p <;> rfl⟩

lemma addLines_eq (lines : List (IpLine env)) (roots : AllowRoots) (es : Proto → List IpEntry)
    (hroots : ∀ proto, List.Forall₂ (Holds env) (roots.get proto) (es proto)) :
    ∃ roots', addLines env (lines.map IpLine.conf) roots = some roots' ∧
      ∀ proto,
        List.Forall₂ (Holds env) (roots'.get proto) (es proto ++ entriesFor proto lines) := by
  induction lines generalizing roots es with
  | nil => exact ⟨roots, rfl, fun proto => by simpa [entriesFor] using hroots proto⟩
  | cons line lines ih =>
    obtain ⟨rest, ss, hloop, hss⟩ := line.lineLoop_eq (roots.get line.proto)
    obtain ⟨hret, hget⟩ := addAllowedSenderLine_get line.known line.named roots line.conf.behind
      line.conf.text
    rw [hloop] at hret hget
    cases hline : addAllowedSenderLine env roots line.pName line.conf.behind line.conf.text with
    | mk ret roots₁ =>
    rw [hline] at hret hget
    obtain rfl : ret = .ok rest := hret
    have hroots₁ : ∀ proto, List.Forall₂ (Holds env) (roots₁.get proto)
        (es proto ++ if line.proto = proto then line.entries else []) := by
      intro proto
      rw [hget]
      split
      case isTrue h => exact h ▸ rel_append (hroots line.proto) hss
      case isFalse => exact (append_nil (es proto)).symm ▸ hroots proto
    obtain ⟨roots', hlines, hholds⟩ := ih roots₁ _ hroots₁
    refine ⟨roots', ?_, fun proto => ?_⟩
    · rw [map_cons, addLines,
        show addAllowedSenderLine env roots line.conf.pName _ _ = _ from hline]
      exact hlines
    · have := hholds proto
      rwa [append_assoc] at this

lemma setAllowRoot_eq {proto : Proto} (h : proto.Known env) (roots : AllowRoots) :
    setAllowRoot env roots (ascii proto.type) = some (roots.get proto) := by
  cases proto with
  | udp | tcp => rfl
  | gss =>
    rw [setAllowRoot, h rfl]
    rfl

/-- **Who may send.** A sender is permitted if one of the entries that the configuration lists for
the protocol permits it, and if there are none. -/
theorem permitted_iff (lines : List (IpLine env)) (proto : Proto) (h : proto.Known env)
    (pFrom : SockAddr) (pszFromHost : Bytes) (bChkDNS : Bool) :
    ∃ roots verdict, addLines env (lines.map IpLine.conf) .empty = some roots ∧
      isAllowedSender2 env roots (ascii proto.type) pFrom pszFromHost bChkDNS = some verdict ∧
      (verdict = .allowed ↔
        entriesFor proto lines = [] ∨ ∃ e ∈ entriesFor proto lines, e.Permits env pFrom) := by
  have hempty : ∀ proto, List.Forall₂ (Holds env) (AllowRoots.empty.get proto) [] := by
    intro proto
    cases proto <;> exact .nil
  obtain ⟨roots, hlines, hholds⟩ := addLines_eq lines .empty (fun _ => []) hempty
  have hlist := hholds proto
  rw [nil_append] at hlist
  cases hroot : roots.get proto with
  | nil =>
    rw [hroot, forall₂_nil_left_iff] at hlist
    refine ⟨roots, .allowed, hlines, ?_, ?_⟩
    · rw [isAllowedSender2, setAllowRoot_eq h, hroot]
    · simp [hlist]
  | cons s ss =>
    rw [hroot] at hlist
    obtain ⟨b, hcheck, hiff⟩ := checkList_iff env hlist pFrom pszFromHost bChkDNS
    refine ⟨roots, .ofBool b, hlines, ?_, ?_⟩
    · rw [isAllowedSender2, setAllowRoot_eq h, hroot]
      exact hcheck
    · have hne : entriesFor proto lines ≠ [] := by
        rintro hnil
        rw [hnil] at hlist
        cases hlist
      rw [or_iff_right hne, ← hiff]
      cases b <;> simp [Verdict.ofBool]

end Config

/-! ## A configuration -/

/-- A little-endian machine that knows `10.0.0.0`, `::` and, on its third interface, `fe80::1`. -/
def smallEnv : Env where
  order := .little
  useGssapi := false
  numeric4 text := if text = ascii "10.0.0.0" then .found 0x0000000a else .noName
  numeric6 text :=
    if text = ascii "::" then .found (fun _ => 0, 0)
    else if text = ascii "fe80::1%eth0" then .found (linkLocal, 3)
    else .noName
  resolve _ := none
  fnmatch _ _ := false
  disableDNS := false
  aclDontResolve := false
  aclAddHostnameOnFail := false
where
  linkLocal : In6Addr := fun j =>
    if j.val = 0 then 0x000080fe else if j.val = 3 then 0x01000000 else 0

def tenEntry : IpEntry := ⟨.v4 0x0000000a, some 8⟩

def tenText : EntryText smallEnv 0 tenEntry [] where
  addr := ascii "10.0.0.0"
  bits := [47, 56]
  sep := []
  isAddr := .v4 (by decide) rfl
  inAddr := by decide +kernel
  ne_nil := by decide
  ne_comment := by decide
  isBits := @BitsText.some [56] (by decide) (by decide +kernel)
  isSep := by simp
  cut := .inr rfl
  behind_ne := by decide

def tenLine : IpLine smallEnv where
  pName := ascii "UDP"
  blanks := [32]
  text := tenText.text
  behind := 0
  proto := .udp
  entries := [tenEntry]
  known := nofun
  named := by decide
  isspace := by decide +kernel
  written := .entry tenText .done
  listed := by simp
  stored := by simp [IpEntry.Stored, tenEntry]

/-- Under this line, `10.2.3.4` may send. -/
theorem permitted_iff_tenLine :
    Proto.udp.Known smallEnv ∧ tenEntry.Permits smallEnv (.inet 0x0403020a) ∧
    ∃ roots verdict, addLines smallEnv ([tenLine].map IpLine.conf) .empty = some roots ∧
      isAllowedSender2 smallEnv roots (ascii Proto.udp.type) (.inet 0x0403020a) [] true =
        some verdict ∧
      (verdict = .allowed ↔ entriesFor .udp [tenLine] = [] ∨
        ∃ e ∈ entriesFor .udp [tenLine], e.Permits smallEnv (.inet 0x0403020a)) := by
  have hknown : Proto.udp.Known smallEnv := nofun
  refine ⟨hknown, ?_, permitted_iff [tenLine] .udp hknown _ _ _⟩
  simp only [IpEntry.Permits, tenEntry]
  decide +kernel

def underLine (text : String) (pFrom : SockAddr) : Option Verdict :=
  (addLines smallEnv [⟨ascii "udp", ascii text, 0⟩] .empty).bind fun roots =>
    isAllowedSender2 smallEnv roots (ascii "UDP") pFrom [] true

/-- The number is cut to eight bits before it is checked. -/
example : underLine " 10.0.0.0/257" (.inet 0x04030201) = some .allowed := by decide +kernel

/-- Without entries everyone is allowed; an address with a scope does not permit the same address on
another interface; and `::` permits an address of IPv4 within IPv6. -/
theorem empty_list_allows :
    isAllowedSender2 smallEnv .empty (ascii "UDP") (.inet 0x04030201) [] true = some .allowed ∧
    underLine "[fe80::1%eth0]/64" (.inet6 smallEnv.linkLocal 4) = some .denied ∧
    underLine "[::]/1" (.inet6 (fun j => if j = 2 then 0xffff0000 else if j = 3 then 0x04030201
      else 0) 0) = some .allowed := by
  decide +kernel

end Rsyslog.Net
