import Rsyslog.Lib.Decimal
import Rsyslog.Lib.Mask

/-!
# Allowed senders

A line of the configuration names a protocol and the addresses that may send with it, each with the
number of bits that have to agree. `addAllowedSenderLine` of `net.c` reads it with
`parsAddrWithBits` of `parse.c` and enters the masked addresses in the list of the protocol;
`isAllowedSender2` compares a sender with that list.

A function gives `none`, or `undefined`, where the behaviour of the code is not defined: a shift by
the width of a word, an `int` that overflows, memory that is freed twice. Words of an address are in
network byte order, as the machine reads them. Memory allocation succeeds.
-/

namespace Rsyslog.Net

open Lib

/-! ## The code -/

inductive ByteOrder
  | little | big
  deriving DecidableEq

def ByteOrder.htonl : ByteOrder → BitVec 32 → BitVec 32
  | .little, x => swap x
  | .big, x => x

def shiftOnes (amount : ℤ) : Option (BitVec 32) :=
  if 0 ≤ amount ∧ amount < 32 then some (BitVec.allOnes 32 <<< amount.toNat) else none

abbrev In6Addr := Fin 4 → BitVec 32

inductive SockAddr
  | inet (sin_addr : BitVec 32)
  | inet6 (sin6_addr : In6Addr) (sin6_scope_id : UInt32)
  | other

inductive NetAddr
  | netAddr (sa : SockAddr)
  | hostWildcard (name : Bytes)

structure AllowedSender where
  allowedSender : NetAddr
  significantBits : UInt8

structure AllowRoots where
  udp : List AllowedSender
  tcp : List AllowedSender
  gss : List AllowedSender

def AllowRoots.empty : AllowRoots := ⟨[], [], []⟩

inductive Lookup (α : Type)
  | found (a : α)
  | noName
  | failed

structure Env where
  order : ByteOrder
  useGssapi : Bool
  /-- `getaddrinfo` with `AI_NUMERICHOST`, for `AF_INET` -/
  numeric4 : Bytes → Lookup (BitVec 32)
  /-- `getaddrinfo` with `AI_NUMERICHOST`, for `AF_INET6` -/
  numeric6 : Bytes → Lookup (In6Addr × UInt32)
  /-- `getaddrinfo` for a host name -/
  resolve : Bytes → Option (List SockAddr)
  /-- `fnmatch` of a pattern and a name -/
  fnmatch : Bytes → Bytes → Bool
  disableDNS : Bool
  aclDontResolve : Bool
  aclAddHostnameOnFail : Bool

variable (env : Env)

def maskIP4 (addr : BitVec 32) (bits : UInt8) : Option (BitVec 32) :=
  (shiftOnes (32 - bits.toNat)).map fun mask => addr &&& env.order.htonl mask

def clearFrom (i : ℕ) (addr : In6Addr) : In6Addr := fun j => if j < i then addr j else 0

def maskIP6 (addr : In6Addr) (bits : UInt8) : Option In6Addr :=
  let i := bits.toNat / 32
  if bits.toNat % 32 = 0 then some (clearFrom i addr)
  else if h : i < 4 then
    (shiftOnes (32 - bits.toNat % 32)).map fun mask =>
      clearFrom (i + 1) (Function.update addr ⟨i, h⟩ (addr ⟨i, h⟩ &&& env.order.htonl mask))
  else none

inductive AddRet
  | ok | err | noEntry
  deriving DecidableEq

def addAllowedSenderEntry (root : List AllowedSender) (iAllow : NetAddr) (bits : UInt8) :
    List AllowedSender := root ++ [⟨iAllow, bits⟩]

def isV4Mapped (addr : In6Addr) : Bool :=
  addr 0 == 0 && addr 1 == 0 && addr 2 == env.order.htonl 0x0000ffff

/-- An address of IPv4 within IPv6: `::ffff:0:0/96`. -/
def IpEntry.Mapped (ip : In6Addr) : Prop :=
  env.order.htonl (ip 0) = 0 ∧ env.order.htonl (ip 1) = 0 ∧ env.order.htonl (ip 2) = 0xffff

def lastWord (ip : In6Addr) : BitVec 32 := ip 3

def addHost (root : List AllowedSender) : List SockAddr → List AllowedSender
  | [] => root
  | .inet a :: res => addHost (addAllowedSenderEntry root (.netAddr (.inet a)) 32) res
  | .inet6 a scope :: res =>
    if isV4Mapped env a then
      addHost (addAllowedSenderEntry root (.netAddr (.inet (a 3))) 32) res
    else addHost (addAllowedSenderEntry root (.netAddr (.inet6 a scope)) 128) res
  | .other :: res => addHost root res

/-- The number of bits that `AddAllowedSender` goes on with, for an address of `len` bits. -/
def adjustBits (len : ℕ) (bits : UInt8) : UInt8 :=
  if bits.toNat < 1 ∨ bits.toNat > len then UInt8.ofNat len else bits

def addAllowedSender (root : List AllowedSender) (iAllow : NetAddr) (bits : UInt8) :
    Option (AddRet × List AllowedSender) :=
  match iAllow with
  | .netAddr (.inet a) =>
    let bits := adjustBits 32 bits
    (maskIP4 env a bits).map fun a =>
      (.ok, addAllowedSenderEntry root (.netAddr (.inet a)) bits)
  | .netAddr (.inet6 a scope) =>
    let bits := adjustBits 128 bits
    (maskIP6 env a bits).map fun a =>
      (.ok, addAllowedSenderEntry root (.netAddr (.inet6 a scope)) bits)
  | .netAddr .other => some (.err, root)
  | .hostWildcard name =>
    if env.disableDNS then some (.ok, root)
    else if 42 ∉ name ∧ 63 ∉ name ∧ ¬ env.aclDontResolve then
      match env.resolve name with
      | some res => some (.ok, addHost env root res)
      | none =>
        if env.aclAddHostnameOnFail then
          some (.ok, addAllowedSenderEntry root iAllow bits)
        else some (.noEntry, root)
    else some (.ok, addAllowedSenderEntry root iAllow bits)

def parsDigits (iVal : ℕ) : Bytes → Option (ℕ × Bytes)
  | [] => some (iVal, [])
  | c :: cs =>
    if isDigit c then
      if iVal * 10 + c.toNat < 2 ^ 31 then parsDigits (iVal * 10 + c.toNat - 48) cs else none
    else some (iVal, c :: cs)

inductive LineRet
  | ok (rest : Bytes)
  | err
  | invalidIP
  | undefined
  deriving DecidableEq

def inAddr (c : UInt8) : Bool := c != 47 && c != 44 && !isspace c

/-- The address of `parsAddrWithBits`, and the number of bits that a single host has. -/
def parsAddr (pszIP : Bytes) : Except LineRet (NetAddr × ℕ) :=
  if pszIP.head? = some 91 then
    if 93 ∉ pszIP then .error .invalidIP
    else
      let pszIP := (pszIP.drop 1).takeWhile (· != 93)
      match env.numeric6 pszIP with
      | .found a => .ok (.netAddr (.inet6 a.1 a.2), 128)
      | .noName => .ok (.hostWildcard pszIP, 128)
      | .failed => .error .err
  else
    match env.numeric4 pszIP with
    | .found a => .ok (.netAddr (.inet a), 32)
    | .noName => .ok (.hostWildcard pszIP, 32)
    | .failed => .error .err

/-- The bits of `parsAddrWithBits`. If there is no number behind the slash, the address is freed
twice. The octet behind the text is looked at as well, and nothing was written there. -/
def parsBits (behind : UInt8) (single : ℕ) (pC : Bytes) : Except LineRet (ℕ × Bytes) :=
  if pC.headD behind = 47 then
    match pC.drop 1 with
    | [] => .error .undefined
    | c :: cs =>
      if isDigit c then
        match parsDigits 0 (c :: cs) with
        | some r => .ok r
        | none => .error .undefined
      else .error .undefined
  else .ok (single, pC)

/-- `parsAddrWithBits`: the address, the bits, and what is left of the text. -/
def parsAddrWithBits (behind : UInt8) (text : Bytes) :
    Except LineRet (NetAddr × ℕ × Bytes) := do
  let text := text.dropWhile isspace
  let (pIP, single) ← parsAddr env (text.takeWhile inAddr)
  let (iBits, pC) ← parsBits behind single (text.dropWhile inAddr)
  return (pIP, iBits, pC.dropWhile fun c => c == 44 || isspace c)

lemma length_dropWhile_lt {p : UInt8 → Bool} {c : UInt8} (h : p c = true) (cs : Bytes) :
    ((c :: cs).dropWhile p).length < (c :: cs).length := by
  rw [List.dropWhile_cons_of_pos h]
  exact Nat.lt_succ_of_le (List.dropWhile_sublist p).length_le

lemma length_parsDigits {iVal n : ℕ} {text rest : Bytes}
    (h : parsDigits iVal text = some (n, rest)) : rest.length ≤ text.length := by
  fun_induction parsDigits iVal text with
  | case1 => cases h; exact Nat.le_refl _
  | case2 iVal c cs _ _ ih => exact Nat.le_succ_of_le (ih h)
  | case3 => cases h
  | case4 => cases h; exact Nat.le_refl _

lemma length_parsBits {behind : UInt8} {single n : ℕ} {text rest : Bytes}
    (h : parsBits behind single text = .ok (n, rest)) :
    rest.length < text.length ∨ text.headD behind ≠ 47 ∧ rest = text := by
  unfold parsBits at h
  split at h
  · cases text with
    | nil => cases h
    | cons c cs =>
      cases cs with
      | nil => cases h
      | cons d cs =>
        simp only [List.drop_one, List.tail_cons] at h
        split at h
        · split at h
          · cases h
            rename_i hdigits
            have := length_parsDigits hdigits
            simp only [List.length_cons] at this ⊢
            omega
          · cases h
        · cases h
  · rename_i hne
    cases h
    exact .inr ⟨hne, rfl⟩

lemma parsAddrWithBits_eq_ok {behind : UInt8} {text rest : Bytes} {pIP : NetAddr} {n : ℕ} :
    parsAddrWithBits env behind text = .ok (pIP, n, rest) ↔
      ∃ single pC, parsAddr env ((text.dropWhile isspace).takeWhile inAddr) = .ok (pIP, single) ∧
        parsBits behind single ((text.dropWhile isspace).dropWhile inAddr) = .ok (n, pC) ∧
        rest = pC.dropWhile fun c => c == 44 || isspace c := by
  rw [parsAddrWithBits]
  rcases parsAddr env ((text.dropWhile isspace).takeWhile inAddr) with iRet | ⟨pIP', single⟩
  · simp [bind, Except.bind]
  · rcases hbits : parsBits behind single ((text.dropWhile isspace).dropWhile inAddr) with
      iRet | ⟨n', pC⟩ <;> simp [bind, Except.bind, pure, Except.pure, hbits]
    grind

lemma length_parsAddrWithBits {behind c : UInt8} {cs rest : Bytes} {pIP : NetAddr} {n : ℕ}
    (h : parsAddrWithBits env behind (c :: cs) = .ok (pIP, n, rest)) :
    rest.length < (c :: cs).length := by
  obtain ⟨single, pC, -, hbits, rfl⟩ := (parsAddrWithBits_eq_ok env).1 h
  have hskip := (pC.dropWhile_sublist fun c => c == 44 || isspace c).length_le
  have haddr := (((c :: cs).dropWhile isspace).dropWhile_sublist inAddr).length_le
  by_cases hspace : isspace c = true
  · have := length_dropWhile_lt hspace cs
    rcases length_parsBits hbits with hlt | ⟨-, rfl⟩ <;> omega
  · rw [List.dropWhile_cons_of_neg hspace] at haddr hbits
    rcases length_parsBits hbits with hlt | ⟨hhead, rfl⟩
    · omega
    · by_cases hin : inAddr c = true
      · have := length_dropWhile_lt hin cs
        omega
      · rw [List.dropWhile_cons_of_neg hin] at hhead ⊢
        refine length_dropWhile_lt ?_ cs
        simp only [inAddr, List.headD_cons] at hin hhead
        simp_all

def lineLoop (behind : UInt8) (root : List AllowedSender) :
    Bytes → LineRet × List AllowedSender
  | [] => (.ok [], root)
  | c :: cs =>
    -- a comment-sign stops processing of line
    if c = 35 then (.ok (c :: cs), root)
    else
      match _h : parsAddrWithBits env behind (c :: cs) with
      | .error iRet => (iRet, root)
      | .ok (uIP, iBits, rest) =>
        match addAllowedSender env root uIP (UInt8.ofNat iBits) with
        | none => (.undefined, root)
        | some (.err, root) => (.err, root)
        | some (_, root) => lineLoop behind root rest
  termination_by text => text.length
  decreasing_by exact length_parsAddrWithBits env _h

lemma lineLoop_cons {behind c : UInt8} (hc : c ≠ 35) (cs : Bytes) (root : List AllowedSender) :
    lineLoop env behind root (c :: cs) =
      match parsAddrWithBits env behind (c :: cs) with
      | .error iRet => (iRet, root)
      | .ok (uIP, iBits, rest) =>
        match addAllowedSender env root uIP (UInt8.ofNat iBits) with
        | none => (.undefined, root)
        | some (.err, root) => (.err, root)
        | some (_, root) => lineLoop env behind root rest := by
  rw [lineLoop, if_neg hc]
  split
  · rename_i hread
    rw [hread]
  · rename_i hread
    rw [hread]

def isNamed (pName : Bytes) (name : String) : Bool :=
  pName.map (fun c => if 65 ≤ c ∧ c ≤ 90 then c + 32 else c) == ascii name

def addAllowedSenderLine (roots : AllowRoots) (pName : Bytes) (behind : UInt8)
    (text : Bytes) : LineRet × AllowRoots :=
  if isNamed pName "udp" then
    let r := lineLoop env behind roots.udp text
    (r.1, { roots with udp := r.2 })
  else if isNamed pName "tcp" then
    let r := lineLoop env behind roots.tcp text
    (r.1, { roots with tcp := r.2 })
  else if env.useGssapi && isNamed pName "gss" then
    let r := lineLoop env behind roots.gss text
    (r.1, { roots with gss := r.2 })
  else (.err, roots)

/-- A line of the configuration, and the octet behind its text in the buffer of the parser. -/
structure ConfLine where
  pName : Bytes
  text : Bytes
  behind : UInt8

def addLines : List ConfLine → AllowRoots → Option AllowRoots
  | [], roots => some roots
  | line :: lines, roots =>
    match addAllowedSenderLine env roots line.pName line.behind line.text with
    | (.undefined, _) => none
    | (_, roots) => addLines lines roots

/-- What `MaskCmp` and `isAllowedSender2` return. -/
inductive Verdict
  | denied | allowed | needsDNS
  deriving DecidableEq

def Verdict.ofBool (b : Bool) : Verdict := if b then .allowed else .denied

/-- `MaskCmp`. The words of an address of IPv6 are masked by the same statements as in `MaskIP6`. -/
def maskCmp (pAllow : AllowedSender) (pFrom : SockAddr) (pszFromHost : Bytes)
    (bChkDNS : Bool) : Option Verdict :=
  match pAllow.allowedSender, pFrom with
  | .hostWildcard pattern, _ =>
    if bChkDNS then some (.ofBool (env.fnmatch pattern pszFromHost)) else some .needsDNS
  | .netAddr (.inet net), .inet ip =>
    (shiftOnes (32 - pAllow.significantBits.toNat)).map fun mask =>
      .ofBool (ip &&& env.order.htonl mask == net)
  | .netAddr _, .inet _ => some .denied
  | .netAddr (.inet6 net scope), .inet6 ip fromScope =>
    (maskIP6 env ip pAllow.significantBits).map fun ip =>
      .ofBool (decide (∀ j, ip j = net j) && (if scope ≠ 0 then fromScope == scope else true))
  | .netAddr (.inet net), .inet6 ip _ =>
    (shiftOnes (32 - pAllow.significantBits.toNat)).map fun mask =>
      .ofBool (ip 3 &&& env.order.htonl mask == net &&
        ip 2 == (match env.order with | .little => 0xffff0000 | .big => 0x0000ffff) &&
        ip 1 == 0 && ip 0 == 0)
  | .netAddr .other, .inet6 _ _ => some .denied
  | .netAddr _, .other => some .denied

def checkList (pFrom : SockAddr) (pszFromHost : Bytes) (bChkDNS : Bool)
    (bNeededDNS : Verdict) : List AllowedSender → Option Verdict
  | [] => some bNeededDNS
  | pAllow :: pNext => do
    match ← maskCmp env pAllow pFrom pszFromHost bChkDNS with
    | .allowed => return .allowed
    | .needsDNS => checkList pFrom pszFromHost bChkDNS .needsDNS pNext
    | .denied => checkList pFrom pszFromHost bChkDNS bNeededDNS pNext

def setAllowRoot (roots : AllowRoots) (pszType : Bytes) : Option (List AllowedSender) :=
  if pszType = ascii "UDP" then some roots.udp
  else if pszType = ascii "TCP" then some roots.tcp
  else if env.useGssapi ∧ pszType = ascii "GSS" then some roots.gss
  else none

def isAllowedSender2 (roots : AllowRoots) (pszType : Bytes) (pFrom : SockAddr)
    (pszFromHost : Bytes) (bChkDNS : Bool) : Option Verdict :=
  match setAllowRoot env roots pszType with
  | none => some .denied
  -- checking disabled, everything is valid
  | some [] => some .allowed
  | some root => checkList env pFrom pszFromHost bChkDNS .denied root

end Rsyslog.Net
