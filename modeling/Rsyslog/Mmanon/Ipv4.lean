import Rsyslog.Lib.Decimal

/-!
# Anonymization of IPv4 addresses

`mmanon.c` with IPv4 anonymization in mode `zero` and nothing else: a loop over MSG looks for an
address at every index, replaces what it finds by the address without its last bits, and goes on
behind the octet that follows.

Where an address could go on behind a dot, the code looks at the next octet before it looks at the
length. So it may look at the octet behind the buffer; what it finds there makes no difference.
-/

namespace Rsyslog.Mmanon

open Lib List Option

/-! ## The code -/

/-- The loop of `isPosByte`: the index at which it ends, and the value of the first four digits. -/
def posByteLoop : Bytes → ℕ → ℕ → ℕ × ℕ
  | [], i, val => (i, val)
  | c :: buf, i, val =>
    if isDigit c then posByteLoop buf (i + 1) (if i < 4 then val * 10 + (c.toNat - 48) else val)
    else (i, val)

def isPosByte (buf : Bytes) : Option ℕ :=
  let (i, val) := posByteLoop buf 0 0
  if 0 < i ∧ i < 4 ∧ val ≤ 255 then some i else none

variable (behind : UInt8)

/-- A dot at the index `i` and a byte behind it; `behind` is the octet behind the buffer. -/
def dotByte (behind : UInt8) (buf : Bytes) (i : ℕ) : Option ℕ :=
  if buf[i]? = some 46 ∧ isDigit (buf.getD (i + 1) behind) then
    (isPosByte (buf.drop (i + 1))).map (i + 1 + ·)
  else none

def syntax_ipv4 (behind : UInt8) (buf : Bytes) : Option ℕ := do
  let i ← isPosByte buf
  let i ← dotByte behind buf i
  let i ← dotByte behind buf i
  dotByte behind buf i

def ipv42numLoop : Bytes → List ℕ → ℕ → List ℕ
  | [], num, _ => num
  | c :: str, num, cyc =>
    if isDigit c then
      ipv42numLoop str (num.modify cyc fun n => (n * 10 + (c.toNat - 48)) % 2 ^ 32) cyc
    else ipv42numLoop str num (if c = 46 then cyc + 1 else cyc)

def ipv42num (str : Bytes) : ℕ :=
  let num := ipv42numLoop str [0, 0, 0, 0] 0
  (num.getD 0 0 * 256 * 256 * 256 + num.getD 1 0 * 256 * 256 + num.getD 2 0 * 256 +
    num.getD 3 0) % 2 ^ 32

def code_int (bits ip : ℕ) : ℕ := (ip >>> bits <<< bits) % 2 ^ 64 % 2 ^ 32

def num2ipv4 (num : ℕ) : Bytes :=
  let numip i := decimal (num / 256 ^ i % 256)
  numip 3 ++ 46 :: (numip 2 ++ 46 :: (numip 1 ++ 46 :: numip 0))

def process_IPv4 (bits : ℕ) (address : Bytes) : Bytes :=
  num2ipv4 (code_int bits (ipv42num address))

/-- The variables of `doAction`. -/
structure Scan where
  msg : Bytes
  i : ℕ
  hasChanged : Bool

def anonipv4 (behind : UInt8) (bits : ℕ) (s : Scan) : Scan :=
  match syntax_ipv4 behind (s.msg.drop s.i) with
  | none => s
  | some iplen =>
    let caddress := process_IPv4 bits ((s.msg.drop s.i).take iplen)
    ⟨s.msg.take s.i ++ caddress ++ s.msg.drop (s.i + iplen), s.i + caddress.length, true⟩

lemma left_anonipv4 (bits : ℕ) {s : Scan} (h : s.i + 2 ≤ s.msg.length) :
    (anonipv4 behind bits s).msg.length - ((anonipv4 behind bits s).i + 1) <
      s.msg.length - s.i := by
  unfold anonipv4
  split
  · omega
  · simp only [length_append, length_take, length_drop]
    omega

/-- The loop of `doAction`. What lies behind the buffer may depend on everything. -/
def anonLoop (behind : Scan → UInt8) (bits : ℕ) (s : Scan) : Scan :=
  if h : s.i + 2 ≤ s.msg.length then
    have := left_anonipv4 (behind s) bits h
    let s := anonipv4 (behind s) bits s
    anonLoop behind bits { s with i := s.i + 1 }
  else s
termination_by s.msg.length - s.i

/-- MSG afterwards. `strdup` copies up to the first NUL only: `none` is a message with more octets
than the copy has. -/
def doAction (behind : Scan → UInt8) (bits : ℕ) (MSG : Bytes) : Option Bytes :=
  if 0 ∈ MSG.dropLast then none
  else
    let s := anonLoop behind bits ⟨MSG, 0, false⟩
    some (if s.hasChanged then s.msg else MSG)

/-! ## Addresses -/

def value (text : Bytes) : ℕ := text.foldl (fun v c => v * 10 + (c.toNat - 48)) 0

/-- A number from 0 to 255, with one to three digits. -/
structure Octet where
  text : Bytes
  digits : ∀ c ∈ text, isDigit c = true
  length_pos : 0 < text.length
  length_lt : text.length < 4
  value_le : value text ≤ 255

structure DottedQuad where
  a : Octet
  b : Octet
  c : Octet
  d : Octet

def DottedQuad.text (q : DottedQuad) : Bytes :=
  q.a.text ++ 46 :: (q.b.text ++ 46 :: (q.c.text ++ 46 :: q.d.text))

def DottedQuad.num (q : DottedQuad) : ℕ :=
  value q.a.text * 2 ^ 24 + value q.b.text * 2 ^ 16 + value q.c.text * 2 ^ 8 + value q.d.text

/-- Neither a digit nor a dot. -/
def Delimits (c : UInt8) : Prop := isDigit c = false ∧ c ≠ 46

/-! ## What is found -/

lemma posByteLoop_append {w rest : Bytes} (hw : ∀ c ∈ w, isDigit c = true) (i val : ℕ)
    (hrest : ∀ c ∈ rest.head?, isDigit c = false) (hi : i + w.length < 4) :
    posByteLoop (w ++ rest) i val =
      (i + w.length, w.foldl (fun v c => v * 10 + (c.toNat - 48)) val) := by
  induction w generalizing i val with
  | nil =>
    cases rest with
    | nil => rfl
    | cons c rest =>
      rw [nil_append, posByteLoop, hrest c rfl]
      rfl
  | cons c w ih =>
    obtain ⟨hc, hw⟩ := forall_mem_cons.mp hw
    rw [length_cons] at hi ⊢
    rw [cons_append, posByteLoop, if_pos hc, if_pos (by omega), ih hw _ _ (by omega), foldl_cons,
      Nat.add_assoc, Nat.add_comm 1]

variable (q : DottedQuad) {rest : Bytes}

lemma isPosByte_octet (o : Octet) (hrest : ∀ c ∈ rest.head?, isDigit c = false) :
    isPosByte (o.text ++ rest) = some o.text.length := by
  have hloop := posByteLoop_append o.digits 0 0 hrest (by have := o.length_lt; omega)
  rw [Nat.zero_add] at hloop
  rw [isPosByte, hloop]
  exact if_pos ⟨o.length_pos, o.length_lt, o.value_le⟩

lemma dotByte_octet {buf w rest : Bytes} (o : Octet) (hbuf : buf = w ++ 46 :: (o.text ++ rest))
    (hrest : ∀ c ∈ rest.head?, isDigit c = false) :
    dotByte behind buf w.length = some (w ++ 46 :: o.text).length := by
  have hdrop : buf.drop (w.length + 1) = o.text ++ rest := by
    rw [hbuf, ← drop_drop, drop_left]
    rfl
  obtain ⟨c, cs, htext⟩ := exists_cons_of_length_pos o.length_pos
  have hget : buf.getD (w.length + 1) behind = c := by
    rw [getD_eq_getElem?_getD, ← head?_drop, hdrop, htext]
    rfl
  have hc : isDigit c = true := o.digits c (by rw [htext]; exact mem_cons_self)
  rw [dotByte, hdrop, hget, isPosByte_octet o hrest, if_pos ⟨by rw [hbuf]; simp, hc⟩,
    map_some, length_append, length_cons]
  exact congrArg some (by omega)

open DottedQuad

/-- An address is found. -/
lemma syntax_ipv4_quad (hrest : ∀ c ∈ rest.head?, isDigit c = false) :
    syntax_ipv4 behind (q.text ++ rest) = some q.text.length := by
  have hdot (r : Bytes) : ∀ c ∈ (46 :: r).head?, isDigit c = false := by
    rintro c ⟨⟩
    rfl
  have ha : isPosByte (q.text ++ rest) = some q.a.text.length := by
    rw [text, append_assoc]
    exact isPosByte_octet q.a (hdot _)
  have hb : dotByte behind (q.text ++ rest) q.a.text.length = _ :=
    dotByte_octet behind q.b (by simp [text]) (hdot (q.c.text ++ 46 :: (q.d.text ++ rest)))
  have hc : dotByte behind (q.text ++ rest) _ = _ :=
    dotByte_octet behind q.c (w := q.a.text ++ 46 :: q.b.text) (by simp [text])
      (hdot (q.d.text ++ rest))
  have hd : dotByte behind (q.text ++ rest) _ = _ :=
    dotByte_octet behind q.d (w := q.a.text ++ 46 :: q.b.text ++ 46 :: q.c.text)
      (by simp [text]) hrest
  simp only [syntax_ipv4, bind_eq_bind, ha, bind_some, hb, hc, hd]
  simp [text]

section Delimited

variable {u : Bytes} {d : UInt8} (hd : Delimits d) (x : Bytes)

lemma le_of_isPosByte {n : ℕ} (h : isPosByte u = some n) : n ≤ u.length := by
  have hloop (i val : ℕ) : (posByteLoop u i val).1 ≤ i + u.length := by
    clear h
    induction u generalizing i val with
    | nil => exact Nat.le_refl _
    | cons c u ih =>
      rw [posByteLoop, length_cons]
      split
      · exact (ih _ _).trans (by omega)
      · omega
  have hle := hloop 0 0
  obtain ⟨-, h⟩ := ite_none_right_eq_some.mp h
  obtain rfl := some.inj h
  omega

lemma le_of_dotByte {behind : UInt8} {i n : ℕ} (h : dotByte behind u i = some n) :
    n ≤ u.length := by
  obtain ⟨⟨hdot, -⟩, h⟩ := ite_none_right_eq_some.mp h
  obtain ⟨m, hm, rfl⟩ := map_eq_some_iff.mp h
  have hle := le_of_isPosByte hm
  have hlt := (List.getElem?_eq_some_iff.mp hdot).1
  rw [length_drop] at hle
  omega

lemma dotByte_behind (b b' : UInt8) (buf : Bytes) (i : ℕ) : dotByte b buf i = dotByte b' buf i := by
  rw [dotByte, dotByte]
  rcases Nat.lt_or_ge (i + 1) buf.length with hlt | hge
  · simp [getD_eq_getElem?_getD, getElem?_eq_getElem hlt]
  · rw [drop_eq_nil_of_le hge]
    simp [isPosByte, posByteLoop]

lemma syntax_ipv4_behind (b b' : UInt8) (buf : Bytes) : syntax_ipv4 b buf = syntax_ipv4 b' buf := by
  simp only [syntax_ipv4, dotByte_behind b b']

include hd

lemma isPosByte_delimited : isPosByte (u ++ d :: x) = isPosByte u := by
  have hloop (i val : ℕ) : posByteLoop (u ++ d :: x) i val = posByteLoop u i val := by
    induction u generalizing i val with
    | nil => simp [posByteLoop, hd.1]
    | cons c u ih => simp [posByteLoop, ih]
  rw [isPosByte, hloop, isPosByte]

lemma dotByte_delimited {behind : UInt8} {i : ℕ} (hi : i ≤ u.length) :
    dotByte behind (u ++ d :: x) i = dotByte d u i := by
  rcases Nat.lt_or_eq_of_le hi with hlt | rfl
  · have hget : (u ++ d :: x).getD (i + 1) behind = u.getD (i + 1) d := by
      rw [getD_eq_getElem?_getD, getD_eq_getElem?_getD]
      rcases Nat.lt_or_eq_of_le (show i + 1 ≤ u.length from hlt) with h | h
      · rw [getElem?_append_left h, getElem?_eq_getElem h]
        rfl
      · simp [h]
    rw [dotByte, hget, getElem?_append_left hlt, drop_append_of_le_length hlt,
      isPosByte_delimited hd, dotByte]
  · have hne : (u ++ d :: x)[u.length]? ≠ some 46 := by simpa using hd.2
    rw [dotByte, if_neg fun h => hne h.1, dotByte, if_neg (by simp)]

/-- What is found in front of a delimiter does not depend on what follows it. -/
lemma syntax_ipv4_delimited (behind : UInt8) :
    syntax_ipv4 behind (u ++ d :: x) = syntax_ipv4 d u := by
  simp only [syntax_ipv4, bind_eq_bind, isPosByte_delimited hd]
  refine bind_congr fun i hi => ?_
  rw [dotByte_delimited hd x (le_of_isPosByte hi)]
  refine bind_congr fun j hj => ?_
  rw [dotByte_delimited hd x (le_of_dotByte hj)]
  refine bind_congr fun k hk => ?_
  rw [dotByte_delimited hd x (le_of_dotByte hk)]

end Delimited

lemma le_of_syntax_ipv4 {behind : UInt8} {u : Bytes} {n : ℕ}
    (h : syntax_ipv4 behind u = some n) : n ≤ u.length := by
  obtain ⟨i, -, h⟩ := bind_eq_some_iff.mp h
  obtain ⟨j, -, h⟩ := bind_eq_some_iff.mp h
  obtain ⟨k, -, h⟩ := bind_eq_some_iff.mp h
  exact le_of_dotByte h

/-! ## What it is replaced by -/

lemma ipv42numLoop_digits {w : Bytes} (hw : ∀ c ∈ w, isDigit c = true)
    (rest : Bytes) (num : List ℕ) (cyc : ℕ) :
    ipv42numLoop (w ++ rest) num cyc = ipv42numLoop rest (num.modify cyc fun n =>
      w.foldl (fun v c => (v * 10 + (c.toNat - 48)) % 2 ^ 32) n) cyc := by
  induction w generalizing num with
  | nil => exact congrArg (ipv42numLoop rest · cyc) (modify_id cyc num).symm
  | cons c w ih =>
    obtain ⟨hc, hw⟩ := forall_mem_cons.mp hw
    rw [cons_append, ipv42numLoop, if_pos hc, ih hw, modify_modify_eq]
    rfl

lemma foldl_mod (w : Bytes) (v : ℕ) :
    w.foldl (fun v c => (v * 10 + (c.toNat - 48)) % 2 ^ 32) (v % 2 ^ 32) =
      w.foldl (fun v c => v * 10 + (c.toNat - 48)) v % 2 ^ 32 := by
  induction w generalizing v with
  | nil => rfl
  | cons c w ih =>
    rw [foldl_cons, foldl_cons, ← ih]
    congr 1
    omega

lemma ipv42num_quad : ipv42num q.text = q.num := by
  have hdot (rest : Bytes) (num : List ℕ) (cyc : ℕ) :
      ipv42numLoop (46 :: rest) num cyc = ipv42numLoop rest num (cyc + 1) := rfl
  have hval (o : Octet) : o.text.foldl (fun v c => (v * 10 + (c.toNat - 48)) % 2 ^ 32) 0 =
      value o.text := by
    have hle := o.value_le
    rw [← Nat.zero_mod (2 ^ 32), foldl_mod]
    exact Nat.mod_eq_of_lt (by rw [value] at hle; omega)
  have hloop : ipv42numLoop q.text [0, 0, 0, 0] 0 =
      [value q.a.text, value q.b.text, value q.c.text, value q.d.text] := by
    rw [text, ipv42numLoop_digits q.a.digits, hdot, ipv42numLoop_digits q.b.digits, hdot,
      ipv42numLoop_digits q.c.digits, hdot, ← append_nil q.d.text,
      ipv42numLoop_digits q.d.digits, append_nil]
    simp only [modify_zero_cons, modify_succ_cons, hval, ipv42numLoop]
  have ha := q.a.value_le
  have hb := q.b.value_le
  have hc := q.c.value_le
  have hd := q.d.value_le
  rw [ipv42num, hloop, num]
  simp only [getD_cons_zero, getD_cons_succ]
  omega

lemma process_IPv4_eq {bits : ℕ} {q q' : DottedQuad} (h : q.num / 2 ^ bits = q'.num / 2 ^ bits) :
    process_IPv4 bits q.text = process_IPv4 bits q'.text := by
  rw [process_IPv4, process_IPv4, ipv42num_quad, ipv42num_quad, code_int, code_int,
    Nat.shiftRight_eq_div_pow, Nat.shiftRight_eq_div_pow, h]

/-! ## The loop -/

lemma anonLoop_behind (b b' : Scan → UInt8) (bits : ℕ) (s : Scan) :
    anonLoop b bits s = anonLoop b' bits s := by
  fun_induction anonLoop b bits s with
  | case1 s h _ t ih =>
    have hstep : anonipv4 (b' s) bits s = t := by
      simp only [t, anonipv4, syntax_ipv4_behind (b s) (b' s)]
    have hround : anonLoop b' bits s = anonLoop b' bits
        { anonipv4 (b' s) bits s with i := (anonipv4 (b' s) bits s).i + 1 } := by
      rw [anonLoop, dif_pos h]
    rw [ih, hround, hstep]
  | case2 s h => rw [anonLoop, dif_neg h]

lemma hasChanged_anonLoop (b : Scan → UInt8) (bits : ℕ) {s : Scan} (h : s.hasChanged = true) :
    (anonLoop b bits s).hasChanged = true := by
  fun_induction anonLoop b bits s with
  | case1 s _ _ t ih =>
    refine ih ?_
    simp only [t, anonipv4]
    split
    · exact h
    · rfl
  | case2 => exact h

/-- One round, with `l` before the index. -/
lemma anonLoop_round (b : Scan → UInt8) (bits : ℕ) (l : Bytes) (hlen : 2 ≤ rest.length) (h : Bool) :
    anonLoop b bits ⟨l ++ rest, l.length, h⟩ =
      match syntax_ipv4 0 rest with
      | none => anonLoop b bits ⟨l ++ rest, l.length + 1, h⟩
      | some n => anonLoop b bits ⟨l ++ process_IPv4 bits (rest.take n) ++ rest.drop n,
          (l ++ process_IPv4 bits (rest.take n)).length + 1, true⟩ := by
  have hlt : l.length + 2 ≤ (l ++ rest).length := by
    rw [length_append]
    omega
  rw [anonLoop, dif_pos hlt]
  simp only [anonipv4, drop_left, syntax_ipv4_behind _ 0]
  cases syntax_ipv4 0 rest with
  | none => rfl
  | some n => simp [← drop_drop]

section Runs

variable (b : Scan → UInt8) {bits : ℕ} {q q' : DottedQuad} {s : Bytes}

lemma anonLoop_skip (l : Bytes) {p : Bytes} {k : ℕ} (hk : k < p.length) (x : Bytes) (h : Bool) :
    anonLoop b bits ⟨l ++ (p ++ x).drop k, l.length + 1, h⟩ =
      anonLoop b bits ⟨l ++ [p[k]] ++ (p.drop (k + 1) ++ x), (l ++ [p[k]]).length, h⟩ := by
  rw [drop_append_of_le_length hk.le, drop_eq_getElem_cons hk, length_append, append_assoc l]
  rfl

lemma two_le_length (p : Bytes) (q : DottedQuad) (s : Bytes) : 2 ≤ (p ++ (q.text ++ s)).length := by
  simp only [length_append, text, length_cons]
  omega

/-- Addresses that differ in the last bits only are replaced in the same way. -/
lemma anonLoop_eq (hs : ∀ c ∈ s.head?, Delimits c) (hagree : q.num / 2 ^ bits = q'.num / 2 ^ bits)
    (p l : Bytes) (hp : ∀ c ∈ p.getLast?, Delimits c) (h : Bool) :
    anonLoop b bits ⟨l ++ (p ++ (q.text ++ s)), l.length, h⟩ =
        anonLoop b bits ⟨l ++ (p ++ (q'.text ++ s)), l.length, h⟩ ∧
      (anonLoop b bits ⟨l ++ (p ++ (q.text ++ s)), l.length, h⟩).hasChanged = true := by
  induction hn : p.length using Nat.strong_induction_on generalizing p l h with
  | _ n ih =>
    rw [anonLoop_round b bits l (two_le_length p q s),
      anonLoop_round b bits l (two_le_length p q' s)]
    rcases eq_nil_or_concat' p with rfl | ⟨u, d, rfl⟩
    · have hrest : ∀ c ∈ s.head?, isDigit c = false := fun c hc => (hs c hc).1
      simp only [nil_append, syntax_ipv4_quad 0 _ hrest, take_left, drop_left,
        process_IPv4_eq hagree]
      exact ⟨trivial, hasChanged_anonLoop b bits rfl⟩
    · have hfound (x : Bytes) : syntax_ipv4 0 (u ++ [d] ++ x) = syntax_ipv4 d u := by
        rw [append_assoc]
        exact syntax_ipv4_delimited (hp d (by simp)) x 0
      have hlen : (u ++ [d]).length = u.length + 1 := by simp
      have hlast (k : ℕ) : ∀ c ∈ ((u ++ [d]).drop (k + 1)).getLast?, Delimits c := by
        intro c hc
        rw [getLast?_drop] at hc
        split at hc
        · cases hc
        · exact hp c hc
      rw [hfound, hfound]
      cases hsyn : syntax_ipv4 d u with
      | none =>
        have hk : 0 < (u ++ [d]).length := by omega
        have hskip (x : Bytes) := @anonLoop_skip b bits l _ _ hk x h
        simp only [drop_zero] at hskip
        rw [hskip, hskip]
        exact ih _ (by rw [length_drop]; omega) _ _ (hlast 0) h rfl
      | some k =>
        have hk := le_of_syntax_ipv4 hsyn
        have htake (x : Bytes) : (u ++ [d] ++ x).take k = u.take k := by
          rw [append_assoc, take_append_of_le_length hk]
        dsimp only
        rw [htake, htake, anonLoop_skip b _ (by omega), anonLoop_skip b _ (by omega)]
        exact ih _ (by rw [length_drop]; omega) _ _ (hlast k) true rfl

end Runs

lemma zero_notMem_quad : 0 ∉ q.text := by
  have hzero (o : Octet) : 0 ∉ o.text := fun h => absurd (o.digits 0 h) (by decide)
  simp [text, hzero]

lemma zero_mem_dropLast (p : Bytes) (q : DottedQuad) (s : Bytes) :
    0 ∈ (p ++ (q.text ++ s)).dropLast ↔ 0 ∈ p ∨ 0 ∈ s.dropLast := by
  have hne : q.text ≠ [] := by simp [text]
  have hq := zero_notMem_quad q
  rw [dropLast_append_of_ne_nil (by simp [hne]), mem_append]
  refine or_congr_right ?_
  by_cases hs : s = []
  · subst hs
    rw [append_nil]
    exact iff_of_false (fun h => hq (dropLast_subset _ h)) not_mem_nil
  · rw [dropLast_append_of_ne_nil hs, mem_append]
    exact or_iff_right hq

/-- **Anonymization hides the last bits.** Messages that differ in an address only, and there in the
last `bits` bits only, are the same afterwards. -/
theorem anonymized_eq (bits : ℕ) (p s : Bytes) (a₁ a₂ : DottedQuad)
    (hp : ∀ c ∈ p.getLast?, Delimits c) (hs : ∀ c ∈ s.head?, Delimits c)
    (hagree : a₁.num / 2 ^ bits = a₂.num / 2 ^ bits) (behind₁ behind₂ : Scan → UInt8) :
    doAction behind₁ bits (p ++ (a₁.text ++ s)) = doAction behind₂ bits (p ++ (a₂.text ++ s)) ∧
      (0 ∉ p → 0 ∉ s → (doAction behind₁ bits (p ++ (a₁.text ++ s))).isSome = true) := by
  obtain ⟨heq, hchanged⟩ := anonLoop_eq behind₁ hs hagree p [] hp false
  rw [nil_append, nil_append, length_nil] at heq
  rw [nil_append, length_nil] at hchanged
  constructor
  · simp only [doAction, zero_mem_dropLast]
    rw [anonLoop_behind behind₂ behind₁, ← heq, if_pos hchanged, if_pos hchanged]
  · intro hp0 hs0
    have hnot : 0 ∉ (p ++ (a₁.text ++ s)).dropLast := by
      rw [zero_mem_dropLast]
      exact fun h => h.elim hp0 fun h => hs0 (dropLast_subset _ h)
    rw [doAction, if_neg hnot]
    rfl

def digitOctet (c : UInt8) (hc : isDigit c = true) : Octet where
  text := [c]
  digits := by simpa using hc
  length_pos := Nat.one_pos
  length_lt := by simp
  value_le := by
    have := c.toNat_lt
    simp only [value, foldl_cons, foldl_nil]
    omega

def lastDigit (c : UInt8) (hc : isDigit c = true) : DottedQuad :=
  ⟨digitOctet 49 rfl, digitOctet 50 rfl, digitOctet 51 rfl, digitOctet c hc⟩

theorem anonymized_eq_lastDigit :
    doAction (fun _ => 0) 8 ([97, 32] ++ ((lastDigit 52 rfl).text ++ [33])) =
      doAction (fun _ => 1) 8 ([97, 32] ++ ((lastDigit 53 rfl).text ++ [33])) :=
  (anonymized_eq 8 [97, 32] [33] (lastDigit 52 rfl) (lastDigit 53 rfl)
    (by simp [Delimits, isDigit]) (by simp [Delimits, isDigit]) (by decide) _ _).1

end Rsyslog.Mmanon
