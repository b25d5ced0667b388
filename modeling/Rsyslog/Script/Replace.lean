import Mathlib.Logic.Function.Basic
import Mathlib.Order.Basic
import Rsyslog.Lib.Search
import Rsyslog.Script.Value

/-!
# The function replace

`doFuncReplace` of `grammar/rainerscript.c` goes through the string twice. The first pass computes
the length of the result, the second one writes it. Both scan with an index `i` and the number `j`
of bytes matched so far. On a mismatch the second pass goes on behind the byte at which the match
began; the first pass goes on one byte further.
-/

namespace Rsyslog.Script

open Lib List Nat

/-! ## The function -/

/-- `es_newStr`: the buffer of a new string has room for as many bytes as asked for, at least. What
it holds at first is not known. -/
structure NewStr where
  size : UInt32 → ℕ
  le_size : ∀ n, n.toNat ≤ size n
  content : ℕ → UInt8

section Function

variable (src find replaceWith : Bytes)

/-- The first pass, which computes `lDst`. `none` stands for a read outside of a string, and for a
loop that is not at its end yet. -/
def lengthLoop : ℕ → ℕ → ℕ → UInt32 → Option UInt32
  | 0, _, _, _ => none
  | fuel + 1, i, j, lDst =>
    if i ≤ src.length then
      let (lDst, j) :=
        if j = find.length then
          (lDst - UInt32.ofNat find.length + UInt32.ofNat replaceWith.length, 0)
        else (lDst, j)
      if i = src.length then some lDst
      else
        match src[i]?, find[j]? with
        | some c, some d =>
          if c = d then lengthLoop fuel (i + 1) (j + 1) (lDst + 1)
          else if j > 0 then
            lengthLoop fuel (i - (j - 1) + 1) 0 (lDst - UInt32.ofNat (j - 1) + 1)
          else lengthLoop fuel (i + 1) j (lDst + 1)
        | _, _ => none
    else some lDst

abbrev Dest := ℕ → UInt8

def put (size : ℕ) (dest : Dest) (s : UInt32) (c : UInt8) : Option Dest :=
  if s.toNat < size then some (Function.update dest s.toNat c) else none

def putAll (size : ℕ) : Bytes → Dest → UInt32 → Option (Dest × UInt32)
  | [], dest, s => some (dest, s)
  | c :: cs, dest, s => do
    let dest ← put size dest s c
    putAll size cs dest (s + 1)

/-- Write the last `j` bytes before `i`, from the last one on: they have been taken for the begin of
an occurrence. -/
def putTail (size i : ℕ) (s : UInt32) (j : ℕ) (dest : Dest) : Option Dest :=
  (List.range j).foldlM (fun dest k => do
    put size dest (s - UInt32.ofNat (k + 1)) (← src[i - (k + 1)]?)) dest

def copyLoop (size : ℕ) : ℕ → ℕ → ℕ → UInt32 → Dest → Option Dest
  | 0, _, _, _, _ => none
  | fuel + 1, i, j, s, dest =>
    if i ≤ src.length then do
      let ((dest, s), j) ←
        if j = find.length then do
          pure (← putAll size replaceWith dest (s - UInt32.ofNat j), 0)
        else pure ((dest, s), j)
      if i = src.length then putTail src size i s j dest
      else
        match src[i]?, find[j]? with
        | some c, some d =>
          if c = d then copyLoop size fuel (i + 1) (j + 1) (s + 1) dest
          else do
            let (i, s) := if j > 0 then (i - j, s - UInt32.ofNat j) else (i, s)
            let dest ← put size dest s (← src[i]?)
            copyLoop size fuel (i + 1) 0 (s + 1) dest
        | _, _ => none
    else putTail src size i s j dest

def replaceStr (es_newStr : NewStr) (fuel : ℕ) : Option Bytes := do
  let lDst ← lengthLoop src find replaceWith fuel 0 0 0
  let dest ← copyLoop src find replaceWith (es_newStr.size lDst) fuel 0 0 0 es_newStr.content
  pure ((List.range lDst.toNat).map dest)

end Function

def doFuncReplace {J : Type} (libs : Libs J) (es_newStr : NewStr) (fuel : ℕ)
    (operandVal findVal replaceWithVal : Svar J) : Option Bytes :=
  replaceStr (var2String libs operandVal) (var2String libs findVal) (var2String libs replaceWithVal)
    es_newStr fuel

/-! ## The scan -/

/-- The first `j` bytes of `find` have been matched from `p` on. -/
structure Matched (src find : Bytes) (p j : ℕ) : Prop where
  le : p + j ≤ src.length
  le_find : j ≤ find.length
  take_eq : (src.drop p).take j = find.take j

namespace Matched

variable {src find : Bytes} {p j : ℕ}

lemma start (h : p ≤ src.length) : Matched src find p 0 := ⟨h, Nat.zero_le _, rfl⟩

lemma drop_eq (h : Matched src find p find.length) :
    src.drop p = find ++ src.drop (p + find.length) := by
  have htake := h.take_eq
  rw [take_length] at htake
  rw [← drop_drop]
  conv_lhs => rw [← take_append_drop find.length (src.drop p), htake]

lemma succ {c : UInt8} (h : Matched src find p j) (hsrc : src[p + j]? = some c)
    (hfind : find[j]? = some c) : Matched src find p (j + 1) := by
  obtain ⟨hlt, -⟩ := List.getElem?_eq_some_iff.mp hsrc
  obtain ⟨hlt', -⟩ := List.getElem?_eq_some_iff.mp hfind
  refine ⟨hlt, hlt', ?_⟩
  rw [take_add_one, take_add_one, h.take_eq, getElem?_drop, hsrc, hfind]

lemma not_prefix {c d : UInt8} (hsrc : src[p + j]? = some c) (hfind : find[j]? = some d)
    (hne : c ≠ d) : ¬find <+: src.drop p := by
  intro hpre
  obtain ⟨hlt, hget⟩ := List.getElem?_eq_some_iff.mp hfind
  have heq := prefix_iff_getElem?.mp hpre j hlt
  rw [getElem?_drop, hsrc, hget] at heq
  exact hne (Option.some.inj heq)

lemma head?_eq {c d : UInt8} (h : Matched src find p j) (hsrc : src[p + j]? = some c)
    (hfind : find[j]? = some d) (hne : c ≠ d) :
    ∃ x, src.drop p = x :: src.drop (p + 1) ∧ src[p]? = some x ∧ (find.head? = some x ↔ 0 < j) := by
  have hlt : p < src.length := by
    obtain ⟨hlt, -⟩ := List.getElem?_eq_some_iff.mp hsrc
    omega
  refine ⟨src[p], drop_eq_getElem_cons hlt, getElem?_eq_getElem hlt, ?_⟩
  cases j with
  | zero =>
    have hc : c = src[p] := by
      rw [Nat.add_zero, getElem?_eq_getElem hlt] at hsrc
      exact (Option.some.inj hsrc).symm
    rw [head?_eq_getElem?, hfind, ← hc]
    simpa using hne.symm
  | succ j =>
    have htake := congrArg List.head? h.take_eq
    rw [drop_eq_getElem_cons hlt, take_succ_cons, head?_take] at htake
    simpa using htake.symm

end Matched

lemma ofNat_add_sub (a b : ℕ) : UInt32.ofNat (a + b) - UInt32.ofNat b = UInt32.ofNat a := by
  rw [UInt32.ofNat_add, UInt32.add_sub_cancel]

lemma ofNat_succ (a : ℕ) : UInt32.ofNat (a + 1) = UInt32.ofNat a + 1 := UInt32.ofNat_add a 1

def left (src find : Bytes) (p j : ℕ) : ℕ :=
  (src.length - p) * (find.length + 1) + (find.length - j)

variable {j : ℕ} {src : Bytes}

lemma left_succ {find : Bytes} (p : ℕ) (hj : j < find.length) :
    left src find p (j + 1) < left src find p j := by
  unfold left
  omega

variable {p : ℕ}

lemma left_lt {find : Bytes} {p' : ℕ} (hp : p < src.length) (hlt : p < p') :
    left src find p' 0 < left src find p j := by
  have hle : (src.length - p' + 1) * (find.length + 1) ≤ (src.length - p) * (find.length + 1) :=
    mul_le_mul_right _ (by omega)
  unfold left
  rw [Nat.add_one_mul] at hle
  omega

/-- What holds at the end of the string, and is carried back over an occurrence, over a byte that
is matched and over a match that fails, holds everywhere. -/
lemma scan {find : Bytes} {P : ℕ → ℕ → ℕ → Prop} (hf : find ≠ [])
    (found : ∀ fuel p, Matched src find p find.length → P (fuel + 1) (p + find.length) 0 →
      P (fuel + 1) p find.length)
    (stop : ∀ fuel p j, p + j = src.length → j < find.length → P (fuel + 1) p j)
    (next : ∀ fuel p j c, src[p + j]? = some c → find[j]? = some c → P fuel p (j + 1) →
      P (fuel + 1) p j)
    (fail : ∀ fuel p j c d, Matched src find p j → src[p + j]? = some c → find[j]? = some d →
      c ≠ d → (∀ p', p < p' → p' ≤ src.length → P fuel p' 0) → P (fuel + 1) p j)
    {fuel : ℕ} (hm : Matched src find p j) (hfuel : left src find p j < fuel) : P fuel p j := by
  induction fuel generalizing p j with
  | zero => omega
  | succ fuel ih =>
    have hwithin {p j : ℕ} (hm : Matched src find p j) (hj : j < find.length)
        (hle : left src find p j ≤ fuel) : P (fuel + 1) p j := by
      rcases eq_or_lt_of_le hm.le with hend | hlt
      · exact stop fuel p j hend hj
      · have hsrc : src[p + j]? = some src[p + j] := getElem?_eq_getElem hlt
        have hfind : find[j]? = some find[j] := getElem?_eq_getElem hj
        by_cases hcd : src[p + j] = find[j]
        · rw [hcd] at hsrc
          refine next fuel p j _ hsrc hfind (ih (hm.succ hsrc hfind) ?_)
          exact lt_of_lt_of_le (left_succ p hj) hle
        · refine fail fuel p j _ _ hm hsrc hfind hcd fun p' hp' hle' => ih (.start hle') ?_
          exact lt_of_lt_of_le (left_lt (by omega) hp') hle
    by_cases hj : j = find.length
    · subst hj
      have hpos : 0 < find.length := length_pos_iff.mpr hf
      have hle := hm.le
      have hlt : left src find (p + find.length) 0 < left src find p find.length :=
        left_lt (by omega) (by omega)
      exact found fuel p hm (hwithin (.start hm.le) hpos (by omega))
    · exact hwithin hm (lt_of_le_of_ne hm.le_find hj) (by omega)

/-! ## The first pass -/

section

variable {src find replaceWith : Bytes} {fuel : ℕ}

lemma lengthLoop_found (hf : find ≠ []) {i : ℕ} (hi : i ≤ src.length) (lDst : UInt32) :
    lengthLoop src find replaceWith (fuel + 1) i find.length lDst =
      lengthLoop src find replaceWith (fuel + 1) i 0
        (lDst - UInt32.ofNat find.length + UInt32.ofNat replaceWith.length) := by
  have hpos : 0 ≠ find.length := (length_pos_iff.mpr hf).ne
  simp [lengthLoop, hi, hpos]

lemma lengthLoop_end (hj : j ≠ find.length) (lDst : UInt32) :
    lengthLoop src find replaceWith (fuel + 1) src.length j lDst = some lDst := by
  simp [lengthLoop, hj]

lemma lengthLoop_next {i : ℕ} {c d : UInt8} (hi : src[i]? = some c) (hj : find[j]? = some d)
    (lDst : UInt32) :
    lengthLoop src find replaceWith (fuel + 1) i j lDst =
      if c = d then lengthLoop src find replaceWith fuel (i + 1) (j + 1) (lDst + 1)
      else lengthLoop src find replaceWith fuel (i - (j - 1) + 1) 0
        (lDst - UInt32.ofNat (j - 1) + 1) := by
  obtain ⟨hilt, -⟩ := List.getElem?_eq_some_iff.mp hi
  obtain ⟨hjlt, -⟩ := List.getElem?_eq_some_iff.mp hj
  cases j <;> simp [lengthLoop, hi, hj, hilt.le, hilt.ne, hjlt.ne]

/-- The length that the first pass computes for `l`: it finds the occurrences of a scan that goes on
one byte too far after a match that fails. -/
def IsLength (find replaceWith l : Bytes) (k : ℕ) : Prop :=
  k + tally find 1 l * find.length = l.length + tally find 1 l * replaceWith.length

lemma lengthLoop_eq (hf : find ≠ []) (hfuel : left src find 0 0 < fuel) :
    ∃ k, lengthLoop src find replaceWith fuel 0 0 0 = some (UInt32.ofNat k) ∧
      IsLength find replaceWith src k := by
  have hloop : ∀ n, ∃ k, lengthLoop src find replaceWith fuel (0 + 0) 0 (UInt32.ofNat (n + 0)) =
      some (UInt32.ofNat (n + k)) ∧ IsLength find replaceWith (src.drop 0) k := by
    refine scan (P := fun fuel p j => ∀ n, ∃ k, lengthLoop src find replaceWith fuel (p + j) j
      (UInt32.ofNat (n + j)) = some (UInt32.ofNat (n + k)) ∧
      IsLength find replaceWith (src.drop p) k) hf ?_ ?_ ?_ ?_ (.start (zero_le _)) hfuel
    · intro fuel p hm hrest n
      obtain ⟨k, hk, hlen⟩ := hrest (n + replaceWith.length)
      rw [lengthLoop_found hf hm.le, ofNat_add_sub]
      refine ⟨replaceWith.length + k, by simpa [add_assoc] using hk, ?_⟩
      rw [IsLength] at hlen ⊢
      rw [hm.drop_eq, tally_append hf, length_append, Nat.add_one_mul, Nat.add_one_mul]
      omega
    · intro fuel p j hend hj n
      have hlen : (src.drop p).length = j := by
        rw [length_drop]
        omega
      refine ⟨j, by rw [hend, lengthLoop_end hj.ne], ?_⟩
      rw [IsLength, tally_of_length_lt (by omega)]
      omega
    · intro fuel p j c hsrc hfind hrest n
      rw [lengthLoop_next hsrc hfind, if_pos rfl, ← ofNat_succ]
      exact hrest n
    · intro fuel p j c d hm hsrc hfind hcd hrest n
      obtain ⟨x, hdrop, -, hhead⟩ := hm.head?_eq hsrc hfind hcd
      obtain ⟨hlt, -⟩ := List.getElem?_eq_some_iff.mp hsrc
      have hnot := hdrop ▸ Matched.not_prefix hsrc hfind hcd
      -- one byte more is passed over if the match has begun
      obtain ⟨skip, hskip⟩ : ∃ skip, j = skip + (j - 1) := ⟨j - (j - 1), by omega⟩
      have hif : (if find.head? = some x then 1 else 0) = skip := by
        simp only [hhead]
        split <;> omega
      obtain ⟨k, hk, hklen⟩ := hrest (p + 1 + skip) (by omega) (by omega) (n + skip + 1)
      refine ⟨skip + 1 + k, ?_, ?_⟩
      · rw [lengthLoop_next hsrc hfind, if_neg hcd, show n + j = n + skip + (j - 1) by omega,
          ofNat_add_sub, ← ofNat_succ, show p + j - (j - 1) + 1 = p + 1 + skip by omega,
          ← add_assoc, ← add_assoc]
        exact hk
      · rw [IsLength] at hklen ⊢
        rw [hdrop, tally_cons hnot, hif, drop_drop, ← hdrop]
        simp only [length_drop] at hklen ⊢
        omega
  simpa using hloop 0

end

/-! ## The second pass -/

def Written (dest : Dest) (out : Bytes) : Prop := (List.range out.length).map dest = out

lemma written_iff {dest : Dest} {out : Bytes} :
    Written dest out ↔ ∀ n (h : n < out.length), dest n = out[n] := by
  constructor
  · intro hout n h
    have hget := congrArg (·[n]?) hout
    simpa [h] using hget
  · intro hall
    refine ext_getElem (by simp) fun n h _ => ?_
    simpa using hall n (by simpa using h)

section Buffer

variable {size : ℕ} {dest : Dest} {out : Bytes}

lemma put_ofNat {n : ℕ} (hn : n < size) (h32 : n < 2 ^ 32) (c : UInt8) :
    put size dest (UInt32.ofNat n) c = some (Function.update dest n c) := by
  rw [put, UInt32.toNat_ofNat', mod_eq_of_lt h32, if_pos hn]

lemma Written.update (hout : Written dest out) (c : UInt8) :
    Written (Function.update dest out.length c) (out ++ [c]) := by
  rw [written_iff] at hout ⊢
  intro n h
  rw [length_append, length_singleton] at h
  by_cases hn : n < out.length
  · rw [Function.update_of_ne hn.ne, getElem_append_left hn]
    exact hout n hn
  · obtain rfl : n = out.length := by omega
    simp

lemma putAll_written (hout : Written dest out) {cs : Bytes}
    (hsize : (out ++ cs).length ≤ size) (h32 : (out ++ cs).length ≤ 2 ^ 32) :
    ∃ dest', putAll size cs dest (UInt32.ofNat out.length) =
        some (dest', UInt32.ofNat (out ++ cs).length) ∧ Written dest' (out ++ cs) := by
  induction cs generalizing dest out with
  | nil => exact ⟨dest, by simp [putAll], by simpa using hout⟩
  | cons c cs ih =>
    have happ : out ++ c :: cs = out ++ [c] ++ cs := by simp
    rw [happ] at hsize h32 ⊢
    obtain ⟨dest', hput, hout'⟩ := ih (hout.update c) hsize h32
    refine ⟨dest', ?_, hout'⟩
    rw [length_append, length_append, length_singleton] at hsize h32
    rw [putAll, put_ofNat (by omega) (by omega), ← ofNat_succ]
    rwa [show (out ++ [c]).length = out.length + 1 by simp] at hput

lemma putTail_places (hout : Written dest out) {full : Bytes}
    (hfull : out ++ src.drop p = full) (hsize : full.length ≤ size) (h32 : full.length ≤ 2 ^ 32)
    {m : ℕ} (hm : m ≤ (src.drop p).length) :
    ∃ dest', putTail src size src.length (UInt32.ofNat full.length) m dest = some dest' ∧
      ∀ n (h : n < full.length), n < out.length ∨ full.length - m ≤ n → dest' n = full[n] := by
  have hlen : full.length = out.length + (src.drop p).length := by rw [← hfull, length_append]
  have hget (k : ℕ) : full[out.length + k]? = src[p + k]? := by
    rw [← hfull, getElem?_append_right (Nat.le_add_right _ _), getElem?_drop,
      Nat.add_sub_cancel_left]
  induction m with
  | zero =>
    refine ⟨dest, rfl, fun n h hn => ?_⟩
    subst hfull
    rw [written_iff.mp hout n (by omega), getElem_append_left]
  | succ m ih =>
    obtain ⟨dest', hput, hdest⟩ := ih (by omega)
    rw [length_drop] at hm hlen
    have hlt : full.length - (m + 1) < full.length := by omega
    have hs : UInt32.ofNat full.length - UInt32.ofNat (m + 1) =
        UInt32.ofNat (full.length - (m + 1)) := by
      rw [← ofNat_add_sub (full.length - (m + 1)) (m + 1), Nat.sub_add_cancel (by omega)]
    have hc : src[src.length - (m + 1)]? = some full[full.length - (m + 1)] := by
      have hget := hget (src.length - p - (m + 1))
      rw [show out.length + (src.length - p - (m + 1)) = full.length - (m + 1) by omega,
        show p + (src.length - p - (m + 1)) = src.length - (m + 1) by omega,
        getElem?_eq_getElem hlt] at hget
      exact hget.symm
    refine ⟨Function.update dest' (full.length - (m + 1)) full[full.length - (m + 1)], ?_, ?_⟩
    · rw [putTail] at hput ⊢
      rw [range_succ, foldlM_append, hput]
      simp only [Option.bind_eq_bind, Option.bind_some, foldlM_cons, foldlM_nil, hs, hc,
        put_ofNat (show full.length - (m + 1) < size by omega) (by omega)]
      rfl
    · intro n h hle
      by_cases hn : n = full.length - (m + 1)
      · subst hn
        simp
      · rw [Function.update_of_ne hn]
        exact hdest n h (by omega)

end Buffer

section Copy

variable {src find replaceWith : Bytes} {size fuel : ℕ} {dest : Dest}

lemma copyLoop_found (hf : find ≠ []) {i : ℕ} (hi : i ≤ src.length) (s : UInt32) :
    copyLoop src find replaceWith size (fuel + 1) i find.length s dest =
      (putAll size replaceWith dest (s - UInt32.ofNat find.length)).bind fun (dest, s) =>
        copyLoop src find replaceWith size (fuel + 1) i 0 s dest := by
  have hpos : 0 ≠ find.length := (length_pos_iff.mpr hf).ne
  simp only [copyLoop, hi, if_true, hpos, if_false]
  cases putAll size replaceWith dest (s - UInt32.ofNat find.length) <;> rfl

lemma copyLoop_end (hj : j ≠ find.length) (s : UInt32) :
    copyLoop src find replaceWith size (fuel + 1) src.length j s dest =
      putTail src size src.length s j dest := by
  simp [copyLoop, hj]

lemma copyLoop_next {i : ℕ} {c d : UInt8} (hi : src[i]? = some c) (hj : find[j]? = some d)
    (s : UInt32) :
    copyLoop src find replaceWith size (fuel + 1) i j s dest =
      if c = d then copyLoop src find replaceWith size fuel (i + 1) (j + 1) (s + 1) dest
      else src[i - j]?.bind fun c => (put size dest (s - UInt32.ofNat j) c).bind
        (copyLoop src find replaceWith size fuel (i - j + 1) 0 (s - UInt32.ofNat j + 1)) := by
  obtain ⟨hilt, -⟩ := List.getElem?_eq_some_iff.mp hi
  obtain ⟨hjlt, -⟩ := List.getElem?_eq_some_iff.mp hj
  by_cases hcd : c = d
  · simp [copyLoop, hi, hj, hilt.le, hilt.ne, hjlt.ne, hcd]
  · rcases Nat.eq_zero_or_pos j with rfl | hpos
    · simp [copyLoop, hi, hj, hilt.le, hilt.ne, hjlt.ne, hcd]
    · simp [copyLoop, hi, hj, hilt.le, hilt.ne, hjlt.ne, hcd, hpos]

lemma copyLoop_eq (hf : find ≠ []) (hfuel : left src find 0 0 < fuel)
    (hsize : (replaceAll find replaceWith src).length ≤ size)
    (h32 : (replaceAll find replaceWith src).length ≤ 2 ^ 32) :
    ∃ dest', copyLoop src find replaceWith size fuel 0 0 0 dest = some dest' ∧
      Written dest' (replaceAll find replaceWith src) := by
  generalize hfull : replaceAll find replaceWith src = full at hsize h32 ⊢
  refine scan (p := 0) (j := 0) (P := fun fuel p j => ∀ out dest, Written dest out →
    out ++ replaceAll find replaceWith (src.drop p) = full →
    ∃ dest', copyLoop src find replaceWith size fuel (p + j) j (UInt32.ofNat (out.length + j))
      dest = some dest' ∧ Written dest' full) hf ?_ ?_ ?_ ?_ (.start (zero_le _)) hfuel [] dest
      rfl hfull
  · intro fuel p hm hrest out dest hout hfull
    rw [hm.drop_eq, replaceAll_append hf, ← append_assoc] at hfull
    have hlen := congrArg List.length hfull
    rw [length_append] at hlen
    obtain ⟨dest', hput, hout'⟩ : ∃ dest', putAll size replaceWith dest (UInt32.ofNat out.length) =
        some (dest', UInt32.ofNat (out ++ replaceWith).length) ∧
        Written dest' (out ++ replaceWith) := putAll_written hout (by omega) (by omega)
    rw [copyLoop_found hf hm.le, ofNat_add_sub, hput, Option.bind_some]
    simpa only [add_zero] using hrest _ dest' hout' hfull
  · intro fuel p j hend hj out dest hout hfull
    have hlen : (src.drop p).length = j := by
      rw [length_drop]
      omega
    rw [replaceAll_of_length_lt (by omega)] at hfull
    have hfull' := congrArg List.length hfull
    rw [length_append, hlen] at hfull'
    obtain ⟨dest', hput, hdest⟩ := putTail_places hout hfull hsize h32 hlen.ge
    refine ⟨dest', ?_, written_iff.mpr fun n h => hdest n h (by omega)⟩
    rw [hend, copyLoop_end hj.ne, hfull', hput]
  · intro fuel p j c hsrc hfind hrest out dest hout hfull
    rw [copyLoop_next hsrc hfind, if_pos rfl, ← ofNat_succ]
    exact hrest out dest hout hfull
  · intro fuel p j c d hm hsrc hfind hcd hrest out dest hout hfull
    obtain ⟨x, hdrop, hx, -⟩ := hm.head?_eq hsrc hfind hcd
    obtain ⟨hlt, -⟩ := List.getElem?_eq_some_iff.mp hsrc
    -- the byte at which the match began is copied
    rw [hdrop, replaceAll_cons (hdrop ▸ Matched.not_prefix hsrc hfind hcd), append_cons] at hfull
    have hlen := congrArg List.length hfull
    rw [length_append, length_append, length_singleton] at hlen
    obtain ⟨dest', hcopy, hwritten⟩ :=
      hrest (p + 1) (by omega) (by omega) (out ++ [x]) _ (hout.update x) hfull
    refine ⟨dest', ?_, hwritten⟩
    rw [copyLoop_next hsrc hfind, if_neg hcd, Nat.add_sub_cancel, hx, ofNat_add_sub,
      Option.bind_some, put_ofNat (by omega) (by omega), ← ofNat_succ]
    rwa [show (out ++ [x]).length = out.length + 1 by simp] at hcopy

end Copy

/-! ## The result -/

section

variable {src find replaceWith : Bytes} {es_newStr : NewStr} {fuel : ℕ}

lemma IsLength.mod_eq_iff {k : ℕ} (hf : find ≠ []) (hsrc : src.length < 2 ^ 32)
    (hk : IsLength find replaceWith src k) :
    k % 2 ^ 32 = (replaceAll find replaceWith src).length ↔
      (replaceAll find replaceWith src).length < 2 ^ 32 ∧
        (find.length = replaceWith.length ∨ tally find 1 src = tally find 0 src) := by
  have hlen := length_replaceAll hf replaceWith src
  have hle := tally_le find 1 src
  rw [IsLength] at hk
  generalize (replaceAll find replaceWith src).length = n at hlen ⊢
  generalize tally find 1 src = t₁ at hk hle ⊢
  generalize tally find 0 src = t₀ at hlen hle ⊢
  obtain ⟨missed, rfl⟩ := Nat.exists_eq_add_of_le hle
  rw [Nat.add_mul, Nat.add_mul] at hlen
  have hmissed : n + missed * find.length = k + missed * replaceWith.length := by omega
  constructor
  · intro hmod
    have h32 : n < 2 ^ 32 := hmod ▸ Nat.mod_lt k (Nat.two_pow_pos 32)
    have hk32 : k < 2 ^ 32 := by
      rcases Nat.le_total find.length replaceWith.length with hfr | hrf
      · have := mul_le_mul_left missed hfr
        omega
      · have := mul_le_mul_left t₁ hrf
        omega
    rw [mod_eq_of_lt hk32] at hmod
    subst hmod
    refine ⟨h32, ?_⟩
    rcases Nat.eq_zero_or_pos missed with rfl | hpos
    · exact .inr rfl
    · exact .inl (Nat.eq_of_mul_eq_mul_left hpos (Nat.add_left_cancel hmissed))
  · rintro ⟨h32, heq⟩
    have hkn : k = n := by
      rcases heq with heq | heq
      · rw [heq] at hmissed
        omega
      · obtain rfl : missed = 0 := by omega
        omega
    rw [hkn, mod_eq_of_lt h32]

end

/-- `replace` replaces the occurrences, from the left, exactly if the result fits into 32 bits and
either the replacement is as long as what it replaces, or a scan that goes on one byte too far after
a match that fails misses no occurrence. -/
theorem replace_iff {J : Type} (libs : Libs J) (es_newStr : NewStr) {fuel : ℕ} {s f r : Bytes}
    (hf : f ≠ []) (hs : s.length < 2 ^ 32) (hfuel : (s.length + 1) * (f.length + 1) ≤ fuel) :
    doFuncReplace libs es_newStr fuel (.s s) (.s f) (.s r) = some (replaceAll f r s) ↔
      (replaceAll f r s).length < 2 ^ 32 ∧ (f.length = r.length ∨ tally f 1 s = tally f 0 s) := by
  have hfuel' : left s f 0 0 < fuel := by
    rw [Nat.add_one_mul] at hfuel
    rw [left, Nat.sub_zero]
    omega
  obtain ⟨k, hlength, hk⟩ : ∃ k, lengthLoop s f r fuel 0 0 0 =
      some (UInt32.ofNat k) ∧ IsLength f r s k := lengthLoop_eq hf hfuel'
  have htoNat : (UInt32.ofNat k).toNat = k % 2 ^ 32 := UInt32.toNat_ofNat'
  change replaceStr s f r es_newStr fuel = _ ↔ _
  rw [← hk.mod_eq_iff hf hs, replaceStr, hlength, ← htoNat]
  generalize UInt32.ofNat k = lDst
  simp only [Option.bind_eq_bind, Option.bind_some]
  constructor
  · intro hres
    obtain ⟨dest, -, hdest⟩ := Option.bind_eq_some_iff.mp hres
    simpa using congrArg List.length (Option.some.inj hdest)
  · intro hlen
    obtain ⟨dest, hcopy, hwritten⟩ := copyLoop_eq hf hfuel'
      (hlen ▸ es_newStr.le_size lDst) (hlen ▸ lDst.toNat_lt.le)
    rw [hcopy, hlen]
    exact congrArg some hwritten

def NewStr.exact : NewStr := ⟨UInt32.toNat, fun _ => le_rfl, fun _ => 0⟩

theorem replace_found :
    doFuncReplace Libs.ints NewStr.exact 15 (.s (ascii "cabc")) (.s (ascii "ab"))
        (.s (ascii "xyz")) =
      some (replaceAll (ascii "ab") (ascii "xyz") (ascii "cabc")) :=
  (replace_iff Libs.ints NewStr.exact (by decide) (by decide) (by decide)).mpr
    ⟨by decide, .inr (by decide)⟩

/-- The first pass misses the occurrence, and the second one writes behind the buffer. With more
room the result is cut off. -/
theorem replace_missed :
    doFuncReplace Libs.ints NewStr.exact 15 (.s (ascii "aab")) (.s (ascii "ab"))
        (.s (ascii "xyz")) = none ∧
      doFuncReplace Libs.ints ⟨fun n => n.toNat + 256, fun _ => Nat.le_add_right _ _, fun _ => 0⟩ 15
        (.s (ascii "aab")) (.s (ascii "ab")) (.s (ascii "xyz")) = some (ascii "axy") ∧
      replaceAll (ascii "ab") (ascii "xyz") (ascii "aab") = ascii "axyz" := by
  decide

end Rsyslog.Script
