import Rsyslog.Lib.Decimal
import Rsyslog.Lib.Search

/-!
# Steps of the property replacer

Steps of `MsgGetProp` of `msg.c`, which a template applies to the value of a property. The fields of
a value are compared with those the function `field` of `rainerscript.c` gives.
-/

namespace Rsyslog.Msg.GetProp

open Lib List

/-! ## Fields -/

/-- The loop that skips to a field. There is no result if the terminator is taken for the delimiter.
-/
def skipFields (delim : UInt8) (nbr : ℕ) : ℕ → Bytes → Option (ℕ × Bytes)
  | iCurrFld, [] => some (iCurrFld, [])
  | iCurrFld, c :: pFld =>
    if iCurrFld < nbr then
      if c = delim then skipFields delim nbr (iCurrFld + 1) pFld
      else if pFld = [] ∧ delim = 0 then none
      else skipFields delim nbr iCurrFld pFld
    else some (iCurrFld, c :: pFld)

def extractField (str : Bytes) (delim : UInt8) (nbr : ℕ) : Option (Option Bytes) :=
  (skipFields delim nbr 1 str).map fun (iCurrFld, pFld) =>
    if iCurrFld = nbr then some (pFld.takeWhile (· ≠ delim)) else none

def doExtractFieldByChar (str : Bytes) (delim : UInt8) (matchnbr : ℕ) :
    Option (Option Bytes) := extractField str delim matchnbr

def fieldNotFound : Bytes := ascii "**FIELD NOT FOUND**"

def fieldStep (pRes : Bytes) (field_delim : UInt8) (iFieldNr : ℕ) : Option Bytes :=
  (extractField pRes field_delim iFieldNr).map fun field => field.getD fieldNotFound

/-- The place of the first occurrence: what is before it, and the string from there on. -/
def strstr (needle : Bytes) : Bytes → Option (Bytes × Bytes)
  | [] => if needle = [] then some ([], []) else none
  | c :: s =>
    if needle <+: c :: s then some ([], c :: s)
    else (strstr needle s).map fun (front, found) => (c :: front, found)

def skipFieldsByStr (delim : Bytes) : ℕ → Bytes → Option Bytes
  | 0, pFld => some pFld
  | n + 1, pFld =>
    (strstr delim pFld).bind fun (_, pFld) => skipFieldsByStr delim n (pFld.drop delim.length)

def doExtractFieldByStr (str delim : Bytes) (matchnbr : ℕ) : Option Bytes :=
  (skipFieldsByStr delim (matchnbr - 1) str).map fun pFld =>
    ((strstr delim pFld).map Prod.fst).getD pFld

section Fields

variable {delim : Bytes} {d : UInt8} {nbr iCurrFld : ℕ}

lemma fields_eq (hdelim : delim ≠ []) (s : Bytes) :
    fields delim s = match strstr delim s with
      | none => [s]
      | some (front, found) => front :: fields delim (found.drop delim.length) := by
  induction s using scan_induction hdelim with
  | nil =>
    rw [strstr, if_neg hdelim]
    rfl
  | found s ih =>
    obtain ⟨c, delim, rfl⟩ := exists_cons_of_ne_nil hdelim
    have hpre : c :: delim <+: c :: (delim ++ s) := prefix_append _ _
    rw [fields_append hdelim, cons_append, strstr, if_pos hpre]
    simp
  | step c s hpre ih =>
    rw [fields_cons hpre, ih, strstr, if_neg hpre]
    cases strstr delim s <;> rfl

lemma doExtractFieldByStr_eq (hdelim : delim ≠ []) (n : ℕ) (str : Bytes) :
    doExtractFieldByStr str delim (n + 1) = (fields delim str)[n]? := by
  rw [doExtractFieldByStr, Nat.add_sub_cancel]
  induction n generalizing str with
  | zero =>
    rw [fields_eq hdelim, skipFieldsByStr, Option.map_some]
    cases strstr delim str <;> rfl
  | succ n ih =>
    rw [fields_eq hdelim, skipFieldsByStr]
    cases strstr delim str with
    | none => rfl
    | some place => exact ih _

lemma fields_delim (d : UInt8) (s : Bytes) : fields [d] (d :: s) = [] :: fields [d] s :=
  fields_append (cons_ne_nil d [])

lemma fields_octet {c : UInt8} (hc : c ≠ d) (s : Bytes) :
    fields [d] (c :: s) = (fields [d] s).modifyHead (c :: ·) :=
  fields_cons (by simp [hc.symm])

lemma fields_head (d : UInt8) (s : Bytes) : (fields [d] s)[0]? = some (s.takeWhile (· ≠ d)) := by
  induction s with
  | nil => rfl
  | cons c s ih =>
    by_cases hc : c = d
    · subst hc
      simp [fields_delim]
    · rw [fields_octet hc, getElem?_modifyHead_zero, ih]
      simp [hc]

/-- The fields before the one asked for are counted from the one the loop is in. -/
lemma skipFields_eq (hd : d ≠ 0) (hnbr : iCurrFld ≤ nbr) (s : Bytes) :
    (skipFields d nbr iCurrFld s).map (fun (iCurrFld, pFld) =>
      if iCurrFld = nbr then some (pFld.takeWhile (· ≠ d)) else none) =
    some (fields [d] s)[nbr - iCurrFld]? := by
  induction s generalizing iCurrFld with
  | nil =>
    have hfields : fields [d] [] = [[]] := rfl
    rw [skipFields, Option.map_some, hfields]
    by_cases h : iCurrFld = nbr
    · simp [h]
    · simp [h, show nbr - iCurrFld ≠ 0 by omega]
  | cons c s ih =>
    rw [skipFields]
    split_ifs with hlt hc hend
    · rw [ih hlt, hc, fields_delim, show nbr - iCurrFld = nbr - (iCurrFld + 1) + 1 by omega,
        getElem?_cons_succ]
    · exact absurd hend.2 hd
    · have hbehind : nbr - iCurrFld ≠ 0 := by omega
      rw [ih hnbr, fields_octet hc, getElem?_modifyHead, if_neg hbehind]
    · obtain rfl : iCurrFld = nbr := by omega
      simp [fields_head]

end Fields

/-- **Fields.** The three ways to get a field of a string give the piece of that number, where it
is split at the delimiter. -/
theorem field_eq_piece (str delim : Bytes) (hdelim : delim ≠ []) (hnul : 0 ∉ delim) (nbr : ℕ)
    (hnbr : 1 ≤ nbr) :
    doExtractFieldByStr str delim nbr = (fields delim str)[nbr - 1]? ∧
      ∀ d, delim = [d] →
        doExtractFieldByChar str d nbr = some (fields delim str)[nbr - 1]? ∧
        fieldStep str d nbr = some ((fields delim str)[nbr - 1]?.getD fieldNotFound) := by
  constructor
  · obtain ⟨n, rfl⟩ := Nat.exists_eq_add_of_le' hnbr
    exact doExtractFieldByStr_eq hdelim n str
  · rintro d rfl
    have hd : d ≠ 0 := fun h => hnul (h ▸ mem_cons_self)
    have hfield : extractField str d nbr = _ := skipFields_eq hd hnbr str
    exact ⟨hfield, by rw [fieldStep, hfield, Option.map_some]⟩

/-- The last field of `a,` is empty. -/
theorem field_behind_delimiter :
    doExtractFieldByStr [97, 44] [44] 2 = some [] ∧
      fieldStep [97, 44] 44 2 = some [] := by
  obtain ⟨hstr, hchar⟩ := field_eq_piece [97, 44] [44] (by simp) (by simp) 2 (by decide)
  exact ⟨hstr.trans (by decide), (hchar 44 rfl).2.trans (by decide)⟩

/-! ## Regular expressions -/

/-- The number is within the range of an `int`. -/
def IsInt (n : ℤ) : Prop := -2 ^ 31 ≤ n ∧ n < 2 ^ 31
deriving Decidable

structure Regmatch where
  rm_so : ℤ
  rm_eo : ℤ

/-- A compiled regular expression, by what `regexec` finds: the offsets of the match and of each
submatch, both `-1` if the submatch takes no part. -/
structure Regex where
  regexec : Bytes → Option (ℕ → Regmatch)
  matched : ∀ s m, regexec s = some m → (m 0).rm_so ≠ -1
  within : ∀ s m, regexec s = some m → ∀ i, m i = ⟨-1, -1⟩ ∨
    0 ≤ (m i).rm_so ∧ (m i).rm_so ≤ (m i).rm_eo ∧ (m i).rm_eo ≤ s.length ∧ IsInt (m i).rm_eo

/-- `TPL_REGEX_NOMATCH_USE_DFLTSTR` and so on. -/
inductive NomatchAction
  | dfltStr
  | blank
  | wholeField
  | zero

def NomatchAction.result (pRes : Bytes) : NomatchAction → Bytes
  | dfltStr => ascii "**NO MATCH**"
  | blank => []
  | wholeField => pRes
  | zero => ascii "0"

/-- The search from `iOffs` for match number `iTry`, which is `32767 - room`. Both are of type
`short`, and there is no result where one of them leaves its range. -/
def searchLoop (re : Regex) (pRes : Bytes) (iMatchToUse : Int16) :
    ℕ → ℕ → Option (Option (ℕ × (ℕ → Regmatch)))
  | 0, _ => none
  | room + 1, iOffs =>
    if 2 ^ 15 ≤ iOffs then none
    else match re.regexec (pRes.drop iOffs) with
      | none => some none
      | some pmatch =>
        if (pmatch 0).rm_so = -1 then some none
        else if iMatchToUse.toInt = 32767 - room then some (some (iOffs, pmatch))
        else searchLoop re pRes iMatchToUse room (iOffs + (pmatch 0).rm_eo).toNat

/-- There is no result if the submatch is not one of the ten of `pmatch`. The text is copied also if
the submatch takes no part, and then from the text that stands for it. -/
def regexStep (re : Regex) (iMatchToUse iSubMatchToUse : Int16) (nomatchAction : NomatchAction)
    (pRes : Bytes) : Option Bytes := do
  match ← searchLoop re pRes iMatchToUse (2 ^ 15) 0 with
  | none => some (nomatchAction.result pRes)
  | some (iOffs, pmatch) =>
    let i := iSubMatchToUse.toInt
    let rm := pmatch i.toNat
    let pRes := if rm.rm_so = -1 then nomatchAction.result pRes else pRes
    let iLenBuf := rm.rm_eo - rm.rm_so
    if (0 ≤ i ∧ i < 10) ∧ IsInt (iLenBuf + 1) then
      some ((pRes.drop (iOffs + rm.rm_so).toNat).take iLenBuf.toNat)
    else none

/-- Where match number `k` is searched: behind the one before it. -/
def searchAt (re : Regex) (value : Bytes) : ℕ → Option ℕ
  | 0 => some 0
  | k + 1 => (searchAt re value k).bind fun off =>
    (re.regexec (value.drop off)).map fun m => off + (m 0).rm_eo.toNat

/-- Match number `n`, with the place that its offsets count from. -/
def nthMatch (re : Regex) (value : Bytes) (n : ℤ) : Option (ℕ × (ℕ → Regmatch)) :=
  if n < 0 then none
  else (searchAt re value n.toNat).bind fun off => (re.regexec (value.drop off)).map (off, ·)

def submatch (value : Bytes) (i : ℤ) (r : ℕ × (ℕ → Regmatch)) : Option Bytes :=
  let rm := r.2 i.toNat
  if i < 0 ∨ rm.rm_so = -1 then none
  else some ((value.drop (r.1 + rm.rm_so.toNat)).take (rm.rm_eo - rm.rm_so).toNat)

/-- From match number `k` on, the search for match number `n` needs only numbers of a `short`. -/
def InShort (re : Regex) (value : Bytes) (n : ℤ) (k : ℕ) : Prop :=
  ∀ j off, k ≤ j → searchAt re value j = some off → (0 ≤ n → j ≤ n) → j < 2 ^ 15 ∧ off < 2 ^ 15

variable {re : Regex} {value : Bytes} {k off : ℕ} {m : ℕ → Regmatch}

lemma searchAt_succ (hoff : searchAt re value k = some off) :
    searchAt re value (k + 1) =
      (re.regexec (value.drop off)).map fun m => off + (m 0).rm_eo.toNat := by
  rw [searchAt, hoff, Option.bind_some]

lemma searchAt_eq_none (h : searchAt re value k = none) {j : ℕ} (hj : k ≤ j) :
    searchAt re value j = none := by
  induction hj with
  | refl => exact h
  | step _ ih => rw [searchAt, ih, Option.bind_none]

lemma inShort_iff {n : ℤ} (hoff : searchAt re value k = some off) (hn : 0 ≤ n → k ≤ n) :
    InShort re value n k ↔ (k < 2 ^ 15 ∧ off < 2 ^ 15) ∧ InShort re value n (k + 1) := by
  constructor
  · intro h
    exact ⟨h k off le_rfl hoff hn, fun j off hj => h j off (Nat.le_of_succ_le hj)⟩
  · rintro ⟨hk, h⟩ j off' hj hoff' hle
    rcases hj.eq_or_lt with rfl | hj
    · rw [hoff, Option.some.injEq] at hoff'
      exact hoff' ▸ hk
    · exact h j off' hj hoff' hle

/-- The search has a result exactly if it needs only numbers of a `short`, and then it is the match
asked for. -/
lemma searchLoop_iff {n : Int16} {room : ℕ} {r : Option (ℕ × (ℕ → Regmatch))}
    (hk : k + room = 2 ^ 15) (hn : 0 ≤ n.toInt → k ≤ n.toInt)
    (hoff : searchAt re value k = some off) :
    searchLoop re value n room off = some r ↔
      InShort re value n.toInt k ∧ nthMatch re value n.toInt = r := by
  rw [inShort_iff hoff hn]
  induction room generalizing k off with
  | zero => exact iff_of_false (by simp [searchLoop]) (by omega)
  | succ room ih =>
    rw [searchLoop]
    by_cases hbig : 2 ^ 15 ≤ off
    · rw [if_pos hbig]
      exact iff_of_false (by simp) (by omega)
    rw [if_neg hbig, and_iff_right (show k < 2 ^ 15 ∧ off < 2 ^ 15 by omega)]
    have hnext := searchAt_succ hoff
    cases hm : re.regexec (value.drop off) with
    | none =>
      rw [hm, Option.map_none] at hnext
      have hin : InShort re value n.toInt (k + 1) := fun j off' hj hoff' => by
        simp [searchAt_eq_none hnext hj] at hoff'
      have hno : nthMatch re value n.toInt = none := by
        rw [nthMatch]
        split_ifs with hneg
        · rfl
        rcases (show k ≤ n.toInt.toNat by omega).eq_or_lt with heq | hlt
        · rw [← heq, hoff, Option.bind_some, hm, Option.map_none]
        · rw [searchAt_eq_none hnext hlt, Option.bind_none]
      simp [hin, hno]
    | some m =>
      simp only [re.matched _ _ hm, if_false]
      split_ifs with hfound
      · have hin : InShort re value n.toInt (k + 1) := fun j _ hj _ hle => by omega
        have hmatch : nthMatch re value n.toInt = some (off, m) := by
          rw [nthMatch, if_neg (by omega), show n.toInt.toNat = k by omega, hoff, Option.bind_some,
            hm, Option.map_some]
        simp [hin, hmatch]
      · rw [hm, Option.map_some] at hnext
        have hpos : 0 ≤ (m 0).rm_eo := by
          rcases re.within _ _ hm 0 with hnone | hwithin
          · exact absurd (congrArg Regmatch.rm_so hnone) (re.matched _ _ hm)
          · omega
        have hle : 0 ≤ n.toInt → ((k + 1 : ℕ) : ℤ) ≤ n.toInt := by omega
        rw [inShort_iff hnext hle, ← ih (by omega) hle hnext, Int.toNat_add (by omega) hpos,
          Int.toNat_natCast]

lemma within_of_nthMatch {n : ℤ} (h : nthMatch re value n = some (off, m)) (i : ℕ) :
    m i = ⟨-1, -1⟩ ∨ 0 ≤ (m i).rm_so := by
  rw [nthMatch, Option.ite_none_left_eq_some] at h
  obtain ⟨off', -, hmap⟩ := Option.bind_eq_some_iff.mp h.2
  obtain ⟨m', hm, heq⟩ := Option.map_eq_some_iff.mp hmap
  cases heq
  exact (re.within _ _ hm i).imp_right And.left

/-- **Regular expressions.** The submatch, or what stands for it if there is none, is the result,
unless the search leaves the range of a `short`, or there is a match and the submatch is not one of
the ten, or is too long to be copied, or takes no part: then the result is empty. -/
theorem regexStep_eq_iff (re : Regex) (n i : Int16) (action : NomatchAction) (value : Bytes) :
    regexStep re n i action value = some (((nthMatch re value n.toInt).bind
        (submatch value i.toInt)).getD (action.result value)) ↔
      InShort re value n.toInt 0 ∧ ∀ off m, nthMatch re value n.toInt = some (off, m) →
        (0 ≤ i.toInt ∧ i.toInt < 10) ∧
        IsInt ((m i.toInt.toNat).rm_eo - (m i.toInt.toNat).rm_so + 1) ∧
        ((m i.toInt.toNat).rm_so = -1 → action.result value = []) := by
  have hloop (r) : searchLoop re value n (2 ^ 15) 0 = some r ↔ _ :=
    searchLoop_iff (zero_add _) (fun h => h) rfl
  rw [regexStep]
  generalize i.toInt = i
  by_cases hin : InShort re value n.toInt 0
  · rw [(hloop _).mpr ⟨hin, rfl⟩, and_iff_right hin]
    cases hmatch : nthMatch re value n.toInt with
    | none => simp
    | some r =>
      obtain ⟨off, m⟩ := r
      simp only [Option.bind_eq_bind, Option.bind_some, submatch, Option.some.injEq, Prod.mk.injEq,
        and_imp, forall_apply_eq_imp_iff, forall_eq', Option.ite_none_right_eq_some]
      rw [and_assoc]
      refine and_congr_right fun hi => and_congr_right fun _ => ?_
      rcases within_of_nthMatch hmatch i.toNat with hnone | hso
      · simp only [hnone, if_true, or_true, Option.getD_none, Int.sub_self, Int.toNat_zero,
          take_zero, forall_const]
        exact eq_comm
      · have hne : (m i.toNat).rm_so ≠ -1 := by omega
        simp [hne, hi.1.not_gt, Int.toNat_add, hso]
  · have hnone : searchLoop re value n (2 ^ 15) 0 = none :=
      Option.eq_none_iff_forall_not_mem.mpr fun r hr => hin ((hloop r).mp hr).1
    rw [hnone]
    simp [hin]

/-- The regular expression `(a)?`. -/
def optA : Regex where
  regexec s := some fun i =>
    if s.head? = some 97 ∧ i ≤ 1 then ⟨0, 1⟩ else if i = 0 then ⟨0, 0⟩ else ⟨-1, -1⟩
  matched s m h := by
    obtain rfl := Option.some.inj h
    dsimp only
    split_ifs <;> simp_all
  within s m h i := by
    obtain rfl := Option.some.inj h
    dsimp only
    cases s <;> split_ifs <;> simp_all [IsInt]
    omega

/-- The submatch takes no part in the match. -/
theorem regexStep_no_submatch :
    regexStep optA 0 1 .dfltStr [98] = some [] ∧
      ((nthMatch optA [98] 0).bind (submatch [98] 1)).getD (NomatchAction.dfltStr.result [98]) =
        ascii "**NO MATCH**" := by
  decide

/-! ## Substrings -/

structure Field where
  iFromPos : Int32
  iToPos : Int32
  bFromPosEndRelative : Bool
  bFixedWidth : Bool

/-- What `position.from` and `position.to` of a property are taken for. -/
def positions (frompos topos : Option Int32) (bPosRelativeToEnd : Bool) : Option (Int32 × Int32) :=
  let topos_set := topos.isSome
  let frompos := frompos.getD (-1)
  let topos := if !topos_set && frompos ≠ -1 then 2000000000 else topos.getD 0
  let frompos := if frompos = -1 && topos_set then 0 else frompos
  if bPosRelativeToEnd && topos > frompos then none
  else if !bPosRelativeToEnd && topos ≥ 0 && topos < frompos then none
  else if frompos = -1 then some (0, 0)
  else some (frompos, topos)

def copyLoop : ℕ → Bytes → Bytes
  | 0, _ => []
  | iLen + 1, [] => 32 :: copyLoop iLen []
  | iLen + 1, c :: pSb => c :: copyLoop iLen pSb

/-- From here on the positions count from 0. There is no result if an `int` overflows or the length
is negative: at `-1` the copying does not end, and below that `malloc` fails. -/
def cut (bFixedWidth : Bool) (pRes : Bytes) (iFrom iTo : ℤ) : Option Bytes :=
  let bufLen : ℤ := pRes.length
  if bufLen ≤ iFrom then some []
  else if iFrom = 0 ∧ bufLen ≤ iTo ∧ bFixedWidth = false then some pRes
  else
    let iTo := if bufLen ≤ iTo ∧ bFixedWidth = false then bufLen - 1 else iTo
    let iLen := iTo - iFrom + 1
    -- The octets are skipped up to the terminator at most.
    let pSb := if iFrom < 0 then [] else pRes.drop iFrom.toNat
    if iLen < 0 ∨ ¬(IsInt (iTo - iFrom) ∧ IsInt iLen ∧ IsInt (iLen + 1)) then none
    else some (copyLoop iLen.toNat pSb)

/-- The length of the value is an `int`, and so is what is computed from it. -/
def substring (f : Field) (pRes : Bytes) : Option Bytes :=
  let bufLen : ℤ := pRes.length
  let iFrom := f.iFromPos.toInt
  let iTo := f.iToPos.toInt
  if f.iFromPos = 0 ∧ f.iToPos = 0 then some pRes
  else if ¬IsInt bufLen then none
  else if f.bFromPosEndRelative then
    let iFrom := if bufLen < iFrom then 0 else bufLen - iFrom
    let iTo := if bufLen < iTo then 0 else bufLen - iTo
    if IsInt iFrom ∧ IsInt iTo then cut f.bFixedWidth pRes iFrom iTo else none
  else
    let iFrom := if 0 < iFrom then iFrom - 1 else iFrom
    if 0 < iTo then cut f.bFixedWidth pRes iFrom (iTo - 1)
    else if iTo < 0 then
      let iTo := bufLen - 1 + iTo
      if IsInt iTo then cut f.bFixedWidth pRes iFrom (if iTo < 0 then 0 else iTo) else none
    else cut f.bFixedWidth pRes iFrom iTo

/-- The octets at the indices from `a` to `e`. -/
def range (fixed : Bool) (value : Bytes) (a e : ℤ) : Bytes :=
  let octets := (value.take (e + 1).toNat).drop a.toNat
  if fixed then octets.rightpad (e - a + 1).toNat 32 else octets

def Field.first (f : Field) (len : ℤ) : ℤ :=
  if f.bFromPosEndRelative then len - f.iFromPos.toInt else max f.iFromPos.toInt 1 - 1

def Field.last (f : Field) (len : ℤ) : ℤ :=
  if f.bFromPosEndRelative then len - f.iToPos.toInt
  else if f.iToPos.toInt < 0 then len - 1 + f.iToPos.toInt else f.iToPos.toInt - 1

variable {fixed : Bool}

lemma copyLoop_eq (n : ℕ) (s : Bytes) : copyLoop n s = (s.take n).rightpad n 32 := by
  fun_induction copyLoop n s with
  | case1 => simp [rightpad]
  | case2 n ih => simp_all [rightpad, replicate_succ]
  | case3 n c s ih => simp_all [rightpad]

/-- The indices `a` to `e`, any of which may be outside of the value. A buffer that is needed is of
a size that is an `int`. -/
def Handled (fixed : Bool) (value : Bytes) (a e : ℤ) : Prop :=
  if value.length ≤ a.toNat then fixed → e < a
  else ((0 ≤ e ∧ a ≤ e + 1 ∨ e < 0 ∧ a = 1) ∧ (fixed → 0 ≤ a) ∨
      fixed ∧ a = e ∧ e < 0 ∧ value.head? = some 32) ∧
    (fixed ∨ e < value.length → e - a.toNat + 2 < 2 ^ 31)

lemma cut_eq {i t : ℕ} (hi : i < value.length) (ht : t < 2 ^ 31) :
    cut fixed value i t =
      if t + 1 < i ∨ (fixed ∨ t < value.length) ∧ 2 ^ 31 + i ≤ t + 2 then none else
      let octets := (value.drop i).take (t + 1 - i)
      some (if fixed then octets.rightpad (t + 1 - i) 32 else octets) := by
  have hneg : ¬(i : ℤ) < 0 := by omega
  have hs := @length_drop _ i value
  rw [cut, if_neg (by omega)]
  simp only [hneg, if_false, Int.toNat_natCast, copyLoop_eq, IsInt]
  cases fixed with
  | true =>
    have hlen : ((t : ℤ) - i + 1).toNat = t + 1 - i := by omega
    simp only [Bool.true_eq_false, and_false, if_false, if_true, hlen, true_or, true_and]
    congr 1
    exact propext (by omega)
  | false =>
    simp only [and_true, Bool.false_eq_true, if_false, false_or]
    by_cases hto : (value.length : ℤ) ≤ t
    · have hlen : ((value.length : ℤ) - 1 - i + 1).toNat = (value.drop i).length := by omega
      rw [if_neg (show ¬(t + 1 < i ∨ t < value.length ∧ _) by omega), if_pos hto, hlen,
        take_length, take_of_length_le (by omega)]
      split_ifs with hsuper hlt
      · rw [show i = 0 by omega, drop_zero]
      · omega
      · simp [rightpad]
    · have hlen : ((t : ℤ) - i + 1).toNat = t + 1 - i := by omega
      rw [if_neg hto, if_neg (by omega), hlen]
      split_ifs with hlt hlt' hlt'
      · rfl
      · omega
      · omega
      · rw [rightpad, length_take, Nat.min_eq_left (by omega), Nat.sub_self, replicate_zero,
          append_nil]

lemma cut_eq_range_iff {a e : ℤ} (he : e < 2 ^ 31) :
    cut fixed value (max a 0) (max e 0) = some (range fixed value a e) ↔
      Handled fixed value a e := by
  rw [Handled, range, drop_take]
  by_cases hlen : value.length ≤ a.toNat
  · have hs : value.drop a.toNat = [] := drop_eq_nil_of_le hlen
    rw [if_pos hlen, cut, if_pos (by omega), hs, take_nil, Option.some.injEq, eq_comm]
    cases fixed with
    | false => simp
    | true =>
      simp only [if_true, forall_const, ← length_eq_zero_iff, length_rightpad, length_nil]
      omega
  have hs := @length_drop _ a.toNat value
  have hsize : ¬((fixed ∨ e.toNat < value.length) ∧ 2 ^ 31 + a.toNat ≤ e.toNat + 2) ↔
      (fixed ∨ e < value.length → e - a.toNat + 2 < 2 ^ 31) := by
    cases fixed <;> simp only [Bool.false_eq_true, true_or, false_or, true_and, forall_const] <;>
      omega
  rw [← Int.toNat_eq_max, ← Int.toNat_eq_max, cut_eq (by omega) (by omega), if_neg hlen,
    Option.ite_none_left_eq_some, Option.some.injEq, not_or, hsize, and_right_comm]
  refine and_congr_left fun _ => ?_
  cases fixed with
  | false =>
    simp only [Bool.false_eq_true, if_false, take_eq_take_iff, false_and, or_false, forall_false,
      and_true]
    omega
  | true =>
    simp only [if_true, true_and, forall_const]
    by_cases hneg : a < 0 ∧ e < 0
    · have hn : e.toNat + 1 - a.toNat = 1 := by omega
      have hm : (e + 1).toNat - a.toNat = 0 := by omega
      obtain _ | ⟨c, t⟩ := value
      · simp at hlen
      rw [hn, hm, show a.toNat = 0 by omega]
      simp only [drop_zero, take_succ_cons, take_zero, rightpad, nil_append, length_nil,
        Nat.sub_zero, length_singleton, Nat.sub_self, replicate_zero, append_nil, eq_replicate_iff,
        mem_singleton, forall_eq, head?_cons, Option.some.injEq]
      grind
    · constructor
      · rintro ⟨hlt, h⟩
        have hlength := congrArg length h
        rw [length_rightpad, length_rightpad, Nat.max_eq_left (length_take_le _ _),
          Nat.max_eq_left (by rw [length_take]; omega)] at hlength
        omega
      · intro h
        rw [show e.toNat + 1 - a.toNat = (e + 1).toNat - a.toNat by omega,
          show (e - a + 1).toNat = (e + 1).toNat - a.toNat by omega]
        exact ⟨by omega, rfl⟩

/-- A negative first index skips the whole value. -/
lemma cut_ne_range {i : ℤ} (hi : i < 0) (e : ℤ) :
    cut fixed value i (max e 0) ≠ some (range fixed value 0 e) := by
  rw [cut, if_neg (by omega), if_neg (by omega)]
  intro h
  simp only [hi, if_true, copyLoop_eq, take_nil, Option.ite_none_left_eq_some] at h
  have hlength := congrArg length (Option.some.inj h.2)
  rw [length_rightpad, range] at hlength
  cases fixed <;> simp at hlength <;> omega

/-- The indices of the first and of the last octet, as well as the length, are of type `int`. -/
def Field.InInt (f : Field) (len : ℤ) : Prop :=
  IsInt len ∧ IsInt (f.first len) ∧ IsInt (f.last len)

lemma substring_eq_cut (f : Field) (hset : ¬(f.iFromPos = 0 ∧ f.iToPos = 0)) :
    substring f value =
      if IsInt value.length ∧ IsInt (f.first value.length) ∧ IsInt (f.last value.length) then
        cut f.bFixedWidth value
          (if f.bFromPosEndRelative ∨ 0 ≤ f.iFromPos.toInt then max (f.first value.length) 0
          else f.iFromPos.toInt) (max (f.last value.length) 0)
      else none := by
  have hfrom := f.iFromPos.toInt_lt
  have hto := f.iToPos.toInt_lt
  rw [substring, if_neg hset, Field.first, Field.last]
  generalize f.iFromPos.toInt = iFrom at hfrom ⊢
  generalize f.iToPos.toInt = iTo at hto ⊢
  by_cases hlen : IsInt value.length
  swap
  · simp [hlen]
  simp only [hlen, not_true_eq_false, if_false, true_and]
  by_cases hrel : f.bFromPosEndRelative
  · have hmax (n : ℤ) : (if value.length < n then 0 else value.length - n) =
        max (value.length - n) 0 := by omega
    simp only [hrel, if_true, true_or, hmax]
    congr 1
    exact propext (by simp only [IsInt]; omega)
  · have hfirst : IsInt (max iFrom 1 - 1) := ⟨by omega, by omega⟩
    have hfrom' : (if 0 < iFrom then iFrom - 1 else iFrom) =
        if 0 ≤ iFrom then max (max iFrom 1 - 1) 0 else iFrom := by omega
    simp only [hrel, Bool.false_eq_true, if_false, false_or, hfirst, true_and, hfrom']
    rcases lt_trichotomy iTo 0 with hneg | rfl | hpos
    · have hclip : (if (value.length : ℤ) - 1 + iTo < 0 then 0 else (value.length : ℤ) - 1 + iTo) =
          max (value.length - 1 + iTo) 0 := by omega
      rw [if_neg hneg.not_gt, if_pos hneg, hclip, if_pos hneg]
    · simp [IsInt]
    · have hlast : IsInt (iTo - 1) := ⟨by omega, by omega⟩
      have hclip : max (iTo - 1) 0 = iTo - 1 := by omega
      simp [hpos, hpos.not_gt, hlast, hclip]

theorem substring_eq_iff (f : Field) (value : Bytes) :
    substring f value = some (if f.iFromPos = 0 ∧ f.iToPos = 0 then value
      else range f.bFixedWidth value (f.first value.length) (f.last value.length)) ↔
    f.iFromPos = 0 ∧ f.iToPos = 0 ∨ (f.bFromPosEndRelative ∨ 0 ≤ f.iFromPos.toInt) ∧
      f.InInt value.length ∧
      Handled f.bFixedWidth value (f.first value.length) (f.last value.length) := by
  by_cases hset : f.iFromPos = 0 ∧ f.iToPos = 0
  · simp [substring, hset]
  rw [if_neg hset, or_iff_right hset, substring_eq_cut f hset, Option.ite_none_right_eq_some]
  refine (and_congr_right fun hin => ?_).trans and_left_comm
  rw [← cut_eq_range_iff hin.2.2.2]
  by_cases hfrom : f.bFromPosEndRelative ∨ 0 ≤ f.iFromPos.toInt
  · rw [if_pos hfrom, and_iff_right hfrom]
  · have hfirst : f.first value.length = 0 := by grind [Field.first]
    rw [if_neg hfrom, hfirst]
    exact iff_of_false (cut_ne_range (by grind) _) fun h => hfrom h.1

/-- The value `abc` with `position.from` 3 and `position.to` -3, which the parser accepts. -/
theorem substring_negative_length :
    positions (some 3) (some (-3)) false = some (3, -3) ∧
      substring ⟨3, -3, false, false⟩ (ascii "abc") = none := by
  decide

/-! ## Secure paths -/

inductive SecPath
  | drop
  | replace

/-- The loop over a private buffer, which goes over the octet behind each `/`. There is no result if
that octet is the terminator. -/
def replaceInPlace : Bytes → Option Bytes
  | [] => some []
  | [c] => if c = 47 then none else some [c]
  | c :: d :: rest =>
    if c = 47 then (replaceInPlace rest).map fun rest => 95 :: d :: rest
    else (replaceInPlace (d :: rest)).map (c :: ·)

def underscore (c : UInt8) : UInt8 := if c = 47 then 95 else c

def notSpecial (pRes : Bytes) : Bytes :=
  if pRes = [] ∨ pRes = [46] then [95] else if pRes = [46, 46] then [95, 46] else pRes

def secPath (mustBeFreed : Bool) (pRes : Bytes) : SecPath → Option Bytes
  | .drop => some (notSpecial (pRes.filter (· ≠ 47)))
  | .replace =>
    (if mustBeFreed then replaceInPlace pRes else some (pRes.map underscore)).map notSpecial

/-- A later step. `on` is `bDropLastLF && !bEscapeCC`. -/
def dropLastLF (on : Bool) (pRes : Bytes) : Bytes :=
  if on ∧ pRes.getLast? = some 10 then pRes.dropLast else pRes

def special : List Bytes := [[], [46], [46, 46]]

def Safe (name : Bytes) : Prop := 47 ∉ name ∧ name ∉ special

/-- Behind each `/` there is another octet than `/`. -/
def Apart (value : Bytes) : Prop :=
  (value ++ [47]).IsChain fun c d => ¬(c = 47 ∧ d = 47)

variable {name r : Bytes} {b : Bool}

lemma apart_cons {c : UInt8} :
    Apart (c :: value) ↔ (c = 47 → ∃ d ∈ value.head?, d ≠ 47) ∧ Apart value := by
  cases value <;> simp [Apart, List.isChain_cons_cons]

lemma replaceInPlace_of_apart (h : Apart value) :
    replaceInPlace value = some (value.map underscore) := by
  fun_induction replaceInPlace value with
  | case1 => rfl
  | case2 => simp [apart_cons] at h
  | case3 c hc => simp [underscore, hc]
  | case4 d rest ih =>
    obtain ⟨hd, h⟩ := apart_cons.mp h
    simp_all [ih (apart_cons.mp h).2, underscore]
  | case5 c d rest hc ih => simp [ih (apart_cons.mp h).2, underscore, hc]

/-- Of two `/` in a row the second is still there. -/
lemma mem_of_not_apart (h : ¬Apart value) (hr : replaceInPlace value = some r) : 47 ∈ r := by
  fun_induction replaceInPlace value generalizing r with
  | case1 => simp [Apart] at h
  | case2 => simp at hr
  | case3 c hc => simp [Apart, hc] at h
  | case4 d rest ih =>
    obtain ⟨tail, htail, rfl⟩ := Option.map_eq_some_iff.mp hr
    by_cases hd : d = 47
    · simp [hd]
    · simp [ih (by simpa [apart_cons, hd] using h) htail]
  | case5 c d rest hc ih =>
    obtain ⟨tail, htail, rfl⟩ := Option.map_eq_some_iff.mp hr
    rw [apart_cons, and_iff_right fun hc' => absurd hc' hc] at h
    simp [ih h htail]

lemma map_underscore_eq (h : ∀ c ∈ name, c ≠ 47 ∧ c ≠ 95) :
    value.map underscore = name ↔ value = name := by
  induction value generalizing name with
  | nil => rfl
  | cons c value ih =>
    cases name with
    | nil => simp
    | cons d name =>
      obtain ⟨hd, h⟩ := List.forall_mem_cons.mp h
      have : underscore c = d ↔ c = d := by grind [underscore]
      simp [ih h, this]

lemma map_underscore_mem {names : List Bytes} (h : ∀ name ∈ names, ∀ c ∈ name, c ≠ 47 ∧ c ≠ 95) :
    value.map underscore ∈ names ↔ value ∈ names := by
  constructor
  · intro hmem
    have heq := (map_underscore_eq (h _ hmem)).mp rfl
    exact heq ▸ hmem
  · intro hmem
    rwa [(map_underscore_eq (h _ hmem)).mpr rfl]

lemma dropLastLF_concat (front : Bytes) (c : UInt8) :
    dropLastLF b (front ++ [c]) = if b ∧ c = 10 then front else front ++ [c] := by
  simp [dropLastLF]

lemma mem_dropLastLF (h : 47 ∈ name) : 47 ∈ dropLastLF b name := by
  obtain rfl | ⟨front, c, rfl⟩ := name.eq_nil_or_concat'
  · simp at h
  · grind [dropLastLF_concat]

lemma notSpecial_eq (h : name ∉ special) : notSpecial name = name := by
  grind [notSpecial, special]

lemma safe_dropLastLF (h : 47 ∉ name) :
    Safe (dropLastLF b (notSpecial name)) ↔ (b → name ∉ special.map (· ++ [10])) := by
  by_cases hname : name ∈ special
  · rcases List.mem_cons.mp hname with rfl | hname
    · simp [notSpecial, dropLastLF, Safe, special]
    · rcases List.mem_pair.mp hname with rfl | rfl <;>
        simp [notSpecial, dropLastLF, Safe, special]
  · rw [notSpecial_eq hname]
    obtain rfl | ⟨front, c, rfl⟩ := name.eq_nil_or_concat'
    · simp [special] at hname
    · have : front ++ [c] ∈ special.map (· ++ [10]) ↔ front ∈ special ∧ c = 10 := by
        simp [eq_comm]
      grind [dropLastLF_concat, Safe]

/-- What the two options are given to the last check. -/
def bare (value : Bytes) : SecPath → Bytes
  | .drop => value.filter (· ≠ 47)
  | .replace => value

theorem secPath_safe_iff (opt : SecPath) (mustBeFreed b : Bool) (value : Bytes) :
    (∃ r, secPath mustBeFreed value opt = some r ∧ Safe (dropLastLF b r) ∧
      (opt = .replace → value ∉ special → r = value.map underscore)) ↔
    (opt = .replace → mustBeFreed → Apart value) ∧
      (b → bare value opt ∉ special.map (· ++ [10])) := by
  cases opt with
  | drop =>
    have hfilter : 47 ∉ value.filter (· ≠ 47) := by simp
    simpa [secPath, bare] using safe_dropLastLF hfilter
  | replace =>
    by_cases hapart : mustBeFreed → Apart value
    · have hmap : 47 ∉ value.map underscore := by simp [underscore]; grind
      have hres : (if mustBeFreed then replaceInPlace value else some (value.map underscore)) =
          some (value.map underscore) := by
        split
        · exact replaceInPlace_of_apart (hapart ‹_›)
        · rfl
      have hkept (h : value ∉ special) : notSpecial (value.map underscore) = value.map underscore :=
        notSpecial_eq ((map_underscore_mem (by simp [special])).not.mpr h)
      have hlast : value.map underscore ∈ special.map (· ++ [10]) ↔
          value ∈ special.map (· ++ [10]) := map_underscore_mem (by simp [special])
      simp only [secPath, hres, Option.map_some, Option.some.injEq, exists_eq_left', bare,
        safe_dropLastLF hmap, hlast, forall_const]
      exact ⟨fun h => ⟨hapart, h.1⟩, fun h => ⟨h.2, hkept⟩⟩
    · obtain ⟨hfreed, hvalue⟩ := Classical.not_imp.mp hapart
      simp only [secPath, hfreed, if_true, forall_const, hvalue, false_and, iff_false]
      rintro ⟨_, hres, hsafe, -⟩
      obtain ⟨r, hr, rfl⟩ := Option.map_eq_some_iff.mp hres
      have hmem := mem_of_not_apart hvalue hr
      rw [notSpecial_eq (by grind [special])] at hsafe
      exact hsafe.1 (mem_dropLastLF hmem)

/-- The value `a//b` in a private buffer. -/
theorem secPath_second_slash :
    secPath true [97, 47, 47, 98] .replace = some [97, 95, 47, 98] ∧
      secPath false [97, 47, 47, 98] .replace = some [97, 95, 95, 98] := by
  decide

end Rsyslog.Msg.GetProp
