import Mathlib.Tactic.Linarith
import Rsyslog.Lib.Buffer
import Rsyslog.Lib.Decimal
import Rsyslog.Template.Escape

/-!
# Formatting a template into the output buffer

`tplToString` of `template.c` copies the values of a template's entries into a buffer that is kept
from one message to the next and grown by `ExtendBuf`. How much room it asks for depends on the
format, and the reserve is the wrong way round: it is smaller for JSONF, where separators and the
closing bracket have to be stored as well.

Storing at or behind `lenBuf` is `none`.
-/

namespace Rsyslog.Template

open List
open Nat (mod_lt mod_eq_of_lt succ_le_of_lt zero_le)
open Option (map_eq_bind bind_assoc bind_map bind_some bind_eq_bind)

open Lib (Buffer ascii)

/-! ## The code -/

abbrev CString := { s : Bytes // 0 ∉ s ∧ s.length + 1 < 2 ^ 31 }

inductive FormatEscape
  | noEscape
  | escape (mode : EscapeMode)
  | jsonf
  deriving DecidableEq

inductive TemplateEntry (φ : Type*)
  | constant (pConstant : { s : Bytes // s.length < 2 ^ 31 })
  | field (f : φ)
  /-- Any other entry type. -/
  | invalid

structure Tpl (φ σ : Type*) where
  /-- The subtree, if `bHaveSubtree`. -/
  subtree : Option σ
  entries : List (TemplateEntry φ)
  optFormatEscape : FormatEscape

/-- What the message has for the fields (`MsgGetProp`) and subtrees (`getJSONPropVal`). -/
structure MsgProps (φ σ : Type*) where
  msgGetProp : φ → CString
  getJSONPropVal : σ → CString

def extendBuf (b : Buffer UInt8) (iMinSize : ℕ) : Option (Buffer UInt8) :=
  b.resize ((iMinSize / 128 + 1) * 128 % 2 ^ 32)

def extendIf (c : Prop) [Decidable c] (b : Buffer UInt8) (iMinSize : ℕ) : Option (Buffer UInt8) :=
  if c then extendBuf b iMinSize else some b

variable {φ σ : Type*}

variable (opt : FormatEscape) (b : Buffer UInt8)

def entryVal (msg : MsgProps φ σ) : TemplateEntry φ → Bytes × Int32
  | .constant pConstant => (pConstant.val, Int32.ofNat pConstant.val.length)
  | .field f =>
    let pVal := (msg.msgGetProp f).val
    match opt with
    | .escape mode => doEscape mode pVal (Int32.ofNat pVal.length)
    | _ => (pVal, Int32.ofNat pVal.length)
  | .invalid => (ascii "*LOGIC ERROR*", 13)

def extraSpace : ℕ := if opt = .jsonf then 1 else 3

def copyVal (st : Buffer UInt8 × Bool) (val : Bytes × Int32) : Option (Buffer UInt8 × Bool) :=
  let iBuf := st.1.bytes.length
  let iLenVal := val.2.toInt.toNat
  if 0 < val.2.toInt then do
    let b ← extendIf (st.1.cap ≤ iBuf + iLenVal + extraSpace opt) st.1 (iBuf + iLenVal + 1)
    let b ← b.push (if st.2 then ascii ", " else [])
    let b ← b.push (val.1.take iLenVal)
    some (b, st.2 || decide (opt = .jsonf))
  else some st

def entryLoop (opt : FormatEscape) (msg : MsgProps φ σ) :
    List (TemplateEntry φ) → Buffer UInt8 × Bool → Option (Buffer UInt8)
  | [], st => some st.1
  | pTpe :: pNext, st => do
    let st ← copyVal opt st (entryVal opt msg pTpe)
    let b ← st.1.push (if opt = .jsonf ∧ pNext = [] then ascii "\x7d\n" else [])
    entryLoop opt msg pNext (b, st.2)

def openText (b : Buffer UInt8) : Option (Buffer UInt8) :=
  if opt = .jsonf then do
    let b ← extendIf (b.cap < 2) b 2
    b.push (ascii "\x7b")
  else some b

def closeText (b : Buffer UInt8) : Option (Buffer UInt8 × UInt32) := do
  let iBuf := b.bytes.length
  let b ← extendIf (iBuf = b.cap) b (iBuf + 1)
  let b ← b.push [0]
  some (b, UInt32.ofNat iBuf)

variable (pTpl : Tpl φ σ) (msg : MsgProps φ σ)

/-- The buffer and `lenStr` after `tplToString`, called with a buffer of the size `lenBuf`. -/
def tplToString (lenBuf lenStr : UInt32) : Option (Buffer UInt8 × UInt32) :=
  let b : Buffer UInt8 := ⟨lenBuf.toNat, [], Nat.zero_le _⟩
  match pTpl.subtree with
  | some subtree => do
    let pVal := (msg.getJSONPropVal subtree).val
    let b ← extendIf (lenBuf.toInt32.toInt ≤ pVal.length) b (pVal.length + 1)
    let b ← b.push (pVal ++ [0])
    some (b, lenStr)
  | none => do
    let b ← openText pTpl.optFormatEscape b
    let b ← entryLoop pTpl.optFormatEscape msg pTpl.entries (b, false)
    closeText b

/-! ## What it is for -/

def entryText (pTpe : TemplateEntry φ) : Bytes :=
  (entryVal opt msg pTpe).1.take (entryVal opt msg pTpe).2.toInt.toNat

def values (entries : List (TemplateEntry φ)) : List Bytes :=
  (entries.map (entryText opt msg)).filter (· ≠ [])

def text : Bytes :=
  match pTpl.subtree with
  | some subtree => (msg.getJSONPropVal subtree).val
  | none =>
    if pTpl.optFormatEscape = .jsonf then
      ascii "\x7b" ++ (ascii ", ").intercalate (values .jsonf msg pTpl.entries) ++ ascii "\x7d\n"
    else (pTpl.entries.map (entryText pTpl.optFormatEscape msg)).flatten

/-- The text is in the buffer, a NUL follows it, and `lenStr` is its length. -/
def Formats (lenBuf lenStr : UInt32) : Prop :=
  ∃ b len, tplToString pTpl msg lenBuf lenStr = some (b, len) ∧
    b.bytes = text pTpl msg ++ [0] ∧ len.toNat = (text pTpl msg).length

/-! ## Growing the buffer -/

def granules (t : ℕ) : ℕ := (t / 128 + 1) * 128

/-- The room after a check that leaves a buffer with more than `t + extra` octets as it is. -/
def grow (extra cap t : ℕ) : ℕ := if cap ≤ t + extra then granules t % 2 ^ 32 else cap

lemma lt_granules (t : ℕ) : t < granules t := by
  rw [granules]
  omega

lemma granules_le (t : ℕ) : granules t ≤ t + 128 := by
  rw [granules]
  omega

lemma granules_mono {t t' : ℕ} (h : t ≤ t') : granules t ≤ granules t' :=
  Nat.mul_le_mul_right _ (Nat.add_le_add_right (Nat.div_le_div_right h) 1)

lemma granules_eq {t t' : ℕ} (h : t ≤ t') (h' : t' < granules t) : granules t' = granules t := by
  rw [granules] at h' ⊢
  rw [granules]
  omega

lemma granules_mod_le {t : ℕ} (h : 2 ^ 32 ≤ granules t) : granules t % 2 ^ 32 + 2 ^ 32 ≤ t + 128 :=
  calc granules t % 2 ^ 32 + 2 ^ 32 ≤ granules t := by omega
    _ ≤ t + 128 := granules_le t

lemma grow_lt {extra cap t : ℕ} (h : cap < 2 ^ 32) : grow extra cap t < 2 ^ 32 := by
  rw [grow]
  split
  · exact mod_lt _ (by decide)
  · exact h

lemma grow_grow {extra cap t t' : ℕ} (h : t ≤ t') :
    grow extra (grow extra cap t) t' = grow extra cap t' := by
  by_cases hcap : cap ≤ t + extra
  · rw [grow, grow, grow, if_pos hcap, if_pos (show cap ≤ t' + extra by omega)]
    rcases lt_or_ge (granules t) (2 ^ 32) with hlt | hge
    · split
      · rfl
      · rw [granules_eq h (by omega), mod_eq_of_lt hlt]
    · have := granules_mod_le hge
      rw [if_pos (by omega)]
  · rw [show grow extra cap t = cap from if_neg hcap]

lemma le_grow {extra cap t t' n n' : ℕ} (ht : t ≤ t') (hn : n ≤ t + 1) (hn' : t' ≤ n' + 1)
    (h : n' ≤ grow extra cap t') : n ≤ grow extra cap t := by
  rw [grow] at h ⊢
  have := lt_granules t
  split
  · rw [if_pos (by omega)] at h
    have hlt : granules t' < 2 ^ 32 := by
      by_contra hge
      have := granules_mod_le (not_lt.mp hge)
      omega
    have := granules_mono ht
    omega
  · omega

/-! ## The loop -/

variable (opt : FormatEscape) (msg : MsgProps φ σ) (pTpe : TemplateEntry φ)

lemma entryVal_length :
    (entryVal opt msg pTpe).2 = Int32.ofNat (entryVal opt msg pTpe).1.length := by
  cases pTpe with
  | constant pConstant => rfl
  | field f =>
    cases opt with
    | noEscape => rfl
    | jsonf => rfl
    | escape mode =>
      have hloop := escapeLoop_eq mode (msg.msgGetProp f).property.1 0
      rw [zero_add, zero_add] at hloop
      simp only [entryVal, doEscape]
      split
      · rfl
      · rw [hloop]
  | invalid => rfl

lemma entryText_length :
    (entryText opt msg pTpe).length = (entryVal opt msg pTpe).2.toInt.toNat := by
  rw [entryText, length_take, entryVal_length]
  rw [Int32.toInt_ofNat', Int.bmod_def, Int32.size]
  split <;> omega

def separator (needComma : Bool) : Bytes := if needComma then ascii ", " else []

lemma separator_length (needComma : Bool) :
    (separator needComma).length = if needComma then 2 else 0 := by
  cases needComma <;> rfl

def reserve (opt : FormatEscape) : ℕ := if opt = .jsonf then 0 else 2

def copyText (opt : FormatEscape) (st : Buffer UInt8 × Bool) (v : Bytes) :
    Option (Buffer UInt8 × Bool) :=
  (Buffer.filled (grow (reserve opt) st.1.cap (st.1.bytes.length + v.length + 1))
    (st.1.bytes ++ separator st.2 ++ v)).map (·, st.2 || decide (opt = .jsonf))

lemma extendIf_eq_grow (n : ℕ) :
    extendIf (b.cap ≤ n + extraSpace opt) b (n + 1) =
      Buffer.filled (grow (reserve opt) b.cap (n + 1)) b.bytes := by
  have hextra : n + extraSpace opt = n + 1 + reserve opt := by
    rw [extraSpace, reserve]
    split <;> omega
  rw [hextra, grow, extendIf]
  split
  · rfl
  · exact b.filled_self.symm

lemma copyVal_eq (st : Buffer UInt8 × Bool) (pTpe : TemplateEntry φ) :
    copyVal opt st (entryVal opt msg pTpe) =
      if entryText opt msg pTpe = [] then some st
      else copyText opt st (entryText opt msg pTpe) := by
  have hlen := entryText_length opt msg pTpe
  rw [copyVal]
  by_cases hpos : 0 < (entryVal opt msg pTpe).2.toInt
  · have hne : entryText opt msg pTpe ≠ [] := length_pos_iff.mp (by omega)
    rw [if_pos hpos, if_neg hne, copyText, hlen, extendIf_eq_grow, ← Buffer.filled_bind_push,
      ← Buffer.filled_bind_push]
    simp only [map_eq_bind, bind_assoc]
    rfl
  · have hnil : entryText opt msg pTpe = [] := length_eq_zero_iff.mp (by omega)
    rw [if_neg hpos, if_pos hnil]

lemma foldlM_values_cons (pNext : List (TemplateEntry φ)) (st : Buffer UInt8 × Bool) :
    (values opt msg (pTpe :: pNext)).foldlM (copyText opt) st =
      (copyVal opt st (entryVal opt msg pTpe)).bind
        fun st => (values opt msg pNext).foldlM (copyText opt) st := by
  rw [copyVal_eq, values, map_cons, filter_cons]
  by_cases hnil : entryText opt msg pTpe = []
  · rw [if_pos hnil, if_neg (by simpa using hnil)]
    rfl
  · rw [if_neg hnil, if_pos (by simpa using hnil)]
    rfl

lemma entryLoop_eq {entries : List (TemplateEntry φ)} (hne : entries ≠ [])
    (st : Buffer UInt8 × Bool) :
    entryLoop opt msg entries st =
      ((values opt msg entries).foldlM (copyText opt) st).bind fun st =>
        st.1.push (if opt = .jsonf then ascii "\x7d\n" else []) := by
  induction entries generalizing st with
  | nil => exact absurd rfl hne
  | cons pTpe pNext ih =>
    rw [entryLoop, foldlM_values_cons, bind_assoc]
    congr 1
    funext st
    cases pNext with
    | nil =>
      simp only [and_true]
      exact Option.bind_fun_some _
    | cons pTpe' pNext =>
      simp only [reduceCtorEq, and_false, if_false, Buffer.push_nil]
      exact ih (cons_ne_nil _ _) st

def joined (opt : FormatEscape) : Bool → List Bytes → Bytes
  | _, [] => []
  | needComma, v :: vs =>
    separator needComma ++ v ++ joined opt (needComma || decide (opt = .jsonf)) vs

/-- What the last check asks for, if the text has `n` octets after the last value. -/
def lastDemand (comma : Bool) (n : ℕ) : ℕ := if comma then n - 1 else n + 1

lemma lastDemand_le (comma : Bool) (n : ℕ) : lastDemand comma n ≤ n + 1 := by
  rw [lastDemand]
  split <;> omega

/-- The values are copied one behind the other, and there is room for all of them if there is room
for the last one. -/
lemma foldlM_copyText (v : Bytes) (vs : List Bytes) (hne : ∀ v' ∈ v :: vs, v' ≠ [])
    (b : Buffer UInt8) (needComma : Bool) :
    (v :: vs).foldlM (copyText opt) (b, needComma) =
      (Buffer.filled
        (grow (reserve opt) b.cap (lastDemand (needComma || decide (opt = .jsonf ∧ vs ≠ []))
          (b.bytes ++ joined opt needComma (v :: vs)).length))
        (b.bytes ++ joined opt needComma (v :: vs))).map
          (·, needComma || decide (opt = .jsonf)) := by
  induction vs generalizing v b needComma with
  | nil =>
    have hdemand : lastDemand needComma (b.bytes ++ separator needComma ++ v).length =
        b.bytes.length + v.length + 1 := by
      rw [lastDemand, length_append, length_append, separator_length]
      split <;> omega
    simp only [joined, append_nil, ← append_assoc, ne_eq, not_true_eq_false, and_false,
      decide_false, Bool.or_false, hdemand]
    exact Option.bind_fun_some _
  | cons w vs ih =>
    obtain ⟨hv, hvs⟩ := forall_mem_cons.mp hne
    have hjoined : b.bytes ++ separator needComma ++ v ++
        joined opt (needComma || decide (opt = .jsonf)) (w :: vs) =
          b.bytes ++ joined opt needComma (v :: w :: vs) := by
      simp only [joined, append_assoc]
    have hcomma : (needComma || decide (opt = .jsonf) || decide (opt = .jsonf ∧ vs ≠ [])) =
        (needComma || decide (opt = .jsonf ∧ w :: vs ≠ [])) := by
      by_cases hopt : opt = .jsonf <;> simp [hopt]
    -- the demands do not get smaller from one value to the next
    have hdemand : b.bytes.length + v.length + 1 ≤
        lastDemand (needComma || decide (opt = .jsonf ∧ w :: vs ≠ []))
          (b.bytes ++ joined opt needComma (v :: w :: vs)).length := by
      have hlast : (needComma || decide (opt = .jsonf ∧ w :: vs ≠ [])) =
          (needComma || decide (opt = .jsonf)) := by simp
      rw [← hjoined, joined, lastDemand, hlast]
      simp only [length_append, separator_length]
      split <;> omega
    change ((Buffer.filled _ _).map _).bind _ = _
    rw [bind_map]
    refine Buffer.filled_bind (fun h => ?_) fun h => ?_
    · rw [Function.comp_apply, ih w hvs, hjoined, hcomma, grow_grow hdemand, Bool.or_assoc,
        Bool.or_self]
    · rw [Buffer.filled_eq_none, Option.map_none]
      by_contra hle
      refine absurd (le_grow hdemand ?_ (lastDemand_le _ _) (not_lt.mp hle)) (not_le.mpr h)
      rw [length_append, length_append, separator_length]
      dsimp only
      split <;> omega

lemma joined_flatten {opt : FormatEscape} (h : opt ≠ .jsonf) (vs : List Bytes) :
    joined opt false vs = vs.flatten := by
  induction vs with
  | nil => rfl
  | cons v vs ih =>
    rw [joined, decide_eq_false h, Bool.or_false, ih]
    rfl

lemma joined_intercalate (vs : List Bytes) :
    joined .jsonf false vs = (ascii ", ").intercalate vs := by
  induction vs with
  | nil => rfl
  | cons v vs ih =>
    cases vs with
    | nil => simp [joined, separator, List.intercalate]
    | cons w vs =>
      rw [intercalate_cons_cons, ← ih]
      simp [joined, separator]

/-! ## The whole text -/

/-- The room in the buffer once the text of `n` octets, with `k` values in it, is complete. -/
def textCap (opt : FormatEscape) (cap k n : ℕ) : ℕ :=
  match k with
  | 0 => cap
  | 1 => grow (reserve opt) cap (if opt = .jsonf then n - 1 else n + 1)
  | _ => grow (reserve opt) cap (if opt = .jsonf then n - 3 else n + 1)

def openCap (opt : FormatEscape) (lenBuf : ℕ) : ℕ :=
  if opt = .jsonf ∧ lenBuf < 2 then 128 else lenBuf

lemma closeText_eq :
    closeText b =
      (Buffer.filled (if b.bytes.length = b.cap then granules (b.bytes.length + 1) % 2 ^ 32
        else b.cap) (b.bytes ++ [0])).map (·, UInt32.ofNat b.bytes.length) := by
  rw [closeText, extendIf, map_eq_bind]
  split
  · rw [← Buffer.filled_bind_push, bind_assoc]
    rfl
  · rfl

lemma closeText_iff {cap : ℕ} (hcap : cap < 2 ^ 32) (l : Bytes) :
    (∃ b len, (Buffer.filled cap l).bind closeText = some (b, len) ∧ b.bytes = l ++ [0] ∧
        len.toNat = l.length) ↔
      l.length ≤ cap ∧ (l.length = cap → l.length + 129 < 2 ^ 32) := by
  have hroom : l.length + 1 ≤ (if l.length = cap then granules (l.length + 1) % 2 ^ 32 else cap) ↔
      l.length ≤ cap ∧ (l.length = cap → l.length + 129 < 2 ^ 32) := by
    rw [granules]
    split <;> omega
  by_cases hl : l.length ≤ cap
  · rw [← hroom, Buffer.filled_of_le hl, bind_some, closeText_eq]
    dsimp only
    constructor
    · rintro ⟨b, len, h, -, -⟩
      obtain ⟨b', hb', -⟩ := Option.map_eq_some_iff.mp h
      simpa using Buffer.length_le_of_filled hb'
    · intro h
      refine ⟨_, _, by rw [Buffer.filled_of_le (by simpa using h), Option.map_some], rfl, ?_⟩
      rw [UInt32.toNat_ofNat', mod_eq_of_lt (by omega)]
  · rw [Buffer.filled_eq_none (not_le.mp hl)]
    simp [hl]

lemma grow_lastDemand (cap n : ℕ) (v : Bytes) (vs : List Bytes) :
    grow (reserve opt) cap (lastDemand (false || decide (opt = .jsonf ∧ vs ≠ [])) n) =
      textCap opt cap (v :: vs).length (n + if opt = .jsonf then 2 else 0) := by
  cases vs with
  | nil =>
    rw [lastDemand]
    by_cases hopt : opt = .jsonf <;> simp [textCap, hopt]
  | cons w vs => by_cases hopt : opt = .jsonf <;> simp [lastDemand, textCap, hopt]

lemma entryLoop_filled (opt : FormatEscape) (msg : MsgProps φ σ)
    {entries : List (TemplateEntry φ)} (hne : entries ≠ []) (b : Buffer UInt8) {l : Bytes}
    (hl : b.bytes ++ joined opt false (values opt msg entries) ++
      (if opt = .jsonf then ascii "\x7d\n" else []) = l) :
    entryLoop opt msg entries (b, false) =
      Buffer.filled (textCap opt b.cap (values opt msg entries).length l.length) l := by
  have hvals : ∀ v ∈ values opt msg entries, v ≠ [] := fun v hv => by
    simpa using (mem_filter.mp hv).2
  rw [entryLoop_eq opt msg hne]
  generalize values opt msg entries = vs at hl hvals ⊢
  cases vs with
  | nil =>
    rw [joined, append_nil] at hl
    rw [← hl]
    rfl
  | cons v vs =>
    have hlen : l.length = (b.bytes ++ joined opt false (v :: vs)).length +
        if opt = .jsonf then 2 else 0 := by
      rw [← hl, length_append]
      split <;> rfl
    rw [foldlM_copyText opt v vs hvals, bind_map, grow_lastDemand opt b.cap _ v vs, ← hlen,
      ← hl]
    exact Buffer.filled_bind_push _ _ _

variable (lenBuf : UInt32)

lemma openText_eq :
    openText opt ⟨lenBuf.toNat, [], zero_le _⟩ =
      Buffer.filled (openCap opt lenBuf.toNat) (if opt = .jsonf then ascii "\x7b" else []) := by
  rw [openText, openCap]
  by_cases hopt : opt = .jsonf
  · rw [if_pos hopt, if_pos hopt, extendIf]
    by_cases hsmall : lenBuf.toNat < 2
    · rw [if_pos hsmall, if_pos ⟨hopt, hsmall⟩]
      exact Buffer.filled_bind_push 128 [] _
    · rw [if_neg hsmall, if_neg fun h => hsmall h.2]
      rfl
  · rw [if_neg hopt, if_neg hopt, if_neg fun h => hopt h.1, Buffer.filled_of_le]

lemma openCap_lt : openCap opt lenBuf.toNat < 2 ^ 32 := by
  have := lenBuf.toNat_lt
  rw [openCap]
  split <;> omega

lemma textCap_lt {opt : FormatEscape} {cap k n : ℕ} (h : cap < 2 ^ 32) :
    textCap opt cap k n < 2 ^ 32 := by
  unfold textCap
  split
  · exact h
  · exact grow_lt h
  · exact grow_lt h

def Room (msg : MsgProps φ σ) (lenBuf lenStr : UInt32) : Prop :=
  let n := (text pTpl msg).length
  match pTpl.subtree with
  | some _ => lenStr.toNat = n
  | none =>
    let opt := pTpl.optFormatEscape
    let cap := textCap opt (openCap opt lenBuf.toNat) (values opt msg pTpl.entries).length n
    (opt = .jsonf → pTpl.entries ≠ []) ∧ n ≤ cap ∧ (n = cap → n + 129 < 2 ^ 32)

lemma openCap_ge :
    (if opt = .jsonf then ascii "\x7b" else []).length ≤ openCap opt lenBuf.toNat := by
  by_cases hopt : opt = .jsonf
  · rw [if_pos hopt, openCap, show (ascii "\x7b").length = 1 from rfl]
    simp only [hopt, true_and]
    split <;> omega
  · rw [if_neg hopt]
    exact zero_le _

lemma text_eq {pTpl : Tpl φ σ} (hsub : pTpl.subtree = none) (msg : MsgProps φ σ) :
    (if pTpl.optFormatEscape = .jsonf then ascii "\x7b" else []) ++
        joined pTpl.optFormatEscape false (values pTpl.optFormatEscape msg pTpl.entries) ++
        (if pTpl.optFormatEscape = .jsonf then ascii "\x7d\n" else []) = text pTpl msg := by
  simp only [text, hsub]
  by_cases hopt : pTpl.optFormatEscape = .jsonf
  · rw [if_pos hopt, if_pos hopt, if_pos hopt, hopt, joined_intercalate]
  · rw [if_neg hopt, if_neg hopt, if_neg hopt, joined_flatten hopt, append_nil]
    exact flatten_filter_ne_nil

lemma subtree_room (pVal : CString) :
    ∃ b : Buffer UInt8, b.bytes = pVal.val ++ [0] ∧
      ((extendIf (lenBuf.toInt32.toInt ≤ pVal.val.length) ⟨lenBuf.toNat, [], zero_le _⟩
        (pVal.val.length + 1)).bind fun b => b.push (pVal.val ++ [0])) = some b := by
  have hfill (cap : ℕ) (h : pVal.val.length < cap) :
      ∃ b : Buffer UInt8, b.bytes = pVal.val ++ [0] ∧
        Buffer.filled cap (pVal.val ++ [0]) = some b :=
    ⟨_, rfl, Buffer.filled_of_le (by simpa using succ_le_of_lt h)⟩
  rw [extendIf]
  split
  case isTrue h =>
    obtain ⟨b, hb, hfilled⟩ := hfill (granules (pVal.val.length + 1) % 2 ^ 32) (by
      rw [granules]
      omega)
    exact ⟨b, hb, (Buffer.filled_bind_push _ [] _).trans hfilled⟩
  case isFalse h =>
    have hint : lenBuf.toInt32.toInt = (lenBuf.toNat : ℤ).bmod (2 ^ 32) :=
      BitVec.toInt_eq_toNat_bmod _
    rw [hint, Int.bmod_def] at h
    obtain ⟨b, hb, hfilled⟩ := hfill lenBuf.toNat (by split at h <;> omega)
    exact ⟨b, hb, hfilled⟩

/-- The text is formatted exactly if there is room for it. -/
theorem tplToString_iff (pTpl : Tpl φ σ) (msg : MsgProps φ σ) (lenBuf lenStr : UInt32) :
    Formats pTpl msg lenBuf lenStr ↔ Room pTpl msg lenBuf lenStr := by
  rw [Formats, Room, tplToString]
  cases hsub : pTpl.subtree with
  | some subtree =>
    obtain ⟨b, hb, hpush⟩ := subtree_room lenBuf (msg.getJSONPropVal subtree)
    have htext : text pTpl msg = (msg.getJSONPropVal subtree).val := by
      simp only [text, hsub]
    simp only [bind_eq_bind, ← bind_assoc, hpush, bind_some, htext]
    constructor
    · rintro ⟨b', len, h, -, hlen⟩
      cases h
      exact hlen
    · intro h
      exact ⟨b, lenStr, rfl, hb, h⟩
  | none =>
    have hcap := openCap_lt pTpl.optFormatEscape lenBuf
    simp only [openText_eq, bind_eq_bind,
      Buffer.filled_of_le (openCap_ge pTpl.optFormatEscape lenBuf), bind_some]
    by_cases hne : pTpl.entries = []
    · rw [← text_eq hsub msg]
      simp only [hne, entryLoop, bind_some, values, map_nil, filter_nil, joined,
        append_nil, length_nil, textCap]
      by_cases hopt : pTpl.optFormatEscape = .jsonf
      · refine iff_of_false ?_ fun h => h.1 hopt rfl
        rintro ⟨b, len, h, hb, -⟩
        rw [closeText_eq] at h
        obtain ⟨b₁, hb₁, heq⟩ := Option.map_eq_some_iff.mp h
        cases heq
        rw [(Buffer.filled_eq_some_iff.mp hb₁).2] at hb
        simp only [if_pos hopt] at hb
        exact absurd hb (by decide)
      · have hnil := closeText_iff hcap []
        rw [Buffer.filled_of_le (zero_le _), bind_some] at hnil
        simp only [if_neg hopt, append_nil]
        rw [hnil]
        exact ⟨fun h => ⟨fun h' => absurd h' hopt, h⟩, fun h => h.2⟩
    · rw [entryLoop_filled _ msg hne _ (text_eq hsub msg), closeText_iff (textCap_lt hcap)]
      exact ⟨fun h => ⟨fun _ => hne, h⟩, fun h => h.2⟩

def twoValues : Tpl Empty Empty where
  subtree := none
  entries := [.constant ⟨List.replicate 100 97, by decide⟩,
    .constant ⟨List.replicate 25 98, by decide⟩]
  optFormatEscape := .jsonf

/-- From no buffer at all it grows to 128 octets only, and the bracket is stored behind its end. -/
theorem tplToString_twoValues :
    (text twoValues ⟨Empty.elim, Empty.elim⟩).length = 130 ∧
      (tplToString twoValues ⟨Empty.elim, Empty.elim⟩ 0 0).isNone = true := by
  decide +kernel

end Rsyslog.Template
