import Mathlib.Algebra.Group.Nat.Defs
import Mathlib.Tactic.SplitIfs
import Rsyslog.Lib.Decimal
import Rsyslog.Lib.Translate

/-!
# Escaping of property values

`doEscape` of `template.c`. It first looks whether there is anything to escape, in a loop of its own
for each mode, and if so writes the value anew. The loop for JSON goes on as long as there is
something to escape, not as long as there is nothing.
-/

namespace Rsyslog.Template

open List Int32

inductive EscapeMode /-- `STDSQL_ESCAPE` -/
  | stdsql
  /-- `SQL_ESCAPE` -/
  | sql
  /-- `JSON_ESCAPE` -/
  | json
  deriving DecidableEq

def apostrophe : UInt8 := 39

def quote : UInt8 := 34

def backslash : UInt8 := 92

/-! ## The code -/

variable (mode : EscapeMode) (c : UInt8)

def checkGoesOn (c : UInt8) : Bool :=
  match mode with
  | .stdsql => c != 0 && c != apostrophe
  | .sql => c != 0 && c != apostrophe && c != backslash
  | .json => c != 0 && (c == quote || c == backslash)

def escapeBefore (c : UInt8) : Bytes :=
  if (mode = .sql ∨ mode = .stdsql) ∧ c = apostrophe then
    [if mode = .stdsql then apostrophe else backslash]
  else if mode = .sql ∧ c = backslash then [backslash]
  else if mode = .json ∧ (c = quote ∨ c = backslash) then [backslash]
  else []

/-- The loop over the C string `p`, with the length that it counts. -/
def escapeLoop (mode : EscapeMode) : Bytes → Int32 → Bytes × Int32
  | [], iLen => ([], iLen)
  | c :: p, iLen =>
    if c = 0 then ([], iLen)
    else
      let esc := escapeBefore mode c
      let (rest, iLen) := escapeLoop mode p (if esc = [] then iLen else iLen + 1)
      (esc ++ c :: rest, iLen)

def doEscape (val : Bytes) (pLen : Int32) : Bytes × Int32 :=
  let p := val.dropWhile (checkGoesOn mode)
  if p.head?.getD 0 = 0 then (val, pLen) else escapeLoop mode val pLen

/-! ## What it is for -/

def escaped (c : UInt8) : Bytes :=
  match mode with
  | .stdsql => if c = apostrophe then [apostrophe, apostrophe] else [c]
  | .sql => if c = apostrophe ∨ c = backslash then [backslash, c] else [c]
  | .json => if c = quote ∨ c = backslash then [backslash, c] else [c]

variable (mode : EscapeMode)

lemma escapeBefore_append : escapeBefore mode c ++ [c] = escaped mode c := by
  cases mode <;> simp only [escapeBefore, escaped] <;> split_ifs <;>
    simp_all [apostrophe, backslash, quote]

lemma escapeBefore_length :
    (escapeBefore mode c).length = if escapeBefore mode c = [] then 0 else 1 := by
  rw [escapeBefore]
  split_ifs <;> simp_all

lemma escapeLoop_eq {p : Bytes} (h : 0 ∉ p) (n : ℕ) :
    escapeLoop mode p (ofNat (n + p.length)) =
      (p.flatMap (escaped mode), ofNat (n + (p.flatMap (escaped mode)).length)) := by
  induction p generalizing n with
  | nil => rfl
  | cons c p ih =>
    obtain ⟨hc, hp⟩ := not_or.mp (mem_cons.not.mp h)
    have hcount : (if escapeBefore mode c = [] then ofNat (n + (c :: p).length)
        else ofNat (n + (c :: p).length) + 1) =
        ofNat (n + (escaped mode c).length + p.length) := by
      rw [← escapeBefore_append, length_append, escapeBefore_length]
      split
      · rw [length_cons, length_singleton]
        congr 1
        omega
      · rw [length_cons, length_singleton, show (1 : Int32) = ofNat 1 from rfl,
          ← ofNat_add]
        congr 1
        omega
    rw [escapeLoop, if_neg (Ne.symm hc)]
    simp only [hcount, ih hp, flatMap_cons, length_append]
    rw [← escapeBefore_append, append_assoc, singleton_append, Nat.add_assoc]

lemma check_iff {f : UInt8 → Bool} {val : Bytes} (h : 0 ∉ val) :
    (val.dropWhile f).head?.getD 0 = 0 ↔ ∀ c ∈ val, f c = true := by
  rw [← dropWhile_eq_nil_iff]
  constructor
  · intro hhead
    cases hdrop : val.dropWhile f with
    | nil => rfl
    | cons c p =>
      have hmem : c ∈ val := (dropWhile_suffix f).subset (hdrop ▸ mem_cons_self)
      rw [hdrop, head?_cons] at hhead
      exact absurd (hhead ▸ hmem) h
  · intro hnil
    rw [hnil]
    rfl

lemma escaped_of_checkGoesOn {mode : EscapeMode} (hmode : mode ≠ .json) {c : UInt8}
    (h : checkGoesOn mode c = true) : escaped mode c = [c] := by
  cases mode with
  | stdsql | sql =>
    rw [escaped]
    simp_all [checkGoesOn]
  | json => exact absurd rfl hmode

lemma checkGoesOn_json {c : UInt8} (hc : c ≠ 0) :
    checkGoesOn .json c = true ↔ c = quote ∨ c = backslash := by
  simp [checkGoesOn, hc]

lemma length_flatMap_escaped_json {val : Bytes} (h : ∀ c ∈ val, c = quote ∨ c = backslash) :
    (val.flatMap (escaped .json)).length = 2 * val.length := by
  induction val with
  | nil => rfl
  | cons c val ih =>
    have hc : escaped .json c = [backslash, c] := if_pos (h c mem_cons_self)
    rw [flatMap_cons, length_append, hc, ih fun c hc => h c (mem_cons_of_mem _ hc)]
    simp only [length_cons, length_nil]
    omega

/-- The value is escaped and its length counted, exactly if the length fits into an `int` and, for
JSON, the value is empty or has a character that needs no escaping. -/
theorem doEscape_iff (mode : EscapeMode) (val : Bytes) (hnul : 0 ∉ val)
    (hlen : val.length < 2 ^ 31) :
    ((doEscape mode val (ofNat val.length)).1 = val.flatMap (escaped mode) ∧
        (doEscape mode val (ofNat val.length)).2.toInt = (val.flatMap (escaped mode)).length) ↔
      (val.flatMap (escaped mode)).length < 2 ^ 31 ∧
        (mode = .json → val ≠ [] → ∃ c ∈ val, c ≠ quote ∧ c ≠ backslash) := by
  have hlen' : (ofNat val.length).toInt = val.length := toInt_ofNat_of_lt hlen
  by_cases hcheck : ∀ c ∈ val, checkGoesOn mode c = true
  · rw [doEscape, if_pos ((check_iff hnul).mpr hcheck), hlen']
    by_cases hmode : mode = .json
    · subst hmode
      have hspecial (c : UInt8) (hc : c ∈ val) : c = quote ∨ c = backslash :=
        (checkGoesOn_json fun h => hnul (h ▸ hc)).mp (hcheck c hc)
      have hdouble := length_flatMap_escaped_json hspecial
      constructor
      · rintro ⟨-, heq⟩
        have hnil : val = [] := length_eq_zero_iff.mp (by omega)
        exact ⟨by omega, fun _ hne => absurd hnil hne⟩
      · rintro ⟨-, hother⟩
        by_cases hnil : val = []
        · subst hnil
          exact ⟨rfl, rfl⟩
        · obtain ⟨c, hc, hq, hb⟩ := hother rfl hnil
          exact absurd (hspecial c hc) (by simp [hq, hb])
    · have hsame : val.flatMap (escaped mode) = val :=
        Lib.flatMap_eq_self fun c hc => escaped_of_checkGoesOn hmode (hcheck c hc)
      rw [hsame]
      exact iff_of_true ⟨rfl, rfl⟩ ⟨hlen, fun h => absurd h hmode⟩
  · have hloop := escapeLoop_eq mode hnul 0
    rw [Nat.zero_add, Nat.zero_add] at hloop
    rw [doEscape, if_neg fun h => hcheck ((check_iff hnul).mp h), hloop]
    have hother : mode = .json → val ≠ [] → ∃ c ∈ val, c ≠ quote ∧ c ≠ backslash := by
      rintro rfl -
      obtain ⟨c, hgo⟩ := not_forall.mp hcheck
      obtain ⟨hc, hgo⟩ := Classical.not_imp.mp hgo
      have hne := (checkGoesOn_json fun h => hnul (h ▸ hc)).not.mp hgo
      exact ⟨c, hc, not_or.mp hne⟩
    refine ⟨fun h => ⟨?_, hother⟩, fun h => ⟨rfl, toInt_ofNat_of_lt h.1⟩⟩
    have hmax := toInt_lt (ofNat (val.flatMap (escaped mode)).length)
    rw [h.2] at hmax
    exact_mod_cast hmax

/-- In SQL mode `a'\b` becomes `a\'\\b`. -/
theorem doEscape_sql_value :
    (doEscape .sql [97, 39, 92, 98] 4).1 = [97, 92, 39, 92, 92, 98] ∧
      (doEscape .sql [97, 39, 92, 98] 4).2.toInt = 6 :=
  (doEscape_iff .sql [97, 39, 92, 98] (by decide) (by decide)).mpr ⟨by decide, fun h => nomatch h⟩

/-- In JSON mode the value `"` stays as it is. -/
theorem doEscape_json_quote :
    doEscape .json [quote] 1 = ([quote], 1) ∧
      [quote].flatMap (escaped .json) = [backslash, quote] := by
  decide

end Rsyslog.Template
