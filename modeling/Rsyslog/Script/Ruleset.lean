import Mathlib.Data.List.Nodup
import Mathlib.Data.Nat.Notation
import Mathlib.Logic.Function.Basic

/-!
# Scripts of a ruleset

`addScript` of `ruleset.c` links a script behind the statements that the ruleset has, and keeps a
pointer to the last one. What it stores there is the first statement of the new script.
-/

namespace Rsyslog.Script

open List

/-- The statements are at addresses, and `next` is the link from one to the next. -/
abbrev Next := ℕ → Option ℕ

structure Ruleset where
  root : Option ℕ
  last : Option ℕ

def addScript : Ruleset × Next → Option ℕ → Ruleset × Next
  | (pThis, next), none => (pThis, next)
  | (⟨_, none⟩, next), some script => (⟨some script, some script⟩, next)
  | (⟨root, some last⟩, next), some script =>
    (⟨root, some script⟩, Function.update next last (some script))

/-- Following `next` from `p` gives the statements `l`, and then there are no more. -/
def Linked (next : Next) : Option ℕ → List ℕ → Prop
  | p, [] => p = none
  | p, a :: l => p = some a ∧ Linked next (next a) l

/-- The ruleset after the scripts were added, each given by its first statement. -/
def addScripts (rn : Ruleset × Next) (scripts : List (List ℕ)) : Ruleset × Next :=
  scripts.foldl (fun rn script => addScript rn script.head?) rn

/-- What is left of the scripts: of each one that is not the last, the first statement. -/
def kept : List (List ℕ) → List ℕ
  | [] => []
  | script :: rest => if rest.flatten = [] then script else script.take 1 ++ kept rest

variable {next : Next} {p q : Option ℕ} {b : ℕ} {l l' front : List ℕ} {scripts : List (List ℕ)}

lemma Linked.eq (h : Linked next p l) (h' : Linked next p l') : l = l' := by
  induction l generalizing p l' <;> cases l' <;> grind [Linked]

lemma Linked.update (h : Linked next p l) (hb : b ∉ l) (q : Option ℕ) :
    Linked (Function.update next b q) p l := by
  induction l generalizing p <;> grind [Linked]

/-- A new link from `b` cuts off what was behind it. -/
lemma Linked.relink (h : Linked next p (front ++ b :: l)) (hb : b ∉ front) (h' : Linked next q l')
    (hb' : b ∉ l') : Linked (Function.update next b q) p (front ++ b :: l') := by
  have hl' := h'.update hb' q
  induction front generalizing p <;> grind [Linked]

/-- The ruleset's list is `front` and the script `l` that was added last. -/
lemma linked_addScripts {root : Option ℕ} (h : Linked next root (front ++ l))
    (hl : l = [] → front = []) (hnodup : (front ++ l.take 1 ++ scripts.flatten).Nodup)
    (hscripts : ∀ script ∈ scripts, Linked next script.head? script) :
    let r := addScripts (⟨root, l.head?⟩, next) scripts
    Linked r.2 r.1.root (front ++ kept (l :: scripts)) := by
  induction scripts generalizing next root front l with
  | nil => exact h
  | cons script scripts ih =>
    obtain ⟨hscript, hrest⟩ := forall_mem_cons.mp hscripts
    rcases script with _ | ⟨c, script⟩
    · have hkept : kept (l :: [] :: scripts) = kept (l :: scripts) := by
        by_cases hflat : scripts.flatten = [] <;> simp [kept, hflat]
      rw [hkept]
      exact ih h hl hnodup hrest
    have htail : (front ++ l.take 1 ++ c :: scripts.flatten).Nodup :=
      hnodup.sublist (by simp)
    rcases l with _ | ⟨b, l⟩
    · obtain rfl := hl rfl
      exact @ih _ _ [] _ hscript (by simp) htail hrest
    · have hb := (nodup_cons.mp (nodup_middle.mp (by simpa using hnodup))).1
      rw [mem_append, not_or, ← cons_append, mem_append, not_or] at hb
      have hlist := h.relink hb.1 hscript hb.2.1
      rw [append_cons] at hlist
      have hkept := ih hlist (by simp) (by simpa using htail) fun s hs =>
        (hrest s hs).update (fun hmem => hb.2.2 (mem_flatten_of_mem hs hmem)) _
      simpa [kept, addScripts, addScript] using hkept

lemma kept_sublist : ∀ scripts : List (List ℕ), kept scripts <+ scripts.flatten
  | [] => Sublist.refl []
  | script :: rest => by
    rw [kept, flatten_cons]
    split_ifs with hrest
    · exact sublist_append_left script _
    · exact (take_sublist 1 script).append (kept_sublist rest)

lemma kept_eq_flatten_iff :
    kept scripts = scripts.flatten ↔
      scripts.Pairwise fun script script' => script' = [] ∨ script.length ≤ 1 := by
  induction scripts with
  | nil => exact iff_of_true rfl Pairwise.nil
  | cons script rest ih =>
    have hle := (kept_sublist rest).length_le
    have hall : (∀ script' ∈ rest, script' = [] ∨ script.length ≤ 1) ↔
        rest.flatten = [] ∨ script.length ≤ 1 := by
      rw [flatten_eq_nil_iff]
      grind
    rw [pairwise_cons, ← ih, hall, ← (kept_sublist _).length_eq, ← (kept_sublist _).length_eq,
      kept, flatten_cons, length_append]
    split_ifs with hrest
    · rw [hrest, length_nil] at hle ⊢
      exact iff_of_true rfl ⟨Or.inl rfl, by omega⟩
    · rw [length_append, length_take, or_iff_right hrest]
      omega

/-- **Adding scripts.** The statements of all scripts are in the ruleset exactly if only the last
script, empty ones apart, has more than one. -/
theorem addScripts_linked_iff (hnodup : scripts.flatten.Nodup)
    (hscripts : ∀ script ∈ scripts, Linked next script.head? script) :
    let r := addScripts (⟨none, none⟩, next) scripts
    Linked r.2 r.1.root scripts.flatten ↔
      scripts.Pairwise fun script script' => script' = [] ∨ script.length ≤ 1 := by
  have hkept := @linked_addScripts next [] [] scripts none rfl (fun _ => rfl) hnodup hscripts
  have hiff := @kept_eq_flatten_iff ([] :: scripts)
  rw [pairwise_cons, and_iff_right (by simp)] at hiff
  rw [← hiff]
  exact ⟨fun h => hkept.eq h, fun h => h ▸ hkept⟩

theorem addScripts_linked_last :
    let r := addScripts (⟨none, none⟩, Function.update (fun _ => none) 1 (some 2)) [[0], [], [1, 2]]
    Linked r.2 r.1.root [0, 1, 2] :=
  (@addScripts_linked_iff _ [[0], [], [1, 2]] (by decide) (by simp [Linked])).mpr (by decide)

/-- The second of two actions that `&` connects is lost when another statement follows. -/
theorem addScripts_loses_action :
    let next : Next := Function.update (fun _ => none) 0 (some 1)
    let r := addScripts (⟨none, none⟩, next) [[0, 1], [2]]
    Linked next (some 0) [0, 1] ∧ Linked r.2 r.1.root [0, 2] ∧ ¬Linked r.2 r.1.root [0, 1, 2] :=
  ⟨⟨rfl, rfl, rfl⟩, ⟨rfl, rfl, rfl⟩, fun h => absurd h.2.1 (by decide)⟩

end Rsyslog.Script
