import Mathlib.Data.List.Nodup
import Mathlib.Data.Nat.Notation

/-!
# Objects at addresses

A heap gives the object at an address. Allocation takes an address that was never used, and an
object that was freed is gone for good: reading, writing or freeing it again has no defined outcome.
-/

namespace Rsyslog.Lib

/-- The objects by address, `none` for one that was freed. -/
abbrev Heap (γ : Type*) := List (Option γ)

namespace Heap

variable {γ : Type*} {h : Heap γ} {a b : ℕ} {x y : γ}

def read (h : Heap γ) (a : ℕ) : Option γ := h[a]?.join

def write (h : Heap γ) (a : ℕ) (x : γ) : Option (Heap γ) :=
  (h.read a).map fun _ => h.set a (some x)

def free (h : Heap γ) (a : ℕ) : Option (Heap γ) := (h.read a).map fun _ => h.set a none

def alloc (h : Heap γ) (x : γ) : Heap γ × ℕ := (h ++ [some x], h.length)

def freeAll : Heap γ → List ℕ → Option (Heap γ)
  | h, [] => some h
  | h, a :: as => (h.free a).bind fun h' => freeAll h' as

lemma lt_length_of_read (ha : h.read a = some x) : a < h.length := by
  by_contra hlt
  rw [read, List.getElem?_eq_none (Nat.not_lt.mp hlt)] at ha
  cases ha

lemma read_set (ha : a < h.length) (o : Option γ) :
    read (h.set a o) b = if b = a then o else h.read b := by
  rw [read, List.getElem?_set]
  split_ifs with hab hba hba
  · rfl
  · exact absurd hab.symm hba
  · exact absurd hba.symm hab
  · rfl

lemma exists_write (ha : h.read a = some y) (x : γ) :
    ∃ h', h.write a x = some h' ∧ ∀ b, h'.read b = if b = a then some x else h.read b :=
  ⟨_, by rw [write, ha]; rfl, fun _ => read_set (lt_length_of_read ha) _⟩

lemma exists_free (ha : h.read a = some y) :
    ∃ h', h.free a = some h' ∧ ∀ b, h'.read b = if b = a then none else h.read b :=
  ⟨_, by rw [free, ha]; rfl, fun _ => read_set (lt_length_of_read ha) _⟩

/-- The address of a new object is not that of an object that is there. -/
lemma read_fresh (h : Heap γ) (x : γ) : h.read (h.alloc x).2 = none := by
  rw [read, alloc, List.getElem?_eq_none (Nat.le_refl _)]
  rfl

lemma read_alloc (h : Heap γ) (x : γ) (b : ℕ) :
    (h.alloc x).1.read b = if b = (h.alloc x).2 then some x else h.read b := by
  rw [read, alloc, List.getElem?_append]
  split_ifs with hlt heq heq
  · exact absurd hlt (by omega)
  · rfl
  · simp [heq]
  · rw [read, List.getElem?_eq_none (by rw [List.length_singleton]; omega),
      List.getElem?_eq_none (by omega)]

/-- What is there survives an allocation. -/
lemma read_alloc_of_read (ha : h.read a = some y) (x : γ) : (h.alloc x).1.read a = some y := by
  rw [read_alloc, if_neg, ha]
  rintro rfl
  rw [read_fresh] at ha
  cases ha

lemma exists_freeAll {as : List ℕ} (halive : ∀ a ∈ as, ∃ x, h.read a = some x) (hnodup : as.Nodup) :
    ∃ h', h.freeAll as = some h' ∧ ∀ b, h'.read b = if b ∈ as then none else h.read b := by
  induction as generalizing h with
  | nil => exact ⟨h, rfl, by simp⟩
  | cons a as ih =>
    obtain ⟨hnot, hnodup⟩ := List.nodup_cons.mp hnodup
    obtain ⟨x, hx⟩ := halive a List.mem_cons_self
    obtain ⟨h₁, hfree, hread⟩ := exists_free hx
    have halive₁ : ∀ b ∈ as, ∃ x, h₁.read b = some x := by
      intro b hb
      obtain ⟨y, hy⟩ := halive b (List.mem_cons_of_mem _ hb)
      refine ⟨y, ?_⟩
      rw [hread, if_neg, hy]
      rintro rfl
      exact hnot hb
    obtain ⟨h₂, hall, hread₂⟩ := ih halive₁ hnodup
    refine ⟨h₂, by rw [freeAll, hfree, Option.bind_some, hall], fun b => ?_⟩
    rw [hread₂, hread]
    by_cases hba : b = a <;> by_cases hb : b ∈ as <;> simp [hba, hb]

end Heap

end Rsyslog.Lib
