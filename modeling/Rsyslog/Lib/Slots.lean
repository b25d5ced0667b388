import Mathlib.Data.List.Perm.Subperm
import Mathlib.Data.List.Range
import Mathlib.Data.Nat.Notation

/-!
# Slots that own resources

Resources are numbered in the order in which they are made. Each has a key, and it is open or
closed. A table has slots, which are free or own a resource. `Owned` says that they agree: what is
open is what the slots own, and no two slots own the same number or the same key.
-/

namespace Rsyslog.Lib

open List

variable {κ : Type} {slots : List (Option (κ × ℕ))} {made : List (κ × Bool)} {i : ℕ} {key : κ}

/-- The slots own what is open, each resource once and each key once. -/
structure Owned (slots : List (Option (κ × ℕ))) (made : List (κ × Bool)) : Prop where
  owner : ∀ key id, made[id]? = some (key, true) ↔ ∃ i : ℕ, slots[i]? = some (some (key, id))
  once : ∀ (i j : ℕ) (x y : κ × ℕ), slots[i]? = some (some x) → slots[j]? = some (some y) →
    x.1 = y.1 ∨ x.2 = y.2 → i = j

lemma Owned.nil : Owned ([] : List (Option (κ × ℕ))) [] := ⟨by simp, by simp⟩

variable (h : Owned slots made)

include h

/-- What a slot owns is open. -/
lemma Owned.made_of_slot {id : ℕ} (hi : slots[i]? = some (some (key, id))) :
    made[id]? = some (key, true) :=
  (h.owner key id).mpr ⟨i, hi⟩

/-- The resource of a slot is closed, and the slot is free. -/
lemma Owned.close {id : ℕ} (hi : slots[i]? = some (some (key, id))) :
    Owned (slots.set i none) (made.set id (key, false)) := by
  have hslot (j : ℕ) (x : κ × ℕ) :
      (slots.set i none)[j]? = some (some x) ↔ i ≠ j ∧ slots[j]? = some (some x) := by
    rw [getElem?_set]
    by_cases hij : i = j <;> simp [hij]
  refine ⟨fun key' id' => ?_, fun j k x y hj hk hxy => ?_⟩
  · simp only [hslot]
    rw [getElem?_set]
    by_cases hid : id = id'
    · subst hid
      have hlt : id < made.length := (List.getElem?_eq_some_iff.mp (h.made_of_slot hi)).1
      simp only [if_true, hlt, Option.some.injEq, Prod.mk.injEq, Bool.false_eq_true, and_false,
        false_iff, not_exists, not_and]
      exact fun j hij hj => hij (h.once i j _ _ hi hj (.inr rfl))
    · rw [if_neg hid, h.owner]
      refine exists_congr fun j => ⟨fun hj => ⟨fun hij => ?_, hj⟩, And.right⟩
      subst hij
      simp_all
  · exact h.once j k x y ((hslot j x).mp hj).2 ((hslot k y).mp hk).2 hxy

/-- A new resource is open, and a slot that was free owns it. -/
lemma Owned.open (hi : slots[i]? = some none)
    (hnew : ∀ (j : ℕ) (x : κ × ℕ), slots[j]? = some (some x) → x.1 ≠ key) :
    Owned (slots.set i (some (key, made.length))) (made ++ [(key, true)]) := by
  have hlt : i < slots.length := (List.getElem?_eq_some_iff.mp hi).1
  have hold (j : ℕ) (x : κ × ℕ) (hj : slots[j]? = some (some x)) : i ≠ j ∧ x.2 < made.length := by
    refine ⟨fun hij => ?_, (List.getElem?_eq_some_iff.mp (h.made_of_slot hj)).1⟩
    rw [← hij, hi] at hj
    cases hj
  have hslot (j : ℕ) (x : κ × ℕ) : (slots.set i (some (key, made.length)))[j]? = some (some x) ↔
      (i = j ∧ x = (key, made.length)) ∨ slots[j]? = some (some x) := by
    rw [getElem?_set]
    by_cases hij : i = j
    · subst hij
      rw [if_pos hlt, hi]
      simp [eq_comm]
    · simp [hij]
  refine ⟨fun key' id => ?_, fun j k x y hj hk hxy => ?_⟩
  · simp only [hslot]
    rw [getElem?_append]
    by_cases hid : id < made.length
    · rw [if_pos hid, h.owner]
      refine exists_congr fun j => ⟨.inr, fun hj => hj.resolve_left fun heq => ?_⟩
      simp only [Prod.mk.injEq] at heq
      omega
    · rw [if_neg hid]
      constructor
      · intro hmade
        obtain ⟨hlast, hpair⟩ := List.getElem?_eq_some_iff.mp hmade
        simp only [length_singleton] at hlast
        have hid' : id = made.length := by omega
        simp only [hid', Nat.sub_self, getElem_cons_zero, Prod.mk.injEq, and_true] at hpair
        exact ⟨i, .inl ⟨rfl, by rw [hid', hpair]⟩⟩
      · rintro ⟨j, ⟨-, hpair⟩ | hj⟩
        · obtain ⟨rfl, rfl⟩ := Prod.mk.inj hpair
          simp
        · exact absurd (hold j _ hj).2 hid
  · obtain ⟨rfl, rfl⟩ | hj := (hslot j x).mp hj <;> obtain ⟨rfl, rfl⟩ | hk := (hslot k y).mp hk
    · rfl
    · obtain hkey | hid := hxy
      · exact absurd hkey.symm (hnew k y hk)
      · exact absurd (hold k y hk).2 (by rw [← hid]; exact lt_irrefl _)
    · obtain hkey | hid := hxy
      · exact absurd hkey (hnew j x hj)
      · exact absurd (hold j x hj).2 (by rw [hid]; exact lt_irrefl _)
    · exact h.once j k x y hj hk hxy

/-- A new resource is closed at once. -/
lemma Owned.waste (key : κ) : Owned slots (made ++ [(key, false)]) := by
  refine ⟨fun key' id => ?_, h.once⟩
  rw [← h.owner, getElem?_append]
  by_cases hid : id < made.length
  · rw [if_pos hid]
  · rw [if_neg hid, getElem?_eq_none (not_lt.mp hid)]
    refine iff_of_false (fun hlast => ?_) nofun
    have hmem := mem_of_getElem? hlast
    simp at hmem

/-- One more slot. -/
lemma Owned.grow : Owned (slots ++ [none]) made := by
  have hslot (j : ℕ) (x : κ × ℕ) :
      (slots ++ [none])[j]? = some (some x) ↔ slots[j]? = some (some x) := by
    rw [getElem?_append]
    by_cases hj : j < slots.length
    · rw [if_pos hj]
    · rw [if_neg hj, getElem?_eq_none (not_lt.mp hj)]
      refine iff_of_false (fun hlast => ?_) nofun
      have hmem := mem_of_getElem? hlast
      simp at hmem
  refine ⟨fun key id => ?_, fun j k x y hj hk => ?_⟩
  · simp only [hslot]
    exact h.owner key id
  · exact h.once j k x y ((hslot j x).mp hj) ((hslot k y).mp hk)

/-- There are no more open resources than slots that own one. -/
lemma Owned.countP_le : made.countP (·.2) ≤ slots.countP Option.isSome := by
  -- the numbers of what is open, and the numbers in the slots
  let opens := (made.zipIdx.filter fun p => p.1.2).map Prod.snd
  let ids := slots.filterMap (Option.map Prod.snd)
  have hopens : opens.length = made.countP (·.2) := by
    simp only [opens, length_map, ← countP_eq_length_filter]
    conv_rhs => rw [← zipIdx_map_fst 0 made]
    rw [countP_map]
    rfl
  have hids : ids.length = slots.countP Option.isSome := by
    simp only [ids, length_filterMap_eq_countP]
    exact countP_congr fun x _ => by cases x <;> simp
  have hnodup : opens.Nodup := by
    refine List.Nodup.sublist (List.Sublist.map _ filter_sublist) ?_
    rw [zipIdx_map_snd]
    exact nodup_range'
  have hsub : opens ⊆ ids := by
    intro id hid
    simp only [opens, mem_map, mem_filter] at hid
    obtain ⟨⟨⟨key, up⟩, id'⟩, ⟨hmem, hup⟩, rfl⟩ := hid
    have hmade : made[id']? = some (key, true) := by
      rw [mem_zipIdx_iff_getElem?] at hmem
      simp_all
    obtain ⟨i, hi⟩ := (h.owner key id').mp hmade
    exact mem_filterMap.mpr ⟨_, mem_of_getElem? hi, rfl⟩
  rw [← hopens, ← hids]
  exact (hnodup.subperm hsub).length_le

/-- With a slot that is free, there is room for one more. -/
lemma Owned.countP_lt (hi : slots[i]? = some none) : made.countP (·.2) < slots.length := by
  refine lt_of_le_of_lt h.countP_le (lt_of_le_of_ne countP_le_length fun heq => ?_)
  have hall := countP_eq_length.mp heq none (mem_of_getElem? hi)
  cases hall

end Rsyslog.Lib
