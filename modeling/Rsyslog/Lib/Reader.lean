import Rsyslog.Lib.Cursor

/-!
# Readers

A `Reader` takes what it reads off the front of a list. It has no pointer and no counter that could
differ: the text ends where the list ends. `Follows M M' p f` says that a step `p`, with the right
counter, does to a text in memory what the reader `f` does to the list, whatever is behind the text.
Steps may look at what is behind, so there is a condition `M` on the memory before and `M'` after.
-/

namespace Rsyslog.Lib

variable {α β γ : Type}

abbrev Reader (α β : Type) := StateT (List α) Option β

variable {rest : List α}

namespace Reader

def require (P : Prop) [Decidable P] : Reader α Unit :=
  fun text => if P then some ((), text) else none

section DecidableEq

variable [DecidableEq α]

def expect (ch : α) : Reader α Unit
  | [] => none
  | x :: rest => if x = ch then some ((), rest) else none

/-- If the symbol `ch` comes next, take it and do `yes`, otherwise do `no`. -/
def whenNext (ch : α) (yes no : Reader α β) : Reader α β
  | [] => no []
  | x :: rest => if x = ch then yes rest else no (x :: rest)

end DecidableEq

variable {text : List α} {g : β → Reader α γ}

variable {f : Reader α β}

lemma bind_eq_of_some {b : β} (h : f text = some (b, rest)) : (f >>= g) text = g b rest := by
  show (f text).bind _ = _
  rw [h, Option.bind_some]

lemma bind_eq_of_none (h : f text = none) : (f >>= g) text = none := by
  show (f text).bind _ = _
  rw [h, Option.bind_none]

variable {P : Prop}

lemma require_of [Decidable P] (h : P) (text : List α) :
    require P text = some ((), text) := if_pos h

lemma require_bind [Decidable P] {g : Unit → Reader α γ} (h : P) :
    (require P >>= g) text = g () text := bind_eq_of_some (require_of h text)

lemma expect_bind [DecidableEq α] {ch : α} {g : Unit → Reader α γ} :
    (expect ch >>= g) (ch :: text) = g () text := bind_eq_of_some (if_pos rfl)

/-! What a reader has accepted -/

lemma bind_eq_some_iff {r : γ × List α} :
    (f >>= g) text = some r ↔ ∃ b rest, f text = some (b, rest) ∧ g b rest = some r := by
  refine Option.bind_eq_some_iff.trans ⟨?_, ?_⟩
  · rintro ⟨⟨b, rest⟩, hf, hg⟩
    exact ⟨b, rest, hf, hg⟩
  · rintro ⟨b, rest, hf, hg⟩
    exact ⟨(b, rest), hf, hg⟩

lemma pure_eq_some_iff {b b' : β} :
    (pure b : Reader α β) text = some (b', rest) ↔ b = b' ∧ text = rest := by
  show some (b, text) = some (b', rest) ↔ _
  rw [Option.some.injEq, Prod.mk.injEq]

lemma require_eq_some_iff [Decidable P] {u : Unit} :
    require P text = some (u, rest) ↔ P ∧ text = rest := by
  by_cases hP : P
  · rw [require_of hP, Option.some.injEq, Prod.mk.injEq]
    exact ⟨fun h => ⟨hP, h.2⟩, fun h => ⟨rfl, h.2⟩⟩
  · rw [require, if_neg hP]
    exact ⟨(nomatch ·), fun h => absurd h.1 hP⟩

lemma expect_eq_some_iff [DecidableEq α] {ch : α} {u : Unit} :
    expect ch text = some (u, rest) ↔ text = ch :: rest := by
  cases text with
  | nil => exact ⟨(nomatch ·), (nomatch ·)⟩
  | cons x text =>
    rw [expect, List.cons.injEq]
    by_cases hx : x = ch
    · rw [if_pos hx, Option.some.injEq, Prod.mk.injEq]
      exact ⟨fun h => ⟨hx, h.2⟩, fun h => ⟨rfl, h.2⟩⟩
    · rw [if_neg hx]
      exact ⟨(nomatch ·), fun h => absurd h.1 hx⟩

end Reader

/-! ## Steps that do what readers do -/

/-- The step ends as the reader does: it gives the same result and goes to the same place, or it
gives up. -/
def Ends (beyond : List α) : Option (β × List α) → EStateM.Result Fault (Cursor α) β → Prop
  | some (b, rest), result => result = .ok b ⟨rest ++ beyond, rest.length⟩
  | none, result => ∃ c, result = .error .reject c

/-- In memory with `M`, the step does with the text what gives the result `r`. `M'` is true of the
memory that is then left. -/
structure Runs (M M' : List α → Prop) (p : Step α β) (text : List α) (r : Option (β × List α)) :
    Prop where
  ends : ∀ beyond, M (text ++ beyond) → Ends beyond r (p ⟨text ++ beyond, text.length⟩)
  keeps : ∀ b rest, r = some (b, rest) →
    ∃ w, text = w ++ rest ∧ ∀ beyond, M (text ++ beyond) → M' (rest ++ beyond)

/-- With the right counter, the step does what the reader does. -/
def Follows (M M' : List α → Prop) (p : Step α β) (f : Reader α β) : Prop :=
  ∀ text, Runs M M' p text (f text)

def Passes (z : α) (M : List α → Prop) : Prop := ∀ x mem, x ≠ z → M (x :: mem) → M mem

lemma passes_mem (z : α) : Passes z (z ∈ ·) :=
  fun _ _ hx hz => (List.mem_cons.mp hz).resolve_left hx.symm

lemma passes_true (z : α) : Passes z fun _ => True := fun _ _ _ _ => trivial

section Rules

variable {M M' M'' : List α → Prop} {p q : Step α β} {f : β → Step α γ} {g h : Reader α β}
  {k : β → Reader α γ} {text : List α}

lemma runs_none (hp : ∀ beyond, M (text ++ beyond) →
    ∃ c, p ⟨text ++ beyond, text.length⟩ = .error .reject c) : Runs M M' p text none :=
  ⟨hp, fun _ _ h => nomatch h⟩

lemma runs_some {b : β} {w : List α} (htext : text = w ++ rest)
    (hp : ∀ beyond, M (text ++ beyond) →
      p ⟨text ++ beyond, text.length⟩ = .ok b ⟨rest ++ beyond, rest.length⟩ ∧ M' (rest ++ beyond)) :
    Runs M M' p text (some (b, rest)) := by
  refine ⟨fun beyond hM => (hp beyond hM).1, fun b' rest' h => ?_⟩
  obtain ⟨-, rfl⟩ := Prod.mk.inj (Option.some.inj h)
  exact ⟨w, htext, fun beyond hM => (hp beyond hM).2⟩

lemma Runs.bind (hp : Runs M M' p text (g text))
    (hf : ∀ b rest, g text = some (b, rest) → Runs M' M'' (f b) rest (k b rest)) :
    Runs M M'' (p >>= f) text ((g >>= k) text) := by
  cases hg : g text with
  | none =>
    rw [hg] at hp
    rw [Reader.bind_eq_of_none hg]
    refine runs_none fun beyond hM => ?_
    obtain ⟨c, hc⟩ := hp.ends beyond hM
    exact ⟨c, bind_eq_of_error hc⟩
  | some br =>
    obtain ⟨b, rest⟩ := br
    have hrest := hf b rest hg
    rw [hg] at hp
    rw [Reader.bind_eq_of_some hg]
    obtain ⟨w, htext, hM'⟩ := hp.keeps b rest rfl
    constructor
    · intro beyond hM
      rw [bind_eq_of_ok (hp.ends beyond hM)]
      exact hrest.ends beyond (hM' beyond hM)
    · intro d rest' hd
      obtain ⟨w', hrest', hM''⟩ := hrest.keeps d rest' hd
      refine ⟨w ++ w', ?_, fun beyond hM => hM'' beyond (hM' beyond hM)⟩
      rw [htext, hrest', List.append_assoc]

lemma Follows.mono (hp : Follows M M' p g) (hM : ∀ mem, M' mem → M'' mem) : Follows M M'' p g := by
  refine fun text => ⟨(hp text).ends, fun b rest hb => ?_⟩
  obtain ⟨w, htext, hM'⟩ := (hp text).keeps b rest hb
  exact ⟨w, htext, fun beyond hmem => hM _ (hM' beyond hmem)⟩

lemma Follows.bind (hp : Follows M M' p g) (hf : ∀ b, Follows M' M'' (f b) (k b)) :
    Follows M M'' (p >>= f) (g >>= k) :=
  fun text => (hp text).bind fun b rest _ => hf b rest

lemma Follows.pure (b : β) : Follows M M (pure b : Step α β) (pure b) :=
  fun _ => runs_some (List.nil_append _).symm fun _ hM => ⟨rfl, hM⟩

lemma Follows.require (P : Prop) [Decidable P] :
    Follows M M (Step.require P : Step α Unit) (Reader.require P) := by
  intro text
  by_cases hP : P
  · rw [Reader.require_of hP]
    exact runs_some (List.nil_append _).symm fun _ hM => ⟨require_of hP _, hM⟩
  · rw [Reader.require, if_neg hP]
    exact runs_none fun _ _ => ⟨_, require_of_not hP _⟩

lemma Follows.ite {P : Prop} [Decidable P] (hp : Follows M M' p g) (hq : Follows M M' q h) :
    Follows M M' (if P then p else q) (if P then g else h) := by
  by_cases hP : P
  · rwa [if_pos hP, if_pos hP]
  · rwa [if_neg hP, if_neg hP]

variable {r : Option (β × List α)}

/-- A step goes from a terminated text to what is left of it, or it gives up. -/
lemma Runs.terminated {z : α} (h : Runs (z ∈ ·) M p text r) :
    (∃ b w text', p (.terminated z text) = .ok b (.terminated z text') ∧ text = w ++ text') ∨
      ∃ c, p (.terminated z text) = .error .reject c := by
  have hends := h.ends [z] (List.mem_append_right _ List.mem_cons_self)
  cases r with
  | none => exact .inr hends
  | some r =>
    obtain ⟨b, text'⟩ := r
    obtain ⟨w, htext, -⟩ := h.keeps b text' rfl
    exact .inl ⟨b, w, text', hends, htext⟩

/-- The counter is the length of the text. -/
lemma Runs.remaining {f : ℤ → Step α β} (hf : Runs M M' (f text.length) text r) :
    Runs M M' (Step.remaining >>= f) text r :=
  ⟨hf.ends, hf.keeps⟩

lemma Runs.require {P : Prop} [Decidable P] {f : Unit → Step α β} (hP : P)
    (hf : Runs M M' (f ()) text r) : Runs M M' (Step.require P >>= f) text r := by
  refine ⟨fun beyond hM => ?_, hf.keeps⟩
  rw [bind_eq_of_ok (require_of hP _)]
  exact hf.ends beyond hM

lemma runs_require_not {P : Prop} [Decidable P] {f : Unit → Step α β} (hP : ¬P) :
    Runs M M' (Step.require P >>= f) text none :=
  runs_none fun _ _ => ⟨_, bind_eq_of_error (require_of_not hP _)⟩

lemma Runs.peek {x : α} {f : α → Step α β} (hf : Runs M M' (f x) (x :: text) r) :
    Runs M M' (Step.peek >>= f) (x :: text) r :=
  ⟨hf.ends, hf.keeps⟩

lemma Runs.next {z x : α} {f : α → Step α β} (hM : Passes z M) (hx : x ≠ z)
    (hf : Runs M M' (f x) text r) : Runs M M' (Step.next >>= f) (x :: text) r := by
  constructor
  · intro beyond hmem
    have hnext : Step.next ⟨x :: text ++ beyond, (x :: text).length⟩ =
        .ok x ⟨text ++ beyond, text.length⟩ := by
      rw [← @Cursor.length_cons_sub_one _ text x]
      rfl
    rw [bind_eq_of_ok hnext]
    exact hf.ends beyond (hM x _ hx hmem)
  · intro b rest hb
    obtain ⟨w, htext, hM'⟩ := hf.keeps b rest hb
    exact ⟨x :: w, congrArg (x :: ·) htext, fun beyond hmem => hM' beyond (hM x _ hx hmem)⟩

section DecidableEq

variable [DecidableEq α] {z ch : α}

lemma Follows.expect (hM : Passes z M) (hch : ch ≠ z) :
    Follows M M (Step.expect ch) (Reader.expect ch) := by
  intro text
  cases text with
  | nil => exact runs_none fun _ _ => ⟨_, rfl⟩
  | cons x text =>
    have hlen : ((x :: text).length : ℤ) ≠ 0 := by
      rw [List.length_cons]
      omega
    have hadvance (beyond : List α) : Step.advance ⟨x :: text ++ beyond, (x :: text).length⟩ =
        .ok x ⟨text ++ beyond, (x :: text).length⟩ := rfl
    rw [Reader.expect]
    by_cases hx : x = ch
    · rw [if_pos hx]
      refine runs_some (List.singleton_append).symm fun beyond hmem => ⟨?_, ?_⟩
      · rw [Step.expect, remaining_bind, bind_eq_of_ok (require_of hlen _),
          bind_eq_of_ok (hadvance beyond), bind_eq_of_ok (require_of hx _),
          ← @Cursor.length_cons_sub_one _ text x]
        rfl
      · exact hM x _ (hx ▸ hch) hmem
    · rw [if_neg hx]
      refine runs_none fun beyond _ => ⟨⟨text ++ beyond, (x :: text).length⟩, ?_⟩
      rw [Step.expect, remaining_bind, bind_eq_of_ok (require_of hlen _),
        bind_eq_of_ok (hadvance beyond)]
      exact bind_eq_of_error (require_of_not hx _)

lemma Follows.whenNext (hM : Passes z M) (hch : ch ≠ z) (hp : Follows M M' p g)
    (hq : Follows M M' q h) : Follows M M' (Step.whenNext ch p q) (Reader.whenNext ch g h) := by
  intro text
  cases text with
  | nil =>
    refine ⟨fun beyond hmem => ?_, (hq []).keeps⟩
    exact (hq []).ends beyond hmem
  | cons x text =>
    rw [Reader.whenNext]
    by_cases hx : x = ch
    · subst hx
      rw [if_pos rfl]
      constructor
      · intro beyond hmem
        have hpos : 0 < (⟨x :: text ++ beyond, (x :: text).length⟩ : Cursor α).len := by
          dsimp only
          rw [List.length_cons]
          omega
        rw [whenNext_of_cons hpos rfl]
        rw [Cursor.length_cons_sub_one x]
        exact (hp text).ends beyond (hM x _ hch hmem)
      · intro b rest hb
        obtain ⟨w, htext, hM'⟩ := (hp text).keeps b rest hb
        exact ⟨x :: w, congrArg (x :: ·) htext, fun beyond hmem => hM' beyond (hM x _ hch hmem)⟩
    · rw [if_neg hx]
      refine ⟨fun beyond hmem => ?_, (hq _).keeps⟩
      rw [whenNext_of_ne (.inr ⟨x, _, rfl, hx⟩)]
      exact (hq _).ends beyond hmem

end DecidableEq

end Rules

end Rsyslog.Lib
