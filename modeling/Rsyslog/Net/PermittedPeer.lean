import Mathlib.Data.List.Forall2
import Rsyslog.Lib.Decimal
import Rsyslog.Lib.Split

/-!
# Permitted peers

A name that may connect is configured as a plain text or with wildcards, a star at the start or at
the end of a part between two dots. `PermittedPeerWildcardMatch` of `net.c` compiles such a text the
first time it is used, part by part, and then compares names with the list that came out.

The list is used also if the compilation stopped at a part that is not valid, and the comparison
ends with the name, so it does not see an empty last part of it.
-/

namespace Rsyslog.Net

open Lib List

def star : UInt8 := 42

def dot : UInt8 := 46

inductive WildcardType
  | none | atStart | atEnd | matchAll | emptyComponent
  deriving DecidableEq

structure PermittedPeerWildcard where
  pszDomainPart : Bytes
  wildcardType : WildcardType
  deriving DecidableEq

inductive EtryType
  | undecided | plain | wildcard
  deriving DecidableEq

structure PermittedPeer where
  pszID : Bytes
  etryType : EtryType
  pWildcardRoot : List PermittedPeerWildcard
  deriving DecidableEq

def addPermittedPeer (pszID : Bytes) : PermittedPeer := ⟨pszID, .undecided, []⟩

/-- The entry that `AddPermittedPeerWildcard` makes of a part. If there is none, it returns
`RS_RET_INVALID_WILDCARD`. -/
def newWildcard (pszStr : Bytes) : Option PermittedPeerWildcard :=
  if pszStr = [] then some ⟨[], .emptyComponent⟩
  else
    let atStart := pszStr.head? = some star
    let src := if atStart then pszStr.drop 1 else pszStr
    let part := src.takeWhile (· != star)
    match src.dropWhile (· != star) with
    | [] =>
      if atStart then some ⟨part, if pszStr.length = 1 then .matchAll else .atStart⟩
      else some ⟨part, .none⟩
    | [_] => if atStart then none else some ⟨part, .atEnd⟩
    -- something follows the asterisk
    | _ :: _ :: _ => none

def addPermittedPeerWildcard (root : List PermittedPeerWildcard) (pszStr : Bytes) :
    Bool × List PermittedPeerWildcard :=
  match newWildcard pszStr with
  | some pNew => (true, root ++ [pNew])
  | none => (false, root)

def compileLoop (root : List PermittedPeerWildcard) : Bytes → Bool × List PermittedPeerWildcard
  | [] => (true, root)
  | c :: cs =>
    let pC := (c :: cs).dropWhile (· != dot)
    match addPermittedPeerWildcard root ((c :: cs).takeWhile (· != dot)) with
    | (false, root) => (false, root)
    | (true, root) =>
      -- an empty component at the end of the string
      let root := if pC = [dot] then (addPermittedPeerWildcard root []).2 else root
      compileLoop root (pC.drop 1)
  termination_by text => text.length
  decreasing_by
    have := ((c :: cs).dropWhile_sublist (· != dot)).length_le
    simp only [length_drop, length_cons] at this ⊢
    omega

def permittedPeerWildcardCompile (pPeer : PermittedPeer) : PermittedPeer :=
  if star ∈ pPeer.pszID then
    { pPeer with
      etryType := .wildcard
      pWildcardRoot := (compileLoop pPeer.pWildcardRoot pPeer.pszID).2 }
  else { pPeer with etryType := .plain }

/-- The `switch` over the type of a wildcard, for the part of the name that `pStart` and `pC`
delimit. -/
def matchComponent (pWildcard : PermittedPeerWildcard) (comp : Bytes) : Bool :=
  let part := pWildcard.pszDomainPart
  match pWildcard.wildcardType with
  | .none => part.length == comp.length && comp == part.take comp.length
  | .atStart => part.length ≤ comp.length && part == comp.drop (comp.length - part.length)
  | .atEnd => part.length ≤ comp.length && comp.take part.length == part
  | .matchAll => true
  | .emptyComponent => comp.length == 0

def matchLoop : List PermittedPeerWildcard → Bytes → Bool
  | [], [] => true
  | _ :: _, [] => false
  | [], _ :: _ => false
  | pWildcard :: pNext, c :: cs =>
    matchComponent pWildcard ((c :: cs).takeWhile (· != dot)) &&
      matchLoop pNext (((c :: cs).dropWhile (· != dot)).drop 1)

def permittedPeerWildcardMatch (pPeer : PermittedPeer) (pszNameToMatch : Bytes) :
    Bool × PermittedPeer :=
  let pPeer :=
    if pPeer.etryType = .undecided then permittedPeerWildcardCompile pPeer else pPeer
  if pPeer.etryType = .plain then (pPeer.pszID == pszNameToMatch, pPeer)
  else (matchLoop pPeer.pWildcardRoot pszNameToMatch, pPeer)

/-! ## What the wildcards mean -/

def ComponentValid (part : Bytes) : Prop :=
  part.count star ≤ 1 ∧
    (star ∈ part → part.head? = some star ∨ part.getLast? = some star)
deriving Decidable

def ComponentMatches (part comp : Bytes) : Prop :=
  if star ∈ part then
    part.head? = some star ∧ part.tail <:+ comp ∨
      part.getLast? = some star ∧ part.dropLast <+: comp
  else comp = part
deriving Decidable

def Permits (pszID name : Bytes) : Prop :=
  (∀ part ∈ pszID.splitOn dot, ComponentValid part) ∧
    List.Forall₂ ComponentMatches (pszID.splitOn dot) (name.splitOn dot)
deriving Decidable

/-! ## Compilation -/

lemma notMem_takeWhile_star (text : Bytes) : star ∉ text.takeWhile (· != star) := by
  intro h
  simpa using mem_takeWhile_imp h

variable {text : Bytes}

lemma componentMatches_start (h : star ∉ text) (comp : Bytes) :
    ComponentMatches (star :: text) comp ↔ text <:+ comp := by
  rw [ComponentMatches, if_pos mem_cons_self]
  refine ⟨?_, fun hs => .inl ⟨rfl, hs⟩⟩
  rintro (⟨-, hs⟩ | ⟨hlast, -⟩)
  · exact hs
  · -- the star at the start is the one at the end
    obtain rfl : text = [] := by
      by_contra hne
      rw [getLast?_cons_of_ne_nil hne] at hlast
      exact h (mem_of_getLast? hlast)
    exact nil_suffix

lemma componentMatches_end (h : star ∉ text) (comp : Bytes) :
    ComponentMatches (text ++ [star]) comp ↔ text <+: comp := by
  rw [ComponentMatches, if_pos (by simp), dropLast_concat]
  refine ⟨?_, fun hp => .inr ⟨by simp, hp⟩⟩
  rintro (⟨hhead, -⟩ | ⟨-, hp⟩)
  · obtain rfl : text = [] := by
      by_contra hne
      rw [head?_append_of_ne_nil _ hne] at hhead
      exact h (mem_of_head? hhead)
    exact nil_prefix
  · exact hp

/-- A part is rejected if it is not valid, and else its entry matches what the part is to match. -/
lemma newWildcard_spec (part : Bytes) :
    newWildcard part = none ∧ ¬ComponentValid part ∨
      ∃ pNew, newWildcard part = some pNew ∧ ComponentValid part ∧
        ∀ comp, matchComponent pNew comp = true ↔ ComponentMatches part comp := by
  by_cases hne : part = []
  · subst hne
    refine .inr ⟨_, rfl, by simp [ComponentValid], fun comp => ?_⟩
    simp [matchComponent, ComponentMatches]
  by_cases hhead : part.head? = some star
  · obtain ⟨text, rfl⟩ := head?_eq_some_iff.1 hhead
    rcases cut_cases star text with ⟨hself, hnil, -⟩ | ⟨rest, hdrop, htext, -⟩
    · have hmem : star ∉ text := hself ▸ notMem_takeWhile_star text
      refine .inr ⟨⟨text, if text = [] then .matchAll else .atStart⟩,
        by simp [newWildcard, hself, hnil],
        ⟨by rw [count_cons_self, count_eq_zero.2 hmem], fun _ => .inl rfl⟩, fun comp => ?_⟩
      rw [componentMatches_start hmem]
      by_cases hnil : text = []
      · simp [matchComponent, hnil]
      · simp only [matchComponent, if_neg hnil, Bool.and_eq_true, decide_eq_true_eq, beq_iff_eq]
        exact ⟨fun hs => suffix_iff_eq_drop.2 hs.2,
          fun hs => ⟨hs.length_le, suffix_iff_eq_drop.1 hs⟩⟩
    · -- a second star
      refine .inl ⟨by cases rest <;> simp [newWildcard, hdrop], fun hvalid => ?_⟩
      have hcount := hvalid.1
      rw [count_cons_self, htext, count_append, count_cons_self] at hcount
      omega
  · have hmem := notMem_takeWhile_star part
    rcases cut_cases star part with ⟨hself, hnil, -⟩ | ⟨rest, hdrop, htext, -⟩
    · rw [hself] at hmem
      refine .inr ⟨⟨part, .none⟩, by simp [newWildcard, hne, hhead, hself, hnil],
        ⟨by rw [count_eq_zero.2 hmem]; omega, fun h => absurd h hmem⟩, fun comp => ?_⟩
      simp only [matchComponent, ComponentMatches, if_neg hmem, Bool.and_eq_true, beq_iff_eq]
      constructor
      · rintro ⟨hlen, heq⟩
        rwa [← hlen, take_length] at heq
      · rintro rfl
        exact ⟨rfl, take_length.symm⟩
    · have hnew : newWildcard part =
          if rest = [] then some ⟨part.takeWhile (· != star), .atEnd⟩ else none := by
        cases rest <;> simp [newWildcard, hne, hhead, hdrop]
      rw [hnew]
      clear hnew hdrop
      generalize part.takeWhile (· != star) = text at htext hmem ⊢
      subst htext
      cases rest with
      | nil =>
        refine .inr ⟨⟨text, .atEnd⟩, rfl, ⟨?_, fun _ => .inr (by simp)⟩, fun comp => ?_⟩
        · rw [count_append, count_eq_zero.2 hmem, count_singleton_self]
        · rw [componentMatches_end hmem]
          simp only [matchComponent, Bool.and_eq_true, decide_eq_true_eq, beq_iff_eq]
          exact ⟨fun hp => prefix_iff_eq_take.2 hp.2.symm,
            fun hp => ⟨hp.length_le, (prefix_iff_eq_take.1 hp).symm⟩⟩
      | cons b rest =>
        -- something follows the star, and it is not another one
        refine .inl ⟨rfl, fun hvalid => ?_⟩
        have hcount := hvalid.1
        rw [count_append, count_cons_self] at hcount
        have hrest : star ∉ b :: rest := count_eq_zero.1 (by omega)
        refine hrest (mem_of_getLast? ?_)
        simpa [getLast?_append] using (hvalid.2 (by simp)).resolve_left hhead

def entries (comps : List Bytes) : List PermittedPeerWildcard :=
  (comps.takeWhile (decide <| ComponentValid ·)).filterMap newWildcard

lemma entries_cons (part : Bytes) (comps : List Bytes) :
    entries (part :: comps) = (newWildcard part).elim [] (· :: entries comps) := by
  obtain ⟨hnone, hvalid⟩ | ⟨pNew, hnew, hvalid, -⟩ := newWildcard_spec part
  · simp [entries, hvalid, hnone]
  · simp [entries, hvalid, hnew]

lemma compileLoop_eq (root : List PermittedPeerWildcard) (text : Bytes) (hne : text ≠ []) :
    (compileLoop root text).2 = root ++ entries (text.splitOn dot) := by
  fun_induction compileLoop root text with
  | case1 => exact absurd rfl hne
  | case2 root c cs root' hadd =>
    unfold addPermittedPeerWildcard at hadd
    split at hadd
    · cases hadd
    next hnew =>
    cases hadd
    rcases cut_cases dot (c :: cs) with ⟨hself, -, hsplit⟩ | ⟨rest, -, -, hsplit⟩
    · rw [hself] at hnew
      rw [hsplit, entries_cons, hnew, Option.elim_none, append_nil]
    · rw [hsplit, entries_cons, hnew, Option.elim_none, append_nil]
  | case3 root c cs pC root' hadd root'' ih =>
    unfold addPermittedPeerWildcard at hadd
    split at hadd
    case h_2 => cases hadd
    next pNew hnew =>
    cases hadd
    rcases cut_cases dot (c :: cs) with ⟨hself, hnil, hsplit⟩ | ⟨rest, hrest, -, hsplit⟩
    · rw [hself] at hnew
      have hpC : pC = [] := hnil
      rw [hsplit, entries_cons, hnew]
      simp [root'', hpC, compileLoop, entries]
    · have hpC : pC = dot :: rest := hrest
      rw [hsplit, entries_cons, hnew, Option.elim_some]
      cases rest with
      | nil =>
        -- the empty part at the end
        rw [splitOn_nil, entries_cons]
        simp [root'', hpC, compileLoop, addPermittedPeerWildcard, newWildcard, entries]
      | cons b rest =>
        have hroot : root'' = root ++ [pNew] := by simp [root'', hpC]
        simp only [hpC, hroot, drop_one, tail_cons] at ih ⊢
        rw [ih (by simp), append_assoc, singleton_append]

lemma matchLoop_iff (wildcards : List PermittedPeerWildcard) (name : Bytes) :
    matchLoop wildcards name = true ↔
      List.Forall₂ (fun w comp => matchComponent w comp = true) wildcards (parts dot name) := by
  fun_induction matchLoop wildcards name with
  | case1 => simp
  | case2 => simp
  | case3 => simp [parts_cons]
  | case4 w ws c cs ih =>
    rw [Bool.and_eq_true, ih, parts_cons, forall₂_cons]

/-! ## Every use of a peer -/

def useFor (pPeer : PermittedPeer) (names : List Bytes) : PermittedPeer :=
  names.foldl (fun pPeer name => (permittedPeerWildcardMatch pPeer name).2) pPeer

def PeerFor (pszID : Bytes) (pPeer : PermittedPeer) : Prop :=
  pPeer = addPermittedPeer pszID ∨ pPeer = ⟨pszID, .wildcard, entries (pszID.splitOn dot)⟩

lemma permittedPeerWildcardMatch_eq {pszID : Bytes} (h : star ∈ pszID)
    {pPeer : PermittedPeer} (hp : PeerFor pszID pPeer) (name : Bytes) :
    permittedPeerWildcardMatch pPeer name =
      (matchLoop (entries (pszID.splitOn dot)) name,
        ⟨pszID, .wildcard, entries (pszID.splitOn dot)⟩) := by
  rcases hp with rfl | rfl
  · have hroot := compileLoop_eq [] pszID (ne_nil_of_mem h)
    rw [nil_append] at hroot
    simp [permittedPeerWildcardMatch, addPermittedPeer, permittedPeerWildcardCompile, h, hroot]
  · simp [permittedPeerWildcardMatch]

lemma PeerFor.useFor {pszID : Bytes} (h : star ∈ pszID) {pPeer : PermittedPeer}
    (hp : PeerFor pszID pPeer) (names : List Bytes) : PeerFor pszID (useFor pPeer names) := by
  induction names generalizing pPeer with
  | nil => exact hp
  | cons name names ih =>
    have hmatch := permittedPeerWildcardMatch_eq h hp name
    exact ih (.inr (congrArg Prod.snd hmatch))

lemma forall₂_entries_iff (comps names : List Bytes) :
    List.Forall₂ (fun w comp => matchComponent w comp = true) (entries comps) names ↔
      List.Forall₂ ComponentMatches (comps.takeWhile (decide <| ComponentValid ·)) names := by
  induction comps generalizing names with
  | nil => simp [entries]
  | cons part comps ih =>
    obtain ⟨-, hvalid⟩ | ⟨pNew, hnew, hvalid, hmatch⟩ := newWildcard_spec part
    · simp [entries, hvalid]
    · rw [entries_cons, hnew, takeWhile_cons_of_pos (by simpa using hvalid), Option.elim_some]
      cases names with
      | nil => simp
      | cons name names => rw [forall₂_cons, forall₂_cons, ih, hmatch]

/-- A text cannot match both with and without the last part of the name. -/
lemma not_forall₂_of_dropLast {comps names : List Bytes} (hne : names ≠ [])
    (h : Forall₂ ComponentMatches comps names.dropLast) :
    ¬ Forall₂ ComponentMatches comps names := by
  intro h'
  have hlen := h.length_eq.symm.trans h'.length_eq
  have hpos := length_pos_iff.mpr hne
  rw [length_dropLast] at hlen
  omega

/-- When the answer is the right one. If the text is valid, the name does not end in an empty part,
or matches neither without this part nor with it; otherwise, what is valid at the start of the text
does not match. -/
def Agrees (pszID name : Bytes) : Prop :=
  let comps := pszID.splitOn dot
  let names := name.splitOn dot
  if ∀ part ∈ comps, ComponentValid part then
    names.getLast? = some [] →
      ¬ Forall₂ ComponentMatches comps names.dropLast ∧ ¬ Forall₂ ComponentMatches comps names
  else
    ¬ Forall₂ ComponentMatches (comps.takeWhile (decide <| ComponentValid ·))
      (withoutLastEmpty names)
deriving Decidable

/-- However often a peer with wildcards was used before, it matches the names that its text permits
and no others exactly where `Agrees` holds. -/
theorem wildcardMatch_iff_permits_iff (pszID : Bytes) (h : star ∈ pszID)
    (names : List Bytes) (name : Bytes) :
    (((permittedPeerWildcardMatch (useFor (addPermittedPeer pszID) names) name).1 = true ↔
      Permits pszID name) ↔ Agrees pszID name) := by
  have hpeer : PeerFor pszID (useFor (addPermittedPeer pszID) names) :=
    PeerFor.useFor h (.inl rfl) names
  rw [permittedPeerWildcardMatch_eq h hpeer, matchLoop_iff, forall₂_entries_iff, parts_eq, Permits,
    Agrees]
  by_cases hvalid : ∀ part ∈ pszID.splitOn dot, ComponentValid part
  · have hall : (pszID.splitOn dot).takeWhile (decide <| ComponentValid ·) = pszID.splitOn dot :=
      takeWhile_eq_self_iff.2 fun part hpart => decide_eq_true (hvalid part hpart)
    rw [if_pos hvalid, hall, and_iff_right hvalid, withoutLastEmpty]
    by_cases hlast : (name.splitOn dot).getLast? = some []
    · have hnot := @not_forall₂_of_dropLast (pszID.splitOn dot) _
        (ne_nil_of_mem (mem_of_getLast? hlast))
      simp only [hlast, if_true, forall_const]
      exact ⟨fun hiff => ⟨fun hm => hnot hm (hiff.1 hm), fun hp => hnot (hiff.2 hp) hp⟩,
        fun hboth => iff_of_false hboth.1 hboth.2⟩
    · simp [hlast]
  · simp [hvalid]

/-- `*.org` and `a.org`. -/
theorem wildcardMatch_iff_permits_iff_org :
    star ∈ [star, dot, 111, 114, 103] ∧
      Agrees [star, dot, 111, 114, 103] [97, dot, 111, 114, 103] ∧
      ((permittedPeerWildcardMatch (useFor (addPermittedPeer [star, dot, 111, 114, 103]) [])
        [97, dot, 111, 114, 103]).1 = true ↔
      Permits [star, dot, 111, 114, 103] [97, dot, 111, 114, 103]) := by
  have hstar : star ∈ [star, dot, 111, 114, 103] := by decide
  have hagrees : Agrees [star, dot, 111, 114, 103] [97, dot, 111, 114, 103] := by decide +kernel
  exact ⟨hstar, hagrees, (wildcardMatch_iff_permits_iff _ hstar [] _).2 hagrees⟩

/-- `a.*b*` matches `a`, `*.` does not match `a.`, and `*` matches `a.`. -/
theorem half_compiled_text_matches :
    (permittedPeerWildcardMatch (addPermittedPeer [97, dot, star, 98, star]) [97]).1 = true ∧
      ¬ Permits [97, dot, star, 98, star] [97] ∧
    (permittedPeerWildcardMatch (addPermittedPeer [star, dot]) [97, dot]).1 = false ∧
      Permits [star, dot] [97, dot] ∧
    (permittedPeerWildcardMatch (addPermittedPeer [star]) [97, dot]).1 = true ∧
      ¬ Permits [star] [97, dot] := by
  decide +kernel

end Rsyslog.Net
