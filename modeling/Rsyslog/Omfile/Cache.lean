import Rsyslog.Lib.Slots
import Rsyslog.Omfile.File

/-!
# The cache of dynamic files

The cache of an instance is a table of slots that own streams, as in `Lib/Slots`. Every function
keeps it valid and leaves what the slots own as before, apart from the slot of a file that is driven
out of a full cache.
-/

namespace Rsyslog.Omfile

open Lib List Inst Option
open Rsyslog.Action (RsRet)

variable {cfg : Config} {s s' : Inst cfg}

/-! ## The table of an instance -/

/-- The file and the stream of an entry that has both. -/
def Entry.owner (e : Entry) : Option (FName × StrmId) :=
  match e.pName, e.pStrm with
  | some name, some id => some (name, id)
  | _, _ => none

/-- What the slots own. -/
def Inst.slots (s : Inst cfg) : List (Option (FName × StrmId)) :=
  s.dynCache.map (Option.bind · Entry.owner)

/-- All streams ever made, with the flag whether they are open. -/
def Inst.made (s : Inst cfg) : List (FName × Bool) := s.strms.map fun p => (p.1, p.2.isSome)

/-- The writes, by file and stream. -/
def Inst.writes (s : Inst cfg) : List (FName × StrmId) :=
  s.calls.flatten.filterMap fun c => match c with
    | .write name id _ => some (name, id)
    | _ => none

/-- The tick of the last use of a file. -/
def Inst.lastUse (s : Inst cfg) (name : FName) : Option ℕ := s.uses.lookup name

/-- What holds between the functions. The stamps of the entries are those of the last uses. -/
structure Inst.Valid (s : Inst cfg) : Prop where
  owned : Owned s.slots s.made
  whole : ∀ e, some e ∈ s.dynCache → e.pName.isSome = e.pStrm.isSome
  length_le : s.dynCache.length ≤ cfg.iDynaFileCacheSize
  peak_le : s.peak ≤ cfg.iDynaFileCacheSize
  writes : ∀ name id, (name, id) ∈ s.writes → ∃ up, s.made[id]? = some (name, up)
  stamp : ∀ e name, some e ∈ s.dynCache → e.pName = some name →
    ∃ t, s.lastUse name = some t ∧ e.clkTickAccessed = UInt64.ofNat t
  recent : ∀ u ∈ s.uses, u.2 ≤ s.ticks
  order : s.uses.Pairwise fun u v => v.2 < u.2

/-- The current element and the current stream belong together. -/
def Inst.Current (s : Inst cfg) : Prop :=
  match s.iCurrElt with
  | none => s.pStrm = none
  | some i => ∃ name id, s.slots[i]? = some (some (name, id)) ∧ s.pStrm = some id

/-- Neither is set. -/
def Inst.NoCurrent (s : Inst cfg) : Prop := s.iCurrElt = none ∧ s.pStrm = none

lemma Inst.NoCurrent.current (h : s.NoCurrent) : s.Current := by
  rw [Inst.Current, h.1]
  exact h.2

lemma Inst.Current.of_slots (hcurr : s.Current) (helt : s'.iCurrElt = s.iCurrElt)
    (hstrm : s'.pStrm = s.pStrm) (hslots : ∀ (i : ℕ) x, s.iCurrElt = some i →
      s.slots[i]? = some (some x) → s'.slots[i]? = some (some x)) : s'.Current := by
  unfold Inst.Current at hcurr ⊢
  rw [helt, hstrm]
  cases hi : s.iCurrElt with
  | none =>
    rw [hi] at hcurr
    exact hcurr
  | some i =>
    rw [hi] at hcurr
    obtain ⟨name, id, hslot, hid⟩ := hcurr
    exact ⟨name, id, hslots i _ hi hslot, hid⟩

lemma Inst.valid_new (ticks : ℕ) : (new cfg ticks).Valid where
  owned := .nil
  whole := by simp [new]
  length_le := Nat.zero_le _
  peak_le := Nat.zero_le _
  writes := by simp [new, Inst.writes]
  stamp := by simp [new]
  recent := by simp [new]
  order := .nil

lemma Inst.getElem?_slots (s : Inst cfg) (i : ℕ) :
    s.slots[i]? = s.dynCache[i]?.map (Option.bind · Entry.owner) := getElem?_map ..

variable {name : FName} {e : Entry} {id : StrmId}

lemma Entry.owner_eq_some_iff :
    e.owner = some (name, id) ↔ e.pName = some name ∧ e.pStrm = some id := by
  unfold Entry.owner
  split
  next n i hn hi => simp [hn, hi]
  next hnot =>
    refine iff_of_false nofun fun h => hnot name id h.1 h.2

variable {i : ℕ}

lemma Inst.slots_eq_some_iff :
    s.slots[i]? = some (some (name, id)) ↔
      ∃ e, s.dynCache[i]? = some (some e) ∧ e.pName = some name ∧ e.pStrm = some id := by
  rw [s.getElem?_slots]
  constructor
  · intro h
    obtain ⟨x, hx, hbind⟩ := map_eq_some_iff.mp h
    obtain ⟨e, rfl, howner⟩ := bind_eq_some_iff.mp hbind
    exact ⟨e, hx, Entry.owner_eq_some_iff.mp howner⟩
  · rintro ⟨e, he, howner⟩
    rw [he]
    simp [Entry.owner_eq_some_iff.mpr howner]

lemma Inst.open_eq (s : Inst cfg) : s.open = s.made.countP (·.2) := by
  rw [made, countP_map]
  rfl

/-! ## What leaves the table alone -/

/-- The function returns, in `Q`, and nothing undefined happens. -/
abbrev Does {α : Type} (m : InstM cfg α) (Q : α → Inst cfg → Prop) (s : Inst cfg) : Prop :=
  Wp m Q (fun _ => False) s

lemma wp_ask {α : Type} {answer : ℕ → α} {Q : α → Inst cfg → Prop} {E : Inst cfg → Prop} :
    Wp (ask answer) Q E s ↔ Q (answer s.nCalls) { s with nCalls := s.nCalls + 1 } := Iff.rfl

lemma wp_getClockFileAccess {Q : UInt64 → Inst cfg → Prop} {E : Inst cfg → Prop} :
    Wp getClockFileAccess Q E s ↔ Q (UInt64.ofNat (s.ticks + 1)) { s with ticks := s.ticks + 1 } :=
  Iff.rfl

/-- Nothing but streams has changed, and nothing was written. -/
structure Quiet (s s' : Inst cfg) : Prop where
  dynCache : s'.dynCache = s.dynCache
  made : s'.made = s.made
  iCurrElt : s'.iCurrElt = s.iCurrElt
  pStrm : s'.pStrm = s.pStrm
  peak : s'.peak = s.peak
  uses : s'.uses = s.uses
  ticks : s'.ticks = s.ticks
  writes : ∀ x ∈ s'.writes, x ∈ s.writes

lemma Quiet.refl (s : Inst cfg) : Quiet s s := ⟨rfl, rfl, rfl, rfl, rfl, rfl, rfl, fun _ => id⟩

lemma Quiet.trans {s'' : Inst cfg} (h : Quiet s s') (h' : Quiet s' s'') : Quiet s s'' :=
  ⟨h'.dynCache.trans h.dynCache, h'.made.trans h.made, h'.iCurrElt.trans h.iCurrElt,
    h'.pStrm.trans h.pStrm, h'.peak.trans h.peak, h'.uses.trans h.uses, h'.ticks.trans h.ticks,
    fun x hx => h.writes x (h'.writes x hx)⟩

lemma Quiet.slots (h : Quiet s s') : s'.slots = s.slots := by
  rw [Inst.slots, h.dynCache]
  rfl

/-- An entry without a file. -/
def Entry.Free (e : Entry) : Prop := e.pName = none ∧ e.pStrm = none

lemma Entry.Free.owner (h : e.Free) : e.owner = none := by
  unfold Entry.owner
  rw [h.1]

/-- No stream is made again under another name. -/
def Inst.Keeps (s s' : Inst cfg) : Prop :=
  ∀ (id : ℕ) name up, s.made[id]? = some (name, up) → ∃ up', s'.made[id]? = some (name, up')

/-- The functions leave entries as they are or free them, and use no entry. -/
lemma Inst.Valid.update (hvalid : s.Valid) (howned : Owned s'.slots s'.made)
    (hentry : ∀ e, some e ∈ s'.dynCache → some e ∈ s.dynCache ∨ e.Free)
    (hlen : s'.dynCache.length ≤ cfg.iDynaFileCacheSize) (hmade : s.Keeps s')
    (hpeak : s'.peak ≤ cfg.iDynaFileCacheSize) (huses : s'.uses = s.uses)
    (hticks : s.ticks ≤ s'.ticks) (hwrites : ∀ x ∈ s'.writes, x ∈ s.writes) : s'.Valid where
  owned := howned
  whole := by
    intro e he
    obtain he | hfree := hentry e he
    · exact hvalid.whole e he
    · rw [hfree.1, hfree.2]
      rfl
  length_le := hlen
  peak_le := hpeak
  writes := by
    intro name id hmem
    obtain ⟨up, hup⟩ := hvalid.writes name id (hwrites _ hmem)
    exact hmade id name up hup
  stamp := by
    intro e name he hname
    rw [lastUse, huses]
    obtain he | hfree := hentry e he
    · exact hvalid.stamp e name he hname
    · rw [hfree.1] at hname
      cases hname
  recent := by
    rw [huses]
    exact fun u hu => (hvalid.recent u hu).trans hticks
  order := by
    rw [huses]
    exact hvalid.order

lemma Inst.Valid.of_eq (hvalid : s.Valid) (hdyn : s'.dynCache = s.dynCache)
    (hmade : s'.made = s.made) (hpeak : s'.peak = s.peak) (huses : s'.uses = s.uses)
    (hticks : s.ticks ≤ s'.ticks) (hwrites : ∀ x ∈ s'.writes, x ∈ s.writes) : s'.Valid := by
  refine hvalid.update ?_ (fun e he => .inl (hdyn ▸ he)) (hdyn ▸ hvalid.length_le)
    (fun _ _ up h => ⟨up, hmade ▸ h⟩) (hpeak ▸ hvalid.peak_le) huses hticks hwrites
  rw [Inst.slots, hdyn, hmade]
  exact hvalid.owned

/-- A quiet step keeps the table valid. -/
lemma Quiet.valid (h : Quiet s s') (hvalid : s.Valid) : s'.Valid :=
  hvalid.of_eq h.dynCache h.made h.peak h.uses h.ticks.ge h.writes

lemma Quiet.current (h : Quiet s s') (hcurr : s.Current) : s'.Current := by
  rw [Inst.Current, h.iCurrElt, h.slots, h.pStrm]
  exact hcurr

lemma mem_writes_note {c : Call} (h : (name, id) ∈ (s.note c).writes) :
    (name, id) ∈ s.writes ∨ ∃ r, c = .write name id r := by
  have hcalls : ∀ d ∈ (s.note c).calls.flatten, d ∈ s.calls.flatten ∨ d = c := by
    intro d hd
    unfold note at hd
    cases hs : s.calls with
    | nil =>
      simp only [hs, flatten_cons, flatten_nil, append_nil] at hd
      exact .inr (mem_singleton.mp hd)
    | cons g gs =>
      simp only [hs, flatten_cons, mem_append, mem_singleton] at hd ⊢
      obtain (hd | hd) | hd := hd
      · exact .inl (.inl hd)
      · exact .inr hd
      · exact .inl (.inr hd)
  obtain ⟨d, hd, hwrite⟩ := mem_filterMap.mp h
  obtain hd | rfl := hcalls d hd
  · exact .inl (mem_filterMap.mpr ⟨d, hd, hwrite⟩)
  · cases d <;> simp at hwrite ⊢
    exact .inr hwrite

lemma quiet_note {c : Call} (hc : ∀ name id r, c ≠ .write name id r) : Quiet s (s.note c) := by
  refine ⟨rfl, rfl, rfl, rfl, rfl, rfl, rfl, fun x hx => ?_⟩
  exact (mem_writes_note hx).resolve_right fun ⟨r, hr⟩ => hc _ _ r hr

lemma set_eq_self {α : Type} {l : List α} {a : α} (h : l[i]? = some a) : l.set i a = l := by
  obtain ⟨hlt, rfl⟩ := List.getElem?_eq_some_iff.mp h
  exact set_getElem_self hlt

lemma exists_strm (h : s.made[id]? = some (name, true)) :
    ∃ st, s.strms[id]? = some (name, some st) := by
  rw [made, getElem?_map] at h
  obtain ⟨⟨name', strm⟩, hstrm, heq⟩ := map_eq_some_iff.mp h
  obtain ⟨st, rfl⟩ := isSome_iff_exists.mp (Prod.mk.inj heq).2
  obtain rfl : name' = name := (Prod.mk.inj heq).1
  exact ⟨st, hstrm⟩

/-- What is done with an open stream is quiet. -/
lemma does_onStrm {f : StrmM cfg} (h : s.made[id]? = some (name, true)) :
    Does (onStrm id f) (fun _ s' => Quiet s s') s := by
  obtain ⟨st, hstrm⟩ := exists_strm h
  rw [Does, onStrm, wp_bind, wp_get, hstrm]
  refine ⟨rfl, ?_, rfl, rfl, rfl, rfl, rfl, fun _ hx => hx⟩
  simp only [made, map_set, isSome_some]
  exact set_eq_self h

lemma Inst.Current.made (hcurr : s.Current) (hvalid : s.Valid) (hid : s.pStrm = some id) :
    ∃ i name, s.iCurrElt = some i ∧
      s.slots[i]? = some (some (name, id)) ∧ s.made[id]? = some (name, true) := by
  unfold Inst.Current at hcurr
  cases hcurrElt : s.iCurrElt with
  | none =>
    rw [hcurrElt, hid] at hcurr
    cases hcurr
  | some i =>
    rw [hcurrElt] at hcurr
    obtain ⟨name, id', hslot, hid'⟩ := hcurr
    obtain rfl : id = id' := Option.some.inj (hid.symm.trans hid')
    exact ⟨i, name, rfl, hslot, hvalid.owned.made_of_slot hslot⟩

variable (w : World)

/-- Flushing the current stream is quiet. -/
lemma does_flushOld (hvalid : s.Valid) (hcurr : s.Current) :
    Does (flushOld w) (fun _ s' => Quiet s s') s := by
  rw [Does, flushOld, wp_bind, wp_get]
  cases hid : s.pStrm with
  | none => exact .refl s
  | some id =>
    obtain ⟨-, name, -, -, hmade⟩ := hcurr.made hvalid hid
    simp only [wp_ite, wp_bind]
    refine ⟨fun _ => ?_, fun _ => .refl s⟩
    refine (does_onStrm hmade).imp fun r s' h => ?_
    exact h.trans (quiet_note (by simp))

lemma does_isCurrent (name : FName) (hcurr : s.Current) :
    Does (isCurrent name) (fun r s' => s' = s ∧ (r = true → ∃ i id, s.iCurrElt = some i ∧
      s.slots[i]? = some (some (name, id)) ∧ s.pStrm = some id)) s := by
  rw [Does, isCurrent, wp_bind, wp_get]
  unfold Inst.Current at hcurr
  cases hcurrElt : s.iCurrElt with
  | none => exact ⟨rfl, nofun⟩
  | some i =>
    rw [hcurrElt] at hcurr
    obtain ⟨name', id, hslot, hid⟩ := hcurr
    obtain ⟨⟨pName, pStrm, clk, nInactive⟩, he, rfl, -⟩ := slots_eq_some_iff.mp hslot
    simp only [he]
    refine ⟨rfl, fun hr => ⟨i, id, rfl, ?_, hid⟩⟩
    rw [of_decide_eq_true hr]
    exact hslot

/-! ## Using an entry -/

lemma modify_eq_set {α : Type} {l : List α} {a : α} (h : l[i]? = some a) (f : α → α) :
    l.modify i f = l.set i (f a) := by
  rw [modify_eq_set_getElem?, h]
  rfl

/-- The instance after an entry was stamped. -/
def Inst.accessed (s : Inst cfg) (i : ℕ) (e : Entry) (name : FName) : Inst cfg :=
  { s with
    dynCache := s.dynCache.set i
      (some { e with clkTickAccessed := UInt64.ofNat (s.ticks + 1), nInactive := 0 })
    ticks := s.ticks + 1
    uses := (name, s.ticks + 1) :: s.uses }

lemma access_eq (name : FName) (h : s.dynCache[i]? = some (some e)) :
    access i name s = .ok () (s.accessed i e name) := by
  have hmod := modify_eq_set h (Option.map fun e =>
    { e with clkTickAccessed := UInt64.ofNat (s.ticks + 1), nInactive := 0 })
  show EStateM.Result.ok _ _ = _
  simp only [accessed]
  rw [hmod]
  rfl

lemma does_access {Q : Unit → Inst cfg → Prop} (h : s.dynCache[i]? = some (some e))
    (hQ : Q () (s.accessed i e name)) : Does (access i name) Q s := by
  unfold Does Wp
  rw [access_eq name h]
  exact hQ

lemma Inst.slots_accessed (name : FName) (h : s.dynCache[i]? = some (some e)) :
    (s.accessed i e name).slots = s.slots := by
  have hslot : s.slots[i]? = some e.owner := by
    rw [s.getElem?_slots, h]
    rfl
  simp only [Inst.slots, accessed, map_set]
  exact set_eq_self hslot

lemma Inst.slots_of_named (hwhole : ∀ e, some e ∈ s.dynCache → e.pName.isSome = e.pStrm.isSome)
    (he : s.dynCache[i]? = some (some e)) (hname : e.pName = some name) :
    ∃ id, e.pStrm = some id ∧ s.slots[i]? = some (some (name, id)) := by
  obtain ⟨id, hid⟩ := isSome_iff_exists.mp
    ((hwhole e (mem_of_getElem? he)).symm.trans (by rw [hname]; rfl))
  exact ⟨id, hid, slots_eq_some_iff.mpr ⟨e, he, hname, hid⟩⟩

/-- The entry at index `i` gets the next stamp, for a use of its file. -/
lemma Inst.Valid.stamped (hvalid : s.Valid) (hi : i < s.dynCache.length)
    (hdyn : s'.dynCache = s.dynCache.set i (some e)) (hname : e.pName = some name)
    (hstrm : e.pStrm = some id) (hclk : e.clkTickAccessed = UInt64.ofNat (s.ticks + 1))
    (howned : Owned s'.slots s'.made) (hmade : s.Keeps s')
    (hpeak : s'.peak ≤ cfg.iDynaFileCacheSize) (huses : s'.uses = (name, s.ticks + 1) :: s.uses)
    (hticks : s'.ticks = s.ticks + 1) (hwrites : ∀ x ∈ s'.writes, x ∈ s.writes) : s'.Valid := by
  have hwhole : ∀ e, some e ∈ s'.dynCache → e.pName.isSome = e.pStrm.isSome := by
    intro e' he'
    rw [hdyn] at he'
    obtain he' | heq := mem_or_eq_of_mem_set he'
    · exact hvalid.whole e' he'
    · cases heq
      rw [hname, hstrm]
      rfl
  refine ⟨howned, hwhole, ?_, hpeak, fun n id hmem => ?_, fun e' name' he' hname' => ?_, ?_, ?_⟩
  · rw [hdyn, length_set]
    exact hvalid.length_le
  · obtain ⟨up, hup⟩ := hvalid.writes n id (hwrites _ hmem)
    exact hmade id n up hup
  · have hself : s'.dynCache[i]? = some (some e) := by rw [hdyn, getElem?_set_self hi]
    obtain ⟨j, hj⟩ := getElem?_of_mem he'
    rw [lastUse, huses]
    by_cases hij : i = j
    · subst hij
      cases hself.symm.trans hj
      cases hname.symm.trans hname'
      exact ⟨s.ticks + 1, by simp, hclk⟩
    · -- no two entries have the same name
      have hne : name' ≠ name := by
        rintro rfl
        obtain ⟨id, -, hslot⟩ := slots_of_named hwhole hself hname
        obtain ⟨id', -, hslot'⟩ := slots_of_named hwhole hj hname'
        exact hij (howned.once i j _ _ hslot hslot' (.inl rfl))
      rw [hdyn, getElem?_set_ne hij] at hj
      rw [lookup_cons, beq_eq_false_iff_ne.mpr hne]
      exact hvalid.stamp e' name' (mem_of_getElem? hj) hname'
  · intro u hu
    rw [hticks]
    obtain rfl | hu := mem_cons.mp (huses ▸ hu)
    · exact le_rfl
    · exact (hvalid.recent u hu).trans (Nat.le_succ _)
  · rw [huses]
    exact pairwise_cons.mpr ⟨fun u hu => Nat.lt_succ_of_le (hvalid.recent u hu), hvalid.order⟩

/-- A valid table stays valid when an entry of it is used. -/
lemma Inst.Valid.accessed (hvalid : s.Valid) (h : s.dynCache[i]? = some (some e))
    (hname : e.pName = some name) : (s.accessed i e name).Valid := by
  obtain ⟨id, hid, -⟩ := slots_of_named hvalid.whole h hname
  refine hvalid.stamped (List.getElem?_eq_some_iff.mp h).1 rfl hname hid rfl ?_
    (fun _ _ up h => ⟨up, h⟩) hvalid.peak_le rfl rfl fun _ h => h
  rw [s.slots_accessed name h]
  exact hvalid.owned

lemma Inst.Current.accessed (hcurr : s.Current) (h : s.dynCache[i]? = some (some e)) :
    (s.accessed i e name).Current := by
  rw [Inst.Current, s.slots_accessed name h]
  exact hcurr

/-! ## Freeing an entry -/

lemma Inst.Valid.setFree (hvalid : s.Valid) {left : Option Entry}
    (hleft : ∀ e, left = some e → e.Free) (hdyn : s'.dynCache = s.dynCache.set i left)
    (howned : Owned s'.slots s'.made) (hmade : s.Keeps s') (hpeak : s'.peak = s.peak)
    (huses : s'.uses = s.uses) (hticks : s'.ticks = s.ticks) (hcalls : s'.calls = s.calls) :
    s'.Valid := by
  refine hvalid.update howned (fun e he => ?_) ?_ hmade (hpeak ▸ hvalid.peak_le) huses hticks.ge ?_
  · rw [hdyn] at he
    exact (mem_or_eq_of_mem_set he).imp_right fun h => hleft e h.symm
  · rw [hdyn, length_set]
    exact hvalid.length_le
  · rw [Inst.writes, hcalls]
    exact fun _ h => h

lemma Inst.slots_setFree {left : Option Entry} (hleft : ∀ e, left = some e → e.Free)
    (hdyn : s'.dynCache = s.dynCache.set i left) : s'.slots = s.slots.set i none := by
  rw [Inst.slots, hdyn, map_set]
  have hnone : left.bind Entry.owner = none := by
    cases left with
    | none => rfl
    | some e => exact (hleft e rfl).owner
  rw [hnone]
  rfl

/-- Slot `i` has been freed. -/
structure Freed (i : ℕ) (s s' : Inst cfg) : Prop where
  valid : s'.Valid
  slots : s'.slots = s.slots.set i none
  current : s.Current → s'.Current
  noCurrent : s.NoCurrent → s'.NoCurrent
  uses : s'.uses = s.uses
  ticks : s'.ticks = s.ticks
  length : s'.dynCache.length = s.dynCache.length

lemma Inst.Valid.slots_of_pName (hvalid : s.Valid) {x : Option Entry} (hx : s.dynCache[i]? = some x)
    (hname : x.bind Entry.pName = none) : s.slots[i]? = some none := by
  rw [s.getElem?_slots, hx]
  refine congrArg some ?_
  cases x with
  | none => rfl
  | some e =>
    have hwhole := hvalid.whole e (mem_of_getElem? hx)
    refine Entry.Free.owner ⟨hname, ?_⟩
    rw [show e.pName = none from hname] at hwhole
    exact isNone_iff_eq_none.mp (by simpa using hwhole.symm)

lemma made_of_strms_set (h : s'.strms = s.strms.set id (name, none)) :
    s'.made = s.made.set id (name, false) := by
  rw [made, h, map_set]
  rfl

/-- The stream of the entry is closed, and no longer the current one. -/
lemma does_dropStrm (hvalid : s.Valid) (he : s.dynCache[i]? = some (some e)) :
    Does (dropStrm i e) (fun _ t => Owned (s.slots.set i none) t.made ∧ s.Keeps t ∧
      (s.Current → t.iCurrElt = none ∧ t.pStrm = none ∨
        t.iCurrElt = s.iCurrElt ∧ t.pStrm = s.pStrm ∧ s.iCurrElt ≠ some i) ∧
      t.dynCache = s.dynCache ∧ t.peak = s.peak ∧ t.uses = s.uses ∧ t.ticks = s.ticks ∧
      t.calls = s.calls) s := by
  have hwhole := hvalid.whole e (mem_of_getElem? he)
  unfold dropStrm
  cases hstrm : e.pStrm with
  | none =>
    have hname : e.pName = none := by
      rw [hstrm] at hwhole
      exact isNone_iff_eq_none.mp (by simpa using hwhole)
    have hslot := hvalid.slots_of_pName he hname
    rw [set_eq_self hslot]
    refine ⟨hvalid.owned, fun _ _ up h => ⟨up, h⟩, fun hcurr => .inr ⟨rfl, rfl, fun hi => ?_⟩, rfl,
      rfl, rfl, rfl, rfl⟩
    rw [Inst.Current, hi] at hcurr
    obtain ⟨name, id, hslot', -⟩ := hcurr
    rw [hslot] at hslot'
    cases hslot'
  | some id =>
    obtain ⟨name, hname⟩ := isSome_iff_exists.mp (hwhole.trans (by rw [hstrm]; rfl))
    have hslot := slots_eq_some_iff.mpr ⟨e, he, hname, hstrm⟩
    have hmade := hvalid.owned.made_of_slot hslot
    obtain ⟨st, hst⟩ := exists_strm hmade
    have hnames (id' : ℕ) (name' : FName) (up : Bool) (h : s.made[id']? = some (name', up)) :
        ∃ up', (s.made.set id (name, false))[id']? = some (name', up') := by
      rw [getElem?_set]
      by_cases hid : id = id'
      · subst hid
        rw [hmade] at h
        cases h
        exact ⟨false, by rw [if_pos rfl, if_pos (List.getElem?_eq_some_iff.mp hmade).1]⟩
      · exact ⟨up, by rw [if_neg hid, h]⟩
    have hclosed : Owned (s.slots.set i none)
        (made { s with strms := s.strms.set id (name, none) }) ∧
        s.Keeps { s with strms := s.strms.set id (name, none) } := by
      rw [Inst.Keeps, made_of_strms_set rfl]
      exact ⟨hvalid.owned.close hslot, hnames⟩
    simp only [wp_bind, wp_modify, strmDestruct, wp_get]
    split_ifs with hi <;> simp only [hst]
    · exact ⟨hclosed.1, hclosed.2, fun _ => .inl ⟨rfl, rfl⟩, rfl, rfl, rfl, rfl, rfl⟩
    · exact ⟨hclosed.1, hclosed.2, fun _ => .inr ⟨rfl, rfl, hi⟩, rfl, rfl, rfl, rfl, rfl⟩

/-- **Deleting an entry** frees its slot. -/
lemma does_dynaFileDelCacheEntry (bFreeEntry : Bool) (hvalid : s.Valid)
    (hi : i < s.dynCache.length) :
    Does (dynaFileDelCacheEntry i bFreeEntry) (fun _ s' => Freed i s s' ∧
      (bFreeEntry = false → ∀ e, s.dynCache[i]? = some (some e) →
        ∃ e', s'.dynCache[i]? = some (some e') ∧ e'.Free)) s := by
  rw [Does, dynaFileDelCacheEntry, wp_bind, wp_get]
  obtain ⟨x, hx⟩ : ∃ x, s.dynCache[i]? = some x := ⟨_, getElem?_eq_getElem hi⟩
  have hslot : s.slots[i]? = some (x.bind Entry.owner) := by
    rw [s.getElem?_slots, hx]
    rfl
  rw [hx]
  cases x with
  | none =>
    refine ⟨⟨hvalid, (set_eq_self hslot).symm, id, id, rfl, rfl, rfl⟩, fun _ e he => ?_⟩
    cases he
  | some e =>
    simp only [wp_bind]
    refine (does_dropStrm hvalid hx).imp fun _ t ht => ?_
    obtain ⟨howned, hnames, hcurr, hdyn, hpeak, huses, hticks, hcalls⟩ := ht
    rw [wp_modify]
    generalize hleft : (if bFreeEntry = true then none
      else some { e with pName := none, pStrm := none }) = left
    have hfree : ∀ e', left = some e' → e'.Free := by
      rintro e' rfl
      split at hleft
      · cases hleft
      · cases hleft
        exact ⟨rfl, rfl⟩
    have hset : t.dynCache.set i left = s.dynCache.set i left := by rw [hdyn]
    have hslots : ({ t with dynCache := t.dynCache.set i left } : Inst cfg).slots =
      s.slots.set i none := slots_setFree hfree hset
    refine ⟨⟨?_, hslots, fun h => ?_, fun h => ?_, huses, hticks, ?_⟩, fun hkeep _ _ => ?_⟩
    · refine hvalid.setFree hfree hset ?_ hnames hpeak huses hticks hcalls
      rw [hslots]
      exact howned
    · obtain ⟨hnone, hnone'⟩ | ⟨helt, hstrm, hne⟩ := hcurr h
      · simp only [Inst.Current, hnone, hnone']
      · refine h.of_slots helt hstrm fun j x hj hslot => ?_
        have hij : i ≠ j := fun hij => hne (hij ▸ hj)
        rw [hslots, getElem?_set_ne hij, hslot]
    · obtain hnone | ⟨helt, hstrm, -⟩ := hcurr h.current
      · exact hnone
      · exact ⟨helt.trans h.1, hstrm.trans h.2⟩
    · rw [hset, length_set]
    · rw [hkeep] at hleft
      refine ⟨_, ?_, hfree _ hleft.symm⟩
      rw [hset, getElem?_set, if_pos rfl, if_pos hi]
      exact congrArg some hleft.symm

/-! ## The search -/

variable {iFirstFree : Option ℕ} {es : List (Option Entry)} {ct : UInt64} {iOldest : ℕ}

/-- A search that finds a slot found the file in it. -/
lemma search_found {j : ℕ} (h : search name es i iFirstFree iOldest ct = .found j) :
    ∃ k e, j = i + k ∧ es[k]? = some (some e) ∧ e.pName = some name := by
  fun_induction search with
  | case1 => cases h
  | case4 e es i iFirstFree iOldest ct hname =>
    cases h
    exact ⟨0, e, rfl, rfl, hname⟩
  -- in every other case the search goes on behind the entry
  | _ =>
    rename_i ih
    obtain ⟨k, e, rfl, he, hname⟩ := ih h
    exact ⟨k + 1, e, by omega, he, hname⟩

/-- The file is not in the table. `place` is free, and `old` has the oldest stamp. -/
structure Missing (name : FName) (es : List (Option Entry)) (i : ℕ) (iFirstFree : Option ℕ)
    (iOldest : ℕ) (ct : UInt64) (place : Option ℕ) (old : ℕ) : Prop where
  new : ∀ e, some e ∈ es → e.pName ≠ some name
  free : ∀ j, place = some j → iFirstFree = some j ∨
    ∃ k x, j = i + k ∧ es[k]? = some x ∧ x.bind Entry.pName = none
  full : place = none → iFirstFree = none ∧ ∀ x ∈ es, ∃ e, x = some e ∧ e.pName.isSome
  oldest : (old = iOldest ∧ ∀ e, some e ∈ es → e.pName.isSome → ct ≤ e.clkTickAccessed) ∨
    ∃ k e, old = i + k ∧ es[k]? = some (some e) ∧ e.pName.isSome ∧ e.clkTickAccessed < ct ∧
      ∀ e', some e' ∈ es → e'.pName.isSome → e.clkTickAccessed ≤ e'.clkTickAccessed

variable {place : Option ℕ} {old : ℕ}

lemma Missing.cons_free {x : Option Entry} (hx : x.bind Entry.pName = none)
    (h : Missing name es (i + 1) (iFirstFree.or (some i)) iOldest ct place old) :
    Missing name (x :: es) i iFirstFree iOldest ct place old := by
  have hhead : ∀ e, some e = x → e.pName = none := by
    rintro e rfl
    exact hx
  have hmem {e : Entry} (he : some e ∈ x :: es) (hname : e.pName.isSome) : some e ∈ es := by
    refine (mem_cons.mp he).resolve_left fun hex => ?_
    rw [hhead e hex] at hname
    cases hname
  refine ⟨fun e he hname => ?_, fun j hj => ?_, fun hnone => ?_, ?_⟩
  · exact h.new e (hmem he (by rw [hname]; rfl)) hname
  · obtain hor | ⟨k, y, rfl, hy, hfree⟩ := h.free j hj
    · cases iFirstFree with
      | none =>
        cases hor
        exact .inr ⟨0, x, rfl, rfl, hx⟩
      | some i' => exact .inl hor
    · exact .inr ⟨k + 1, y, by omega, hy, hfree⟩
  · have hor := (h.full hnone).1
    cases iFirstFree <;> cases hor
  · refine h.oldest.imp (fun hold => ⟨hold.1, fun e he hname => hold.2 e (hmem he hname) hname⟩) ?_
    rintro ⟨k, e, rfl, he, hname, hlt, hmin⟩
    exact ⟨k + 1, e, by omega, he, hname, hlt,
      fun e' he' hname' => hmin e' (hmem he' hname') hname'⟩

lemma Missing.cons_named {n : FName} (hn : e.pName = some n) (hne : name ≠ n)
    (h : if e.clkTickAccessed < ct then
        Missing name es (i + 1) iFirstFree i e.clkTickAccessed place old
      else Missing name es (i + 1) iFirstFree iOldest ct place old) :
    Missing name (some e :: es) i iFirstFree iOldest ct place old := by
  have hsome : e.pName.isSome := by rw [hn]; rfl
  have hcons {c : UInt64} (hc : c ≤ e.clkTickAccessed)
      (hmin : ∀ e', some e' ∈ es → e'.pName.isSome → c ≤ e'.clkTickAccessed) (e' : Entry)
      (he' : some e' ∈ some e :: es) (hname' : e'.pName.isSome) : c ≤ e'.clkTickAccessed := by
    obtain heq | he' := mem_cons.mp he'
    · cases heq
      exact hc
    · exact hmin e' he' hname'
  -- the first three parts do not depend on the candidate
  obtain ⟨o, c, h'⟩ : ∃ o c, Missing name es (i + 1) iFirstFree o c place old := by
    split at h
    · exact ⟨_, _, h⟩
    · exact ⟨_, _, h⟩
  refine ⟨fun e' he' hname => ?_, fun j hj => ?_,
    fun hnone => ⟨(h'.full hnone).1, fun x hx => ?_⟩, ?_⟩
  · obtain heq | he' := mem_cons.mp he'
    · cases heq
      exact hne (Option.some.inj (hname.symm.trans hn))
    · exact h'.new e' he' hname
  · refine (h'.free j hj).imp id ?_
    rintro ⟨k, x, rfl, hx, hfree⟩
    exact ⟨k + 1, x, by omega, hx, hfree⟩
  · obtain rfl | hx := mem_cons.mp hx
    · exact ⟨e, rfl, hsome⟩
    · exact (h'.full hnone).2 x hx
  · by_cases hlt : e.clkTickAccessed < ct
    · rw [if_pos hlt] at h
      obtain ⟨rfl, hmin⟩ | ⟨k, o, rfl, ho, honame, holt, hmin⟩ := h.oldest
      · exact .inr ⟨0, e, rfl, rfl, hsome, hlt, hcons (UInt64.le_refl _) hmin⟩
      · exact .inr ⟨k + 1, o, by omega, ho, honame, UInt64.lt_trans holt hlt,
          hcons (UInt64.le_of_lt holt) hmin⟩
    · rw [if_neg hlt] at h
      have hge : ct ≤ e.clkTickAccessed := UInt64.not_lt.mp hlt
      obtain ⟨rfl, hmin⟩ | ⟨k, o, rfl, ho, honame, holt, hmin⟩ := h.oldest
      · exact .inl ⟨rfl, hcons hge hmin⟩
      · exact .inr ⟨k + 1, o, by omega, ho, honame, holt,
          hcons (UInt64.le_trans (UInt64.le_of_lt holt) hge) hmin⟩

/-- Any other search tells this. -/
lemma search_missing (h : search name es i iFirstFree iOldest ct = .missing place old) :
    Missing name es i iFirstFree iOldest ct place old := by
  fun_induction search with
  | case1 i iFirstFree iOldest ct =>
    cases h
    exact ⟨by simp, fun j hj => .inl hj, fun hnone => ⟨hnone, by simp⟩, .inl ⟨rfl, by simp⟩⟩
  | case2 es i iFirstFree iOldest ct ih => exact .cons_free rfl (ih h)
  | case3 e es i iFirstFree iOldest ct hfree ih => exact .cons_free hfree (ih h)
  | case4 => cases h
  | case5 e es i iFirstFree iOldest ct n hname hne hlt ih =>
    refine .cons_named hname hne ?_
    rw [if_pos hlt]
    exact ih h
  | case6 e es i iFirstFree iOldest ct n hname hne hlt ih =>
    refine .cons_named hname hne ?_
    rw [if_neg hlt]
    exact ih h

/-! ## A place for a new file -/

/-- Apart from the slots in `gone`, what the slots own is still there. -/
def KeepsSlots (gone : ℕ → Prop) (s s' : Inst cfg) : Prop :=
  ∀ (i : ℕ) x, s.slots[i]? = some (some x) → s'.slots[i]? = some (some x) ∨ gone i

variable {gone : ℕ → Prop}

lemma KeepsSlots.of_eq (h : s'.slots = s.slots) : KeepsSlots gone s s' :=
  fun _ _ hx => .inl (h ▸ hx)

lemma Inst.length_slots (s : Inst cfg) : s.slots.length = s.dynCache.length := length_map ..

lemma getElem?_made_append {made : List (FName × Bool)} {id : ℕ} {x y : FName × Bool}
    (h : made[id]? = some x) : (made ++ [y])[id]? = some x := by
  rw [getElem?_append_left (List.getElem?_eq_some_iff.mp h).1, h]

section Valid

variable (hvalid : s.Valid)

include hvalid

/-- A slot gets a free entry, if there is memory. -/
lemma does_allocEntry (hcurr : s.NoCurrent) (hi : s.slots[i]? = some none) :
    Does (allocEntry w i) (fun r s' => s'.Valid ∧ s'.NoCurrent ∧ s'.slots = s.slots ∧
      ∀ j, (if r then some i else none) = some j →
        ∃ e, s'.dynCache[j]? = some (some e) ∧ e.Free) s := by
  have hlt : i < s.dynCache.length := s.length_slots ▸ (List.getElem?_eq_some_iff.mp hi).1
  rw [Does, allocEntry, wp_bind, wp_ask]
  generalize w.alloc s.nCalls = mem
  generalize hentry : (if mem then some ⟨none, none, 0, 0⟩ else none : Option Entry) = entry
  have hfree : ∀ e, entry = some e → e.Free := by
    rintro e rfl
    split at hentry <;> cases hentry
    exact ⟨rfl, rfl⟩
  have hslots : ({ s with nCalls := s.nCalls + 1, dynCache := s.dynCache.set i entry } :
    Inst cfg).slots = s.slots := (slots_setFree hfree rfl).trans (set_eq_self hi)
  refine ⟨?_, hcurr, hslots, fun j hj => ?_⟩
  · refine hvalid.setFree hfree rfl ?_ (fun _ _ up h => ⟨up, h⟩) rfl rfl rfl rfl
    rw [hslots]
    exact hvalid.owned
  · cases mem <;> cases hj
    refine ⟨_, ?_, hfree _ hentry.symm⟩
    rw [getElem?_set, if_pos rfl, if_pos hlt]
    exact congrArg some hentry.symm

/-- Every slot is there and has a file. -/
def Inst.Full (s : Inst cfg) : Prop :=
  s.dynCache.length = cfg.iDynaFileCacheSize ∧ ∀ x ∈ s.dynCache, ∃ e, x = some e ∧ e.pName.isSome

lemma Inst.Valid.grow (hroom : s.dynCache.length < cfg.iDynaFileCacheSize) :
    ({ s with dynCache := s.dynCache ++ [none] } : Inst cfg).Valid := by
  refine hvalid.update ?_ (fun e he => .inl (by simpa using he)) ?_ (fun _ _ up h => ⟨up, h⟩)
    hvalid.peak_le rfl le_rfl fun _ h => h
  · rw [Inst.slots, map_append]
    exact hvalid.owned.grow
  · rw [length_append]
    exact hroom

/-- **A place.** It is a free entry, a new one, or that of the file which is driven out. -/
theorem does_freeSlot (hcurr : s.NoCurrent)
    (hmiss : Missing name s.dynCache 0 none 0 ct place old) :
    Does (freeSlot w place old) (fun r s' => s'.Valid ∧ s'.NoCurrent ∧
      KeepsSlots (fun i => s.Full ∧ i = old) s s' ∧ KeepsSlots (fun _ => False) s' s ∧
      (∀ i, r = some i → ∃ e, s'.dynCache[i]? = some (some e) ∧ e.Free)) s := by
  rw [Does, freeSlot, wp_bind, wp_get]
  cases place with
  | some i =>
    obtain ⟨k, x, hik, hx, hname⟩ := (hmiss.free i rfl).resolve_left nofun
    rw [Nat.zero_add] at hik
    subst hik
    simp only [wp_bind]
    refine (does_allocEntry w hvalid hcurr (hvalid.slots_of_pName hx hname)).imp fun mem s' h => ?_
    obtain ⟨hvalid', hcurr', hslots, hentry⟩ := h
    exact ⟨hvalid', hcurr', .of_eq hslots, .of_eq hslots.symm, hentry⟩
  | none =>
    rw [wp_ite]
    refine ⟨fun hroom => ?_, fun hfull => ?_⟩
    · simp only [wp_bind, wp_modify]
      have hlast : ({ s with dynCache := s.dynCache ++ [none] } :
          Inst cfg).slots[s.dynCache.length]? = some none := by
        rw [getElem?_slots, getElem?_concat_length]
        rfl
      refine (does_allocEntry w (hvalid.grow hroom) hcurr hlast).imp fun mem s' h => ?_
      obtain ⟨hvalid', hcurr', hslots, hentry⟩ := h
      have happend : s'.slots = s.slots ++ [none] := by
        rw [hslots, Inst.slots, map_append]
        rfl
      refine ⟨hvalid', hcurr', fun i x hx => .inl ?_, fun i x hx => .inl ?_, hentry⟩
      · rw [happend, getElem?_append_left (List.getElem?_eq_some_iff.mp hx).1, hx]
      · rw [happend, getElem?_append] at hx
        split at hx
        · exact hx
        · have hmem := mem_of_getElem? hx
          simp at hmem
    · have hlen : s.dynCache.length = cfg.iDynaFileCacheSize :=
        le_antisymm hvalid.length_le (not_lt.mp hfull)
      have hnamed := (hmiss.full rfl).2
      have hold : old < s.dynCache.length := by
        obtain ⟨rfl, -⟩ | ⟨k, e, rfl, he, -⟩ := hmiss.oldest
        · rw [hlen]
          exact cfg.iDynaFileCacheSize_pos
        · rw [Nat.zero_add]
          exact (List.getElem?_eq_some_iff.mp he).1
      obtain ⟨e, he, -⟩ := hnamed _ (getElem_mem hold)
      simp only [wp_bind]
      refine (does_dynaFileDelCacheEntry false hvalid hold).imp fun _ s' h => ?_
      obtain ⟨hfreed, hentry⟩ := h
      have hget : s.dynCache[old]? = some (some e) := by rw [getElem?_eq_getElem hold, he]
      refine ⟨hfreed.valid, hfreed.noCurrent hcurr, fun i x hx => ?_, fun i x hx => .inl ?_, ?_⟩
      · by_cases hold : old = i
        · exact .inr ⟨⟨hlen, hnamed⟩, hold.symm⟩
        · exact .inl (by rw [hfreed.slots, getElem?_set_ne hold, hx])
      · rw [hfreed.slots, getElem?_set] at hx
        split at hx
        · split at hx <;> cases hx
        · exact hx
      · intro j hj
        cases hj
        exact hentry rfl e hget

/-! ## Opening a file -/

/-- A stream was opened for the file, and nothing else was changed. -/
structure Opened (name : FName) (s s' : Inst cfg) : Prop where
  dynCache : s'.dynCache = s.dynCache
  made : s'.made = s.made ++ [(name, true)]
  iCurrElt : s'.iCurrElt = s.iCurrElt
  pStrm : s'.pStrm = some s.made.length
  peak_le : s'.peak ≤ cfg.iDynaFileCacheSize
  uses : s'.uses = s.uses
  ticks : s'.ticks = s.ticks
  writes : ∀ x ∈ s'.writes, x ∈ s.writes

/-- There is no current stream. -/
structure NotOpened (s s' : Inst cfg) : Prop where
  valid : s'.Valid
  dynCache : s'.dynCache = s.dynCache
  iCurrElt : s'.iCurrElt = s.iCurrElt
  pStrm : s'.pStrm = none

lemma Inst.Valid.waste (name : FName) (hdyn : s'.dynCache = s.dynCache)
    (hmade : s'.made = s.made ++ [(name, false)]) (hpeak : s'.peak ≤ cfg.iDynaFileCacheSize)
    (huses : s'.uses = s.uses) (hticks : s'.ticks = s.ticks)
    (hwrites : ∀ x ∈ s'.writes, x ∈ s.writes) : s'.Valid := by
  refine hvalid.update ?_ (fun e he => .inl (hdyn ▸ he)) (hdyn ▸ hvalid.length_le)
    (fun _ _ up h => ⟨up, ?_⟩) hpeak huses hticks.ge hwrites
  · rw [Inst.slots, hdyn, hmade]
    exact hvalid.owned.waste name
  · rw [hmade]
    exact getElem?_made_append h

/-- There is room for a stream as long as a slot is free. -/
lemma Inst.open_le (hi : s.slots[i]? = some none) : s.open + 1 ≤ cfg.iDynaFileCacheSize := by
  have hlt := hvalid.owned.countP_lt hi
  rw [← s.open_eq, s.length_slots] at hlt
  exact hlt.trans_le hvalid.length_le

lemma Opened.closeFile (h : Opened name s s') : Does closeFile (fun _ t => NotOpened s t) s' := by
  have hlast : s'.made[s.made.length]? = some (name, true) := by
    rw [h.made, getElem?_concat_length]
  obtain ⟨st, hst⟩ := exists_strm hlast
  rw [Does, Omfile.closeFile, wp_bind, wp_get, h.pStrm]
  simp only [wp_bind, wp_modify]
  rw [strmDestruct, wp_bind, wp_get]
  simp only [hst]
  refine ⟨?_, h.dynCache, h.iCurrElt, rfl⟩
  refine hvalid.waste name h.dynCache ?_ h.peak_le h.uses h.ticks h.writes
  refine (made_of_strms_set rfl).trans ?_
  rw [h.made, set_append_right _ _ le_rfl, Nat.sub_self]
  rfl

/-- A file is opened or not. -/
lemma does_prepareFile (name : FName) (hi : s.slots[i]? = some none) :
    Does (prepareFile w name) (fun r s' =>
      r = .ok ∧ Opened name s s' ∨ r ≠ .ok ∧ NotOpened s s') s := by
  have hpeak : max s.peak (s.open + 1) ≤ cfg.iDynaFileCacheSize :=
    max_le hvalid.peak_le (s.open_le hvalid hi)
  rw [Does, prepareFile, wp_bind, wp_modify, wp_bind, wp_ask, wp_bind, wp_modify]
  generalize w.prepareFile s.nCalls = p
  have hquiet : Quiet { s with pStrm := none, nCalls := s.nCalls + 1 }
    (note { s with pStrm := none, nCalls := s.nCalls + 1 } (.prepareFile name p.iRet)) :=
      quiet_note nofun
  have hvalid₀ : ({ s with pStrm := none, nCalls := s.nCalls + 1 } : Inst cfg).Valid :=
    hvalid.of_eq rfl rfl rfl rfl le_rfl fun _ h => h
  rw [wp_ite]
  refine ⟨fun _ => ?_, fun hnot => .inr ⟨?_, hquiet.valid hvalid₀, rfl, rfl, rfl⟩⟩
  · rw [wp_bind, strmConstruct, wp_bind, wp_get, wp_bind, wp_modify, wp_pure, wp_bind, wp_modify]
    have hopened : Opened name s { (note { s with pStrm := none, nCalls := s.nCalls + 1 }
        (.prepareFile name p.iRet)) with
          strms := s.strms ++ [(name, some ⟨[], Nat.zero_le _, false, false⟩)]
          peak := max s.peak (s.open + 1)
          pStrm := some s.strms.length } := by
      refine ⟨rfl, ?_, rfl, ?_, hpeak, rfl, rfl, hquiet.writes⟩
      · rw [made, map_append]
        rfl
      · rw [made, length_map]
    rw [wp_ite]
    refine ⟨fun _ => .inl ⟨rfl, hopened⟩, fun hne => ?_⟩
    rw [wp_bind]
    exact (hopened.closeFile hvalid).imp fun _ t ht => .inr ⟨hne, ht⟩
  · exact fun hok => hnot (p.constructed_of_ok hok)

/-- What preparing a dynamic file does: with OK, the stream for the name is current. Only files in
slots of `gone` are driven out. -/
structure Prepares (name : FName) (gone : ℕ → Prop) (r : RsRet) (s s' : Inst cfg) : Prop where
  valid : s'.Valid
  current : s'.Current
  strm : r = .ok → ∃ id, s'.pStrm = some id ∧ s'.made[id]? = some (name, true)
  kept : KeepsSlots gone s s'

omit hvalid in
lemma NotOpened.prepares (h : NotOpened s s') (hcurr : s.NoCurrent) {r : RsRet} (hr : r ≠ .ok) :
    Prepares name gone r s s' where
  valid := h.valid
  current := Inst.NoCurrent.current ⟨h.iCurrElt.trans hcurr.1, h.pStrm⟩
  strm hok := absurd hok hr
  kept := .of_eq (by rw [Inst.slots, h.dynCache, Inst.slots])

/-- **A new file.** It is in the slot and current, or nothing is. -/
theorem does_openSlot (name : FName) (hcurr : s.NoCurrent) (he : s.dynCache[i]? = some (some e))
    (hfree : e.Free) (hnew : ∀ (j : ℕ) x, s.slots[j]? = some (some x) → x.1 ≠ name) :
    Does (openSlot w name i) (fun r s' => Prepares name (fun _ => False) r s s') s := by
  have hslot := hvalid.slots_of_pName he hfree.1
  have hlt : i < s.dynCache.length := (List.getElem?_eq_some_iff.mp he).1
  rw [Does, openSlot, wp_bind]
  refine (does_prepareFile w hvalid name hslot).imp fun r t ht => ?_
  rw [wp_ite]
  refine ⟨fun hok => ?_, fun hne => ?_⟩
  · obtain ⟨-, hopened⟩ := ht.resolve_right fun h => h.1 hok
    rw [wp_bind, wp_ask, wp_ite]
    refine ⟨fun _ => ?_, fun _ => ?_⟩
    · have het : t.dynCache[i]? = some (some e) := by rw [hopened.dynCache, he]
      have hset : t.dynCache.modify i (Option.map fun e =>
          { e with pName := some name, pStrm := t.pStrm }) =
          s.dynCache.set i (some { e with pName := some name, pStrm := some s.made.length }) := by
        rw [modify_eq_set het, hopened.dynCache, hopened.pStrm]
        rfl
      rw [wp_bind, wp_modify]
      simp only [hset]
      generalize hu : ({ t with
        nCalls := t.nCalls + 1
        dynCache := s.dynCache.set i
          (some { e with pName := some name, pStrm := some s.made.length })
        iCurrElt := some i } : Inst cfg) = u
      have hudyn : u.dynCache = s.dynCache.set i
          (some { e with pName := some name, pStrm := some s.made.length }) := by rw [← hu]
      have hget := (congrArg (·[i]?) hudyn).trans (getElem?_set_self hlt)
      have huslots : u.slots = s.slots.set i (some (name, s.made.length)) := by
        rw [Inst.slots, hudyn, map_set]
        rfl
      have hustrm : u.pStrm = some s.made.length := by rw [← hu, hopened.pStrm]
      have humade : u.made = s.made ++ [(name, true)] := by rw [← hu, ← hopened.made]; rfl
      have hucurr : u.Current := by
        have helt : u.iCurrElt = some i := by rw [← hu]
        rw [Inst.Current, helt]
        exact ⟨name, _, slots_eq_some_iff.mpr ⟨_, hget, rfl, rfl⟩, hustrm⟩
      have hticks : u.ticks = s.ticks := by rw [← hu, hopened.ticks]
      rw [wp_bind]
      refine does_access hget ⟨?_, hucurr.accessed hget, fun _ => ⟨_, hustrm, ?_⟩, ?_⟩
      · refine hvalid.stamped hlt ((congrArg (List.set · i _) hudyn).trans (set_set ..)) rfl rfl
          (congrArg (fun n => UInt64.ofNat (n + 1)) hticks) ?_ ?_ ?_ ?_ ?_ ?_
        · rw [u.slots_accessed name hget, huslots]
          exact humade ▸ hvalid.owned.open hslot hnew
        · exact fun _ _ up h => ⟨up, humade ▸ getElem?_made_append h⟩
        · rw [← hu]
          exact hopened.peak_le
        · rw [← hticks, ← hopened.uses, ← hu]
          rfl
        · exact congrArg (· + 1) hticks
        · rw [← hu]
          exact hopened.writes
      · rw [show (u.accessed i _ name).made = u.made from rfl, humade, getElem?_concat_length]
      · refine fun j x hx => .inl ?_
        have hij : i ≠ j := by
          rintro rfl
          rw [hslot] at hx
          cases hx
        rw [u.slots_accessed name hget, huslots, getElem?_set_ne hij, hx]
    · rw [wp_bind, wp_modify, wp_bind]
      have hopened' : Opened name s (note { t with nCalls := t.nCalls + 1 } (.noMemory name)) :=
        { hopened with writes := fun x hx =>
            hopened.writes x ((mem_writes_note hx).resolve_right nofun) }
      exact (hopened'.closeFile hvalid).imp fun _ t' ht' => ht'.prepares hcurr nofun
  · exact (ht.resolve_left fun h => hne h.1).2.prepares hcurr hne

/-! ## A dynamic file -/

/-- The search of a file that is missing picks the entry at `old`. -/
def Inst.Picks (s : Inst cfg) (name : FName) (old : ℕ) : Prop :=
  ∃ place, Missing name s.dynCache 0 none 0 (UInt64.ofNat (s.ticks + 1)) place old

/-- The cache is full, and the search has picked the entry. -/
def Inst.Evicts (s : Inst cfg) (name : FName) (i : ℕ) : Prop := s.Full ∧ s.Picks name i

/-- A file that is missing drives out the oldest, if at all. -/
lemma does_addSlot (helt : s.iCurrElt = none)
    (hmiss : Missing name s.dynCache 0 none 0 ct place old) :
    Does (addSlot w name place old)
      (fun r s' => Prepares name (fun i => s.Full ∧ i = old) r s s') s := by
  have hvalid₀ : ({ s with pStrm := none } : Inst cfg).Valid :=
    hvalid.of_eq rfl rfl rfl rfl le_rfl fun _ h => h
  rw [Does, addSlot, wp_bind, wp_modify, wp_bind]
  refine (does_freeSlot w hvalid₀ ⟨helt, rfl⟩ hmiss).imp fun slot t ht => ?_
  obtain ⟨htvalid, htcurr, hkept, hold, hentry⟩ := ht
  cases slot with
  | some i =>
    obtain ⟨e, he, hfree⟩ := hentry i rfl
    have hnew (j : ℕ) (x : FName × StrmId) (hx : t.slots[j]? = some (some x)) : x.1 ≠ name := by
      obtain ⟨e', he', hname, -⟩ := slots_eq_some_iff.mp ((hold j x hx).resolve_right id)
      rintro rfl
      exact hmiss.new e' (mem_of_getElem? he') hname
    refine (does_openSlot w htvalid name htcurr he hfree hnew).imp fun r s' h =>
      { h with kept := ?_ }
    exact fun j x hx => (hkept j x hx).imp_left fun hx' => (h.kept j x hx').resolve_right id
  | none =>
    have hquiet : Quiet t (t.note (.noMemory name)) := quiet_note nofun
    exact ⟨hquiet.valid htvalid, hquiet.current htcurr.current, nofun, hkept⟩

lemma does_useSlot (he : s.dynCache[i]? = some (some e)) (hname : e.pName = some name) :
    Does (useSlot name i) (fun r s' => Prepares name gone r s s') s := by
  obtain ⟨id, hid, hslot⟩ := slots_of_named hvalid.whole he hname
  rw [Does, useSlot, wp_bind, wp_modify, wp_bind]
  have hstrm : (s.dynCache[i]?.join).bind Entry.pStrm = some id := by
    rw [he]
    exact hid
  simp only [hstrm]
  generalize hu : ({ s with pStrm := some id, iCurrElt := some i } : Inst cfg) = u
  have huvalid : u.Valid := by
    rw [← hu]
    exact hvalid.of_eq rfl rfl rfl rfl le_rfl fun _ h => h
  have hucurr : u.Current := by
    rw [← hu]
    exact ⟨name, id, hslot, rfl⟩
  have hue : u.dynCache[i]? = some (some e) := by rw [← hu, he]
  refine does_access hue ⟨huvalid.accessed hue hname, hucurr.accessed hue, fun _ => ?_, .of_eq ?_⟩
  · refine ⟨id, by rw [← hu]; rfl, ?_⟩
    rw [← hu]
    exact hvalid.owned.made_of_slot hslot
  · rw [u.slots_accessed name hue, ← hu]
    rfl

/-- **Changing the file**, found or not. -/
lemma does_changeFile (name : FName) :
    Does (changeFile w name) (fun r s' => Prepares name (s.Evicts name) r s s') s := by
  rw [Does, changeFile, wp_bind, wp_modify, wp_bind, wp_getClockFileAccess, wp_bind, wp_get]
  have hvalid₁ : ({ s with iCurrElt := none, ticks := s.ticks + 1 } : Inst cfg).Valid :=
    hvalid.of_eq rfl rfl rfl rfl (Nat.le_succ _) fun _ h => h
  cases hsearch : search name s.dynCache 0 none 0 (UInt64.ofNat (s.ticks + 1)) with
  | found i =>
    obtain ⟨k, e, hik, he, hname⟩ := search_found hsearch
    rw [Nat.zero_add] at hik
    subst hik
    exact (does_useSlot hvalid₁ he hname).imp fun r s' h => { h with }
  | missing place old =>
    have hmiss := search_missing hsearch
    refine (does_addSlot w hvalid₁ rfl hmiss).imp fun r s' h => { h with kept := ?_ }
    rintro j x hx
    refine (h.kept j x hx).imp_right ?_
    rintro ⟨hfull, rfl⟩
    exact ⟨hfull, place, hmiss⟩

lemma does_prepareDynFile (name : FName) (hcurr : s.Current) :
    Does (prepareDynFile w name) (fun r s' => Prepares name (s.Evicts name) r s s') s := by
  rw [Does, prepareDynFile, wp_bind]
  refine (does_isCurrent name hcurr).imp fun current t ht => ?_
  obtain ⟨rfl, hcurrent⟩ := ht
  rw [wp_ite]
  refine ⟨fun htrue => ?_, fun _ => ?_⟩
  · obtain ⟨i, id, helt, hslot, hstrm⟩ := hcurrent htrue
    obtain ⟨e, he, hname, -⟩ := slots_eq_some_iff.mp hslot
    rw [wp_bind, wp_get, wp_bind, helt, getD_some]
    exact does_access he ⟨hvalid.accessed he hname, hcurr.accessed he,
      fun _ => ⟨id, hstrm, hvalid.owned.made_of_slot hslot⟩, .of_eq (t.slots_accessed name he)⟩
  · rw [wp_bind]
    refine (does_flushOld w hvalid hcurr).imp fun r u hquiet => ?_
    have huvalid := hquiet.valid hvalid
    have hsame : u.slots = t.slots := hquiet.slots
    rw [wp_ite]
    refine ⟨fun _ => ?_, fun hne => ⟨huvalid, hquiet.current hcurr, fun hok => absurd hok hne,
      .of_eq hsame⟩⟩
    refine (does_changeFile w huvalid name).imp fun r s' h => { h with kept := ?_ }
    intro j x hx
    refine (h.kept j x (by rw [hsame, hx])).imp_right fun hgone => ?_
    unfold Inst.Evicts Inst.Full Inst.Picks at hgone ⊢
    rwa [hquiet.dynCache, hquiet.ticks] at hgone

lemma does_doWrite (text : Bytes) (hid : s.pStrm = some id)
    (hmade : s.made[id]? = some (name, true)) :
    Does (doWrite w name text) (fun _ s' => s'.Valid ∧ (s.Current → s'.Current) ∧
      s'.slots = s.slots) s := by
  rw [Does, doWrite, wp_bind, wp_get, hid]
  simp only [wp_bind, wp_modify]
  refine (does_onStrm hmade).imp fun r t hquiet => ?_
  have ht := hquiet.valid hvalid
  refine ⟨{ ht with writes := fun n i hmem => ?_ }, fun hcurr => hquiet.current hcurr,
    hquiet.slots⟩
  obtain hmem | ⟨r', heq⟩ := mem_writes_note hmem
  · exact ht.writes n i hmem
  · cases heq
    exact ⟨true, by rw [show (t.note _).made = t.made from rfl, hquiet.made, hmade]⟩

/-- **A message.** -/
theorem does_writeFile (hdyn : cfg.bDynamicName = true) (m : Msg) (hcurr : s.Current) :
    Does (writeFile w m) (fun _ s' => s'.Valid ∧ s'.Current ∧
      KeepsSlots (s.Evicts m.fname) s s') s := by
  rw [Does, writeFile, wp_bind, wp_modify, if_pos hdyn, wp_bind]
  have hquiet : Quiet s { s with calls := [] :: s.calls } :=
    ⟨rfl, rfl, rfl, rfl, rfl, rfl, rfl, fun _ h => h⟩
  refine (does_prepareDynFile w (hquiet.valid hvalid) m.fname (hquiet.current hcurr)).imp
    fun r t h => ?_
  rw [wp_ite]
  refine ⟨fun hok => ?_, fun _ => ⟨h.valid, h.current, h.kept⟩⟩
  obtain ⟨id, hid, hmade⟩ := h.strm hok
  refine (does_doWrite w h.valid m.text hid hmade).imp fun _ s' h' => ⟨h'.1, h'.2.1 h.current, ?_⟩
  rw [KeepsSlots, h'.2.2]
  exact h.kept

end Valid

end Rsyslog.Omfile
