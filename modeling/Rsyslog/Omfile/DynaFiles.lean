import Rsyslog.Omfile.Cache

/-!
# Dynamic files over whole runs

Messages, ends of transactions, janitor runs and HUPs come in any order, and other instances use the
same counter. `dynaFiles_correct` says what holds after any of them, and
`wrapped_counter_evicts_newest` what happens when the counter has wrapped around.
-/

namespace Rsyslog.Omfile

open Lib List
open Rsyslog.Action (RsRet)

variable {cfg : Config} {s s' : Inst cfg}

/-! ## Janitor and HUP -/

section

variable (hvalid : s.Valid)

include hvalid

lemma Inst.Valid.setInactive {i : ℕ} {e : Entry} (nInactive : Int16)
    (he : s.dynCache[i]? = some (some e)) (t : Inst cfg)
    (ht : t = { s with dynCache := s.dynCache.set i (some { e with nInactive := nInactive }) }) :
    t.Valid ∧ t.slots = s.slots := by
  have hslots : t.slots = s.slots := by
    subst ht
    have hslot : s.slots[i]? = some e.owner := by
      rw [s.getElem?_slots, he]
      rfl
    rw [Inst.slots, map_set]
    exact set_eq_self hslot
  subst ht
  -- what holds of the old entries holds of the new one, which has the same name, stream and stamp
  have hentry {P : Entry → Prop} (hP : ∀ e, some e ∈ s.dynCache → P e)
      (hnew : P e → P { e with nInactive := nInactive }) (e' : Entry)
      (he' : some e' ∈ s.dynCache.set i (some { e with nInactive := nInactive })) : P e' := by
    obtain he' | heq := mem_or_eq_of_mem_set he'
    · exact hP e' he'
    · cases heq
      exact hnew (hP e (mem_of_getElem? he))
  refine ⟨⟨?_, hentry hvalid.whole id, ?_, hvalid.peak_le, hvalid.writes, fun e' name he' => ?_,
    hvalid.recent, hvalid.order⟩, hslots⟩
  · rw [hslots]
    exact hvalid.owned
  · rw [length_set]
    exact hvalid.length_le
  · exact hentry (fun e he => hvalid.stamp e name he) id e' he'

lemma does_janitorChkEntry {i : ℕ} (hcurr : s.Current) (hi : i < s.dynCache.length) :
    Does (janitorChkEntry i) (fun _ s' => s'.Valid ∧ s'.Current ∧
      s'.dynCache.length = s.dynCache.length) s := by
  rw [Does, janitorChkEntry, wp_bind, wp_get]
  obtain ⟨x, hx⟩ : ∃ x, s.dynCache[i]? = some x := ⟨_, getElem?_eq_getElem hi⟩
  rw [hx]
  cases x with
  | none => exact ⟨hvalid, hcurr, rfl⟩
  | some e =>
    simp only [wp_ite, wp_bind, wp_modify]
    refine ⟨fun _ => ?_, fun _ => ?_⟩
    · refine (does_dynaFileDelCacheEntry true hvalid hi).imp fun _ t ht => ?_
      have htcurr := ht.1.current hcurr
      -- the current element is another one already
      have hne : t.iCurrElt ≠ some i := by
        intro helt
        rw [Inst.Current, helt] at htcurr
        obtain ⟨name, id, hslot, -⟩ := htcurr
        rw [ht.1.slots, getElem?_set, if_pos rfl] at hslot
        split at hslot <;> cases hslot
      rw [if_neg hne]
      exact ⟨ht.1.valid, htcurr, ht.1.length⟩
    · obtain ⟨hvalid', hslots⟩ := hvalid.setInactive _ hx _ rfl
      refine ⟨hvalid', hcurr.of_slots rfl rfl fun j y _ hy => ?_, length_set ..⟩
      rw [hslots, hy]

lemma does_janitorChkEntries (is : List ℕ) (hcurr : s.Current)
    (his : ∀ i ∈ is, i < s.dynCache.length) :
    Does (janitorChkEntries is) (fun _ s' => s'.Valid ∧ s'.Current) s := by
  induction is generalizing s with
  | nil => exact ⟨hvalid, hcurr⟩
  | cons i is ih =>
    rw [Does, janitorChkEntries, wp_bind]
    refine (does_janitorChkEntry hvalid hcurr (his i mem_cons_self)).imp fun _ t ht => ?_
    obtain ⟨htvalid, htcurr, hlen⟩ := ht
    refine ih htvalid htcurr fun j hj => ?_
    rw [hlen]
    exact his j (mem_cons_of_mem _ hj)

lemma does_delCacheEntries (is : List ℕ) (his : ∀ i ∈ is, i < s.dynCache.length) :
    Does (delCacheEntries is) (fun _ s' => s'.Valid) s := by
  induction is generalizing s with
  | nil => exact hvalid
  | cons i is ih =>
    rw [Does, delCacheEntries, wp_bind]
    refine (does_dynaFileDelCacheEntry true hvalid (his i mem_cons_self)).imp fun _ t ht => ?_
    refine ih ht.1.valid fun j hj => ?_
    rw [ht.1.length]
    exact his j (mem_cons_of_mem _ hj)

lemma does_dynaFileFreeCacheEntries :
    Does dynaFileFreeCacheEntries (fun _ s' => s'.Valid ∧ s'.Current) s := by
  rw [Does, dynaFileFreeCacheEntries, wp_bind, wp_get, wp_bind]
  refine (does_delCacheEntries hvalid _ fun i hi => mem_range.mp hi).imp fun _ t ht => ?_
  exact ⟨ht.of_eq rfl rfl rfl rfl le_rfl fun _ h => h, Inst.NoCurrent.current ⟨rfl, rfl⟩⟩

/-! ## Runs -/

inductive Event
  | message (m : Msg)
  | endTransaction
  | janitor
  | hup
  /-- Another instance uses the counter. -/
  | otherAccess

def step (w : World) : Event → InstM cfg Unit
  | .message m => do
    let _ ← writeFile w m
  | .endTransaction => do
    let _ ← flushOnTXEnd w
  | .janitor => janitorCB
  | .hup => doHUP
  | .otherAccess => modify fun s => { s with ticks := s.ticks + 1 }

def runEvents (w : World) : List Event → InstM cfg Unit
  | [] => pure ()
  | e :: es => do
    step w e
    runEvents w es

variable (w : World) (hcurr : s.Current)

include hcurr

lemma does_flushOnTXEnd : Does (flushOnTXEnd w) (fun _ s' => Quiet s s') s := by
  rw [Does, flushOnTXEnd, wp_bind, wp_get]
  cases hid : s.pStrm with
  | none => exact .refl s
  | some id =>
    obtain ⟨-, name, -, -, hmade⟩ := hcurr.made hvalid hid
    simp only [wp_ite]
    exact ⟨fun _ => does_onStrm hmade, fun _ => .refl s⟩

/-- **A step.** -/
theorem does_step (hdyn : cfg.bDynamicName = true) (e : Event) :
    Does (step w e) (fun _ s' => s'.Valid ∧ s'.Current) s := by
  cases e with
  | message m =>
    rw [Does, step, wp_bind]
    exact (does_writeFile w hvalid hdyn m hcurr).imp fun _ t ht => ⟨ht.1, ht.2.1⟩
  | endTransaction =>
    rw [Does, step, wp_bind]
    exact (does_flushOnTXEnd hvalid w hcurr).imp fun _ t ht => ⟨ht.valid hvalid, ht.current hcurr⟩
  | janitor =>
    rw [Does, step, janitorCB, if_pos hdyn, janitorChkDynaFiles, wp_bind]
    exact does_janitorChkEntries hvalid _ hcurr fun i hi => mem_range.mp hi
  | hup =>
    rw [Does, step, doHUP, wp_bind, wp_get, if_pos hdyn]
    exact does_dynaFileFreeCacheEntries hvalid
  | otherAccess =>
    exact ⟨hvalid.of_eq rfl rfl rfl rfl (Nat.le_succ _) fun _ h => h, hcurr⟩

/-- **A run.** -/
theorem does_runEvents (hdyn : cfg.bDynamicName = true) (es : List Event) :
    Does (runEvents w es) (fun _ s' => s'.Valid ∧ s'.Current) s := by
  induction es generalizing s with
  | nil => exact ⟨hvalid, hcurr⟩
  | cons e es ih =>
    rw [Does, runEvents, wp_bind]
    exact (does_step hvalid w hcurr hdyn e).imp fun _ t ht => ih ht.1 ht.2

end

/-! ## The least recently used file -/

def Inst.Caches (s : Inst cfg) (name : FName) : Prop :=
  ∃ e, some e ∈ s.dynCache ∧ e.pName = some name

/-- The counter has not wrapped around since the files in the cache were last used. -/
def Inst.Unwrapped (s : Inst cfg) : Prop :=
  ∀ name t, s.Caches name → s.lastUse name = some t → t / 2 ^ 64 = (s.ticks + 1) / 2 ^ 64

def Inst.LeastRecent (s : Inst cfg) (name : FName) : Prop :=
  ∀ other, s.Caches other → other ≠ name →
    ∃ t t', s.lastUse name = some t ∧ s.lastUse other = some t' ∧ t < t'

lemma mem_uses_of_lastUse {name : FName} {t : ℕ} (h : s.lastUse name = some t) :
    (name, t) ∈ s.uses := by
  obtain ⟨l₁, l₂, huses, -⟩ := lookup_eq_some_iff.mp h
  rw [huses]
  simp

lemma Inst.Valid.eq_of_lastUse (hvalid : s.Valid) {a b : FName} {t : ℕ}
    (ha : s.lastUse a = some t) (hb : s.lastUse b = some t) : a = b := by
  have hnodup : (s.uses.map Prod.snd).Nodup :=
    pairwise_map.mpr (hvalid.order.imp fun h => Nat.ne_of_gt h)
  have heq := inj_on_of_nodup_map hnodup (mem_uses_of_lastUse ha) (mem_uses_of_lastUse hb) rfl
  exact (Prod.mk.inj heq).1

lemma ofNat_le_ofNat_iff {a b : ℕ} (h : a / 2 ^ 64 = b / 2 ^ 64) :
    UInt64.ofNat a ≤ UInt64.ofNat b ↔ a ≤ b := by
  rw [UInt64.le_iff_toNat_le, UInt64.toNat_ofNat', UInt64.toNat_ofNat']
  omega

/-- **The file that is driven out.** -/
theorem Inst.Picks.leastRecent (hvalid : s.Valid) (hunwrapped : s.Unwrapped) {new name : FName}
    {i : ℕ} {e : Entry} (hpicks : s.Picks new i) (he : s.dynCache[i]? = some (some e))
    (hname : e.pName = some name) : s.LeastRecent name := by
  obtain ⟨place, hmiss⟩ := hpicks
  intro other ⟨e', he', hother⟩ hne
  have hcaches : s.Caches name := ⟨e, mem_of_getElem? he, hname⟩
  obtain ⟨t, ht, hclk⟩ := hvalid.stamp e name (mem_of_getElem? he) hname
  obtain ⟨t', ht', hclk'⟩ := hvalid.stamp e' other he' hother
  have hround := hunwrapped name t hcaches ht
  have hround' := hunwrapped other t' ⟨e', he', hother⟩ ht'
  have hle : t ≤ s.ticks := hvalid.recent _ (mem_uses_of_lastUse ht)
  refine ⟨t, t', ht, ht', lt_of_le_of_ne ?_ fun heq => ?_⟩
  · obtain ⟨-, hnever⟩ | ⟨k, e'', rfl, he'', -, -, hmin⟩ := hmiss.oldest
    · have hge := hnever e (mem_of_getElem? he) (by rw [hname]; rfl)
      rw [hclk, ofNat_le_ofNat_iff hround.symm] at hge
      omega
    · rw [Nat.zero_add, he''] at he
      cases he
      have hlast := hmin e' he' (by rw [hother]; rfl)
      rwa [hclk, hclk', ofNat_le_ofNat_iff (hround.trans hround'.symm)] at hlast
  · subst heq
    exact hne (hvalid.eq_of_lastUse ht' ht)

lemma Inst.Valid.existsUnique_entry (hvalid : s.Valid) {id : StrmId} {name : FName}
    (h : s.made[id]? = some (name, true)) :
    ∃! i : ℕ, ∃ e, s.dynCache[i]? = some (some e) ∧ e.pStrm = some id := by
  obtain ⟨i, hi⟩ := (hvalid.owned.owner name id).mp h
  obtain ⟨e, he, hname, hstrm⟩ := Inst.slots_eq_some_iff.mp hi
  refine ⟨i, ⟨e, he, hstrm⟩, ?_⟩
  rintro j ⟨e', he', hstrm'⟩
  obtain ⟨name', hname'⟩ := Option.isSome_iff_exists.mp
    ((hvalid.whole e' (mem_of_getElem? he')).trans (by rw [hstrm']; rfl))
  have hj := Inst.slots_eq_some_iff.mpr ⟨e', he', hname', hstrm'⟩
  exact hvalid.owned.once j i _ _ hj hi (.inr rfl)

lemma does_writeFile_caches (w : World) (hdyn : cfg.bDynamicName = true) (m : Msg)
    (hvalid : s.Valid) (hcurr : s.Current) :
    Does (writeFile w m) (fun _ s' => ∀ name, s.Caches name → ¬s'.Caches name →
      s.Full ∧ ¬s.Caches m.fname ∧ (s.Unwrapped → s.LeastRecent name)) s := by
  refine (does_writeFile w hvalid hdyn m hcurr).imp fun _ s' h name hcaches hgone => ?_
  obtain ⟨e, he, hname⟩ := hcaches
  obtain ⟨i, hi⟩ := getElem?_of_mem he
  obtain ⟨id, -, hslot⟩ := Inst.slots_of_named hvalid.whole hi hname
  obtain hkept | ⟨hfull, hpicks⟩ := h.2.2 i _ hslot
  · obtain ⟨e', he', hname', -⟩ := Inst.slots_eq_some_iff.mp hkept
    exact absurd ⟨e', mem_of_getElem? he', hname'⟩ hgone
  · refine ⟨hfull, ?_, fun hunwrapped => hpicks.leastRecent hvalid hunwrapped hi hname⟩
    rintro ⟨e', he', hname'⟩
    obtain ⟨place, hmiss⟩ := hpicks
    exact hmiss.new e' he' hname'

structure Inst.Correct (w : World) (s : Inst cfg) : Prop where
  /-- A message that was written went to a stream that was opened for its name. -/
  written : ∀ name id, (name, id) ∈ s.writes → ∃ up, s.made[id]? = some (name, up)
  /-- The streams that were open at any time. -/
  peak_le : s.peak ≤ cfg.iDynaFileCacheSize
  /-- A stream that is open is in one entry. -/
  owner : ∀ (id : StrmId) name, s.made[id]? = some (name, true) →
    ∃! i : ℕ, ∃ e, s.dynCache[i]? = some (some e) ∧ e.pStrm = some id
  /-- A file that the next message drives out. -/
  evicted : ∀ m, Does (writeFile w m) (fun _ s' => ∀ name, s.Caches name → ¬s'.Caches name →
    s.Full ∧ ¬s.Caches m.fname ∧ (s.Unwrapped → s.LeastRecent name)) s

/-- **Dynamic files.** Nothing undefined happens, and after any run each message that was written
went to a stream opened for its name, no more streams were ever open than the cache may have, and
each open stream is in exactly one entry. A file is driven out only of a full cache that does not
have the file of the message, and is the one used least recently unless the counter has wrapped
around. -/
theorem dynaFiles_correct (w : World) (hdyn : cfg.bDynamicName = true) (ticks : ℕ)
    (es : List Event) :
    ∃ s, runEvents w es (Inst.new cfg ticks) = .ok () s ∧ s.Correct w := by
  obtain ⟨_, s, hrun, hvalid, hcurr⟩ :=
    Wp.returns (does_runEvents (Inst.valid_new ticks) w rfl hdyn es)
  exact ⟨s, hrun, hvalid.writes, hvalid.peak_le, fun id name h => hvalid.existsUnique_entry h,
    fun m => does_writeFile_caches w hdyn m hvalid hcurr⟩

def twoFiles : Config where
  bDynamicName := true
  isDevNull := false
  fname := []
  iDynaFileCacheSize := 2
  iDynaFileCacheSize_pos := by decide
  bFlushOnTXEnd := true
  bHangTest := false
  bDynafileDoNotSuspend := true
  iCloseTimeout := 10
  janitorInterval := 5
  sIOBufSize := 4096
  sIOBufSize_pos := by decide
  bSizeLimit := false

def goodWorld : World where
  physWrite _ := (.ok, true)
  sizeLimit _ := (.ok, false)
  prepareFile _ := ⟨true, .ok, fun _ => rfl⟩
  alloc _ := true

def message (c : UInt8) : Event := .message ⟨[c], [c, 10]⟩

def threeFiles : List Event :=
  [message 97, message 98, .janitor, message 99, .endTransaction, .hup]

theorem dynaFiles_correct_threeFiles :
    ∃ s, runEvents goodWorld threeFiles (Inst.new twoFiles 0) = .ok () s ∧ s.Correct goodWorld :=
  dynaFiles_correct goodWorld (by decide) 0 threeFiles

/-- The counter wraps around when the second file is used, so that a third one drives out the second
and not the first. -/
theorem wrapped_counter_evicts_newest :
    Does (runEvents goodWorld [message 97, message 98]) (fun _ s =>
        s.dynCache.map (Option.bind · Entry.pName) = [some [97], some [98]] ∧
        s.uses = [([98], 2 ^ 64), ([97], 2 ^ 64 - 2)]) (Inst.new twoFiles (2 ^ 64 - 4)) ∧
    Does (runEvents goodWorld [message 97, message 98, message 99]) (fun _ s =>
        s.dynCache.map (Option.bind · Entry.pName) = [some [97], some [99]])
      (Inst.new twoFiles (2 ^ 64 - 4)) := by
  decide +kernel

end Rsyslog.Omfile
