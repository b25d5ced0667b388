import Rsyslog.Omfile.DynaFiles

/-!
# The code of a transaction

`commitTransaction` looks at no code of `writeFile`, and so what it returns depends on the last
flush alone. For `/dev/null` it returns OK before any call.
-/

namespace Rsyslog.Omfile

open Lib List
open Rsyslog.Action (RsRet)

variable {cfg : Config} {s s' : Inst cfg}

/-! ## What became of a message -/

def IsOpenError (r : RsRet) : Prop := r = RS_RET_FILE_OPEN_ERROR ∨ r = RS_RET_FILE_NOT_FOUND
deriving Decidable

def Config.DoNotSuspend (cfg : Config) : Prop :=
  cfg.bDynamicName = true ∧ cfg.bDynafileDoNotSuspend = true

def Accepted (calls : List Call) : Prop := ∃ name id, Call.write name id .ok ∈ calls

/-- The file of the message could not be opened, when it was prepared or when it was written to. -/
def NotOpenable (calls : List Call) : Prop :=
  (∃ name r, Call.prepareFile name r ∈ calls ∧ r ≠ .ok) ∨ (∃ name, Call.noMemory name ∈ calls) ∨
    ∃ name id r, Call.write name id r ∈ calls ∧ IsOpenError r

/-- The call succeeds, or it is about a file that cannot be opened and may be passed over. -/
def Call.Fine (cfg : Config) : Call → Prop
  | .flush _ r => r = .ok
  | .prepareFile _ r => r = .ok ∨ cfg.DoNotSuspend
  | .noMemory _ => cfg.DoNotSuspend
  | .write _ _ r => r = .ok ∨ cfg.DoNotSuspend ∧ IsOpenError r

/-! ## The calls for a message -/

def Call.Succeeds : Call → Prop
  | .flush _ r => r = .ok
  | .prepareFile _ r => r = .ok
  | _ => False

def Call.Fails : Call → Prop
  | .flush _ r => r ≠ .ok
  | .prepareFile _ r => r ≠ .ok
  | .noMemory _ => True
  | .write _ _ _ => False

def Prepare (r : RsRet) (calls : List Call) : Prop :=
  r = .ok ∧ (∀ c ∈ calls, c.Succeeds) ∨
    r ≠ .ok ∧ ∃ front c, calls = front ++ [c] ∧ (∀ d ∈ front, d.Succeeds) ∧ c.Fails

variable {r : RsRet}

lemma Prepare.append {front calls : List Call} (hfront : ∀ c ∈ front, c.Succeeds)
    (h : Prepare r calls) : Prepare r (front ++ calls) := by
  have hboth {more : List Call} (hmore : ∀ c ∈ more, c.Succeeds) :
      ∀ c ∈ front ++ more, c.Succeeds :=
    fun c hc => (mem_append.mp hc).elim (hfront c) (hmore c)
  obtain ⟨hr, hcalls⟩ | ⟨hr, more, c, rfl, hmore, hc⟩ := h
  · exact .inl ⟨hr, hboth hcalls⟩
  · exact .inr ⟨hr, front ++ more, c, (append_assoc ..).symm, hboth hmore, hc⟩

lemma Prepare.nil : Prepare .ok [] := .inl ⟨rfl, by simp⟩

lemma Prepare.singleton {c : Call} (hok : r = .ok → c.Succeeds) (hne : r ≠ .ok → c.Fails) :
    Prepare r [c] := by
  by_cases hr : r = .ok
  · exact .inl ⟨hr, by simpa using hok hr⟩
  · exact .inr ⟨hr, [], c, rfl, by simp, hne hr⟩

/-- The calls for a message: the last one is the write, or a call before it that fails. -/
def Closed (calls : List Call) : Prop :=
  ∃ front c, calls = front ++ [c] ∧ (∀ d ∈ front, d.Succeeds) ∧
    (c.Fails ∨ ∃ name id r, c = .write name id r)

/-- **A message.** It was accepted, or its file could not be opened and may be passed over, if and
only if all of its calls are fine. -/
theorem Closed.fine_iff {calls : List Call} (h : Closed calls) :
    (Accepted calls ∨ cfg.DoNotSuspend ∧ NotOpenable calls) ↔ ∀ c ∈ calls, c.Fine cfg := by
  obtain ⟨front, c, rfl, hfront, hc⟩ := h
  have hfine : ∀ d ∈ front, d.Fine cfg := by
    intro d hd
    have hsucc := hfront d hd
    cases d with
    | flush => exact hsucc
    | prepareFile => exact .inl hsucc
    | noMemory | write => exact hsucc.elim
  have hall : (∀ d ∈ front ++ [c], d.Fine cfg) ↔ c.Fine cfg := by
    constructor
    · exact fun h => h c (by simp)
    · intro hlast d hd
      obtain hd | hd := mem_append.mp hd
      · exact hfine d hd
      · rwa [mem_singleton.mp hd]
  -- what does not succeed must be the last call
  have hlast {d : Call} (hd : ¬d.Succeeds) : d ∈ front ++ [c] ↔ c = d := by
    rw [mem_append, mem_singleton]
    exact ⟨fun h => (h.resolve_left fun h => hd (hfront d h)).symm, fun h => .inr h.symm⟩
  have hwrite (name : FName) (id : StrmId) (r : RsRet) :
      Call.write name id r ∈ front ++ [c] ↔ c = .write name id r := hlast fun h => h
  have hmem (name : FName) : Call.noMemory name ∈ front ++ [c] ↔ c = .noMemory name :=
    hlast fun h => h
  have hopen (name : FName) (r : RsRet) :
      Call.prepareFile name r ∈ front ++ [c] ∧ r ≠ .ok ↔ c = .prepareFile name r ∧ r ≠ .ok :=
    and_congr_left fun hr => hlast hr
  rw [hall]
  simp only [Accepted, NotOpenable, hwrite, hmem, hopen]
  cases c with
  | flush id r | prepareFile name r =>
    have hr : r ≠ .ok := hc.resolve_right nofun
    simp [Call.Fine, hr]
  | noMemory name => simp [Call.Fine]
  | write name id r =>
    simp only [Call.Fine, Call.write.injEq, reduceCtorEq, false_and, exists_false, false_or]
    constructor
    · rintro (⟨_, _, -, -, hr⟩ | ⟨hcfg, _, _, _, ⟨-, -, rfl⟩, herr⟩)
      · exact .inl hr
      · exact .inr ⟨hcfg, herr⟩
    · rintro (rfl | ⟨hcfg, herr⟩)
      · exact .inl ⟨name, id, rfl, rfl, rfl⟩
      · exact .inr ⟨hcfg, name, id, r, ⟨rfl, rfl, rfl⟩, herr⟩

/-! ## What is called -/

variable {α : Type}

abbrev Silent (m : InstM cfg α) : Prop := ∀ calls, Keeps (fun s => s.calls = calls) m

lemma Silent.returns {m : InstM cfg α} (h : Silent m) :
    Returns m (fun _ s' => s'.calls = s.calls) s :=
  (h s.calls s rfl).mono (fun _ _ => id) fun _ _ => trivial

lemma silent_ask (answer : ℕ → α) : Silent (ask answer : InstM cfg α) :=
  fun _ _ hs => hs

lemma silent_modify {g : Inst cfg → Inst cfg} (hg : ∀ s, (g s).calls = s.calls) :
    Silent (modify g : InstM cfg Unit) := fun _ => .modify fun s hs => (hg s).trans hs

lemma silent_onStrm (id : StrmId) (f : StrmM cfg) : Silent (onStrm id f) := by
  intro calls s hs
  rw [onStrm, wp_bind, wp_get]
  split
  · exact hs
  · exact hs

lemma silent_strmDestruct (id : StrmId) : Silent (strmDestruct id : InstM cfg Unit) := by
  intro calls s hs
  rw [strmDestruct, wp_bind, wp_get]
  split
  · exact hs
  · exact hs

lemma silent_strmConstruct (name : FName) : Silent (strmConstruct name : InstM cfg StrmId) :=
  fun _ _ hs => hs

lemma silent_closeFile : Silent (closeFile : InstM cfg Unit) := by
  intro calls
  refine .bind .get fun s => ?_
  split
  · exact .bind (silent_strmDestruct _ calls) fun _ => silent_modify (fun _ => rfl) calls
  · exact .throw ()

variable (i : ℕ) (name : FName)

lemma silent_dropStrm (e : Entry) : Silent (dropStrm i e : InstM cfg Unit) := by
  intro calls
  unfold dropStrm
  split
  · exact .pure ()
  · refine .bind (silent_modify (fun s => ?_) calls) fun _ => silent_strmDestruct _ calls
    split <;> rfl

lemma silent_dynaFileDelCacheEntry (b : Bool) :
    Silent (dynaFileDelCacheEntry i b : InstM cfg Unit) := by
  intro calls
  refine .bind .get fun s => ?_
  split
  · exact .throw ()
  · exact .pure ()
  · exact .bind (silent_dropStrm _ _ calls) fun _ => silent_modify (fun _ => rfl) calls

variable (w : World)

lemma silent_allocEntry (i : ℕ) : Silent (allocEntry w i : InstM cfg Bool) :=
  fun calls => .bind (silent_ask _ calls) fun _ =>
    .bind (silent_modify (fun _ => rfl) calls) fun _ => .pure _

lemma silent_freeSlot (place : Option ℕ) (old : ℕ) :
    Silent (freeSlot w place old : InstM cfg (Option ℕ)) := by
  intro calls
  refine .bind .get fun s => ?_
  split
  · exact .bind (silent_allocEntry w _ calls) fun _ => .pure _
  · refine .ite (fun _ => ?_) fun _ => ?_
    · exact .bind (silent_modify (fun _ => rfl) calls) fun _ =>
        .bind (silent_allocEntry w _ calls) fun _ => .pure _
    · exact .bind (silent_dynaFileDelCacheEntry _ _ calls) fun _ => .pure _

lemma silent_access : Silent (access i name : InstM cfg Unit) :=
  fun _ _ hs => hs

lemma silent_isCurrent : Silent (isCurrent name : InstM cfg Bool) := by
  intro calls
  refine .bind .get fun s => ?_
  split
  · exact .pure _
  · split
    · exact .pure _
    · exact .throw ()

/-- The calls `calls` are added to those for the message at hand. -/
def Adds (calls : List Call) (s s' : Inst cfg) : Prop :=
  ∀ g gs, s.calls = g :: gs → s'.calls = (g ++ calls) :: gs

lemma Adds.of_eq (h : s'.calls = s.calls) : Adds [] s s' := by
  intro g gs hs
  rw [h, hs, append_nil]

lemma Adds.trans {cs ds : List Call} {s'' : Inst cfg} (h : Adds cs s s') (h' : Adds ds s' s'') :
    Adds (cs ++ ds) s s'' := by
  intro g gs hs
  rw [h' _ _ (h _ _ hs), append_assoc]

lemma adds_note (c : Call) : Adds [c] s (s.note c) := by
  intro g gs hs
  rw [Inst.note]
  simp only [hs]

/-- The calls that are added satisfy `P`. -/
abbrev Makes (m : InstM cfg α) (P : α → List Call → Prop) (s : Inst cfg) : Prop :=
  Wp m (fun r s' => ∃ cs, Adds cs s s' ∧ P r cs) (fun _ => True) s

lemma Silent.then {α β : Type} {m : InstM cfg α} (h : Silent m) {f : α → InstM cfg β}
    {P : β → List Call → Prop} (hf : ∀ a t, Makes (f a) P t) : Makes (m >>= f) P s := by
  rw [Makes, wp_bind]
  refine h.returns.imp fun a t ht => ?_
  refine (hf a t).imp fun r s' hr => ?_
  obtain ⟨cs, hadds, hP⟩ := hr
  exact ⟨cs, (Adds.of_eq ht).trans hadds, hP⟩

lemma Silent.pure {β : Type} {P : β → List Call → Prop} {b : β} (h : P b []) :
    Makes (Pure.pure b : InstM cfg β) P s :=
  ⟨[], .of_eq rfl, h⟩

lemma makes_flushOld : Makes (flushOld w) Prepare s := by
  rw [Makes, flushOld, wp_bind, wp_get]
  cases s.pStrm with
  | none => exact Silent.pure .nil
  | some id =>
    rw [wp_ite]
    refine ⟨fun _ => ?_, fun _ => Silent.pure .nil⟩
    refine (silent_onStrm id _).then fun r t => ?_
    exact ⟨_, adds_note _, .singleton (fun h => h) fun h => h⟩

lemma returns_prepareFile (name : FName) :
    Returns (prepareFile w name) (fun r s' => Adds [.prepareFile name r] s s' ∧
      (r = .ok → s'.pStrm.isSome)) s := by
  rw [Returns, prepareFile, wp_bind, wp_modify, wp_bind, wp_ask, wp_bind, wp_modify]
  generalize w.prepareFile s.nCalls = p
  have hadds : Adds [.prepareFile name p.iRet] s
      (Inst.note { s with pStrm := none, nCalls := s.nCalls + 1 } (.prepareFile name p.iRet)) :=
    adds_note _
  rw [wp_ite]
  refine ⟨fun _ => ?_, fun hnot => ⟨hadds, fun hok => absurd (p.constructed_of_ok hok) hnot⟩⟩
  rw [wp_bind]
  refine (silent_strmConstruct name).returns.imp fun id t ht => ?_
  have haddst : Adds [.prepareFile name p.iRet] s t := hadds.trans (.of_eq ht)
  rw [wp_bind, wp_modify, wp_ite]
  refine ⟨fun hok => ⟨hok ▸ haddst, fun _ => rfl⟩, fun hne => ?_⟩
  rw [wp_bind]
  refine silent_closeFile.returns.imp fun _ u hu => ⟨?_, fun hok => absurd hok hne⟩
  exact haddst.trans (.of_eq hu)

lemma prepare_prepareFile (r : RsRet) : Prepare r [.prepareFile name r] :=
  .singleton (fun h => h) fun h => h

lemma makes_openSlot (name : FName) (i : ℕ) : Makes (openSlot w name i) Prepare s := by
  rw [Makes, openSlot, wp_bind]
  refine (returns_prepareFile w name).imp fun r t ht => ?_
  rw [wp_ite]
  refine ⟨fun hok => ?_, fun _ => ⟨_, ht.1, prepare_prepareFile name r⟩⟩
  have hprep := prepare_prepareFile name r
  rw [hok] at hprep
  have hsucc : ∀ c ∈ [Call.prepareFile name .ok], c.Succeeds := by simp [Call.Succeeds]
  have hadds : Adds [.prepareFile name .ok] s t := hok ▸ ht.1
  rw [wp_bind, wp_ask, wp_ite]
  refine ⟨fun _ => ?_, fun _ => ?_⟩
  · rw [wp_bind, wp_modify, wp_bind]
    refine (silent_access i name).returns.imp fun _ u hu => ⟨_, ?_, hprep⟩
    exact hadds.trans (.of_eq hu)
  · rw [wp_bind, wp_modify, wp_bind]
    refine silent_closeFile.returns.imp fun _ u hu =>
      ⟨[.prepareFile name .ok] ++ [.noMemory name], ?_, ?_⟩
    · exact (hadds.trans (adds_note (.noMemory name))).trans (.of_eq hu)
    · exact .append hsucc (.singleton (fun h => by cases h) fun _ => trivial)

lemma makes_addSlot (name : FName) (place : Option ℕ) (old : ℕ) :
    Makes (addSlot w name place old) Prepare s := by
  refine (silent_freeSlot w place old).then fun slot t => ?_
  cases slot with
  | some i => exact makes_openSlot w name i
  | none => exact ⟨_, adds_note (.noMemory name), .singleton (fun h => by cases h) fun _ => trivial⟩

lemma makes_changeFile (name : FName) : Makes (changeFile w name) Prepare s := by
  rw [Makes, changeFile, wp_bind, wp_modify, wp_bind, wp_getClockFileAccess, wp_bind, wp_get]
  cases search name s.dynCache 0 none 0 (UInt64.ofNat (s.ticks + 1)) with
  | found i => exact ⟨[], .of_eq rfl, .nil⟩
  | missing place old => exact makes_addSlot w name place old

lemma makes_prepareDynFile (name : FName) : Makes (prepareDynFile w name) Prepare s := by
  refine (silent_isCurrent name).then fun current t => ?_
  rw [Makes, wp_ite]
  refine ⟨fun _ => ?_, fun _ => ?_⟩
  · exact (silent_access _ name).then fun _ _ => Silent.pure .nil
  · rw [wp_bind]
    refine (makes_flushOld w).imp fun r u hu => ?_
    obtain ⟨cs, hadds, hprep⟩ := hu
    rw [wp_ite]
    refine ⟨fun hok => ?_, fun _ => ⟨cs, hadds, hprep⟩⟩
    refine (makes_changeFile w name).imp fun r' s' h => ?_
    obtain ⟨ds, hadds', hprep'⟩ := h
    obtain ⟨-, hsucc⟩ := hprep.resolve_right fun hne => hne.1 hok
    exact ⟨cs ++ ds, hadds.trans hadds', .append hsucc hprep'⟩

lemma returns_prepareStaticFile :
    Returns (prepareStaticFile w) (fun r s' => (∃ cs, Adds cs s s' ∧ Prepare r cs) ∧
      (r = .ok → s'.pStrm.isSome)) s := by
  rw [Returns, prepareStaticFile, wp_bind, wp_get, wp_ite]
  refine ⟨fun _ => ?_, fun hsome => ⟨⟨[], .of_eq rfl, .nil⟩, fun _ => ?_⟩⟩
  · refine (returns_prepareFile w cfg.fname).imp fun r t ht => ⟨⟨_, ht.1, ?_⟩, ht.2⟩
    exact prepare_prepareFile _ r
  · exact Option.isSome_iff_ne_none.mpr hsome

lemma returns_doWrite (name : FName) (text : Bytes) (hstrm : s.pStrm.isSome) :
    Returns (doWrite w name text) (fun _ s' => ∃ id r, Adds [.write name id r] s s') s := by
  obtain ⟨id, hid⟩ := Option.isSome_iff_exists.mp hstrm
  rw [Returns, doWrite, wp_bind, wp_get, hid]
  simp only [wp_bind, wp_modify]
  refine (silent_onStrm id _).returns.imp fun r t ht => ⟨id, r, ?_⟩
  exact (Adds.of_eq ht).trans (adds_note _)

lemma Prepare.closed {cs : List Call} (h : Prepare r cs) (hne : r ≠ .ok) : Closed cs := by
  obtain ⟨-, front, c, hcs, hfront, hc⟩ := h.resolve_left fun hok => hne hok.1
  exact ⟨front, c, hcs, hfront, .inl hc⟩

lemma Prepare.closed_write {cs : List Call} (h : Prepare .ok cs) (name : FName) (id : StrmId)
    (r : RsRet) : Closed (cs ++ [.write name id r]) := by
  obtain ⟨-, hsucc⟩ := h.resolve_right fun hne => hne.1 rfl
  exact ⟨cs, _, rfl, hsucc, .inr ⟨name, id, r, rfl⟩⟩

/-- **The calls for a message** are a group of their own. -/
theorem returns_writeFile (m : Msg) (hvalid : cfg.bDynamicName = true → s.Valid ∧ s.Current) :
    Returns (writeFile w m) (fun _ s' => ∃ g, Closed g ∧ s'.calls = g :: s.calls) s := by
  have hgroup {t : Inst cfg} {cs : List Call} (h : Adds cs { s with calls := [] :: s.calls } t) :
      t.calls = cs :: s.calls := h [] s.calls rfl
  rw [Returns, writeFile, wp_bind, wp_modify, wp_ite]
  refine ⟨fun hdyn => ?_, fun _ => ?_⟩
  · obtain ⟨hvalid, hcurr⟩ := hvalid hdyn
    have hquiet : Quiet s { s with calls := [] :: s.calls } :=
      ⟨rfl, rfl, rfl, rfl, rfl, rfl, rfl, fun _ h => h⟩
    rw [wp_bind]
    have hdoes := does_prepareDynFile w (hquiet.valid hvalid) m.fname (hquiet.current hcurr)
    have hprep := Wp.and hdoes (makes_prepareDynFile w m.fname)
    refine hprep.mono (fun r t ht => ?_) fun _ h => trivial
    obtain ⟨hprepares, cs, hadds, hcs⟩ := ht
    rw [wp_ite]
    refine ⟨fun hok => ?_, fun hne => ⟨cs, hcs.closed hne, hgroup hadds⟩⟩
    obtain ⟨id, hid, -⟩ := hprepares.strm hok
    refine (returns_doWrite w m.fname m.text (by rw [hid]; rfl)).imp fun _ s' h => ?_
    obtain ⟨id', r', hadds'⟩ := h
    exact ⟨_, (hok ▸ hcs).closed_write m.fname id' r', hgroup (hadds.trans hadds')⟩
  · rw [wp_bind]
    refine (returns_prepareStaticFile w).imp fun r t ht => ?_
    obtain ⟨⟨cs, hadds, hcs⟩, hstrm⟩ := ht
    rw [wp_ite]
    refine ⟨fun hok => ?_, fun hne => ⟨cs, hcs.closed hne, hgroup hadds⟩⟩
    have hsome : ({ t with nInactive := 0 } : Inst cfg).pStrm.isSome := hstrm hok
    refine (returns_doWrite w cfg.fname m.text hsome).imp fun _ s' h => ?_
    obtain ⟨id', r', hadds'⟩ := h
    exact ⟨_, (hok ▸ hcs).closed_write cfg.fname id' r', hgroup (hadds.trans hadds')⟩

/-- **The loop.** There is a group of calls for each message. -/
theorem returns_writeFiles (msgs : List Msg)
    (hvalid : cfg.bDynamicName = true → s.Valid ∧ s.Current) :
    Returns (writeFiles w msgs) (fun _ s' => ∃ groups : List (List Call),
      groups.length = msgs.length ∧ (∀ g ∈ groups, Closed g) ∧ s'.calls = groups ++ s.calls) s := by
  induction msgs generalizing s with
  | nil => exact ⟨[], rfl, by simp, rfl⟩
  | cons m msgs ih =>
    rw [Returns, writeFiles, wp_bind]
    have hkept : Wp (writeFile w m) (fun _ t => cfg.bDynamicName = true → t.Valid ∧ t.Current)
        (fun _ => True) s := by
      by_cases hdyn : cfg.bDynamicName = true
      · obtain ⟨hv, hc⟩ := hvalid hdyn
        refine Wp.mono (does_writeFile w hv hdyn m hc) (fun _ t ht _ => ⟨ht.1, ht.2.1⟩) ?_
        exact fun _ h => h.elim
      · refine (returns_writeFile w m hvalid).imp fun _ t _ h => absurd h hdyn
    refine (Wp.and (returns_writeFile w m hvalid) hkept).mono (fun _ t ht => ?_) fun _ _ => trivial
    obtain ⟨⟨g, hg, hcalls⟩, htvalid⟩ := ht
    refine (ih htvalid).imp fun _ s' h => ?_
    obtain ⟨groups, hlen, hclosed, hcalls'⟩ := h
    refine ⟨groups ++ [g], by simp [hlen], fun g' hg' => ?_, ?_⟩
    · obtain hg' | hg' := mem_append.mp hg'
      · exact hclosed g' hg'
      · rwa [mem_singleton.mp hg']
    · rw [hcalls', hcalls, append_assoc]
      rfl

/-! ## The transaction -/

theorem silent_flushOnTXEnd : Silent (flushOnTXEnd w : InstM cfg RsRet) := by
  intro calls
  refine .bind .get fun s => ?_
  split
  · exact .pure _
  · exact .ite (fun _ => silent_onStrm _ _ calls) fun _ => .pure _

def FlushFails (w : World) (msgs : List Msg) (s : Inst cfg) : Prop :=
  ∃ s₁ r s₂, writeFiles w msgs s = .ok () s₁ ∧ flushOnTXEnd w s₁ = .ok r s₂ ∧ finalRet cfg r ≠ .ok

/-- What became of each message of a transaction from `s` to `s'`: its stream accepted it, or it has
a dynamic file that could not be opened and may be passed over. -/
def Served (msgs : List Msg) (s s' : Inst cfg) : Prop :=
  ∃ groups, s'.calls = groups ++ s.calls ∧ groups.length = msgs.length ∧
    ∀ calls ∈ groups, Accepted calls ∨ cfg.DoNotSuspend ∧ NotOpenable calls

def twoMessages : List Msg := [⟨[97], [97, 10]⟩, ⟨[98], [98, 10]⟩]

/-- The first buffer that is written, after three other calls, belongs to a file that cannot be
opened. -/
def badFile : World := { goodWorld with
  physWrite := fun k => if k = 3 then (RS_RET_FILE_OPEN_ERROR, false) else (.ok, true) }

end Rsyslog.Omfile
