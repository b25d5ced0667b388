import Mathlib.Data.Nat.Notation
import Rsyslog.Action.Engine

/-!
# omfile

Writing to files as `tools/omfile.c` does it, without signatures and without a background writer:
the cache of streams for files with dynamic names, the loop over the messages of a transaction, the
janitor and HUP. Below it, `strmWrite` and `strmFlush` of `runtime/stream.c` with their buffer.

What the world answers is a function of the number of the call.

`uses`, `calls` and `peak` are history, and no function reads them. A stream is known by its number;
what is undefined in the source, such as using a stream that was destructed, cuts the run short.
-/

namespace Rsyslog.Omfile

open Lib
open Rsyslog.Action (RsRet)

def RS_RET_OUT_OF_MEMORY : RsRet := .err (-6)
def RS_RET_FILE_NOT_FOUND : RsRet := .err (-2040)
def RS_RET_STREAM_DISABLED : RsRet := .err (-2127)
def RS_RET_FILE_OPEN_ERROR : RsRet := .err (-2433)

/-! ## Data -/

abbrev FName := Bytes

abbrev StrmId := ℕ

/-- The settings that are read. `bHangTest` is the development option that turns off the flush
before a change of files. -/
structure Config where
  bDynamicName : Bool
  isDevNull : Bool
  fname : FName
  iDynaFileCacheSize : ℕ
  iDynaFileCacheSize_pos : 0 < iDynaFileCacheSize
  bFlushOnTXEnd : Bool
  bHangTest : Bool
  bDynafileDoNotSuspend : Bool
  iCloseTimeout : Int16
  janitorInterval : ℤ
  sIOBufSize : ℕ
  sIOBufSize_pos : 0 < sIOBufSize
  bSizeLimit : Bool

/-- What came of preparing a file: it succeeds only with a stream, but a stream may also be there
when it fails. -/
structure Prepared where
  constructed : Bool
  iRet : RsRet
  constructed_of_ok : iRet = .ok → constructed = true

/-- The answers of the world. A buffer that is written comes with whether the file is open
afterwards, the size limit with whether the stream is disabled. -/
structure World where
  physWrite : ℕ → RsRet × Bool
  sizeLimit : ℕ → RsRet × Bool
  prepareFile : ℕ → Prepared
  alloc : ℕ → Bool

/-- `strm_t`: the octets in the buffer, whether the file is open, and whether a size limit has ended
it. -/
structure Strm (cfg : Config) where
  pIOBuf : Bytes
  fits : pIOBuf.length ≤ cfg.sIOBufSize
  fd : Bool
  bDisabled : Bool

structure Entry where
  pName : Option FName
  pStrm : Option StrmId
  clkTickAccessed : UInt64
  nInactive : Int16

inductive Call
  | flush (id : StrmId) (iRet : RsRet)
  | prepareFile (name : FName) (iRet : RsRet)
  | noMemory (name : FName)
  | write (name : FName) (id : StrmId) (iRet : RsRet)
  deriving DecidableEq

/-- `instanceData` with the streams, each with the name it was opened for. The counter that all
instances share has been increased `ticks` times. -/
structure Inst (cfg : Config) where
  dynCache : List (Option Entry)
  iCurrElt : Option ℕ
  pStrm : Option StrmId
  nInactive : Int16
  strms : List (FName × Option (Strm cfg))
  ticks : ℕ
  nCalls : ℕ
  uses : List (FName × ℕ)
  calls : List (List Call)
  peak : ℕ

def Inst.new (cfg : Config) (ticks : ℕ) : Inst cfg where
  dynCache := []
  iCurrElt := none
  pStrm := none
  nInactive := 0
  strms := []
  ticks := ticks
  nCalls := 0
  uses := []
  calls := []
  peak := 0

variable {cfg : Config}

def Inst.open (s : Inst cfg) : ℕ := s.strms.countP fun p => p.2.isSome

abbrev InstM (cfg : Config) := EStateM Unit (Inst cfg)

/-! ## Streams -/

section

variable (w : World)

/-- A function of a stream, which is told how many calls were made before. -/
abbrev StrmM (cfg : Config) := Strm cfg → ℕ → RsRet × Strm cfg × ℕ

def strmFlushInternal : StrmM cfg := fun st k =>
  if st.pIOBuf = [] then (.ok, st, k)
  else ((w.physWrite k).1, { st with pIOBuf := [], fits := Nat.zero_le _, fd := (w.physWrite k).2 },
    k + 1)

def strmFlush : StrmM cfg := strmFlushInternal w

def flushFull : StrmM cfg := fun st k =>
  if st.pIOBuf.length = cfg.sIOBufSize then strmFlushInternal w st k else (.ok, st, k)

def Strm.fill (st : Strm cfg) (pBuf : Bytes) : Strm cfg where
  pIOBuf := st.pIOBuf ++ pBuf.take (cfg.sIOBufSize - st.pIOBuf.length)
  fits := by
    have := st.fits
    simp only [List.length_append, List.length_take]
    omega
  fd := st.fd
  bDisabled := st.bDisabled

lemma length_flushFull (st : Strm cfg) (k : ℕ) :
    (flushFull w st k).2.1.pIOBuf.length < cfg.sIOBufSize := by
  have hfits := st.fits
  have hpos := cfg.sIOBufSize_pos
  unfold flushFull strmFlushInternal
  split
  · split
    next hnil => simpa [hnil] using hpos
    next => exact hpos
  · simp only
    omega

def writeLoop (pBuf : Bytes) (st : Strm cfg) (k : ℕ) : RsRet × Strm cfg × ℕ :=
  let r := flushFull w st k
  if r.1 = .ok then
    let rest := pBuf.drop (cfg.sIOBufSize - r.2.1.pIOBuf.length)
    if rest = [] then (.ok, r.2.1.fill pBuf, r.2.2)
    else writeLoop rest (r.2.1.fill pBuf) r.2.2
  else r
termination_by pBuf.length
decreasing_by
  rename_i hrest
  have hlt := length_flushFull w st k
  have hlen : 0 < (pBuf.drop (cfg.sIOBufSize - (flushFull w st k).2.1.pIOBuf.length)).length :=
    List.length_pos_of_ne_nil hrest
  rw [List.length_drop] at hlen ⊢
  omega

def doSizeLimitProcessing : StrmM cfg := fun st k =>
  if st.fd ∧ cfg.bSizeLimit then
    ((w.sizeLimit k).1, { st with bDisabled := (w.sizeLimit k).2 }, k + 1)
  else (.ok, st, k)

def StrmM.andThen (f g : StrmM cfg) : StrmM cfg := fun st k =>
  let r := f st k
  if r.1 = .ok then g r.2.1 r.2.2 else r

def strmWrite (pBuf : Bytes) : StrmM cfg := fun st k =>
  if st.bDisabled then (RS_RET_STREAM_DISABLED, st, k)
  else ((StrmM.andThen (writeLoop w pBuf) (flushFull w)).andThen (doSizeLimitProcessing w)) st k

end

/-! ## Instances -/

def undefined {α : Type} : InstM cfg α := throw ()

def ask {α : Type} (answer : ℕ → α) : InstM cfg α := fun s =>
  .ok (answer s.nCalls) { s with nCalls := s.nCalls + 1 }

def Inst.note (s : Inst cfg) (c : Call) : Inst cfg :=
  { s with calls := match s.calls with
      | [] => [[c]]
      | cs :: rest => (cs ++ [c]) :: rest }

def onStrm (id : StrmId) (f : StrmM cfg) : InstM cfg RsRet := do
  let s ← get
  match s.strms[id]? with
  | some (name, some st) => do
    let r := f st s.nCalls
    set { s with strms := s.strms.set id (name, some r.2.1), nCalls := r.2.2 }
    pure r.1
  | _ => undefined

def strmConstruct (name : FName) : InstM cfg StrmId := do
  let s ← get
  modify fun s => { s with
    strms := s.strms ++ [(name, some ⟨[], Nat.zero_le _, false, false⟩)]
    peak := max s.peak (s.open + 1) }
  pure s.strms.length

def strmDestruct (id : StrmId) : InstM cfg Unit := do
  let s ← get
  match s.strms[id]? with
  | some (name, some _) => set { s with strms := s.strms.set id (name, none) }
  | _ => undefined

def getClockFileAccess : InstM cfg UInt64 := fun s =>
  .ok (UInt64.ofNat (s.ticks + 1)) { s with ticks := s.ticks + 1 }

def closeFile : InstM cfg Unit := do
  let s ← get
  match s.pStrm with
  | some id => do
    strmDestruct id
    modify fun s => { s with pStrm := none }
  | none => undefined

section Functions

variable (w : World)

def prepareFile (newFileName : FName) : InstM cfg RsRet := do
  modify fun s => { s with pStrm := none }
  let p ← ask w.prepareFile
  modify (·.note (.prepareFile newFileName p.iRet))
  if p.constructed then do
    let id ← strmConstruct newFileName
    modify fun s => { s with pStrm := some id }
    if p.iRet = .ok then pure .ok
    else do
      closeFile
      pure p.iRet
  else pure p.iRet

/-! ### The cache -/

def dropStrm (iEntry : ℕ) (e : Entry) : InstM cfg Unit :=
  match e.pStrm with
  | none => pure ()
  | some id => do
    modify fun s =>
      if s.iCurrElt = some iEntry then { s with iCurrElt := none, pStrm := none } else s
    strmDestruct id

def dynaFileDelCacheEntry (iEntry : ℕ) (bFreeEntry : Bool) : InstM cfg Unit := do
  let s ← get
  match s.dynCache[iEntry]? with
  | none => undefined
  | some none => pure ()
  | some (some e) => do
    dropStrm iEntry e
    let left := if bFreeEntry then none else some { e with pName := none, pStrm := none }
    modify fun s => { s with dynCache := s.dynCache.set iEntry left }

def delCacheEntries : List ℕ → InstM cfg Unit
  | [] => pure ()
  | i :: is => do
    dynaFileDelCacheEntry i true
    delCacheEntries is

def dynaFileFreeCacheEntries : InstM cfg Unit := do
  let s ← get
  delCacheEntries (List.range s.dynCache.length)
  modify fun s => { s with iCurrElt := none, pStrm := none }

inductive Search
  | found (i : ℕ)
  | missing (iFirstFree : Option ℕ) (iOldest : ℕ)
  deriving DecidableEq

def search (newFileName : FName) : List (Option Entry) → ℕ → Option ℕ → ℕ → UInt64 → Search
  | [], _, iFirstFree, iOldest, _ => .missing iFirstFree iOldest
  | none :: es, i, iFirstFree, iOldest, ctOldest =>
    search newFileName es (i + 1) (iFirstFree.or (some i)) iOldest ctOldest
  | some e :: es, i, iFirstFree, iOldest, ctOldest =>
    match e.pName with
    | none => search newFileName es (i + 1) (iFirstFree.or (some i)) iOldest ctOldest
    | some name =>
      if newFileName = name then .found i
      else if e.clkTickAccessed < ctOldest then
        search newFileName es (i + 1) iFirstFree i e.clkTickAccessed
      else search newFileName es (i + 1) iFirstFree iOldest ctOldest

def access (i : ℕ) (name : FName) : InstM cfg Unit := do
  let tick ← getClockFileAccess
  modify fun s => { s with
    dynCache := s.dynCache.modify i
      (Option.map fun e => { e with clkTickAccessed := tick, nInactive := 0 })
    uses := (name, s.ticks) :: s.uses }

def isCurrent (newFileName : FName) : InstM cfg Bool := do
  let s ← get
  match s.iCurrElt with
  | none => pure false
  | some i =>
    match s.dynCache[i]? with
    | some (some ⟨some name, _, _, _⟩) => pure (newFileName = name)
    | _ => undefined

def flushOld : InstM cfg RsRet := do
  let s ← get
  match s.pStrm with
  | none => pure .ok
  | some id =>
    if cfg.bHangTest = false ∧ cfg.bFlushOnTXEnd then do
      let r ← onStrm id (strmFlush w)
      modify (·.note (.flush id r))
      pure r
    else pure .ok

def allocEntry (i : ℕ) : InstM cfg Bool := do
  let mem ← ask w.alloc
  let entry := if mem then some ⟨none, none, 0, 0⟩ else none
  modify fun s => { s with dynCache := s.dynCache.set i entry }
  pure mem

/-- An entry for a file that is not in the cache, unless there is no memory. -/
def freeSlot (iFirstFree : Option ℕ) (iOldest : ℕ) : InstM cfg (Option ℕ) := do
  let s ← get
  match iFirstFree with
  | some i => do
    let mem ← allocEntry w i
    pure (if mem then some i else none)
  | none =>
    if s.dynCache.length < cfg.iDynaFileCacheSize then do
      modify fun s => { s with dynCache := s.dynCache ++ [none] }
      let mem ← allocEntry w s.dynCache.length
      pure (if mem then some s.dynCache.length else none)
    else do
      dynaFileDelCacheEntry iOldest false
      pure (some iOldest)

def openSlot (newFileName : FName) (i : ℕ) : InstM cfg RsRet := do
  let r ← prepareFile w newFileName
  if r = .ok then do
    let mem ← ask w.alloc
    if mem then do
      modify fun s => { s with
        dynCache := s.dynCache.modify i
          (Option.map fun e => { e with pName := some newFileName, pStrm := s.pStrm })
        iCurrElt := some i }
      access i newFileName
      pure .ok
    else do
      modify (·.note (.noMemory newFileName))
      closeFile
      pure RS_RET_OUT_OF_MEMORY
  else pure r

def useSlot (newFileName : FName) (i : ℕ) : InstM cfg RsRet := do
  modify fun s => { s with
    pStrm := (s.dynCache[i]?.join).bind Entry.pStrm
    iCurrElt := some i }
  access i newFileName
  pure .ok

def addSlot (newFileName : FName) (iFirstFree : Option ℕ) (iOldest : ℕ) : InstM cfg RsRet := do
  modify fun s => { s with pStrm := none }
  let slot ← freeSlot w iFirstFree iOldest
  match slot with
  | some i => openSlot w newFileName i
  | none => do
    modify (·.note (.noMemory newFileName))
    pure RS_RET_OUT_OF_MEMORY

def changeFile (newFileName : FName) : InstM cfg RsRet := do
  modify fun s => { s with iCurrElt := none }
  let ctOldest ← getClockFileAccess
  let s ← get
  match search newFileName s.dynCache 0 none 0 ctOldest with
  | .found i => useSlot newFileName i
  | .missing iFirstFree iOldest => addSlot w newFileName iFirstFree iOldest

def prepareDynFile (newFileName : FName) : InstM cfg RsRet := do
  let current ← isCurrent newFileName
  if current then do
    let s ← get
    access (s.iCurrElt.getD 0) newFileName
    pure .ok
  else do
    let r ← flushOld w
    if r = .ok then changeFile w newFileName else pure r

/-! ### Messages -/

structure Msg where
  fname : FName
  text : Bytes

def doWrite (name : FName) (pszBuf : Bytes) : InstM cfg RsRet := do
  let s ← get
  match s.pStrm with
  | none => pure .ok
  | some id => do
    let r ← onStrm id (strmWrite w pszBuf)
    modify (·.note (.write name id r))
    pure r

def prepareStaticFile : InstM cfg RsRet := do
  let s ← get
  if s.pStrm = none then prepareFile w cfg.fname else pure .ok

def writeFile (m : Msg) : InstM cfg RsRet := do
  modify fun s => { s with calls := [] :: s.calls }
  if cfg.bDynamicName then do
    let r ← prepareDynFile w m.fname
    if r = .ok then doWrite w m.fname m.text else pure r
  else do
    let r ← prepareStaticFile w
    if r = .ok then do
      modify fun s => { s with nInactive := 0 }
      doWrite w cfg.fname m.text
    else pure r

/-- The loop of `commitTransaction`, which does not look at the codes. -/
def writeFiles : List Msg → InstM cfg Unit
  | [] => pure ()
  | m :: msgs => do
    let _ ← writeFile w m
    writeFiles msgs

def flushOnTXEnd : InstM cfg RsRet := do
  let s ← get
  match s.pStrm with
  | none => pure .ok
  | some id => if cfg.bFlushOnTXEnd then onStrm id (strmFlush w) else pure .ok

def finalRet (cfg : Config) (iRet : RsRet) : RsRet :=
  if iRet = RS_RET_FILE_OPEN_ERROR ∨ iRet = RS_RET_FILE_NOT_FOUND then
    if cfg.bDynamicName ∧ cfg.bDynafileDoNotSuspend then .ok else .suspended
  else iRet

def commitTransaction (msgs : List Msg) : InstM cfg RsRet := do
  if cfg.isDevNull then pure .ok
  else do
    writeFiles w msgs
    let r ← flushOnTXEnd w
    pure (finalRet cfg r)

end Functions

/-! ### Janitor and HUP -/

def janitorChkEntry (i : ℕ) : InstM cfg Unit := do
  let s ← get
  match s.dynCache[i]? with
  | some (some e) =>
    if cfg.iCloseTimeout ≤ e.nInactive then do
      dynaFileDelCacheEntry i true
      modify fun s => if s.iCurrElt = some i then { s with iCurrElt := none } else s
    else do
      let e := { e with nInactive := Int16.ofInt (e.nInactive.toInt + cfg.janitorInterval) }
      modify fun s => { s with dynCache := s.dynCache.set i (some e) }
  | _ => pure ()

def janitorChkEntries : List ℕ → InstM cfg Unit
  | [] => pure ()
  | i :: is => do
    janitorChkEntry i
    janitorChkEntries is

def janitorChkDynaFiles : InstM cfg Unit := do
  let s ← get
  janitorChkEntries (List.range s.dynCache.length)

def janitorStaticFile : InstM cfg Unit := do
  let s ← get
  if s.pStrm = none then pure ()
  else if cfg.iCloseTimeout ≤ s.nInactive then closeFile
  else modify fun s =>
    { s with nInactive := Int16.ofInt (s.nInactive.toInt + cfg.janitorInterval) }

def janitorCB : InstM cfg Unit :=
  if cfg.bDynamicName then janitorChkDynaFiles else janitorStaticFile

def doHUP : InstM cfg Unit := do
  let s ← get
  if cfg.bDynamicName then dynaFileFreeCacheEntries
  else if s.pStrm = none then pure ()
  else closeFile

end Rsyslog.Omfile
