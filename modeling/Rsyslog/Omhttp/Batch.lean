import Rsyslog.Action.Engine

/-!
# Batches of omhttp

`contrib/omhttp/omhttp.c` collects the messages of a transaction in a batch and posts it when the
batch is full or the transaction ends. With `dynRestPath` every message has its own path, so a batch
is also posted when the path changes. The path of the batch is kept in `batch.restPath`: a message
that finds it empty sets it, and `initializeBatch` clears it.

A message that starts a batch within its own `doAction` comes too late to set the path: the next
message does, or nobody.
-/

namespace Rsyslog.Omhttp

open Rsyslog.Action (RsRet)

/-! ## Data -/

/-- `ppString`: the text of the message and the path rendered for it. -/
structure Msg where
  text : Bytes
  restPath : Bytes
  deriving DecidableEq

inductive BatchFormat
  | jsonArray
  | kafkaRest
  | newline
  | lokiRest
  deriving DecidableEq

/-- What is read of `instanceData`. With `dynRestPath`, `restPath` is the name of the template. -/
structure InstanceData where
  restPath : Option Bytes
  dynRestPath : Bool
  batchMode : Bool
  batchFormat : BatchFormat
  maxBatchBytes : UInt64
  maxBatchSize : ℕ

structure Post where
  path : Bytes
  msgs : List Msg
  deriving DecidableEq

/-- The server: it says of the requests so far whether the last one gets through. -/
abbrev Server := List Post → Bool

/-- Every request gets through. -/
def up : Server := fun _ => true

/-- `batch` of `wrkrInstanceData_t`; `data` holds its first `nmemb` entries. -/
structure Batch where
  sizeBytes : UInt64
  data : List Msg
  restPath : Option Bytes

def Batch.nmemb (b : Batch) : ℕ := b.data.length

def Batch.empty : Batch := ⟨0, [], none⟩

/-- `wrkrInstanceData_t`: the batch and, as history, what was posted. -/
structure WrkrInstance where
  batch : Batch
  posts : List Post

open Batch

section Module

variable (pData : InstanceData) (server : Server)

/-! ## Requests -/

def getRestPath : Option Msg → Option Bytes
  | none => pData.restPath
  | some m => if pData.dynRestPath then some m.restPath else pData.restPath

def setPostURL (w : WrkrInstance) (tpls : Option Msg) : Bytes :=
  match w.batch.restPath with
  | some path => path
  | none => (getRestPath pData tpls).getD []

def curlPost (w : WrkrInstance) (msgs : List Msg) (tpls : Option Msg) : RsRet × WrkrInstance :=
  let posts := w.posts ++ [⟨setPostURL pData w tpls, msgs⟩]
  (if server posts then .ok else .suspended, { w with posts })

/-! ## Batches -/

def computeBatchSize (batch : Batch) : UInt64 :=
  let numMessages := UInt64.ofNat batch.nmemb
  let extraBytes := match pData.batchFormat with
    | .jsonArray => if batch.nmemb > 0 then numMessages + 1 else 2
    | .kafkaRest => numMessages * 10 + 14
    | .newline => if batch.nmemb > 0 then numMessages - 1 else 0
    | .lokiRest => numMessages * 2 + 14
  batch.sizeBytes + extraBytes + 1

def initializeBatch (w : WrkrInstance) : WrkrInstance := { w with batch := .empty }

def buildBatch (w : WrkrInstance) (m : Msg) : RsRet × WrkrInstance :=
  if w.batch.nmemb ≥ pData.maxBatchSize then (.err (-3000), w)
  else (.ok, { w with batch := { w.batch with
    data := w.batch.data ++ [m]
    sizeBytes := w.batch.sizeBytes + UInt64.ofNat m.text.length } })

def submitBatch (w : WrkrInstance) (tpls : Option Msg) : RsRet × WrkrInstance :=
  curlPost pData server w w.batch.data tpls

/-- The batch is submitted and, if that succeeds, a new one begun. -/
def flush (w : WrkrInstance) (tpls : Option Msg) : RsRet × WrkrInstance :=
  match submitBatch pData server w tpls with
  | (.ok, w) => (.ok, initializeBatch w)
  | r => r

/-! ## Entry points -/

def beginTransaction (w : WrkrInstance) : WrkrInstance :=
  if pData.batchMode then initializeBatch w else w

def followRestPath (w : WrkrInstance) (m : Msg) : RsRet × WrkrInstance :=
  if pData.dynRestPath then
    match w.batch.restPath with
    | none => (.ok, { w with batch := { w.batch with restPath := getRestPath pData (some m) } })
    | some path =>
      if some path ≠ getRestPath pData (some m) then flush pData server w none else (.ok, w)
  else (.ok, w)

/-- A limit of the batch is reached. An empty text makes `nBytes` wrap around. -/
def limitReached (batch : Batch) (m : Msg) : Bool :=
  let nBytes := UInt64.ofNat m.text.length - 1
  batch.nmemb ≥ pData.maxBatchSize || computeBatchSize pData batch + nBytes > pData.maxBatchBytes

def doAction (w : WrkrInstance) (m : Msg) : RsRet × WrkrInstance :=
  if pData.batchMode then
    match followRestPath pData server w m with
    | (.ok, w) =>
      if pData.maxBatchSize = 1 then
        match buildBatch pData (initializeBatch w) m with
        | (.ok, w) => submitBatch pData server w (some m)
        | r => r
      else
        match if limitReached pData w.batch m then flush pData server w (some m) else (.ok, w) with
        | (.ok, w) =>
          match buildBatch pData w m with
          | (.ok, w) => (if w.batch.nmemb = 1 then .previousCommitted else .deferCommit, w)
          | r => r
        | r => r
    | r => r
  else curlPost pData server w [m] (some m)

def endTransaction (w : WrkrInstance) : RsRet × WrkrInstance :=
  if w.batch.nmemb > 0 then submitBatch pData server w none else (.ok, w)

/-! ## When a batch ends -/

def Resets (batch : Batch) (m : Msg) : Prop :=
  (batch.restPath ≠ none ∧ batch.restPath ≠ some m.restPath) ∨ limitReached pData batch m = true
deriving Decidable

/-- The batch with the message in it. A message that starts a batch does not give it its path. -/
def Batch.next (batch : Batch) (m : Msg) : Batch :=
  if Resets pData batch m then ⟨UInt64.ofNat m.text.length, [m], none⟩
  else ⟨batch.sizeBytes + UInt64.ofNat m.text.length, batch.data ++ [m], some m.restPath⟩

/-- The path of a batch that has none: the next message gives it its own, and at the end of the
transaction it is the configured one. -/
def nextPath : List Msg → Bytes
  | [] => pData.restPath.getD []
  | m :: _ => m.restPath

/-- Every message that starts a new batch is followed by one with its path; where it is the last
one, it has the configured path. -/
def Steady (batch : Batch) : List Msg → Prop
  | [] => True
  | m :: ms =>
    (Resets pData batch m → nextPath pData ms = m.restPath) ∧ Steady (batch.next pData m) ms

/-! ## One message -/

section Message

variable {pData} {w : WrkrInstance} {m : Msg}

lemma restPath_getD_of_stays {batch : Batch}
    (h : ¬(batch.restPath ≠ none ∧ batch.restPath ≠ some m.restPath)) :
    batch.restPath.getD m.restPath = m.restPath := by
  cases hpath : batch.restPath with
  | none => rfl
  | some path => simpa [hpath] using h

variable (hbatch : pData.batchMode = true) (hdyn : pData.dynRestPath = true)
  (hmax : 2 ≤ pData.maxBatchSize)

section Path

include hdyn

lemma getRestPath_some : getRestPath pData (some m) = some m.restPath := by
  simp [getRestPath, hdyn]

lemma followRestPath_changes (h : w.batch.restPath ≠ none ∧ w.batch.restPath ≠ some m.restPath) :
    followRestPath pData up w m =
      (.ok, ⟨.empty, w.posts ++ [⟨w.batch.restPath.getD m.restPath, w.batch.data⟩]⟩) := by
  obtain ⟨path, hpath⟩ := Option.ne_none_iff_exists'.mp h.1
  have hne : some path ≠ some m.restPath := hpath ▸ h.2
  simp only [followRestPath, hdyn, if_true, hpath, getRestPath_some hdyn, if_pos hne]
  simp [flush, initializeBatch, submitBatch, curlPost, setPostURL, up, hpath]

lemma followRestPath_stays (h : ¬(w.batch.restPath ≠ none ∧ w.batch.restPath ≠ some m.restPath)) :
    followRestPath pData up w m =
      (.ok, ⟨{ w.batch with restPath := some m.restPath }, w.posts⟩) := by
  obtain ⟨⟨size, data, path⟩, posts⟩ := w
  match path with
  | none => simp [followRestPath, hdyn, getRestPath_some hdyn]
  | some path =>
    have hpath : path = m.restPath := by simpa using h
    simp [followRestPath, hdyn, getRestPath_some hdyn, hpath]

end Path

lemma exists_followRestPath (w : WrkrInstance) (m : Msg) :
    ∃ u, followRestPath pData up w m = (.ok, u) := by
  by_cases hdyn : pData.dynRestPath = true
  · by_cases h : w.batch.restPath ≠ none ∧ w.batch.restPath ≠ some m.restPath
    · exact ⟨_, followRestPath_changes hdyn h⟩
    · exact ⟨_, followRestPath_stays hdyn h⟩
  · exact ⟨w, by rw [followRestPath, if_neg hdyn]⟩

include hbatch hmax

lemma doAction_eq {u : WrkrInstance} (hu : followRestPath pData up w m = (.ok, u)) :
    doAction pData up w m =
      if limitReached pData u.batch m then
        (.previousCommitted, ⟨⟨UInt64.ofNat m.text.length, [m], none⟩,
          u.posts ++ [⟨setPostURL pData u (some m), u.batch.data⟩]⟩)
      else
        (if u.batch.data = [] then .previousCommitted else .deferCommit,
          ⟨{ u.batch with
            sizeBytes := u.batch.sizeBytes + UInt64.ofNat m.text.length
            data := u.batch.data ++ [m] }, u.posts⟩) := by
  have hone : pData.maxBatchSize ≠ 1 := by omega
  simp only [doAction, hbatch, if_true, if_neg hone, hu]
  by_cases hlim : limitReached pData u.batch m = true
  · have hpos : ¬pData.maxBatchSize = 0 := by omega
    simp [hlim, buildBatch, flush, initializeBatch, submitBatch, curlPost, up, empty,
      nmemb, hpos]
  · have hroom : ¬pData.maxBatchSize ≤ u.batch.data.length := by
      intro h
      simp [limitReached, nmemb, h] at hlim
    simp [hlim, buildBatch, hroom, nmemb]

lemma doAction_defers :
    (doAction pData up w m).1 = .previousCommitted ∨ (doAction pData up w m).1 = .deferCommit := by
  obtain ⟨u, hu⟩ : ∃ u, followRestPath pData up w m = (.ok, u) := exists_followRestPath w m
  rw [doAction_eq hbatch hmax hu]
  split
  · exact .inl rfl
  · split
    · exact .inl rfl
    · exact .inr rfl

include hdyn

lemma doAction_resets (h : Resets pData w.batch m) :
    ∃ r, (r = .previousCommitted ∨ r = .deferCommit) ∧
      ∃ empties : List Post, (∀ p ∈ empties, p.msgs = []) ∧
        doAction pData up w m = (r, ⟨w.batch.next pData m,
          w.posts ++ ⟨w.batch.restPath.getD m.restPath, w.batch.data⟩ :: empties⟩) := by
  by_cases hpath : w.batch.restPath ≠ none ∧ w.batch.restPath ≠ some m.restPath
  · rw [doAction_eq hbatch hmax (followRestPath_changes hdyn hpath), next, if_pos h]
    by_cases hlim : limitReached pData .empty m = true
    · rw [if_pos hlim]
      simp [setPostURL, empty, getRestPath_some hdyn]
    · rw [if_neg hlim]
      simp [empty]
  · have hlim : limitReached pData w.batch m = true := h.resolve_left hpath
    have hlim' : limitReached pData { w.batch with restPath := some m.restPath } m = true := hlim
    rw [doAction_eq hbatch hmax (followRestPath_stays hdyn hpath), next, if_pos h,
      if_pos hlim', restPath_getD_of_stays hpath]
    exact ⟨_, .inl rfl, [], by simp, rfl⟩

lemma doAction_joins (h : ¬Resets pData w.batch m) :
    ∃ r, doAction pData up w m = (r, ⟨w.batch.next pData m, w.posts⟩) := by
  obtain ⟨hpath, hlim⟩ := not_or.mp h
  have hlim' : ¬limitReached pData { w.batch with restPath := some m.restPath } m = true := hlim
  rw [doAction_eq hbatch hmax (followRestPath_stays hdyn hpath), next, if_neg h, if_neg hlim']
  by_cases hdata : w.batch.data = []
  · exact ⟨.previousCommitted, by simp [hdata]⟩
  · exact ⟨.deferCommit, by simp [hdata]⟩

end Message

/-! ## A transaction -/

/-- The messages of a transaction: a request that fails ends it. -/
def passAll (w : WrkrInstance) : List Msg → WrkrInstance
  | [] => (endTransaction pData server w).2
  | m :: ms =>
    match doAction pData server w m with
    | (.previousCommitted, w) => passAll w ms
    | (.deferCommit, w) => passAll w ms
    | (_, w) => w

def Post.Right (p : Post) : Prop := ∀ m ∈ p.msgs, p.path = m.restPath
deriving Decidable

def Delivered (ms : List Msg) (posts : List Post) : Prop :=
  posts.flatMap Post.msgs = ms ∧ ∀ p ∈ posts, p.Right

instance (ms : List Msg) (posts : List Post) : Decidable (Delivered ms posts) :=
  inferInstanceAs (Decidable (_ ∧ _))

section Transaction

variable {pData}

lemma endTransaction_posts (w : WrkrInstance) :
    ∃ posts, (endTransaction pData up w).2.posts = w.posts ++ posts ∧
      posts.flatMap Post.msgs = w.batch.data ∧
      ((∀ p ∈ posts, p.Right) ↔
        ∀ m ∈ w.batch.data, w.batch.restPath.getD (nextPath pData []) = m.restPath) := by
  have hurl : setPostURL pData w none = w.batch.restPath.getD (nextPath pData []) := by
    cases h : w.batch.restPath <;> simp [setPostURL, h, getRestPath, nextPath]
  by_cases h : w.batch.data = []
  · exact ⟨[], by simp [endTransaction, nmemb, h], by simp [h], by simp [h]⟩
  · have hpos : w.batch.nmemb > 0 := List.length_pos_iff.mpr h
    refine ⟨[⟨setPostURL pData w none, w.batch.data⟩], ?_, by simp, ?_⟩
    · rw [endTransaction, if_pos hpos, submitBatch, curlPost]
    · rw [List.forall_mem_singleton, hurl, Post.Right]

variable (hbatch : pData.batchMode = true) (hdyn : pData.dynRestPath = true)

include hbatch

lemma passAll_cons (hmax : 2 ≤ pData.maxBatchSize) {w : WrkrInstance} {m : Msg}
    (h : doAction pData server w m = doAction pData up w m) (ms : List Msg) :
    passAll pData server w (m :: ms) = passAll pData server (doAction pData up w m).2 ms := by
  have hcode := doAction_defers (w := w) (m := m) hbatch hmax
  rw [passAll, h]
  generalize doAction pData up w m = r at hcode ⊢
  obtain ⟨code, w'⟩ := r
  obtain rfl | rfl := hcode <;> rfl

include hdyn

/-- What is posted from here on: no message is lost and none is sent twice. The requests are right
if the messages of the batch have the path that it has or will get, and every new batch gets the
path of its first message. -/
lemma passAll_posts (hmax : 2 ≤ pData.maxBatchSize) (w : WrkrInstance) (ms : List Msg) :
    ∃ posts, (passAll pData up w ms).posts = w.posts ++ posts ∧
      posts.flatMap Post.msgs = w.batch.data ++ ms ∧
      ((∀ p ∈ posts, p.Right) ↔
        (∀ m ∈ w.batch.data, w.batch.restPath.getD (nextPath pData ms) = m.restPath) ∧
        Steady pData w.batch ms) := by
  induction ms generalizing w with
  | nil =>
    obtain ⟨posts, hposts, hmsgs, hright⟩ := endTransaction_posts w
    exact ⟨posts, hposts, by simpa using hmsgs, by simpa [Steady] using hright⟩
  | cons m ms ih =>
    obtain ⟨posts, hposts, hmsgs, hright⟩ := ih (doAction pData up w m).2
    rw [passAll_cons up hbatch hmax rfl]
    by_cases h : Resets pData w.batch m
    · obtain ⟨r, -, empties, hempty, heq⟩ := doAction_resets hbatch hdyn hmax h
      simp only [heq] at hposts hmsgs hright
      -- the old batch goes to the path it had before, the new one waits for the next message
      refine ⟨⟨w.batch.restPath.getD m.restPath, w.batch.data⟩ :: empties ++ posts, ?_, ?_, ?_⟩
      · simp [heq, hposts]
      · simp [hmsgs, next, if_pos h, List.flatMap_eq_nil_iff.mpr hempty]
      · have hnew : (∀ x ∈ (w.batch.next pData m).data,
            (w.batch.next pData m).restPath.getD (nextPath pData ms) = x.restPath) ↔
            nextPath pData ms = m.restPath := by
          simp [next, if_pos h]
        have hright' : ∀ p ∈ empties, p.Right := fun p hp => by simp [Post.Right, hempty p hp]
        rw [hnew] at hright
        simp only [List.cons_append, List.forall_mem_cons, List.forall_mem_append, hright, Steady,
          h, true_implies]
        exact ⟨fun ⟨h₁, _, h₂⟩ => ⟨h₁, h₂⟩, fun ⟨h₁, h₂⟩ => ⟨h₁, hright', h₂⟩⟩
    · obtain ⟨r, heq⟩ := doAction_joins hbatch hdyn hmax h
      simp only [heq] at hposts hmsgs hright
      refine ⟨posts, by simp [heq, hposts], by simp [hmsgs, next, if_neg h], ?_⟩
      have hsame : (∀ x ∈ (w.batch.next pData m).data,
          (w.batch.next pData m).restPath.getD (nextPath pData ms) = x.restPath) ↔
          ∀ x ∈ w.batch.data, m.restPath = x.restPath := by
        simp only [next, if_neg h, List.forall_mem_append, List.forall_mem_singleton,
          Option.getD_some, and_true]
      rw [hright, hsame]
      simp [nextPath, restPath_getD_of_stays (not_or.mp h).1, Steady, h]

lemma doAction_single (hmax : pData.maxBatchSize = 1) (posts : List Post) (m : Msg) :
    (doAction pData up ⟨.empty, posts⟩ m).1 = .ok ∧
      (doAction pData up ⟨.empty, posts⟩ m).2.posts = posts ++ [⟨m.restPath, [m]⟩] := by
  simp [doAction, hbatch, hmax, followRestPath, hdyn, getRestPath, empty, initializeBatch,
    buildBatch, nmemb, submitBatch, curlPost, setPostURL, up]

lemma doAction_none (hmax : pData.maxBatchSize = 0) (posts : List Post) (m : Msg) :
    (doAction pData up ⟨.empty, posts⟩ m).1 = .err (-3000) ∧
      (doAction pData up ⟨.empty, posts⟩ m).2.posts = posts ++ [⟨m.restPath, []⟩] := by
  simp [doAction, hbatch, hmax, followRestPath, hdyn, getRestPath, empty, limitReached,
    flush, initializeBatch, buildBatch, submitBatch, curlPost, setPostURL, up]

end Transaction

end Module

end Rsyslog.Omhttp
