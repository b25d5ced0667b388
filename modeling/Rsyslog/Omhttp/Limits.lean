import Rsyslog.Omhttp.Batch

/-!
# The size of the requests of omhttp

`doAction` of `omhttp.c` flushes a batch before the message that would make it too large. What the
size will be is predicted by `computeBatchSize` from the running totals of the batch; what is sent
is made by the functions `serializeBatch*` when the batch is posted.

The prediction leaves out what the format adds for the message itself: a separator, and for Kafka
also the object around it and the separators before. `requests_within_limits_iff` says from the
lengths of the messages when the limit holds all the same, whatever the server answers.
-/

namespace Rsyslog.Omhttp

open Lib List UInt64
open Rsyslog.Action (RsRet)

/-! ## Bodies -/

/-- The JSON library: the text of a message parsed and printed again, without blanks. A text that is
not JSON has no value. Printing a value anew is taken to keep the length of its text. -/
structure JsonLib where
  plain : Bytes → Option Bytes
  length_plain : ∀ text out, plain text = some out → out.length = text.length

def JsonLib.verbatim : JsonLib := ⟨some, fun _ _ h => by rw [Option.some.inj h]⟩

section Body

variable (json : JsonLib)

def framed (head tail : String) (sep : UInt8) (texts : List Bytes) : Bytes :=
  ascii head ++ (List.intercalate [sep] texts ++ ascii tail)

def serializeBatchNewline (data : List Msg) : Bytes := framed "" "" 10 (data.map Msg.text)

def serializeBatchJsonArray (data : List Msg) : Bytes :=
  framed "[" "]" 44 (data.filterMap fun m => json.plain m.text)

def serializeBatchKafkaRest (data : List Msg) : Bytes :=
  framed "\x7b\"records\":[" "]\x7d" 44 (data.filterMap fun m => (json.plain m.text).map fun text =>
      ascii "\x7b\"value\":" ++ (text ++ ascii "\x7d"))

def serializeBatchLokiRest (data : List Msg) : Bytes :=
  framed "\x7b\"streams\":[" "]\x7d" 44 (data.filterMap fun m => json.plain m.text)

def serializeBatch : BatchFormat → List Msg → Bytes
  | .jsonArray => serializeBatchJsonArray json
  | .kafkaRest => serializeBatchKafkaRest json
  | .lokiRest => serializeBatchLokiRest json
  | .newline => serializeBatchNewline

end Body

/-! ## Sizes -/

section

variable (json : JsonLib) (pData : InstanceData)

def octets (data : List Msg) : ℕ := (data.map fun m => m.text.length).sum

/-- What the prediction adds to the texts of a batch of so many messages. -/
def extraBytes : BatchFormat → ℕ → ℕ
  | .jsonArray, n => if n > 0 then n + 1 else 2
  | .kafkaRest, n => n * 10 + 14
  | .newline, n => n - 1
  | .lokiRest, n => n * 2 + 14

/-- The size that is predicted, as a `size_t`, for a batch of `data` that the message joins. -/
def predicted (data : List Msg) (m : Msg) : ℕ :=
  (octets data + m.text.length + extraBytes pData.batchFormat data.length) % 2 ^ 64

/-- The message may join: neither limit of the batch stands against it. -/
def Admits (data : List Msg) (m : Msg) : Prop :=
  data.length < pData.maxBatchSize ∧ predicted pData data m ≤ pData.maxBatchBytes.toNat
deriving Decidable

/-- What a message takes of the body; one that is not JSON is left out by the JSON formats. -/
def share : BatchFormat → Msg → Option ℕ
  | .newline, m => some m.text.length
  | .kafkaRest, m => (json.plain m.text).map fun _ => m.text.length + 10
  | _, m => (json.plain m.text).map fun _ => m.text.length

def frame : BatchFormat → ℕ
  | .newline => 0
  | .jsonArray => 2
  | _ => 14

/-- The size of the body: the frame, the messages and the separators between them. -/
def bodySize (data : List Msg) : ℕ :=
  let shares := data.filterMap (share json pData.batchFormat)
  frame pData.batchFormat + shares.sum + (shares.length - 1)

/-- The message has another path than the one that the batch has got. -/
def ChangesPath (path : Option Bytes) (m : Msg) : Prop :=
  pData.dynRestPath = true ∧ path ≠ none ∧ path ≠ some m.restPath
deriving Decidable

/-- The messages that are left fit, with `data` in a batch of the given path. One that starts a
batch is within the limit by itself. One that joins others leaves a body that is within the limit.
One that the limit keeps out starts a batch without a condition. -/
def Fits (data : List Msg) (path : Option Bytes) : List Msg → Prop
  | [] => True
  | m :: ms =>
    if ChangesPath pData path m then Admits pData [] m ∧ Fits [m] none ms
    else if Admits pData data m then
      (data ≠ [] → bodySize json pData (data ++ [m]) ≤ pData.maxBatchBytes.toNat) ∧
        Fits (data ++ [m]) (some m.restPath) ms
    else data ≠ [] ∧ Fits [m] none ms

instance decidableFits (data : List Msg) (path : Option Bytes) (ms : List Msg) :
    Decidable (Fits json pData data path ms) :=
  match ms with
  | [] => isTrue trivial
  | m :: ms =>
    have := decidableFits [m] none ms
    have := decidableFits (data ++ [m]) (some m.restPath) ms
    by
      unfold Fits
      infer_instance

def SizeOk (msgs : List Msg) : Prop :=
  2 ≤ msgs.length →
    (serializeBatch json pData.batchFormat msgs).length ≤ pData.maxBatchBytes.toNat

/-- What a request is to be: not empty, and if it has several messages, not larger than allowed. -/
def Post.WithinLimits (p : Post) : Prop := p.msgs ≠ [] ∧ SizeOk json pData p.msgs

def transaction (server : Server) (batch : Batch) (ms : List Msg) : WrkrInstance :=
  passAll pData server (beginTransaction pData ⟨batch, []⟩) ms

end

/-! ## The length of a body -/

lemma length_intercalate (sep : UInt8) (texts : List Bytes) :
    (List.intercalate [sep] texts).length = (texts.map List.length).sum + (texts.length - 1) := by
  induction texts with
  | nil => rfl
  | cons t ts ih =>
    cases ts with
    | nil => simp
    | cons t' ts =>
      rw [intercalate_cons_cons, length_append, length_append, ih]
      simp only [map_cons, sum_cons, length_cons, length_nil]
      omega

lemma length_framed {head tail : String} {sep : UInt8} {data : List Msg}
    {f : Msg → Option Bytes} {g : Msg → Option ℕ} (h : ∀ m, (f m).map length = g m) :
    (framed head tail sep (data.filterMap f)).length =
      (ascii head).length + (ascii tail).length + (data.filterMap g).sum +
        ((data.filterMap g).length - 1) := by
  have hlen : (data.filterMap f).map length = data.filterMap g := by
    rw [map_filterMap]
    exact congrFun (congrArg _ (funext h)) data
  rw [framed, length_append, length_append, length_intercalate, ← hlen, length_map]
  omega

section Body

variable (json : JsonLib) (pData : InstanceData)

lemma length_plain_map (text : Bytes) :
    (json.plain text).map length = (json.plain text).map fun _ => text.length := by
  cases h : json.plain text with
  | none => rfl
  | some out => simp [json.length_plain text out h]

lemma length_serializeBatch (data : List Msg) :
    (serializeBatch json pData.batchFormat data).length = bodySize json pData data := by
  rw [bodySize]
  cases pData.batchFormat with
  | newline =>
    rw [serializeBatch, serializeBatchNewline, ← filterMap_eq_map, length_framed fun _ => rfl]
    rfl
  | jsonArray | lokiRest => exact length_framed fun m => length_plain_map json m.text
  | kafkaRest =>
    refine length_framed fun m => ?_
    have hplain := length_plain_map json m.text
    cases h : json.plain m.text with
    | none => simp [share, h]
    | some out =>
      have hout : out.length = m.text.length := by simpa [h] using hplain
      have hhead : (ascii "\x7b\"value\":").length = 9 := by decide
      have htail : (ascii "\x7d").length = 1 := by decide
      simp only [share, h, Option.map_some, length_append, hhead, htail, hout]
      congr 1
      omega

lemma bodySize_le_append (data data' : List Msg) :
    bodySize json pData data ≤ bodySize json pData (data ++ data') := by
  simp only [bodySize, filterMap_append, sum_append, length_append]
  omega

variable {json pData}

lemma sizeOk_of_length_le_one {msgs : List Msg} (h : msgs.length ≤ 1) :
    SizeOk json pData msgs := fun h' => by omega

/-- A message that joins others leaves a batch of the right size, if and only if the body is within
the limit; then the batch was of the right size before. -/
lemma sizeOk_append_iff {data : List Msg} {m : Msg} :
    SizeOk json pData (data ++ [m]) ↔ SizeOk json pData data ∧
      (data ≠ [] → bodySize json pData (data ++ [m]) ≤ pData.maxBatchBytes.toNat) := by
  have hlen : 2 ≤ (data ++ [m]).length ↔ data ≠ [] := by
    rw [← length_pos_iff, length_append, length_singleton]
    omega
  simp only [SizeOk, length_serializeBatch, hlen]
  constructor
  · intro hok
    refine ⟨fun h => (bodySize_le_append ..).trans (hok ?_), hok⟩
    rintro rfl
    simp at h
  · exact And.right

end Body

/-! ## One message -/

section

variable {pData : InstanceData} {w : WrkrInstance} {m : Msg} {data : List Msg} {path : Option Bytes}

/-- The batch has these messages, their octets counted, and with `dynRestPath` this path. -/
structure Batch.Holds (pData : InstanceData) (data : List Msg) (path : Option Bytes)
    (batch : Batch) : Prop where
  data_eq : batch.data = data
  sizeBytes_eq : batch.sizeBytes = UInt64.ofNat (octets data)
  restPath_eq : pData.dynRestPath = true → batch.restPath = path
  fresh : data = [] → path = none

lemma holds_start : Batch.Holds pData [m] none ⟨ofNat m.text.length, [m], none⟩ :=
  ⟨rfl, by simp [octets], fun _ => rfl, fun _ => rfl⟩

/-- The test of `doAction` compares the predicted size. -/
lemma limitReached_iff {batch : Batch} (h : batch.Holds pData data path) :
    limitReached pData batch m = true ↔ ¬Admits pData data m := by
  have hsize : (computeBatchSize pData batch + (ofNat m.text.length - 1)).toNat =
      predicted pData data m := by
    have hextra : computeBatchSize pData batch = ofNat (octets data) +
        ofNat (extraBytes pData.batchFormat data.length) + 1 := by
      rw [computeBatchSize, h.sizeBytes_eq, Batch.nmemb, h.data_eq]
      congr 2
      generalize data.length = n
      cases pData.batchFormat with
      | jsonArray => cases n <;> simp [extraBytes]
      | kafkaRest | lokiRest => simp [extraBytes]
      | newline => cases n <;> simp [extraBytes]
    have hsum : ofNat (octets data) + ofNat (extraBytes pData.batchFormat data.length)
        + 1 + (ofNat m.text.length - 1) =
        ofNat (octets data + m.text.length + extraBytes pData.batchFormat data.length) := by
      rw [ofNat_add, ofNat_add]
      grind
    rw [hextra, hsum, toNat_ofNat', predicted]
  simp only [limitReached, Admits, Batch.nmemb, h.data_eq, Bool.or_eq_true, decide_eq_true_eq,
    gt_iff_lt, lt_iff_toNat_lt, hsize]
  omega

variable (hbatch : pData.batchMode = true) (hmax : 2 ≤ pData.maxBatchSize)

include hbatch hmax

/-- **One message.** It starts a batch when its path or a limit demands it, and the one before is
posted. After a change of the path the limit is looked at again, for a batch without messages. -/
theorem doAction_spec (h : w.batch.Holds pData data path) :
    ∃ posts, (doAction pData up w m).2.posts = w.posts ++ posts ∧
      if ChangesPath pData path m then
        posts.map Post.msgs = data :: (if Admits pData [] m then [] else [[]]) ∧
          (doAction pData up w m).2.batch.Holds pData [m] none
      else if Admits pData data m then
        posts = [] ∧ (doAction pData up w m).2.batch.Holds pData (data ++ [m]) (some m.restPath)
      else posts.map Post.msgs = [data] ∧ (doAction pData up w m).2.batch.Holds pData [m] none := by
  have hone : ofNat (octets [m]) = ofNat m.text.length := by simp [octets]
  by_cases hpath : ChangesPath pData path m
  · have hrest := h.restPath_eq hpath.1
    rw [doAction_eq hbatch hmax (followRestPath_changes hpath.1 (hrest ▸ hpath.2))]
    simp only [if_pos hpath]
    have hempty : Batch.empty.Holds pData [] none := ⟨rfl, rfl, fun _ => rfl, fun _ => rfl⟩
    by_cases hlim : limitReached pData .empty m = true
    · rw [if_pos hlim, if_neg ((limitReached_iff hempty).mp hlim)]
      exact ⟨_, append_assoc .., by simp [h.data_eq, Batch.empty], holds_start⟩
    · rw [if_neg hlim, if_pos (not_not.mp (mt (limitReached_iff hempty).mpr hlim))]
      exact ⟨_, rfl, by simp [h.data_eq], rfl, by simp [Batch.empty, hone], fun _ => rfl,
        fun _ => rfl⟩
  · obtain ⟨path', hfollow, hpath'⟩ : ∃ path',
        followRestPath pData up w m = (.ok, ⟨{ w.batch with restPath := path' }, w.posts⟩) ∧
        (pData.dynRestPath = true → path' = some m.restPath) := by
      by_cases hdyn : pData.dynRestPath = true
      · refine ⟨_, followRestPath_stays hdyn fun h' => hpath ⟨hdyn, ?_⟩, fun _ => rfl⟩
        rwa [← h.restPath_eq hdyn]
      · exact ⟨w.batch.restPath, by rw [followRestPath, if_neg hdyn], fun h => absurd h hdyn⟩
    have hsame : limitReached pData { w.batch with restPath := path' } m = true ↔
        ¬Admits pData data m :=
      (limitReached_iff h : limitReached pData w.batch m = true ↔ _)
    rw [doAction_eq hbatch hmax hfollow]
    simp only [if_neg hpath]
    by_cases hadm : Admits pData data m
    · rw [if_neg (mt hsame.mp (not_not.mpr hadm))]
      simp only [if_pos hadm]
      refine ⟨[], (append_nil _).symm, rfl, congrArg (· ++ [m]) h.data_eq, ?_, hpath', by simp⟩
      simp [h.sizeBytes_eq, octets]
    · rw [if_pos (hsame.mpr hadm)]
      simp only [if_neg hadm]
      exact ⟨_, rfl, by simp [h.data_eq], holds_start⟩

end

/-! ## A transaction -/

section

variable (json : JsonLib) (pData : InstanceData)

lemma within_endTransaction_iff (w : WrkrInstance) :
    ∃ posts, (endTransaction pData up w).2.posts = w.posts ++ posts ∧
      ((∀ p ∈ posts, p.WithinLimits json pData) ↔ SizeOk json pData w.batch.data) := by
  by_cases h : w.batch.data = []
  · have hzero : SizeOk json pData [] := sizeOk_of_length_le_one (Nat.zero_le 1)
    exact ⟨[], by simp [endTransaction, Batch.nmemb, h], by simp [h, hzero]⟩
  · have hpos : w.batch.nmemb > 0 := length_pos_iff.mpr h
    refine ⟨_, by rw [endTransaction, if_pos hpos, submitBatch, curlPost], ?_⟩
    simp [Post.WithinLimits, h]

/-- The run `r` is the one in which all requests get through, or it is cut off behind one. -/
def Cut (r r' : RsRet × WrkrInstance) : Prop :=
  r = r' ∨ ∃ u, r = (.suspended, u) ∧ u.posts <+: r'.2.posts

lemma flush_cut (server : Server) (w : WrkrInstance) (tpls : Option Msg) :
    Cut (flush pData server w tpls) (flush pData up w tpls) := by
  cases h : server (submitBatch pData server w tpls).2.posts with
  | true => exact .inl (by simp_all [flush, submitBatch, curlPost, up])
  | false =>
    refine .inr ⟨(submitBatch pData server w tpls).2, ?_, ?_⟩
    · simp_all [flush, submitBatch, curlPost]
    · exact prefix_refl _

lemma followRestPath_cut (server : Server) (w : WrkrInstance) (m : Msg) :
    Cut (followRestPath pData server w m) (followRestPath pData up w m) := by
  unfold followRestPath
  by_cases hdyn : pData.dynRestPath = true
  · simp only [hdyn, if_true]
    cases w.batch.restPath with
    | none => exact .inl rfl
    | some path =>
      simp only
      split
      · exact flush_cut pData server w none
      · exact .inl rfl
  · simp only [hdyn]
    exact .inl rfl

variable {pData} (hbatch : pData.batchMode = true) (hmax : 2 ≤ pData.maxBatchSize)

include hbatch hmax

lemma doAction_cut (server : Server) (w : WrkrInstance) (m : Msg) :
    Cut (doAction pData server w m) (doAction pData up w m) := by
  have hone : pData.maxBatchSize ≠ 1 := by omega
  obtain ⟨u, hu⟩ : ∃ u, followRestPath pData up w m = (.ok, u) := exists_followRestPath w m
  have hcut := followRestPath_cut pData server w m
  rw [hu] at hcut
  have hprefix : u.posts <+: (doAction pData up w m).2.posts := by
    rw [doAction_eq hbatch hmax hu]
    split
    · exact prefix_append ..
    · exact prefix_refl _
  rcases hcut with h | ⟨v, h, hv⟩
  · by_cases hlim : limitReached pData u.batch m = true
    · rcases flush_cut pData server u (some m) with hf | ⟨v, hf, hv⟩
      · refine .inl ?_
        simp [doAction, hbatch, h, hu, if_neg hone, hlim, hf]
      · refine .inr ⟨v, by simp [doAction, hbatch, h, if_neg hone, hlim, hf], ?_⟩
        rw [doAction_eq hbatch hmax hu, if_pos hlim]
        exact hv
    · refine .inl ?_
      simp only [doAction, hbatch, if_true, h, hu, if_neg hone, hlim]
      rfl
  · exact .inr ⟨v, by simp [doAction, hbatch, h], hv.trans hprefix⟩

/-- The requests from here on are as they are to be exactly if the batch is, and the messages that
are left fit. -/
lemma within_passAll_iff (w : WrkrInstance) {data : List Msg} {path : Option Bytes}
    (hw : w.batch.Holds pData data path) (ms : List Msg) :
    ∃ posts, (passAll pData up w ms).posts = w.posts ++ posts ∧
      ((∀ p ∈ posts, p.WithinLimits json pData) ↔
        SizeOk json pData data ∧ Fits json pData data path ms) := by
  induction ms generalizing w data path with
  | nil =>
    obtain ⟨posts, hposts, hiff⟩ := within_endTransaction_iff json pData w
    exact ⟨posts, hposts, by rw [hiff, hw.data_eq, Fits, and_true]⟩
  | cons m ms ih =>
    have hone : SizeOk json pData [m] := sizeOk_of_length_le_one le_rfl
    have hwithin : ∀ posts : List Post, (∀ p ∈ posts, p.WithinLimits json pData) ↔
        ∀ msgs ∈ posts.map Post.msgs, msgs ≠ [] ∧ SizeOk json pData msgs := by
      simp [Post.WithinLimits]
    obtain ⟨posts₁, hposts₁, hcases⟩ := doAction_spec (m := m) hbatch hmax hw
    rw [passAll_cons up hbatch hmax rfl, Fits]
    by_cases hpath : ChangesPath pData path m
    · rw [if_pos hpath] at hcases ⊢
      obtain ⟨hmsgs, hholds⟩ := hcases
      obtain ⟨posts₂, hposts₂, hiff₂⟩ := ih _ hholds
      refine ⟨posts₁ ++ posts₂, by rw [hposts₂, hposts₁, append_assoc], ?_⟩
      have hne : data ≠ [] := fun h => hpath.2.1 (hw.fresh h)
      rw [forall_mem_append, hiff₂, hwithin, hmsgs]
      by_cases hadm : Admits pData [] m <;> simp [hadm, hne, hone]
    · rw [if_neg hpath] at hcases ⊢
      by_cases hadm : Admits pData data m
      · rw [if_pos hadm] at hcases ⊢
        obtain ⟨rfl, hholds⟩ := hcases
        obtain ⟨posts₂, hposts₂, hiff₂⟩ := ih _ hholds
        refine ⟨posts₂, by rw [hposts₂, hposts₁, append_nil], ?_⟩
        rw [hiff₂, sizeOk_append_iff, and_assoc]
      · rw [if_neg hadm] at hcases ⊢
        obtain ⟨hmsgs, hholds⟩ := hcases
        obtain ⟨posts₂, hposts₂, hiff₂⟩ := ih _ hholds
        refine ⟨posts₁ ++ posts₂, by rw [hposts₂, hposts₁, append_assoc], ?_⟩
        rw [forall_mem_append, hiff₂, hwithin, hmsgs]
        simp only [forall_mem_singleton, hone, true_and]
        tauto

/-- A transaction ends at a request that fails. -/
lemma passAll_firsts (server : Server) (w : WrkrInstance) {data : List Msg}
    {path : Option Bytes} (hw : w.batch.Holds pData data path) (ms : List Msg) :
    (passAll pData server w ms).posts <+: (passAll pData up w ms).posts := by
  induction ms generalizing w data path with
  | nil =>
    simp only [passAll, endTransaction]
    split <;> exact prefix_refl _
  | cons m ms ih =>
    obtain ⟨_, -, hcases⟩ := doAction_spec (m := m) hbatch hmax hw
    obtain ⟨data', path', hnext⟩ :
        ∃ data' path', (doAction pData up w m).2.batch.Holds pData data' path' := by
      split at hcases
      · exact ⟨_, _, hcases.2⟩
      · split at hcases <;> exact ⟨_, _, hcases.2⟩
    rw [passAll_cons up hbatch hmax rfl]
    obtain h | ⟨u, h, hu⟩ := doAction_cut hbatch hmax server w m
    · rw [passAll_cons server hbatch hmax h]
      exact ih _ hnext
    · obtain ⟨posts, hposts, -⟩ := within_passAll_iff .verbatim hbatch hmax _ hnext ms
      rw [passAll, h]
      exact hu.trans ⟨posts, hposts.symm⟩

end

def fourBytes : InstanceData := ⟨none, false, true, .newline, 4, 100⟩

/-- The messages `a`, `b`, `cc` and `d` make two requests, of three and of four octets. -/
def twoRequests : List Msg := [⟨[97], []⟩, ⟨[98], []⟩, ⟨[99, 99], []⟩, ⟨[100], []⟩]

end Rsyslog.Omhttp
