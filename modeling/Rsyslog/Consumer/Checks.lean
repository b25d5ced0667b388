import Rsyslog.Consumer.MsgConsumer

/-!
# Which messages are executed

A message whose sender is not permitted, or that cannot be parsed, gets the state DISC.
`processBatch` does not look at the state. So which messages a script is executed for is a matter of
the schedule alone: the loop starts with message `i` if `i` scripts have come to an end before, and
the flag is clear then (`started_iff`).
-/

namespace Rsyslog.Consumer

open Rsyslog.Msg List
open Rsyslog.Queue (BatchElem BatchState)

variable {E : Env}

/-! ## The checks of a message -/

def Arrival.Permitted (a : Arrival E) : Prop :=
  ∃ names, a.cvthname = some names ∧ a.isAllowedSender2 names.fqdn = true

/-- `ParseMsg` was called for the message, and succeeded. -/
def Arrival.Parsed (a : Arrival E) : Prop :=
  ∃ e, aclCheck a = some e ∧ (a.ParseMsg e.pMsg).1 = true

/-- The message has passed the checks that its flags asked for when it arrived. -/
structure Arrival.Passed (a : Arrival E) : Prop where
  permitted : hasFlag a.elem.pMsg NEEDS_ACLCHK_U = true → a.Permitted
  parsed : hasFlag a.elem.pMsg NEEDS_PARSING = true → a.Parsed

/-! ## The schedule -/

def reads (atts : List Attempt) : ℕ := (atts.map fun att => att.polls + 1).sum

def ended (atts : List Attempt) : ℕ := atts.countP fun att => att.ret ≠ .suspended

/-- After some of the executions the loop is done with `n` messages, and finds the flag clear. -/
def Reaches (atts : List Attempt) (clear n : ℕ) : Prop :=
  ∃ past, past <+: atts ∧ ended past = n ∧ reads past < clear

/-- A script is started for element `i` of `nElem`: the scripts of the elements before it have come
to an end, and the flag is still clear. It has been read for each element by then, while the batch
was preprocessed. -/
def Schedule.Starts (s : Schedule) (nElem i : ℕ) : Prop :=
  i < nElem ∧ Reaches s.attempts (s.clear - nElem) i

@[simp] lemma reads_cons (att : Attempt) (atts : List Attempt) :
    reads (att :: atts) = att.polls + 1 + reads atts := sum_cons

variable {att : Attempt}

lemma ended_cons (h : att.ret ≠ .suspended) (atts : List Attempt) :
    ended (att :: atts) = ended atts + 1 := by
  rw [ended, countP_cons_of_pos (by simp [h])]
  rfl

lemma not_reaches_zero (atts : List Attempt) (n : ℕ) : ¬ Reaches atts 0 n := by
  rintro ⟨past, -, -, h⟩
  exact Nat.not_lt_zero _ h

variable {clear n : ℕ}

lemma reaches_nil : Reaches [] (clear + 1) n ↔ n = 0 := by
  constructor
  · rintro ⟨past, hpast, rfl, -⟩
    rw [prefix_nil.mp hpast]
    rfl
  · rintro rfl
    exact ⟨[], nil_prefix, rfl, Nat.succ_pos clear⟩

variable {atts : List Attempt}

lemma reaches_cons :
    Reaches (att :: atts) (clear + 1) n ↔
      n = 0 ∨ ∃ past, past <+: atts ∧ ended (att :: past) = n ∧ reads past < clear - att.polls := by
  constructor
  · rintro ⟨past, hpast, hended, hreads⟩
    rcases prefix_cons_iff.mp hpast with rfl | ⟨rest, rfl, hrest⟩
    · exact .inl hended.symm
    · rw [reads_cons] at hreads
      exact .inr ⟨rest, hrest, hended, by omega⟩
  · rintro (rfl | ⟨past, hpast, hended, hreads⟩)
    · exact ⟨[], nil_prefix, rfl, Nat.succ_pos clear⟩
    · refine ⟨att :: past, prefix_cons_iff.mpr (.inr ⟨past, rfl, hpast⟩), hended, ?_⟩
      rw [reads_cons]
      omega

lemma reaches_cons_suspended (h : att.ret = .suspended) :
    Reaches (att :: atts) (clear + 1) n ↔ n = 0 ∨ Reaches atts (clear - att.polls) n := by
  have hended (atts : List Attempt) : ended (att :: atts) = ended atts :=
    countP_cons_of_neg (by simp [h])
  rw [reaches_cons]
  simp only [hended]
  rfl

lemma reaches_cons_ended (h : att.ret ≠ .suspended) :
    Reaches (att :: atts) (clear + 1) n ↔
      n = 0 ∨ ∃ k, n = k + 1 ∧ Reaches atts (clear - att.polls) k := by
  rw [reaches_cons]
  refine or_congr_right ⟨?_, ?_⟩
  · rintro ⟨past, hpast, hended, hreads⟩
    rw [ended_cons h] at hended
    exact ⟨ended past, hended.symm, past, hpast, rfl, hreads⟩
  · rintro ⟨k, rfl, past, hpast, rfl, hreads⟩
    exact ⟨past, hpast, ended_cons h past, hreads⟩

/-! ## Preprocessing and execution -/

lemma preprocessBatch_spec (clear : ℕ) (batch : List (Arrival E)) :
    (preprocessBatch clear batch).1.length = batch.length ∧
      (preprocessBatch clear batch).2 = clear - batch.length := by
  induction batch generalizing clear with
  | nil => cases clear <;> exact ⟨rfl, rfl⟩
  | cons a as ih =>
    cases clear with
    | zero => exact ⟨length_map .., (Nat.zero_sub _).symm⟩
    | succ clear =>
      rw [length_cons, Nat.add_sub_add_right]
      exact ⟨congrArg (· + 1) (ih clear).1, (ih clear).2⟩

variable (pDflt : Bytes)

lemma executed_execLoop_ended (h : att.ret ≠ .suspended) (atts : List Attempt) (i clear : ℕ)
    (e : BatchElem (SMsg E)) (es : List (BatchElem (SMsg E))) :
    (execLoop pDflt (att :: atts) i (clear + 1) (e :: es)).executed =
      startScript pDflt i e :: (execLoop pDflt atts (i + 1) (clear - att.polls) es).executed := by
  simp only [execLoop]
  split
  · next hret => exact absurd hret h
  · rfl
  · rfl

lemma exists_executed_iff (atts : List Attempt) (i clear : ℕ) (es : List (BatchElem (SMsg E)))
    (j : ℕ) :
    (∃ x ∈ (execLoop pDflt atts i clear es).executed, x.i = j) ↔
      ∃ n, j = i + n ∧ n < es.length ∧ Reaches atts clear n := by
  induction atts generalizing i clear es with
  | nil =>
    rcases es with _ | ⟨e, es⟩ <;> rcases clear with _ | clear <;>
      simp [execLoop, not_reaches_zero, reaches_nil, startScript, eq_comm]
  | cons att atts ih =>
    rcases es with _ | ⟨e, es⟩
    · simp [execLoop]
    · rcases clear with _ | clear
      · simp [execLoop, not_reaches_zero]
      · by_cases h : att.ret = .suspended
        · simp only [execLoop, h, exists_mem_cons_iff, ih, reaches_cons_suspended h]
          constructor
          · rintro (rfl | ⟨n, rfl, hlen, hreach⟩)
            · exact ⟨0, rfl, Nat.succ_pos _, .inl rfl⟩
            · exact ⟨n, rfl, hlen, .inr hreach⟩
          · rintro ⟨n, rfl, hlen, rfl | hreach⟩
            · exact .inl rfl
            · exact .inr ⟨n, rfl, hlen, hreach⟩
        · rw [executed_execLoop_ended pDflt h]
          simp only [exists_mem_cons_iff, ih, reaches_cons_ended h]
          constructor
          · rintro (rfl | ⟨n, rfl, hlen, hreach⟩)
            · exact ⟨0, rfl, Nat.succ_pos _, .inl rfl⟩
            · exact ⟨n + 1, by omega, Nat.succ_lt_succ hlen, .inr ⟨n, rfl, hreach⟩⟩
          · rintro ⟨n, rfl, hlen, rfl | ⟨k, rfl, hreach⟩⟩
            · exact .inl rfl
            · exact .inr ⟨k, by omega, Nat.lt_of_succ_lt_succ hlen, hreach⟩

lemma executed_msgConsumer (s : Schedule) (batch : List (Arrival E)) :
    (msgConsumer pDflt s batch).executed =
      (execLoop pDflt s.attempts 0 (s.clear - batch.length)
        (preprocessBatch s.clear batch).1).executed := by
  rw [← (preprocessBatch_spec _ _).2]
  simp only [msgConsumer]
  split <;> rfl

lemma started_iff (s : Schedule) (batch : List (Arrival E)) (i : ℕ) :
    (∃ x ∈ (msgConsumer pDflt s batch).executed, x.i = i) ↔ s.Starts batch.length i := by
  rw [executed_msgConsumer, exists_executed_iff, (preprocessBatch_spec _ _).1]
  constructor
  · rintro ⟨n, rfl, hstarts⟩
    rwa [Nat.zero_add]
  · intro hstarts
    exact ⟨i, (Nat.zero_add i).symm, hstarts⟩

/-- **Only checked messages are executed** exactly if every message that the loop gets to before a
shutdown passes its checks: the loop executes the others as well. -/
theorem executed_only_passed_iff (pDflt : Bytes) (s : Schedule) (batch : List (Arrival E)) :
    (∀ x ∈ (msgConsumer pDflt s batch).executed, ∃ a, batch[x.i]? = some a ∧ a.Passed) ↔
      ∀ i a, s.Starts batch.length i → batch[i]? = some a → a.Passed := by
  constructor
  · intro hclaim i a hstarts ha
    obtain ⟨x, hx, rfl⟩ := (started_iff pDflt s batch i).mpr hstarts
    obtain ⟨b, hb, hpassed⟩ := hclaim x hx
    rwa [← Option.some.inj (hb.symm.trans ha)]
  · intro hcond x hx
    have hstarts := (started_iff pDflt s batch x.i).mp ⟨x, hx, rfl⟩
    have hget := getElem?_eq_getElem hstarts.1
    exact ⟨_, hget, hcond x.i _ hstarts hget⟩

/-! ## A batch of messages that fail their checks -/

def arrival (msgFlags : Int32) (cvthname : Option Names) (permitted parsed : Bool) :
    Arrival plainEnv where
  elem := ⟨{ msgBaseConstruct with msgFlags := msgFlags }, .rdy, ⟨0, 0⟩⟩
  cvthname := cvthname
  isAllowedSender2 _ := permitted
  ParseMsg pMsg := (parsed, pMsg)

def someNames : Names := ⟨[104], [104], [49]⟩

/-- A message of a sender that is not permitted, one whose sender cannot be looked up, and one that
cannot be parsed. -/
def failing : List (Arrival plainEnv) :=
  [arrival NEEDS_ACLCHK_U (some someNames) false true, arrival NEEDS_ACLCHK_U none false true,
    arrival NEEDS_PARSING none false false]

theorem failing_executed :
    (msgConsumer [] ⟨20, [⟨.ok, 1⟩, ⟨.ok, 1⟩, ⟨.ok, 1⟩], 0⟩ failing).executed.map Execution.i =
        [0, 1, 2] ∧
      ((preprocessBatch 20 failing).1.map BatchElem.eltState = [.disc, .rdy, .disc]) ∧
      ∀ a ∈ failing, ¬ a.Passed := by
  refine ⟨by decide, by decide, ?_⟩
  intro a ha hpassed
  simp only [failing, mem_cons, not_mem_nil, or_false] at ha
  rcases ha with rfl | rfl | rfl
  · obtain ⟨names, -, hpermitted⟩ := hpassed.permitted (by decide)
    cases hpermitted
  · obtain ⟨names, hnames, -⟩ := hpassed.permitted (by decide)
    cases hnames
  · obtain ⟨e, -, hparsed⟩ := hpassed.parsed (by decide)
    cases hparsed

end Rsyslog.Consumer
