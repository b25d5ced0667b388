import Mathlib.Algebra.Order.Ring.Int
import Mathlib.Tactic.SplitIfs

/-!
# Parameters of a queue

`qqueueCorrectParams` of `queue.c` gives every mark that is not set, or set out of range, a value
that depends on the size of the queue. A mark that is set is trusted, and the values that are put in
for others are not compared with it. The warnings that the function logs are left out.
-/

namespace Rsyslog.Queue

structure QParams where
  iMaxQueueSize : ℤ
  iNumWorkerThreads : ℤ
  iHighWtrMrk : ℤ
  iLowWtrMrk : ℤ
  iMinMsgsPerWrkr : ℤ
  iFullDlyMrk : ℤ
  iLightDlyMrk : ℤ
  iDiscardMrk : ℤ
  iDeqBatchSize : ℤ
  deriving DecidableEq

namespace QParams

variable (q : QParams)

/-- The given percentage of the queue size, or another value for a queue that is too small. -/
def percent (p ifZero : ℤ) : ℤ :=
  let mark := q.iMaxQueueSize.tdiv 100 * p
  if mark = 0 then ifZero else mark

/-- What the delay marks are set to in a small queue. -/
def almostFull : ℤ := if q.iMaxQueueSize = 1 then 1 else q.iMaxQueueSize - 1

def qqueueCorrectParams : QParams :=
  let iHighWtrMrk := if q.iHighWtrMrk < 2 ∨ q.iHighWtrMrk > q.iMaxQueueSize then
    q.percent 90 q.iMaxQueueSize else q.iHighWtrMrk
  let iLightDlyMrk := if q.iLightDlyMrk = 0 then q.iMaxQueueSize else q.iLightDlyMrk
  { q with
    iHighWtrMrk
    iLowWtrMrk :=
      if q.iLowWtrMrk < 2 ∨ q.iLowWtrMrk > q.iMaxQueueSize ∨ q.iLowWtrMrk > iHighWtrMrk then
        q.percent 70 1
      else q.iLowWtrMrk
    iMinMsgsPerWrkr :=
      if q.iMinMsgsPerWrkr < 1 ∨ q.iMinMsgsPerWrkr > q.iMaxQueueSize then
        q.iMaxQueueSize.tdiv q.iNumWorkerThreads
      else q.iMinMsgsPerWrkr
    iFullDlyMrk :=
      if q.iFullDlyMrk = -1 ∨ q.iFullDlyMrk > q.iMaxQueueSize then q.percent 97 q.almostFull
      else q.iFullDlyMrk
    iLightDlyMrk :=
      if iLightDlyMrk = -1 ∨ iLightDlyMrk > q.iMaxQueueSize then q.percent 70 q.almostFull
      else iLightDlyMrk
    iDiscardMrk :=
      if q.iDiscardMrk < 1 ∨ q.iDiscardMrk > q.iMaxQueueSize then q.percent 98 q.iMaxQueueSize
      else q.iDiscardMrk
    iDeqBatchSize :=
      if q.iMaxQueueSize > 0 ∧ q.iDeqBatchSize > q.iMaxQueueSize then q.iMaxQueueSize
      else q.iDeqBatchSize }

/-- All marks lie within the queue, the low water mark below the high one. -/
structure Plausible : Prop where
  low_pos : 1 ≤ q.iLowWtrMrk
  low_le_high : q.iLowWtrMrk ≤ q.iHighWtrMrk
  high_le : q.iHighWtrMrk ≤ q.iMaxQueueSize
  fullDly : 1 ≤ q.iFullDlyMrk ∧ q.iFullDlyMrk ≤ q.iMaxQueueSize
  lightDly : 1 ≤ q.iLightDlyMrk ∧ q.iLightDlyMrk ≤ q.iMaxQueueSize
  discard : 1 ≤ q.iDiscardMrk ∧ q.iDiscardMrk ≤ q.iMaxQueueSize
  minMsgs_pos : 1 ≤ q.iMinMsgsPerWrkr
  deqBatchSize_le : q.iDeqBatchSize ≤ q.iMaxQueueSize

/-- What the configuration has to meet: a high water mark below 70 percent needs a low one, there
are no more workers than messages unless a minimum is set, and no delay mark is negative or, for
full delay, zero. -/
structure Correctable : Prop where
  wtrMrks : 2 ≤ q.iHighWtrMrk → q.iHighWtrMrk < q.iMaxQueueSize / 100 * 70 →
    2 ≤ q.iLowWtrMrk ∧ q.iLowWtrMrk ≤ q.iHighWtrMrk
  minMsgs : q.iNumWorkerThreads ≤ q.iMaxQueueSize ∨
    1 ≤ q.iMinMsgsPerWrkr ∧ q.iMinMsgsPerWrkr ≤ q.iMaxQueueSize
  fullDly : q.iFullDlyMrk = -1 ∨ 1 ≤ q.iFullDlyMrk
  lightDly : q.iLightDlyMrk = -1 ∨ 0 ≤ q.iLightDlyMrk

section

variable {q} (hsize : 1 ≤ q.iMaxQueueSize)

include hsize

lemma percent_eq {p : ℤ} (hp : 0 < p) (d : ℤ) :
    q.percent p d = if q.iMaxQueueSize < 100 then d else q.iMaxQueueSize / 100 * p := by
  rw [percent, Int.tdiv_eq_ediv_of_nonneg (by omega)]
  split_ifs with h0 hsmall hsmall
  · rfl
  · have : 0 < q.iMaxQueueSize / 100 * p := Int.mul_pos (by omega) hp
    omega
  · exact absurd (by rw [show q.iMaxQueueSize / 100 = 0 by omega, Int.zero_mul]) h0
  · rfl

lemma almostFull_bounds : 1 ≤ q.almostFull ∧ q.almostFull ≤ q.iMaxQueueSize := by
  unfold almostFull
  split <;> omega

lemma wtrMrks_plausible_iff :
    (1 ≤ q.qqueueCorrectParams.iLowWtrMrk ∧
      q.qqueueCorrectParams.iLowWtrMrk ≤ q.qqueueCorrectParams.iHighWtrMrk ∧
      q.qqueueCorrectParams.iHighWtrMrk ≤ q.iMaxQueueSize) ↔
    (2 ≤ q.iHighWtrMrk → q.iHighWtrMrk < q.iMaxQueueSize / 100 * 70 →
      2 ≤ q.iLowWtrMrk ∧ q.iLowWtrMrk ≤ q.iHighWtrMrk) := by
  simp only [qqueueCorrectParams, percent_eq hsize (show (0 : ℤ) < 70 by decide),
    percent_eq hsize (show (0 : ℤ) < 90 by decide)]
  split_ifs <;> omega

/-- Each worker gets a share of the queue, which is nothing if there are more workers than
messages. -/
lemma minMsgs_plausible_iff (hworkers : 1 ≤ q.iNumWorkerThreads) :
    1 ≤ q.qqueueCorrectParams.iMinMsgsPerWrkr ↔
      q.iNumWorkerThreads ≤ q.iMaxQueueSize ∨
        1 ≤ q.iMinMsgsPerWrkr ∧ q.iMinMsgsPerWrkr ≤ q.iMaxQueueSize := by
  have hshare : 1 ≤ q.iMaxQueueSize.tdiv q.iNumWorkerThreads ↔
      q.iNumWorkerThreads ≤ q.iMaxQueueSize := by
    rw [Int.tdiv_eq_ediv_of_nonneg (by omega), Int.le_ediv_iff_mul_le (by omega), Int.one_mul]
  simp only [qqueueCorrectParams]
  split_ifs <;> omega

lemma fullDly_plausible_iff :
    (1 ≤ q.qqueueCorrectParams.iFullDlyMrk ∧
      q.qqueueCorrectParams.iFullDlyMrk ≤ q.iMaxQueueSize) ↔
    (q.iFullDlyMrk = -1 ∨ 1 ≤ q.iFullDlyMrk) := by
  have hfull := almostFull_bounds hsize
  simp only [qqueueCorrectParams, percent_eq hsize (show (0 : ℤ) < 97 by decide)]
  split_ifs <;> omega

lemma lightDly_plausible_iff :
    (1 ≤ q.qqueueCorrectParams.iLightDlyMrk ∧
      q.qqueueCorrectParams.iLightDlyMrk ≤ q.iMaxQueueSize) ↔
    (q.iLightDlyMrk = -1 ∨ 0 ≤ q.iLightDlyMrk) := by
  have hfull := almostFull_bounds hsize
  simp only [qqueueCorrectParams, percent_eq hsize (show (0 : ℤ) < 70 by decide)]
  split_ifs <;> omega

lemma discard_plausible : 1 ≤ q.qqueueCorrectParams.iDiscardMrk ∧
    q.qqueueCorrectParams.iDiscardMrk ≤ q.iMaxQueueSize := by
  simp only [qqueueCorrectParams, percent_eq hsize (show (0 : ℤ) < 98 by decide)]
  split_ifs <;> omega

lemma deqBatchSize_plausible : q.qqueueCorrectParams.iDeqBatchSize ≤ q.iMaxQueueSize := by
  simp only [qqueueCorrectParams]
  split_ifs <;> omega

lemma plausible_iff (hworkers : 1 ≤ q.iNumWorkerThreads) :
    q.qqueueCorrectParams.Plausible ↔ q.Correctable := by
  have hdiscard := discard_plausible hsize
  have hbatch := deqBatchSize_plausible hsize
  constructor
  · intro h
    exact ⟨(wtrMrks_plausible_iff hsize).1 ⟨h.low_pos, h.low_le_high, h.high_le⟩,
      (minMsgs_plausible_iff hsize hworkers).1 h.minMsgs_pos,
      (fullDly_plausible_iff hsize).1 h.fullDly, (lightDly_plausible_iff hsize).1 h.lightDly⟩
  · intro h
    obtain ⟨hlow, hle, hhigh⟩ := (wtrMrks_plausible_iff hsize).2 h.wtrMrks
    exact ⟨hlow, hle, hhigh, (fullDly_plausible_iff hsize).2 h.fullDly,
      (lightDly_plausible_iff hsize).2 h.lightDly, hdiscard,
      (minMsgs_plausible_iff hsize hworkers).2 h.minMsgs, hbatch⟩

/-- A value that is put in for a bad one stays, whether or not it is bad itself. -/
lemma qqueueCorrectParams_idem :
    q.qqueueCorrectParams.qqueueCorrectParams = q.qqueueCorrectParams := by
  have hfull := almostFull_bounds hsize
  have h70 := percent_eq hsize (show (0 : ℤ) < 70 by decide) q.almostFull
  have hpercent (p d : ℤ) : q.qqueueCorrectParams.percent p d = q.percent p d := rfl
  have halmost : q.qqueueCorrectParams.almostFull = q.almostFull := rfl
  rw [qqueueCorrectParams]
  simp only [hpercent, halmost]
  simp only [qqueueCorrectParams, QParams.mk.injEq, true_and]
  refine ⟨?_, ?_, ?_, ?_, ?_, ?_, ?_⟩
  · split_ifs <;> rfl
  · split_ifs <;> omega
  · split_ifs <;> rfl
  · split_ifs <;> rfl
  · split_ifs <;> omega
  · split_ifs <;> rfl
  · split_ifs <;> rfl

end

/-- After the correction the parameters are plausible and stay as they are, unless the configuration
sets values that the correction does not look at. -/
theorem corrected_params_plausible_iff (hsize : 1 ≤ q.iMaxQueueSize)
    (hworkers : 1 ≤ q.iNumWorkerThreads) :
    q.qqueueCorrectParams.Plausible ∧
      q.qqueueCorrectParams.qqueueCorrectParams = q.qqueueCorrectParams ↔ q.Correctable := by
  rw [plausible_iff hsize hworkers, and_iff_left (qqueueCorrectParams_idem hsize)]

/-- A queue for which nothing is set. -/
def unset : QParams := ⟨1000, 1, -1, -1, -1, -1, -1, -1, 8⟩

theorem corrected_params_plausible_unset : unset.Correctable ∧
    unset.qqueueCorrectParams.Plausible := by
  have h : unset.Correctable := ⟨by decide, by decide, by decide, by decide⟩
  exact ⟨h, ((corrected_params_plausible_iff unset (by decide) (by decide)).2 h).1⟩

/-- A high water mark of 50 is kept, and the low water mark becomes 700. -/
theorem corrected_low_above_high :
    ¬({ unset with iHighWtrMrk := 50 } : QParams).qqueueCorrectParams.Plausible :=
  fun h => absurd h.low_le_high (by decide)

end QParams

end Rsyslog.Queue
