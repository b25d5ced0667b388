import Mathlib.Data.List.Induction
import Mathlib.Data.Int.Order.Basic
import Rsyslog.Ratelimit.Limit

/-!
# Windows of the rate limiter

Which call falls into which window depends on the times alone: a `Window` holds the times of its
calls. The limiter accepts the first `burst` of them and refuses the others (`Tracks`).

A window is measured from its second call. So, of the calls accepted in it, the first may be more
than `interval` before one that is refused.
-/

namespace Rsyslog.Ratelimit

open Lib List

/-! ## Windows as a function of the times -/

/-- The calls since the counter was last cleared, and the start noted for them (`0` if none is). -/
structure Window where
  calls : List ℤ
  begin : ℤ
  deriving DecidableEq

def Window.empty : Window := ⟨[], 0⟩

def Window.beginAt (w : Window) (t : ℤ) : ℤ := if w.begin = 0 then t else w.begin

def Window.Over (interval : ℕ) (w : Window) (t : ℤ) : Prop :=
  t > w.beginAt t + interval ∨ t < w.beginAt t
deriving Decidable

/-- The window a call at `t` is counted in, as it is before the call. -/
def Window.current (interval : ℕ) (w : Window) (t : ℤ) : Window :=
  if w.Over interval t then .empty else { w with begin := w.beginAt t }

variable {rest : List ℤ} {opener : ℤ}

open Window

lemma Window.calls_of_current {interval : ℕ} {w : Window} {t : ℤ}
    (h : (w.current interval t).calls = opener :: rest) : w.calls = opener :: rest := by
  unfold current at h
  split at h
  · cases h
  · exact h

def Window.next (interval : ℕ) (w : Window) (t : ℤ) : Window :=
  let w' := w.current interval t
  { w' with calls := w'.calls ++ [t] }

def windowAfter (interval : ℕ) (times : List ℤ) : Window :=
  times.foldl (Window.next interval) .empty

lemma windowAfter_append_singleton (interval : ℕ) (times : List ℤ) (t : ℤ) :
    windowAfter interval (times ++ [t]) = (windowAfter interval times).next interval t := by
  rw [windowAfter, foldl_append]
  rfl

variable (interval burst : ℕ)

/-- A call at `t` has `burst` calls before it in its window, and the first of them is older than
`interval`. -/
def Window.Late (w : Window) (t : ℤ) : Prop :=
  burst ≤ (w.current interval t).calls.length ∧
    ∃ opener ∈ (w.current interval t).calls.head?, opener + interval < t
deriving Decidable

def judged (burst : ℕ) (calls : List ℤ) : List (ℤ × Bool) :=
  (calls.take burst).map (·, true) ++ (calls.drop burst).map (·, false)

lemma judged_append_singleton (burst : ℕ) (calls : List ℤ) (t : ℤ) :
    judged burst (calls ++ [t]) = judged burst calls ++ [(t, decide (calls.length < burst))] := by
  by_cases h : calls.length < burst
  · have htake : (calls ++ [t]).take burst = calls ++ [t] :=
      take_of_length_le (by rw [length_append, length_singleton]; omega)
    have hdrop : (calls ++ [t]).drop burst = [] :=
      drop_of_length_le (by rw [length_append, length_singleton]; omega)
    simp [judged, htake, hdrop, take_of_length_le h.le, drop_of_length_le h.le, h]
  · have hle : burst ≤ calls.length := not_lt.mp h
    simp [judged, take_append_of_le_length hle, drop_append_of_le_length hle, h]

lemma map_fst_judged (burst : ℕ) (calls : List ℤ) : (judged burst calls).map Prod.fst = calls := by
  simp [judged, Function.comp_def]

/-! ## What a call does -/

variable (rl : Ratelimiter)

/-- The limiter has been set to `interval` and `burst`, and counts the calls of `w`. -/
structure Counts (w : Window) (rl : Ratelimiter) : Prop where
  interval_eq : rl.interval.toNat = interval
  burst_eq : rl.burst.toNat = burst
  done_eq : rl.done.toNat = min burst w.calls.length
  begin_eq : rl.begin = w.begin

lemma tellLostCnt_fst : (tellLostCnt rl).1 = { rl with missed := 0 } := by
  unfold tellLostCnt
  split
  · rfl
  · next h => rw [← not_not.mp h]

def resumed (rl : Ratelimiter) (tt : ℤ) : Ratelimiter :=
  if tt > rl.beginAt tt + rl.interval.toNat ∨ tt < rl.beginAt tt then
    { rl with begin := 0, done := 0, missed := 0 }
  else { rl with begin := rl.beginAt tt }

lemma withinRatelimit_eq {rl : Ratelimiter} (hinterval : rl.interval ≠ 0) (c : Call) :
    let rl' := resumed rl (rl.timeOf c)
    (withinRatelimit rl c).2.1 = decide (rl'.burst > rl'.done) ∧
      (withinRatelimit rl c).1 =
        if rl'.burst > rl'.done then { rl' with done := rl'.done + 1 }
        else { rl' with missed := rl'.missed + 1 } := by
  intro rl'
  simp only [withinRatelimit, hinterval, if_false, rl', resumed]
  by_cases hover : rl.timeOf c > rl.beginAt (rl.timeOf c) + rl.interval.toNat ∨
      rl.timeOf c < rl.beginAt (rl.timeOf c)
  · simp only [hover, if_true, tellLostCnt_fst]
    split <;> simp_all
  · simp only [hover, if_false]
    split <;> simp_all

lemma timeOf_withinRatelimit (c : Call) : (withinRatelimit rl c).1.timeOf = rl.timeOf := by
  by_cases hinterval : rl.interval = 0
  · simp [withinRatelimit, hinterval]
  · rw [(withinRatelimit_eq hinterval c).2, resumed]
    split <;> split <;> rfl

section Counts

variable {interval burst : ℕ} {w : Window} {rl : Ratelimiter}

lemma Counts.resumed (h : Counts interval burst w rl) (t : ℤ) :
    Counts interval burst (w.current interval t) (resumed rl t) := by
  obtain ⟨hi, hb, hd, hbegin⟩ := h
  have hat : rl.beginAt t = w.beginAt t := by rw [Ratelimiter.beginAt, beginAt, hbegin]
  rw [Ratelimit.resumed, current, hat, hi]
  change Counts _ _ _ (if w.Over interval t then _ else _)
  split
  · exact ⟨hi, hb, (Nat.min_zero burst).symm, rfl⟩
  · exact ⟨hi, hb, hd, rfl⟩

/-- A call is accepted exactly if less than `burst` calls of its window precede it, and is counted
in that window. -/
lemma Counts.withinRatelimit (h : Counts interval burst w rl) (hinterval : 0 < interval)
    (c : Call) :
    (withinRatelimit rl c).2.1 =
        decide ((w.current interval (rl.timeOf c)).calls.length < burst) ∧
      Counts interval burst (w.next interval (rl.timeOf c)) (withinRatelimit rl c).1 := by
  have hne : rl.interval ≠ 0 := by
    intro h0
    have := h.interval_eq
    rw [h0, UInt32.toNat_zero] at this
    omega
  obtain ⟨hret, hstate⟩ := withinRatelimit_eq hne c
  obtain ⟨hi, hb, hd, hbegin⟩ := h.resumed (rl.timeOf c)
  have hroom : (Ratelimit.resumed rl (rl.timeOf c)).burst >
      (Ratelimit.resumed rl (rl.timeOf c)).done ↔
        (w.current interval (rl.timeOf c)).calls.length < burst := by
    rw [gt_iff_lt, UInt32.lt_iff_toNat_lt]
    omega
  refine ⟨by rw [hret]; exact decide_eq_decide.mpr hroom, ?_⟩
  rw [hstate]
  split
  · next hlt =>
    have hlen := hroom.mp hlt
    -- `done` stays below `burst`, so the increment does not wrap
    have hdone : ((Ratelimit.resumed rl (rl.timeOf c)).done + 1).toNat =
        (Ratelimit.resumed rl (rl.timeOf c)).done.toNat + 1 := by
      have := (Ratelimit.resumed rl (rl.timeOf c)).burst.toNat_lt
      rw [UInt32.toNat_add, UInt32.toNat_one]
      omega
    refine ⟨hi, hb, ?_, hbegin⟩
    simp only [hdone, hd, Window.next, length_append, length_singleton]
    omega
  · next hge =>
    have hlen := mt hroom.mpr hge
    refine ⟨hi, hb, ?_, hbegin⟩
    simp only [hd, Window.next, length_append, length_singleton]
    omega

end Counts

/-! ## What a sequence of calls does -/

/-- After the calls the limiter counts the calls of the current window, the answers in this window
are those of `judged`, and every call has been put on record. -/
structure Tracks (rl : Ratelimiter) (interval burst : ℕ) (calls : List Call)
    (r : Ratelimiter × List (ℤ × Bool)) : Prop where
  counts : Counts interval burst (windowAfter interval (calls.map rl.timeOf)) r.1
  timeOf_eq : r.1.timeOf = rl.timeOf
  answers : ∃ old, r.2 = old ++ judged burst (windowAfter interval (calls.map rl.timeOf)).calls
  times : r.2.map Prod.fst = calls.map rl.timeOf

variable {burst : ℕ}

lemma judged_next (interval : ℕ) (w : Window) (t : ℤ) (old : List (ℤ × Bool)) :
    ∃ old', old ++ judged burst w.calls ++
        [(t, decide ((w.current interval t).calls.length < burst))] =
      old' ++ judged burst (w.next interval t).calls := by
  rw [Window.next, judged_append_singleton]
  unfold current
  split
  · exact ⟨old ++ judged burst w.calls, by simp [empty, judged]⟩
  · exact ⟨old, append_assoc ..⟩

lemma tracks_feed {interval : UInt32} (burst : UInt32) (hinterval : 0 < interval.toNat)
    (calls : List Call) :
    Tracks rl interval.toNat burst.toNat calls
      (feed answer (ratelimitSetLinuxLike rl interval burst) calls) := by
  induction calls using List.reverseRecOn with
  | nil =>
    have hcounts : Counts interval.toNat burst.toNat .empty
        (ratelimitSetLinuxLike rl interval burst) :=
      ⟨rfl, rfl, (Nat.min_zero _).symm, rfl⟩
    exact ⟨hcounts, rfl, ⟨[], by simp [judged, windowAfter, empty]⟩, rfl⟩
  | append_singleton calls c ih =>
    obtain ⟨hcounts, htime, ⟨old, hold⟩, htimes⟩ := ih
    obtain ⟨hret, hcounts'⟩ := hcounts.withinRatelimit hinterval c
    rw [htime] at hret hcounts'
    rw [feed_append]
    simp only [feed_cons, feed_nil, answer, append_nil, htime, hret]
    refine ⟨?_, ?_, ?_, ?_⟩
    · rwa [map_append, map_singleton, windowAfter_append_singleton]
    · rw [timeOf_withinRatelimit, htime]
    · rw [hold, map_append, map_singleton, windowAfter_append_singleton]
      exact judged_next ..
    · rw [map_append, htimes, map_append, map_singleton, map_singleton]

/-! ## Counting the accepted calls -/

lemma acceptedSince_append (start : ℤ) (l l' : List (ℤ × Bool)) :
    acceptedSince start (l ++ l') = acceptedSince start l + acceptedSince start l' :=
  countP_append

lemma acceptedSince_judged (start : ℤ) (burst : ℕ) (calls : List ℤ) :
    acceptedSince start (judged burst calls) =
      (calls.take burst).countP fun t => decide (start ≤ t) := by
  rw [judged, acceptedSince_append, acceptedSince, acceptedSince, countP_map, countP_map]
  simp [Function.comp_def]

lemma le_acceptedSince {start : ℤ} {old : List (ℤ × Bool)}
    (hsorted : (opener :: rest).Pairwise (· ≤ ·)) (hlen : burst ≤ (opener :: rest).length)
    (hopener : start ≤ opener) :
    burst ≤ acceptedSince start (old ++ judged burst (opener :: rest)) := by
  have hall : ∀ t ∈ (opener :: rest).take burst, decide (start ≤ t) = true := by
    intro t ht
    rcases mem_cons.mp (mem_of_mem_take ht) with rfl | hmem
    · exact decide_eq_true hopener
    · exact decide_eq_true (hopener.trans (rel_of_pairwise_cons hsorted hmem))
  rw [acceptedSince_append, acceptedSince_judged, countP_eq_length.mpr hall,
    length_take, Nat.min_eq_left hlen]
  exact Nat.le_add_left ..

lemma acceptedSince_lt {start : ℤ} {old : List (ℤ × Bool)} (hold : ∀ a ∈ old, a.1 ≤ opener)
    (hburst : 0 < burst) (hopener : opener < start) :
    acceptedSince start (old ++ judged burst (opener :: rest)) < burst := by
  have hnone : acceptedSince start old = 0 := by
    refine countP_eq_zero.mpr fun a ha hcount => ?_
    have hstart : start ≤ a.1 := of_decide_eq_true (Bool.and_eq_true_iff.mp hcount).2
    exact absurd (hstart.trans (hold a ha)) (not_le.mpr hopener)
  obtain ⟨n, rfl⟩ := Nat.exists_eq_add_one.mpr hburst
  rw [acceptedSince_append, acceptedSince_judged, hnone, zero_add, take_succ_cons,
    countP_cons_of_neg (by simpa using hopener)]
  calc (rest.take n).countP _ ≤ (rest.take n).length := countP_le_length
    _ ≤ n := length_take_le ..
    _ < n + 1 := Nat.lt_succ_self n

lemma Tracks.le_acceptedSince_iff {rl : Ratelimiter} {interval burst : ℕ} {calls : List Call}
    {r : Ratelimiter × List (ℤ × Bool)} (h : Tracks rl interval burst calls r) (hburst : 0 < burst)
    (hsorted : (calls.map rl.timeOf).Pairwise (· ≤ ·))
    (hcalls : (windowAfter interval (calls.map rl.timeOf)).calls = opener :: rest)
    (hlen : burst ≤ (opener :: rest).length) (start : ℤ) :
    burst ≤ acceptedSince start r.2 ↔ start ≤ opener := by
  obtain ⟨old, hold⟩ := h.answers
  rw [hcalls] at hold
  rw [← h.times, hold, map_append, map_fst_judged, pairwise_append] at hsorted
  obtain ⟨-, hwindow, hbefore⟩ := hsorted
  rw [hold]
  constructor
  · intro hle
    by_contra hlt
    have hearlier : ∀ a ∈ old, a.1 ≤ opener := fun a ha =>
      hbefore a.1 (mem_map_of_mem ha) opener mem_cons_self
    exact absurd hle (not_le.mpr (acceptedSince_lt hearlier hburst (not_le.mp hlt)))
  · exact le_acceptedSince hwindow hlen

/-- **When a refusal is due.** For calls at times that do not decrease, a call is refused only if
`burst` earlier calls were accepted at most `interval` seconds before it, unless the call comes in
a window that has `burst` calls and whose first call is older than that. -/
theorem refused_only_at_burst_iff (interval burst : UInt32) (hinterval : 0 < interval)
    (hburst : 0 < burst) (earlier : List Call) (c : Call)
    (htimes : ((earlier ++ [c]).map rl.timeOf).Pairwise (· ≤ ·)) :
    ((withinRatelimit (feed answer (ratelimitSetLinuxLike rl interval burst) earlier).1 c).2.1 =
          false →
        burst.toNat ≤ acceptedSince (rl.timeOf c - interval.toNat)
          (feed answer (ratelimitSetLinuxLike rl interval burst) earlier).2) ↔
      ¬ (windowAfter interval.toNat (earlier.map rl.timeOf)).Late interval.toNat burst.toNat
        (rl.timeOf c) := by
  have hpos : 0 < burst.toNat := hburst
  have htracks := tracks_feed rl burst hinterval earlier
  have hret := (htracks.counts.withinRatelimit hinterval c).1
  rw [htracks.timeOf_eq] at hret
  rw [hret, decide_eq_false_iff_not, not_lt]
  rw [map_append] at htimes
  have hsorted := (pairwise_append.mp htimes).1
  constructor
  · rintro hclaim ⟨hlen, opener, hopener, hold⟩
    obtain ⟨rest, hcurrent⟩ : ∃ rest, (current _ _ _).calls = opener :: rest :=
      head?_eq_some_iff.mp hopener
    have hle := hclaim hlen
    rw [hcurrent] at hlen
    rw [htracks.le_acceptedSince_iff hpos hsorted (calls_of_current hcurrent) hlen] at hle
    omega
  · intro hlate hlen
    obtain ⟨opener, rest, hcurrent⟩ : ∃ opener rest, (current _ _ _).calls = opener :: rest :=
      exists_cons_of_length_pos (hpos.trans_le hlen)
    have hin : rl.timeOf c ≤ opener + interval.toNat := by
      by_contra hlt
      exact hlate ⟨hlen, opener, by rw [hcurrent]; rfl, not_le.mp hlt⟩
    rw [hcurrent] at hlen
    rw [htracks.le_acceptedSince_iff hpos hsorted (calls_of_current hcurrent) hlen]
    omega

def someLimiter : Ratelimiter := ⟨ascii "imuxsock", 0, 0, 0, 0, 0, false⟩

def callAt (tt : ℤ) : Call := ⟨tt, 0, ascii "app"⟩

/-- Two calls in ten seconds are let through, and the third is refused with reason. -/
theorem refused_only_at_burst_iff_third :
    2 ≤ acceptedSince 92
      (feed answer (ratelimitSetLinuxLike someLimiter 10 2) [callAt 100, callAt 101]).2 :=
  (refused_only_at_burst_iff someLimiter 10 2 (by decide) (by decide) [callAt 100, callAt 101]
    (callAt 102) (by decide)).mpr (by decide) (by decide)

/-- One call in five seconds is allowed. The call at `200` is refused, as the one at `106`, which
found the first window over, is counted in a window that starts with the call at `200`. -/
theorem refused_after_long_pause :
    (feed answer (ratelimitSetLinuxLike someLimiter 5 1)
        [callAt 100, callAt 106, callAt 200]).2 = [(100, true), (106, true), (200, false)] ∧
      acceptedSince (200 - 5) [(100, true), (106, true)] = 0 := by
  decide

/-- Whatever the times are, a call is accepted exactly if fewer than `burst` calls of its window
precede it. -/
theorem withinRatelimit_feed (interval burst : UInt32) (hinterval : 0 < interval)
    (earlier : List Call) (c : Call) :
    (withinRatelimit (feed answer (ratelimitSetLinuxLike rl interval burst) earlier).1 c).2.1 =
      decide (((windowAfter interval.toNat (earlier.map rl.timeOf)).current interval.toNat
        (rl.timeOf c)).calls.length < burst.toNat) := by
  have htracks := tracks_feed rl burst hinterval earlier
  rw [(htracks.counts.withinRatelimit hinterval c).1, htracks.timeOf_eq]

theorem withinRatelimit_feed_back :
    (withinRatelimit (feed answer (ratelimitSetLinuxLike someLimiter 5 1) [callAt 9]).1
      (callAt 8)).2.1 = true :=
  (withinRatelimit_feed someLimiter 5 1 (by decide) [callAt 9] (callAt 8)).trans (by decide)

end Rsyslog.Ratelimit
