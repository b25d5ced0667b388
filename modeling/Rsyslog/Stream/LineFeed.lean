import Rsyslog.Stream.ReadLine

/-!
# The line reader, character by character

A poll reads all that was appended, so what it does can be told one character at a time, provided
that each character comes with a mark whether it is the last one before the file ends. `lineStep` is
that machine. `pollFileReal_eq` proves that a poll feeds it the marked characters of what was
appended; a sequence of polls feeds it one marked text after the other (`feed_pollFileReal`).
-/

namespace Rsyslog.Stream

open Lib

structure LineState where
  prevLineSegment : Bytes
  bPrevWasNL : Bool
  iCurrOffs : ℕ
  strtOffs : ℕ

def LineStrm.state (s : LineStrm) : LineState :=
  ⟨s.prevLineSegment, s.bPrevWasNL, s.strm.iCurrOffs, s.strtOffs⟩

def LineStrm.pending (s : LineStrm) : Bytes := s.strm.iUngetC.toList ++ s.strm.data

variable (cfg : LineCfg)

def LineState.fresh (s : LineState) (offs : ℕ) : LineState :=
  ⟨[], cfg.mode = .single && s.bPrevWasNL, offs, offs⟩

def takeChar (s : LineState) (x : UInt8 × Bool) : LineState × List LineRecord :=
  match lineAct cfg s.prevLineSegment s.bPrevWasNL x.1 with
  | .finished str _ => (s.fresh cfg (s.iCurrOffs + 1), [(str, s.strtOffs)])
  | .goOn str before after =>
    (⟨str, if x.2 then before else after, s.iCurrOffs + 1, s.strtOffs⟩, [])

def lineStep (s : LineState) (x : UInt8 × Bool) : LineState × List LineRecord :=
  match lineAct cfg s.prevLineSegment s.bPrevWasNL x.1 with
  | .finished str true =>
    let r := takeChar cfg (s.fresh cfg s.iCurrOffs) x
    (r.1, (str, s.strtOffs) :: r.2)
  | _ => takeChar cfg s x

def mark : Bytes → List (UInt8 × Bool)
  | [] => []
  | c :: cs => (c, cs.isEmpty) :: mark cs

variable {cfg : LineCfg} {s : LineState} {c : UInt8} {str str' : Bytes}

variable {x : UInt8 × Bool}

lemma lineStep_finished (h : lineAct cfg s.prevLineSegment s.bPrevWasNL x.1 = .finished str false) :
    lineStep cfg s x = (s.fresh cfg (s.iCurrOffs + 1), [(str, s.strtOffs)]) := by
  rw [lineStep, h]
  dsimp only
  rw [takeChar, h]

lemma lineStep_goOn {before after : Bool}
    (h : lineAct cfg s.prevLineSegment s.bPrevWasNL x.1 = .goOn str before after) :
    lineStep cfg s x = (⟨str, if x.2 then before else after, s.iCurrOffs + 1, s.strtOffs⟩, []) := by
  rw [lineStep, h]
  dsimp only
  rw [takeChar, h]

lemma lineAct_unread {flag : Bool} (h : lineAct cfg str flag c = .finished str' true) :
    cfg.mode = .indented ∧ str ≠ [] := by
  unfold lineAct at h
  split at h
  · split_ifs at h
    cases h
  · split_ifs at h <;> cases h
  · rename_i hmode
    refine ⟨hmode, ?_⟩
    rintro rfl
    rw [if_pos List.length_nil] at h
    split_ifs at h
    cases h

lemma lineStep_unread (h : lineAct cfg s.prevLineSegment s.bPrevWasNL x.1 = .finished str true) :
    lineStep cfg s x = ((lineStep cfg (s.fresh cfg s.iCurrOffs) x).1,
      (str, s.strtOffs) :: (lineStep cfg (s.fresh cfg s.iCurrOffs) x).2) := by
  have hfirst : lineStep cfg (s.fresh cfg s.iCurrOffs) x =
      takeChar cfg (s.fresh cfg s.iCurrOffs) x := by
    rw [lineStep]
    split
    case h_1 heq => exact absurd rfl (lineAct_unread heq).2
    case h_2 => rfl
  rw [hfirst, lineStep, h]

/-! ## Calls -/

/-- What a call does with the characters `cs`, from the state `σ`: it takes them all and finds no
end of a record, or it returns the first record and leaves the rest. -/
def Reads (cfg : LineCfg) (σ : LineState) (cs : Bytes) : LineStrm × Option LineRecord → Prop
  | (s', none) => s'.pending = [] ∧ feed (lineStep cfg) σ (mark cs) = (s'.state, [])
  | (s', some record) =>
    s'.prevLineSegment = [] ∧ s'.pending.length ≤ cs.length ∧
      (s'.pending.length = cs.length → σ.prevLineSegment ≠ []) ∧
      feed (lineStep cfg) σ (mark cs) =
        ((feed (lineStep cfg) s'.state (mark s'.pending)).1,
          record :: (feed (lineStep cfg) s'.state (mark s'.pending)).2)

lemma Reads.cons {σ σ' : LineState} {d : UInt8} {cs : Bytes}
    {r : LineStrm × Option LineRecord} (hstep : lineStep cfg σ (c, false) = (σ', []))
    (h : Reads cfg σ' (d :: cs) r) : Reads cfg σ (c :: d :: cs) r := by
  have hfeed : feed (lineStep cfg) σ (mark (c :: d :: cs)) =
      feed (lineStep cfg) σ' (mark (d :: cs)) := by
    show feed _ _ ((c, false) :: mark (d :: cs)) = _
    rw [feed_cons, hstep, List.nil_append]
  obtain ⟨s', _ | record⟩ := r
  · exact ⟨h.1, hfeed.trans h.2⟩
  · obtain ⟨hseg, hle, -, hrest⟩ := h
    refine ⟨hseg, ?_, ?_, hfeed.trans hrest⟩
    · rw [List.length_cons]
      omega
    · intro heq
      rw [List.length_cons] at heq
      omega

lemma lineLoop_finished {σ : LineState} {bUnread : Bool}
    (hact : lineAct cfg σ.prevLineSegment σ.bPrevWasNL c = .finished str bUnread) (fuel : ℕ)
    (d seg : Bytes) :
    Reads cfg σ (c :: d)
      (lineLoop cfg (fuel + 1) ⟨.at d (σ.iCurrOffs + 1), seg, σ.bPrevWasNL, σ.strtOffs⟩
        σ.prevLineSegment c) := by
  cases bUnread with
  | false =>
    simp only [lineLoop, hact]
    refine ⟨rfl, Nat.le_succ _, fun h => absurd h (Nat.ne_of_lt (Nat.lt_succ_self _)), ?_⟩
    show feed _ _ ((c, d.isEmpty) :: mark d) = _
    rw [feed_cons, lineStep_finished hact]
    rfl
  | true =>
    simp only [lineLoop, hact]
    refine ⟨rfl, le_refl _, fun _ => (lineAct_unread hact).2, ?_⟩
    show feed _ _ ((c, d.isEmpty) :: mark d) =
      ((feed _ (σ.fresh cfg σ.iCurrOffs) ((c, d.isEmpty) :: mark d)).1,
        _ :: (feed _ (σ.fresh cfg σ.iCurrOffs) ((c, d.isEmpty) :: mark d)).2)
    rw [feed_cons, lineStep_unread hact, feed_cons]
    rfl

lemma lineLoop_reads (σ : LineState) {fuel : ℕ} {d : Bytes} (hfuel : d.length < fuel)
    (seg : Bytes) :
    Reads cfg σ (c :: d)
      (lineLoop cfg fuel ⟨.at d (σ.iCurrOffs + 1), seg, σ.bPrevWasNL, σ.strtOffs⟩
        σ.prevLineSegment c) := by
  induction fuel generalizing d σ c with
  | zero => exact absurd hfuel (Nat.not_lt_zero _)
  | succ fuel ih =>
    cases hact : lineAct cfg σ.prevLineSegment σ.bPrevWasNL c with
    | finished str bUnread => exact lineLoop_finished hact fuel d seg
    | goOn str before after =>
      simp only [lineLoop, hact]
      cases d with
      | nil =>
        refine ⟨rfl, ?_⟩
        show feed _ _ [(c, true)] = _
        rw [feed_cons, lineStep_goOn hact]
        rfl
      | cons d ds =>
        have hstep := lineStep_goOn (x := (c, false)) hact
        exact .cons hstep (ih ⟨str, after, σ.iCurrOffs + 1, σ.strtOffs⟩
          (Nat.lt_of_succ_lt_succ hfuel))

/-- **A call of `strmReadLine`.** -/
theorem strmReadLine_reads (cfg : LineCfg) (s : LineStrm) :
    Reads cfg s.state s.pending (strmReadLine cfg s) := by
  obtain ⟨⟨data, iUngetC, off⟩, seg, flag, strt⟩ := s
  rcases iUngetC with _ | c
  · rcases data with _ | ⟨c, data⟩
    · exact ⟨rfl, rfl⟩
    · exact lineLoop_reads ⟨seg, flag, off, strt⟩ (Nat.lt_succ_self _) []
  · exact lineLoop_reads ⟨seg, flag, off, strt⟩ (Nat.lt_succ_self _) []

/-! ## Polls -/

/-- **A poll** reads all there is. -/
theorem pollLoop_eq (cfg : LineCfg) {fuel : ℕ} {s : LineStrm}
    (hfuel : 2 * s.pending.length + (if s.prevLineSegment = [] then 0 else 1) < fuel) :
    (pollLoop cfg fuel s).1.pending = [] ∧
      feed (lineStep cfg) s.state (mark s.pending) =
        ((pollLoop cfg fuel s).1.state, (pollLoop cfg fuel s).2) := by
  induction fuel generalizing s with
  | zero => omega
  | succ fuel ih =>
    have hcall := strmReadLine_reads cfg s
    rw [pollLoop]
    rcases hline : strmReadLine cfg s with ⟨s', _ | record⟩
    · rw [hline] at hcall
      exact hcall
    · rw [hline] at hcall
      obtain ⟨hseg, hle, hfirst, hfeed⟩ := hcall
      have hless : 2 * s'.pending.length + (if s'.prevLineSegment = [] then 0 else 1) < fuel := by
        rw [if_pos hseg]
        by_cases heq : s'.pending.length = s.pending.length
        · have hopen : s.prevLineSegment ≠ [] := hfirst heq
          rw [if_neg hopen] at hfuel
          omega
        · omega
      obtain ⟨hpending, hrest⟩ := ih hless
      refine ⟨hpending, ?_⟩
      rw [hfeed, hrest]

lemma pollFileReal_eq {s : LineStrm} (hs : s.pending = []) (appended : Bytes) :
    (pollFileReal cfg s appended).1.pending = [] ∧
      feed (lineStep cfg) s.state (mark appended) =
        ((pollFileReal cfg s appended).1.state, (pollFileReal cfg s appended).2) := by
  obtain ⟨hunget, hdata⟩ := List.append_eq_nil_iff.mp hs
  let s₀ : LineStrm := { s with strm := { s.strm with data := s.strm.data ++ appended } }
  have hpending : s₀.pending = appended := by
    show s.strm.iUngetC.toList ++ (s.strm.data ++ appended) = appended
    rw [hunget, hdata]
    rfl
  have hfuel : 2 * s₀.pending.length + (if s₀.prevLineSegment = [] then 0 else 1) <
      2 * (s.strm.data.length + appended.length) + 3 := by
    rw [hpending]
    split <;> omega
  have hpoll := pollLoop_eq cfg hfuel
  rw [hpending] at hpoll
  exact hpoll

/-- **A file that grows.** The records are those that the marked pieces give. -/
theorem feed_pollFileReal {s : LineStrm} (hs : s.pending = []) (pieces : List Bytes) :
    (feed (pollFileReal cfg) s pieces).2 =
      (feed (lineStep cfg) s.state (pieces.map mark).flatten).2 := by
  induction pieces generalizing s with
  | nil => rfl
  | cons piece pieces ih =>
    obtain ⟨hpending, hpoll⟩ := pollFileReal_eq hs piece
    rw [feed_cons, List.map_cons, List.flatten_cons, feed_append, hpoll, ih hpending]

end Rsyslog.Stream
