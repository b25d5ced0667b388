import Rsyslog.Stream.LineFeed

/-!
# Records of a file that is read while it grows

Does it matter how the content of a file is cut into what successive polls find? For single lines it
does not. In the other modes `bPrevWasNL` may lag behind at a cut, because the assignment after the
read was not reached, and the next character may then be taken for something else.

`CutsOk` is the exact condition (`records_eq_iff`). It is a scan of the text and its cuts. As long
as it does not fail, both readers go in lockstep (`Synced.next`). When it fails, one of them ends a
record that the other goes on with.
-/

namespace Rsyslog.Stream

open Lib List

variable {cfg : LineCfg} {s i : LineState} {c : UInt8} {cut : Bool} {str : Bytes}

/-! ## The condition -/

/-- Where the text is: at the start of a record, in it, or behind a LF in it. In the last two cases
`bPrevWasNL` may lag behind: it is not set yet (`staleLf`), or not reset (`staleText`). -/
inductive LinePos
  | start
  | text
  | lf
  | staleLf
  | staleText
  deriving DecidableEq

/-- Mode `1`. The flag lags behind when the text is cut after the first LF, or after the first
character of the following line. A LF that comes then is misread. -/
def LinePos.nextParagraph : LinePos → UInt8 → Bool → Option LinePos
  | .start, c, _ => some (if c = 10 then .start else .text)
  | .text, c, cut => some (if c = 10 then if cut then .staleLf else .lf else .text)
  | .lf, c, cut => some (if c = 10 then .start else if cut then .staleText else .text)
  | .staleLf, c, _ => if c = 10 then none else some .text
  | .staleText, c, cut => if c = 10 then none else some (if cut then .staleText else .text)

/-- Mode `2`. The flag lags behind when the text is cut after the white space that a continuation
line starts with. Anything but more white space is misread then. -/
def LinePos.nextIndented : LinePos → UInt8 → Bool → Option LinePos
  | .start, c, _ => some (if c = 10 then .start else .text)
  | .text, c, _ => some (if c = 10 then .lf else .text)
  | .lf, c, cut =>
    some (if c = 32 ∨ c = 9 then if cut then .staleText else .text
      else if c = 10 then .start else .text)
  | .staleText, c, cut =>
    if c = 32 ∨ c = 9 then some (if cut then .staleText else .text) else none
  | .staleLf, _, _ => none

/-- Without an escape string, no record of mode `1` is ended by a second LF. -/
def LinePos.next (cfg : LineCfg) (pos : LinePos) (x : UInt8 × Bool) : Option LinePos :=
  match cfg.mode with
  | .single => some pos
  | .paragraph => if cfg.escapeLFString_len = 0 then some pos else pos.nextParagraph x.1 x.2
  | .indented => pos.nextIndented x.1 x.2

def lineScan (cfg : LineCfg) : LinePos → List (UInt8 × Bool) → Bool
  | _, [] => true
  | pos, x :: xs =>
    match pos.next cfg x with
    | none => false
    | some pos' => lineScan cfg pos' xs

/-- No character of the text is misread, when it is cut into these pieces. -/
def CutsOk (cfg : LineCfg) (pieces : List Bytes) : Prop :=
  lineScan cfg .start (pieces.map mark).flatten = true

/-! ## In lockstep -/

def uncut (x : UInt8 × Bool) : UInt8 × Bool := (x.1, false)

def LinePos.actual : LinePos → Bool
  | .lf | .staleText => true
  | .start | .text | .staleLf => false

def LinePos.ideal : LinePos → Bool
  | .lf | .staleLf => true
  | .start | .text | .staleText => false

def paragraphLF (cfg : LineCfg) : Bytes := if cfg.bEscapeLF then cfg.escapeText else [10]

lemma length_escapeText (cfg : LineCfg) : cfg.escapeText.length = cfg.escapeLFString_len := by
  unfold LineCfg.escapeText LineCfg.escapeLFString_len
  cases cfg.escapeLFString <;> rfl

def LineCfg.lfLen (cfg : LineCfg) : ℕ :=
  match cfg.mode with
  | .paragraph => (paragraphLF cfg).length
  | _ => 0

/-- The reader of the pieces and the reader of the whole text differ in the flag only. Where a flag
is set, there is a LF to take back. -/
inductive Synced (cfg : LineCfg) (pos : LinePos) : LineState → LineState → Prop
  | mk (seg : Bytes) (off strt : ℕ) (hempty : seg = [] ↔ pos = .start)
    (hlf : pos.actual = true ∨ pos.ideal = true → cfg.lfLen ≤ seg.length) :
    Synced cfg pos ⟨seg, pos.actual, off, strt⟩ ⟨seg, pos.ideal, off, strt⟩

def InStep (cfg : LineCfg) (pos' : LinePos) (s i : LineState) (x : UInt8 × Bool) : Prop :=
  (lineStep cfg s x).2 = (lineStep cfg i (uncut x)).2 ∧
    Synced cfg pos' (lineStep cfg s x).1 (lineStep cfg i (uncut x)).1

variable {seg : Bytes} {flag : Bool} {off strt : ℕ} {pos pos' : LinePos}

lemma inStep_goOn (hpos : pos' ≠ .start) (hstr : str ≠ [])
    (hlf : pos'.actual = true ∨ pos'.ideal = true → cfg.lfLen ≤ str.length)
    (hs : lineStep cfg s (c, cut) = (⟨str, pos'.actual, off, strt⟩, []))
    (hi : lineStep cfg i (c, false) = (⟨str, pos'.ideal, off, strt⟩, [])) :
    InStep cfg pos' s i (c, cut) := by
  rw [InStep, uncut, hs, hi]
  exact ⟨rfl, .mk str off strt ⟨fun h => absurd h hstr, fun h => absurd h hpos⟩ hlf⟩

open LinePos

lemma inStep_finished {r : LineRecord}
    (hstep : ∀ cut, lineStep cfg s (c, cut) = (⟨[], false, off, strt⟩, [r])) :
    InStep cfg .start s s (c, cut) := by
  rw [InStep, uncut, hstep, hstep]
  exact ⟨rfl, .mk [] off strt ⟨fun _ => rfl, fun _ => rfl⟩ (by simp [actual, ideal])⟩

section Paragraph

variable (hmode : cfg.mode = .paragraph)
include hmode

lemma paragraph_text (hc : c ≠ 10) :
    lineStep cfg ⟨seg, flag, off, strt⟩ (c, cut) =
      (⟨seg ++ [c], cut && flag, off + 1, strt⟩, []) := by
  cases cut <;> simp [lineStep, takeChar, lineAct, hmode, hc]

lemma paragraph_blank :
    lineStep cfg ⟨[], flag, off, strt⟩ (10, cut) =
      (⟨[], false, off + 1, off + 1⟩, [([], strt)]) := by
  simp [lineStep, takeChar, lineAct, LineState.fresh, hmode]

lemma paragraph_lf (hseg : seg ≠ []) (hflag : flag = true → cfg.escapeLFString_len = 0) :
    lineStep cfg ⟨seg, flag, off, strt⟩ (10, cut) =
      (⟨seg ++ paragraphLF cfg, if cut then flag else true, off + 1, strt⟩, []) := by
  have hpos : seg.length > 0 := length_pos_iff.mpr hseg
  have hgoOn : ¬(flag = true ∧ cfg.escapeLFString_len > 0) := by
    rintro ⟨hset, hlen⟩
    exact hlen.ne (hflag hset).symm
  have hact : lineAct cfg seg flag 10 = .goOn (seg ++ paragraphLF cfg) flag true := by
    simp only [lineAct, hmode, paragraphLF]
    rw [if_neg (by simp), if_pos hpos, if_neg hgoOn]
    split <;> rfl
  exact lineStep_goOn hact

lemma paragraph_end (hseg : seg ≠ []) (hlen : cfg.escapeLFString_len ≠ 0) :
    lineStep cfg ⟨seg, true, off, strt⟩ (10, cut) =
      (⟨[], false, off + 1, off + 1⟩,
        [(rsCStrTruncate seg (paragraphLF cfg).length, strt)]) := by
  have hpos : seg.length > 0 := length_pos_iff.mpr hseg
  have hlf : (paragraphLF cfg).length = if cfg.bEscapeLF then cfg.escapeLFString_len else 1 := by
    unfold paragraphLF
    split
    · exact length_escapeText cfg
    · rfl
  simp [lineStep, takeChar, lineAct, LineState.fresh, hmode, hpos, Nat.pos_of_ne_zero hlen, hlf]

lemma Synced.nextParagraph (hlen : cfg.escapeLFString_len ≠ 0) (h : Synced cfg pos s i)
    (hnext : pos.nextParagraph c cut = some pos') : InStep cfg pos' s i (c, cut) := by
  obtain ⟨seg, off, strt, hempty, hlf⟩ := h
  by_cases hc : c = 10
  · subst hc
    cases pos with
    | start =>
      cases hempty.mpr rfl
      cases hnext
      exact inStep_finished fun _ => paragraph_blank hmode
    | text =>
      have hseg : seg ≠ [] := mt hempty.mp nofun
      have hlong : cfg.lfLen ≤ (seg ++ paragraphLF cfg).length := by
        rw [LineCfg.lfLen, hmode, length_append]
        exact Nat.le_add_left _ _
      cases hnext
      cases cut <;>
        exact inStep_goOn nofun (append_ne_nil_of_left_ne_nil hseg _) (fun _ => hlong)
          (paragraph_lf hmode hseg nofun) (paragraph_lf hmode hseg nofun)
    | lf =>
      cases hnext
      exact inStep_finished fun _ => paragraph_end hmode (mt hempty.mp nofun) hlen
    | staleLf | staleText => cases hnext
  · have hne : seg ++ [c] ≠ [] := append_ne_nil_of_right_ne_nil _ (cons_ne_nil c [])
    have hgrow : cfg.lfLen ≤ seg.length → cfg.lfLen ≤ (seg ++ [c]).length := by
      rw [length_append]
      omega
    -- a flag that is set now was set before
    cases pos <;> simp only [nextParagraph, if_neg hc, Option.some.injEq] at hnext <;>
      subst hnext <;> cases cut <;>
      exact inStep_goOn nofun hne (fun h => hgrow (hlf (by revert h; decide)))
        (paragraph_text hmode hc) (paragraph_text hmode hc)

end Paragraph

def indentedLF (cfg : LineCfg) : Bytes :=
  if cfg.bEscapeLF ∧ cfg.escapeLFString_len > 0 then cfg.escapeText else [10]

section Indented

variable (hmode : cfg.mode = .indented)
include hmode

lemma indented_first :
    lineStep cfg ⟨[], false, off, strt⟩ (c, cut) =
      if c = 10 then (⟨[], false, off + 1, off + 1⟩, [(trimLine cfg [], strt)])
      else (⟨[c], false, off + 1, strt⟩, []) := by
  by_cases hc : c = 10 <;> simp [lineStep, takeChar, lineAct, LineState.fresh, hmode, hc]

lemma indented_text (hseg : seg ≠ []) :
    lineStep cfg ⟨seg, false, off, strt⟩ (c, cut) =
      (⟨seg ++ if c = 10 then indentedLF cfg else [c], c = 10, off + 1, strt⟩, []) := by
  by_cases hc : c = 10
  · subst hc
    by_cases hesc : cfg.bEscapeLF = true ∧ cfg.escapeLFString_len > 0 <;>
      simp [lineStep, takeChar, lineAct, indentedLF, hmode, hseg, hesc]
  · simp [lineStep, takeChar, lineAct, hmode, hseg, hc]

lemma indented_space (hseg : seg ≠ []) (hc : c = 32 ∨ c = 9) :
    lineStep cfg ⟨seg, true, off, strt⟩ (c, cut) = (⟨seg ++ [c], cut, off + 1, strt⟩, []) := by
  cases cut <;> simp [lineStep, takeChar, lineAct, hmode, hseg, hc]

lemma indented_end (hseg : seg ≠ []) (hc : ¬(c = 32 ∨ c = 9)) (off strt : ℕ) :
    ∃ record, ∀ cut, lineStep cfg ⟨seg, true, off, strt⟩ (c, cut) =
      ((lineStep cfg ⟨[], false, off, off⟩ (c, cut)).1,
        (record, strt) :: (lineStep cfg ⟨[], false, off, off⟩ (c, cut)).2) := by
  have hact : ∃ record, lineAct cfg seg true c = .finished record true := by
    by_cases hesc : cfg.bEscapeLF = true ∧ cfg.escapeLFString_len > 0 <;>
      simp [lineAct, hmode, hseg, hc, hesc]
  have hfresh : LineState.fresh cfg ⟨seg, true, off, strt⟩ off = ⟨[], false, off, off⟩ := by
    simp [LineState.fresh, hmode]
  obtain ⟨record, hact⟩ := hact
  refine ⟨record, fun cut => ?_⟩
  rw [← hfresh]
  exact lineStep_unread (x := (c, cut)) hact

lemma lfLen_indented (n : ℕ) : cfg.lfLen ≤ n := by
  rw [LineCfg.lfLen, hmode]
  exact Nat.zero_le n

lemma inStep_start (c : UInt8) (cut : Bool) (off strt : ℕ) :
    InStep cfg (if c = 10 then .start else .text) ⟨[], false, off, strt⟩ ⟨[], false, off, strt⟩
      (c, cut) := by
  have hfirst : ∀ cut, lineStep cfg ⟨[], false, off, strt⟩ (c, cut) = _ :=
    fun _ => indented_first hmode
  split_ifs at hfirst ⊢
  · exact inStep_finished hfirst
  · exact inStep_goOn nofun (cons_ne_nil c []) (fun _ => lfLen_indented hmode _) (hfirst cut)
      (hfirst false)

lemma Synced.nextIndented (h : Synced cfg pos s i) (hnext : pos.nextIndented c cut = some pos') :
    InStep cfg pos' s i (c, cut) := by
  obtain ⟨seg, off, strt, hempty, -⟩ := h
  have hne : seg ++ [c] ≠ [] := append_ne_nil_of_right_ne_nil _ (cons_ne_nil c [])
  have hlong : ∀ n, cfg.lfLen ≤ n := lfLen_indented hmode
  cases pos with
  | start =>
    cases hempty.mpr rfl
    cases hnext
    exact inStep_start hmode c cut off strt
  | text =>
    have hseg : seg ≠ [] := mt hempty.mp nofun
    have htext : ∀ cut, lineStep cfg ⟨seg, false, off, strt⟩ (c, cut) = _ :=
      fun _ => indented_text hmode hseg
    cases hnext
    by_cases hc : c = 10
    · subst hc
      exact inStep_goOn nofun (append_ne_nil_of_left_ne_nil hseg _) (fun _ => hlong _) (htext cut)
        (htext false)
    · simp only [if_neg hc, decide_eq_false hc] at htext ⊢
      exact inStep_goOn nofun hne (fun _ => hlong _) (htext cut) (htext false)
  | lf =>
    have hseg : seg ≠ [] := mt hempty.mp nofun
    cases hnext
    by_cases hc : c = 32 ∨ c = 9
    · rw [if_pos hc]
      cases cut <;>
        exact inStep_goOn nofun hne (fun _ => hlong _) (indented_space hmode hseg hc)
          (indented_space hmode hseg hc)
    · rw [if_neg hc]
      obtain ⟨record, hend⟩ := indented_end hmode hseg hc off strt
      obtain ⟨hout, hsynced⟩ := inStep_start hmode c cut off off
      show (lineStep cfg ⟨seg, true, off, strt⟩ (c, cut)).2 =
        (lineStep cfg ⟨seg, true, off, strt⟩ (c, false)).2 ∧ Synced cfg _
          (lineStep cfg ⟨seg, true, off, strt⟩ (c, cut)).1
          (lineStep cfg ⟨seg, true, off, strt⟩ (c, false)).1
      rw [hend, hend]
      exact ⟨congrArg ((record, strt) :: ·) hout, hsynced⟩
  | staleText =>
    have hseg : seg ≠ [] := mt hempty.mp nofun
    -- a blank is appended whatever the flag says, so the readers may still be saved by one
    by_cases hc : c = 32 ∨ c = 9
    · have hlf : c ≠ 10 := by rcases hc with rfl | rfl <;> decide
      have htext : lineStep cfg ⟨seg, false, off, strt⟩ (c, false) = _ := indented_text hmode hseg
      rw [if_neg hlf, decide_eq_false hlf] at htext
      rw [nextIndented, if_pos hc] at hnext
      cases hnext
      cases cut <;>
        exact inStep_goOn nofun hne (fun _ => hlong _) (indented_space hmode hseg hc) htext
    · rw [nextIndented, if_neg hc] at hnext
      cases hnext
  | staleLf => cases hnext

end Indented

def Flagless (cfg : LineCfg) : Prop :=
  cfg.mode = .single ∨ cfg.mode = .paragraph ∧ cfg.escapeLFString_len = 0

/-- **A character that is not misread** leaves the readers in step. -/
theorem Synced.next {x : UInt8 × Bool} (hflag : ¬Flagless cfg) (h : Synced cfg pos s i)
    (hnext : pos.next cfg x = some pos') : InStep cfg pos' s i x := by
  unfold LinePos.next at hnext
  split at hnext
  case h_1 hmode => exact absurd (.inl hmode) hflag
  case h_2 hmode =>
    have hlen : cfg.escapeLFString_len ≠ 0 := fun h => hflag (.inr ⟨hmode, h⟩)
    rw [if_neg hlen] at hnext
    exact h.nextParagraph hmode hlen hnext
  case h_3 hmode => exact h.nextIndented hmode hnext

lemma lineScan_flagless (hflag : Flagless cfg) (pos : LinePos) (xs : List (UInt8 × Bool)) :
    lineScan cfg pos xs = true := by
  have hnext : ∀ x, pos.next cfg x = some pos := by
    intro x
    unfold LinePos.next
    rcases hflag with hmode | ⟨hmode, hlen⟩
    · rw [hmode]
    · rw [hmode]
      exact if_pos hlen
  induction xs with
  | nil => rfl
  | cons x xs ih =>
    rw [lineScan, hnext]
    exact ih

structure SameButFlag (s i : LineState) : Prop where
  seg : s.prevLineSegment = i.prevLineSegment
  off : s.iCurrOffs = i.iCurrOffs
  strt : s.strtOffs = i.strtOffs

lemma single_step (hmode : cfg.mode = .single) :
    lineStep cfg ⟨seg, flag, off, strt⟩ (c, cut) =
      if c = 10 then (⟨[], flag, off + 1, off + 1⟩, [(trimLine cfg seg, strt)])
      else (⟨seg ++ [c], flag, off + 1, strt⟩, []) := by
  by_cases hc : c = 10 <;> simp [lineStep, takeChar, lineAct, LineState.fresh, hmode, hc]

lemma lineStep_flagless (hflag : Flagless cfg) (s i : LineState) (x : UInt8 × Bool)
    (h : SameButFlag s i) :
    (lineStep cfg s x).2 = (lineStep cfg i (uncut x)).2 ∧
      SameButFlag (lineStep cfg s x).1 (lineStep cfg i (uncut x)).1 := by
  obtain ⟨seg, flag, off, strt⟩ := s
  obtain ⟨seg', flag', off', strt'⟩ := i
  obtain ⟨c, cut⟩ := x
  obtain ⟨hseg, hoff, hstrt⟩ := h
  cases hseg
  cases hoff
  cases hstrt
  rcases hflag with hmode | ⟨hmode, hlen⟩
  · rw [uncut, single_step hmode, single_step hmode]
    split <;> exact ⟨rfl, rfl, rfl, rfl⟩
  · by_cases hc : c = 10
    · subst hc
      rcases seg with _ | ⟨d, seg⟩
      · rw [uncut, paragraph_blank hmode, paragraph_blank hmode]
        exact ⟨rfl, rfl, rfl, rfl⟩
      · rw [uncut, paragraph_lf hmode (cons_ne_nil d seg) fun _ => hlen,
          paragraph_lf hmode (cons_ne_nil d seg) fun _ => hlen]
        exact ⟨rfl, rfl, rfl, rfl⟩
    · rw [uncut, paragraph_text hmode hc, paragraph_text hmode hc]
      exact ⟨rfl, rfl, rfl, rfl⟩

variable {xs : List (UInt8 × Bool)}

/-! ## A misread character in mode `1` -/

theorem length_rsCStrTruncate (str : Bytes) (n : ℕ) :
    str.length - n ≤ (rsCStrTruncate str n).length := by
  unfold rsCStrTruncate
  split_ifs
  · exact Nat.sub_le _ _
  · rw [length_take]
    omega

lemma le_length_of_paragraph (hmode : cfg.mode = .paragraph) {r : LineRecord}
    {rs : List LineRecord} (h : (feed (lineStep cfg) ⟨seg, flag, off, strt⟩ xs).2 = r :: rs) :
    seg.length - (paragraphLF cfg).length ≤ r.1.length := by
  induction xs generalizing seg flag off with
  | nil => cases h
  | cons x xs ih =>
    obtain ⟨c, cut⟩ := x
    rw [feed_cons] at h
    by_cases hc : c = 10
    · subst hc
      by_cases hseg : seg = []
      · rw [hseg, length_nil, Nat.zero_sub]
        exact Nat.zero_le _
      · by_cases hend : flag = true ∧ cfg.escapeLFString_len ≠ 0
        · obtain ⟨rfl, hlen⟩ := hend
          rw [paragraph_end hmode hseg hlen] at h
          cases h
          exact length_rsCStrTruncate _ _
        · rw [paragraph_lf hmode hseg (by tauto)] at h
          have hrest := ih h
          rw [length_append] at hrest
          omega
    · rw [paragraph_text hmode hc] at h
      have hrest := ih h
      rw [length_append] at hrest
      omega

/-- **Mode `1`.** One reader ends the record at a LF, and the other does not. -/
theorem paragraph_misread (hmode : cfg.mode = .paragraph) (hlen : cfg.escapeLFString_len ≠ 0)
    (hseg : (paragraphLF cfg).length ≤ seg.length) (off strt : ℕ) (cut cut' : Bool)
    (xs ys : List (UInt8 × Bool)) :
    (feed (lineStep cfg) ⟨seg, true, off, strt⟩ ((10, cut) :: xs)).2 ≠
      (feed (lineStep cfg) ⟨seg, false, off, strt⟩ ((10, cut') :: ys)).2 := by
  have hpos : 0 < (paragraphLF cfg).length := by
    unfold paragraphLF
    split
    · rw [length_escapeText]
      exact Nat.pos_of_ne_zero hlen
    · exact Nat.one_pos
  have hne : seg ≠ [] := length_pos_iff.mp (hpos.trans_le hseg)
  have hlf : lineStep cfg ⟨seg, false, off, strt⟩ (10, cut') = _ := paragraph_lf hmode hne nofun
  rw [feed_cons, feed_cons, paragraph_end hmode hne hlen, hlf]
  intro heq
  have hle := le_length_of_paragraph hmode heq.symm
  have htrunc : (rsCStrTruncate seg (paragraphLF cfg).length).length =
      seg.length - (paragraphLF cfg).length := by
    rw [rsCStrTruncate, if_neg (by omega), length_take]
    omega
  rw [htrunc, length_append] at hle
  omega

/-! ## A misread character in mode `2` -/

/-- Where the reader is, for the number of records: at the start of one, or in one with this
flag. -/
def LineState.At (s : LineState) : Option Bool → Prop
  | none => s.prevLineSegment = [] ∧ s.bPrevWasNL = false
  | some flag => s.prevLineSegment ≠ [] ∧ s.bPrevWasNL = flag

def kindNext : Option Bool → UInt8 × Bool → Option Bool × ℕ
  | none, (c, _) => if c = 10 then (none, 1) else (some false, 0)
  | some false, (c, _) => (some (c = 10), 0)
  | some true, (c, cut) =>
    if c = 32 ∨ c = 9 then (some cut, 0) else if c = 10 then (none, 2) else (some false, 1)

def recordCount : Option Bool → List (UInt8 × Bool) → ℕ
  | _, [] => 0
  | k, x :: xs => (kindNext k x).2 + recordCount (kindNext k x).1 xs

lemma kindNext_end (hc : ¬(c = 32 ∨ c = 9)) (cut : Bool) :
    kindNext (some true) (c, cut) =
      ((kindNext none (c, cut)).1, (kindNext none (c, cut)).2 + 1) := by
  rw [kindNext, kindNext, if_neg hc]
  split <;> rfl

lemma lineStep_kind (hmode : cfg.mode = .indented) {k : Option Bool} (h : s.At k)
    (x : UInt8 × Bool) :
    (lineStep cfg s x).2.length = (kindNext k x).2 ∧ (lineStep cfg s x).1.At (kindNext k x).1 := by
  obtain ⟨c, cut⟩ := x
  have hstart : ∀ off strt, (lineStep cfg ⟨[], false, off, strt⟩ (c, cut)).2.length =
        (kindNext none (c, cut)).2 ∧
      (lineStep cfg ⟨[], false, off, strt⟩ (c, cut)).1.At (kindNext none (c, cut)).1 := by
    intro off strt
    rw [indented_first hmode, kindNext]
    split
    · exact ⟨rfl, rfl, rfl⟩
    · exact ⟨rfl, cons_ne_nil c [], rfl⟩
  obtain ⟨seg, flag, off, strt⟩ := s
  rcases k with _ | _ | _
  · obtain ⟨rfl, rfl⟩ := h
    exact hstart off strt
  · obtain ⟨hseg, rfl⟩ := h
    rw [indented_text hmode hseg]
    exact ⟨rfl, append_ne_nil_of_left_ne_nil hseg _, rfl⟩
  · obtain ⟨hseg, rfl⟩ := h
    by_cases hsp : c = 32 ∨ c = 9
    · rw [indented_space hmode hseg hsp, kindNext, if_pos hsp]
      exact ⟨rfl, append_ne_nil_of_left_ne_nil hseg _, rfl⟩
    · obtain ⟨record, hend⟩ := indented_end hmode hseg hsp off strt
      obtain ⟨hlen, hat⟩ := hstart off off
      rw [hend, kindNext_end hsp]
      exact ⟨congrArg Nat.succ hlen, hat⟩

lemma length_records (hmode : cfg.mode = .indented) {k : Option Bool} (h : s.At k)
    (xs : List (UInt8 × Bool)) : (feed (lineStep cfg) s xs).2.length = recordCount k xs := by
  induction xs generalizing s k with
  | nil => rfl
  | cons x xs ih =>
    obtain ⟨hlen, hnext⟩ := lineStep_kind hmode h x
    rw [feed_cons, length_append, hlen, ih hnext, recordCount]

lemma recordCount_le (xs : List (UInt8 × Bool)) :
    (∀ k, recordCount k (xs.map uncut) ≤ recordCount k xs) ∧
      recordCount (some false) (xs.map uncut) ≤ recordCount (some true) xs ∧
      recordCount (some true) (xs.map uncut) ≤ recordCount none xs + 1 := by
  induction xs with
  | nil => exact ⟨fun _ => le_refl _, le_refl _, Nat.zero_le _⟩
  | cons x xs ih =>
    obtain ⟨hsame, hstale, hblank⟩ := ih
    have hstart := hsame none
    have htext := hsame (some false)
    have hlf := hsame (some true)
    obtain ⟨c, cut⟩ := x
    have hws : (c = 32 ∨ c = 9) → c ≠ 10 := by
      rintro (rfl | rfl) <;> decide
    refine ⟨fun k => ?_, ?_, ?_⟩
    · rcases k with _ | _ | _
      · by_cases hc : c = 10 <;> simp [recordCount, kindNext, uncut, hc] <;> omega
      · by_cases hc : c = 10 <;> simp [recordCount, kindNext, uncut, hc] <;> omega
      · by_cases hsp : c = 32 ∨ c = 9
        · cases cut <;> simp [recordCount, kindNext, uncut, hsp] <;> omega
        · by_cases hc : c = 10 <;> simp [recordCount, kindNext, uncut, hc, hsp] <;> omega
    · by_cases hsp : c = 32 ∨ c = 9
      · cases cut <;> simp [recordCount, kindNext, uncut, hsp, hws hsp] <;> omega
      · by_cases hc : c = 10 <;> simp [recordCount, kindNext, uncut, hc, hsp] <;> omega
    · by_cases hsp : c = 32 ∨ c = 9
      · simp [recordCount, kindNext, uncut, hsp, hws hsp]
        omega
      · by_cases hc : c = 10 <;> simp [recordCount, kindNext, uncut, hc, hsp] <;> omega

/-- **Mode `2`.** The reader of the pieces ends a record that the other goes on with. -/
theorem indented_misread (hmode : cfg.mode = .indented) (hseg : seg ≠ []) (off strt : ℕ)
    (hc : ¬(c = 32 ∨ c = 9)) (cut : Bool) (xs : List (UInt8 × Bool)) :
    (feed (lineStep cfg) ⟨seg, true, off, strt⟩ ((c, cut) :: xs)).2 ≠
      (feed (lineStep cfg) ⟨seg, false, off, strt⟩ ((c, false) :: xs.map uncut)).2 := by
  have hs := length_records (s := ⟨seg, true, off, strt⟩) (k := some true) hmode ⟨hseg, rfl⟩
    ((c, cut) :: xs)
  have hi := length_records (s := ⟨seg, false, off, strt⟩) (k := some false) hmode ⟨hseg, rfl⟩
  -- the first reader is one record ahead now, and the other never catches up
  obtain ⟨hsame, -, hblank⟩ := recordCount_le xs
  have htext := hsame (some false)
  intro heq
  rw [heq, hi] at hs
  by_cases hlf : c = 10
  · simp [recordCount, kindNext, hlf] at hs
    omega
  · simp [recordCount, kindNext, hlf, hc] at hs
    omega

lemma misread_of_nextParagraph (h : pos.nextParagraph c cut = none) :
    c = 10 ∧ (pos = .staleLf ∨ pos = .staleText) := by
  cases pos <;> simp [nextParagraph] at h ⊢ <;> exact h

lemma misread_of_nextIndented (hpos : pos ≠ .staleLf) (h : pos.nextIndented c cut = none) :
    ¬(c = 32 ∨ c = 9) ∧ pos = .staleText := by
  cases pos <;> simp [nextIndented] at h hpos ⊢
  exact h

lemma nextIndented_ne_staleLf (pos : LinePos) (c : UInt8) (cut : Bool) :
    pos.nextIndented c cut ≠ some .staleLf := by
  cases pos <;> simp [nextIndented] <;> split_ifs <;> simp

/-- **Cuts** change the records exactly if a character is misread. -/
theorem records_eq_iff_lineScan (h : Synced cfg pos s i)
    (hpos : cfg.mode = .indented → pos ≠ .staleLf) :
    (feed (lineStep cfg) s xs).2 = (feed (lineStep cfg) i (xs.map uncut)).2 ↔
      lineScan cfg pos xs = true := by
  by_cases hflag : Flagless cfg
  · obtain ⟨seg, off, strt, -, -⟩ := h
    exact iff_of_true (feed_lockstep (lineStep_flagless hflag) ⟨rfl, rfl, rfl⟩)
      (lineScan_flagless hflag _ _)
  induction xs generalizing pos s i with
  | nil => exact iff_of_true rfl rfl
  | cons x xs ih =>
    obtain ⟨c, cut⟩ := x
    rw [lineScan]
    cases hnext : pos.next cfg (c, cut) with
    | some pos' =>
      obtain ⟨hout, hsynced⟩ := h.next hflag hnext
      have hpos' : cfg.mode = .indented → pos' ≠ .staleLf := by
        rintro hmode rfl
        rw [LinePos.next, hmode] at hnext
        exact nextIndented_ne_staleLf pos c cut hnext
      rw [map_cons, feed_cons, feed_cons, hout, append_cancel_left_eq, ih hsynced hpos']
    | none =>
      refine iff_of_false ?_ Bool.false_ne_true
      obtain ⟨seg, off, strt, hempty, hlf⟩ := h
      unfold LinePos.next at hnext
      split at hnext
      case h_1 => cases hnext
      case h_2 hmode =>
        have hlen : cfg.escapeLFString_len ≠ 0 := fun h => hflag (.inr ⟨hmode, h⟩)
        rw [LineCfg.lfLen, hmode] at hlf
        rw [if_neg hlen] at hnext
        obtain ⟨rfl, rfl | rfl⟩ := misread_of_nextParagraph hnext
        · exact (paragraph_misread hmode hlen (hlf (.inr rfl)) off strt false cut _ _).symm
        · exact paragraph_misread hmode hlen (hlf (.inl rfl)) off strt cut false _ _
      case h_3 hmode =>
        obtain ⟨hc, rfl⟩ := misread_of_nextIndented (hpos hmode) hnext
        exact indented_misread hmode (mt hempty.mp nofun) off strt hc cut xs

/-! ## Pieces and the whole -/

/-- Nothing lags behind but at a cut. -/
lemma exists_next (cfg : LineCfg) (c : UInt8) (cut : Bool)
    (hpos : pos ≠ .staleLf ∧ pos ≠ .staleText) : ∃ pos', pos.next cfg (c, cut) = some pos' ∧
      (cut = false → pos' ≠ .staleLf ∧ pos' ≠ .staleText) := by
  unfold LinePos.next
  cases pos <;> cases cfg.mode <;>
    simp_all [nextParagraph, nextIndented] <;> split_ifs <;> simp [*]

lemma lineScan_mark (w : Bytes) (hpos : pos ≠ .staleLf ∧ pos ≠ .staleText) :
    lineScan cfg pos (mark w) = true := by
  induction w generalizing pos with
  | nil => rfl
  | cons c w ih =>
    obtain ⟨pos', hnext, hpos'⟩ := exists_next cfg c w.isEmpty hpos
    rw [mark, lineScan, hnext]
    cases w with
    | nil => rfl
    | cons d w => exact ih (hpos' rfl)

lemma map_uncut_mark (w : Bytes) : (mark w).map uncut = w.map fun c => (c, false) := by
  induction w with
  | nil => rfl
  | cons c w ih =>
    rw [mark, map_cons, ih]
    rfl

lemma map_uncut_flatten (pieces : List Bytes) :
    (pieces.map mark).flatten.map uncut = (mark pieces.flatten).map uncut := by
  rw [map_uncut_mark]
  induction pieces with
  | nil => rfl
  | cons piece pieces ih =>
    rw [map_cons, flatten_cons, map_append, map_uncut_mark, ih, flatten_cons,
      map_append]

/-- **Records of a file that grows.** They are those of the whole content exactly if no character is
misread at a cut. -/
theorem records_eq_iff (cfg : LineCfg) (pieces : List Bytes) :
    (feed (pollFileReal cfg) .construct pieces).2 =
        (feed (pollFileReal cfg) .construct [pieces.flatten]).2 ↔ CutsOk cfg pieces := by
  have hsynced : Synced cfg .start LineStrm.construct.state LineStrm.construct.state :=
    .mk [] 0 0 ⟨fun _ => rfl, fun _ => rfl⟩ (by simp [actual, ideal])
  have hwhole := (records_eq_iff_lineScan hsynced nofun).mpr
    (lineScan_mark pieces.flatten ⟨nofun, nofun⟩)
  rw [feed_pollFileReal rfl, feed_pollFileReal rfl, map_singleton, flatten_singleton, hwhole,
    ← map_uncut_flatten, records_eq_iff_lineScan hsynced nofun, CutsOk]

/-- A paragraph whose second LF is found by another poll is not returned. A continuation line of
which a poll finds only the indentation is taken for a record of its own. -/
theorem records_depend_on_cuts :
    (feed (pollFileReal ⟨.paragraph, true, none, 0⟩) .construct [ascii "a\n", ascii "\n"]).2 = [] ∧
      (feed (pollFileReal ⟨.paragraph, true, none, 0⟩) .construct [ascii "a\n\n"]).2 =
        [(ascii "a", 0)] ∧
      (feed (pollFileReal ⟨.indented, true, none, 0⟩) .construct [ascii "a\n ", ascii "b\nc"]).2 =
        [(ascii "a#", 0), (ascii "b", 3)] ∧
      (feed (pollFileReal ⟨.indented, true, none, 0⟩) .construct [ascii "a\n b\nc"]).2 =
        [(ascii "a#012 b", 0)] := by
  decide

end Rsyslog.Stream
