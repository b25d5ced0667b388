import Rsyslog.Stream.Circular

/-!
# What a circular stream leaves on disk

The files are a list: full ones, of at least the maximum size, and the current one, which is not
there before something is written to it. Their numbers start at 1. Together with the buffer they are
what was written (`Holds`). This goes on until the numbers come round: then there is a file with the
number 0, and once that is so it stays so.

A reader passes through the files in the same order, and gets everything that they contain.
-/

namespace Rsyslog.Stream.Circular

open List

def Dir.of (fs : List Bytes) : Dir
  | 0 => none
  | n + 1 => fs[n]?

variable {cfg : Cfg}

/-! ## The writer -/

/-- The state of the stream with some full files and the current one, which is closed as long as it
is empty. -/
structure Wrote (full : List Bytes) (cur : Bytes) (s : Strm cfg) : Prop where
  sizes : ∀ f ∈ full, cfg.iMaxFileSize ≤ f.length
  small : cur.length < cfg.iMaxFileSize
  num : s.iCurrFNum = full.length + 1 ∧ (full.length = 0 ∨ full.length + 1 < cfg.iMaxFiles) ∨
    s.iCurrFNum = 0 ∧ cur = [] ∧ (full.length ≤ 1 ∨ full.length < cfg.iMaxFiles)
  fd : s.fd = if cur = [] then none else some cur.length
  offs : s.iCurrOffs = cur.length
  files : s.files = Dir.of (full ++ if cur = [] then [] else [cur])

/-- What was written is in the files and the buffer, or else the numbers have come round. -/
def Holds (w : Bytes) (s : Strm cfg) : Prop :=
  (∃ full cur, Wrote full cur s ∧ full.flatten ++ cur ++ s.pIOBuf = w) ∨ s.files 0 ≠ none

open Dir Nat Function

lemma Dir.update_of (fs last : List Bytes) (hlast : last.length ≤ 1) (f : Bytes) :
    update (of (fs ++ last)) (fs.length + 1) (some f) = of (fs ++ [f]) := by
  funext k
  cases k with
  | zero => rw [update_of_ne (Nat.succ_ne_zero _).symm, of, of]
  | succ k =>
    rcases Nat.lt_trichotomy k fs.length with hk | rfl | hk
    · rw [update_of_ne (by omega), of, of, getElem?_append_left hk, getElem?_append_left hk]
    · simp [of]
    · rw [update_of_ne (by omega), of, of, getElem?_eq_none, getElem?_eq_none]
      · simp only [length_append, length_singleton]
        omega
      · rw [length_append]
        omega

variable {s : Strm cfg} {full : List Bytes} {cur : Bytes}

lemma strmOpenFile_wrote (h : Wrote full cur s) (hnum : s.iCurrFNum = full.length + 1) :
    strmOpenFile s = { s with fd := some cur.length, files := of (full ++ [cur]) } := by
  obtain ⟨-, -, -, hfd, hoffs, hfiles⟩ := h
  unfold strmOpenFile
  by_cases hcur : cur = []
  · subst hcur
    have hnone : s.files s.iCurrFNum = none := by
      rw [hfiles, hnum]
      simp [of]
    have hupd : update s.files s.iCurrFNum (some []) = of (full ++ [[]]) := by
      rw [hfiles, hnum]
      exact update_of full [] (zero_le 1) []
    have hopened : opened cfg.tOperationsMode none = [] := by simp [opened]
    rw [if_pos rfl] at hfd
    simp only [hfd, hnone, hopened, hupd, length_nil, ite_self]
    rw [length_nil] at hoffs
    rw [hoffs]
  · rw [if_neg hcur] at hfd hfiles
    simp only [hfd]
    rw [← hfd, ← hfiles]

lemma doWriteCall_wrote (h : Wrote full cur s) (hnum : s.iCurrFNum = full.length + 1)
    (data : Bytes) :
    doWriteCall data (strmOpenFile s) = { s with
      fd := some (cur ++ data).length, files := of (full ++ [cur ++ data]) } := by
  have hcur : (of (full ++ [cur])) s.iCurrFNum = some cur := by
    rw [hnum]
    simp [of]
  have hwrite : writeAt cur.length data cur = cur ++ data := by
    simp [writeAt]
  rw [strmOpenFile_wrote h hnum]
  have hupd : update (of (full ++ [cur])) s.iCurrFNum (some (cur ++ data)) =
      of (full ++ [cur ++ data]) := by
    rw [hnum]
    exact update_of full [cur] (le_refl 1) (cur ++ data)
  simp [doWriteCall, hcur, hwrite, hupd]

variable {data : Bytes}

lemma files_strmPhysWrite (data : Bytes) (s : Strm cfg) {k : ℕ}
    (hk : k ≠ s.iCurrFNum → s.files k ≠ none) : (strmPhysWrite data s).files k ≠ none := by
  have hopen : (strmOpenFile s).iCurrFNum = s.iCurrFNum ∧
      (k ≠ s.iCurrFNum → (strmOpenFile s).files k ≠ none) := by
    unfold strmOpenFile
    split
    · exact ⟨rfl, hk⟩
    · exact ⟨rfl, fun he => by simpa [update_of_ne he] using hk he⟩
  have hwrite : (doWriteCall data (strmOpenFile s)).files k ≠ none := by
    by_cases he : k = s.iCurrFNum
    · simp [doWriteCall, he, hopen.1]
    · simpa [doWriteCall, hopen.1, update_of_ne he] using hopen.2 he
  unfold strmPhysWrite strmCheckNextOutputFile
  dsimp only
  split
  · exact hwrite
  · split <;> exact hwrite

lemma strmPhysWrite_wrote (h : Wrote full cur s) (hdata : data ≠ []) :
    Wrote full (cur ++ data) (strmPhysWrite data s) ∨
      Wrote (full ++ [cur ++ data]) [] (strmPhysWrite data s) ∨
      (strmPhysWrite data s).files 0 ≠ none := by
  rcases h.num with ⟨hnum, hfew⟩ | ⟨hnum, -, -⟩
  swap
  · exact .inr (.inr (files_strmPhysWrite data s fun hne => absurd hnum.symm hne))
  have hne : cur ++ data ≠ [] := by simp [hdata]
  simp only [strmPhysWrite, doWriteCall_wrote h hnum, strmCheckNextOutputFile, h.offs]
  rw [if_neg (by simp)]
  by_cases hfull : cfg.iMaxFileSize ≤ cur.length + data.length
  · rw [if_pos hfull]
    refine .inr (.inl ⟨?_, cfg.file_pos, ?_, by simp [strmNextFile, strmCloseFile],
      rfl, by simp [strmNextFile, strmCloseFile]⟩)
    · intro f hf
      rw [mem_append, mem_singleton] at hf
      rcases hf with hf | rfl
      · exact h.sizes f hf
      · rwa [length_append]
    · have hpos := cfg.files_pos
      simp only [strmNextFile, hnum, length_append, length_singleton]
      by_cases hlast : full.length + 2 < cfg.iMaxFiles
      · exact .inl ⟨mod_eq_of_lt hlast, .inr hlast⟩
      · refine .inr ⟨?_, trivial, by omega⟩
        -- There are at most two numbers, or this is the last one.
        obtain hone | htwo : cfg.iMaxFiles = 1 ∨ full.length + 2 = cfg.iMaxFiles := by omega
        · rw [hone, mod_one]
        · rw [htwo, mod_self]
  · rw [if_neg hfull]
    refine .inl ⟨h.sizes, ?_, .inl ⟨hnum, hfew⟩, ?_, ?_, ?_⟩
    · rw [length_append]
      omega
    · rw [if_neg hne]
    · exact length_append.symm
    · rw [if_neg hne]

variable {w : Bytes} (data)

lemma holds_strmFlushInternal (h : Holds w s) : Holds w (strmFlushInternal s) := by
  unfold strmFlushInternal
  split
  case isFalse => exact h
  next hpos =>
  rcases h with ⟨full, cur, hw, rfl⟩ | h
  · have hw' : Wrote full cur { s with pIOBuf := [], fits := zero_le _ } := { hw with }
    rcases strmPhysWrite_wrote hw' (length_pos_iff.1 hpos) with h | h | h
    · exact .inl ⟨_, _, h, by simp [strmSchedWrite]⟩
    · exact .inl ⟨_, _, h, by simp [strmSchedWrite]⟩
    · exact .inr h
  · exact .inr (files_strmPhysWrite _ _ fun _ => h)

lemma holds_makeRoom (h : Holds w s) : Holds w (makeRoom s) := by
  unfold makeRoom
  split
  · exact holds_strmFlushInternal h
  · exact h

lemma holds_copy (h : Holds w s) (data : Bytes)
    (hfits : s.pIOBuf.length + data.length ≤ cfg.sIOBufSize) :
    Holds (w ++ data) (copy data s hfits) := by
  rcases h with ⟨full, cur, hw, rfl⟩ | h
  · exact .inl ⟨full, cur, { hw with }, by simp [copy]⟩
  · exact .inr h

lemma chunk_append (s : Strm cfg) : chunk data s ++ data.drop (chunk data s).length = data :=
  prefix_iff_eq_append.mp ( take_prefix _ _)

lemma holds_strmWriteLoop (h : Holds w s) : Holds (w ++ data) (strmWriteLoop data s) := by
  fun_induction strmWriteLoop data s generalizing w
  case case1 data s s' rest _ ih =>
    have hloop := ih (holds_copy (holds_makeRoom h) _ (chunk_fits data (makeRoom s)))
    rwa [append_assoc, chunk_append] at hloop
  case case2 data s s' rest hrest =>
    have hend : rest = [] := length_eq_zero_iff.1 (Nat.eq_zero_of_not_pos hrest)
    have happend : chunk data (makeRoom s) ++ rest = data := chunk_append data (makeRoom s)
    have hcopy : Holds _ s' := holds_copy (holds_makeRoom h) _ (chunk_fits data (makeRoom s))
    rw [hend, append_nil] at happend
    rwa [happend] at hcopy

lemma holds_step (h : Holds w s) (op : Op) : Holds (w ++ op.data) (step s op) := by
  cases op with
  | write data => exact holds_makeRoom (holds_strmWriteLoop data h)
  | writeChar c => exact holds_copy (holds_makeRoom h) [c] (makeRoom_lt s)
  | flush =>
    rw [Op.data, append_nil]
    exact holds_strmFlushInternal h

lemma holds_run (h : Holds w s) (ops : List Op) :
    Holds (w ++ ops.flatMap Op.data) (ops.foldl step s) := by
  induction ops generalizing w s with
  | nil => simpa using h
  | cons op ops ih =>
    rw [flatMap_cons, ← append_assoc]
    exact ih (holds_step h op)

lemma holds_construct (cfg : Cfg) : Holds [] (construct cfg) :=
  .inl ⟨[], [], ⟨by simp, cfg.file_pos, .inl ⟨rfl, .inl rfl⟩, rfl, rfl,
    funext fun k => by cases k <;> rfl⟩, rfl⟩

/-! ## The reader -/

section

variable {iMaxFiles : ℕ} (rd : ReadCall) {fs : List Bytes}

/-- What the files from a number on contain. -/
def behind (fs : List Bytes) : ℕ → Bytes
  | 0 => []
  | n + 1 => (fs.drop n).flatten

/-- What the reader has still to read: what is in its buffer, the rest of the file that is open and
the files behind it. -/
def Ahead (fs : List Bytes) (r : Reader) (t : Bytes) : Prop :=
  r.iUngetC = none ∧
    match r.fd with
    | none => r.pIOBuf = [] ∧ t = behind fs r.iCurrFNum
    | some pos => ∃ f, of fs r.iCurrFNum = some f ∧ pos ≤ f.length ∧
        t = r.pIOBuf ++ f.drop pos ++ behind fs (r.iCurrFNum + 1)

/-- The outcome of filling the buffer with `t` still to read. -/
def Filled (fs : List Bytes) (t : Bytes) : Option (Except RsRet Unit × Reader) → Prop
  | some (.ok (), r) => Ahead fs r t ∧ r.pIOBuf ≠ []
  | some (.error _, _) => t = []
  | none => False

lemma behind_of_none {n : ℕ} (h : of fs n = none) : behind fs n = [] := by
  cases n with
  | zero => rfl
  | succ n => rw [behind, drop_eq_nil_of_le (List.getElem?_eq_none_iff.1 h), flatten_nil]

lemma behind_of_some {n : ℕ} {f : Bytes} (h : of fs n = some f) :
    f ∈ fs ∧ behind fs n = f ++ behind fs (n + 1) := by
  cases n with
  | zero => cases h
  | succ n =>
    obtain ⟨hlt, rfl⟩ := List.getElem?_eq_some_iff.1 h
    exact ⟨getElem_mem hlt, by rw [behind, behind, drop_eq_getElem_cons hlt, flatten_cons]⟩

/-- The number that comes behind the one of a file leads to the files behind it. -/
lemma behind_next {n : ℕ} {f : Bytes} (hpos : 0 < iMaxFiles)
    (hfew : fs.length ≤ 1 ∨ fs.length < iMaxFiles) (hf : of fs n = some f) :
    behind fs ((n + 1) % iMaxFiles) = behind fs (n + 1) := by
  cases n with
  | zero => cases hf
  | succ n =>
    have hlt := (List.getElem?_eq_some_iff.1 hf).1
    by_cases hlast : n + 2 < iMaxFiles
    · rw [mod_eq_of_lt hlast]
    · have hend : fs.drop (n + 1) = [] := drop_eq_nil_of_le (by omega)
      have hround : (n + 2) % iMaxFiles = 0 := by
        obtain hone | htwo : iMaxFiles = 1 ∨ n + 2 = iMaxFiles := by omega
        · rw [hone, mod_one]
        · rw [htwo, mod_self]
      rw [hround, behind, behind, hend, flatten_nil]

variable {r : Reader}

lemma ahead_of_read {f : Bytes} {pos n : ℕ} (hunget : r.iUngetC = none)
    (hf : of fs r.iCurrFNum = some f) (hn : n ≤ (f.drop pos).length) (hpos : pos ≤ f.length) :
    Ahead fs { r with pIOBuf := (f.drop pos).take n, fd := some (pos + n) }
      (f.drop pos ++ behind fs (r.iCurrFNum + 1)) := by
  rw [length_drop] at hn
  refine ⟨hunget, f, hf, by omega, ?_⟩
  rw [← drop_drop (l := f), take_append_drop]

variable {t : Bytes} (hne : [] ∉ fs)

include hne

lemma strmReadBuf_closed (h : Ahead fs r t) (hfd : r.fd = none) (rounds : ℕ) :
    Filled fs t (strmReadBuf iMaxFiles rd (of fs) (rounds + 1) r) := by
  obtain ⟨hunget, h⟩ := h
  rw [hfd] at h
  obtain ⟨hbuf, rfl⟩ := h
  simp only [strmReadBuf, Reader.strmOpenFile, hfd]
  cases hf : of fs r.iCurrFNum with
  | none => exact behind_of_none hf
  | some f =>
    obtain ⟨hmem, hbehind⟩ := behind_of_some hf
    have hfne : f ≠ [] := fun he => hne (he ▸ hmem)
    have hread : rd.amount (f.drop 0) ≠ 0 := by simpa [rd.eof_iff] using hfne
    simp only [if_neg hread]
    refine ⟨?_, ?_⟩
    · rw [hbehind]
      have hle : 0 ≤ f.length := zero_le _
      exact ahead_of_read (r := { r with fd := some 0, iCurrOffs := 0, pIOBuf := [] }) hunget hf
        (rd.le_rest _) hle
    · simpa [take_eq_nil_iff, hfne] using hread

variable (hpos : 0 < iMaxFiles) (hfew : fs.length ≤ 1 ∨ fs.length < iMaxFiles)

include hpos hfew

lemma strmReadBuf_filled (h : Ahead fs r t) (hbuf : r.pIOBuf = []) (rounds : ℕ) :
    Filled fs t (strmReadBuf iMaxFiles rd (of fs) (rounds + 2) r) := by
  cases hfd : r.fd with
  | none => exact strmReadBuf_closed rd hne h hfd (rounds + 1)
  | some pos =>
    obtain ⟨hunget, h⟩ := h
    rw [hfd] at h
    obtain ⟨f, hf, hle, rfl⟩ := h
    unfold strmReadBuf
    simp only [Reader.strmOpenFile, hfd, hf, Option.getD_some]
    rw [hbuf]
    split
    · next hread =>
      rw [rd.eof_iff] at hread
      rw [hread]
      have hahead : Ahead fs (r.strmNextFile iMaxFiles) (behind fs (r.iCurrFNum + 1)) :=
        ⟨hunget, hbuf, (behind_next hpos hfew hf).symm⟩
      exact strmReadBuf_closed rd hne hahead rfl rounds
    · next hread =>
      refine ⟨ahead_of_read hunget hf (rd.le_rest _) hle, ?_⟩
      rw [rd.eof_iff] at hread
      rw [ne_eq, take_eq_nil_iff, rd.eof_iff]
      simpa using hread

lemma strmReadChar_ahead (h : Ahead fs r t) (rounds : ℕ) :
    match t with
    | [] => ∃ r', strmReadChar iMaxFiles rd (of fs) (rounds + 2) r =
        some (.error .fileNotFound, r')
    | c :: t => ∃ r', strmReadChar iMaxFiles rd (of fs) (rounds + 2) r = some (.ok c, r') ∧
        Ahead fs r' t := by
  have hunget := h.1
  have hfill : Filled fs t (if r.pIOBuf = [] then
      strmReadBuf iMaxFiles rd (of fs) (rounds + 2) r else some (.ok (), r)) := by
    split
    · next hbuf => exact strmReadBuf_filled rd hne hpos hfew h hbuf rounds
    · next hbuf => exact ⟨h, hbuf⟩
  simp only [strmReadChar, hunget]
  generalize (if r.pIOBuf = [] then strmReadBuf iMaxFiles rd (of fs) (rounds + 2) r
    else some (.ok (), r)) = filled at hfill
  match filled, hfill with
  | some (.error .fileNotFound, r'), hfill =>
    subst hfill
    exact ⟨r', rfl⟩
  | some (.ok (), ⟨c :: buf, unget, none, num, offs⟩), ⟨hahead, _⟩ =>
    exact absurd hahead.2.1 (cons_ne_nil c buf)
  | some (.ok (), ⟨c :: buf, unget, some pos, num, offs⟩), ⟨hahead, _⟩ =>
    obtain ⟨hunget', f, hf, hpos, ht⟩ := hahead
    subst ht
    exact ⟨_, rfl, hunget', f, hf, hpos, rfl⟩
  | some (.ok (), ⟨[], unget, fd, num, offs⟩), ⟨_, hbuf⟩ => exact absurd rfl hbuf

lemma readChars_ahead (h : Ahead fs r t) (rounds : ℕ) {n : ℕ} (hn : t.length < n) :
    readChars iMaxFiles rd (of fs) (rounds + 2) n r = some (t, some .fileNotFound) := by
  induction t generalizing r n with
  | nil =>
    obtain ⟨n, rfl⟩ := Nat.exists_eq_add_of_lt hn
    obtain ⟨r', hr⟩ := strmReadChar_ahead rd hne hpos hfew h rounds
    simp [readChars, hr]
  | cons c t ih =>
    cases n with
    | zero => simp at hn
    | succ n =>
      obtain ⟨r', hr, h'⟩ := strmReadChar_ahead rd hne hpos hfew h rounds
      have hrest := ih h' (by simpa using hn)
      simp [readChars, hr, hrest]

end

/-! ## Writing and reading -/

lemma Wrote.exists_files (h : Wrote full cur s) :
    ∃ fs, s.files = of fs ∧ fs.flatten = full.flatten ++ cur ∧ [] ∉ fs ∧
      (fs.length ≤ 1 ∨ fs.length < cfg.iMaxFiles) ∧
      ∀ f ∈ fs.dropLast, cfg.iMaxFileSize ≤ f.length := by
  have hfull : [] ∉ full := fun hf => absurd (h.sizes [] hf) (not_le.2 cfg.file_pos)
  have hnum := h.num
  by_cases hcur : cur = []
  · subst hcur
    refine ⟨full, ?_, (append_nil _).symm, hfull, by omega, ?_⟩
    · rw [h.files, if_pos rfl, append_nil]
    · exact fun f hf => h.sizes f (dropLast_subset full hf)
  · refine ⟨full ++ [cur], ?_, ?_, ?_, ?_, ?_⟩
    · rw [h.files, if_neg hcur]
    · rw [flatten_append, flatten_singleton]
    · rw [mem_append, mem_singleton]
      exact fun hmem => hmem.elim hfull fun he => hcur he.symm
    · have hfew := hnum.resolve_right fun h => hcur h.2.1
      rw [length_append, length_singleton]
      omega
    · rw [dropLast_concat]
      exact h.sizes

lemma pIOBuf_of_flush_last {ops : List Op} (h : ops.getLast? = some .flush) (s : Strm cfg) :
    (ops.foldl step s).pIOBuf = [] := by
  obtain ⟨ops, rfl⟩ := getLast?_eq_some_iff.1 h
  rw [foldl_concat]
  exact pIOBuf_strmFlushInternal _

/-- As long as the numbers of the files have not come round to 0, the files are what was written, up
to what is still in the buffer, and a reader gets them back. -/
theorem files_eq_written (cfg : Cfg) (ops : List Op)
    (hround : (ops.foldl step (construct cfg)).files 0 = none) :
    ∃ fs, (ops.foldl step (construct cfg)).files = of fs ∧
      fs.flatten ++ (ops.foldl step (construct cfg)).pIOBuf = ops.flatMap Op.data ∧
      (ops.getLast? = some .flush → fs.flatten = ops.flatMap Op.data) ∧
      (∀ f ∈ fs.dropLast, cfg.iMaxFileSize ≤ f.length) ∧
      ∀ (rd : ReadCall) (rounds n : ℕ), fs.flatten.length < n →
        readChars cfg.iMaxFiles rd (ops.foldl step (construct cfg)).files (rounds + 2) n
          Reader.construct = some (fs.flatten, some .fileNotFound) := by
  have hrun := holds_run (holds_construct cfg) ops
  rcases hrun with ⟨full, cur, hw, hdata⟩ | hzero
  · obtain ⟨fs, hfiles, hflat, hne, hfew, hsizes⟩ := hw.exists_files
    rw [hfiles]
    rw [← hflat] at hdata
    refine ⟨fs, rfl, hdata, ?_, hsizes, ?_⟩
    · intro hlast
      rwa [pIOBuf_of_flush_last hlast, append_nil] at hdata
    · intro rd rounds n hn
      have hahead : Ahead fs Reader.construct fs.flatten := ⟨rfl, rfl, rfl⟩
      exact readChars_ahead rd hne cfg.files_pos hfew hahead rounds hn
  · exact absurd hround hzero

/-- Three octets, with two in a file. -/
theorem files_eq_written_three :
    let cfg : Cfg := ⟨2, 2, 5, .writeTrunc, by decide, by decide, by decide⟩
    ∃ fs, ([Op.write [1, 2, 3], .flush].foldl step (construct cfg)).files = of fs ∧
      fs.flatten = [1, 2, 3] := by
  intro cfg
  obtain ⟨fs, hfiles, -, hflush, -⟩ :=
    files_eq_written cfg [.write [1, 2, 3], .flush] (by decide +kernel)
  exact ⟨fs, hfiles, hflush rfl⟩

end Rsyslog.Stream.Circular
