import Rsyslog.Lib.Translate
import Rsyslog.Parser.Rfc3164

/-!
# HOSTNAME in RFC 3164 messages

What the parser takes for a HOSTNAME, without the loop that looks for it.
-/

namespace Rsyslog.Parser.Rfc3164

open Lib Datetime List
open Option (map_some bind_eq_bind bind_some)
open Bool (and_eq_true)

variable {inst : InstanceConf}

/-- A word of octets that a HOSTNAME may consist of, not ending with punctuation. -/
def isPlainWord (inst : InstanceConf) (word : Bytes) : Bool :=
  word.all (hostChar inst) && word.getLast?.any isalnum && decide (word.length ≤ 511)

/-- What may follow the opening bracket: with it up to 512 octets, one too many for the buffer. -/
def isBracketWord (inst : InstanceConf) : Bytes → Bool
  | [] => false
  | d :: t => (hostChar inst d || d == 93) && t.getLast? == some 93 &&
      t.dropLast.all (hostChar inst) && decide (t.length ≤ 510)

/-- Behind which the message ends: any such octets will do. -/
def isPlainText (inst : InstanceConf) (text : Bytes) : Bool :=
  text.all (hostChar inst) && decide (text.length ≤ 511)

/-- The same behind an opening bracket. -/
def isBracketText (inst : InstanceConf) : Bytes → Bool
  | [] => true
  | d :: t => (hostChar inst d || d == 93) && t.all (hostChar inst) && decide (t.length ≤ 509)

/-- The text starts with a bracket that is permitted. -/
def bracketed (inst : InstanceConf) (text : Bytes) : Bool :=
  inst.bPermitSquareBracketsInHostname && text.head? == some 91

/-- A word that is a HOSTNAME. -/
def isHostWord (inst : InstanceConf) (word : Bytes) : Bool :=
  if bracketed inst word then isBracketWord inst word.tail else isPlainWord inst word

/-- A text that is taken for a HOSTNAME when the message ends behind it. -/
def isHostText (inst : InstanceConf) (text : Bytes) : Bool :=
  if bracketed inst text then isBracketText inst text.tail else isPlainText inst text && text != []

def firstWord (text : Bytes) : Bytes := text.takeWhile (· ≠ 32)

def startsWithHost (inst : InstanceConf) (text : Bytes) : Prop :=
  32 ∈ text ∧ isHostWord inst (firstWord text) = true
deriving Decidable

/-- The HOSTNAME at the start of the text, if there is one, and what comes behind it. At the end of
the message a HOSTNAME is only found if the counter is right. -/
def hostOf (inst : InstanceConf) (k : ℕ) (text : Bytes) : Option (Bytes × Bytes) :=
  if startsWithHost inst text then
    some (firstWord text, text.drop ((firstWord text).length + 1))
  else if k = 0 ∧ isHostText inst text then some (text, [])
  else none

/-- What the loop copies of a word. -/
def plainBuf (inst : InstanceConf) (text : Bytes) : Bytes :=
  (text.takeWhile (hostChar inst)).take 511

/-- What the loop copies behind an opening bracket. -/
def bracketBuf (inst : InstanceConf) : Bytes → Bytes
  | [] => []
  | d :: t =>
    if hostChar inst d || d == 93 then d :: (t.takeWhile (hostChar inst)).take 509 else []

lemma hostChar_space : hostChar inst 32 = false := by
  simp [hostChar, isalnum, isDigit]

lemma hostChar_bracket : hostChar inst 93 = false := by
  simp [hostChar, isalnum, isDigit]

/-! ## The loop

What is read is a word and the memory behind it, which starts with a space or the terminator. -/

variable {bHadSBracket : Bool} {lenMsg : ℤ} {c : UInt8} {word mem : Bytes}

lemma hostLoop_end (hc : c = 32 ∨ c = 0) (buf : Bytes) :
    hostLoop inst bHadSBracket lenMsg buf (c :: mem) = some buf := by
  have hstop : ¬hostGoesOn inst bHadSBracket lenMsg buf.length c := by
    rintro ⟨-, hgoes, -⟩
    rcases hc with rfl | rfl <;> simp [hostChar, isalnum, isDigit] at hgoes
  cases mem <;> rw [hostLoop, if_neg hstop]

/-- One octet of the word. -/
lemma hostLoop_step (hc : c = 32 ∨ c = 0) (buf : Bytes) (d : UInt8) :
    hostLoop inst bHadSBracket lenMsg buf (d :: (word ++ c :: mem)) =
      if hostGoesOn inst bHadSBracket lenMsg buf.length d then
        if word.head? = some 93 then some (buf ++ [d])
        else hostLoop inst bHadSBracket lenMsg (buf ++ [d]) (word ++ c :: mem)
      else some buf := by
  cases word with
  | nil =>
    have hne : c ≠ 93 := by rcases hc with rfl | rfl <;> decide
    rw [nil_append, hostLoop, if_neg hne]
    rfl
  | cons e word =>
    rw [cons_append, hostLoop]
    simp

/-- The loop copies what a HOSTNAME may consist of, as far as there is room. -/
lemma hostLoop_eq (hc : c = 32 ∨ c = 0) (hword : word.head? ≠ some 93) {buf : Bytes}
    (hlen : (buf.length + word.length : ℤ) ≤ lenMsg) :
    hostLoop inst bHadSBracket lenMsg buf (word ++ c :: mem) =
      some (buf ++ (word.takeWhile (hostChar inst)).take (511 - buf.length)) := by
  induction word generalizing buf with
  | nil => rw [nil_append, hostLoop_end hc, takeWhile_nil, take_nil, append_nil]
  | cons d word ih =>
    have hd : d ≠ 93 := fun h => hword (by rw [h, head?_cons])
    rw [length_cons] at hlen
    have hi : (buf.length : ℤ) < lenMsg := by omega
    have hgoes : hostGoesOn inst bHadSBracket lenMsg buf.length d ↔
        hostChar inst d = true ∧ 0 < 511 - buf.length := by
      rw [hostGoesOn, CONF_HOSTNAME_MAXSIZE, Nat.sub_pos_iff_lt]
      simp [hi, hd]
    rw [cons_append, hostLoop_step hc, take_takeWhile_cons]
    simp only [hgoes]
    split
    case isFalse => rw [append_nil]
    case isTrue =>
      split
      case isTrue hclose =>
        obtain ⟨word, rfl⟩ := head?_eq_some_iff.mp hclose
        rw [takeWhile_cons_of_neg (by rw [hostChar_bracket]; decide), take_nil]
      case isFalse hopen =>
        rw [ih hopen (by rw [length_append, length_singleton]; omega), append_assoc,
          length_append, length_singleton, Nat.sub_add_eq, singleton_append]

lemma hostLoop_plain (hc : c = 32 ∨ c = 0) (hlen : (word.length : ℤ) ≤ lenMsg) :
    hostLoop inst false lenMsg [] (word ++ c :: mem) = some (plainBuf inst word) := by
  by_cases hhead : word.head? = some 93
  · obtain ⟨word, rfl⟩ := head?_eq_some_iff.mp hhead
    have hgoes : ¬hostGoesOn inst false lenMsg ([] : Bytes).length 93 := by
      simp [hostGoesOn, hostChar_bracket]
    rw [cons_append, hostLoop_step hc, if_neg hgoes, plainBuf,
      takeWhile_cons_of_neg (by rw [hostChar_bracket]; decide), take_nil]
  · exact hostLoop_eq hc hhead (by simpa using hlen)

variable {t : Bytes}

lemma hostLoop_bracket (hc : c = 32 ∨ c = 0) (hlen : (t.length + 1 : ℤ) ≤ lenMsg) :
    hostLoop inst true lenMsg [91] (t ++ c :: mem) = some (91 :: bracketBuf inst t) := by
  cases t with
  | nil => exact hostLoop_end hc [91]
  | cons d t =>
    rw [length_cons] at hlen
    have hgoes : hostGoesOn inst true lenMsg [(91 : UInt8)].length d ↔
        (hostChar inst d || d == 93) = true := by
      rw [Bool.or_eq_true, beq_iff_eq, length_singleton]
      exact ⟨fun h => h.2.1.imp_right And.left,
        fun h => ⟨by omega, h.imp_right fun h => ⟨h, rfl⟩, by decide⟩⟩
    rw [cons_append, hostLoop_step hc, bracketBuf]
    simp only [hgoes]
    split
    case isFalse => rfl
    case isTrue =>
      split
      case isTrue hclose =>
        obtain ⟨t, rfl⟩ := head?_eq_some_iff.mp hclose
        rw [takeWhile_cons_of_neg (by rw [hostChar_bracket]; decide), take_nil]
        rfl
      case isFalse hopen =>
        refine hostLoop_eq hc hopen ?_
        simp only [length_append, length_singleton]
        omega

/-! ## Words -/

section

variable {text rest : Bytes}

lemma plainBuf_eq_self_iff : plainBuf inst word = word ↔ isPlainText inst word = true := by
  rw [isPlainText, and_eq_true, decide_eq_true_eq, all_eq_true]
  exact take_takeWhile_eq_self_iff

lemma exists_bracketBuf_append (t : Bytes) : ∃ rest, t = bracketBuf inst t ++ rest := by
  cases t with
  | nil => exact ⟨[], rfl⟩
  | cons d t =>
    rw [bracketBuf]
    split
    · obtain ⟨rest, hrest⟩ := exists_take_takeWhile_append (hostChar inst) 509 t
      exact ⟨rest, by rw [cons_append, ← hrest]⟩
    · exact ⟨d :: t, rfl⟩

lemma bracketBuf_eq_self_iff (t : Bytes) : bracketBuf inst t = t ↔ isBracketText inst t = true := by
  cases t with
  | nil => exact iff_of_true rfl rfl
  | cons d t =>
    rw [isBracketText, bracketBuf]
    by_cases hd : (hostChar inst d || d == 93) = true
    · rw [if_pos hd, hd, Bool.true_and, and_eq_true, decide_eq_true_eq, all_eq_true, cons_inj_right]
      exact take_takeWhile_eq_self_iff
    · rw [Bool.eq_false_of_not_eq_true hd]
      exact iff_of_false (cons_ne_nil _ _).symm Bool.false_ne_true

lemma isBracketWord_iff (t : Bytes) :
    isBracketWord inst t = true ↔ t = bracketBuf inst t ++ [93] := by
  cases t with
  | nil => exact iff_of_false Bool.false_ne_true nofun
  | cons d t =>
    rw [isBracketWord, bracketBuf]
    by_cases hd : (hostChar inst d || d == 93) = true
    · simp only [hd, Bool.true_and, and_eq_true, beq_iff_eq, decide_eq_true_eq, if_true,
        cons_append, cons_inj_right]
      constructor
      · rintro ⟨⟨hlast, hall⟩, hlen⟩
        obtain ⟨b, rfl⟩ := getLast?_eq_some_iff.mp hlast
        rw [dropLast_concat] at hall
        rw [length_append, length_singleton] at hlen
        rw [take_takeWhile_append (all_eq_true.mp hall) (by omega) hostChar_bracket]
      · intro ht
        have hall : ((t.takeWhile (hostChar inst)).take 509).all (hostChar inst) = true :=
          all_eq_true.mpr fun _ hc => mem_takeWhile_imp (mem_of_mem_take hc)
        have hlen := length_take_le 509 (t.takeWhile (hostChar inst))
        generalize (t.takeWhile (hostChar inst)).take 509 = b at ht hall hlen
        subst ht
        simpa [hall, Nat.lt_succ_iff] using hlen
    · rw [if_neg hd]
      refine iff_of_false (by simp [hd]) ?_
      rintro ⟨rfl, -⟩
      simp at hd

/-! ## What is read -/

lemma isPlainWord_iff : isPlainWord inst word = true ↔
    plainBuf inst word = word ∧ word.getLast?.any isalnum = true := by
  rw [plainBuf_eq_self_iff, isPlainText, ← and_eq_true, Bool.and_right_comm]
  rfl

/-- A word is found to be a HOSTNAME if it is one and a space follows. -/
lemma isHostName_plain (hspace : 32 ∉ word) :
    isHostName false (plainBuf inst word) (word ++ c :: mem) =
      some (plainBuf inst word, isPlainWord inst word && c == 32) := by
  have hread (buf : Bytes) (d : UInt8) (mem : Bytes) :
      isHostName false buf (buf ++ d :: mem) = some (buf, buf.getLast?.any isalnum && d == 32) := by
    rcases eq_nil_or_concat' buf with rfl | ⟨buf, x, rfl⟩
    · rfl
    · simp [isHostName, hostEnd]
  have hword := @isPlainWord_iff inst word
  obtain ⟨rest, hrest⟩ : ∃ rest, word = plainBuf inst word ++ rest :=
    exists_take_takeWhile_append _ _ _
  generalize plainBuf inst word = buf at hrest hword ⊢
  generalize isPlainWord inst word = found at hword ⊢
  rcases rest with _ | ⟨d, rest⟩
  · rw [append_nil] at hrest
    rw [hrest, and_iff_right rfl, ← Bool.eq_iff_iff] at hword
    rw [hrest, hread, hword]
  · have hd : d ≠ 32 := fun h => hspace (by simp [hrest, h])
    rw [hrest, append_assoc, cons_append, hread]
    have hfound : found = false := by simpa [hrest] using hword
    simp [hfound, hd]

/-- The same for a word in brackets. -/
lemma isHostName_bracket (hc : c = 32 ∨ c = 0) (hspace : 32 ∉ t) :
    ∃ w, isHostName true (91 :: bracketBuf inst t) (91 :: t ++ c :: mem) =
        some (w, isBracketWord inst t && c == 32) ∧
      (isBracketWord inst t = true → w = 91 :: t) := by
  have hword := @isBracketWord_iff inst t
  obtain ⟨rest, hrest⟩ := @exists_bracketBuf_append inst t
  generalize bracketBuf inst t = b at hrest hword ⊢
  subst hrest
  rw [append_cancel_left_eq] at hword
  generalize isBracketWord inst (b ++ rest) = found at hword ⊢
  rcases rest with _ | ⟨d, rest⟩
  · have hne : c ≠ 93 := by rcases hc with rfl | rfl <;> decide
    have hfound : found = false := by simpa using hword
    simp [isHostName, hostEnd, hne, hfound]
  by_cases hd : d = 93
  · subst hd
    rcases rest with _ | ⟨e, rest⟩
    · have hfound : found = true := by simpa using hword
      simp [isHostName, hostEnd, hfound]
    · have he : e ≠ 32 := fun h => hspace (by simp [h])
      have hfound : found = false := by simpa using hword
      simp [isHostName, hostEnd, hfound, he]
  · have hfound : found = false := by simpa [hd] using hword
    simp [isHostName, hostEnd, hfound, hd]

/-- The loop copies `buf`, and then `w` is what may be a HOSTNAME. -/
lemma exists_hostLoop (hc : c = 32 ∨ c = 0) (hspace : 32 ∉ word)
    (hlen : (word.length : ℤ) ≤ lenMsg) :
    let buf₀ : Bytes := if bracketed inst word then [91] else []
    ∃ buf rest w, word = buf ++ rest ∧ hostLoop inst (bracketed inst word) lenMsg buf₀
        ((word ++ c :: mem).drop buf₀.length) = some buf ∧
      (isHostText inst word = true ↔ buf = word ∧ word ≠ []) ∧
      isHostName (bracketed inst word) buf (word ++ c :: mem) =
        some (w, isHostWord inst word && c == 32) ∧
      (isHostWord inst word = true → w = word) := by
  rw [isHostText, isHostWord]
  cases hb : bracketed inst word with
  | false =>
    obtain ⟨rest, hrest⟩ : ∃ rest, word = plainBuf inst word ++ rest :=
      exists_take_takeWhile_append _ _ _
    refine ⟨_, rest, _, hrest, hostLoop_plain hc hlen, ?_, isHostName_plain hspace,
      fun h => (isPlainWord_iff.mp h).1⟩
    simp [plainBuf_eq_self_iff]
  | true =>
    obtain ⟨t, rfl⟩ : ∃ t, word = 91 :: t := by
      rw [bracketed, and_eq_true, beq_iff_eq] at hb
      exact head?_eq_some_iff.mp hb.2
    obtain ⟨rest, hrest⟩ := @exists_bracketBuf_append inst t
    obtain ⟨w, hname, hw⟩ := isHostName_bracket hc (not_mem_of_not_mem_cons hspace)
    refine ⟨_, rest, w, by rw [cons_append, ← hrest], hostLoop_bracket hc hlen, ?_, hname, hw⟩
    simp [← bracketBuf_eq_self_iff]

/-- What is read of a word and the octet behind it. -/
lemma hostRead_word (hc : c = 32 ∨ c = 0) (hspace : 32 ∉ word)
    (hlen : (word.length : ℤ) ≤ lenMsg) (hpos : 0 < lenMsg) :
    hostRead inst (word ++ c :: mem) lenMsg =
      if isHostText inst word = true ∧ word.length = lenMsg then some (some word, word.length)
      else if isHostWord inst word = true ∧ c = 32 then
        if word.length < CONF_HOSTNAME_MAXSIZE then some (some word, word.length + 1) else none
      else some (none, 0) := by
  obtain ⟨ch, hch, hb⟩ : ∃ ch, (word ++ c :: mem).head? = some ch ∧
      (inst.bPermitSquareBracketsInHostname && ch == 91) = bracketed inst word := by
    cases word with
    | nil => exact ⟨c, rfl, by rcases hc with rfl | rfl <;> simp [bracketed]⟩
    | cons ch word => exact ⟨ch, rfl, rfl⟩
  obtain ⟨buf, rest, w, hrest, hloop, hself, hname, hw⟩ :=
    @exists_hostLoop inst lenMsg c word mem hc hspace hlen
  have hend : (buf.length : ℤ) = lenMsg ↔ isHostText inst word = true ∧ word.length = lenMsg := by
    rw [hself]
    constructor
    · intro hend
      have hlens := congrArg List.length hrest
      rw [length_append] at hlens
      have hbuf : buf = word := by
        rw [hrest, eq_nil_of_length_eq_zero (show rest.length = 0 by omega), append_nil]
      exact ⟨⟨hbuf, ne_nil_of_length_pos (by omega)⟩, by omega⟩
    · rintro ⟨⟨rfl, -⟩, hend⟩
      exact hend
  rw [hostRead, hch]
  simp only [bind_eq_bind, bind_some, hb, hloop, hname]
  simp only [hend, and_eq_true, beq_iff_eq]
  split
  case isTrue h =>
    rw [(hself.mp h.1).1]
    rfl
  case isFalse =>
    split
    case isTrue h =>
      rw [hw h.1]
      rfl
    case isFalse => rfl

/-- What the parser reads at the start of a text whose length it takes for `k` more than it is. -/
def hostReadOf (inst : InstanceConf) (k : ℕ) (text : Bytes) : Option (Option Bytes × ℕ) :=
  if startsWithHost inst text ∧ (firstWord text).length = CONF_HOSTNAME_MAXSIZE then none
  else some (match hostOf inst k text with
    | some (host, rest) => (some host, text.length - rest.length)
    | none => (none, 0))

variable {k : ℕ}

/-- A HOSTNAME has at most one octet more than there is room for. -/
lemma length_le_of_isHostWord (h : isHostWord inst word = true) :
    word.length ≤ CONF_HOSTNAME_MAXSIZE := by
  rw [CONF_HOSTNAME_MAXSIZE]
  rw [isHostWord] at h
  split at h
  · rcases word with _ | ⟨c, _ | ⟨d, t⟩⟩
    · exact Nat.zero_le _
    · exact Nat.le_add_left 1 _
    · simp only [tail_cons, isBracketWord, and_eq_true, decide_eq_true_eq] at h
      simp only [length_cons]
      omega
  · simp only [isPlainWord, and_eq_true, decide_eq_true_eq] at h
    omega

lemma space_notMem_of_isHostText (h : isHostText inst text = true) : 32 ∉ text := by
  have hspace := @hostChar_space inst
  rcases text with _ | ⟨c, _ | ⟨d, t⟩⟩ <;>
    grind [isHostText, isBracketText, isPlainText, bracketed]

/-- A text with a space is its first word, the space and the rest. -/
lemma exists_firstWord_append (h : 32 ∈ text) :
    32 ∉ firstWord text ∧ ∃ rest, text = firstWord text ++ 32 :: rest := by
  refine ⟨fun h32 => by simpa using mem_takeWhile_imp h32, ?_⟩
  have happend : firstWord text ++ text.dropWhile (· ≠ 32) = text :=
    takeWhile_append_dropWhile
  cases hdrop : text.dropWhile (· ≠ 32) with
  | nil =>
    have hall := dropWhile_eq_nil_iff.mp hdrop 32 h
    exact absurd hall (by decide)
  | cons x rest =>
    have hhead := head?_dropWhile_not (· ≠ (32 : UInt8)) text
    rw [hdrop] at hhead happend
    have hx : x = 32 := by simpa using hhead
    exact ⟨rest, by rw [← hx, happend]⟩

/-- **What is read of a text** is what `hostReadOf` says. -/
lemma hostRead_eq (hlen : 0 < text.length + k) :
    hostRead inst (text ++ [0]) (text.length + k) = hostReadOf inst k text := by
  rw [hostReadOf, hostOf]
  by_cases h32 : 32 ∈ text
  · obtain ⟨hspace, rest, htext⟩ := exists_firstWord_append h32
    have hnot : ¬(k = 0 ∧ isHostText inst text = true) := fun h =>
      space_notMem_of_isHostText h.2 h32
    simp only [startsWithHost, h32, true_and, if_neg hnot]
    generalize firstWord text = word at hspace htext ⊢
    have hlens := congrArg List.length htext
    rw [length_append, length_cons] at hlens
    have hread := @hostRead_word inst (text.length + k) 32 word (rest ++ [0]) (.inl rfl) hspace
      (by omega) (by omega)
    rw [← cons_append, ← append_assoc, ← htext, if_neg (by omega)] at hread
    rw [hread]
    by_cases hword : isHostWord inst word = true
    · have hle := length_le_of_isHostWord hword
      have hdrop : text.length - (text.drop (word.length + 1)).length = word.length + 1 := by
        rw [length_drop]
        omega
      simp only [hword, true_and, and_true, if_true, hdrop]
      rcases hle.lt_or_eq with hlt | heq
      · rw [if_pos hlt, if_neg hlt.ne]
      · rw [if_neg heq.not_lt, if_pos heq]
    · simp [hword]
  · have hstarts : ¬startsWithHost inst text := fun h => h32 h.1
    have hk : (text.length : ℤ) = text.length + k ↔ k = 0 := by omega
    rw [if_neg fun h => hstarts h.1, if_neg hstarts,
      hostRead_word (.inr rfl) h32 (by omega) (by omega)]
    simp only [hk, and_comm (b := k = 0)]
    split
    · simp
    · simp

/-! ## The text behind a HOSTNAME -/

lemma hostOf_nil : hostOf inst k [] = none := by
  have hstarts : ¬startsWithHost inst [] := fun h => absurd h.1 not_mem_nil
  rw [hostOf, if_neg hstarts, if_neg fun h => absurd h.2 (by simp [isHostText, bracketed])]

/-- A HOSTNAME has no space, and is cut off together with the one behind it. -/
lemma hostOf_split {host : Bytes} (h : hostOf inst k text = some (host, rest)) :
    32 ∉ host ∧ ∃ sep, (sep = [] ∨ sep = [32]) ∧ text = host ++ sep ++ rest := by
  rw [hostOf] at h
  by_cases hstarts : startsWithHost inst text
  · rw [if_pos hstarts] at h
    obtain ⟨hword, rest', htext⟩ := exists_firstWord_append hstarts.1
    obtain ⟨rfl, rfl⟩ := Prod.mk.inj (Option.some.inj h)
    refine ⟨hword, [32], .inr rfl, ?_⟩
    generalize firstWord text = word at htext
    rw [htext, append_cons, drop_left' (by simp)]
  · rw [if_neg hstarts] at h
    by_cases htext : k = 0 ∧ isHostText inst text = true
    · rw [if_pos htext] at h
      obtain ⟨rfl, rfl⟩ := Prod.mk.inj (Option.some.inj h)
      exact ⟨space_notMem_of_isHostText htext.2, [], .inl rfl, by simp⟩
    · rw [if_neg htext] at h
      exact nomatch h

end

end Rsyslog.Parser.Rfc3164
