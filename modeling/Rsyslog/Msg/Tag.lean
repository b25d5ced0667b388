import Mathlib.Data.List.GetD
import Mathlib.Tactic.SplitIfs
import Rsyslog.Msg.Serialize

/-!
# The TAG of a message that has none

`tryEmulateTAG` of `msg.c` makes a TAG from APP-NAME and PROCID. It formats them into a buffer on
the stack, and has `MsgSetTAG` copy as many octets from there as `snprintf` says the text has.

Memory is read from the beginning of that buffer on, and may hold anything.
-/

namespace Rsyslog.Msg

open List

def CONF_TAG_MAXSIZE : ℕ := 512

def CONF_TAG_BUFSIZE : ℕ := 32

/-- The fields that matter for the TAG; a property that is NULL is `none`. -/
structure TagMsg where
  iProtocolVersion : ℕ
  APPNAME : Option Bytes
  PROCID : Option Bytes
  iLenTAG : ℕ
  TAG : Bytes

def getAPPNAME (m : TagMsg) : Bytes := m.APPNAME.getD []

def getPROCID (m : TagMsg) : Bytes := m.PROCID.getD [45]

/-- `malloc` says whether there is memory for a TAG that does not fit into the message. -/
def setTAG (malloc : Bool) (m : TagMsg) (pszBuf : ℕ → UInt8) (lenBuf : ℕ) : TagMsg :=
  let iLenTAG := if lenBuf < CONF_TAG_BUFSIZE ∨ malloc then lenBuf else CONF_TAG_BUFSIZE - 1
  { m with iLenTAG := iLenTAG, TAG := (range iLenTAG).map pszBuf }

/-- The memory after `snprintf`, and the length of the whole text. -/
def snprintf (mem : ℕ → UInt8) (size : ℕ) (text : Bytes) : (ℕ → UInt8) × ℕ :=
  (fun i => if i < min text.length (size - 1) then text.getD i 0
    else if i = min text.length (size - 1) then 0 else mem i, text.length)

def tryEmulateTAG (malloc : Bool) (stack : ℕ → UInt8) (m : TagMsg) : TagMsg :=
  if 0 < m.iLenTAG then m
  else if m.iProtocolVersion = 1 then
    if getPROCID m = [45] then
      setTAG malloc m (fun i => (getAPPNAME m).getD i 0) (getAPPNAME m).length
    else
      let (bufTAG, lenTAG) :=
        snprintf stack CONF_TAG_MAXSIZE (getAPPNAME m ++ 91 :: (getPROCID m ++ [93]))
      setTAG malloc m bufTAG lenTAG
  else m

def fullTAG (m : TagMsg) : Bytes :=
  if getPROCID m = [45] then getAPPNAME m else getAPPNAME m ++ 91 :: (getPROCID m ++ [93])

variable {malloc : Bool} {stack : ℕ → UInt8} {m : TagMsg}

lemma map_range_of_agree {mem : ℕ → UInt8} {text : Bytes}
    (h : ∀ i < text.length, mem i = text.getD i 0) : (range text.length).map mem = text := by
  refine ext_getElem (by simp) fun i _ hi => ?_
  rw [getElem_map, getElem_range, h i hi, getD_eq_getElem _ _ hi]

/-- With memory for it, the TAG is the one that `MsgSetTAG` gives to a whole message. -/
lemma setTAG_eq_MsgSetTAG {E : Env} (whole : SMsg E) {mem : ℕ → UInt8} {text : Bytes}
    (h : ∀ i < text.length, mem i = text.getD i 0)
    (hmem : text.length < CONF_TAG_BUFSIZE ∨ malloc = true) :
    (setTAG malloc m mem text.length).TAG = (MsgSetTAG whole text).TAG := by
  rw [setTAG, if_pos hmem]
  exact map_range_of_agree h

lemma setTAG_iff {mem : ℕ → UInt8} {text : Bytes}
    (h : text.length < CONF_TAG_MAXSIZE → ∀ i < text.length, mem i = text.getD i 0) :
    ((setTAG malloc m mem text.length).TAG = text.take (CONF_TAG_MAXSIZE - 1) ∧
        (setTAG malloc m mem text.length).iLenTAG = (text.take (CONF_TAG_MAXSIZE - 1)).length) ↔
      text.length < CONF_TAG_MAXSIZE ∧ (text.length < CONF_TAG_BUFSIZE ∨ malloc = true) := by
  have hmax : CONF_TAG_MAXSIZE = 512 := rfl
  have hbuf : CONF_TAG_BUFSIZE = 32 := rfl
  simp only [setTAG, length_take]
  by_cases hmem : text.length < CONF_TAG_BUFSIZE ∨ malloc = true
  · simp only [if_pos hmem, and_iff_left hmem]
    constructor
    · omega
    · intro hlt
      rw [map_range_of_agree (h hlt), take_of_length_le (by omega)]
      exact ⟨rfl, by omega⟩
  · have hlong := (not_or.mp hmem).1
    rw [if_neg hmem]
    exact iff_of_false (fun h => by omega) fun h => hmem h.2

/-- The TAG is the text, cut to what is deemed far too large, exactly if the text is not as large as
that and there is memory for it. -/
theorem emulatedTAG_iff (malloc : Bool) (stack : ℕ → UInt8) (m : TagMsg)
    (hversion : m.iProtocolVersion = 1) (hnone : m.iLenTAG = 0) :
    ((tryEmulateTAG malloc stack m).TAG = (fullTAG m).take (CONF_TAG_MAXSIZE - 1) ∧
        (tryEmulateTAG malloc stack m).iLenTAG = ((fullTAG m).take (CONF_TAG_MAXSIZE - 1)).length) ↔
      (fullTAG m).length < CONF_TAG_MAXSIZE ∧
        ((fullTAG m).length < CONF_TAG_BUFSIZE ∨ malloc = true) := by
  rw [tryEmulateTAG, if_neg (by omega), if_pos hversion, fullTAG]
  split_ifs
  · exact setTAG_iff fun _ _ _ => rfl
  · refine setTAG_iff fun hlt i hi => if_pos ?_
    omega

theorem emulatedTAG_short :
    (tryEmulateTAG true (fun _ => 120) ⟨1, some [97], some [55], 0, []⟩).TAG = [97, 91, 55, 93] :=
  (emulatedTAG_iff true _ ⟨1, some [97], some [55], 0, []⟩ rfl rfl |>.mpr ⟨by decide, by decide⟩).1

/-- Behind an APP-NAME of 510 octets there is no room for a PROCID: its place in the TAG is taken by
what lies on the stack behind the buffer. -/
theorem emulatedTAG_long :
    (tryEmulateTAG true (fun _ => 120)
      ⟨1, some (replicate 510 97), some [55], 0, []⟩).TAG[512]? = some 120 := by
  decide +kernel

end Rsyslog.Msg
