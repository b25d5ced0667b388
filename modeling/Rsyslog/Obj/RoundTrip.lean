import Mathlib.Data.List.TakeWhile
import Rsyslog.Lib.Decode
import Rsyslog.Obj.Serialize

/-!
# Serialized objects read back

Each piece that the writer emits is consumed by the reader that expects it, whatever follows, and a
payload that looks like a delimiter is never looked at as one. A time comes back without its `wday`
and `inUTC`, which have no place in the text.
-/

namespace Rsyslog.Obj

open Lib Rsyslog.Stream List Int64 Nat

/-! ## Numbers -/

lemma itoaDigits_ofNat {room n : ℕ} (hn : n < 2 ^ 63) (hroom : 1 ≤ room)
    (hlen : n < 10 ^ room) : itoaDigits room (Int64.ofNat n) = (decimal n).reverse := by
  induction room generalizing n with
  | zero => omega
  | succ room ih =>
    have hdigit : ∀ d < 10, (Int64.ofNat d + 48).toUInt64.toUInt8 = digit d := by
      intro d hd
      interval_cases d <;> rfl
    have hmod : Int64.ofNat n % 10 = Int64.ofNat (n % 10) :=
      (ofNat_mod hn (by norm_num)).symm
    have hdiv : Int64.ofNat n / 10 = Int64.ofNat (n / 10) :=
      (ofNat_div hn (by norm_num)).symm
    have hpos : Int64.ofNat (n / 10) > 0 ↔ ¬n < 10 := by
      rw [gt_iff_lt, lt_iff_toInt_lt, toInt_ofNat_of_lt (by omega), toInt_zero]
      omega
    rw [itoaDigits, hmod, hdiv, hdigit _ (mod_lt _ (by omega)), decimal_unfold]
    by_cases hlt : n < 10
    · rw [if_neg (by simpa [hpos] using hlt), if_pos hlt]
      rfl
    · have hroom' : 1 ≤ room := by
        rcases room with _ | room
        · exact absurd hlen hlt
        · omega
      have hlen' : n / 10 < 10 ^ room := by
        omega
      rw [if_pos (hpos.mpr hlt), if_neg hlt, ih (by omega) hroom' hlen']
      simp

variable {i : Int64}

lemma srUtilItoA_eq {iLenBuf : ℕ} (hbuf : 20 ≤ iLenBuf) (hi : i ≠ minValue) :
    srUtilItoA iLenBuf i = .ok (decimalInt i.toInt) := by
  have hlo := i.le_toInt
  have hhi := i.toInt_lt
  have hne : i.toInt ≠ -2 ^ 63 := fun h => hi (toInt_inj.mp (h.trans (by decide)))
  have hlt : i.toInt.natAbs < 2 ^ 63 := by omega
  have hneg : i < 0 ↔ i.toInt < 0 := lt_iff_toInt_lt
  have habs : (if i < 0 then i * -1 else i) = Int64.ofNat i.toInt.natAbs := by
    have hcast : ∀ j : ℤ, 0 ≤ j → Int64.ofInt j = Int64.ofNat j.natAbs := by
      intro j hj
      rw [← Int64.ofInt_eq_ofNat, Int.natAbs_of_nonneg hj]
    by_cases hz : i.toInt < 0
    · rw [if_pos (hneg.mpr hz), ← Int.natAbs_neg, ← hcast _ (by omega), Int64.ofInt_neg,
        Int64.ofInt_toInt, Int64.mul_neg, Int64.mul_one]
    · rw [if_neg (fun h => hz (hneg.mp h)), ← hcast _ (by omega), Int64.ofInt_toInt]
  have hlen : (decimal i.toInt.natAbs).length ≤ 19 :=
    length_decimal_le (by omega) (by omega)
  have hpow : i.toInt.natAbs < 10 ^ 64 := lt_trans hlt (by norm_num)
  rw [srUtilItoA, habs, itoaDigits_ofNat hlt (by omega) hpow, length_reverse,
    reverse_reverse, if_neg (by omega), decimalInt]
  simp only [hneg]

lemma ne_minValue (h : -2 ^ 63 < i.toInt) : i ≠ minValue := by
  rintro rfl
  exact absurd h (by decide)

lemma strmWriteLong_eq (hi : i ≠ minValue) :
    strmWriteLong i = .ok (decimalInt i.toInt) := srUtilItoA_eq (by omega) hi

/-! ## Pieces -/

variable (c : UInt8)

lemma decodes_readChar : Decodes Strm.at strmReadChar [c] c := fun _ _ => rfl

lemma decodes_expect (iRet : RsRet) : Decodes Strm.at (expect c iRet) [c] () :=
  (decodes_readChar c).bind (.ite_neg (by simp) (.pure ()))

lemma decodes_forM_expect (cs : Bytes) (iRet : RsRet) :
    Decodes Strm.at (cs.forM (expect · iRet)) cs () := by
  induction cs with
  | nil => exact .pure ()
  | cons c cs ih =>
    exact (decodes_expect c iRet).bind ih

variable {s : Bytes}

lemma decodes_untilLoop {stop : UInt8} (hs : stop ∉ s) {fuel : ℕ} (hfuel : s.length < fuel) :
    Decodes Strm.at (untilLoop stop fuel) (s ++ [stop]) s := by
  induction s generalizing fuel with
  | nil =>
    obtain ⟨fuel, rfl⟩ := Nat.exists_eq_add_of_lt hfuel
    exact (decodes_readChar stop).bind (by rw [if_pos rfl]; exact .pure [])
  | cons c s ih =>
    rw [mem_cons, not_or] at hs
    rw [length_cons] at hfuel
    obtain ⟨fuel, rfl⟩ := exists_eq_succ_of_ne_zero (ne_zero_of_lt hfuel)
    exact (decodes_readChar c).bind (.ite_neg (Ne.symm hs.1) ((ih hs.2 (by omega)).map (c :: ·)))

lemma decodes_of_fuel {α : Type} {f : ℕ → Rd α} {bs : Bytes} {a : α}
    (h : ∀ fuel, bs.length < fuel → Decodes Strm.at (f fuel) bs a) :
    Decodes Strm.at (do let s ← get; f (s.data.length + 2)) bs a := fun rest off =>
  h ((bs ++ rest).length + 2) (by rw [length_append]; omega) rest off

lemma decodes_readUntil {stop : UInt8} (hs : stop ∉ s) :
    Decodes Strm.at (readUntil stop) (s ++ [stop]) s :=
  decodes_of_fuel fun _ hfuel => decodes_untilLoop hs (by rw [length_append] at hfuel; omega)

def digitStep (i : Int64) (c : UInt8) : Int64 := i * 10 + c.toUInt64.toInt64 - 48

lemma digitStep_ofNat (m : ℕ) {d : ℕ} (hd : d < 10) :
    digitStep (Int64.ofNat m) (digit d) = Int64.ofNat (m * 10 + d) := by
  have hval : (digit d).toUInt64.toInt64 - 48 = Int64.ofNat d := by
    interval_cases d <;> rfl
  rw [digitStep, Int64.ofNat_add, Int64.ofNat_mul, ← hval, Int64.sub_eq_add_neg,
    Int64.sub_eq_add_neg, Int64.add_assoc]
  rfl

lemma decodes_digitLoop {c stop : UInt8} {ds : Bytes} (hds : ∀ d ∈ c :: ds, isDigit d = true)
    (hstop : isDigit stop = false) {fuel : ℕ} (hfuel : ds.length + 1 < fuel) (i : Int64) :
    Decodes Strm.at (digitLoop fuel i c) (ds ++ [stop]) ((c :: ds).foldl digitStep i, stop) := by
  induction ds generalizing c i fuel with
  | nil =>
    obtain ⟨fuel, rfl⟩ : ∃ k, fuel = k + 2 := ⟨fuel - 2, by simp at hfuel; omega⟩
    rw [digitLoop, if_pos (hds c (by simp))]
    exact (decodes_readChar stop).bind (by rw [digitLoop, if_neg (by simp [hstop])]; exact .pure _)
  | cons d ds ih =>
    rw [length_cons] at hfuel
    obtain ⟨fuel, rfl⟩ := exists_eq_succ_of_ne_zero (ne_zero_of_lt hfuel)
    rw [digitLoop, if_pos (hds c (by simp))]
    exact (decodes_readChar d).bind
      (ih (fun e he => hds e (mem_cons_of_mem _ he)) (by omega) (digitStep i c))

lemma decodes_deserializeDigits (bIsNegative : Bool) {n : ℕ} {c : UInt8} {ds : Bytes}
    (hn : decimal n = c :: ds) :
    Decodes Strm.at (deserializeDigits bIsNegative c) (ds ++ [58])
      (if bIsNegative then Int64.ofNat n * -1 else Int64.ofNat n) := by
  have hds : ∀ d ∈ c :: ds, isDigit d = true := fun d hd => isDigit_of_mem_decimal (hn ▸ hd)
  have hval : (c :: ds).foldl digitStep 0 = Int64.ofNat n := by
    rw [← hn]
    exact foldl_decimal digitStep Int64.ofNat n fun m d hd _ => digitStep_ofNat m hd
  have hloop : Decodes Strm.at (do let s ← get; digitLoop (s.data.length + 2) 0 c) (ds ++ [58])
      (Int64.ofNat n, 58) := by
    rw [← hval]
    refine decodes_of_fuel (f := fun fuel => digitLoop fuel 0 c) fun fuel hfuel => ?_
    rw [length_append] at hfuel
    exact decodes_digitLoop hds rfl hfuel 0
  have hrest := hloop.bind (c := if bIsNegative then Int64.ofNat n * -1 else Int64.ofNat n)
    (f := fun r => if r.2 ≠ 58 then throw .invalidDelimiter
      else pure (if bIsNegative then r.1 * -1 else r.1)) (.ite_neg (by simp) (.pure _))
  rw [append_nil] at hrest
  exact .ite_neg (by simp [hds c]) hrest

/-- **Numbers read back**, modulo the width of `number_t`. -/
theorem decodes_number (i : ℤ) :
    Decodes Strm.at objDeserializeNumber (decimalInt i ++ [58]) (Int64.ofInt i) := by
  obtain ⟨c, ds, hcons⟩ := exists_cons_of_ne_nil (decimal_ne_nil i.natAbs)
  rw [decimalInt, hcons]
  by_cases hneg : i < 0
  · have hval : Int64.ofInt i = Int64.ofNat i.natAbs * -1 := by
      rw [Int64.mul_neg, Int64.mul_one, ← Int64.ofInt_eq_ofNat, ← Int64.ofInt_neg]
      congr 1
      omega
    rw [if_pos hneg, hval]
    refine (decodes_readChar 45).bind ?_
    exact (decodes_readChar c).bind (decodes_deserializeDigits true hcons)
  · have hval : Int64.ofInt i = Int64.ofNat i.natAbs := by
      rw [← Int64.ofInt_eq_ofNat, Int.natAbs_of_nonneg (by omega)]
    have hc : isDigit c = true := isDigit_of_mem_decimal (hcons ▸ mem_cons_self)
    have hsign : c ≠ 45 := by
      rintro rfl
      cases hc
    rw [if_neg hneg, hval]
    exact (decodes_readChar c).bind (.ite_neg hsign (decodes_deserializeDigits false hcons))

/-! ## Strings and times -/

theorem decodes_strLoop (s : Bytes) (last : UInt8) :
    Decodes Strm.at (strLoop (c :: s).length c) (s ++ [last]) (c :: s, last) := by
  induction s generalizing c with
  | nil => exact (decodes_readChar last).bind (f := fun c' => strLoop 0 c' >>= _) (.pure _)
  | cons d s ih => exact (decodes_readChar d).bind ((ih d).map fun r => (c :: r.1, r.2))

/-- **Strings read back**, whatever bytes they are made of. -/
theorem decodes_str {iLen : Int32} (hlen : iLen.toInt.toNat = s.length) :
    Decodes Strm.at (objDeserializeStr iLen) (s ++ [58]) s := by
  have hloop : Decodes Strm.at (strmReadChar >>= strLoop s.length) (s ++ [58]) (s, 58) := by
    cases s with
    | nil => exact (decodes_readChar 58).bind (.pure _)
    | cons c s => exact (decodes_readChar c).bind (decodes_strLoop c s 58)
  have h := hloop.bind (f := fun r => if r.2 ≠ 58 then throw .invalidDelimiter else pure r.1)
    (.ite_neg (by simp) (.pure s))
  rw [append_nil, bind_assoc] at h
  rw [objDeserializeStr, hlen]
  exact h

/-- **Times read back**, all but the fields that are not written. -/
theorem decodes_syslogTime (pTime t : SyslogTime) :
    Decodes Strm.at (objDeserializeSyslogTime pTime) (fmtSyslogTime t ++ [58])
      { t with wday := pTime.wday, inUTC := pTime.inUTC } := by
  have hcut : { t with wday := pTime.wday, inUTC := pTime.inUTC } = { pTime with
      timeType := (Int64.ofInt t.timeType.toInt).toInt8
      year := (Int64.ofInt t.year.toInt).toInt16
      month := (Int64.ofInt t.month.toInt).toInt8
      day := (Int64.ofInt t.day.toInt).toInt8
      hour := (Int64.ofInt t.hour.toInt).toInt8
      minute := (Int64.ofInt t.minute.toInt).toInt8
      second := (Int64.ofInt t.second.toInt).toInt8
      secfrac := (Int64.ofInt t.secfrac.toInt).toInt32
      secfracPrecision := (Int64.ofInt t.secfracPrecision.toInt).toInt8
      offsetMode := t.offsetMode
      offsetHour := (Int64.ofInt t.offsetHour.toInt).toInt8
      offsetMinute := (Int64.ofInt t.offsetMinute.toInt).toInt8 } := by
    simp
  rw [hcut]
  refine Decodes.cast ((decodes_number t.timeType.toInt).bind <|
    (decodes_number t.year.toInt).bind <| (decodes_number t.month.toInt).bind <|
    (decodes_number t.day.toInt).bind <| (decodes_number t.hour.toInt).bind <|
    (decodes_number t.minute.toInt).bind <| (decodes_number t.second.toInt).bind <|
    (decodes_number t.secfrac.toInt).bind <| (decodes_number t.secfracPrecision.toInt).bind <|
    (decodes_readChar t.offsetMode).bind <| (decodes_expect 58 _).bind <|
    (decodes_number t.offsetHour.toInt).bind <|
    (decodes_number t.offsetMinute.toInt).bind <| .pure _) ?_
  simp [fmtSyslogTime, append_assoc]

/-! ## Properties -/

def PropVal.varType : PropVal → VarType
  | .psz _ | .cstr _ => .str
  | .short _ | .int _ | .long _ | .int64 _ => .number
  | .syslogTime _ => .syslogTime
  | .none => .none

def PropVal.bytes : PropVal → Bytes
  | .psz buf => cstring buf
  | .short n => decimalInt n.toInt
  | .int n => decimalInt n.toInt
  | .long n => decimalInt n.toInt
  | .int64 n => decimalInt n.toInt
  | .cstr s => s
  | .syslogTime t => fmtSyslogTime t
  | .none => []

/-- The values that can be stored and read: the count of a string is an `int`, the smallest number
has no positive counterpart, a time has to fit its buffer, and there must be a value. -/
def PropVal.Storable : PropVal → Prop
  | .psz buf => (cstring buf).length < 2 ^ 31
  | .cstr s => s.length < 2 ^ 31
  | .short _ | .int _ => True
  | .long n | .int64 n => n ≠ Int64.minValue
  | .syslogTime t => (fmtSyslogTime t).length ≤ 63
  | .none => False

def PropVal.readInto (pProp : Var) (name : Bytes) : PropVal → Var
  | .psz buf => { pProp with pcsName := cstring name, varType := .str, val := .str (cstring buf) }
  | .cstr s => { pProp with pcsName := cstring name, varType := .str, val := .str s }
  | .short n => { pProp with pcsName := cstring name, varType := .number, val := .num n.toInt64,
                             wday := wdayByte n.toInt64 }
  | .int n => { pProp with pcsName := cstring name, varType := .number, val := .num n.toInt64,
                           wday := wdayByte n.toInt64 }
  | .long n | .int64 n => { pProp with pcsName := cstring name, varType := .number, val := .num n,
                                       wday := wdayByte n }
  | .syslogTime t => { pProp with
      pcsName := cstring name, varType := .syslogTime
      val := .syslogTime { t with wday := pProp.wday, inUTC := pProp.inUTC } }
  | .none => { pProp with pcsName := cstring name, varType := .none }

lemma length_decimalInt_le {i : ℤ} (k : ℕ) (hk : 1 ≤ k) (hi : i.natAbs < 10 ^ k) :
    (decimalInt i).length ≤ k + 1 := by
  have hlen : (decimal i.natAbs).length ≤ k := length_decimal_le hk hi
  rw [decimalInt]
  split <;> simp <;> omega

lemma length_fmtSyslogTime_le {t : SyslogTime} (htiny : ∀ x ∈ [t.timeType, t.month, t.day, t.hour,
    t.minute, t.second, t.secfracPrecision, t.offsetHour, t.offsetMinute], 0 ≤ x.toInt) :
    (fmtSyslogTime t).length ≤ 63 := by
  have htext : ∀ x : Int8, 0 ≤ x.toInt → (decimalInt x.toInt).length ≤ 3 := by
    intro x hx
    have hlt := x.toInt_lt
    rw [decimalInt, if_neg (by omega)]
    exact length_decimal_le (by omega) (by omega)
  replace htiny := fun x hx => htext x (htiny x hx)
  simp only [forall_mem_cons, not_mem_nil, false_implies, implies_true, and_true] at htiny
  have hyear : (decimalInt t.year.toInt).length ≤ 6 := by
    have hlo := t.year.le_toInt
    have hhi := t.year.toInt_lt
    exact length_decimalInt_le 5 (by omega) (by omega)
  have hsecfrac : (decimalInt t.secfrac.toInt).length ≤ 11 := by
    have hlo := t.secfrac.le_toInt
    have hhi := t.secfrac.toInt_lt
    exact length_decimalInt_le 10 (by omega) (by omega)
  simp only [fmtSyslogTime, length_append, length_singleton]
  omega

variable {v : PropVal}

lemma PropVal.Storable.length_lt (h : v.Storable) : v.bytes.length < 2 ^ 31 := by
  have hnumber : ∀ i : ℤ, -2 ^ 63 ≤ i → i < 2 ^ 63 → (decimalInt i).length < 2 ^ 31 := by
    intro i hlo hhi
    have hlen : (decimalInt i).length ≤ 20 := length_decimalInt_le 19 (by omega) (by omega)
    omega
  cases v with
  | psz buf => exact h
  | cstr s => exact h
  | syslogTime t => exact lt_of_le_of_lt h (by norm_num)
  | none => cases h
  | short n | int n => exact hnumber _ (by have := n.le_toInt; omega) (by have := n.toInt_lt; omega)
  | long n | int64 n => exact hnumber _ n.le_toInt n.toInt_lt

lemma PropVal.Storable.text_eq (h : v.Storable) : v.text = .ok (v.varType, v.bytes) := by
  have hnarrow : ∀ (i : Int64) (n : ℤ), i.toInt = n → -2 ^ 63 < n →
      srUtilItoA 64 i = .ok (decimalInt n) := by
    rintro i n rfl hlo
    exact srUtilItoA_eq (by omega) (ne_minValue hlo)
  cases v with
  | psz buf => rfl
  | cstr s => rfl
  | none => cases h
  | syslogTime t => exact if_neg (by have : (fmtSyslogTime t).length ≤ 63 := h; omega)
  | short n | int n =>
    rw [PropVal.text, hnarrow _ _ n.toInt_toInt64 (by have := n.le_toInt; omega)]
    rfl
  | long n | int64 n =>
    rw [PropVal.text, srUtilItoA_eq (by omega) h]
    rfl

def propLine (name : Bytes) (v : PropVal) : Bytes :=
  [COOKIE_PROPLINE] ++ (cstring name ++ [58] ++ (decimalInt v.varType.toLong.toInt ++ [58] ++
    (decimalInt v.bytes.length ++ [58] ++ (v.bytes ++ [58] ++ [10]))))

lemma SerializeProp_eq (name : Bytes) (h : v.Storable) :
    SerializeProp name (some v) = .ok (propLine name v) := by
  have hlt := h.length_lt
  have hlen : (Int64.ofNat v.bytes.length).toInt = v.bytes.length :=
    toInt_ofNat_of_lt (by omega)
  have hmin : Int64.ofNat v.bytes.length ≠ minValue := ne_minValue (by omega)
  have htypes : ∀ t ∈ [VarType.none, .str, .number, .syslogTime], t.toLong ≠ minValue := by
    decide
  have htype : v.varType.toLong ≠ minValue :=
    htypes _ (by cases v <;> simp [PropVal.varType])
  simp only [SerializeProp, h.text_eq, bind, Except.bind, strmWriteLong_eq htype,
    strmWriteLong_eq hmin, hlen]
  rfl

lemma decodes_val (pProp : Var) (name : Bytes) (h : v.Storable) :
    Decodes Strm.at (deserializeVal { pProp with pcsName := cstring name, varType := v.varType }
      (Int64.ofInt v.bytes.length)) (v.bytes ++ [58]) (v.readInto pProp name) := by
  have hstr : v.bytes.length < 2 ^ 31 := h.length_lt
  have hlen : ((Int64.ofInt v.bytes.length).toInt32).toInt.toNat = v.bytes.length := by
    rw [toInt32_ofInt, Int32.toInt_ofInt_of_le (by omega) (by omega), Int.toNat_natCast]
  cases v with
  | none => cases h
  | psz buf | cstr s => exact (decodes_str hlen).map _
  | short n | int n =>
    exact (decodes_number n.toInt).map _
  | long n | int64 n =>
    have hnum := decodes_number n.toInt
    rw [Int64.ofInt_toInt] at hnum
    exact hnum.map _
  | syslogTime t => exact (decodes_syslogTime _ t).map _

/-- **A property line reads back.** -/
theorem decodes_property (pProp : Var) {name : Bytes} (hname : 58 ∉ cstring name) (h : v.Storable) :
    Decodes Strm.at (objDeserializeProperty pProp) (propLine name v) (v.readInto pProp name) := by
  have htype : VarType.ofNumber (Int64.ofInt v.varType.toLong.toInt) = v.varType := by
    cases v <;> rfl
  refine (decodes_readChar COOKIE_PROPLINE).bind (.ite_neg (by simp) ?_)
  refine (decodes_readUntil hname).bind <| (decodes_number _).bind <| (decodes_number _).bind ?_
  rw [htype]
  have hrest := (decodes_expect 10 .invalidPropframe).bind (f := fun _ => pure _)
    (.pure (v.readInto pProp name))
  exact (decodes_val pProp name h).bind hrest

/-! ## Objects -/

def headerLine (pszRecType pszID : Bytes) (iObjVers : Int32) : Bytes :=
  [COOKIE_OBJLINE] ++ pszRecType ++ [58, 49, 58] ++
    (pszID ++ [58] ++ (decimalInt iObjVers.toInt ++ [58] ++ [10]))

lemma objSerializeHeader_eq (pszRecType pszID : Bytes) (iObjVers : Int32) :
    objSerializeHeader pszRecType pszID iObjVers = .ok (headerLine pszRecType pszID iObjVers) := by
  have hmin : iObjVers.toInt64 ≠ minValue := by
    have hlo := iObjVers.le_toInt
    exact ne_minValue (by rw [Int32.toInt_toInt64]; omega)
  simp only [objSerializeHeader, strmWriteLong_eq hmin, Int32.toInt_toInt64]
  rfl

variable {pszID : Bytes}

lemma decodes_header (pszRecType : Bytes) (hid : 58 ∉ pszID) (iObjVers : Int32) :
    Decodes Strm.at (objDeserializeHeader pszRecType) (headerLine pszRecType pszID iObjVers)
      (pszID, iObjVers) := by
  have hres : (pszID, iObjVers) = (pszID, (Int64.ofInt iObjVers.toInt).toInt32) := by
    rw [toInt32_ofInt, Int32.ofInt_toInt]
  have hskip : Decodes Strm.at (readUntil 10) ([] ++ [10]) [] := decodes_readUntil (by simp)
  rw [hres]
  refine Decodes.cast ((decodes_expect COOKIE_OBJLINE .invalidHeader).bind <|
    (decodes_forM_expect pszRecType .invalidHeaderRecType).bind <|
    (decodes_expect 58 .invalidHeader).bind <| (decodes_expect 49 .invalidHeaderVers).bind <|
    (decodes_expect 58 .invalidHeaderVers).bind <| (decodes_readUntil hid).bind <|
    (decodes_number iObjVers.toInt).bind <| hskip.bind <| .pure _) ?_
  simp [headerLine, append_assoc]

def readVars : Var → List (Bytes × PropVal) → List Var
  | _, [] => []
  | pVar, p :: ps => p.2.readInto pVar p.1 :: readVars (reinitVar (p.2.readInto pVar p.1)) ps

/-- A property that can be read back: its name ends where its `:` is, its value is storable. -/
def Readable (p : Bytes × PropVal) : Prop := 58 ∉ cstring p.1 ∧ p.2.Storable

variable {ps : List (Bytes × PropVal)}

lemma propertiesLoop_eq (hps : ∀ p ∈ ps, Readable p) (pVar : Var) (rest : Bytes)
    (off fuel : ℕ) (hfuel : ps.length < fuel) :
    propertiesLoop fuel pVar
        (.at ((ps.map fun p => propLine p.1 p.2).flatten ++ COOKIE_ENDLINE :: rest) off) =
      .ok (readVars pVar ps) ⟨rest, some COOKIE_ENDLINE,
        off + (ps.map fun p => propLine p.1 p.2).flatten.length⟩ := by
  induction ps generalizing pVar off fuel with
  | nil =>
    obtain ⟨fuel, rfl⟩ := Nat.exists_eq_add_of_lt hfuel
    rfl
  | cons p ps ih =>
    rw [length_cons] at hfuel
    obtain ⟨fuel, rfl⟩ := exists_eq_succ_of_ne_zero (ne_zero_of_lt hfuel)
    obtain ⟨hname, hval⟩ := hps p mem_cons_self
    have hrest := ih (fun p hp => hps p (mem_cons_of_mem _ hp))
      (reinitVar (p.2.readInto pVar p.1)) (off + (propLine p.1 p.2).length) fuel (by omega)
    rw [map_cons, flatten_cons, append_assoc, propertiesLoop,
      decodes_property pVar hname hval]
    simp only [hrest, length_append, add_assoc]
    rfl

lemma length_le_length_flatten : ps.length ≤ (ps.map fun p => propLine p.1 p.2).flatten.length := by
  induction ps with
  | nil => exact le_rfl
  | cons p ps ih =>
    rw [map_cons, flatten_cons, length_append, length_cons]
    have hpos : 1 ≤ (propLine p.1 p.2).length := by
      rw [propLine, length_append, length_singleton]
      omega
    omega

lemma objDeserializeTrailer_unget (data : Bytes) (off : ℕ) :
    objDeserializeTrailer ⟨data, some c, off⟩ = objDeserializeTrailer (.at (c :: data) off) := rfl

lemma decodes_properties (hps : ∀ p ∈ ps, Readable p) :
    Decodes Strm.at objDeserializeProperties
      ((ps.map fun p => propLine p.1 p.2).flatten ++ EndSerialize) (readVars Var.construct ps) := by
  intro rest off
  set lines := (ps.map fun p => propLine p.1 p.2).flatten with hlines
  have hlen : ps.length ≤ lines.length := length_le_length_flatten
  have hdata : lines ++ EndSerialize ++ rest =
      lines ++ COOKIE_ENDLINE :: (EndSerialize.tail ++ rest) := append_assoc ..
  have hloop : readProperties Var.construct (.at (lines ++ EndSerialize ++ rest) off) =
      .ok (readVars Var.construct ps)
        ⟨EndSerialize.tail ++ rest, some COOKIE_ENDLINE, off + lines.length⟩ := by
    rw [hdata]
    refine propertiesLoop_eq hps Var.construct _ off _ ?_
    show ps.length < (lines ++ _).length + 2
    rw [length_append]
    omega
  have htrailer : objDeserializeTrailer ⟨EndSerialize.tail ++ rest, some COOKIE_ENDLINE,
      off + lines.length⟩ = .ok () (.at rest (off + lines.length + EndSerialize.length)) :=
    (objDeserializeTrailer_unget ..).trans (decodes_forM_expect EndSerialize .invalidTrailer ..)
  rw [objDeserializeProperties, bind_eq_of_ok hloop, bind_eq_of_ok htrailer, length_append]
  rfl

lemma decodes_readHeader (hid : 58 ∉ pszID) (iObjVers : Int32) :
    Decodes Strm.at readHeader (headerLine (ascii "Obj") pszID iObjVers) (pszID, iObjVers) := by
  intro rest off
  show headerLoop (_ + 1) _ = _
  rw [headerLoop, decodes_header _ hid]

lemma decodes_withMethods {α : Type} {objDeserialize : Rd α} {bs : Bytes} {obj : α}
    (hid : 58 ∉ pszID) (iObjVers : Int32) (h : Decodes Strm.at objDeserialize bs obj) :
    Decodes Strm.at (objDeserializeWithMethods pszID objDeserialize)
      (headerLine (ascii "Obj") pszID iObjVers ++ (bs ++ EndSerialize)) obj := by
  have htrailer := (decodes_forM_expect EndSerialize .invalidTrailer).bind (f := fun _ => pure obj)
    (.pure obj)
  exact (decodes_readHeader hid iObjVers).bind (.ite_neg (by simp) (h.bind htrailer))

def objBytes (o : Object) : Bytes :=
  headerLine (ascii "Obj") o.pszID o.iObjVers ++
    ((o.props.map fun p => propLine p.1 p.2).flatten ++ EndSerialize)

/-- An object whose class and property names can be told from the delimiters, and whose values can
be stored. -/
structure Object.WellFormed (o : Object) : Prop where
  id : 58 ∉ o.pszID
  names : ∀ p ∈ o.props, 58 ∉ p.1 ∧ 0 ∉ p.1
  strings : ∀ p ∈ o.props, ∀ buf, p.2 = .psz buf → 0 ∉ buf
  vals : ∀ p ∈ o.props, p.2.Storable

lemma cstring_eq_self {buf : Bytes} (h : 0 ∉ buf) : cstring buf = buf := by
  rw [cstring, takeWhile_eq_self_iff]
  intro c hc
  rw [decide_eq_true_eq]
  rintro rfl
  exact h hc

variable {o : Object}

lemma Object.WellFormed.readable (h : o.WellFormed) : ∀ p ∈ o.props, Readable p := fun p hp =>
  ⟨by rw [cstring_eq_self (h.names p hp).2]; exact (h.names p hp).1, h.vals p hp⟩

lemma serializeObj_eq (h : o.WellFormed) : serializeObj o = .ok (objBytes o) := by
  have hlines : ∀ ps : List (Bytes × PropVal), (∀ p ∈ ps, p.2.Storable) →
      (ps.mapM fun p => SerializeProp p.1 (some p.2)) = .ok (ps.map fun p => propLine p.1 p.2) := by
    intro ps hps
    induction ps with
    | nil => rfl
    | cons p ps ih =>
      rw [mapM_cons, SerializeProp_eq p.1 (hps p mem_cons_self),
        ih fun q hq => hps q (mem_cons_of_mem _ hq)]
      rfl
  rw [serializeObj, objSerializeHeader_eq, hlines o.props h.vals]
  rfl

lemma deserializeObj_eq (h : o.WellFormed) (rest : Bytes) (off : ℕ) :
    deserializeObj (.at (objBytes o ++ rest) off) =
      .ok ⟨o.pszID, o.iObjVers, readVars Var.construct o.props, off + (objBytes o).length⟩
        (.at rest (off + (objBytes o).length)) := by
  rw [objBytes, append_assoc, deserializeObj, bind_eq_of_ok (decodes_header _ h.id _ _ _),
    bind_eq_of_ok (decodes_properties h.readable _ _), add_assoc, ← length_append]
  rfl

def PropVal.SameAs : PropVal → VarVal → Prop
  | .psz buf, .str s => s = buf
  | .cstr s', .str s => s = s'
  | .short n, .num num => num.toInt = n.toInt
  | .int n, .num num => num.toInt = n.toInt
  | .long n, .num num => num = n
  | .int64 n, .num num => num = n
  | .syslogTime t, .syslogTime t' => t' = { t with wday := t'.wday, inUTC := t'.inUTC }
  | _, _ => False

def SameProp (p : Bytes × PropVal) (v : Var) : Prop :=
  v.pcsName = p.1 ∧ v.varType = p.2.varType ∧ p.2.SameAs v.val

structure SameObject (o : Object) (r : ObjRead) : Prop where
  id : r.strID = o.pszID
  vers : r.oVers = o.iObjVers
  props : List.Forall₂ SameProp o.props r.vars

lemma sameProp_readInto (pVar : Var) {p : Bytes × PropVal} (hname : 0 ∉ p.1)
    (hstr : ∀ buf, p.2 = .psz buf → 0 ∉ buf) (hval : p.2.Storable) :
    SameProp p (p.2.readInto pVar p.1) := by
  obtain ⟨name, v⟩ := p
  replace hname : cstring name = name := cstring_eq_self hname
  cases v with
  | none => cases hval
  | psz buf => exact ⟨hname, rfl, cstring_eq_self (hstr buf rfl)⟩
  | cstr s => exact ⟨hname, rfl, rfl⟩
  | short n | int n => exact ⟨hname, rfl, n.toInt_toInt64⟩
  | long n | int64 n | syslogTime t => exact ⟨hname, rfl, rfl⟩

lemma Object.WellFormed.sameProps (h : o.WellFormed) (pVar : Var) :
    List.Forall₂ SameProp o.props (readVars pVar o.props) := by
  obtain ⟨id, vers, ps⟩ := o
  obtain ⟨-, hnames, hstrs, hvals⟩ := h
  induction ps generalizing pVar with
  | nil => exact .nil
  | cons p ps ih =>
    refine .cons ?_ (ih _ (fun q hq => hnames q (.tail _ hq)) (fun q hq => hstrs q (.tail _ hq))
      (fun q hq => hvals q (.tail _ hq)))
    exact sameProp_readInto pVar (hnames p (.head _)).2 (hstrs p (.head _)) (hvals p (.head _))

/-- **Objects read back.** Any list of well-formed objects can be written. Read back from a stream
that goes on behind them, they come out as the same objects with the same properties, and the stream
stands right behind the trailer after each of them. -/
theorem objects_read_back (os : List Object) (hos : ∀ o ∈ os, o.WellFormed) (rest : Bytes)
    (off : ℕ) :
    ∃ recs, os.mapM serializeObj = .ok recs ∧
      ∃ rs, replicateM deserializeObj os.length (.at (recs.flatten ++ rest) off) =
          .ok rs (.at rest (off + recs.flatten.length)) ∧
        List.Forall₂ SameObject os rs ∧
        ∀ i r, rs[i]? = some r → r.endOffs = off + (recs.take (i + 1)).flatten.length := by
  induction os generalizing off with
  | nil => exact ⟨[], rfl, [], rfl, .nil, fun i r h => by cases h⟩
  | cons o os ih =>
    have ho := hos o (.head _)
    obtain ⟨recs, hrecs, rs, hrs, hsame, hoffs⟩ :=
      ih (fun p hp => hos p (.tail _ hp)) (off + (objBytes o).length)
    let r : ObjRead := ⟨o.pszID, o.iObjVers, readVars Var.construct o.props,
      off + (objBytes o).length⟩
    have hr : SameObject o r := ⟨rfl, rfl, ho.sameProps _⟩
    refine ⟨objBytes o :: recs, ?_, r :: rs, ?_, .cons hr hsame, ?_⟩
    · rw [mapM_cons, serializeObj_eq ho, hrecs]
      rfl
    · rw [length_cons, replicateM, flatten_cons, append_assoc,
        bind_eq_of_ok (deserializeObj_eq ho _ _), bind_eq_of_ok hrs, length_append,
        add_assoc]
      rfl
    · intro i r' hr'
      cases i with
      | zero =>
        obtain rfl := Option.some.inj hr'
        simp [r]
      | succ i =>
        rw [hoffs i r' hr', take_succ_cons, flatten_cons, length_append,
          add_assoc]

def cookieObject : Object where
  pszID := ascii "msg"
  iObjVers := 1
  props := [(ascii "pszRawMsg", .psz (ascii ">End\n.\n<Obj:1:msg:1:\n+a:1:2:")),
    (ascii "iSeverity", .short (-7)), (ascii "iBytes", .int64 9223372036854775807)]

theorem objects_read_back_cookieObject :
    ∃ recs, [cookieObject, cookieObject].mapM serializeObj = .ok recs ∧
      ∃ rs, replicateM deserializeObj 2 (.at (recs.flatten ++ [60]) 7) =
          .ok rs (.at [60] (7 + recs.flatten.length)) ∧
        List.Forall₂ SameObject [cookieObject, cookieObject] rs ∧
        ∀ i r, rs[i]? = some r → r.endOffs = 7 + (recs.take (i + 1)).flatten.length := by
  have hwf : cookieObject.WellFormed := by
    refine ⟨by decide, by decide, fun p hp buf hbuf => ?_, fun p hp => ?_⟩
    · simp only [cookieObject, mem_cons, not_mem_nil, or_false] at hp
      rcases hp with rfl | rfl | rfl
      · obtain rfl := PropVal.psz.inj hbuf
        decide
      · cases hbuf
      · cases hbuf
    · simp only [cookieObject, mem_cons, not_mem_nil, or_false] at hp
      rcases hp with rfl | rfl | rfl
      · show (cstring _).length < 2 ^ 31
        decide
      · trivial
      · show (9223372036854775807 : Int64) ≠ minValue
        decide
  exact objects_read_back [cookieObject, cookieObject] (by simp [hwf]) [60] 7

/-! ## What is not stored -/

def wednesday : SyslogTime where
  timeType := 2
  month := 9
  day := 26
  wday := 3
  hour := 12
  minute := 0
  second := 0
  secfracPrecision := 6
  offsetMinute := 0
  offsetHour := 2
  offsetMode := 43
  year := 2018
  secfrac := 250000
  inUTC := 0

/-- A time does not come back with its day of the week. -/
theorem wday_is_not_stored :
    ∃ bytes v s, serializeObj ⟨ascii "msg", 1, [(ascii "tRcvdAt", .syslogTime wednesday)]⟩ =
        .ok bytes ∧
      deserializeObj (.at bytes 0) = .ok ⟨ascii "msg", 1, [v], bytes.length⟩ s ∧
      v.val = .syslogTime { wednesday with wday := 0 } ∧ v.val ≠ .syslogTime wednesday := by
  let o : Object := ⟨ascii "msg", 1, [(ascii "tRcvdAt", .syslogTime wednesday)]⟩
  have hwf : o.WellFormed := by
    refine ⟨by decide, by decide, fun p hp buf hbuf => ?_, fun p hp => ?_⟩
    · rw [mem_singleton.mp hp] at hbuf
      cases hbuf
    · rw [mem_singleton.mp hp]
      refine length_fmtSyslogTime_le ?_
      simp only [forall_mem_cons, not_mem_nil, false_implies, implies_true, and_true]
      decide
  have hread := deserializeObj_eq hwf [] 0
  rw [append_nil, zero_add] at hread
  refine ⟨objBytes o, _, _, serializeObj_eq hwf, hread, rfl, ?_⟩
  intro heq
  exact absurd (VarVal.syslogTime.inj heq) (by decide)

end Rsyslog.Obj
