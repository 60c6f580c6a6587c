import Perftest.Lib.CMachine
import Perftest.Lib.CNumeral

namespace Perftest

open CMachine CLiteral CNumeral
open CString (Text isSpace)

def MAC_LEN : Nat := 17
def MAC_ARR_LEN : Nat := 6
def HEX_BASE : Nat := 16

/-- The fields that `strtok` finds, which takes adjacent colons as one. -/
def macFields (mac : Text) : List Text := (mac.splitOn 58).filter (· ≠ [])

/-- The byte of a field; the unsigned number is cut to an `int`. -/
def parseMacField (tmpField : Text) : Option UInt8 :=
  let (value, chk) := strtoul HEX_BASE tmpField
  let tmpVal := longToInt value
  if 0xff < tmpVal then none
  else if chk ≠ [] then none
  else some (UInt8.ofInt tmpVal)

def parseMacLoop : Nat → List Text → List UInt8 → Option (List UInt8)
  | fieldNum, [], addr => if fieldNum ≠ MAC_ARR_LEN then none else some addr
  | fieldNum, tmpField :: rest, addr =>
    if fieldNum < MAC_ARR_LEN then
      (parseMacField tmpField).bind fun b => parseMacLoop (fieldNum + 1) rest (addr ++ [b])
    else none

/-- `parse_mac_from_str`, with the bytes that it stores. -/
def parseMacFromStr (mac : Text) : Option (List UInt8) :=
  if mac.length ≠ MAC_LEN then none else parseMacLoop 0 (macFields mac) []

def TwoDigits (f : Text) : Prop := f.length = 2 ∧ ∀ b ∈ f, isDigitOf 16 b = true

/-- Six fields of two hexadecimal digits between single colons, and the bytes that they stand for. -/
def MacAddress (mac : Text) (addr : List UInt8) : Prop :=
  ∃ fields : List Text, mac = [58].intercalate fields ∧ fields.length = MAC_ARR_LEN ∧
    (∀ f ∈ fields, TwoDigits f) ∧ addr = fields.map fun f => UInt8.ofNat (valueOf 16 f)

/-- A number with blanks, a sign or a mark in front and any number of digits; one without a minus
sign fits a byte. -/
def LooseField (f : Text) : Prop :=
  ∃ blanks sign mark ds, Numeral 16 blanks sign mark ds ∧ f = blanks ++ (sign ++ (mark ++ ds)) ∧
    (sign = [45] ∨ valueOf 16 ds ≤ 0xff)

/-- A text of the right length with six such numbers between runs of colons, one of them not written
with two digits. -/
structure LooseMac (mac : Text) : Prop where
  length : mac.length = MAC_LEN
  fields : (macFields mac).length = MAC_ARR_LEN
  numbers : ∀ f ∈ macFields mac, LooseField f
  odd : ∃ f ∈ macFields mac, ¬ TwoDigits f

section Fields

variable {f mac : Text} {addr : List UInt8} {fields : List Text}

/-- The conversion to `unsigned long` and back. -/
theorem longToInt_unsigned {z : Int} (hl : -2 ^ 31 ≤ z) (hu : z < 2 ^ 31) :
    longToInt ((z % 2 ^ 64).toNat : Int) = z := by
  rw [longToInt, Int.toNat_of_nonneg (Int.emod_nonneg z (by norm_num)), Int.bmod_def]
  norm_num
  split <;> omega

/-- The digits of a field of seven bytes fit an `int`. -/
theorem shortField_value {blanks sign mark ds : Text} (hn : Numeral 16 blanks sign mark ds)
    (hlen : (blanks ++ (sign ++ (mark ++ ds))).length ≤ 7) : valueOf 16 ds < 2 ^ 31 := by
  simp only [List.length_append] at hlen
  calc valueOf 16 ds < 16 ^ ds.length := valueOf_lt_pow hn.digits
    _ ≤ 16 ^ 7 := Nat.pow_le_pow_right (by norm_num) (by omega)
    _ < 2 ^ 31 := by norm_num

/-- What is stored for a number of at most seven bytes. -/
theorem parseMacField_numeral {blanks sign mark ds : Text} (hn : Numeral 16 blanks sign mark ds)
    (hlen : (blanks ++ (sign ++ (mark ++ ds))).length ≤ 7) :
    parseMacField (blanks ++ (sign ++ (mark ++ ds))) =
      if 0xff < signedValue sign (valueOf 16 ds) then none
      else some (UInt8.ofInt (signedValue sign (valueOf 16 ds))) := by
  have hv := shortField_value hn hlen
  have hs := strtoul_numeral hn (ends_nil 16) (by omega)
  rw [List.append_nil] at hs
  have hint : longToInt ((signedValue sign (valueOf 16 ds) % 2 ^ 64).toNat : Int) =
      signedValue sign (valueOf 16 ds) := by
    unfold signedValue
    split
    next => exact longToInt_unsigned (by omega) (by omega)
    next => exact longToInt_unsigned (by omega) (by omega)
  simp only [parseMacField, HEX_BASE, hs, hint, ne_eq, not_true_eq_false, if_false]

theorem twoDigits_numeral (h : TwoDigits f) : Numeral 16 [] [] [] f := by
  refine ⟨fun b hb => absurd hb List.not_mem_nil, .inl rfl, .inl rfl, ?_, h.2⟩
  rintro rfl
  exact absurd h.1 (by decide)

theorem TwoDigits.value_le (h : TwoDigits f) : valueOf 16 f ≤ 0xff := by
  have hv := valueOf_lt_pow h.2
  rw [h.1] at hv
  omega

theorem parseMacField_twoDigits (h : TwoDigits f) :
    parseMacField f = some (UInt8.ofNat (valueOf 16 f)) := by
  have hp := parseMacField_numeral (twoDigits_numeral h) (h.1.trans_le (by norm_num))
  have hv := h.value_le
  have hs : signedValue [] (valueOf 16 f) = valueOf 16 f := rfl
  rw [hs, if_neg (by omega), UInt8.ofInt, Int.emod_eq_of_lt (by omega) (by omega),
    Int.toNat_natCast] at hp
  exact hp

theorem looseField_twoDigits (h : TwoDigits f) : LooseField f :=
  ⟨[], [], [], f, twoDigits_numeral h, rfl, .inr h.value_le⟩

/-- The fields of at most seven bytes that the loop takes. -/
theorem parseMacField_isSome_iff (hne : f ≠ []) (hlen : f.length ≤ 7) :
    (∃ b, parseMacField f = some b) ↔ LooseField f := by
  constructor
  · rintro ⟨b, hb⟩
    cases hs : scan 16 f with
    | none =>
      have hu : strtoul 16 f = (0, f) := by
        rw [strtoul, hs]
      simp only [parseMacField, HEX_BASE, hu, ne_eq, hne, not_false_eq_true, if_true] at hb
      split at hb
      all_goals cases hb
    | some p =>
      obtain ⟨sign, n, rest⟩ := p
      obtain ⟨blanks, mark, ds, hn, rfl, rfl, -⟩ := scan_spec hs
      have hrest : rest = [] := by
        by_contra hr
        have hu : (strtoul 16 (blanks ++ (sign ++ (mark ++ ds ++ rest)))).2 = rest := by
          rw [strtoul, hs]
        simp only [parseMacField, HEX_BASE, hu, ne_eq, hr, not_false_eq_true, if_true] at hb
        split at hb
        all_goals cases hb
      subst hrest
      rw [List.append_nil] at hb hlen ⊢
      refine ⟨blanks, sign, mark, ds, hn, rfl, ?_⟩
      rw [parseMacField_numeral hn hlen] at hb
      split at hb
      next => cases hb
      next hle =>
        by_cases hm : sign = [45]
        · exact .inl hm
        · rw [signedValue, if_neg hm] at hle
          exact .inr (by omega)
  · rintro ⟨blanks, sign, mark, ds, hn, rfl, hv⟩
    rw [parseMacField_numeral hn hlen, if_neg]
    · exact ⟨_, rfl⟩
    unfold signedValue
    split
    next => omega
    next hm =>
      have hle := hv.resolve_left hm
      omega

/-- The loop takes all fields, and six of them. -/
theorem parseMacLoop_eq_some {k : Nat} {out : List UInt8} :
    parseMacLoop k fields addr = some out ↔ k + fields.length = MAC_ARR_LEN ∧
      ∃ bs, fields.map parseMacField = bs.map some ∧ out = addr ++ bs := by
  induction fields generalizing k addr with
  | nil =>
    simp only [parseMacLoop, List.map_nil, List.nil_eq, List.map_eq_nil_iff, exists_eq_left,
      List.append_nil, List.length_nil, Nat.add_zero]
    split
    next h => simp [h]
    next h => simp [not_not.mp h, eq_comm]
  | cons f fields ih =>
    rw [parseMacLoop, List.length_cons]
    split
    next hk =>
      constructor
      · intro h
        obtain ⟨b, hb, h⟩ := Option.bind_eq_some_iff.mp h
        obtain ⟨hlen, bs, hbs, rfl⟩ := ih.mp h
        refine ⟨by omega, b :: bs, ?_, List.append_assoc addr [b] bs⟩
        rw [List.map_cons, List.map_cons, hb, hbs]
      · rintro ⟨hlen, bs, hbs, rfl⟩
        cases bs with
        | nil => cases hbs
        | cons b bs =>
          obtain ⟨hb, hbs⟩ := List.cons.inj hbs
          refine Option.bind_eq_some_iff.mpr ⟨b, hb, ih.mpr ⟨by omega, bs, hbs, ?_⟩⟩
          exact (List.append_assoc addr [b] bs).symm
    next hk =>
      constructor
      · intro h
        cases h
      · rintro ⟨hlen, -⟩
        omega

theorem parseMacFromStr_eq_some : parseMacFromStr mac = some addr ↔ mac.length = MAC_LEN ∧
    (macFields mac).length = MAC_ARR_LEN ∧
      (macFields mac).map parseMacField = addr.map some := by
  unfold parseMacFromStr
  split
  next h =>
    constructor
    · intro hp
      cases hp
    · rintro ⟨hlen, -⟩
      exact absurd hlen h
  next h =>
    rw [parseMacLoop_eq_some, Nat.zero_add]
    constructor
    · rintro ⟨hlen, bs, hbs, rfl⟩
      exact ⟨not_not.mp h, hlen, hbs⟩
    · rintro ⟨-, hlen, hbs⟩
      exact ⟨hlen, addr, hbs, rfl⟩

end Fields

section Lengths

variable {f mac : Text} {addr : List UInt8} {fields : List Text}

theorem length_intercalate (sep : UInt8) (h : fields ≠ []) :
    ([sep].intercalate fields).length + 1 = (fields.map List.length).sum + fields.length := by
  induction fields with
  | nil => exact absurd rfl h
  | cons f fields ih =>
    cases fields with
    | nil => simp
    | cons g fields =>
      have hi := ih (List.cons_ne_nil g fields)
      rw [List.intercalate_cons_cons]
      simp only [List.length_append, List.map_cons, List.sum_cons, List.length_cons,
        List.length_nil] at hi ⊢
      omega

/-- The bytes of a text are the bytes of its fields and the colons. -/
theorem macFields_length (mac : Text) : mac.length + 1 =
    ((macFields mac).map List.length).sum + (mac.splitOn 58).length := by
  have hl := length_intercalate 58 (List.splitOn_ne_nil 58 mac)
  rw [List.intercalate_splitOn] at hl
  rw [hl]
  congr 1
  unfold macFields
  generalize mac.splitOn 58 = fs
  induction fs with
  | nil => rfl
  | cons f fs ih =>
    cases f with
    | nil => simpa using ih
    | cons b f => simpa using ih

theorem macFields_length_le (mac : Text) : (macFields mac).length ≤ (mac.splitOn 58).length :=
  List.length_filter_le _ _

theorem ne_nil_of_mem_macFields (h : f ∈ macFields mac) : f ≠ [] :=
  of_decide_eq_true (List.mem_filter.mp h).2

/-- Six fields share seventeen bytes with five colons. -/
theorem macField_short (hlen : mac.length = MAC_LEN) (hsix : (macFields mac).length = MAC_ARR_LEN)
    (hf : f ∈ macFields mac) : f.length ≤ 7 := by
  have hl := macFields_length mac
  have hc := macFields_length_le mac
  have hpos : ∀ n ∈ (macFields mac).map List.length, 1 ≤ n := by
    intro n hn
    obtain ⟨g, hg, rfl⟩ := List.mem_map.mp hn
    exact List.length_pos_of_ne_nil (ne_nil_of_mem_macFields hg)
  obtain ⟨xs, ys, hxy⟩ := List.append_of_mem hf
  rw [hxy] at hl hc hsix hpos
  have hx := List.card_nsmul_le_sum (xs.map List.length) 1 fun n hn => hpos n (by simp [hn])
  have hy := List.card_nsmul_le_sum (ys.map List.length) 1 fun n hn => hpos n (by simp [hn])
  rw [MAC_LEN] at hlen
  rw [MAC_ARR_LEN] at hsix
  simp only [List.map_append, List.map_cons, List.sum_append, List.sum_cons, List.length_append,
    List.length_cons, List.length_map, smul_eq_mul, mul_one] at *
  omega

/-- Fields of two digits leave no room for an empty piece. -/
theorem macAddress_of_twoDigits (hlen : mac.length = MAC_LEN)
    (hsix : (macFields mac).length = MAC_ARR_LEN) (h : ∀ f ∈ macFields mac, TwoDigits f) :
    MacAddress mac ((macFields mac).map fun f => UInt8.ofNat (valueOf 16 f)) := by
  have hl := macFields_length mac
  have htwo : (macFields mac).map List.length = List.replicate 6 2 := by
    refine List.eq_replicate_iff.mpr ⟨(List.length_map _).trans hsix, ?_⟩
    intro n hn
    obtain ⟨f, hf, rfl⟩ := List.mem_map.mp hn
    exact (h f hf).1
  rw [htwo, List.sum_replicate, hlen, MAC_LEN, smul_eq_mul] at hl
  have hall : macFields mac = mac.splitOn 58 := by
    apply List.filter_sublist.eq_of_length
    change (macFields mac).length = _
    rw [hsix, MAC_ARR_LEN]
    omega
  refine ⟨macFields mac, ?_, hsix, h, rfl⟩
  rw [hall, List.intercalate_splitOn]

theorem MacAddress.spec (h : MacAddress mac addr) : mac.length = MAC_LEN ∧
    (macFields mac).length = MAC_ARR_LEN ∧ (∀ f ∈ macFields mac, TwoDigits f) ∧
      addr = (macFields mac).map fun f => UInt8.ofNat (valueOf 16 f) := by
  obtain ⟨fields, rfl, hsix, htwo, rfl⟩ := h
  have hne : fields ≠ [] := by
    rintro rfl
    cases hsix
  have hcolon : ∀ f ∈ fields, 58 ∉ f := by
    intro f hf hm
    exact absurd ((htwo f hf).2 58 hm) (by decide)
  have hf : macFields ([58].intercalate fields) = fields := by
    rw [macFields, List.splitOn_intercalate 58 hcolon hne, List.filter_eq_self]
    intro f hf
    refine decide_eq_true ?_
    rintro rfl
    exact absurd (htwo [] hf).1 (by decide)
  have hlen := length_intercalate 58 hne
  have hlens : fields.map List.length = List.replicate 6 2 := by
    refine List.eq_replicate_iff.mpr ⟨(List.length_map _).trans hsix, ?_⟩
    intro n hn
    obtain ⟨f, hf, rfl⟩ := List.mem_map.mp hn
    exact (htwo f hf).1
  rw [hlens, List.sum_replicate, hsix, smul_eq_mul, MAC_ARR_LEN] at hlen
  rw [hf]
  refine ⟨?_, hsix, htwo, rfl⟩
  rw [MAC_LEN]
  omega

end Lengths

section Grammar

variable {mac : Text} {addr : List UInt8}

/-- The right texts are parsed to their bytes. -/
theorem parseMacFromStr_macAddress (h : MacAddress mac addr) : parseMacFromStr mac = some addr := by
  obtain ⟨hlen, hsix, htwo, rfl⟩ := h.spec
  refine parseMacFromStr_eq_some.mpr ⟨hlen, hsix, ?_⟩
  rw [List.map_map]
  exact List.map_congr_left fun f hf => parseMacField_twoDigits (htwo f hf)

/-- What is parsed is a right text, or a loose one. -/
theorem macAddress_of_parse (h : parseMacFromStr mac = some addr) (hl : ¬ LooseMac mac) :
    MacAddress mac addr := by
  obtain ⟨hlen, hsix, hbs⟩ := parseMacFromStr_eq_some.mp h
  have hnumbers : ∀ f ∈ macFields mac, LooseField f := by
    intro f hf
    apply (parseMacField_isSome_iff (ne_nil_of_mem_macFields hf) (macField_short hlen hsix hf)).mp
    have hm : parseMacField f ∈ (macFields mac).map parseMacField := List.mem_map_of_mem hf
    rw [hbs] at hm
    obtain ⟨b, -, hb⟩ := List.mem_map.mp hm
    exact ⟨b, hb.symm⟩
  have htwo : ∀ f ∈ macFields mac, TwoDigits f := by
    by_contra hodd
    push Not at hodd
    exact hl ⟨hlen, hsix, hnumbers, hodd⟩
  have ha := macAddress_of_twoDigits hlen hsix htwo
  have hp := parseMacFromStr_macAddress ha
  rw [h] at hp
  rwa [Option.some.inj hp]

theorem parseMacFromStr_looseMac (h : LooseMac mac) : ∃ addr, parseMacFromStr mac = some addr := by
  have hall : ∀ f ∈ macFields mac, ∃ b, parseMacField f = some b := fun f hf =>
    (parseMacField_isSome_iff (ne_nil_of_mem_macFields hf)
      (macField_short h.length h.fields hf)).mpr (h.numbers f hf)
  refine ⟨(macFields mac).map fun f => (parseMacField f).getD 0,
    parseMacFromStr_eq_some.mpr ⟨h.length, h.fields, ?_⟩⟩
  rw [List.map_map]
  refine List.map_congr_left fun f hf => ?_
  obtain ⟨b, hb⟩ := hall f hf
  rw [Function.comp_apply, hb, Option.getD_some]

theorem LooseMac.not_macAddress (h : LooseMac mac) : ¬ MacAddress mac addr := by
  intro ha
  obtain ⟨-, -, htwo, -⟩ := ha.spec
  obtain ⟨f, hf, hodd⟩ := h.odd
  exact hodd (htwo f hf)

theorem parseMacFromStr_grammar_iff (mac : Text) :
    (∀ addr, parseMacFromStr mac = some addr ↔ MacAddress mac addr) ↔ ¬ LooseMac mac := by
  constructor
  · intro h hl
    obtain ⟨addr, hp⟩ := parseMacFromStr_looseMac hl
    exact hl.not_macAddress ((h addr).mp hp)
  · intro hl addr
    exact ⟨fun hp => macAddress_of_parse hp hl, parseMacFromStr_macAddress⟩

/-- The text `"1::22:33:44:55:66"`. -/
def doubledColon : Text :=
  [49, 58, 58, 50, 50, 58, 51, 51, 58, 52, 52, 58, 53, 53, 58, 54, 54]

theorem doubledColon_accepted :
    ¬ ∀ addr, parseMacFromStr doubledColon = some addr ↔ MacAddress doubledColon addr := by
  intro h
  have hp : parseMacFromStr doubledColon = some [1, 0x22, 0x33, 0x44, 0x55, 0x66] := by
    decide +kernel
  obtain ⟨-, -, htwo, -⟩ := ((h _).mp hp).spec
  have hm : [49] ∈ macFields doubledColon := by
    decide +kernel
  exact absurd (htwo [49] hm).1 (by decide)

end Grammar

end Perftest
