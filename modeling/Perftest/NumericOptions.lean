import Perftest.Parser
import Perftest.Lib.CLiteral

namespace Perftest

open CString CLiteral CMachine

def MIN_TOS : Int := 0
def MAX_TOS : Int := 255
def MIN_HOP_LIMIT : Int := 0
def MAX_HOP_LIMIT : Int := 255
def MIN_IB_PORT : Int := 1
def MAX_SL : Int := 15
def MAX_INLINE : Int := 1024
def MIN_EQ_NUM : Int := 0
def MAX_EQ_NUM : Int := 2048

/-- An integer type of C. -/
structure CIntType where
  signed : Bool
  width : Nat
  width_pos : 0 < width
deriving DecidableEq

namespace CIntType

theorem sixteen_pos : 0 < 16 := by decide

def int : CIntType := ⟨true, 32, by decide⟩
def uint8 : CIntType := ⟨false, 8, by decide⟩
def uint16 : CIntType := ⟨false, 16, sixteen_pos⟩
def uint32 : CIntType := ⟨false, 32, by decide⟩
def uint64 : CIntType := ⟨false, 64, by decide⟩

variable (t : CIntType)

def convert (z : Int) : Int := if t.signed then Int.bmod z (2 ^ t.width) else z % 2 ^ t.width

/-- The values from zero on that the type has. -/
def Holds (n : Nat) : Prop := n < 2 ^ if t.signed then t.width - 1 else t.width

end CIntType

/-- The macros for the arguments of options, with the bounds of their ranges. -/
inductive CheckMacro where
  | value
  | inRange (minv maxv : Int)
  | positive
  | nonNegative
  | inRangeUns (minv maxv : Int)
deriving DecidableEq, Repr

def CheckMacro.passes : CheckMacro → Int → Bool
  | .value, _ => true
  | .inRange minv maxv, arg | .inRangeUns minv maxv, arg => minv ≤ arg && arg ≤ maxv
  | .positive, arg => 0 < arg
  | .nonNegative, arg => 0 ≤ arg

/-- An option with the type of the cast, the type of the field that it is stored in, and the test of
the value that the parser makes behind the macro. -/
structure NumericOption where
  name : String
  type : CIntType
  field : CIntType
  check : CheckMacro
  later : Int → Bool := fun _ => true
  same : type.signed = true → field = type := by decide

def NumericOption.ofInt (name : String) (check : CheckMacro) : NumericOption where
  name := name
  type := .int
  field := .int
  check := check

def NumericOption.ofUns (name : String) (type field : CIntType) (check : CheckMacro)
    (h : type.signed = false) (later : Int → Bool) : NumericOption where
  name := name
  type := type
  field := field
  check := check
  later := later
  same := fun hs => by
    rw [h] at hs
    cases hs

def noTest (_ : Int) : Bool := true

def numericOptions : List NumericOption :=
  [.ofInt "-p" .value,
   .ofUns "-i" .uint8 .uint8 .value rfl (fun v => MIN_IB_PORT ≤ v),
   .ofInt "-m" .value,
   .ofUns "-n" .uint64 .uint64 (.inRangeUns MIN_ITER MAX_ITER) rfl noTest,
   .ofInt "-t" (.inRange MIN_TX MAX_TX),
   .ofInt "-T" (.inRange MIN_TOS MAX_TOS),
   .ofInt "-L" (.inRange MIN_HOP_LIMIT MAX_HOP_LIMIT),
   .ofUns "-u" .uint8 .uint8 .value rfl noTest,
   .ofUns "-S" .uint8 .uint8 .value rfl (fun v => v ≤ MAX_SL),
   .ofInt "-x" .value,
   .ofInt "-q" (.inRange MIN_QP_NUM MAX_QP_NUM),
   .ofInt "-I" (.inRange 0 MAX_INLINE),
   .ofInt "-o" .value,
   .ofInt "-r" (.inRange MIN_RX MAX_RX),
   .ofInt "-Q" (.inRange MIN_CQ_MOD MAX_CQ_MOD),
   .ofInt "-l" .value,
   .ofInt "-D" .positive,
   .ofInt "-f" .nonNegative,
   .ofInt "-X" (.inRange MIN_EQ_NUM MAX_EQ_NUM),
   .ofInt "-K" .value,
   .ofInt "-k" .value,
   .ofInt "pkey_index" .value,
   .ofInt "burst_size" .nonNegative,
   .ofInt "typical_pkt_size" (.inRange 0 0xffff),
   .ofInt "latency_gap" .nonNegative,
   .ofInt "use_cuda" .nonNegative,
   .ofInt "use_musa" .nonNegative,
   .ofInt "use_rocm" .nonNegative,
   .ofInt "use_mlu" .nonNegative,
   .ofInt "use_opencl" .nonNegative,
   .ofInt "opencl_platform_id" .nonNegative,
   .ofInt "retry_count" .nonNegative,
   .ofUns "mmap-offset" .uint64 .uint64 .value rfl noTest,
   .ofUns "dlid" .uint16 .uint16 .value rfl noTest,
   .ofUns "tclass" .uint16 .uint8 .value rfl noTest,
   .ofUns "wait_destroy" .uint32 .uint32 .value rfl noTest,
   .ofUns "flows" .uint16 .int .value rfl (fun v => v ≠ 0),
   .ofUns "flows_burst" .uint16 .int .value rfl (fun v => v ≠ 0),
   .ofInt "remote_port" .value,
   .ofInt "local_port" .value,
   .ofUns "reply_every" .uint32 .uint32 .value rfl noTest,
   .ofUns "vlan_pcp" .uint32 .uint32 (.inRangeUns 0 8) rfl noTest,
   .ofInt "recv_post_list" .value,
   .ofUns "aes_block_size" .uint16 .int .value rfl noTest,
   .ofUns "data_enc_keys_number" .uint16 .int .value rfl noTest,
   .ofUns "log_dci_streams" .uint16 .uint16 .value rfl noTest,
   .ofUns "log_active_dci_streams" .uint16 .uint16 .value rfl noTest,
   .ofUns "cqe_poll" .uint16 .uint16 (.inRange 1 65535) rfl noTest,
   .ofInt "cpu_id" .nonNegative,
   .ofInt "ph" (.inRange 0 3),
   .ofInt "numa_node" .nonNegative]

namespace NumericOption

variable (o : NumericOption)

/-- What is stored for the value of `strtol`. -/
def stored (z : Int) : Int := o.field.convert (o.type.convert z)

def InRange (v : Int) : Prop := o.check.passes v = true ∧ o.later v = true

/-- `CHECK_VALUE` and the tests behind it: the value that an accepted argument leaves. -/
def parse (optarg : Text) : Option Int :=
  let (z, rest) := strtolAuto optarg
  if rest = [] ∧ o.check.passes (o.stored z) ∧ o.later (o.stored z) then some (o.stored z) else none

/-- A value that neither `strtol` nor the conversions change. -/
def Fits (n : Nat) : Prop := n < 2 ^ 63 ∧ o.type.Holds n ∧ o.field.Holds n

/-- An accepted argument is a literal, and its value is stored and in the range. -/
def Means (optarg : Text) : Prop := ∀ v, o.parse optarg = some v →
  ∃ n, IntegerLiteral optarg n ∧ v = n ∧ o.InRange v

/-- The arguments that are taken for something else: an empty one for zero, a number behind blanks
or a sign, and a number that does not fit for the one that it is cut to. -/
def Misread (optarg : Text) : Prop :=
  (optarg = [] ∧ o.InRange 0) ∨
  ∃ blanks sign lit n, Numeral blanks sign lit n ∧ optarg = blanks ++ sign ++ lit ∧
    o.InRange (o.stored (clampLong (signedValue sign n))) ∧
    (blanks ≠ [] ∨ sign ≠ [] ∨ ¬ o.Fits n)

end NumericOption

/-- The argument of `-s` without its suffix, and the factor of that. -/
def sizeSuffix (optarg : Text) : Text × Nat := match optarg.getLast? with
  | some 75 => (optarg.dropLast, SizeSuffix.kilo.factor)
  | some 77 => (optarg.dropLast, SizeSuffix.mega.factor)
  | _ => (optarg, SizeSuffix.none.factor)

def UINT_MAX : Nat := 4294967295

/-- The product for a value of `strtol`. -/
def sizeProduct (z : Int) (factor : Nat) : Nat := longToUns 64 z * factor % 2 ^ 64

/-- The option `-s`. -/
def parseSize (optarg : Text) : Option Nat :=
  let (body, factor) := sizeSuffix optarg
  let size := sizeProduct (strtolAuto body).1 factor
  if size < 1 ∨ UINT_MAX / 2 < size then none else some size

def MeansSize (optarg : Text) : Prop := ∀ v, parseSize optarg = some v →
  ∃ n, IntegerLiteral (sizeSuffix optarg).1 n ∧ v = n * (sizeSuffix optarg).2 ∧
    1 ≤ v ∧ v ≤ UINT_MAX / 2

/-- The text in front of the suffix is no literal, or too large a one, and the product is in the
range. -/
def SizeMisread (optarg : Text) : Prop :=
  (1 ≤ sizeProduct (strtolAuto (sizeSuffix optarg).1).1 (sizeSuffix optarg).2 ∧
    sizeProduct (strtolAuto (sizeSuffix optarg).1).1 (sizeSuffix optarg).2 ≤ UINT_MAX / 2) ∧
  ∀ n, IntegerLiteral (sizeSuffix optarg).1 n → UINT_MAX / 2 < n * (sizeSuffix optarg).2

section Convert

variable {t : CIntType} {n : Nat}

theorem CIntType.convert_le {z : Int} (hz : 0 ≤ z) : t.convert z ≤ z := by
  have hpos : (0 : Int) < 2 ^ t.width := by positivity
  have hmod : z % 2 ^ t.width ≤ z := by
    obtain ⟨n, rfl⟩ := Int.eq_ofNat_of_zero_le hz
    exact_mod_cast Nat.mod_le n (2 ^ t.width)
  unfold convert
  split
  next =>
    rw [Int.bmod_def]
    push_cast
    split <;> omega
  next => exact hmod

theorem CIntType.convert_nonneg (hs : t.signed = false) (z : Int) : 0 ≤ t.convert z := by
  rw [convert, hs, if_neg Bool.false_ne_true]
  exact Int.emod_nonneg _ (by positivity)

/-- Exactly the values of the type are kept. -/
theorem CIntType.convert_eq_iff : t.convert (n : Int) = n ↔ t.Holds n := by
  unfold convert Holds
  obtain ⟨signed, w, hw⟩ := t
  cases signed with
  | false =>
    simp only [Bool.false_eq_true, if_false]
    norm_cast
    constructor
    · intro h
      rw [← h]
      exact Nat.mod_lt _ (by positivity)
    · exact Nat.mod_eq_of_lt
  | true =>
    simp only [if_true]
    obtain ⟨k, rfl⟩ : ∃ k, w = k + 1 := ⟨w - 1, by omega⟩
    have hk : ((2 ^ (k + 1) : Nat) : Int) = 2 * (2 ^ k : Nat) := by
      push_cast
      ring
    have hbound := @Int.bmod_lt n (2 ^ (k + 1)) (by positivity)
    rw [hk] at hbound
    simp only [Nat.add_sub_cancel]
    constructor
    · intro h
      rw [h] at hbound
      omega
    · intro h
      apply Int.bmod_eq_of_le
      · rw [hk]
        omega
      · rw [hk]
        omega

end Convert

namespace NumericOption

variable {o : NumericOption} {n : Nat} {optarg : Text}

theorem clampLong_natCast (n : Nat) : clampLong (n : Int) = min (n : Int) (2 ^ 63 - 1) := by
  unfold clampLong
  omega

/-- A number is stored as it is exactly where it fits. -/
theorem stored_eq_iff : o.stored (clampLong n) = n ↔ o.Fits n := by
  have hc := clampLong_natCast n
  have hnonneg : 0 ≤ clampLong n := by omega
  have hle : clampLong n ≤ n := by omega
  have hstored : o.stored (clampLong n) = n → clampLong n = n ∧ o.type.convert n = n ∧
      o.field.convert n = n := by
    intro h
    unfold stored at h
    cases hs : o.type.signed with
    | false =>
      have h1 := CIntType.convert_nonneg hs (clampLong n)
      have h2 := CIntType.convert_le (t := o.type) hnonneg
      have h3 := CIntType.convert_le (t := o.field) h1
      have h4 : clampLong n = n := by omega
      have h5 : o.type.convert (clampLong n) = n := by omega
      rw [h5] at h
      rw [h4] at h5
      exact ⟨h4, h5, h⟩
    | true =>
      have hidem : o.type.convert (o.type.convert (clampLong n)) = o.type.convert (clampLong n) := by
        simp only [CIntType.convert, hs, if_true, Int.bmod_bmod]
      have h2 := CIntType.convert_le (t := o.type) hnonneg
      rw [o.same hs] at h ⊢
      rw [hidem] at h
      have h4 : clampLong n = n := by omega
      rw [h4] at h
      exact ⟨h4, h, h⟩
  constructor
  · intro h
    obtain ⟨h1, h2, h3⟩ := hstored h
    refine ⟨?_, CIntType.convert_eq_iff.mp h2, CIntType.convert_eq_iff.mp h3⟩
    omega
  · rintro ⟨hlt, ht, hf⟩
    have h1 : clampLong n = n := by omega
    rw [stored, h1, CIntType.convert_eq_iff.mpr ht, CIntType.convert_eq_iff.mpr hf]

theorem parse_eq_some_iff {v : Int} : o.parse optarg = some v ↔
    ∃ z, strtolAuto optarg = (z, []) ∧ v = o.stored z ∧ o.InRange v := by
  unfold parse
  obtain ⟨z, rest⟩ := strtolAuto optarg
  dsimp only
  constructor
  · intro h
    split at h
    next hc =>
      obtain rfl := Option.some.inj h
      exact ⟨z, by rw [hc.1], rfl, hc.2.1, hc.2.2⟩
    next => cases h
  · rintro ⟨z', hz, rfl, hr⟩
    obtain ⟨rfl, rfl⟩ := Prod.mk.inj hz
    exact if_pos ⟨rfl, hr.1, hr.2⟩

/-- A literal of the range that fits is stored. -/
theorem parse_literal (h : IntegerLiteral optarg n) (hf : o.Fits n) (hr : o.InRange n) :
    o.parse optarg = some (n : Int) := by
  have hs := stored_eq_iff.mpr hf
  rw [parse_eq_some_iff]
  exact ⟨clampLong n, strtolAuto_literal h, hs.symm, hr⟩

theorem ofInt_stored {name : String} {check : CheckMacro} (z : Int) :
    (NumericOption.ofInt name check).stored z = longToInt z := Int.bmod_bmod

/-- The parser of the core parameters takes what the macro takes. -/
theorem parse_ofInt_inRange {name : String} {minv maxv z : Int} {k : Nat} (hm : 0 ≤ minv)
    (hz : strtolAuto optarg = (z, [])) :
    (NumericOption.ofInt name (.inRange minv maxv)).parse optarg = some (k : Int) ↔
      checkValueInRange name minv maxv z = .ok k := by
  rw [parse_eq_some_iff]
  simp only [hz, Prod.mk.injEq, and_true, exists_eq_left', ofInt_stored, checkValueInRange]
  constructor
  · rintro ⟨hk, hr, -⟩
    simp only [NumericOption.ofInt, CheckMacro.passes, Bool.and_eq_true, decide_eq_true_eq] at hr
    rw [if_neg (by omega)]
    congr 1
    omega
  · intro h
    split at h
    next => cases h
    next hr =>
      have hk := Except.ok.inj h
      refine ⟨by omega, ?_, rfl⟩
      simp only [NumericOption.ofInt, CheckMacro.passes, Bool.and_eq_true, decide_eq_true_eq]
      omega

theorem stored_zero : o.stored 0 = 0 := by
  have hz : ∀ t : CIntType, t.convert 0 = 0 := by
    intro t
    unfold CIntType.convert
    split <;> simp
  rw [stored, hz, hz]

theorem not_misread_of_means (h : o.Means optarg) : ¬ o.Misread optarg := by
  rintro (⟨rfl, hr⟩ | ⟨blanks, sign, lit, n, hn, rfl, hr, hbad⟩)
  · obtain ⟨n, hl, -⟩ := h 0 (parse_eq_some_iff.mpr ⟨0, strtolAuto_nil, stored_zero.symm, hr⟩)
    obtain ⟨d, ds, he, -⟩ := hl.head
    cases he
  · obtain ⟨m, hl, hv, -⟩ := h _ (parse_eq_some_iff.mpr ⟨_, strtolAuto_numeral hn, rfl, hr⟩)
    obtain ⟨d, ds, he, hspace, hminus, hplus⟩ := hl.head
    have hblanks : blanks = [] := by
      cases blanks with
      | nil => rfl
      | cons b bs =>
        rw [List.cons_append, List.cons_append] at he
        have := hn.blanks b List.mem_cons_self
        rw [(List.cons.inj he).1, hspace] at this
        cases this
    subst hblanks
    rw [List.nil_append] at he hl
    have hsign : sign = [] := by
      rcases hn.sign with rfl | rfl | rfl
      · rfl
      · exact absurd (List.cons.inj he).1.symm hminus
      · exact absurd (List.cons.inj he).1.symm hplus
    subst hsign
    rcases hbad with hb | hb | hb
    · exact hb rfl
    · exact hb rfl
    · obtain rfl := hl.value_unique hn.literal
      exact hb (stored_eq_iff.mp hv)

theorem means_of_not_misread (h : ¬ o.Misread optarg) : o.Means optarg := by
  intro v hv
  obtain ⟨z, hz, rfl, hr⟩ := parse_eq_some_iff.mp hv
  rcases exists_numeral hz with ⟨rfl, rfl⟩ | ⟨blanks, sign, lit, n, hn, rfl, rfl⟩
  · rw [stored_zero] at hr
    exact absurd (.inl ⟨rfl, hr⟩) h
  · have hgood : blanks = [] ∧ sign = [] ∧ o.Fits n := by
      by_contra hbad
      refine h (.inr ⟨blanks, sign, lit, n, hn, rfl, hr, ?_⟩)
      by_contra hc
      simp only [not_or, not_not] at hc
      exact hbad hc
    obtain ⟨rfl, rfl, hf⟩ := hgood
    exact ⟨n, hn.literal, stored_eq_iff.mpr hf, hr⟩

end NumericOption

section Size

variable {optarg : Text}

theorem parseSize_eq_some_iff {v : Nat} : parseSize optarg = some v ↔
    v = sizeProduct (strtolAuto (sizeSuffix optarg).1).1 (sizeSuffix optarg).2 ∧
      1 ≤ v ∧ v ≤ UINT_MAX / 2 := by
  unfold parseSize
  dsimp only
  generalize sizeProduct (strtolAuto (sizeSuffix optarg).1).1 (sizeSuffix optarg).2 = size
  constructor
  · intro h
    split at h
    next => cases h
    next hr =>
      obtain rfl := Option.some.inj h
      exact ⟨rfl, by omega, by omega⟩
  · rintro ⟨rfl, h1, h2⟩
    exact if_neg (by omega)

theorem sizeSuffix_factor_pos : 0 < (sizeSuffix optarg).2 := by
  unfold sizeSuffix
  split <;> exact Nat.succ_pos _

/-- The product of a literal that is small enough is exact. -/
theorem sizeProduct_literal {body : Text} {n factor : Nat} (hl : IntegerLiteral body n)
    (hf : 0 < factor) (hn : n * factor ≤ UINT_MAX / 2) :
    sizeProduct (strtolAuto body).1 factor = n * factor := by
  have hle : n ≤ n * factor := Nat.le_mul_of_pos_right n hf
  simp only [UINT_MAX] at hn
  have hv : (strtolAuto body).1 = n := by
    rw [strtolAuto_literal hl, NumericOption.clampLong_natCast]
    omega
  have hu : longToUns 64 (n : Int) = n := by
    unfold longToUns
    omega
  rw [sizeProduct, hv, hu]
  exact Nat.mod_eq_of_lt (by omega)

theorem not_sizeMisread_of_means (h : MeansSize optarg) : ¬ SizeMisread optarg := by
  intro hm
  obtain ⟨⟨h1, h2⟩, hbad⟩ := hm
  obtain ⟨n, hl, hv, -, hle⟩ := h _ (parseSize_eq_some_iff.mpr ⟨rfl, h1, h2⟩)
  have := hbad n hl
  omega

theorem meansSize_of_not_misread (h : ¬ SizeMisread optarg) : MeansSize optarg := by
  intro v hv
  obtain ⟨rfl, h1, h2⟩ := parseSize_eq_some_iff.mp hv
  have hex : ∃ n, IntegerLiteral (sizeSuffix optarg).1 n ∧
      n * (sizeSuffix optarg).2 ≤ UINT_MAX / 2 := by
    by_contra hno
    refine h ⟨⟨h1, h2⟩, fun n hl => ?_⟩
    by_contra hle
    exact hno ⟨n, hl, not_lt.mp hle⟩
  obtain ⟨n, hl, hn⟩ := hex
  exact ⟨n, hl, sizeProduct_literal hl sizeSuffix_factor_pos hn, h1, h2⟩

end Size

/-- The arguments of numeric options mean what was typed exactly where they are not misread. -/
theorem numeric_options_iff (optarg : Text) :
    (∀ o : NumericOption, o.Means optarg ↔ ¬ o.Misread optarg) ∧
      (MeansSize optarg ↔ ¬ SizeMisread optarg) :=
  ⟨fun _ => ⟨NumericOption.not_misread_of_means, NumericOption.means_of_not_misread⟩,
    ⟨not_sizeMisread_of_means, meansSize_of_not_misread⟩⟩

/-- An empty argument of `-l` is stored as zero. -/
theorem postList_empty : ¬ ∀ o ∈ numericOptions, ∀ optarg : Text, o.Means optarg := by
  intro h
  have hmem : NumericOption.ofInt "-l" .value ∈ numericOptions := by
    simp [numericOptions]
  exact NumericOption.not_misread_of_means (h _ hmem []) (.inl ⟨rfl, rfl, rfl⟩)

end Perftest
