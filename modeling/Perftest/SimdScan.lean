import Perftest.HostValidator
import Perftest.Lib.VectorScan

namespace Perftest

open CMachine VectorScan

/-- The instruction set that `VALIDATE_CHUNK_FN` is compiled for. -/
inductive SimdIsa where
  | avx512 | avx2 | sse42 | neon
deriving DecidableEq, Repr

/-- A byte string in memory: the bytes from its address on, those behind its end included. The size
of an object is at most `PTRDIFF_MAX`. -/
structure ByteString where
  data : Nat → UInt8
  size : Nat
  size_lt : size < 2 ^ 63

/-- What a scanner returns, and what it stores in `*actual_byte`. -/
structure ScanResult where
  offset : Int
  actualByte : Option UInt8
deriving DecidableEq, Repr

/-- `(int64_t)i`. -/
def asInt64 (i : Nat) : Int := if i < 2 ^ 63 then i else i - 2 ^ 64

/-- The `movemask` of a comparison with the pattern of the `w` bytes from `i` on, in a word of `W`
bits. -/
def cmpMask (data : Nat → UInt8) (pattern : UInt8) (w W i : Nat) : BitVec W :=
  (laneMask (fun l => data (i + l) == pattern) w).setWidth W

section Blocks

variable {W : Nat} (data : Nat → UInt8) (pattern : UInt8) (w : Nat) (full : BitVec W)
  (complement : BitVec W → BitVec W)

/-- One vector of `w` bytes, compared under a mask. -/
def maskBlock (i : Nat) : Option Nat :=
  let mask := cmpMask data pattern w W i
  if mask ≠ full then some (i + (complement mask).ctz.toNat) else none

/-- Four vectors of `w` bytes, compared under masks. -/
def maskBlock4 (i : Nat) : Option Nat :=
  let m0 := cmpMask data pattern w W i
  let m1 := cmpMask data pattern w W (i + w)
  let m2 := cmpMask data pattern w W (i + 2 * w)
  let m3 := cmpMask data pattern w W (i + 3 * w)
  if m0 &&& m1 &&& m2 &&& m3 ≠ full then
    if m0 ≠ full then some (i + (complement m0).ctz.toNat)
    else if m1 ≠ full then some (i + w + (complement m1).ctz.toNat)
    else if m2 ≠ full then some (i + 2 * w + (complement m2).ctz.toNat)
    else some (i + 3 * w + (complement m3).ctz.toNat)
  else none

def vceqqU8 (i l : Nat) : UInt8 := if data (i + l) = pattern then 0xFF else 0

def vandqU8 (a b : Nat → UInt8) (l : Nat) : UInt8 := a l &&& b l

/-- Lane `k` of the vector of bytes `c`, read as two words of 64 bits. -/
def vgetqLaneU64 (c : Nat → UInt8) (k : Nat) : Nat :=
  ((List.range 8).map fun j => (c (8 * k + j)).toNat * 256 ^ j).sum

/-- The byte loop that looks for the mismatch of a block. -/
def byteLoop (i n : Nat) : Option Nat := firstFrom (fun j => data j != pattern) i n

def neonBlock (i : Nat) : Option Nat :=
  let cmp := vceqqU8 data pattern i
  if vgetqLaneU64 cmp 0 ≠ 0xFFFFFFFFFFFFFFFF ∨ vgetqLaneU64 cmp 1 ≠ 0xFFFFFFFFFFFFFFFF then
    byteLoop data pattern i 16
  else none

def neonBlock4 (i : Nat) : Option Nat :=
  let all := vandqU8 (vandqU8 (vceqqU8 data pattern i) (vceqqU8 data pattern (i + 16)))
    (vandqU8 (vceqqU8 data pattern (i + 32)) (vceqqU8 data pattern (i + 48)))
  if vgetqLaneU64 all 0 ≠ 0xFFFFFFFFFFFFFFFF ∨ vgetqLaneU64 all 1 ≠ 0xFFFFFFFFFFFFFFFF then
    byteLoop data pattern i 64
  else none

end Blocks

/-- The three loops of a scanner: four vectors of `w` bytes at a time, one vector, one byte. -/
def scanLoops (w : Nat) (block4 block : Nat → Option Nat) (data : Nat → UInt8) (pattern : UInt8)
    (size fuel : Nat) : Option (Option Nat) :=
  match blockLoop (fun i => (i + 4 * w) % 2 ^ 64 ≤ size) (4 * w) block4 fuel 0 with
  | none => none
  | some (some x, _) => some (some x)
  | some (none, i) =>
    match blockLoop (fun i => (i + w) % 2 ^ 64 ≤ size) w block fuel i with
    | none => none
    | some (some x, _) => some (some x)
    | some (none, i) =>
      (blockLoop (fun i => i < size) 1
        (fun i => if data i ≠ pattern then some i else none) fuel i).map (·.1)

/-- The return at the position of a mismatch, and the one at the end. -/
def scanReturn (data : Nat → UInt8) (wantsByte : Bool) : Option Nat → ScanResult
  | none => ⟨-1, none⟩
  | some x => ⟨asInt64 x, if wantsByte then some (data x) else none⟩

section Scanners

variable (data : Nat → UInt8) (pattern : UInt8) (size : Nat) (wantsByte : Bool) (fuel : Nat)

def validateAvx512 : Option ScanResult :=
  (scanLoops 64 (maskBlock4 data pattern 64 (0xFFFFFFFFFFFFFFFF : BitVec 64) (~~~ ·))
    (maskBlock data pattern 64 (0xFFFFFFFFFFFFFFFF : BitVec 64) (~~~ ·)) data pattern size
    fuel).map (scanReturn data wantsByte)

def validateAvx2 : Option ScanResult :=
  (scanLoops 32 (maskBlock4 data pattern 32 (0xFFFFFFFF : BitVec 32) (~~~ ·))
    (maskBlock data pattern 32 (0xFFFFFFFF : BitVec 32) (~~~ ·)) data pattern size
    fuel).map (scanReturn data wantsByte)

def validateSse42 : Option ScanResult :=
  (scanLoops 16 (maskBlock4 data pattern 16 (0xFFFF : BitVec 32) (~~~ · &&& 0xFFFF))
    (maskBlock data pattern 16 (0xFFFF : BitVec 32) (~~~ · &&& 0xFFFF)) data pattern size
    fuel).map (scanReturn data wantsByte)

def validateNeon : Option ScanResult :=
  (scanLoops 16 (neonBlock4 data pattern) (neonBlock data pattern) data pattern size
    fuel).map (scanReturn data wantsByte)

/-- The scanner that `VALIDATE_CHUNK_FN` stands for; `none` if the loops run out of fuel. -/
def validateChunkFn : SimdIsa → Option ScanResult
  | .avx512 => validateAvx512 data pattern size wantsByte fuel
  | .avx2 => validateAvx2 data pattern size wantsByte fuel
  | .sse42 => validateSse42 data pattern size wantsByte fuel
  | .neon => validateNeon data pattern size wantsByte fuel

end Scanners

section Masks

variable {data : Nat → UInt8} {pattern : UInt8} {w W i : Nat} {full : BitVec W}
  {complement : BitVec W → BitVec W}

/-- The comparison words of a scanner: a word has one bit for each of `w` lanes, and the complement
the bits of the lanes that differ. -/
structure MaskWords (w W : Nat) (full : BitVec W) (complement : BitVec W → BitVec W) : Prop where
  le : w ≤ W
  full_eq : full = (BitVec.allOnes w).setWidth W
  complement_eq : ∀ m : BitVec W, complement m = ~~~ m &&& full

theorem cmpMask_getLsbD (hw : w ≤ W) (l : Nat) : (cmpMask data pattern w W i).getLsbD l =
    (decide (l < w) && (data (i + l) == pattern)) := by
  rw [cmpMask, BitVec.getLsbD_setWidth, getLsbD_laneMask]
  by_cases hl : l < w
  · rw [decide_eq_true (by omega : l < W), Bool.true_and]
  · rw [decide_eq_false hl, Bool.false_and, Bool.and_false]

theorem setWidth_inj {a b : BitVec w} (hw : w ≤ W) (h : a.setWidth W = b.setWidth W) : a = b := by
  apply BitVec.eq_of_getLsbD_eq
  intro j hj
  have hb := congrArg (fun x : BitVec W => x.getLsbD j) h
  simpa only [BitVec.getLsbD_setWidth, decide_eq_true (by omega : j < W), Bool.true_and] using hb

theorem MaskWords.cmpMask_eq_full_iff (h : MaskWords w W full complement) :
    cmpMask data pattern w W i = full ↔ ∀ l, l < w → (data (i + l) == pattern) = true := by
  rw [h.full_eq, cmpMask]
  constructor
  · intro he
    exact laneMask_eq_allOnes_iff.mp (setWidth_inj h.le he)
  · intro ha
    rw [laneMask_eq_allOnes_iff.mpr ha]

theorem MaskWords.complement_getLsbD (h : MaskWords w W full complement) (l : Nat) :
    (complement (cmpMask data pattern w W i)).getLsbD l =
      (decide (l < w) && !(data (i + l) == pattern)) := by
  have hw := h.le
  rw [h.complement_eq, BitVec.getLsbD_and, BitVec.getLsbD_not, cmpMask_getLsbD hw, h.full_eq,
    BitVec.getLsbD_setWidth, BitVec.getLsbD_allOnes]
  by_cases hl : l < w
  · simp only [decide_eq_true hl, decide_eq_true (by omega : l < W), Bool.true_and, Bool.and_true]
  · simp only [decide_eq_false hl, Bool.and_false, Bool.false_and]

theorem byteLoop_eq (data : Nat → UInt8) (pattern : UInt8) (i n : Nat) :
    byteLoop data pattern i n =
      (firstFrom (fun l => !(data (i + l) == pattern)) 0 n).map (i + ·) :=
  firstFrom_shift _ i 0 n

theorem byteLoop_eq_none_iff {n : Nat} :
    byteLoop data pattern i n = none ↔ ∀ l, l < n → data (i + l) = pattern := by
  rw [byteLoop, firstFrom_eq_none_iff]
  constructor
  · intro h l hl
    have hp := h (i + l) (by omega) (by omega)
    simpa using hp
  · intro h j hl hu
    have hp := h (j - i) (by omega)
    rw [show i + (j - i) = j by omega] at hp
    simpa using hp

/-- A vector with a full mask has no mismatch; any other mask leads to the first one. -/
theorem MaskWords.byteLoop_eq (h : MaskWords w W full complement) : byteLoop data pattern i w =
    if cmpMask data pattern w W i ≠ full then
      some (i + (complement (cmpMask data pattern w W i)).ctz.toNat) else none := by
  split
  next hm =>
    rw [Perftest.byteLoop_eq,
      firstFrom_eq_ctz h.complement_getLsbD fun ha => hm (h.cmpMask_eq_full_iff.mpr ha),
      Option.map_some]
  next hm =>
    apply byteLoop_eq_none_iff.mpr
    intro l hl
    exact beq_iff_eq.mp (h.cmpMask_eq_full_iff.mp (not_not.mp hm) l hl)

theorem MaskWords.maskBlock_eq (h : MaskWords w W full complement) :
    maskBlock data pattern w full complement i = byteLoop data pattern i w := h.byteLoop_eq.symm

theorem and_eq_full_iff {x y : BitVec W} (hx : x &&& full = x) (hy : y &&& full = y) :
    x &&& y = full ↔ x = full ∧ y = full := by
  constructor
  · intro h
    constructor
    · rw [← hx, ← h, ← BitVec.and_assoc, BitVec.and_self]
    · rw [← hy, ← h, BitVec.and_comm x y, ← BitVec.and_assoc, BitVec.and_self]
  · intro h
    rw [h.1, h.2, BitVec.and_self]

theorem MaskWords.cmpMask_and_full (h : MaskWords w W full complement) :
    cmpMask data pattern w W i &&& full = cmpMask data pattern w W i := by
  rw [h.full_eq, cmpMask, ← BitVec.setWidth_and, BitVec.and_allOnes]

theorem MaskWords.maskBlock4_eq (h : MaskWords w W full complement) :
    maskBlock4 data pattern w full complement i = byteLoop data pattern i (4 * w) := by
  have hsplit : byteLoop data pattern i (4 * w) = _ := firstFrom_four _ i w
  have hand : ∀ {x y : BitVec W}, x &&& full = x → y &&& full = y → x &&& y &&& full = x &&& y :=
    fun hx hy => by rw [BitVec.and_assoc, hy]
  have hc : ∀ i, cmpMask data pattern w W i &&& full = cmpMask data pattern w W i :=
    fun i => h.cmpMask_and_full
  have hall : cmpMask data pattern w W i &&& cmpMask data pattern w W (i + w) &&&
      cmpMask data pattern w W (i + 2 * w) &&& cmpMask data pattern w W (i + 3 * w) = full ↔
      ((cmpMask data pattern w W i = full ∧ cmpMask data pattern w W (i + w) = full) ∧
        cmpMask data pattern w W (i + 2 * w) = full) ∧
        cmpMask data pattern w W (i + 3 * w) = full := by
    rw [and_eq_full_iff (hand (hand (hc _) (hc _)) (hc _)) (hc _),
      and_eq_full_iff (hand (hc _) (hc _)) (hc _), and_eq_full_iff (hc _) (hc _)]
  have hb : ∀ i, byteLoop data pattern i w = if cmpMask data pattern w W i ≠ full then
      some (i + (complement (cmpMask data pattern w W i)).ctz.toNat) else none :=
    fun i => h.byteLoop_eq
  simp only [byteLoop] at hb hsplit ⊢
  rw [hsplit, hb, hb, hb, hb]
  simp only [maskBlock4, ne_eq, hall]
  split_ifs <;> simp_all

/-- A lane of the comparison of a block with the pattern. -/
def laneByte (b : Bool) : UInt8 := if b then 0xFF else 0

theorem laneByte_and (a b : Bool) : laneByte a &&& laneByte b = laneByte (a && b) := by
  cases a <;> cases b <;> decide

theorem vgetqLaneU64_eq_full_iff {c : Nat → UInt8} {k : Nat} :
    vgetqLaneU64 c k = 0xFFFFFFFFFFFFFFFF ↔ ∀ j, j < 8 → c (8 * k + j) = 0xFF := by
  have hd := (sum_digits_max_iff (n := 8) (fun j => (c (8 * k + j)).toNat_lt)).2
  have heq : ∀ j, c (8 * k + j) = 0xFF ↔ (c (8 * k + j)).toNat + 1 = 2 ^ 8 := by
    intro j
    rw [← UInt8.toNat_inj, show (0xFF : UInt8).toNat = 255 from rfl]
    omega
  have hs : vgetqLaneU64 c k = 0xFFFFFFFFFFFFFFFF ↔ vgetqLaneU64 c k + 1 = (2 ^ 8) ^ 8 := by
    omega
  rw [hs]
  simp only [heq]
  exact hd

/-- Both words of a vector of lanes are full exactly if all lanes are. -/
theorem bothLanes_eq_full_iff {c : Nat → UInt8} {p : Nat → Bool} (hc : ∀ l, c l = laneByte (p l)) :
    ¬ (vgetqLaneU64 c 0 ≠ 0xFFFFFFFFFFFFFFFF ∨ vgetqLaneU64 c 1 ≠ 0xFFFFFFFFFFFFFFFF) ↔
      ∀ l, l < 16 → p l = true := by
  have hp : ∀ l, c l = 0xFF ↔ p l = true := by
    intro l
    rw [hc]
    cases p l <;> decide
  rw [not_or, not_not, not_not, vgetqLaneU64_eq_full_iff, vgetqLaneU64_eq_full_iff]
  constructor
  · intro h l hl
    rcases Nat.lt_or_ge l 8 with h8 | h8
    · have hb := h.1 l h8
      rw [show 8 * 0 + l = l by omega] at hb
      exact (hp l).mp hb
    · have hb := h.2 (l - 8) (by omega)
      rw [show 8 * 1 + (l - 8) = l by omega] at hb
      exact (hp l).mp hb
  · intro h
    exact ⟨fun j hj => (hp _).mpr (h _ (by omega)), fun j hj => (hp _).mpr (h _ (by omega))⟩

theorem vceqqU8_eq (data : Nat → UInt8) (pattern : UInt8) (i l : Nat) :
    vceqqU8 data pattern i l = laneByte (data (i + l) == pattern) := by
  unfold vceqqU8 laneByte
  simp only [beq_iff_eq]

/-- A block in which some byte differs is searched for the first one. -/
theorem ite_byteLoop_eq {n : Nat} {test : Prop} [Decidable test]
    (h : ¬ test → ∀ l, l < n → data (i + l) = pattern) :
    (if test then byteLoop data pattern i n else none) = byteLoop data pattern i n := by
  split
  next => rfl
  next ht => exact (byteLoop_eq_none_iff.mpr (h ht)).symm

theorem neonBlock_eq : neonBlock data pattern i = byteLoop data pattern i 16 := by
  apply ite_byteLoop_eq
  intro ht l hl
  exact beq_iff_eq.mp ((bothLanes_eq_full_iff (vceqqU8_eq data pattern i)).mp ht l hl)

theorem neonBlock4_eq : neonBlock4 data pattern i = byteLoop data pattern i 64 := by
  apply ite_byteLoop_eq
  intro ht l hl
  have hall := (bothLanes_eq_full_iff (p := fun l =>
    ((data (i + l) == pattern) && (data (i + 16 + l) == pattern)) &&
      ((data (i + 32 + l) == pattern) && (data (i + 48 + l) == pattern))) (fun l => by
        simp only [vandqU8, vceqqU8_eq, laneByte_and])).mp ht (l % 16) (Nat.mod_lt _ (by omega))
  simp only [Bool.and_eq_true, beq_iff_eq] at hall
  have hq : l / 16 < 4 := by omega
  have hl' : l = 16 * (l / 16) + l % 16 := by omega
  interval_cases hk : l / 16
  · rw [show i + l = i + l % 16 by omega]
    exact hall.1.1
  · rw [show i + l = i + 16 + l % 16 by omega]
    exact hall.1.2
  · rw [show i + l = i + 32 + l % 16 by omega]
    exact hall.2.1
  · rw [show i + l = i + 48 + l % 16 by omega]
    exact hall.2.2

end Masks

section Loops

variable {data : Nat → UInt8} {pattern : UInt8} {w size fuel : Nat} {block4 block : Nat → Option Nat}

/-- The loops of a scanner together find the first mismatch. -/
theorem scanLoops_eq (hw : 0 < w) (hs : size + 4 * w < 2 ^ 64) (hf : size < fuel)
    (h4 : ∀ i, block4 i = byteLoop data pattern i (4 * w))
    (h1 : ∀ i, block i = byteLoop data pattern i w) :
    scanLoops w block4 block data pattern size fuel = some (byteLoop data pattern 0 size) := by
  have hmore : ∀ n, 0 < n → n ≤ 4 * w → ∀ i, i ≤ size →
      (decide ((i + n) % 2 ^ 64 ≤ size) = true ↔ i + n ≤ size) := by
    intro n _ hn i hi
    rw [decide_eq_true_eq, Nat.mod_eq_of_lt (by omega)]
  obtain ⟨r, k, h0, hx, hn⟩ := blockLoop_spec (by omega) (by omega)
    (hmore (4 * w) (by omega) le_rfl) (fun i _ => h4 i) fuel (Nat.zero_le size) (by omega)
  rw [Nat.sub_zero] at hx hn
  cases r with
  | some x =>
    simp only [scanLoops, h0, byteLoop, hx x rfl]
  | none =>
    obtain ⟨-, hk, -, hrest⟩ := hn rfl
    obtain ⟨r, j, hr, hx, hn⟩ := blockLoop_spec hw (by omega) (hmore w hw (by omega))
      (fun i _ => h1 i) fuel hk (by omega)
    cases r with
    | some x =>
      simp only [scanLoops, h0, hr, byteLoop, hrest, hx x rfl]
    | none =>
      obtain ⟨-, hj, -, hrest'⟩ := hn rfl
      have hbyte : ∀ i, i + 1 ≤ size → (if data i ≠ pattern then some i else none) =
          firstFrom (fun j => data j != pattern) i 1 := by
        intro i _
        simp [firstFrom]
      have hlt : ∀ i, i ≤ size → (decide (i < size) = true ↔ i + 1 ≤ size) :=
        fun i _ => decide_eq_true_iff
      obtain ⟨r, l, h1, hx, hn⟩ := blockLoop_spec Nat.one_pos (by omega) hlt hbyte fuel hj
        (by omega)
      simp only [scanLoops, h0, hr, h1, Option.map_some, byteLoop, hrest, hrest']
      cases r with
      | some x => rw [hx x rfl]
      | none =>
        obtain ⟨-, -, hl, hrest⟩ := hn rfl
        rw [hrest, show size - l = 0 by omega]
        rfl

/-- The byte loop reads the bytes of the string only. -/
theorem byteLoop_congr {d : Nat → UInt8} (h : ∀ i, i < size → d i = data i) :
    byteLoop d pattern 0 size = byteLoop data pattern 0 size := by
  apply firstFrom_congr
  intro j _ hj
  rw [h j (by omega)]

/-- The scan of the validator model, over memory that does not change, is the byte loop. -/
theorem validateChunk_steady (off n t : Nat) : (validateChunk (fun _ => data) pattern off n t).1 =
    (byteLoop data pattern off n).map fun x => (x - off, data x) := by
  induction n generalizing off t with
  | zero => rfl
  | succ n ih =>
    have hi := ih (off + 1) (t + 1)
    simp only [byteLoop, firstFrom, bne_iff_ne, ne_eq] at hi ⊢
    rw [validateChunk]
    split
    next h => simp
    next h =>
      rw [not_not] at h
      cases hv : validateChunk (fun _ => data) pattern (off + 1) n (t + 1) with
      | mk r t' =>
        rw [hv] at hi
        cases hf : firstFrom (fun j => data j != pattern) (off + 1) n with
        | none =>
          rw [hf] at hi
          obtain rfl : r = none := hi
          rfl
        | some x =>
          rw [hf] at hi
          obtain rfl : r = some (x - (off + 1), data x) := hi
          have hx := (firstFrom_eq_some_iff.mp hf).1
          simp only [Option.map_some, Option.some.injEq, Prod.mk.injEq, and_true]
          omega

end Loops

theorem maskWords_avx512 : MaskWords 64 64 (0xFFFFFFFFFFFFFFFF : BitVec 64) (~~~ ·) where
  le := le_rfl
  full_eq := by decide
  complement_eq m := (BitVec.and_allOnes).symm

theorem maskWords_avx2 : MaskWords 32 32 (0xFFFFFFFF : BitVec 32) (~~~ ·) where
  le := le_rfl
  full_eq := by decide
  complement_eq m := (BitVec.and_allOnes).symm

theorem maskWords_sse42 : MaskWords 16 32 (0xFFFF : BitVec 32) (~~~ · &&& 0xFFFF) where
  le := by omega
  full_eq := by decide
  complement_eq m := rfl

/-- Every scanner returns what the byte loop finds. -/
theorem validateChunkFn_eq (isa : SimdIsa) (data : Nat → UInt8) (pattern : UInt8) {size fuel : Nat}
    (wantsByte : Bool) (hs : size < 2 ^ 63) (hf : size < fuel) :
    validateChunkFn data pattern size wantsByte fuel isa =
      some (scanReturn data wantsByte (byteLoop data pattern 0 size)) := by
  cases isa with
  | avx512 =>
    rw [validateChunkFn, validateAvx512, scanLoops_eq (by omega) (by omega) hf
      (fun i => maskWords_avx512.maskBlock4_eq) (fun i => maskWords_avx512.maskBlock_eq)]
    rfl
  | avx2 =>
    rw [validateChunkFn, validateAvx2, scanLoops_eq (by omega) (by omega) hf
      (fun i => maskWords_avx2.maskBlock4_eq) (fun i => maskWords_avx2.maskBlock_eq)]
    rfl
  | sse42 =>
    rw [validateChunkFn, validateSse42, scanLoops_eq (by omega) (by omega) hf
      (fun i => maskWords_sse42.maskBlock4_eq) (fun i => maskWords_sse42.maskBlock_eq)]
    rfl
  | neon =>
    rw [validateChunkFn, validateNeon, scanLoops_eq (by omega) (by omega) hf
      (fun i => neonBlock4_eq) (fun i => neonBlock_eq)]
    rfl

/-- Every scanner returns -1 exactly if all bytes of the string equal the pattern, and otherwise the
offset of the first byte that differs, with this byte; what lies behind the end has no influence. -/
theorem validateChunkFn_plain_scan (isa : SimdIsa) (b : ByteString) (pattern : UInt8)
    (wantsByte : Bool) : ∃ r : ScanResult,
      (∀ d fuel, (∀ i, i < b.size → d i = b.data i) → b.size < fuel →
        validateChunkFn d pattern b.size wantsByte fuel isa = some r) ∧
      (r.offset = -1 ↔ ∀ i, i < b.size → b.data i = pattern) ∧
      (r.offset = -1 → r.actualByte = none) ∧
      (r.offset ≠ -1 → ∃ i : Nat, r.offset = i ∧ i < b.size ∧ b.data i ≠ pattern ∧
        (∀ j, j < i → b.data j = pattern) ∧
        r.actualByte = if wantsByte then some (b.data i) else none) := by
  have hs := b.size_lt
  refine ⟨scanReturn b.data wantsByte (byteLoop b.data pattern 0 b.size), ?_, ?_⟩
  · intro d fuel hd hf
    rw [validateChunkFn_eq isa d pattern wantsByte hs hf, byteLoop_congr hd]
    cases hb : byteLoop b.data pattern 0 b.size with
    | none => rfl
    | some x =>
      have hx := (firstFrom_eq_some_iff.mp hb).2.1
      simp only [scanReturn, hd x (by omega)]
  · cases hb : byteLoop b.data pattern 0 b.size with
    | none =>
      have hall := byteLoop_eq_none_iff.mp hb
      simp only [Nat.zero_add] at hall
      exact ⟨⟨fun _ => hall, fun _ => rfl⟩, fun _ => rfl, fun h => absurd rfl h⟩
    | some x =>
      obtain ⟨-, hx, hne, hmin⟩ := firstFrom_eq_some_iff.mp hb
      simp only [bne_iff_ne, ne_eq, bne_eq_false_iff_eq] at hne hmin
      have hr : asInt64 x = x := if_pos (by omega)
      have hn : (x : Int) ≠ -1 := by omega
      simp only [scanReturn, hr]
      refine ⟨⟨fun h => absurd h hn, fun h => absurd (h x (by omega)) hne⟩,
        fun h => absurd h hn, fun _ => ⟨x, rfl, by omega, hne, ?_, rfl⟩⟩
      intro j hj
      exact hmin j (Nat.zero_le j) hj

end Perftest
