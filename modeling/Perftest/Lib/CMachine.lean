import Mathlib.Tactic

namespace CMachine

/-- Truncation to `uint32_t`. -/
def u32 (n : Nat) : Nat := n % 2 ^ 32

/-- Subtraction of `uint64_t` values, which wraps below zero. -/
def subU64 (a b : Nat) : Nat := if b ≤ a then a - b else 2 ^ 64 - (b - a)

/-- Subtraction of `uint32_t` values, which wraps below zero. -/
def subU32 (a b : Nat) : Nat := if b ≤ a then a - b else 2 ^ 32 - (b - a)

/-- Conversion of a `uint32_t` to `int`. -/
def asInt (n : Nat) : Int :=
  if n % 2 ^ 32 < 2 ^ 31 then (n % 2 ^ 32 : Nat) else (n % 2 ^ 32 : Nat) - 2 ^ 32

/-- `++i` on an `int`: overflow is undefined. -/
def incInt (i : Int) : Option Int := if i + 1 < 2 ^ 31 then some (i + 1) else none

/-- The result of `int` arithmetic: overflow is undefined. -/
def checkInt (z : Int) : Option Int := if -2 ^ 31 ≤ z ∧ z < 2 ^ 31 then some z else none

/-- Conversion of a `long` to `int`. -/
def longToInt (z : Int) : Int := Int.bmod z (2 ^ 32)

/-- Conversion of a `long` to an unsigned type of `w` bits. -/
def longToUns (w : Nat) (z : Int) : Nat := (z % 2 ^ w).toNat

/-- The low `w` bytes, most significant first, as `hton` leaves them in memory. -/
def beBytes : Nat → Nat → List UInt8
  | 0, _ => []
  | w + 1, n => beBytes w (n / 256) ++ [UInt8.ofNat n]

def beValue (b : List UInt8) : Nat := b.foldl (fun v x => 256 * v + x.toNat) 0

@[simp] theorem u32_of_lt {n : Nat} (h : n < 2 ^ 32) : u32 n = n := Nat.mod_eq_of_lt h

theorem u32_lt (n : Nat) : u32 n < 2 ^ 32 := Nat.mod_lt _ (by norm_num)

/-- The distance of two counters that are less than a period apart. -/
theorem subU32_u32 {a b : Nat} (hb : b ≤ a) (h : a - b < 2 ^ 32) :
    subU32 (u32 a) (u32 b) = a - b := by
  unfold subU32 u32
  split <;> omega

theorem u32_eq_iff {n : Nat} : u32 n = n ↔ n < 2 ^ 32 :=
  ⟨fun h => h ▸ u32_lt n, u32_of_lt⟩

theorem u32_le (n : Nat) : u32 n ≤ n := Nat.mod_le _ _

theorem subU64_of_le {a b : Nat} (h : b ≤ a) : subU64 a b = a - b := if_pos h

theorem asInt_of_lt {n : Nat} (h : n < 2 ^ 31) : asInt n = n := by
  unfold asInt
  split <;> omega

theorem asInt_neg {n : Nat} (hl : 2 ^ 31 ≤ n) (hu : n < 2 ^ 32) : asInt n < 0 := by
  unfold asInt
  split <;> omega

theorem checkInt_of_range {z : Int} (hl : 0 ≤ z) (hu : z < 2 ^ 31) : checkInt z = some z :=
  if_pos ⟨by omega, hu⟩

theorem incInt_of_lt {i : Int} (h : i + 1 < 2 ^ 31) : incInt i = some (i + 1) := if_pos h

theorem longToInt_of_range {z : Int} (hl : -2 ^ 31 ≤ z) (hu : z < 2 ^ 31) : longToInt z = z := by
  unfold longToInt
  exact Int.bmod_eq_of_le (by norm_num; omega) (by norm_num; omega)

theorem longToInt_range (z : Int) : -2 ^ 31 ≤ longToInt z ∧ longToInt z < 2 ^ 31 := by
  have hl := Int.le_bmod (x := z) (m := 2 ^ 32) (by norm_num)
  have hu := Int.bmod_lt (x := z) (m := 2 ^ 32) (by norm_num)
  unfold longToInt
  norm_num at hl hu ⊢
  omega

theorem beBytes_length (w n : Nat) : (beBytes w n).length = w := by
  induction w generalizing n with
  | zero => rfl
  | succ w ih => simp [beBytes, ih]

theorem beValue_beBytes {w n : Nat} (h : n < 256 ^ w) : beValue (beBytes w n) = n := by
  induction w generalizing n with
  | zero =>
    simp only [Nat.pow_zero] at h
    simp only [beBytes, beValue, List.foldl_nil]
    omega
  | succ w ih =>
    have hd : n / 256 < 256 ^ w := by
      apply (Nat.div_lt_iff_lt_mul (by omega)).mpr
      simpa [Nat.pow_succ] using h
    have hi := ih hd
    simp only [beValue] at hi
    simp only [beBytes, beValue, List.foldl_append, List.foldl_cons, List.foldl_nil, hi,
      UInt8.toNat_ofNat']
    omega

end CMachine
