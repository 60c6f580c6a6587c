import Mathlib.Tactic

namespace NetBytes

/-- The byte order of the host. -/
inductive ByteOrder where
  | little | big
deriving DecidableEq, Repr

/-- `htons`; its result is the host's reading of the bytes in network order. -/
def htons : ByteOrder → Nat → Nat
  | .little, v => v % 256 * 256 + v / 256 % 256
  | .big, v => v % 2 ^ 16

/-- The bytes of a 16-bit variable in memory. -/
def store16 : ByteOrder → Nat → List UInt8
  | .little, v => [UInt8.ofNat v, UInt8.ofNat (v / 256)]
  | .big, v => [UInt8.ofNat (v / 256), UInt8.ofNat v]

/-- The bytes of a 16-bit value in network order. -/
def net16 (v : Nat) : List UInt8 := [UInt8.ofNat (v / 256), UInt8.ofNat v]

/-- The 16-bit value in network order at offset `k`. -/
def be16 (f : Nat → UInt8) (k : Nat) : Nat := (f k).toNat * 256 + (f (k + 1)).toNat

/-- The bytes of a list by their offsets. -/
def byteAt (l : List UInt8) (k : Nat) : UInt8 := l.getD k 0

variable {o : ByteOrder} {a b : List UInt8} {k v : Nat}

/-- The two bytes of a swapped value. -/
theorem swap_bytes (v : Nat) : (v % 256 * 256 + v / 256 % 256) / 256 = v % 256 ∧
    (v % 256 * 256 + v / 256 % 256) % 256 = v / 256 % 256 := by
  have hx := Nat.mod_lt v (show 0 < 256 by decide)
  have hy := Nat.mod_lt (v / 256) (show 0 < 256 by decide)
  generalize v % 256 = x at *
  generalize v / 256 % 256 = y at *
  omega

theorem store16_htons (o : ByteOrder) (v : Nat) : store16 o (htons o v) = net16 v := by
  cases o with
  | little =>
    have h1 : UInt8.ofNat (v % 256 * 256 + v / 256 % 256) = UInt8.ofNat (v / 256) := by
      rw [← UInt8.toNat_inj, UInt8.toNat_ofNat', UInt8.toNat_ofNat']
      exact (swap_bytes v).2
    have h2 : UInt8.ofNat ((v % 256 * 256 + v / 256 % 256) / 256) = UInt8.ofNat v := by
      rw [← UInt8.toNat_inj, UInt8.toNat_ofNat', UInt8.toNat_ofNat', (swap_bytes v).1]
      exact Nat.mod_mod v 256
    simp only [store16, htons, net16, h1, h2]
  | big =>
    have h1 : UInt8.ofNat (v % 2 ^ 16 / 256) = UInt8.ofNat (v / 256) := by
      rw [← UInt8.toNat_inj]
      simp only [UInt8.toNat_ofNat']
      omega
    have h2 : UInt8.ofNat (v % 2 ^ 16) = UInt8.ofNat v := by
      rw [← UInt8.toNat_inj]
      simp only [UInt8.toNat_ofNat']
      omega
    simp only [store16, htons, net16, h1, h2]

theorem htons_htons (o : ByteOrder) (v : Nat) : htons o (htons o v) = v % 2 ^ 16 := by
  cases o with
  | little =>
    simp only [htons, swap_bytes]
    rw [Nat.mod_mod]
    omega
  | big => exact Nat.mod_mod v _

@[simp] theorem store16_length (o : ByteOrder) (v : Nat) : (store16 o v).length = 2 := by
  cases o <;> rfl

theorem byteAt_append_left (h : k < a.length) : byteAt (a ++ b) k = byteAt a k := by
  simp only [byteAt, List.getD_eq_getElem?_getD, List.getElem?_append_left h]

theorem byteAt_append_right (h : a.length ≤ k) : byteAt (a ++ b) k = byteAt b (k - a.length) := by
  simp only [byteAt, List.getD_eq_getElem?_getD, List.getElem?_append_right h]

theorem be16_append_left (h : k + 1 < a.length) :
    be16 (byteAt (a ++ b)) k = be16 (byteAt a) k := by
  rw [be16, be16, byteAt_append_left (by omega), byteAt_append_left h]

theorem be16_append_right (h : a.length ≤ k) :
    be16 (byteAt (a ++ b)) k = be16 (byteAt b) (k - a.length) := by
  rw [be16, be16, byteAt_append_right h, byteAt_append_right (by omega),
    Nat.sub_add_comm h]

theorem be16_net16 (v : Nat) (r : List UInt8) : be16 (byteAt (net16 v ++ r)) 0 = v % 2 ^ 16 := by
  simp only [be16, byteAt, net16, List.cons_append, List.getD_cons_zero, List.getD_cons_succ,
    UInt8.toNat_ofNat']
  omega

/-- What the network reads of a 16-bit variable. -/
theorem be16_store16 (o : ByteOrder) (v : Nat) (r : List UInt8) :
    be16 (byteAt (store16 o v ++ r)) 0 = htons o v := by
  cases o <;>
    simp only [be16, byteAt, store16, htons, List.cons_append, List.getD_cons_zero,
      List.getD_cons_succ, UInt8.toNat_ofNat']
  omega

theorem be16_congr {f g : Nat → UInt8} (h0 : f k = g k) (h1 : f (k + 1) = g (k + 1)) :
    be16 f k = be16 g k := by
  rw [be16, be16, h0, h1]

end NetBytes
