import Mathlib.Tactic

namespace ByteMemory

/-- A byte-addressed memory. -/
abbrev Mem := Nat → UInt8

/-- `memcpy` of `n` bytes from address `sa` of `src` to address `da` of `dst`. -/
def copyRange (dst : Mem) (da : Nat) (src : Mem) (sa n : Nat) : Mem :=
  fun x => if da ≤ x ∧ x < da + n then src (sa + (x - da)) else dst x

/-- `memset` of `n` bytes at address `a`. -/
def fillRange (m : Mem) (a n : Nat) (b : UInt8) : Mem :=
  fun x => if a ≤ x ∧ x < a + n then b else m x

/-- The little-endian value of the `n` bytes at address `a`. -/
def readLE (m : Mem) (a : Nat) : Nat → Nat
  | 0 => 0
  | n + 1 => (m a).toNat + 256 * readLE m (a + 1) n

def readWord (m : Mem) (a : Nat) : Nat := readLE m a 8

def writeWord (m : Mem) (a v : Nat) : Mem :=
  fun x => if a ≤ x ∧ x < a + 8 then UInt8.ofNat (v / 256 ^ (x - a)) else m x

/-- All bytes of a range hold one value. -/
def Holds (m : Mem) (a n : Nat) (b : UInt8) : Prop := ∀ i, i < n → m (a + i) = b

theorem readLE_congr {m m' : Mem} {a n : Nat} (h : ∀ x, a ≤ x → x < a + n → m x = m' x) :
    readLE m a n = readLE m' a n := by
  induction n generalizing a with
  | zero => rfl
  | succ n ih =>
    have ht := ih (a := a + 1) fun x hl hu => h x (by omega) (by omega)
    simp only [readLE, ht, h a (by omega) (by omega)]

theorem readWord_congr {m m' : Mem} {a : Nat} (h : ∀ x, a ≤ x → x < a + 8 → m x = m' x) :
    readWord m a = readWord m' a := readLE_congr h

theorem readLE_eq {m : Mem} {a n v : Nat}
    (h : ∀ i, i < n → (m (a + i)).toNat = v / 256 ^ i % 256) : readLE m a n = v % 256 ^ n := by
  induction n generalizing a v with
  | zero => simp [readLE, Nat.mod_one]
  | succ n ih =>
    have h0 : (m a).toNat = v % 256 := by simpa using h 0 (by omega)
    have ht : readLE m (a + 1) n = v / 256 % 256 ^ n := by
      refine ih fun i hi => ?_
      rw [Nat.add_assoc, Nat.add_comm 1 i, h (i + 1) (by omega), Nat.pow_succ',
        Nat.div_div_eq_div_mul]
    rw [readLE, h0, ht, Nat.pow_succ', Nat.mod_mul]

theorem writeWord_byte (m : Mem) (a v : Nat) {i : Nat} (h : i < 8) :
    (writeWord m a v (a + i)).toNat = v / 256 ^ i % 256 := by
  have hc : a ≤ a + i ∧ a + i < a + 8 := by omega
  simp only [writeWord, hc, and_self, if_true, Nat.add_sub_cancel_left]
  exact UInt8.toNat_ofNat'

theorem readWord_writeWord_same (m : Mem) (a v : Nat) :
    readWord (writeWord m a v) a = v % 2 ^ 64 := by
  have hr := readLE_eq (m := writeWord m a v) (n := 8) fun i hi => writeWord_byte m a v hi
  rw [readWord, hr]
  norm_num

theorem writeWord_outside (m : Mem) {a v x : Nat} (h : x < a ∨ a + 8 ≤ x) :
    writeWord m a v x = m x := by
  unfold writeWord
  exact if_neg (by omega)

theorem readWord_writeWord_other (m : Mem) {a b v : Nat} (h : b + 8 ≤ a ∨ a + 8 ≤ b) :
    readWord (writeWord m a v) b = readWord m b :=
  readWord_congr fun _ hl hu => writeWord_outside m (by omega)

theorem copyRange_outside (dst src : Mem) {da sa n x : Nat} (h : x < da ∨ da + n ≤ x) :
    copyRange dst da src sa n x = dst x := by
  unfold copyRange
  exact if_neg (by omega)

theorem readWord_copyRange_other (dst src : Mem) {da sa n b : Nat} (h : b + 8 ≤ da ∨ da + n ≤ b) :
    readWord (copyRange dst da src sa n) b = readWord dst b :=
  readWord_congr fun _ hl hu => copyRange_outside dst src (by omega)

theorem Holds.copyRange {src : Mem} {sa n : Nat} {b : UInt8} (dst : Mem) (da : Nat)
    (h : Holds src sa n b) :
    Holds (copyRange dst da src sa n) da n b := by
  intro i hi
  have hc : da ≤ da + i ∧ da + i < da + n := by omega
  simpa only [ByteMemory.copyRange, hc, and_self, if_true, Nat.add_sub_cancel_left] using h i hi

theorem Holds.copyRange_other {dst : Mem} {da n a m : Nat} {b : UInt8} (src : Mem) (sa : Nat)
    (h : Holds dst a m b) (hd : a + m ≤ da ∨ da + n ≤ a) : Holds (ByteMemory.copyRange dst da src sa n) a m b :=
  fun i hi => (copyRange_outside dst src (by omega)).trans (h i hi)

theorem Holds.writeWord {m : Mem} {a n w v : Nat} {b : UInt8} (h : Holds m a n b)
    (hd : a + n ≤ w ∨ w + 8 ≤ a) : Holds (ByteMemory.writeWord m w v) a n b :=
  fun i hi => (writeWord_outside m (by omega)).trans (h i hi)

theorem fillRange_outside (m : Mem) {a n x : Nat} {b : UInt8} (h : x < a ∨ a + n ≤ x) :
    fillRange m a n b x = m x := by
  unfold fillRange
  exact if_neg (by omega)

theorem Holds.fillRange (m : Mem) (a n : Nat) (b : UInt8) : Holds (fillRange m a n b) a n b := by
  intro i hi
  unfold ByteMemory.fillRange
  exact if_pos (by omega)

theorem Holds.fillRange_other {m : Mem} {a n c k : Nat} {b d : UInt8} (h : Holds m a n b)
    (hd : a + n ≤ c ∨ c + k ≤ a) : Holds (ByteMemory.fillRange m c k d) a n b :=
  fun i hi => (fillRange_outside m (by omega)).trans (h i hi)

theorem Holds.sub {m : Mem} {a n c k : Nat} {b : UInt8} (h : Holds m a n b) (hl : a ≤ c)
    (hu : c + k ≤ a + n) : Holds m c k b := by
  intro i hi
  have hx := h (c - a + i) (by omega)
  rwa [show a + (c - a + i) = c + i by omega] at hx

/-- Consecutive blocks that hold one value form a range that holds it. -/
theorem Holds.blocks {m : Mem} {a n k : Nat} {b : UInt8} (h : ∀ j, j < k → Holds m (a + j * n) n b) :
    Holds m a (k * n) b := by
  intro i hi
  have hn : 0 < n := Nat.pos_of_ne_zero fun he => by simp [he] at hi
  have hd := h (i / n) ((Nat.div_lt_iff_lt_mul hn).mpr hi) (i % n) (Nat.mod_lt i hn)
  rwa [Nat.add_assoc, Nat.mul_comm, Nat.div_add_mod] at hd

theorem readLE_zero {m : Mem} {a n : Nat} (h : Holds m a n 0) : readLE m a n = 0 := by
  have hr := readLE_eq (m := m) (a := a) (n := n) (v := 0) fun i hi => by simp [h i hi]
  simpa using hr

theorem readWord_zero {m : Mem} {a : Nat} (h : Holds m a 8 0) : readWord m a = 0 :=
  readLE_zero h

/-- `for (i = 0; i < n; i++) p[i] = v` for an array of 64-bit words at address `a`. -/
def writeWords (m : Mem) (a n v : Nat) : Mem :=
  (List.range n).foldl (fun m i => writeWord m (a + i * 8) v) m

theorem writeWords_succ (m : Mem) (a n v : Nat) :
    writeWords m a (n + 1) v = writeWord (writeWords m a n v) (a + n * 8) v := by
  simp [writeWords, List.range_succ]

theorem writeWords_outside (m : Mem) {a n v x : Nat} (h : x < a ∨ a + n * 8 ≤ x) :
    writeWords m a n v x = m x := by
  induction n with
  | zero => rfl
  | succ n ih => rw [writeWords_succ, writeWord_outside _ (by omega), ih (by omega)]

theorem readWord_writeWords (m : Mem) {a n v i : Nat} (h : i < n) :
    readWord (writeWords m a n v) (a + i * 8) = v % 2 ^ 64 := by
  induction n with
  | zero => omega
  | succ n ih =>
    rw [writeWords_succ]
    rcases Nat.lt_succ_iff_lt_or_eq.mp h with hl | rfl
    · rw [readWord_writeWord_other _ (by omega), ih hl]
    · exact readWord_writeWord_same _ _ _

theorem Holds.writeWords {m : Mem} {a n c k v : Nat} {b : UInt8} (h : Holds m a n b)
    (hd : a + n ≤ c ∨ c + k * 8 ≤ a) : Holds (ByteMemory.writeWords m c k v) a n b :=
  fun i hi => (writeWords_outside m (by omega)).trans (h i hi)

end ByteMemory
