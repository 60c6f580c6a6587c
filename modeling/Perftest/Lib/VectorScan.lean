import Mathlib.Tactic

namespace VectorScan

/-- The first of `n` positions from `i` on at which `p` holds. -/
def firstFrom (p : Nat → Bool) : Nat → Nat → Option Nat
  | _, 0 => none
  | i, n + 1 => if p i then some i else firstFrom p (i + 1) n

/-- One bit for each of `w` lanes, the first lane in the lowest bit. -/
def laneMask (p : Nat → Bool) : (w : Nat) → BitVec w
  | 0 => 0
  | w + 1 => (laneMask p w).cons (p w)

/-- A loop over blocks of `w` positions of a 64-bit index; `none` if it runs out of fuel. The block
reports the position of a hit, which ends the loop. -/
def blockLoop (more : Nat → Bool) (w : Nat) (block : Nat → Option Nat) :
    Nat → Nat → Option (Option Nat × Nat)
  | 0, _ => none
  | fuel + 1, i =>
    if more i then
      match block i with
      | some x => some (some x, i)
      | none => blockLoop more w block fuel ((i + w) % 2 ^ 64)
    else some (none, i)

section Search

variable {p q : Nat → Bool} {i n x : Nat}

theorem firstFrom_eq_none_iff :
    firstFrom p i n = none ↔ ∀ j, i ≤ j → j < i + n → p j = false := by
  induction n generalizing i with
  | zero =>
    refine ⟨fun _ j hl hu => ?_, fun _ => rfl⟩
    omega
  | succ n ih =>
    rw [firstFrom]
    split
    next h =>
      refine ⟨fun hn => (nomatch hn), fun hall => ?_⟩
      rw [hall i le_rfl (by omega)] at h
      cases h
    next h =>
      rw [ih]
      constructor
      · intro hall j hl hu
        rcases Nat.eq_or_lt_of_le hl with he | hl
        · rw [← he]
          exact Bool.eq_false_iff.mpr h
        · exact hall j hl (by omega)
      · intro hall j hl hu
        exact hall j (by omega) (by omega)

theorem firstFrom_eq_some_iff : firstFrom p i n = some x ↔
    i ≤ x ∧ x < i + n ∧ p x = true ∧ ∀ j, i ≤ j → j < x → p j = false := by
  induction n generalizing i with
  | zero =>
    refine ⟨fun h => (nomatch h), fun h => ?_⟩
    omega
  | succ n ih =>
    rw [firstFrom]
    split
    next h =>
      constructor
      · intro he
        obtain rfl := Option.some.inj he
        exact ⟨le_rfl, by omega, h, fun j _ _ => by omega⟩
      · intro hx
        rcases Nat.eq_or_lt_of_le hx.1 with he | hlt
        · rw [he]
        · rw [hx.2.2.2 i le_rfl hlt] at h
          cases h
    next h =>
      rw [ih]
      constructor
      · intro hx
        refine ⟨by omega, by omega, hx.2.2.1, fun j hl hu => ?_⟩
        rcases Nat.eq_or_lt_of_le hl with he | hl
        · rw [← he]
          exact Bool.eq_false_iff.mpr h
        · exact hx.2.2.2 j hl hu
      · intro hx
        have hne : i ≠ x := fun he => h (he ▸ hx.2.2.1)
        exact ⟨by omega, by omega, hx.2.2.1, fun j hl hu => hx.2.2.2 j (by omega) hu⟩

theorem firstFrom_append (p : Nat → Bool) (i a b : Nat) :
    firstFrom p i (a + b) = (firstFrom p i a).or (firstFrom p (i + a) b) := by
  induction a generalizing i with
  | zero => rw [Nat.zero_add, firstFrom, Option.none_or, Nat.add_zero]
  | succ a ih =>
    rw [show a + 1 + b = a + b + 1 by omega, firstFrom, firstFrom]
    split
    next => rfl
    next => rw [ih, show i + 1 + a = i + (a + 1) by omega]

theorem firstFrom_congr (h : ∀ j, i ≤ j → j < i + n → p j = q j) :
    firstFrom p i n = firstFrom q i n := by
  induction n generalizing i with
  | zero => rfl
  | succ n ih =>
    rw [firstFrom, firstFrom, h i le_rfl (by omega), ih fun j hl hu => h j (by omega) (by omega)]

theorem firstFrom_shift (p : Nat → Bool) (a i n : Nat) :
    firstFrom p (a + i) n = (firstFrom (fun j => p (a + j)) i n).map (a + ·) := by
  induction n generalizing i with
  | zero => rfl
  | succ n ih =>
    rw [firstFrom, firstFrom]
    split
    next => rfl
    next => rw [show a + i + 1 = a + (i + 1) by omega, ih]

/-- A search over four blocks in a row. -/
theorem firstFrom_four (p : Nat → Bool) (i w : Nat) : firstFrom p i (4 * w) =
    (firstFrom p i w).or ((firstFrom p (i + w) w).or
      ((firstFrom p (i + 2 * w) w).or (firstFrom p (i + 3 * w) w))) := by
  rw [show 4 * w = w + (w + (w + w)) by omega, firstFrom_append, firstFrom_append,
    firstFrom_append, show i + w + w = i + 2 * w by omega,
    show i + 2 * w + w = i + 3 * w by omega]

end Search

section Mask

variable {p q : Nat → Bool} {w i : Nat}

theorem getLsbD_laneMask (p : Nat → Bool) (w i : Nat) :
    (laneMask p w).getLsbD i = (decide (i < w) && p i) := by
  induction w with
  | zero => simp
  | succ w ih =>
    rw [laneMask, BitVec.getLsbD_cons, ih]
    split
    next h => simp [h]
    next h =>
      have hlt : i < w + 1 ↔ i < w := by omega
      simp only [hlt]

theorem laneMask_and (p q : Nat → Bool) (w : Nat) :
    laneMask p w &&& laneMask q w = laneMask (fun i => p i && q i) w := by
  apply BitVec.eq_of_getLsbD_eq
  intro i hi
  rw [BitVec.getLsbD_and, getLsbD_laneMask, getLsbD_laneMask, getLsbD_laneMask,
    decide_eq_true hi, Bool.true_and, Bool.true_and, Bool.true_and]

theorem laneMask_eq_allOnes_iff :
    laneMask p w = BitVec.allOnes w ↔ ∀ i, i < w → p i = true := by
  constructor
  · intro h i hi
    have hb := getLsbD_laneMask p w i
    rw [h, BitVec.getLsbD_allOnes, decide_eq_true hi, Bool.true_and] at hb
    exact hb.symm
  · intro h
    apply BitVec.eq_of_getLsbD_eq
    intro i hi
    rw [getLsbD_laneMask, BitVec.getLsbD_allOnes, h i hi, Bool.and_true]

/-- The trailing zeros of a word that has a bit for every lane without `p` lead to the first of
these lanes. -/
theorem firstFrom_eq_ctz {W : Nat} {c : BitVec W}
    (hc : ∀ i, c.getLsbD i = (decide (i < w) && !p i)) (h : ¬ ∀ i, i < w → p i = true) :
    firstFrom (fun i => !p i) 0 w = some c.ctz.toNat := by
  have hne : c ≠ 0#W := by
    intro h0
    apply h
    intro i hi
    have hb := hc i
    simpa [h0, hi] using hb
  have ht := BitVec.getLsbD_true_ctz_of_ne_zero hne
  rw [hc] at ht
  simp only [Bool.and_eq_true, decide_eq_true_eq] at ht
  refine firstFrom_eq_some_iff.mpr ⟨Nat.zero_le _, by omega, ht.2, fun j _ hj => ?_⟩
  have hf := BitVec.getLsbD_false_of_lt_ctz hj
  rw [hc, decide_eq_true (by omega : j < w)] at hf
  exact hf

end Mask

/-- The digits of a number are all maximal exactly if it is. -/
theorem sum_digits_max_iff {a : Nat → Nat} {b n : Nat} (h : ∀ j, a j < b) :
    ((List.range n).map fun j => a j * b ^ j).sum + 1 ≤ b ^ n ∧
      (((List.range n).map fun j => a j * b ^ j).sum + 1 = b ^ n ↔
        ∀ j, j < n → a j + 1 = b) := by
  induction n with
  | zero => simp
  | succ n ih =>
    obtain ⟨hle, hiff⟩ := ih
    have hmul : (a n + 1) * b ^ n ≤ b * b ^ n := Nat.mul_le_mul_right _ (h n)
    rw [Nat.add_mul, Nat.one_mul] at hmul
    simp only [List.range_succ, List.map_append, List.map_cons, List.map_nil, List.sum_append,
      List.sum_cons, List.sum_nil, Nat.add_zero, Nat.pow_succ']
    refine ⟨by omega, ?_⟩
    constructor
    · intro he j hj
      have hn : a n + 1 = b := by
        by_contra hne
        have hlt : (a n + 1 + 1) * b ^ n ≤ b * b ^ n := Nat.mul_le_mul_right _ (by have := h n; omega)
        rw [Nat.add_mul, Nat.add_mul, Nat.one_mul] at hlt
        have hpos : 0 < b ^ n := by
          have := h n
          exact Nat.pow_pos (by omega)
        omega
      have hb : b * b ^ n = a n * b ^ n + b ^ n := by rw [← hn, Nat.add_mul, Nat.one_mul]
      rcases Nat.lt_or_ge j n with hlt | hge
      · exact hiff.mp (by omega) j hlt
      · rwa [show j = n by omega]
    · intro hall
      have hb : b * b ^ n = a n * b ^ n + b ^ n := by
        conv => lhs; rw [← hall n (by omega)]
        rw [Nat.add_mul, Nat.one_mul, hall n (by omega)]
      have hs := hiff.mpr fun j hj => hall j (by omega)
      omega

/-- A number has its digits once. -/
theorem sum_digits_inj {a a' : Nat → Nat} {b n : Nat} (h : ∀ j, a j < b) (h' : ∀ j, a' j < b)
    (he : ((List.range n).map fun j => a j * b ^ j).sum =
      ((List.range n).map fun j => a' j * b ^ j).sum) : ∀ j, j < n → a j = a' j := by
  induction n with
  | zero =>
    intro j hj
    omega
  | succ n ih =>
    have hl := (sum_digits_max_iff (n := n) h).1
    have hl' := (sum_digits_max_iff (n := n) h').1
    simp only [List.range_succ, List.map_append, List.map_cons, List.map_nil, List.sum_append,
      List.sum_cons, List.sum_nil, Nat.add_zero] at he
    generalize ((List.range n).map fun j => a j * b ^ j).sum = x at *
    generalize ((List.range n).map fun j => a' j * b ^ j).sum = y at *
    have htop : a n = a' n := by
      have hd := congrArg (· / b ^ n) he
      simp only [Nat.add_mul_div_right _ _ (by omega : 0 < b ^ n),
        Nat.div_eq_of_lt (by omega : x < b ^ n), Nat.div_eq_of_lt (by omega : y < b ^ n)] at hd
      omega
    intro j hj
    rcases Nat.lt_or_ge j n with hlt | hge
    · rw [htop] at he
      exact ih (by omega) j hlt
    · rwa [show j = n by omega]

section Loop

variable {p more : Nat → Bool} {block : Nat → Option Nat} {w size : Nat}

/-- What a loop over blocks up to `size` does: it reports the first hit, or it leaves less than a
block for the search that follows. -/
theorem blockLoop_spec (hw : 0 < w) (hsize : size + w ≤ 2 ^ 64)
    (hmore : ∀ i, i ≤ size → (more i = true ↔ i + w ≤ size))
    (hblock : ∀ i, i + w ≤ size → block i = firstFrom p i w) (fuel : Nat) {i : Nat}
    (hi : i ≤ size) (hf : size - i < fuel) :
    ∃ r k, blockLoop more w block fuel i = some (r, k) ∧
      (∀ x, r = some x → firstFrom p i (size - i) = some x) ∧
      (r = none → i ≤ k ∧ k ≤ size ∧ size < k + w ∧
        firstFrom p i (size - i) = firstFrom p k (size - k)) := by
  induction fuel generalizing i with
  | zero => omega
  | succ fuel ih =>
    by_cases hm : i + w ≤ size
    · have hsplit : firstFrom p i (size - i) =
          (firstFrom p i w).or (firstFrom p (i + w) (size - (i + w))) := by
        rw [← firstFrom_append, show w + (size - (i + w)) = size - i by omega]
      cases hb : firstFrom p i w with
      | some x =>
        refine ⟨some x, i, ?_, fun y hy => ?_, fun h => (nomatch h)⟩
        · simp only [blockLoop, (hmore i hi).mpr hm, if_true, hblock i hm, hb]
        · rw [hsplit, hb, Option.some_or, hy]
      | none =>
        have hu : (i + w) % 2 ^ 64 = i + w := Nat.mod_eq_of_lt (by omega)
        obtain ⟨r, k, hr, hx, hn⟩ := ih hm (by omega)
        refine ⟨r, k, ?_, fun y hy => ?_, fun h => ?_⟩
        · simp only [blockLoop, (hmore i hi).mpr hm, if_true, hblock i hm, hb, hu, hr]
        · rw [hsplit, hb, Option.none_or, hx y hy]
        · obtain ⟨h1, h2, h3, h4⟩ := hn h
          exact ⟨by omega, h2, h3, by rw [hsplit, hb, Option.none_or, h4]⟩
    · refine ⟨none, i, ?_, fun x h => (nomatch h), fun _ => ⟨le_rfl, hi, by omega, rfl⟩⟩
      have hf : more i = false := by
        cases hc : more i with
        | false => rfl
        | true => exact absurd ((hmore i hi).mp hc) hm
      simp only [blockLoop, hf, Bool.false_eq_true, if_false]

end Loop

end VectorScan
