import Mathlib.Tactic

namespace Cyclic

variable {k n : Nat}

theorem succ_mod_lt (h : k % n + 1 < n) : (k + 1) % n = k % n + 1 := by
  rw [Nat.add_mod, Nat.mod_eq_of_lt (show 1 < n by omega), Nat.mod_eq_of_lt h]

theorem succ_div_lt (h : k % n + 1 < n) : (k + 1) / n = k / n := by
  have hk := Nat.div_add_mod k n
  exact Nat.div_eq_of_lt_le (by rw [Nat.mul_comm]; omega) (by rw [Nat.mul_comm, Nat.mul_add]; omega)

theorem succ_mod_wrap (h : k % n + 1 = n) : (k + 1) % n = 0 := by
  have hk := Nat.div_add_mod k n
  rw [show k + 1 = n * (k / n + 1) by rw [Nat.mul_add]; omega]
  exact Nat.mul_mod_right _ _

theorem succ_div_wrap (h : k % n + 1 = n) : (k + 1) / n = k / n + 1 := by
  have hk := Nat.div_add_mod k n
  have hn : 0 < n := by omega
  rw [show k + 1 = n * (k / n + 1) by rw [Nat.mul_add]; omega]
  exact Nat.mul_div_cancel_left _ hn

/-- A counter either moves on inside its period or starts the next one. -/
theorem succ_cases (hn : 0 < n) :
    (k % n + 1 < n ∧ (k + 1) % n = k % n + 1 ∧ (k + 1) / n = k / n) ∨
    (k % n + 1 = n ∧ (k + 1) % n = 0 ∧ (k + 1) / n = k / n + 1) := by
  rcases Nat.lt_or_ge (k % n + 1) n with h | h
  · exact Or.inl ⟨h, succ_mod_lt h, succ_div_lt h⟩
  · have := Nat.mod_lt k hn
    have he : k % n + 1 = n := by omega
    exact Or.inr ⟨he, succ_mod_wrap he, succ_div_wrap he⟩

/-- Counters that agree around a cycle of `n` periods are in the same place of the same period. -/
theorem digits_of_mod_eq {a b m : Nat} (h : a % (m * n) = b % (m * n)) :
    a % m = b % m ∧ a / m % n = b / m % n := by
  constructor
  · rw [← Nat.mod_mul_right_mod a m n, h, Nat.mod_mul_right_mod]
  · rw [← Nat.mod_mul_right_div_self a m n, h, Nat.mod_mul_right_div_self]

/-- Two positions of a two-level array coincide only if both digits do. -/
theorem digits_eq {a b r s : Nat} (hr : r < n) (hs : s < n) (h : a * n + r = b * n + s) :
    a = b ∧ r = s := by
  have hn : 0 < n := by omega
  have hd : (a * n + r) / n = (b * n + s) / n := by rw [h]
  have hm : (a * n + r) % n = (b * n + s) % n := by rw [h]
  rw [Nat.mul_comm a, Nat.mul_comm b, Nat.mul_add_div hn, Nat.mul_add_div hn,
    Nat.div_eq_of_lt hr, Nat.div_eq_of_lt hs] at hd
  rw [Nat.mul_comm a, Nat.mul_comm b, Nat.mul_add_mod, Nat.mul_add_mod,
    Nat.mod_eq_of_lt hr, Nat.mod_eq_of_lt hs] at hm
  exact ⟨by omega, hm⟩

/-- Distinct blocks of equal length do not meet. -/
theorem block_disjoint {a b : Nat} (h : a ≠ b) : a * n + n ≤ b * n ∨ b * n + n ≤ a * n := by
  rcases Nat.lt_or_gt_of_ne h with hl | hl
  · exact Or.inl (by have := Nat.mul_le_mul_right n hl; rw [Nat.succ_mul] at this; exact this)
  · exact Or.inr (by have := Nat.mul_le_mul_right n hl; rw [Nat.succ_mul] at this; exact this)

/-- A block below the bound ends below the total length. -/
theorem block_end_le {a m : Nat} (h : a < m) : a * n + n ≤ m * n := by
  have := Nat.mul_le_mul_right n (Nat.succ_le_of_lt h)
  rw [Nat.succ_mul] at this
  exact this

/-- The ends of the cycles of length `m` among the first `n` places. -/
theorem countP_ends {m : Nat} (hm : 0 < m) (n : Nat) :
    (List.range n).countP (fun k => decide ((k + 1) % m = 0)) = n / m := by
  induction n with
  | zero => rw [List.range_zero, List.countP_nil, Nat.zero_div]
  | succ n ih =>
    rw [List.range_succ, List.countP_append, ih, List.countP_singleton]
    rcases succ_cases (k := n) hm with ⟨-, hr, hq⟩ | ⟨-, hr, hq⟩
    · simp [hr, hq]
    · simp [hr, hq]

/-- A place that moves on with a counter, back to the first one where the counter completes a cycle
of length `n`. -/
def ringNext (n k place : Nat) : Nat := if (k + 1) % n = 0 then 0 else place + 1

theorem ringNext_mod (hn : 0 < n) : ringNext n k (k % n) = (k + 1) % n := by
  unfold ringNext
  rcases succ_cases (k := k) hn with ⟨-, hm, -⟩ | ⟨-, hm, -⟩
  · rw [hm, if_neg (by omega)]
  · rw [hm, if_pos rfl]

/-- Wherever the counter begins, the place stays inside the cycle. -/
theorem ringNext_le_mod (hn : 0 < n) {place : Nat} (h : place ≤ k % n) :
    ringNext n k place ≤ (k + 1) % n := by
  unfold ringNext
  rcases succ_cases (k := k) hn with ⟨-, hm, -⟩ | ⟨-, hm, -⟩
  · rw [hm, if_neg (by omega)]
    omega
  · rw [hm, if_pos rfl]

/-- The place behind `r` moves with a counter that begins at `c`. -/
def ringPlace (n c : Nat) : Nat → Nat
  | 0 => 0
  | r + 1 => ringNext n (c + r) (ringPlace n c r)

/-- From the first cycle that the counter completes, the place is that of the counter. -/
theorem ringPlace_eq_mod {c r : Nat} (hn : 0 < n) (h : c / n < (c + r) / n) :
    ringPlace n c r = (c + r) % n := by
  induction r with
  | zero => exact absurd h (lt_irrefl _)
  | succ r ih =>
    rw [ringPlace, ringNext]
    rcases succ_cases (k := c + r) hn with ⟨-, hm, hd⟩ | ⟨-, hm, -⟩
    · rw [← Nat.add_assoc, hd] at h
      rw [← Nat.add_assoc, hm, if_neg (by omega), ih h]
    · rw [← Nat.add_assoc, hm, if_pos rfl]

/-- Wherever the counter begins, every place is reached. -/
theorem exists_ringPlace {c : Nat} (h : k < n) : ∃ r, ringPlace n c r = k := by
  have hn : 0 < n := by omega
  have hc := Nat.div_add_mod c n
  have hlt := Nat.mod_lt c hn
  refine ⟨n * (c / n + 1) + k - c, ?_⟩
  have hsum : c + (n * (c / n + 1) + k - c) = k + n * (c / n + 1) := by
    rw [Nat.mul_add]
    omega
  rw [ringPlace_eq_mod hn, hsum, Nat.add_mul_mod_self_left, Nat.mod_eq_of_lt h]
  rw [hsum, Nat.add_mul_div_left _ _ hn, Nat.div_eq_of_lt h]
  omega

end Cyclic
