import Mathlib.Data.Prod.Lex
import Mathlib.Tactic

/-!
# Lexicographic orders as weighted sums, and the first greatest score
-/

namespace LexScore

section Weights

variable {α β : Type*} [LinearOrder α] {f : α → Int} {g : β → Int} {w : Int} {a a' : α} {b b' : β}

theorem weigh_lt (hf : StrictMono f) (hw : 0 ≤ w) (hb : g b < w) (hb' : 0 ≤ g b') (h : a < a') :
    w * f a + g b < w * f a' + g b' := by
  have hgap : f a + 1 ≤ f a' := hf h
  calc w * f a + g b < w * f a + w := Int.add_lt_add_left hb _
    _ = w * (f a + 1) := by rw [Int.mul_add, Int.mul_one]
    _ ≤ w * f a' := Int.mul_le_mul_of_nonneg_left hgap hw
    _ ≤ w * f a' + g b' := Int.le_add_of_nonneg_right hb'

/-- A weight above the values of the second criterion puts the first one first. -/
theorem weigh_lt_iff [LinearOrder β] (hf : StrictMono f) (hb : 0 ≤ g b ∧ g b < w)
    (hb' : 0 ≤ g b' ∧ g b' < w) (hg : g b < g b' ↔ b < b') :
    w * f a + g b < w * f a' + g b' ↔ toLex (a, b) < toLex (a', b') := by
  have hw : 0 ≤ w := hb.1.trans hb.2.le
  rw [Prod.Lex.toLex_lt_toLex]
  rcases lt_trichotomy a a' with h | rfl | h
  · exact iff_of_true (weigh_lt hf hw hb.2 hb'.1 h) (.inl h)
  · rw [Int.add_lt_add_iff_left, hg]
    simp
  · refine iff_of_false (weigh_lt hf hw hb'.2 hb.1 h).not_gt ?_
    rintro (hlt | ⟨he, -⟩)
    · exact absurd hlt h.not_gt
    · exact h.ne' he

/-- The value of a condition. -/
def ofBool (b : Bool) : Int := if b then 1 else 0

theorem ofBool_strictMono : StrictMono ofBool := by
  intro a b h
  cases a <;> cases b <;> first | decide | exact absurd h (by decide)

theorem ofBool_range (b : Bool) : 0 ≤ ofBool b ∧ ofBool b ≤ 1 := by
  cases b <;> decide

end Weights

section Scan

/-- The index and the score of the best of the first `n` entries, in a loop that replaces it by a
better one only. -/
def scanMax (score : Nat → Int) : Nat → Int × Int
  | 0 => (-1, -1)
  | n + 1 =>
    if (scanMax score n).2 < score n then (n, score n) else scanMax score n

variable {score : Nat → Int}

/-- The loop finds nothing, or the first index with the greatest score. -/
theorem scanMax_spec (n : Nat) :
    (scanMax score n = (-1, -1) ∧ ∀ i < n, score i ≤ -1) ∨
      ∃ i < n, scanMax score n = ((i : Int), score i) ∧ -1 < score i ∧ (∀ j < n, score j ≤ score i) ∧
        ∀ j < i, score j < score i := by
  induction n with
  | zero => exact .inl ⟨rfl, fun i hi => absurd hi (Nat.not_lt_zero i)⟩
  | succ n ih =>
    rcases ih with ⟨he, hall⟩ | ⟨i, hi, he, hpos, hmax, hfirst⟩
    · rw [scanMax, he]
      split
      next hlt =>
        refine .inr ⟨n, n.lt_succ_self, rfl, hlt, fun j hj => ?_, fun j hj => ?_⟩
        · rcases Nat.lt_succ_iff_lt_or_eq.mp hj with hj | rfl
          · exact (hall j hj).trans hlt.le
          · exact le_refl _
        · exact (hall j hj).trans_lt hlt
      next hle =>
        refine .inl ⟨rfl, fun j hj => ?_⟩
        rcases Nat.lt_succ_iff_lt_or_eq.mp hj with hj | rfl
        · exact hall j hj
        · exact Int.not_lt.mp hle
    · rw [scanMax, he]
      split
      next hlt =>
        refine .inr ⟨n, n.lt_succ_self, rfl, hpos.trans hlt, fun j hj => ?_, fun j hj => ?_⟩
        · rcases Nat.lt_succ_iff_lt_or_eq.mp hj with hj | rfl
          · exact (hmax j hj).trans hlt.le
          · exact le_refl _
        · exact (hmax j hj).trans_lt hlt
      next hle =>
        refine .inr ⟨i, hi.trans n.lt_succ_self, rfl, hpos, fun j hj => ?_, hfirst⟩
        rcases Nat.lt_succ_iff_lt_or_eq.mp hj with hj | rfl
        · exact hmax j hj
        · exact Int.not_lt.mp hle

end Scan

end LexScore
