import Mathlib.Data.List.Basic
import Mathlib.Data.Nat.ModEq
import Mathlib.Logic.Relation

/-!
# One's complement sums

Sums of 16-bit words whose carries are brought around, and the loop that folds a wide sum.
-/

namespace OnesComplement

def add (a b : Nat) : Nat := (a + b) % 2 ^ 16 + (a + b) / 2 ^ 16

/-- The one's complement sum of a list of 16-bit words. -/
def sum (l : List Nat) : Nat := l.foldl add 0

/-- One round of the loop that folds the upper part of a sum into the lower one. -/
def Fold (s t : Nat) : Prop := s / 2 ^ 16 ≠ 0 ∧ t = s % 2 ^ 16 + s / 2 ^ 16

variable {a b s t : Nat} {l : List Nat}

theorem Fold.lt (h : Fold s t) : t < s := by
  obtain ⟨hs, rfl⟩ := h
  have hdiv := Nat.div_add_mod s (2 ^ 16)
  omega

theorem Fold.pos (h : Fold s t) : 0 < t := by
  obtain ⟨hs, rfl⟩ := h
  omega

theorem fold_modEq (s : Nat) : s % 2 ^ 16 + s / 2 ^ 16 ≡ s [MOD 65535] := by
  have hdiv : 2 ^ 16 * (s / 2 ^ 16) + s % 2 ^ 16 = s := Nat.div_add_mod s (2 ^ 16)
  unfold Nat.ModEq
  omega

theorem folds_modEq (h : Relation.ReflTransGen Fold s t) : t ≡ s [MOD 65535] := by
  induction h with
  | refl => exact Nat.ModEq.refl s
  | tail _ h ih =>
    obtain ⟨-, rfl⟩ := h
    exact (fold_modEq _).trans ih

theorem folds_eq_zero_iff (h : Relation.ReflTransGen Fold s t) : t = 0 ↔ s = 0 := by
  induction h with
  | refl => exact Iff.rfl
  | tail _ h ih =>
    have hpos := h.pos
    have hlt := h.lt
    omega

theorem add_modEq (a b : Nat) : add a b ≡ a + b [MOD 65535] := fold_modEq (a + b)

theorem add_lt (ha : a < 2 ^ 16) (hb : b < 2 ^ 16) : add a b < 2 ^ 16 := by
  unfold add
  omega

theorem add_eq_zero_iff : add a b = 0 ↔ a = 0 ∧ b = 0 := by
  unfold add
  omega

theorem foldl_add_modEq (a : Nat) (l : List Nat) : l.foldl add a ≡ a + l.sum [MOD 65535] := by
  induction l generalizing a with
  | nil => exact Nat.ModEq.refl a
  | cons b l ih =>
    rw [List.foldl_cons, List.sum_cons, ← Nat.add_assoc]
    exact (ih (add a b)).trans ((add_modEq a b).add_right l.sum)

theorem sum_modEq (l : List Nat) : sum l ≡ l.sum [MOD 65535] := by
  have h := foldl_add_modEq 0 l
  rwa [Nat.zero_add] at h

theorem foldl_add_lt (ha : a < 2 ^ 16) (hl : ∀ b ∈ l, b < 2 ^ 16) : l.foldl add a < 2 ^ 16 := by
  induction l generalizing a with
  | nil => exact ha
  | cons b l ih =>
    exact ih (add_lt ha (hl b List.mem_cons_self)) fun c hc => hl c (List.mem_cons_of_mem b hc)

theorem sum_lt (hl : ∀ b ∈ l, b < 2 ^ 16) : sum l < 2 ^ 16 := foldl_add_lt (by decide) hl

theorem foldl_add_eq_zero_iff (a : Nat) (l : List Nat) :
    l.foldl add a = 0 ↔ a = 0 ∧ l.sum = 0 := by
  induction l generalizing a with
  | nil => simp
  | cons b l ih =>
    rw [List.foldl_cons, ih, add_eq_zero_iff, List.sum_cons]
    omega

theorem sum_eq_zero_iff : sum l = 0 ↔ l.sum = 0 := by
  unfold sum
  rw [foldl_add_eq_zero_iff]
  simp

/-- A 16-bit word is known from its residue and whether it is zero. -/
theorem eq_of_modEq (ha : a < 2 ^ 16) (hb : b < 2 ^ 16) (h : a ≡ b [MOD 65535])
    (hz : a = 0 ↔ b = 0) : a = b := by
  unfold Nat.ModEq at h
  omega

end OnesComplement
