import Mathlib.Algebra.BigOperators.Group.Finset.Basic
import Mathlib.Algebra.BigOperators.Intervals
import Mathlib.Tactic

namespace Butterfly

variable {α : Type*}

/-- In the round of a mask, every lane combines its value with the one of the lane whose number
differs by the mask. -/
def shuffle (op : α → α → α) : List Nat → (Nat → α) → Nat → α
  | [], f => f
  | m :: ms, f => shuffle op ms fun l => op (f l) (f (l ^^^ m))

/-- The differences between a lane and those whose values it has collected. -/
def span : List Nat → List Nat
  | [] => [0]
  | m :: ms => span ms ++ (span ms).map (· ^^^ m)

/-- The masks of a warp of 32 lanes. -/
def warpMasks : List Nat := [16, 8, 4, 2, 1]

theorem mem_span_warpMasks {x : Nat} : x ∈ span warpMasks ↔ x < 32 := by
  constructor
  · intro h
    have hall : ∀ x ∈ span warpMasks, x < 32 := by decide
    exact hall x h
  · intro h
    have hall : ∀ x < 32, x ∈ span warpMasks := by decide
    exact hall x h

/-- What holds for the collected lanes and is kept by the combination holds for the result. -/
theorem shuffle_of_lanes (op : α → α → α) {P : α → Prop} (hop : ∀ a b, P a → P b → P (op a b))
    {ms : List Nat} {f : Nat → α} {l : Nat} (h : ∀ x ∈ span ms, P (f (l ^^^ x))) : P (shuffle op ms f l) := by
  induction ms generalizing f with
  | nil =>
    have h0 := h 0 (List.mem_singleton.mpr rfl)
    rwa [Nat.xor_zero] at h0
  | cons m ms ih =>
    refine ih fun x hx => hop _ _ (h x (List.mem_append_left _ hx)) ?_
    rw [Nat.xor_assoc]
    exact h _ (List.mem_append_right _ (List.mem_map_of_mem hx))

/-- The result stands in relation to every collected lane, when a combination does to both its
parts. -/
theorem shuffle_rel (op : α → α → α) {r : α → α → Prop} (hl : ∀ a b, r (op a b) a)
    (hr : ∀ a b, r (op a b) b) (hrefl : ∀ a, r a a) (ht : ∀ a b c, r a b → r b c → r a c)
    {ms : List Nat} {f : Nat → α} {l x : Nat} (hx : x ∈ span ms) : r (shuffle op ms f l) (f (l ^^^ x)) := by
  induction ms generalizing f x with
  | nil =>
    rw [List.mem_singleton.mp hx, Nat.xor_zero]
    exact hrefl _
  | cons m ms ih =>
    rcases List.mem_append.mp hx with hx | hx
    · exact ht _ _ _ (ih hx) (hl _ _)
    · obtain ⟨y, hy, rfl⟩ := List.mem_map.mp hx
      rw [← Nat.xor_assoc]
      exact ht _ _ _ (ih hy) (hr _ _)

/-- The sum over the lanes of a warp. -/
theorem shuffle_add {M : Type*} [AddCommMonoid M] (f : Nat → M) :
    shuffle (· + ·) warpMasks f 0 = ∑ l ∈ Finset.range 32, f l := by
  simp only [shuffle, warpMasks, Finset.sum_range_succ, Finset.sum_range_zero, Nat.reduceXor]
  abel

end Butterfly
