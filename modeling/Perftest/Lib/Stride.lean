import Mathlib.Order.Interval.Set.Basic
import Mathlib.Order.Interval.Set.Disjoint
import Mathlib.Tactic
import Mathlib.Order.CompletePartialOrder

/-! Blocks of one length at equal distances. -/

namespace Stride

/-- The cells of `count` blocks of `len` cells, the first at `base` and each `pitch` behind the one
before. -/
def cells (base pitch count len : Nat) : Set Nat :=
  {b | ∃ k < count, base + k * pitch ≤ b ∧ b < base + k * pitch + len}

/-- The cells of blocks of `len` cells at some places. -/
def extent (places : Set Nat) (len : Nat) : Set Nat := {b | ∃ a ∈ places, a ≤ b ∧ b < a + len}

/-- The first cell behind the blocks. -/
def stop (base pitch count len : Nat) : Nat := base + (count - 1) * pitch + len

variable {base pitch count len base' pitch' count' len' lo hi : Nat}

theorem extent_eq_cells {places : Set Nat}
    (h : ∀ a, a ∈ places ↔ ∃ k < count, a = base + k * pitch) :
    extent places len = cells base pitch count len := by
  ext b
  constructor
  · rintro ⟨a, ha, hle, hlt⟩
    obtain ⟨k, hk, rfl⟩ := (h a).mp ha
    exact ⟨k, hk, hle, hlt⟩
  · rintro ⟨k, hk, hle, hlt⟩
    exact ⟨_, (h _).mpr ⟨k, hk, rfl⟩, hle, hlt⟩

theorem cells_subset_Ico :
    cells base pitch count len ⊆ Set.Ico base (stop base pitch count len) := by
  rintro b ⟨k, hk, hle, hlt⟩
  have hmul : k * pitch ≤ (count - 1) * pitch := Nat.mul_le_mul_right pitch (by omega)
  exact ⟨by omega, by unfold stop; omega⟩

theorem cells_eq_empty (h : count = 0 ∨ len = 0) : cells base pitch count len = ∅ := by
  refine Set.eq_empty_iff_forall_notMem.mpr ?_
  rintro b ⟨k, hk, hle, hlt⟩
  omega

theorem base_mem (hc : 0 < count) (hl : 0 < len) : base ∈ cells base pitch count len :=
  ⟨0, hc, by omega, by omega⟩

/-- A cell of the last block. -/
theorem mem_of_last {b : Nat} (hc : 0 < count) (hle : base + (count - 1) * pitch ≤ b)
    (hlt : b < stop base pitch count len) : b ∈ cells base pitch count len :=
  ⟨count - 1, by omega, hle, hlt⟩

theorem cells_subset_Ico_iff (hc : 0 < count) (hl : 0 < len) :
    cells base pitch count len ⊆ Set.Ico lo hi ↔ lo ≤ base ∧ stop base pitch count len ≤ hi := by
  constructor
  · intro h
    have hfirst := (h (base_mem hc hl)).1
    have hlast : stop base pitch count len - 1 ∈ Set.Ico lo hi :=
      h (mem_of_last hc (by unfold stop; omega) (by unfold stop; omega))
    have := hlast.2
    exact ⟨hfirst, by unfold stop at this ⊢; omega⟩
  · rintro ⟨hlo, hhi⟩ b hb
    obtain ⟨h1, h2⟩ := cells_subset_Ico hb
    exact ⟨hlo.trans h1, h2.trans_le hhi⟩

theorem disjoint_of_stop_le (h : stop base pitch count len ≤ base') :
    Disjoint (cells base pitch count len) (cells base' pitch' count' len') := by
  refine Set.disjoint_left.mpr fun b hb hb' => ?_
  have h1 := (cells_subset_Ico hb).2
  have h2 := (cells_subset_Ico hb').1
  omega

/-- Where the last block starts before the first one of the others ends, nothing but the end keeps
the blocks apart. -/
theorem disjoint_iff_stop_le (hc : 0 < count) (hl : 0 < len) (hc' : 0 < count')
    (hl' : 0 < len') (h : base + (count - 1) * pitch < base' + len') :
    Disjoint (cells base pitch count len) (cells base' pitch' count' len') ↔
      stop base pitch count len ≤ base' := by
  refine ⟨fun hd => ?_, disjoint_of_stop_le⟩
  by_contra hlt
  have hstop : stop base pitch count len = base + (count - 1) * pitch + len := rfl
  have hlast : max (base + (count - 1) * pitch) base' ∈ cells base pitch count len :=
    mem_of_last hc (le_max_left _ _) (by omega)
  exact Set.disjoint_left.mp hd hlast ⟨0, hc', by omega, by omega⟩

end Stride
