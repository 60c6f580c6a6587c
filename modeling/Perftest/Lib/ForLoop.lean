import Mathlib.Order.Bounds.Basic
import Mathlib.Tactic

namespace ForLoop

/-- The values of `x` in `for (x = a; x < n; x += m)`, for a positive `m`. -/
def upTo (m n a : Nat) : List Nat :=
  if 0 < m ∧ a < n then a :: upTo m n (a + m) else []
termination_by n - a

variable {m n a x : Nat}

theorem mem_upTo (hm : 0 < m) : x ∈ upTo m n a ↔ a ≤ x ∧ x < n ∧ m ∣ x - a := by
  induction a using upTo.induct m n with
  | case1 a h ih =>
    rw [upTo, if_pos h, List.mem_cons, ih]
    constructor
    · rintro (rfl | ⟨hle, hlt, hd⟩)
      · exact ⟨le_refl _, h.2, by simp⟩
      · refine ⟨by omega, hlt, ?_⟩
        have he : x - a = x - (a + m) + m := by omega
        rw [he]
        exact Nat.dvd_add hd (dvd_refl m)
    · rintro ⟨hle, hlt, hd⟩
      rcases Nat.eq_or_lt_of_le hle with he | hgt
      · exact .inl he.symm
      · have hstep : m ≤ x - a := Nat.le_of_dvd (by omega) hd
        refine .inr ⟨by omega, hlt, ?_⟩
        have he : x - (a + m) = x - a - m := by omega
        rw [he]
        exact Nat.dvd_sub hd (dvd_refl m)
  | case2 a h =>
    rw [upTo, if_neg h]
    constructor
    · intro hx
      cases hx
    · rintro ⟨hle, hlt, -⟩
      exact absurd ⟨hm, by omega⟩ h

/-- A loop that keeps the smallest value ends with the least of them and of the first one. -/
theorem isLeast_foldl {α : Type*} (f : α → Nat) (l : List α) (x : Nat) :
    IsLeast (insert x {t | ∃ a ∈ l, f a = t})
      (l.foldl (fun best a => if f a < best then f a else best) x) := by
  induction l generalizing x with
  | nil =>
    refine ⟨Set.mem_insert x _, fun t ht => ?_⟩
    rcases ht with rfl | ⟨a, ha, -⟩
    · exact le_refl _
    · cases ha
  | cons b l ih =>
    obtain ⟨hmem, hle⟩ := ih (if f b < x then f b else x)
    have hbest : (if f b < x then f b else x) ≤ x ∧ (if f b < x then f b else x) ≤ f b := by
      split <;> omega
    refine ⟨?_, fun t ht => ?_⟩
    · rcases hmem with he | ⟨a, ha, he⟩
      · rw [List.foldl_cons, he]
        split
        next => exact .inr ⟨b, List.mem_cons_self, rfl⟩
        next => exact .inl rfl
      · exact .inr ⟨a, List.mem_cons_of_mem _ ha, he⟩
    · have hfirst := hle (Set.mem_insert _ _)
      rcases ht with rfl | ⟨a, ha, rfl⟩
      · exact hfirst.trans hbest.1
      · rcases List.mem_cons.mp ha with rfl | ha
        · exact hfirst.trans hbest.2
        · exact hle (.inr ⟨a, ha, rfl⟩)

end ForLoop
