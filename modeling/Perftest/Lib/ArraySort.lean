import Mathlib.Data.List.Sort
import Mathlib.Tactic

namespace ArraySort

/-- The cells of an array from `p` on. -/
def cells (v : Nat → Nat) (p n : Nat) : List Nat := (List.range n).map fun j => v (p + j)

/-- The cells below `p + b` that are greater than the key move up by one, down to the first that is
not; the array and the cell that became free. -/
def shiftUp (p key : Nat) : Nat → (Nat → Nat) → (Nat → Nat) × Nat
  | 0, v => (v, 0)
  | b + 1, v =>
    if key < v (p + b) then shiftUp p key b (Function.update v (p + (b + 1)) (v (p + b)))
    else (v, b + 1)

/-- Cell `p + a` is inserted into the cells from `p` on below it. -/
def insertCell (p : Nat) (v : Nat → Nat) (a : Nat) : Nat → Nat :=
  let (w, b) := shiftUp p (v (p + a)) a v
  Function.update w (p + b) (v (p + a))

/-- The insertion sort of `n` cells from `p` on. -/
def sortCells (p n : Nat) (v : Nat → Nat) : Nat → Nat :=
  (List.range' 1 (n - 1)).foldl (insertCell p) v

section Cells

variable {v w : Nat → Nat} {p n : Nat}

theorem cells_succ (v : Nat → Nat) (p n : Nat) : cells v p (n + 1) = cells v p n ++ [v (p + n)] := by
  simp [cells, List.range_succ]

theorem cells_add (v : Nat → Nat) (p a b : Nat) :
    cells v p (a + b) = cells v p a ++ cells v (p + a) b := by
  simp only [cells, List.range_add, List.map_append, List.map_map]
  congr 1
  apply List.map_congr_left
  intro j _
  simp only [Function.comp_apply, Nat.add_assoc]

theorem cells_congr {q : Nat} (h : ∀ j, j < n → v (p + j) = w (q + j)) :
    cells v p n = cells w q n := by
  apply List.map_congr_left
  intro j hj
  exact h j (List.mem_range.mp hj)

theorem mem_cells {x : Nat} : x ∈ cells v p n ↔ ∃ j, j < n ∧ v (p + j) = x := by
  simp only [cells, List.mem_map, List.mem_range]

end Cells

section Shift

variable {v : Nat → Nat} {p : Nat}

/-- What the loop moves: the cells from the free one on are greater than the key, the one below is
not. -/
theorem shiftUp_spec (p key b : Nat) (v : Nat → Nat) :
    (shiftUp p key b v).2 ≤ b ∧
      (∀ i, (shiftUp p key b v).2 ≤ i → i < b → key < v (p + i)) ∧
      (∀ c, (shiftUp p key b v).2 = c + 1 → v (p + c) ≤ key) ∧
      (∀ i, (shiftUp p key b v).2 ≤ i → i < b →
        (shiftUp p key b v).1 (p + (i + 1)) = v (p + i)) ∧
      ∀ x, (x ≤ p + (shiftUp p key b v).2 ∨ p + b < x) → (shiftUp p key b v).1 x = v x := by
  induction b generalizing v with
  | zero =>
    refine ⟨le_rfl, fun i _ hi => ?_, fun c hc => ?_, fun i _ hi => ?_, fun x _ => rfl⟩
    · omega
    · cases hc
    · omega
  | succ b ih =>
    rw [shiftUp]
    split
    next hlt =>
      obtain ⟨hle, hgt, hstop, hmove, hkeep⟩ :=
        ih (Function.update v (p + (b + 1)) (v (p + b)))
      have hv : ∀ x, x ≠ p + (b + 1) →
          Function.update v (p + (b + 1)) (v (p + b)) x = v x :=
        fun x hx => Function.update_of_ne hx _ _
      refine ⟨by omega, fun i hi hb => ?_, fun c hc => ?_, fun i hi hb => ?_, fun x hx => ?_⟩
      · rcases Nat.lt_succ_iff_lt_or_eq.mp hb with hb | rfl
        · rw [← hv (p + i) (by omega)]
          exact hgt i hi hb
        · exact hlt
      · rw [← hv (p + c) (by omega)]
        exact hstop c hc
      · rcases Nat.lt_succ_iff_lt_or_eq.mp hb with hb | rfl
        · rw [hmove i hi hb, hv (p + i) (by omega)]
        · rw [hkeep (p + (i + 1)) (Or.inr (by omega)), Function.update_self]
      · rw [hkeep x (by omega), hv x (by omega)]
    next hge =>
      refine ⟨le_rfl, fun i hi hb => ?_, fun c hc => ?_, fun i hi hb => ?_, fun x _ => rfl⟩
      · omega
      · rw [show c = b by omega]
        omega
      · omega

/-- The inserted cell ends between the cells that are not greater and those that are. -/
theorem insertCell_split (p : Nat) (v : Nat → Nat) (a : Nat) : ∃ b, b ≤ a ∧
    cells (insertCell p v a) p (a + 1) =
      cells v p b ++ v (p + a) :: cells v (p + b) (a - b) ∧
    (∀ x ∈ cells v (p + b) (a - b), v (p + a) < x) ∧
    (∀ c, b = c + 1 → v (p + c) ≤ v (p + a)) ∧
    ∀ x, (x < p ∨ p + a < x) → insertCell p v a x = v x := by
  obtain ⟨hle, hgt, hstop, hmove, hkeep⟩ := shiftUp_spec p (v (p + a)) a v
  have hins : insertCell p v a = Function.update (shiftUp p (v (p + a)) a v).1
      (p + (shiftUp p (v (p + a)) a v).2) (v (p + a)) := rfl
  generalize hs : shiftUp p (v (p + a)) a v = s at *
  refine ⟨s.2, hle, ?_, ?_, hstop, ?_⟩
  · have hsplit : a + 1 = s.2 + (1 + (a - s.2)) := by omega
    rw [hsplit, cells_add, cells_add, hins]
    congr 1
    · apply cells_congr
      intro j hj
      rw [Function.update_of_ne (by omega), hkeep _ (Or.inl (by omega))]
    · have hone : cells (Function.update s.1 (p + s.2) (v (p + a))) (p + s.2) 1 = [v (p + a)] := by
        simp [cells]
      rw [hone, List.singleton_append]
      congr 1
      apply cells_congr
      intro j hj
      rw [Function.update_of_ne (by omega), show p + s.2 + 1 + j = p + (s.2 + j + 1) by omega,
        hmove (s.2 + j) (by omega) (by omega), Nat.add_assoc]
  · intro x hx
    obtain ⟨j, hj, rfl⟩ := mem_cells.mp hx
    have hg := hgt (s.2 + j) (by omega) (by omega)
    rwa [← Nat.add_assoc] at hg
  · intro x hx
    rw [hins, Function.update_of_ne (by omega), hkeep x (by omega)]

theorem insertCell_perm (p : Nat) (v : Nat → Nat) (a : Nat) :
    (cells (insertCell p v a) p (a + 1)).Perm (cells v p (a + 1)) := by
  obtain ⟨b, hb, hc, -⟩ := insertCell_split p v a
  rw [hc, cells_succ]
  have hsplit : cells v p a = cells v p b ++ cells v (p + b) (a - b) := by
    rw [← cells_add, show b + (a - b) = a by omega]
  rw [hsplit]
  exact List.perm_middle.trans (List.perm_append_singleton _ _).symm

theorem insertCell_sorted {a : Nat} (h : (cells v p a).Pairwise (· ≤ ·)) :
    (cells (insertCell p v a) p (a + 1)).Pairwise (· ≤ ·) := by
  obtain ⟨b, hb, hc, hgt, hstop, -⟩ := insertCell_split p v a
  have hsplit : cells v p a = cells v p b ++ cells v (p + b) (a - b) := by
    rw [← cells_add, show b + (a - b) = a by omega]
  rw [hsplit] at h
  obtain ⟨hl, hr, hlr⟩ := List.pairwise_append.mp h
  have hlow : ∀ x ∈ cells v p b, x ≤ v (p + a) := by
    intro x hx
    cases b with
    | zero => cases hx
    | succ c =>
      have hle := hstop c rfl
      rw [cells_succ] at hx hl
      rcases List.mem_append.mp hx with hx | hx
      · have := (List.pairwise_append.mp hl).2.2 x hx (v (p + c)) (List.mem_singleton.mpr rfl)
        omega
      · rw [List.mem_singleton.mp hx]
        exact hle
  rw [hc]
  refine List.pairwise_append.mpr ⟨hl, List.pairwise_cons.mpr ⟨?_, hr⟩, ?_⟩
  · intro x hx
    exact (hgt x hx).le
  · intro x hx y hy
    rcases List.mem_cons.mp hy with rfl | hy
    · exact hlow x hx
    · exact hlr x hx y hy

/-- After the insertions up to cell `p + a` the cells up to it are sorted, and the others are those
of before. -/
theorem foldl_insertCell (p : Nat) (v : Nat → Nat) (a : Nat) :
    (cells ((List.range' 1 a).foldl (insertCell p) v) p (a + 1)).Pairwise (· ≤ ·) ∧
      (cells ((List.range' 1 a).foldl (insertCell p) v) p (a + 1)).Perm (cells v p (a + 1)) ∧
      ∀ x, (x < p ∨ p + a < x) → (List.range' 1 a).foldl (insertCell p) v x = v x := by
  induction a with
  | zero =>
    refine ⟨?_, List.Perm.refl _, fun x _ => rfl⟩
    simp [cells]
  | succ a ih =>
    obtain ⟨hs, hp, hk⟩ := ih
    rw [List.range'_1_concat, List.foldl_append]
    simp only [List.foldl_cons, List.foldl_nil]
    rw [Nat.add_comm 1 a]
    generalize (List.range' 1 a).foldl (insertCell p) v = u at *
    obtain ⟨b, hb, -, -, -, hkeep⟩ := insertCell_split p u (a + 1)
    refine ⟨insertCell_sorted hs, ?_, fun x hx => ?_⟩
    · refine (insertCell_perm p u (a + 1)).trans ?_
      rw [cells_succ u, cells_succ v, hk (p + (a + 1)) (Or.inr (by omega))]
      exact hp.append_right _
    · rw [hkeep x hx, hk x (by omega)]

theorem cells_sortCells (p n : Nat) (v : Nat → Nat) :
    cells (sortCells p n v) p n = (cells v p n).insertionSort (· ≤ ·) := by
  cases n with
  | zero => rfl
  | succ n =>
    obtain ⟨hs, hp, -⟩ := foldl_insertCell p v n
    exact (hp.trans (List.perm_insertionSort _ _).symm).eq_of_pairwise'
      hs (List.pairwise_insertionSort (· ≤ ·) _)

theorem sortCells_frame {x : Nat} (p n : Nat) (v : Nat → Nat) (h : x < p ∨ p + n ≤ x) :
    sortCells p n v x = v x := by
  cases n with
  | zero => rfl
  | succ n => exact (foldl_insertCell p v n).2.2 x (by omega)

end Shift

end ArraySort
