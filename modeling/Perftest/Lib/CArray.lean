import Mathlib.Tactic

namespace CArray

/-- A C array of `len` cells; a cell that was never written holds no value. -/
structure Table (α : Type) where
  len : Nat
  cell : Nat → Option α

namespace Table

variable {α : Type}

def alloc (len : Nat) : Table α := ⟨len, fun _ => none⟩

/-- An array that a loop over all its indices has filled. -/
def ofFn (len : Nat) (f : Nat → α) : Table α := ⟨len, fun i => some (f i)⟩

/-- `t[i]`, undefined outside the array and on an uninitialised cell. -/
def get (t : Table α) (i : Int) : Option α :=
  if 0 ≤ i ∧ i < t.len then t.cell i.toNat else none

/-- `t[i] = v`, undefined outside the array. -/
def set (t : Table α) (i : Int) (v : α) : Option (Table α) :=
  if 0 ≤ i ∧ i < t.len then some ⟨t.len, fun j => if j = i.toNat then some v else t.cell j⟩
  else none

/-- A loop of assignments. -/
def fill (t : Table α) (l : List (Int × α)) : Option (Table α) :=
  l.foldlM (fun t p => t.set p.1 p.2) t

theorem ofFn_get {len i : Nat} (f : Nat → α) (h : i < len) : (ofFn len f).get i = some (f i) := by
  simp [get, ofFn, h]

theorem get_eq_none {t : Table α} {i : Int} (h : ¬ (0 ≤ i ∧ i < t.len)) : t.get i = none :=
  if_neg h

@[simp] theorem fill_nil (t : Table α) : t.fill [] = some t := rfl

theorem fill_cons (t : Table α) (p : Int × α) (l : List (Int × α)) :
    t.fill (p :: l) = (t.set p.1 p.2).bind fun t' => t'.fill l := by
  simp only [fill, List.foldlM_cons, Option.bind_eq_bind]

theorem set_eq_some {t t' : Table α} {i : Int} {v : α} (h : t.set i v = some t') :
    (0 ≤ i ∧ i < t.len) ∧ t'.len = t.len ∧
      ∀ j, t'.get j = if j = i then some v else t.get j := by
  unfold set at h
  split at h
  next hi =>
    cases h
    refine ⟨hi, rfl, fun j => ?_⟩
    by_cases hj : j = i
    · subst hj
      simp [get, hi]
    · have hc : 0 ≤ j → j.toNat ≠ i.toNat := by omega
      simp only [get, hj, if_false]
      split
      next hr => simp [hc hr.1]
      next => rfl
  next => cases h

theorem set_isSome {t : Table α} {i : Int} (v : α) (h : 0 ≤ i ∧ i < t.len) :
    ∃ t', t.set i v = some t' := ⟨_, if_pos h⟩

theorem set_eq_none {t : Table α} {i : Int} (v : α) (h : ¬ (0 ≤ i ∧ i < t.len)) :
    t.set i v = none := if_neg h

/-- A loop whose indices all lie inside the array is defined. -/
theorem fill_isSome {t : Table α} {l : List (Int × α)} (h : ∀ p ∈ l, 0 ≤ p.1 ∧ p.1 < t.len) :
    ∃ t', t.fill l = some t' := by
  induction l generalizing t with
  | nil => exact ⟨t, rfl⟩
  | cons p l ih =>
    obtain ⟨t1, h1⟩ := set_isSome p.2 (h p (by simp))
    have hl := (set_eq_some h1).2.1
    obtain ⟨t2, h2⟩ := ih (t := t1) fun q hq => by rw [hl]; exact h q (by simp [hq])
    exact ⟨t2, by rw [fill_cons, h1]; exact h2⟩

/-- One index outside the array leaves the loop undefined. -/
theorem fill_eq_none {t : Table α} {l : List (Int × α)} {p : Int × α} (hp : p ∈ l)
    (h : ¬ (0 ≤ p.1 ∧ p.1 < t.len)) : t.fill l = none := by
  induction l generalizing t with
  | nil => cases hp
  | cons q l ih =>
    rw [fill_cons]
    cases h1 : t.set q.1 q.2 with
    | none => rfl
    | some t1 =>
      have hs := set_eq_some h1
      rcases List.mem_cons.mp hp with rfl | hm
      · exact absurd hs.1 h
      · exact ih hm (by rw [hs.2.1]; exact h)

/-- A loop that writes a function of the index leaves this function in every index it visits. -/
theorem fill_get {t t' : Table α} {l : List (Int × α)} {f : Int → α} (h : t.fill l = some t')
    (hf : ∀ p ∈ l, p.2 = f p.1) {i : Int} (hi : (∃ p ∈ l, p.1 = i) ∨ t.get i = some (f i)) :
    t'.get i = some (f i) := by
  induction l generalizing t with
  | nil =>
    cases h
    rcases hi with ⟨p, hp, -⟩ | hi
    · cases hp
    · exact hi
  | cons q l ih =>
    rw [fill_cons] at h
    obtain ⟨t1, h1, h2⟩ := Option.bind_eq_some_iff.mp h
    have hs := (set_eq_some h1).2.2 i
    refine ih h2 (fun p hp => hf p (by simp [hp])) ?_
    by_cases hq : i = q.1
    · right
      rw [hs, if_pos hq, hf q (by simp), hq]
    · rw [if_neg hq] at hs
      rcases hi with ⟨p, hp, he⟩ | hi
      · rcases List.mem_cons.mp hp with rfl | hm
        · exact absurd he.symm hq
        · exact Or.inl ⟨p, hm, he⟩
      · exact Or.inr (hs.trans hi)

end Table

end CArray
