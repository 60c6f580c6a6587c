import Mathlib.Algebra.Order.BigOperators.Group.Finset
import Mathlib.Tactic
import Perftest.Lib.Transition

namespace Restock

open Function

/-- A plan to serve each member `quota` items from its shelf: a member has `supply` items there at
first, and replaces used ones in lots until it has placed `quota`. -/
structure Plan (ι κ : Type*) where
  members : Finset ι
  shelf : ι → κ
  lot : Nat
  supply : Nat
  quota : Nat

/-- For each member its items on the shelf, those used and not replaced, those placed in all, and
what it was served. -/
structure Stock (ι : Type*) where
  out : ι → Nat
  unused : ι → Nat
  placed : ι → Nat
  got : ι → Nat

namespace Plan

variable {ι κ : Type*} [DecidableEq κ] (P : Plan ι κ)

def onShelf (s : Stock ι) (r : κ) : Nat := ∑ q ∈ P.members with P.shelf q = r, s.out q

/-- Every member has been served. -/
def Served (s : Stock ι) : Prop := ∀ p ∈ P.members, s.got p = P.quota

/-- Lots divide what they are counted against. -/
structure Sound : Prop where
  lot_pos : 0 < P.lot
  supply_pos : 0 < P.supply
  supply_dvd : P.lot ∣ P.supply
  quota_dvd : P.lot ∣ P.quota

/-- What was served from a shelf and what is left there is what was placed there. -/
def Balanced (s : Stock ι) : Prop :=
  ∀ r, P.onShelf s r + ∑ q ∈ P.members with P.shelf q = r, s.got q =
    ∑ q ∈ P.members with P.shelf q = r, s.placed q

/-- What holds after every item served. -/
structure Inv (s : Stock ι) : Prop where
  kept : ∀ q ∈ P.members, s.out q + s.unused q = P.supply
  lots : ∀ q ∈ P.members, P.lot ∣ s.placed q
  least : ∀ q ∈ P.members, P.supply ≤ s.placed q
  most : ∀ q ∈ P.members, s.placed q ≤ max P.supply P.quota
  full : ∀ q ∈ P.members, s.unused q < P.lot ∨ P.quota < s.placed q + P.lot
  served : ∀ q ∈ P.members, s.got q ≤ P.quota
  balance : P.Balanced s

variable {P} {s t : Stock ι} {p q : ι}

/-- A shelf has an item as long as one of its members waits for one. -/
theorem onShelf_pos (hP : P.Sound) (h : P.Inv s) (hp : p ∈ P.members) (hg : s.got p < P.quota) :
    0 < P.onShelf s (P.shelf p) := by
  by_contra hz
  have hzero : ∀ q ∈ P.members.filter (P.shelf · = P.shelf p), s.out q = 0 := by
    apply Finset.sum_eq_zero_iff.mp
    exact Nat.eq_zero_of_not_pos hz
  have hplaced : ∀ q ∈ P.members.filter (P.shelf · = P.shelf p), P.quota ≤ s.placed q := by
    intro q hq
    have hmem := (Finset.mem_filter.mp hq).1
    have hk := h.kept q hmem
    have hle := Nat.le_of_dvd hP.supply_pos hP.supply_dvd
    rw [hzero q hq] at hk
    have hlt : P.quota < s.placed q + P.lot := (h.full q hmem).resolve_left (by omega)
    obtain ⟨a, ha⟩ := h.lots q hmem
    obtain ⟨b, hb⟩ := hP.quota_dvd
    rw [ha, hb] at hlt ⊢
    rw [← Nat.mul_succ] at hlt
    exact Nat.mul_le_mul_left _ (Nat.lt_succ_iff.mp (Nat.lt_of_mul_lt_mul_left hlt))
  have hsum : ∑ q ∈ P.members with P.shelf q = P.shelf p, s.got q <
      ∑ q ∈ P.members with P.shelf q = P.shelf p, s.placed q := by
    refine Finset.sum_lt_sum (fun q hq => ?_) ⟨p, Finset.mem_filter.mpr ⟨hp, rfl⟩, ?_⟩
    · exact (h.served q (Finset.mem_filter.mp hq).1).trans (hplaced q hq)
    · exact hg.trans_le (hplaced p (Finset.mem_filter.mpr ⟨hp, rfl⟩))
  have hb := h.balance (P.shelf p)
  omega

theorem onShelf_le (h : P.Inv s) (r : κ) :
    P.onShelf s r ≤ (P.members.filter (P.shelf · = r)).card * P.supply := by
  apply Finset.sum_le_card_nsmul
  intro q hq
  have hk := h.kept q (Finset.mem_filter.mp hq).1
  omega

/-- What is left when all are served. -/
theorem onShelf_served (h : P.Inv s) (hs : P.Served s) (r : κ) :
    P.onShelf s r + (P.members.filter (P.shelf · = r)).card * P.quota =
      ∑ q ∈ P.members with P.shelf q = r, s.placed q := by
  rw [← h.balance r, Finset.sum_congr rfl fun q hq => hs q (Finset.mem_filter.mp hq).1,
    Finset.sum_const, smul_eq_mul]

theorem onShelf_eq_zero (h : P.Inv s) (hs : P.Served s) (hle : P.supply ≤ P.quota) (r : κ) :
    P.onShelf s r = 0 := by
  have hserved := onShelf_served h hs r
  have hplaced : ∑ q ∈ P.members with P.shelf q = r, s.placed q ≤
      (P.members.filter (P.shelf · = r)).card * P.quota := by
    apply Finset.sum_le_card_nsmul
    intro q hq
    exact (h.most q (Finset.mem_filter.mp hq).1).trans (max_le hle (le_refl _))
  omega

theorem onShelf_pos_of_served (h : P.Inv s) (hs : P.Served s) (hlt : P.quota < P.supply)
    (hp : p ∈ P.members) : 0 < P.onShelf s (P.shelf p) := by
  have hserved := onShelf_served h hs (P.shelf p)
  have hcard : 0 < (P.members.filter (P.shelf · = P.shelf p)).card :=
    Finset.card_pos.mpr ⟨p, Finset.mem_filter.mpr ⟨hp, rfl⟩⟩
  have hplaced : (P.members.filter (P.shelf · = P.shelf p)).card * P.supply ≤
      ∑ q ∈ P.members with P.shelf q = P.shelf p, s.placed q := by
    apply Finset.card_nsmul_le_sum
    intro q hq
    exact h.least q (Finset.mem_filter.mp hq).1
  have hmul := Nat.mul_lt_mul_of_pos_left hlt hcard
  omega

end Plan

section Moves

variable {ι : Type*} [DecidableEq ι]

/-- Member `p` is served an item of `q`. -/
def Stock.take (p q : ι) (s : Stock ι) : Stock ι :=
  { s with
    out := update s.out q (s.out q - 1)
    unused := update s.unused q (s.unused q + 1)
    got := update s.got p (s.got p + 1) }

/-- A lot of `q` goes on its shelf. -/
def Stock.replace (lot : Nat) (q : ι) (s : Stock ι) : Stock ι :=
  { s with
    out := update s.out q (s.out q + lot)
    unused := update s.unused q (s.unused q - lot)
    placed := update s.placed q (s.placed q + lot) }

/-- A change of one summand. -/
theorem sum_update_add {s : Finset ι} {f : ι → Nat} {i : ι} (hi : i ∈ s) (b : Nat) :
    ∑ x ∈ s, update f i b x + f i = ∑ x ∈ s, f x + b := by
  rw [Finset.sum_update_of_mem hi, Finset.sdiff_singleton_eq_erase, ← Finset.add_sum_erase s f hi]
  omega

end Moves

namespace Plan

variable {ι κ : Type*} [DecidableEq ι] [DecidableEq κ] (P : Plan ι κ)

/-- Each member puts its supply beside what is `left` of it and starts anew. -/
def fill (left : ι → Nat) : Stock ι where
  out q := if q ∈ P.members then left q + P.supply else left q
  unused _ := 0
  placed _ := P.supply
  got _ := 0

/-- A lot of `q` is due. -/
def due (q : ι) (s : Stock ι) : Bool := s.placed q + P.lot ≤ P.quota && P.lot ≤ s.unused q

def serve (p q : ι) (s : Stock ι) : Stock ι :=
  if P.due q (s.take p q) then (s.take p q).replace P.lot q else s.take p q

def act : ι × ι → Stock ι → Option (Stock ι)
  | (p, q), s =>
    if p ∈ P.members ∧ q ∈ P.members ∧ P.shelf p = P.shelf q ∧ 0 < s.out q ∧ s.got p < P.quota then
      some (P.serve p q s)
    else none

variable {P} {s t : Stock ι} {p q : ι}

theorem onShelf_fill {left : ι → Nat} (hl : ∀ q ∈ P.members, left q = 0) (r : κ) :
    P.onShelf (P.fill left) r = (P.members.filter (P.shelf · = r)).card * P.supply := by
  apply Finset.sum_const_nat
  intro q hq
  have hm := (Finset.mem_filter.mp hq).1
  simp only [fill, if_pos hm, hl q hm, Nat.zero_add]

theorem inv_fill {left : ι → Nat} (h : P.Sound) (hl : ∀ q ∈ P.members, left q = 0) :
    P.Inv (P.fill left) := by
  refine ⟨fun q hq => ?_, fun q _ => h.supply_dvd, fun q _ => le_refl _,
    fun q _ => le_max_left _ _, fun q _ => .inl h.lot_pos, fun q _ => Nat.zero_le _, fun r => ?_⟩
  · simp only [fill, if_pos hq, hl q hq, Nat.zero_add, Nat.add_zero]
  · rw [onShelf_fill hl]
    simp only [fill, Finset.sum_const_zero, Finset.sum_const, smul_eq_mul, Nat.add_zero]

theorem Balanced.take (hb : P.Balanced s) (hp : p ∈ P.members) (hq : q ∈ P.members)
    (hs : P.shelf p = P.shelf q) (ho : 0 < s.out q) : P.Balanced (s.take p q) := by
  intro r
  have hr := hb r
  unfold onShelf at hr ⊢
  unfold Stock.take
  dsimp only
  by_cases h : P.shelf q = r
  · have hq' : q ∈ P.members.filter (P.shelf · = r) := Finset.mem_filter.mpr ⟨hq, h⟩
    have hp' : p ∈ P.members.filter (P.shelf · = r) := Finset.mem_filter.mpr ⟨hp, hs.trans h⟩
    have hout := sum_update_add (f := s.out) hq' (s.out q - 1)
    have hgot := sum_update_add (f := s.got) hp' (s.got p + 1)
    omega
  · have hq' : q ∉ P.members.filter (P.shelf · = r) := fun hm => h (Finset.mem_filter.mp hm).2
    have hp' : p ∉ P.members.filter (P.shelf · = r) :=
      fun hm => h (hs.symm.trans (Finset.mem_filter.mp hm).2)
    rw [Finset.sum_update_of_notMem hq', Finset.sum_update_of_notMem hp']
    exact hr

theorem Balanced.replace (hb : P.Balanced s) (hq : q ∈ P.members) :
    P.Balanced (s.replace P.lot q) := by
  intro r
  have hr := hb r
  unfold onShelf at hr ⊢
  unfold Stock.replace
  dsimp only
  by_cases h : P.shelf q = r
  · have hq' : q ∈ P.members.filter (P.shelf · = r) := Finset.mem_filter.mpr ⟨hq, h⟩
    have hout := sum_update_add (f := s.out) hq' (s.out q + P.lot)
    have hplaced := sum_update_add (f := s.placed) hq' (s.placed q + P.lot)
    omega
  · have hq' : q ∉ P.members.filter (P.shelf · = r) := fun hm => h (Finset.mem_filter.mp hm).2
    rw [Finset.sum_update_of_notMem hq', Finset.sum_update_of_notMem hq']
    exact hr

/-- What one item served keeps. -/
theorem inv_serve (h : P.Inv s) (hp : p ∈ P.members) (hq : q ∈ P.members)
    (hs : P.shelf p = P.shelf q) (ho : 0 < s.out q) (hg : s.got p < P.quota) :
    P.Inv (P.serve p q s) := by
  have hbal := h.balance.take hp hq hs ho
  have hgot : ∀ x ∈ P.members, (s.take p q).got x ≤ P.quota := by
    intro x hx
    by_cases hxp : x = p
    · subst hxp
      simp only [Stock.take, update_self]
      exact hg
    · simp only [Stock.take, update_of_ne hxp]
      exact h.served x hx
  have hkept : ∀ x ∈ P.members, (s.take p q).out x + (s.take p q).unused x = P.supply := by
    intro x hx
    have hk := h.kept x hx
    by_cases hxq : x = q
    · subst hxq
      simp only [Stock.take, update_self]
      omega
    · simp only [Stock.take, update_of_ne hxq]
      exact hk
  unfold serve
  split
  next hdue =>
    obtain ⟨hroom, hlot⟩ : (s.take p q).placed q + P.lot ≤ P.quota ∧
        P.lot ≤ (s.take p q).unused q := by
      simpa only [due, Bool.and_eq_true, decide_eq_true_eq] using hdue
    refine ⟨fun x hx => ?_, fun x hx => ?_, fun x hx => ?_, fun x hx => ?_, fun x hx => ?_, hgot,
      hbal.replace hq⟩
    · have hk := hkept x hx
      by_cases hxq : x = q
      · subst hxq
        simp only [Stock.replace, update_self]
        omega
      · simp only [Stock.replace, update_of_ne hxq]
        exact hk
    · have hl : P.lot ∣ (s.take p q).placed x := h.lots x hx
      by_cases hxq : x = q
      · subst hxq
        simp only [Stock.replace, update_self]
        exact hl.add (dvd_refl P.lot)
      · simp only [Stock.replace, update_of_ne hxq]
        exact hl
    · have hl : P.supply ≤ (s.take p q).placed x := h.least x hx
      by_cases hxq : x = q
      · subst hxq
        simp only [Stock.replace, update_self]
        exact hl.trans (Nat.le_add_right _ _)
      · simp only [Stock.replace, update_of_ne hxq]
        exact hl
    · by_cases hxq : x = q
      · subst hxq
        simp only [Stock.replace, update_self]
        exact hroom.trans (le_max_right _ _)
      · simp only [Stock.replace, update_of_ne hxq]
        exact h.most x hx
    · have hf := h.full x hx
      by_cases hxq : x = q
      · subst hxq
        have hun : (s.take p x).unused x = s.unused x + 1 := update_self ..
        have hpl : (s.take p x).placed x = s.placed x := rfl
        simp only [Stock.replace, update_self, hun, hpl]
        omega
      · simp only [Stock.replace, update_of_ne hxq, Stock.take]
        exact hf
  next hdue =>
    refine ⟨hkept, h.lots, h.least, h.most, fun x hx => ?_, hgot, hbal⟩
    by_cases hxq : x = q
    · subst hxq
      have hno : ¬ ((s.take p x).placed x + P.lot ≤ P.quota ∧
          P.lot ≤ (s.take p x).unused x) := by
        simpa only [due, Bool.and_eq_true, decide_eq_true_eq] using hdue
      have hpl : (s.take p x).placed x = s.placed x := rfl
      omega
    · simp only [Stock.take, update_of_ne hxq]
      exact h.full x hx

theorem inv_act {a : ι × ι} (h : P.Inv s) (ha : P.act a s = some t) : P.Inv t := by
  obtain ⟨p, q⟩ := a
  obtain ⟨⟨hp, hq, hs, ho, hg⟩, he⟩ := Option.ite_none_right_eq_some.mp ha
  obtain rfl := Option.some.inj he
  exact inv_serve h hp hq hs ho hg

/-- Serving comes to an end with all served. -/
theorem exists_served (hP : P.Sound) (h : P.Inv s) :
    ∃ t, Relation.ReflTransGen (Transition.stepOf P.act) s t ∧ P.Inv t ∧ P.Served t := by
  apply Transition.exists_goal_of_measure (P := P.Inv)
    (fun s => ∑ p ∈ P.members, (P.quota - s.got p))
    (fun s t hi ⟨a, ha⟩ => inv_act hi ha) ?_ h
  intro s hi hno
  obtain ⟨p, hp, hne⟩ : ∃ p ∈ P.members, s.got p ≠ P.quota := by
    by_contra hall
    push Not at hall
    exact hno ⟨hi, hall⟩
  have hg : s.got p < P.quota := lt_of_le_of_ne (hi.served p hp) hne
  obtain ⟨q, hq, ho⟩ := Finset.exists_ne_zero_of_sum_ne_zero (onShelf_pos hP hi hp hg).ne'
  obtain ⟨hqm, hsh⟩ := Finset.mem_filter.mp hq
  refine ⟨P.serve p q s, .single ⟨(p, q), ?_⟩, ?_⟩
  · exact if_pos ⟨hp, hqm, hsh.symm, Nat.pos_of_ne_zero ho, hg⟩
  · have hgot : (P.serve p q s).got = update s.got p (s.got p + 1) := by
      unfold serve
      split <;> rfl
    apply Finset.sum_lt_sum
    · intro x hx
      rw [hgot]
      by_cases hxp : x = p
      · subst hxp
        rw [update_self]
        omega
      · rw [update_of_ne hxp]
    · refine ⟨p, hp, ?_⟩
      rw [hgot, update_self]
      omega

end Plan

end Restock
