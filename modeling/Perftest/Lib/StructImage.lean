import Mathlib.Tactic

/-!
# The memory image of a structure

Members of given sizes at offsets that a layout fixes. Two programs that share the layout read from
an image what the other one stored into it.
-/

namespace StructImage

abbrev Image := Nat → UInt8

/-- Offsets for members of given sizes, inside of the structure and apart from one another. -/
structure Layout (ι : Type) (members : List (ι × Nat)) where
  size : Nat
  offset : ι → Nat
  inside : ∀ m ∈ members, offset m.1 + m.2 ≤ size
  apart : members.Pairwise fun m k => offset m.1 + m.2 ≤ offset k.1 ∨ offset k.1 + k.2 ≤ offset m.1

def zeros : Image := fun _ => 0

def store (m : Image) (a : Nat) (bytes : List UInt8) : Image :=
  fun x => if a ≤ x ∧ x < a + bytes.length then bytes.getD (x - a) 0 else m x

def load (m : Image) (a n : Nat) : List UInt8 := (List.range n).map fun i => m (a + i)

/-- The first bytes of an image, as they are sent, stored by the receiver. -/
def transfer (m : Image) (n : Nat) : Image := store zeros 0 (load m 0 n)

section Image

variable {m : Image} {a c n : Nat} {bytes : List UInt8}

@[simp] theorem load_length : (load m a n).length = n := by simp [load]

theorem load_congr {k : Image} (h : ∀ x, a ≤ x → x < a + n → m x = k x) :
    load m a n = load k a n := by
  apply List.map_congr_left
  intro i hi
  have := List.mem_range.mp hi
  exact h (a + i) (by omega) (by omega)

theorem load_store_same : load (store m a bytes) a bytes.length = bytes := by
  apply List.ext_getElem (by simp)
  intro i h1 h2
  have hin : a ≤ a + i ∧ a + i < a + bytes.length := by omega
  simp only [load, List.getElem_map, List.getElem_range, store, hin, and_self, if_true,
    Nat.add_sub_cancel_left]
  rw [List.getD_eq_getElem?_getD, List.getElem?_eq_getElem h2]
  rfl

theorem load_store_other (h : a + bytes.length ≤ c ∨ c + n ≤ a) :
    load (store m a bytes) c n = load m c n := by
  apply load_congr
  intro x h1 h2
  exact if_neg (by omega)

/-- A transfer keeps what lies inside of the bytes that are sent. -/
theorem load_transfer {size : Nat} (h : a + n ≤ size) : load (transfer m size) a n = load m a n := by
  apply load_congr
  intro x h1 h2
  have hx : x < size := by omega
  simp only [transfer, store, load_length, Nat.zero_le, Nat.zero_add, hx, and_self, if_true,
    Nat.sub_zero]
  rw [List.getD_eq_getElem?_getD, List.getElem?_eq_getElem (by rw [load_length]; exact hx)]
  simp [load]

end Image

section Pack

variable {ι : Type} {members : List (ι × Nat)} (L : Layout ι members) (values : ι → List UInt8)

/-- The members are stored one after the other. -/
def packFrom (l : List (ι × Nat)) (m : Image) : Image :=
  l.foldl (fun m x => store m (L.offset x.1) (values x.1)) m

def pack : Image := packFrom L values members zeros

variable {L values}

theorem packFrom_other {l : List (ι × Nat)} {m : Image} {c n : Nat}
    (hv : ∀ x ∈ l, (values x.1).length = x.2)
    (h : ∀ x ∈ l, L.offset x.1 + x.2 ≤ c ∨ c + n ≤ L.offset x.1) :
    load (packFrom L values l m) c n = load m c n := by
  induction l generalizing m with
  | nil => rfl
  | cons y l ih =>
    have hy : load (store m (L.offset y.1) (values y.1)) c n = load m c n := by
      apply load_store_other
      rw [hv y List.mem_cons_self]
      exact h y List.mem_cons_self
    rw [← hy]
    exact ih (fun x hx => hv x (List.mem_cons_of_mem _ hx))
      (fun x hx => h x (List.mem_cons_of_mem _ hx))

theorem load_packFrom {l : List (ι × Nat)} {m : Image}
    (hv : ∀ x ∈ l, (values x.1).length = x.2)
    (hp : l.Pairwise fun m k => L.offset m.1 + m.2 ≤ L.offset k.1 ∨
      L.offset k.1 + k.2 ≤ L.offset m.1) :
    ∀ x ∈ l, load (packFrom L values l m) (L.offset x.1) x.2 = values x.1 := by
  induction l generalizing m with
  | nil =>
    intro x hx
    cases hx
  | cons y l ih =>
    obtain ⟨hy, hrest⟩ := List.pairwise_cons.mp hp
    intro x hx
    rcases List.mem_cons.mp hx with rfl | hx
    · have hother : load (packFrom L values l (store m (L.offset x.1) (values x.1)))
          (L.offset x.1) x.2 = load (store m (L.offset x.1) (values x.1)) (L.offset x.1) x.2 := by
        apply packFrom_other (fun k hk => hv k (List.mem_cons_of_mem _ hk))
        intro k hk
        exact (hy k hk).symm
      refine hother.trans ?_
      conv_lhs => rw [← hv x List.mem_cons_self]
      exact load_store_same
    · exact ih (fun k hk => hv k (List.mem_cons_of_mem _ hk)) hrest x hx

/-- What the receiver of a packed structure reads from a member. -/
theorem load_pack_transfer (hv : ∀ x ∈ members, (values x.1).length = x.2) :
    ∀ x ∈ members, load (transfer (pack L values) L.size) (L.offset x.1) x.2 = values x.1 := by
  intro x hx
  rw [load_transfer (L.inside x hx)]
  exact load_packFrom hv L.apart x hx

end Pack

end StructImage
