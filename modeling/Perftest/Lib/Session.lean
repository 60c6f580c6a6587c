import Mathlib.Data.List.Basic
import Mathlib.Tactic.Ring

/-!
# Programs that exchange messages

A program writes a message or reads one of a size it names, and goes on with what it read. Two
programs are dual when each reads what the other writes.
-/

namespace Session

inductive Prog (ρ : Type) where
  | ret (r : ρ)
  | write (data : List UInt8) (k : Prog ρ)
  | read (size : Nat) (k : List UInt8 → Prog ρ)

namespace Prog

def bind {ρ τ : Type} : Prog ρ → (ρ → Prog τ) → Prog τ
  | ret r, f => f r
  | write data k, f => write data (k.bind f)
  | read size k, f => read size fun d => (k d).bind f

instance : Monad Prog where
  pure := ret
  bind := bind

end Prog

/-- `p` and `q` exchange `n` messages of at most `L` bytes, each read with the size it was written
with, and end with results in `P`. -/
inductive Dual {ρ τ : Type} (L : Nat) (P : ρ → τ → Prop) : Nat → Prog ρ → Prog τ → Prop
  | ret {a : ρ} {b : τ} (h : P a b) : Dual L P 0 (.ret a) (.ret b)
  | send {n size : Nat} {data : List UInt8} {k : Prog ρ} {k' : List UInt8 → Prog τ}
      (hs : data.length = size) (hl : size ≤ L) (h : Dual L P n k (k' data)) :
      Dual L P (n + 1) (.write data k) (.read size k')
  | recv {n size : Nat} {data : List UInt8} {k : List UInt8 → Prog ρ} {k' : Prog τ}
      (hs : data.length = size) (hl : size ≤ L) (h : Dual L P n (k data) k') :
      Dual L P (n + 1) (.read size k) (.write data k')

variable {ρ τ ρ' τ' : Type} {L : Nat} {P : ρ → τ → Prop} {Q : ρ' → τ' → Prop}

theorem Dual.symm {n : Nat} {p : Prog ρ} {q : Prog τ} (h : Dual L P n p q) :
    Dual L (fun b a => P a b) n q p := by
  induction h with
  | ret h => exact .ret h
  | send hs hl _ ih => exact .recv hs hl ih
  | recv hs hl _ ih => exact .send hs hl ih

/-- One exchange after the other. -/
theorem Dual.bind {n m : Nat} {p : Prog ρ} {q : Prog τ} {f : ρ → Prog ρ'} {g : τ → Prog τ'}
    (h : Dual L P n p q) (hk : ∀ a b, P a b → Dual L Q m (f a) (g b)) :
    Dual L Q (n + m) (p.bind f) (q.bind g) := by
  induction h with
  | ret h =>
    rw [Nat.zero_add]
    exact hk _ _ h
  | send hs hl _ ih =>
    rw [Nat.add_right_comm]
    exact .send hs hl ih
  | recv hs hl _ ih =>
    rw [Nat.add_right_comm]
    exact .recv hs hl ih

/-- `p` and `q` exchange messages and end with `a` and `b`. -/
def Matched (L : Nat) (a : ρ) (b : τ) (p : Prog ρ) (q : Prog τ) : Prop :=
  ∃ n, Dual L (fun x y => x = a ∧ y = b) n p q

namespace Matched

theorem ret (a : ρ) (b : τ) : Matched L a b (.ret a) (.ret b) := ⟨0, .ret ⟨rfl, rfl⟩⟩

theorem symm {a : ρ} {b : τ} {p : Prog ρ} {q : Prog τ} (h : Matched L a b p q) :
    Matched L b a q p := by
  obtain ⟨n, h⟩ := h
  refine ⟨n, ?_⟩
  have hs := h.symm
  simpa only [and_comm] using hs

theorem send {a : ρ} {b : τ} {size : Nat} {data : List UInt8} {k : Prog ρ}
    {k' : List UInt8 → Prog τ} (hs : data.length = size) (hl : size ≤ L)
    (h : Matched L a b k (k' data)) : Matched L a b (.write data k) (.read size k') := by
  obtain ⟨n, h⟩ := h
  exact ⟨n + 1, .send hs hl h⟩

theorem bind {a : ρ} {b : τ} {a' : ρ'} {b' : τ'} {p : Prog ρ} {q : Prog τ} {f : ρ → Prog ρ'}
    {g : τ → Prog τ'} (h : Matched L a b p q) (hk : Matched L a' b' (f a) (g b)) :
    Matched L a' b' (p.bind f) (q.bind g) := by
  obtain ⟨n, h⟩ := h
  obtain ⟨m, hk⟩ := hk
  refine ⟨n + m, h.bind ?_⟩
  rintro x y ⟨rfl, rfl⟩
  exact hk

/-- What a program makes of its result once the exchange is over. -/
theorem map_right {a : ρ} {b : τ} {p : Prog ρ} {q : Prog τ} (g : τ → τ')
    (h : Matched L a b p q) : Matched L a (g b) p (q.bind fun y => .ret (g y)) := by
  obtain ⟨n, h⟩ := h
  refine ⟨n, ?_⟩
  induction h with
  | ret hab =>
    obtain ⟨rfl, rfl⟩ := hab
    exact .ret ⟨rfl, rfl⟩
  | send hs hl _ ih => exact .send hs hl ih
  | recv hs hl _ ih => exact .recv hs hl ih

end Matched

end Session
