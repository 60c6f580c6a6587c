import Mathlib.Tactic

namespace EventQueue

/-- The channel of a completion queue. The first entry behind an arming makes an event, and the
queue stays disarmed until it is armed again. -/
structure Channel where
  armed : Bool
  events : Nat
deriving DecidableEq, Repr

namespace Channel

variable {c c' : Channel}

/-- An entry is added to the queue. -/
def entry (c : Channel) : Channel := if c.armed then ⟨false, c.events + 1⟩ else c

/-- An event is taken, and the queue is armed again; without an event the caller sleeps. -/
def wait (c : Channel) : Option Channel :=
  if c.events = 0 then none else some ⟨true, c.events - 1⟩

/-- The next entry wakes a sleeper, or an event does it already. -/
def Live (c : Channel) : Prop := c.armed = true ∨ 0 < c.events

theorem Live.entry (h : c.Live) : 0 < c.entry.events := by
  unfold Channel.entry
  split
  next => exact Nat.succ_pos _
  next hn => exact h.resolve_left hn

theorem wait_eq_some : c.wait = some c' ↔ 0 < c.events ∧ c' = ⟨true, c.events - 1⟩ := by
  unfold wait
  split
  next h => simp [h]
  next h =>
    rw [Option.some.injEq, eq_comm, iff_and_self]
    exact fun _ => Nat.pos_of_ne_zero h

theorem wait_eq_none : c.wait = none ↔ c.events = 0 := by
  unfold wait
  split
  next h => simp [h]
  next h => simp [h]

theorem events_entry_le (c : Channel) : c.entry.events ≤ c.events + 1 := by
  unfold entry
  split
  next => exact le_refl _
  next => exact Nat.le_succ _

end Channel

variable {n k : Nat} {c c' : Channel} {dry : Prop}

/-- A queue of `n` entries; where the last poll found it `dry` its reader may go to sleep. -/
structure Watched (n : Nat) (c : Channel) (dry : Prop) : Prop where
  live : c.Live
  woken : dry → 0 < n → 0 < c.events

namespace Watched

/-- A reader that sleeps beside entries has an event to wake it. -/
theorem wait_isSome (h : Watched n c dry) (hd : dry) (hn : 0 < n) : c.wait ≠ none := by
  rw [ne_eq, Channel.wait_eq_none]
  have := h.woken hd hn
  omega

theorem of_empty (h : c.Live) : Watched 0 c dry := ⟨h, fun _ hn => absurd hn (Nat.lt_irrefl 0)⟩

theorem entry (h : Watched n c dry) : Watched (n + 1) c.entry dry :=
  ⟨.inr h.live.entry, fun _ _ => h.live.entry⟩

theorem wait (hw : c.wait = some c') : Watched n c' False := by
  obtain ⟨-, rfl⟩ := Channel.wait_eq_some.mp hw
  exact ⟨.inl rfl, False.elim⟩

/-- A poll for at most `k` entries. -/
theorem poll (h : Watched n c dry) (hk : 0 < k) : Watched (n - k) c (min k n = 0) := by
  refine ⟨h.live, fun hd hn => ?_⟩
  omega

theorem mono {dry' : Prop} (h : Watched n c dry) (hd : dry' → dry) : Watched n c dry' :=
  ⟨h.live, fun hd' => h.woken (hd hd')⟩

end Watched

end EventQueue
