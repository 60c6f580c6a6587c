import Mathlib.Tactic

namespace CreditLink

/-- A channel with credits. At the counts with `Due` the receiver stores in a cell how many messages
it has received; each write of the cell is in flight with the value it fetched, and the writes reach
the sender in order. The sender keeps within `window` messages of the last credit. -/
structure Credited (window : Nat) (Due : Nat → Prop) (sent received cell credit : Nat)
    (wire : List Nat) : Prop where
  sent_le : sent ≤ credit + window
  sorted : (credit :: wire).Pairwise (· ≤ ·)
  le_cell : ∀ v ∈ credit :: wire, v ≤ cell
  due : ∀ v ∈ cell :: credit :: wire, Due v
  cell_le : cell ≤ received

variable {window sent received cell credit : Nat} {Due : Nat → Prop} {wire : List Nat}

namespace Credited

theorem start (h : Due 0) : Credited window Due 0 0 0 0 [] :=
  ⟨Nat.zero_le _, List.pairwise_singleton _ _, by simp, by simpa using h, le_rfl⟩

theorem send (h : Credited window Due sent received cell credit wire) {sent' : Nat}
    (hs : sent' ≤ credit + window) : Credited window Due sent' received cell credit wire :=
  ⟨hs, h.sorted, h.le_cell, h.due, h.cell_le⟩

theorem receive (h : Credited window Due sent received cell credit wire) :
    Credited window Due sent (received + 1) cell credit wire :=
  ⟨h.sent_le, h.sorted, h.le_cell, h.due, Nat.le_succ_of_le h.cell_le⟩

/-- The receiver stores its count. -/
theorem publish (h : Credited window Due sent received cell credit wire) (hd : Due received) :
    Credited window Due sent received received credit wire := by
  refine ⟨h.sent_le, h.sorted, fun v hv => le_trans (h.le_cell v hv) h.cell_le, ?_, le_rfl⟩
  intro v hv
  rcases List.mem_cons.mp hv with rfl | hv
  · exact hd
  · exact h.due v (List.mem_cons_of_mem _ hv)

/-- A write fetches the cell. -/
theorem fetch (h : Credited window Due sent received cell credit wire) :
    Credited window Due sent received cell credit (wire ++ [cell]) := by
  have hmem : ∀ v ∈ credit :: (wire ++ [cell]), v ∈ credit :: wire ∨ v = cell := by
    intro v hv
    rwa [← List.cons_append, List.mem_append, List.mem_singleton] at hv
  refine ⟨h.sent_le, ?_, fun v hv => ?_, fun v hv => ?_, h.cell_le⟩
  · rw [← List.cons_append, List.pairwise_append]
    refine ⟨h.sorted, List.pairwise_singleton _ _, fun v hv w hw => ?_⟩
    rw [List.mem_singleton.mp hw]
    exact h.le_cell v hv
  · obtain hv | rfl := hmem v hv
    · exact h.le_cell v hv
    · exact le_rfl
  · rcases List.mem_cons.mp hv with rfl | hv
    · exact h.due v List.mem_cons_self
    obtain hv | rfl := hmem v hv
    · exact h.due v (List.mem_cons_of_mem _ hv)
    · exact h.due v List.mem_cons_self

/-- The first write in flight reaches the sender. -/
theorem deliver {v : Nat} (h : Credited window Due sent received cell credit (v :: wire)) :
    Credited window Due sent received cell v wire := by
  have hle : credit ≤ v := List.rel_of_pairwise_cons h.sorted List.mem_cons_self
  refine ⟨le_trans h.sent_le (Nat.add_le_add_right hle _), h.sorted.of_cons,
    fun w hw => h.le_cell w (List.mem_cons_of_mem _ hw), fun w hw => h.due w ?_, h.cell_le⟩
  rcases List.mem_cons.mp hw with rfl | hw
  · exact List.mem_cons_self
  · exact List.mem_cons_of_mem _ (List.mem_cons_of_mem _ hw)

theorem credit_le (h : Credited window Due sent received cell credit wire) : credit ≤ received :=
  le_trans (h.le_cell _ List.mem_cons_self) h.cell_le

theorem credit_due (h : Credited window Due sent received cell credit wire) : Due credit :=
  h.due _ (List.mem_cons_of_mem _ List.mem_cons_self)

/-- A bound on what may be sent on each credit, and that grows with what was received, is a bound
on what is sent. -/
theorem sent_le_supply (h : Credited window Due sent received cell credit wire) {supply : Nat → Nat}
    (hm : Monotone supply) (hs : ∀ g, Due g → sent ≤ g + window → sent ≤ supply g) :
    sent ≤ supply received :=
  le_trans (hs credit h.credit_due h.sent_le) (hm h.credit_le)

end Credited

/-- The value of the last write, delivered or in flight. -/
def latest (credit : Nat) (wire : List Nat) : Nat := wire.getLastD credit

@[simp] theorem latest_nil : latest credit [] = credit := rfl

@[simp] theorem latest_append (v : Nat) : latest credit (wire ++ [v]) = v := by
  simp [latest]

@[simp] theorem latest_cons (v : Nat) : latest credit (v :: wire) = latest v wire := by
  simp [latest, List.getLast?_cons]

/-- The messages and the credit writes of a channel. Of the messages some are `queued` at the
receiver, of the writes `outstanding` ones the `acked` await their poll. The receiver `waits` from
the store of a count to the write. -/
structure Chan where
  sent : Nat
  arrived : Nat
  queued : Nat
  received : Nat
  cell : Nat
  outstanding : Nat
  unfetched : Nat
  wire : List Nat
  acked : Nat
  credit : Nat
  waits : Bool

def Chan.empty : Chan := ⟨0, 0, 0, 0, 0, 0, 0, [], 0, 0, false⟩

/-- What the two sides keep to: how far the sender goes past a credit, the counts it may reach, how
many messages the receiver is past its last credit, and its limit on outstanding writes. -/
structure Schedule where
  window : Nat
  sendable : Nat → Prop
  since : Nat → Nat
  limit : Nat

/-- The receiver counts up from each credit. -/
structure Schedule.Counts (k : Schedule) : Prop where
  zero : k.since 0 = 0
  succ : ∀ r, k.since (r + 1) = 0 ∨ k.since (r + 1) = k.since r + 1
  sendable_zero : k.sendable 0

/-- What holds of a channel between the steps. -/
structure Ok (k : Schedule) (v : Chan) : Prop where
  credited : Credited k.window (k.since · = 0) v.sent v.received v.cell v.credit v.wire
  latest : v.unfetched = 0 → v.waits = false → latest v.credit v.wire = v.cell
  received : v.received + v.queued = v.arrived
  arrived_le : v.arrived ≤ v.sent
  due : v.waits = true → k.since v.received = 0
  cell : v.cell + k.since v.received = v.received
  sendable : k.sendable v.sent
  outstanding : v.outstanding = v.unfetched + v.wire.length + v.acked
  outstanding_le : v.outstanding ≤ k.limit

namespace Ok

variable {k : Schedule} {v : Chan}

theorem start (hk : k.Counts) : Ok k Chan.empty where
  credited := Credited.start hk.zero
  latest _ _ := rfl
  received := rfl
  arrived_le := le_rfl
  due h := by cases h
  cell := by
    show 0 + k.since 0 = 0
    rw [hk.zero]
  sendable := hk.sendable_zero
  outstanding := rfl
  outstanding_le := Nat.zero_le _

theorem send (h : Ok k v) {n : Nat} (hw : v.sent + n ≤ v.credit + k.window)
    (hs : k.sendable (v.sent + n)) : Ok k { v with sent := v.sent + n } :=
  { h with
    credited := h.credited.send hw
    arrived_le := Nat.le_add_right_of_le h.arrived_le
    sendable := hs }

theorem arrive (h : Ok k v) (hlt : v.arrived < v.sent) :
    Ok k { v with arrived := v.arrived + 1, queued := v.queued + 1 } :=
  { h with
    received := by
      have := h.received
      dsimp only
      omega
    arrived_le := hlt }

/-- The receiver takes a message; where a credit is due it stores the count. -/
theorem receive (h : Ok k v) (hk : k.Counts) (hw : v.waits = false) (hq : 0 < v.queued)
    {w : Bool} (hd : w = true ↔ k.since (v.received + 1) = 0) :
    Ok k { v with
      queued := v.queued - 1
      received := v.received + 1
      cell := if w then v.received + 1 else v.cell
      waits := w } := by
  have hr := h.received
  have hc := h.cell
  cases w with
  | true =>
    have hz := hd.mp rfl
    exact { h with
      credited := h.credited.receive.publish hz
      latest := fun _ hn => by cases hn
      received := by
        dsimp only
        omega
      due := fun _ => hz
      cell := by
        dsimp only
        rw [hz, if_pos rfl, Nat.add_zero] }
  | false =>
    have hs : k.since (v.received + 1) = k.since v.received + 1 :=
      (hk.succ _).resolve_left fun hz => Bool.false_ne_true (hd.mpr hz)
    exact { h with
      credited := h.credited.receive
      latest := fun hu _ => h.latest hu hw
      received := by
        dsimp only
        omega
      due := fun hf => by cases hf
      cell := by
        dsimp only
        rw [hs, if_neg Bool.false_ne_true]
        omega }

theorem post (h : Ok k v) (hn : v.outstanding ≠ k.limit) :
    Ok k { v with outstanding := v.outstanding + 1, unfetched := v.unfetched + 1,
                  waits := false } := by
  have hc := h.outstanding
  have hle := h.outstanding_le
  exact { h with
    latest := fun hu => by cases hu
    due := fun hf => by cases hf
    outstanding := by
      dsimp only
      omega
    outstanding_le := by
      dsimp only
      omega }

theorem reap (h : Ok k v) {n : Nat} (hn : n ≤ v.acked) :
    Ok k { v with outstanding := v.outstanding - n, acked := v.acked - n } := by
  have hc := h.outstanding
  have hle := h.outstanding_le
  exact { h with
    outstanding := by
      dsimp only
      omega
    outstanding_le := by
      dsimp only
      omega }

theorem fetch (h : Ok k v) (hu : 0 < v.unfetched) :
    Ok k { v with unfetched := v.unfetched - 1, wire := v.wire ++ [v.cell] } := by
  have hc := h.outstanding
  exact { h with
    credited := h.credited.fetch
    latest := fun _ _ => latest_append _
    outstanding := by
      dsimp only
      rw [List.length_append, List.length_singleton]
      omega }

theorem deliver (h : Ok k v) {g : Nat} {rest : List Nat} (hwire : v.wire = g :: rest) :
    Ok k { v with wire := rest, acked := v.acked + 1, credit := g } := by
  have hc := h.outstanding
  have hl := h.credited
  have hlast := h.latest
  rw [hwire] at hl hlast
  rw [hwire, List.length_cons] at hc
  exact { h with
    credited := hl.deliver
    latest := fun hu hw => (latest_cons _).symm.trans (hlast hu hw)
    outstanding := by
      dsimp only
      omega }

theorem credit_le (h : Ok k v) : v.credit ≤ v.sent := by
  have hr := h.received
  have ha := h.arrived_le
  have hc := h.credited.credit_le
  omega

/-- Supplies that suffice for every credit suffice. -/
theorem sent_le (h : Ok k v) {supply : Nat → Nat} (hm : Monotone supply)
    (hs : ∀ g n, k.since g = 0 → k.sendable n → n ≤ g + k.window → n ≤ supply g) :
    v.sent ≤ supply v.received :=
  h.credited.sent_le_supply hm fun g hg hle => hs g v.sent hg h.sendable hle

/-- With all messages received and all writes delivered, only the messages since the last credit are
open. -/
theorem settled (h : Ok k v) (hu : v.unfetched = 0) (hwire : v.wire = []) (hwait : v.waits = false)
    (hq : v.queued = 0) (ha : v.arrived = v.sent) : v.sent - v.credit = k.since v.sent := by
  have hl := h.latest hu hwait
  rw [hwire, latest_nil] at hl
  have hr := h.received
  have hc := h.cell
  rw [show v.received = v.sent by omega] at hc
  omega

end Ok

/-- A count that steps of `n` reach lies a common divisor of `m` and `n` below the next multiple
of `m`. -/
theorem mod_add_gcd_le {m n k : Nat} (hm : 0 < m) (hn : n ∣ k) : k % m + Nat.gcd m n ≤ m := by
  have hg : Nat.gcd m n ∣ m - k % m := by
    refine Nat.dvd_sub (Nat.gcd_dvd_left m n) ?_
    exact (Nat.dvd_mod_iff (Nat.gcd_dvd_left m n)).mpr ((Nat.gcd_dvd_right m n).trans hn)
  have hlt := Nat.mod_lt k hm
  have hle := Nat.le_of_dvd (by omega) hg
  omega

end CreditLink
