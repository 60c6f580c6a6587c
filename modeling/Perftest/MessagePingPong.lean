import Perftest.MessageLatRuns

namespace Perftest

open WorkQueue SendConfig

namespace MsgSide

namespace Ok

variable {c : MessageLat} {x : LatPeer} {base : Nat} {a b : MsgSide}

theorem posts_eq (h : a.Ok c x base) : a.posts = a.scnt := by
  rw [posts, h.posted, List.length_map, List.length_range]

/-- The side that sends first is at most one message ahead of what it has received. -/
theorem initiator (h : a.Ok c x base) (hx : x = c.initiator) :
    a.got ≤ a.scnt ∧ a.scnt ≤ a.got + 1 ∧ (a.pc = .recv → a.scnt = a.got + 1) := by
  have hc := h.control
  unfold Control at hc
  rw [if_pos hx] at hc
  cases hpc : a.pc <;> simp only [hpc] at hc <;> simp <;> omega

/-- The other side is never ahead. -/
theorem responder (h : a.Ok c x base) (hx : x ≠ c.initiator) :
    a.scnt ≤ a.got ∧ a.got ≤ a.scnt + 1 ∧ (a.pc = .recv → a.scnt = a.got ∧ a.got < c.iters) := by
  have hc := h.control
  unfold Control at hc
  rw [if_neg hx] at hc
  cases hpc : a.pc <;> simp only [hpc] at hc <;> simp <;> omega

theorem done_counts (h : a.Ok c x base) (hpc : a.pc = .done) :
    a.scnt = c.iters ∧ a.got = c.iters := by
  have hc := h.control
  unfold Control at hc
  simp only [hpc, ite_self] at hc
  exact hc

theorem counters (h : a.Ok c x base) : a.scnt ≤ a.rcnt + 1 ∧ a.rcnt ≤ a.scnt + 1 := by
  have hr := h.rcnt
  by_cases hx : x = c.initiator
  · obtain ⟨h1, h2, h3⟩ := h.initiator hx
    split at hr
    next hp =>
      have := h3 hp.2
      omega
    next => omega
  · obtain ⟨h1, h2, h3⟩ := h.responder hx
    split at hr
    next hp =>
      have := h3 hp.2
      omega
    next => omega

theorem countP_posted (h : a.Ok c x base) :
    (a.dev.posted 0).countP (fun r => (msgCqe r).isSome) = (c.schedule x).signals a.scnt := by
  have hf : ((fun r => (msgCqe r).isSome) ∘ (c.schedule x).signaledAt) =
      (c.schedule x).signaledAt := by
    funext k
    rw [Function.comp_apply]
    cases (c.schedule x).signaledAt k <;> rfl
  rw [h.posted, List.countP_map, hf, countP_signaledAt (c.schedule_sound x) h.within]

/-- The send queue has room for all sends that are not known complete. -/
theorem outstanding_le (h : a.Ok c x base) :
    (a.dev.outstanding msgCqe 0).length ≤ (c.peer x).txDepth := by
  have hs := c.schedule_sound x
  have hl : (a.dev.posted 0).filter (fun _ => true) =
      (List.range a.scnt).map (c.schedule x).signaledAt := by
    rw [List.filter_true, h.posted]
  obtain ⟨m, hm, hc⟩ := h.fifo.outstanding_labelled (fun _ _ => rfl) hl
  have hf : (fun k => (msgCqe ((c.schedule x).signaledAt k)).isSome) =
      (c.schedule x).signaledAt := by
    funext k
    cases (c.schedule x).signaledAt k <;> rfl
  have hle := h.counts_le.1
  rw [hf, countP_signaledAt hs fun _ => le_trans (by omega) hle] at hc
  rw [List.countP_true] at hm
  have hp := h.polled
  have hq := hs.cqMod_le
  have htx : (c.schedule x).txDepth = (c.peer x).txDepth := rfl
  rw [htx] at hq
  cases ho : a.owes c with
  | false =>
    rw [ho, if_neg Bool.false_ne_true, Nat.add_zero] at hp
    have := sub_lt_of_signals_eq hs (show m ≤ a.scnt by omega) h.within (hc.trans hp)
    omega
  | true =>
    rw [ho, if_pos rfl] at hp
    obtain ⟨k, hk, hsig⟩ := h.owes_last ho
    have hw : (c.schedule x).Within (k + 1) := hk ▸ h.within
    have hsucc := signals_succ hs hw
    rw [hsig, if_pos rfl, ← hk] at hsucc
    have hmk : m ≤ k := by
      by_contra hgt
      have : m = a.scnt := by omega
      rw [this] at hc
      omega
    have := sub_lt_of_signals_eq hs hmk (fun ht => Nat.le_of_succ_le (hw ht)) (by omega)
    omega

/-- At the end of the call every completion was polled. -/
theorem done_polled (h : a.Ok c x base) (hpc : a.pc = .done) : a.dev.cq = [] ∧
    (a.dev.polled 0).length = (a.dev.posted 0).countP id := by
  have ho := h.owes_eq_false (by simp [hpc])
  have hp := h.polled
  rw [ho, if_neg Bool.false_ne_true, Nat.add_zero, ← h.countP_posted] at hp
  have he := h.fifo.entries_le 0
  refine ⟨Device.pending_eq_nil_iff.mp fun q => ?_, ?_⟩
  · by_cases hq : q = 0
    · subst hq
      exact List.length_eq_zero_iff.mp (by omega)
    · have hz := h.fifo.entries_le q
      rw [h.idle q hq, List.countP_nil] at hz
      exact List.length_eq_zero_iff.mp (by omega)
  · rw [hp]
    refine List.countP_congr fun r _ => ?_
    cases r <;> simp [msgCqe]

theorem sideLeft_head (c : MessageLat) (hpc : a.pc = .head)
    (hn : ¬ (a.scnt = c.iters ∧ a.got = c.iters)) :
    c.sideLeft a = 10 * (c.iters - a.scnt) + 10 * (c.iters - a.got) + 5 := by
  simp [MessageLat.sideLeft, MessageLat.finished, hpc, hn]

theorem sideLeft_head_le (c : MessageLat) (hpc : b.pc = .head) :
    c.sideLeft b ≤ 10 * (c.iters - b.scnt) + 10 * (c.iters - b.got) + 5 := by
  simp only [MessageLat.sideLeft, hpc]
  split <;> omega

theorem sideLeft_reap_le (c : MessageLat) (hpc : b.pc = .reap) :
    c.sideLeft b ≤ 10 * (c.iters - b.scnt) + 10 * (c.iters - b.got) + 6 := by
  simp only [MessageLat.sideLeft, hpc]
  split <;> omega

/-- Behind the poll the loop is one step further. -/
theorem sideLeft_reaped (c : MessageLat) (hpc : a.pc = .reap) (hpc' : b.pc = .head)
    (hs : b.scnt = a.scnt) (hg : b.got = a.got) : c.sideLeft b < c.sideLeft a := by
  simp only [MessageLat.sideLeft, MessageLat.finished, hpc, hpc', hs, hg]
  by_cases hf : a.scnt = c.iters ∧ a.got = c.iters <;> simp [hf]

/-- What a step of the loop changes for the other side and for the measure of the run. -/
def Advances (c : MessageLat) (a b : MsgSide) : Prop :=
  b.arrived = a.arrived ∧ b.dev.completed = a.dev.completed ∧ a.scnt ≤ b.scnt ∧
    c.sideLeft b + 2 * b.scnt < c.sideLeft a + 2 * a.scnt

theorem advances_head (hpc : a.pc = .head) (hn : ¬ (a.scnt = c.iters ∧ a.got = c.iters))
    {rcnt : Nat} {pc : MsgPc} (hpc' : pc = .recv ∨ pc = .send) :
    Advances c a { a with rcnt := rcnt, pc := pc } := by
  refine ⟨rfl, rfl, le_refl _, ?_⟩
  rw [sideLeft_head c hpc hn]
  rcases hpc' with rfl | rfl <;> simp only [MessageLat.sideLeft] <;> omega

theorem advances_end (hpc : a.pc = .head) : Advances c a { a with pc := .done } := by
  refine ⟨rfl, rfl, le_refl _, ?_⟩
  simp only [MessageLat.sideLeft, hpc]
  split <;> omega

theorem advances_receive (h : a.Ok c x base) (hpc : a.pc = .recv) (rcnt : Nat) :
    Advances c a (a.takeReceive c x rcnt) := by
  refine ⟨rfl, rfl, le_refl _, ?_⟩
  have hlt : a.got < c.iters := by
    by_cases hx : x = c.initiator
    · have := (h.initiator hx).2.2 hpc
      have := h.counts_le
      omega
    · exact ((h.responder hx).2.2 hpc).2
  simp only [MessageLat.sideLeft, MsgSide.takeReceive, hpc]
  omega

theorem advances_post (hpc : a.pc = .send) (hlt : a.scnt < c.iters) {poll signaled : Bool} :
    Advances c a ({ a with poll := poll, signaled := signaled }.postSend) := by
  refine ⟨rfl, rfl, Nat.le_succ _, ?_⟩
  have hle := sideLeft_reap_le c
    (show ({ a with poll := poll, signaled := signaled }.postSend).pc = .reap from rfl)
  have hsend : c.sideLeft a = 10 * (c.iters - a.scnt) + 10 * (c.iters - a.got) + 3 := by
    simp only [MessageLat.sideLeft, hpc]
  simp only [MsgSide.postSend] at hle ⊢
  omega

theorem advances_skip (hpc : a.pc = .send) (hf : a.scnt = c.iters ∧ a.got = c.iters) {pc : MsgPc}
    (hpc' : pc = .head ∨ pc = .reap) : Advances c a { a with pc := pc } := by
  refine ⟨rfl, rfl, le_refl _, ?_⟩
  rcases hpc' with rfl | rfl <;>
    simp [MessageLat.sideLeft, MessageLat.finished, hpc, hf.1, hf.2]

theorem advances_reap (hpc : a.pc = .reap) (hpc' : b.pc = .head) (ha : b.arrived = a.arrived)
    (hc : b.dev.completed = a.dev.completed) (hs : b.scnt = a.scnt) (hg : b.got = a.got) :
    Advances c a b :=
  ⟨ha, hc, le_of_eq hs.symm, by
    have := sideLeft_reaped c hpc hpc' hs hg
    omega⟩

/-- At its send a side has sent everything only when it has received everything. -/
theorem send_finished (h : a.Ok c x base) (hpc : a.pc = .send) (hge : ¬ a.scnt < c.iters) :
    a.scnt = c.iters ∧ a.got = c.iters := by
  have hc := h.control
  have hle := h.counts_le
  unfold Control at hc
  simp only [hpc] at hc
  split at hc <;> omega

theorem advances_send (h : a.Ok c x base) (hw : c.writeImm = false)
    (ha : a.runIterLatSend c x = some b) : Advances c a b := by
  have hr : a.rcnt = a.got := by
    have := h.rcnt
    simpa [hw] using this
  unfold MsgSide.runIterLatSend at ha
  cases hpc : a.pc with
  | head =>
    simp only [hpc] at ha
    split at ha
    next hloop =>
      have hn : ¬ (a.scnt = c.iters ∧ a.got = c.iters) := by omega
      split at ha
      next =>
        obtain rfl := Option.some.inj ha
        exact advances_head hpc hn (Or.inl rfl)
      next =>
        obtain rfl := Option.some.inj ha
        exact advances_head hpc hn (Or.inr rfl)
    next =>
      obtain rfl := Option.some.inj ha
      exact advances_end hpc
  | recv =>
    simp only [hpc, Option.ite_none_right_eq_some, Option.some.injEq] at ha
    obtain ⟨-, rfl⟩ := ha
    exact h.advances_receive hpc _
  | send =>
    simp only [hpc] at ha
    split at ha
    next hlt =>
      split at ha
      next =>
        obtain rfl := Option.some.inj ha
        exact advances_post hpc hlt
      next =>
        obtain rfl := Option.some.inj ha
        exact advances_post hpc hlt
    next hge =>
      obtain rfl := Option.some.inj ha
      exact advances_skip hpc (h.send_finished hpc hge) (Or.inl rfl)
  | reap =>
    simp only [hpc] at ha
    split at ha
    next =>
      split at ha
      next =>
        obtain rfl := Option.some.inj ha
        exact advances_reap hpc rfl rfl rfl rfl rfl
      next => cases ha
    next =>
      obtain rfl := Option.some.inj ha
      exact advances_reap hpc rfl rfl rfl rfl rfl
  | done => simp [hpc] at ha

theorem advances_writeImm (h : a.Ok c x base) (hw : c.writeImm = true)
    (ha : a.runIterLatWriteImm c x = some b) : Advances c a b := by
  have hr := h.rcnt
  unfold MsgSide.runIterLatWriteImm at ha
  cases hpc : a.pc with
  | head =>
    have ho := h.owes_eq_false (by simp [hpc])
    have hcc := h.ccnt hw
    simp only [owes, hw, if_true, decide_eq_false_iff_not] at ho
    simp only [hpc, reduceCtorEq, and_false, if_false] at ha hr
    split at ha
    next hloop =>
      have hn : ¬ (a.scnt = c.iters ∧ a.got = c.iters) := by omega
      split at ha
      next =>
        obtain rfl := Option.some.inj ha
        exact advances_head hpc hn (Or.inl rfl)
      next =>
        obtain rfl := Option.some.inj ha
        exact advances_head hpc hn (Or.inr rfl)
    next =>
      obtain rfl := Option.some.inj ha
      exact advances_end hpc
  | recv =>
    simp only [hpc, Option.ite_none_right_eq_some, Option.some.injEq] at ha
    obtain ⟨-, rfl⟩ := ha
    exact h.advances_receive hpc _
  | send =>
    simp only [hpc] at ha
    split at ha
    next hlt =>
      obtain rfl := Option.some.inj ha
      exact advances_post hpc hlt
    next hge =>
      obtain rfl := Option.some.inj ha
      exact advances_skip hpc (h.send_finished hpc hge) (Or.inr rfl)
  | reap =>
    simp only [hpc] at ha
    split at ha
    next =>
      split at ha
      next =>
        obtain rfl := Option.some.inj ha
        exact advances_reap hpc rfl rfl rfl rfl rfl
      next => cases ha
    next =>
      obtain rfl := Option.some.inj ha
      exact advances_reap hpc rfl rfl rfl rfl rfl
  | done => simp [hpc] at ha

theorem run_advances (h : a.Ok c x base) (ha : a.run c x = some b) : Advances c a b := by
  unfold MsgSide.run at ha
  split at ha
  next hw => exact h.advances_writeImm hw ha
  next hw => exact h.advances_send (by simpa using hw) ha

/-- A side whose completions are all there is stuck only behind its end or for want of a message. -/
theorem stuck (h : a.Ok c x base) (hdev : a.dev.completed 0 = (a.dev.posted 0).length)
    (ha : a.run c x = none) : a.pc = .done ∨ a.pc = .recv ∧ a.arrived = a.got := by
  have hg := h.got_le
  have hcq : a.owes c = true → a.dev.cq ≠ [] := by
    intro ho hnil
    have hp := h.polled
    have he := h.fifo.entries_eq hdev
    rw [ho, if_pos rfl] at hp
    rw [h.countP_posted, Device.pending_eq_nil_iff.mpr hnil, List.length_nil] at he
    omega
  unfold MsgSide.run at ha
  cases hpc : a.pc with
  | done => exact Or.inl rfl
  | recv =>
    have hlt : ¬ a.got < a.arrived := by
      intro hlt
      split at ha <;>
        simp [MsgSide.runIterLatSend, MsgSide.runIterLatWriteImm, hpc, hlt] at ha
    exact Or.inr ⟨rfl, by omega⟩
  | head =>
    split at ha <;> simp only [MsgSide.runIterLatSend, MsgSide.runIterLatWriteImm, hpc] at ha <;>
      split at ha
    · split at ha <;> cases ha
    · cases ha
    · split at ha <;> cases ha
    · cases ha
  | send =>
    split at ha <;> simp only [MsgSide.runIterLatSend, MsgSide.runIterLatWriteImm, hpc] at ha <;>
      split at ha
    · cases ha
    · cases ha
    · split at ha <;> cases ha
    · cases ha
  | reap =>
    split at ha
    next hw =>
      simp only [MsgSide.runIterLatWriteImm, hpc] at ha
      split at ha
      next hlt =>
        split at ha
        next => cases ha
        next hnil => exact absurd hnil (hcq (h.reap_owes hpc hw hlt))
      next => cases ha
    next hw =>
      simp only [MsgSide.runIterLatSend, hpc] at ha
      split at ha
      next hpoll =>
        split at ha
        next => cases ha
        next hnil => exact absurd hnil (hcq (by simpa [owes, hw] using hpoll))
      next => cases ha

end Ok

end MsgSide

theorem MessageLat.other_eq_initiator (c : MessageLat) {x : LatPeer} (hx : x ≠ c.initiator) :
    x.other = c.initiator := by
  cases x <;> cases hi : c.initiator <;> simp [hi, LatPeer.other] at hx ⊢

/-- What holds of the two sides together: no more messages have arrived than were sent. -/
structure MsgInv (c : MessageLat) (s : MsgState) : Prop where
  call_lt : s.call < c.calls
  sides : ∀ x, (s.side x).Ok c x (c.supply x)
  arrived_le : ∀ x, (s.side x).arrived ≤ (s.side x.other).scnt

namespace MsgInv

variable {c : MessageLat} {s t : MsgState}

theorem init (c : MessageLat) : MsgInv c ⟨0, fun x => c.start x 0⟩ where
  call_lt := c.calls_pos
  sides x := by simpa using MsgSide.Ok.start c x 0
  arrived_le _ := Nat.zero_le _

/-- A side receives at most one message less than the other has sent. -/
theorem sent_le (h : MsgInv c s) (x : LatPeer) :
    (s.side x.other).scnt ≤ (s.side x).got + 1 := by
  have hx := h.sides x
  have hy := h.sides x.other
  have hg := hy.got_le
  have ha := h.arrived_le x.other
  rw [LatPeer.other_other] at ha
  by_cases hi : x = c.initiator
  · have := hx.initiator hi
    have := hy.responder (fun hxi => LatPeer.other_ne x (hxi.trans hi.symm))
    omega
  · have := hx.responder hi
    have := hy.initiator (c.other_eq_initiator hi)
    omega

theorem arrivals (h : MsgInv c s) (hs : ∀ x, c.Supplied x) (x : LatPeer)
    (hlt : (s.side x).arrived < (s.side x.other).scnt) : 0 < (s.side x).rq := by
  have hr := (h.sides x).receives
  have hg := (h.sides x).got_le
  have hle := (h.sides x.other).counts_le.1
  have hsent := h.sent_le x
  have h1 := (hs x).1
  rw [(hs x).sizePerQp_eq] at hr
  omega

theorem receives (h : MsgInv c s) (hs : ∀ x, c.Supplied x) (x : LatPeer) :
    (s.side x).rq ≤ (c.peer x).rxDepth := by
  have hr := (h.sides x).receives
  have hg := (h.sides x).got_le
  have := (hs x).supply_le
  omega

theorem waits (h : MsgInv c s) (x : LatPeer) (hw : MessageLat.WaitsForPeer s x) :
    ¬ MessageLat.WaitsForPeer s x.other ∧ (s.side x.other).pc ≠ .done := by
  obtain ⟨hpc, hgot⟩ := hw
  have hx := h.sides x
  have hy := h.sides x.other
  rw [hy.posts_eq] at hgot
  have hgx := hx.got_le
  have hax := h.arrived_le x
  have hlt : (s.side x).got < c.iters := by
    by_cases hi : x = c.initiator
    · have := (hx.initiator hi).2.2 hpc
      have := hx.counts_le
      omega
    · exact ((hx.responder hi).2.2 hpc).2
  refine ⟨fun hw' => ?_, fun hd => ?_⟩
  · obtain ⟨hpc', hgot'⟩ := hw'
    rw [LatPeer.other_other, hx.posts_eq] at hgot'
    have hgy := hy.got_le
    have hay := h.arrived_le x.other
    rw [LatPeer.other_other] at hay
    by_cases hi : x = c.initiator
    · have := (hx.initiator hi).2.2 hpc
      have := (hy.responder fun hxi => LatPeer.other_ne x (hxi.trans hi.symm)).2.2 hpc'
      omega
    · have := (hx.responder hi).2.2 hpc
      have := (hy.initiator (c.other_eq_initiator hi)).2.2 hpc'
      omega
  · have := hy.done_counts hd
    omega

/-- One side moves. -/
theorem update (h : MsgInv c s) {x : LatPeer} {a : MsgSide} (ha : a.Ok c x (c.supply x))
    (harr : a.arrived ≤ (s.side x.other).scnt) (hscnt : (s.side x).scnt ≤ a.scnt) :
    MsgInv c { s with side := Function.update s.side x a } := by
  refine ⟨h.call_lt, fun y => ?_, fun y => ?_⟩
  · by_cases hy : y = x
    · subst hy
      simpa using ha
    · simpa [hy] using h.sides y
  · by_cases hy : y = x
    · subst hy
      simpa [LatPeer.other_ne] using harr
    · have hyx : y.other = x := by cases x <;> cases y <;> simp [LatPeer.other] at hy ⊢
      have := h.arrived_le y
      rw [hyx] at this
      simpa [hy, hyx] using le_trans this hscnt

theorem run (h : MsgInv c s) {x : LatPeer} {a : MsgSide} (ha : (s.side x).run c x = some a) :
    MsgInv c { s with side := Function.update s.side x a } := by
  obtain ⟨harr, -, hscnt, -⟩ := (h.sides x).run_advances ha
  exact h.update ((h.sides x).run ha) (harr ▸ h.arrived_le x) hscnt

theorem complete (h : MsgInv c s) {x : LatPeer} {a : MsgSide}
    (ha : (s.side x).complete = some a) :
    MsgInv c { s with side := Function.update s.side x a } := by
  have hok := (h.sides x).complete ha
  obtain ⟨r, -, rfl⟩ := Option.map_eq_some_iff.mp ha
  exact h.update hok (h.arrived_le x) (le_refl _)

theorem arrive (h : MsgInv c s) {x : LatPeer} {a : MsgSide}
    (ha : (s.side x).arrive (s.side x.other).posts = some a) :
    MsgInv c { s with side := Function.update s.side x a } := by
  have hok := (h.sides x).arrive ha
  unfold MsgSide.arrive at ha
  rw [(h.sides x.other).posts_eq] at ha
  obtain ⟨hlt, rfl⟩ := Option.ite_none_right_eq_some.mp ha |>.imp_right Option.some.inj
  exact h.update hok hlt.1 (le_refl _)

/-- Behind a call no receives are left over, unless it is the only one. -/
theorem left_over (h : MsgInv c s) (hs : ∀ x, c.Supplied x) (hcall : s.call + 1 < c.calls)
    (hd : ∀ x, (s.side x).pc = .done) (x : LatPeer) : (s.side x).rq = 0 := by
  have hr := (h.sides x).receives
  have hg := (h.sides x).got_le
  have ha := h.arrived_le x
  have hx := (h.sides x).done_counts (hd x)
  have hy := (h.sides x.other).done_counts (hd x.other)
  have hle := (hs x).2.resolve_left (by omega)
  rw [(hs x).sizePerQp_eq] at hr
  omega

theorem done_both (hd : (s.side .client).pc = .done ∧ (s.side .server).pc = .done) (x : LatPeer) :
    (s.side x).pc = .done := by
  cases x with
  | client => exact hd.1
  | server => exact hd.2

theorem step (h : MsgInv c s) (hs : ∀ x, c.Supplied x) (ht : Transition.stepOf c.act s t) :
    MsgInv c t := by
  obtain ⟨a, ha⟩ := ht
  cases a with
  | run x =>
    obtain ⟨b, hb, rfl⟩ := Option.map_eq_some_iff.mp ha
    exact h.run hb
  | complete x =>
    obtain ⟨b, hb, rfl⟩ := Option.map_eq_some_iff.mp ha
    exact h.complete hb
  | arrive x =>
    obtain ⟨b, hb, rfl⟩ := Option.map_eq_some_iff.mp ha
    exact h.arrive hb
  | nextCall =>
    obtain ⟨⟨hcall, hd⟩, rfl⟩ :=
      Option.ite_none_right_eq_some.mp ha |>.imp_right Option.some.inj
    refine ⟨hcall, fun x => ?_, fun x => Nat.zero_le _⟩
    have hz := h.left_over hs hcall (done_both hd) x
    have hok := MsgSide.Ok.start c x (s.side x).rq
    rw [hz, Nat.zero_add] at hok
    change (c.start x (s.side x).rq).Ok c x (c.supply x)
    rw [hz]
    exact hok

theorem of_reachable (hs : ∀ x, c.Supplied x) (hr : c.Reachable s) : MsgInv c s := by
  refine Transition.Reachable.invariant (fun s hi => ?_) (fun s t h ht => h.step hs ht) hr
  rw [hi]
  exact init c

/-- The two sides are never both stuck before the end of the last call. -/
theorem progress (h : MsgInv c s) (hs : ∀ x, c.Supplied x) (hn : ∀ a, c.act a s = none) :
    s.call + 1 = c.calls ∧ ∀ x, (s.side x).pc = .done := by
  have hstuck : ∀ x, (s.side x).pc = .done ∨ MessageLat.WaitsForPeer s x := by
    intro x
    have hdev : (s.side x).dev.completed 0 = ((s.side x).dev.posted 0).length := by
      have hb := (h.sides x).fifo.bound 0
      have hc := Option.map_eq_none_iff.mp (hn (.complete x))
      have := List.getElem?_eq_none_iff.mp (Option.map_eq_none_iff.mp hc)
      omega
    have harr : (s.side x).arrived = (s.side x.other).scnt := by
      have hle := h.arrived_le x
      have ha := Option.map_eq_none_iff.mp (hn (.arrive x))
      unfold MsgSide.arrive at ha
      rw [(h.sides x.other).posts_eq] at ha
      by_contra hne
      have hlt : (s.side x).arrived < (s.side x.other).scnt := by omega
      rw [if_pos ⟨hlt, h.arrivals hs x hlt⟩] at ha
      cases ha
    rcases (h.sides x).stuck hdev (Option.map_eq_none_iff.mp (hn (.run x))) with hd | ⟨hpc, hg⟩
    · exact Or.inl hd
    · exact Or.inr ⟨hpc, by rw [(h.sides x.other).posts_eq]; omega⟩
  have hd : ∀ x, (s.side x).pc = .done := by
    intro x
    rcases hstuck x with hd | hw
    · exact hd
    · have hx := h.waits x hw
      rcases hstuck x.other with hd | hw'
      · exact absurd hd hx.2
      · exact absurd hw' hx.1
  refine ⟨?_, hd⟩
  have hnext := hn .nextCall
  simp only [MessageLat.act, hd, and_self, and_true, ite_eq_right_iff] at hnext
  have := h.call_lt
  by_contra hne
  have := hnext (by omega)
  cases this

theorem start_left (c : MessageLat) (x : LatPeer) (left : Nat) :
    c.sideLeft (c.start x left) ≤ 20 * c.iters + 5 := by
  have := MsgSide.Ok.sideLeft_head_le c (show (c.start x left).pc = .head from rfl)
  simp only [MessageLat.start] at this ⊢
  omega

/-- The measure, as one of the sides sees it. -/
theorem stepsLeft_eq (c : MessageLat) (s : MsgState) (x : LatPeer) : c.stepsLeft s =
    (44 * c.iters + 20) * (c.calls - s.call) + (c.sideLeft (s.side x) +
      c.sideLeft (s.side x.other)) + ((s.side x).posts - (s.side x).dev.completed 0) +
      ((s.side x.other).posts - (s.side x.other).dev.completed 0) +
      ((s.side x).posts - (s.side x.other).arrived) +
      ((s.side x.other).posts - (s.side x).arrived) := by
  unfold MessageLat.stepsLeft
  cases x with
  | client => rfl
  | server =>
    simp only [LatPeer.other]
    ring

theorem stepsLeft_update (h : MsgInv c s) {x : LatPeer} {a : MsgSide} (hp : a.posts = a.scnt)
    (hlt : c.sideLeft a + (a.scnt - a.dev.completed 0) + (a.scnt - (s.side x.other).arrived) +
        ((s.side x.other).scnt - a.arrived) <
      c.sideLeft (s.side x) + ((s.side x).scnt - (s.side x).dev.completed 0) +
        ((s.side x).scnt - (s.side x.other).arrived) +
        ((s.side x.other).scnt - (s.side x).arrived)) :
    c.stepsLeft { s with side := Function.update s.side x a } < c.stepsLeft s := by
  rw [stepsLeft_eq c _ x, stepsLeft_eq c s x]
  dsimp only
  rw [Function.update_self, Function.update_of_ne (LatPeer.other_ne x), hp,
    (h.sides x).posts_eq, (h.sides x.other).posts_eq]
  omega

/-- No run goes on for ever. -/
theorem decreasing (h : MsgInv c s) {a : MsgAction} (ha : c.act a s = some t) :
    c.stepsLeft t < c.stepsLeft s := by
  cases a with
  | run x =>
    obtain ⟨b, hb, rfl⟩ := Option.map_eq_some_iff.mp ha
    obtain ⟨harr, hcomp, hscnt, hleft⟩ := (h.sides x).run_advances hb
    refine h.stepsLeft_update ((h.sides x).run hb).posts_eq ?_
    rw [harr, hcomp]
    omega
  | complete x =>
    obtain ⟨b, hb, rfl⟩ := Option.map_eq_some_iff.mp ha
    refine h.stepsLeft_update ((h.sides x).complete hb).posts_eq ?_
    obtain ⟨r, hr, rfl⟩ := Option.map_eq_some_iff.mp hb
    obtain ⟨hlt, -⟩ := List.getElem?_eq_some_iff.mp hr
    have hp := (h.sides x).posts_eq
    unfold MsgSide.posts at hp
    have hcomp : ((s.side x).dev.complete msgCqe 0 r).completed 0 =
        (s.side x).dev.completed 0 + 1 := by simp [Device.complete]
    have hside : c.sideLeft { s.side x with dev := (s.side x).dev.complete msgCqe 0 r } =
        c.sideLeft (s.side x) := rfl
    dsimp only at hside ⊢
    rw [hcomp, hside]
    omega
  | arrive x =>
    obtain ⟨b, hb, rfl⟩ := Option.map_eq_some_iff.mp ha
    refine h.stepsLeft_update ((h.sides x).arrive hb).posts_eq ?_
    unfold MsgSide.arrive at hb
    rw [(h.sides x.other).posts_eq] at hb
    obtain ⟨hlt, rfl⟩ := Option.ite_none_right_eq_some.mp hb |>.imp_right Option.some.inj
    have hside : c.sideLeft { s.side x with
        arrived := (s.side x).arrived + 1, rq := (s.side x).rq - 1 } = c.sideLeft (s.side x) := rfl
    dsimp only at hside ⊢
    rw [hside]
    omega
  | nextCall =>
    obtain ⟨⟨hcall, hd⟩, rfl⟩ :=
      Option.ite_none_right_eq_some.mp ha |>.imp_right Option.some.inj
    have hcl := start_left c .client (s.side .client).rq
    have hsv := start_left c .server (s.side .server).rq
    have hmul := Nat.mul_le_mul_left (44 * c.iters + 20)
      (show c.calls - (s.call + 1) + 1 ≤ c.calls - s.call by omega)
    rw [Nat.mul_succ] at hmul
    have hz : ∀ x left, (c.start x left).posts = 0 := fun _ _ => rfl
    unfold MessageLat.stepsLeft
    dsimp only
    rw [hz, hz]
    simp only [Nat.zero_sub, Nat.add_zero]
    refine Nat.lt_of_lt_of_le ?_ (Nat.le_add_right_of_le (Nat.le_add_right_of_le
      (Nat.le_add_right_of_le (Nat.le_add_right_of_le (Nat.le_add_right _ _)))))
    omega

theorem ok (h : MsgInv c s) (hs : ∀ x, c.Supplied x) : MessagePingPongOk c s where
  counters x := (h.sides x).counters
  arrivals x hlt := h.arrivals hs x ((h.sides x.other).posts_eq ▸ hlt)
  unretired x := (h.sides x).outstanding_le
  receives := h.receives hs
  ends x hd := by
    obtain ⟨hscnt, hgot⟩ := (h.sides x).done_counts hd
    have hr := (h.sides x).rcnt
    rw [hd, if_neg (by simp)] at hr
    exact ⟨hscnt, hr.trans hgot, (h.sides x).done_polled hd⟩
  waits := h.waits
  progress := h.progress hs
  decreasing _ _ ha := h.decreasing ha

end MsgInv

/-- The ping-pong of `run_iter_lat_send` and `run_iter_lat_write_imm` between any two accepted
parameter records, provided that each side posts receives and that in a run over several sizes it
posts no more than it uses. -/
theorem messageLat_pingPong (c : MessageLat) (hs : ∀ x, c.Supplied x) (s : MsgState)
    (hr : c.Reachable s) : MessagePingPongOk c s :=
  (MsgInv.of_reachable hs hr).ok hs

/-- The client has posted its first message. -/
theorem exists_first_send (c : MessageLat) (hw : c.writeImm = false) :
    ∃ s, c.Reachable s ∧ (s.side .client).posts = 1 ∧ (s.side .server).arrived = 0 ∧
      (s.side .server).rq = c.supply .server := by
  have hlt : 0 < c.iters := c.iters_pos
  have h0 : (c.start .client 0).run c .client = some { c.start .client 0 with pc := .send } := by
    simp [MsgSide.run, MsgSide.runIterLatSend, MessageLat.start, hw, hlt]
  obtain ⟨a, ha, hp⟩ : ∃ a, { c.start .client 0 with pc := .send }.run c .client = some a ∧
      a.posts = 1 := by
    simp only [MsgSide.run, hw, Bool.false_eq_true, if_false, MsgSide.runIterLatSend]
    rw [if_pos (show (c.start .client 0).scnt < c.iters from hlt)]
    split
    next => exact ⟨_, rfl, rfl⟩
    next => exact ⟨_, rfl, rfl⟩
  have hr : c.Reachable ⟨0, Function.update (fun x => c.start x 0) .client
      { c.start .client 0 with pc := .send }⟩ := by
    have hi : c.Reachable ⟨0, fun x => c.start x 0⟩ := Transition.Reachable.of_init rfl
    refine hi.tail ⟨.run .client, ?_⟩
    simp only [MessageLat.act, h0, Option.map_some]
  have hr' : c.Reachable ⟨0, Function.update (Function.update (fun x => c.start x 0) .client
      { c.start .client 0 with pc := .send }) .client a⟩ := by
    refine hr.tail ⟨.run .client, ?_⟩
    simp only [MessageLat.act, Function.update_self, ha, Option.map_some]
  exact ⟨_, hr', by simpa using hp, rfl, Nat.zero_add _⟩

/-- `ib_send_lat` with the options `args`. -/
def sendLatParser (x : LatPeer) (args : List Opt) : Except String PerftestParameters :=
  parser { haveXrcd := true, haveMlx5dv := true, haveSrd := false, haveSrdQpSl := false
           haveAesXts := false, haveSigOffload := false, haveDcs := true, haveIbvWrApi := true
           haveCcUnprotectedAlloc := false, haveHnsdv := false, haveRegMrEx := false
           hostValidationRuntimeSupported := true, disableMlx5ScatterToCqe := false }
    ⟨.send, .lat, false⟩ {} (x = .client) args

/-- The test that both sides run with the options `args`, over `calls` sizes. -/
theorem exists_messageLat (args : List Opt) {calls : Nat} (hcalls : 0 < calls)
    (r : PerftestParameters → PerftestParameters → Bool)
    (h : (sendLatParser .client args).toOption.any (fun d =>
      (sendLatParser .server args).toOption.any fun e =>
        [d, e].all (fun p => p.tst = .lat && p.verb = .send && !p.useUnsolicitedWrite &&
          p.testType = .iterations && !p.useEvent && (p.testMethod = .runAll || calls = 1)) &&
        d.iters = e.iters && r d e) = true) :
    ∃ c : MessageLat, c.calls = calls ∧ c.writeImm = false ∧
      (∀ x, sendLatParser x args = .ok (c.peer x)) ∧
      r (c.peer .client) (c.peer .server) = true := by
  obtain ⟨d, hd, h⟩ := Checked.exists_of_toOption_any h
  obtain ⟨e, he, h⟩ := Checked.exists_of_toOption_any h
  simp only [List.all_cons, List.all_nil, Bool.and_true, Bool.and_eq_true, decide_eq_true_eq,
    Bool.not_eq_true', Bool.or_eq_true] at h
  obtain ⟨⟨⟨hd', he'⟩, hi⟩, hr⟩ := h
  obtain ⟨⟨⟨⟨⟨hl, hv⟩, hu⟩, ht⟩, hev⟩, hm⟩ := hd'
  obtain ⟨⟨⟨⟨⟨hl', hv'⟩, hu'⟩, ht'⟩, hev'⟩, hm'⟩ := he'
  refine ⟨{
    peer := LatPeer.rec d e
    calls := calls
    accepted := fun x => ?_
    lat := fun x => ?_
    receives := fun x => ?_
    iterations := fun x => ?_
    polling := fun x => ?_
    verb_eq := hv.trans hv'.symm
    iters_eq := hi
    calls_pos := hcalls
    calls_eq := fun x hx => ?_ }, rfl, ?_, fun x => ?_, hr⟩
  · cases x with
    | client => exact ⟨_, _, _, _, _, hd⟩
    | server => exact ⟨_, _, _, _, _, he⟩
  · cases x with
    | client => exact hl
    | server => exact hl'
  · cases x with
    | client => exact ⟨by simp [hv, hasRecvComp], hu⟩
    | server => exact ⟨by simp [hv', hasRecvComp], hu'⟩
  · cases x with
    | client => exact ht
    | server => exact ht'
  · cases x with
    | client => exact hev
    | server => exact hev'
  · cases x with
    | client => exact hm.resolve_left hx
    | server => exact hm'.resolve_left hx
  · simp [MessageLat.writeImm, hv]
  · cases x with
    | client => exact hd
    | server => exact he

/-- `ib_send_lat -a -r 1 -c XRC`: the one receive is divided among two queue pairs, none is posted,
and the first message arrives without a receive. -/
theorem xrcAllSizes_not_ok : ∃ (c : MessageLat) (s : MsgState),
    (∀ x, sendLatParser x [.all, .rxDepth 1, .connection "XRC"] = .ok (c.peer x)) ∧
      c.Reachable s ∧ ¬ MessagePingPongOk c s := by
  obtain ⟨c, -, hw, hargs, hz⟩ := exists_messageLat [.all, .rxDepth 1, .connection "XRC"]
    (show 0 < 23 by decide) (fun _ e => e.ctxSetRecvWqes = 0) (by decide +kernel)
  obtain ⟨s, hs, hposts, harr, hrq⟩ := exists_first_send c hw
  have hz' : c.supply .server = 0 := of_decide_eq_true hz
  refine ⟨c, s, hargs, hs, fun h => ?_⟩
  have := h.arrivals .server (by
    rw [harr, LatPeer.other, hposts]
    exact Nat.one_pos)
  omega

theorem messageLat_pingPong_default : ∃ (c : MessageLat) (s : MsgState),
    (∀ x, sendLatParser x [] = .ok (c.peer x)) ∧ c.Reachable s ∧
      (s.side .client).posts = 1 ∧ MessagePingPongOk c s := by
  obtain ⟨c, hc, hw, hargs, hr⟩ := exists_messageLat [] Nat.one_pos
    (fun d e => decide (1 ≤ d.ctxSetRecvWqes) && decide (1 ≤ e.ctxSetRecvWqes))
    (by decide +kernel)
  obtain ⟨s, hs, hposts, -, -⟩ := exists_first_send c hw
  simp only [Bool.and_eq_true, decide_eq_true_eq] at hr
  refine ⟨c, s, hargs, hs, hposts, messageLat_pingPong c (fun x => ?_) s hs⟩
  cases x with
  | client => exact ⟨hr.1, Or.inl hc⟩
  | server => exact ⟨hr.2, Or.inl hc⟩

end Perftest
