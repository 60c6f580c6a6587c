import Perftest.SendAccounting

namespace Perftest

open WorkQueue SendConfig Transition

namespace SendLoop

variable (L : SendLoop)

/-- The `k`-th data request of a QP with what is chained to it. -/
def scheduled (k : Nat) : List SendReq :=
  .data (L.signaledAt k) :: if L.chained k then [.fetchAdd] else []

variable {L} {s : SendCounters} {q : Nat}

theorem batch_scheduled {flags : Nat → Bool} {k : Nat}
    (hf : ∀ j < L.postList, flags j = L.signaledAt (k + j)) :
    L.batch flags k = (List.range L.postList).flatMap fun j => L.scheduled (k + j) := by
  unfold batch
  rw [List.flatMap_def, List.flatMap_def]
  congr 1
  refine List.map_congr_left fun j hj => ?_
  rw [scheduled, hf j (List.mem_range.mp hj)]

theorem posted_scheduled (hs : L.Sound) (hf : L.FlagsOk 0 L.initSignaled) {s : SendState}
    (hr : L.Reachable s) (q : Nat) :
    s.dev.posted q = (List.range (s.scnt q)).flatMap L.scheduled := by
  suffices h : SendInv L s.toSendCounters ∧
      ∀ q, s.dev.posted q = (List.range (s.scnt q)).flatMap L.scheduled from h.2 q
  refine Transition.Reachable.invariant (P := fun s : SendState => SendInv L s.toSendCounters ∧
    ∀ q, s.dev.posted q = (List.range (s.scnt q)).flatMap L.scheduled) (fun s hi => ?_)
    (fun s t h ht => ⟨h.1.step hs ht, fun q => ?_⟩) hr
  · rw [hi.1]
    exact ⟨SendInv.init hf, fun q => rfl⟩
  · obtain ⟨a, ha⟩ := ht
    obtain ⟨hinv, h⟩ := h
    rcases act_cases ha with ⟨he, -⟩ | ⟨q', -, -, hu, -, rfl⟩ | ⟨q', rfl⟩ | ⟨q', rest, -, -, rfl⟩ |
      ⟨q', r, -, rfl⟩
    · rw [he]
      exact h q
    · by_cases hq : q = q'
      · subst hq
        have hk := within_add_postList hs (hinv.flags q) (by simpa [unfinished] using hu)
        have hb := batch_scheduled (L := L) (k := s.scnt q)
          fun j hj => (hinv.flags q).posted hs hk hj
        simp only [postSend, Device.post, Function.update_self, h q]
        rw [hb, List.range_add, List.flatMap_append, List.flatMap_map]
      · simpa [postSend, Device.post, hq] using h q
    · exact h q
    · exact h q
    · exact h q

section Walk

variable {t : SendState}

theorem walk_to_qp {i : Nat} (hpc : t.pc = .qp i) (k : Nat) (hk : i + k ≤ L.numOfQps) :
    Relation.ReflTransGen (stepOf L.act) t { t with pc := .qp (i + k) } := by
  induction k with
  | zero =>
    rw [Nat.add_zero, ← hpc]
  | succ k ih =>
    refine (ih (by omega)).tail ⟨.leave, ?_⟩
    simp only [act]
    rw [if_pos (by omega), Nat.add_assoc]

/-- From every point of the loop its condition is reached. -/
theorem walk_to_test (hpc : t.pc ≠ .done) :
    Relation.ReflTransGen (stepOf L.act) t { t with pc := .test } := by
  have hpoll : ∀ u : SendState, u.pc = .poll →
      Relation.ReflTransGen (stepOf L.act) u { u with pc := .test } := by
    intro u hu
    refine .single ⟨.endPoll, ?_⟩
    simp only [act]
    rw [if_pos hu]
  have hend : ∀ (u : SendState) (i : Nat), u.pc = .qp i → L.numOfQps ≤ i →
      Relation.ReflTransGen (stepOf L.act) u { u with pc := .test } := by
    intro u i hu hi
    have hstep : stepOf L.act u { u with pc := if L.polls u then .poll else .test } := by
      refine ⟨.endFor, ?_⟩
      simp only [act, hu]
      rw [if_pos hi]
    cases hp : L.polls u with
    | true =>
      rw [hp, if_pos rfl] at hstep
      exact .head hstep (hpoll _ rfl)
    | false =>
      rw [hp, if_neg Bool.false_ne_true] at hstep
      exact .single hstep
  cases hc : t.pc with
  | test =>
    rw [← hc]
  | qp i =>
    rcases Nat.le_total L.numOfQps i with hi | hi
    · exact hend t i hc hi
    · have hw := walk_to_qp (L := L) hc (L.numOfQps - i) (by omega)
      rw [Nat.add_sub_cancel' hi] at hw
      exact hw.trans (hend { t with pc := .qp L.numOfQps } _ rfl (le_refl _))
  | poll => exact hpoll t hc
  | done => exact absurd hc hpc

theorem walk_from_test (hpc : t.pc ≠ .done) (hc : L.continues t = true) (hq : q ≤ L.numOfQps) :
    Relation.ReflTransGen (stepOf L.act) t { t with pc := .qp q } := by
  have hstep : stepOf L.act { t with pc := .test } { t with pc := .qp 0 } := by
    refine ⟨.test, ?_⟩
    have hc' : L.continues { t with pc := .test } = true := hc
    simp only [act, hc', if_true]
  have hw := walk_to_qp (L := L) (t := { t with pc := .qp 0 }) rfl q (by omega)
  rw [Nat.zero_add] at hw
  exact ((walk_to_test hpc).tail hstep).trans hw

theorem walk_to_poll (hpc : t.pc ≠ .done) (hc : L.continues t = true) (hp : L.polls t = true) :
    Relation.ReflTransGen (stepOf L.act) t { t with pc := .poll } := by
  refine (walk_from_test hpc hc (le_refl L.numOfQps)).tail ⟨.endFor, ?_⟩
  have hp' : L.polls { t with pc := .qp L.numOfQps } = true := hp
  simp only [act]
  rw [if_pos (le_refl _), hp', if_pos rfl]

end Walk

/-- What is left to do: posts, then completions, then polls, then the end. -/
def workLeft (L : SendLoop) (s : SendState) : Nat :=
  5 * (L.totIters - s.totscnt) + 2 * (∑ q ∈ Finset.range L.numOfQps, s.dev.uncompleted q) +
    s.dev.cq.length + if s.pc = .done then 0 else 1

theorem length_batch_le (flags : Nat → Bool) (k : Nat) :
    (L.batch flags k).length ≤ 2 * L.postList := by
  unfold batch
  induction L.postList with
  | zero => exact Nat.zero_le _
  | succ n ih =>
    rw [List.range_succ, List.flatMap_append, List.length_append, List.flatMap_singleton,
      List.length_cons]
    have hone : (if L.chained (k + n) then [SendReq.fetchAdd] else []).length ≤ 1 := by
      split <;> simp
    omega

theorem workLeft_complete {t : SendState} (hq : q < L.numOfQps)
    (hlt : t.dev.completed q < (t.dev.posted q).length) (hpc : t.pc ≠ .done) (r : SendReq) :
    L.workLeft { t with dev := t.dev.complete sendCqe q r } < L.workLeft t := by
  have hsum := Device.sum_uncompleted_complete sendCqe hq hlt r
  have hcq : (t.dev.complete sendCqe q r).cq.length ≤ t.dev.cq.length + 1 := by
    rw [Device.complete, List.length_append]
    cases sendCqe r <;> simp
  simp only [workLeft, if_neg hpc]
  omega

theorem workLeft_take {t : SendState} {rest : List (Nat × Unit)} (hcq : t.dev.cq = (q, ()) :: rest)
    (hpc : t.pc ≠ .done) :
    L.workLeft { t with toSendCounters := L.takeCompletion t.toSendCounters q rest } <
      L.workLeft t := by
  simp only [workLeft, if_neg hpc, hcq, List.length_cons]
  simp only [takeCompletion, Device.pop]
  simp only [Device.uncompleted]
  omega

theorem workLeft_post {t : SendState} (hs : L.Sound) (hq : q < L.numOfQps)
    (hroom : t.totscnt + L.postList ≤ L.totIters) (hpc : t.pc ≠ .done) :
    L.workLeft { t with toSendCounters := L.postSend t.toSendCounters q } < L.workLeft t := by
  have hpos := hs.postList_pos
  have hlen := length_batch_le (L := L) (L.flagsAtPost (t.scnt q) (t.signaled q)) (t.scnt q)
  have hsum := Device.sum_uncompleted_post (d := t.dev) hq
    (L.batch (L.flagsAtPost (t.scnt q) (t.signaled q)) (t.scnt q))
  have hcq : (t.dev.post q (L.batch (L.flagsAtPost (t.scnt q) (t.signaled q)) (t.scnt q))).cq =
      t.dev.cq := rfl
  simp only [workLeft, if_neg hpc, postSend, hcq]
  omega

end SendLoop

theorem SendInv.totscnt_le {L : SendLoop} {s : SendCounters} (h : SendInv L s)
    (ht : L.testType = .iterations) : s.totscnt ≤ L.totIters := by
  rw [h.totscnt, SendLoop.totIters, if_pos ht]
  calc ∑ q ∈ Finset.range L.numOfQps, s.scnt q ≤ ∑ _q ∈ Finset.range L.numOfQps, L.iters :=
        Finset.sum_le_sum fun q _ => h.within q ht
    _ = L.iters * L.numOfQps := by
      rw [Finset.sum_const, Finset.card_range, smul_eq_mul, Nat.mul_comm]

theorem SendConfig.accounted_signals_iters {c : SendConfig} (hs : c.Sound)
    (ht : c.testType = .iterations) : c.accounted (c.signals c.iters) = c.iters := by
  by_cases hz : c.iters % c.cqMod = 0
  · exact accounted_signals_of_dvd (fun _ => le_refl _) (Nat.dvd_of_mod_eq_zero hz)
  · have hlt := Nat.lt_mul_div_succ c.iters hs.cqMod_pos
    rw [signals, if_pos ⟨ht, rfl, hz⟩, accounted, if_pos ht, Nat.mul_comm]
    omega

namespace SendLoop

variable {L : SendLoop} {s : SendState}

/-- Of requests that all completed, the oldest pending completion can be taken. -/
theorem exists_take (hs : L.Sound) (hf : L.FlagsOk 0 L.initSignaled)
    (ht : L.testType = .iterations) (hr : L.Reachable s) (hpc : s.pc ≠ .done)
    (hcq : s.dev.cq ≠ []) :
    ∃ t, Relation.ReflTransGen (stepOf L.act) s t ∧ L.workLeft t < L.workLeft s := by
  have hinv := SendInv.of_reachable hs hf hr
  obtain ⟨⟨q, u⟩, rest, hc⟩ := List.exists_cons_of_ne_nil hcq
  have hlt : s.totccnt < L.totIters := by
    by_contra hge
    exact hcq (hinv.accounted_all hs ht (Nat.le_of_not_lt hge)).2
  have hcont : L.continues s = true := by
    simp only [continues, hlt, decide_true, Bool.or_true, Bool.true_or]
  have hpoll : L.polls s = true := by
    simp only [polls, hlt, decide_true, Bool.true_or]
  refine ⟨_, (walk_to_poll hpc hcont hpoll).tail ⟨.take, ?_⟩,
    (workLeft_take (L := L) (t := { s with pc := .poll }) hc (fun h => by cases h)).trans_le ?_⟩
  · simp only [act, hc]
  · simp [workLeft, hpc]

/-- The window lets an unfinished QP post once everything was taken. -/
theorem exists_post (hs : L.Sound) (hf : L.FlagsOk 0 L.initSignaled)
    (ht : L.testType = .iterations) (hp : L.postList ≤ L.txDepth) (hr : L.Reachable s)
    (hpc : s.pc ≠ .done) (hd : Drained s.toSendCounters) {q : Nat} (hq : q < L.numOfQps)
    (hlt : s.scnt q < L.iters) :
    ∃ t, Relation.ReflTransGen (stepOf L.act) s t ∧ L.workLeft t < L.workLeft s := by
  have hinv := SendInv.of_reachable hs hf hr
  have hroom := hinv.hasRoom_of_drained hs hp hd q
  have hu : L.unfinished s.toSendCounters q = true := by
    simp only [unfinished, hlt, decide_true, Bool.true_or]
  have hnext := hinv.post hs hq hu hroom
  have htot : s.totscnt + L.postList ≤ L.totIters := hnext.totscnt_le ht
  have hcont : L.continues s = true := by
    have := hs.postList_pos
    have hlt : s.totscnt < L.totIters := by omega
    simp only [continues, hlt, decide_true, Bool.true_or]
  refine ⟨_, (walk_from_test hpc hcont (Nat.le_of_lt hq)).tail ⟨.post, ?_⟩,
    (workLeft_post (L := L) (t := { s with pc := .qp q }) hs hq htot
      (fun h => by cases h)).trans_le ?_⟩
  · have hne : ¬ (L.testType = .duration ∧ s.state = .endState) := by
      rw [ht]
      exact fun h => by cases h.1
    simp only [act, postOrBreak]
    rw [if_pos ⟨hq, hu, hroom⟩, if_neg hne]
  · simp [workLeft, hpc]

theorem exists_end (hs : L.Sound) (hf : L.FlagsOk 0 L.initSignaled)
    (ht : L.testType = .iterations) (hr : L.Reachable s) (hpc : s.pc ≠ .done)
    (hd : Drained s.toSendCounters) (hall : ∀ q < L.numOfQps, s.scnt q = L.iters) :
    ∃ t, Relation.ReflTransGen (stepOf L.act) s t ∧ L.workLeft t < L.workLeft s := by
  have hinv := SendInv.of_reachable hs hf hr
  have hsum : ∀ f : Nat → Nat, (∀ q < L.numOfQps, f q = L.iters) →
      ∑ q ∈ Finset.range L.numOfQps, f q = L.totIters := by
    intro f hf
    rw [totIters, if_pos ht, Finset.sum_congr rfl fun q hq => hf q (Finset.mem_range.mp hq),
      Finset.sum_const, Finset.card_range, smul_eq_mul, Nat.mul_comm]
  have hscnt : s.totscnt = L.totIters := hinv.totscnt.trans (hsum _ hall)
  have hccnt : s.totccnt = L.totIters := by
    refine hinv.totccnt.trans (hsum _ fun q hq => ?_)
    rw [hinv.ccnt_of_drained hs hd q, hall q hq, accounted_signals_iters hs ht]
  have hcont : L.continues s = false := by
    simp [continues, hscnt, hccnt, ht]
  refine ⟨{ s with pc := .done }, (walk_to_test hpc).tail ⟨.test, ?_⟩, ?_⟩
  · have hcont' : L.continues { s with pc := .test } = false := hcont
    simp only [act, hcont', if_true, Bool.false_eq_true, if_false]
  · simp [workLeft, hpc]

theorem exists_workLeft_lt (hs : L.Sound) (hf : L.FlagsOk 0 L.initSignaled)
    (ht : L.testType = .iterations) (hp : L.postList ≤ L.txDepth) (hr : L.Reachable s)
    (hpc : s.pc ≠ .done) :
    ∃ t, Relation.ReflTransGen (stepOf L.act) s t ∧ L.workLeft t < L.workLeft s := by
  have hinv := SendInv.of_reachable hs hf hr
  by_cases hun : ∃ q, s.dev.completed q < (s.dev.posted q).length
  · obtain ⟨q, hlt⟩ := hun
    have hq : q < L.numOfQps := by
      by_contra hge
      rw [posted_scheduled hs hf hr, hinv.idle q (Nat.le_of_not_lt hge)] at hlt
      cases hlt
    refine ⟨_, .single ⟨.complete q, ?_⟩,
      workLeft_complete hq hlt hpc (s.dev.posted q)[s.dev.completed q]⟩
    simp only [act, List.getElem?_eq_getElem hlt]
  have hall : ∀ q, s.dev.completed q = (s.dev.posted q).length := fun q =>
    le_antisymm (hinv.fifo.bound q) (Nat.le_of_not_lt fun h => hun ⟨q, h⟩)
  by_cases hcq : s.dev.cq = []
  · by_cases hleft : ∃ q < L.numOfQps, s.scnt q < L.iters
    · obtain ⟨q, hq, hlt⟩ := hleft
      exact exists_post hs hf ht hp hr hpc ⟨hcq, hall⟩ hq hlt
    · refine exists_end hs hf ht hr hpc ⟨hcq, hall⟩ fun q hq => ?_
      exact le_antisymm (hinv.within q ht) (Nat.le_of_not_lt fun h => hleft ⟨q, hq, h⟩)
  · exact exists_take hs hf ht hr hpc hcq

/-- From every state of an ITERATIONS run its end can be reached. -/
theorem exists_done (hs : L.Sound) (hf : L.FlagsOk 0 L.initSignaled)
    (ht : L.testType = .iterations) (hp : L.postList ≤ L.txDepth) (hr : L.Reachable s) :
    ∃ t, L.Reachable t ∧ t.pc = .done := by
  obtain ⟨t, hst, hd⟩ := exists_goal_of_measure (P := L.Reachable) (G := fun s => s.pc = .done)
    L.workLeft (fun s t h hst => h.tail hst)
    (fun s hr hpc => exists_workLeft_lt hs hf ht hp hr hpc) hr
  obtain ⟨s₀, h₀, hr⟩ := hr
  exact ⟨t, ⟨s₀, h₀, hr.trans hst⟩, hd⟩

end SendLoop

end Perftest
