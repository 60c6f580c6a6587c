import Perftest.Lib.EventQueue
import Perftest.SendProgress

namespace Perftest

open EventQueue WorkQueue Transition

/-- `run_iter_bw` with `use_event`. It may break off its posts where it is `paced`, by the rate
limiter or by credits. -/
structure EventLoop extends SendLoop where
  paced : Bool

/-- The loop with the channel of its send queue. It has still to wait in front of its next poll
where `awaiting` says so, which is when the last poll, `ne`, found nothing. -/
structure EventState extends SendState where
  channel : Channel
  ne : Nat
  awaiting : Bool

/-- The QPs that the loop is through with on its way over `n` of them. -/
def SendPc.passed (n : Nat) : SendPc → Nat
  | .qp i => i
  | .poll => n
  | .test => 0
  | .done => 0

namespace EventLoop

variable (E : EventLoop)

def canPost (s : SendCounters) (q : Nat) : Bool := E.unfinished s q && E.hasRoom s q

/-- A poll for `n` entries. -/
def takes : Nat → SendCounters → SendCounters
  | 0, s => s
  | n + 1, s => match s.dev.cq with
    | [] => s
    | (q, _) :: rest => takes n (E.takeCompletion s q rest)

inductive Action where
  | test | post | leave | endFor | wait | poll (n : Nat) | complete (q : Nat)
deriving DecidableEq, Repr

def act : Action → EventState → Option EventState
  | .test, s =>
    if s.pc = .test then some { s with pc := if E.continues s.toSendState then .qp 0 else .done }
    else none
  | .post, s => match s.pc with
    | .qp q =>
      if q < E.numOfQps ∧ E.canPost s.toSendCounters q then
        some { s with toSendState := E.postOrBreak s.toSendState q }
      else none
    | _ => none
  | .leave, s => match s.pc with
    | .qp q =>
      if q < E.numOfQps ∧ (E.paced ∨ E.canPost s.toSendCounters q = false) then
        some { s with pc := .qp (q + 1) }
      else none
    | _ => none
  | .endFor, s => match s.pc with
    | .qp q =>
      if E.numOfQps ≤ q then
        some { s with
          pc := if E.polls s.toSendState then .poll else .test
          awaiting := s.ne = 0 }
      else none
    | _ => none
  | .wait, s =>
    if s.pc = .poll ∧ s.awaiting then
      s.channel.wait.map fun c => { s with channel := c, awaiting := false }
    else none
  | .poll n, s =>
    if s.pc = .poll ∧ s.awaiting = false ∧ 0 < n then
      some { s with
        toSendCounters := E.takes n s.toSendCounters
        pc := .test
        ne := min n s.dev.cq.length }
    else none
  | .complete q, s => match (s.dev.posted q)[s.dev.completed q]? with
    | some r => some { s with
        dev := s.dev.complete sendCqe q r
        channel := if (sendCqe r).isSome then s.channel.entry else s.channel }
    | none => none

/-- `main` has armed the queue; what came through the channel before is of no account. -/
def IsInit (s : EventState) : Prop :=
  E.toSendLoop.IsInit s.toSendState ∧ s.channel.Live ∧ s.ne = 0

def Reachable : EventState → Prop := Transition.Reachable E.IsInit (stepOf E.act)

variable {E}

/-- What a step of an ITERATIONS run can do. -/
inductive Step (E : EventLoop) (s : EventState) : Action → EventState → Prop
  | test (hpc : s.pc = .test) :
    Step E s .test { s with pc := if E.continues s.toSendState then .qp 0 else .done }
  | post (q : Nat) (hpc : s.pc = .qp q) (hq : q < E.numOfQps)
    (hc : E.canPost s.toSendCounters q = true) :
    Step E s .post { s with toSendCounters := E.postSend s.toSendCounters q }
  | leave (q : Nat) (hpc : s.pc = .qp q) (hq : q < E.numOfQps)
    (hc : E.paced = false → E.canPost s.toSendCounters q = false) :
    Step E s .leave { s with pc := .qp (q + 1) }
  | endFor (q : Nat) (hpc : s.pc = .qp q) (hq : E.numOfQps ≤ q) :
    Step E s .endFor { s with
      pc := if E.polls s.toSendState then .poll else .test
      awaiting := s.ne = 0 }
  | wait (c : Channel) (hpc : s.pc = .poll) (ha : s.awaiting = true)
    (hc : s.channel.wait = some c) :
    Step E s .wait { s with channel := c, awaiting := false }
  | poll (n : Nat) (hpc : s.pc = .poll) (ha : s.awaiting = false) (hn : 0 < n) :
    Step E s (.poll n) { s with
      toSendCounters := E.takes n s.toSendCounters
      pc := .test
      ne := min n s.dev.cq.length }
  | complete (q : Nat) (r : SendReq) (hr : (s.dev.posted q)[s.dev.completed q]? = some r) :
    Step E s (.complete q) { s with
      dev := s.dev.complete sendCqe q r
      channel := if (sendCqe r).isSome then s.channel.entry else s.channel }

theorem step_of_act {a : Action} {s t : EventState} (hi : E.testType = .iterations)
    (h : E.act a s = some t) : Step E s a t := by
  cases a with
  | test =>
    obtain ⟨hpc, h⟩ := Option.ite_none_right_eq_some.mp h
    obtain rfl := Option.some.inj h
    exact .test hpc
  | post =>
    simp only [act] at h
    split at h
    next q hpc =>
      obtain ⟨⟨hq, hc⟩, h⟩ := Option.ite_none_right_eq_some.mp h
      obtain rfl := Option.some.inj h
      have hno : ¬ (E.testType = .duration ∧ s.state = .endState) := by
        rw [hi]
        exact fun h => by cases h.1
      rw [SendLoop.postOrBreak, if_neg hno]
      exact .post q hpc hq hc
    next => cases h
  | leave =>
    simp only [act] at h
    split at h
    next q hpc =>
      obtain ⟨⟨hq, hc⟩, h⟩ := Option.ite_none_right_eq_some.mp h
      obtain rfl := Option.some.inj h
      refine .leave q hpc hq fun hp => hc.resolve_left ?_
      rw [hp]
      exact Bool.false_ne_true
    next => cases h
  | endFor =>
    simp only [act] at h
    split at h
    next q hpc =>
      obtain ⟨hq, h⟩ := Option.ite_none_right_eq_some.mp h
      obtain rfl := Option.some.inj h
      exact .endFor q hpc hq
    next => cases h
  | wait =>
    obtain ⟨⟨hpc, ha⟩, h⟩ := Option.ite_none_right_eq_some.mp h
    obtain ⟨c, hc, rfl⟩ := Option.map_eq_some_iff.mp h
    exact .wait c hpc ha hc
  | poll n =>
    obtain ⟨⟨hpc, ha, hn⟩, h⟩ := Option.ite_none_right_eq_some.mp h
    obtain rfl := Option.some.inj h
    exact .poll n hpc ha hn
  | complete q =>
    simp only [act] at h
    split at h
    next r hr =>
      obtain rfl := Option.some.inj h
      exact .complete q r hr
    next => cases h

/-- A poll takes completions one after the other. -/
theorem takes_steps (n : Nat) {s : SendState} (hpc : s.pc = .poll) :
    Relation.ReflTransGen (stepOf E.toSendLoop.act) s
      { s with toSendCounters := E.takes n s.toSendCounters } := by
  induction n generalizing s with
  | zero => exact .refl
  | succ n ih =>
    unfold takes
    split
    next => exact .refl
    next q u rest hcq =>
      refine .head ⟨.take, ?_⟩ (ih (s := { s with
        toSendCounters := E.takeCompletion s.toSendCounters q rest }) hpc)
      simp only [SendLoop.act, hpc, hcq]

theorem takes_cq (n : Nat) (s : SendCounters) : (E.takes n s).dev.cq = s.dev.cq.drop n := by
  induction n generalizing s with
  | zero => rfl
  | succ n ih =>
    unfold takes
    split
    next h => rw [h, List.drop_nil]
    next q u rest h =>
      rw [ih, h]
      rfl

theorem takes_kept (n : Nat) (s : SendCounters) : (E.takes n s).scnt = s.scnt ∧
    (E.takes n s).totscnt = s.totscnt ∧ (E.takes n s).dev.posted = s.dev.posted ∧
      (E.takes n s).dev.completed = s.dev.completed := by
  induction n generalizing s with
  | zero => exact ⟨rfl, rfl, rfl, rfl⟩
  | succ n ih =>
    unfold takes
    split
    next => exact ⟨rfl, rfl, rfl, rfl⟩
    next q u rest h => exact ih _

/-- Every step is one or several of the loop that does not wait. -/
theorem Step.walk {a : Action} {s t : EventState} (hi : E.testType = .iterations)
    (h : Step E s a t) :
    Relation.ReflTransGen (stepOf E.toSendLoop.act) s.toSendState t.toSendState := by
  cases h with
  | test hpc =>
    refine .single ⟨.test, ?_⟩
    simp only [SendLoop.act, hpc, if_true]
  | post q hpc hq hc =>
    refine .single ⟨.post, ?_⟩
    rw [canPost, Bool.and_eq_true] at hc
    have hno : ¬ (E.testType = .duration ∧ s.state = .endState) := by
      rw [hi]
      exact fun h => by cases h.1
    simp only [SendLoop.act, hpc, SendLoop.postOrBreak, if_neg hno]
    rw [if_pos ⟨hq, hc.1, hc.2⟩]
  | leave q hpc hq =>
    refine .single ⟨.leave, ?_⟩
    simp only [SendLoop.act, hpc, if_pos hq]
  | endFor q hpc hq =>
    refine .single ⟨.endFor, ?_⟩
    simp only [SendLoop.act, hpc, if_pos hq]
  | wait c => exact .refl
  | poll n hpc =>
    refine (takes_steps n hpc).tail ⟨.endPoll, ?_⟩
    simp only [SendLoop.act, hpc, if_true]
  | complete q r hr =>
    refine .single ⟨.complete q, ?_⟩
    simp only [SendLoop.act, hr]

theorem reachable_toSendState {s : EventState} (hi : E.testType = .iterations)
    (h : E.Reachable s) : E.toSendLoop.Reachable s.toSendState := by
  refine Transition.Reachable.invariant
    (P := fun s : EventState => E.toSendLoop.Reachable s.toSendState)
    (fun s h0 => .of_init h0.1) (fun s t hr hst => ?_) h
  obtain ⟨a, ha⟩ := hst
  obtain ⟨s₀, h₀, hw⟩ := hr
  exact ⟨s₀, h₀, hw.trans ((step_of_act hi ha).walk hi)⟩

/-- What holds between the steps: an entry that the last poll has missed makes an event, the loop
waits only behind an empty poll, and it could post on no QP that it is through with. -/
structure Inv (E : EventLoop) (s : EventState) : Prop where
  watched : Watched s.dev.cq.length s.channel (s.ne = 0 ∧ (s.pc = .poll → s.awaiting = true))
  emptied : s.pc = .poll → s.awaiting = true → s.ne = 0
  polls : s.pc = .poll → E.polls s.toSendState = true
  passed : s.pc.passed E.numOfQps ≤ E.numOfQps
  posted : E.paced = false → ∀ q < s.pc.passed E.numOfQps, E.canPost s.toSendCounters q = false

theorem Inv.of_init {s : EventState} (h : E.IsInit s) : Inv E s := by
  obtain ⟨⟨hs, hpc⟩, hc, hne⟩ := h
  have hcq : s.dev.cq = [] := by
    rw [hs]
    rfl
  refine ⟨?_, fun h => ?_, fun h => ?_, ?_, fun _ q hq => ?_⟩
  · rw [hcq]
    exact .of_empty hc
  · cases hpc.symm.trans h
  · cases hpc.symm.trans h
  · rw [hpc]
    exact Nat.zero_le _
  · rw [hpc] at hq
    exact absurd hq (Nat.not_lt_zero q)

theorem Inv.step {a : Action} {s t : EventState} (h : Inv E s) (hst : Step E s a t) :
    Inv E t := by
  cases hst with
  | test hpc =>
    refine ⟨h.watched.mono fun hd => ⟨hd.1, fun hp => ?_⟩, fun hp => ?_, fun hp => ?_, ?_,
      fun _ q hq => ?_⟩
    · cases hpc.symm.trans hp
    · dsimp only at hp
      split at hp <;> cases hp
    · dsimp only at hp
      split at hp <;> cases hp
    · dsimp only
      split <;> exact Nat.zero_le _
    · dsimp only at hq
      split at hq <;> exact absurd hq (Nat.not_lt_zero q)
  | post q hpc hq hc =>
    refine ⟨h.watched, fun hp => ?_, fun hp => ?_, h.passed, fun hu q' hq' => ?_⟩
    · cases hpc.symm.trans hp
    · cases hpc.symm.trans hp
    · have hold := h.posted hu q' hq'
      have hne : q' ≠ q := by
        simp only [hpc, SendPc.passed] at hq'
        omega
      simpa only [canPost, SendLoop.unfinished, SendLoop.hasRoom, SendLoop.postSend,
        Function.update_of_ne hne] using hold
  | leave q hpc hq hc =>
    refine ⟨h.watched.mono fun hd => ⟨hd.1, fun hp => ?_⟩, fun hp => ?_, fun hp => ?_, hq,
      fun hu q' hq' => ?_⟩
    · cases hpc.symm.trans hp
    · cases hp
    · cases hp
    · rcases Nat.lt_succ_iff_lt_or_eq.mp hq' with hlt | rfl
      · refine h.posted hu q' ?_
        rw [hpc]
        exact hlt
      · exact hc hu
  | endFor q hpc hq =>
    refine ⟨h.watched.mono fun hd => ⟨hd.1, fun hp => ?_⟩, fun hp ha => ?_, fun hp => ?_, ?_,
      fun hu q' hq' => ?_⟩
    · cases hpc.symm.trans hp
    · exact of_decide_eq_true ha
    · dsimp only at hp
      split at hp
      next hpolls => exact hpolls
      next => cases hp
    · dsimp only
      split
      · exact le_refl _
      · exact Nat.zero_le _
    · refine h.posted hu q' ?_
      dsimp only at hq'
      rw [hpc]
      split at hq'
      next => exact hq'.trans_le hq
      next => exact absurd hq' (Nat.not_lt_zero q')
  | wait c hpc ha hc =>
    refine ⟨(Watched.wait hc).mono fun hd => ?_, fun _ ha' => ?_, h.polls, h.passed, h.posted⟩
    · cases hd.2 hpc
    · cases ha'
  | poll n hpc ha hn =>
    refine ⟨?_, fun hp => ?_, fun hp => ?_, Nat.zero_le _, fun _ q hq => ?_⟩
    · dsimp only
      rw [takes_cq, List.length_drop]
      exact (h.watched.poll hn).mono And.left
    · cases hp
    · cases hp
    · exact absurd hq (Nat.not_lt_zero q)
  | complete q r hr =>
    refine ⟨?_, h.emptied, h.polls, h.passed, h.posted⟩
    dsimp only
    rw [Device.complete, List.length_append]
    cases sendCqe r with
    | none => exact h.watched
    | some u => exact h.watched.entry

theorem Inv.of_reachable {s : EventState} (hi : E.testType = .iterations) (h : E.Reachable s) :
    Inv E s := by
  refine Transition.Reachable.invariant (P := Inv E) (fun s h0 => Inv.of_init h0)
    (fun s t hs hst => ?_) h
  obtain ⟨a, ha⟩ := hst
  exact hs.step (step_of_act hi ha)

/-- A loop that waits has an event for the entries of its queue. -/
theorem wait_isSome {s : EventState} (hi : E.testType = .iterations) (h : E.Reachable s)
    (hpc : s.pc = .poll) (ha : s.awaiting = true) (hcq : s.dev.cq ≠ []) :
    s.channel.wait ≠ none := by
  have hinv := Inv.of_reachable hi h
  exact hinv.watched.wait_isSome ⟨hinv.emptied hpc ha, fun _ => ha⟩
    (List.length_pos_iff.mpr hcq)

/-- Without a pace a loop that no step takes further has ended or waits for a request that is still
to complete. -/
theorem enabled_or_uncompleted {s : EventState} (hs : E.Sound) (hf : E.FlagsOk 0 E.initSignaled)
    (hi : E.testType = .iterations) (hp : E.postList ≤ E.txDepth) (hu : E.paced = false)
    (h : E.Reachable s) (hpc : s.pc ≠ .done) :
    (∃ a, (∀ q, a ≠ .complete q) ∧ (E.act a s).isSome = true) ∨
      ∃ q, s.dev.completed q < (s.dev.posted q).length := by
  have hinv := Inv.of_reachable hi h
  have hsend := SendInv.of_reachable hs hf (reachable_toSendState hi h)
  cases hc : s.pc with
  | test =>
    refine .inl ⟨.test, fun q h => (by cases h), ?_⟩
    rw [act, if_pos hc, Option.isSome_some]
  | done => exact absurd hc hpc
  | qp i =>
    rcases Nat.lt_or_ge i E.numOfQps with hlt | hge
    · cases hcan : E.canPost s.toSendCounters i with
      | true =>
        refine .inl ⟨.post, fun q h => (by cases h), ?_⟩
        simp only [act, hc, if_pos (And.intro hlt hcan), Option.isSome_some]
      | false =>
        refine .inl ⟨.leave, fun q h => (by cases h), ?_⟩
        simp only [act, hc, if_pos (And.intro hlt (Or.inr hcan)), Option.isSome_some]
    · refine .inl ⟨.endFor, fun q h => (by cases h), ?_⟩
      simp only [act, hc, if_pos hge, Option.isSome_some]
  | poll =>
    cases ha : s.awaiting with
    | false =>
      refine .inl ⟨.poll 1, fun q h => (by cases h), ?_⟩
      rw [act, if_pos ⟨hc, ha, Nat.one_pos⟩, Option.isSome_some]
    | true =>
      by_cases hw : s.channel.wait = none
      · refine .inr ?_
        by_contra hno
        have hcq : s.dev.cq = [] := by
          by_contra hne
          exact wait_isSome hi h hc ha hne hw
        have hd : SendLoop.Drained s.toSendCounters := ⟨hcq, fun q =>
          le_antisymm (hsend.fifo.bound q) (Nat.le_of_not_lt fun hlt => hno ⟨q, hlt⟩)⟩
        have hall : ∀ q < E.numOfQps, s.ccnt q = E.iters := by
          intro q hq
          have hcan := hinv.posted hu q (by rwa [hc])
          rw [canPost, hsend.hasRoom_of_drained hs hp hd q, Bool.and_true] at hcan
          have hge : E.iters ≤ s.scnt q := by
            simp only [SendLoop.unfinished, hi, Bool.or_eq_false_iff,
              decide_eq_false_iff_not] at hcan
            exact Nat.le_of_not_lt hcan.1
          rw [hsend.ccnt_of_drained hs hd q, le_antisymm (hsend.within q hi) hge,
            SendConfig.accounted_signals_iters hs hi]
        have htot : s.totccnt = E.totIters := by
          rw [hsend.totccnt, SendLoop.totIters, if_pos hi,
            Finset.sum_congr rfl fun q hq => hall q (Finset.mem_range.mp hq), Finset.sum_const,
            Finset.card_range, smul_eq_mul, Nat.mul_comm]
        have hpolls := hinv.polls hc
        simp [SendLoop.polls, htot, hi] at hpolls
      · obtain ⟨c, hw⟩ := Option.ne_none_iff_exists'.mp hw
        refine .inl ⟨.wait, fun q h => (by cases h), ?_⟩
        rw [act, if_pos ⟨hc, ha⟩, hw, Option.map_some, Option.isSome_some]

/-- What is left to do, wherever the loop stands. -/
def work (E : EventLoop) (s : SendState) : Nat := E.workLeft { s with pc := .test }

/-- The work with what wakes the loop in vain: an event, a poll after entries, and a poll behind an
event. -/
def wakings (E : EventLoop) (s : EventState) : Nat :=
  3 * E.work s.toSendState + 2 * s.channel.events + (if s.ne = 0 then 0 else 1) +
    if s.pc = .poll ∧ s.awaiting = false ∧ s.ne = 0 then 1 else 0

/-- The way through the loop body. -/
def wayLeft (E : EventLoop) (s : SendState) : Nat :=
  match s.pc with
  | .test => if E.continues s then E.numOfQps + 4 else 1
  | .qp i => 3 + (E.numOfQps - i)
  | .poll => 2
  | .done => 0

def stepsLeft (E : EventLoop) (s : EventState) : Nat :=
  E.wakings s * (E.numOfQps + 5) + E.wayLeft s.toSendState

theorem work_takes (n : Nat) (s : SendState) (pc : SendPc) :
    E.work { s with toSendCounters := E.takes n s.toSendCounters, pc := pc } +
      min n s.dev.cq.length = E.work s := by
  obtain ⟨-, htot, hposted, hcompleted⟩ := takes_kept (E := E) n s.toSendCounters
  simp only [work, SendLoop.workLeft, htot, Device.uncompleted, hposted, hcompleted, takes_cq,
    List.length_drop]
  omega

/-- The main loop ends as soon as it has nothing more to poll for. -/
theorem continues_eq_false {s : SendState} (hs : E.Sound) (hi : E.testType = .iterations)
    (h : SendInv E.toSendLoop s.toSendCounters) (hp : E.polls s = false) :
    E.continues s = false := by
  have hle : E.totIters ≤ s.totccnt := by
    simp only [SendLoop.polls, Bool.or_eq_false_iff, decide_eq_false_iff_not] at hp
    exact Nat.le_of_not_lt hp.1
  have htot : s.totscnt = E.totIters := by
    rw [h.totscnt, SendLoop.totIters, if_pos hi,
      Finset.sum_congr rfl fun q hq => ((h.accounted_all hs hi hle).1 q (Finset.mem_range.mp hq)).1,
      Finset.sum_const, Finset.card_range, smul_eq_mul, Nat.mul_comm]
  have hge := Nat.not_lt.mpr hle
  simp [SendLoop.continues, htot, hge, hi]

theorem stepsLeft_lt_of_wakings {s t : EventState} (h : E.wakings t < E.wakings s)
    (ht : E.wayLeft t.toSendState ≤ E.numOfQps + 4) : E.stepsLeft t < E.stepsLeft s := by
  have hmul := Nat.mul_le_mul_right (E.numOfQps + 5) h
  rw [Nat.succ_mul] at hmul
  unfold stepsLeft
  omega

theorem stepsLeft_lt_of_wayLeft {s t : EventState} (h : E.wakings t = E.wakings s)
    (ht : E.wayLeft t.toSendState < E.wayLeft s.toSendState) : E.stepsLeft t < E.stepsLeft s := by
  unfold stepsLeft
  rw [h]
  exact Nat.add_lt_add_left ht _

theorem wayLeft_le (s : SendState) : E.wayLeft s ≤ E.numOfQps + 4 := by
  unfold wayLeft
  split
  · split <;> omega
  all_goals omega

/-- Every step of the loop and every completion brings the end nearer. -/
theorem Step.stepsLeft_lt {a : Action} {s t : EventState} (hs : E.Sound)
    (hf : E.FlagsOk 0 E.initSignaled) (hi : E.testType = .iterations) (hr : E.Reachable s)
    (h : Step E s a t) :
    E.stepsLeft t < E.stepsLeft s := by
  have hinv := Inv.of_reachable hi hr
  have hreach := reachable_toSendState hi hr
  have hsend := SendInv.of_reachable hs hf hreach
  cases h with
  | test hpc =>
    refine stepsLeft_lt_of_wayLeft ?_ ?_
    · have hpoll : (if E.continues s.toSendState then SendPc.qp 0 else .done) ≠ .poll := by
        split <;> exact fun h => by cases h
      have hpoll' : s.pc ≠ .poll := by
        rw [hpc]
        exact fun h => by cases h
      simp only [wakings, work, hpoll, hpoll', false_and]
    · simp only [wayLeft, hpc]
      cases E.continues s.toSendState with
      | true =>
        simp only [if_true]
        omega
      | false => exact Nat.one_pos
  | post q hpc hq hc =>
    refine stepsLeft_lt_of_wakings ?_ (wayLeft_le _)
    rw [canPost, Bool.and_eq_true] at hc
    have hnext := hsend.post hs hq hc.1 hc.2
    have htot : s.totscnt + E.postList ≤ E.totIters := hnext.totscnt_le hi
    have hlt := SendLoop.workLeft_post (L := E.toSendLoop) (t := { s.toSendState with pc := .test })
      hs hq htot fun h => by cases h
    simp only [wakings, work]
    simp only at hlt
    omega
  | leave q hpc hq hc =>
    refine stepsLeft_lt_of_wayLeft ?_ ?_
    · simp only [wakings, work, hpc, reduceCtorEq, false_and]
    · simp only [wayLeft, hpc]
      omega
  | endFor q hpc hq =>
    have hpoll : s.pc ≠ .poll := by
      rw [hpc]
      exact fun h => by cases h
    refine stepsLeft_lt_of_wayLeft ?_ ?_
    · have hno : ¬ ((if E.polls s.toSendState then SendPc.poll else .test) = .poll ∧
          decide (s.ne = 0) = false ∧ s.ne = 0) := by
        rintro ⟨-, hne, heq⟩
        exact of_decide_eq_false hne heq
      simp only [wakings, work, if_neg hno, hpoll, false_and, if_false]
    · simp only [wayLeft, hpc]
      cases hp : E.polls s.toSendState with
      | true =>
        simp only [if_true]
        omega
      | false =>
        have hcont : E.continues { s.toSendState with pc := .test } = false :=
          continues_eq_false hs hi (s := s.toSendState) hsend hp
        simp only [Bool.false_eq_true, if_false, hcont]
        omega
  | wait c hpc ha hc =>
    refine stepsLeft_lt_of_wakings ?_ (wayLeft_le _)
    obtain ⟨hpos, rfl⟩ := Channel.wait_eq_some.mp hc
    have hne := hinv.emptied hpc ha
    simp only [wakings, work, hpc, ha, hne, if_true, and_self, and_true, Bool.true_eq_false,
      if_false, and_false]
    omega
  | poll n hpc ha hn =>
    refine stepsLeft_lt_of_wakings ?_ (wayLeft_le _)
    have hw := work_takes (E := E) n s.toSendState .test
    dsimp only at hw
    simp only [wakings, hpc, ha, true_and, reduceCtorEq, false_and, if_false]
    split <;> split <;> omega
  | complete q r hr =>
    refine stepsLeft_lt_of_wakings ?_ (wayLeft_le _)
    obtain ⟨hlt, -⟩ := List.getElem?_eq_some_iff.mp hr
    have hq : q < E.numOfQps := by
      by_contra hge
      rw [SendLoop.posted_scheduled hs hf hreach, hsend.idle q (Nat.le_of_not_lt hge)] at hlt
      cases hlt
    have hwork := SendLoop.workLeft_complete (L := E.toSendLoop)
      (t := { s.toSendState with pc := .test }) hq hlt (fun h => by cases h) r
    have hev := Channel.events_entry_le s.channel
    simp only [wakings, work]
    simp only at hwork
    split <;> omega

theorem Step.posted_le {a : Action} {s t : EventState} (h : Step E s a t) (q : Nat) :
    (s.dev.posted q).length ≤ (t.dev.posted q).length := by
  cases h with
  | test => exact le_refl _
  | post i =>
    simp only [SendLoop.postSend, Device.post]
    by_cases hq : q = i
    · subst hq
      rw [Function.update_self, List.length_append]
      exact Nat.le_add_right _ _
    · rw [Function.update_of_ne hq]
  | leave => exact le_refl _
  | endFor => exact le_refl _
  | wait => exact le_refl _
  | poll n =>
    dsimp only
    rw [(takes_kept n s.toSendCounters).2.2.1]
  | complete => exact le_refl _

theorem Step.completed_eq {a : Action} {s t : EventState} (h : Step E s a t) (q : Nat) :
    t.dev.completed q = s.dev.completed q ∨
      a = .complete q ∧ t.dev.completed q = s.dev.completed q + 1 := by
  cases h with
  | test => exact .inl rfl
  | post => exact .inl rfl
  | leave => exact .inl rfl
  | endFor => exact .inl rfl
  | wait => exact .inl rfl
  | poll n =>
    left
    dsimp only
    rw [(takes_kept n s.toSendCounters).2.2.2]
  | complete i r =>
    simp only [Device.complete]
    by_cases hq : q = i
    · subst hq
      exact .inr ⟨rfl, Function.update_self ..⟩
    · exact .inl (Function.update_of_ne hq _ _)

end EventLoop

end Perftest
