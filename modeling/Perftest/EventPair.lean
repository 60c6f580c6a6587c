import Perftest.AcceptedRuns
import Perftest.EventLoop
import Perftest.PeakReport
import Perftest.RecvSupply

namespace Perftest

open EventQueue WorkQueue Transition Checked

/-- Where `run_iter_bw_server` stands with `use_event`: at its condition, waiting for an event, in
its polls, or behind its end. -/
inductive EventServerPc where
  | test | wait | poll | done
deriving DecidableEq, Repr

/-- `run_iter_bw_server` with `use_event`: the entries of its queue name the QP of a message and the
QP whose index the receive carries that it used. -/
structure EventServer where
  pc : EventServerPc
  channel : Channel
  cq : List (Nat × Nat)
  rcnt : Nat
  recv : RecvState

/-- The loops of both sides, and the messages that were delivered on each QP. -/
structure EventPair where
  client : EventState
  server : EventServer
  delivered : Nat → Nat

/-- A client that runs `run_iter_bw` and a server, on a transport that neither loses nor repeats a
message. -/
structure EventPeers where
  client : SendConfig
  paced : Bool
  server : RecvConfig

namespace EventPeers

variable (P : EventPeers)

def loop : EventLoop := { runIterBw P.client with paced := P.paced }

def totIters : Nat := P.server.iters * P.server.numOfQps

/-- The receives that no message on its way through the queue has used. -/
def unused (s : EventServer) (label : Nat) : Nat :=
  s.recv.wqes label - s.cq.countP fun e => e.2 = label

inductive Action where
  | client (a : EventLoop.Action) | deliver (q label : Nat) | test | wait | poll (n : Nat)
deriving DecidableEq, Repr

/-- A request completes when its message was delivered. -/
def acked (s : EventPair) : EventLoop.Action → Bool
  | .complete q => s.client.dev.completed q < s.delivered q
  | _ => true

def handleAll (es : List (Nat × Nat)) (r : RecvState) : RecvState :=
  es.foldl (fun r e => P.server.handleCompletion e.1 e.2 r) r

def act : Action → EventPair → Option EventPair
  | .client a, s =>
    if acked s a then (P.loop.act a s.client).map fun t => { s with client := t } else none
  | .deliver q label, s =>
    if s.delivered q < (s.client.dev.posted q).length ∧ q ∈ P.server.receivers ∧
        label ∈ P.server.receivers ∧ P.server.recvQueue q = P.server.recvQueue label ∧
        0 < unused s.server label then
      some { s with
        delivered := Function.update s.delivered q (s.delivered q + 1)
        server := { s.server with
          cq := s.server.cq ++ [(q, label)]
          channel := s.server.channel.entry } }
    else none
  | .test, s =>
    if s.server.pc = .test then
      some { s with server := { s.server with
        pc := if s.server.rcnt < P.totIters then .wait else .done } }
    else none
  | .wait, s =>
    if s.server.pc = .wait then
      s.server.channel.wait.map fun c => { s with server := { s.server with
        channel := c
        pc := .poll } }
    else none
  | .poll n, s =>
    if s.server.pc = .poll ∧ 0 < n then
      some { s with server := { s.server with
        recv := P.handleAll (s.server.cq.take n) s.server.recv
        rcnt := s.server.rcnt + min n s.server.cq.length
        cq := s.server.cq.drop n
        pc := if s.server.cq = [] then .test else .poll } }
    else none

/-- Both sides are about to run over a size; the server has posted its receives for it. -/
structure IsInit (s : EventPair) : Prop where
  client : P.loop.IsInit s.client
  pc : s.server.pc = .test
  live : s.server.channel.Live
  cq : s.server.cq = []
  rcnt : s.server.rcnt = 0
  supplied : P.server.Reachable s.server.recv
  received : ∀ q, s.server.recv.received q = 0
  delivered : ∀ q, s.delivered q = 0

def Reachable : EventPair → Prop := Transition.Reachable P.IsInit (stepOf P.act)

/-- The peers agree on the run, and nothing but the window holds the client back. -/
structure Sound : Prop where
  client : P.client.Sound
  iterations : P.client.testType = .iterations
  depth : P.client.txDepth ≤ P.client.iters
  list : P.client.postList ≤ P.client.txDepth
  unpaced : P.paced = false
  firstQp : P.server.firstQp = 0
  numOfQps : P.server.numOfQps = P.client.numOfQps
  iters : P.server.iters = P.client.iters

variable {P}

theorem mem_receivers (hP : P.Sound) {q : Nat} :
    q ∈ P.server.receivers ↔ q < P.client.numOfQps := by
  rw [RecvConfig.receivers, hP.firstQp, hP.numOfQps, Finset.mem_Ico]
  exact and_iff_right (Nat.zero_le q)

end EventPeers

namespace RecvConfig

variable (c : RecvConfig) (qp label : Nat) (s : RecvState)

theorem handleCompletion_received : (c.handleCompletion qp label s).received =
    Function.update s.received qp (s.received qp + 1) := by
  unfold handleCompletion
  dsimp only
  split <;> rfl

/-- A completion uses up one receive, of the QP whose index it carries. -/
theorem handleCompletion_wqes (l : Nat) :
    s.wqes l ≤ (c.handleCompletion qp label s).wqes l + if l = label then 1 else 0 := by
  by_cases he : l = label
  · subst he
    rw [if_pos rfl]
    unfold handleCompletion
    dsimp only
    split
    next =>
      simp only [Function.update_self]
      omega
    next =>
      simp only [Function.update_self]
      omega
  · rw [if_neg he, Nat.add_zero]
    unfold handleCompletion
    dsimp only
    split
    next => simp only [Function.update_of_ne he, le_refl]
    next => simp only [Function.update_of_ne he, le_refl]

end RecvConfig

/-- What the server has received, with what is still in its queue, is what was delivered; every
entry stands for a receive. -/
structure Received (c : RecvConfig) (delivered : Nat → Nat) (recv : RecvState)
    (rcnt : Nat) (cq : List (Nat × Nat)) : Prop where
  supplied : c.Reachable recv
  counted : rcnt = ∑ q ∈ Finset.range c.numOfQps, recv.received q
  entries : ∀ q, recv.received q + (cq.countP fun e => e.1 = q) = delivered q
  members : ∀ e ∈ cq, e.1 ∈ c.receivers ∧ e.2 ∈ c.receivers ∧ c.recvQueue e.1 = c.recvQueue e.2
  cover : ∀ label, (cq.countP fun e => e.2 = label) ≤ recv.wqes label

namespace Received

variable {c : RecvConfig} {delivered : Nat → Nat} {recv : RecvState} {rcnt : Nat}
  {cq : List (Nat × Nat)} {e : Nat × Nat}

theorem handle (h : Received c delivered recv rcnt (e :: cq)) (hd : ∀ q, delivered q ≤ c.iters) :
    Received c delivered (c.handleCompletion e.1 e.2 recv) (rcnt + 1) cq := by
  obtain ⟨hq, hl, hqueue⟩ := h.members e (List.mem_cons_self ..)
  refine ⟨h.supplied.tail ⟨.completion e.1 e.2, ?_⟩, ?_, fun q => ?_,
    fun e' he' => h.members e' (List.mem_cons_of_mem _ he'), fun label => ?_⟩
  · have hcov := h.cover e.2
    have hent := h.entries e.1
    have hle := hd e.1
    rw [List.countP_cons] at hcov hent
    simp only [decide_true, if_true] at hcov hent
    exact if_pos ⟨hq, hl, hqueue, by omega, by omega⟩
  · rw [RecvConfig.handleCompletion_received,
      sum_update_add recv.received (Finset.mem_Ico.mp hq).2, h.counted]
  · have hent := h.entries q
    rw [List.countP_cons] at hent
    rw [RecvConfig.handleCompletion_received]
    by_cases he : q = e.1
    · subst he
      simp only [decide_true, if_true] at hent
      rw [Function.update_self]
      omega
    · simp only [Ne.symm he, decide_false, Bool.false_eq_true, if_false, Nat.add_zero] at hent
      rw [Function.update_of_ne he]
      exact hent
  · have hcov := h.cover label
    have hw := RecvConfig.handleCompletion_wqes c e.1 e.2 recv label
    rw [List.countP_cons] at hcov
    by_cases he : label = e.2
    · simp only [he, decide_true, if_true] at hcov hw ⊢
      omega
    · simp only [Ne.symm he, decide_false, Bool.false_eq_true, if_false, Nat.add_zero] at hcov
      simp only [he, if_false, Nat.add_zero] at hw
      exact hcov.trans hw

theorem poll (h : Received c delivered recv rcnt cq) (hd : ∀ q, delivered q ≤ c.iters) (n : Nat) :
    Received c delivered
      ((cq.take n).foldl (fun r e => c.handleCompletion e.1 e.2 r) recv)
      (rcnt + min n cq.length) (cq.drop n) := by
  induction cq generalizing n recv rcnt with
  | nil =>
    rw [List.take_nil, List.drop_nil, List.length_nil, Nat.min_zero]
    exact h
  | cons e cq ih =>
    cases n with
    | zero =>
      rw [Nat.zero_min]
      exact h
    | succ n =>
      have hn := ih (h.handle hd) n
      have hcount : rcnt + min (n + 1) (cq.length + 1) = rcnt + 1 + min n cq.length := by omega
      rw [List.length_cons, hcount]
      exact hn

/-- A message is delivered that has a receive. -/
theorem deliver (h : Received c delivered recv rcnt cq) {q label : Nat} (hq : q ∈ c.receivers)
    (hl : label ∈ c.receivers) (hqueue : c.recvQueue q = c.recvQueue label)
    (hfree : (cq.countP fun e => e.2 = label) < recv.wqes label) :
    Received c (Function.update delivered q (delivered q + 1)) recv rcnt (cq ++ [(q, label)]) := by
  refine ⟨h.supplied, h.counted, fun q' => ?_, fun e he => ?_, fun l => ?_⟩
  · have hent := h.entries q'
    rw [List.countP_append, List.countP_singleton]
    by_cases he : q' = q
    · subst he
      simp only [decide_true, if_true, Function.update_self]
      omega
    · simp only [Ne.symm he, decide_false, Bool.false_eq_true, if_false, Nat.add_zero,
        Function.update_of_ne he]
      exact hent
  · rcases List.mem_append.mp he with he | he
    · exact h.members e he
    · obtain rfl := List.mem_singleton.mp he
      exact ⟨hq, hl, hqueue⟩
  · have hcov := h.cover l
    rw [List.countP_append, List.countP_singleton]
    by_cases he : l = label
    · subst he
      simp only [decide_true, if_true]
      omega
    · simp only [Ne.symm he, decide_false, Bool.false_eq_true, if_false, Nat.add_zero]
      exact hcov

end Received

namespace EventPeers

variable {P : EventPeers} {s t : EventPair}

/-- What holds between the steps of both sides. -/
structure Inv (P : EventPeers) (s : EventPair) : Prop where
  client : P.loop.Reachable s.client
  received : Received P.server s.delivered s.server.recv s.server.rcnt s.server.cq
  delivered : ∀ q, s.delivered q ≤ (s.client.dev.posted q).length
  completed : ∀ q, s.client.dev.completed q ≤ s.delivered q
  watched : Watched s.server.cq.length s.server.channel (s.server.pc = .test ∨ s.server.pc = .wait)
  waiting : s.server.pc = .wait → s.server.rcnt < P.totIters
  ended : s.server.pc = .done → P.totIters ≤ s.server.rcnt

theorem loop_flags (hP : P.Sound) : P.loop.FlagsOk 0 P.loop.initSignaled :=
  SendConfig.FlagsOk.init hP.client fun _ => hP.depth

theorem sendInv (hP : P.Sound) (h : P.loop.Reachable s.client) :
    SendInv P.loop.toSendLoop s.client.toSendCounters :=
  SendInv.of_reachable hP.client (loop_flags hP) (EventLoop.reachable_toSendState hP.iterations h)

/-- A QP has as many requests as the loop counts, since none is chained. -/
theorem length_posted (hP : P.Sound) (h : P.loop.Reachable s.client) (q : Nat) :
    (s.client.dev.posted q).length = s.client.scnt q := by
  rw [SendLoop.posted_scheduled hP.client (loop_flags hP)
    (EventLoop.reachable_toSendState hP.iterations h), List.length_flatMap]
  have hone : ∀ k, (P.loop.scheduled k).length = 1 := fun _ => rfl
  simp only [hone, List.map_const', List.length_range, List.sum_replicate, smul_eq_mul, Nat.mul_one]

theorem Inv.delivered_le (hP : P.Sound) (h : Inv P s) (q : Nat) :
    s.delivered q ≤ P.server.iters := by
  have hle := h.delivered q
  rw [length_posted hP h.client] at hle
  rw [hP.iters]
  exact hle.trans ((sendInv hP h.client).within q hP.iterations)

theorem Inv.of_init (h : P.IsInit s) : Inv P s := by
  have hdev : s.client.dev = Device.empty := by
    rw [h.client.1.1]
    rfl
  refine ⟨.of_init h.client, ⟨h.supplied, ?_, fun q => ?_, fun e he => ?_, fun l => ?_⟩,
    fun q => ?_, fun q => ?_, ?_, fun hpc => ?_, fun hpc => ?_⟩
  · rw [h.rcnt]
    exact (Finset.sum_eq_zero fun q _ => h.received q).symm
  · rw [h.received, h.delivered, h.cq]
    rfl
  · rw [h.cq] at he
    cases he
  · rw [h.cq]
    exact Nat.zero_le _
  · rw [h.delivered]
    exact Nat.zero_le _
  · rw [hdev]
    exact Nat.zero_le _
  · rw [h.cq]
    exact .of_empty h.live
  · cases h.pc.symm.trans hpc
  · cases h.pc.symm.trans hpc

/-- What a step of either side, or a delivery, can do. -/
inductive Step (P : EventPeers) (s : EventPair) : EventPair → Prop
  | client (a : EventLoop.Action) (t : EventState) (ha : acked s a = true)
    (h : P.loop.act a s.client = some t) : Step P s { s with client := t }
  | deliver (q label : Nat) (hlt : s.delivered q < (s.client.dev.posted q).length)
    (hq : q ∈ P.server.receivers) (hl : label ∈ P.server.receivers)
    (hqueue : P.server.recvQueue q = P.server.recvQueue label) (hfree : 0 < unused s.server label) :
    Step P s { s with
      delivered := Function.update s.delivered q (s.delivered q + 1)
      server := { s.server with
        cq := s.server.cq ++ [(q, label)]
        channel := s.server.channel.entry } }
  | test (hpc : s.server.pc = .test) :
    Step P s { s with server := { s.server with
      pc := if s.server.rcnt < P.totIters then .wait else .done } }
  | wait (c : Channel) (hpc : s.server.pc = .wait) (hc : s.server.channel.wait = some c) :
    Step P s { s with server := { s.server with
      channel := c
      pc := .poll } }
  | poll (n : Nat) (hpc : s.server.pc = .poll) (hn : 0 < n) :
    Step P s { s with server := { s.server with
      recv := P.handleAll (s.server.cq.take n) s.server.recv
      rcnt := s.server.rcnt + min n s.server.cq.length
      cq := s.server.cq.drop n
      pc := if s.server.cq = [] then .test else .poll } }

theorem step_of_act {a : Action} (h : P.act a s = some t) : Step P s t := by
  cases a with
  | client a =>
    obtain ⟨ha, h⟩ := Option.ite_none_right_eq_some.mp h
    obtain ⟨u, hu, rfl⟩ := Option.map_eq_some_iff.mp h
    exact .client a u ha hu
  | deliver q label =>
    obtain ⟨⟨hlt, hq, hl, hqueue, hfree⟩, h⟩ := Option.ite_none_right_eq_some.mp h
    obtain rfl := Option.some.inj h
    exact .deliver q label hlt hq hl hqueue hfree
  | test =>
    obtain ⟨hpc, h⟩ := Option.ite_none_right_eq_some.mp h
    obtain rfl := Option.some.inj h
    exact .test hpc
  | wait =>
    obtain ⟨hpc, h⟩ := Option.ite_none_right_eq_some.mp h
    obtain ⟨c, hc, rfl⟩ := Option.map_eq_some_iff.mp h
    exact .wait c hpc hc
  | poll n =>
    obtain ⟨⟨hpc, hn⟩, h⟩ := Option.ite_none_right_eq_some.mp h
    obtain rfl := Option.some.inj h
    exact .poll n hpc hn

theorem Inv.step (hP : P.Sound) (h : Inv P s) (hst : Step P s t) : Inv P t := by
  cases hst with
  | client a u ha hu =>
    have hstep := EventLoop.step_of_act hP.iterations hu
    refine ⟨h.client.tail ⟨a, hu⟩, h.received, fun q => (h.delivered q).trans (hstep.posted_le q),
      fun q => ?_, h.watched, h.waiting, h.ended⟩
    rcases hstep.completed_eq q with heq | ⟨rfl, heq⟩
    · exact heq.trans_le (h.completed q)
    · exact heq.trans_le (of_decide_eq_true ha)
  | deliver q label hlt hq hl hqueue hfree =>
    refine ⟨h.client, h.received.deliver hq hl hqueue (Nat.lt_of_sub_pos hfree), fun q' => ?_,
      fun q' => ?_, ?_, h.waiting, h.ended⟩
    · by_cases he : q' = q
      · subst he
        dsimp only
        rw [Function.update_self]
        exact hlt
      · dsimp only
        rw [Function.update_of_ne he]
        exact h.delivered q'
    · have hc := h.completed q'
      by_cases he : q' = q
      · subst he
        dsimp only
        rw [Function.update_self]
        exact hc.trans (Nat.le_succ _)
      · dsimp only
        rw [Function.update_of_ne he]
        exact hc
    · dsimp only
      rw [List.length_append]
      exact h.watched.entry
  | test hpc =>
    refine ⟨h.client, h.received, h.delivered, h.completed, h.watched.mono fun _ => .inl hpc,
      fun hw => ?_, fun hd => ?_⟩
    · dsimp only at hw
      split at hw
      next hlt => exact hlt
      next => cases hw
    · dsimp only at hd
      split at hd
      next => cases hd
      next hge => exact Nat.le_of_not_lt hge
  | wait c hpc hc =>
    refine ⟨h.client, h.received, h.delivered, h.completed, (Watched.wait hc).mono fun hd => ?_,
      fun hw => ?_, fun hd => ?_⟩
    · rcases hd with hd | hd <;> cases hd
    · cases hw
    · cases hd
  | poll n hpc hn =>
    refine ⟨h.client, h.received.poll (h.delivered_le hP) n, h.delivered, h.completed, ?_,
      fun hw => ?_, fun hd => ?_⟩
    · dsimp only
      rw [List.length_drop]
      refine (h.watched.poll hn).mono fun hd => ?_
      by_cases hcq : s.server.cq = []
      · rw [hcq, List.length_nil, Nat.min_zero]
      · rw [if_neg hcq] at hd
        rcases hd with hd | hd <;> cases hd
    · dsimp only at hw
      split at hw <;> cases hw
    · dsimp only at hd
      split at hd <;> cases hd

theorem Inv.of_reachable (hP : P.Sound) (h : P.Reachable s) : Inv P s := by
  refine Transition.Reachable.invariant (P := Inv P) (fun s h0 => .of_init h0)
    (fun s t hs hst => ?_) h
  obtain ⟨a, ha⟩ := hst
  exact hs.step hP (step_of_act ha)

/-- A message that is not delivered finds a receive once the queue is empty. -/
theorem exists_deliver (hP : P.Sound) (hr : P.server.ReceivesSupplied) (h : Inv P s)
    (hcq : s.server.cq = []) {q : Nat} (hlt : s.delivered q < (s.client.dev.posted q).length) :
    ∃ label, (P.act (.deliver q label) s).isSome = true := by
  have hscnt := hlt
  rw [length_posted hP h.client] at hscnt
  have hsend := sendInv hP h.client
  have hmem : q ∈ P.server.receivers := by
    rw [mem_receivers hP]
    by_contra hge
    have hidle := hsend.idle q (Nat.le_of_not_lt hge)
    omega
  have hgot : s.server.recv.received q < P.server.iters := by
    have hent := h.received.entries q
    have hle := hsend.within q hP.iterations
    have hit : P.server.iters = P.loop.iters := hP.iters
    rw [hcq, List.countP_nil] at hent
    omega
  have hav := hr.available _ h.received.supplied q hmem hgot
  obtain ⟨label, hl, hne⟩ := Finset.exists_ne_zero_of_sum_ne_zero hav.ne'
  obtain ⟨hlm, hqueue⟩ := Finset.mem_filter.mp hl
  have hfree : 0 < unused s.server label := by
    rw [unused, hcq, List.countP_nil, Nat.sub_zero]
    exact Nat.pos_of_ne_zero hne
  refine ⟨label, ?_⟩
  rw [act, if_pos ⟨hlt, hmem, hlm, hqueue.symm, hfree⟩, Option.isSome_some]

/-- Everything has arrived. -/
structure Complete (P : EventPeers) (s : EventPair) : Prop where
  client : s.client.pc = .done
  server : s.server.pc = .done
  sent : ∀ q < P.client.numOfQps,
    s.client.scnt q = P.client.iters ∧ s.client.ccnt q = P.client.iters
  received : ∀ q < P.client.numOfQps, s.server.recv.received q = P.client.iters

/-- A server behind its loop has received all messages. -/
theorem received_of_totIters (hP : P.Sound) (h : Inv P s) (hd : P.totIters ≤ s.server.rcnt)
    {q : Nat} (hq : q < P.client.numOfQps) : s.server.recv.received q = P.client.iters := by
  have hle : ∀ q, s.server.recv.received q ≤ P.server.iters := by
    intro q
    have hent := h.received.entries q
    have := h.delivered_le hP q
    omega
  rw [← hP.iters]
  refine eq_of_sum_ge (n := P.server.numOfQps) (fun q _ => hle q) ?_ (hP.numOfQps ▸ hq)
  rw [← h.received.counted]
  exact hd

theorem sent_of_done (hP : P.Sound) (h : Inv P s) (hd : s.client.pc = .done) {q : Nat}
    (hq : q < P.client.numOfQps) :
    s.client.scnt q = P.client.iters ∧ s.client.ccnt q = P.client.iters :=
  ((sendInv hP h.client).accounted_all hP.client hP.iterations
    (SendLoop.totals_of_done (EventLoop.reachable_toSendState hP.iterations h.client) hd).2).1 q hq

/-- The client is not held up while everything it has posted is delivered. -/
theorem exists_client (hP : P.Sound) (h : Inv P s) (hpc : s.client.pc ≠ .done)
    (hall : ∀ q, (s.client.dev.posted q).length ≤ s.delivered q) :
    ∃ a, (P.act a s).isSome = true := by
  rcases EventLoop.enabled_or_uncompleted (E := P.loop) hP.client (loop_flags hP) hP.iterations
    hP.list hP.unpaced h.client hpc with ⟨a, hno, ha⟩ | ⟨q, hlt⟩
  · refine ⟨.client a, ?_⟩
    have hacked : acked s a = true := by
      cases a with
      | complete q => exact absurd rfl (hno q)
      | test => rfl
      | post => rfl
      | leave => rfl
      | endFor => rfl
      | wait => rfl
      | poll n => rfl
    rw [act, if_pos hacked, Option.isSome_map]
    exact ha
  · refine ⟨.client (.complete q), ?_⟩
    have hacked : acked s (.complete q) = true := decide_eq_true (hlt.trans_le (hall q))
    rw [act, if_pos hacked, Option.isSome_map]
    simp only [EventLoop.act, List.getElem?_eq_getElem hlt, Option.isSome_some]

/-- Where neither side nor the transport can go on, everything has arrived. -/
theorem complete_or_enabled (hP : P.Sound) (hr : P.server.ReceivesSupplied) (h : Inv P s) :
    Complete P s ∨ ∃ a, (P.act a s).isSome = true := by
  cases hpc : s.server.pc with
  | test =>
    refine .inr ⟨.test, ?_⟩
    rw [act, if_pos hpc, Option.isSome_some]
  | poll =>
    refine .inr ⟨.poll 1, ?_⟩
    rw [act, if_pos ⟨hpc, Nat.one_pos⟩, Option.isSome_some]
  | wait =>
    right
    by_cases hw : s.server.channel.wait = none
    · have hcq : s.server.cq = [] := by
        by_contra hne
        exact h.watched.wait_isSome (.inr hpc) (List.length_pos_iff.mpr hne) hw
      by_cases hun : ∃ q, s.delivered q < (s.client.dev.posted q).length
      · obtain ⟨q, hlt⟩ := hun
        obtain ⟨label, hd⟩ := exists_deliver hP hr h hcq hlt
        exact ⟨_, hd⟩
      have hall : ∀ q, (s.client.dev.posted q).length ≤ s.delivered q := fun q =>
        Nat.le_of_not_lt fun hlt => hun ⟨q, hlt⟩
      refine exists_client hP h (fun hd => ?_) hall
      have hgot : ∀ q < P.server.numOfQps, s.server.recv.received q = P.server.iters := by
        intro q hq
        have hent := h.received.entries q
        have hsent := (sent_of_done hP h hd (hP.numOfQps ▸ hq)).1
        have hlen := hall q
        have hle := h.delivered_le hP q
        rw [length_posted hP h.client, hsent, ← hP.iters] at hlen
        rw [hcq, List.countP_nil] at hent
        omega
      have hlt := h.waiting hpc
      rw [h.received.counted, Finset.sum_congr rfl fun q hq => hgot q (Finset.mem_range.mp hq),
        Finset.sum_const, Finset.card_range, smul_eq_mul, Nat.mul_comm] at hlt
      exact absurd hlt (lt_irrefl _)
    · refine ⟨.wait, ?_⟩
      obtain ⟨c, hw⟩ := Option.ne_none_iff_exists'.mp hw
      rw [act, if_pos hpc, hw, Option.map_some, Option.isSome_some]
  | done =>
    have hgot := fun q hq => received_of_totIters hP h (h.ended hpc) (q := q) hq
    by_cases hd : s.client.pc = .done
    · exact .inl ⟨hd, hpc, fun q hq => sent_of_done hP h hd hq, hgot⟩
    refine .inr (exists_client hP h hd fun q => ?_)
    have hsend := sendInv hP h.client
    rw [length_posted hP h.client]
    rcases Nat.lt_or_ge q P.client.numOfQps with hlt | hge
    · have hent := h.received.entries q
      have hle : s.client.scnt q ≤ P.client.iters := hsend.within q hP.iterations
      have := hgot q hlt
      omega
    · have hidle : s.client.scnt q = 0 := hsend.idle q hge
      omega

def EventServerPc.wayLeft : EventServerPc → Nat
  | .poll => 2
  | .test => 1
  | .wait => 0
  | .done => 0

/-- What is left to do for both sides and the transport. -/
def stepsLeft (P : EventPeers) (s : EventPair) : Nat :=
  P.loop.stepsLeft s.client + (5 * (∑ q ∈ Finset.range P.server.numOfQps,
    (P.server.iters - s.delivered q)) + s.server.cq.length + 3 * s.server.channel.events +
      EventServerPc.wayLeft s.server.pc)

theorem Step.stepsLeft_lt (hP : P.Sound) (h : Inv P s) (hst : Step P s t) :
    P.stepsLeft t < P.stepsLeft s := by
  cases hst with
  | client a u ha hu =>
    have hlt := (EventLoop.step_of_act hP.iterations hu).stepsLeft_lt hP.client (loop_flags hP)
      hP.iterations h.client
    exact Nat.add_lt_add_right hlt _
  | deliver q label hlt hq hl hqueue hfree =>
    have hmem : q ∈ Finset.range P.server.numOfQps :=
      Finset.mem_range.mpr (Finset.mem_Ico.mp hq).2
    have hscnt : s.delivered q < P.server.iters := by
      rw [length_posted hP h.client] at hlt
      rw [hP.iters]
      exact hlt.trans_le ((sendInv hP h.client).within q hP.iterations)
    have hsum : ∑ i ∈ Finset.range P.server.numOfQps,
        (P.server.iters - Function.update s.delivered q (s.delivered q + 1) i) <
          ∑ i ∈ Finset.range P.server.numOfQps, (P.server.iters - s.delivered i) := by
      refine Finset.sum_lt_sum (fun i _ => ?_) ⟨q, hmem, ?_⟩
      · by_cases hi : i = q
        · subst hi
          rw [Function.update_self]
          omega
        · rw [Function.update_of_ne hi]
      · rw [Function.update_self]
        omega
    have hev := Channel.events_entry_le s.server.channel
    simp only [stepsLeft, List.length_append, List.length_singleton]
    omega
  | test hpc =>
    by_cases hlt : s.server.rcnt < P.totIters
    · simp only [stepsLeft, hpc, hlt, if_true, EventServerPc.wayLeft]
      omega
    · simp only [stepsLeft, hpc, hlt, if_false, EventServerPc.wayLeft]
      omega
  | wait c hpc hc =>
    obtain ⟨hpos, rfl⟩ := Channel.wait_eq_some.mp hc
    simp only [stepsLeft, hpc, EventServerPc.wayLeft]
    omega
  | poll n hpc hn =>
    simp only [stepsLeft, hpc, EventServerPc.wayLeft, List.length_drop]
    by_cases hcq : s.server.cq = []
    · simp only [hcq, if_true, List.length_nil]
      omega
    · have hpos := List.length_pos_iff.mpr hcq
      simp only [hcq, if_false]
      omega

/-- However both sides, the transport and the completions take turns, the run ends. -/
theorem length_run_le (hP : P.Sound) (h : P.IsInit s) {as : List Action}
    (hr : run P.act as s = some t) : as.length ≤ P.stepsLeft s :=
  length_le_of_measure (P := Inv P) P.stepsLeft (fun _ _ _ hi ha => hi.step hP (step_of_act ha))
    (fun _ _ _ hi ha => (step_of_act ha).stepsLeft_lt hP hi) (.of_init h) hr

/-- Every run can be taken to an end. -/
theorem exists_stuck (hP : P.Sound) (h : Inv P s) :
    ∃ as t, run P.act as s = some t ∧ ∀ a, P.act a t = none := by
  induction hn : P.stepsLeft s using Nat.strong_induction_on generalizing s with
  | _ n ih =>
    by_cases hen : ∃ a t, P.act a s = some t
    · obtain ⟨a, t, ha⟩ := hen
      have hst := step_of_act ha
      obtain ⟨as, u, hrun, hno⟩ := ih _ (hn ▸ hst.stepsLeft_lt hP h) (h.step hP hst) rfl
      exact ⟨a :: as, u, (run_cons ha).trans hrun, hno⟩
    · refine ⟨[], s, rfl, fun a => ?_⟩
      rw [Option.eq_none_iff_forall_ne_some]
      exact fun t ht => hen ⟨a, t, ht⟩

end EventPeers

/-- A list does not fit the depth, and nothing is ever posted. -/
theorem RecvConfig.wqes_eq_zero_of_unposted {c : RecvConfig} {s : RecvState}
    (hz : c.sizePerQp.toNat * c.recvPostList.toNat = 0) (h : c.Reachable s) :
    ∀ q ∈ c.receivers, s.wqes q = 0 := by
  refine Transition.Reachable.invariant (P := fun s => ∀ q ∈ c.receivers, s.wqes q = 0) ?_ ?_ h
  · rintro _ rfl q hq
    simp only [ctxSetRecvWqes, if_pos hq, hz]
  · rintro s t hs ⟨a, ha⟩ q hq
    cases a with
    | completion qp label =>
      obtain ⟨⟨-, hl, -, hpos, -⟩, -⟩ := Option.ite_none_right_eq_some.mp ha
      exact absurd (hs label hl) hpos.ne'
    | nextSize =>
      obtain ⟨-, he⟩ := Option.ite_none_right_eq_some.mp ha
      obtain rfl := Option.some.inj he
      simp only [ctxSetRecvWqes, if_pos hq, hz, hs q hq]

namespace EventPeers

variable {P : EventPeers} {s t : EventPair}

/-- A server without receives gets no message. -/
theorem not_complete_of_unposted (hi : 0 < P.totIters)
    (hz : P.server.sizePerQp.toNat * P.server.recvPostList.toNat = 0) (h : P.Reachable s) :
    ¬ Complete P s := by
  have hnone : P.server.Reachable s.server.recv ∧ s.server.cq = [] ∧ s.server.rcnt = 0 ∧
      s.server.pc ≠ .done := by
    refine Transition.Reachable.invariant (P := fun s : EventPair =>
      P.server.Reachable s.server.recv ∧ s.server.cq = [] ∧ s.server.rcnt = 0 ∧
        s.server.pc ≠ .done) (fun s h0 => ⟨h0.supplied, h0.cq, h0.rcnt, ?_⟩) ?_ h
    · rw [h0.pc]
      exact fun h => by cases h
    · rintro s t ⟨hr, hcq, hcnt, hpc⟩ ⟨a, ha⟩
      cases step_of_act ha with
      | client a u => exact ⟨hr, hcq, hcnt, hpc⟩
      | deliver q label hlt hq hl hqueue hfree =>
        rw [unused, RecvConfig.wqes_eq_zero_of_unposted hz hr label hl, Nat.zero_sub] at hfree
        exact absurd hfree (Nat.lt_irrefl 0)
      | test =>
        refine ⟨hr, hcq, hcnt, ?_⟩
        dsimp only
        rw [hcnt, if_pos hi]
        exact fun h => by cases h
      | wait c => exact ⟨hr, hcq, hcnt, fun h => by cases h⟩
      | poll n =>
        dsimp only
        rw [hcq, List.take_nil, List.drop_nil, List.length_nil, Nat.min_zero, if_pos rfl]
        exact ⟨hr, rfl, hcnt, fun h => by cases h⟩
  intro hc
  exact hnone.2.2.2 hc.server

/-- The start of a test of one size. -/
def start (P : EventPeers) : EventPair where
  client := { P.loop.init with state := .startState, pc := .test, channel := ⟨true, 0⟩, ne := 0,
                               awaiting := false }
  server := ⟨.test, ⟨true, 0⟩, [], 0, P.server.ctxSetRecvWqes fun _ => 0⟩
  delivered _ := 0

theorem isInit_start (P : EventPeers) : P.IsInit P.start where
  client := ⟨⟨rfl, rfl⟩, .inl rfl, rfl⟩
  pc := rfl
  live := .inl rfl
  cq := rfl
  rcnt := rfl
  supplied := .of_init rfl
  received _ := rfl
  delivered _ := rfl

/-- Every run that goes on as long as it can ends with everything sent and received. -/
def Ends (P : EventPeers) : Prop :=
  ∀ s as t, P.IsInit s → run P.act as s = some t → (∀ a, P.act a t = none) → Complete P t

theorem ends_of_supplied (hP : P.Sound) (hr : P.server.ReceivesSupplied) : P.Ends := by
  intro s as t hi hrun hno
  have hinv := Inv.of_reachable hP ((Transition.Reachable.of_init hi).run hrun)
  rcases complete_or_enabled hP hr hinv with hc | ⟨a, ha⟩
  · exact hc
  · rw [hno a] at ha
    cases ha

theorem posts_of_ends (hP : P.Sound) (hi : 0 < P.totIters) (h : P.Ends) :
    P.server.sizePerQp.toNat * P.server.recvPostList.toNat ≠ 0 := by
  intro hz
  obtain ⟨as, t, hrun, hno⟩ := exists_stuck hP (Inv.of_init P.isInit_start)
  refine not_complete_of_unposted hi hz ?_ (h P.start as t P.isInit_start hrun hno)
  exact (Transition.Reachable.of_init P.isInit_start).run hrun

end EventPeers

/-- The loops of an accepted client and an accepted server; credits are for a device that asks for
them. -/
def eventPeers (d e : PerftestParameters) (sendRcredit : Bool) : EventPeers where
  client := d.sendConfig
  paced := d.rateLimitType = .swRateLimit || sendRcredit
  server := e.recvConfig

section Accepted

variable {b b' : Build} {prog prog' : Program} {other other' : OtherParameters}
  {servername servername' : Bool} {args args' : List Opt} {d e : PerftestParameters}

/-- An event-driven run in one direction over a reliable transport, with what both command lines
agree on. -/
structure EventRun (d e : PerftestParameters) : Prop where
  events : d.useEvent = true ∧ e.useEvent = true
  receives : hasRecvComp d.verb = true ∧ hasRecvComp e.verb = true
  reliable : d.connectionType = .rc ∨ d.connectionType = .xrc ∨ d.connectionType = .dc
  client : d.testType = .iterations ∧ d.tst = .bw ∧ d.duplex = false ∧
    d.rateLimitType ≠ .swRateLimit
  server : e.testType = .iterations ∧ e.tst = .bw ∧ e.duplex = false
  list : 1 ≤ d.postList ∧ d.postList ≤ d.txDepth
  numOfQps : e.numOfQps = d.numOfQps
  iters : e.iters = d.iters

theorem EventRun.sound (h : EventRun d e) (hd : parser b prog other servername args = .ok d) :
    (eventPeers d e false).Sound := by
  obtain ⟨hi, -, hdup, hrate⟩ := h.client
  obtain ⟨-, htst, hdup'⟩ := h.server
  obtain ⟨p, hp, hf⟩ := bind_eq_ok hd
  have hle := h.list.2
  refine ⟨parser_listConfig_sound hp hf (fun hd => ?_) h.list.1 hle, hi,
    parser_txDepth_le hd hi, ?_, ?_, ?_, ?_, h.iters⟩
  · rw [hdup] at hd
    cases hd
  · show d.postList.toNat ≤ d.txDepth
    omega
  · simp only [eventPeers, hrate, decide_false, Bool.or_self]
  · simp only [eventPeers, CoreParameters.recvConfig, hdup', htst, Bool.false_eq_true, reduceCtorEq,
      or_self, and_false, if_false]
  · show e.mainQps = d.numOfQps
    rw [CoreParameters.mainQps, hdup', if_neg fun h => by cases h.2]
    exact h.numOfQps

end Accepted

end Perftest
