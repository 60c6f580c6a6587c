import Perftest.LatPingPong
import Perftest.MessageLat
import Perftest.SendParameters

namespace Perftest

open WorkQueue SendConfig

namespace CoreParameters

variable {p : CoreParameters}

theorem ctxSetRecvWqes_eq (hq : p.numOfQps = 1) (hr : p.recvPostList ≤ 1)
    (h : 1 ≤ p.ctxSetRecvWqes) : p.ctxSetRecvWqes = p.latSizePerQp := by
  unfold ctxSetRecvWqes at h ⊢
  dsimp only at h ⊢
  have hone : p.recvPostList.toNat = 1 := by
    by_contra hne
    have hz : p.recvPostList.toNat = 0 := by omega
    rw [hz] at h
    simp at h
  have hloop : p.latNumOfQps - (if p.xrcOrDc then p.latNumOfQps / 2 else 0) = 1 := by
    unfold latNumOfQps
    rw [hq]
    cases p.xrcOrDc <;> decide
  rw [hone, hloop, Nat.div_one, Nat.mul_one, Nat.one_mul, latSizePerQp]
  split
  next => rfl
  next => exact Nat.div_one _

theorem latSizePerQp_le : p.latSizePerQp ≤ p.rxDepth := by
  unfold latSizePerQp
  split
  next => exact Nat.div_le_self _ _
  next => exact le_refl _

end CoreParameters

namespace MessageLat

variable {c : MessageLat}

theorem latFit (c : MessageLat) (x : LatPeer) : (c.peer x).LatFit := by
  obtain ⟨b, prog, other, servername, args, h⟩ := c.accepted x
  exact parser_latFit h (c.lat x)

theorem iters_peer (c : MessageLat) (x : LatPeer) : (c.peer x).iters = c.iters := by
  cases x with
  | client => rfl
  | server => exact c.iters_eq.symm

theorem iters_pos (c : MessageLat) : 1 ≤ c.iters :=
  (c.latFit .client).iters_pos (c.iterations .client)

/-- What a side posts leaves no gap: some receives, as many as the loop takes them to be, and in a
run over several sizes none that outlive their call. -/
def Supplied (c : MessageLat) (x : LatPeer) : Prop :=
  1 ≤ c.supply x ∧ (c.calls = 1 ∨ c.supply x ≤ c.iters)

theorem Supplied.sizePerQp_eq {x : LatPeer} (h : c.Supplied x) : c.sizePerQp x = c.supply x :=
  (CoreParameters.ctxSetRecvWqes_eq (c.latFit x).oneQp (c.latFit x).recvPostList_le h.1).symm

theorem Supplied.supply_le {x : LatPeer} (h : c.Supplied x) :
    c.supply x ≤ (c.peer x).rxDepth := by
  rw [← h.sizePerQp_eq]
  exact CoreParameters.latSizePerQp_le

/-- The sends that are signaled: the last of each `cq_mod` and the last of all, or every one. -/
def schedule (c : MessageLat) (x : LatPeer) : SendConfig :=
  let cqMod := if c.writeImm then 1 else (c.peer x).cqMod
  { testType := .iterations, iters := c.iters, txDepth := (c.peer x).txDepth, cqMod := cqMod
    postList := 1, numOfQps := 1
    fillCount := fillCountOf .iterations c.iters (c.peer x).txDepth cqMod }

theorem schedule_sound (c : MessageLat) (x : LatPeer) : (c.schedule x).Sound := by
  have hfit := (c.latFit x).toDepthsFit
  refine ⟨?_, ?_, rfl, Nat.one_pos, Or.inl rfl⟩
  · exact CoreParameters.one_le_ite (le_refl 1) hfit.cq_pos
  · change (if c.writeImm then 1 else (c.peer x).cqMod) ≤ (c.peer x).txDepth
    split
    next => exact hfit.tx_pos
    next => exact hfit.cq_le

theorem signaledAt_send (c : MessageLat) (hw : c.writeImm = false) (x : LatPeer) (k : Nat) :
    (c.schedule x).signaledAt k = decide ((k + 1) % (c.peer x).cqMod = 0 ∨ k + 1 = c.iters) := by
  simp only [schedule, SendConfig.signaledAt, hw, Bool.false_eq_true, if_false, decide_true,
    Bool.true_and, Bool.decide_or]

theorem signaledAt_writeImm (c : MessageLat) (hw : c.writeImm = true) (x : LatPeer) (k : Nat) :
    (c.schedule x).signaledAt k = true := by
  simp [schedule, SendConfig.signaledAt, hw, Nat.mod_one]

/-- The side that sends first. -/
def initiator (c : MessageLat) : LatPeer := if c.writeImm then .server else .client

end MessageLat

namespace MsgSide

/-- The counters at each point of the loop, for the side that sends first and for the other. -/
def Control (c : MessageLat) (x : LatPeer) (a : MsgSide) : Prop :=
  if x = c.initiator then match a.pc with
    | .head => a.scnt = 0 ∧ a.got = 0 ∨ a.scnt = a.got + 1 ∧ a.scnt ≤ c.iters ∨
        a.scnt = c.iters ∧ a.got = c.iters
    | .recv => a.scnt = a.got + 1 ∧ a.scnt ≤ c.iters
    | .send => a.scnt = a.got ∧ a.scnt ≤ c.iters
    | .reap => a.scnt = a.got + 1 ∧ a.scnt ≤ c.iters ∨
        a.scnt = c.iters ∧ a.got = c.iters ∧ a.ccnt = c.iters
    | .done => a.scnt = c.iters ∧ a.got = c.iters
  else match a.pc with
    | .head => a.scnt = a.got ∧ a.scnt ≤ c.iters
    | .recv => a.scnt = a.got ∧ a.scnt < c.iters
    | .send => a.got = a.scnt + 1 ∧ a.got ≤ c.iters
    | .reap => a.scnt = a.got ∧ a.scnt ≤ c.iters
    | .done => a.scnt = c.iters ∧ a.got = c.iters

/-- The loop still has to poll for the completion of its last send. -/
def owes (c : MessageLat) (a : MsgSide) : Bool := if c.writeImm then a.ccnt < a.scnt else a.poll

/-- What holds of one side in a call that began with `base` receives. -/
structure Ok (c : MessageLat) (x : LatPeer) (base : Nat) (a : MsgSide) : Prop where
  control : a.Control c x
  rcnt : a.rcnt = a.got + if c.writeImm = true ∧ a.pc = .recv then 1 else 0
  ccnt : c.writeImm = true → a.ccnt ≤ a.scnt ∧ a.scnt ≤ a.ccnt + 1
  signaled : a.signaled = (c.writeImm || a.poll)
  owes_reap : a.owes c = true → a.pc = .reap
  owes_last : a.owes c = true →
    ∃ k, a.scnt = k + 1 ∧ (c.schedule x).signaledAt k = true
  reap_owes : a.pc = .reap → c.writeImm = true → a.ccnt < c.iters → a.owes c = true
  fifo : a.dev.Fifo msgCqe
  posted : a.dev.posted 0 = (List.range a.scnt).map (c.schedule x).signaledAt
  idle : ∀ q, q ≠ 0 → a.dev.posted q = []
  polled : (a.dev.polled 0).length + (if a.owes c then 1 else 0) = (c.schedule x).signals a.scnt
  got_le : a.got ≤ a.arrived
  receives : a.rq + a.arrived = base + min a.got (c.iters - c.sizePerQp x)

namespace Ok

variable {c : MessageLat} {x : LatPeer} {base : Nat} {a b : MsgSide}

theorem start (c : MessageLat) (x : LatPeer) (left : Nat) :
    (c.start x left).Ok c x (left + c.supply x) := by
  refine ⟨?_, ?_, fun _ => ⟨le_refl _, Nat.zero_le _⟩, ?_, ?_, ?_,
    (fun hpc => by cases hpc), Device.Fifo.empty, rfl, fun _ _ => rfl, ?_, le_refl _, ?_⟩
  · unfold Control MessageLat.start
    split
    next => exact Or.inl ⟨rfl, rfl⟩
    next => exact ⟨rfl, Nat.zero_le _⟩
  · simp [MessageLat.start]
  · simp [MessageLat.start]
  · simp [MessageLat.start, owes]
  · simp [MessageLat.start, owes]
  · rw [show (c.start x left).scnt = 0 from rfl, signals_zero (c.schedule_sound x)]
    simp [MessageLat.start, owes, Device.empty]
  · simp [MessageLat.start]

theorem counts_le (h : a.Ok c x base) : a.scnt ≤ c.iters ∧ a.got ≤ c.iters := by
  have hc := h.control
  unfold Control at hc
  split at hc <;> cases hpc : a.pc <;> simp only [hpc] at hc <;> omega

theorem within (h : a.Ok c x base) : (c.schedule x).Within a.scnt := fun _ => h.counts_le.1

theorem owes_eq_false (h : a.Ok c x base) (hpc : a.pc ≠ .reap) : a.owes c = false := by
  by_contra hne
  exact hpc (h.owes_reap (by simpa using hne))

/-- The loop goes on without touching the queues. -/
theorem move (h : a.Ok c x base) (ho : a.owes c = false) {pc : MsgPc} {rcnt : Nat}
    (hc : { a with pc := pc, rcnt := rcnt }.Control c x)
    (hr : rcnt = a.got + if c.writeImm = true ∧ pc = .recv then 1 else 0)
    (hre : pc = .reap → c.writeImm = true → c.iters ≤ a.ccnt) :
    { a with pc := pc, rcnt := rcnt }.Ok c x base :=
  ⟨hc, hr, h.ccnt, h.signaled, fun ht => absurd (ho.symm.trans ht) Bool.false_ne_true,
    h.owes_last, fun hpc hw hlt => absurd (hre hpc hw) (Nat.not_le.mpr hlt), h.fifo, h.posted,
    h.idle, h.polled, h.got_le, h.receives⟩

theorem takeReceive (h : a.Ok c x base) (hpc : a.pc = .recv) (hlt : a.got < a.arrived) :
    (a.takeReceive c x (a.got + 1)).Ok c x base := by
  have hc := h.control
  have ho := h.owes_eq_false (by simp [hpc])
  have hrq := h.receives
  refine ⟨?_, by simp [MsgSide.takeReceive], h.ccnt, h.signaled, ?_, h.owes_last,
    (fun hpc => by cases hpc), h.fifo, h.posted, h.idle, h.polled, hlt, ?_⟩
  · unfold Control at hc ⊢
    simp only [hpc] at hc
    simp only [MsgSide.takeReceive]
    split
    next hx =>
      rw [if_pos hx] at hc
      omega
    next hx =>
      rw [if_neg hx] at hc
      omega
  · exact fun ht => absurd (ho.symm.trans ht) Bool.false_ne_true
  · simp only [MsgSide.takeReceive]
    split <;> omega

/-- A send, signaled as the schedule says. -/
theorem postSend (h : a.Ok c x base) (hpc : a.pc = .send) (hlt : a.scnt < c.iters) (poll : Bool)
    (hs : (c.schedule x).signaledAt a.scnt = (c.writeImm || poll)) :
    ({ a with poll := poll, signaled := c.writeImm || poll }.postSend).Ok c x base := by
  have hc := h.control
  have ho := h.owes_eq_false (by simp [hpc])
  have hpolled := h.polled
  rw [ho, if_neg Bool.false_ne_true, Nat.add_zero] at hpolled
  have hccnt : c.writeImm = true → a.ccnt = a.scnt := by
    intro hw
    have := h.ccnt hw
    simp only [owes, hw, if_true, decide_eq_false_iff_not] at ho
    omega
  refine ⟨?_, ?_, ?_, rfl, fun _ => rfl, fun ho => ⟨a.scnt, rfl, ?_⟩, fun _ hw _ => ?_,
    h.fifo.post 0 _, ?_, ?_, ?_, h.got_le, h.receives⟩
  · unfold Control at hc ⊢
    simp only [hpc] at hc
    simp only [MsgSide.postSend]
    split
    next hx =>
      rw [if_pos hx] at hc
      omega
    next hx =>
      rw [if_neg hx] at hc
      omega
  · have := h.rcnt
    simpa [MsgSide.postSend, hpc] using this
  · intro hw
    have := hccnt hw
    simp only [MsgSide.postSend]
    omega
  · rw [hs]
    cases hw : c.writeImm with
    | true => rfl
    | false => simpa [MsgSide.postSend, owes, hw] using ho
  · simp [MsgSide.postSend, owes, hw, hccnt hw]
  · simp only [MsgSide.postSend, Device.post, Function.update_self, h.posted, List.range_succ,
      List.map_append, List.map_singleton, hs]
  · intro q hq
    simpa [MsgSide.postSend, Device.post, hq] using h.idle q hq
  · have hsucc := signals_succ (c.schedule_sound x)
      (show (c.schedule x).Within (a.scnt + 1) from fun _ => hlt)
    rw [hs] at hsucc
    change (a.dev.polled 0).length + _ = (c.schedule x).signals (a.scnt + 1)
    rw [hsucc, hpolled]
    congr 2
    rw [eq_iff_iff]
    cases hw : c.writeImm with
    | true =>
      have := hccnt hw
      simp [MsgSide.postSend, owes, hw, this]
    | false => simp [MsgSide.postSend, owes, hw]

/-- All completions are those of queue 0. -/
theorem queue_zero (h : a.Ok c x base) {q : Nat} {k : Unit} {rest : List (Nat × Unit)}
    (hcq : a.dev.cq = (q, k) :: rest) : q = 0 := by
  by_contra hq
  have ho := h.fifo.order q
  rw [Device.done, h.idle q hq, List.take_nil, List.filterMap_nil, Device.pending_cons hcq] at ho
  simp at ho

/-- The completion of the last send. -/
theorem takeCompletion (h : a.Ok c x base) (hpc : a.pc = .reap) (ho : a.owes c = true) {q : Nat}
    {k : Unit} {rest : List (Nat × Unit)} (hcq : a.dev.cq = (q, k) :: rest) (poll : Bool)
    (ccnt : Nat) (hp : c.writeImm = false → poll = false)
    (hcc : c.writeImm = true → ccnt = a.ccnt + 1) :
    { a with
      poll := poll, ccnt := ccnt, signaled := c.writeImm || poll, dev := a.dev.pop q k rest
      pc := .head }.Ok c x base := by
  have hc := h.control
  have hpolled := h.polled
  rw [ho, if_pos rfl] at hpolled
  obtain rfl := h.queue_zero hcq
  have hccnt : c.writeImm = true → ccnt = a.scnt := by
    intro hw
    have hb := h.ccnt hw
    have hn := hcc hw
    simp only [owes, hw, if_true, decide_eq_true_eq] at ho
    omega
  have ho' : owes c { a with
      poll := poll, ccnt := ccnt, signaled := c.writeImm || poll, dev := a.dev.pop 0 k rest
      pc := .head } = false := by
    unfold owes
    cases hw : c.writeImm with
    | true => simp [hccnt hw]
    | false => simp [hp hw]
  refine ⟨?_, ?_, ?_, rfl, fun ht => absurd (ho'.symm.trans ht) Bool.false_ne_true,
    (fun ht => absurd (ho'.symm.trans ht) Bool.false_ne_true), (fun hpc => by cases hpc), h.fifo.pop hcq,
    h.posted, h.idle, ?_, h.got_le, h.receives⟩
  · unfold Control at hc ⊢
    simp only [hpc] at hc
    dsimp only
    split
    next hx =>
      rw [if_pos hx] at hc
      omega
    next hx =>
      rw [if_neg hx] at hc
      exact hc
  · have := h.rcnt
    simpa [hpc] using this
  · intro hw
    have := hccnt hw
    dsimp only
    omega
  · rw [ho', if_neg Bool.false_ne_true]
    simpa [Device.pop] using hpolled

theorem runIterLatSend (h : a.Ok c x base) (hw : c.writeImm = false)
    (ha : a.runIterLatSend c x = some b) : b.Ok c x base := by
  have hc := h.control
  have hn := c.iters_pos
  have hx : c.initiator = .client := by
    unfold MessageLat.initiator
    rw [hw, if_neg Bool.false_ne_true]
  have hr : a.rcnt = a.got := by
    have := h.rcnt
    simpa [hw] using this
  unfold MsgSide.runIterLatSend at ha
  unfold Control at hc
  rw [hx] at hc
  cases hpc : a.pc with
  | head =>
    simp only [hpc] at ha hc
    have ho := h.owes_eq_false (by simp [hpc])
    split at ha
    next hloop =>
      split at ha
      next hrecv =>
        obtain rfl := Option.some.inj ha
        refine h.move ho ?_ (by simpa [hw] using hr) (fun _ ht => by simp [hw] at ht)
        unfold Control
        rw [hx]
        cases x <;> simp at hc hrecv ⊢ <;> omega
      next hrecv =>
        obtain rfl := Option.some.inj ha
        refine h.move ho ?_ (by simpa [hw] using hr) (fun _ ht => by simp [hw] at ht)
        unfold Control
        rw [hx]
        cases x <;> simp at hc hrecv ⊢ <;> omega
    next hloop =>
      obtain rfl := Option.some.inj ha
      refine h.move ho ?_ (by simpa [hw] using hr) (fun _ ht => by simp [hw] at ht)
      unfold Control
      rw [hx]
      cases x <;> simp at hc ⊢ <;> omega
  | recv =>
    simp only [hpc, Option.ite_none_right_eq_some, Option.some.injEq] at ha
    obtain ⟨hlt, rfl⟩ := ha
    rw [hr]
    exact h.takeReceive hpc hlt
  | send =>
    simp only [hpc] at ha hc
    have ho := h.owes_eq_false (by simp [hpc])
    have hpoll : a.poll = false := by simpa [owes, hw] using ho
    split at ha
    next hlt =>
      have hsched := c.signaledAt_send hw x a.scnt
      split at ha
      next hlast =>
        obtain rfl := Option.some.inj ha
        have := h.postSend hpc hlt true (by rw [hsched, Bool.or_true, decide_eq_true hlast])
        rwa [Bool.or_true] at this
      next hlast =>
        obtain rfl := Option.some.inj ha
        have := h.postSend hpc hlt a.poll (by rw [hsched, hw, hpoll, decide_eq_false hlast]; rfl)
        rwa [← h.signaled] at this
    next hge =>
      obtain rfl := Option.some.inj ha
      refine h.move ho ?_ (by simpa [hw] using hr) (fun _ ht => by simp [hw] at ht)
      unfold Control
      rw [hx]
      cases x <;> simp at hc ⊢ <;> omega
  | reap =>
    simp only [hpc] at ha hc
    split at ha
    next hpoll =>
      split at ha
      next q k rest hcq =>
        obtain rfl := Option.some.inj ha
        have ho : a.owes c = true := by simpa [owes, hw] using hpoll
        have := h.takeCompletion hpc ho hcq false a.ccnt (fun _ => rfl) (fun ht => by
          rw [hw] at ht
          cases ht)
        rwa [hw, Bool.or_false] at this
      next => cases ha
    next hpoll =>
      obtain rfl := Option.some.inj ha
      have ho : a.owes c = false := by simpa [owes, hw] using hpoll
      refine h.move ho ?_ (by simpa [hw] using hr) (fun _ ht => by simp [hw] at ht)
      unfold Control
      rw [hx]
      cases x <;> simp at hc ⊢ <;> omega
  | done => simp [hpc] at ha

theorem runIterLatWriteImm (h : a.Ok c x base) (hw : c.writeImm = true)
    (ha : a.runIterLatWriteImm c x = some b) : b.Ok c x base := by
  have hc := h.control
  have hn := c.iters_pos
  have hx : c.initiator = .server := by
    unfold MessageLat.initiator
    rw [hw, if_pos rfl]
  have hr := h.rcnt
  have hcc := h.ccnt hw
  have hle := h.counts_le
  unfold MsgSide.runIterLatWriteImm at ha
  unfold Control at hc
  rw [hx] at hc
  cases hpc : a.pc with
  | head =>
    simp only [hpc, hw, reduceCtorEq, and_false, if_false, Nat.add_zero] at ha hc hr
    have ho := h.owes_eq_false (by simp [hpc])
    have hcs : a.ccnt = a.scnt := by
      simp only [owes, hw, if_true, decide_eq_false_iff_not] at ho
      omega
    split at ha
    next hloop =>
      split at ha
      next hrecv =>
        obtain rfl := Option.some.inj ha
        refine h.move ho ?_ (by simpa [hw] using hr) (fun hp => by cases hp)
        unfold Control
        rw [hx]
        cases x <;> simp at hc hrecv ⊢ <;> omega
      next hrecv =>
        obtain rfl := Option.some.inj ha
        refine h.move ho ?_ (by simpa [hw] using hr) (fun hp => by cases hp)
        unfold Control
        rw [hx]
        cases x <;> simp at hc hrecv ⊢ <;> omega
    next hloop =>
      obtain rfl := Option.some.inj ha
      refine h.move ho ?_ (by simpa [hw] using hr) (fun hp => by cases hp)
      unfold Control
      rw [hx]
      cases x <;> simp at hc ⊢ <;> omega
  | recv =>
    simp only [hpc, Option.ite_none_right_eq_some, Option.some.injEq] at ha
    obtain ⟨hlt, rfl⟩ := ha
    rw [hr, hpc, hw, if_pos ⟨rfl, rfl⟩]
    exact h.takeReceive hpc hlt
  | send =>
    simp only [hpc, hw, reduceCtorEq, and_false, if_false, Nat.add_zero] at ha hc hr
    have ho := h.owes_eq_false (by simp [hpc])
    split at ha
    next hlt =>
      obtain rfl := Option.some.inj ha
      have := h.postSend hpc hlt a.poll (by rw [c.signaledAt_writeImm hw, hw, Bool.true_or])
      rwa [← h.signaled] at this
    next hge =>
      obtain rfl := Option.some.inj ha
      have hcs : a.ccnt = a.scnt := by
        simp only [owes, hw, if_true, decide_eq_false_iff_not] at ho
        omega
      refine h.move ho ?_ (by simpa [hw] using hr) (fun _ _ => by omega)
      unfold Control
      rw [hx]
      cases x <;> simp at hc ⊢ <;> omega
  | reap =>
    simp only [hpc, hw, reduceCtorEq, and_false, if_false, Nat.add_zero] at ha hc hr
    split at ha
    next hlt =>
      split at ha
      next q k rest hcq =>
        obtain rfl := Option.some.inj ha
        have ho := h.reap_owes hpc hw hlt
        have := h.takeCompletion hpc ho hcq a.poll (a.ccnt + 1) (fun ht => by
          rw [hw] at ht
          cases ht) (fun _ => rfl)
        rwa [← h.signaled] at this
      next => cases ha
    next hge =>
      obtain rfl := Option.some.inj ha
      have ho : a.owes c = false := by
        simp only [owes, hw, if_true, decide_eq_false_iff_not]
        omega
      refine h.move ho ?_ (by simpa [hw] using hr) (fun hp => by cases hp)
      unfold Control
      rw [hx]
      cases x <;> simp at hc ⊢ <;> omega
  | done => simp [hpc] at ha

theorem run (h : a.Ok c x base) (ha : a.run c x = some b) : b.Ok c x base := by
  unfold MsgSide.run at ha
  split at ha
  next hw => exact h.runIterLatWriteImm hw ha
  next hw => exact h.runIterLatSend (by simpa using hw) ha

theorem complete (h : a.Ok c x base) (ha : a.complete = some b) : b.Ok c x base := by
  obtain ⟨r, hr, rfl⟩ := Option.map_eq_some_iff.mp ha
  exact ⟨h.control, h.rcnt, h.ccnt, h.signaled, h.owes_reap, h.owes_last, h.reap_owes,
    h.fifo.complete hr, h.posted, h.idle, h.polled, h.got_le, h.receives⟩

theorem arrive (h : a.Ok c x base) {posts : Nat} (ha : a.arrive posts = some b) :
    b.Ok c x base := by
  unfold MsgSide.arrive at ha
  simp only [Option.ite_none_right_eq_some, Option.some.injEq] at ha
  obtain ⟨⟨-, hrq⟩, rfl⟩ := ha
  have hg := h.got_le
  have hr := h.receives
  refine ⟨h.control, h.rcnt, h.ccnt, h.signaled, h.owes_reap, h.owes_last, h.reap_owes,
    h.fifo, h.posted, h.idle, h.polled, ?_, ?_⟩
  · dsimp only
    omega
  · dsimp only
    omega

end Ok

end MsgSide

end Perftest
