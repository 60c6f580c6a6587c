import Perftest.SignalSchedule
import Perftest.Lib.CMachine
import Perftest.Lib.Transition
import Perftest.Lib.WorkQueue

namespace Perftest

open WorkQueue CMachine

/-- A request on a send queue of `run_iter_bi`: a message, or the RDMA write of a credit. -/
inductive BiReq where
  | data (signaled : Bool) | credit
deriving DecidableEq, Repr

inductive BiCqe where
  | data | credit
deriving DecidableEq, Repr

namespace BiReq

def isData : BiReq → Bool
  | data _ => true
  | credit => false

def isCredit : BiReq → Bool
  | data _ => false
  | credit => true

/-- A request leaves a completion iff it is signaled; credit writes are. -/
def cqe : BiReq → Option BiCqe
  | data true => some .data
  | data false => none
  | credit => some .credit

end BiReq

namespace BiCqe

def isData : BiCqe → Bool
  | data => true
  | credit => false

def isCredit : BiCqe → Bool
  | data => false
  | credit => true

end BiCqe

/-- The parameters of an ITERATIONS run of `run_iter_bi`. -/
structure BiConfig extends SendConfig where
  rxDepth : Nat
  sendRcredit : Bool
  useSrq : Bool
  isServer : Bool

/-- Where the loop stands: at its condition, posting on a QP, among the polled receive completions,
waiting to post the credit of a QP, or among the polled send completions. -/
inductive BiPc where
  | test | qp (index : Nat) | recv | credit (index : Nat) | send | done
deriving DecidableEq, Repr

structure BiCounters where
  signaled : Nat → Nat → Bool
  scnt : Nat → Nat
  ccnt : Nat → Nat
  scredit : Nat → Nat
  totscnt : Nat
  totccnt : Nat
  dev : Device BiReq BiCqe

/-- The loop, its send queues, and the receive side: the messages that arrived on each QP, their
completions with the QP index of the receive request, and the credits the peer has written. -/
structure BiState extends BiCounters where
  rcntForQp : Nat → Nat
  totrcnt : Nat
  beforeFirstRx : Bool
  arrived : Nat → Nat
  recvCq : List (Nat × Nat)
  creditBuf : Nat → Nat
  pc : BiPc

namespace BiConfig

variable (c : BiConfig)

def totIters : Nat := c.iters * c.numOfQps

/-- `ctx->credit_cnt`. -/
def creditCnt : Nat := c.rxDepth / 3

/-- `swindow`, a `uint32_t`. -/
def swindow (s : BiState) (q : Nat) : Nat := u32 (subU64 (s.scnt q + c.postList) (s.creditBuf q))

def init : BiState :=
  { signaled := fun _ j => (j + 1) % c.cqMod = 0
    scnt := fun _ => 0
    ccnt := fun _ => 0
    scredit := fun _ => 0
    totscnt := 0
    totccnt := 0
    dev := Device.empty
    rcntForQp := fun _ => 0
    totrcnt := 0
    beforeFirstRx := c.isServer
    arrived := fun _ => 0
    recvCq := []
    creditBuf := fun _ => 0
    pc := .test }

def continues (s : BiState) : Bool :=
  s.totscnt < c.totIters || s.totccnt < c.totIters || s.totrcnt < c.totIters

/-- The posting condition, the window of the credits included. -/
def mayPost (s : BiState) (q : Nat) : Bool :=
  !s.beforeFirstRx && s.scnt q < c.iters &&
    s.scnt q + s.scredit q + c.postList ≤ c.txDepth + s.ccnt q &&
    (!c.sendRcredit || c.swindow s q < c.rxDepth)

def postSend (s : BiCounters) (q : Nat) : BiCounters :=
  let flags := c.flagsAtPost (s.scnt q) (s.signaled q)
  let scnt := s.scnt q + c.postList
  { s with
    signaled := Function.update s.signaled q (c.flagsAfterPost scnt flags)
    scnt := Function.update s.scnt q scnt
    totscnt := s.totscnt + c.postList
    dev := s.dev.post q ((List.range c.postList).map fun j => .data (flags j)) }

def postCredit (s : BiCounters) (q : Nat) : BiCounters :=
  { s with
    scredit := Function.update s.scredit q (s.scredit q + 1)
    dev := s.dev.post q [.credit] }

/-- A send completion of QP `q` is consumed; one of a message counts for `fill` requests. -/
def consume (fill : Nat) (s : BiCounters) (q : Nat) (k : BiCqe) (rest : List (Nat × BiCqe)) :
    BiCounters :=
  match k with
  | .credit =>
    { s with
      scredit := Function.update s.scredit q (s.scredit q - 1)
      dev := s.dev.pop q .credit rest }
  | .data =>
    { s with
      ccnt := Function.update s.ccnt q (s.ccnt q + fill)
      totccnt := s.totccnt + fill
      dev := s.dev.pop q .data rest }

/-- The credit wait loop has to go on for QP `q`. -/
def queueFull (s : BiState) (q : Nat) : Bool := c.txDepth + s.ccnt q ≤ s.scnt q + s.scredit q

/-- A credit is due after `rcnt` messages of a QP; the two moduli have to be nonzero. -/
def creditDue (rcnt : Nat) : Option Bool :=
  if !c.sendRcredit then some false
  else if c.rxDepth = 0 ∨ c.creditCnt = 0 then none
  else some (rcnt % c.rxDepth % c.creditCnt = 0)

/-- The loop takes the receive completion of a request that was posted for QP `q`. -/
def takeRecv (s : BiState) (q : Nat) (rest : List (Nat × Nat)) : Option BiState :=
  (c.creditDue (s.rcntForQp q + 1)).map fun due =>
    { s with
      rcntForQp := Function.update s.rcntForQp q (s.rcntForQp q + 1)
      totrcnt := s.totrcnt + 1
      beforeFirstRx := false
      recvCq := rest
      pc := if due then .credit q else .recv }

/-- The steps of the loop, of the device and of the peer. The peer sends `iters` messages on each
QP; with an SRQ a message may consume a receive request of any QP. -/
inductive Action where
  | test | post | leave | endFor | takeRecv | waitPoll | postCredit | endRecv | takeSend | endSend
  | complete (q : Nat) | arrive (q label : Nat) | credited (q credit : Nat)
deriving DecidableEq, Repr

def act : Action → BiState → Option BiState
  | .test, s =>
    if s.pc = .test then some { s with pc := if c.continues s then .qp 0 else .done } else none
  | .post, s =>
    match s.pc with
    | .qp q =>
      if q < c.numOfQps ∧ c.mayPost s q then
        some { s with toBiCounters := c.postSend s.toBiCounters q }
      else none
    | _ => none
  | .leave, s =>
    match s.pc with
    | .qp q =>
      if q < c.numOfQps ∧ ¬ c.mayPost s q then some { s with pc := .qp (q + 1) } else none
    | _ => none
  | .endFor, s =>
    match s.pc with
    | .qp q => if c.numOfQps ≤ q then some { s with pc := .recv } else none
    | _ => none
  | .takeRecv, s =>
    match s.pc, s.recvCq with
    | .recv, (_, label) :: rest => c.takeRecv s label rest
    | _, _ => none
  | .waitPoll, s =>
    match s.pc, s.dev.cq with
    | .credit q, (q', k) :: rest =>
      if c.queueFull s q then
        some { s with toBiCounters := consume c.cqMod s.toBiCounters q' k rest }
      else none
    | _, _ => none
  | .postCredit, s =>
    match s.pc with
    | .credit q =>
      if c.queueFull s q then none
      else some { s with toBiCounters := postCredit s.toBiCounters q, pc := .recv }
    | _ => none
  | .endRecv, s => if s.pc = .recv then some { s with pc := .send } else none
  | .takeSend, s =>
    match s.pc, s.dev.cq with
    | .send, (q, k) :: rest =>
      some { s with toBiCounters := consume (c.fill (s.ccnt q)) s.toBiCounters q k rest }
    | _, _ => none
  | .endSend, s => if s.pc = .send then some { s with pc := .test } else none
  | .complete q, s =>
    match (s.dev.posted q)[s.dev.completed q]? with
    | some r => some { s with dev := s.dev.complete BiReq.cqe q r }
    | none => none
  | .arrive q label, s =>
    if q < c.numOfQps ∧ s.arrived q < c.iters ∧ (c.useSrq ∨ label = q) then
      some { s with
        arrived := Function.update s.arrived q (s.arrived q + 1)
        recvCq := s.recvCq ++ [(q, label)] }
    else none
  | .credited q credit, s => some { s with creditBuf := Function.update s.creditBuf q credit }

def IsInit (s : BiState) : Prop := s = c.init

def Reachable : BiState → Prop := Transition.Reachable c.IsInit (Transition.stepOf c.act)

/-- The wait loop consumes no message completion that would take `ccnt` beyond `iters`. -/
def waitFits : Action → BiState → Bool
  | .waitPoll, s =>
    match s.dev.cq with
    | (q, .data) :: _ => s.ccnt q + c.cqMod ≤ c.iters
    | _ => true
  | _, _ => true

variable {c} {s t : BiState} {a : Action}

theorem takeRecv_eq {q : Nat} {rest : List (Nat × Nat)} (h : c.takeRecv s q rest = some t) :
    t.toBiCounters = s.toBiCounters ∧ t.arrived = s.arrived ∧ t.recvCq = rest ∧
      t.totrcnt = s.totrcnt + 1 ∧ t.pc ≠ .done := by
  obtain ⟨due, -, rfl⟩ := Option.map_eq_some_iff.mp h
  refine ⟨rfl, rfl, rfl, rfl, ?_⟩
  cases due <;> simp

/-- What an action does to the send side. -/
theorem act_counters (h : c.act a s = some t) :
    t.toBiCounters = s.toBiCounters ∨
    (∃ q, q < c.numOfQps ∧ c.mayPost s q = true ∧
      t.toBiCounters = c.postSend s.toBiCounters q) ∨
    (∃ q, c.queueFull s q = false ∧ t.toBiCounters = postCredit s.toBiCounters q) ∨
    (∃ q k rest, a = .waitPoll ∧ s.dev.cq = (q, k) :: rest ∧
      t.toBiCounters = consume c.cqMod s.toBiCounters q k rest) ∨
    (∃ q k rest, s.dev.cq = (q, k) :: rest ∧
      t.toBiCounters = consume (c.fill (s.ccnt q)) s.toBiCounters q k rest) ∨
    (∃ q r, (s.dev.posted q)[s.dev.completed q]? = some r ∧
      t.toBiCounters = { s.toBiCounters with dev := s.dev.complete BiReq.cqe q r }) := by
  cases a with
  | post =>
    simp only [act] at h
    split at h
    next q _ =>
      simp only [Option.ite_none_right_eq_some, Option.some.injEq] at h
      obtain ⟨⟨hq, hm⟩, rfl⟩ := h
      exact Or.inr (Or.inl ⟨q, hq, hm, rfl⟩)
    next => cases h
  | takeRecv =>
    simp only [act] at h
    split at h
    next => exact Or.inl (takeRecv_eq h).1
    next => cases h
  | waitPoll =>
    simp only [act] at h
    split at h
    next _ q k rest _ hcq =>
      simp only [Option.ite_none_right_eq_some, Option.some.injEq] at h
      obtain ⟨-, rfl⟩ := h
      exact Or.inr (Or.inr (Or.inr (Or.inl ⟨q, k, rest, rfl, hcq, rfl⟩)))
    next => cases h
  | postCredit =>
    simp only [act] at h
    split at h
    next q _ =>
      simp only [Option.ite_none_left_eq_some, Option.some.injEq, Bool.not_eq_true] at h
      obtain ⟨hf, rfl⟩ := h
      exact Or.inr (Or.inr (Or.inl ⟨q, hf, rfl⟩))
    next => cases h
  | takeSend =>
    simp only [act] at h
    split at h
    next q k rest _ hcq =>
      cases h
      exact Or.inr (Or.inr (Or.inr (Or.inr (Or.inl ⟨q, k, rest, hcq, rfl⟩))))
    next => cases h
  | complete q =>
    simp only [act] at h
    split at h
    next r hr =>
      cases h
      exact Or.inr (Or.inr (Or.inr (Or.inr (Or.inr ⟨q, r, hr, rfl⟩))))
    next => cases h
  | credited =>
    cases h
    exact Or.inl rfl
  | _ =>
    simp only [act] at h
    repeat' split at h
    all_goals first
      | (cases h; done)
      | (cases h; exact Or.inl rfl)

/-- What an action does to the receive side. -/
theorem act_receive (h : c.act a s = some t) :
    (t.arrived = s.arrived ∧ t.recvCq = s.recvCq ∧ t.totrcnt = s.totrcnt) ∨
    (∃ e, s.recvCq = e :: t.recvCq ∧ t.arrived = s.arrived ∧ t.totrcnt = s.totrcnt + 1) ∨
    (∃ q label, q < c.numOfQps ∧ s.arrived q < c.iters ∧
      t.arrived = Function.update s.arrived q (s.arrived q + 1) ∧
      t.recvCq = s.recvCq ++ [(q, label)] ∧ t.totrcnt = s.totrcnt) := by
  cases a with
  | takeRecv =>
    simp only [act] at h
    split at h
    next q label rest _ hcq =>
      obtain ⟨-, ha, hr, hn, -⟩ := takeRecv_eq h
      exact Or.inr (Or.inl ⟨(q, label), hr ▸ hcq, ha, hn⟩)
    next => cases h
  | arrive q label =>
    simp only [act, Option.ite_none_right_eq_some, Option.some.injEq] at h
    obtain ⟨⟨hq, hl, -⟩, rfl⟩ := h
    exact Or.inr (Or.inr ⟨q, label, hq, hl, rfl, rfl, rfl⟩)
  | credited =>
    cases h
    exact Or.inl ⟨rfl, rfl, rfl⟩
  | _ =>
    simp only [act] at h
    repeat' split at h
    all_goals first
      | (cases h; done)
      | (cases h; exact Or.inl ⟨rfl, rfl, rfl⟩)

/-- Only the loop condition leads to the end, and behind it the totals stay. -/
theorem act_done (h : c.act a s = some t) (hd : t.pc = .done) :
    t.totscnt = s.totscnt ∧ t.totccnt = s.totccnt ∧ t.totrcnt = s.totrcnt ∧
      (s.pc = .done ∨ c.continues s = false) := by
  cases a with
  | test =>
    simp only [act, Option.ite_none_right_eq_some, Option.some.injEq] at h
    obtain ⟨-, rfl⟩ := h
    refine ⟨rfl, rfl, rfl, Or.inr ?_⟩
    cases hc : c.continues s with
    | false => rfl
    | true => simp [hc] at hd
  | takeRecv =>
    simp only [act] at h
    split at h
    next => exact absurd hd (takeRecv_eq h).2.2.2.2
    next => cases h
  | credited =>
    cases h
    exact ⟨rfl, rfl, rfl, Or.inl hd⟩
  | _ =>
    simp only [act] at h
    repeat' split at h
    all_goals first
      | (cases h; done)
      | (cases h; exact ⟨rfl, rfl, rfl, Or.inl hd⟩)
      | (cases h; simp_all)

end BiConfig

end Perftest
