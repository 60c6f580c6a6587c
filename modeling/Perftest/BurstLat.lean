import Perftest.Parameters
import Perftest.Lib.CMachine
import Perftest.Lib.Transition

namespace Perftest

open CMachine

/-- The parameters of one side of the latency under load test. -/
structure BurstSide where
  txDepth : Nat
  rxDepth : Nat
  burstSize : Nat
  txDepth_pos : 0 < txDepth
  rxDepth_pos : 0 < rxDepth

/-- A latency under load test; every request is one signaled work request. -/
structure BurstConfig where
  iters : Nat
  replyEvery : Nat
  client : BurstSide
  server : BurstSide
  iters_pos : 0 < iters
  iters_lt : iters < 2 ^ 64
  replyEvery_pos : 0 < replyEvery

/-- The adapter of one side: messages on their way to the peer, requests without a completion, the
two completion queues and the posted receive requests. -/
structure BurstPort where
  wire : Nat
  unacked : Nat
  sendCq : Nat
  recvCq : Nat
  recvWqes : Nat
deriving DecidableEq

/-- Where `run_iter_lat_burst` stands; `pollSend` keeps the result of the poll before it. -/
inductive BurstClientPc where
  | head | post | pollRecv | pollSend (ne : Nat) | done
deriving DecidableEq

/-- Where `run_iter_lat_burst_server` stands; `handle` keeps the completions left of a batch. -/
inductive BurstServerPc where
  | head | handle (left : Nat) | pollSend | done
deriving DecidableEq

structure BurstClient where
  pc : BurstClientPc
  totscnt : Nat
  totccnt : Nat
  totrcnt : Nat
  isSendingBurst : Bool
  burstIter : Nat
  port : BurstPort
deriving DecidableEq

structure BurstServer where
  pc : BurstServerPc
  scnt : Nat
  rcnt : Nat
  ccnt : Nat
  port : BurstPort
deriving DecidableEq

structure BurstState where
  client : BurstClient
  server : BurstServer
deriving DecidableEq

namespace BurstPort

def postSend (p : BurstPort) : BurstPort := { p with wire := p.wire + 1, unacked := p.unacked + 1 }

def complete (p : BurstPort) : Option BurstPort :=
  if 0 < p.unacked then some { p with unacked := p.unacked - 1, sendCq := p.sendCq + 1 } else none

/-- The oldest message of `p` arrives at the port `q` of the peer, which has a receive for it. -/
def deliver (p q : BurstPort) : Option (BurstPort × BurstPort) :=
  if 0 < p.wire ∧ 0 < q.recvWqes then
    some ({ p with wire := p.wire - 1 },
      { q with recvCq := q.recvCq + 1, recvWqes := q.recvWqes - 1 })
  else none

end BurstPort

namespace BurstConfig

variable (c : BurstConfig)

/-- The test of the main loop of `run_iter_lat_burst`. -/
def Running (x : BurstClient) : Prop :=
  x.totrcnt < x.totscnt / c.replyEvery ∨ x.totccnt < c.iters

instance (x : BurstClient) : Decidable (c.Running x) := inferInstanceAs (Decidable (_ ∨ _))

/-- The test of the posting loop of `run_iter_lat_burst`. -/
def Posting (x : BurstClient) : Prop :=
  x.totscnt < c.iters ∧ subU64 x.totscnt x.totccnt < c.client.txDepth ∧ x.isSendingBurst = true

instance (x : BurstClient) : Decidable (c.Posting x) :=
  inferInstanceAs (Decidable (_ ∧ _ ∧ _))

/-- One step of `run_iter_lat_burst`, where a poll returns `k` completions. -/
def runIterLatBurst (k : Nat) (x : BurstClient) : Option BurstClient :=
  match x.pc with
  | .head =>
    if c.Running x then
      if x.isSendingBurst then some { x with pc := .post }
      else some { x with pc := .post, isSendingBurst := true, burstIter := 0 }
    else some { x with pc := .done }
  | .post =>
    if c.Posting x then
      some { x with
        totscnt := x.totscnt + 1
        burstIter := x.burstIter + 1
        isSendingBurst := decide (x.burstIter + 1 ≠ c.client.burstSize)
        port := x.port.postSend }
    else some { x with pc := .pollRecv }
  | .pollRecv =>
    if k ≤ CTX_POLL_BATCH ∧ k ≤ x.port.recvCq then
      some { x with
        pc := .pollSend k
        totrcnt := x.totrcnt + k
        port := { x.port with
          recvCq := x.port.recvCq - k, recvWqes := x.port.recvWqes + k } }
    else none
  | .pollSend ne =>
    if k ≤ c.client.burstSize ∧ k ≤ x.port.sendCq then
      some { x with
        pc := if ne = 0 then .head else .pollRecv
        totccnt := x.totccnt + k
        port := { x.port with sendCq := x.port.sendCq - k } }
    else none
  | .done => none

/-- The gap between two bursts is not over: `goto polling`. -/
def waitGap (x : BurstClient) : Option BurstClient :=
  if x.pc = .head ∧ c.Running x ∧ x.isSendingBurst = false then some { x with pc := .pollRecv }
  else none

/-- The test for the reply to the ping that `y` handles next. -/
def ReplyDue (y : BurstServer) : Prop := (y.rcnt + 1) % c.replyEvery = 0

instance (y : BurstServer) : Decidable (c.ReplyDue y) := inferInstanceAs (Decidable (_ = _))

/-- The test for space in the send queue of the server. -/
def HasSpace (y : BurstServer) : Prop := subU64 y.scnt y.ccnt < c.server.txDepth

instance (y : BurstServer) : Decidable (c.HasSpace y) := inferInstanceAs (Decidable (_ < _))

/-- One step of `run_iter_lat_burst_server`, where a poll returns `k` completions. -/
def runIterLatBurstServer (k : Nat) (y : BurstServer) : Option BurstServer :=
  match y.pc with
  | .head =>
    if y.rcnt < c.iters then
      if k ≤ c.server.burstSize ∧ k ≤ y.port.recvCq then
        some { y with pc := .handle k, port := { y.port with recvCq := y.port.recvCq - k } }
      else none
    else some { y with pc := .done }
  | .handle 0 => some { y with pc := .pollSend }
  | .handle (left + 1) =>
    let y' := { y with
      pc := .handle left
      rcnt := y.rcnt + 1
      port := { y.port with recvWqes := y.port.recvWqes + 1 } }
    if c.ReplyDue y ∧ c.HasSpace y then
      some { y' with scnt := y.scnt + 1, port := y'.port.postSend }
    else some y'
  | .pollSend =>
    if k ≤ CTX_POLL_BATCH ∧ k ≤ y.port.sendCq then
      some { y with
        pc := .head
        ccnt := y.ccnt + k
        port := { y.port with sendCq := y.port.sendCq - k } }
    else none
  | .done => none

end BurstConfig

inductive BurstAction where
  | client (k : Nat)
  | gap
  | server (k : Nat)
  | completePing
  | completeReply
  | deliverPing
  | deliverReply
deriving DecidableEq

namespace BurstConfig

variable (c : BurstConfig)

def act : BurstAction → BurstState → Option BurstState
  | .client k, s => (c.runIterLatBurst k s.client).map fun x => { s with client := x }
  | .gap, s => (c.waitGap s.client).map fun x => { s with client := x }
  | .server k, s => (c.runIterLatBurstServer k s.server).map fun y => { s with server := y }
  | .completePing, s => s.client.port.complete.map fun p =>
      { s with client := { s.client with port := p } }
  | .completeReply, s => s.server.port.complete.map fun p =>
      { s with server := { s.server with port := p } }
  | .deliverPing, s => (s.client.port.deliver s.server.port).map fun p =>
      ⟨{ s.client with port := p.1 }, { s.server with port := p.2 }⟩
  | .deliverReply, s => (s.server.port.deliver s.client.port).map fun p =>
      ⟨{ s.client with port := p.2 }, { s.server with port := p.1 }⟩

def init : BurstState where
  client := ⟨.head, 0, 0, 0, false, 0, ⟨0, 0, 0, 0, c.client.rxDepth⟩⟩
  server := ⟨.head, 0, 0, 0, ⟨0, 0, 0, 0, c.server.rxDepth⟩⟩

abbrev Step : BurstState → BurstState → Prop := Transition.stepOf c.act

def Reachable : BurstState → Prop := Transition.Reachable (· = c.init) c.Step

/-- A due reply finds space in the send queue. -/
def spacious (a : BurstAction) (s : BurstState) : Bool := match a, s.server.pc with
  | .server _, .handle (_ + 1) => decide (c.ReplyDue s.server → c.HasSpace s.server)
  | _, _ => true

/-- The states of the runs in which every due reply finds space in the send queue. -/
def SpaciousReachable : BurstState → Prop :=
  Transition.Reachable (· = c.init) (Transition.stepOf (Transition.guarded c.spacious c.act))

end BurstConfig

/-- One reply for every `reply_every` pings; a server that has finished has sent them all. -/
structure RepliesOk (c : BurstConfig) (s : BurstState) : Prop where
  replies : s.server.scnt = s.server.rcnt / c.replyEvery
  finished : s.server.pc = .done → c.iters / c.replyEvery ≤ s.server.scnt

/-- Moreover the client can still leave its loop. -/
structure BurstOk (c : BurstConfig) (s : BurstState) : Prop extends RepliesOk c s where
  satisfiable : ∃ t, Relation.ReflTransGen c.Step s t ∧ t.client.pc = .done ∧
    t.client.totscnt / c.replyEvery ≤ t.client.totrcnt

/-- The client polls for completions, and the replies of the whole test, if there are any, are
polled for and fit into the send queue of the server together. -/
def BurstConfig.AllFit (c : BurstConfig) : Prop :=
  1 ≤ c.client.burstSize ∧ (c.iters / c.replyEvery = 0 ∨
    (1 ≤ c.server.burstSize ∧ c.iters / c.replyEvery ≤ c.server.txDepth))

end Perftest
