import Perftest.LatWrite
import Perftest.Parser
import Perftest.Lib.WorkQueue

namespace Perftest

open WorkQueue

/-- A latency test in ITERATIONS and polling mode whose messages consume posted receives: the
parameters that the parser of each side accepted, on the fields on which the two sides negotiate,
and the number of message sizes that the main function runs. -/
structure MessageLat where
  peer : LatPeer → PerftestParameters
  calls : Nat
  accepted : ∀ x, ∃ b prog other servername args,
    parser b prog other servername args = .ok (peer x)
  lat : ∀ x, (peer x).tst = .lat
  receives : ∀ x, hasRecvComp (peer x).verb = true ∧ (peer x).useUnsolicitedWrite = false
  iterations : ∀ x, (peer x).testType = .iterations
  polling : ∀ x, (peer x).useEvent = false
  verb_eq : (peer .client).verb = (peer .server).verb
  iters_eq : (peer .client).iters = (peer .server).iters
  calls_pos : 0 < calls
  calls_eq : ∀ x, (peer x).testMethod ≠ .runAll → calls = 1

namespace CoreParameters

variable (p : CoreParameters)

/-- The tests with separate queue pairs for the two directions. -/
def xrcOrDc : Bool := p.useXrc || p.connectionType = .dc

/-- `num_of_qps` behind the doubling in the main functions of the latency tests. -/
def latNumOfQps : Nat := if p.xrcOrDc then p.numOfQps * 2 else p.numOfQps

/-- The receives that `ctx_set_recv_wqes` posts in a latency test. -/
def ctxSetRecvWqes : Nat :=
  let i := if p.xrcOrDc then p.latNumOfQps / 2 else 0
  let sizePerQp := p.rxDepth / p.recvPostList.toNat / if p.useSrq then p.latNumOfQps else 1
  (p.latNumOfQps - i) * (sizePerQp * p.recvPostList.toNat)

/-- `size_per_qp` of `run_iter_lat_send` and `run_iter_lat_write_imm`. -/
def latSizePerQp : Nat := if p.useSrq then p.rxDepth / p.latNumOfQps else p.rxDepth

end CoreParameters

namespace MessageLat

variable (c : MessageLat)

def iters : Nat := (c.peer .client).iters

/-- The test runs `run_iter_lat_write_imm`, not `run_iter_lat_send`. -/
def writeImm : Bool := (c.peer .client).verb = .writeImm

def supply (x : LatPeer) : Nat := (c.peer x).ctxSetRecvWqes

def sizePerQp (x : LatPeer) : Nat := (c.peer x).latSizePerQp

end MessageLat

/-- Where the loop of a side stands: at its condition, polling for a receive, at its send, polling
for the completion of the send, or behind its end. -/
inductive MsgPc where
  | head | recv | send | reap | done
deriving DecidableEq, Repr

/-- One side in one call of its loop: the locals, whether `wr[0]` asks for a completion, the send
queue, the posted receives, the messages that have arrived, and how many of them were polled. -/
structure MsgSide where
  pc : MsgPc
  scnt : Nat
  rcnt : Nat
  ccnt : Nat
  poll : Bool
  signaled : Bool
  dev : Device Bool Unit
  rq : Nat
  arrived : Nat
  got : Nat

/-- A send leaves a completion iff it is signaled. -/
def msgCqe : Bool → Option Unit
  | true => some ()
  | false => none

namespace MsgSide

/-- A polled receive, `rcnt` counting it, and the receive posted in its place. -/
def takeReceive (c : MessageLat) (x : LatPeer) (rcnt : Nat) (a : MsgSide) : MsgSide :=
  { a with
    rcnt := rcnt
    got := a.got + 1
    rq := if rcnt + c.sizePerQp x ≤ c.iters then a.rq + 1 else a.rq
    pc := .send }

/-- The posted send. -/
def postSend (a : MsgSide) : MsgSide :=
  { a with scnt := a.scnt + 1, dev := a.dev.post 0 [a.signaled], pc := .reap }

/-- One step of `run_iter_lat_send`; a poll that finds nothing makes none. -/
def runIterLatSend (c : MessageLat) (x : LatPeer) (a : MsgSide) : Option MsgSide :=
  match a.pc with
  | .head =>
    if a.scnt < c.iters ∨ a.rcnt < c.iters then
      if a.rcnt < c.iters ∧ ¬ (a.scnt < 1 ∧ x = .client) then some { a with pc := .recv }
      else some { a with pc := .send }
    else some { a with pc := .done }
  | .recv => if a.got < a.arrived then some (a.takeReceive c x (a.rcnt + 1)) else none
  | .send =>
    if a.scnt < c.iters then
      if (a.scnt + 1) % (c.peer x).cqMod = 0 ∨ a.scnt + 1 = c.iters then
        some { a with poll := true, signaled := true }.postSend
      else some a.postSend
    else some { a with pc := .head }
  | .reap =>
    if a.poll then
      match a.dev.cq with
      | (q, k) :: rest =>
        some { a with poll := false, signaled := false, dev := a.dev.pop q k rest, pc := .head }
      | [] => none
    else some { a with pc := .head }
  | .done => none

/-- One step of `run_iter_lat_write_imm`, that counts a receive before it polls for it. -/
def runIterLatWriteImm (c : MessageLat) (x : LatPeer) (a : MsgSide) : Option MsgSide :=
  match a.pc with
  | .head =>
    if a.scnt < c.iters ∨ a.ccnt < c.iters ∨ a.rcnt < c.iters then
      if a.rcnt < c.iters ∧ ¬ (a.scnt < 1 ∧ x = .server) then
        some { a with rcnt := a.rcnt + 1, pc := .recv }
      else some { a with pc := .send }
    else some { a with pc := .done }
  | .recv => if a.got < a.arrived then some (a.takeReceive c x a.rcnt) else none
  | .send => if a.scnt < c.iters then some a.postSend else some { a with pc := .reap }
  | .reap =>
    if a.ccnt < c.iters then
      match a.dev.cq with
      | (q, k) :: rest =>
        some { a with ccnt := a.ccnt + 1, dev := a.dev.pop q k rest, pc := .head }
      | [] => none
    else some { a with pc := .head }
  | .done => none

def run (c : MessageLat) (x : LatPeer) (a : MsgSide) : Option MsgSide :=
  if c.writeImm then a.runIterLatWriteImm c x else a.runIterLatSend c x

/-- The oldest send that has not completed does. -/
def complete (a : MsgSide) : Option MsgSide :=
  ((a.dev.posted 0)[a.dev.completed 0]?).map fun r =>
    { a with dev := a.dev.complete msgCqe 0 r }

/-- The next message, if the other side has posted more than arrived, takes a posted receive. -/
def arrive (posts : Nat) (a : MsgSide) : Option MsgSide :=
  if a.arrived < posts ∧ 0 < a.rq then some { a with arrived := a.arrived + 1, rq := a.rq - 1 }
  else none

def posts (a : MsgSide) : Nat := (a.dev.posted 0).length

end MsgSide

structure MsgState where
  call : Nat
  side : LatPeer → MsgSide

inductive MsgAction where
  | run (x : LatPeer) | complete (x : LatPeer) | arrive (x : LatPeer) | nextCall
deriving DecidableEq, Repr

namespace MessageLat

variable (c : MessageLat)

/-- A side behind `ctx_set_recv_wqes` and the hand shake, `left` receives being left over. -/
def start (x : LatPeer) (left : Nat) : MsgSide :=
  { pc := .head, scnt := 0, rcnt := 0, ccnt := 0, poll := false, signaled := c.writeImm
    dev := Device.empty, rq := left + c.supply x, arrived := 0, got := 0 }

/-- The steps of the two loops, of the adapters and of the channel. The sides enter the call for
the next size together, behind the hand shake. -/
def act : MsgAction → MsgState → Option MsgState
  | .run x, s =>
    ((s.side x).run c x).map fun a => { s with side := Function.update s.side x a }
  | .complete x, s =>
    (s.side x).complete.map fun a => { s with side := Function.update s.side x a }
  | .arrive x, s =>
    ((s.side x).arrive (s.side x.other).posts).map fun a =>
      { s with side := Function.update s.side x a }
  | .nextCall, s =>
    if s.call + 1 < c.calls ∧ (s.side .client).pc = .done ∧ (s.side .server).pc = .done then
      some ⟨s.call + 1, fun x => c.start x (s.side x).rq⟩
    else none

def IsInit (s : MsgState) : Prop := s = ⟨0, fun x => c.start x 0⟩

def Reachable : MsgState → Prop := Transition.Reachable c.IsInit (Transition.stepOf c.act)

/-- A side polls for a message that the other side has not sent yet. -/
def WaitsForPeer (s : MsgState) (x : LatPeer) : Prop :=
  (s.side x).pc = .recv ∧ (s.side x.other).posts ≤ (s.side x).got

def finished (a : MsgSide) : Bool := a.scnt = c.iters ∧ a.got = c.iters

/-- A bound on the steps of a side before its call returns. -/
def sideLeft (a : MsgSide) : Nat :=
  10 * (c.iters - a.scnt) + 10 * (c.iters - a.got) + match a.pc with
    | .head => if c.finished a then 1 else 5
    | .recv => 4
    | .send => 3
    | .reap => if c.finished a then 2 else 6
    | .done => 0

/-- A bound on the steps that are left. -/
def stepsLeft (s : MsgState) : Nat :=
  (44 * c.iters + 20) * (c.calls - s.call) + (c.sideLeft (s.side .client) +
    c.sideLeft (s.side .server)) + ((s.side .client).posts - (s.side .client).dev.completed 0) +
    ((s.side .server).posts - (s.side .server).dev.completed 0) +
    ((s.side .client).posts - (s.side .server).arrived) +
    ((s.side .server).posts - (s.side .client).arrived)

end MessageLat

/-- The counters of a side stay together, every message finds a receive, the queues hold what is
posted to them, each call ends with both counters at `iters` and all completions polled, no two
sides wait for each other, and every run ends behind the last call. -/
structure MessagePingPongOk (c : MessageLat) (s : MsgState) : Prop where
  counters : ∀ x, (s.side x).scnt ≤ (s.side x).rcnt + 1 ∧ (s.side x).rcnt ≤ (s.side x).scnt + 1
  arrivals : ∀ x, (s.side x).arrived < (s.side x.other).posts → 0 < (s.side x).rq
  unretired : ∀ x, ((s.side x).dev.outstanding msgCqe 0).length ≤ (c.peer x).txDepth
  receives : ∀ x, (s.side x).rq ≤ (c.peer x).rxDepth
  ends : ∀ x, (s.side x).pc = .done → (s.side x).scnt = c.iters ∧ (s.side x).rcnt = c.iters ∧
    (s.side x).dev.cq = [] ∧
    ((s.side x).dev.polled 0).length = ((s.side x).dev.posted 0).countP id
  waits : ∀ x, MessageLat.WaitsForPeer s x →
    ¬ MessageLat.WaitsForPeer s x.other ∧ (s.side x.other).pc ≠ .done
  progress : (∀ a, c.act a s = none) → s.call + 1 = c.calls ∧ ∀ x, (s.side x).pc = .done
  decreasing : ∀ a t, c.act a s = some t → c.stepsLeft t < c.stepsLeft s

end Perftest
