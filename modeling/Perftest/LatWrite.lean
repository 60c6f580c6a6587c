import Mathlib.Logic.Function.Basic
import Perftest.Connection
import Perftest.Parameters
import Perftest.Lib.ByteMemory
import Perftest.Lib.Transition

namespace Perftest

open ByteMemory

inductive LatPeer where
  | client | server
deriving DecidableEq, Repr

def LatPeer.other : LatPeer → LatPeer
  | .client => .server
  | .server => .client

/-- `RUN_REGULAR` with one message size, or `RUN_ALL`. -/
inductive LatMethod where
  | regular (size : Nat)
  | all
deriving DecidableEq, Repr

/-- The registered buffers of one side. -/
structure LatBuffers where
  buf : Nat → Nat
  cycleBuffer : Nat
  mrPerQp : Bool

/-- A write latency test in ITERATIONS mode. -/
structure LatConfig where
  iters : Nat
  method : LatMethod
  xrcOrDc : Bool
  buffers : LatPeer → LatBuffers
  size_pos : method ≠ .regular 0

namespace LatConfig

variable (c : LatConfig)

/-- The message sizes in the order in which the main function runs them. -/
def sizes : List Nat := match c.method with
  | .regular size => [size]
  | .all => (List.range 23).map fun i => 2 ^ (i + 1)

/-- `ctx->size`, the size that the buffers were allocated for. -/
def ctxSize : Nat := match c.method with
  | .regular size => size
  | .all => MAX_SIZE

def numOfQps : Nat := if c.xrcOrDc then 2 * DEF_NUM_QPS else DEF_NUM_QPS

/-- `xrc_offset` of `ctx_set_send_reg_wqes`. -/
def xrcOffset : Nat := if c.xrcOrDc then c.numOfQps / 2 else 0

def pollBufOffset : Nat := if c.xrcOrDc then 1 else 0

/-- `BUFF_SIZE(ctx->size, ctx->cycle_buffer)`. -/
def buffSize (x : LatPeer) : Nat :=
  if c.ctxSize < (c.buffers x).cycleBuffer then (c.buffers x).cycleBuffer else c.ctxSize

/-- The address that `x` publishes for its queue pair `i`. -/
def vaddr (x : LatPeer) (i : Nat) : Nat :=
  setUpConnectionVaddr (c.buffers x).mrPerQp false false (c.buffers x).buf (c.buffSize x)
    c.numOfQps 0 0 i

/-- Where the writes of `x` go. -/
def remoteAddr (x : LatPeer) : Nat := c.vaddr x.other c.xrcOffset

def postBuf (x : LatPeer) (size : Nat) : Nat := (c.buffers x).buf 0 + size - 1

def pollBuf (x : LatPeer) (size : Nat) : Nat :=
  (c.buffers x).buf 0 + (c.numOfQps + c.pollBufOffset) * c.buffSize x + size - 1

/-- The message size of the `z`-th call of `run_iter_lat_write`. -/
def sizeAt (z : Nat) : Nat := c.sizes.getD z 0

end LatConfig

/-- Where `run_iter_lat_write` stands. -/
inductive LatPc where
  | head | wait | store | post | poll | done
deriving DecidableEq, Repr

/-- A posted RDMA write. -/
structure LatWqe where
  addr : Nat
  length : Nat
  remoteAddr : Nat
deriving DecidableEq, Repr

/-- A write on its way: its bytes, and the offsets that have not reached the peer's memory. -/
structure LatFlight where
  remoteAddr : Nat
  length : Nat
  data : Nat → UInt8
  todo : List Nat

/-- One side: its memory, the locals of `run_iter_lat_write` in the call number `round`, and its
send queue, writes in flight, fetched requests without a completion and completions. The last five
fields count what happened in all calls, and keep the counters with which each call returned. -/
structure LatSide where
  mem : Mem
  round : Nat
  scnt : Nat
  ccnt : Nat
  rcnt : Nat
  pc : LatPc
  sq : List LatWqe
  wire : List LatFlight
  unacked : Nat
  cq : Nat
  posts : Nat
  waits : Nat
  reaped : Nat
  landed : Nat
  ends : List (Nat × Nat × Nat)

abbrev LatState := LatPeer → LatSide

def LatSide.init : LatSide :=
  ⟨fun _ => 0, 0, 0, 0, 0, .head, [], [], 0, 0, 0, 0, 0, 0, []⟩

/-- One step of `run_iter_lat_write` on side `x`; a side that waits in vain makes none. -/
def LatSide.run (c : LatConfig) (x : LatPeer) (a : LatSide) : Option LatSide :=
  match a.pc with
  | .head =>
    if a.scnt < c.iters ∨ a.ccnt < c.iters ∨ a.rcnt < c.iters then
      if a.rcnt < c.iters ∧ ¬ (a.scnt < 1 ∧ x = .server) then
        some { a with rcnt := a.rcnt + 1, pc := .wait }
      else some { a with pc := .store }
    else
      some { a with
        ends := (a.scnt, a.ccnt, a.rcnt) :: a.ends
        round := a.round + 1
        scnt := 0
        ccnt := 0
        rcnt := 0
        pc := if a.round + 1 < c.sizes.length then .head else .done }
  | .wait =>
    if a.mem (c.pollBuf x (c.sizeAt a.round)) = UInt8.ofNat a.rcnt then
      some { a with pc := .store, waits := a.waits + 1 }
    else none
  | .store =>
    if a.scnt < c.iters then
      some { a with
        mem := Function.update a.mem (c.postBuf x (c.sizeAt a.round)) (UInt8.ofNat (a.scnt + 1))
        scnt := a.scnt + 1
        pc := .post }
    else some { a with pc := .poll }
  | .post =>
    some { a with
      sq := a.sq ++ [⟨(c.buffers x).buf 0, c.sizeAt a.round, c.remoteAddr x⟩]
      posts := a.posts + 1
      pc := .poll }
  | .poll =>
    if a.ccnt < c.iters then
      if 0 < a.cq then
        some { a with
          cq := a.cq - 1, ccnt := a.ccnt + 1, reaped := a.reaped + 1, pc := .head }
      else none
    else some { a with pc := .head }
  | .done => none

/-- The adapter reads the bytes of the oldest request. -/
def LatSide.fetch (a : LatSide) : Option LatSide :=
  match a.sq with
  | [] => none
  | w :: ws => some { a with
      sq := ws
      wire := a.wire ++ [⟨w.remoteAddr, w.length, fun i => a.mem (w.addr + i), List.range w.length⟩]
      unacked := a.unacked + 1 }

/-- A fetched request completes. -/
def LatSide.complete (a : LatSide) : Option LatSide :=
  if 0 < a.unacked then some { a with unacked := a.unacked - 1, cq := a.cq + 1 } else none

/-- Byte `j` of the oldest write in flight becomes visible, the last byte after all others. -/
def LatSide.land (j : Nat) (a b : LatSide) : Option (LatSide × LatSide) :=
  match a.wire with
  | [] => none
  | f :: fs =>
    if j ∈ f.todo ∧ (j + 1 = f.length → f.todo = [j]) then
      some (if f.todo.erase j = [] then { a with wire := fs, landed := a.landed + 1 }
          else { a with wire := { f with todo := f.todo.erase j } :: fs },
        { b with mem := Function.update b.mem (f.remoteAddr + j) (f.data j) })
    else none

inductive LatAction where
  | run (x : LatPeer)
  | fetch (x : LatPeer)
  | complete (x : LatPeer)
  | land (x : LatPeer) (j : Nat)

namespace LatConfig

variable (c : LatConfig)

def act : LatAction → LatState → Option LatState
  | .run x, s => ((s x).run c x).map (Function.update s x)
  | .fetch x, s => (s x).fetch.map (Function.update s x)
  | .complete x, s => (s x).complete.map (Function.update s x)
  | .land x j, s => (LatSide.land j (s x) (s x.other)).map fun p =>
      Function.update (Function.update s x p.1) x.other p.2

def Reachable : LatState → Prop :=
  Transition.Reachable (· = fun _ => .init) (Transition.stepOf c.act)

/-- How far a side has come in its calls of `run_iter_lat_write`. -/
def progress (a : LatSide) : Nat :=
  (30 * c.iters + 10) * a.round + 10 * (a.scnt + a.ccnt + a.rcnt) + match a.pc with
    | .head => if a.scnt = c.iters ∧ a.ccnt = c.iters ∧ a.rcnt = c.iters then 9 else 0
    | .wait => 1
    | .store => 2
    | .post => 3
    | .poll => 4
    | .done => 0

/-- What the adapter of a side has still to do for the posted requests. -/
def debt (a : LatSide) : Nat :=
  (a.sq.map (·.length + 3)).sum + (a.wire.map (·.todo.length + 1)).sum + a.unacked

/-- A bound on the steps that a side and its adapter have left. -/
def sideLeft (a : LatSide) : Nat :=
  (c.ctxSize + 4) * ((30 * c.iters + 10) * c.sizes.length - c.progress a) + debt a

def stepsLeft (s : LatState) : Nat := c.sideLeft (s .client) + c.sideLeft (s .server)

end LatConfig

/-- The polled byte is the last one the peer writes; no wait ends before the write it is for has
landed; the send byte changes only when all writes have completed; every call returns with its
counters at `iters`; and the two sides cannot both be stuck, nor go on for ever. -/
structure PingPongOk (c : LatConfig) (s : LatState) : Prop where
  polled : ∀ x, ∀ size ∈ c.sizes, c.pollBuf x.other size = c.remoteAddr x + size - 1
  waits : ∀ x : LatPeer, (s x.other).waits ≤ (s x).landed
  stores : ∀ x, (s x).pc = .store → (s x).reaped = (s x).posts
  ends : ∀ x, ∀ e ∈ (s x).ends, e = (c.iters, c.iters, c.iters)
  finished : ∀ x, (s x).pc = .done → (s x).ends.length = c.sizes.length
  progress : (∀ a, c.act a s = none) → ∀ x, (s x).pc = .done
  decreasing : ∀ a t, c.act a s = some t → c.stepsLeft t < c.stepsLeft s

/-- No side has a memory region for each of the two queue pairs. -/
def LatConfig.OneRegion (c : LatConfig) : Prop :=
  ∀ x, ¬ (c.xrcOrDc = true ∧ (c.buffers x).mrPerQp = true)

end Perftest
