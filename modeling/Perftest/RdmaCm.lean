import Perftest.Parameters
import Perftest.Lib.Transition

namespace Perftest

/-- The calls of librdmacm that the client makes for the id of one node. -/
inductive CmCall where
  | createId | resolveAddr | connect | destroyId
deriving DecidableEq, Repr

/-- A `struct cma_node` with its entries of `ctx->qp` and `ctx->ah`. The last three fields are the
history of the node: whether its id had an ESTABLISHED event, how often it was marked connected,
and the calls made for it while it was connected. -/
structure CmaNode where
  cmaId : Option Nat
  connected : Bool
  remoteQpn : Nat
  remoteQkey : Nat
  qp : Bool
  ah : Bool
  established : Bool
  connections : Nat
  disturbed : List CmCall
deriving DecidableEq, Repr

def CmaNode.zero : CmaNode := ⟨none, false, 0, 0, false, false, false, 0, []⟩

/-- The node after the call `c` was made for it. -/
def CmaNode.called (c : CmCall) (n : CmaNode) : CmaNode :=
  if n.connected then { n with disturbed := c :: n.disturbed } else n

/-- The `struct cma` of a client, with `ctx->pd` and `user_param->ah_allocated`. -/
structure Cma where
  rai : Bool
  nodes : List CmaNode
  connectsLeft : Int
  disconnectsLeft : Int
  pd : Bool
  ahAllocated : Bool
deriving DecidableEq, Repr

/-- The events of `rdma_cm_events_dispatcher`; only a listening id has a CONNECT_REQUEST. -/
inductive CmEventType where
  | addrResolved | routeResolved | established
  | addrError | routeError | connectError | unreachable | rejected
  | disconnected | deviceRemoval | other
deriving DecidableEq, Repr

structure CmEvent where
  event : CmEventType
  id : Nat
  qpNum : Nat
  qkey : Nat
deriving DecidableEq, Repr

/-- Which of the calls that handling an event may make succeed. -/
structure CmAnswers where
  setTos : Bool := true
  setAckTimeout : Bool := true
  resolveRoute : Bool := true
  ctxInit : Bool := true
  createQpMain : Bool := true
  connect : Bool := true
  createAh : Bool := true
  sendUdParameters : Bool := true
  ackCmEvent : Bool := true

/-- The loop of `rdma_cm_allocate_nodes` over the nodes from number `i` on, with the number of the
node whose `rdma_create_id` failed. -/
def createIds (created : Nat → Option Nat) : Nat → List CmaNode → List CmaNode × Option Nat
  | _, [] => ([], none)
  | i, n :: ns =>
    if n.cmaId.isSome then
      let (ns', r) := createIds created (i + 1) ns
      (n :: ns', r)
    else match created i with
      | some id =>
        let (ns', r) := createIds created (i + 1) ns
        ({ n.called .createId with cmaId := some id, established := false } :: ns', r)
      | none => (n :: ns, some i)

/-- The clean-up of `rdma_cm_allocate_nodes`: the ids below node `i`, the last one first. -/
def destroyBelow (destroyed : Nat → Bool) : Nat → List CmaNode → List CmaNode
  | 0, ns => ns
  | i + 1, ns =>
    if destroyed i then destroyBelow destroyed i (ns.modify i (CmaNode.called .destroyId))
    else ns.modify i (CmaNode.called .destroyId)

/-- `rdma_cm_allocate_nodes` of a client; `source` tells whether the source address is valid. -/
def rdmaCmAllocateNodes (d : PerftestParameters) (created : Nat → Option Nat)
    (destroyed : Nat → Bool) (source : Bool) (retry : Bool) (c : Cma) : Cma × Bool :=
  let nodes := if retry then c.nodes else List.replicate d.numOfQps .zero
  match createIds created 0 nodes with
  | (nodes, none) => ({ c with nodes := nodes }, source)
  | (nodes, some i) => ({ c with nodes := destroyBelow destroyed i nodes }, false)

def rdmaCmConnectError (c : Cma) : Cma := { c with connectsLeft := c.connectsLeft - 1 }

def rdmaCmAddressHandler (d : PerftestParameters) (ans : CmAnswers) (c : Cma) : Cma × Bool :=
  if d.tos ≠ DEF_TOS ∧ ¬ ans.setTos then (c, false)
  else if d.connectionType = .rc ∧ ¬ ans.setAckTimeout then (rdmaCmConnectError c, false)
  else if ¬ ans.resolveRoute then (rdmaCmConnectError c, false)
  else (c, true)

/-- The first node with the given id. -/
def connectionIndex (nodes : List CmaNode) (id : Nat) : Option Nat :=
  nodes.findIdx? (fun n => n.cmaId = some id)

/-- The node with its queue pair, after `rdma_connect`. -/
def CmaNode.connecting (n : CmaNode) : CmaNode := { n with qp := true }.called .connect

def rdmaCmRouteHandler (ans : CmAnswers) (id : Nat) (c : Cma) : Cma × Bool :=
  match connectionIndex c.nodes id with
  | none => (rdmaCmConnectError c, false)
  | some k =>
    if ¬ c.pd ∧ ¬ ans.ctxInit then (rdmaCmConnectError c, false)
    else if ¬ (c.nodes[k]?.any (·.qp)) ∧ ¬ ans.createQpMain then
      (rdmaCmConnectError { c with pd := true }, false)
    else if ans.connect then
      ({ c with pd := true, nodes := c.nodes.modify k CmaNode.connecting }, true)
    else
      (rdmaCmConnectError { c with
          pd := true
          nodes := c.nodes.modify k (fun n => { n.connecting with cmaId := none }) }, false)

/-- `rdma_cm_establish_ud_connection`, which takes `disconnects_left` for the number of the node. -/
def rdmaCmEstablishUdConnection (d : PerftestParameters) (ans : CmAnswers) (e : CmEvent) (c : Cma) :
    Cma × Bool :=
  if d.connectionType ≠ .ud then (c, true)
  else
    let c := { c with nodes := c.nodes.modify c.disconnectsLeft.toNat (fun n =>
      { n with remoteQpn := e.qpNum, remoteQkey := e.qkey, ah := ans.createAh }) }
    if ¬ ans.createAh then (c, false)
    else ({ c with ahAllocated := true },
      ¬ ((d.tst = .bw ∧ d.duplex ∨ d.tst = .lat) ∧ ¬ ans.sendUdParameters))

/-- `nodes[i].connected = 1`. -/
def CmaNode.connect (n : CmaNode) : CmaNode :=
  { n with connected := true, connections := n.connections + 1 }

def rdmaCmConnectionEstablishedHandler (d : PerftestParameters) (ans : CmAnswers) (e : CmEvent)
    (c : Cma) : Cma × Bool :=
  match rdmaCmEstablishUdConnection d ans e c with
  | (c, false) => (rdmaCmConnectError c, false)
  | (c, true) =>
    let c := match connectionIndex c.nodes e.id with
      | some k => { c with nodes := c.nodes.modify k CmaNode.connect }
      | none => c
    if d.machine = .client then
      ({ c with
          connectsLeft := c.connectsLeft - 1
          disconnectsLeft := c.disconnectsLeft + 1 }, true)
    else (c, true)

def rdmaCmDisconnectHandler (c : Cma) : Cma := { c with disconnectsLeft := c.disconnectsLeft - 1 }

def rdmaCmEventsDispatcher (d : PerftestParameters) (ans : CmAnswers) (e : CmEvent) (c : Cma) :
    Cma × Bool :=
  match e.event with
  | .addrResolved => rdmaCmAddressHandler d ans c
  | .routeResolved => rdmaCmRouteHandler ans e.id c
  | .established => rdmaCmConnectionEstablishedHandler d ans e c
  | .addrError | .routeError | .connectError | .unreachable | .rejected =>
    (rdmaCmConnectError c, false)
  | .disconnected => (rdmaCmDisconnectHandler c, true)
  | .deviceRemoval | .other => (c, true)

/-- The loop of `_rdma_cm_client_connection` that resolves the address of the nodes. -/
def resolveAddrs (resolved : Nat → Bool) : Nat → List CmaNode → List CmaNode × Bool
  | _, [] => ([], true)
  | i, n :: ns =>
    if n.connected then
      let (ns', ok) := resolveAddrs resolved (i + 1) ns
      (n :: ns', ok)
    else if resolved i then
      let (ns', ok) := resolveAddrs resolved (i + 1) ns
      (n.called .resolveAddr :: ns', ok)
    else (n.called .resolveAddr :: ns, false)

/-- `_rdma_cm_client_connection` up to its event loop. -/
def rdmaCmResolve (address : Bool) (resolved : Nat → Bool) (c : Cma) : Cma × Bool :=
  if ¬ c.rai ∧ ¬ address then (c, false)
  else match resolveAddrs resolved 0 c.nodes with
    | (nodes, true) => ({ c with rai := true, nodes := nodes }, true)
    | (nodes, false) => (rdmaCmConnectError { c with rai := true, nodes := nodes }, false)

/-- `rdma_cm_destroy_cma` drops the queue pair and the address handle of a node first. -/
def CmaNode.release (ahAllocated : Bool) (n : CmaNode) : CmaNode :=
  { n with qp := false, ah := n.ah && !ahAllocated }

/-- The loop of `rdma_cm_destroy_cma` over the nodes from number `i` on. -/
def destroyIds (ahAllocated : Bool) (destroyed : Nat → Bool) :
    Nat → List CmaNode → List CmaNode × Bool
  | _, [] => ([], true)
  | i, n :: ns =>
    if n.cmaId.isNone ∨ n.connected then
      let (ns', ok) := destroyIds ahAllocated destroyed (i + 1) ns
      (n :: ns', ok)
    else
      let n := (n.release ahAllocated).called .destroyId
      if destroyed i then
        let (ns', ok) := destroyIds ahAllocated destroyed (i + 1) ns
        ({ n with cmaId := none } :: ns', ok)
      else (n :: ns, false)

def connectedCount (nodes : List CmaNode) : Nat := nodes.countP (·.connected)

def rdmaCmDestroyCma (d : PerftestParameters) (destroyed : Nat → Bool) (c : Cma) : Cma × Bool :=
  match destroyIds c.ahAllocated destroyed 0 c.nodes with
  | (nodes, false) => ({ c with nodes := nodes }, false)
  | (nodes, true) =>
    ({ c with nodes := nodes, connectsLeft := d.numOfQps - connectedCount nodes }, true)

/-- Where `rdma_cm_client_connection` stands: before attempt `i`, in its event loop, after it
failed, or back at the caller. -/
inductive CmPhase where
  | start (i : Nat)
  | events (i : Nat)
  | cleanup (i : Nat)
  | finished (success : Bool)
deriving DecidableEq, Repr

structure CmClient where
  cma : Cma
  phase : CmPhase
deriving DecidableEq, Repr

/-- What the client does next, with the answers of the calls it makes. -/
inductive CmAction where
  | attempt (created : Nat → Option Nat) (destroyed : Nat → Bool) (source address : Bool)
      (resolved : Nat → Bool)
  | event (e : CmEvent) (ans : CmAnswers)
  | noEvent
  | leave
  | destroy (destroyed : Nat → Bool)

def MAX_RETRIES : Nat := 10

/-- The history of the node whose id the event is for. -/
def Cma.deliver (e : CmEvent) (c : Cma) : Cma :=
  if e.event = .established then
    { c with nodes := c.nodes.map (fun n =>
      if n.cmaId = some e.id then { n with established := true } else n) }
  else c

/-- `_rdma_cm_client_connection`, entered with the nodes of this attempt. -/
def enterAttempt (i : Nat) (r : Cma × Bool) : CmClient :=
  ⟨r.1, if r.2 then .events i else .cleanup i⟩

/-- `rdma_cm_client_connection`: each action runs to the next call that waits for an event, to the
clean-up or to the return. -/
def CmClient.act (d : PerftestParameters) : CmAction → CmClient → Option CmClient
  | .attempt created destroyed source address resolved, s => match s.phase with
    | .start 0 => some (enterAttempt 0 (rdmaCmResolve address resolved s.cma))
    | .start (i + 1) => match rdmaCmAllocateNodes d created destroyed source true s.cma with
      | (c, true) => some (enterAttempt (i + 1) (rdmaCmResolve address resolved c))
      | (c, false) => some ⟨c, .finished false⟩
    | _ => none
  | .event e ans, s => match s.phase with
    | .events i =>
      if s.cma.connectsLeft = 0 then none
      else match rdmaCmEventsDispatcher d ans e (s.cma.deliver e) with
        | (c, ok) => some ⟨c, if ok && ans.ackCmEvent then .events i else .cleanup i⟩
    | _ => none
  | .noEvent, s => match s.phase with
    | .events i => if s.cma.connectsLeft = 0 then none else some { s with phase := .cleanup i }
    | _ => none
  | .leave, s => match s.phase with
    | .events _ => if s.cma.connectsLeft = 0 then some { s with phase := .finished true } else none
    | _ => none
  | .destroy destroyed, s => match s.phase with
    | .cleanup i => match rdmaCmDestroyCma d destroyed s.cma with
      | (c, false) => some ⟨c, .finished false⟩
      | (c, true) =>
        some ⟨c, if i + 1 < MAX_RETRIES then .start (i + 1) else .finished false⟩
    | _ => none

/-- What an action makes of the nodes, and where it starts. -/
theorem CmClient.act_cases {d : PerftestParameters} {a : CmAction} {s t : CmClient}
    (h : CmClient.act d a s = some t) :
    (∃ created destroyed source address resolved i c,
      a = .attempt created destroyed source address resolved ∧ s.phase = .start i ∧
      ((c = s.cma ∨ rdmaCmAllocateNodes d created destroyed source true s.cma = (c, true)) ∧
          t.cma = (rdmaCmResolve address resolved c).1 ∨
        rdmaCmAllocateNodes d created destroyed source true s.cma = (t.cma, false))) ∨
    (∃ e ans i, a = .event e ans ∧ s.phase = .events i ∧
      t.cma = (rdmaCmEventsDispatcher d ans e (s.cma.deliver e)).1 ∧
      ((rdmaCmEventsDispatcher d ans e (s.cma.deliver e)).2 = false → t.phase = .cleanup i)) ∨
    (∃ i, (a = .noEvent ∨ a = .leave) ∧ s.phase = .events i ∧ t.cma = s.cma) ∨
    ∃ destroyed i, a = .destroy destroyed ∧ s.phase = .cleanup i ∧
      t.cma = (rdmaCmDestroyCma d destroyed s.cma).1 := by
  cases a with
  | attempt created destroyed source address resolved =>
    left
    simp only [CmClient.act] at h
    split at h
    next hp =>
      obtain rfl := Option.some.inj h
      exact ⟨_, _, _, _, _, 0, s.cma, rfl, hp, .inl ⟨.inl rfl, rfl⟩⟩
    next i hp =>
      split at h
      next c hc =>
        obtain rfl := Option.some.inj h
        exact ⟨_, _, _, _, _, i + 1, c, rfl, hp, .inl ⟨.inr hc, rfl⟩⟩
      next c hc =>
        obtain rfl := Option.some.inj h
        exact ⟨_, _, _, _, _, i + 1, c, rfl, hp, .inr hc⟩
    next => cases h
  | event e ans =>
    right; left
    simp only [CmClient.act] at h
    split at h
    next i hp =>
      split at h
      next => cases h
      next =>
        obtain rfl := Option.some.inj h
        refine ⟨e, ans, i, rfl, hp, rfl, fun hok => ?_⟩
        dsimp only
        rw [hok]
        rfl
    next => cases h
  | noEvent =>
    right; right; left
    simp only [CmClient.act] at h
    split at h
    next i hp =>
      split at h
      next => cases h
      next =>
        obtain rfl := Option.some.inj h
        exact ⟨i, .inl rfl, hp, rfl⟩
    next => cases h
  | leave =>
    right; right; left
    simp only [CmClient.act] at h
    split at h
    next i hp =>
      split at h
      next =>
        obtain rfl := Option.some.inj h
        exact ⟨i, .inr rfl, hp, rfl⟩
      next => cases h
    next => cases h
  | destroy destroyed =>
    right; right; right
    simp only [CmClient.act] at h
    split at h
    next i hp =>
      refine ⟨destroyed, i, rfl, hp, ?_⟩
      generalize rdmaCmDestroyCma d destroyed s.cma = r at *
      obtain ⟨c, ok⟩ := r
      cases ok <;>
      · obtain rfl := Option.some.inj h
        rfl
    next => cases h

/-- What `create_rdma_cm_connection` hands to `rdma_cm_client_connection`. -/
def CmClient.Init (d : PerftestParameters) (s : CmClient) : Prop :=
  ∃ created destroyed source c,
    rdmaCmAllocateNodes d created destroyed source false
      { rai := false, nodes := [], connectsLeft := d.numOfQps, disconnectsLeft := 0
        pd := false, ahAllocated := false } = (c, true) ∧ s = ⟨c, .start 0⟩

/-- Events arrive for live ids, at most one of them ESTABLISHED for an id. -/
def CmAction.deliverable : CmAction → CmClient → Bool
  | .event e _, s => e.event ≠ .disconnected && s.cma.nodes.any (·.cmaId = some e.id) &&
      (e.event ≠ .established ||
        s.cma.nodes.all (fun n => n.cmaId ≠ some e.id || !n.established))
  | _, _ => true

/-- The number of the first node without an id whose `rdma_create_id` fails. -/
def refusedAt (created : Nat → Option Nat) (nodes : List CmaNode) : Option Nat :=
  nodes.zipIdx.findIdx? (fun p => p.1.cmaId.isNone && (created p.2).isNone)

/-- A retry whose `rdma_create_id` fails has no connected node below the one it fails for, and no
connected node has its route resolved again. -/
def CmAction.sparing : CmAction → CmClient → Bool
  | .attempt created _ _ _ _, s => match refusedAt created s.cma.nodes with
    | some k => (s.cma.nodes.take k).all (!·.connected)
    | none => true
  | .event e _, s =>
    e.event ≠ .routeResolved || s.cma.nodes.all (fun n => n.cmaId ≠ some e.id || !n.connected)
  | _, _ => true

end Perftest
