import Perftest.Lib.Custody
import Perftest.Parameters

namespace Perftest

/-- What `ctx_init` acquires; `xrcFile` is the file behind the XRC domain. -/
inductive InitResource where
  | sendChannel | recvChannel | pd | td | parentDomain | dek (i : Nat) | mkey (i : Nat) | dmah
  | ibvBuf (i : Nat) | mr (i : Nat) | nullMr (i : Nat) | sendCq | recvCq
  | xrcFile | xrcDomain | srq | qp (i : Nat)
deriving DecidableEq, Repr

/-- The resources that one was made from. -/
def InitResource.madeFrom : InitResource → List InitResource
  | .parentDomain => [.pd, .td]
  | .dek _ | .mkey _ | .nullMr _ => [.pd]
  | .ibvBuf _ => [.pd, .parentDomain]
  | .mr i => [.pd, .parentDomain, .dmah, .ibvBuf i]
  | .sendCq => [.sendChannel, .parentDomain]
  | .recvCq => [.recvChannel, .parentDomain]
  | .srq => [.pd, .parentDomain, .xrcDomain, .sendCq, .recvCq]
  | .qp _ => [.pd, .parentDomain, .sendCq, .recvCq, .xrcDomain, .srq]
  | _ => []

def InitResource.needs (s r : InitResource) : Bool := r ∈ s.madeFrom

/-- A step of `ctx_init` that can fail: the creation of a resource, or one of its other checks. -/
inductive InitStep where
  | make (r : InitResource)
  | oooSettings | validDek (i : Nat) | sigSupport | memoryInit | payload
  | odpSupport (i : Nat) | buffer (i : Nat) | bufferContent (i : Nat) | accessFlags (i : Nat)
deriving DecidableEq, Repr

/-- The parameters that `ctx_init` reads, as `force_dependecies` leaves them; `cmId` tells whether
`ctx->cm_id` is set. -/
structure InitParams extends PerftestParameters where
  useOoo : Bool
  noLock : Bool
  dataEncKeysNumber : Nat
  cmId : Bool
  qps_pos : 0 < numOfQps
  xrc_srq : useXrc = true → connectionType = .xrc ∧ useSrq = true
  aes_alone : aesXts = true → sigOffload = false

/-- The pointers of `ctx` that the clean-up tests, and the counters of the local variables. -/
structure InitMarks where
  td : Bool
  pad : Bool
  dmah : Bool
  dekIndex : Nat
  mkeyIndex : Nat
  qpIndex : Nat
deriving DecidableEq, Repr

structure InitState extends InitMarks where
  trace : List (Custody.Event InitResource)
deriving DecidableEq, Repr

def InitState.acquire (r : InitResource) (x : InitState) : InitState :=
  { x with trace := x.trace ++ [.acquire r] }

def InitState.release (rs : List InitResource) (x : InitState) : InitState :=
  { x with trace := x.trace ++ rs.map .release }

/-- The labels of `ctx_init`; `ret` stands for a `return FAILURE`. -/
inductive InitLabel where
  | ret | compChannel | pd | td | dek | mkey | dmah | mr | cqs | xrcSrq | xrcd | qps
deriving DecidableEq, Repr

/-- `goto` a label when a step fails. -/
def orGoto (l : InitLabel) (m : Except InitState InitState) :
    Except (InitLabel × InitState) InitState := m.mapError fun x => (l, x)

/-- A part of `ctx_init` that stands under a condition. -/
def given {ε : Type} (c : Bool) (part : InitState → Except ε InitState) (x : InitState) :
    Except ε InitState := if c then part x else .ok x

namespace InitParams

variable (p : InitParams) (failing : InitStep)

def check (s : InitStep) (x : InitState) : Except InitState InitState :=
  if failing = s then .error x else .ok x

def make (r : InitResource) (x : InitState) : Except InitState InitState :=
  if failing = .make r then .error x else .ok (x.acquire r)

def needParentDomain : Bool := p.noLock || p.useCcUnprotected

def dctOnly : Bool := p.machine = .server && !(p.duplex || p.tst = .lat)

def needRecvCq : Bool := (p.connectionType = .dc && !p.dctOnly) || hasRecvComp p.verb

/-- A side that posts receives of its own. -/
def receives : Bool := p.tst = .lat || p.machine = .server || p.duplex

def needDmah : Bool := p.tphMemType ≠ -1 || p.processingHints ≠ -1

def createTd (x : InitState) : Except (InitLabel × InitState) InitState :=
  (orGoto .pd (make failing .td x)).map fun x => { x with td := true }

def createDomains : InitState → Except (InitLabel × InitState) InitState :=
  given p.needParentDomain fun x => do
    let x ← given p.noLock (createTd failing) x
    (orGoto .td (make failing .parentDomain x)).map fun x => { x with pad := true }

/-- The loop over the DEKs, `n` of them still to go. -/
def createDeks : Nat → InitState → Except (InitLabel × InitState) InitState
  | 0, x => .ok x
  | n + 1, x => do
    let x ← orGoto .dek (check failing (.validDek x.dekIndex) x)
    let x ← orGoto .dek (make failing (.dek x.dekIndex) x)
    createDeks n { x with dekIndex := x.dekIndex + 1 }

/-- The loop over the mkeys of AES or of the signature offload. -/
def createMkeys : Nat → InitState → Except (InitLabel × InitState) InitState
  | 0, x => .ok x
  | n + 1, x => do
    let x ← orGoto .mkey (make failing (.mkey x.mkeyIndex) x)
    createMkeys n { x with mkeyIndex := x.mkeyIndex + 1 }

def createKeys (x : InitState) : Except (InitLabel × InitState) InitState := do
  let x ← given p.aesXts (fun x => do
    let x ← createDeks failing p.dataEncKeysNumber x
    createMkeys failing p.numOfQps x) x
  given p.sigOffload (fun x => do
    let x ← orGoto .mkey (check failing .sigSupport x)
    createMkeys failing p.numOfQps x) x

def ibvBufs (i : Nat) : List InitResource := if p.useCcUnprotected then [.ibvBuf i] else []

/-- A hook of `ctx->memory` owns the buffer that is no `ibv_buf`. -/
def allocBuffer (i : Nat) (x : InitState) : Except InitState InitState :=
  if p.useCcUnprotected then make failing (.ibvBuf i) x else check failing (.buffer i) x

def createSingleMr (i : Nat) (x : InitState) : Except InitState InitState := do
  let x ← given p.useOdp (check failing (.odpSupport i)) x
  let x ← p.allocBuffer failing i x
  let x ← (make failing (.mr i) x).mapError (InitState.release (p.ibvBufs i))
  let x ← given p.useNullMr (make failing (.nullMr i)) x
  given (!p.dataValidation || i = 0) (check failing (.bufferContent i)) x

/-- The loops that deregister the first `n` MRs. -/
def deregMrs (n : Nat) : List InitResource := (List.range n).flatMap fun i => .mr i :: p.ibvBufs i

/-- The loop of `create_mr` from MR `i` on, `n` of them still to go; it cleans up by itself. -/
def createMrs : Nat → Nat → InitState → Except InitState InitState
  | 0, _, x => .ok x
  | n + 1, i, x => do
    let x ← (p.createSingleMr failing i x).mapError (InitState.release (p.deregMrs i))
    createMrs n (i + 1) x

def createMr (x : InitState) : Except InitState InitState := do
  let x ← given p.hasPayloadModification (check failing .payload) x
  let x ← p.createSingleMr failing 0 x
  given p.mrPerQp (p.createMrs failing (p.numOfQps - 1) 1) x

/-- `create_cqs` with `create_reg_cqs`. Where the device lacks the extended verb, the plain one
creates the same queues. -/
def createCqs (x : InitState) : Except InitState InitState := do
  let x ← make failing .sendCq x
  given p.needRecvCq (make failing .recvCq) x

def ctxXrcdCreate (x : InitState) : Except InitState InitState := do
  let x ← make failing .xrcFile x
  (make failing .xrcDomain x).mapError (InitState.release [.xrcFile])

def createXrc (x : InitState) : Except (InitLabel × InitState) InitState := do
  let x ← orGoto .cqs (ctxXrcdCreate failing x)
  orGoto .xrcd (make failing .srq x)

def createSrqs (x : InitState) : Except (InitLabel × InitState) InitState := do
  let x ← given p.useXrc (createXrc failing) x
  let x ← given (p.useSrq && p.connectionType = .dc && p.receives)
    (fun x => orGoto .xrcSrq (make failing .srq x)) x
  given (p.useSrq && p.connectionType ≠ .dc && !p.useXrc && p.receives)
    (fun x => orGoto .xrcd (make failing .srq x)) x

/-- The loop over the QPs, `n` of them still to go. What `modify_qp_to_init` returns is not read. -/
def createQps : Nat → InitState → Except (InitLabel × InitState) InitState
  | 0, x => .ok x
  | n + 1, x => do
    let x ← orGoto .qps (make failing (.qp x.qpIndex) x)
    let x ← given (p.workRdmaCm && p.dataValidation)
      (fun x => orGoto .qps (check failing (.accessFlags x.qpIndex) x)) x
    createQps n { x with qpIndex := x.qpIndex + 1 }

def createChannels : InitState → Except (InitLabel × InitState) InitState :=
  given p.useEvent fun x => do
    let x ← orGoto .ret (make failing .sendChannel x)
    orGoto .ret (make failing .recvChannel x)

def createDmah (x : InitState) : Except (InitLabel × InitState) InitState :=
  (orGoto .mkey (make failing .dmah x)).map fun x => { x with dmah := true }

def initSteps (x : InitState) : Except (InitLabel × InitState) InitState := do
  let x ← given p.useOoo (fun x => orGoto .ret (check failing .oooSettings x)) x
  let x ← p.createChannels failing x
  let x ← orGoto .compChannel (make failing .pd x)
  let x ← p.createDomains failing x
  let x ← p.createKeys failing x
  let x ← orGoto .mkey (check failing .memoryInit x)
  let x ← given p.needDmah (createDmah failing) x
  let x ← orGoto .dmah (p.createMr failing x)
  let x ← orGoto .mr (p.createCqs failing x)
  let x ← p.createSrqs failing x
  given (!p.workRdmaCm || p.cmId) (p.createQps failing p.numOfQps) x

section Labels

variable (m : InitMarks)

/-- The destroy calls from a label of `ctx_init` on. -/
def atCompChannel : List InitResource :=
  if p.useEvent then [.sendChannel, .recvChannel] else []

def atPd : List InitResource := .pd :: p.atCompChannel

def atTd : List InitResource := (if p.noLock && m.td then [.td] else []) ++ p.atPd

def atDek : List InitResource :=
  (if p.aesXts then (List.range m.dekIndex).map .dek else []) ++
    ((if m.pad then [.parentDomain] else []) ++ p.atTd m)

def atMkey : List InitResource :=
  (if p.aesXts then (List.range m.mkeyIndex).map .mkey else []) ++
    ((if p.sigOffload then (List.range m.mkeyIndex).map .mkey else []) ++ p.atDek m)

def atDmah : List InitResource := (if m.dmah then [.dmah] else []) ++ p.atMkey m

def atMr : List InitResource :=
  p.deregMrs (if p.mrPerQp then p.numOfQps else 1) ++ p.atDmah m

def atCqs : List InitResource :=
  .sendCq :: ((if hasRecvComp p.verb || (p.connectionType = .dc && !p.dctOnly) then [.recvCq]
    else []) ++ p.atMr m)

def atXrcSrq : List InitResource := (if p.useXrc then [.srq] else []) ++ p.atCqs m

def atXrcd : List InitResource := (if p.useXrc then [.xrcDomain] else []) ++ p.atXrcSrq m

def atQps : List InitResource :=
  (List.range m.qpIndex).map .qp ++
    ((if p.useSrq && p.receives then [.srq] else []) ++ p.atXrcd m)

def releasesFrom : InitLabel → List InitResource
  | .ret => []
  | .compChannel => p.atCompChannel
  | .pd => p.atPd
  | .td => p.atTd m
  | .dek => p.atDek m
  | .mkey => p.atMkey m
  | .dmah => p.atDmah m
  | .mr => p.atMr m
  | .cqs => p.atCqs m
  | .xrcSrq => p.atXrcSrq m
  | .xrcd => p.atXrcd m
  | .qps => p.atQps m

end Labels

def unwind (l : InitLabel) (x : InitState) : InitState :=
  x.release (p.releasesFrom x.toInitMarks l)

/-- `ctx_init` where the step `failing` is the one that fails; `false` stands for FAILURE. -/
def ctxInit : InitState × Bool :=
  match p.initSteps failing ⟨⟨false, false, false, 0, 0, 0⟩, []⟩ with
  | .ok x => (x, true)
  | .error (l, x) => (p.unwind l x, false)

/-- The steps whose failure is cleaned up: no receive channel, null MR, initial content, receive CQ
or access flags; nothing behind a null MR; neither the SRQ nor a QP with XRC. -/
def cleansUp : InitStep → Prop
  | .make .recvChannel | .make (.nullMr _) | .bufferContent _ | .make .recvCq | .accessFlags _ =>
    False
  | .odpSupport i | .buffer i | .make (.ibvBuf i) | .make (.mr i) => i = 0 ∨ p.useNullMr = false
  | .make .sendCq | .make .xrcFile | .make .xrcDomain => p.useNullMr = false
  | .make .srq | .make (.qp _) => p.useXrc = false ∧ p.useNullMr = false
  | _ => True

end InitParams

end Perftest
