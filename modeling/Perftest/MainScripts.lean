import Perftest.Lib.LockstepParts
import Perftest.Negotiation

namespace Perftest

open Lockstep

/-- The fields of `bw_report_data` that travel; the number of iterations in 4 or 8 bytes. -/
inductive ReportField where
  | size | iters (bytes : Nat) | bwPeak | bwAvg | msgRateAvg | bwAvgP1 | msgRateAvgP1 | bwAvgP2
  | msgRateAvgP2
deriving DecidableEq, Repr

/-- What one exchange moves in each direction: the keys of a QP or a field of the report. -/
inductive MainMessage where
  | keys (qp : Nat)
  | report (field : ReportField)
deriving DecidableEq, Repr

/-- The loops of the tests over the data path, with the size of their messages. -/
inductive DataLoop where
  | runIterBw (size : Nat) | runIterBwDv (size : Nat) | runIterBwServer (size : Nat)
  | runIterBi (size : Nat) | runIterBwInfinitely (size : Nat)
  | runIterBwInfinitelyServer (size : Nat)
  | runIterLat (size : Nat) | runIterLatSend (size : Nat) | runIterLatWrite (size : Nat)
  | runIterLatWriteImm (size : Nat)
deriving DecidableEq, Repr

/-- What the main function of a test does on its own, where it can affect the other side. -/
inductive MainAct where
  | ctxInit | createRdmaCmConnection | dataValidationInit | setUpConnection | ctxConnect
  | ctxSetSendWqes (size : Nat) | ctxSetRecvWqes (size : Nat) | performWarmUp (size : Nat)
  | dataValidationStart | dataValidationStop
  | enter (loop : DataLoop) | leave (loop : DataLoop)
  | destroyCtx
deriving DecidableEq, Repr

abbrev MainScript := Script MainAct MainMessage

/-- The main functions of the tests over a connection. -/
inductive MainProgram where
  | sendBw | writeBw | readBw | atomicBw | sendLat | writeLat | readLat | atomicLat
deriving DecidableEq, Repr

/-- The parameters as a main function has them behind `negotiate_params`: also the two versions, the
MTU, and where the watchdog of UC and UD ended the receive loop of a size. -/
structure MainParameters extends NegotiationPeer where
  performWarmUp : Bool
  version : Rat
  remVersion : Rat
  currMtu : Nat
  checkAliveExited : Nat → Bool

def MTU_SIZE (mtu : Nat) : Nat := 1 <<< (7 + mtu)

/-- `ctx_hand_shake` for a QP. -/
def ctxHandShake (qp : Nat) : MainScript := [.exchange (.keys qp)]

def ctxHandShakes (numOfQps : Nat) : MainScript := (List.range numOfQps).flatMap ctxHandShake

def ctxCloseConnection : MainScript := ctxHandShake 0

/-- The fields of the report in the order in which they travel. -/
def reportFields (remVersion : Rat) (reportPerPort : Bool) : List ReportField :=
  [.size, .iters (if 5.33 ≤ remVersion then 8 else 4), .bwPeak, .bwAvg, .msgRateAvg] ++
    if reportPerPort then [.bwAvgP1, .msgRateAvgP1, .bwAvgP2, .msgRateAvgP2] else []

def xchgBwReports (remVersion : Rat) (reportPerPort : Bool) : MainScript :=
  (reportFields remVersion reportPerPort).map fun field => .exchange (.report field)

def runLoopSteps (loop : DataLoop) : MainScript := [.act (.enter loop), .act (.leave loop)]

namespace MainParameters

variable (p : MainParameters)

def reports : MainScript := xchgBwReports p.remVersion p.reportPerPort

/-- The sizes of `RUN_ALL`, up to a power. -/
def sizesBelow (sizeMaxPow : Nat) : List Nat :=
  (List.range' 1 (sizeMaxPow - 1)).map fun i => 1 <<< i

/-- `size_max_pow` of the SEND tests. -/
def sizeMaxPow : Nat :=
  if p.connectionType = .ud then Nat.log2 (MTU_SIZE p.currMtu) + 1
  else if p.connectionType = .srd then Nat.log2 p.size + 1
  else 24

/-- The resources, through the RDMA CM or not. -/
def createResources : MainScript :=
  if p.workRdmaCm then ctxHandShake 0 ++ [.act .createRdmaCmConnection] ++ ctxHandShake 0
  else [.act .ctxInit]

def connectSteps : MainScript := if p.workRdmaCm then [] else [.act .ctxConnect]

/-- DC QPs have their numbers from now on. -/
def setUpAgain : MainScript := if p.connectionType = .dc then [.act .setUpConnection] else []

/-- The connection in `write_bw`, `read_bw` and `atomic_bw`. -/
def connectBw (init : MainScript) : MainScript :=
  p.createResources ++ init ++ [.act .setUpConnection] ++ ctxHandShakes p.numOfQps ++
    p.connectSteps ++ p.setUpAgain ++ ctxHandShakes p.numOfQps ++ ctxHandShake 0

/-- The connection in the latency tests of RDMA verbs. -/
def connectLat : MainScript :=
  p.createResources ++ [.act .setUpConnection] ++ ctxHandShake 0 ++ ctxHandShakes p.numOfQps ++
    p.connectSteps ++ p.setUpAgain ++ ctxHandShakes p.numOfQps ++ ctxHandShake 0

/-- The connection in `send_bw` and `send_lat`. -/
def connectSend : MainScript :=
  p.createResources ++ [.act .setUpConnection] ++
    (if p.connectionless then [] else ctxHandShakes p.numOfQps) ++ p.connectSteps ++
    (if p.connectionless then [] else ctxHandShake 0) ++ p.setUpAgain ++
    if p.connectionless then [] else ctxHandShakes p.numOfQps

def isClient : Bool := p.machine = .client

def isServer : Bool := p.machine = .server

def ctxSetSendWqesSteps (size : Nat) : MainScript :=
  if p.isClient || p.duplex then [.act (.ctxSetSendWqes size)] else []

def warmUpSteps (size : Nat) : MainScript :=
  if p.performWarmUp then [.act (.performWarmUp size)] else []

/-- The loop of `write_bw` for one size. -/
def writeBwLoop (size : Nat) : MainScript :=
  if p.duplex && p.verb = .writeImm then runLoopSteps (.runIterBi size)
  else if p.isClient || p.verb ≠ .writeImm then
    runLoopSteps (if p.dataValidation then .runIterBwDv size else .runIterBw size)
  else if p.isServer then runLoopSteps (.runIterBwServer size)
  else []

def writeBwAll (size : Nat) : MainScript :=
  p.ctxSetSendWqesSteps size ++
  (if p.verb = .writeImm && !p.useUnsolicitedWrite && (p.isServer || p.duplex) then
    [.act (.ctxSetRecvWqes size)] else []) ++
  (if p.verb = .writeImm then [] else p.warmUpSteps size) ++
  (if p.duplex || p.verb = .writeImm then ctxHandShake 0 else []) ++
  p.writeBwLoop size ++
  (if p.verb = .writeImm || (p.duplex && 4.6 ≤ p.version) then ctxHandShake 0 else []) ++
  if p.duplex && (p.verb ≠ .writeImm || p.testType ≠ .duration) then p.reports else []

def writeBwRegular : MainScript :=
  p.ctxSetSendWqesSteps p.size ++
  (if p.verb = .writeImm && (p.isServer || p.duplex) then [.act (.ctxSetRecvWqes p.size)]
    else []) ++
  (if p.verb ≠ .send && p.verb ≠ .writeImm then p.warmUpSteps p.size else []) ++
  (if p.dataValidation && p.duplex then [.act .dataValidationStart] else []) ++
  (if p.duplex || p.verb = .writeImm then ctxHandShake 0 else []) ++
  p.writeBwLoop p.size ++
  (if p.dataValidation && p.duplex then ctxHandShake 0 else []) ++
  if p.duplex && (p.verb ≠ .writeImm || p.testType ≠ .duration) then p.reports else []

def writeBwInfinitely : MainScript :=
  (if p.isClient || p.duplex then [.act (.ctxSetSendWqes p.size)]
    else if p.isServer && p.verb = .writeImm then [.act (.ctxSetRecvWqes p.size)] else []) ++
  (if p.verb = .writeImm then ctxHandShake 0 else []) ++
  if p.isClient || p.verb = .write then runLoopSteps (.runIterBwInfinitely p.size)
  else if p.isServer && p.verb = .writeImm then runLoopSteps (.runIterBwInfinitelyServer p.size)
  else []

def writeBwRuns : MainScript :=
  match p.testMethod with
  | .runAll => (sizesBelow 24).flatMap p.writeBwAll
  | .runRegular => p.writeBwRegular
  | .runInfinitely => p.writeBwInfinitely

/-- What follows on the server of a one-sided test, which waits for the client to end. -/
def waitForClient (start stop : MainScript) : MainScript :=
  start ++ ctxHandShake 0 ++ p.reports ++ ctxCloseConnection ++ stop ++ [.act .destroyCtx]

/-- What a client of a one-sided test tells the server. -/
def tellServer : MainScript := ctxHandShake 0 ++ p.reports

def validates (runs : Bool) (a : MainAct) : MainScript :=
  if p.dataValidation && runs then [.act a] else []

def writeBw : MainScript :=
  p.connectBw (p.validates (p.isServer || p.duplex) .dataValidationInit) ++
  if p.isServer && p.verb = .write && !p.duplex then
    p.waitForClient (p.validates true .dataValidationStart) (p.validates true .dataValidationStop)
  else
    p.writeBwRuns ++ p.validates p.duplex .dataValidationStop ++
    (if p.isClient && p.verb = .write && !p.duplex then p.tellServer else []) ++
    ctxCloseConnection ++ [.act .destroyCtx]

/-- The loop of `read_bw` for one size. -/
def readBwLoop (size : Nat) : MainScript :=
  runLoopSteps (if p.dataValidation then .runIterBwDv size else .runIterBw size)

def readBwAll (size : Nat) : MainScript :=
  [.act (.ctxSetSendWqes size)] ++ p.warmUpSteps size ++
  (if p.duplex then ctxHandShake 0 else []) ++ p.readBwLoop size ++
  (if p.duplex && 4.6 ≤ p.version then ctxHandShake 0 else []) ++
  if p.duplex then p.reports else []

def readBwRegular : MainScript :=
  [.act (.ctxSetSendWqes p.size)] ++ p.warmUpSteps p.size ++
  p.validates (p.isClient || p.duplex) .dataValidationStart ++
  (if p.duplex then ctxHandShake 0 else []) ++ p.readBwLoop p.size ++
  (if p.dataValidation && p.duplex then ctxHandShake 0 else []) ++
  if p.duplex then p.reports else []

def readBwRuns : MainScript :=
  match p.testMethod with
  | .runAll => (sizesBelow 24).flatMap p.readBwAll
  | .runRegular => p.readBwRegular
  | .runInfinitely =>
    [.act (.ctxSetSendWqes p.size)] ++ runLoopSteps (.runIterBwInfinitely p.size)

def readBw : MainScript :=
  p.connectBw (p.validates (p.isClient || p.duplex) .dataValidationInit) ++
  if p.isServer && !p.duplex then p.waitForClient [] []
  else
    p.readBwRuns ++ p.validates (p.isClient || p.duplex) .dataValidationStop ++
    (if p.isClient && !p.duplex then p.tellServer else []) ++
    ctxCloseConnection ++ [.act .destroyCtx]

def atomicBwRuns : MainScript :=
  [.act (.ctxSetSendWqes p.size)] ++
  match p.testMethod with
  | .runAll | .runRegular =>
    p.warmUpSteps p.size ++ (if p.duplex then ctxHandShake 0 else []) ++
    runLoopSteps (.runIterBw p.size) ++ if p.duplex then p.reports else []
  | .runInfinitely => runLoopSteps (.runIterBwInfinitely p.size)

def atomicBw : MainScript :=
  p.connectBw [] ++
  if p.isServer && !p.duplex then p.waitForClient [] []
  else
    p.atomicBwRuns ++ (if p.isClient && !p.duplex then p.tellServer else []) ++
    ctxCloseConnection ++ [.act .destroyCtx]

/-- The requests of `send_bw` for one size. -/
def sendBwWqes (size : Nat) : MainScript :=
  p.ctxSetSendWqesSteps size ++
  if p.isServer || p.duplex then [.act (.ctxSetRecvWqes size)] else []

/-- The loop of `send_bw` for one size, and the reports. -/
def sendBwLoop (size : Nat) : MainScript :=
  (if p.duplex then runLoopSteps (.runIterBi size)
    else if p.isClient then runLoopSteps (.runIterBw size)
    else runLoopSteps (.runIterBwServer size)) ++
  if p.duplex && p.testType ≠ .duration then p.reports else []

def sendBwAll (size : Nat) : MainScript :=
  p.sendBwWqes size ++ ctxHandShake 0 ++ p.sendBwLoop size ++ ctxHandShake 0

/-- The sizes one after the other, up to one whose receive loop the watchdog ends. -/
def sendBwSizes : List Nat → MainScript
  | [] => []
  | size :: sizes =>
    p.sendBwAll size ++ if p.checkAliveExited size then [] else sendBwSizes sizes

def sendBwInfinitely : MainScript :=
  (if p.isClient then [.act (.ctxSetSendWqes p.size)]
    else if p.isServer then [.act (.ctxSetRecvWqes p.size)] else []) ++
  (if p.connectionless then [] else ctxHandShake 0) ++
  if p.isClient then runLoopSteps (.runIterBwInfinitely p.size)
  else if p.isServer then runLoopSteps (.runIterBwInfinitelyServer p.size)
  else []

def sendBwRuns : MainScript :=
  match p.testMethod with
  | .runAll => p.sendBwSizes (sizesBelow p.sizeMaxPow)
  | .runRegular => p.sendBwWqes p.size ++ ctxHandShake 0 ++ p.sendBwLoop p.size
  | .runInfinitely => p.sendBwInfinitely

def sendBw : MainScript :=
  p.connectSend ++ p.sendBwRuns ++ ctxCloseConnection ++ [.act .destroyCtx]

/-- One size of `send_lat`. -/
def sendLatRun (size : Nat) : MainScript :=
  [.act (.ctxSetRecvWqes size)] ++ ctxHandShake 0 ++ runLoopSteps (.runIterLatSend size)

def sendLatRuns : MainScript :=
  if p.testMethod = .runAll then (sizesBelow p.sizeMaxPow).flatMap sendLatRun
  else sendLatRun p.size

def sendLat : MainScript :=
  p.connectSend ++ [.act (.ctxSetSendWqes p.size)] ++ p.sendLatRuns ++ ctxCloseConnection ++
    [.act .destroyCtx]

/-- One size of `write_lat`. -/
def writeLatRun (posts : Bool) (size : Nat) : MainScript :=
  if p.verb = .writeImm then
    (if posts then [.act (.ctxSetRecvWqes size)] else []) ++ ctxHandShake 0 ++
      runLoopSteps (.runIterLatWriteImm size)
  else runLoopSteps (.runIterLatWrite size)

def writeLatRuns : MainScript :=
  if p.testMethod = .runAll then
    (sizesBelow 24).flatMap (p.writeLatRun !p.useUnsolicitedWrite)
  else p.writeLatRun true p.size

def writeLat : MainScript :=
  p.connectLat ++ [.act (.ctxSetSendWqes p.size)] ++ p.writeLatRuns ++ [.act .destroyCtx]

def readLatRuns : MainScript :=
  if p.testMethod = .runAll then
    (sizesBelow 24).flatMap fun size => runLoopSteps (.runIterLat size)
  else runLoopSteps (.runIterLat p.size)

def readLat : MainScript :=
  p.connectLat ++
  (if p.isServer then [] else [.act (.ctxSetSendWqes p.size)] ++ p.readLatRuns) ++
  ctxCloseConnection ++ [.act .destroyCtx]

def atomicLat : MainScript :=
  p.connectLat ++
  (if p.isServer then []
    else [.act (.ctxSetSendWqes p.size)] ++ runLoopSteps (.runIterLat p.size)) ++
  ctxCloseConnection ++ [.act .destroyCtx]

end MainParameters

namespace MainProgram

def script (p : MainParameters) : MainProgram → MainScript
  | sendBw => p.sendBw
  | writeBw => p.writeBw
  | readBw => p.readBw
  | atomicBw => p.atomicBw
  | sendLat => p.sendLat
  | writeLat => p.writeLat
  | readLat => p.readLat
  | atomicLat => p.atomicLat

/-- What the main function presets. -/
def preset : MainProgram → Program
  | sendBw => ⟨.send, .bw, false⟩
  | writeBw => ⟨.write, .bw, false⟩
  | readBw => ⟨.read, .bw, false⟩
  | atomicBw => ⟨.atomic, .bw, false⟩
  | sendLat => ⟨.send, .lat, false⟩
  | writeLat => ⟨.write, .lat, false⟩
  | readLat => ⟨.read, .lat, false⟩
  | atomicLat => ⟨.atomic, .lat, false⟩

end MainProgram

/-- What a side must see of the other before it can leave a loop: messages that take a receive need
the peer's receiving loop, and whoever waits for messages needs the peer's sending loop. -/
def waitsFor (verb : VerbType) : MainAct → List MainAct
  | .leave (.runIterBw size) => if hasRecvComp verb then [.enter (.runIterBwServer size)] else []
  | .leave (.runIterBwServer size) => [.enter (.runIterBw size)]
  | .leave (.runIterBwInfinitely size) =>
    if hasRecvComp verb then [.enter (.runIterBwInfinitelyServer size)] else []
  | .leave (.runIterBwInfinitelyServer size) => [.enter (.runIterBwInfinitely size)]
  | .leave (.runIterBi size) => [.enter (.runIterBi size)]
  | .leave (.runIterLatSend size) => [.enter (.runIterLatSend size)]
  | .leave (.runIterLatWrite size) => [.enter (.runIterLatWrite size)]
  | .leave (.runIterLatWriteImm size) => [.enter (.runIterLatWriteImm size)]
  | _ => []

end Perftest
