import Mathlib.Data.Rat.Defs
import Perftest.SignalSchedule
import Perftest.ValidationCommon

namespace Perftest

inductive VerbType where
  | send | sendImm | write | writeImm | read | atomic
deriving DecidableEq, Repr

inductive TestType where
  | lat | bw | latByBw | fsRate
deriving DecidableEq, Repr

inductive MachineType where
  | server | client | unchosen
deriving DecidableEq, Repr

inductive ConnectionType where
  | rc | uc | ud | rawEth | xrc | dc | srd
deriving DecidableEq, Repr

inductive CtxTestMethod where
  | runRegular | runAll | runInfinitely
deriving DecidableEq, Repr

inductive RateLimiterUnits where
  | megaBytePs | gigaBitPs | packetPs
deriving DecidableEq, Repr

inductive RateLimiterTypes where
  | hwRateLimit | swRateLimit | ppRateLimit | disableRateLimit
deriving DecidableEq, Repr

inductive VerbosityLevel where
  | fullVerbosity | outputBw | outputMr | outputLat
deriving DecidableEq, Repr

inductive MemoryType where
  | host | mmap | cuda | musa | rocm | neuron | hl | mlu | opencl | dm | systemDmabuf
deriving DecidableEq, Repr

inductive GpuTouchType where
  | noTouch | touchOnce | touchInfinite
deriving DecidableEq, Repr

def MAX_SIZE : Nat := 8388608
def DEF_SIZE_BW : Nat := 65536
def DEF_SIZE_LAT : Nat := 2
def DEF_SIZE_ATOMIC : Nat := 8
def DEF_ITERS : Nat := 1000
def DEF_ITERS_WB : Nat := 5000
def DEF_TX_BW : Nat := 128
def DEF_TX_LAT : Nat := 1
def DEF_NUM_QPS : Nat := 1
def DEF_RX_RDMA : Nat := 1
def DEF_RX_SEND : Nat := 512
def DEF_CQ_MOD : Nat := 100
def DEF_DURATION : Int := 5
def DEF_INIT_MARGIN : Int := -1
def DEF_INLINE : Int := -1
def DEF_TOS : Int := -1
def DEF_HOP_LIMIT : Int := 64
def DEF_SL : Nat := 0
def DEF_FLOWS : Int := 1
def DISABLED_CQ_MOD_VALUE : Nat := 1
def MSG_SIZE_CQ_MOD_LIMIT : Nat := 8192
def MIN_SRQ_UD_RX_DEPTH : Nat := 100
def UC_MAX_RX : Nat := 16000
def MAX_INLINE_UD : Int := 1024
def CTX_POLL_BATCH : Nat := 16
def CTX_POLL_BATCH_INTENSE : Nat := 64
def CQE_POLL_INTENSE_NUM_QPS_THRESHOLD : Nat := 2048
def CQE_POLL_INTENSE_MSG_SIZE_THRESHOLD : Nat := 8192
def MIN_ITER : Nat := 5
def MAX_ITER : Nat := 4294967296
def MIN_TX : Int := 1
def MAX_TX : Int := 15000
def MIN_RX : Int := 1
def MAX_RX : Int := 16384
def MIN_QP_NUM : Int := 1
def MAX_QP_NUM : Int := 16384
def MIN_CQ_MOD : Int := 1
def MAX_CQ_MOD : Int := 1024

/-- The parameters that shape a run. The depths, the CQ moderation and the number of QPs are
positive from the parser on; the two post lists are whatever the user wrote. -/
structure CoreParameters where
  verb : VerbType
  tst : TestType
  machine : MachineType
  connectionType : ConnectionType
  testMethod : CtxTestMethod
  testType : TestMethod
  size : Nat
  iters : Nat
  txDepth : Nat
  rxDepth : Nat
  numOfQps : Nat
  cqMod : Nat
  reqCqMod : Bool
  fillCount : Bool
  postList : Int
  recvPostList : Int
  replyEvery : Nat
  useEvent : Bool
  duplex : Bool
  dualport : Bool
  useSrq : Bool
  useXrc : Bool
  useMcg : Bool
  macFwd : Bool
  mrPerQp : Bool
  dataValidation : Bool
  validationMode : ValidationMode
  validationChunkSize : Nat
  validationChunksPerQp : Nat
deriving DecidableEq, Repr

/-- The other parameters that `force_dependecies` reads, with their defaults. -/
structure OtherParameters where
  inlineSize : Int := DEF_INLINE
  noPeak : Bool := false
  connectionless : Bool := false
  memoryType : MemoryType := .host
  gpuTouch : GpuTouchType := .noTouch
  useNullMr : Bool := false
  hasPayloadModification : Bool := false
  workRdmaCm : Bool := false
  useRdmaCm : Bool := false
  isReversed : Bool := false
  sigOffload : Bool := false
  cpuUtil : Bool := false
  useOldPostSend : Bool := false
  useGidUser : Bool := false
  gidIndex : Int := -1
  isSourceMac : Bool := false
  isDestMac : Bool := false
  isServerPort : Bool := false
  isClientPort : Bool := false
  isServerIp : Bool := false
  isClientIp : Bool := false
  tcp : Bool := false
  rawMcast : Bool := false
  flows : Int := DEF_FLOWS
  flowsBurst : Int := 1
  tos : Int := DEF_TOS
  hopLimit : Int := DEF_HOP_LIMIT
  sl : Nat := DEF_SL
  logDciStreams : Nat := 0
  logActiveDciStreams : Nat := 0
  aesXts : Bool := false
  encryptOnTx : Bool := false
  sigBefore : Bool := false
  kekPath : Option String := none
  dataEncKeyAppPath : Option String := none
  credentialsPath : Option String := none
  useUnsolicitedWrite : Bool := false
  srqExists : Bool := false
  burstSize : Int := 0
  typicalPktSize : Int := 0
  rateLimit : Rat := 0
  rateLimitStr : String := ""
  rateUnits : RateLimiterUnits := .gigaBitPs
  rateLimitType : RateLimiterTypes := .disableRateLimit
  output : VerbosityLevel := .fullVerbosity
  latencyGap : Int := 0
  duration : Int := DEF_DURATION
  margin : Int := DEF_INIT_MARGIN
  useCcUnprotected : Bool := false
  useOdp : Bool := false
  useHugepages : Bool := false
  useDataDirect : Bool := false
  useCudaPcieMapping : Bool := false
  reportPerPort : Bool := false
  useEqNum : Bool := false
  congestType : Bool := false
  useWriteWithImm : Bool := false
  useCqePoll : Bool := false
  dynamicCqePoll : Bool := true
  cqePoll : Nat := CTX_POLL_BATCH
  processingHints : Int := -1
  tphMemType : Int := -1
  cpuId : Int := -1
  numaNode : Int := -1
  cpuAffinityCount : Nat := 0
  disableNuma : Bool := false
deriving DecidableEq, Repr

structure PerftestParameters extends CoreParameters, OtherParameters
deriving DecidableEq, Repr

/-- The configuration of the build, and what the code asks of the machine it runs on. -/
structure Build where
  haveXrcd : Bool
  haveMlx5dv : Bool
  haveSrd : Bool
  haveSrdQpSl : Bool
  haveAesXts : Bool
  haveSigOffload : Bool
  haveDcs : Bool
  haveIbvWrApi : Bool
  haveCcUnprotectedAlloc : Bool
  haveHnsdv : Bool
  haveRegMrEx : Bool
  hostValidationRuntimeSupported : Bool
  disableMlx5ScatterToCqe : Bool
deriving DecidableEq, Repr

def hasRecvComp (verb : VerbType) : Bool := verb = .send || verb = .sendImm || verb = .writeImm

end Perftest
