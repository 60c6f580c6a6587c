import Perftest.ForceDependecies
import Perftest.Lib.CMachine

namespace Perftest

open CMachine

/-- What the main function of a test presets. -/
structure Program where
  verb : VerbType
  tst : TestType
  rawEth : Bool
deriving DecidableEq, Repr

inductive SizeSuffix where
  | none | kilo | mega
deriving DecidableEq, Repr

def SizeSuffix.factor : SizeSuffix → Nat
  | none => 1
  | kilo => 1024
  | mega => 1024 * 1024

/-- The options that set core parameters; a number is the value of `strtol` on the argument. -/
inductive Opt where
  | size (value : Int) (suffix : SizeSuffix) | all | iters (value : Int) | txDepth (value : Int)
  | rxDepth (value : Int) | qp (value : Int) | cqMod (value : Int) | postList (value : Int)
  | recvPostList (value : Int) | replyEvery (value : Int) | duration (value : Int)
  | connection (name : String) | bidirectional | dualport | events | mcg | client | server | macFwd
  | writeWithImm | sendWithImm | runInfinitely | useSrq | mrPerQp | dataValidation
deriving DecidableEq, Repr

/-- The option as the duplicate check names it. -/
def Opt.name : Opt → String
  | size .. => "-s"
  | all => "-a"
  | iters _ => "-n"
  | txDepth _ => "-t"
  | rxDepth _ => "-r"
  | qp _ => "-q"
  | cqMod _ => "-Q"
  | postList _ => "-l"
  | recvPostList _ => "recv_post_list"
  | replyEvery _ => "reply_every"
  | duration _ => "-D"
  | connection _ => "-c"
  | bidirectional => "-b"
  | dualport => "-O"
  | events => "-e"
  | mcg => "-g"
  | client => "-P"
  | server => "-Z"
  | macFwd => "-v"
  | writeWithImm => "write_with_imm"
  | sendWithImm => "send_with_imm"
  | runInfinitely => "run_infinitely"
  | useSrq => "use-srq"
  | mrPerQp => "mr_per_qp"
  | dataValidation => "data_validation"

/-- `init_perftest_params`; `other` holds what the remaining options leave. -/
def initPerftestParams (prog : Program) (other : OtherParameters) : PerftestParameters :=
  { other with
    verb := prog.verb
    tst := prog.tst
    machine := .unchosen
    connectionType := if prog.rawEth then .rawEth else .rc
    testMethod := .runRegular
    testType := .iterations
    size := if prog.verb = .atomic then DEF_SIZE_ATOMIC
      else if prog.tst = .bw then DEF_SIZE_BW else DEF_SIZE_LAT
    iters := if prog.tst = .bw ∧ (prog.verb = .write ∨ prog.verb = .writeImm) then DEF_ITERS_WB
      else DEF_ITERS
    txDepth := if prog.tst = .bw ∨ prog.tst = .latByBw then DEF_TX_BW else DEF_TX_LAT
    rxDepth := if prog.verb = .read ∨ prog.verb = .atomic then DEF_RX_RDMA else DEF_RX_SEND
    numOfQps := DEF_NUM_QPS
    cqMod := DEF_CQ_MOD
    reqCqMod := false
    fillCount := false
    postList := 1
    recvPostList := 1
    replyEvery := 1
    useEvent := false
    duplex := false
    dualport := false
    useSrq := false
    useXrc := false
    useMcg := false
    macFwd := false
    mrPerQp := false
    dataValidation := false
    validationMode := .write
    validationChunkSize := 0
    validationChunksPerQp := 0 }

/-- `CHECK_VALUE_IN_RANGE` for an `int`. -/
def checkValueInRange (name : String) (minv maxv value : Int) : Except String Nat :=
  let arg := longToInt value
  if arg < minv ∨ maxv < arg then .error s!" {name} should be between {minv} and {maxv}"
  else .ok arg.toNat

def changeConnType (b : Build) (conn : ConnectionType) (verb : VerbType) (arg : String) :
    Except String ConnectionType :=
  if conn = .rawEth then .ok conn
  else if arg = "RC" then .ok .rc
  else if arg = "UC" then
    if verb = .read ∨ verb = .atomic then
      .error " UC connection not possible in READ/ATOMIC verbs"
    else .ok .uc
  else if arg = "UD" then
    if verb ≠ .send ∧ verb ≠ .sendImm then .error " UD connection only possible in SEND verb"
    else .ok .ud
  else if arg = "RawEth" then .ok .rawEth
  else if arg = "XRC" then
    if b.haveXrcd then .ok .xrc else .error " XRC not detected in libibverbs"
  else if arg = "DC" then
    if b.haveMlx5dv then .ok .dc else .error " DC not supported, mlx5dv.h is needed"
  else if arg = "SRD" then
    if !b.haveSrd then .error " SRD not detected in libibverbs"
    else if verb = .atomic then
      .error " SRD connection only possible in SEND/SEND_IMM/READ/WRITE/WRITE_IMM verbs"
    else .ok .srd
  else .error " Invalid Connection type. Please choose from \x7bRC,UC,UD,XRC,DC,SRD\x7d"

/-- The effect of one option in the loop over the command line. -/
def parseOpt (b : Build) (c : CoreParameters) : Opt → Except String CoreParameters
  | .size value suffix =>
    let size := longToUns 64 value * suffix.factor % 2 ^ 64
    if size < 1 ∨ 2147483647 < size then
      .error " Message Size should be between 1 and 2147483647"
    else .ok { c with size := size }
  | .all => .ok { c with testMethod := .runAll }
  | .iters value =>
    let arg := longToUns 64 value
    if arg < MIN_ITER ∨ MAX_ITER < arg then
      .error s!" Iteration num should be between {MIN_ITER} and {MAX_ITER}"
    else .ok { c with iters := arg }
  | .txDepth value =>
    (checkValueInRange "Tx depth" MIN_TX MAX_TX value).map fun n => { c with txDepth := n }
  | .rxDepth value =>
    (checkValueInRange " Rx depth" MIN_RX MAX_RX value).bind fun n =>
      if (c.verb = .read ∨ c.verb = .atomic) ∧ DEF_RX_RDMA < n then
        .error " On RDMA verbs rx depth can be only 1"
      else .ok { c with rxDepth := n }
  | .qp value =>
    (checkValueInRange "num of Qps" MIN_QP_NUM MAX_QP_NUM value).bind fun n =>
      if c.tst ≠ .bw ∧ 1 < n then .error " Multiple QPs only available on bw tests"
      else .ok { c with numOfQps := n }
  | .cqMod value =>
    (checkValueInRange "CQ moderation" MIN_CQ_MOD MAX_CQ_MOD value).map fun n =>
      { c with cqMod := n, reqCqMod := true }
  | .postList value => .ok { c with postList := longToInt value }
  | .recvPostList value => .ok { c with recvPostList := longToInt value }
  | .replyEvery value => .ok { c with replyEvery := longToUns 32 value }
  | .duration value =>
    if longToInt value ≤ 0 then .error " Duration period must be positive"
    else .ok { c with testType := .duration }
  | .connection arg =>
    (changeConnType b c.connectionType c.verb arg).map fun conn =>
      { c with connectionType := conn }
  | .bidirectional =>
    if c.tst = .lat then .error " Bidirectional is only available in BW test"
    else .ok { c with duplex := true }
  | .dualport => .ok { c with dualport := true }
  | .events => .ok { c with useEvent := true }
  | .mcg =>
    if c.verb ≠ .send then .error " MultiCast feature only available on SEND verb"
    else .ok { c with useMcg := true }
  | .client => .ok { c with machine := .client }
  | .server => .ok { c with machine := .server }
  | .macFwd => .ok { c with macFwd := true }
  | .writeWithImm =>
    if (c.tst ≠ .lat ∧ c.tst ≠ .bw) ∨ c.verb ≠ .write then
      .error "Write_with_imm can only be used with write_lat and write_bw tests"
    else .ok { c with verb := .writeImm }
  | .sendWithImm =>
    if (c.tst ≠ .lat ∧ c.tst ≠ .bw) ∨ c.verb ≠ .send then
      .error "Send_with_imm can only be used with send_lat and send_bw tests"
    else .ok { c with verb := .sendImm }
  | .runInfinitely | .useSrq | .mrPerQp | .dataValidation => .ok c

/-- The loop over the command line, which refuses repeated options. -/
def parseArgs (b : Build) : List String → CoreParameters → List Opt →
    Except String CoreParameters
  | _, c, [] => .ok c
  | seen, c, opt :: rest =>
    if opt.name ∈ seen then .error s!" Duplicated argument: {opt.name} "
    else (parseOpt b c opt).bind fun c => parseArgs b (opt.name :: seen) c rest

/-- The flags that take effect behind the loop. -/
def applyFlags (args : List Opt) (c : CoreParameters) : CoreParameters :=
  { c with
    testMethod := if .runInfinitely ∈ args then .runInfinitely else c.testMethod
    useSrq := decide (.useSrq ∈ args) || c.useSrq
    mrPerQp := decide (.mrPerQp ∈ args) || c.mrPerQp
    dataValidation := decide (.dataValidation ∈ args) || c.dataValidation }

/-- The side of the connection; `--reversed` swaps it. -/
def chooseMachine (servername isReversed : Bool) (c : CoreParameters) : MachineType :=
  let machine := if c.connectionType ≠ .rawEth then if servername then .client else .server
    else c.machine
  if isReversed then if machine = .server then .client else .server else machine

/-- The record that `parser` hands to `force_dependecies`. -/
def parsedParams (b : Build) (prog : Program) (other : OtherParameters) (servername : Bool)
    (args : List Opt) : Except String PerftestParameters :=
  (parseArgs b [] (initPerftestParams prog other).toCoreParameters args).map fun c =>
    let c := applyFlags args c
    { other with
      toCoreParameters := { c with machine := chooseMachine servername other.isReversed c } }

def parser (b : Build) (prog : Program) (other : OtherParameters) (servername : Bool)
    (args : List Opt) : Except String PerftestParameters :=
  (parsedParams b prog other servername args).bind (forceDependecies b)

end Perftest
