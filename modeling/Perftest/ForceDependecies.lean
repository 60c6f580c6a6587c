import Perftest.CoreDependecies
import Perftest.Lib.Checked

namespace Perftest

open Checked

abbrev ParamStage := Stage PerftestParameters

namespace PerftestParameters

/-- Rewrites the core parameters only. -/
def mapCore (f : CoreParameters → CoreParameters) (p : PerftestParameters) : PerftestParameters :=
  { p with toCoreParameters := f p.toCoreParameters }

@[simp] theorem mapCore_toCoreParameters (f : CoreParameters → CoreParameters)
    (p : PerftestParameters) : (p.mapCore f).toCoreParameters = f p.toCoreParameters := rfl

end PerftestParameters

def coreStage (f : CoreParameters → CoreParameters) : ParamStage :=
  { update := PerftestParameters.mapCore f }

/-- The strings of `RATE_VALUES`. -/
def rateValues : List String :=
  ["2.5", "5", "10", "14", "20", "25", "28", "30", "40", "50", "56", "60", "80", "100", "112", "120",
    "168", "200", "300", "400", "600", "MAX"]

def messageStage : ParamStage where
  update p := { p with
    rateLimitType := if p.tst = .latByBw ∧ p.rateLimitType = .disableRateLimit then .swRateLimit
      else p.rateLimitType
    inlineSize := if p.verb = .read ∨ p.verb = .atomic then 0 else p.inlineSize }

def verbStage : ParamStage where
  checks p := [
    (p.verb = .atomic && p.size ≠ DEF_SIZE_ATOMIC,
      "Message size cannot be changed for Atomic tests "),
    (p.useSrq && p.verb ≠ .send && p.verb ≠ .sendImm,
      " Using SRQ only avavilible in SEND / SEND_IMM tests."),
    (p.connectionless && (p.machine ≠ .server || !p.useMcg || p.tst ≠ .bw ||
        p.connectionType ≠ .ud || p.testMethod ≠ .runInfinitely),
      " Using Connectionless server only avavilible in Multicast, UD BW with RUN INFINITELY tests.")]

/-- The checks of `--data_validation`, then the geometry. -/
def dataValidationStage (b : Build) : ParamStage where
  checks p := if !p.dataValidation then [] else [
    (p.memoryType ≠ .cuda && p.memoryType ≠ .host,
      " --data_validation requires --use_cuda or host memory"),
    (p.memoryType = .host && !b.hostValidationRuntimeSupported,
      " --data_validation requires host CPU SIMD support (AVX2/SSE4.2/NEON)"),
    (p.verb ≠ .write && p.verb ≠ .read,
      " --data_validation is only supported with WRITE or READ verb"),
    (p.tst ≠ .bw, " --data_validation is only supported in bandwidth tests"),
    (1 < p.postList, " --data_validation is incompatible with --post_list > 1"),
    (p.testMethod = .runInfinitely, " --data_validation is incompatible with --run_infinitely"),
    (p.connectionType ≠ .rc, " --data_validation requires RC connection type"),
    (p.mrPerQp, " --data_validation is incompatible with --mr_per_qp"),
    (p.hasPayloadModification, " --data_validation is incompatible with payload modification"),
    (p.testMethod = .runAll, " --data_validation is incompatible with -a (run all sizes)"),
    (p.gpuTouch ≠ .noTouch, " --data_validation is incompatible with --gpu_touch"),
    (p.useNullMr, " --data_validation is incompatible with --use-null-mr"),
    (p.testType = .iterations && p.iters < 32,
      " --data_validation requires iterations >= 32 (use -n)"),
    (p.txDepth < 32, " --data_validation requires tx_depth >= 32 (use -t)")]
  update := PerftestParameters.mapCore CoreParameters.deriveGeometry

def transportStage : ParamStage where
  checks p := [(p.connectionType = .xrc && p.workRdmaCm, " XRC does not support RDMA_CM")]
  update := PerftestParameters.mapCore CoreParameters.forceTransport

def srqDepthStage (b : Build) : ParamStage where
  checks p := [
    (p.useSrq && (p.verb = .send || p.verb = .sendImm) && p.rxDepth < p.numOfQps,
      " Using SRQ depth should be greater than number of QPs."),
    (b.haveSigOffload && p.sigOffload && p.connectionType ≠ .rc,
      " Signature offload supported only on RC"),
    (b.haveSigOffload && p.sigOffload && p.size % 512 ≠ 0,
      " Signature offload requires message size to be a multiple of 512 bytes.")]

def dualportStage : ParamStage where
  checks p := [
    (p.dualport && p.tst ≠ .bw, " Dual-port mode only supports BW tests."),
    (p.dualport && p.useMcg, " Dual-port mode not supported in multicast feature")]
  update := PerftestParameters.mapCore CoreParameters.forceDualport

def postListStage : ParamStage where
  checks p := if 1 < p.postList then
      if p.listTest then [
        (p.testType = .iterations && p.iters % p.postList.toNat ≠ 0,
          "Number of iterations must be a multiple of post list size"),
        (p.reqCqMod && p.postList.toNat % p.cqMod ≠ 0,
          "Post list size must be a multiple of CQ moderation")]
      else [(true, "Post list is supported in BW tests only")]
    else []
  update := PerftestParameters.mapCore CoreParameters.forcePostList

def recvPostListStage : ParamStage where
  checks p := if 1 < p.recvPostList then
      if p.listTest then [
        (p.testType = .iterations && p.iters % p.recvPostList.toNat ≠ 0,
          "Number of iterations must be a multiple of receive post list size")]
      else [(true, "Receive post list is supported in BW tests only")]
    else []

def durationStage : ParamStage where
  checks p := [
    (p.testType = .duration && p.useEvent, "Duration mode doesn't work with events."),
    (p.testType = .duration && p.testMethod = .runAll,
      "Duration mode currently doesn't support running on all sizes.")]
  update p := { p with
    toCoreParameters := p.toCoreParameters.forceDuration
    noPeak := p.noPeak || p.testType = .duration }

/-- `flow_rules_force_dependecies`. -/
def flowRulesForceDependecies (p : PerftestParameters) : List (Bool × String) :=
  if p.flows ≠ DEF_FLOWS then [
    (!p.isServerPort, " Flows feature works with UDP/TCP packets only for now"),
    (p.testType = .iterations && p.iters / (p.flows * p.flowsBurst).toNat < 1,
      " Current iteration number will not complete full cycle on all flows, it need to be " ++
        "multiple of the product between flows and flows_burst"),
    (p.tst = .fsRate, "FS rate test not requiring flows parameter"),
    (p.duplex, " Flows is currently designed to work with unidir tests only")]
  else [(1 < p.flowsBurst, " Flows burst is designed to work with more then single flow")]

def rawEthStage : ParamStage where
  checks p := if p.connectionType = .rawEth then ([
      (p.testMethod = .runAll, "Raw Ethernet tests do not support -a / --all flag."),
      (p.useRdmaCm || p.workRdmaCm, " RDMA CM isn't supported for Raw Ethernet tests"),
      (p.useGidUser, " GID index isn't supported for Raw Ethernet tests"),
      (p.memoryType = .mmap, " mmaped files aren't supported for Raw Ethernet tests"),
      (p.machine = .unchosen,
        " Invalid Command line.\n you must choose test side --client or --server"),
      (!p.isSourceMac,
        " Invalid Command line.\n you must enter source mac by this format -B XX:XX:XX:XX:XX:XX"),
      (!p.isDestMac && (p.tst = .lat || (p.machine = .client && !p.rawMcast)),
        " Invalid Command line.\n you must enter dest mac by this format -E XX:XX:XX:XX:XX:XX"),
      (p.isServerPort != p.isClientPort,
        " Invalid Command line.\n if you would like to send UDP header,\n you must enter " ++
          "server&client port --server_port X --client_port X"),
      (p.isServerPort && (!p.isServerIp || !p.isClientIp),
        " Invalid Command line.\nPlease provide source_ip and/or dest_ip when using UDP"),
      (p.tcp && !p.isServerPort,
        "Invalid Command line.\nPlease provide UDP information (IP & UDP Port src/dest) in " ++
          "order to use TCP"),
      (p.rawMcast && (p.duplex || p.macFwd),
        " Multicast feature works on unidirectional traffic only")] : List (Bool × String)) ++
      flowRulesForceDependecies { p with duplex := p.duplex || p.macFwd }
    else []
  update p := { p with
    toCoreParameters := p.toCoreParameters.forceMacFwd
    useOldPostSend := p.useOldPostSend || p.connectionType = .rawEth }

def rdmaCmStage : ParamStage where
  checks p := [
    (p.workRdmaCm && p.connectionType = .uc, " UC is not supported in librdmacm"),
    (p.workRdmaCm && p.useMcg, " Perftest still doesn't support Multicast with rdma_cm"),
    (p.workRdmaCm && p.dualport, " Perftest still doesn't support Dual Port with rdma_cm"),
    (!p.workRdmaCm && p.tos ≠ DEF_TOS && p.connectionType ≠ .rawEth,
      " TOS only valid for rdma_cm based QP and RawEth QP "),
    (p.hopLimit ≠ DEF_HOP_LIMIT && p.connectionType ≠ .rawEth,
      " Hop limit only valid for RawEth QP "),
    (p.useMcg && p.duplex, "Bidirectional mode not supported in multicast"),
    (p.useMcg && 1 < p.numOfQps, "Only 1 QP supported in multicast")]
  update p := { p with
    toCoreParameters := p.toCoreParameters.forceMcg
    gidIndex := if p.useMcg ∧ p.gidIndex = -1 then 0 else p.gidIndex
    useRdmaCm := p.useRdmaCm || p.workRdmaCm
    noPeak := p.noPeak ||
      (hasRecvComp p.verb && p.tst = .bw && p.machine = .server && !p.duplex) }

def runInfinitelyStage (b : Build) : ParamStage where
  checks p := if p.testMethod = .runInfinitely then [
      (p.useEvent, " run_infinitely does not support events feature yet."),
      (p.tst = .lat, " run_infinitely exists only in BW tests for now."),
      (p.duplex && hasRecvComp p.verb,
        " run_infinitely mode is not supported in SEND, SEND_IMM or WRITE_IMM " ++
          "Bidirectional BW test"),
      (p.rateLimitType ≠ .disableRateLimit,
        " run_infinitely does not support rate limit feature yet")]
    else []
  update p := { p with
    toCoreParameters := p.toCoreParameters.forceInfinitely
    noPeak := p.noPeak || p.testMethod = .runInfinitely
    useOldPostSend := p.useOldPostSend || !b.haveIbvWrApi }

def dcStage (b : Build) : ParamStage where
  checks p := [
    (p.connectionType = .dc && p.useOldPostSend, " DC does not support old post send flow"),
    (p.connectionType = .dc && p.workRdmaCm, " DC does not support RDMA_CM"),
    (p.logDciStreams ≠ 0 && !b.haveDcs, " log_dci_streams not supported"),
    (p.logDciStreams ≠ 0 && p.connectionType ≠ .dc, " log_dci_streams supported only on DC"),
    (0 < p.logActiveDciStreams && !b.haveDcs, " log_active_dci_streams not supported"),
    (0 < p.logActiveDciStreams && p.connectionType ≠ .dc,
      " log_active_dci_streams supported only on DC"),
    (0 < p.logActiveDciStreams && p.logDciStreams = 0, " log_dci_streams must be greater than 0")]

def aesXtsStage (b : Build) : ParamStage where
  checks p := if p.aesXts then
      if !b.haveAesXts then [(true, " aes_xts not supported")] else [
      (p.connectionType ≠ .rc, " aes_xts supported only on RC"),
      (p.kekPath = none, " Please provide key encryption key file path"),
      (p.dataEncKeyAppPath = none, " Please provide data encryption key app path"),
      (p.credentialsPath = none, " Please provide credentials file path"),
      (p.useOldPostSend, " aes_xts doesn't support old post send"),
      (p.workRdmaCm, " rdma_cm doesn't support aes_xts"),
      (p.tst = .lat && (p.verb = .write || p.verb = .writeImm),
        " aes_xts isn't supported on write_lat"),
      ((p.size : Int) ≤ p.inlineSize, " aes_xts doesn't support Inline messages"),
      (p.sigOffload, " aes_xts cannot be used with signature offload")]
    else [
      (p.encryptOnTx, " encrypt_on_tx supported only when enc/dec traffic"),
      (p.sigBefore, " sig_before supported only when enc/dec traffic"),
      (p.credentialsPath ≠ none, " giving credentials path supported only with enc/dec traffic"),
      (p.kekPath ≠ none, " giving kek path supported only with enc/dec traffic"),
      (p.dataEncKeyAppPath ≠ none, " giving kek path supported only with enc/dec traffic")]

def srdStage (b : Build) : ParamStage where
  checks p := [
    (p.connectionType = .srd && p.workRdmaCm, " SRD does not support RDMA_CM"),
    (p.connectionType = .srd && !b.haveSrdQpSl && p.sl ≠ DEF_SL,
      " SRD does not support non-default SL"),
    (p.useUnsolicitedWrite && p.connectionType ≠ .srd,
      " Unsolicited write receive is supported only for SRD"),
    (p.useUnsolicitedWrite && p.verb ≠ .writeImm,
      " Unsolicited write receive can only be used with write-with-immediate"),
    (p.useEvent && p.verb = .write, " Events feature not available on WRITE verb")]
  update p := { p with
    toCoreParameters := p.toCoreParameters.forceSrd
    srqExists := p.srqExists ||
      (p.useSrq && (p.tst = .lat || p.machine = .server || p.duplex)) || p.useXrc }

/-- The rate limiter in units of Gb/s, for the hardware limiter. -/
def rateLimitGbps (p : PerftestParameters) : Rat :=
  match p.rateUnits with
  | .megaBytePs => p.rateLimit * 8 * 1024 * 1024 / 1000000000
  | _ => p.rateLimit

def rateLimitStage : ParamStage where
  checks p := [
    (0 < p.burstSize && p.rateLimitType = .disableRateLimit && p.tst ≠ .latByBw,
      " Can't enable burst mode when rate limiter is off"),
    (p.typicalPktSize ≠ 0 && p.rateLimitType ≠ .ppRateLimit,
      " Typical packet size only supports PP rate limiter")] ++
    match p.rateLimitType with
    | .swRateLimit => [
      (p.tst ≠ .bw || p.verb = .atomic || ((p.verb = .send || p.verb = .sendImm) && p.duplex),
        "SW Rate limiter cann't be executed on non-BW, ATOMIC or bidirectional " ++
          "SEND / SEND_IMM tests")]
    | .hwRateLimit => [
      (p.useRdmaCm || p.workRdmaCm, " HW rate limit isn't supported yet with rdma_cm scenarios"),
      (p.rateUnits = .packetPs,
        " Failed: pps rate limit units is not supported when setting HW rate limit"),
      (0 < rateLimitGbps p && p.rateLimitStr ∉ rateValues, " Failed: Unknown rate limit value")]
    | .ppRateLimit => [
      (p.rateLimit < 0,
        " Must specify a rate limit when using Packet Pacing.\n Please add --rate_limit=<limit>."),
      (p.connectionType ≠ .rawEth, "Packet Pacing is only supported for Raw Ethernet."),
      (p.rateUnits ≠ .megaBytePs, "Packet Pacing only supports MEGA_BYTE_PS.")]
    | .disableRateLimit => []
  update p := { p with
    burstSize := if p.burstSize ≤ 0 ∧ p.rateLimitType ≠ .ppRateLimit then p.txDepth else p.burstSize
    rateLimit := if p.rateLimitType = .ppRateLimit then p.rateLimit * 8 * 1024 else p.rateLimit }

def outputStage : ParamStage where
  checks p := [
    (p.tst = .latByBw && p.testType = .duration,
      "Latency under load test is currently support iteration mode only."),
    (p.tst = .latByBw && 1 < p.numOfQps, "Multi QP is not supported in LAT under load test"),
    (p.tst = .latByBw && p.duplex, "Bi-Dir is not supported in LAT under load test"),
    (p.tst = .latByBw && p.output ≠ .fullVerbosity && p.output ≠ .outputLat,
      " Output verbosity level for BW can be latency"),
    (p.output ≠ .fullVerbosity && p.tst = .bw && !(p.output = .outputBw || p.output = .outputMr),
      " Output verbosity level for BW can be: bandwidth, message_rate"),
    (p.output ≠ .fullVerbosity && p.tst = .lat && p.output ≠ .outputLat,
      " Output verbosity level for LAT can be: latency"),
    (0 < p.latencyGap && p.tst ≠ .lat, " Latency gap feature is only for latency tests")]
  update p := { p with
    margin := if p.testType = .duration ∧ p.margin = DEF_INIT_MARGIN then p.duration / 4
      else p.margin }

def memoryStage (b : Build) : ParamStage where
  checks p :=
    let gpu := p.memoryType = .cuda || p.memoryType = .musa
    let anyWrite := p.verb = .write || p.verb = .writeImm
    let inlined := (p.size : Int) ≤ p.inlineSize
    [(p.useNullMr && !(anyWrite || p.verb = .read),
      "Perftest supports using a null memory region with write/read verbs only"),
    (gpu && p.tst = .lat && p.verb = .write,
      "Perftest doesn't support device memory latency test with write (without immediate) " ++
        "verb; use --write_with_imm"),
    ((gpu || p.memoryType = .dm) && p.verb = .send && (p.size ≤ 64 || p.testMethod = .runAll) &&
      !b.disableMlx5ScatterToCqe, "Failed to set environment variable"),
    (gpu && inlined, "Perftest doesn't support device memory tests with inline messages"),
    (p.memoryType = .mlu && p.tst = .lat && anyWrite,
      "Perftest supports MLU latency tests with read/send verbs only"),
    (p.memoryType = .mlu && inlined, "Perftest doesn't support MLU tests with inline messages"),
    (p.memoryType = .dm && p.tst = .lat && anyWrite,
      "Perftest doesn't support device memory latency test with write verb")] ++
    if b.haveCcUnprotectedAlloc && p.useCcUnprotected then [
      (p.useOdp, "CC unprotected memory cannot be used with ODP"),
      (p.useRdmaCm || p.workRdmaCm, "CC unprotected memory cannot be used with RDMA CM"),
      (p.memoryType ≠ .host, "CC unprotected memory requires host memory"),
      (p.dataValidation, "CC unprotected memory cannot be used with data validation"),
      (p.useHugepages, "CC unprotected memory cannot be used with hugepages")]
    else []
  update p := { p with
    useCudaPcieMapping := p.useCudaPcieMapping || p.useDataDirect
    inlineSize := if p.connectionType = .ud ∧ MAX_INLINE_UD < p.inlineSize then MAX_INLINE_UD
      else p.inlineSize }

def reportStage : ParamStage where
  checks p := [
    (p.reportPerPort && (p.testType ≠ .duration || !p.dualport),
      "report per port feature work only with Duration and Dualport")]
  update := PerftestParameters.mapCore CoreParameters.evenRxDepth

def marginStage : ParamStage where
  checks p := [
    (p.duration ≤ 2 * p.margin, "please check that DURATION > 2*MARGIN"),
    (!p.useEvent && p.useEqNum, " Events must be enabled to select a completion vector")]
  update p := { p with
    toCoreParameters := p.toCoreParameters.setFillCount
    noPeak := p.noPeak || (p.testType = .iterations && 20000 < p.iters && p.tst = .bw) }

def checkIntensePolling (p : PerftestParameters) : Bool :=
  !p.useCqePoll && CQE_POLL_INTENSE_NUM_QPS_THRESHOLD < p.numOfQps &&
    CQE_POLL_INTENSE_MSG_SIZE_THRESHOLD < p.size

def pollingStage (b : Build) : ParamStage where
  checks p := [
    (b.haveHnsdv && p.congestType && p.workRdmaCm,
      "rdma_cm does not support setting congest type."),
    (b.haveHnsdv && p.congestType && (p.connectionType = .xrc || p.connectionType = .ud),
      "XRC/UD does not support setting congest type.")]
  update p :=
    let dynamic := p.dynamicCqePoll && !((p.testType = .iterations && p.iters < 3000) ||
      (p.tst = .bw && p.duplex && (p.verb = .send || p.useWriteWithImm)) || p.tst = .lat)
    { p with
      dynamicCqePoll := dynamic
      cqePoll := if !dynamic && checkIntensePolling p then CTX_POLL_BATCH_INTENSE else p.cqePoll }

def placementStage (b : Build) : ParamStage where
  checks p := (if b.haveRegMrEx then [
      (p.processingHints ≠ -1 && p.useDataDirect, " data direct is not supported with TPH"),
      (p.tphMemType ≠ -1 && p.cpuId = -1, " --tph_mem requires --cpu_id to be specified"),
      (p.cpuId ≠ -1 && p.tphMemType = -1, " --cpu_id requires --tph_mem to be specified"),
      ((p.tphMemType ≠ -1 || p.cpuId ≠ -1) && p.processingHints = -1,
        " --tph_mem and --cpu_id can only be used when --ph is specified")]
    else []) ++ [
    (p.numaNode ≠ -1 && 0 < p.cpuAffinityCount,
      " --numa_node and --pin_cores cannot be used together"),
    (p.numaNode ≠ -1 && p.disableNuma, " --numa_node and --disable_numa cannot be used together"),
    (p.connectionType = .rawEth && 0 < p.cpuAffinityCount,
      " --pin_cores is not supported for raw Ethernet tests"),
    (p.connectionType = .rawEth && p.numaNode ≠ -1,
      " --numa_node is not supported for raw Ethernet tests")]

open CoreParameters

/-- The stages in the order of the source, each with what it does to the core parameters. -/
def dependecies (b : Build) : List (ParamStage × (CoreParameters → CoreParameters)) := [
  (coreStage forceDepths, forceDepths), (coreStage limitCqMod, limitCqMod), (messageStage, id),
  (coreStage clampCqMod, clampCqMod), (coreStage forceSize, forceSize), (verbStage, id),
  (dataValidationStage b, deriveGeometry), (transportStage, forceTransport), (srqDepthStage b, id),
  (dualportStage, forceDualport), (postListStage, forcePostList), (recvPostListStage, id),
  (durationStage, forceDuration), (rawEthStage, forceMacFwd), (rdmaCmStage, forceMcg),
  (runInfinitelyStage b, forceInfinitely), (dcStage b, id), (aesXtsStage b, id),
  (srdStage b, forceSrd), (rateLimitStage, id), (outputStage, id), (memoryStage b, id),
  (reportStage, evenRxDepth), (marginStage, setFillCount), (pollingStage b, id),
  (placementStage b, id)]

def forceDependecies (b : Build) (p : PerftestParameters) : Except String PerftestParameters :=
  runAll ((dependecies b).map Prod.fst) p

/-- The core parameters of an accepted record. -/
theorem forceDependecies_core {b : Build} {p q : PerftestParameters}
    (h : forceDependecies b p = .ok q) :
    q.toCoreParameters = p.toCoreParameters.coreDependecies := by
  obtain ⟨-, rfl⟩ := runAll_eq_ok_iff.mp h
  have he : ∀ e ∈ dependecies b, ∀ s : PerftestParameters,
      (e.1.update s).toCoreParameters = e.2 s.toCoreParameters := by
    intro e he s
    simp only [dependecies, List.mem_cons, List.not_mem_nil, or_false] at he
    rcases he with rfl | rfl | rfl | rfl | rfl | rfl | rfl | rfl | rfl | rfl | rfl | rfl | rfl |
      rfl | rfl | rfl | rfl | rfl | rfl | rfl | rfl | rfl | rfl | rfl | rfl | rfl <;> rfl
  rw [map_updates he]
  rfl

end Perftest
