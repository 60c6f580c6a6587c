import Perftest.AddressRing
import Perftest.LayoutAgreement
import Perftest.PeakReport
import Perftest.RecvSupply

namespace Perftest

open CMachine Checked SendConfig

/-- What the machine, the device and the other side bring to a run. -/
structure RunEnv where
  cacheLineSize : Nat
  /-- The size of a page, in which small messages cycle. -/
  pageSize : Nat
  currMtu : Nat
  iwarp : Bool
  cacheLine_ge : DEF_SIZE_ATOMIC ≤ cacheLineSize
  page_ge : cacheLineSize ≤ pageSize

namespace RunLoop

/-- The loops of a bandwidth test that post sends. -/
def posts : RunLoop → Bool
  | runIterBw | runIterBwDv | runIterBwInfinitely | runIterBi | runIterFw => true
  | runIterBwServer | runIterBwInfinitelyServer | runIterLatBurst | runIterLatBurstServer => false

/-- The loops of a bandwidth test that post receives again. -/
def reposts : RunLoop → Bool
  | runIterBwServer | runIterBwInfinitelyServer | runIterBi => true
  | runIterBw | runIterBwDv | runIterBwInfinitely | runIterFw | runIterLatBurst
  | runIterLatBurstServer => false

end RunLoop

namespace PerftestParameters

variable (env : RunEnv) (prog : Program) (d : PerftestParameters) (size : Nat) (loop : RunLoop)

/-- The test posts receives: those of a receiving verb do, on the server or in both directions. -/
def postsReceives : Bool :=
  hasRecvComp d.verb && !d.useUnsolicitedWrite && (d.machine = .server || d.duplex)

/-- The test sends the requests of `ctx_set_send_reg_wqes`. -/
def postsRegWqes : Bool := !d.dataValidation && (d.machine = .client || d.duplex)

/-- The sizes of the messages, one after the other. -/
def runSizes : List Nat :=
  if d.testMethod = .runAll then (List.range 23).map fun i => 2 ^ (i + 1) else [d.size]

/-- `cycle_buffer` of the context, an `int`. -/
def cycleBuffer : Int := if d.macFwd then longToInt (d.size * d.rxDepth) else env.pageSize

/-- The guard `size <= cycle_buffer / 2`, whose right side becomes unsigned. -/
def cycles : Bool := decide (size ≤ longToUns 64 ((d.cycleBuffer env).tdiv 2))

/-- The divisor of `increase_loc_addr` and of `increase_rem_addr`. -/
def slots : Int := (d.cycleBuffer env).tdiv (incSize size env.cacheLineSize)

/-- In `ctx_set_send_reg_wqes` the step of the remote address has no guard for an atomic verb. -/
def listSteps : Bool := decide (1 < d.postList) && (d.cycles env size || d.verb = .atomic)

/-- A list of receives is stepped when it is set up, a single one behind each post. -/
def recvSteps : Bool :=
  d.cycles env size && (decide (1 < d.recvPostList) ||
    (decide (d.recvPostList = 1) && decide (0 < d.recvConfig.sizePerQp)))

/-- The step behind the post of a send. -/
def postSteps : Bool :=
  loop.posts && decide (loop ≠ .runIterBwDv) && decide (d.postList = 1) && d.cycles env size

/-- The step behind the post of a receive. -/
def repostSteps : Bool :=
  loop.reposts && d.postsReceives && decide (d.recvPostList = 1) && decide (0 < d.recvConfig.sizePerQp) &&
    d.cycles env (d.recvSize size)

/-- The servers of `ib_send_bw` that return credits, on iWARP only. -/
def countsCredits : Bool :=
  env.iwarp && decide (prog.verb = .send) && !prog.rawEth &&
    (decide (loop = .runIterBwServer) || decide (loop = .runIterBi)) &&
    d.postsReceives && decide (0 < d.recvConfig.sizePerQp)

def sendWqeDivisors : List Int :=
  (d.cqMod : Int) :: if d.listSteps env size then [d.slots env size] else []

def recvWqeDivisors : List Int :=
  d.recvPostList :: ((if d.useSrq then [2 ^ (env.currMtu + 7), (d.mainQps : Int)] else []) ++
    if d.recvSteps env size then [d.slots env size] else [])

def loopDivisors : List Int :=
  (if loop.posts then [(d.cqMod : Int)] else []) ++
    ((if loop = .runIterBwDv then [(d.validationChunkSize : Int)] else []) ++
      ((if d.postSteps env size loop || d.repostSteps env size loop then [d.slots env size]
        else []) ++
      if d.countsCredits env prog loop then [(d.rxDepth : Int), (d.rxDepth : Int).tdiv 3] else []))

/-- What the set-up of the requests and the loop divide by. -/
def runDivisors : List Int :=
  (if d.postsRegWqes then d.sendWqeDivisors env size else []) ++
    ((if d.postsReceives then d.recvWqeDivisors env size else []) ++
      (d.runLoop prog).toList.flatMap (d.loopDivisors env prog size))

/-- Some address of the run is stepped in a ring. -/
def stepsRing : Bool :=
  (d.postsRegWqes && d.listSteps env size) || (d.postsReceives && d.recvSteps env size) ||
    (d.runLoop prog).any fun loop => d.postSteps env size loop || d.repostSteps env size loop

end PerftestParameters

/-- A bandwidth test can run with its parameters: the lists and the CQ moderation are positive and
fit the depths, nothing is divided by zero, and `run_iter_bw` can post as soon as all completions
are consumed. -/
structure Runnable (env : RunEnv) (prog : Program) (d : PerftestParameters) : Prop where
  postList_pos : 1 ≤ d.postList
  recvPostList_pos : 1 ≤ d.recvPostList
  cqMod_pos : 1 ≤ d.cqMod
  replyEvery_pos : 1 ≤ d.replyEvery
  postList_le : d.postList ≤ d.txDepth
  recvPostList_le : d.postsReceives = true → d.recvPostList ≤ d.rxDepth
  cqMod_le : d.cqMod ≤ d.txDepth
  divisors : ∀ size ∈ d.runSizes, ∀ z ∈ d.runDivisors env prog size, z ≠ 0
  progress : d.runLoop prog = some .runIterBw → ∀ s, (runIterBw d.sendConfig).Reachable s →
    SendLoop.Drained s.toSendCounters → ∀ q, q < d.sendConfig.numOfQps →
      (runIterBw d.sendConfig).unfinished s.toSendCounters q = true →
        ∃ q, q < d.sendConfig.numOfQps ∧
          (runIterBw d.sendConfig).unfinished s.toSendCounters q = true ∧
          (runIterBw d.sendConfig).hasRoom s.toSendCounters q = true

namespace CoreParameters

/-- The receive depth: within the iterations, enough for the QPs of DC, and even. -/
def settledRxDepth (c : CoreParameters) : Nat :=
  let depth := if c.connectionType = .dc ∧ c.clampedRxDepth < c.numOfQps then c.numOfQps
    else c.clampedRxDepth
  if hasRecvComp c.verb ∧ depth % 2 = 1 ∧ c.testMethod = .runRegular then depth + 1 else depth

/-- The options with the values that the rules for the size, the depths, the direction, the QPs and
the transport give. -/
def settled (c : CoreParameters) : CoreParameters :=
  { c with
    duplex := c.duplex || (c.connectionType = .rawEth && c.macFwd)
    size := if c.testMethod = .runAll then MAX_SIZE else c.size
    txDepth := c.clampedTxDepth
    rxDepth := c.settledRxDepth
    numOfQps := if c.dualport then c.numOfQps * 2 else c.numOfQps
    useXrc := c.connectionType = .xrc || c.useXrc
    useSrq := c.connectionType = .xrc || c.connectionType = .dc || c.useSrq
    connectionType := if c.useMcg then .ud else c.connectionType }

end CoreParameters

/-- The lists fit the depths, the ring of mac forwarding has a slot, and a third of the receive
depth is a message. -/
structure RunFits (env : RunEnv) (prog : Program) (p : PerftestParameters) : Prop where
  postList_pos : 1 ≤ p.postList
  recvPostList_pos : 1 ≤ p.recvPostList
  replyEvery_pos : 1 ≤ p.replyEvery
  postList_le : p.postList ≤ p.txDepth
  recvPostList_le : p.postsReceives = true → p.recvPostList ≤ p.rxDepth
  ring : p.macFwd = true → ∀ size ∈ p.runSizes, p.stepsRing env prog size = true →
    incSize size env.cacheLineSize ≤ (p.cycleBuffer env).natAbs
  credits : ∀ loop, p.runLoop prog = some loop → p.countsCredits env prog loop = true →
    3 ≤ p.rxDepth

/-- What the functions of a run read of a record, but for the CQ moderation and what data validation
derives. -/
structure SameRun (d p : PerftestParameters) : Prop where
  tst : d.tst = p.tst
  testMethod : d.testMethod = p.testMethod
  verb : d.verb = p.verb
  machine : d.machine = p.machine
  connectionType : d.connectionType = p.connectionType
  duplex : d.duplex = p.duplex
  macFwd : d.macFwd = p.macFwd
  dataValidation : d.dataValidation = p.dataValidation
  useUnsolicitedWrite : d.useUnsolicitedWrite = p.useUnsolicitedWrite
  size : d.size = p.size
  txDepth : d.txDepth = p.txDepth
  rxDepth : d.rxDepth = p.rxDepth
  postList : d.postList = p.postList
  recvPostList : d.recvPostList = p.recvPostList
  replyEvery : d.replyEvery = p.replyEvery
  useSrq : d.useSrq = p.useSrq
  mainQps : d.mainQps = p.mainQps

namespace CoreParameters

variable (c : CoreParameters)

theorem coreDependecies_kept_options :
    c.coreDependecies.testMethod = c.testMethod ∧ c.coreDependecies.machine = c.machine ∧
      c.coreDependecies.macFwd = c.macFwd ∧ c.coreDependecies.replyEvery = c.replyEvery ∧
      c.coreDependecies.txDepth = c.clampedTxDepth := by
  simp only [coreDependecies, setFillCount, evenRxDepth, forceSrd, forceInfinitely, forceMcg,
    forceMacFwd, forceDuration, forcePostList, forceDualport, forceTransport, deriveGeometry,
    forceSize, clampCqMod, limitCqMod, forceDepths, and_self]

theorem coreDependecies_duplex : c.coreDependecies.duplex = c.settled.duplex := by
  cases hm : c.macFwd <;> by_cases hc : c.connectionType = .rawEth <;>
    simp only [coreDependecies, setFillCount, evenRxDepth, forceSrd, forceInfinitely, forceMcg,
      forceMacFwd, forceDuration, forcePostList, forceDualport, forceTransport, deriveGeometry,
      forceSize, clampCqMod, limitCqMod, forceDepths, settled, hm, hc, decide_true, decide_false]

theorem coreDependecies_shared : c.coreDependecies.useXrc = c.settled.useXrc ∧
    c.coreDependecies.useSrq = c.settled.useSrq := by
  by_cases hx : c.connectionType = .xrc <;> by_cases hd : c.connectionType = .dc <;>
    simp only [coreDependecies, setFillCount, evenRxDepth, forceSrd, forceInfinitely, forceMcg,
      forceMacFwd, forceDuration, forcePostList, forceDualport, forceTransport, deriveGeometry,
      forceSize, clampCqMod, limitCqMod, forceDepths, settled, hx, hd, decide_true, decide_false,
      and_self]

theorem coreDependecies_settledRxDepth : c.coreDependecies.rxDepth = c.settled.rxDepth := by
  have hs : c.settled.rxDepth = c.settledRxDepth := rfl
  rw [hs]
  unfold settledRxDepth
  by_cases hd : c.connectionType = .dc ∧ c.clampedRxDepth < c.numOfQps <;>
    simp only [coreDependecies, setFillCount, evenRxDepth, forceSrd, forceInfinitely, forceMcg,
      forceMacFwd, forceDuration, forcePostList, forceDualport, forceTransport, deriveGeometry,
      forceSize, clampCqMod, limitCqMod, forceDepths, hd, if_false]

theorem coreDependecies_mainQps : c.coreDependecies.mainQps = c.settled.mainQps := by
  have hconn : c.coreDependecies.connectionType = c.settled.connectionType :=
    (coreDependecies_transport c).2.2.2.2
  have hqps : c.coreDependecies.numOfQps = c.settled.numOfQps := coreDependecies_numOfQps c
  simp only [mainQps, hconn, hqps, coreDependecies_duplex, coreDependecies_shared]

end CoreParameters

/-- The rules settle what the functions read. -/
theorem forceDependecies_sameRun {b : Build} {p d : PerftestParameters}
    (h : forceDependecies b p = .ok d) : SameRun d (p.mapCore CoreParameters.settled) := by
  have hcore := forceDependecies_core h
  have hother : d.useUnsolicitedWrite = p.useUnsolicitedWrite := by
    obtain ⟨-, rfl⟩ := runAll_eq_ok_iff.mp h
    rfl
  obtain ⟨hverb, -, hdv, hlist, hconn⟩ := coreDependecies_transport p.toCoreParameters
  obtain ⟨hmethod, hmachine, hmac, hreply, htx⟩ :=
    CoreParameters.coreDependecies_kept_options p.toCoreParameters
  constructor
  case useUnsolicitedWrite => exact hother
  all_goals rw [hcore]
  case tst => exact CoreParameters.coreDependecies_tst _
  case testMethod => exact hmethod
  case verb => exact hverb
  case machine => exact hmachine
  case connectionType => exact hconn
  case duplex => exact CoreParameters.coreDependecies_duplex _
  case macFwd => exact hmac
  case dataValidation => exact hdv
  case size => exact CoreParameters.coreDependecies_size _
  case txDepth => exact htx
  case rxDepth => exact CoreParameters.coreDependecies_settledRxDepth _
  case postList => exact hlist
  case recvPostList => exact CoreParameters.coreDependecies_recvPostList
  case replyEvery => exact hreply
  case useSrq => exact (CoreParameters.coreDependecies_shared _).2
  case mainQps => exact CoreParameters.coreDependecies_mainQps _

namespace SameRun

variable {env : RunEnv} {prog : Program} {d p : PerftestParameters} {n : Nat} {loop : RunLoop}

theorem postsReceives (h : SameRun d p) : d.postsReceives = p.postsReceives := by
  simp only [PerftestParameters.postsReceives, h.verb, h.useUnsolicitedWrite, h.machine, h.duplex]

theorem runSizes (h : SameRun d p) : d.runSizes = p.runSizes := by
  simp only [PerftestParameters.runSizes, h.testMethod, h.size]

theorem cycleBuffer (h : SameRun d p) : d.cycleBuffer env = p.cycleBuffer env := by
  simp only [PerftestParameters.cycleBuffer, h.macFwd, h.size, h.rxDepth]

theorem cycles (h : SameRun d p) : d.cycles env n = p.cycles env n := by
  simp only [PerftestParameters.cycles, h.cycleBuffer]

theorem runLoop (h : SameRun d p) : d.runLoop prog = p.runLoop prog := by
  simp only [PerftestParameters.runLoop, h.tst, h.testMethod, h.machine, h.duplex, h.verb, h.macFwd,
    h.dataValidation]

theorem sizePerQp (h : SameRun d p) : d.recvConfig.sizePerQp = p.recvConfig.sizePerQp := by
  simp only [RecvConfig.sizePerQp, CoreParameters.recvConfig, h.rxDepth, h.recvPostList, h.useSrq,
    h.mainQps]
  rfl

theorem countsCredits (h : SameRun d p) :
    d.countsCredits env prog loop = p.countsCredits env prog loop := by
  simp only [PerftestParameters.countsCredits, h.postsReceives, h.sizePerQp]

theorem stepsRing (h : SameRun d p) : d.stepsRing env prog n = p.stepsRing env prog n := by
  simp only [PerftestParameters.stepsRing, PerftestParameters.postsRegWqes, h.postsReceives,
    PerftestParameters.listSteps, PerftestParameters.recvSteps, PerftestParameters.postSteps,
    PerftestParameters.repostSteps, PerftestParameters.recvSize, h.cycles, h.runLoop, h.verb,
    h.postList, h.recvPostList, h.dataValidation, h.machine, h.duplex, h.sizePerQp,
    h.connectionType]

end SameRun

section Ring

variable {env : RunEnv} {d : PerftestParameters} {n : Nat}

theorem incSize_pos_of_env (env : RunEnv) (n : Nat) : 0 < incSize n env.cacheLineSize := by
  have hge := env.cacheLine_ge
  have hline : 0 < env.cacheLineSize := Nat.lt_of_lt_of_le (by decide) hge
  unfold incSize roundUp
  split
  next h =>
    split
    next => exact Nat.zero_lt_of_lt h
    next => exact Nat.mul_pos hline (Nat.succ_pos _)
  next => exact hline

namespace PerftestParameters

theorem slots_ne_zero_iff :
    d.slots env n ≠ 0 ↔ incSize n env.cacheLineSize ≤ (d.cycleBuffer env).natAbs := by
  have hpos := incSize_pos_of_env env n
  have habs : (d.slots env n).natAbs = (d.cycleBuffer env).natAbs / incSize n env.cacheLineSize := by
    rw [slots, Int.natAbs_tdiv, Int.natAbs_natCast]
    rfl
  rw [← Int.natAbs_ne_zero, habs, Nat.div_ne_zero_iff]
  exact ⟨And.right, fun h => ⟨by omega, h⟩⟩

/-- A message of half a page at most has a slot in a page. -/
theorem incSize_le_page (h : n ≤ env.pageSize / 2) : incSize n env.cacheLineSize ≤ env.pageSize := by
  have hle := env.page_ge
  unfold incSize roundUp
  split
  next hlt =>
    have hdiv := Nat.mul_div_le n env.cacheLineSize
    split
    next => omega
    next =>
      rw [Nat.mul_add, Nat.mul_one]
      omega
  next => exact hle

theorem slots_ne_zero_of_cycles (hm : d.macFwd = false) (h : d.cycles env n = true) :
    d.slots env n ≠ 0 := by
  rw [slots_ne_zero_iff, cycleBuffer, hm, if_neg Bool.false_ne_true, Int.natAbs_natCast]
  rw [cycles, cycleBuffer, hm, if_neg Bool.false_ne_true, decide_eq_true_eq, longToUns] at h
  refine incSize_le_page (h.trans ?_)
  have hdiv : ((env.pageSize : Int).tdiv 2) = (env.pageSize / 2 : Nat) := by
    rw [← Int.ofNat_two, Int.ofNat_tdiv]
  rw [hdiv]
  norm_cast
  exact Nat.mod_le _ _

theorem cycles_of_le {m : Nat} (hle : n ≤ m) (h : d.cycles env m = true) :
    d.cycles env n = true := by
  rw [cycles, decide_eq_true_eq] at h ⊢
  exact hle.trans h

theorem le_recvSize : n ≤ d.recvSize n := by
  unfold recvSize
  split <;> omega

/-- Only the remote address of an atomic verb is stepped without the guard. -/
theorem stepsRing_cases {prog : Program} (h : d.stepsRing env prog n = true) :
    d.cycles env n = true ∨ d.verb = .atomic := by
  simp only [stepsRing, Bool.or_eq_true, Bool.and_eq_true, Option.any_eq_true] at h
  rcases h with (⟨-, h⟩ | ⟨-, h⟩) | ⟨loop, -, h | h⟩
  · simp only [listSteps, Bool.and_eq_true, Bool.or_eq_true, decide_eq_true_eq] at h
    exact h.2
  · simp only [recvSteps, Bool.and_eq_true] at h
    exact .inl h.1
  · simp only [postSteps, Bool.and_eq_true] at h
    exact .inl h.2
  · simp only [repostSteps, Bool.and_eq_true] at h
    exact .inl (cycles_of_le le_recvSize h.2)

theorem slots_ne_zero_of_stepsRing {prog : Program} (hm : d.macFwd = false)
    (ha : d.verb = .atomic → n = DEF_SIZE_ATOMIC) (h : d.stepsRing env prog n = true) :
    d.slots env n ≠ 0 := by
  rcases stepsRing_cases h with hc | hv
  · exact slots_ne_zero_of_cycles hm hc
  · rw [slots_ne_zero_iff, cycleBuffer, hm, if_neg Bool.false_ne_true, Int.natAbs_natCast, ha hv,
      incSize, if_neg (Nat.not_lt.mpr env.cacheLine_ge)]
    exact env.page_ge

end PerftestParameters

end Ring

section Divisors

variable {env : RunEnv} {prog : Program} {d : PerftestParameters} {n : Nat}

namespace PerftestParameters

theorem mem_runDivisors {z : Int} : z ∈ d.runDivisors env prog n ↔
    d.postsRegWqes = true ∧ (z = d.cqMod ∨ d.listSteps env n = true ∧ z = d.slots env n) ∨
      d.postsReceives = true ∧ (z = d.recvPostList ∨
        d.useSrq = true ∧ (z = 2 ^ (env.currMtu + 7) ∨ z = d.mainQps) ∨
        d.recvSteps env n = true ∧ z = d.slots env n) ∨
      ∃ loop, d.runLoop prog = some loop ∧ (loop.posts = true ∧ z = d.cqMod ∨
        loop = .runIterBwDv ∧ z = d.validationChunkSize ∨
        (d.postSteps env n loop || d.repostSteps env n loop) = true ∧ z = d.slots env n ∨
        d.countsCredits env prog loop = true ∧ (z = d.rxDepth ∨ z = (d.rxDepth : Int).tdiv 3)) := by
  simp only [runDivisors, List.mem_append, List.mem_ite_nil_right, List.mem_flatMap,
    Option.mem_toList, sendWqeDivisors, recvWqeDivisors, loopDivisors, List.mem_cons,
    List.not_mem_nil, or_false]

theorem stepsRing_iff : d.stepsRing env prog n = true ↔
    d.postsRegWqes = true ∧ d.listSteps env n = true ∨
      d.postsReceives = true ∧ d.recvSteps env n = true ∨
      ∃ loop, d.runLoop prog = some loop ∧
        (d.postSteps env n loop || d.repostSteps env n loop) = true := by
  simp only [stepsRing, Bool.or_eq_true, Bool.and_eq_true, Option.any_eq_true, or_assoc]

/-- All other divisors being positive, the slots of the ring and the unit of the credits decide. -/
theorem runDivisors_ne_zero_iff (hcq : 1 ≤ d.cqMod) (hl : 1 ≤ d.recvPostList) (hq : 1 ≤ d.mainQps)
    (hc : d.runLoop prog = some .runIterBwDv → 1 ≤ d.validationChunkSize) (hr : 1 ≤ d.rxDepth) :
    (∀ z ∈ d.runDivisors env prog n, z ≠ 0) ↔
      (d.stepsRing env prog n = true → d.slots env n ≠ 0) ∧
        ∀ loop, d.runLoop prog = some loop → d.countsCredits env prog loop = true →
          3 ≤ d.rxDepth := by
  have hthird : (d.rxDepth : Int).tdiv 3 ≠ 0 ↔ 3 ≤ d.rxDepth := by
    have hcast : (d.rxDepth : Int).tdiv 3 = (d.rxDepth / 3 : Nat) := rfl
    rw [hcast]
    omega
  constructor
  · intro h
    refine ⟨fun hs => h _ (mem_runDivisors.mpr ?_), fun loop hloop hcred => hthird.mp
      (h _ (mem_runDivisors.mpr (.inr (.inr ⟨loop, hloop, .inr (.inr (.inr ⟨hcred, .inr rfl⟩))⟩))))⟩
    rcases stepsRing_iff.mp hs with ⟨hp, hs⟩ | ⟨hp, hs⟩ | ⟨loop, hloop, hs⟩
    · exact .inl ⟨hp, .inr ⟨hs, rfl⟩⟩
    · exact .inr (.inl ⟨hp, .inr (.inr ⟨hs, rfl⟩)⟩)
    · exact .inr (.inr ⟨loop, hloop, .inr (.inr (.inl ⟨hs, rfl⟩))⟩)
  · rintro ⟨hslots, hcred⟩ z hz
    rcases mem_runDivisors.mp hz with ⟨hp, rfl | ⟨hs, rfl⟩⟩ |
      ⟨hp, rfl | ⟨-, rfl | rfl⟩ | ⟨hs, rfl⟩⟩ |
      ⟨loop, hloop, ⟨-, rfl⟩ | ⟨rfl, rfl⟩ | ⟨hs, rfl⟩ | ⟨hcr, rfl | rfl⟩⟩
    · omega
    · exact hslots (stepsRing_iff.mpr (.inl ⟨hp, hs⟩))
    · omega
    · exact pow_ne_zero _ two_ne_zero
    · omega
    · exact hslots (stepsRing_iff.mpr (.inr (.inl ⟨hp, hs⟩)))
    · omega
    · have := hc hloop
      omega
    · exact hslots (stepsRing_iff.mpr (.inr (.inr ⟨loop, hloop, hs⟩)))
    · omega
    · exact hthird.mpr (hcred loop hloop hcr)

end PerftestParameters

end Divisors

end Perftest
