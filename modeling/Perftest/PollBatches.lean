import Perftest.DynPoll
import Perftest.ParsedRanges

namespace Perftest

open CMachine Checked

/-- The options behind the sizes of the polls; a number is the value of `strtol` on the argument. -/
structure PollOptions where
  disableDynamicPolling : Bool
  cqePoll : Option Int
  burstSize : Option Int

namespace PollOptions

/-- The option `--cqe_poll`. -/
def parseCqePoll (other : OtherParameters) : Option Int → Except String OtherParameters
  | none => .ok other
  | some value =>
    let arg := longToUns 16 value
    if arg < 1 ∨ 65535 < arg then .error " CQE Poll should be between 1 and 65535"
    else .ok { other with cqePoll := arg, useCqePoll := true, dynamicCqePoll := false }

/-- The option `--burst_size`. -/
def parseBurstSize (other : OtherParameters) : Option Int → Except String OtherParameters
  | none => .ok other
  | some value =>
    let arg := longToInt value
    if arg < 0 then .error " Burst size must be non-negative int"
    else .ok { other with burstSize := arg }

/-- What `init_perftest_params` and the parser make of these options. -/
def parse (o : PollOptions) (other : OtherParameters) : Except String OtherParameters :=
  (parseCqePoll { other with
    cqePoll := CTX_POLL_BATCH
    useCqePoll := false
    dynamicCqePoll := !o.disableDynamicPolling
    burstSize := 0 } o.cqePoll).bind fun other => parseBurstSize other o.burstSize

def parser (o : PollOptions) (b : Build) (prog : Program) (other : OtherParameters)
    (servername : Bool) (args : List Opt) : Except String PerftestParameters :=
  (o.parse other).bind fun other => Perftest.parser b prog other servername args

end PollOptions

/-- The loops of the bandwidth tests and of the latency test under load. -/
inductive RunLoop where
  | runIterBw | runIterBwDv | runIterBwServer | runIterBwInfinitely | runIterBwInfinitelyServer
  | runIterBi | runIterFw | runIterLatBurst | runIterLatBurstServer
deriving DecidableEq, Repr

namespace PerftestParameters

variable (d : PerftestParameters)

/-- The loop that the main function of a program runs, if it runs one of these. -/
def runLoop (prog : Program) : Option RunLoop :=
  match d.tst with
  | .latByBw => some (if d.machine = .client then .runIterLatBurst else .runIterLatBurstServer)
  | .bw =>
    if d.testMethod = .runInfinitely then
      if d.machine = .client ∨ (d.duplex ∧ ¬ hasRecvComp d.verb) then some .runIterBwInfinitely
      else if hasRecvComp d.verb then some .runIterBwInfinitelyServer
      else none
    else if prog.rawEth ∧ d.macFwd then some .runIterFw
    else if d.duplex ∧ hasRecvComp d.verb then some .runIterBi
    else if d.machine = .client ∨ d.duplex then
      some (if d.dataValidation then .runIterBwDv else .runIterBw)
    else if hasRecvComp d.verb then some .runIterBwServer
    else none
  | .lat | .fsRate => none

/-- `init_dyn_poll_ctx`, for a flag of dynamic polling that earlier runs may have switched off. -/
def initDynPollCtx (dynamic : Bool) : DynPollState :=
  { currSize := if dynamic then 1024 else d.cqePoll
    stableIters := 0
    lastNe := 0
    dynamicEnabled := dynamic }

def stabilizationIters : Nat :=
  if d.testType = .iterations then min (d.iters / 4) MAX_QP_NUM.toNat else max (d.numOfQps * 3) 1000

/-- `poll_completions` when the caller has counted `count`, and the poll returns `ne`. -/
def pollCompletions (s : DynPollState) (count ne : Nat) : DynPollState :=
  if s.dynamicEnabled ∧ count < d.stabilizationIters then s.pollCqAdaptive ne else s

/-- The states of the polling context in a run; the sizes of a `RUN_ALL` test are runs after which
dynamic polling can stay off. -/
inductive PollReachable : DynPollState → Prop
  | init (dynamic : Bool) (h : dynamic = d.dynamicCqePoll ∨ (d.testMethod = .runAll ∧ ¬ dynamic)) :
      PollReachable (d.initDynPollCtx dynamic)
  | poll {s : DynPollState} (h : PollReachable s) (count : Nat) {ne : Nat} (hle : ne ≤ s.currSize) :
      PollReachable (d.pollCompletions s count ne)

end PerftestParameters

/-- The loop takes its completions with `poll_completions`. -/
def RunLoop.pollsCompletions : RunLoop → Bool
  | runIterBw | runIterBwDv | runIterBwServer | runIterBwInfinitely
  | runIterBwInfinitelyServer => true
  | runIterBi | runIterFw | runIterLatBurst | runIterLatBurstServer => false

/-- The calls of `ibv_poll_cq` of a loop: the number of entries that each asks for, and the number of
elements of the array that it passes. -/
def RunLoop.pollCalls (d : PerftestParameters) (s : DynPollState) : RunLoop → List (Int × Int)
  | runIterBw | runIterBwDv | runIterBwInfinitely => [(s.currSize, dynCqePollConfig.max)]
  | runIterBwServer | runIterBwInfinitelyServer =>
    [(s.currSize, dynCqePollConfig.max), (d.txDepth, d.txDepth)]
  | runIterBi => [(d.rxDepth, d.rxDepth), (1, 1), (d.cqePoll, d.cqePoll)]
  | runIterFw => [(CTX_POLL_BATCH, CTX_POLL_BATCH), (CTX_POLL_BATCH, CTX_POLL_BATCH)]
  | runIterLatBurst => [(CTX_POLL_BATCH, d.burstSize), (d.burstSize, d.burstSize)]
  | runIterLatBurstServer => [(d.burstSize, d.burstSize), (CTX_POLL_BATCH, d.burstSize)]

/-- No poll of a run can return more completions than its array holds. -/
def PollsFit (prog : Program) (d : PerftestParameters) : Prop :=
  ∀ loop, d.runLoop prog = some loop → ∀ s, d.PollReachable s →
    ∀ call ∈ loop.pollCalls d s, call.1 ≤ call.2

/-- A latency test under load has bursts of a fixed poll batch at least, and the loops with
`poll_completions` have a fixed poll size of at most the maximum of the adaptive one. -/
structure BatchesFit (prog : Program) (d : PerftestParameters) : Prop where
  burstSize : d.tst = .latByBw → (CTX_POLL_BATCH : Int) ≤ d.burstSize
  cqePoll : ∀ loop, d.runLoop prog = some loop → loop.pollsCompletions = true →
    d.cqePoll ≤ dynCqePollConfig.max

namespace PerftestParameters

variable {d : PerftestParameters} {s : DynPollState}

/-- The adaptive size keeps its range; the fixed one stays. -/
theorem PollReachable.currSize (h : d.PollReachable s) :
    (s.dynamicEnabled = true → s.InRange) ∧
      (s.currSize ≤ dynCqePollConfig.max ∨ s.currSize = d.cqePoll) := by
  induction h with
  | init dynamic hd =>
    cases dynamic with
    | true =>
      have hr : dynCqePollConfig.min ≤ 1024 ∧ 1024 ≤ dynCqePollConfig.max := by decide
      exact ⟨fun _ => hr, Or.inl hr.2⟩
    | false => exact ⟨fun h => (by cases h), Or.inr rfl⟩
  | @poll s h count ne hle ih =>
    unfold pollCompletions
    split
    next he =>
      have hr := (ih.1 he.1).poll hle
      exact ⟨fun _ => hr, Or.inl hr.2⟩
    next => exact ih

end PerftestParameters

/-- The checks leave dynamic polling with the default size for the polls that are not adaptive. -/
theorem PollOptions.parse_cqePoll {o : PollOptions} {other other' : OtherParameters}
    (h : o.parse other = .ok other') :
    other'.dynamicCqePoll = true → other'.cqePoll = CTX_POLL_BATCH := by
  obtain ⟨other₁, h₁, h₂⟩ := bind_eq_ok h
  have hkeep : other'.dynamicCqePoll = other₁.dynamicCqePoll ∧ other'.cqePoll = other₁.cqePoll := by
    cases hb : o.burstSize with
    | none =>
      rw [hb] at h₂
      cases h₂
      exact ⟨rfl, rfl⟩
    | some value =>
      rw [hb] at h₂
      obtain ⟨-, rfl⟩ := ite_error_eq_ok h₂
      exact ⟨rfl, rfl⟩
  rw [hkeep.1, hkeep.2]
  cases hc : o.cqePoll with
  | none =>
    rw [hc] at h₁
    cases h₁
    intro _
    rfl
  | some value =>
    rw [hc] at h₁
    obtain ⟨-, rfl⟩ := ite_error_eq_ok h₁
    intro hd
    cases hd

theorem forceDependecies_cqePoll {b : Build} {p d : PerftestParameters}
    (h : forceDependecies b p = .ok d)
    (hp : p.dynamicCqePoll = true → p.cqePoll = CTX_POLL_BATCH) :
    d.dynamicCqePoll = true → d.cqePoll = CTX_POLL_BATCH := by
  obtain ⟨-, rfl⟩ := runAll_eq_ok_iff.mp h
  refine updates_invariant
    (P := fun q : PerftestParameters => q.dynamicCqePoll = true → q.cqePoll = CTX_POLL_BATCH)
    (fun st hst s hs => ?_) hp
  simp only [dependecies, List.map_cons, List.map_nil, List.mem_cons, List.not_mem_nil,
    or_false] at hst
  rcases hst with rfl | rfl | rfl | rfl | rfl | rfl | rfl | rfl | rfl | rfl | rfl | rfl | rfl |
    rfl | rfl | rfl | rfl | rfl | rfl | rfl | rfl | rfl | rfl | rfl | rfl | rfl
  all_goals try exact hs
  intro hd
  unfold pollingStage at hd ⊢
  dsimp only at hd ⊢
  rw [hd]
  rw [Bool.and_eq_true] at hd
  simpa using hs hd.1

theorem PollOptions.parser_cqePoll {o : PollOptions} {b : Build} {prog : Program}
    {other : OtherParameters} {servername : Bool} {args : List Opt} {d : PerftestParameters}
    (h : o.parser b prog other servername args = .ok d) :
    d.dynamicCqePoll = true → d.cqePoll = CTX_POLL_BATCH := by
  obtain ⟨other', ho, h⟩ := bind_eq_ok h
  obtain ⟨p, hp, hf⟩ := bind_eq_ok h
  obtain ⟨c, -, rfl⟩ := map_eq_ok hp
  exact forceDependecies_cqePoll hf (PollOptions.parse_cqePoll ho)

/-- For every accepted command line all polls fit their arrays exactly when the fixed poll sizes do. -/
theorem pollsFit_iff {o : PollOptions} {b : Build} {prog : Program} {other : OtherParameters}
    {servername : Bool} {args : List Opt} {d : PerftestParameters}
    (h : o.parser b prog other servername args = .ok d) : PollsFit prog d ↔ BatchesFit prog d := by
  constructor
  · intro hf
    refine ⟨fun ht => ?_, fun loop hl hp => ?_⟩
    · have hcall : ∀ loop, d.runLoop prog = some loop →
          ((CTX_POLL_BATCH : Int), d.burstSize) ∈
            loop.pollCalls d (d.initDynPollCtx d.dynamicCqePoll) →
          (CTX_POLL_BATCH : Int) ≤ d.burstSize :=
        fun loop hl hm => hf loop hl _ (.init _ (Or.inl rfl)) _ hm
      unfold PerftestParameters.runLoop at hcall
      rw [ht] at hcall
      dsimp only at hcall
      by_cases hm : d.machine = .client
      · rw [if_pos hm] at hcall
        exact hcall _ rfl List.mem_cons_self
      · rw [if_neg hm] at hcall
        exact hcall _ rfl (List.mem_cons_of_mem _ List.mem_cons_self)
    · cases hd : d.dynamicCqePoll with
      | true =>
        rw [PollOptions.parser_cqePoll h hd]
        decide
      | false =>
        have hcall := hf loop hl _ (.init d.dynamicCqePoll (Or.inl rfl))
          ((d.initDynPollCtx d.dynamicCqePoll).currSize, dynCqePollConfig.max) (by
            cases loop with
            | runIterBi | runIterFw | runIterLatBurst | runIterLatBurstServer => cases hp
            | _ => exact List.mem_cons_self)
        rw [hd] at hcall
        exact Int.ofNat_le.mp hcall
  · intro hf loop hl s hs call hm
    have hsize : loop.pollsCompletions = true → s.currSize ≤ dynCqePollConfig.max := by
      intro hp
      rcases hs.currSize.2 with hle | he
      · exact hle
      · rw [he]
        exact hf.cqePoll loop hl hp
    have hburst : loop = .runIterLatBurst ∨ loop = .runIterLatBurstServer →
        (CTX_POLL_BATCH : Int) ≤ d.burstSize := by
      intro hb
      apply hf.burstSize
      cases ht : d.tst with
      | latByBw => rfl
      | lat | fsRate => simp [PerftestParameters.runLoop, ht] at hl
      | bw =>
        simp only [PerftestParameters.runLoop, ht] at hl
        split_ifs at hl <;> rcases hb with rfl | rfl <;> cases hl
    cases loop with
    | runIterBw | runIterBwDv | runIterBwInfinitely =>
      rw [List.mem_singleton.mp hm]
      exact Int.ofNat_le.mpr (hsize rfl)
    | runIterBwServer | runIterBwInfinitelyServer =>
      rcases List.mem_pair.mp hm with rfl | rfl
      · exact Int.ofNat_le.mpr (hsize rfl)
      · exact le_refl _
    | runIterBi =>
      simp only [RunLoop.pollCalls, List.mem_cons, List.not_mem_nil, or_false] at hm
      rcases hm with rfl | rfl | rfl <;> exact le_refl _
    | runIterFw =>
      rcases List.mem_pair.mp hm with rfl | rfl <;> exact le_refl _
    | runIterLatBurst =>
      rcases List.mem_pair.mp hm with rfl | rfl
      · exact hburst (Or.inl rfl)
      · exact le_refl _
    | runIterLatBurstServer =>
      rcases List.mem_pair.mp hm with rfl | rfl
      · exact le_refl _
      · exact hburst (Or.inr rfl)

/-- A build with the usual features. -/
def usualBuild : Build :=
  { haveXrcd := true, haveMlx5dv := true, haveSrd := false, haveSrdQpSl := false
    haveAesXts := false, haveSigOffload := false, haveDcs := true, haveIbvWrApi := true
    haveCcUnprotectedAlloc := false, haveHnsdv := false, haveRegMrEx := false
    hostValidationRuntimeSupported := true, disableMlx5ScatterToCqe := false }

/-- The client of `ib_write_bw` with a fixed poll size. -/
def writeBwCqePoll (cqePoll : Option Int) : Except String PerftestParameters :=
  (PollOptions.mk false cqePoll none).parser usualBuild ⟨.write, .bw, false⟩ {} true []

theorem pollsFit_writeBw : ∃ d, writeBwCqePoll none = .ok d ∧ PollsFit ⟨.write, .bw, false⟩ d := by
  obtain ⟨d, hd, hp⟩ := exists_of_toOption_any (x := writeBwCqePoll none)
    (p := fun d => decide (d.tst = .bw) && decide (d.cqePoll ≤ dynCqePollConfig.max))
    (by decide +kernel)
  rw [Bool.and_eq_true, decide_eq_true_eq, decide_eq_true_eq] at hp
  refine ⟨d, hd, (pollsFit_iff hd).mpr ⟨fun ht => ?_, fun _ _ _ => hp.2⟩⟩
  rw [hp.1] at ht
  cases ht

/-- The client of `raw_ethernet_burst_lat` behind a hardware rate limiter. -/
def burstLatBurstSize (burstSize : Int) : Except String PerftestParameters :=
  (PollOptions.mk false none (some burstSize)).parser usualBuild ⟨.send, .latByBw, true⟩
    { isSourceMac := true, isDestMac := true, rateLimitType := .hwRateLimit } true [.client]

/-- A fixed poll size of 2000 for 1024 elements, and a poll of 16 entries into a single one. -/
theorem writeBwCqePoll_2000_overflows :
    (∃ d, writeBwCqePoll (some 2000) = .ok d ∧ ¬ PollsFit ⟨.write, .bw, false⟩ d) ∧
      ∃ d, burstLatBurstSize 1 = .ok d ∧ ¬ PollsFit ⟨.send, .latByBw, true⟩ d := by
  constructor
  · obtain ⟨d, hd, hp⟩ := exists_of_toOption_any (x := writeBwCqePoll (some 2000))
      (p := fun d => decide (d.runLoop ⟨.write, .bw, false⟩ = some .runIterBw) &&
        decide ((d.initDynPollCtx d.dynamicCqePoll).currSize = 2000)) (by decide +kernel)
    rw [Bool.and_eq_true, decide_eq_true_eq, decide_eq_true_eq] at hp
    refine ⟨d, hd, fun hf => ?_⟩
    have hcall := hf _ hp.1 _ (.init _ (Or.inl rfl)) _ List.mem_cons_self
    rw [hp.2] at hcall
    exact absurd hcall (by decide)
  · obtain ⟨d, hd, hp⟩ := exists_of_toOption_any (x := burstLatBurstSize 1)
      (p := fun d => decide (d.runLoop ⟨.send, .latByBw, true⟩ = some .runIterLatBurst) &&
        decide (d.burstSize = 1)) (by decide +kernel)
    rw [Bool.and_eq_true, decide_eq_true_eq, decide_eq_true_eq] at hp
    refine ⟨d, hd, fun hf => ?_⟩
    have hcall := hf _ hp.1 _ (.init d.dynamicCqePoll (Or.inl rfl)) _ List.mem_cons_self
    rw [hp.2] at hcall
    exact absurd hcall (by decide)

end Perftest
