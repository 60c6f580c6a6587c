import Perftest.Runnable
import Perftest.PostAgreement

namespace Perftest

open CMachine Checked SendConfig

/-- The verbs that read have a receive depth of one. -/
def CoreParameters.ReadFits (c : CoreParameters) : Prop :=
  c.verb = .read ∨ c.verb = .atomic → c.rxDepth ≤ DEF_RX_RDMA

theorem parseOpt_readFits {b : Build} (c c' : CoreParameters) (opt : Opt) (hc : c.ReadFits)
    (h : parseOpt b c opt = .ok c') : c'.ReadFits := by
  cases opt with
  | rxDepth value =>
    obtain ⟨n, -, h⟩ := bind_eq_ok h
    obtain ⟨hn, rfl⟩ := ite_error_eq_ok h
    exact fun hv => Nat.not_lt.mp fun hlt => hn ⟨hv, hlt⟩
  | writeWithImm | sendWithImm =>
    obtain ⟨-, rfl⟩ := ite_error_eq_ok h
    intro hv
    rcases hv with hv | hv <;> cases hv
  | txDepth value | cqMod value | connection arg =>
    obtain ⟨n, -, rfl⟩ := map_eq_ok h
    exact hc
  | qp value =>
    obtain ⟨n, -, h⟩ := bind_eq_ok h
    obtain ⟨-, rfl⟩ := ite_error_eq_ok h
    exact hc
  | size value suffix | iters value | duration value | bidirectional | mcg =>
    obtain ⟨-, rfl⟩ := ite_error_eq_ok h
    exact hc
  | _ =>
    cases h
    exact hc

theorem parsedParams_readFits {b : Build} {prog : Program} {other : OtherParameters}
    {servername : Bool} {args : List Opt} {p : PerftestParameters}
    (h : parsedParams b prog other servername args = .ok p) : p.ReadFits := by
  obtain ⟨c, hc, rfl⟩ := map_eq_ok h
  have hinit : (initPerftestParams prog other).ReadFits := by
    intro hv
    have hv' : prog.verb = .read ∨ prog.verb = .atomic := hv
    simp only [initPerftestParams, if_pos hv', le_refl]
  have hfits : c.ReadFits := parseArgs_invariant parseOpt_readFits hinit hc
  exact hfits

namespace CoreParameters

variable {c : CoreParameters}

/-- Without a receiving verb the receive depth is one. -/
theorem clampedRxDepth_of_not_recv (hc : c.InRange) (hf : c.ReadFits)
    (ht : c.connectionType = .rawEth) (hv : hasRecvComp c.verb = false) : c.clampedRxDepth = 1 := by
  have hone : (if c.verb = .write then DEF_RX_RDMA else c.rxDepth) = 1 := by
    split
    next => rfl
    next hw =>
      have hle : c.rxDepth ≤ 1 := hf (by cases hverb : c.verb <;> simp_all [hasRecvComp])
      exact le_antisymm hle hc.rx_pos
  unfold clampedRxDepth
  simp only [hone, hv, ht, Bool.false_and, Bool.false_eq_true, if_false, reduceCtorEq, decide_false,
    Bool.or_self, ite_self]

/-- The steps behind the rule for post lists keep a divisor of the list. -/
theorem cqMod_dvd_of_postList {n : Nat} (h : c.cqMod ∣ n) (ht : 1 ≤ c.txDepth)
    (hm : c.connectionType = .rawEth → c.macFwd = true → c.rxDepth = 1) :
    c.forceDuration.forceMacFwd.forceMcg.forceInfinitely.forceSrd.evenRxDepth.setFillCount.cqMod ∣
      n := by
  have hmac : c.forceDuration.forceMacFwd.cqMod ∣ n := by
    unfold forceMacFwd forceDuration
    dsimp only
    split
    next hraw =>
      have hone := hm hraw.1 hraw.2.1
      have hmin : (if c.rxDepth < c.txDepth then c.rxDepth else c.txDepth) = 1 := by
        split <;> omega
      rw [hmin]
      exact one_dvd n
    next => exact h
  show c.forceDuration.forceMacFwd.forceMcg.forceInfinitely.forceSrd.cqMod ∣ n
  unfold forceSrd
  dsimp only
  split
  next => exact one_dvd n
  next => exact hmac

/-- A post list of several requests ends with a signaled one. -/
theorem coreDependecies_cqMod_dvd (hc : c.InRange) (hp : 1 < c.postList) (hl : c.listTest = true)
    (hq : c.reqCqMod = true → c.postList.toNat % c.forceDepths.limitCqMod.clampCqMod.cqMod = 0)
    (hm : c.connectionType = .rawEth → c.macFwd = true → c.clampedRxDepth = 1) :
    c.coreDependecies.cqMod ∣ c.postList.toNat := by
  have hdvd := (forcedList_cqMod_dvd hp hl hq).2
  have htx : c.forceDepths.limitCqMod.clampCqMod.txDepth = c.clampedTxDepth := rfl
  have hrx : c.forceDepths.limitCqMod.clampCqMod.rxDepth = c.clampedRxDepth := rfl
  have hconn : c.forceDepths.limitCqMod.clampCqMod.connectionType = c.connectionType := rfl
  have hmac : c.forceDepths.limitCqMod.clampCqMod.macFwd = c.macFwd := rfl
  unfold coreDependecies
  unfold forcedList at hdvd
  generalize c.forceDepths.limitCqMod.clampCqMod = s at htx hrx hconn hmac hdvd ⊢
  have htx' : s.forceSize.deriveGeometry.forceTransport.txDepth = s.txDepth := rfl
  have hrx' : s.connectionType ≠ .dc →
      s.forceSize.deriveGeometry.forceTransport.rxDepth = s.rxDepth :=
    fun hdc => if_neg fun h => hdc h.1
  have hconn' : s.forceSize.deriveGeometry.forceTransport.connectionType = s.connectionType := rfl
  have hmac' : s.forceSize.deriveGeometry.forceTransport.macFwd = s.macFwd := rfl
  generalize s.forceSize.deriveGeometry.forceTransport = e at htx' hrx' hconn' hmac' hdvd ⊢
  refine cqMod_dvd_of_postList hdvd ?_ ?_
  · show 1 ≤ e.txDepth
    rw [htx', htx]
    exact clampedTxDepth_pos hc
  · intro hraw hfwd
    have hraw' : s.connectionType = .rawEth := hconn'.symm.trans hraw
    show e.rxDepth = 1
    rw [hrx' (by rw [hraw']; decide), hrx]
    exact hm (hconn.symm.trans hraw') (hmac.symm.trans (hmac'.symm.trans hfwd))

end CoreParameters

/-- An atomic test has messages of one word, of one size. -/
theorem forceDependecies_atomic {b : Build} {p d : PerftestParameters}
    (h : forceDependecies b p = .ok d) (hv : d.verb = .atomic) :
    ∀ n ∈ d.runSizes, n = DEF_SIZE_ATOMIC := by
  have hs := forceDependecies_sameRun h
  obtain ⟨hp, -⟩ := runAll_eq_ok_iff.mp h
  have hst := (@Passes.append _ (((dependecies b).take 5).map Prod.fst)
    (((dependecies b).drop 5).map Prod.fst) _ hp).2.1
  have hcore : (updates (((dependecies b).take 5).map Prod.fst) p).toCoreParameters =
      p.forceDepths.limitCqMod.clampCqMod.forceSize := rfl
  generalize updates (((dependecies b).take 5).map Prod.fst) p = s at hst hcore
  have hkept : s.verb = d.verb ∧ s.size = d.size := by
    rw [hs.verb, hs.size, hcore]
    exact ⟨rfl, rfl⟩
  have hin : ∀ e ∈ verbStage.checks s, e.1 = false := hst
  have hsize : d.size = DEF_SIZE_ATOMIC := by
    have hcheck := hin _ List.mem_cons_self
    simpa [hkept, hv] using hcheck
  have hall : d.testMethod ≠ .runAll := by
    intro hall
    have hmax : d.size = MAX_SIZE := by
      rw [hs.size]
      exact if_pos (hs.testMethod.symm.trans hall)
    rw [hmax] at hsize
    exact absurd hsize (by decide)
  intro n hn
  rw [PerftestParameters.runSizes, if_neg hall, List.mem_singleton] at hn
  rw [hn, hsize]

section Accepted

variable {b : Build} {prog : Program} {other : OtherParameters} {servername : Bool}
  {args : List Opt} {p d : PerftestParameters} {env : RunEnv}

theorem parser_of_parsed (hp : parsedParams b prog other servername args = .ok p)
    (hd : forceDependecies b p = .ok d) : parser b prog other servername args = .ok d := by
  simp only [parser, hp, Except.bind]
  exact hd

/-- Where `run_iter_bw` runs, the signals of a list that fits come out right. -/
theorem parser_listConfig_sound (hp : parsedParams b prog other servername args = .ok p)
    (hd : forceDependecies b p = .ok d) (hr : d.duplex = true → hasRecvComp d.verb = false)
    (h1 : 1 ≤ d.postList) (hle : d.postList ≤ d.txDepth) : d.sendConfig.Sound := by
  have hs := forceDependecies_sameRun hd
  have hin := parsedParams_inRange hp
  have hcore := forceDependecies_core hd
  have hfit := CoreParameters.coreDependecies_depthsFit hin (by
    rw [hs.postList, hs.txDepth] at hle
    exact hle)
  rw [← hcore] at hfit
  refine ⟨hfit.cq_pos, hfit.cq_le, ?_, ?_, ?_⟩
  · rw [hcore]
    exact CoreParameters.setFillCount_fillCount
  · show 0 < d.postList.toNat
    omega
  · rcases eq_or_lt_of_le h1 with heq | hlt
    · refine .inl ?_
      show d.postList.toNat = 1
      rw [← heq, Int.toNat_one]
    · obtain ⟨-, -, hlist⟩ := forceDependecies_lists hd
      have hlt' : 1 < p.postList := hs.postList ▸ hlt
      obtain ⟨htest, -, hmod⟩ := hlist hlt'
      refine .inr ⟨?_, fun ht => (parser_lists (parser_of_parsed hp hd) ht).2 h1⟩
      show d.cqMod ∣ d.postList.toNat
      rw [hs.postList, hcore]
      refine CoreParameters.coreDependecies_cqMod_dvd hin hlt' htest hmod fun hraw hmac => ?_
      refine CoreParameters.clampedRxDepth_of_not_recv hin (parsedParams_readFits hp) hraw ?_
      have hdup : d.duplex = true := by
        rw [hs.duplex]
        show (p.duplex || (decide (p.connectionType = .rawEth) && p.macFwd)) = true
        rw [hraw, hmac]
        exact Bool.or_true _
      have hrecv := hr hdup
      rwa [hs.verb] at hrecv

theorem runLoop_runIterBw (h : d.runLoop prog = some .runIterBw) :
    d.duplex = true → hasRecvComp d.verb = false := by
  intro hdup
  unfold PerftestParameters.runLoop at h
  by_contra hrecv
  rw [Bool.not_eq_false] at hrecv
  split at h
  next => split at h <;> cases h
  next =>
    simp only [hdup, hrecv, and_self, if_true, not_true_eq_false, or_false, and_false] at h
    split_ifs at h <;> cases h
  next => cases h
  next => cases h

theorem runLoop_runIterBwDv (h : d.runLoop prog = some .runIterBwDv) : d.dataValidation = true := by
  unfold PerftestParameters.runLoop at h
  by_contra hdv
  split at h
  next => split at h <;> cases h
  next =>
    rw [if_neg hdv] at h
    split_ifs at h <;> cases h
  next => cases h
  next => cases h

/-- Every test that the parser accepts can run if and only if its lists fit its depths, mac forwarding
has a slot for the messages that it steps, and three receives are there for the credits. -/
theorem runnable_iff (hp : parsedParams b prog other servername args = .ok p)
    (hd : forceDependecies b p = .ok d) (_ht : d.tst = .bw) :
    Runnable env prog d ↔ RunFits env prog (p.mapCore CoreParameters.settled) := by
  have hs := forceDependecies_sameRun hd
  have hin := parsedParams_inRange hp
  have hcore := forceDependecies_core hd
  have hpos := CoreParameters.coreDependecies_depthsPos hin
  rw [← hcore] at hpos
  have hqps : 1 ≤ d.mainQps := hpos.qps_pos.trans (CoreParameters.numOfQps_le_mainQps _)
  have hchunk : d.runLoop prog = some .runIterBwDv → 1 ≤ d.validationChunkSize := by
    intro hloop
    have hdv : p.dataValidation = true := hs.dataValidation.symm.trans (runLoop_runIterBwDv hloop)
    rw [hcore] at hpos ⊢
    rw [(CoreParameters.coreDependecies_geometry hdv).1]
    exact deriveValidationChunkSize_pos hpos.tx_pos
  have hdiv : ∀ n, 1 ≤ d.recvPostList → ((∀ z ∈ d.runDivisors env prog n, z ≠ 0) ↔ _) :=
    fun n hl => PerftestParameters.runDivisors_ne_zero_iff hpos.cq_pos hl hqps hchunk hpos.rx_pos
  constructor
  · intro h
    refine ⟨hs.postList ▸ h.postList_pos, hs.recvPostList ▸ h.recvPostList_pos,
      hs.replyEvery ▸ h.replyEvery_pos, ?_, fun hr => ?_, fun hm n hn hstep => ?_,
      fun loop hloop hcred => ?_⟩
    · rw [← hs.postList, ← hs.txDepth]
      exact h.postList_le
    · rw [← hs.postsReceives] at hr
      rw [← hs.recvPostList, ← hs.rxDepth]
      exact h.recvPostList_le hr
    · rw [← hs.stepsRing] at hstep
      rw [← hs.runSizes] at hn
      rw [← hs.cycleBuffer, ← PerftestParameters.slots_ne_zero_iff]
      exact ((hdiv n h.recvPostList_pos).mp (h.divisors n hn)).1 hstep
    · rw [← hs.runLoop] at hloop
      rw [← hs.countsCredits] at hcred
      rw [← hs.rxDepth]
      have hsize : ∃ n, n ∈ d.runSizes := by
        unfold PerftestParameters.runSizes
        split
        next => exact ⟨_, List.mem_map_of_mem (List.mem_range.mpr (by decide : 0 < 23))⟩
        next => exact ⟨_, List.mem_singleton_self _⟩
      obtain ⟨n, hn⟩ := hsize
      exact ((hdiv n h.recvPostList_pos).mp (h.divisors n hn)).2 loop hloop hcred
  · intro h
    have h1 : 1 ≤ d.postList := hs.postList ▸ h.postList_pos
    have hr1 : 1 ≤ d.recvPostList := hs.recvPostList ▸ h.recvPostList_pos
    have hle : d.postList ≤ d.txDepth := by
      rw [hs.postList, hs.txDepth]
      exact h.postList_le
    have hfit := CoreParameters.coreDependecies_depthsFit hin h.postList_le
    rw [← hcore] at hfit
    refine ⟨h1, hr1, hpos.cq_pos, hs.replyEvery ▸ h.replyEvery_pos, hle, fun hr => ?_, hfit.cq_le,
      fun n hn => (hdiv n hr1).mpr ⟨fun hstep => ?_, fun loop hloop hcred => ?_⟩,
      fun hloop s hreach hdrained q hq hu => ?_⟩
    · rw [hs.postsReceives] at hr
      rw [hs.recvPostList, hs.rxDepth]
      exact h.recvPostList_le hr
    · cases hm : d.macFwd with
      | false =>
        exact PerftestParameters.slots_ne_zero_of_stepsRing hm
          (fun hv => forceDependecies_atomic hd hv n hn) hstep
      | true =>
        rw [hs.stepsRing] at hstep
        rw [hs.runSizes] at hn
        rw [PerftestParameters.slots_ne_zero_iff, hs.cycleBuffer]
        exact h.ring (hs.macFwd.symm.trans hm) n hn hstep
    · rw [hs.runLoop] at hloop
      rw [hs.countsCredits] at hcred
      rw [hs.rxDepth]
      exact h.credits loop hloop hcred
    · have hsound := parser_listConfig_sound hp hd (runLoop_runIterBw hloop) h1 hle
      have hflags : d.sendConfig.FlagsOk 0 (runIterBw d.sendConfig).initSignaled :=
        FlagsOk.init hsound fun hit => parser_txDepth_le (parser_of_parsed hp hd) hit
      have hinv := SendInv.of_reachable hsound hflags hreach
      refine ⟨q, hq, hu, hinv.hasRoom_of_drained hsound ?_ hdrained q⟩
      show d.postList.toNat ≤ d.txDepth
      omega

end Accepted

/-- A machine with cache lines of 64 bytes and pages of 4096. -/
def usualEnv : RunEnv := ⟨64, 4096, 3, false, by decide, by decide⟩

theorem writeBw_runnable : ∃ d, writeBwClient [.postList 8, .cqMod 4] = .ok d ∧
    Runnable usualEnv ⟨.write, .bw, false⟩ d := by
  obtain ⟨d, h, hval⟩ := exists_of_toOption_any (x := writeBwClient [.postList 8, .cqMod 4])
    (p := fun d => decide (d.tst = .bw) && decide (d.postList = 8) && decide (d.recvPostList = 1) &&
      decide (d.replyEvery = 1) && decide (d.txDepth = 128) && decide (d.rxDepth = 1) &&
      decide (d.macFwd = false))
    (by decide +kernel)
  simp only [Bool.and_eq_true, decide_eq_true_eq] at hval
  obtain ⟨⟨⟨⟨⟨⟨ht, hl⟩, hr⟩, hre⟩, htx⟩, hrx⟩, hm⟩ := hval
  have hparser : parser usualBuild ⟨.write, .bw, false⟩ {} true [.postList 8, .cqMod 4] = .ok d := h
  obtain ⟨p, hp, hd⟩ := bind_eq_ok hparser
  have hs := forceDependecies_sameRun hd
  refine ⟨d, h, (runnable_iff hp hd ht).mpr ⟨?_, ?_, ?_, ?_, fun _ => ?_, fun hmac => ?_,
    fun loop hloop hcred => ?_⟩⟩
  · rw [← hs.postList, hl]
    decide
  · rw [← hs.recvPostList, hr]
  · rw [← hs.replyEvery, hre]
  · rw [← hs.postList, ← hs.txDepth, hl, htx]
    decide
  · rw [← hs.recvPostList, ← hs.rxDepth, hr, hrx]
    decide
  · rw [← hs.macFwd, hm] at hmac
    cases hmac
  · rw [← hs.countsCredits, PerftestParameters.countsCredits] at hcred
    cases hcred

/-- A post list longer than the send queue never fits the window. -/
theorem writeBw_not_runnable : ¬ ∀ d, writeBwClient [.postList 200] = .ok d →
    Runnable usualEnv ⟨.write, .bw, false⟩ d := by
  intro h
  obtain ⟨d, hd, hval⟩ := exists_of_toOption_any (x := writeBwClient [.postList 200])
    (p := fun d => decide (d.postList = 200) && decide (d.txDepth = 128)) (by decide +kernel)
  simp only [Bool.and_eq_true, decide_eq_true_eq] at hval
  obtain ⟨hl, htx⟩ := hval
  have hle := (h d hd).postList_le
  rw [hl, htx] at hle
  exact absurd hle (by decide)

end Perftest
