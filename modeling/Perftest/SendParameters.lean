import Perftest.ParsedRanges
import Perftest.SignalSchedule

namespace Perftest

open Checked

namespace CoreParameters

variable {c : CoreParameters}

theorem one_le_ite {p : Prop} [Decidable p] {a b : Nat} (ha : 1 ≤ a) (hb : 1 ≤ b) :
    1 ≤ if p then a else b := by
  split
  · exact ha
  · exact hb

theorem InRange.iters_pos (hc : c.InRange) : 1 ≤ c.iters :=
  le_trans (by decide) hc.iters_ge

theorem clampedTxDepth_pos (hc : c.InRange) : 1 ≤ c.clampedTxDepth :=
  one_le_ite hc.iters_pos hc.tx_pos

theorem clampedRxDepth_pos (hc : c.InRange) : 1 ≤ c.clampedRxDepth := by
  have hi := hc.iters_pos
  have h0 : 1 ≤ if c.verb = .write then DEF_RX_RDMA else c.rxDepth :=
    one_le_ite (by decide) hc.rx_pos
  have h1 := one_le_ite (p := (hasRecvComp c.verb && decide (c.iters <
    if c.verb = .write then DEF_RX_RDMA else c.rxDepth)) = true) hi h0
  exact one_le_ite (one_le_ite (one_le_ite (one_le_ite hi (by decide))
    (one_le_ite (by decide) h1)) h1) h0

/-- What the depths and the CQ moderation satisfy behind each step of `force_dependecies`. -/
structure DepthsFit (c : CoreParameters) : Prop where
  tx_pos : 1 ≤ c.txDepth
  rx_pos : 1 ≤ c.rxDepth
  qps_pos : 1 ≤ c.numOfQps
  cq_pos : 1 ≤ c.cqMod
  cq_le : c.cqMod ≤ c.txDepth
  list_le : c.postList ≤ c.txDepth

namespace DepthsFit

theorem clamp (hc : c.InRange) (hp : c.postList ≤ c.clampedTxDepth) :
    c.forceDepths.limitCqMod.clampCqMod.DepthsFit where
  tx_pos := clampedTxDepth_pos hc
  rx_pos := clampedRxDepth_pos hc
  qps_pos := hc.qps_pos
  cq_pos := one_le_ite (clampedTxDepth_pos hc) (one_le_ite (le_refl 1) hc.cq_pos)
  cq_le := by
    unfold clampCqMod
    dsimp only
    split
    next => exact le_refl _
    next h => exact Nat.le_of_not_lt h
  list_le := hp

theorem geometry (h : c.DepthsFit) : c.forceSize.deriveGeometry.DepthsFit :=
  ⟨h.tx_pos, h.rx_pos, h.qps_pos, h.cq_pos, h.cq_le, h.list_le⟩

theorem transport (h : c.DepthsFit) : c.forceTransport.DepthsFit :=
  ⟨h.tx_pos, one_le_ite h.qps_pos h.rx_pos, h.qps_pos, h.cq_pos, h.cq_le, h.list_le⟩

theorem dualport (h : c.DepthsFit) : c.forceDualport.DepthsFit := by
  refine ⟨h.tx_pos, h.rx_pos, one_le_ite ?_ h.qps_pos, h.cq_pos, h.cq_le, h.list_le⟩
  have := h.qps_pos
  omega

theorem postList (h : c.DepthsFit) : c.forcePostList.DepthsFit := by
  have hl := h.list_le
  have hrange : 1 ≤ c.forcePostList.cqMod ∧ c.forcePostList.cqMod ≤ c.txDepth := by
    unfold forcePostList
    dsimp only
    split
    next hp => omega
    next => exact ⟨h.cq_pos, h.cq_le⟩
  exact ⟨h.tx_pos, h.rx_pos, h.qps_pos, hrange.1, hrange.2, hl⟩

theorem macFwd (h : c.DepthsFit) : c.forceDuration.forceMacFwd.DepthsFit := by
  have ht := h.tx_pos
  have hr := h.rx_pos
  have hrange : 1 ≤ c.forceDuration.forceMacFwd.cqMod ∧
      c.forceDuration.forceMacFwd.cqMod ≤ c.txDepth := by
    unfold forceMacFwd forceDuration
    dsimp only
    split
    next => split <;> omega
    next => exact ⟨h.cq_pos, h.cq_le⟩
  exact ⟨ht, hr, h.qps_pos, hrange.1, hrange.2, h.list_le⟩

theorem srd (h : c.DepthsFit) : c.forceMcg.forceInfinitely.forceSrd.DepthsFit := by
  refine ⟨h.tx_pos, h.rx_pos, h.qps_pos, one_le_ite (le_refl 1) h.cq_pos, ?_, h.list_le⟩
  unfold forceSrd
  dsimp only
  split
  next => exact h.tx_pos
  next => exact h.cq_le

theorem evenRx (h : c.DepthsFit) : c.evenRxDepth.setFillCount.DepthsFit :=
  ⟨h.tx_pos, one_le_ite (by omega) h.rx_pos, h.qps_pos, h.cq_pos, h.cq_le, h.list_le⟩

end DepthsFit

/-- What an accepted record satisfies whose post list fits the send queue. -/
theorem coreDependecies_depthsFit (hc : c.InRange) (hp : c.postList ≤ c.clampedTxDepth) :
    c.coreDependecies.DepthsFit :=
  (DepthsFit.clamp hc hp).geometry.transport.dualport.postList.macFwd.srd.evenRx

/-- What holds behind each step whatever the post list. -/
structure DepthsPos (c : CoreParameters) : Prop where
  tx_pos : 1 ≤ c.txDepth
  rx_pos : 1 ≤ c.rxDepth
  qps_pos : 1 ≤ c.numOfQps
  cq_pos : 1 ≤ c.cqMod

namespace DepthsPos

theorem clamp (hc : c.InRange) : c.forceDepths.limitCqMod.clampCqMod.DepthsPos :=
  ⟨clampedTxDepth_pos hc, clampedRxDepth_pos hc, hc.qps_pos,
    one_le_ite (clampedTxDepth_pos hc) (one_le_ite (le_refl 1) hc.cq_pos)⟩

theorem transport (h : c.DepthsPos) : c.forceSize.deriveGeometry.forceTransport.DepthsPos :=
  ⟨h.tx_pos, one_le_ite h.qps_pos h.rx_pos, h.qps_pos, h.cq_pos⟩

theorem postList (h : c.DepthsPos) : c.forceDualport.forcePostList.DepthsPos := by
  have hq := h.qps_pos
  have hq' : 1 ≤ c.forceDualport.numOfQps := one_le_ite (by omega) hq
  refine ⟨h.tx_pos, h.rx_pos, hq', ?_⟩
  unfold forcePostList
  dsimp only
  split
  next hp => omega
  next => exact h.cq_pos

theorem macFwd (h : c.DepthsPos) : c.forceDuration.forceMacFwd.DepthsPos :=
  ⟨h.tx_pos, h.rx_pos, h.qps_pos, one_le_ite (one_le_ite h.rx_pos h.tx_pos) h.cq_pos⟩

theorem evenRx (h : c.DepthsPos) :
    c.forceMcg.forceInfinitely.forceSrd.evenRxDepth.setFillCount.DepthsPos :=
  ⟨h.tx_pos, one_le_ite (Nat.le_add_left _ _) h.rx_pos, h.qps_pos,
    one_le_ite (le_refl 1) h.cq_pos⟩

end DepthsPos

theorem coreDependecies_depthsPos (hc : c.InRange) : c.coreDependecies.DepthsPos :=
  (DepthsPos.clamp hc).transport.postList.macFwd.evenRx

/-- What the send loops read of the parameters. -/
def sendConfig (c : CoreParameters) : SendConfig :=
  { testType := c.testType, iters := c.iters, txDepth := c.txDepth, cqMod := c.cqMod,
    postList := c.postList.toNat, numOfQps := c.numOfQps, fillCount := c.fillCount }

/-- `num_of_qps` as the main functions of the bandwidth tests leave it. -/
def mainQps (c : CoreParameters) : Nat :=
  if (c.connectionType = .dc ∨ c.useXrc) ∧ c.duplex then c.numOfQps * 2 else c.numOfQps

/-- The QPs that a loop posts on. -/
def sendQps (c : CoreParameters) : Nat :=
  if c.duplex ∧ (c.useXrc ∨ c.connectionType = .dc) then c.mainQps / 2 else c.mainQps

theorem sendQps_eq : c.sendQps = c.numOfQps := by
  unfold sendQps mainQps
  by_cases h : c.duplex = true ∧ (c.useXrc = true ∨ c.connectionType = .dc)
  · rw [if_pos h, if_pos ⟨h.2.symm, h.1⟩, Nat.mul_div_cancel _ Nat.two_pos]
  · rw [if_neg h, if_neg fun h' => h ⟨h'.2, h'.1.symm⟩]

theorem numOfQps_le_mainQps (c : CoreParameters) : c.numOfQps ≤ c.mainQps := by
  unfold mainQps
  split <;> omega

theorem coreDependecies_postList : c.coreDependecies.postList = c.postList := by
  simp only [coreDependecies, setFillCount, evenRxDepth, forceSrd, forceInfinitely, forceMcg,
    forceMacFwd, forceDuration, forcePostList, forceDualport, forceTransport, deriveGeometry,
    forceSize, clampCqMod, limitCqMod, forceDepths]

theorem coreDependecies_recvPostList : c.coreDependecies.recvPostList = c.recvPostList := by
  simp only [coreDependecies, setFillCount, evenRxDepth, forceSrd, forceInfinitely, forceMcg,
    forceMacFwd, forceDuration, forcePostList, forceDualport, forceTransport, deriveGeometry,
    forceSize, clampCqMod, limitCqMod, forceDepths]

theorem setFillCount_fillCount : c.setFillCount.sendConfig.fillCount =
    fillCountOf c.setFillCount.sendConfig.testType c.setFillCount.sendConfig.iters
      c.setFillCount.sendConfig.txDepth c.setFillCount.sendConfig.cqMod := rfl

/-- With single posts the send parameters of an accepted record are sound. -/
theorem sendConfig_sound (hc : c.InRange) (hp : c.coreDependecies.postList = 1) :
    c.coreDependecies.sendConfig.Sound := by
  have hfit := coreDependecies_depthsFit hc (by
    rw [← coreDependecies_postList, hp]
    exact_mod_cast clampedTxDepth_pos hc)
  have hone : c.coreDependecies.sendConfig.postList = 1 := by
    simp only [sendConfig, hp, Int.toNat_one]
  exact ⟨hfit.cq_pos, hfit.cq_le, setFillCount_fillCount, by omega, Or.inl hone⟩

theorem clampCqMod_kept (p : CoreParameters) :
    let s := p.forceDepths.limitCqMod.clampCqMod
    s.dualport = p.dualport ∧ s.tst = p.tst ∧ s.recvPostList = p.recvPostList ∧
      s.postList = p.postList ∧ s.testType = p.testType ∧ s.iters = p.iters ∧
      s.reqCqMod = p.reqCqMod :=
  ⟨rfl, rfl, rfl, rfl, rfl, rfl, rfl⟩

theorem forceTransport_kept (p : CoreParameters) :
    let s := p.forceSize.deriveGeometry.forceTransport
    s.dualport = p.dualport ∧ s.tst = p.tst ∧ s.recvPostList = p.recvPostList ∧
      s.postList = p.postList ∧ s.testType = p.testType ∧ s.iters = p.iters ∧
      s.reqCqMod = p.reqCqMod ∧ s.cqMod = p.cqMod :=
  ⟨rfl, rfl, rfl, rfl, rfl, rfl, rfl, rfl⟩

theorem coreDependecies_tst (p : CoreParameters) : p.coreDependecies.tst = p.tst := by
  simp only [coreDependecies, setFillCount, evenRxDepth, forceSrd, forceInfinitely, forceMcg,
    forceMacFwd, forceDuration, forcePostList, forceDualport, forceTransport, deriveGeometry,
    forceSize, clampCqMod, limitCqMod, forceDepths]

theorem coreDependecies_iterations (h : c.coreDependecies.testType = .iterations) :
    c.testType = .iterations ∧ c.coreDependecies.iters = c.iters := by
  obtain ⟨-, -, -, -, ht, hi, -⟩ := clampCqMod_kept c
  obtain ⟨-, -, -, -, ht₁, hi₁, -⟩ := forceTransport_kept c.forceDepths.limitCqMod.clampCqMod
  rw [ht] at ht₁
  rw [hi] at hi₁
  unfold coreDependecies at h ⊢
  generalize c.forceDepths.limitCqMod.clampCqMod.forceSize.deriveGeometry.forceTransport = b
    at ht₁ hi₁ h ⊢
  replace ht : b.forceDualport.forcePostList.testType = c.testType := ht₁
  replace hi : b.forceDualport.forcePostList.iters = c.iters := hi₁
  generalize b.forceDualport.forcePostList = d at ht hi h ⊢
  have ht' : d.forceDuration.forceMacFwd.forceMcg.testType = d.testType := rfl
  have hi' : d.forceDuration.forceMacFwd.forceMcg.iters = d.forceDuration.iters := rfl
  generalize d.forceDuration.forceMacFwd.forceMcg = e at ht' hi' h ⊢
  have hs : e.forceInfinitely.forceSrd.evenRxDepth.setFillCount.testType =
      e.forceInfinitely.testType := rfl
  have hei : e.forceInfinitely.forceSrd.evenRxDepth.setFillCount.iters = e.iters := rfl
  rw [hs, forceInfinitely] at h
  dsimp only at h
  split at h
  next => cases h
  next =>
    rw [hei, hi', forceDuration, ← ht, ← ht', h]
    exact ⟨rfl, hi⟩

theorem receiveDepth_le (hc : c.InRange) :
    c.receiveDepth ≤ 2 ^ 31 := by
  have hb : c.boundedReceiveDepth ≤ 16384 := by
    have := hc.rx_le
    unfold boundedReceiveDepth MIN_SRQ_UD_RX_DEPTH UC_MAX_RX
    dsimp only
    split_ifs <;> omega
  have := hc.qps_le
  unfold receiveDepth
  dsimp only
  split_ifs <;> omega

/-- What a record of a latency test satisfies behind each step. -/
structure LatFit (c : CoreParameters) : Prop extends c.DepthsFit where
  oneQp : c.numOfQps = 1
  noDualport : c.dualport = false
  recvPostList_le : c.recvPostList ≤ 1
  iters_pos : c.testType = .iterations → 1 ≤ c.iters

namespace LatFit

theorem clamp (hc : c.InRange) (hp : c.postList ≤ c.clampedTxDepth) (hq : c.numOfQps = 1)
    (hd : c.dualport = false) (hr : c.recvPostList ≤ 1) :
    c.forceDepths.limitCqMod.clampCqMod.LatFit :=
  ⟨.clamp hc hp, hq, hd, hr, fun _ => hc.iters_pos⟩

theorem geometry (h : c.LatFit) : c.forceSize.deriveGeometry.LatFit :=
  ⟨h.toDepthsFit.geometry, h.oneQp, h.noDualport, h.recvPostList_le, h.iters_pos⟩

theorem transport (h : c.LatFit) : c.forceTransport.LatFit :=
  ⟨h.toDepthsFit.transport, h.oneQp, h.noDualport, h.recvPostList_le, h.iters_pos⟩

theorem dualport (h : c.LatFit) : c.forceDualport.LatFit := by
  refine ⟨h.toDepthsFit.dualport, ?_, h.noDualport, h.recvPostList_le, h.iters_pos⟩
  unfold forceDualport
  rw [h.noDualport, if_neg Bool.false_ne_true]
  exact h.oneQp

theorem postList (h : c.LatFit) : c.forcePostList.LatFit :=
  ⟨h.toDepthsFit.postList, h.oneQp, h.noDualport, h.recvPostList_le, h.iters_pos⟩

theorem macFwd (h : c.LatFit) : c.forceDuration.forceMacFwd.LatFit := by
  refine ⟨h.toDepthsFit.macFwd, h.oneQp, h.noDualport, h.recvPostList_le, fun ht => ?_⟩
  have ht' : c.testType = .iterations := ht
  have hi : c.forceDuration.iters = c.iters := by
    unfold forceDuration
    rw [ht', if_neg (by decide)]
  exact hi ▸ h.iters_pos ht'

theorem srd (h : c.LatFit) : c.forceMcg.forceInfinitely.forceSrd.LatFit := by
  refine ⟨h.toDepthsFit.srd, h.oneQp, h.noDualport, h.recvPostList_le, fun ht => ?_⟩
  have ht' : c.forceMcg.forceInfinitely.testType = .iterations := ht
  unfold forceInfinitely at ht'
  dsimp only at ht'
  split at ht'
  next => cases ht'
  next => exact h.iters_pos ht'

theorem evenRx (h : c.LatFit) : c.evenRxDepth.setFillCount.LatFit :=
  ⟨h.toDepthsFit.evenRx, h.oneQp, h.noDualport, h.recvPostList_le, h.iters_pos⟩

end LatFit

theorem coreDependecies_latFit (hc : c.InRange) (hp : c.postList ≤ c.clampedTxDepth)
    (hq : c.numOfQps = 1) (hd : c.dualport = false) (hr : c.recvPostList ≤ 1) :
    c.coreDependecies.LatFit :=
  (LatFit.clamp hc hp hq hd hr).geometry.transport.dualport.postList.macFwd.srd.evenRx

end CoreParameters

/-- The checks between the dual-port rule and the DURATION rule. -/
theorem forceDependecies_lists {b : Build} {p q : PerftestParameters}
    (h : forceDependecies b p = .ok q) :
    (p.dualport = true → p.tst = .bw) ∧
      (1 < p.recvPostList → p.listTest = true ∧
        (p.testType = .iterations → p.iters % p.recvPostList.toNat = 0)) ∧
      (1 < p.postList → p.listTest = true ∧
        (p.testType = .iterations → p.iters % p.postList.toNat = 0) ∧
        (p.reqCqMod = true → p.postList.toNat % p.forceDepths.limitCqMod.clampCqMod.cqMod = 0)) := by
  obtain ⟨hp, -⟩ := runAll_eq_ok_iff.mp h
  have hst := (@Passes.append _ (((dependecies b).take 9).map Prod.fst)
    (((dependecies b).drop 9).map Prod.fst) _ hp).2
  have hcore : (updates (((dependecies b).take 9).map Prod.fst) p).toCoreParameters =
      p.forceDepths.limitCqMod.clampCqMod.forceSize.deriveGeometry.forceTransport := rfl
  generalize updates (((dependecies b).take 9).map Prod.fst) p = s at hst hcore
  obtain ⟨hdual, hlist, hrecv, -⟩ := hst
  have hkept := CoreParameters.clampCqMod_kept p.toCoreParameters
  have hgeo := CoreParameters.forceTransport_kept p.forceDepths.limitCqMod.clampCqMod
  rw [← hcore] at hgeo
  obtain ⟨hdp, ht, hr, hl, htt, hi, hreq, hcq⟩ := hgeo
  rw [hkept.1] at hdp
  rw [hkept.2.1] at ht
  rw [hkept.2.2.1] at hr
  rw [hkept.2.2.2.1] at hl
  rw [hkept.2.2.2.2.1] at htt
  rw [hkept.2.2.2.2.2.1] at hi
  rw [hkept.2.2.2.2.2.2] at hreq
  have hlt : s.listTest = p.listTest := by
    simp only [CoreParameters.listTest, ht]
  refine ⟨fun hd => ?_, fun hr1 => ?_, fun hl1 => ?_⟩
  · have hb := hdual _ List.mem_cons_self
    simpa [hdp, ht, hd] using hb
  · have hs : 1 < s.recvPostList := hr ▸ hr1
    have hb : ∀ e ∈ recvPostListStage.checks s, e.1 = false := hrecv
    simp only [recvPostListStage, hs, if_true, hlt] at hb
    split at hb
    next hlist =>
      simp only [List.mem_singleton, forall_eq, htt, hi, hr, Bool.and_eq_false_iff,
        decide_eq_false_iff_not, Decidable.not_not] at hb
      exact ⟨hlist, fun ht => hb.resolve_left fun h => h ht⟩
    next => simp at hb
  · have hs : 1 < s.postList := hl ▸ hl1
    have hb : ∀ e ∈ postListStage.checks s, e.1 = false := hlist
    simp only [postListStage, hs, if_true, hlt] at hb
    split at hb
    next hlist =>
      simp only [List.mem_cons, List.not_mem_nil, or_false, forall_eq_or_imp, forall_eq, htt, hi,
        hl, hreq, hcq, Bool.and_eq_false_iff, decide_eq_false_iff_not, Decidable.not_not] at hb
      obtain ⟨h1, h2⟩ := hb
      exact ⟨hlist, fun ht => h1.resolve_left fun h => h ht,
        fun hq => h2.resolve_left fun h => by simp [hq] at h⟩
    next => simp at hb

/-- Only the bandwidth tests run on several QPs. -/
theorem parseOpt_oneQp {b : Build} {c c' : CoreParameters} {opt : Opt}
    (hc : c.tst ≠ .bw → c.numOfQps = 1) (h : parseOpt b c opt = .ok c') :
    c'.tst ≠ .bw → c'.numOfQps = 1 := by
  cases opt with
  | txDepth value | cqMod value | connection arg =>
    obtain ⟨n, -, rfl⟩ := map_eq_ok h
    exact hc
  | rxDepth value =>
    obtain ⟨n, -, h⟩ := bind_eq_ok h
    obtain ⟨-, rfl⟩ := ite_error_eq_ok h
    exact hc
  | qp value =>
    obtain ⟨n, hn, h⟩ := bind_eq_ok h
    obtain ⟨hone, rfl⟩ := ite_error_eq_ok h
    have hr := checkValueInRange_eq (by decide) hn
    simp only [MIN_QP_NUM, MAX_QP_NUM] at hr
    intro ht
    have : ¬ 1 < n := fun hlt => hone ⟨ht, hlt⟩
    dsimp only
    omega
  | size value suffix | iters value | duration value | bidirectional | mcg | writeWithImm
  | sendWithImm =>
    obtain ⟨-, rfl⟩ := ite_error_eq_ok h
    exact hc
  | _ =>
    cases h
    exact hc

/-- The core parameters of an accepted command line come from ones in their ranges. -/
theorem parser_inRange {b : Build} {prog : Program} {other : OtherParameters}
    {servername : Bool} {args : List Opt} {d : PerftestParameters}
    (h : parser b prog other servername args = .ok d) :
    ∃ c : CoreParameters, c.InRange ∧ d.toCoreParameters = c.coreDependecies := by
  obtain ⟨p, hp, hd⟩ := bind_eq_ok h
  exact ⟨p.toCoreParameters, parsedParams_inRange hp, forceDependecies_core hd⟩

theorem parser_sendConfig_sound {b : Build} {prog : Program} {other : OtherParameters}
    {servername : Bool} {args : List Opt} {d : PerftestParameters}
    (h : parser b prog other servername args = .ok d) (hp : d.postList = 1) :
    d.sendConfig.Sound := by
  obtain ⟨c, hc, hcore⟩ := parser_inRange h
  rw [hcore] at hp ⊢
  exact CoreParameters.sendConfig_sound hc hp

theorem parser_cqMod_pos {b : Build} {prog : Program} {other : OtherParameters}
    {servername : Bool} {args : List Opt} {d : PerftestParameters}
    (h : parser b prog other servername args = .ok d) : 1 ≤ d.cqMod := by
  obtain ⟨c, hc, hcore⟩ := parser_inRange h
  rw [hcore]
  exact (CoreParameters.coreDependecies_depthsPos hc).cq_pos

/-- A list that is checked when it is longer than one request divides what it is checked against. -/
theorem toNat_dvd_of_checked {n : Nat} {list : Int} (h1 : 1 ≤ list)
    (h : 1 < list → n % list.toNat = 0) : list.toNat ∣ n := by
  rcases eq_or_lt_of_le h1 with he | hlt
  · rw [← he, Int.toNat_one]
    exact one_dvd _
  · exact Nat.dvd_of_mod_eq_zero (h hlt)

/-- A run with a number of messages has a multiple of the post list of them. -/
theorem parser_lists {b : Build} {prog : Program} {other : OtherParameters} {servername : Bool}
    {args : List Opt} {d : PerftestParameters} (h : parser b prog other servername args = .ok d)
    (ht : d.testType = .iterations) :
    MIN_ITER ≤ d.iters ∧ (1 ≤ d.postList → d.postList.toNat ∣ d.iters) := by
  obtain ⟨p, hp, hd⟩ := bind_eq_ok h
  have hcore := forceDependecies_core hd
  rw [hcore] at ht
  obtain ⟨htt, hi⟩ := CoreParameters.coreDependecies_iterations ht
  obtain ⟨-, -, hlist⟩ := forceDependecies_lists hd
  rw [hcore, hi, CoreParameters.coreDependecies_postList]
  exact ⟨(parsedParams_inRange hp).iters_ge,
    fun h1 => toNat_dvd_of_checked h1 fun hlt => (hlist hlt).2.1 htt⟩

/-- And of the receive post list. -/
theorem parser_recvPostList_dvd {b : Build} {prog : Program} {other : OtherParameters}
    {servername : Bool} {args : List Opt} {d : PerftestParameters}
    (h : parser b prog other servername args = .ok d) (ht : d.testType = .iterations)
    (hr : 1 ≤ d.recvPostList) : d.recvPostList.toNat ∣ d.iters := by
  obtain ⟨p, hp, hd⟩ := bind_eq_ok h
  have hcore := forceDependecies_core hd
  rw [hcore] at ht hr ⊢
  obtain ⟨htt, hi⟩ := CoreParameters.coreDependecies_iterations ht
  obtain ⟨-, hrecv, -⟩ := forceDependecies_lists hd
  rw [CoreParameters.coreDependecies_recvPostList] at hr ⊢
  rw [hi]
  exact toNat_dvd_of_checked hr fun hlt => (hrecv hlt).2 htt

theorem parser_latFit {b : Build} {prog : Program} {other : OtherParameters} {servername : Bool}
    {args : List Opt} {d : PerftestParameters}
    (h : parser b prog other servername args = .ok d) (ht : d.tst = .lat) :
    d.toCoreParameters.LatFit := by
  obtain ⟨p, hp, hd⟩ := bind_eq_ok h
  have hcore := forceDependecies_core hd
  rw [hcore, CoreParameters.coreDependecies_tst] at ht
  obtain ⟨hdual, hrecv, hlist⟩ := forceDependecies_lists hd
  have hno : ¬ p.listTest = true := by simp [CoreParameters.listTest, ht]
  have hin := parsedParams_inRange hp
  have hone : p.numOfQps = 1 := by
    obtain ⟨c, hc, rfl⟩ := map_eq_ok hp
    have hlat : c.tst = .lat := ht
    have hone : c.tst ≠ .bw → c.numOfQps = 1 :=
      parseArgs_invariant (P := fun c => c.tst ≠ .bw → c.numOfQps = 1)
        (fun _ _ _ hc h => parseOpt_oneQp hc h) (fun _ => rfl) hc
    have hq : c.numOfQps = 1 := hone (by simp [hlat])
    exact hq
  rw [hcore]
  refine CoreParameters.coreDependecies_latFit hin ?_ hone ?_ ?_
  · have := CoreParameters.clampedTxDepth_pos hin
    have hl : ¬ 1 < p.postList := fun hl => hno (hlist hl).1
    omega
  · by_contra hd
    have hb := hdual (by simpa using hd)
    rw [ht] at hb
    cases hb
  · exact Int.not_lt.mp fun hgt => hno (hrecv hgt).1

end Perftest
