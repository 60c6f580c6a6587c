import Perftest.FlowPosts

namespace Perftest

open ByteMemory NetBytes Cyclic Checked

namespace FlowSender

variable {c : FlowSender} {o : ByteOrder} {m : Mem × Nat} {order : List Nat} {i j f : Nat}

/-- The packets of a QP stand in the regions of their flows, a step of the ring apart. -/
theorem Accepted.mem_packetPlaces (ha : c.Accepted) {off : Nat} :
    (off, f) ∈ c.raw.packetPlaces c.ctx.cycleBuffer c.ctx.cacheLineSize c.numOfQpsFactor ↔
      f < c.raw.flows ∧ ∃ j < c.flowBuffSize / c.ctx.inc,
        off = f * c.flowBuffSize + j * c.ctx.inc := by
  have hinc : incSize c.raw.size c.ctx.cacheLineSize = c.ctx.inc := by
    rw [WqeCtx.inc, ha.size]
  unfold RawEthParameters.packetPlaces
  rw [ha.listedTest, hinc]
  simp only [List.mem_flatMap, List.mem_map, List.mem_range, Prod.mk.injEq]
  constructor
  · rintro ⟨_, hf, j, hj, rfl, rfl⟩
    exact ⟨hf, j, hj, by rw [Nat.mul_comm]; rfl⟩
  · rintro ⟨hf, j, hj, rfl⟩
    exact ⟨f, hf, j, hj, by rw [Nat.mul_comm]; rfl, rfl⟩

theorem place_end_le (hj : j < c.flowBuffSize / c.ctx.inc) :
    j * c.ctx.inc + c.ctx.inc ≤ c.flowBuffSize :=
  (block_end_le hj).trans (Nat.div_mul_le_self _ _)

theorem Accepted.packet_end_le (ha : c.Accepted) {off : Nat}
    (hm : (off, f) ∈ c.raw.packetPlaces c.ctx.cycleBuffer c.ctx.cacheLineSize c.numOfQpsFactor) :
    off + c.ctx.inc ≤ c.raw.flows * c.flowBuffSize := by
  obtain ⟨hf, j, hj, rfl⟩ := ha.mem_packetPlaces.mp hm
  have hplace := place_end_le hj
  have hflow := block_end_le (n := c.flowBuffSize) hf
  omega

theorem Accepted.size_le_inc (ha : c.Accepted) : c.raw.size ≤ c.ctx.inc := by
  rw [WqeCtx.inc, ha.size]
  exact le_incSize ha.cacheLine

/-- The headers of the last packet may reach behind the regions of the flows, but not out of the
buffer. -/
theorem Accepted.headers_end_le (ha : c.Accepted) {off : Nat}
    (hm : (off, f) ∈ c.raw.packetPlaces c.ctx.cycleBuffer c.ctx.cacheLineSize c.numOfQpsFactor) :
    off + (c.raw.linkSize + c.raw.ipSize + c.raw.l4Size) ≤ c.buffSize := by
  have hend := ha.packet_end_le hm
  have hhalf := ha.flows_le_buffSize
  have hinc := ha.size_le_inc
  have hsize : 64 ≤ c.raw.size := ha.raw.size_ge
  have hv := RawEthParameters.vlanTagSize_le (p := c.raw)
  have hi := RawEthParameters.ipSize_le (p := c.raw)
  have h4 : c.raw.l4Size ≤ 20 := by
    unfold RawEthParameters.l4Size
    split_ifs <;> omega
  unfold RawEthParameters.linkSize
  omega

/-- The packets of QPs with other buffers leave a byte alone. -/
theorem createRawEthPkts_outside (ha : c.Accepted) {qps : List Nat} {a : Nat}
    (h : ∀ q ∈ qps, a < c.ctx.buf q ∨ c.ctx.buf q + c.buffSize ≤ a) :
    (c.createRawEthPkts o m qps).1 a = m.1 a := by
  induction qps generalizing m with
  | nil => rfl
  | cons q qps ih =>
    rw [createRawEthPkts, List.foldl_cons, ← createRawEthPkts,
      ih fun q' hq' => h q' (List.mem_cons_of_mem _ hq')]
    refine RawEthParameters.foldl_buildPktOnBuffer_outside fun e he => ?_
    have hq := h q List.mem_cons_self
    have hend := ha.headers_end_le he
    omega

theorem createRawEthPkts_at (ha : c.Accepted) {off : Nat}
    (hm : (off, f) ∈ c.raw.packetPlaces c.ctx.cycleBuffer c.ctx.cacheLineSize c.numOfQpsFactor)
    {qps : List Nat} (hap : qps.Pairwise fun q r =>
      c.ctx.buf q + c.buffSize ≤ c.ctx.buf r ∨ c.ctx.buf r + c.buffSize ≤ c.ctx.buf q)
    (hi : i ∈ qps) :
    ∃ pcp, ∀ k < c.raw.size, k < c.raw.linkSize + c.raw.ipSize + c.raw.l4Size →
      (c.createRawEthPkts o m qps).1 (c.ctx.buf i + off + k) =
        byteAt (c.raw.headers o (c.myDestInfo i) (c.remDestInfo i) pcp f) k := by
  induction qps generalizing m with
  | nil => cases hi
  | cons q qps ih =>
    obtain ⟨hq, hap⟩ := List.pairwise_cons.mp hap
    rw [createRawEthPkts, List.foldl_cons, ← createRawEthPkts]
    rcases List.mem_cons.mp hi with rfl | hi
    · obtain ⟨pcp, hpcp⟩ := @RawEthParameters.createRawEthPkt_at c.raw o (c.myDestInfo i)
        (c.remDestInfo i) c.ctx.cycleBuffer c.ctx.cacheLineSize c.numOfQpsFactor (c.ctx.buf i) off f m
        ha.raw ha.cacheLine ha.factor_pos hm
      refine ⟨pcp, fun k hk hlen => ?_⟩
      rw [createRawEthPkts_outside ha fun r hr => ?_]
      · exact hpcp k hk hlen
      · have hfar := hq r hr
        have hend := ha.packet_end_le hm
        have hhalf := ha.flows_le_buffSize
        have hinc := ha.size_le_inc
        omega
    · exact ih hap hi

theorem FlowsFit.apart (ha : c.Accepted) (hf : c.FlowsFit order) :
    (List.range c.params.numOfQps).Pairwise fun q r =>
      c.ctx.buf q + c.buffSize ≤ c.ctx.buf r ∨ c.ctx.buf r + c.buffSize ≤ c.ctx.buf q := by
  rcases hf.qps with hone | ⟨hmr, -⟩
  · rw [hone]
    exact List.pairwise_singleton _ _
  · refine List.pairwise_lt_range.imp_of_mem fun hq hr hlt => ?_
    exact ha.apart hmr _ (List.mem_range.mp hq) _ (List.mem_range.mp hr) (Nat.ne_of_lt hlt)

/-- A run that meets the conditions sends whole packets of the flows in turn. -/
theorem flowsSent_of_fit (ha : c.Accepted) (hq : ∀ i ∈ order, i < c.params.numOfQps)
    (hf : c.FlowsFit order) : c.FlowsSent o m order := by
  have hinv := postFlows_inv ha hq hf
  refine ⟨fun i hi e he => ?_, fun i k f addr hk => (hinv.posted i k f addr hk).1⟩
  obtain ⟨f, addr⟩ := e
  obtain ⟨k, hk⟩ := List.mem_iff_getElem?.mp he
  obtain ⟨hflow, j, hj, rfl⟩ := hinv.posted i k f addr hk
  have hlt : f < c.raw.flows := by
    rw [hflow]
    exact Nat.mod_lt _ (Nat.zero_lt_of_lt ha.flows_gt)
  have hm := ha.mem_packetPlaces.mpr ⟨hlt, j, hj, rfl⟩
  have hplace := place_end_le hj
  have hinc := ha.size_le_inc
  have hframe : c.raw.frameSize ≤ c.raw.size := Nat.sub_le _ _
  refine ⟨⟨_, Nat.add_assoc _ _ _, hm⟩, ?_, ?_⟩
  · rw [Nat.mul_comm c.flowBuffSize f, Nat.mul_comm c.flowBuffSize (f + 1), Nat.succ_mul]
    exact ⟨by omega, by omega⟩
  · obtain ⟨pcp, hpcp⟩ := createRawEthPkts_at (o := o) (m := m) ha hm (hf.apart ha)
      (List.mem_range.mpr hi)
    refine ⟨pcp, fun b hb hlen => ?_⟩
    rw [Nat.add_assoc (c.ctx.buf i)]
    exact hpcp b (hb.trans_le hframe) hlen

end FlowSender

/-- Two flows of UDP packets. -/
def twoFlows : RawEthParameters :=
  { RawEthParameters.udpClient false false with tst := .bw, flows := 2 }

theorem twoFlows_accepted : twoFlows.Accepted := by
  refine ⟨?_, ?_, rfl, fun _ => ⟨rfl, rfl⟩, fun h => ?_, ?_, ?_, ?_, fun _ => rfl⟩
  · exact Nat.le_refl 64
  · show 64 ≤ 9600
    omega
  · cases h
  · show 0 < 2 ^ 16
    omega
  · exact Nat.two_pos
  · show 2 < 2 ^ 16
    omega

/-- The client of `raw_ethernet_bw -s 64 --flows 2`. -/
def rawBwClient (args : List Opt) : Except String PerftestParameters :=
  parser usualBuild ⟨.send, .bw, true⟩ { isSourceMac := true, isDestMac := true
                                         isServerPort := true, isClientPort := true
                                         isServerIp := true, isClientIp := true, flows := 2 } true
    (.client :: .size 64 .none :: args)

/-- That client on one QP. -/
def twoFlowSender (d : PerftestParameters) : FlowSender where
  params := d
  ctx := inlineWqeCtx 0
  raw := twoFlows
  myDestInfo := fun _ => RawEthParameters.udpInfo true
  remDestInfo := fun _ => RawEthParameters.udpInfo false

/-- What the command lines below have in common, and their post list. -/
def twoFlowFacts (postList : Int) (d : PerftestParameters) : Bool :=
  decide (d.runLoop ⟨.send, .bw, true⟩ = some .runIterBw) && decide (d.tst = .bw) &&
    decide (d.flows = 2) && decide (d.flowsBurst = 1) && decide (d.numOfQps = 1) && !d.mrPerQp &&
    decide (d.postList = postList)

theorem exists_rawBwClient (args : List Opt) (postList : Int)
    (h : (rawBwClient args).toOption.any (twoFlowFacts postList) = true) :
    ∃ d, rawBwClient args = .ok d ∧ (twoFlowSender d).Accepted ∧
      (twoFlowSender d).flowBuffSize = 4096 ∧ d.numOfQps = 1 ∧ d.flowsBurst = 1 ∧
      d.postList = postList := by
  obtain ⟨d, hd, hr⟩ := exists_of_toOption_any h
  simp only [twoFlowFacts, Bool.and_eq_true, Bool.not_eq_true', decide_eq_true_eq] at hr
  obtain ⟨⟨⟨⟨⟨⟨hloop, ht⟩, hf⟩, hb⟩, hq⟩, hm⟩, hp⟩ := hr
  have hfactor : (twoFlowSender d).numOfQpsFactor = 1 := by
    show (if d.mrPerQp then 1 else d.numOfQps) = 1
    rw [hq, ite_self]
  have hbuff : (twoFlowSender d).buffSize = 16384 := by
    show incSize 4096 64 * 2 * (twoFlowSender d).numOfQpsFactor * 2 = 16384
    rw [hfactor]
    decide
  have hflow : (twoFlowSender d).flowBuffSize = 4096 := by
    show twoFlows.flowBuffSize 4096 64 (twoFlowSender d).numOfQpsFactor = 4096
    rw [hfactor]
    decide
  refine ⟨d, hd, ?_, hflow, hq, hb, hp⟩
  exact {
    loop := ⟨_, rfl, hloop⟩
    raw := twoFlows_accepted
    tst := ht.symm
    size := rfl
    flows := hf
    flows_gt := Nat.one_lt_two
    flowsBurst := hb.ge
    qps := hq.ge
    cacheLine := show 0 < 64 by decide
    page := show 0 < 4096 ∧ 64 ∣ 4096 by decide
    space := fun i _ _ => by
      rw [hbuff]
      show 4096 + 16384 ≤ 2 ^ 64
      decide
    apart := fun h => by
      rw [show (twoFlowSender d).params.mrPerQp = false from hm] at h
      cases h }

theorem flowsSent_rawBw : ∃ d, rawBwClient [] = .ok d ∧
    (twoFlowSender d).FlowsSent .little (fun _ => 0, 0) [0, 0, 0] := by
  obtain ⟨d, hd, ha, hflow, hq, -, hp⟩ := exists_rawBwClient [] 1 (by decide +kernel)
  refine ⟨d, hd, FlowSender.flowsSent_of_fit ha (fun i hi => ?_) ⟨hp, ?_, Or.inl hq,
    fun l i j hl hne => ?_⟩⟩
  · rw [List.eq_of_mem_replicate (show i ∈ List.replicate 3 0 from hi)]
    exact ha.qps
  · rw [hflow]
    show 2 * 4096 < 2 ^ 31
    decide
  · have hmem : ∀ a ∈ [i, j], a = 0 := fun a hin =>
      List.eq_of_mem_replicate (n := 3) (hl.subset (List.mem_append_right _ hin))
    exact absurd ((hmem i (by simp)).trans (hmem j (by simp)).symm) hne

/-- In a list of two requests the second one stays in the first flow. -/
theorem rawBw_list_keeps_flow : ∃ d, rawBwClient [.postList 2] = .ok d ∧
    (twoFlowSender d).Accepted ∧
    ¬ (twoFlowSender d).FlowsSent .little (fun _ => 0, 0) [0, 0] := by
  obtain ⟨d, hd, ha, hflow, hq, hb, hp⟩ := exists_rawBwClient [.postList 2] 2
    (by decide +kernel)
  refine ⟨d, hd, ha, fun h => ?_⟩
  have hlen : (twoFlowSender d).params.listLength = 2 := by
    show d.postList.toNat = 2
    rw [hp]
    rfl
  have hflows : (twoFlowSender d).params.flows = 2 := ha.flows
  have hburst : (twoFlowSender d).params.flowsBurst = 1 := hb
  have hone : (twoFlowSender d).params.postList ≠ 1 := by
    show d.postList ≠ 1
    omega
  have hidx : ((twoFlowSender d).postFlows [0]).sendFlowsIndex = 1 := by
    have hindex : (twoFlowSender d).initFlow.sendFlowsIndex = 0 := rfl
    have hiter : (twoFlowSender d).initFlow.flowsBurstIter = 0 := rfl
    simp [FlowSender.postFlows, FlowSender.postFlow, FlowSender.switchFlow, hflows, hburst, hindex,
      hiter, DEF_FLOWS]
  have hsge : ((twoFlowSender d).postFlows [0]).sge 1 = 4160 := by
    show ((twoFlowSender d).postFlow (twoFlowSender d).initFlow 0).sge 1 = 4160
    rw [FlowSender.postFlow_sge_of_list hone, FlowSender.switchFlow_sge Nat.one_pos]
    show d.sgeAddr (inlineWqeCtx 0) (1 / d.listLength) (1 % d.listLength) = 4160
    have hl : d.listedTest = true := by
      rw [PerftestParameters.listedTest, show d.tst = .bw from ha.tst.symm]
      rfl
    rw [show d.listLength = 2 from hlen, PerftestParameters.sgeAddr, if_pos ⟨hl, by decide⟩,
      show d.sgeAddr (inlineWqeCtx 0) (1 / 2) 0 = 4096 from ha.sgeAddr_zero]
    decide
  have hmem : (1, 4160) ∈ ((twoFlowSender d).postFlows [0, 0]).posted 0 := by
    show (1, 4160) ∈ ((twoFlowSender d).postFlow ((twoFlowSender d).postFlows [0]) 0).posted 0
    simp only [FlowSender.postFlow, Function.update_self]
    refine List.mem_append_right _ (List.mem_map.mpr ⟨1, ?_, ?_⟩)
    · rw [hlen]
      decide
    · rw [hidx, Nat.zero_mul, Nat.zero_add, hsge]
  have hinside := (h.requests 0 ha.qps _ hmem).inside.1
  rw [hflow] at hinside
  have hbuf : (twoFlowSender d).ctx.buf 0 = 4096 := rfl
  omega

end Perftest
