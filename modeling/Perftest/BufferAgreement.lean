import Perftest.BufferPlaces

namespace Perftest

open Checked Cyclic Stride

namespace ReceivesFit

variable {q : PerftestParameters} {x : WqeCtx} {port : PortInfo} {i j : Nat}

open PerftestParameters

theorem recvSpan_subset_region (hq : MapQps q) (hx : MapCtx q x port) (hf : ReceivesFit q x port)
    (hi : i ∈ Set.Ico q.wqeXrcOffset q.numOfQps) :
    Set.Ico (q.recvBase x i) (q.recvBase x i + q.recvSpan x port) ⊆ q.region x i := by
  obtain ⟨alloc, hb, -⟩ := hx.buf
  obtain ⟨hlo, hhi⟩ := hi
  have hqps := hq.qps
  have hstart := hf.start
  have hstop := hf.stop
  cases hm : q.mrPerQp with
  | false =>
    rw [hm, if_neg Bool.false_ne_true] at hstart hstop
    have hplace : (i - q.wqeXrcOffset) * x.qpSpace + x.qpSpace ≤ q.wqeQps * x.qpSpace :=
      block_end_le (by omega)
    rw [recvBase_shared hq hb hm, region_shared hq hb hm, Nat.add_mul]
    rw [show q.numOfQps - q.wqeQps = q.wqeXrcOffset by omega] at hstop
    rw [← hqps, Nat.add_mul]
    rcases hq.offset with ho | ho
    · rw [ho, Nat.mul_zero, Nat.zero_add, Nat.one_mul] at hstop
      exact Set.Ico_subset_Ico (by omega) (by omega)
    · rw [ho, Nat.add_mul, Nat.mul_assoc, Nat.one_mul] at hstop
      rw [ho] at hplace ⊢
      exact Set.Ico_subset_Ico (by omega) (by omega)
  | true =>
    rw [hm, if_pos rfl] at hstart hstop
    rw [recvBase_own hb hm, region_own hq hb hm]
    exact Set.Ico_subset_Ico (by omega) (by omega)

theorem recvSpan_disjoint (hq : MapQps q) (hx : MapCtx q x port) (hf : ReceivesFit q x port)
    (hi : i ∈ Set.Ico q.wqeXrcOffset q.numOfQps) (hj : j ∈ Set.Ico q.wqeXrcOffset q.numOfQps)
    (hij : i < j) :
    Disjoint (Set.Ico (q.recvBase x i) (q.recvBase x i + q.recvSpan x port))
      (Set.Ico (q.recvBase x j) (q.recvBase x j + q.recvSpan x port)) := by
  cases hm : q.mrPerQp with
  | false =>
    obtain ⟨alloc, hb, -⟩ := hx.buf
    obtain ⟨hlo, hhi⟩ := hi
    obtain ⟨hlo', hhi'⟩ := hj
    have hqps := hq.qps
    have hstart := hf.start
    rw [hm, if_neg Bool.false_ne_true] at hstart
    have hnext := hf.next hm (by omega)
    have hplace : (i - q.wqeXrcOffset) * x.qpSpace + x.qpSpace ≤
        (j - q.wqeXrcOffset) * x.qpSpace := block_end_le (by omega)
    rw [recvBase_shared hq hb hm, recvBase_shared hq hb hm, Nat.add_mul, Nat.add_mul]
    refine Set.Ico_disjoint_Ico.mpr ?_
    omega
  | true =>
    exact disjoint_of_subset_region hq hx hm hi.2 hj.2 hij.ne
      (hf.recvSpan_subset_region hq hx hi) (hf.recvSpan_subset_region hq hx hj)

theorem recvSpan_disjoint_sends (hq : MapQps q) (hx : MapCtx q x port) (hf : ReceivesFit q x port)
    (hs : q.sendsBytes x) (hi : i ∈ Set.Ico q.wqeXrcOffset q.numOfQps) (hj : j < q.wqeQps) :
    Disjoint (Set.Ico (q.recvBase x i) (q.recvBase x i + q.recvSpan x port))
      (Set.Ico (x.buf j) (x.buf j + q.sendSpan x)) := by
  obtain ⟨alloc, hb, -⟩ := hx.buf
  have hsends := hf.sends hs
  have hspan : q.sendSpan x ≤ x.buffSize := sendSpan_le hx.line_pos hx.size_le
  cases hm : q.mrPerQp with
  | false =>
    have hstart := hf.start
    rw [hm, if_neg Bool.false_ne_true] at hsends hstart
    have hplace : j * x.buffSize ≤ (q.wqeQps - 1) * x.buffSize :=
      Nat.mul_le_mul_right _ (by omega)
    rw [recvBase_shared hq hb hm, buf_shared hb hm, Nat.add_mul]
    refine Set.Ico_disjoint_Ico.mpr ?_
    omega
  | true =>
    have hqps := hq.qps
    by_cases hij : i = j
    · subst hij
      rw [hm, if_pos rfl] at hsends
      have hlo := hi.1
      have ho : q.wqeXrcOffset = 0 := by
        rcases hq.offset with ho | ho
        · exact ho
        · omega
      have hend := hsends ho
      rw [recvBase_own hb hm, buf_own hb hm]
      refine Set.Ico_disjoint_Ico.mpr ?_
      omega
    · exact disjoint_of_subset_region hq hx hm hi.2 (by omega) hij
        (hf.recvSpan_subset_region hq hx hi)
        ((Set.Ico_subset_Ico_right (by omega)).trans (buf_subset_region hq hx (by omega)))

end ReceivesFit

namespace MapFits

variable {q : PerftestParameters} {x : WqeCtx} {port : PortInfo} {i j : Nat}

open PerftestParameters

theorem slots_pos (hx : MapCtx q x port) (hf : MapFits q x port)
    (hr : q.sendsRequests = true ∨ q.receivesRequests = true) (hl : q.listedTest = true)
    (hs : x.size ≤ x.cycleBuffer / 2) : 1 ≤ x.slots :=
  (Nat.one_le_div_iff (hx.size_pos.trans (le_incSize hx.line_pos))).mpr
    (hf.steps hr ⟨hl, .inl hs⟩)

/-- The receives of a QP are none, or they fit. -/
theorem recvBytes_cases (hx : MapCtx q x port) (hf : MapFits q x port)
    (hr : q.receivesRequests = true) :
    (∀ i, q.recvBytes x port i = ∅) ∨ ReceivesFit q x port := by
  have hn := hf.slots_pos hx (.inr hr)
  by_cases hb : 0 < q.recvSlots x ∧ 0 < q.recvLength x port
  · exact .inr (hf.receives ⟨hr, hb⟩)
  · left
    intro i
    rw [recvBytes_eq hn]
    exact cells_eq_empty (by omega)

theorem recvBytes_disjoint_sends (hq : MapQps q) (hx : MapCtx q x port) (hf : MapFits q x port)
    (hr : q.receivesRequests = true) (hs : q.sendsRequests = true)
    (hi : i ∈ Set.Ico q.wqeXrcOffset q.numOfQps) (hj : j < q.wqeQps) :
    Disjoint (q.recvBytes x port i) (q.sendBytes x j) := by
  have hn := hf.slots_pos hx (.inr hr)
  rcases hf.recvBytes_cases hx hr with hempty | hfit
  · rw [hempty]
    exact Set.empty_disjoint _
  by_cases hb : 0 < q.sendSlots x ∧ 0 < q.sendLength x
  · refine (hfit.recvSpan_disjoint_sends hq hx ⟨hs, hb⟩ hi hj).mono (recvBytes_subset hn) ?_
    rw [sendBytes_eq hn (hf.forwards hs)]
    refine cells_subset_Ico.trans (Set.Ico_subset_Ico_right ?_)
    unfold stop sendSpan
    omega
  · rw [sendBytes_eq hn (hf.forwards hs), cells_eq_empty (by omega)]
    exact Set.disjoint_empty _

theorem bufferMap (hq : MapQps q) (hx : MapCtx q x port) (hf : MapFits q x port) :
    BufferMap q x port := by
  have hqps := hq.qps
  have hsub : q.sendsRequests = true → ∀ j,
      q.sendBytes x j ⊆ Set.Ico (x.buf j) (x.buf j + x.buffSize) := fun hs j =>
    sendBytes_subset hx (hf.slots_pos hx (.inl hs)) (hf.forwards hs)
  refine ⟨fun hr hs => ?_, fun hs i hi => ?_, fun hr i hi => ?_, fun q' x' h i hi => ?_,
    fun hr hs i hi j hj => hf.recvBytes_disjoint_sends hq hx hr hs hi hj,
    fun hr i hi j hj hij => ?_, fun hs q' x' h i hi j hj => ?_, fun hr q' x' h i hi j hj => ?_,
    fun q' x' h i hi j hj hij => ?_⟩
  · have hslots : 1 ≤ x.slots := (Nat.one_le_div_iff
      (hx.size_pos.trans (le_incSize hx.line_pos))).mpr (hf.steps hr hs)
    omega
  · exact (hsub hs i).trans (buf_subset_region hq hx (by omega))
  · rcases hf.recvBytes_cases hx hr with hempty | hfit
    · rw [hempty]
      exact Set.empty_subset _
    · exact (recvBytes_subset (hf.slots_pos hx (.inr hr))).trans
        (hfit.recvSpan_subset_region hq hx hi)
  · have hle := h.qps
    exact (h.accessBytes_subset hx hi).trans (published_subset_region hq hx (by omega))
  · rcases hf.recvBytes_cases hx hr with hempty | hfit
    · rw [hempty]
      exact Set.empty_disjoint _
    · exact (hfit.recvSpan_disjoint hq hx hi hj hij).mono
        (recvBytes_subset (hf.slots_pos hx (.inr hr)))
        (recvBytes_subset (hf.slots_pos hx (.inr hr)))
  · have hle := h.qps
    exact (published_disjoint_buf hq hx (by omega) (by omega)).mono
      (h.accessBytes_subset hx hi) (hsub hs j)
  · have hverb : q.verb = .writeImm := by
      have hone := h.oneSided
      rw [← h.verb] at hone
      unfold receivesRequests at hr
      cases hv : q.verb <;> simp [hv, VerbType.oneSided, hasRecvComp] at hone hr ⊢
    have hempty : q.recvBytes x port j = ∅ := by
      rw [recvBytes_eq (hf.slots_pos hx (.inr hr))]
      refine cells_eq_empty (.inr ?_)
      rw [recvLength, if_pos hverb, Nat.zero_mod]
    rw [hempty]
    exact Set.disjoint_empty _
  · have hle := h.qps
    exact (published_disjoint hq hx (by omega) (by omega)).mono (h.accessBytes_subset hx hi)
      (h.accessBytes_subset hx hj)

end MapFits

section Exact

variable {q : PerftestParameters} {x : WqeCtx} {port : PortInfo} {i j : Nat}

open PerftestParameters

/-- A receive with a length is made for a message and its header. -/
theorem PerftestParameters.le_recvLength (hx : MapCtx q x port) (hl : 0 < q.recvLength x port) :
    x.size + q.udHeader ≤ q.recvLength x port := by
  have hsize := hx.size_le
  have hlt := hx.bufferSize_lt
  have hmtu := hx.mtu_pos
  have hmtu' := hx.mtu_le
  have hud : q.udHeader ≤ 40 := by
    unfold udHeader UD_ADDITION
    split <;> omega
  have hset : x.size + q.udHeader ≤ q.setRecvLength x port ∧
      q.setRecvLength x port < x.size + q.udHeader + port.mtu := by
    unfold setRecvLength
    dsimp only
    split
    · have hdiv := Nat.div_add_mod (x.size + q.udHeader + port.mtu - 1) port.mtu
      have hmod := Nat.mod_lt (x.size + q.udHeader + port.mtu - 1) hmtu
      rw [Nat.mul_comm] at hdiv
      omega
    · omega
  unfold recvLength at hl ⊢
  by_cases hv : q.verb = .writeImm
  · rw [if_pos hv] at hl
    exact absurd hl (by decide)
  · rw [if_neg hv, Nat.mod_eq_of_lt (by omega)]
    exact hset.1

namespace BufferMap

theorem inc_le_cycleBuffer (h : BufferMap q x port)
    (hr : q.sendsRequests = true ∨ q.receivesRequests = true) (hs : q.stepsAddr x) :
    x.inc ≤ x.cycleBuffer := by
  by_contra hlt
  exact h.steps hr hs (Nat.div_eq_of_lt (Nat.lt_of_not_le hlt))

theorem slots_pos (h : BufferMap q x port)
    (hr : q.sendsRequests = true ∨ q.receivesRequests = true) (hl : q.listedTest = true)
    (hs : x.size ≤ x.cycleBuffer / 2) : 1 ≤ x.slots :=
  Nat.one_le_iff_ne_zero.mpr (h.steps hr ⟨hl, .inl hs⟩)

/-- The receives of a QP begin and end in its region. -/
theorem recvBase_mem (h : BufferMap q x port) (hb : q.receivesBytes x port)
    (hi : i ∈ Set.Ico q.wqeXrcOffset q.numOfQps) {lo hi' : Nat}
    (hregion : q.region x i = Set.Ico lo hi') :
    lo ≤ q.recvBase x i ∧ q.recvBase x i + q.recvSpan x port ≤ hi' := by
  have hsub := h.receives hb.1 i hi
  rw [recvBytes_eq (h.slots_pos (.inr hb.1)), hregion, cells_subset_Ico_iff hb.2.1 hb.2.2] at hsub
  unfold stop at hsub
  unfold recvSpan
  exact ⟨hsub.1, by omega⟩

theorem start_stop (hq : MapQps q) (hx : MapCtx q x port) (h : BufferMap q x port)
    (hb : q.receivesBytes x port) :
    q.udHeader ≤ (if q.mrPerQp then 0 else q.wqeQps * x.qpSpace) + q.udLine x ∧
      q.recvSpan x port ≤
        (if q.mrPerQp then 2 else 2 * (q.numOfQps - q.wqeQps) + 1) * x.qpSpace + q.udHeader := by
  obtain ⟨alloc, hbuf, halloc, hapart⟩ := hx.buf
  have hqps := hq.qps
  have hpos := hq.qps_pos
  have hud : q.udHeader ≤ UD_ADDITION := by
    unfold udHeader
    split <;> omega
  have hzero := halloc 0 (by omega)
  cases hm : q.mrPerQp with
  | false =>
    have hfirst := (h.recvBase_mem (i := q.wqeXrcOffset) hb ⟨le_refl _, by omega⟩
      (region_shared hq hbuf hm)).1
    have hlast := (h.recvBase_mem (i := q.wqeXrcOffset + (q.wqeQps - 1)) hb
      ⟨by omega, by omega⟩ (region_shared hq hbuf hm)).2
    have hplace : (q.wqeQps - 1) * x.qpSpace + x.qpSpace = q.wqeQps * x.qpSpace := by
      rw [← Nat.succ_mul]
      congr 1
      omega
    rw [recvBase_shared hq hbuf hm, Nat.sub_self, Nat.add_zero] at hfirst
    rw [recvBase_shared hq hbuf hm, Nat.add_sub_cancel_left, Nat.add_mul, ← hqps, Nat.add_mul]
      at hlast
    rw [if_neg Bool.false_ne_true, if_neg Bool.false_ne_true, ← hqps, Nat.add_sub_cancel,
      Nat.add_mul, Nat.mul_assoc]
    exact ⟨by omega, by omega⟩
  | true =>
    have hmem : q.wqeXrcOffset ∈ Set.Ico q.wqeXrcOffset q.numOfQps := ⟨le_refl _, by omega⟩
    have hin := h.recvBase_mem hb hmem (region_own hq hbuf hm)
    have hfit := halloc q.wqeXrcOffset (by omega)
    rw [recvBase_own hbuf hm] at hin
    rw [if_pos rfl, if_pos rfl]
    exact ⟨by omega, by omega⟩

theorem next (hq : MapQps q) (hx : MapCtx q x port) (h : BufferMap q x port)
    (hb : q.receivesBytes x port) (hm : q.mrPerQp = false) (htwo : 2 ≤ q.wqeQps) :
    q.recvSpan x port ≤ x.qpSpace := by
  obtain ⟨alloc, hbuf, halloc, -⟩ := hx.buf
  have hqps := hq.qps
  have hn := h.slots_pos (.inr hb.1)
  have hstart := (h.start_stop hq hx hb).1
  have hplaces : (q.recvSlots x - 1) * x.inc ≤ x.buffSize := recvPlaces_le hb.2.1
  have hspace : x.buffSize ≤ x.qpSpace := buffSize_le_qpSpace hx.line_pos
  have hd := h.receives_receives hb.1 q.wqeXrcOffset ⟨le_refl _, by omega⟩ (q.wqeXrcOffset + 1)
    ⟨by omega, by omega⟩ (by omega)
  rw [hm, if_neg Bool.false_ne_true] at hstart
  rw [recvBytes_eq hn, recvBytes_eq hn, recvBase_shared hq hbuf hm, recvBase_shared hq hbuf hm,
    Nat.sub_self, Nat.add_sub_cancel_left, Nat.add_zero, Nat.succ_mul] at hd
  have hend := (disjoint_iff_stop_le hb.2.1 hb.2.2 hb.2.1 hb.2.2 (by have := hb.2.2; omega)).mp hd
  unfold stop at hend
  unfold recvSpan
  omega

/-- The last send ends in front of the first receive. -/
theorem sends_shared (hq : MapQps q) (hx : MapCtx q x port) (h : BufferMap q x port)
    (hf : ¬ (q.macFwd = true ∧ q.mrPerQp = true)) (hb : q.receivesBytes x port)
    (hs : q.sendsBytes x) (hm : q.mrPerQp = false) :
    (q.wqeQps - 1) * x.buffSize + q.sendSpan x + q.udHeader ≤
      q.wqeQps * x.qpSpace + q.udLine x := by
  obtain ⟨alloc, hbuf, halloc, -⟩ := hx.buf
  have hqps := hq.qps
  have hpos := hq.qps_pos
  have hstart := (h.start_stop hq hx hb).1
  rw [hm, if_neg Bool.false_ne_true] at hstart
  have hn := h.slots_pos (.inr hb.1)
  have hlen : x.size + q.udHeader ≤ q.recvLength x port := le_recvLength hx hb.2.2
  have hspan : q.sendSpan x ≤ x.buffSize := sendSpan_le hx.line_pos hx.size_le
  have hspace : q.wqeQps * x.buffSize ≤ q.wqeQps * x.qpSpace :=
    Nat.mul_le_mul_left _ (buffSize_le_qpSpace hx.line_pos)
  have hlast : (q.wqeQps - 1) * x.buffSize + x.buffSize ≤ q.wqeQps * x.buffSize :=
    block_end_le (by omega)
  have hd := h.receives_sends hb.1 hs.1 q.wqeXrcOffset ⟨le_refl _, by omega⟩ (q.wqeQps - 1)
    (by omega)
  rw [recvBytes_eq hn, sendBytes_eq hn hf, recvBase_shared hq hbuf hm, buf_shared hbuf hm,
    Nat.sub_self, Nat.add_zero] at hd
  unfold sendSpan at hspan ⊢
  have hslen := hs.2.2
  have hend := (disjoint_iff_stop_le hs.2.1 hs.2.2 hb.2.1 hb.2.2 (by omega)).mp hd.symm
  unfold stop at hend
  omega

/-- With a region for each QP, a QP that sends and receives has no more than one send, which ends in
front of the receives. -/
theorem sends_own (hq : MapQps q) (hx : MapCtx q x port) (h : BufferMap q x port)
    (hf : ¬ (q.macFwd = true ∧ q.mrPerQp = true)) (hb : q.receivesBytes x port)
    (hs : q.sendsBytes x) (hm : q.mrPerQp = true) (ho : q.wqeXrcOffset = 0) :
    q.sendSpan x + q.udHeader ≤ q.udLine x := by
  obtain ⟨alloc, hbuf, halloc, -⟩ := hx.buf
  have hqps := hq.qps
  have hpos := hq.qps_pos
  have hstart := (h.start_stop hq hx hb).1
  rw [hm, if_pos rfl, Nat.zero_add] at hstart
  have hn := h.slots_pos (.inr hb.1)
  have hlen : x.size + q.udHeader ≤ q.recvLength x port := le_recvLength hx hb.2.2
  have hsize := hx.size_pos
  have hslen := hs.2.2
  have hd := h.receives_sends hb.1 hs.1 0 ⟨by omega, by omega⟩ 0 (by omega)
  rw [recvBytes_eq hn, sendBytes_eq hn hf, recvBase_own hbuf hm, buf_own hbuf hm] at hd
  by_cases hone : q.sendSlots x = 1
  · have hend := (disjoint_iff_stop_le hs.2.1 hs.2.2 hb.2.1 hb.2.2
      (by rw [hone, Nat.sub_self, Nat.zero_mul]; omega)).mp hd.symm
    unfold stop at hend
    unfold sendSpan
    omega
  exfalso
  have htwo : 1 < q.sendSlots x := by
    have := hs.2.1
    omega
  by_cases hline : x.size ≤ q.udLine x
  · have hud : q.connectionType = .ud := by
      by_contra hne
      unfold udLine at hline
      rw [if_neg hne] at hline
      omega
    have hcl : q.udLine x = x.cacheLineSize := if_pos hud
    have hinc : x.inc = q.udLine x := by
      rw [WqeCtx.inc, incSize, if_neg (by omega), hcl]
    have hmem : alloc 0 + q.udLine x ∈
        cells (alloc 0 + q.udLine x - q.udHeader) x.inc (q.recvSlots x) (q.recvLength x port) :=
      ⟨0, hb.2.1, by omega, by omega⟩
    exact Set.disjoint_left.mp hd hmem ⟨1, htwo, by omega, by omega⟩
  · have hpoint : q.udLine x - q.udHeader < q.sendLength x := by
      by_cases hud : q.connectionType = .ud
      · have hslt := hx.size_le
        have hblt := hx.bufferSize_lt
        rw [sendLength, if_neg (by rw [hud]; decide), Nat.mod_eq_of_lt (by omega)]
        omega
      · unfold udLine
        rw [if_neg hud]
        omega
    exact Set.disjoint_left.mp hd (base_mem hb.2.1 hb.2.2) ⟨0, hs.2.1, by omega, by omega⟩

theorem mapFits (hq : MapQps q) (hx : MapCtx q x port) (h : BufferMap q x port)
    (hf : ¬ (q.macFwd = true ∧ q.mrPerQp = true)) : MapFits q x port := by
  refine ⟨fun _ => hf, fun hr hs => h.inc_le_cycleBuffer hr hs, fun hb => ?_⟩
  obtain ⟨hstart, hstop⟩ := h.start_stop hq hx hb
  refine ⟨hstart, hstop, h.next hq hx hb, fun hs => ?_⟩
  cases hm : q.mrPerQp with
  | false => exact h.sends_shared hq hx hf hb hs hm
  | true => exact h.sends_own hq hx hf hb hs hm

end BufferMap

end Exact

/-- The parameters behind the start of a main function, which doubles the QPs that are halved. -/
def PerftestParameters.startParams (d : PerftestParameters) : PerftestParameters :=
  { d with numOfQps := if d.halvesQps then d.numOfQps * 2 else d.numOfQps }

section Accepted

variable {b : Build} {prog : Program} {other : OtherParameters} {servername : Bool}
  {args : List Opt} {d : PerftestParameters} {x : WqeCtx} {port : PortInfo}

theorem parser_mapQps (h : parser b prog other servername args = .ok d)
    (hv : d.dataValidation = false) (hf : d.flows = DEF_FLOWS) : MapQps d.startParams := by
  obtain ⟨c, hc, hcore⟩ := parser_inRange h
  have hq : 1 ≤ d.numOfQps := by
    rw [hcore]
    exact (CoreParameters.coreDependecies_depthsPos hc).qps_pos
  have hqps : d.startParams.wqeQps = d.numOfQps := by
    show (if d.halvesQps then (if d.halvesQps then d.numOfQps * 2 else d.numOfQps) / 2
      else if d.halvesQps then d.numOfQps * 2 else d.numOfQps) = d.numOfQps
    split <;> omega
  have hoffset : d.startParams.wqeXrcOffset = if d.halvesQps then d.numOfQps else 0 := by
    show (if d.halvesQps then (if d.halvesQps then d.numOfQps * 2 else d.numOfQps) / 2 else 0) = _
    split <;> omega
  have htotal : d.startParams.numOfQps = if d.halvesQps then d.numOfQps * 2 else d.numOfQps := rfl
  refine ⟨hf, hv, by omega, ?_, ?_⟩
  · rw [hoffset, hqps, htotal]
    split <;> omega
  · rw [hoffset, hqps]
    split <;> omega

/-- The buffer map of accepted parameters holds where they fit, and, unless the forwarding test has
a region for each QP, nowhere else. -/
theorem parser_bufferMap (h : parser b prog other servername args = .ok d)
    (hv : d.dataValidation = false) (hf : d.flows = DEF_FLOWS)
    (hx : MapCtx d.startParams x port) :
    (MapFits d.startParams x port → BufferMap d.startParams x port) ∧
      (¬ (d.macFwd = true ∧ d.mrPerQp = true) →
        BufferMap d.startParams x port → MapFits d.startParams x port) :=
  have hq : MapQps d.startParams := parser_mapQps h hv hf
  ⟨fun hfits => hfits.bufferMap hq hx, fun hm hmap => hmap.mapFits hq hx hm⟩

end Accepted

/-- `ib_send_bw` with messages of 64 bytes. -/
def sendBw64 (args : List Opt) : Except String PerftestParameters :=
  parser usualBuild ⟨.send, .bw, false⟩ {} true (.size 64 .none :: args)

/-- Its context, with blocks from the allocator at every MiB. -/
def blocksCtx (q : PerftestParameters) : WqeCtx :=
  { inlineWqeCtx 0 with buf := q.createMr (inlineWqeCtx 0) fun i => 2 ^ 20 * (i + 1) }

theorem blocksCtx_mapCtx {q : PerftestParameters} (hm : q.mrPerQp = true → q.numOfQps = 1) :
    MapCtx q (blocksCtx q) ⟨4096, false⟩ := by
  refine ⟨Nat.le_of_ble_eq_true rfl, Nat.le_of_ble_eq_true rfl, Nat.le_of_ble_eq_true rfl,
    Nat.le_of_ble_eq_true rfl, by decide, by decide, fun i => 2 ^ 20 * (i + 1), rfl,
    fun i _ => ?_, fun hmr i hi j hj hij => ?_⟩
  · show 40 ≤ 2 ^ 20 * (i + 1)
    omega
  · have hone := hm hmr
    omega

/-- The fits of a context, for two QPs in one region. -/
def fitsFacts (q : PerftestParameters) (x : WqeCtx) (port : PortInfo) : Bool :=
  !q.dataValidation && decide (q.flows = DEF_FLOWS) && !q.macFwd && !q.mrPerQp &&
    decide (q.numOfQps = 2) && decide (q.udHeader ≤ q.wqeQps * x.qpSpace + q.udLine x) &&
    decide (q.recvSpan x port ≤ (2 * (q.numOfQps - q.wqeQps) + 1) * x.qpSpace + q.udHeader) &&
    decide (q.recvSpan x port ≤ x.qpSpace) &&
    decide ((q.wqeQps - 1) * x.buffSize + q.sendSpan x + q.udHeader ≤
      q.wqeQps * x.qpSpace + q.udLine x)

theorem sendBw64_bufferMap : ∃ d, sendBw64 [.bidirectional, .qp 2] = .ok d ∧
    d.startParams.numOfQps = 2 ∧
    BufferMap d.startParams (blocksCtx d.startParams) ⟨4096, false⟩ := by
  obtain ⟨d, hd, hr⟩ := exists_of_toOption_any (x := sendBw64 [.bidirectional, .qp 2])
    (p := fun d => fitsFacts d.startParams (blocksCtx d.startParams) ⟨4096, false⟩)
    (by decide +kernel)
  simp only [fitsFacts, Bool.and_eq_true, Bool.not_eq_true', decide_eq_true_eq] at hr
  obtain ⟨⟨⟨⟨⟨⟨⟨⟨hv, hf⟩, hm⟩, hmr⟩, hq⟩, hstart⟩, hstop⟩, hnext⟩, hsends⟩ := hr
  refine ⟨d, hd, hq, (parser_bufferMap hd hv hf (blocksCtx_mapCtx fun h => ?_)).1
    ⟨fun _ h => ?_, fun _ _ => Nat.le_of_ble_eq_true rfl,
      fun _ => ⟨?_, ?_, fun _ _ => hnext, fun _ => ?_⟩⟩⟩
  · rw [hmr] at h
    cases h
  · rw [hm] at h
    cases h.1
  · rwa [hmr, if_neg Bool.false_ne_true]
  · rwa [hmr, if_neg Bool.false_ne_true]
  · rwa [hmr, if_neg Bool.false_ne_true]

/-- A QP with a region of its own that sends and receives. -/
def overlapFacts (q : PerftestParameters) (x : WqeCtx) (port : PortInfo) : Bool :=
  !q.dataValidation && decide (q.flows = DEF_FLOWS) && !q.macFwd && q.mrPerQp &&
    decide (q.numOfQps = 1) && decide (q.wqeXrcOffset = 0) && decide (q.udLine x = 0) &&
    (q.receivesRequests && decide (0 < q.recvSlots x) && decide (0 < q.recvLength x port)) &&
    (q.sendsRequests && decide (0 < q.sendSlots x) && decide (0 < q.sendLength x))

/-- In both directions at once, with a region for each QP, the receives stand on the sends. -/
theorem sendBw64_not_bufferMap : ∃ d, sendBw64 [.bidirectional, .mrPerQp] = .ok d ∧
    d.dataValidation = false ∧ d.flows = DEF_FLOWS ∧ ∃ x port, MapCtx d.startParams x port ∧
      ¬ BufferMap d.startParams x port := by
  obtain ⟨d, hd, hr⟩ := exists_of_toOption_any (x := sendBw64 [.bidirectional, .mrPerQp])
    (p := fun d => overlapFacts d.startParams (blocksCtx d.startParams) ⟨4096, false⟩)
    (by decide +kernel)
  simp only [overlapFacts, Bool.and_eq_true, Bool.not_eq_true', decide_eq_true_eq] at hr
  obtain ⟨⟨⟨⟨⟨⟨⟨⟨hv, hf⟩, hm⟩, hmr⟩, hq⟩, ho⟩, hline⟩, ⟨hrecv, hrslots⟩, hrlen⟩,
    ⟨hsend, hsslots⟩, hslen⟩ := hr
  have hx : MapCtx d.startParams (blocksCtx d.startParams) ⟨4096, false⟩ :=
    blocksCtx_mapCtx fun _ => hq
  refine ⟨d, hd, hv, hf, _, _, hx, fun h => ?_⟩
  have hend := h.sends_own (parser_mapQps hd hv hf) hx
    (fun hb => by rw [hm] at hb; cases hb.1) ⟨hrecv, hrslots, hrlen⟩ ⟨hsend, hsslots, hslen⟩ hmr ho
  unfold PerftestParameters.sendSpan at hend
  omega

end Perftest
