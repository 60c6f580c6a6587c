import Perftest.BufferMap

namespace Perftest

open Cyclic Stride

namespace PerftestParameters

variable {q : PerftestParameters} {x : WqeCtx} {i j n : Nat}

section Layout

theorem buffSize_le_qpSpace (hc : 0 < x.cacheLineSize) : x.buffSize ≤ x.qpSpace :=
  le_incSize hc

theorem bufferSize_le_buffSize : x.bufferSize ≤ x.buffSize := by
  unfold WqeCtx.buffSize
  split <;> omega

theorem cycleBuffer_le_buffSize : x.cycleBuffer ≤ x.buffSize := by
  unfold WqeCtx.buffSize
  split <;> omega

theorem numOfQpsFactor_pos (hq : 1 ≤ q.numOfQps) : 0 < q.numOfQpsFactor := by
  unfold numOfQpsFactor
  split <;> omega

theorem halvesSize_eq (hf : q.flows = 1) : q.halvesSize x = 2 * (q.numOfQpsFactor * x.qpSpace) := by
  rw [halvesSize, hf, Int.toNat_one, Nat.mul_one]
  ring

theorem sendQpBuffSize_eq (hf : q.flows = 1) (hq : 1 ≤ q.numOfQps) :
    q.sendQpBuffSize x = x.qpSpace := by
  rw [sendQpBuffSize, halvesSize_eq hf, Nat.mul_left_comm,
    Nat.mul_div_cancel_left _ (numOfQpsFactor_pos hq), Nat.mul_div_cancel_left _ Nat.two_pos]

/-- The places up to the `n`-th one, if the ring has as many. -/
theorem span_le (hn : n ≤ x.slots) (hpos : 0 < n) : (n - 1) * x.inc + x.inc ≤ x.cycleBuffer := by
  have hblock : (n - 1) * x.inc + x.inc ≤ x.slots * x.inc := block_end_le (by omega)
  exact hblock.trans (Nat.div_mul_le_self _ _)

theorem sendLength_le : q.sendLength x ≤ x.size := by
  unfold sendLength
  refine (Nat.mod_le _ _).trans ?_
  split <;> omega

theorem sendSpan_le (hc : 0 < x.cacheLineSize) (hs : x.size ≤ x.bufferSize) :
    q.sendSpan x ≤ x.buffSize := by
  have hlen : q.sendLength x ≤ x.size := sendLength_le
  have hinc : x.size ≤ x.inc := le_incSize hc
  have hbuf := @bufferSize_le_buffSize x
  have hcycle := @cycleBuffer_le_buffSize x
  unfold sendSpan
  by_cases hone : q.sendSlots x ≤ 1
  · rw [show q.sendSlots x - 1 = 0 by omega, Nat.zero_mul]
    omega
  · have hslots : q.sendSlots x ≤ x.slots := by
      unfold sendSlots at hone ⊢
      split
      next hs =>
        split
        next => exact le_refl _
        next => exact min_le_right _ _
      next hs =>
        rw [if_neg hs] at hone
        omega
    have := span_le hslots (by omega)
    omega

/-- The last receive starts inside the ring. -/
theorem recvPlaces_le (hpos : 0 < q.recvSlots x) :
    (q.recvSlots x - 1) * x.inc ≤ x.buffSize := by
  have hcycle := @cycleBuffer_le_buffSize x
  by_cases hone : q.recvSlots x ≤ 1
  · rw [show q.recvSlots x - 1 = 0 by omega, Nat.zero_mul]
    exact Nat.zero_le _
  · have hslots : q.recvSlots x ≤ x.slots := by
      unfold recvSlots at hone ⊢
      split
      next => exact le_refl _
      next hs =>
        rw [if_neg hs] at hone
        unfold recvListSlots at hone ⊢
        split
        next => exact Nat.zero_le _
        next hz =>
          rw [if_neg hz] at hone
          split
          next =>
            split <;> exact min_le_right _ _
          next hr =>
            rw [if_neg hr] at hone
            omega
    have := span_le hslots hpos
    omega

end Layout

section Regions

variable {port : PortInfo} {alloc : Nat → Nat}

theorem ctxBuffSize_eq (hq : MapQps q) :
    q.ctxBuffSize x = 2 * (q.numOfQpsFactor * x.qpSpace) + q.udLine x := by
  rw [ctxBuffSize, halvesSize_eq hq.flows]

theorem region_shared (hq : MapQps q) (hb : x.buf = q.createMr x alloc) (hm : q.mrPerQp = false) :
    q.region x i =
      Set.Ico (alloc 0) (alloc 0 + (2 * (q.numOfQps * x.qpSpace) + q.udLine x)) := by
  have hbuf : x.buf 0 = alloc 0 := by
    rw [hb, createMr, hm, if_neg Bool.false_ne_true, Nat.zero_mul, Nat.add_zero]
  rw [region, ctxBuffSize_eq hq, numOfQpsFactor, hm, if_neg Bool.false_ne_true,
    if_neg Bool.false_ne_true, hbuf]

theorem region_own (hq : MapQps q) (hb : x.buf = q.createMr x alloc) (hm : q.mrPerQp = true) :
    q.region x i = Set.Ico (alloc i) (alloc i + (2 * x.qpSpace + q.udLine x)) := by
  rw [region, ctxBuffSize_eq hq, numOfQpsFactor, hm, if_pos rfl, if_pos rfl, Nat.one_mul, hb,
    createMr, hm, if_pos rfl]

theorem buf_shared (hb : x.buf = q.createMr x alloc) (hm : q.mrPerQp = false) :
    x.buf i = alloc 0 + i * x.buffSize := by
  rw [hb, createMr, hm, if_neg Bool.false_ne_true]

theorem buf_own (hb : x.buf = q.createMr x alloc) (hm : q.mrPerQp = true) : x.buf i = alloc i := by
  rw [hb, createMr, hm, if_pos rfl]

theorem recvBase_shared (hq : MapQps q) (hb : x.buf = q.createMr x alloc)
    (hm : q.mrPerQp = false) : q.recvBase x i =
      alloc 0 + (q.wqeQps + (i - q.wqeXrcOffset)) * x.qpSpace + q.udLine x - q.udHeader := by
  have hN : 1 ≤ q.numOfQps := hq.qps_pos.trans (by have := hq.qps; omega)
  rw [recvBase, hm, if_neg Bool.false_ne_true, sendQpBuffSize_eq hq.flows hN, buf_shared hb hm,
    Nat.zero_mul, Nat.add_zero]

theorem recvBase_own (hb : x.buf = q.createMr x alloc) (hm : q.mrPerQp = true) :
    q.recvBase x i = alloc i + q.udLine x - q.udHeader := by
  rw [recvBase, hm, if_pos rfl, buf_own hb hm]

theorem published_shared (hq : MapQps q) (hb : x.buf = q.createMr x alloc)
    (hm : q.mrPerQp = false) : q.published x i = alloc 0 + (q.numOfQps + i) * x.buffSize := by
  rw [published, setUpConnectionVaddr, hm, if_neg Bool.false_ne_true, hq.dataValidation,
    if_neg Bool.false_ne_true, buf_shared hb hm, Nat.zero_mul, Nat.add_zero]

theorem published_own (hb : x.buf = q.createMr x alloc) (hm : q.mrPerQp = true) :
    q.published x i = alloc i + x.buffSize := by
  rw [published, setUpConnectionVaddr, hm, if_pos rfl, buf_own hb hm]

/-- What is sent for a QP stands in the first `BUFF_SIZE` bytes of its buffer. -/
theorem sendBytes_subset (hx : MapCtx q x port)
    (hn : q.listedTest = true → x.size ≤ x.cycleBuffer / 2 → 1 ≤ x.slots)
    (hm : ¬ (q.macFwd = true ∧ q.mrPerQp = true)) :
    q.sendBytes x j ⊆ Set.Ico (x.buf j) (x.buf j + x.buffSize) := by
  rw [sendBytes_eq hn hm]
  have hspan : q.sendSpan x ≤ x.buffSize := sendSpan_le hx.line_pos hx.size_le
  refine cells_subset_Ico.trans (Set.Ico_subset_Ico_right ?_)
  unfold stop
  unfold sendSpan at hspan
  omega

theorem recvBytes_subset
    (hn : q.listedTest = true → x.size ≤ x.cycleBuffer / 2 → 1 ≤ x.slots) :
    q.recvBytes x port i ⊆ Set.Ico (q.recvBase x i) (q.recvBase x i + q.recvSpan x port) := by
  rw [recvBytes_eq hn]
  refine cells_subset_Ico.trans (Set.Ico_subset_Ico_right ?_)
  unfold stop recvSpan
  omega

end Regions

section Places

variable {port : PortInfo} {alloc : Nat → Nat}

/-- The products that the places in one region are compared by. -/
theorem shared_places (hx : MapCtx q x port) (hi : i < q.numOfQps) :
    x.buffSize ≤ x.qpSpace ∧ i * x.buffSize + x.buffSize ≤ q.numOfQps * x.buffSize ∧
      q.numOfQps * x.buffSize ≤ q.numOfQps * x.qpSpace := by
  have hle : x.buffSize ≤ x.qpSpace := buffSize_le_qpSpace hx.line_pos
  exact ⟨hle, block_end_le hi, Nat.mul_le_mul_left _ hle⟩

theorem region_disjoint (hq : MapQps q) (hb : x.buf = q.createMr x alloc) (hm : q.mrPerQp = true)
    (ha : alloc i + q.ctxBuffSize x ≤ alloc j ∨ alloc j + q.ctxBuffSize x ≤ alloc i) :
    Disjoint (q.region x i) (q.region x j) := by
  rw [region_own hq hb hm, region_own hq hb hm]
  rw [ctxBuffSize_eq hq, numOfQpsFactor, hm, if_pos rfl, Nat.one_mul] at ha
  refine Set.Ico_disjoint_Ico.mpr ?_
  omega

/-- The first `BUFF_SIZE` bytes behind the start of a buffer. -/
theorem buf_subset_region (hq : MapQps q) (hx : MapCtx q x port) (hi : i < q.numOfQps) :
    Set.Ico (x.buf i) (x.buf i + x.buffSize) ⊆ q.region x i := by
  obtain ⟨alloc, hb, -⟩ := hx.buf
  obtain ⟨hle, hblock, htotal⟩ := shared_places hx hi
  cases hm : q.mrPerQp with
  | false =>
    rw [buf_shared hb hm, region_shared hq hb hm]
    exact Set.Ico_subset_Ico (by omega) (by omega)
  | true =>
    rw [buf_own hb hm, region_own hq hb hm]
    exact Set.Ico_subset_Ico (by omega) (by omega)

theorem published_subset_region (hq : MapQps q) (hx : MapCtx q x port) (hi : i < q.numOfQps) :
    Set.Ico (q.published x i) (q.published x i + x.buffSize) ⊆ q.region x i := by
  obtain ⟨alloc, hb, -⟩ := hx.buf
  obtain ⟨hle, hblock, htotal⟩ := shared_places hx hi
  cases hm : q.mrPerQp with
  | false =>
    rw [published_shared hq hb hm, region_shared hq hb hm, Nat.add_mul]
    exact Set.Ico_subset_Ico (by omega) (by omega)
  | true =>
    rw [published_own hb hm, region_own hq hb hm]
    exact Set.Ico_subset_Ico (by omega) (by omega)

/-- Two regions of their own are kept apart. -/
theorem disjoint_of_subset_region {s t : Set Nat} (hq : MapQps q) (hx : MapCtx q x port)
    (hm : q.mrPerQp = true) (hi : i < q.numOfQps) (hj : j < q.numOfQps) (hij : i ≠ j)
    (hs : s ⊆ q.region x i) (ht : t ⊆ q.region x j) : Disjoint s t := by
  obtain ⟨alloc, hb, -, hapart⟩ := hx.buf
  exact (region_disjoint hq hb hm (hapart hm i hi j hj hij)).mono hs ht

theorem published_disjoint_buf (hq : MapQps q) (hx : MapCtx q x port) (hi : i < q.numOfQps)
    (hj : j < q.numOfQps) :
    Disjoint (Set.Ico (q.published x i) (q.published x i + x.buffSize))
      (Set.Ico (x.buf j) (x.buf j + x.buffSize)) := by
  obtain ⟨alloc, hb, -⟩ := hx.buf
  cases hm : q.mrPerQp with
  | false =>
    obtain ⟨-, hblock, -⟩ := shared_places hx hj
    rw [published_shared hq hb hm, buf_shared hb hm, Nat.add_mul]
    refine Set.Ico_disjoint_Ico.mpr ?_
    omega
  | true =>
    by_cases hij : i = j
    · subst hij
      rw [published_own hb hm, buf_own hb hm]
      refine Set.Ico_disjoint_Ico.mpr ?_
      omega
    · exact disjoint_of_subset_region hq hx hm hi hj hij (published_subset_region hq hx hi)
        (buf_subset_region hq hx hj)

theorem published_disjoint (hq : MapQps q) (hx : MapCtx q x port) (hj : j < q.numOfQps)
    (hij : i < j) :
    Disjoint (Set.Ico (q.published x i) (q.published x i + x.buffSize))
      (Set.Ico (q.published x j) (q.published x j + x.buffSize)) := by
  have hi : i < q.numOfQps := hij.trans hj
  obtain ⟨alloc, hb, -⟩ := hx.buf
  cases hm : q.mrPerQp with
  | false =>
    have hblock : i * x.buffSize + x.buffSize ≤ j * x.buffSize := block_end_le hij
    rw [published_shared hq hb hm, published_shared hq hb hm, Nat.add_mul, Nat.add_mul]
    refine Set.Ico_disjoint_Ico.mpr ?_
    omega
  | true =>
    exact disjoint_of_subset_region hq hx hm hi hj hij.ne (published_subset_region hq hx hi)
      (published_subset_region hq hx hj)

end Places

end PerftestParameters

open PerftestParameters in
theorem Requests.accessBytes_subset {q q' : PerftestParameters} {x x' : WqeCtx} {port : PortInfo}
    {i : Nat}
    (h : Requests q' x' q x) (hx : MapCtx q x port) (hi : i < q'.wqeQps) :
    q'.accessBytes x' i ⊆ Set.Ico (q.published x (q'.wqeXrcOffset + i))
      (q.published x (q'.wqeXrcOffset + i) + x.buffSize) := by
  have hqps := h.qps
  have hline : 0 < x'.cacheLineSize := by
    rw [h.cacheLineSize]
    exact hx.line_pos
  have hsteps : q'.stepsAddr x' → 1 ≤ x'.slots := fun hs =>
    (Nat.one_le_div_iff (Nat.lt_of_lt_of_le (by rw [h.size]; exact hx.size_pos)
      (le_incSize hline))).mpr (h.steps hs)
  have hsub := @PerftestParameters.accessBytes_subset q' x' i hline hsteps x.buffSize
    (by rw [h.size]; exact hx.size_le.trans bufferSize_le_buffSize)
    (by rw [h.cycleBuffer]; exact cycleBuffer_le_buffSize)
  rwa [remAddr, h.vaddr _ (by omega)] at hsub

end Perftest
