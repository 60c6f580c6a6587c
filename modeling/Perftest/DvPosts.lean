import Perftest.DvRun

namespace Perftest

open CMachine CArray ByteMemory

variable {c : DvConfig} {L : ValidationBufferLayout} {x : DvSendCtx} {buf remBuf cores q k : Nat}

theorem DvConfig.chunk_end_le {i : Nat} (hi : i < c.validationChunksPerQp) :
    (i + 1) * c.validationChunkSize ≤ c.slots := by
  rw [DvConfig.slots, Nat.mul_comm c.validationChunkSize]
  exact Nat.mul_le_mul_right _ hi

theorem DvConfig.chunk_of_end {i j : Nat} (h : j + 1 = (i + 1) * c.validationChunkSize) :
    j / c.validationChunkSize = i := by
  have hp := c.chunkSize_pos
  rw [Nat.succ_mul] at h
  exact Nat.div_eq_of_lt_le (by omega) (by rw [Nat.succ_mul]; omega)

/-- The lookup table chains the atomic exactly at the chunk ends. -/
theorem DvConfig.chain_iff {j : Nat} (hj : j < c.slots) :
    (j + 1) % c.validationChunkSize = 0 ↔
      ∃ i, i < c.validationChunksPerQp ∧ j + 1 = (i + 1) * c.validationChunkSize := by
  constructor
  · intro h
    obtain ⟨d, hd⟩ := Nat.dvd_of_mod_eq_zero h
    cases d with
    | zero => simp at hd
    | succ i =>
      refine ⟨i, ?_, by rw [hd, Nat.mul_comm]⟩
      by_contra hi
      have := Nat.mul_le_mul_left c.validationChunkSize (show c.validationChunksPerQp + 1 ≤ i + 1
        by omega)
      rw [Nat.mul_succ, ← DvConfig.slots] at this
      have := c.chunkSize_pos
      omega
  · rintro ⟨i, -, h⟩
    rw [h]
    exact Nat.mul_mod_left _ _

theorem DvConfig.chunkId_lt {j : Nat} (hj : j < c.slots) :
    j / c.validationChunkSize < c.validationChunksPerQp := by
  rw [Nat.div_lt_iff_lt_mul c.chunkSize_pos, Nat.mul_comm]
  exact hj

/-- The post expected as the `k`-th of QP `q`. -/
def expectedPost (c : DvConfig) (L : ValidationBufferLayout) (buf remBuf q k : Nat) : DvPost :=
  let j := k % c.slots
  let i := j / c.validationChunkSize
  let slot := slotAddr c L (validatorSide c (buf, remBuf)) q j
  let pattern := patternAddr c (sourceSide c (buf, remBuf)) (k / c.slots % 3)
  { sge := ⟨match c.mode with | .write => pattern | .read => slot, c.payloadSize⟩
    remoteAddr := match c.mode with | .write => slot | .read => pattern
    next :=
      if (j + 1) % c.validationChunkSize = 0 then
        some ⟨markerAddr c L remBuf q i, ⟨buf + L.atomicReturnsOffset +
          (if c.mode = .read then q * c.validationChunksPerQp + i else q) * 8, 8⟩⟩
      else none }

theorem expectedPost_ok (q k : Nat) :
    KthPostOk c L buf remBuf q k (expectedPost c L buf remBuf q k) := by
  have hj := Nat.mod_lt k c.slots_pos
  have hc := c.chain_iff hj
  refine ⟨rfl, fun h => ?_, fun h => ?_, fun i hi => ?_, fun a ha => ?_⟩
  · simp [expectedPost, h, validatorSide, sourceSide]
  · simp [expectedPost, h, validatorSide, sourceSide]
  · have hp := c.chunkSize_pos
    have he := Nat.mul_le_mul_right c.validationChunkSize (show 1 ≤ i + 1 by omega)
    rw [Nat.one_mul] at he
    have hsub : k % c.slots = (i + 1) * c.validationChunkSize - 1 ↔
        k % c.slots + 1 = (i + 1) * c.validationChunkSize := by omega
    rw [hsub]
    constructor
    · rintro ⟨a, ha, hr⟩
      simp only [expectedPost] at ha
      split at ha
      next h =>
        cases ha
        obtain ⟨i', hi', he'⟩ := hc.mp h
        have hd := c.chunk_of_end he'
        simp only [markerAddr, hd] at hr
        have hii : i' = i := by omega
        rw [← hii]
        exact he'
      next => cases ha
    · intro h
      refine ⟨_, if_pos (hc.mpr ⟨i, hi, h⟩), ?_⟩
      simp only [c.chunk_of_end h]
  · simp only [expectedPost] at ha
    split at ha
    next =>
      cases ha
      exact ⟨_, c.chunkId_lt hj, rfl⟩
    next => cases ha

/-- The SGE table of the initiator points to the pattern buffers (WRITE) or slots (READ). -/
def SgesOk (c : DvConfig) (L : ValidationBufferLayout) (buf : Nat) (t : Table Sge) : Prop :=
  match c.mode with
  | .write => ∀ i, i < 3 → t.get (i : Nat) = some ⟨patternAddr c buf i, c.payloadSize⟩
  | .read => ∀ q j, q < c.numOfQps → j < c.slots →
      t.get (q * c.slots + j : Nat) = some ⟨slotAddr c L buf q j, c.payloadSize⟩

variable (L buf) in
theorem ctxSetSendWqesDataValSges_ok (hf : DvPostsFit c) :
    ∃ t, ctxSetSendWqesDataValSges c L buf = some t ∧ SgesOk c L buf t := by
  have hp : u32 c.payloadSize = c.payloadSize := u32_of_lt (by have := c.payloadSize_lt; omega)
  have hs := c.slotsPerQp_eq hf.1
  cases hm : c.mode with
  | write =>
    refine ⟨Table.ofFn 3 fun i => ⟨buf + i * c.payloadSize, u32 c.payloadSize⟩,
      by simp only [ctxSetSendWqesDataValSges, hm], ?_⟩
    simp only [SgesOk, hm]
    intro i hi
    rw [Table.ofFn_get _ hi, hp, patternAddr]
  | read =>
    have hn : c.numOfQps * c.slotsPerQp ≤ 2 ^ 31 := by
      rw [hs]
      exact hf.2 hm
    obtain ⟨t, ht, hg⟩ := ctxSetSendWqesDataValSges_read L buf hm
      (by rw [hs]; exact hf.1) hn
    refine ⟨t, ht, ?_⟩
    simp only [SgesOk, hm]
    intro q j hq hj
    rw [hs] at hg
    exact hg q j hq hj

variable (L buf remBuf) in
theorem dvSendCtx_ok (hf : DvPostsFit c) :
    ∃ x, dvSendCtx c L buf remBuf = some x ∧ SgesOk c L buf x.sgeList := by
  obtain ⟨t, ht, ho⟩ := ctxSetSendWqesDataValSges_ok L buf hf
  exact ⟨_, by rw [dvSendCtx, ht]; rfl, ho⟩

theorem dvSendCtx_eq_some (h : dvSendCtx c L buf remBuf = some x) :
    ctxSetSendWqesDataValSges c L buf = some x.sgeList ∧
      x.atomicSgeList = ctxSetSendWqesDataValAtomicSges c L buf ∧
      (∀ i, x.remAddr i = match c.mode with
        | .write => remBuf + L.recvSlotsOffset + i * (c.slotsPerQp * c.payloadSize)
        | .read => remBuf) ∧
      x.atomicBaseAddr = remBuf + L.markersOffset := by
  obtain ⟨t, ht, h⟩ := Option.bind_eq_some_iff.mp h
  cases h
  refine ⟨ht, rfl, fun i => ?_, rfl⟩
  cases hm : c.mode with
  | write => simp [setUpConnectionVaddr, DvConfig.slotsPerQp, DvConfig.slots, Nat.mul_comm]
  | read => simp [setUpConnectionVaddr]

theorem tailIdx_eq {j : Nat} (hq : q < c.numOfQps) (hj : j < c.slots) :
    u32 (u32 (q * c.validationChunksPerQp) + j / c.validationChunkSize) =
      q * c.validationChunksPerQp + j / c.validationChunkSize := by
  have hm := c.markers_lt
  have hl := c.marker_lt hq (c.chunkId_lt hj)
  generalize j / c.validationChunkSize = i at hl ⊢
  rw [u32_of_lt (n := q * c.validationChunksPerQp) (by omega), u32_of_lt (by omega)]

variable (L buf) in
theorem atomicSge_get {j : Nat} (hq : q < c.numOfQps) (hj : j < c.slots) :
    (ctxSetSendWqesDataValAtomicSges c L buf).get
        (if c.mode = .read then
          ((q * c.validationChunksPerQp + j / c.validationChunkSize : Nat) : Int) else (q : Nat)) =
      some ⟨buf + L.atomicReturnsOffset + (if c.mode = .read then
        q * c.validationChunksPerQp + j / c.validationChunkSize else q) * 8, 8⟩ := by
  cases hm : c.mode with
  | write =>
    simp only [ctxSetSendWqesDataValAtomicSges, hm, reduceCtorEq, if_false]
    exact Table.ofFn_get _ hq
  | read =>
    simp only [ctxSetSendWqesDataValAtomicSges, hm, if_true]
    exact Table.ofFn_get _ (c.marker_lt hq (c.chunkId_lt hj))

/-- The loop body builds the expected post. -/
theorem buildPost_eq (hf : DvPostsFit c) (hx : dvSendCtx c L buf remBuf = some x)
    (ho : SgesOk c L buf x.sgeList) (hq : q < c.numOfQps) :
    buildPost c x q (DvCursor.load c (k % c.slots : Nat) (k / c.slots % 3 : Nat)) =
      some (expectedPost c L buf remBuf q k) := by
  have hj := Nat.mod_lt k c.slots_pos
  have hi : k / c.slots % 3 < 3 := Nat.mod_lt _ (by norm_num)
  have hs := c.slotsPerQp_eq hf.1
  obtain ⟨-, hat, hra, hab⟩ := dvSendCtx_eq_some hx
  have hlut := c.dvLut_get (s := k % c.slots) (by rw [hs]; exact hj)
  have hsge := atomicSge_get L buf hq hj
  have htail := tailIdx_eq hq hj
  have hslot : ∀ b, b + L.recvSlotsOffset + q * (c.slots * c.payloadSize) +
      k % c.slots * c.payloadSize = slotAddr c L b q (k % c.slots) := by
    intro b
    rw [slotAddr]
    ring
  cases hm : c.mode with
  | write =>
    have hd : x.sgeList.get ((k / c.slots % 3 : Nat) : Int) =
        some ⟨patternAddr c buf (k / c.slots % 3), c.payloadSize⟩ := by
      simp only [SgesOk, hm] at ho
      exact ho _ hi
    simp only [hm, reduceCtorEq, if_false] at hsge hra
    simp only [buildPost, dataWr, DvCursor.load, hlut, hd, hm, hat, hra, hab, htail, hs, hsge, hslot,
      Option.bind_eq_bind, Option.bind_some, Option.pure_def, decide_eq_true_eq, reduceCtorEq,
      if_false, expectedPost, validatorSide, sourceSide, markerAddr]
    split <;> rfl
  | read =>
    have hlt := readSge_index_lt (c := c) (k % c.slots) hq (by rw [hs]; exact hj)
    have hn := hf.2 hm
    rw [hs] at hlt
    have hidx : checkInt (asInt (u32 (q * c.slots)) + (k % c.slots : Nat)) =
        some (q * c.slots + k % c.slots : Nat) := by
      rw [u32_of_lt (by omega), asInt_of_lt (by omega), checkInt_of_range (by omega) (by omega)]
      simp
    have hd : x.sgeList.get ((q * c.slots + k % c.slots : Nat) : Int) =
        some ⟨slotAddr c L buf q (k % c.slots), c.payloadSize⟩ := by
      simp only [SgesOk, hm] at ho
      exact ho _ _ hq hj
    simp only [hm, if_true] at hsge hra
    simp only [buildPost, dataWr, DvCursor.load, hlut, hd, hm, hat, hra, hab, htail, hs, hsge, hidx,
      Option.bind_eq_bind, Option.bind_some, Option.pure_def, decide_eq_true_eq, if_true,
      expectedPost, validatorSide, sourceSide, markerAddr, patternAddr, Int.toNat_natCast]
    split <;> rfl

theorem kthPost_eq (hf : DvPostsFit c) (hx : dvSendCtx c L buf remBuf = some x)
    (ho : SgesOk c L buf x.sgeList) (hq : q < c.numOfQps) (k : Nat) :
    kthPost c x q k = some (expectedPost c L buf remBuf q k) := by
  rw [kthPost, cursorAt_eq hf.1, Option.bind_some]
  exact buildPost_eq hf hx ho hq

theorem scanEntry_index_lt {i : Nat} (hf : DvIndicesFit c) (hq : q < c.numOfQps)
    (hi : i < c.validationChunksPerQp) :
    q * c.slots + i * c.validationChunkSize < 2 ^ 32 := by
  have he := c.chunk_end_le hi
  have hb := Cyclic.block_end_le (n := c.slots) hq
  have hp := c.chunkSize_pos
  rw [Nat.succ_mul] at he
  cases hm : c.mode with
  | write =>
    have hn := hf.2.1 hm
    omega
  | read =>
    have hn := hf.2.2 hm
    omega

theorem entriesOk (hf : DvIndicesFit c) (vbuf cores : Nat) : EntriesOk c L vbuf cores := by
  have hs := c.slotsPerQp_eq hf.1
  have hdiv : ∀ q i, i < c.validationChunksPerQp →
      (q * c.validationChunksPerQp + i) / c.validationChunksPerQp = q ∧
      (q * c.validationChunksPerQp + i) % c.validationChunksPerQp = i := by
    intro q i hi
    rw [Nat.mul_comm, Nat.mul_add_div c.chunks_pos, Nat.mul_add_mod, Nat.div_eq_of_lt hi,
      Nat.mod_eq_of_lt hi]
    exact ⟨by omega, rfl⟩
  refine ⟨fun q i hq hi => ?_, fun en hen => ?_⟩
  · exact ⟨_, mem_validatorEntries.mpr ⟨q, i, hq, hi, rfl⟩, (hdiv q i hi).1, (hdiv q i hi).2⟩
  · obtain ⟨q, i, hq, hi, rfl⟩ := mem_validatorEntries.mp hen
    have hidx := scanEntry_index_lt hf hq hi
    rw [DvConfig.slotsPerQp, DvConfig.slots] at hs
    simp only [scanEntry, (hdiv q i hi).1, (hdiv q i hi).2, hs]
    refine ⟨hq, hi, trivial, ?_, ?_⟩
    · simp only [wordAddr, Nat.add_assoc]
    · rw [DvConfig.slots] at hidx
      rw [u32_of_lt hidx]
      rfl

end Perftest
