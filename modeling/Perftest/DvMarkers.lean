import Perftest.DvEffects

namespace Perftest

open CMachine CArray ByteMemory

section Effect

variable {c : DvConfig} {L : ValidationBufferLayout} {buf remBuf q k : Nat} {m : Mem × Mem}

theorem effect_patterns (hr : DvRegions c L) (hq : q < c.numOfQps) {l : Nat} {b : UInt8}
    (hl : l < 3)
    (h : Holds (sourceSide c m) (patternAddr c (sourceSide c (buf, remBuf)) l) c.payloadSize b) :
    Holds (sourceSide c ((expectedPost c L buf remBuf q k).effect c m))
      (patternAddr c (sourceSide c (buf, remBuf)) l) c.payloadSize b := by
  have hi := c.chunkId_lt (Nat.mod_lt k c.slots_pos)
  rw [← (transfer_expectedPost L buf remBuf m q k).2] at h
  by_cases hc : (k % c.slots + 1) % c.validationChunkSize = 0
  · rw [effect_expectedPost_last hc]
    exact fetchAndAdd_patterns hr hq hi hl h
  · rw [effect_expectedPost_inner hc]
    exact h

theorem effect_slot (hr : DvRegions c L) (hq : q < c.numOfQps)
    (h : ∀ l, l < 3 → Holds (sourceSide c m) (patternAddr c (sourceSide c (buf, remBuf)) l)
      c.payloadSize (validationCycleToPattern l)) :
    Holds (validatorSide c ((expectedPost c L buf remBuf q k).effect c m))
      (slotAddr c L (validatorSide c (buf, remBuf)) q (k % c.slots)) c.payloadSize
      (validationCycleToPattern (k / c.slots)) := by
  have hj := Nat.mod_lt k c.slots_pos
  have hp := h (k / c.slots % 3) (Nat.mod_lt _ (by norm_num))
  rw [validationCycleToPattern_congr (Nat.mod_mod _ 3)] at hp
  have ht := hp.copyRange (validatorSide c m)
    (slotAddr c L (validatorSide c (buf, remBuf)) q (k % c.slots))
  rw [← (transfer_expectedPost _ _ _ _ q k).1] at ht
  by_cases hc : (k % c.slots + 1) % c.validationChunkSize = 0
  · rw [effect_expectedPost_last hc]
    exact fetchAndAdd_slot hr hq (c.chunkId_lt hj) hq hj ht
  · rw [effect_expectedPost_inner hc]
    exact ht

theorem effect_slot_other (hr : DvRegions c L) (hq : q < c.numOfQps) {q' j' : Nat} {b : UInt8}
    (hq' : q' < c.numOfQps) (hj' : j' < c.slots) (hne : ¬ (q' = q ∧ j' = k % c.slots))
    (h : Holds (validatorSide c m) (slotAddr c L (validatorSide c (buf, remBuf)) q' j')
      c.payloadSize b) :
    Holds (validatorSide c ((expectedPost c L buf remBuf q k).effect c m))
      (slotAddr c L (validatorSide c (buf, remBuf)) q' j') c.payloadSize b := by
  have hj := Nat.mod_lt k c.slots_pos
  have ht := h.copyRange_other (sourceSide c m)
    (patternAddr c (sourceSide c (buf, remBuf)) (k / c.slots % 3))
    (slotAddr_disjoint L (validatorSide c (buf, remBuf)) hj hj' hne)
  rw [← (transfer_expectedPost _ _ _ _ q k).1] at ht
  by_cases hc : (k % c.slots + 1) % c.validationChunkSize = 0
  · rw [effect_expectedPost_last hc]
    exact fetchAndAdd_slot hr hq (c.chunkId_lt hj) hq' hj' ht
  · rw [effect_expectedPost_inner hc]
    exact ht

/-- The last operation of a chunk increments the chunk's marker. -/
theorem effect_word_same (hr : DvRegions c L) (hq : q < c.numOfQps) {i : Nat}
    (hi : i < c.validationChunksPerQp) (h : k % c.slots + 1 = (i + 1) * c.validationChunkSize) :
    let m' := (expectedPost c L buf remBuf q k).effect c m
    readWord m'.2 (markerAddr c L remBuf q i) =
        (readWord m.2 (markerAddr c L remBuf q i) + 1) % 2 ^ 64 ∧
      readWord (validatorSide c m') (wordAddr c L (validatorSide c (buf, remBuf)) q i) =
        (readWord m.2 (markerAddr c L remBuf q i) + if c.mode = .read then 0 else 1) %
          2 ^ 64 := by
  have hc := (c.chain_iff (Nat.mod_lt k c.slots_pos)).mpr ⟨i, hi, h⟩
  simp only [effect_expectedPost_last hc, c.chunk_of_end h]
  rw [fetchAndAdd_marker_same, fetchAndAdd_word_same, transfer_marker hr hq hq hi]
  exact ⟨rfl, rfl⟩

/-- No post changes the words of the chunks it does not complete. -/
theorem effect_word_other (hr : DvRegions c L) (hq : q < c.numOfQps) {q' i' : Nat}
    (hq' : q' < c.numOfQps) (hi' : i' < c.validationChunksPerQp)
    (hne : ¬ (q' = q ∧ k % c.slots + 1 = (i' + 1) * c.validationChunkSize)) :
    let m' := (expectedPost c L buf remBuf q k).effect c m
    readWord m'.2 (markerAddr c L remBuf q' i') = readWord m.2 (markerAddr c L remBuf q' i') ∧
      readWord (validatorSide c m') (wordAddr c L (validatorSide c (buf, remBuf)) q' i') =
        readWord (validatorSide c m) (wordAddr c L (validatorSide c (buf, remBuf)) q' i') := by
  have hj := Nat.mod_lt k c.slots_pos
  by_cases hc : (k % c.slots + 1) % c.validationChunkSize = 0
  · have hd : ¬ (q' = q ∧ i' = k % c.slots / c.validationChunkSize) := by
      rintro ⟨hqq, rfl⟩
      obtain ⟨i, hi, he⟩ := (c.chain_iff hj).mp hc
      exact hne ⟨hqq, by rw [c.chunk_of_end he]; exact he⟩
    simp only [effect_expectedPost_last hc]
    rw [fetchAndAdd_marker_other (c.chunkId_lt hj) hi' hd,
      fetchAndAdd_word_other (c.chunkId_lt hj) hi' hd, transfer_marker hr hq hq' hi',
      transfer_word hr hq hq' hi']
    exact ⟨rfl, rfl⟩
  · simp only [effect_expectedPost_inner hc]
    exact ⟨transfer_marker hr hq hq' hi', transfer_word hr hq hq' hi'⟩

end Effect

/-- How often the marker of chunk `i` has been incremented after `k` posts. -/
def markerFires (c : DvConfig) (i k : Nat) : Nat :=
  k / c.slots + if (i + 1) * c.validationChunkSize ≤ k % c.slots then 1 else 0

section Fires

variable {c : DvConfig} {i k : Nat}

theorem markerFires_last (h : k % c.slots + 1 = (i + 1) * c.validationChunkSize) :
    markerFires c i k = k / c.slots ∧ markerFires c i (k + 1) = k / c.slots + 1 := by
  unfold markerFires
  rw [← h]
  refine ⟨by rw [if_neg (by omega)]; rfl, ?_⟩
  rcases Cyclic.succ_cases (k := k) c.slots_pos with ⟨_, hr, hd⟩ | ⟨_, hr, hd⟩
  · rw [hr, hd, if_pos (by omega)]
  · rw [hr, hd, if_neg (by omega)]

theorem markerFires_other (hi : i < c.validationChunksPerQp)
    (h : k % c.slots + 1 ≠ (i + 1) * c.validationChunkSize) :
    markerFires c i (k + 1) = markerFires c i k := by
  have he := c.chunk_end_le hi
  have hp : 0 < (i + 1) * c.validationChunkSize := Nat.mul_pos (by omega) c.chunkSize_pos
  unfold markerFires
  rcases Cyclic.succ_cases (k := k) c.slots_pos with ⟨_, hr, hd⟩ | ⟨_, hr, hd⟩
  · rw [hr, hd]
    congr 1
    split <;> split <;> omega
  · rw [hr, hd, if_neg (by omega), if_pos (by omega)]

theorem markerFires_update {f : Nat → Nat} {q q' : Nat} (hi : i < c.validationChunksPerQp)
    (h : ¬ (q' = q ∧ f q % c.slots + 1 = (i + 1) * c.validationChunkSize)) :
    markerFires c i (Function.update f q (f q + 1) q') = markerFires c i (f q') := by
  rcases eq_or_ne q' q with rfl | hne
  · rw [Function.update_self, markerFires_other hi fun he => h ⟨rfl, he⟩]
  · rw [Function.update_of_ne hne]

theorem markerFires_le : markerFires c i k ≤ k := by
  have hk := Nat.div_add_mod k c.slots
  have hs := Nat.mul_le_mul_right (k / c.slots) c.slots_pos
  have hp : 0 < (i + 1) * c.validationChunkSize := Nat.mul_pos (by omega) c.chunkSize_pos
  unfold markerFires
  rw [Nat.one_mul] at hs
  split <;> omega

end Fires

section Initial

variable {c : DvConfig} {L : ValidationBufferLayout} {buf : Nat} {m : Mem}

theorem initializeBufferContent_pattern (hr : DvRegions c L) {l : Nat} (hl : l < 3) :
    Holds (initializeBufferContent c L buf m) (patternAddr c buf l) c.payloadSize
      (validationCycleToPattern l) := by
  have he := patternAddr_end buf hr hl
  have hfold : ∀ z, Holds ((List.range VALIDATION_PATTERNS_COUNT).foldl (fun m i =>
      fillRange m (buf + i * c.payloadSize) c.payloadSize (validationCycleToPattern i)) z)
      (patternAddr c buf l) c.payloadSize (validationCycleToPattern l) := by
    intro z
    simp only [VALIDATION_PATTERNS_COUNT, List.range_succ, List.range_zero, List.nil_append,
      List.cons_append, List.foldl_cons, List.foldl_nil, patternAddr]
    rcases (by omega : l = 0 ∨ l = 1 ∨ l = 2) with rfl | rfl | rfl
    · exact ((Holds.fillRange _ _ _ _).fillRange_other (by omega)).fillRange_other (by omega)
    · exact (Holds.fillRange _ _ _ _).fillRange_other (by omega)
    · exact Holds.fillRange _ _ _ _
  simp only [initializeBufferContent]
  split
  next => exact (hfold _).writeWords (Or.inl he)
  next => exact hfold _

/-- Behind the pattern buffers the content is zero, apart from the seeded markers. -/
theorem initializeBufferContent_zero (hr : DvRegions c L) {a n : Nat}
    (hl : buf + L.markersOffset ≤ a) (hu : a + n ≤ buf + L.totalSize)
    (hm : c.mode = .read → buf + L.recvSlotsOffset ≤ a) :
    Holds (initializeBufferContent c L buf m) a n 0 := by
  have hp := hr.patterns
  have hk := hr.markers
  have hz : Holds ((List.range VALIDATION_PATTERNS_COUNT).foldl (fun m i =>
      fillRange m (buf + i * c.payloadSize) c.payloadSize (validationCycleToPattern i))
      (fillRange m buf L.totalSize 0)) a n 0 := by
    simp only [VALIDATION_PATTERNS_COUNT, List.range_succ, List.range_zero, List.nil_append,
      List.cons_append, List.foldl_cons, List.foldl_nil]
    exact ((((Holds.fillRange m buf L.totalSize 0).sub (by omega) hu).fillRange_other
      (by omega)).fillRange_other (by omega)).fillRange_other (by omega)
  simp only [initializeBufferContent]
  split
  next h =>
    have := hm h
    exact hz.writeWords (Or.inr (by omega))
  next => exact hz

variable (buf m) in
theorem initializeBufferContent_word (hr : DvRegions c L) {q i : Nat} (hq : q < c.numOfQps)
    (hi : i < c.validationChunksPerQp) :
    readWord (initializeBufferContent c L buf m) (wordAddr c L buf q i) = 0 := by
  have hw := Cyclic.block_end_le (n := 8) (c.marker_lt hq hi)
  have h1 := hr.markers
  have h2 := hr.slots
  have hu := hr.total
  refine readWord_zero ?_
  cases hm : c.mode with
  | write =>
    simp only [wordAddr, hm, reduceCtorEq, if_false]
    exact initializeBufferContent_zero hr (by omega) (by omega) (by simp [hm])
  | read =>
    have h3 := hr.returns hm
    simp only [wordAddr, hm, if_true]
    exact initializeBufferContent_zero hr (by omega) (by omega) (fun _ => by omega)

/-- The markers start at one for READ and at zero for WRITE. -/
theorem initializeBufferContent_marker (hr : DvRegions c L) {q i : Nat} (hq : q < c.numOfQps)
    (hi : i < c.validationChunksPerQp) :
    readWord (initializeBufferContent c L buf m) (markerAddr c L buf q i) =
      if c.mode = .read then 1 else 0 := by
  cases hm : c.mode with
  | write =>
    have h := initializeBufferContent_word buf m hr hq hi
    simpa only [wordAddr, hm, reduceCtorEq, if_false, markerAddr] using h
  | read =>
    simp only [initializeBufferContent, hm, if_true, markerAddr]
    exact readWord_writeWords _ (c.marker_lt hq hi)

end Initial

end Perftest
