import Perftest.DvPosts

namespace Perftest

open CMachine CArray ByteMemory

variable {c : DvConfig} {L : ValidationBufferLayout} {buf remBuf q i j k : Nat} {m : Mem × Mem}

/-- The regions of a validation buffer, in their order. -/
structure DvRegions (c : DvConfig) (L : ValidationBufferLayout) : Prop where
  patterns : c.payloadSize * 3 ≤ L.markersOffset
  markers : L.markersOffset + c.numOfQps * c.validationChunksPerQp * 8 ≤ L.recvSlotsOffset
  slots : L.recvSlotsOffset + c.numOfQps * c.slots * c.payloadSize ≤ L.atomicReturnsOffset
  returns : c.mode = .read →
    L.atomicReturnsOffset + c.numOfQps * c.validationChunksPerQp * 8 = L.totalSize
  total : L.atomicReturnsOffset ≤ L.totalSize

theorem DvConfig.regions (h : c.layout = some L) : DvRegions c L := by
  obtain ⟨hp, hm, hs, hr⟩ := computeValidationLayout_regions h c.markers_lt
  exact ⟨hp, hm, hs, fun hm => by simpa [hm] using hr, by rw [← hr]; exact Nat.le_add_right _ _⟩

variable (buf) in
theorem patternAddr_end (hr : DvRegions c L) (hi : i < 3) :
    patternAddr c buf i + c.payloadSize ≤ buf + L.markersOffset := by
  have h := Cyclic.block_end_le (n := c.payloadSize) hi
  have := hr.patterns
  unfold patternAddr
  omega

variable (buf) in
theorem markerAddr_range (hr : DvRegions c L) (hq : q < c.numOfQps)
    (hi : i < c.validationChunksPerQp) :
    buf + L.markersOffset ≤ markerAddr c L buf q i ∧
      markerAddr c L buf q i + 8 ≤ buf + L.recvSlotsOffset := by
  have h := Cyclic.block_end_le (n := 8) (c.marker_lt hq hi)
  have := hr.markers
  unfold markerAddr
  omega

variable (buf) in
theorem slotAddr_range (hr : DvRegions c L) (hq : q < c.numOfQps) (hj : j < c.slots) :
    buf + L.recvSlotsOffset ≤ slotAddr c L buf q j ∧
      slotAddr c L buf q j + c.payloadSize ≤ buf + L.atomicReturnsOffset := by
  have hs := Cyclic.block_end_le (n := c.slots) hq
  have h := Cyclic.block_end_le (n := c.payloadSize)
    (show q * c.slots + j < c.numOfQps * c.slots by omega)
  have := hr.slots
  unfold slotAddr
  omega

variable (L buf) in
theorem slotAddr_disjoint {q' j' : Nat} (hj : j < c.slots) (hj' : j' < c.slots)
    (h : ¬ (q' = q ∧ j' = j)) :
    slotAddr c L buf q' j' + c.payloadSize ≤ slotAddr c L buf q j ∨
      slotAddr c L buf q j + c.payloadSize ≤ slotAddr c L buf q' j' := by
  have hne : q' * c.slots + j' ≠ q * c.slots + j := fun he => h (Cyclic.digits_eq hj' hj he)
  rcases Cyclic.block_disjoint (n := c.payloadSize) hne with hd | hd
  · left
    unfold slotAddr
    omega
  · right
    unfold slotAddr
    omega

theorem marker_index_ne {q' i' : Nat} (hi : i < c.validationChunksPerQp)
    (hi' : i' < c.validationChunksPerQp) (h : ¬ (q' = q ∧ i' = i)) :
    q' * c.validationChunksPerQp + i' ≠ q * c.validationChunksPerQp + i :=
  fun he => h (Cyclic.digits_eq hi' hi he)

variable (L buf remBuf m) in
/-- The data operation copies the pattern buffer of the cycle into the slot. -/
theorem transfer_expectedPost (q k : Nat) :
    let p := expectedPost c L buf remBuf q k
    validatorSide c (p.transfer c m) =
        copyRange (validatorSide c m) (slotAddr c L (validatorSide c (buf, remBuf)) q (k % c.slots))
          (sourceSide c m) (patternAddr c (sourceSide c (buf, remBuf)) (k / c.slots % 3))
          c.payloadSize ∧
      sourceSide c (p.transfer c m) = sourceSide c m := by
  cases hm : c.mode <;>
    simp [DvPost.transfer, expectedPost, validatorSide, sourceSide, hm]

/-- The fetch-and-add chained to the last operation of chunk `i`. -/
def chunkAtomic (c : DvConfig) (L : ValidationBufferLayout) (buf remBuf q i : Nat) : AtomicPost :=
  ⟨markerAddr c L remBuf q i, ⟨buf + L.atomicReturnsOffset +
    (if c.mode = .read then q * c.validationChunksPerQp + i else q) * 8, 8⟩⟩

theorem effect_expectedPost_inner (h : ¬ (k % c.slots + 1) % c.validationChunkSize = 0) :
    (expectedPost c L buf remBuf q k).effect c m =
      (expectedPost c L buf remBuf q k).transfer c m := by
  have hn : (expectedPost c L buf remBuf q k).next = none := if_neg h
  simp only [DvPost.effect, hn]

theorem effect_expectedPost_last (h : (k % c.slots + 1) % c.validationChunkSize = 0) :
    (expectedPost c L buf remBuf q k).effect c m =
      (chunkAtomic c L buf remBuf q (k % c.slots / c.validationChunkSize)).fetchAndAdd
        ((expectedPost c L buf remBuf q k).transfer c m) := by
  have hn : (expectedPost c L buf remBuf q k).next = some
      (chunkAtomic c L buf remBuf q (k % c.slots / c.validationChunkSize)) := if_pos h
  simp only [DvPost.effect, hn]

theorem fetchAndAdd_patterns (hr : DvRegions c L) (hq : q < c.numOfQps)
    (hi : i < c.validationChunksPerQp) {l : Nat} {b : UInt8} (hl : l < 3)
    (h : Holds (sourceSide c m) (patternAddr c (sourceSide c (buf, remBuf)) l) c.payloadSize b) :
    Holds (sourceSide c ((chunkAtomic c L buf remBuf q i).fetchAndAdd m))
      (patternAddr c (sourceSide c (buf, remBuf)) l) c.payloadSize b := by
  have hp := hr.markers
  have hs := hr.slots
  cases hm : c.mode with
  | write =>
    simp only [sourceSide, hm] at h ⊢
    have he := patternAddr_end buf hr hl
    exact h.writeWord (Or.inl (by simp only [chunkAtomic]; omega))
  | read =>
    simp only [sourceSide, hm] at h ⊢
    have he := patternAddr_end remBuf hr hl
    have ha := markerAddr_range remBuf hr hq hi
    exact h.writeWord (Or.inl (by simp only [chunkAtomic]; omega))

theorem fetchAndAdd_slot (hr : DvRegions c L) (hq : q < c.numOfQps)
    (hi : i < c.validationChunksPerQp) {q' : Nat} {b : UInt8} (hq' : q' < c.numOfQps)
    (hj : j < c.slots)
    (h : Holds (validatorSide c m) (slotAddr c L (validatorSide c (buf, remBuf)) q' j)
      c.payloadSize b) :
    Holds (validatorSide c ((chunkAtomic c L buf remBuf q i).fetchAndAdd m))
      (slotAddr c L (validatorSide c (buf, remBuf)) q' j) c.payloadSize b := by
  cases hm : c.mode with
  | write =>
    simp only [validatorSide, hm] at h ⊢
    have hs := slotAddr_range remBuf hr hq' hj
    have ha := markerAddr_range remBuf hr hq hi
    exact h.writeWord (Or.inr (by simp only [chunkAtomic]; omega))
  | read =>
    simp only [validatorSide, hm] at h ⊢
    have hs := slotAddr_range buf hr hq' hj
    exact h.writeWord (Or.inl (by simp only [chunkAtomic]; omega))

theorem fetchAndAdd_marker_same :
    readWord ((chunkAtomic c L buf remBuf q i).fetchAndAdd m).2 (markerAddr c L remBuf q i) =
      (readWord m.2 (markerAddr c L remBuf q i) + 1) % 2 ^ 64 :=
  readWord_writeWord_same _ _ _

theorem fetchAndAdd_marker_other {q' i' : Nat} (hi : i < c.validationChunksPerQp)
    (hi' : i' < c.validationChunksPerQp) (h : ¬ (q' = q ∧ i' = i)) :
    readWord ((chunkAtomic c L buf remBuf q i).fetchAndAdd m).2 (markerAddr c L remBuf q' i') =
      readWord m.2 (markerAddr c L remBuf q' i') := by
  have hne := marker_index_ne hi hi' h
  refine readWord_writeWord_other _ ?_
  simp only [chunkAtomic, markerAddr]
  omega

/-- The validator's word receives the incremented marker (WRITE) or its old value (READ). -/
theorem fetchAndAdd_word_same :
    readWord (validatorSide c ((chunkAtomic c L buf remBuf q i).fetchAndAdd m))
        (wordAddr c L (validatorSide c (buf, remBuf)) q i) =
      (readWord m.2 (markerAddr c L remBuf q i) + if c.mode = .read then 0 else 1) % 2 ^ 64 := by
  cases hm : c.mode with
  | write =>
    simp only [validatorSide, hm, wordAddr, reduceCtorEq, if_false]
    exact readWord_writeWord_same _ _ _
  | read =>
    have ha : (chunkAtomic c L buf remBuf q i).sge.addr = wordAddr c L buf q i := by
      simp only [chunkAtomic, wordAddr, hm, if_true]
    simp only [validatorSide, hm, if_true, Nat.add_zero]
    rw [AtomicPost.fetchAndAdd, ha]
    exact readWord_writeWord_same _ _ _

theorem fetchAndAdd_word_other {q' i' : Nat} (hi : i < c.validationChunksPerQp)
    (hi' : i' < c.validationChunksPerQp) (h : ¬ (q' = q ∧ i' = i)) :
    readWord (validatorSide c ((chunkAtomic c L buf remBuf q i).fetchAndAdd m))
        (wordAddr c L (validatorSide c (buf, remBuf)) q' i') =
      readWord (validatorSide c m) (wordAddr c L (validatorSide c (buf, remBuf)) q' i') := by
  have hne := marker_index_ne hi hi' h
  cases hm : c.mode with
  | write =>
    simp only [validatorSide, hm]
    refine readWord_writeWord_other _ ?_
    simp only [chunkAtomic, markerAddr, wordAddr, hm, reduceCtorEq, if_false]
    omega
  | read =>
    simp only [validatorSide, hm]
    refine readWord_writeWord_other _ ?_
    simp only [chunkAtomic, wordAddr, hm, if_true]
    omega

theorem transfer_marker (hr : DvRegions c L) (hq : q < c.numOfQps) {q' i' : Nat}
    (hq' : q' < c.numOfQps) (hi' : i' < c.validationChunksPerQp) :
    readWord ((expectedPost c L buf remBuf q k).transfer c m).2 (markerAddr c L remBuf q' i') =
      readWord m.2 (markerAddr c L remBuf q' i') := by
  have hs := slotAddr_range remBuf hr hq (Nat.mod_lt k c.slots_pos)
  have ha := markerAddr_range remBuf hr hq' hi'
  cases hm : c.mode with
  | write =>
    simp only [DvPost.transfer, hm, expectedPost, validatorSide]
    exact readWord_copyRange_other _ _ (by omega)
  | read => simp only [DvPost.transfer, hm]

theorem transfer_word (hr : DvRegions c L) (hq : q < c.numOfQps) {q' i' : Nat}
    (hq' : q' < c.numOfQps) (hi' : i' < c.validationChunksPerQp) :
    readWord (validatorSide c ((expectedPost c L buf remBuf q k).transfer c m))
        (wordAddr c L (validatorSide c (buf, remBuf)) q' i') =
      readWord (validatorSide c m) (wordAddr c L (validatorSide c (buf, remBuf)) q' i') := by
  rw [(transfer_expectedPost _ _ _ _ q k).1]
  refine readWord_copyRange_other _ _ ?_
  generalize validatorSide c (buf, remBuf) = b
  have hs := slotAddr_range b hr hq (Nat.mod_lt k c.slots_pos)
  cases hm : c.mode with
  | write =>
    have ha := markerAddr_range b hr hq' hi'
    simp only [wordAddr, hm, reduceCtorEq, if_false]
    simp only [markerAddr] at ha
    omega
  | read =>
    simp only [wordAddr, hm, if_true]
    omega

end Perftest
