import Perftest.HostDetection

namespace Perftest

open CMachine ByteMemory

variable {payloadSize ops n t v : Nat} {expected : UInt8} {mem : Mem} {st : ValidatorState}
  {entry : MarkerScanEntry}

/-- The reads of a chunk to which nothing is written any more. -/
def quiescentReader (mem : Mem) (chunkData : Nat) : ChunkReader := fun _ a => mem (chunkData + a)

/-- Offset of the first byte of a chunk that is not the expected one. -/
def FirstDifference (mem : Mem) (chunkData n : Nat) (expected : UInt8) (m : Nat) : Prop :=
  m < n ∧ mem (chunkData + m) ≠ expected ∧ ∀ a, a < m → mem (chunkData + a) = expected

/-- The byte at offset `m` is some pattern and the four bytes behind it, still in the chunk, are the
same. -/
def LooksOverwritten (mem : Mem) (chunkData n m : Nat) : Prop :=
  m + 4 < n ∧ validationIsPattern (mem (chunkData + m)) = true ∧
    ∀ i : Fin 4, mem (chunkData + (m + 1 + i)) = mem (chunkData + m)

theorem firstMismatch_quiescent {d off k m : Nat} :
    FirstMismatch (quiescentReader mem d) expected off k t m ↔
      off ≤ m ∧ m < off + k ∧ mem (d + m) ≠ expected ∧
        ∀ a, off ≤ a → a < m → mem (d + a) = expected := Iff.rfl

theorem exists_firstDifference {d a : Nat} (ha : a < n) (hd : mem (d + a) ≠ expected) :
    ∃ m, FirstDifference mem d n expected m := by
  induction a using Nat.strong_induction_on with
  | _ a ih =>
    by_cases h : ∃ b, b < a ∧ mem (d + b) ≠ expected
    · obtain ⟨b, hb, hne⟩ := h
      exact ih b hb (by omega) hne
    · refine ⟨a, ha, hd, fun b hb => ?_⟩
      by_contra hne
      exact h ⟨b, hb, hne⟩

/-- In a quiescent chunk the tail retry changes nothing, so the epoch guard alone decides. -/
theorem realMismatch_quiescent {d m : Nat} (hm : FirstDifference mem d n expected m) :
    RealMismatch payloadSize n expected (quiescentReader mem d) t ↔
      ¬ LooksOverwritten mem d n m := by
  have hf : FirstMismatch (quiescentReader mem d) expected 0 n t m := by
    rw [firstMismatch_quiescent]
    exact ⟨by omega, by have := hm.1; omega, hm.2.1, fun a _ ha => hm.2.2 a ha⟩
  have hg : ∀ ts, EpochGuard (quiescentReader mem d) expected n ts m ↔
      LooksOverwritten mem d n m := by
    intro ts
    constructor
    · rintro ⟨h1, -, h3, h4⟩
      exact ⟨h1, h3, fun i => (h4 i).symm⟩
    · rintro ⟨h1, h3, h4⟩
      exact ⟨h1, hm.2.1, h3, fun i => (h4 i).symm⟩
  rw [realMismatch_iff hf]
  split
  · constructor
    · rintro ⟨m', hm', h⟩
      obtain ⟨h1, h2, h3, h4⟩ := firstMismatch_quiescent.mp hm'
      have he : m' = m := by
        by_contra hne
        exact hm.2.1 (h4 m (le_refl m) (by omega))
      rw [he, hg] at h
      exact h
    · intro h
      have h0 := hm.1
      refine ⟨m, ?_, by rw [hg]; exact h⟩
      rw [firstMismatch_quiescent]
      exact ⟨le_refl m, by omega, hm.2.1, fun a h1 h2 => by omega⟩
  · rw [hg]

/-- The chunk of a marker value not seen before is counted in `errors_found` whenever it differs
from the expected pattern, exactly if its first differing byte does not look overwritten. -/
theorem quiescent_chunk_detected_iff (hv : v ≠ 0) :
    ((∃ a, a < ops * payloadSize ∧
        mem (entry.chunkData + a) ≠ validationCycleToPattern (v - 1)) →
      (validateOneMarker payloadSize ops (ops * payloadSize)
        (quiescentReader mem entry.chunkData) st entry v t).2.1.errorsFound =
          st.errorsFound + 1) ↔
      ∀ m, FirstDifference mem entry.chunkData (ops * payloadSize)
        (validationCycleToPattern (v - 1)) m →
          ¬ LooksOverwritten mem entry.chunkData (ops * payloadSize) m := by
  have he : markerToExpectedPattern v = some (validationCycleToPattern (v - 1)) := if_neg hv
  have hcount := validateOneMarker_errorsFound payloadSize ops (ops * payloadSize) t
    (quiescentReader mem entry.chunkData) st entry he
  constructor
  · intro h m hm hl
    have hc := h ⟨m, hm.1, hm.2.1⟩
    rw [hcount.2 fun hr => (realMismatch_quiescent hm).mp hr hl] at hc
    omega
  · rintro h ⟨a, ha, hd⟩
    obtain ⟨m, hm⟩ := exists_firstDifference ha hd
    exact hcount.1 ((realMismatch_quiescent hm).mpr (h m hm))

def freshValidator : ValidatorState :=
  { stats := ⟨0, 0, 0, 0, 0⟩, error := ⟨false, 0, 0, 0, 0, 0⟩, errorsFound := 0 }

/-- The first chunk of the first QP, last seen after its first cycle. -/
def firstEntry : MarkerScanEntry :=
  { markerPtr := 0, lastSeen := 1, chunkData := 4096, qpId := 0, chunkId := 0 }

/-- A chunk of 32 operations of 2048 bytes after the second cycle, with its last byte corrupted. -/
def corruptedLastByte : Mem := fun a => if a = 4096 + 65535 then 7 else 2

theorem corruptedLastByte_detected :
    (validateOneMarker 2048 32 (32 * 2048) (quiescentReader corruptedLastByte firstEntry.chunkData)
      freshValidator firstEntry 2 0).2.1.errorsFound = 1 := by
  refine (quiescent_chunk_detected_iff (by decide)).mpr (fun m hm hl => ?_)
    ⟨65535, by decide, by decide⟩
  have hne := hm.2.1
  have hl4 := hl.1
  rw [corruptedLastByte, if_neg (by simp only [firstEntry]; omega)] at hne
  exact hne rfl

/-- The same chunk when the first operation of the second cycle was lost: its slot still holds the
pattern of the first cycle. -/
def lostOperation : Mem := fun a => if a < 4096 + 2048 then 1 else 2

/-- A lost operation is taken for a race and not counted. -/
theorem lostOperation_not_counted :
    lostOperation (firstEntry.chunkData + 0) ≠ validationCycleToPattern (2 - 1) ∧
      (∀ a, a < 2048 → lostOperation (firstEntry.chunkData + a) = validationCycleToPattern 0) ∧
      (validateOneMarker 2048 32 (32 * 2048) (quiescentReader lostOperation firstEntry.chunkData)
        freshValidator firstEntry 2 0).2.1.errorsFound = 0 ∧
      (validateOneMarker 2048 32 (32 * 2048) (quiescentReader lostOperation firstEntry.chunkData)
        freshValidator firstEntry 2 0).2.1.stats.raceOverwrites = 1 := by
  refine ⟨by decide, fun a ha => ?_, rfl, rfl⟩
  rw [lostOperation, if_pos (by simp only [firstEntry]; omega)]
  rfl

end Perftest
