import Perftest.HostValidator

namespace Perftest

open CMachine

theorem classifyValidationMismatch_real_iff {m n p : Nat} {expected actual : UInt8} {r v : Bool}
    {fwd : Fin 4 → UInt8} :
    classifyValidationMismatch m n p expected actual r fwd v = .real ↔
      ¬ (subU64 n (tailBytes p) ≤ m ∧ r = true) ∧
        ¬ (v = true ∧ actual ≠ expected ∧ validationIsPattern actual = true ∧
          ∀ i, actual = fwd i) := by
  unfold classifyValidationMismatch
  split_ifs with h1 h2
  · exact ⟨fun h => (nomatch h), fun h => absurd h1 h.1⟩
  · exact ⟨fun h => (nomatch h), fun h => absurd h2 h.2⟩
  · exact ⟨fun _ => ⟨h1, h2⟩, fun _ => rfl⟩

theorem classifyValidationMismatch_ne_none {m n p : Nat} {expected actual : UInt8} {r v : Bool}
    {fwd : Fin 4 → UInt8} :
    classifyValidationMismatch m n p expected actual r fwd v ≠ .none := by
  unfold classifyValidationMismatch
  split_ifs <;> simp

section Inspect

variable {payloadSize n t : Nat} {expected : UInt8} {rd : ChunkReader}

/-- The five bytes from offset `m` on, read from time `ts` on, are one pattern other than the
expected one. -/
def EpochGuard (rd : ChunkReader) (expected : UInt8) (n ts m : Nat) : Prop :=
  m + 4 < n ∧ rd ts m ≠ expected ∧ validationIsPattern (rd ts m) = true ∧
    ∀ i : Fin 4, rd ts m = rd (ts + 1 + i) (m + 1 + i)

/-- The scan, or the second scan when the first one stops in the tail, stops at a byte from which
the snapshot does not see one other pattern. -/
def RealMismatch (payloadSize n : Nat) (expected : UInt8) (rd : ChunkReader) (t : Nat) : Prop :=
  ∃ m, FirstMismatch rd expected 0 n t m ∧
    if subU64 n (tailBytes payloadSize) ≤ m then
      ∃ m', FirstMismatch rd expected m (n - m) (t + m + 1) m' ∧
        ¬ EpochGuard rd expected n (t + m + 1 + (m' - m) + 1) m'
    else ¬ EpochGuard rd expected n (t + m + 1) m

theorem tailRetry_spec (payloadSize n : Nat) (expected : UInt8) (rd : ChunkReader) (m : Nat)
    (actual : UInt8) (t : Nat) :
    (subU64 n (tailBytes payloadSize) ≤ m ∧
        tailRetry payloadSize n expected rd m actual t = (m, actual, true, t + (n - m)) ∧
        ∀ m', ¬ FirstMismatch rd expected m (n - m) t m') ∨
      (subU64 n (tailBytes payloadSize) ≤ m ∧ ∃ i,
        tailRetry payloadSize n expected rd m actual t =
          (m + i, rd (t + i) (m + i), false, t + i + 1) ∧
        FirstMismatch rd expected m (n - m) t (m + i)) ∨
      (¬ subU64 n (tailBytes payloadSize) ≤ m ∧
        tailRetry payloadSize n expected rd m actual t = (m, actual, false, t)) := by
  by_cases h : subU64 n (tailBytes payloadSize) ≤ m
  · rcases validateChunk_spec rd expected m (n - m) t with ⟨hv, hn⟩ | ⟨i, hv, hf⟩
    · exact Or.inl ⟨h, by simp only [tailRetry, h, if_true, hv], hn⟩
    · exact Or.inr (Or.inl ⟨h, i, by simp only [tailRetry, h, if_true, hv], hf⟩)
  · exact Or.inr (Or.inr ⟨h, by simp only [tailRetry, h, if_false]⟩)

/-- The snapshot after a scan that stopped at `m`: real unless the epoch guard holds. -/
theorem forwardSnapshot_real_iff (actual : UInt8) (m : Nat) (actualByte : UInt8) (ts : Nat) :
    (forwardSnapshot payloadSize n expected rd actual m actualByte false ts).1.mtype = .real ↔
      ¬ EpochGuard rd expected n ts m := by
  by_cases h : m + 4 < n
  · simp only [forwardSnapshot, Bool.not_false, h, and_self, if_true,
      classifyValidationMismatch_real_iff, Bool.false_eq_true, and_false, not_false_eq_true,
      true_and, EpochGuard]
  · simp only [forwardSnapshot, h, and_false, if_false, classifyValidationMismatch_real_iff,
      Bool.false_eq_true, false_and, not_false_eq_true, and_self, EpochGuard]

theorem forwardSnapshot_stale {actual actualByte : UInt8} {m ts : Nat}
    (h : subU64 n (tailBytes payloadSize) ≤ m) :
    (forwardSnapshot payloadSize n expected rd actual m actualByte true ts).1.mtype ≠ .real := by
  simp only [forwardSnapshot, Bool.not_true, Bool.false_eq_true, false_and, if_false, ne_eq,
    classifyValidationMismatch_real_iff, h, and_self, not_true, not_false_eq_true]

theorem forwardSnapshot_ne_none {actual actualByte : UInt8} {m ts : Nat} {r : Bool} :
    (forwardSnapshot payloadSize n expected rd actual m actualByte r ts).1.mtype ≠ .none := by
  unfold forwardSnapshot
  split
  · exact classifyValidationMismatch_ne_none
  · exact classifyValidationMismatch_ne_none

theorem inspectChunk_eq {m t' : Nat} {actual : UInt8}
    (h : validateChunk rd expected 0 n t = (some (m, actual), t')) :
    (inspectChunk payloadSize n expected rd t).1 =
      some (forwardSnapshot payloadSize n expected rd actual
        (tailRetry payloadSize n expected rd m actual t').1
        (tailRetry payloadSize n expected rd m actual t').2.1
        (tailRetry payloadSize n expected rd m actual t').2.2.1
        (tailRetry payloadSize n expected rd m actual t').2.2.2).1 := by
  simp only [inspectChunk, h]

theorem realMismatch_iff {m : Nat} (hf : FirstMismatch rd expected 0 n t m) :
    RealMismatch payloadSize n expected rd t ↔
      if subU64 n (tailBytes payloadSize) ≤ m then
        ∃ m', FirstMismatch rd expected m (n - m) (t + m + 1) m' ∧
          ¬ EpochGuard rd expected n (t + m + 1 + (m' - m) + 1) m'
      else ¬ EpochGuard rd expected n (t + m + 1) m := by
  constructor
  · rintro ⟨m', hm, h⟩
    rwa [hm.unique hf] at h
  · exact fun h => ⟨m, hf, h⟩

/-- A validation classifies the chunk as corrupted exactly on a real mismatch. -/
theorem inspectChunk_real_iff :
    (∃ mm, (inspectChunk payloadSize n expected rd t).1 = some mm ∧ mm.mtype = .real) ↔
      RealMismatch payloadSize n expected rd t := by
  rcases validateChunk_spec rd expected 0 n t with ⟨hv, hn⟩ | ⟨m, hv, hf⟩
  · simp only [inspectChunk, hv, reduceCtorEq, false_and, exists_false, false_iff]
    rintro ⟨m, hm, -⟩
    exact hn m hm
  rw [Nat.zero_add] at hv hf
  rw [realMismatch_iff hf, inspectChunk_eq hv]
  simp only [Option.some.injEq, exists_eq_left']
  rcases tailRetry_spec payloadSize n expected rd m (rd (t + m) m) (t + m + 1) with
    ⟨ht, hr, hn⟩ | ⟨ht, i, hr, hm⟩ | ⟨ht, hr⟩
  · rw [hr, if_pos ht]
    refine ⟨fun h => absurd h (forwardSnapshot_stale ht), ?_⟩
    rintro ⟨m', hm', -⟩
    exact absurd hm' (hn m')
  · rw [hr, if_pos ht]
    dsimp only
    rw [forwardSnapshot_real_iff]
    constructor
    · intro h
      refine ⟨m + i, hm, ?_⟩
      rwa [Nat.add_sub_cancel_left]
    · rintro ⟨m', hm', h⟩
      rw [hm'.unique hm, Nat.add_sub_cancel_left] at h
      exact h
  · rw [hr, if_neg ht]
    exact forwardSnapshot_real_iff _ _ _ _

theorem inspectChunk_ne_none {mm : ChunkMismatch}
    (h : (inspectChunk payloadSize n expected rd t).1 = some mm) : mm.mtype ≠ .none := by
  rcases validateChunk_spec rd expected 0 n t with ⟨hv, -⟩ | ⟨m, hv, -⟩
  · simp [inspectChunk, hv] at h
  · rw [inspectChunk_eq hv] at h
    rw [← Option.some.inj h]
    exact forwardSnapshot_ne_none

end Inspect

section Count

variable {payloadSize ops n t v : Nat} {expected : UInt8} {rd : ChunkReader} {st : ValidatorState}
  {entry : MarkerScanEntry}

variable (payloadSize expected entry st) in
theorem recordMismatch_errorsFound {mm : ChunkMismatch} (h : mm.mtype ≠ .none) :
    (recordMismatch payloadSize entry expected mm st).errorsFound =
      if mm.mtype = .real then st.errorsFound + 1 else st.errorsFound := by
  cases hm : mm.mtype with
  | none => exact absurd hm h
  | real => simp [recordMismatch, hm]
  | race => simp [recordMismatch, hm]
  | stale => simp [recordMismatch, hm]

variable (payloadSize ops n t rd st entry) in
/-- A validation counts an error exactly on a real mismatch. -/
theorem validateOneMarker_errorsFound (he : markerToExpectedPattern v = some expected) :
    (RealMismatch payloadSize n expected rd t →
      (validateOneMarker payloadSize ops n rd st entry v t).2.1.errorsFound =
        st.errorsFound + 1) ∧
      (¬ RealMismatch payloadSize n expected rd t →
        (validateOneMarker payloadSize ops n rd st entry v t).2.1.errorsFound =
          st.errorsFound) := by
  have hs : ∀ d, (if 1 < d then
      { st with stats.skippedSteps := st.stats.skippedSteps + (d - 1) } else st).errorsFound =
        st.errorsFound := by
    intro d
    split <;> rfl
  rw [← inspectChunk_real_iff]
  simp only [validateOneMarker, he]
  cases hi : (inspectChunk payloadSize n expected rd t).1 with
  | none =>
    refine ⟨by simp, fun _ => ?_⟩
    exact hs _
  | some mm =>
    have hr := recordMismatch_errorsFound payloadSize expected (if 1 < subU64 v entry.lastSeen then
        { st with stats.skippedSteps :=
          st.stats.skippedSteps + (subU64 v entry.lastSeen - 1) } else st) entry
      (inspectChunk_ne_none hi)
    rw [hs] at hr
    simp only [Option.some.injEq, exists_eq_left']
    refine ⟨fun h => ?_, fun h => ?_⟩
    · rw [if_pos h] at hr
      exact hr
    · rw [if_neg h] at hr
      exact hr

end Count

end Perftest
