import Perftest.HostMarkers

namespace Perftest

open CMachine

/-- What the reads of a validator return: `rd t a` is the byte of the chunk at offset `a` at the
time of the `t`-th read. -/
abbrev ChunkReader := Nat → Nat → UInt8

/-- The byte loop of the chunk check over `n` bytes from offset `off`: the first mismatch, relative
to the start, with the byte read there, and the time after the last read. -/
def validateChunk (rd : ChunkReader) (pattern : UInt8) : Nat → Nat → Nat →
    Option (Nat × UInt8) × Nat
  | _, 0, t => (none, t)
  | off, n + 1, t =>
    if rd t off ≠ pattern then (some (0, rd t off), t + 1)
    else
      match validateChunk rd pattern (off + 1) n (t + 1) with
      | (some (i, actual), t') => (some (i + 1, actual), t')
      | (none, t') => (none, t')

structure HostValidationError where
  hasError : Bool
  qpId : Nat
  chunkId : Nat
  byteOffset : Nat
  expected : UInt8
  actual : UInt8
deriving DecidableEq, Repr

structure HostValidatorStats where
  workItemsProcessed : Nat
  bytesValidated : Nat
  skippedSteps : Nat
  raceOverwrites : Nat
  dmaStaleRetries : Nat
deriving DecidableEq, Repr

/-- The counters that a validation updates. -/
structure ValidatorState where
  stats : HostValidatorStats
  error : HostValidationError
  errorsFound : Nat
deriving DecidableEq, Repr

structure ChunkMismatch where
  offset : Nat
  actual : UInt8
  mtype : ValidationMismatchType
deriving DecidableEq, Repr

/-- The second scan, from the first mismatch on, when it lies in the tail of the chunk: offset,
byte, whether the tail now matches, and time. -/
def tailRetry (payloadSize chunkBytes : Nat) (expected : UInt8) (rd : ChunkReader)
    (mismatch : Nat) (actual : UInt8) (t : Nat) : Nat × UInt8 × Bool × Nat :=
  if subU64 chunkBytes (tailBytes payloadSize) ≤ mismatch then
    match validateChunk rd expected mismatch (chunkBytes - mismatch) t with
    | (none, t') => (mismatch, actual, true, t')
    | (some (retry, retryActual), t') => (mismatch + retry, retryActual, false, t')
  else (mismatch, actual, false, t)

/-- The forward-byte snapshot and the classification; `actual` is the byte of the first scan. -/
def forwardSnapshot (payloadSize chunkBytes : Nat) (expected : UInt8) (rd : ChunkReader)
    (actual : UInt8) (mismatch : Nat) (actualByte : UInt8) (retryMatched : Bool) (t : Nat) :
    ChunkMismatch × Nat :=
  if !retryMatched ∧ mismatch + 4 < chunkBytes then
    (⟨mismatch, actualByte, classifyValidationMismatch mismatch chunkBytes payloadSize
      expected (rd t mismatch) retryMatched (fun i => rd (t + 1 + i) (mismatch + 1 + i)) true⟩,
      t + 5)
  else
    (⟨mismatch, actualByte, classifyValidationMismatch mismatch chunkBytes payloadSize
      expected actual retryMatched (fun _ => expected) false⟩, t)

/-- The scan, the tail retry and the forward snapshot of one validation. -/
def inspectChunk (payloadSize chunkBytes : Nat) (expected : UInt8) (rd : ChunkReader) (t : Nat) :
    Option ChunkMismatch × Nat :=
  match validateChunk rd expected 0 chunkBytes t with
  | (none, t) => (none, t)
  | (some (first, actual), t) =>
    let (mismatch, actualByte, retryMatched, t) :=
      tailRetry payloadSize chunkBytes expected rd first actual t
    let (mm, t) := forwardSnapshot payloadSize chunkBytes expected rd actual mismatch actualByte
      retryMatched t
    (some mm, t)

/-- The bookkeeping of a classified mismatch. -/
def recordMismatch (payloadSize : Nat) (entry : MarkerScanEntry) (expected : UInt8)
    (mm : ChunkMismatch) (st : ValidatorState) : ValidatorState :=
  match mm.mtype with
  | .stale => { st with stats.dmaStaleRetries := st.stats.dmaStaleRetries + 1 }
  | .race => { st with stats.raceOverwrites := st.stats.raceOverwrites + 1 }
  | _ =>
    { st with
      error := if st.error.hasError then st.error else
        { hasError := true, qpId := entry.qpId, chunkId := entry.chunkId,
          byteOffset := mm.offset % payloadSize, expected := expected, actual := mm.actual }
      errorsFound := st.errorsFound + 1 }

/-- `validate_one_marker`; besides the return value, the new counters, entry and time. -/
def validateOneMarker (payloadSize opsPerChunk chunkBytes : Nat) (rd : ChunkReader)
    (st : ValidatorState) (entry : MarkerScanEntry) (markerVal t : Nat) :
    Bool × ValidatorState × MarkerScanEntry × Nat :=
  match markerToExpectedPattern markerVal with
  | none => (false, st, { entry with lastSeen := markerVal }, t)
  | some expected =>
    let delta := subU64 markerVal entry.lastSeen
    let st := if 1 < delta then
      { st with stats.skippedSteps := st.stats.skippedSteps + (delta - 1) } else st
    let (found, t) := inspectChunk payloadSize chunkBytes expected rd t
    let st := match found with
      | none => st
      | some mm => recordMismatch payloadSize entry expected mm st
    (true,
      { st with
        stats.workItemsProcessed := st.stats.workItemsProcessed + opsPerChunk
        stats.bytesValidated := st.stats.bytesValidated + chunkBytes },
      { entry with lastSeen := markerVal }, t)

section Scan

variable {rd : ChunkReader} {pattern : UInt8} {off n t m : Nat}

/-- The read at offset `m` is the first of a scan from `off` that does not see `pattern`. -/
def FirstMismatch (rd : ChunkReader) (pattern : UInt8) (off n t m : Nat) : Prop :=
  off ≤ m ∧ m < off + n ∧ rd (t + (m - off)) m ≠ pattern ∧
    ∀ a, off ≤ a → a < m → rd (t + (a - off)) a = pattern

theorem FirstMismatch.unique {m' : Nat} (h : FirstMismatch rd pattern off n t m)
    (h' : FirstMismatch rd pattern off n t m') : m = m' := by
  rcases Nat.lt_trichotomy m m' with hl | he | hl
  · exact absurd (h'.2.2.2 m h.1 hl) h.2.2.1
  · exact he
  · exact absurd (h.2.2.2 m' h'.1 hl) h'.2.2.1

theorem firstMismatch_zero_iff : ¬ FirstMismatch rd pattern off 0 t m := by
  rintro ⟨h1, h2, -⟩
  omega

theorem firstMismatch_here (h : rd t off ≠ pattern) :
    FirstMismatch rd pattern off (n + 1) t m ↔ m = off := by
  constructor
  · rintro ⟨h1, -, -, h4⟩
    by_contra hne
    have ho := h4 off (le_refl _) (by omega)
    rw [Nat.sub_self] at ho
    exact h ho
  · rintro rfl
    exact ⟨le_refl _, by omega, by simpa using h, fun a h1 h2 => by omega⟩

theorem firstMismatch_next (h : rd t off = pattern) :
    FirstMismatch rd pattern off (n + 1) t m ↔
      FirstMismatch rd pattern (off + 1) n (t + 1) m := by
  constructor
  · rintro ⟨h1, h2, h3, h4⟩
    have hne : m ≠ off := by
      rintro rfl
      exact h3 (by simpa using h)
    refine ⟨by omega, by omega, ?_, fun a ha hl => ?_⟩
    · rwa [show t + 1 + (m - (off + 1)) = t + (m - off) by omega]
    · rw [show t + 1 + (a - (off + 1)) = t + (a - off) by omega]
      exact h4 a (by omega) hl
  · rintro ⟨h1, h2, h3, h4⟩
    refine ⟨by omega, by omega, ?_, fun a ha hl => ?_⟩
    · rwa [show t + (m - off) = t + 1 + (m - (off + 1)) by omega]
    · rcases Nat.eq_or_lt_of_le ha with rfl | hlt
      · simpa using h
      · rw [show t + (a - off) = t + 1 + (a - (off + 1)) by omega]
        exact h4 a hlt hl

/-- The scan finds nothing, or stops right after the first mismatch. -/
theorem validateChunk_spec (rd : ChunkReader) (pattern : UInt8) (off n t : Nat) :
    (validateChunk rd pattern off n t = (none, t + n) ∧
        ∀ m, ¬ FirstMismatch rd pattern off n t m) ∨
      ∃ i, validateChunk rd pattern off n t = (some (i, rd (t + i) (off + i)), t + i + 1) ∧
        FirstMismatch rd pattern off n t (off + i) := by
  induction n generalizing off t with
  | zero => exact Or.inl ⟨rfl, fun m => firstMismatch_zero_iff⟩
  | succ n ih =>
    by_cases h : rd t off = pattern
    · rcases ih (off + 1) (t + 1) with ⟨hv, hn⟩ | ⟨i, hv, hf⟩
      · refine Or.inl ⟨?_, fun m hm => hn m ((firstMismatch_next h).mp hm)⟩
        simp only [validateChunk, h, ne_eq, not_true, if_false, hv]
        congr 1
        omega
      · refine Or.inr ⟨i + 1, ?_, ?_⟩
        · simp only [validateChunk, h, ne_eq, not_true, if_false, hv]
          rw [show t + 1 + i = t + (i + 1) by omega, show off + 1 + i = off + (i + 1) by omega]
        · rw [firstMismatch_next h, show off + (i + 1) = off + 1 + i by omega]
          exact hf
    · refine Or.inr ⟨0, ?_, ?_⟩
      · simp only [validateChunk, h, ne_eq, not_false_eq_true, if_true]
        rfl
      · exact (firstMismatch_here h).mpr rfl

end Scan

end Perftest
