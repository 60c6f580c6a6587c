import Perftest.Lib.CMachine
import Perftest.Lib.ByteMemory

namespace Perftest

open CMachine

def VALIDATION_PATTERNS_COUNT : Nat := 3
def VALIDATION_PATTERN_0 : Nat := 0x01
def VALIDATION_MAX_CHUNKS_PER_QP : Nat := 24
def VALIDATION_MIN_CHUNK_BYTES : Nat := 64 * 1024
def VALIDATION_MAX_CHUNK_BYTES : Nat := 8 * 1024 * 1024

theorem VALIDATION_MAX_CHUNKS_PER_QP_pos : 0 < VALIDATION_MAX_CHUNKS_PER_QP := by decide

inductive ValidationMismatchType where
  | none | real | race | stale
deriving DecidableEq, Repr

inductive ValidationMode where
  | write | read
deriving DecidableEq, Repr

def validationCycleToPattern (cycle : Nat) : UInt8 :=
  UInt8.ofNat (VALIDATION_PATTERN_0 + cycle % VALIDATION_PATTERNS_COUNT)

def validationIsPattern (value : UInt8) : Bool :=
  VALIDATION_PATTERN_0 ≤ value.toNat &&
    value.toNat < VALIDATION_PATTERN_0 + VALIDATION_PATTERNS_COUNT

/-- The pattern byte the validator expects for a marker value; marker zero has none. -/
def markerToExpectedPattern (markerVal : Nat) : Option UInt8 :=
  if markerVal = 0 then none else some (validationCycleToPattern (markerVal - 1))

def deriveValidationChunkSize (payload txDepth : Nat) : Nat :=
  let rawChunkBytes := payload * txDepth
  if rawChunkBytes < VALIDATION_MIN_CHUNK_BYTES ∧ 0 < payload then
    let needed := (VALIDATION_MIN_CHUNK_BYTES + payload - 1) / payload
    (needed + txDepth - 1) / txDepth * txDepth
  else if VALIDATION_MAX_CHUNK_BYTES < rawChunkBytes ∧ 0 < payload then
    let target := VALIDATION_MAX_CHUNK_BYTES / payload
    if txDepth ≤ target then target / txDepth * txDepth
    else if 0 < target then target else 1
  else txDepth

/-- The ring depth before the adjustments for the number of QPs and for READ. -/
def chunksPerQpBase (chunkBytes : Nat) : Nat :=
  if chunkBytes < 128 * 1024 then 12
  else if chunkBytes < 512 * 1024 then 10
  else if chunkBytes < 2 * 1024 * 1024 then 8
  else if chunkBytes < 8 * 1024 * 1024 then 6
  else 4

def deriveValidationChunksPerQp (chunkBytes : Nat) (numQps : Int) (isRead : Bool) : Nat :=
  let base := chunksPerQpBase chunkBytes
  let base := if numQps ≤ 2 then base * 2 else if numQps ≤ 4 then base * 3 / 2 else base
  let base := if isRead then base * 3 / 2 else base
  if VALIDATION_MAX_CHUNKS_PER_QP < base then VALIDATION_MAX_CHUNKS_PER_QP else base

/-- Rounds up to the next multiple of 64. -/
def validationCacheLineAlign (x : Nat) : Nat := (x + 63) / 64 * 64

structure ValidationBufferLayout where
  totalSize : Nat
  markersOffset : Nat
  recvSlotsOffset : Nat
  atomicReturnsOffset : Nat
  markersSize : Nat
  recvSlotsSize : Nat
  atomicReturnsSize : Nat
  slotsPerQp : Nat
deriving DecidableEq, Repr

def validationSafeMulU64 (a b : Nat) : Option Nat :=
  if a ≠ 0 ∧ (2 ^ 64 - 1) / a < b then none else some (a * b)

def computeValidationLayout (payloadSize txDepth numQps chunksPerQp : Nat) (isReadMode : Bool) :
    Option ValidationBufferLayout := do
  if payloadSize = 0 ∨ txDepth = 0 ∨ numQps = 0 ∨ chunksPerQp = 0 then none
  let totalChunks := u32 (numQps * chunksPerQp)
  let markersSize := totalChunks * 8
  let chunkBytes ← validationSafeMulU64 payloadSize txDepth
  let qpBytes ← validationSafeMulU64 chunkBytes chunksPerQp
  let recvSlotsSize ← validationSafeMulU64 qpBytes numQps
  let atomicReturnsSize := if isReadMode then totalChunks * 8 else numQps * 8
  let markersOffset := validationCacheLineAlign (payloadSize * 3)
  let recvSlotsOffset := validationCacheLineAlign (markersOffset + markersSize)
  let atomicReturnsOffset := validationCacheLineAlign (recvSlotsOffset + recvSlotsSize)
  return {
    totalSize := atomicReturnsOffset + atomicReturnsSize
    markersOffset := markersOffset
    recvSlotsOffset := recvSlotsOffset
    atomicReturnsOffset := atomicReturnsOffset
    markersSize := markersSize
    recvSlotsSize := recvSlotsSize
    atomicReturnsSize := atomicReturnsSize
    slotsPerQp := u32 (txDepth * chunksPerQp) }

/-- The number of bytes at the end of a chunk in which a mismatch is read again. -/
def tailBytes (payloadSize : Nat) : Nat :=
  if payloadSize * 2 < 256 then 256 else payloadSize * 2

def classifyValidationMismatch (errorOffset chunkSize payloadSize : Nat)
    (expected actual : UInt8) (retryMatched : Bool) (fwd : Fin 4 → UInt8) (fwdValid : Bool) :
    ValidationMismatchType :=
  if subU64 chunkSize (tailBytes payloadSize) ≤ errorOffset ∧ retryMatched then .stale
  else if fwdValid ∧ actual ≠ expected ∧ validationIsPattern actual ∧ ∀ i, actual = fwd i then
    .race
  else .real

theorem validationCycleToPattern_toNat (cycle : Nat) :
    (validationCycleToPattern cycle).toNat = 1 + cycle % 3 := by
  have h : 1 + cycle % 3 < 2 ^ 8 := by omega
  exact UInt8.toNat_ofNat_of_lt h

theorem validationCycleToPattern_isPattern (cycle : Nat) :
    validationIsPattern (validationCycleToPattern cycle) = true := by
  simp only [validationIsPattern, validationCycleToPattern_toNat, VALIDATION_PATTERN_0,
    VALIDATION_PATTERNS_COUNT, Bool.and_eq_true, decide_eq_true_eq]
  omega

theorem validationCycleToPattern_eq_iff {a b : Nat} :
    validationCycleToPattern a = validationCycleToPattern b ↔ a % 3 = b % 3 := by
  rw [← UInt8.toNat_inj, validationCycleToPattern_toNat, validationCycleToPattern_toNat]
  omega

theorem validationCycleToPattern_congr {a b : Nat} (h : a % 3 = b % 3) :
    validationCycleToPattern a = validationCycleToPattern b :=
  validationCycleToPattern_eq_iff.mpr h

@[simp] theorem markerToExpectedPattern_succ (cycle : Nat) :
    markerToExpectedPattern (cycle + 1) = some (validationCycleToPattern cycle) := rfl

theorem le_validationCacheLineAlign (x : Nat) : x ≤ validationCacheLineAlign x := by
  unfold validationCacheLineAlign
  omega

theorem validationSafeMulU64_eq_some {a b r : Nat} (h : validationSafeMulU64 a b = some r) :
    r = a * b := by
  unfold validationSafeMulU64 at h
  split at h
  next => cases h
  next => exact (Option.some.inj h).symm

/-- The regions of an accepted layout follow one another without overlap. -/
theorem computeValidationLayout_regions {p t n c : Nat} {r : Bool} {L : ValidationBufferLayout}
    (h : computeValidationLayout p t n c r = some L) (hn : n * c < 2 ^ 32) :
    p * 3 ≤ L.markersOffset ∧ L.markersOffset + n * c * 8 ≤ L.recvSlotsOffset ∧
      L.recvSlotsOffset + n * (t * c) * p ≤ L.atomicReturnsOffset ∧
      L.atomicReturnsOffset + (if r then n * c * 8 else n * 8) = L.totalSize := by
  simp only [computeValidationLayout, Option.pure_def, Option.bind_eq_bind,
    u32_of_lt hn] at h
  split at h
  next => simp at h
  next =>
    simp only [Option.bind_eq_some_iff, Option.some.injEq] at h
    obtain ⟨chunkBytes, hc, qpBytes, hq, slotsSize, hs, rfl⟩ := h
    have hr : slotsSize = n * (t * c) * p := by
      rw [validationSafeMulU64_eq_some hs, validationSafeMulU64_eq_some hq,
        validationSafeMulU64_eq_some hc]
      ring
    subst hr
    exact ⟨le_validationCacheLineAlign _, le_validationCacheLineAlign _,
      le_validationCacheLineAlign _, rfl⟩

theorem deriveValidationChunksPerQp_range (b : Nat) (n : Int) (r : Bool) :
    1 ≤ deriveValidationChunksPerQp b n r ∧ deriveValidationChunksPerQp b n r ≤ 24 := by
  have hb : 4 ≤ chunksPerQpBase b ∧ chunksPerQpBase b ≤ 12 := by
    unfold chunksPerQpBase
    split_ifs <;> omega
  simp only [deriveValidationChunksPerQp, VALIDATION_MAX_CHUNKS_PER_QP]
  split_ifs <;> omega

theorem deriveValidationChunkSize_pos {payload txDepth : Nat} (ht : 0 < txDepth) :
    0 < deriveValidationChunkSize payload txDepth := by
  simp only [deriveValidationChunkSize]
  split_ifs with h1 h2 h3 h4
  · have hm : payload ≤ VALIDATION_MIN_CHUNK_BYTES + payload - 1 := by
      unfold VALIDATION_MIN_CHUNK_BYTES
      omega
    have hd : 1 ≤ (VALIDATION_MIN_CHUNK_BYTES + payload - 1) / payload :=
      (Nat.one_le_div_iff h1.2).mpr hm
    exact Nat.mul_pos (Nat.div_pos (by omega) ht) ht
  · exact Nat.mul_pos (Nat.div_pos h3 ht) ht
  · exact h4
  · exact Nat.one_pos
  · exact ht

end Perftest
