import Perftest.ValidationCommon

namespace Perftest

/-- The result of unsigned arithmetic of `w` bits; `none` if it wraps. -/
def unwrapped (w n : Nat) : Option Nat := if n < 2 ^ w then some n else none

/-- `derive_validation_chunk_size` in the types of the code; `none` if an intermediate value wraps
or loses bits in a conversion. -/
def deriveValidationChunkSizeChecked (payload txDepth : Nat) : Option Nat := do
  let rawChunkBytes ← unwrapped 64 (payload * txDepth)
  if rawChunkBytes < VALIDATION_MIN_CHUNK_BYTES ∧ 0 < payload then
    let sum ← unwrapped 64 (VALIDATION_MIN_CHUNK_BYTES + payload)
    let needed ← unwrapped 32 ((sum - 1) / payload)
    let sum ← unwrapped 32 (needed + txDepth)
    unwrapped 32 ((sum - 1) / txDepth * txDepth)
  else if VALIDATION_MAX_CHUNK_BYTES < rawChunkBytes ∧ 0 < payload then
    let target ← unwrapped 32 (VALIDATION_MAX_CHUNK_BYTES / payload)
    if txDepth ≤ target then unwrapped 32 (target / txDepth * txDepth)
    else some (if 0 < target then target else 1)
  else some txDepth

/-- The check of the ring depth in `host_validation_init`. -/
def hostInitAcceptsChunks (chunksPerQp : Nat) : Bool :=
  !(chunksPerQp < 1 || VALIDATION_MAX_CHUNKS_PER_QP < chunksPerQp)

/-- The check of the ring depth in `validation_init`. -/
def cudaInitAcceptsChunks (chunksPerQp : Nat) : Bool :=
  !(chunksPerQp == 0 || VALIDATION_MAX_CHUNKS_PER_QP < chunksPerQp)

theorem unwrapped_of_lt {w n : Nat} (h : n < 2 ^ w) : unwrapped w n = some n := if_pos h

section ChunkSize

variable {payload txDepth : Nat}

/-- A chunk is too small, too large or of the send window. -/
theorem deriveValidationChunkSize_cases (hp : 0 < payload) :
    (payload * txDepth < VALIDATION_MIN_CHUNK_BYTES ∧
        deriveValidationChunkSize payload txDepth =
          ((VALIDATION_MIN_CHUNK_BYTES + payload - 1) / payload + txDepth - 1) / txDepth * txDepth) ∨
      (VALIDATION_MAX_CHUNK_BYTES < payload * txDepth ∧
        VALIDATION_MAX_CHUNK_BYTES / payload < txDepth ∧
        deriveValidationChunkSize payload txDepth = max (VALIDATION_MAX_CHUNK_BYTES / payload) 1) ∨
      (VALIDATION_MIN_CHUNK_BYTES ≤ payload * txDepth ∧
        payload * txDepth ≤ VALIDATION_MAX_CHUNK_BYTES ∧
        deriveValidationChunkSize payload txDepth = txDepth) := by
  by_cases hmin : payload * txDepth < VALIDATION_MIN_CHUNK_BYTES
  · left
    refine ⟨hmin, ?_⟩
    simp only [deriveValidationChunkSize]
    rw [if_pos ⟨hmin, hp⟩]
  · right
    by_cases hmax : VALIDATION_MAX_CHUNK_BYTES < payload * txDepth
    · left
      have htarget : VALIDATION_MAX_CHUNK_BYTES / payload < txDepth := by
        rw [Nat.div_lt_iff_lt_mul hp, Nat.mul_comm]
        exact hmax
      refine ⟨hmax, htarget, ?_⟩
      simp only [deriveValidationChunkSize]
      rw [if_neg fun h => hmin h.1, if_pos ⟨hmax, hp⟩, if_neg (by omega)]
      split <;> omega
    · right
      refine ⟨by omega, by omega, ?_⟩
      simp only [deriveValidationChunkSize]
      rw [if_neg fun h => hmin h.1, if_neg fun h => hmax h.1]

/-- Rounding up to whole windows covers what is needed, with less than a window more. -/
theorem roundUp_bounds (n : Nat) (ht : 0 < txDepth) :
    n ≤ (n + txDepth - 1) / txDepth * txDepth ∧
      (n + txDepth - 1) / txDepth * txDepth ≤ n + txDepth - 1 := by
  have hlt := Nat.lt_div_mul_add (a := n + txDepth - 1) ht
  refine ⟨by omega, Nat.div_mul_le_self _ _⟩

theorem chunkBytes_bounds (hp : 1 ≤ payload) (ht : 32 ≤ txDepth) :
    VALIDATION_MIN_CHUNK_BYTES ≤ payload * deriveValidationChunkSize payload txDepth ∧
      payload * deriveValidationChunkSize payload txDepth ≤
        max VALIDATION_MAX_CHUNK_BYTES payload := by
  obtain ⟨hraw, he⟩ | ⟨hraw, -, he⟩ | ⟨hl, hu, he⟩ :=
    @deriveValidationChunkSize_cases payload txDepth hp
  · have hn := roundUp_bounds VALIDATION_MIN_CHUNK_BYTES hp
    rw [Nat.mul_comm _ payload] at hn
    generalize (VALIDATION_MIN_CHUNK_BYTES + payload - 1) / payload = needed at hn he
    obtain ⟨hlow, hupp⟩ := roundUp_bounds needed (by omega : 0 < txDepth)
    rw [he]
    have hlow' := Nat.mul_le_mul_left payload hlow
    have hupp' := Nat.mul_le_mul_left payload
      (hupp.trans (by omega : needed + txDepth - 1 ≤ needed + txDepth))
    rw [Nat.mul_add] at hupp'
    have hsmall : payload * 32 ≤ payload * txDepth := Nat.mul_le_mul_left payload ht
    refine ⟨by omega, ?_⟩
    unfold VALIDATION_MIN_CHUNK_BYTES VALIDATION_MAX_CHUNK_BYTES at *
    omega
  · rw [he]
    have hdiv := Nat.div_mul_le_self VALIDATION_MAX_CHUNK_BYTES payload
    have hlt := Nat.lt_div_mul_add (a := VALIDATION_MAX_CHUNK_BYTES) hp
    rw [Nat.mul_comm] at hdiv hlt
    generalize VALIDATION_MAX_CHUNK_BYTES / payload = target at hdiv hlt
    unfold VALIDATION_MIN_CHUNK_BYTES VALIDATION_MAX_CHUNK_BYTES at *
    rcases Nat.eq_zero_or_pos target with h0 | hpos
    · rw [h0, Nat.mul_zero] at hlt
      rw [h0, Nat.max_eq_right (Nat.zero_le 1)]
      omega
    · rw [Nat.max_eq_left hpos]
      have hle : payload ≤ payload * target := Nat.le_mul_of_pos_right payload hpos
      omega
  · rw [he]
    exact ⟨hl, hu.trans (le_max_left _ _)⟩

/-- A chunk is whole send windows or less than one. -/
theorem deriveValidationChunkSize_dvd_or_lt (hp : 1 ≤ payload) (ht : 2 ≤ txDepth) :
    txDepth ∣ deriveValidationChunkSize payload txDepth ∨
      deriveValidationChunkSize payload txDepth < txDepth := by
  obtain ⟨-, he⟩ | ⟨-, hlt, he⟩ | ⟨-, -, he⟩ :=
    @deriveValidationChunkSize_cases payload txDepth hp
  · left
    rw [he]
    exact Nat.dvd_mul_left _ _
  · right
    omega
  · left
    rw [he]

theorem deriveValidationChunkSizeChecked_eq (hp : 1 ≤ payload) (hp' : payload ≤ (2 ^ 32 - 1) / 2)
    (ht : 32 ≤ txDepth) (ht' : txDepth ≤ 15000) :
    deriveValidationChunkSizeChecked payload txDepth =
      some (deriveValidationChunkSize payload txDepth) := by
  have hraw : payload * txDepth ≤ (2 ^ 32 - 1) / 2 * 15000 := Nat.mul_le_mul hp' ht'
  have hneeded : (VALIDATION_MIN_CHUNK_BYTES + payload - 1) / payload ≤
      VALIDATION_MIN_CHUNK_BYTES := by
    apply Nat.div_le_of_le_mul
    have := Nat.mul_le_mul_right (VALIDATION_MIN_CHUNK_BYTES - 1) hp
    unfold VALIDATION_MIN_CHUNK_BYTES at *
    omega
  have htarget : VALIDATION_MAX_CHUNK_BYTES / payload ≤ VALIDATION_MAX_CHUNK_BYTES :=
    Nat.div_le_self _ _
  have hup := (roundUp_bounds ((VALIDATION_MIN_CHUNK_BYTES + payload - 1) / payload)
    (by omega : 0 < txDepth)).2
  have hdown := Nat.div_mul_le_self (VALIDATION_MAX_CHUNK_BYTES / payload) txDepth
  have hmin : VALIDATION_MIN_CHUNK_BYTES = 65536 := rfl
  have hmax : VALIDATION_MAX_CHUNK_BYTES = 8388608 := rfl
  simp only [deriveValidationChunkSizeChecked, deriveValidationChunkSize,
    unwrapped_of_lt (by omega : payload * txDepth < 2 ^ 64), Option.bind_eq_bind, Option.bind_some]
  split
  next =>
    rw [unwrapped_of_lt (by omega), Option.bind_some, unwrapped_of_lt (by omega), Option.bind_some,
      unwrapped_of_lt (by omega), Option.bind_some, unwrapped_of_lt (by omega)]
  next =>
    split
    next =>
      rw [unwrapped_of_lt (by omega), Option.bind_some]
      split
      next => exact unwrapped_of_lt (by omega)
      next => rfl
    next => rfl

end ChunkSize

theorem chunksPerQpBase_antitone {b b' : Nat} (h : b ≤ b') :
    chunksPerQpBase b' ≤ chunksPerQpBase b := by
  unfold chunksPerQpBase
  split_ifs <;> omega

/-- A ring is not deeper for larger chunks or more QPs. -/
theorem deriveValidationChunksPerQp_antitone {b b' : Nat} {n n' : Int} (r : Bool) (hb : b ≤ b')
    (hn : n ≤ n') : deriveValidationChunksPerQp b' n' r ≤ deriveValidationChunksPerQp b n r := by
  have hbase := chunksPerQpBase_antitone hb
  simp only [deriveValidationChunksPerQp]
  generalize chunksPerQpBase b' = x at hbase
  generalize chunksPerQpBase b = y at hbase
  have hscale : (if n' ≤ 2 then x * 2 else if n' ≤ 4 then x * 3 / 2 else x) ≤
      if n ≤ 2 then y * 2 else if n ≤ 4 then y * 3 / 2 else y := by
    split_ifs <;> omega
  generalize (if n' ≤ 2 then x * 2 else if n' ≤ 4 then x * 3 / 2 else x) = u at hscale
  generalize (if n ≤ 2 then y * 2 else if n ≤ 4 then y * 3 / 2 else y) = w at hscale
  have hread : (if r then u * 3 / 2 else u) ≤ if r then w * 3 / 2 else w := by
    split_ifs <;> omega
  split_ifs <;> omega

/-- The geometry of the chunks: their sizes in operations and in bytes, without any value that
wraps, and ring depths that both backends accept and that do not grow. -/
theorem chunk_geometry {payload txDepth : Nat} (hp : 1 ≤ payload) (hp' : payload ≤ (2 ^ 32 - 1) / 2)
    (ht : 32 ≤ txDepth) (ht' : txDepth ≤ 15000) :
    1 ≤ deriveValidationChunkSize payload txDepth ∧
      VALIDATION_MIN_CHUNK_BYTES ≤ payload * deriveValidationChunkSize payload txDepth ∧
      payload * deriveValidationChunkSize payload txDepth ≤ max VALIDATION_MAX_CHUNK_BYTES payload ∧
      (txDepth ∣ deriveValidationChunkSize payload txDepth ∨
        deriveValidationChunkSize payload txDepth < txDepth) ∧
      deriveValidationChunkSizeChecked payload txDepth =
        some (deriveValidationChunkSize payload txDepth) ∧
      (∀ chunkBytes (numQps : Int) isRead,
        hostInitAcceptsChunks (deriveValidationChunksPerQp chunkBytes numQps isRead) ∧
        cudaInitAcceptsChunks (deriveValidationChunksPerQp chunkBytes numQps isRead)) ∧
      ∀ b b' (n n' : Int) isRead, b ≤ b' → n ≤ n' →
        deriveValidationChunksPerQp b' n' isRead ≤ deriveValidationChunksPerQp b n isRead := by
  obtain ⟨hl, hu⟩ := chunkBytes_bounds hp ht
  refine ⟨deriveValidationChunkSize_pos (by omega), hl, hu,
    deriveValidationChunkSize_dvd_or_lt hp (by omega),
    deriveValidationChunkSizeChecked_eq hp hp' ht ht', ?_, ?_⟩
  · intro chunkBytes numQps isRead
    have hr := deriveValidationChunksPerQp_range chunkBytes numQps isRead
    generalize deriveValidationChunksPerQp chunkBytes numQps isRead = c at hr
    have hmax : ¬ VALIDATION_MAX_CHUNKS_PER_QP < c := by
      unfold VALIDATION_MAX_CHUNKS_PER_QP
      omega
    have hzero : (c == 0) = false := beq_eq_false_iff_ne.mpr (by omega)
    rw [hostInitAcceptsChunks, cudaInitAcceptsChunks, decide_eq_false hmax, hzero,
      decide_eq_false (by omega)]
    exact ⟨rfl, rfl⟩
  · intro b b' n n' isRead hb hn
    exact deriveValidationChunksPerQp_antitone isRead hb hn

theorem chunk_geometry_small : deriveValidationChunkSize 100 128 = 768 ∧
    VALIDATION_MIN_CHUNK_BYTES ≤ 100 * deriveValidationChunkSize 100 128 :=
  ⟨by decide, (chunk_geometry (by decide) (by decide) (by decide) (by decide)).2.1⟩

end Perftest
