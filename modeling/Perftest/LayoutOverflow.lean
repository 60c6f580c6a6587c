import Perftest.ValidationCommon

namespace Perftest

open CMachine

/-- The arguments of `compute_validation_layout`, each in its type. -/
structure LayoutArgs where
  payloadSize : Nat
  txDepth : Nat
  numQps : Nat
  chunksPerQp : Nat
  isReadMode : Bool
  payloadSize_lt : payloadSize < 2 ^ 64
  txDepth_lt : txDepth < 2 ^ 32
  numQps_lt : numQps < 2 ^ 32
  chunksPerQp_lt : chunksPerQp < 2 ^ 32

/-- Truncation to `uint64_t`. -/
def u64 (n : Nat) : Nat := n % 2 ^ 64

/-- `VALIDATION_CACHE_LINE_ALIGN` on a `uint64_t`. -/
def cacheLineAlignU64 (x : Nat) : Nat := u64 (x + 63) / 64 * 64

namespace LayoutArgs

variable (a : LayoutArgs)

/-- `compute_validation_layout` with the sums and products of its types. -/
def computeValidationLayout : Option ValidationBufferLayout := do
  if a.payloadSize = 0 ∨ a.txDepth = 0 ∨ a.numQps = 0 ∨ a.chunksPerQp = 0 then none
  let totalChunks := u32 (a.numQps * a.chunksPerQp)
  let slotsPerQp := u32 (a.txDepth * a.chunksPerQp)
  let markersSize := u64 (totalChunks * 8)
  let chunkBytes ← validationSafeMulU64 a.payloadSize a.txDepth
  let qpBytes ← validationSafeMulU64 chunkBytes a.chunksPerQp
  let recvSlotsSize ← validationSafeMulU64 qpBytes a.numQps
  let atomicReturnsSize := if a.isReadMode then u64 (totalChunks * 8) else u64 (a.numQps * 8)
  let markersOffset := cacheLineAlignU64 (u64 (a.payloadSize * 3))
  let recvSlotsOffset := cacheLineAlignU64 (u64 (markersOffset + markersSize))
  let atomicReturnsOffset := cacheLineAlignU64 (u64 (recvSlotsOffset + recvSlotsSize))
  return {
    totalSize := u64 (atomicReturnsOffset + atomicReturnsSize)
    markersOffset := markersOffset
    recvSlotsOffset := recvSlotsOffset
    atomicReturnsOffset := atomicReturnsOffset
    markersSize := markersSize
    recvSlotsSize := recvSlotsSize
    atomicReturnsSize := atomicReturnsSize
    slotsPerQp := slotsPerQp }

/-- The sizes of the regions over the integers. -/
def markersBytes : Nat := 8 * (a.numQps * a.chunksPerQp)
def recvSlotsBytes : Nat := a.payloadSize * a.txDepth * a.chunksPerQp * a.numQps
def atomicReturnsBytes : Nat :=
  if a.isReadMode then 8 * (a.numQps * a.chunksPerQp) else 8 * a.numQps

/-- The size of the whole buffer over the integers. -/
def totalBytes : Nat :=
  validationCacheLineAlign (validationCacheLineAlign (validationCacheLineAlign
    (3 * a.payloadSize) + a.markersBytes) + a.recvSlotsBytes) + a.atomicReturnsBytes

/-- The layout over the integers. -/
def layout : ValidationBufferLayout where
  totalSize := a.totalBytes
  markersOffset := validationCacheLineAlign (3 * a.payloadSize)
  recvSlotsOffset := validationCacheLineAlign (validationCacheLineAlign (3 * a.payloadSize) +
    a.markersBytes)
  atomicReturnsOffset := validationCacheLineAlign (validationCacheLineAlign
    (validationCacheLineAlign (3 * a.payloadSize) + a.markersBytes) + a.recvSlotsBytes)
  markersSize := a.markersBytes
  recvSlotsSize := a.recvSlotsBytes
  atomicReturnsSize := a.atomicReturnsBytes
  slotsPerQp := a.txDepth * a.chunksPerQp

/-- The layout holds the four regions one behind the other, from the pattern buffers at its start to
the atomic returns inside its total size, each aligned and of its size over the integers. -/
structure LaidOut (L : ValidationBufferLayout) : Prop where
  patterns : 3 * a.payloadSize ≤ L.markersOffset
  markers : L.markersOffset + a.markersBytes ≤ L.recvSlotsOffset
  recvSlots : L.recvSlotsOffset + a.recvSlotsBytes ≤ L.atomicReturnsOffset
  atomicReturns : L.atomicReturnsOffset + a.atomicReturnsBytes ≤ L.totalSize
  aligned : 64 ∣ L.markersOffset ∧ 64 ∣ L.recvSlotsOffset ∧ 64 ∣ L.atomicReturnsOffset
  slotsPerQp : L.slotsPerQp = a.txDepth * a.chunksPerQp
  markersSize : L.markersSize = a.markersBytes
  recvSlotsSize : L.recvSlotsSize = a.recvSlotsBytes

/-- The arguments that the checks refuse. -/
def Refused : Prop :=
  a.payloadSize = 0 ∨ a.txDepth = 0 ∨ a.numQps = 0 ∨ a.chunksPerQp = 0 ∨
    2 ^ 64 ≤ a.recvSlotsBytes

/-- The unchecked products and the whole buffer fit their types. -/
def Fits : Prop :=
  a.numQps * a.chunksPerQp < 2 ^ 32 ∧ a.txDepth * a.chunksPerQp < 2 ^ 32 ∧ a.totalBytes < 2 ^ 64

end LayoutArgs

theorem validationSafeMulU64_eq (a b : Nat) :
    validationSafeMulU64 a b = if a * b < 2 ^ 64 then some (a * b) else none := by
  rcases Nat.eq_zero_or_pos a with rfl | ha
  · simp [validationSafeMulU64]
  · have hiff : (2 ^ 64 - 1) / a < b ↔ ¬ a * b < 2 ^ 64 := by
      rw [Nat.div_lt_iff_lt_mul ha, Nat.mul_comm b a]
      omega
    rw [validationSafeMulU64]
    by_cases h : a * b < 2 ^ 64
    · rw [if_neg fun hc => hiff.mp hc.2 h, if_pos h]
    · rw [if_pos ⟨by omega, hiff.mpr h⟩, if_neg h]

theorem u64_of_lt {n : Nat} (h : n < 2 ^ 64) : u64 n = n := Nat.mod_eq_of_lt h

/-- An aligned offset that is not below the value has not wrapped. -/
theorem cacheLineAlignU64_of_le {x y : Nat} (h : x ≤ cacheLineAlignU64 (u64 y)) (hy : y ≤ x) :
    cacheLineAlignU64 (u64 y) = validationCacheLineAlign y := by
  unfold cacheLineAlignU64 u64 validationCacheLineAlign at *
  omega

theorem cacheLineAlignU64_of_lt {y : Nat} (h : validationCacheLineAlign y < 2 ^ 64) :
    cacheLineAlignU64 (u64 y) = validationCacheLineAlign y := by
  unfold cacheLineAlignU64 u64 validationCacheLineAlign at *
  omega

theorem dvd_cacheLineAlignU64 (x : Nat) : 64 ∣ cacheLineAlignU64 x := Dvd.intro_left _ rfl

theorem u64_of_le {x : Nat} (h : x ≤ u64 x) : x < 2 ^ 64 := by
  unfold u64 at h
  omega

namespace LayoutArgs

variable {a : LayoutArgs}

/-- The return value and the layout of an accepted call. -/
theorem computeValidationLayout_eq (a : LayoutArgs) :
    (a.Refused ∧ a.computeValidationLayout = none) ∨
    (¬ a.Refused ∧ a.computeValidationLayout =
      let markersSize := u64 (u32 (a.numQps * a.chunksPerQp) * 8)
      let atomicReturnsSize := if a.isReadMode then u64 (u32 (a.numQps * a.chunksPerQp) * 8)
        else u64 (a.numQps * 8)
      let markersOffset := cacheLineAlignU64 (u64 (a.payloadSize * 3))
      let recvSlotsOffset := cacheLineAlignU64 (u64 (markersOffset + markersSize))
      let atomicReturnsOffset := cacheLineAlignU64 (u64 (recvSlotsOffset + a.recvSlotsBytes))
      some {
        totalSize := u64 (atomicReturnsOffset + atomicReturnsSize)
        markersOffset := markersOffset
        recvSlotsOffset := recvSlotsOffset
        atomicReturnsOffset := atomicReturnsOffset
        markersSize := markersSize
        recvSlotsSize := a.recvSlotsBytes
        atomicReturnsSize := atomicReturnsSize
        slotsPerQp := u32 (a.txDepth * a.chunksPerQp) }) := by
  by_cases h0 : a.payloadSize = 0 ∨ a.txDepth = 0 ∨ a.numQps = 0 ∨ a.chunksPerQp = 0
  · left
    refine ⟨?_, ?_⟩
    · unfold Refused
      omega
    · simp [computeValidationLayout, h0]
  · have hc : 0 < a.chunksPerQp := by omega
    have hn : 0 < a.numQps := by omega
    by_cases hr : a.recvSlotsBytes < 2 ^ 64
    · right
      have hq : a.payloadSize * a.txDepth * a.chunksPerQp < 2 ^ 64 :=
        (Nat.le_mul_of_pos_right _ hn).trans_lt hr
      have ht : a.payloadSize * a.txDepth < 2 ^ 64 :=
        (Nat.le_mul_of_pos_right _ hc).trans_lt hq
      refine ⟨?_, ?_⟩
      · unfold Refused
        omega
      · unfold recvSlotsBytes at hr ⊢
        simp only [computeValidationLayout, h0, if_false, validationSafeMulU64_eq, ht, hq, hr,
          if_true, Option.bind_eq_bind, Option.bind_some, Option.pure_def]
    · left
      refine ⟨Or.inr (Or.inr (Or.inr (Or.inr (by omega)))), ?_⟩
      unfold recvSlotsBytes at hr
      simp only [computeValidationLayout, h0, if_false, validationSafeMulU64_eq,
        Option.bind_eq_bind, Option.pure_def]
      split_ifs <;> simp_all

theorem atomicReturnsSize_eq (h : a.numQps * a.chunksPerQp < 2 ^ 32) :
    (if a.isReadMode then u64 (u32 (a.numQps * a.chunksPerQp) * 8) else u64 (a.numQps * 8)) =
      a.atomicReturnsBytes := by
  have hn := a.numQps_lt
  rw [u32_of_lt h, u64_of_lt (by omega), u64_of_lt (by omega), atomicReturnsBytes]
  split <;> omega

theorem markersSize_eq (h : a.numQps * a.chunksPerQp < 2 ^ 32) :
    u64 (u32 (a.numQps * a.chunksPerQp) * 8) = a.markersBytes := by
  rw [u32_of_lt h, u64_of_lt (by omega), markersBytes]
  omega

/-- A layout that is right over the integers has wrapped nowhere. -/
theorem Fits.of_laidOut {L : ValidationBufferLayout} (hL : a.computeValidationLayout = some L)
    (h : a.LaidOut L) : a.Fits := by
  obtain ⟨-, hn⟩ | ⟨-, he⟩ := a.computeValidationLayout_eq
  · rw [hL] at hn
    cases hn
  · rw [hL] at he
    obtain rfl := Option.some.inj he
    obtain ⟨hp, hm, hr, ht, -, hslots, hmarkers, -⟩ := h
    simp only at hp hm hr ht hslots hmarkers
    have hc : a.numQps * a.chunksPerQp < 2 ^ 32 := by
      have hlt := u32_lt (a.numQps * a.chunksPerQp)
      rw [u64_of_lt (by omega), markersBytes] at hmarkers
      exact u32_eq_iff.mp (by omega)
    refine ⟨hc, u32_eq_iff.mp hslots, ?_⟩
    rw [atomicReturnsSize_eq hc] at ht
    rw [markersSize_eq hc] at hm hr ht
    rw [cacheLineAlignU64_of_le hp (by omega)] at hm hr ht
    rw [cacheLineAlignU64_of_le hm le_rfl] at hr ht
    rw [cacheLineAlignU64_of_le hr le_rfl] at ht
    rw [totalBytes, Nat.mul_comm 3]
    exact u64_of_le ht

/-- The layout of a buffer that fits is the one over the integers. -/
theorem Fits.layout_eq (h : a.Fits) (hr : ¬ a.Refused) :
    a.computeValidationLayout = some a.layout := by
  obtain ⟨hc, hs, ht⟩ := h
  obtain ⟨hx, -⟩ | ⟨-, he⟩ := a.computeValidationLayout_eq
  · exact absurd hx hr
  · rw [atomicReturnsSize_eq hc, markersSize_eq hc, u32_of_lt hs] at he
    have htot := ht
    unfold totalBytes at ht
    have h2 := le_validationCacheLineAlign
      (validationCacheLineAlign (3 * a.payloadSize) + a.markersBytes)
    have h1 := le_validationCacheLineAlign (validationCacheLineAlign (validationCacheLineAlign
      (3 * a.payloadSize) + a.markersBytes) + a.recvSlotsBytes)
    have e3 := @cacheLineAlignU64_of_lt (3 * a.payloadSize) (by omega)
    have e2 := @cacheLineAlignU64_of_lt
      (validationCacheLineAlign (3 * a.payloadSize) + a.markersBytes) (by omega)
    have e1 := @cacheLineAlignU64_of_lt (validationCacheLineAlign (validationCacheLineAlign
      (3 * a.payloadSize) + a.markersBytes) + a.recvSlotsBytes) (by omega)
    rw [Nat.mul_comm a.payloadSize 3] at he
    simp only [e3, e2, e1] at he
    rw [he, layout, ← totalBytes, u64_of_lt htot]

theorem layout_laidOut (a : LayoutArgs) : a.LaidOut a.layout where
  patterns := le_validationCacheLineAlign _
  markers := le_validationCacheLineAlign _
  recvSlots := le_validationCacheLineAlign _
  atomicReturns := le_rfl
  aligned := ⟨Dvd.intro_left _ rfl, Dvd.intro_left _ rfl, Dvd.intro_left _ rfl⟩
  slotsPerQp := rfl
  markersSize := rfl
  recvSlotsSize := rfl

/-- The layout that fits is the one of the model without bounds. -/
theorem Fits.computeValidationLayout_eq (h : a.Fits) (hr : ¬ a.Refused) :
    a.computeValidationLayout = Perftest.computeValidationLayout a.payloadSize a.txDepth a.numQps
      a.chunksPerQp a.isReadMode := by
  rw [h.layout_eq hr]
  obtain ⟨hc, hs, -⟩ := h
  have h0 : ¬ (a.payloadSize = 0 ∨ a.txDepth = 0 ∨ a.numQps = 0 ∨ a.chunksPerQp = 0) := by
    unfold Refused at hr
    omega
  have hrecv : a.recvSlotsBytes < 2 ^ 64 := by
    unfold Refused at hr
    omega
  have hq : a.payloadSize * a.txDepth * a.chunksPerQp < 2 ^ 64 :=
    (Nat.le_mul_of_pos_right _ (by omega)).trans_lt hrecv
  have ht : a.payloadSize * a.txDepth < 2 ^ 64 :=
    (Nat.le_mul_of_pos_right _ (by omega)).trans_lt hq
  have hatomic : (if a.isReadMode then a.numQps * a.chunksPerQp * 8 else a.numQps * 8) =
      a.atomicReturnsBytes := by
    rw [atomicReturnsBytes]
    split <;> omega
  have hm : a.numQps * a.chunksPerQp * 8 = a.markersBytes := Nat.mul_comm _ 8
  rw [recvSlotsBytes] at hrecv
  simp only [Perftest.computeValidationLayout, h0, if_false, validationSafeMulU64_eq, ht, hq, hrecv,
    if_true, Option.bind_eq_bind, Option.bind_some, Option.pure_def, u32_of_lt hc, u32_of_lt hs]
  rw [hatomic, hm, Nat.mul_comm a.payloadSize 3]
  rfl

/-- The layout is right over the integers exactly if the checks refuse the arguments, or the
unchecked products and the whole buffer fit their types. -/
theorem laidOut_iff (a : LayoutArgs) :
    (∀ L, a.computeValidationLayout = some L → a.LaidOut L) ↔ a.Refused ∨ a.Fits := by
  constructor
  · intro h
    obtain ⟨hr, -⟩ | ⟨-, he⟩ := a.computeValidationLayout_eq
    · exact Or.inl hr
    · exact Or.inr (Fits.of_laidOut he (h _ he))
  · intro h L hL
    rcases h with h | h
    · obtain ⟨-, hn⟩ | ⟨hr, -⟩ := a.computeValidationLayout_eq
      · rw [hL] at hn
        cases hn
      · exact absurd h hr
    · by_cases hr : a.Refused
      · obtain ⟨-, hn⟩ | ⟨hr', -⟩ := a.computeValidationLayout_eq
        · rw [hL] at hn
          cases hn
        · exact absurd hr hr'
      · rw [h.layout_eq hr] at hL
        obtain rfl := Option.some.inj hL
        exact layout_laidOut a

end LayoutArgs

/-- As many chunks as wrap to none. -/
def wrappedChunks : LayoutArgs where
  payloadSize := 1
  txDepth := 1
  numQps := 2 ^ 31
  chunksPerQp := 2
  isReadMode := false
  payloadSize_lt := by decide
  txDepth_lt := by decide
  numQps_lt := by decide
  chunksPerQp_lt := by decide

/-- The receive slots of an accepted layout start where the markers should be. -/
theorem wrappedChunks_not_laidOut :
    ¬ ∀ L, wrappedChunks.computeValidationLayout = some L → wrappedChunks.LaidOut L := by
  intro h
  obtain ⟨L, hL, hm⟩ : ∃ L, wrappedChunks.computeValidationLayout = some L ∧ L.markersSize = 0 :=
    ⟨_, rfl, rfl⟩
  have hs := (h L hL).markersSize
  rw [hm] at hs
  exact absurd hs (by decide)

end Perftest
