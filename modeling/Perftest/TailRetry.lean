import Perftest.BackendAgreement
import Perftest.ChunkGeometry

namespace Perftest

open CMachine ByteMemory

/-- A chunk and the size of its messages, each in its type; twice a message size fits it too. -/
structure TailChunk where
  payloadSize : Nat
  chunkBytes : Nat
  payloadSize_lt : payloadSize < 2 ^ 63
  chunkBytes_lt : chunkBytes < 2 ^ 64

/-- The second read of the first wrong byte by thread 0, when it lies in the tail of the chunk:
whether it now matches, and the time. -/
def cudaTailRetry (payloadSize chunkSize : Nat) (expected : UInt8) (rd : ChunkReader)
    (errOff t : Nat) : Bool × Nat :=
  if subU64 chunkSize (tailBytes payloadSize) ≤ errOff then (rd t errOff = expected, t + 1)
  else (false, t)

/-- The classification by thread 0; the chunk is read from time `t` on. -/
def cudaClassify (payloadSize chunkSize : Nat) (expected : UInt8) (rd : ChunkReader)
    (errOff : Nat) (errActual : UInt8) (t : Nat) : ValidationMismatchType :=
  let (retryMatched, t) := cudaTailRetry payloadSize chunkSize expected rd errOff t
  if !retryMatched ∧ errOff + 4 < chunkSize then
    classifyValidationMismatch errOff chunkSize payloadSize expected (rd t errOff) retryMatched
      (fun i => rd (t + 1 + i) (errOff + 1 + i)) true
  else
    classifyValidationMismatch errOff chunkSize payloadSize expected errActual retryMatched
      (fun _ => expected) false

namespace TailChunk

variable (c : TailChunk)

/-- The offset lies in the last bytes of the chunk, in the size of two messages or 256. -/
def InTail (m : Nat) : Prop := c.chunkBytes ≤ m + max 256 (2 * c.payloadSize)

/-- What the host does with a mismatch of its first scan: it reads again exactly in the tail, and
takes the mismatch as stale exactly if all bytes from it on then match. -/
def HostRetriesTail : Prop :=
  ∀ (expected : UInt8) (rd : ChunkReader) (t m : Nat) (actual : UInt8) (t' : Nat),
    validateChunk rd expected 0 c.chunkBytes t = (some (m, actual), t') →
      (t' < (tailRetry c.payloadSize c.chunkBytes expected rd m actual t').2.2.2 ↔ c.InTail m) ∧
      ((inspectChunk c.payloadSize c.chunkBytes expected rd t).1.map (·.mtype) = some .stale ↔
        c.InTail m ∧ ∀ a, m ≤ a → a < c.chunkBytes → rd (t' + (a - m)) a = expected)

/-- The same of the kernel, which reads the mismatch itself again. -/
def CudaRetriesTail : Prop :=
  ∀ (expected : UInt8) (rd : ChunkReader) (m : Nat) (actual : UInt8) (t : Nat),
    m < c.chunkBytes → actual ≠ expected →
      (t < (cudaTailRetry c.payloadSize c.chunkBytes expected rd m t).2 ↔ c.InTail m) ∧
      (cudaClassify c.payloadSize c.chunkBytes expected rd m actual t = .stale ↔
        c.InTail m ∧ rd t m = expected)

end TailChunk

theorem classifyValidationMismatch_stale_iff {m n p : Nat} {expected actual : UInt8} {r v : Bool}
    {fwd : Fin 4 → UInt8} :
    classifyValidationMismatch m n p expected actual r fwd v = .stale ↔
      subU64 n (tailBytes p) ≤ m ∧ r = true := by
  unfold classifyValidationMismatch
  split_ifs with h1 h2
  · exact iff_of_true rfl h1
  · exact iff_of_false (by decide) h1
  · exact iff_of_false (by decide) h1

theorem tailBytes_eq (p : Nat) : tailBytes p = max 256 (2 * p) := by
  unfold tailBytes
  split <;> omega

/-- The classification of the kernel is the one of the block model when nothing changes. -/
theorem cudaClassify_steady (k : CudaKernel) (mem : Mem) (item : WorkItem) (s : BlockErrors)
    (t : Nat) : k.classify mem item s = cudaClassify k.payloadSize k.chunkSize item.expectedPattern
      (fun _ i => mem (k.chunkData item + i)) s.firstErrorOffset s.firstErrorActual t := by
  have hr : (cudaTailRetry k.payloadSize k.chunkSize item.expectedPattern
      (fun _ i => mem (k.chunkData item + i)) s.firstErrorOffset t).1 =
        decide (subU64 k.chunkSize (tailBytes k.payloadSize) ≤ s.firstErrorOffset ∧
          mem (k.chunkData item + s.firstErrorOffset) = item.expectedPattern) := by
    unfold cudaTailRetry
    split
    next h => simp only [h, true_and]
    next h => simp only [h, false_and, decide_false]
  simp only [CudaKernel.classify, cudaClassify, hr]
  generalize decide (subU64 k.chunkSize (tailBytes k.payloadSize) ≤ s.firstErrorOffset ∧
    mem (k.chunkData item + s.firstErrorOffset) = item.expectedPattern) = r
  cases r with
  | true => rfl
  | false =>
    by_cases hn : s.firstErrorOffset + 4 < k.chunkSize
    · simp only [Bool.not_false, hn, and_self, decide_true, if_true]
    · simp only [Bool.not_false, hn, and_false, decide_false, Bool.false_eq_true, if_false]

namespace TailChunk

variable {c : TailChunk} {m t : Nat} {expected actual : UInt8} {rd : ChunkReader}

/-- The test of the tail zone is right for chunks that are not smaller than the zone. -/
theorem zone_iff (h : tailBytes c.payloadSize ≤ c.chunkBytes) :
    subU64 c.chunkBytes (tailBytes c.payloadSize) ≤ m ↔ c.InTail m := by
  rw [InTail, ← tailBytes_eq, subU64_of_le h]
  omega

/-- The test is never met in smaller chunks: the subtraction wraps. -/
theorem not_zone (h : c.chunkBytes < tailBytes c.payloadSize) (hm : m < c.chunkBytes) :
    ¬ subU64 c.chunkBytes (tailBytes c.payloadSize) ≤ m := by
  have hp := c.payloadSize_lt
  have ht := tailBytes_eq c.payloadSize
  rw [subU64, if_neg (by omega)]
  omega

/-- All of a chunk smaller than the zone lies in it. -/
theorem inTail_of_lt (h : c.chunkBytes < tailBytes c.payloadSize) : c.InTail m := by
  rw [InTail, ← tailBytes_eq]
  omega

theorem tailRetry_time (hm : m < c.chunkBytes) :
    t < (tailRetry c.payloadSize c.chunkBytes expected rd m actual t).2.2.2 ↔
      subU64 c.chunkBytes (tailBytes c.payloadSize) ≤ m := by
  rcases tailRetry_spec c.payloadSize c.chunkBytes expected rd m actual t with
    ⟨ht, hr, -⟩ | ⟨ht, i, hr, -⟩ | ⟨ht, hr⟩
  · rw [hr]
    exact iff_of_true (by dsimp only; omega) ht
  · rw [hr]
    exact iff_of_true (by dsimp only; omega) ht
  · rw [hr]
    exact iff_of_false (by dsimp only; omega) ht

/-- A scan without a mismatch has seen the pattern at every offset. -/
theorem forall_eq_of_no_firstMismatch {off n : Nat}
    (h : ∀ m', ¬ FirstMismatch rd expected off n t m') :
    ∀ a, off ≤ a → a < off + n → rd (t + (a - off)) a = expected := by
  intro a
  induction a using Nat.strong_induction_on with
  | _ a ih =>
    intro hl hu
    by_contra hne
    exact h a ⟨hl, hu, hne, fun b hb hba => ih b hba hb (by omega)⟩

theorem inspectChunk_stale_iff {t' : Nat} (hm : m < c.chunkBytes)
    (hv : validateChunk rd expected 0 c.chunkBytes t = (some (m, actual), t')) :
    (inspectChunk c.payloadSize c.chunkBytes expected rd t).1.map (·.mtype) = some .stale ↔
      subU64 c.chunkBytes (tailBytes c.payloadSize) ≤ m ∧
        ∀ a, m ≤ a → a < c.chunkBytes → rd (t' + (a - m)) a = expected := by
  rw [inspectChunk_eq hv, Option.map_some, Option.some.injEq]
  have htype : ∀ (m' : Nat) (byte : UInt8) (r : Bool) (ts : Nat),
      (forwardSnapshot c.payloadSize c.chunkBytes expected rd actual m' byte r ts).1.mtype =
        .stale ↔ subU64 c.chunkBytes (tailBytes c.payloadSize) ≤ m' ∧ r = true := by
    intro m' byte r ts
    rw [forwardSnapshot]
    split
    · exact classifyValidationMismatch_stale_iff
    · exact classifyValidationMismatch_stale_iff
  rw [htype]
  rcases tailRetry_spec c.payloadSize c.chunkBytes expected rd m actual t' with
    ⟨ht, hr, hn⟩ | ⟨ht, i, hr, hf⟩ | ⟨ht, hr⟩
  · rw [hr]
    have hall := forall_eq_of_no_firstMismatch hn
    exact iff_of_true ⟨ht, rfl⟩ ⟨ht, fun a hl hu => hall a hl (by omega)⟩
  · rw [hr]
    refine iff_of_false (fun h => Bool.false_ne_true h.2) fun h => ?_
    exact hf.2.2.1 (h.2 (m + i) hf.1 (by have := hf.2.1; omega))
  · rw [hr]
    exact iff_of_false (fun h => ht h.1) fun h => ht h.1

theorem cudaTailRetry_time : t < (cudaTailRetry c.payloadSize c.chunkBytes expected rd m t).2 ↔
    subU64 c.chunkBytes (tailBytes c.payloadSize) ≤ m := by
  unfold cudaTailRetry
  split
  next h => exact iff_of_true (Nat.lt_succ_self t) h
  next h => exact iff_of_false (lt_irrefl t) h

theorem cudaClassify_stale_iff :
    cudaClassify c.payloadSize c.chunkBytes expected rd m actual t = .stale ↔
      subU64 c.chunkBytes (tailBytes c.payloadSize) ≤ m ∧ rd t m = expected := by
  have hmatched : (cudaTailRetry c.payloadSize c.chunkBytes expected rd m t).1 = true ↔
      subU64 c.chunkBytes (tailBytes c.payloadSize) ≤ m ∧ rd t m = expected := by
    unfold cudaTailRetry
    split
    next h => simp [h]
    next h => simp [h]
  simp only [cudaClassify]
  split
  · rw [classifyValidationMismatch_stale_iff, hmatched, and_self_left]
  · rw [classifyValidationMismatch_stale_iff, hmatched, and_self_left]

/-- A chunk with one byte of its own stops a scan there. -/
theorem exists_validateChunk (expected : UInt8) {n : Nat} (hm : m < n) :
    ∃ (rd : ChunkReader) (actual : UInt8) (t' : Nat),
      validateChunk rd expected 0 n 0 = (some (m, actual), t') := by
  let rd : ChunkReader := fun _ a => if a = m then expected + 1 else expected
  have hne : expected + 1 ≠ expected := by
    intro h
    exact absurd (add_eq_left.mp h) (by decide)
  have hfirst : FirstMismatch rd expected 0 n 0 m := by
    refine ⟨Nat.zero_le m, by omega, ?_, fun a _ ha => if_neg (by omega)⟩
    rw [show rd (0 + (m - 0)) m = expected + 1 from if_pos rfl]
    exact hne
  rcases validateChunk_spec rd expected 0 n 0 with ⟨-, hn⟩ | ⟨i, hv, hf⟩
  · exact absurd hfirst (hn m)
  · obtain rfl := hf.unique hfirst
    rw [Nat.zero_add] at *
    exact ⟨rd, _, _, hv⟩

/-- A chunk smaller than the zone is never read again. -/
theorem not_hostRetriesTail (h0 : c.chunkBytes ≠ 0)
    (h : c.chunkBytes < tailBytes c.payloadSize) : ¬ c.HostRetriesTail := by
  intro hall
  obtain ⟨rd, actual, t', hv⟩ := exists_validateChunk 0 (by omega : c.chunkBytes - 1 < c.chunkBytes)
  have hr := (hall 0 rd 0 _ actual t' hv).1.mpr (inTail_of_lt h)
  exact not_zone h (by omega) ((tailRetry_time (by omega)).mp hr)

theorem validateChunk_offset_lt {n t' : Nat}
    (hv : validateChunk rd expected 0 n t = (some (m, actual), t')) : m < n := by
  rcases validateChunk_spec rd expected 0 n t with ⟨hn, -⟩ | ⟨i, hs, hf⟩
  · rw [hn] at hv
    cases hv
  · rw [hs] at hv
    cases hv
    have := hf.2.1
    omega

/-- Both backends read the tail again as they should exactly if the chunk is empty or not smaller
than the tail zone. -/
theorem retriesTail_iff (c : TailChunk) : c.HostRetriesTail ∧ c.CudaRetriesTail ↔
    c.chunkBytes = 0 ∨ max 256 (2 * c.payloadSize) ≤ c.chunkBytes := by
  rw [← tailBytes_eq]
  constructor
  · intro h
    by_contra hne
    exact not_hostRetriesTail (by omega) (by omega) h.1
  · intro h
    have hzone : ∀ m, m < c.chunkBytes →
        (subU64 c.chunkBytes (tailBytes c.payloadSize) ≤ m ↔ c.InTail m) :=
      fun m hm => zone_iff (by omega)
    constructor
    · intro expected rd t m actual t' hv
      have hm := validateChunk_offset_lt hv
      exact ⟨(tailRetry_time hm).trans (hzone m hm),
        (inspectChunk_stale_iff hm hv).trans (and_congr_left' (hzone m hm))⟩
    · intro expected rd m actual t hm _
      exact ⟨cudaTailRetry_time.trans (hzone m hm),
        cudaClassify_stale_iff.trans (and_congr_left' (hzone m hm))⟩

end TailChunk

/-- The chunks of the derived size are as large as the tail zone up to messages of half the largest
chunk. -/
theorem deriveValidationChunkSize_tail_iff {payload txDepth : Nat} (hp : 1 ≤ payload)
    (ht : 32 ≤ txDepth) :
    max 256 (2 * payload) ≤ payload * deriveValidationChunkSize payload txDepth ↔
      payload ≤ VALIDATION_MAX_CHUNK_BYTES / 2 := by
  have hmin := (chunkBytes_bounds hp ht).1
  have hmax : VALIDATION_MAX_CHUNK_BYTES = 8388608 := rfl
  have hsmall : VALIDATION_MIN_CHUNK_BYTES = 65536 := rfl
  have htwo : 2 ≤ deriveValidationChunkSize payload txDepth ↔
      payload ≤ VALIDATION_MAX_CHUNK_BYTES / 2 := by
    have hraw : payload * 32 ≤ payload * txDepth := Nat.mul_le_mul_left payload ht
    obtain ⟨hlt, he⟩ | ⟨-, -, he⟩ | ⟨-, hle, he⟩ := @deriveValidationChunkSize_cases payload txDepth hp
    · have hpos := @deriveValidationChunkSize_pos payload txDepth (by omega)
      have hdvd : txDepth ∣ deriveValidationChunkSize payload txDepth := he ▸ Nat.dvd_mul_left _ _
      have := Nat.le_of_dvd hpos hdvd
      omega
    · rw [he, Nat.le_div_iff_mul_le (by omega : 0 < 2), Nat.mul_comm payload 2,
        ← Nat.le_div_iff_mul_le hp]
      omega
    · omega
  rw [← htwo]
  constructor
  · intro h
    by_contra hlt
    have hle : payload * deriveValidationChunkSize payload txDepth ≤ payload * 1 :=
      Nat.mul_le_mul_left payload (by omega)
    omega
  · intro h
    have hle : payload * 2 ≤ payload * deriveValidationChunkSize payload txDepth :=
      Nat.mul_le_mul_left payload h
    omega

/-- Messages of 8 MB, one in a chunk. -/
def wholeMessage : TailChunk where
  payloadSize := 8388608
  chunkBytes := 8388608 * deriveValidationChunkSize 8388608 128
  payloadSize_lt := by decide
  chunkBytes_lt := by decide

theorem wholeMessage_not_retried :
    ¬ (wholeMessage.HostRetriesTail ∧ wholeMessage.CudaRetriesTail) := by
  intro h
  exact TailChunk.not_hostRetriesTail (by decide) (by decide) h.1

end Perftest
