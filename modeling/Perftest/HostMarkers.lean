import Perftest.DvSender
import Mathlib.Data.List.Sort

namespace Perftest

open CMachine

structure MarkerScanEntry where
  markerPtr : Nat
  lastSeen : Nat
  chunkData : Nat
  qpId : Nat
  chunkId : Nat
deriving DecidableEq, Repr

def HOST_VALIDATION_MAX_VALIDATORS : Nat := 32
def HOST_VALIDATION_DEFAULT_VALIDATORS : Nat := 4

/-- `get_num_validators`; `availableCores` is what the system reports, zero if unknown. -/
def getNumValidators (numQps chunksPerQp : Nat) (mode : ValidationMode) (availableCores : Nat) :
    Nat :=
  let totalMarkers := u32 (numQps * chunksPerQp)
  let perQp := if mode = .read then 3 else 2
  let n := max (numQps * perQp) HOST_VALIDATION_DEFAULT_VALIDATORS
  let n := if 0 < availableCores then min n (availableCores / 2) else n
  max (min (min n HOST_VALIDATION_MAX_VALIDATORS) totalMarkers) 1

/-- Chunk-major, QP-interleaved order of the marker indices. -/
def logicalOrder (numQps chunksPerQp : Nat) : List Nat :=
  (List.range chunksPerQp).flatMap fun chunk =>
    (List.range numQps).map fun qp => u32 (qp * chunksPerQp + chunk)

def markerCount (totalMarkers numValidators i : Nat) : Nat :=
  totalMarkers / numValidators + if i < totalMarkers % numValidators then 1 else 0

/-- Consecutive pieces of a list, of the given lengths. -/
def assignSlices {α : Type} : List Nat → List α → List (List α)
  | [], _ => []
  | n :: ns, l => l.take n :: assignSlices ns (l.drop n)

/-- The scan entry of marker `idx`; the slot index is computed in `uint32_t`. -/
def scanEntry (tailMarkers recvSlots chunksPerQp opsPerChunk payloadSize idx : Nat) :
    MarkerScanEntry :=
  let qp := idx / chunksPerQp
  let chunk := idx % chunksPerQp
  { markerPtr := tailMarkers + idx * 8
    lastSeen := 0
    chunkData := recvSlots +
      u32 (qp * u32 (opsPerChunk * chunksPerQp) + chunk * opsPerChunk) * payloadSize
    qpId := qp
    chunkId := chunk }

/-- The scan entries of each validator. -/
def distributeMarkers (numValidators tailMarkers recvSlots numQps chunksPerQp opsPerChunk
    payloadSize : Nat) : List (List MarkerScanEntry) :=
  let counts := (List.range numValidators).map
    (markerCount (u32 (numQps * chunksPerQp)) numValidators)
  (assignSlices counts (logicalOrder numQps chunksPerQp)).map fun indices =>
    (indices.insertionSort (· ≤ ·)).map
      (scanEntry tailMarkers recvSlots chunksPerQp opsPerChunk payloadSize)

/-- The entries set up by `data_validation_init` for a validator whose buffer starts at `buf`: the
markers themselves for WRITE, the fetch-and-add return words for READ. -/
def validatorEntries (c : DvConfig) (L : ValidationBufferLayout) (buf availableCores : Nat) :
    List (List MarkerScanEntry) :=
  distributeMarkers
    (getNumValidators c.numOfQps c.validationChunksPerQp c.mode availableCores)
    (buf + if c.mode = .read then L.atomicReturnsOffset else L.markersOffset)
    (buf + L.recvSlotsOffset) c.numOfQps c.validationChunksPerQp c.validationChunkSize
    c.payloadSize

theorem getNumValidators_pos (n c : Nat) (m : ValidationMode) (a : Nat) :
    0 < getNumValidators n c m a := Nat.lt_of_lt_of_le Nat.one_pos (le_max_right _ _)

theorem assignSlices_flatten {α : Type} (ns : List Nat) (l : List α) (h : l.length ≤ ns.sum) :
    (assignSlices ns l).flatten = l := by
  induction ns generalizing l with
  | nil =>
    have hl : l = [] := List.length_eq_zero_iff.mp (by simpa using h)
    rw [hl]
    rfl
  | cons n ns ih =>
    have hd : (l.drop n).length ≤ ns.sum := by
      simp only [List.length_drop, List.sum_cons] at h ⊢
      omega
    rw [assignSlices, List.flatten_cons, ih _ hd, List.take_append_drop]

/-- The markers counted for the first `k` validators. -/
theorem markerCount_sum (t n k : Nat) :
    ((List.range k).map (markerCount t n)).sum = k * (t / n) + min k (t % n) := by
  induction k with
  | zero => simp
  | succ k ih =>
    rw [List.range_succ, List.map_append, List.sum_append, ih]
    simp only [List.map_cons, List.map_nil, List.sum_cons, List.sum_nil, markerCount,
      Nat.succ_mul]
    split <;> omega

theorem markerCount_total {n : Nat} (t : Nat) (hn : 0 < n) :
    ((List.range n).map (markerCount t n)).sum = t := by
  have hm := Nat.mod_lt t hn
  rw [markerCount_sum, Nat.min_eq_right (by omega)]
  exact Nat.div_add_mod t n

theorem logicalOrder_length (n c : Nat) : (logicalOrder n c).length = n * c := by
  simp [logicalOrder, List.length_flatMap, Nat.mul_comm]

theorem mem_logicalOrder {n c idx : Nat} (h : n * c < 2 ^ 32) :
    idx ∈ logicalOrder n c ↔ ∃ q i, q < n ∧ i < c ∧ idx = q * c + i := by
  have hu : ∀ q i, q < n → i < c → u32 (q * c + i) = q * c + i := by
    intro q i hq hi
    have := Cyclic.block_end_le (n := c) hq
    exact u32_of_lt (by omega)
  simp only [logicalOrder, List.mem_flatMap, List.mem_map, List.mem_range]
  constructor
  · rintro ⟨i, hi, q, hq, rfl⟩
    exact ⟨q, i, hq, hi, hu q i hq hi⟩
  · rintro ⟨q, i, hq, hi, rfl⟩
    exact ⟨i, hi, q, hq, hu q i hq hi⟩

/-- Over all validators together, the entries are those of the marker indices, each once. -/
theorem distributeMarkers_perm {nv : Nat} (hv : 0 < nv) (tm rs n c o p : Nat)
    (h : n * c < 2 ^ 32) :
    (distributeMarkers nv tm rs n c o p).flatten.Perm
      ((logicalOrder n c).map (scanEntry tm rs c o p)) := by
  have hs : (assignSlices ((List.range nv).map (markerCount (u32 (n * c)) nv))
      (logicalOrder n c)).flatten = logicalOrder n c :=
    assignSlices_flatten _ _ (by rw [markerCount_total _ hv, logicalOrder_length, u32_of_lt h])
  conv => rhs; rw [← hs]
  simp only [distributeMarkers, List.map_flatten]
  refine List.Perm.flatten_congr ?_
  rw [List.forall₂_map_left_iff, List.forall₂_map_right_iff, List.forall₂_same]
  exact fun l _ => (List.perm_insertionSort _ l).map _

theorem mem_validatorEntries {c : DvConfig} {L : ValidationBufferLayout} {buf cores : Nat}
    {en : MarkerScanEntry} :
    en ∈ (validatorEntries c L buf cores).flatten ↔
      ∃ q i, q < c.numOfQps ∧ i < c.validationChunksPerQp ∧
        en = scanEntry (buf + if c.mode = .read then L.atomicReturnsOffset else L.markersOffset)
          (buf + L.recvSlotsOffset) c.validationChunksPerQp c.validationChunkSize c.payloadSize
          (q * c.validationChunksPerQp + i) := by
  rw [validatorEntries,
    (distributeMarkers_perm (getNumValidators_pos _ _ _ _) _ _ _ _ _ _ c.markers_lt).mem_iff]
  simp only [List.mem_map, mem_logicalOrder c.markers_lt]
  constructor
  · rintro ⟨idx, ⟨q, i, hq, hi, rfl⟩, rfl⟩
    exact ⟨q, i, hq, hi, rfl⟩
  · rintro ⟨q, i, hq, hi, rfl⟩
    exact ⟨_, ⟨q, i, hq, hi, rfl⟩, rfl⟩

end Perftest
