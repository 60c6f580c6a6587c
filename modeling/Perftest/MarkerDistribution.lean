import Perftest.HostAccounting
import Perftest.Lib.ArraySort
import Mathlib.Order.CompletePartialOrder

namespace Perftest

open CMachine ArraySort

/-- The arguments of `distribute_markers`, whose products fit the types in which they are computed:
`int` for the count of validators and the positions in the marker order, `uint32_t` for the slots,
`uint64_t` for the bytes. -/
structure MarkerGeometry where
  numQps : Nat
  chunksPerQp : Nat
  opsPerChunk : Nat
  payloadSize : Nat
  numQps_pos : 1 ≤ numQps
  chunksPerQp_pos : 1 ≤ chunksPerQp
  chunksPerQp_le : chunksPerQp ≤ VALIDATION_MAX_CHUNKS_PER_QP
  opsPerChunk_pos : 1 ≤ opsPerChunk
  payloadSize_pos : 1 ≤ payloadSize
  validators_fit : numQps * 3 < 2 ^ 31
  markers_fit : numQps * chunksPerQp < 2 ^ 31
  slots_fit : numQps * (opsPerChunk * chunksPerQp) < 2 ^ 32
  bytes_fit : numQps * (opsPerChunk * chunksPerQp) * payloadSize < 2 ^ 64

/-- The slices of the marker order, sorted in the array that they share; what each validator copies
out of it. -/
def assignMarkers : List Nat → Nat → (Nat → Nat) → List (List Nat)
  | [], _, _ => []
  | count :: counts, logicalPos, v =>
    let v := sortCells logicalPos count v
    cells v logicalPos count :: assignMarkers counts (u32 (logicalPos + count)) v

/-- `distribute_markers`; the marker order fills an array of `calloc`. -/
def distributeMarkersInPlace (numValidators tailMarkers recvSlots numQps chunksPerQp opsPerChunk
    payloadSize : Nat) : List (List MarkerScanEntry) :=
  let markerCounts := (List.range numValidators).map
    (markerCount (u32 (numQps * chunksPerQp)) numValidators)
  (assignMarkers markerCounts 0 fun i => (logicalOrder numQps chunksPerQp).getD i 0).map
    fun indices => indices.map (scanEntry tailMarkers recvSlots chunksPerQp opsPerChunk payloadSize)

/-- The marker that an entry polls. -/
def MarkerScanEntry.markerIndex (tailMarkers : Nat) (e : MarkerScanEntry) : Nat :=
  (e.markerPtr - tailMarkers) / 8

/-- The bytes of the chunk of an entry. -/
def MarkerScanEntry.region (chunkBytes : Nat) (e : MarkerScanEntry) : Set Nat :=
  Set.Ico e.chunkData (e.chunkData + chunkBytes)

section InPlace

theorem cells_getD (l : List Nat) : cells (fun i => l.getD i 0) 0 l.length = l := by
  apply List.ext_getElem
  · simp [cells]
  · intro i h1 h2
    simp [cells, List.getD_eq_getElem?_getD, List.getElem?_eq_getElem h2]

/-- Sorting the slices one after the other in the shared array sorts each for itself. -/
theorem assignMarkers_eq (counts : List Nat) {pos : Nat} {v : Nat → Nat} {l : List Nat}
    (hv : cells v pos l.length = l) (hs : counts.sum ≤ l.length)
    (hp : pos + l.length < 2 ^ 32) : assignMarkers counts pos v =
      (assignSlices counts l).map fun indices => indices.insertionSort (· ≤ ·) := by
  induction counts generalizing pos v l with
  | nil => rfl
  | cons count counts ih =>
    rw [List.sum_cons] at hs
    have hlen : l.length = count + (l.drop count).length := by
      rw [List.length_drop]
      omega
    have hsplit : cells v pos count ++ cells v (pos + count) (l.drop count).length =
        l.take count ++ l.drop count := by
      rw [← cells_add, ← hlen, hv, List.take_append_drop]
    obtain ⟨htake, hdrop⟩ := List.append_inj hsplit (by simp [cells]; omega)
    have hkeep : cells (sortCells pos count v) (pos + count) (l.drop count).length =
        cells v (pos + count) (l.drop count).length :=
      cells_congr fun j _ => sortCells_frame pos count v (Or.inr (by omega))
    rw [assignMarkers, u32_of_lt (by omega), ih (hkeep.trans hdrop) (by omega) (by omega), cells_sortCells,
      htake]
    rfl

theorem distributeMarkersInPlace_eq {nv : Nat} (hv : 0 < nv) (tm rs n c o p : Nat)
    (h : n * c < 2 ^ 32) : distributeMarkersInPlace nv tm rs n c o p =
      distributeMarkers nv tm rs n c o p := by
  have hl := logicalOrder_length n c
  rw [distributeMarkersInPlace, distributeMarkers,
    assignMarkers_eq _ (cells_getD (logicalOrder n c)), List.map_map]
  · rfl
  · rw [markerCount_total _ hv, hl]
    exact u32_le _
  · omega

theorem assignSlices_lengths {α : Type} (ns : List Nat) (l : List α) (h : ns.sum ≤ l.length) :
    (assignSlices ns l).map List.length = ns := by
  induction ns generalizing l with
  | nil => rfl
  | cons n ns ih =>
    rw [List.sum_cons] at h
    rw [assignSlices, List.map_cons, ih, List.length_take, Nat.min_eq_left (by omega)]
    rw [List.length_drop]
    omega

end InPlace

section Entries

variable {tm rs c o p : Nat}

theorem scanEntry_markerIndex (idx : Nat) : (scanEntry tm rs c o p idx).markerIndex tm = idx := by
  simp only [scanEntry, MarkerScanEntry.markerIndex]
  omega

/-- The slots of the chunks follow one another in the order of the marker indices. -/
theorem scanEntry_chunkData {n idx : Nat} (ho : 0 < o) (hi : idx < n * c)
    (h : n * (o * c) < 2 ^ 32) :
    (scanEntry tm rs c o p idx).chunkData = rs + idx * (o * p) := by
  have hn : 0 < n := Nat.pos_of_ne_zero (by intro h0; rw [h0, Nat.zero_mul] at hi; omega)
  have hle : o * c ≤ n * (o * c) := Nat.le_mul_of_pos_left _ hn
  have hidx : idx / c * (o * c) + idx % c * o = idx * o := by
    conv => rhs; rw [← Nat.div_add_mod idx c]
    ring
  have hlt : idx * o < n * (o * c) := by
    rw [show n * (o * c) = n * c * o by ring]
    exact Nat.mul_lt_mul_of_pos_right hi ho
  simp only [scanEntry]
  rw [u32_of_lt (by omega : o * c < 2 ^ 32), hidx, u32_of_lt (by omega), Nat.mul_assoc]

theorem mem_region_iff {n idx x : Nat} (ho : 0 < o) (hp : 0 < p) (hi : idx < n * c)
    (h : n * (o * c) < 2 ^ 32) : x ∈ (scanEntry tm rs c o p idx).region (o * p) ↔
      rs ≤ x ∧ (x - rs) / (o * p) = idx := by
  have hpos : 0 < o * p := Nat.mul_pos ho hp
  rw [MarkerScanEntry.region, scanEntry_chunkData ho hi h, Set.mem_Ico, Nat.div_eq_iff hpos]
  constructor
  · intro hx
    refine ⟨by omega, ?_, ?_⟩ <;> omega
  · intro hx
    omega

end Entries

namespace MarkerGeometry

variable (g : MarkerGeometry) (mode : ValidationMode) (cores tailMarkers recvSlots : Nat)

def totalMarkers : Nat := g.numQps * g.chunksPerQp

def chunkBytes : Nat := g.opsPerChunk * g.payloadSize

def entry (idx : Nat) : MarkerScanEntry :=
  scanEntry tailMarkers recvSlots g.chunksPerQp g.opsPerChunk g.payloadSize idx

/-- The marker indices of each validator. -/
def indices : List (List Nat) :=
  (assignSlices ((List.range (getNumValidators g.numQps g.chunksPerQp mode cores)).map
      (markerCount g.totalMarkers (getNumValidators g.numQps g.chunksPerQp mode cores)))
    (logicalOrder g.numQps g.chunksPerQp)).map fun l => l.insertionSort (· ≤ ·)

/-- The scan entries that `host_validation_init` gives to each validator. -/
def distributed : List (List MarkerScanEntry) :=
  distributeMarkersInPlace (getNumValidators g.numQps g.chunksPerQp mode cores) tailMarkers
    recvSlots g.numQps g.chunksPerQp g.opsPerChunk g.payloadSize

theorem totalMarkers_lt : g.numQps * g.chunksPerQp < 2 ^ 32 := by
  have := g.markers_fit
  omega

theorem totalMarkers_pos : 0 < g.totalMarkers := Nat.mul_pos g.numQps_pos g.chunksPerQp_pos

theorem numValidators_le :
    getNumValidators g.numQps g.chunksPerQp mode cores ≤ g.totalMarkers := by
  have h := g.totalMarkers_pos
  rw [getNumValidators, u32_of_lt g.totalMarkers_lt]
  exact max_le (min_le_right _ _) h

theorem distributed_eq : g.distributed mode cores tailMarkers recvSlots =
    (g.indices mode cores).map fun l => l.map (g.entry tailMarkers recvSlots) := by
  rw [distributed, distributeMarkersInPlace_eq (getNumValidators_pos _ _ _ _) _ _ _ _ _ _
    g.totalMarkers_lt, distributeMarkers, indices, List.map_map, u32_of_lt g.totalMarkers_lt]
  rfl

theorem counts_sum : ((List.range (getNumValidators g.numQps g.chunksPerQp mode cores)).map
    (markerCount g.totalMarkers (getNumValidators g.numQps g.chunksPerQp mode cores))).sum =
      (logicalOrder g.numQps g.chunksPerQp).length := by
  rw [markerCount_total _ (getNumValidators_pos _ _ _ _), logicalOrder_length]
  rfl

theorem indices_perm :
    (g.indices mode cores).flatten.Perm (List.range g.totalMarkers) := by
  have hs := assignSlices_flatten _ _ (g.counts_sum mode cores).ge
  refine List.Perm.trans ?_ (logicalOrder_perm g.totalMarkers_lt)
  conv => rhs; rw [← hs]
  refine List.Perm.flatten_congr ?_
  rw [indices, List.forall₂_map_left_iff, List.forall₂_same]
  intro l _
  exact List.perm_insertionSort _ l

theorem indices_lengths : (g.indices mode cores).map List.length =
    (List.range (getNumValidators g.numQps g.chunksPerQp mode cores)).map
      (markerCount g.totalMarkers (getNumValidators g.numQps g.chunksPerQp mode cores)) := by
  rw [indices, List.map_map]
  refine Eq.trans ?_ (assignSlices_lengths _ _ (g.counts_sum mode cores).le)
  apply List.map_congr_left
  intro l _
  exact List.length_insertionSort _ l

/-- Every validator has the quotient of markers or one more. -/
theorem indices_length_range {l : List Nat} (h : l ∈ g.indices mode cores) :
    g.totalMarkers / getNumValidators g.numQps g.chunksPerQp mode cores ≤ l.length ∧
      l.length ≤ g.totalMarkers / getNumValidators g.numQps g.chunksPerQp mode cores + 1 := by
  have hl : l.length ∈ (g.indices mode cores).map List.length := List.mem_map_of_mem h
  rw [indices_lengths] at hl
  obtain ⟨i, -, hi⟩ := List.mem_map.mp hl
  rw [← hi, markerCount]
  split <;> omega

theorem indices_increasing {l : List Nat} (h : l ∈ g.indices mode cores) :
    l.Pairwise (· < ·) := by
  have hn : l.Nodup := by
    have hf := (g.indices_perm mode cores).nodup_iff.mpr List.nodup_range
    exact hf.sublist (List.sublist_flatten_of_mem h)
  obtain ⟨s, -, rfl⟩ := List.mem_map.mp h
  exact ((List.pairwise_insertionSort (· ≤ ·) s).and hn).imp fun hab => lt_of_le_of_ne hab.1 hab.2

theorem distributed_flatten_perm : (g.distributed mode cores tailMarkers recvSlots).flatten.Perm
    ((List.range g.totalMarkers).map (g.entry tailMarkers recvSlots)) := by
  rw [distributed_eq, ← List.map_flatten]
  exact (g.indices_perm mode cores).map _

variable {tailMarkers recvSlots}

theorem mem_entry_region {idx x : Nat} (h : idx < g.totalMarkers) :
    x ∈ (g.entry tailMarkers recvSlots idx).region g.chunkBytes ↔
      recvSlots ≤ x ∧ (x - recvSlots) / g.chunkBytes = idx :=
  mem_region_iff g.opsPerChunk_pos g.payloadSize_pos h g.slots_fit

theorem entries_disjoint : ((List.range g.totalMarkers).map (g.entry tailMarkers recvSlots)).Pairwise
    fun e e' => Disjoint (e.region g.chunkBytes) (e'.region g.chunkBytes) := by
  rw [List.pairwise_map]
  refine List.pairwise_lt_range.imp_of_mem fun hi hj hij => ?_
  rw [Set.disjoint_left]
  intro x hx hx'
  have h1 := (g.mem_entry_region (List.mem_range.mp hi)).mp hx
  have h2 := (g.mem_entry_region (List.mem_range.mp hj)).mp hx'
  omega

theorem entries_cover (x : Nat) :
    (∃ e ∈ (List.range g.totalMarkers).map (g.entry tailMarkers recvSlots),
      x ∈ e.region g.chunkBytes) ↔
      recvSlots ≤ x ∧ x < recvSlots + g.numQps * (g.opsPerChunk * g.chunksPerQp) *
        g.payloadSize := by
  have hpos : 0 < g.chunkBytes := Nat.mul_pos g.opsPerChunk_pos g.payloadSize_pos
  have harea : g.numQps * (g.opsPerChunk * g.chunksPerQp) * g.payloadSize =
      g.totalMarkers * g.chunkBytes := by
    unfold totalMarkers chunkBytes
    ring
  rw [harea]
  constructor
  · intro h
    obtain ⟨e, he, hx⟩ := h
    obtain ⟨idx, hidx, rfl⟩ := List.mem_map.mp he
    have hidx := List.mem_range.mp hidx
    obtain ⟨hl, hd⟩ := (g.mem_entry_region hidx).mp hx
    rw [← hd] at hidx
    have := (Nat.div_lt_iff_lt_mul hpos).mp hidx
    omega
  · intro h
    have hidx : (x - recvSlots) / g.chunkBytes < g.totalMarkers :=
      (Nat.div_lt_iff_lt_mul hpos).mpr (by omega)
    exact ⟨_, List.mem_map_of_mem (List.mem_range.mpr hidx),
      (g.mem_entry_region hidx).mpr ⟨h.1, rfl⟩⟩

/-- Each marker is in exactly one of the lists; these are increasing, not empty and of nearly equal
lengths, and the chunks of their entries tile the receive slots. -/
structure DistributesMarkers (numValidators tailMarkers recvSlots : Nat)
    (lists : List (List MarkerScanEntry)) : Prop where
  length_eq : lists.length = numValidators
  partition : (lists.flatten.map (·.markerIndex tailMarkers)).Perm
    (List.range (g.numQps * g.chunksPerQp))
  increasing : ∀ l ∈ lists, l ≠ [] ∧ (l.map (·.markerIndex tailMarkers)).Pairwise (· < ·)
  balanced : ∀ l ∈ lists, ∀ l' ∈ lists, l.length ≤ l'.length + 1
  entries : ∀ e ∈ lists.flatten, e.markerPtr = tailMarkers + e.markerIndex tailMarkers * 8 ∧
    e.qpId = e.markerIndex tailMarkers / g.chunksPerQp ∧
    e.chunkId = e.markerIndex tailMarkers % g.chunksPerQp
  disjoint : lists.flatten.Pairwise fun e e' =>
    Disjoint (e.region (g.opsPerChunk * g.payloadSize)) (e'.region (g.opsPerChunk * g.payloadSize))
  cover : ∀ x, (∃ e ∈ lists.flatten, x ∈ e.region (g.opsPerChunk * g.payloadSize)) ↔
    recvSlots ≤ x ∧ x < recvSlots + g.numQps * (g.opsPerChunk * g.chunksPerQp) * g.payloadSize

/-- `distribute_markers` hands every marker to one of `get_num_validators` validators. -/
theorem distributed_markers (tailMarkers recvSlots : Nat) :
    g.DistributesMarkers (getNumValidators g.numQps g.chunksPerQp mode cores) tailMarkers recvSlots
      (g.distributed mode cores tailMarkers recvSlots) := by
  have hperm := g.distributed_flatten_perm mode cores tailMarkers recvSlots
  have hindex : ∀ idx, (g.entry tailMarkers recvSlots idx).markerIndex tailMarkers = idx :=
    fun idx => scanEntry_markerIndex idx
  have hmap : ∀ l : List Nat,
      (l.map (g.entry tailMarkers recvSlots)).map (·.markerIndex tailMarkers) = l := by
    intro l
    rw [List.map_map]
    exact (List.map_congr_left fun idx _ => hindex idx).trans (List.map_id l)
  have hmem : ∀ l ∈ g.distributed mode cores tailMarkers recvSlots, ∃ s ∈ g.indices mode cores,
      s.map (g.entry tailMarkers recvSlots) = l := by
    intro l hl
    rw [g.distributed_eq mode cores tailMarkers recvSlots] at hl
    exact List.mem_map.mp hl
  refine ⟨?_, ?_, ?_, ?_, ?_, ?_, ?_⟩
  · have hl := congrArg List.length (g.indices_lengths mode cores)
    rw [g.distributed_eq mode cores tailMarkers recvSlots]
    simpa only [List.length_map, List.length_range] using hl
  · have hm := hperm.map (·.markerIndex tailMarkers)
    rwa [hmap] at hm
  · intro l hl
    obtain ⟨s, hs, rfl⟩ := hmem l hl
    have hlen := (g.indices_length_range mode cores hs).1
    have hpos := Nat.div_pos (g.numValidators_le mode cores) (getNumValidators_pos _ _ _ _)
    refine ⟨?_, ?_⟩
    · intro hnil
      have hz := congrArg List.length hnil
      rw [List.length_map, List.length_nil] at hz
      omega
    · rw [hmap]
      exact g.indices_increasing mode cores hs
  · intro l hl l' hl'
    obtain ⟨s, hs, rfl⟩ := hmem l hl
    obtain ⟨s', hs', rfl⟩ := hmem l' hl'
    have h1 := g.indices_length_range mode cores hs
    have h2 := g.indices_length_range mode cores hs'
    rw [List.length_map, List.length_map]
    omega
  · intro e he
    obtain ⟨idx, -, rfl⟩ := List.mem_map.mp (hperm.mem_iff.mp he)
    rw [hindex]
    exact ⟨rfl, rfl, rfl⟩
  · exact (hperm.pairwise_iff fun h => h.symm).mpr g.entries_disjoint
  · intro x
    have hc := @entries_cover g tailMarkers recvSlots x
    simp only [← hperm.mem_iff] at hc
    exact hc

end MarkerGeometry

end Perftest
