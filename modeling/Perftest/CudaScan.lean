import Perftest.CudaBlock
import Perftest.Lib.VectorScan

namespace Perftest

open CMachine ByteMemory

/-- The chunk and the threads of a call of `validate_chunk_portion`: the end of the chunk is an
address, and there is a thread. -/
structure PortionLaunch where
  dataAddr : Nat
  size : Nat
  numThreads : Nat
  size_ge : 16 ≤ size
  end_lt : dataAddr + size < 2 ^ 64
  numThreads_pos : 1 ≤ numThreads

/-- `for (i = first; i < bound; i += step)`: the values of `i`, with `fuel` for the loop. -/
def strideFrom (step bound : Nat) : Nat → Nat → List Nat
  | 0, _ => []
  | fuel + 1, i => if i < bound then i :: strideFrom step bound fuel (i + step) else []

/-- A byte spread over the four bytes of a word. -/
def pattern32 (expected : UInt8) : Nat :=
  expected.toNat ||| expected.toNat <<< 8 ||| expected.toNat <<< 16 ||| expected.toNat <<< 24

/-- Byte `b` of `pattern128`. -/
def pattern128Byte (expected : UInt8) (b : Nat) : UInt8 :=
  UInt8.ofNat (pattern32 expected / 256 ^ (b % 4))

/-- The word at an address. -/
def word32 (mem : Mem) (addr : Nat) : Nat :=
  ((List.range 4).map fun j => (mem (addr + j)).toNat * (2 ^ 8) ^ j).sum

namespace PortionLaunch

variable (c : PortionLaunch) (mem : Mem) (expected : UInt8)

def alignedStartAddr : Nat := (c.dataAddr + 15) % 2 ^ 64 / 16 * 16
def alignedEndAddr : Nat := (c.dataAddr + c.size) % 2 ^ 64 / 16 * 16

def headSize : Nat :=
  if c.dataAddr < c.alignedStartAddr then c.alignedStartAddr - c.dataAddr else 0

def tailOffset : Nat := subU64 c.alignedEndAddr c.dataAddr
def tailSize : Nat := subU64 c.size c.tailOffset

def numUint4s : Nat :=
  if c.alignedStartAddr < c.alignedEndAddr then (c.alignedEndAddr - c.alignedStartAddr) / 16 else 0

/-- Byte `value` at offset `i` is compared with the byte `exp`. -/
def see (exp value : UInt8) (i : Nat) (acc : PortionErrors) : PortionErrors :=
  if value ≠ exp then
    if i < acc.errorOffset then ⟨acc.errors + 1, i, value⟩
    else { acc with errors := acc.errors + 1 }
  else acc

/-- The 16 bytes of word `idx` of the aligned region: first compared as four words, then one by
one. -/
def seeUint4 (acc : PortionErrors) (idx : Nat) : PortionErrors :=
  let loaded := c.alignedStartAddr + idx * 16
  if word32 mem loaded ≠ pattern32 expected ∨ word32 mem (loaded + 4) ≠ pattern32 expected ∨
      word32 mem (loaded + 8) ≠ pattern32 expected ∨
      word32 mem (loaded + 12) ≠ pattern32 expected then
    (List.range 16).foldl (fun acc b =>
      see (pattern128Byte expected b) (mem (loaded + b)) (c.headSize + idx * 16 + b) acc) acc
  else acc

/-- `validate_chunk_portion` of thread `tid`. -/
def validateChunkPortion (tid : Nat) : PortionErrors :=
  let acc : PortionErrors := ⟨0, UINT64_MAX, 0⟩
  let acc := (strideFrom c.numThreads c.headSize c.headSize tid).foldl
    (fun acc i => see expected (mem (c.dataAddr + i)) i acc) acc
  let acc := (strideFrom c.numThreads c.numUint4s c.numUint4s tid).foldl
    (c.seeUint4 mem expected) acc
  (strideFrom c.numThreads c.tailSize c.tailSize tid).foldl
    (fun acc i => see expected (mem (c.dataAddr + (c.tailOffset + i))) (c.tailOffset + i) acc) acc

/-- The offsets of the head, the aligned region and the tail that thread `tid` visits. -/
def head (tid : Nat) : List Nat := strideFrom c.numThreads c.headSize c.headSize tid

def aligned (tid : Nat) : List Nat :=
  (strideFrom c.numThreads c.numUint4s c.numUint4s tid).flatMap fun idx =>
    (List.range 16).map fun b => c.headSize + idx * 16 + b

def tail (tid : Nat) : List Nat :=
  (strideFrom c.numThreads c.tailSize c.tailSize tid).map fun i => c.tailOffset + i

def visited (tid : Nat) : List Nat := c.head tid ++ c.aligned tid ++ c.tail tid

/-- The bytes of the chunk. -/
def bytes (mem : Mem) : Nat → UInt8 := fun i => mem (c.dataAddr + i)

/-- The thread that looks at an offset. -/
def owner (o : Nat) : Nat :=
  if o < c.headSize then o % c.numThreads
  else if o < c.tailOffset then (o - c.headSize) / 16 % c.numThreads
  else (o - c.tailOffset) % c.numThreads

end PortionLaunch

section Stride

variable {step bound fuel i o : Nat}

theorem mem_strideFrom (hs : 0 < step) (hf : bound ≤ i + fuel) :
    o ∈ strideFrom step bound fuel i ↔ i ≤ o ∧ o < bound ∧ o % step = i % step := by
  induction fuel generalizing i with
  | zero =>
    refine ⟨fun h => (nomatch h), fun h => ?_⟩
    omega
  | succ fuel ih =>
    rw [strideFrom]
    split
    next hi =>
      rw [List.mem_cons, ih (by omega), Nat.add_mod_right]
      constructor
      · intro h
        rcases h with rfl | h
        · exact ⟨le_rfl, hi, rfl⟩
        · exact ⟨by omega, h.2.1, h.2.2⟩
      · intro h
        obtain ⟨hl, hu, hm⟩ := h
        rcases Nat.lt_or_ge o (i + step) with hlt | hge
        · left
          have hz := Nat.sub_mod_eq_zero_of_mod_eq hm
          rw [Nat.mod_eq_of_lt (by omega)] at hz
          omega
        · exact Or.inr ⟨hge, hu, hm⟩
    next hi =>
      refine ⟨fun h => (nomatch h), fun h => ?_⟩
      omega

theorem strideFrom_pairwise (hs : 0 < step) (fuel i : Nat) :
    (strideFrom step bound fuel i).Pairwise (· < ·) ∧ ∀ o ∈ strideFrom step bound fuel i, i ≤ o := by
  induction fuel generalizing i with
  | zero => exact ⟨List.Pairwise.nil, fun o ho => (nomatch ho)⟩
  | succ fuel ih =>
    obtain ⟨hp, hle⟩ := ih (i + step)
    rw [strideFrom]
    split
    next =>
      refine ⟨List.pairwise_cons.mpr ⟨fun o ho => ?_, hp⟩, fun o ho => ?_⟩
      · have := hle o ho
        omega
      · rcases List.mem_cons.mp ho with rfl | ho
        · exact le_rfl
        · have := hle o ho
          omega
    next => exact ⟨List.Pairwise.nil, fun o ho => (nomatch ho)⟩

theorem nodup_strideFrom (hs : 0 < step) : (strideFrom step bound fuel i).Nodup :=
  (strideFrom_pairwise hs fuel i).1.imp fun h => Nat.ne_of_lt h

/-- The loop of a thread visits the numbers below the bound that leave its number. -/
theorem mem_strideFrom_thread (h : i < step) :
    o ∈ strideFrom step bound bound i ↔ o < bound ∧ o % step = i := by
  rw [mem_strideFrom (by omega) (by omega), Nat.mod_eq_of_lt h]
  constructor
  · intro ho
    exact ho.2
  · intro ho
    exact ⟨ho.2 ▸ Nat.mod_le o step, ho⟩

end Stride

section Words

variable {mem : Mem} {expected : UInt8} {addr : Nat}

theorem pattern32_eq (expected : UInt8) : pattern32 expected =
    ((List.range 4).map fun j => expected.toNat * (2 ^ 8) ^ j).sum := by
  have hall : ∀ e < 256, e ||| e <<< 8 ||| e <<< 16 ||| e <<< 24 =
      ((List.range 4).map fun j => e * (2 ^ 8) ^ j).sum := by
    decide +kernel
  exact hall _ expected.toNat_lt

theorem pattern128Byte_eq (expected : UInt8) (b : Nat) : pattern128Byte expected b = expected := by
  have hall : ∀ e < 256, ∀ r < 4, UInt8.ofNat
      (((List.range 4).map fun j => e * (2 ^ 8) ^ j).sum / 256 ^ r) = UInt8.ofNat e := by
    decide +kernel
  rw [pattern128Byte, pattern32_eq, hall _ expected.toNat_lt _ (Nat.mod_lt b (by omega)),
    UInt8.ofNat_toNat]

theorem word32_eq_pattern32_iff :
    word32 mem addr = pattern32 expected ↔ ∀ b, b < 4 → mem (addr + b) = expected := by
  rw [pattern32_eq, word32]
  constructor
  · intro h b hb
    exact UInt8.toNat_inj.mp (VectorScan.sum_digits_inj (fun j => (mem (addr + j)).toNat_lt)
      (fun _ => expected.toNat_lt) h b hb)
  · intro h
    refine congrArg List.sum (List.map_congr_left fun j hj => ?_)
    rw [h j (List.mem_range.mp hj)]

end Words

namespace PortionLaunch

variable {c : PortionLaunch} {mem : Mem} {expected : UInt8} {tid o : Nat}

/-- The head ends at a 16-byte boundary inside the chunk, and the tail starts behind the whole words
from there on. -/
theorem bounds (c : PortionLaunch) :
    c.alignedStartAddr = c.dataAddr + c.headSize ∧
      c.tailOffset = c.headSize + 16 * c.numUint4s ∧ c.tailOffset ≤ c.size ∧
      c.tailSize = c.size - c.tailOffset := by
  have hn := c.size_ge
  have he := c.end_lt
  have hstart : c.alignedStartAddr = (c.dataAddr + 15) / 16 * 16 := by
    rw [alignedStartAddr, Nat.mod_eq_of_lt (by omega)]
  have hend : c.alignedEndAddr = (c.dataAddr + c.size) / 16 * 16 := by
    rw [alignedEndAddr, Nat.mod_eq_of_lt he]
  have hoff : c.tailOffset = (c.dataAddr + c.size) / 16 * 16 - c.dataAddr := by
    rw [tailOffset, hend, subU64_of_le (by omega)]
  have hsize : c.tailSize = c.size - c.tailOffset := subU64_of_le (by omega)
  refine ⟨?_, ?_, by omega, hsize⟩
  · rw [headSize]
    split <;> omega
  · rw [hoff, headSize, numUint4s, hstart, hend]
    split <;> split <;> omega

theorem seeUint4_eq (acc : PortionErrors) (idx : Nat) :
    c.seeUint4 mem expected acc idx = ((List.range 16).map fun b => c.headSize + idx * 16 + b).foldl
      (PortionErrors.see (c.bytes mem) expected) acc := by
  have hstart := c.bounds.1
  have hsee : ∀ acc b, see (pattern128Byte expected b)
      (mem (c.alignedStartAddr + idx * 16 + b)) (c.headSize + idx * 16 + b) acc =
        PortionErrors.see (c.bytes mem) expected acc (c.headSize + idx * 16 + b) := by
    intro acc b
    rw [pattern128Byte_eq, hstart, see, PortionErrors.see, bytes,
      show c.dataAddr + c.headSize + idx * 16 + b = c.dataAddr + (c.headSize + idx * 16 + b) by
        omega]
  rw [List.foldl_map]
  simp only [seeUint4, hsee]
  split
  next => rfl
  next h =>
    simp only [ne_eq, not_or, not_not, word32_eq_pattern32_iff] at h
    obtain ⟨h0, h1, h2, h3⟩ := h
    have hall : ∀ b ∈ List.range 16, c.bytes mem (c.headSize + idx * 16 + b) = expected := by
      intro b hb
      have hb := List.mem_range.mp hb
      have hr : b % 4 < 4 := Nat.mod_lt b (by omega)
      rw [bytes, show c.dataAddr + (c.headSize + idx * 16 + b) =
        c.alignedStartAddr + idx * 16 + b by omega]
      have hq : b / 4 < 4 := by omega
      interval_cases hd : b / 4
      · rw [show b = b % 4 by omega]
        exact h0 _ hr
      · rw [show b = 4 + b % 4 by omega, ← Nat.add_assoc]
        exact h1 _ hr
      · rw [show b = 8 + b % 4 by omega, ← Nat.add_assoc]
        exact h2 _ hr
      · rw [show b = 12 + b % 4 by omega, ← Nat.add_assoc]
        exact h3 _ hr
    symm
    refine List.foldlRecOn (List.range 16) _ (motive := fun x => x = acc) rfl ?_
    intro x hx b hb
    rw [hx, PortionErrors.see, if_neg (not_not.mpr (hall b hb))]

theorem foldl_flatMap' {α β γ : Type} (f : γ → β → γ) (g : α → List β) (l : List α) (acc : γ) :
    (l.flatMap g).foldl f acc = l.foldl (fun acc a => (g a).foldl f acc) acc := by
  induction l generalizing acc with
  | nil => rfl
  | cons a l ih => rw [List.flatMap_cons, List.foldl_append, List.foldl_cons, ih]

/-- The three loops of a thread compare the bytes at the offsets that it visits. -/
theorem validateChunkPortion_eq : c.validateChunkPortion mem expected tid =
    (c.visited tid).foldl (PortionErrors.see (c.bytes mem) expected) ⟨0, UINT64_MAX, 0⟩ := by
  have hword : c.seeUint4 mem expected = fun acc idx =>
      ((List.range 16).map fun b => c.headSize + idx * 16 + b).foldl
        (PortionErrors.see (c.bytes mem) expected) acc :=
    funext fun acc => funext fun idx => seeUint4_eq acc idx
  rw [visited, List.foldl_append, List.foldl_append, aligned, foldl_flatMap', tail, List.foldl_map,
    validateChunkPortion, hword]
  rfl

theorem mem_head (ht : tid < c.numThreads) :
    o ∈ c.head tid ↔ o < c.headSize ∧ o % c.numThreads = tid := mem_strideFrom_thread ht

theorem mem_aligned (ht : tid < c.numThreads) : o ∈ c.aligned tid ↔
    c.headSize ≤ o ∧ o < c.tailOffset ∧ (o - c.headSize) / 16 % c.numThreads = tid := by
  obtain ⟨-, htail, -⟩ := c.bounds
  simp only [aligned, List.mem_flatMap, List.mem_map, List.mem_range, mem_strideFrom_thread ht]
  constructor
  · intro h
    obtain ⟨idx, ⟨hi, hm⟩, b, hb, rfl⟩ := h
    refine ⟨by omega, by omega, ?_⟩
    rw [show (c.headSize + idx * 16 + b - c.headSize) / 16 = idx by omega]
    exact hm
  · intro h
    obtain ⟨hl, hu, hm⟩ := h
    exact ⟨(o - c.headSize) / 16, ⟨by omega, hm⟩, (o - c.headSize) % 16, by omega, by omega⟩

theorem mem_tail (ht : tid < c.numThreads) : o ∈ c.tail tid ↔
    c.tailOffset ≤ o ∧ o < c.size ∧ (o - c.tailOffset) % c.numThreads = tid := by
  obtain ⟨-, -, hle, hsize⟩ := c.bounds
  simp only [tail, List.mem_map, mem_strideFrom_thread ht]
  constructor
  · intro h
    obtain ⟨i, ⟨hi, hm⟩, rfl⟩ := h
    refine ⟨by omega, by omega, ?_⟩
    rwa [Nat.add_sub_cancel_left]
  · intro h
    obtain ⟨hl, hu, hm⟩ := h
    exact ⟨o - c.tailOffset, ⟨by omega, hm⟩, by omega⟩

/-- Every offset of the chunk has one thread that visits it. -/
theorem mem_visited (ht : tid < c.numThreads) :
    o ∈ c.visited tid ↔ o < c.size ∧ c.owner o = tid := by
  obtain ⟨-, htail, hle, -⟩ := c.bounds
  rw [visited, List.mem_append, List.mem_append, mem_head ht, mem_aligned ht, mem_tail ht, owner]
  by_cases h1 : o < c.headSize
  · rw [if_pos h1]
    omega
  · rw [if_neg h1]
    by_cases h2 : o < c.tailOffset
    · rw [if_pos h2]
      omega
    · rw [if_neg h2]
      omega

theorem nodup_visited (ht : tid < c.numThreads) : (c.visited tid).Nodup := by
  obtain ⟨-, htail, hle, -⟩ := c.bounds
  have hstep : 0 < c.numThreads := c.numThreads_pos
  have haligned : (c.aligned tid).Nodup := by
    refine List.nodup_flatMap.mpr ⟨fun idx _ => ?_, ?_⟩
    · exact List.nodup_range.map fun x y hxy => by omega
    · refine (nodup_strideFrom hstep).imp fun {x y} hne => ?_
      simp only [Function.onFun, List.Disjoint, List.mem_map, List.mem_range]
      intro o hx hy
      obtain ⟨b, hb, rfl⟩ := hx
      obtain ⟨b', hb', he⟩ := hy
      omega
  have htail : (c.tail tid).Nodup := (nodup_strideFrom hstep).map fun x y hxy => by omega
  refine List.Nodup.append (List.Nodup.append (nodup_strideFrom hstep) haligned ?_) htail ?_
  · intro o hh ha
    have h1 := ((mem_head ht).mp hh).1
    have h2 := ((mem_aligned ht).mp ha).1
    omega
  · intro o hh ha
    have h2 := ((mem_tail ht).mp ha).1
    rcases List.mem_append.mp hh with hh | hh
    · have h1 := ((mem_head ht).mp hh).1
      omega
    · have h1 := ((mem_aligned ht).mp hh).2.1
      omega

theorem owner_lt (c : PortionLaunch) (o : Nat) : c.owner o < c.numThreads := by
  have hstep : 0 < c.numThreads := c.numThreads_pos
  unfold owner
  split_ifs <;> exact Nat.mod_lt _ hstep

/-- What thread `tid` returns: the count and the first of the mismatches that it visits. -/
theorem validateChunkPortion_thread (ht : tid < c.numThreads) :
    (c.validateChunkPortion mem expected tid).errors = UInt32.ofNat
        ((wrongBytes (c.bytes mem) c.size expected).filter fun o => c.owner o = tid).card ∧
      FirstOf (c.bytes mem)
        ((wrongBytes (c.bytes mem) c.size expected).filter fun o => c.owner o = tid)
        ((c.validateChunkPortion mem expected tid).errorOffset,
          (c.validateChunkPortion mem expected tid).actualByte) := by
  have hset : (c.visited tid).toFinset.filter (fun o => c.bytes mem o ≠ expected) =
      (wrongBytes (c.bytes mem) c.size expected).filter fun o => c.owner o = tid := by
    ext o
    simp only [wrongBytes, Finset.mem_filter, List.mem_toFinset, mem_visited ht, Finset.mem_range]
    tauto
  have hlt : ∀ o ∈ c.visited tid, o < UINT64_MAX := by
    intro o ho
    have h1 := ((mem_visited ht).mp ho).1
    have h2 := c.end_lt
    unfold UINT64_MAX
    omega
  rw [validateChunkPortion_eq]
  have h := foldl_see (c.bytes mem) expected (c.visited tid) (nodup_visited ht) hlt
  rw [hset] at h
  exact h

theorem card_wrongBytes_threads (c : PortionLaunch) (mem : Mem) (expected : UInt8) :
    (wrongBytes (c.bytes mem) c.size expected).card = ∑ tid ∈ Finset.range c.numThreads,
      ((wrongBytes (c.bytes mem) c.size expected).filter fun o => c.owner o = tid).card :=
  Finset.card_eq_sum_card_fiberwise fun o _ =>
    Finset.mem_coe.mpr (Finset.mem_range.mpr (c.owner_lt o))

/-- The threads visit every offset of the chunk once; their counts add up to the mismatches, and the
smallest of their offsets is the first mismatch, with its byte. -/
theorem validateChunkPortion_covers (c : PortionLaunch) (mem : Mem) (expected : UInt8) :
    (∀ o, o < c.size ↔ ∃ tid, tid < c.numThreads ∧ o ∈ c.visited tid) ∧
      (∀ tid, tid < c.numThreads → (c.visited tid).Nodup) ∧
      (∀ tid tid', tid < c.numThreads → tid' < c.numThreads → tid ≠ tid' →
        List.Disjoint (c.visited tid) (c.visited tid')) ∧
      ((wrongBytes (c.bytes mem) c.size expected).card < 2 ^ 32 →
        ∑ tid ∈ Finset.range c.numThreads, (c.validateChunkPortion mem expected tid).errors.toNat =
          (wrongBytes (c.bytes mem) c.size expected).card) ∧
      (∀ m, m < c.size → c.bytes mem m ≠ expected → (∀ o, o < m → c.bytes mem o = expected) →
        (∀ tid, tid < c.numThreads → m ≤ (c.validateChunkPortion mem expected tid).errorOffset) ∧
        ∃ tid, tid < c.numThreads ∧ (c.validateChunkPortion mem expected tid).errorOffset = m ∧
          (c.validateChunkPortion mem expected tid).actualByte = c.bytes mem m) ∧
      ((∀ o, o < c.size → c.bytes mem o = expected) →
        ∀ tid, tid < c.numThreads → (c.validateChunkPortion mem expected tid).errors = 0 ∧
          (c.validateChunkPortion mem expected tid).errorOffset = UINT64_MAX) := by
  refine ⟨?_, fun tid ht => nodup_visited ht, ?_, ?_, ?_, ?_⟩
  · intro o
    constructor
    · intro ho
      exact ⟨c.owner o, c.owner_lt o, (mem_visited (c.owner_lt o)).mpr ⟨ho, rfl⟩⟩
    · intro h
      obtain ⟨tid, ht, ho⟩ := h
      exact ((mem_visited ht).mp ho).1
  · intro tid tid' ht ht' hne o ho ho'
    exact hne (((mem_visited ht).mp ho).2.symm.trans ((mem_visited ht').mp ho').2)
  · intro hc
    rw [card_wrongBytes_threads]
    refine Finset.sum_congr rfl fun tid ht => ?_
    rw [(validateChunkPortion_thread (Finset.mem_range.mp ht)).1, UInt32.toNat_ofNat_of_lt']
    exact lt_of_le_of_lt (Finset.card_filter_le _ _) hc
  · intro m hm hne hmin
    have hmem : ∀ o ∈ wrongBytes (c.bytes mem) c.size expected, m ≤ o := by
      intro o ho
      by_contra hlt
      exact (Finset.mem_filter.mp ho).2 (hmin o (by omega))
    have hwrong : m ∈ wrongBytes (c.bytes mem) c.size expected :=
      Finset.mem_filter.mpr ⟨Finset.mem_range.mpr hm, hne⟩
    have hend := c.end_lt
    have hlow : ∀ tid, tid < c.numThreads →
        m ≤ (c.validateChunkPortion mem expected tid).errorOffset := by
      intro tid ht
      rcases (@validateChunkPortion_thread c mem expected tid ht).2.2 with h | h
      · exact hmem _ (Finset.mem_filter.mp h.1).1
      · have hmax := h.2
        simp only [UINT64_MAX] at hmax
        omega
    refine ⟨hlow, c.owner m, c.owner_lt m, ?_⟩
    obtain ⟨hfirst, hcase⟩ :=
      (@validateChunkPortion_thread c mem expected _ (c.owner_lt m)).2
    have hown : m ∈ (wrongBytes (c.bytes mem) c.size expected).filter
        fun o => c.owner o = c.owner m := Finset.mem_filter.mpr ⟨hwrong, rfl⟩
    have heq : (c.validateChunkPortion mem expected (c.owner m)).errorOffset = m :=
      le_antisymm (hfirst m hown) (hlow _ (c.owner_lt m))
    rcases hcase with h | h
    · have hbyte := h.2
      simp only [heq] at hbyte
      exact ⟨heq, hbyte⟩
    · rw [h.1] at hown
      cases hown
  · intro hall tid ht
    have hempty : wrongBytes (c.bytes mem) c.size expected = ∅ := by
      refine Finset.filter_eq_empty_iff.mpr fun o ho hne => ?_
      exact hne (hall o (Finset.mem_range.mp ho))
    obtain ⟨hc, -, hcase⟩ :=
      @validateChunkPortion_thread c mem expected tid ht
    rw [hempty, Finset.filter_empty] at hc hcase
    refine ⟨hc, ?_⟩
    rcases hcase with h | h
    · cases h.1
    · exact h.2

theorem strideFrom_eq_strided {n : Nat} (ht : tid < VALIDATION_THREADS_PER_BLOCK) :
    strideFrom VALIDATION_THREADS_PER_BLOCK n n tid = strided tid n := by
  have hpos : 0 < VALIDATION_THREADS_PER_BLOCK := by decide
  have hp : (strideFrom VALIDATION_THREADS_PER_BLOCK n n tid).Perm (strided tid n) := by
    refine (List.perm_ext_iff_of_nodup (nodup_strideFrom hpos) nodup_strided).mpr fun o => ?_
    rw [mem_strideFrom_thread ht, mem_strided]
  exact hp.eq_of_pairwise' (strideFrom_pairwise hpos n tid).1 (List.pairwise_lt_range.filter _)

/-- In a block of the kernel, a thread finds what the block model takes it to find. -/
theorem validateChunkPortion_eq_block (hc : c.numThreads = VALIDATION_THREADS_PER_BLOCK)
    (ht : tid < c.numThreads) : c.validateChunkPortion mem expected tid =
      Perftest.validateChunkPortion (c.bytes mem) c.dataAddr c.size expected tid := by
  have hn := c.size_ge
  have he := c.end_lt
  obtain ⟨hstart, htail, hle, hsize⟩ := c.bounds
  obtain ⟨htail', hle'⟩ := tailOffset_eq (a := c.dataAddr) hn
  rw [hc] at ht
  have hhead : c.headSize = Perftest.headSize c.dataAddr := by
    have h1 : c.alignedStartAddr = (c.dataAddr + 15) / 16 * 16 := by
      rw [alignedStartAddr, Nat.mod_eq_of_lt (by omega)]
    rw [Perftest.headSize, ← h1, hstart, Nat.add_sub_cancel_left]
  have htailOffset : c.tailOffset = Perftest.tailOffset c.dataAddr c.size := by
    rw [tailOffset, alignedEndAddr, Nat.mod_eq_of_lt he]
    rfl
  have hwords : c.numUint4s = Perftest.numUint4s c.dataAddr c.size := by
    omega
  have htails : c.tail tid = (strided tid (subU64 c.size (Perftest.tailOffset c.dataAddr
      c.size))).map fun i => (Perftest.tailOffset c.dataAddr c.size + i) % 2 ^ 64 := by
    rw [tail, hc, strideFrom_eq_strided ht, hsize, htailOffset, subU64_of_le (by omega)]
    refine List.map_congr_left fun i hi => ?_
    have hlt := (mem_strided.mp hi).1
    rw [Nat.mod_eq_of_lt (by omega)]
  rw [validateChunkPortion_eq, Perftest.validateChunkPortion, visited, head, aligned, htails, hc,
    strideFrom_eq_strided ht, strideFrom_eq_strided ht, hhead, hwords]
  rfl

end PortionLaunch

end Perftest
