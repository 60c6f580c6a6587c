import Mathlib.Data.UInt
import Perftest.CudaStop
import Perftest.Lib.Butterfly
import Perftest.QuiescentChunk

namespace Perftest

open CMachine ByteMemory

def UINT64_MAX : Nat := 2 ^ 64 - 1

/-- The lanes of a warp. -/
def WARP_SIZE : Nat := 32

/-- The warps of a block. -/
def blockWarps : Nat := VALIDATION_THREADS_PER_BLOCK / WARP_SIZE

/-- What a thread of `validate_chunk_portion` returns. -/
structure PortionErrors where
  errors : UInt32
  errorOffset : Nat
  actualByte : UInt8

/-- The indices `tid`, `tid + num_threads` and so on below `n`. -/
def strided (tid n : Nat) : List Nat :=
  (List.range n).filter fun i => i % VALIDATION_THREADS_PER_BLOCK = tid

/-- The bytes in front of the first 16-byte boundary. -/
def headSize (dataAddr : Nat) : Nat := (dataAddr + 15) / 16 * 16 - dataAddr

def numUint4s (dataAddr size : Nat) : Nat :=
  ((dataAddr + size) / 16 * 16 - (dataAddr + 15) / 16 * 16) / 16

def tailOffset (dataAddr size : Nat) : Nat := subU64 ((dataAddr + size) / 16 * 16) dataAddr

/-- The offsets that thread `tid` looks at: of the unaligned head, of its 16-byte words, and of the
unaligned tail. -/
def portion (dataAddr size tid : Nat) : List Nat :=
  strided tid (headSize dataAddr) ++
    (strided tid (numUint4s dataAddr size)).flatMap (fun idx =>
      (List.range 16).map fun b => headSize dataAddr + idx * 16 + b) ++
    (strided tid (subU64 size (tailOffset dataAddr size))).map fun i =>
      (tailOffset dataAddr size + i) % 2 ^ 64

/-- The comparison of the byte at offset `i`. -/
def PortionErrors.see (data : Nat → UInt8) (expected : UInt8) (acc : PortionErrors) (i : Nat) :
    PortionErrors :=
  if data i ≠ expected then
    if i < acc.errorOffset then ⟨acc.errors + 1, i, data i⟩
    else { acc with errors := acc.errors + 1 }
  else acc

def validateChunkPortion (data : Nat → UInt8) (dataAddr size : Nat) (expected : UInt8)
    (tid : Nat) : PortionErrors :=
  (portion dataAddr size tid).foldl (PortionErrors.see data expected) ⟨0, UINT64_MAX, 0⟩

/-- The smaller offset with its byte; of two equal ones the own. -/
def pickFirst (a b : Nat × UInt8) : Nat × UInt8 := if b.1 < a.1 then b else a

/-- The values of the first lane of a warp after the reductions. -/
structure WarpErrors where
  hasErrors : Bool
  errorCount : UInt32
  firstErrorOffset : Nat
  firstErrorActual : UInt8

/-- The warp-level reduction of warp `w`. -/
def reduceWarp (threads : Nat → PortionErrors) (w : Nat) : WarpErrors :=
  let lane := fun l => threads (w * WARP_SIZE + l)
  let first := Butterfly.shuffle pickFirst Butterfly.warpMasks
    (fun l => ((lane l).errorOffset, (lane l).actualByte)) 0
  { hasErrors := (List.range WARP_SIZE).any fun l => 0 < (lane l).errors
    errorCount := Butterfly.shuffle (· + ·) Butterfly.warpMasks (fun l => (lane l).errors) 0
    firstErrorOffset := first.1
    firstErrorActual := first.2 }

/-- Where the first lane of a warp stands between the reduction and the barrier. -/
inductive WarpPc where
  | add | load | storeOffset | storeActual | done
deriving DecidableEq, Repr

/-- The shared variables of a block. -/
structure BlockErrors where
  totalErrors : UInt32
  firstErrorOffset : Nat
  firstErrorActual : UInt8
  pcs : Nat → WarpPc

namespace BlockErrors

/-- The variables as thread 0 sets them; the byte keeps what it was. -/
def start (firstErrorActual : UInt8) : BlockErrors := ⟨0, UINT64_MAX, firstErrorActual, fun _ => .add⟩

/-- One access of the first lane of warp `w`. -/
def act (warps : Nat → WarpErrors) (w : Nat) (s : BlockErrors) : Option BlockErrors :=
  if w < blockWarps then
    match s.pcs w with
    | .add =>
      if (warps w).hasErrors then
        some { s with
          totalErrors := s.totalErrors + (warps w).errorCount
          pcs := Function.update s.pcs w .load }
      else some { s with pcs := Function.update s.pcs w .done }
    | .load =>
      some { s with
        pcs := Function.update s.pcs w
          (if (warps w).firstErrorOffset < s.firstErrorOffset then .storeOffset else .done) }
    | .storeOffset =>
      some { s with
        firstErrorOffset := (warps w).firstErrorOffset
        pcs := Function.update s.pcs w .storeActual }
    | .storeActual =>
      some { s with
        firstErrorActual := (warps w).firstErrorActual
        pcs := Function.update s.pcs w .done }
    | .done => none
  else none

def Reachable (warps : Nat → WarpErrors) (a : UInt8) : BlockErrors → Prop :=
  Transition.Reachable (· = start a) (Transition.stepOf (act warps))

/-- Every warp has come to the barrier. -/
def AtBarrier (s : BlockErrors) : Prop := ∀ w < blockWarps, s.pcs w = .done

end BlockErrors

/-- The location of a real mismatch, as reported. -/
structure ReportedError where
  qpId : Nat
  chunkId : Nat
  byteOffset : Nat
  expected : UInt8
  actual : UInt8
deriving DecidableEq, Repr

/-- What one validation adds to the fields of `data_validation_result`. -/
structure Contribution where
  chunksValidated : Nat
  bytesValidated : Nat
  errorsFound : Nat
  raceOverwrites : Nat
  dmaStaleRetries : Nat
  error : Option ReportedError
deriving DecidableEq, Repr

/-- What the kernel is launched with, besides the numbers of QPs and chunks. -/
structure CudaKernel extends CudaConfig where
  payloadSize : Nat
  txDepth : Nat
  recvSlotsBase : Nat

namespace CudaKernel

variable (k : CudaKernel)

def chunkSize : Nat := k.txDepth * k.payloadSize

def chunkData (item : WorkItem) : Nat :=
  k.recvSlotsBase + item.qpId.toNat * (k.chunksPerQp * k.chunkSize) +
    item.chunkId.toNat * k.chunkSize

/-- What the warps of the block find in the chunk of an item. -/
def warps (mem : Mem) (item : WorkItem) : Nat → WarpErrors :=
  reduceWarp (validateChunkPortion (fun i => mem (k.chunkData item + i)) (k.chunkData item)
    k.chunkSize item.expectedPattern)

/-- The classification by thread 0, for the shared variables behind the barrier. -/
def classify (mem : Mem) (item : WorkItem) (s : BlockErrors) : ValidationMismatchType :=
  let data := fun i => mem (k.chunkData item + i)
  let off := s.firstErrorOffset
  let retryMatched : Bool :=
    subU64 k.chunkSize (tailBytes k.payloadSize) ≤ off ∧ data off = item.expectedPattern
  let fwdValid : Bool := !retryMatched ∧ off + 4 < k.chunkSize
  classifyValidationMismatch off k.chunkSize k.payloadSize item.expectedPattern
    (if fwdValid then data off else s.firstErrorActual) retryMatched
    (fun i => if fwdValid then data (off + 1 + i) else item.expectedPattern) fwdValid

/-- What thread 0 adds behind the barrier, `marker` being the marker of the chunk. -/
def account (mem : Mem) (marker : UInt64) (item : WorkItem) (s : BlockErrors) : Contribution :=
  let done : Contribution := ⟨1, k.chunkSize, 0, 0, 0, none⟩
  if 0 < s.totalErrors then
    if item.markerEpoch < marker then { done with raceOverwrites := 1 }
    else
      match k.classify mem item s with
      | .stale => { done with dmaStaleRetries := 1 }
      | .race => { done with raceOverwrites := 1 }
      | _ => { done with
          errorsFound := s.totalErrors.toNat
          error := some ⟨item.qpId.toNat, item.chunkId.toNat, s.firstErrorOffset,
            item.expectedPattern, s.firstErrorActual⟩ }
  else done

/-- What one work item adds in some interleaving of the warps; a superseded one adds nothing. -/
def Adds (mem : Mem) (marker : UInt64) (item : WorkItem) (r : Contribution) : Prop :=
  if item.markerEpoch < marker then r = ⟨0, 0, 0, 0, 0, none⟩
  else ∃ a s, BlockErrors.Reachable (k.warps mem item) a s ∧ s.AtBarrier ∧
    r = k.account mem marker item s

end CudaKernel

section Portion

variable {a n tid o : Nat} {data : Nat → UInt8} {expected : UInt8}

/-- The thread that looks at an offset of the chunk. -/
def portionOwner (dataAddr size o : Nat) : Nat :=
  if o < headSize dataAddr then o % VALIDATION_THREADS_PER_BLOCK
  else if o < headSize dataAddr + 16 * numUint4s dataAddr size then
    (o - headSize dataAddr) / 16 % VALIDATION_THREADS_PER_BLOCK
  else (o - (headSize dataAddr + 16 * numUint4s dataAddr size)) % VALIDATION_THREADS_PER_BLOCK

/-- A chunk of 16 bytes has a boundary, so that head, words and tail follow one another. -/
theorem tailOffset_eq (hn : 16 ≤ n) : tailOffset a n = headSize a + 16 * numUint4s a n ∧
    headSize a + 16 * numUint4s a n ≤ n := by
  have hle : a ≤ (a + n) / 16 * 16 := by omega
  simp only [tailOffset, headSize, numUint4s, subU64_of_le hle]
  omega

theorem mem_strided : o ∈ strided tid n ↔ o < n ∧ o % VALIDATION_THREADS_PER_BLOCK = tid := by
  simp [strided]

theorem mem_portion (hn : 16 ≤ n) (hs : n < 2 ^ 64) :
    o ∈ portion a n tid ↔ o < n ∧ portionOwner a n o = tid := by
  obtain ⟨ht, hle⟩ := tailOffset_eq (a := a) hn
  simp only [portion, ht, subU64_of_le hle, List.mem_append, List.mem_flatMap, List.mem_map,
    List.mem_range, mem_strided, portionOwner]
  generalize headSize a = h at *
  generalize numUint4s a n = w at *
  constructor
  · intro hm
    rcases hm with (hm | ⟨idx, ⟨h1, h2⟩, b, h3, rfl⟩) | ⟨i, ⟨h1, h2⟩, rfl⟩
    · rw [if_pos hm.1]
      exact ⟨by omega, hm.2⟩
    · rw [if_neg (by omega), if_pos (by omega)]
      refine ⟨by omega, ?_⟩
      rw [show (h + idx * 16 + b - h) / 16 = idx by omega]
      exact h2
    · have hm : (h + 16 * w + i) % 2 ^ 64 = h + 16 * w + i := Nat.mod_eq_of_lt (by omega)
      rw [hm, if_neg (by omega), if_neg (by omega), Nat.add_sub_cancel_left]
      exact ⟨by omega, h2⟩
  · rintro ⟨hlt, ho⟩
    by_cases h1 : o < h
    · rw [if_pos h1] at ho
      exact Or.inl (Or.inl ⟨h1, ho⟩)
    rw [if_neg h1] at ho
    by_cases h2 : o < h + 16 * w
    · rw [if_pos h2] at ho
      exact Or.inl (Or.inr ⟨(o - h) / 16, ⟨by omega, ho⟩, (o - h) % 16, by omega, by omega⟩)
    · rw [if_neg h2] at ho
      refine Or.inr ⟨o - (h + 16 * w), ⟨by omega, ho⟩, ?_⟩
      rw [Nat.mod_eq_of_lt (by omega)]
      omega

theorem nodup_strided : (strided tid n).Nodup := List.nodup_range.filter _

theorem nodup_portion (hn : 16 ≤ n) (hs : n < 2 ^ 64) : (portion a n tid).Nodup := by
  obtain ⟨ht, hle⟩ := tailOffset_eq (a := a) hn
  simp only [portion, ht, subU64_of_le hle]
  generalize headSize a = h at *
  generalize numUint4s a n = w at *
  have hwords : ((strided tid w).flatMap fun idx =>
      (List.range 16).map fun b => h + idx * 16 + b).Nodup := by
    refine List.nodup_flatMap.mpr ⟨fun idx _ => ?_, ?_⟩
    · exact List.nodup_range.map fun x y hxy => by omega
    · refine nodup_strided.imp fun {x y} hne => ?_
      simp only [Function.onFun, List.Disjoint, List.mem_map, List.mem_range]
      rintro o ⟨b, hb, rfl⟩ ⟨b', hb', he⟩
      omega
  have htail : ((strided tid (n - (h + 16 * w))).map fun i =>
      (h + 16 * w + i) % 2 ^ 64).Nodup := by
    refine List.Nodup.map_on (fun x hx y hy he => ?_) nodup_strided
    have h1 := (mem_strided.mp hx).1
    have h2 := (mem_strided.mp hy).1
    rw [Nat.mod_eq_of_lt (by omega), Nat.mod_eq_of_lt (by omega)] at he
    omega
  refine (nodup_strided.append hwords ?_).append htail ?_
  · intro o ho hw
    obtain ⟨idx, -, hb⟩ := List.mem_flatMap.mp hw
    obtain ⟨b, -, rfl⟩ := List.mem_map.mp hb
    have := (mem_strided.mp ho).1
    omega
  · intro o ho hw
    obtain ⟨i, hi, rfl⟩ := List.mem_map.mp hw
    have hlt := (mem_strided.mp hi).1
    rw [Nat.mod_eq_of_lt (by omega)] at ho
    rcases List.mem_append.mp ho with ho | ho
    · have := (mem_strided.mp ho).1
      omega
    · obtain ⟨idx, hidx, hb⟩ := List.mem_flatMap.mp ho
      obtain ⟨b, hb, he⟩ := List.mem_map.mp hb
      have h1 := (mem_strided.mp hidx).1
      have h2 := List.mem_range.mp hb
      omega

/-- The offsets of a chunk whose byte is not the expected one. -/
def wrongBytes (data : Nat → UInt8) (n : Nat) (expected : UInt8) : Finset Nat :=
  (Finset.range n).filter fun o => data o ≠ expected

/-- A pair of the smallest offset of `S` with its byte, or the largest number when there is none. -/
def FirstOf (data : Nat → UInt8) (S : Finset Nat) (x : Nat × UInt8) : Prop :=
  (∀ o ∈ S, x.1 ≤ o) ∧ (x.1 ∈ S ∧ x.2 = data x.1 ∨ S = ∅ ∧ x.1 = UINT64_MAX)

/-- The loops of a thread count the mismatches among the offsets of a list and keep the first. -/
theorem foldl_see (data : Nat → UInt8) (expected : UInt8) (l : List Nat) (hl : l.Nodup)
    (hm : ∀ o ∈ l, o < UINT64_MAX) :
    (l.foldl (PortionErrors.see data expected) ⟨0, UINT64_MAX, 0⟩).errors =
        UInt32.ofNat (l.toFinset.filter fun o => data o ≠ expected).card ∧
      FirstOf data (l.toFinset.filter fun o => data o ≠ expected)
        ((l.foldl (PortionErrors.see data expected) ⟨0, UINT64_MAX, 0⟩).errorOffset,
          (l.foldl (PortionErrors.see data expected) ⟨0, UINT64_MAX, 0⟩).actualByte) := by
  induction l using List.reverseRecOn with
  | nil => exact ⟨rfl, fun o ho => by simp at ho, Or.inr ⟨rfl, rfl⟩⟩
  | append_singleton l o ih =>
    have hnd := List.nodup_append.mp hl
    obtain ⟨hc, hf, hx⟩ := ih hnd.1 fun o' ho' => hm o' (List.mem_append_left _ ho')
    have hno : o ∉ l.toFinset := by
      intro ho
      exact hnd.2.2 o (List.mem_toFinset.mp ho) o (List.mem_singleton.mpr rfl) rfl
    have hlt := hm o (List.mem_append_right _ (List.mem_singleton.mpr rfl))
    have hset : (l ++ [o]).toFinset = insert o l.toFinset := by
      ext y
      simp
    rw [List.foldl_append, List.foldl_cons, List.foldl_nil, hset, Finset.filter_insert]
    generalize l.foldl (PortionErrors.see data expected) ⟨0, UINT64_MAX, 0⟩ = r at *
    by_cases hd : data o = expected
    · simp only [PortionErrors.see, hd, ne_eq, not_true, if_false]
      exact ⟨hc, hf, hx⟩
    have hno' : o ∉ l.toFinset.filter fun o => data o ≠ expected :=
      fun ho => hno (Finset.mem_filter.mp ho).1
    have hcard : UInt32.ofNat (insert o (l.toFinset.filter fun o => data o ≠ expected)).card =
        r.errors + 1 := by
      rw [Finset.card_insert_of_notMem hno', hc, UInt32.ofNat_add]
      rfl
    simp only [PortionErrors.see, ne_eq, hd, not_false_eq_true, if_true]
    simp only [ne_eq] at hcard hf hx
    by_cases hlo : o < r.errorOffset
    · simp only [if_pos hlo]
      refine ⟨hcard.symm, fun y hy => ?_, Or.inl ⟨Finset.mem_insert_self _ _, rfl⟩⟩
      rcases Finset.mem_insert.mp hy with hy | hy
      · exact le_of_eq hy.symm
      · exact le_trans (le_of_lt hlo) (hf y hy)
    · simp only [if_neg hlo]
      refine ⟨hcard.symm, fun y hy => ?_, Or.inl ?_⟩
      · rcases Finset.mem_insert.mp hy with hy | hy
        · rw [hy]
          exact Nat.le_of_not_lt hlo
        · exact hf y hy
      · rcases hx with hx | hx
        · exact ⟨Finset.mem_insert_of_mem hx.1, hx.2⟩
        · have := hx.2
          omega

/-- What thread `tid` finds. -/
theorem validateChunkPortion_spec (data : Nat → UInt8) (a : Nat) (expected : UInt8) (hn : 16 ≤ n)
    (hs : n < UINT64_MAX) (tid : Nat) :
    (validateChunkPortion data a n expected tid).errors =
        UInt32.ofNat ((wrongBytes data n expected).filter fun o => portionOwner a n o = tid).card ∧
      FirstOf data ((wrongBytes data n expected).filter fun o => portionOwner a n o = tid)
        ((validateChunkPortion data a n expected tid).errorOffset,
          (validateChunkPortion data a n expected tid).actualByte) := by
  have hlt : n < 2 ^ 64 := by
    unfold UINT64_MAX at hs
    omega
  have hset : (portion a n tid).toFinset.filter (fun o => data o ≠ expected) =
      (wrongBytes data n expected).filter fun o => portionOwner a n o = tid := by
    ext o
    simp only [wrongBytes, Finset.mem_filter, List.mem_toFinset, mem_portion hn hlt,
      Finset.mem_range]
    tauto
  have h := foldl_see data expected (portion a n tid)
    (nodup_portion hn hlt) fun o ho => by
      have := ((mem_portion hn hlt).mp ho).1
      omega
  rw [hset] at h
  exact h

/-- The mismatches among the offsets that the lanes of warp `w` look at. -/
def warpMismatches (data : Nat → UInt8) (dataAddr n : Nat) (expected : UInt8) (w : Nat) :
    Finset Nat :=
  (wrongBytes data n expected).filter fun o => portionOwner dataAddr n o / WARP_SIZE = w

theorem sum_ofNat {ι : Type} (S : Finset ι) (f : ι → Nat) :
    ∑ i ∈ S, UInt32.ofNat (f i) = UInt32.ofNat (∑ i ∈ S, f i) := by
  classical
  induction S using Finset.induction_on with
  | empty => rfl
  | insert i S hi ih => rw [Finset.sum_insert hi, Finset.sum_insert hi, ih, UInt32.ofNat_add]

theorem mem_warpMismatches {w : Nat} : o ∈ warpMismatches data a n expected w ↔
    o ∈ wrongBytes data n expected ∧ ∃ l < WARP_SIZE, portionOwner a n o = w * WARP_SIZE + l := by
  rw [warpMismatches, Finset.mem_filter]
  unfold WARP_SIZE
  refine and_congr_right fun _ => ⟨fun h => ?_, fun ⟨l, hl, h⟩ => by omega⟩
  exact ⟨portionOwner a n o % 32, by omega, by omega⟩

theorem card_warpMismatches (w : Nat) : (warpMismatches data a n expected w).card =
    ∑ l ∈ Finset.range 32, ((wrongBytes data n expected).filter fun o =>
      portionOwner a n o = w * WARP_SIZE + l).card := by
  have hmap : ∀ o ∈ warpMismatches data a n expected w,
      portionOwner a n o % 32 ∈ Finset.range 32 := by
    intro o _
    exact Finset.mem_range.mpr (Nat.mod_lt _ (by omega))
  rw [Finset.card_eq_sum_card_fiberwise hmap]
  refine Finset.sum_congr rfl fun l hl => congrArg Finset.card ?_
  have hl := Finset.mem_range.mp hl
  ext o
  rw [warpMismatches, Finset.mem_filter, Finset.mem_filter, Finset.mem_filter, and_assoc]
  unfold WARP_SIZE
  refine and_congr_right fun _ => ?_
  omega

theorem card_wrongBytes_warps : (wrongBytes data n expected).card =
    ∑ w ∈ Finset.range blockWarps, (warpMismatches data a n expected w).card := by
  refine Finset.card_eq_sum_card_fiberwise fun o _ => Finset.mem_coe.mpr (Finset.mem_range.mpr ?_)
  have hlt : portionOwner a n o < VALIDATION_THREADS_PER_BLOCK := by
    unfold portionOwner
    split_ifs <;> exact Nat.mod_lt _ (by decide)
  simp only [VALIDATION_THREADS_PER_BLOCK, WARP_SIZE, blockWarps] at *
  omega

theorem ofNat_pos_iff {m : Nat} (hm : m < 2 ^ 32) : 0 < UInt32.ofNat m ↔ 0 < m := by
  rw [UInt32.lt_iff_toNat_lt, UInt32.toNat_ofNat_of_lt' hm]
  rfl

theorem reduceWarp_hasErrors (hn : 16 ≤ n) (hs : n < UINT64_MAX)
    (hc : (wrongBytes data n expected).card < 2 ^ 32) (w : Nat) :
    (reduceWarp (validateChunkPortion data a n expected) w).hasErrors = true ↔
      (warpMismatches data a n expected w).Nonempty := by
  have hthread := validateChunkPortion_spec data a expected hn hs
  have hpos : ∀ tid, 0 < (validateChunkPortion data a n expected tid).errors ↔
      ((wrongBytes data n expected).filter fun o => portionOwner a n o = tid).Nonempty := by
    intro tid
    rw [(hthread tid).1, ofNat_pos_iff (lt_of_le_of_lt (Finset.card_filter_le _ _) hc),
      Finset.card_pos]
  simp only [reduceWarp, List.any_eq_true, List.mem_range, decide_eq_true_eq, hpos]
  constructor
  · rintro ⟨l, hl, o, ho⟩
    have ho := Finset.mem_filter.mp ho
    exact ⟨o, mem_warpMismatches.mpr ⟨ho.1, l, hl, ho.2⟩⟩
  · rintro ⟨o, ho⟩
    obtain ⟨ho, l, hl, he⟩ := mem_warpMismatches.mp ho
    exact ⟨l, hl, o, Finset.mem_filter.mpr ⟨ho, he⟩⟩

theorem reduceWarp_errorCount (hn : 16 ≤ n) (hs : n < UINT64_MAX) (w : Nat) :
    (reduceWarp (validateChunkPortion data a n expected) w).errorCount =
      UInt32.ofNat (warpMismatches data a n expected w).card := by
  simp only [reduceWarp]
  rw [Butterfly.shuffle_add, card_warpMismatches, ← sum_ofNat]
  exact Finset.sum_congr rfl fun l _ => (validateChunkPortion_spec data a expected hn hs _).1

/-- The reduction by the smaller offset finds the first of all lanes. -/
theorem firstOf_shuffle {f : Nat → Nat × UInt8} {S : Nat → Finset Nat} {U : Finset Nat}
    (hf : ∀ l < 32, FirstOf data (S l) (f l)) (hU : ∀ o, o ∈ U ↔ ∃ l < 32, o ∈ S l)
    (hm : ∀ o ∈ U, o < UINT64_MAX) :
    FirstOf data U (Butterfly.shuffle pickFirst Butterfly.warpMasks f 0) := by
  have hlow : ∀ o ∈ U, (Butterfly.shuffle pickFirst Butterfly.warpMasks f 0).1 ≤ o := by
    intro o ho
    obtain ⟨l, hl, ho⟩ := (hU o).mp ho
    have hle := Butterfly.shuffle_rel pickFirst (r := fun x y => x.1 ≤ y.1)
      (fun x y => by unfold pickFirst; split <;> omega)
      (fun x y => by unfold pickFirst; split <;> omega) (fun x => le_refl _)
      (fun x y z h1 h2 => le_trans h1 h2) (l := 0) (f := f)
      (Butterfly.mem_span_warpMasks.mpr hl)
    rw [Nat.zero_xor] at hle
    exact le_trans hle ((hf l hl).1 o ho)
  have hfirst := Butterfly.shuffle_of_lanes pickFirst
    (P := fun y : Nat × UInt8 => y.1 ∈ U ∧ y.2 = data y.1 ∨ y.1 = UINT64_MAX)
    (fun x y hx hy => by unfold pickFirst; split <;> assumption) (l := 0) (f := f)
    (fun x hx => by
      have hx := Butterfly.mem_span_warpMasks.mp hx
      rw [Nat.zero_xor]
      rcases (hf x hx).2 with h | h
      · exact Or.inl ⟨(hU _).mpr ⟨x, hx, h.1⟩, h.2⟩
      · exact Or.inr h.2)
  refine ⟨hlow, ?_⟩
  rcases hfirst with h | h
  · exact Or.inl h
  · refine Or.inr ⟨Finset.eq_empty_of_forall_notMem fun o ho => ?_, h⟩
    have hle := hlow o ho
    rw [h] at hle
    have := hm o ho
    omega

theorem reduceWarp_first (hn : 16 ≤ n) (hs : n < UINT64_MAX) (w : Nat) :
    FirstOf data (warpMismatches data a n expected w)
      ((reduceWarp (validateChunkPortion data a n expected) w).firstErrorOffset,
        (reduceWarp (validateChunkPortion data a n expected) w).firstErrorActual) := by
  simp only [reduceWarp, Prod.mk.eta]
  refine firstOf_shuffle (S := fun l => (wrongBytes data n expected).filter fun o =>
    portionOwner a n o = w * WARP_SIZE + l)
    (fun l _ => (validateChunkPortion_spec data a expected hn hs _).2) (fun o => ?_)
    fun o ho => ?_
  · rw [mem_warpMismatches]
    simp only [Finset.mem_filter]
    exact ⟨fun ⟨h1, l, hl, h2⟩ => ⟨l, hl, h1, h2⟩, fun ⟨l, hl, h1, h2⟩ => ⟨h1, l, hl, h2⟩⟩
  · have hlt := Finset.mem_range.mp (Finset.mem_filter.mp (mem_warpMismatches.mp ho).1).1
    omega

end Portion

end Perftest
