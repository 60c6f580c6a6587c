import Perftest.AddressRing
import Perftest.Lib.Stride

namespace Perftest

open Cyclic Stride

/-- `BUFF_SIZE(ctx->size, ctx->cycle_buffer)`. -/
def WqeCtx.buffSize (x : WqeCtx) : Nat :=
  if x.bufferSize < x.cycleBuffer then x.cycleBuffer else x.bufferSize

/-- The space of a QP in each half of the buffer. -/
def WqeCtx.qpSpace (x : WqeCtx) : Nat := incSize x.buffSize x.cacheLineSize

namespace PerftestParameters

variable (q : PerftestParameters) (x : WqeCtx)

def numOfQpsFactor : Nat := if q.mrPerQp then 1 else q.numOfQps

/-- `buff_size` in `alloc_ctx`, a send half and a receive half for each QP. -/
def halvesSize : Nat :=
  x.qpSpace * 2 * q.numOfQpsFactor * q.flows.toNat

def sendQpBuffSize : Nat := q.halvesSize x / q.numOfQpsFactor / 2

/-- A cache line of an UD test in front of a receive, and the header that ends at the line. -/
def udLine : Nat := if q.connectionType = .ud then x.cacheLineSize else 0

def udHeader : Nat := if q.connectionType = .ud then UD_ADDITION else 0

def ctxBuffSize : Nat := q.halvesSize x + q.udLine x

/-- `ctx->buf` behind `create_mr`, over the blocks that were allocated. -/
def createMr (alloc : Nat → Nat) (i : Nat) : Nat :=
  if q.mrPerQp then alloc i else alloc 0 + i * x.buffSize

/-- The memory region of a QP. -/
def region (i : Nat) : Set Nat :=
  Set.Ico (if q.mrPerQp then x.buf i else x.buf 0)
    ((if q.mrPerQp then x.buf i else x.buf 0) + q.ctxBuffSize x)

def sendLength : Nat := (if q.connectionType = .rawEth then x.size - 4 else x.size) % 2 ^ 32

end PerftestParameters

/-- What the device gives: its MTU in bytes, and whether it is a HNS device. -/
structure PortInfo where
  mtu : Nat
  hns : Bool

namespace PerftestParameters

variable (q : PerftestParameters) (x : WqeCtx) (port : PortInfo)

def setRecvLength : Nat :=
  let length := x.size + q.udHeader
  if !port.hns && q.useSrq then (length + port.mtu - 1) / port.mtu * port.mtu else length

/-- The length of the receives of `ctx_set_recv_wqes`. -/
def recvLength : Nat := (if q.verb = .writeImm then 0 else q.setRecvLength x port) % 2 ^ 32

/-- Where the receives of a QP start; a cache line can be shorter than the header. -/
def recvBase (i : Nat) : Nat :=
  (if q.mrPerQp then x.buf i
    else x.buf 0 + (q.wqeQps + (i - q.wqeXrcOffset)) * q.sendQpBuffSize x) +
  q.udLine x - q.udHeader

/-- The address that `set_up_connection` publishes for a QP. -/
def published (i : Nat) : Nat :=
  setUpConnectionVaddr q.mrPerQp q.dataValidation (q.verb = .read) x.buf x.buffSize q.numOfQps 0 0 i

/-- The side posts requests: the client of a bandwidth test and, unless they read or add, both sides
of a latency test. -/
def sendsRequests : Bool :=
  match q.tst with
  | .bw => q.machine = .client || q.duplex
  | .lat => q.machine = .client || (q.verb ≠ .read && q.verb ≠ .atomic)
  | .latByBw => true
  | .fsRate => false

def receivesRequests : Bool :=
  hasRecvComp q.verb && !q.useUnsolicitedWrite &&
    match q.tst with
    | .bw => q.machine = .server || q.duplex
    | .lat | .latByBw => true
    | .fsRate => false

/-- A loop of the side steps the addresses of its single requests. -/
def stepsSends : Bool :=
  q.postList = 1 && (q.tst = .bw || (q.tst = .latByBw && q.machine = .client))

/-- The local addresses that a run posts for a QP: those of the list, and those that a single
request takes from post to post. -/
def sendAddrs (i : Nat) : Set Nat :=
  {a | (∃ j < q.listLength, a = q.sgeAddr x i j) ∨
    (q.stepsSends = true ∧ ∃ loop order r, loop.postsRegWqes = true ∧
      (a, r) ∈ (q.postRings x loop order).posted i)}

/-- The remote addresses that it posts. -/
def remoteAddrs (i : Nat) : Set Nat :=
  {r | (∃ j < q.listLength, r = q.remoteAddr x i j) ∨
    (q.stepsSends = true ∧ ∃ loop order a, loop.postsRegWqes = true ∧
      (a, r) ∈ (q.postRings x loop order).posted i)}

/-- The addresses of the receives that are posted for a QP: those of `ctx_set_recv_wqes`, and in a
bandwidth test those that the loops post again. -/
def recvAddrs (i : Nat) : Set Nat :=
  {a | ∃ order, (order = [] ∨ q.tst = .bw ∧ 0 < q.sizePerQp) ∧
    a ∈ (q.repostRecvs x (q.recvBase x) order).posted i}

/-- The bytes that are sent for a QP, and those of its receives. -/
def sendBytes (i : Nat) : Set Nat := extent (q.sendAddrs x i) (q.sendLength x)

def recvBytes (i : Nat) : Set Nat := extent (q.recvAddrs x i) (q.recvLength x port)

/-- The bytes of the peer that the requests of a QP access. -/
def accessBytes (i : Nat) : Set Nat := extent (q.remoteAddrs x i) x.size

end PerftestParameters

/-- An address is stepped in the ring: where the message fits half of it, and in the lists of an
atomic test. -/
def PerftestParameters.stepsAddr (q : PerftestParameters) (x : WqeCtx) : Prop :=
  q.listedTest = true ∧ (x.size ≤ x.cycleBuffer / 2 ∨ q.verb = .atomic ∧ 1 < q.listLength)

/-- Side `q'` accesses the memory of `q` through what it published. -/
structure Requests (q' : PerftestParameters) (x' : WqeCtx) (q : PerftestParameters) (x : WqeCtx) :
    Prop where
  sends : q'.sendsRequests = true
  oneSided : q'.verb.oneSided = true
  verb : q.verb = q'.verb
  size : x'.size = x.size
  cycleBuffer : x'.cycleBuffer = x.cycleBuffer
  cacheLineSize : x'.cacheLineSize = x.cacheLineSize
  qps : q'.wqeXrcOffset + q'.wqeQps ≤ q.numOfQps
  vaddr : ∀ k < q.numOfQps, x'.vaddr k = q.published x k
  steps : q'.stepsAddr x' → x'.inc ≤ x'.cycleBuffer

/-- The buffer map: no step divides by zero, all that is sent, received or accessed by the peer lies
in the region it is used with, and what is received or accessed is kept apart from what is sent and
from what belongs to the other QPs. -/
structure BufferMap (q : PerftestParameters) (x : WqeCtx) (port : PortInfo) : Prop where
  steps : q.sendsRequests = true ∨ q.receivesRequests = true → q.stepsAddr x → x.slots ≠ 0
  sends : q.sendsRequests = true → ∀ i < q.wqeQps,
    q.sendBytes x i ⊆ q.region x i
  receives : q.receivesRequests = true → ∀ i ∈ Set.Ico q.wqeXrcOffset q.numOfQps,
    q.recvBytes x port i ⊆ q.region x i
  accesses : ∀ q' x', Requests q' x' q x → ∀ i < q'.wqeQps,
    q'.accessBytes x' i ⊆ q.region x (q'.wqeXrcOffset + i)
  receives_sends : q.receivesRequests = true → q.sendsRequests = true →
    ∀ i ∈ Set.Ico q.wqeXrcOffset q.numOfQps, ∀ j < q.wqeQps,
      Disjoint (q.recvBytes x port i)
        (q.sendBytes x j)
  receives_receives : q.receivesRequests = true → ∀ i ∈ Set.Ico q.wqeXrcOffset q.numOfQps,
    ∀ j ∈ Set.Ico q.wqeXrcOffset q.numOfQps, i < j →
      Disjoint (q.recvBytes x port i)
        (q.recvBytes x port j)
  accesses_sends : q.sendsRequests = true → ∀ q' x', Requests q' x' q x → ∀ i < q'.wqeQps,
    ∀ j < q.wqeQps, Disjoint (q'.accessBytes x' i) (q.sendBytes x j)
  accesses_receives : q.receivesRequests = true → ∀ q' x', Requests q' x' q x → ∀ i < q'.wqeQps,
    ∀ j ∈ Set.Ico q.wqeXrcOffset q.numOfQps,
      Disjoint (q'.accessBytes x' i) (q.recvBytes x port j)
  accesses_accesses : ∀ q' x', Requests q' x' q x → ∀ i < q'.wqeQps, ∀ j < q'.wqeQps, i < j →
    Disjoint (q'.accessBytes x' i) (q'.accessBytes x' j)

namespace PerftestParameters

variable (q : PerftestParameters) (x : WqeCtx) (port : PortInfo)

/-- The places of the ring that the requests of a QP reach. -/
def sendSlots : Nat :=
  if q.listedTest = true ∧ x.size ≤ x.cycleBuffer / 2 then
    if q.stepsSends = true then x.slots else min q.listLength x.slots
  else min q.listLength 1

/-- The places that the receives of `ctx_set_recv_wqes` reach. -/
def recvListSlots : Nat :=
  if q.sizePerQp = 0 then 0
  else if q.listedTest = true ∧ x.size ≤ x.cycleBuffer / 2 then
    if q.recvPostList = 1 then min q.sizePerQp x.slots else min q.recvPostList.toNat x.slots
  else 1

/-- The single receives of a loop move on. -/
def stepsReceives : Prop :=
  (q.tst = .bw ∧ 0 < q.sizePerQp) ∧ q.recvSize x.size ≤ x.cycleBuffer / 2 ∧ q.recvPostList = 1

instance : Decidable (q.stepsReceives x) := by unfold stepsReceives; infer_instance

/-- The places that the receives reach. -/
def recvSlots : Nat := if q.stepsReceives x then x.slots else q.recvListSlots x

/-- The bytes from the first place to the end of the last message. -/
def sendSpan : Nat := (q.sendSlots x - 1) * x.inc + q.sendLength x

def recvSpan : Nat := (q.recvSlots x - 1) * x.inc + q.recvLength x port

/-- Something is received into the buffer. -/
def receivesBytes : Prop :=
  q.receivesRequests = true ∧ 0 < q.recvSlots x ∧ 0 < q.recvLength x port

/-- Something is sent from the buffer. -/
def sendsBytes : Prop := q.sendsRequests = true ∧ 0 < q.sendSlots x ∧ 0 < q.sendLength x

end PerftestParameters

/-- The receives fit their place in the buffer: they start in the region, they end in it and in
front of those of the next QP, and the sends end in front of them. -/
structure ReceivesFit (q : PerftestParameters) (x : WqeCtx) (port : PortInfo) : Prop where
  start : q.udHeader ≤ (if q.mrPerQp then 0 else q.wqeQps * x.qpSpace) + q.udLine x
  stop : q.recvSpan x port ≤
    (if q.mrPerQp then 2 else 2 * (q.numOfQps - q.wqeQps) + 1) * x.qpSpace + q.udHeader
  next : q.mrPerQp = false → 2 ≤ q.wqeQps → q.recvSpan x port ≤ x.qpSpace
  sends : q.sendsBytes x →
    if q.mrPerQp then q.wqeXrcOffset = 0 → q.sendSpan x + q.udHeader ≤ q.udLine x
    else (q.wqeQps - 1) * x.buffSize + q.sendSpan x + q.udHeader ≤
      q.wqeQps * x.qpSpace + q.udLine x

/-- What the buffer map asks of the parameters. -/
structure MapFits (q : PerftestParameters) (x : WqeCtx) (port : PortInfo) : Prop where
  forwards : q.sendsRequests = true → ¬ (q.macFwd = true ∧ q.mrPerQp = true)
  steps : q.sendsRequests = true ∨ q.receivesRequests = true → q.stepsAddr x →
    x.inc ≤ x.cycleBuffer
  receives : q.receivesBytes x port → ReceivesFit q x port

/-- A context of a side: a message of a size that the buffer is made for, blocks from the allocator
that lie apart, and an MTU of the standard. -/
structure MapCtx (q : PerftestParameters) (x : WqeCtx) (port : PortInfo) : Prop where
  size_pos : 1 ≤ x.size
  size_le : x.size ≤ x.bufferSize
  bufferSize_lt : x.bufferSize < 2 ^ 31
  line_pos : 1 ≤ x.cacheLineSize
  mtu_pos : 1 ≤ port.mtu
  mtu_le : port.mtu ≤ 4096
  buf : ∃ alloc : Nat → Nat, x.buf = q.createMr x alloc ∧
    (∀ i < q.numOfQps, UD_ADDITION ≤ alloc i) ∧
    (q.mrPerQp = true → ∀ i < q.numOfQps, ∀ j < q.numOfQps, i ≠ j →
      alloc i + q.ctxBuffSize x ≤ alloc j ∨ alloc j + q.ctxBuffSize x ≤ alloc i)

/-- The QPs of a test without flows: all of them send and receive, or the halves do. -/
structure MapQps (q : PerftestParameters) : Prop where
  flows : q.flows = 1
  dataValidation : q.dataValidation = false
  qps_pos : 1 ≤ q.wqeQps
  qps : q.wqeXrcOffset + q.wqeQps = q.numOfQps
  offset : q.wqeXrcOffset = 0 ∨ q.wqeXrcOffset = q.wqeQps

namespace PerftestParameters

variable {q : PerftestParameters} {x : WqeCtx} {loop : RunLoop} {i j k n a : Nat}

section Sends

/-- The places below `n` on the way around the ring. -/
theorem exists_slotAddr_iff {base : Nat} (hn : 1 ≤ x.slots) :
    (∃ j < n, a = x.slotAddr base j) ↔ ∃ k < min n x.slots, a = base + k * x.inc := by
  constructor
  · rintro ⟨j, hj, rfl⟩
    exact ⟨j % x.slots, lt_min ((Nat.mod_le _ _).trans_lt hj) (Nat.mod_lt _ hn), rfl⟩
  · rintro ⟨k, hk, rfl⟩
    obtain ⟨hkn, hks⟩ := lt_min_iff.mp hk
    exact ⟨k, hkn, by rw [WqeCtx.slotAddr, Nat.mod_eq_of_lt hks]⟩

theorem mem_postRing {s : SendRing} {e : Nat × Nat} (he : e ∈ (q.postRing x loop s k).posted i) :
    e ∈ s.posted i ∨ i = k ∧ e = (s.addr i, s.remote i) := by
  simp only [postRing] at he
  by_cases hi : i = k
  · subst hi
    rw [Function.update_self, List.mem_append, List.mem_singleton] at he
    exact he.imp_right fun h => ⟨rfl, h⟩
  · rw [Function.update_of_ne hi] at he
    exact .inl he

theorem postRings_scnt (n : Nat) : (q.postRings x loop (List.replicate n i)).scnt i = n := by
  induction n with
  | zero => rfl
  | succ n ih =>
    unfold postRings at ih ⊢
    rw [List.replicate_succ', List.foldl_append, List.foldl_cons, List.foldl_nil]
    simp only [postRing]
    rw [Function.update_self, ih]

theorem stepsSends_listed (h : q.stepsSends = true) : q.postList = 1 ∧ q.listedTest = true := by
  simp only [stepsSends, Bool.and_eq_true, Bool.or_eq_true, decide_eq_true_eq] at h
  obtain ⟨hone, ht | ht⟩ := h
  · exact ⟨hone, by rw [listedTest, ht]; rfl⟩
  · exact ⟨hone, by rw [listedTest, ht.1]; rfl⟩

theorem mem_sendAddrs_ring (hn : 1 ≤ x.slots) (hs : x.size ≤ x.cycleBuffer / 2)
    (hl : q.listedTest = true) (hm : ¬ (q.macFwd = true ∧ q.mrPerQp = true)) :
    a ∈ q.sendAddrs x i ↔ ∃ k < q.sendSlots x, a = x.buf i + k * x.inc := by
  have hlist : (∃ j < q.listLength, a = q.sgeAddr x i j) ↔
      ∃ k < min q.listLength x.slots, a = x.buf i + k * x.inc := by
    rw [← exists_slotAddr_iff hn]
    exact exists_congr fun j => and_congr_right fun _ => by rw [sgeAddr_eq hn hs hl hm]
  have hmem : a ∈ q.sendAddrs x i ↔ (∃ k < min q.listLength x.slots, a = x.buf i + k * x.inc) ∨
      (q.stepsSends = true ∧ ∃ loop order r, loop.postsRegWqes = true ∧
        (a, r) ∈ (q.postRings x loop order).posted i) := or_congr hlist Iff.rfl
  rw [hmem, sendSlots, if_pos ⟨hl, hs⟩]
  split
  next hp =>
    constructor
    · rintro (⟨k, hk, rfl⟩ | ⟨-, loop, order, r, -, hr⟩)
      · exact ⟨k, (lt_min_iff.mp hk).2, rfl⟩
      · rw [(q.postRings_inv hn hs hl hm order).posted i] at hr
        obtain ⟨k, -, he⟩ := List.mem_map.mp hr
        obtain ⟨rfl, -⟩ := Prod.mk.inj he
        exact ⟨k % x.slots, Nat.mod_lt _ hn, rfl⟩
    · rintro ⟨k, hk, rfl⟩
      refine .inr ⟨hp, .runIterBw, List.replicate (k + 1) i,
        x.slotAddr (q.remAddr x i) (q.remoteSlot .runIterBw k), rfl, ?_⟩
      rw [(q.postRings_inv hn hs hl hm _).posted i, postRings_scnt]
      refine List.mem_map.mpr ⟨k, List.mem_range.mpr (Nat.lt_succ_self k), ?_⟩
      rw [WqeCtx.slotAddr, Nat.mod_eq_of_lt hk]
  next hp =>
    constructor
    · rintro (h | ⟨hone, -⟩)
      · exact h
      · exact absurd hone hp
    · exact fun h => .inl h

/-- Nothing but the first place of the list. -/
theorem sgeAddr_still (hs : ¬ (q.listedTest = true ∧ x.size ≤ x.cycleBuffer / 2))
    (hm : ¬ (q.macFwd = true ∧ q.mrPerQp = true)) : q.sgeAddr x i j = x.buf i := by
  induction j with
  | zero =>
    have hm' : ¬ (q.macFwd && q.mrPerQp) = true := by simpa using hm
    rw [sgeAddr, if_neg hm']
  | succ j ih => rw [sgeAddr, if_neg hs, ih]

/-- A message of more than half the ring stays in its place. -/
theorem postRings_still (hs : ¬ x.size ≤ x.cycleBuffer / 2) (order : List Nat) :
    ∀ i, ∀ e ∈ (q.postRings x loop order).posted i, e = (q.sgeAddr x i 0, q.remoteAddr x i 0) := by
  have hrun : (q.postRings x loop order).addr = (q.initRing x).addr ∧
      (q.postRings x loop order).remote = (q.initRing x).remote ∧
      ∀ i, ∀ e ∈ (q.postRings x loop order).posted i,
        e = (q.sgeAddr x i 0, q.remoteAddr x i 0) := by
    refine postRings_induct (P := fun s => s.addr = (q.initRing x).addr ∧
      s.remote = (q.initRing x).remote ∧
      ∀ i, ∀ e ∈ s.posted i, e = (q.sgeAddr x i 0, q.remoteAddr x i 0)) ?_ ?_ order
    · exact ⟨rfl, rfl, fun i e he => by cases he⟩
    · rintro s i ⟨haddr, hremote, hposted⟩
      refine ⟨?_, ?_, fun i' e he => ?_⟩
      · simp only [postRing, if_neg hs, haddr]
      · simp only [postRing, hs, false_and, if_false, hremote]
      · rcases mem_postRing he with he | ⟨rfl, rfl⟩
        · exact hposted i' e he
        · rw [haddr, hremote]
          rfl
  exact hrun.2.2

theorem mem_sendAddrs_still (hs : ¬ (q.listedTest = true ∧ x.size ≤ x.cycleBuffer / 2))
    (hm : ¬ (q.macFwd = true ∧ q.mrPerQp = true)) :
    a ∈ q.sendAddrs x i ↔ ∃ k < q.sendSlots x, a = x.buf i + k * x.inc := by
  rw [sendSlots, if_neg hs]
  constructor
  · rintro (⟨j, hj, rfl⟩ | ⟨hsteps, loop, order, r, -, hr⟩)
    · rw [sgeAddr_still hs hm]
      exact ⟨0, lt_min (Nat.zero_lt_of_lt hj) Nat.one_pos, by rw [Nat.zero_mul, Nat.add_zero]⟩
    · obtain ⟨hone, hl⟩ := stepsSends_listed hsteps
      have hfirst := postRings_still (fun h => hs ⟨hl, h⟩) order i _ hr
      obtain ⟨ha, -⟩ := Prod.mk.inj hfirst
      have hlen : q.listLength = 1 := by rw [listLength, hone, Int.toNat_one]
      refine ⟨0, by rw [hlen]; decide, ?_⟩
      rw [Nat.zero_mul, Nat.add_zero, ha, sgeAddr_still hs hm]
  · rintro ⟨k, hk, rfl⟩
    obtain ⟨hlen, hk1⟩ := lt_min_iff.mp hk
    obtain rfl : k = 0 := by omega
    refine .inl ⟨0, hlen, ?_⟩
    rw [sgeAddr_still hs hm, Nat.zero_mul, Nat.add_zero]

/-- The sent bytes of a QP are blocks from the start of its buffer. -/
theorem sendBytes_eq (hn : q.listedTest = true → x.size ≤ x.cycleBuffer / 2 → 1 ≤ x.slots)
    (hm : ¬ (q.macFwd = true ∧ q.mrPerQp = true)) :
    q.sendBytes x i = cells (x.buf i) x.inc (q.sendSlots x) (q.sendLength x) := by
  refine extent_eq_cells fun a => ?_
  by_cases hs : q.listedTest = true ∧ x.size ≤ x.cycleBuffer / 2
  · exact mem_sendAddrs_ring (hn hs.1 hs.2) hs.2 hs.1 hm
  · exact mem_sendAddrs_still hs hm

end Sends

section Accesses

variable {r : Nat}

theorem rdmaAddr_still (hs : ¬ (q.listedTest = true ∧ x.size ≤ x.cycleBuffer / 2)) :
    q.rdmaAddr x i j = q.remAddr x i := by
  induction j with
  | zero => rfl
  | succ j ih => rw [rdmaAddr, if_neg hs, ih]

theorem remoteAddr_zero : q.remoteAddr x i 0 = q.remAddr x i := by
  unfold remoteAddr
  split <;> rfl

/-- A remote address stays, or it is one of the ring. -/
theorem remoteAddr_cases (hn : q.stepsAddr x → 1 ≤ x.slots) (hj : j < q.listLength) :
    q.remoteAddr x i j = q.remAddr x i ∨
      q.stepsAddr x ∧ q.remoteAddr x i j = x.slotAddr (q.remAddr x i) j := by
  by_cases hs : q.listedTest = true ∧ x.size ≤ x.cycleBuffer / 2
  · exact .inr ⟨⟨hs.1, .inl hs.2⟩, remoteAddr_eq (hn ⟨hs.1, .inl hs.2⟩) hs.2 hs.1⟩
  · by_cases hv : q.verb = .atomic
    · by_cases hl : q.listedTest = true
      · rcases Nat.eq_zero_or_pos j with rfl | hpos
        · exact .inl remoteAddr_zero
        · have hsteps : q.stepsAddr x := ⟨hl, .inr ⟨hv, by omega⟩⟩
          exact .inr ⟨hsteps, by rw [remoteAddr, if_pos hv, atomicAddr_eq (hn hsteps) hl]⟩
      · left
        rw [remoteAddr, if_pos hv]
        clear hj
        induction j with
        | zero => rfl
        | succ j ih => rw [atomicAddr, if_neg hl, ih]
    · left
      rw [remoteAddr, if_neg hv, rdmaAddr_still hs]

/-- The remote addresses of the posts of a ring, wherever the local ones begin. -/
theorem postRings_remote (hn : 1 ≤ x.slots) (hs : x.size ≤ x.cycleBuffer / 2)
    (hl : q.listedTest = true) (order : List Nat) :
    ∀ i, ∀ e ∈ (q.postRings x loop order).posted i, ∃ k, e.2 = x.slotAddr (q.remAddr x i) k := by
  have hrun := @postRings_induct q x loop (fun s =>
    (∀ i, s.remote i = x.slotAddr (q.remAddr x i) (q.remoteSlot loop (s.scnt i))) ∧
      ∀ i, ∀ e ∈ s.posted i, ∃ k, e.2 = x.slotAddr (q.remAddr x i) k)
    ⟨initRing_remote hn hs hl, fun i e he => by cases he⟩ ?_ order
  · exact hrun.2
  · rintro s i ⟨hremote, hposted⟩
    refine ⟨postRing_remote hn hs hremote i, fun i' e he => ?_⟩
    rcases mem_postRing he with he | ⟨-, rfl⟩
    · exact hposted i' e he
    · exact ⟨_, hremote i'⟩

theorem remoteAddrs_cases (hn : q.stepsAddr x → 1 ≤ x.slots) (hr : r ∈ q.remoteAddrs x i) :
    r = q.remAddr x i ∨ q.stepsAddr x ∧ ∃ k, r = x.slotAddr (q.remAddr x i) k := by
  rcases hr with ⟨j, hj, rfl⟩ | ⟨hsteps, loop, order, a, -, ha⟩
  · exact (remoteAddr_cases hn hj).imp_right fun h => ⟨h.1, j, h.2⟩
  · have hl := (stepsSends_listed hsteps).2
    by_cases hs : x.size ≤ x.cycleBuffer / 2
    · have hsteps : q.stepsAddr x := ⟨hl, .inl hs⟩
      exact .inr ⟨hsteps, postRings_remote (hn hsteps) hs hl order i _ ha⟩
    · left
      have hfirst := postRings_still hs order i _ ha
      exact (Prod.mk.inj hfirst).2.trans remoteAddr_zero

/-- A request stays behind the published address by less than the size of a buffer. -/
theorem accessBytes_subset (hc : 0 < x.cacheLineSize) (hn : q.stepsAddr x → 1 ≤ x.slots) {v : Nat} 
    (hb : x.size ≤ v) (hv : x.cycleBuffer ≤ v) :
    q.accessBytes x i ⊆ Set.Ico (q.remAddr x i) (q.remAddr x i + v) := by
  rintro b ⟨r, hr, hle, hlt⟩
  rcases remoteAddrs_cases hn hr with rfl | ⟨hsteps, k, rfl⟩
  · exact ⟨hle, by omega⟩
  · obtain ⟨s, -, hs, hend⟩ := @WqeCtx.inRing_slotAddr x (q.remAddr x i) k (hn hsteps)
    have hinc : x.size ≤ x.inc := le_incSize hc
    exact ⟨by omega, by omega⟩

end Accesses

section Receives

variable {base : Nat → Nat}

theorem mem_recvList_base : a ∈ q.recvList x (base i) (base i) ↔ ∃ j < q.recvPostList.toNat,
    a = recvAddr x (q.listedTest && decide (x.size ≤ x.cycleBuffer / 2)) (base i) j := by
  unfold recvList
  rw [List.mem_map]
  constructor
  · rintro ⟨j, hj, rfl⟩
    refine ⟨j, List.mem_range.mp hj, ?_⟩
    split
    next hz => rw [hz]; rfl
    next => rfl
  · rintro ⟨j, hj, rfl⟩
    refine ⟨j, List.mem_range.mpr hj, ?_⟩
    split
    next hz => rw [hz]; rfl
    next => rfl

/-- The steps from an address in a receive list, to as many places as the list has. -/
theorem exists_recvAddr_iff (hn : q.listedTest = true → x.size ≤ x.cycleBuffer / 2 → 1 ≤ x.slots)
    (hpos : 0 < n) :
    (∃ j < n, a = recvAddr x (q.listedTest && decide (x.size ≤ x.cycleBuffer / 2)) (base i) j) ↔
      ∃ k < if q.listedTest = true ∧ x.size ≤ x.cycleBuffer / 2 then min n x.slots else 1,
        a = base i + k * x.inc := by
  by_cases hs : q.listedTest = true ∧ x.size ≤ x.cycleBuffer / 2
  · have hb : (q.listedTest && decide (x.size ≤ x.cycleBuffer / 2)) = true := by simpa using hs
    rw [if_pos hs, hb, ← exists_slotAddr_iff (hn hs.1 hs.2)]
    exact exists_congr fun j => and_congr_right fun _ => by
      rw [recvAddr_slot (hn hs.1 hs.2)]
  · have hb : (q.listedTest && decide (x.size ≤ x.cycleBuffer / 2)) = false := by
      rw [Bool.eq_false_iff]
      simpa using hs
    rw [if_neg hs, hb]
    constructor
    · rintro ⟨j, -, rfl⟩
      exact ⟨0, Nat.one_pos, by rw [recvAddr_still, Nat.zero_mul, Nat.add_zero]⟩
    · rintro ⟨k, hk, rfl⟩
      obtain rfl : k = 0 := by omega
      exact ⟨0, hpos, by rw [recvAddr_still, Nat.zero_mul, Nat.add_zero]⟩

theorem mem_ctxSetRecvWqes
    (hn : q.listedTest = true → x.size ≤ x.cycleBuffer / 2 → 1 ≤ x.slots) :
    a ∈ (q.ctxSetRecvWqes x base).posted i ↔ ∃ k < q.recvListSlots x, a = base i + k * x.inc := by
  unfold recvListSlots
  by_cases hz : q.sizePerQp = 0
  · rw [if_pos hz]
    simp [ctxSetRecvWqes, hz]
  rw [if_neg hz]
  have hpos : 0 < q.sizePerQp := Nat.pos_of_ne_zero hz
  by_cases hone : q.recvPostList = 1
  · have hmem : a ∈ (q.ctxSetRecvWqes x base).posted i ↔ ∃ j < q.sizePerQp,
        a = recvAddr x (q.listedTest && decide (x.size ≤ x.cycleBuffer / 2)) (base i) j := by
      simp [ctxSetRecvWqes, recvList, hone]
    rw [hmem, exists_recvAddr_iff hn hpos, if_pos hone]
  · have hlist : 0 < q.recvPostList.toNat := by
      by_contra h0
      apply hz
      rw [sizePerQp, show q.recvPostList.toNat = 0 by omega]
      simp
    have hmem : a ∈ (q.ctxSetRecvWqes x base).posted i ↔ a ∈ q.recvList x (base i) (base i) := by
      simp only [ctxSetRecvWqes, hone, decide_false, Bool.false_and, recvAddr_still,
        List.mem_flatMap, List.mem_range]
      exact ⟨fun ⟨j, _, h⟩ => h, fun h => ⟨0, hpos, h⟩⟩
    rw [hmem, mem_recvList_base, exists_recvAddr_iff hn hlist, if_neg hone]

/-- Receives that do not move on are posted again to the places they had. -/
theorem repostRecvs_still (hpos : 0 < q.sizePerQp)
    (hs : ¬ (q.recvSize x.size ≤ x.cycleBuffer / 2 ∧ q.recvPostList = 1)) (order : List Nat)
    (ha : a ∈ (q.repostRecvs x base order).posted i) :
    a ∈ (q.ctxSetRecvWqes x base).posted i := by
  have hrun := @repostRecvs_induct q x base (fun s =>
    s.addr = base ∧ ∀ i, ∀ e ∈ s.posted i, e ∈ (q.ctxSetRecvWqes x base).posted i)
    ⟨rfl, fun i e he => he⟩ ?_ order
  · exact hrun.2 i a ha
  · rintro s i ⟨haddr, hposted⟩
    refine ⟨?_, fun i' e he => ?_⟩
    · simp only [repostRecv, if_neg hs, haddr]
    · simp only [repostRecv] at he
      by_cases hi : i' = i
      · subst hi
        rw [Function.update_self, List.mem_append, haddr] at he
        rcases he with he | he
        · exact hposted i' e he
        · exact List.mem_flatMap.mpr ⟨0, List.mem_range.mpr hpos, he⟩
      · rw [Function.update_of_ne hi] at he
        exact hposted i' e he

/-- The first receive address of a QP behind `r` reposts. -/
theorem repostRecvs_replicate (hs : q.recvSize x.size ≤ x.cycleBuffer / 2 ∧ q.recvPostList = 1)
    (r : Nat) :
    (q.repostRecvs x base (List.replicate r i)).addr i =
        base i + ringPlace x.slots q.sizePerQp r * x.inc ∧
      (q.repostRecvs x base (List.replicate r i)).postedPerQp i = q.sizePerQp + r := by
  have hone : q.recvPostList.toNat = 1 := by rw [hs.2, Int.toNat_one]
  induction r with
  | zero =>
    refine ⟨?_, ?_⟩
    · rw [ringPlace, Nat.zero_mul, Nat.add_zero]
      rfl
    · show q.sizePerQp * q.recvPostList.toNat = _
      rw [hone, Nat.mul_one, Nat.add_zero]
  | succ r ih =>
    unfold repostRecvs at ih ⊢
    rw [List.replicate_succ', List.foldl_append, List.foldl_cons, List.foldl_nil]
    simp only [repostRecv, if_pos hs, Function.update_self]
    rw [ih.1, ih.2, WqeCtx.inc, increaseAddr_slot, hone]
    exact ⟨rfl, by omega⟩

theorem mem_recvAddrs (hn : q.listedTest = true → x.size ≤ x.cycleBuffer / 2 → 1 ≤ x.slots) :
    a ∈ q.recvAddrs x i ↔ ∃ k < q.recvSlots x, a = q.recvBase x i + k * x.inc := by
  unfold recvSlots
  split
  next hsteps =>
    obtain ⟨hbw, hs⟩ := hsteps
    have hsize : x.size ≤ x.cycleBuffer / 2 := by
      refine le_trans ?_ hs.1
      unfold recvSize
      split <;> omega
    have hslots : 1 ≤ x.slots := hn (by rw [listedTest, hbw.1]; rfl) hsize
    constructor
    · rintro ⟨order, -, ha⟩
      obtain ⟨k, hk, rfl, -⟩ := (repostRecvs_inv hslots order).posted i a ha
      exact ⟨k, hk, rfl⟩
    · rintro ⟨k, hk, rfl⟩
      obtain ⟨r, hr⟩ := exists_ringPlace (c := q.sizePerQp) hk
      refine ⟨List.replicate (r + 1) i, .inr hbw, ?_⟩
      unfold repostRecvs
      rw [List.replicate_succ', List.foldl_append, List.foldl_cons, List.foldl_nil]
      simp only [repostRecv, Function.update_self, List.mem_append]
      right
      have haddr := (@repostRecvs_replicate q x i (q.recvBase x) hs r).1
      unfold repostRecvs at haddr
      rw [haddr, hr]
      simp [recvList, hs.2]
  next hsteps =>
    rw [← mem_ctxSetRecvWqes hn]
    constructor
    · rintro ⟨order, rfl | hbw, ha⟩
      · exact ha
      · exact repostRecvs_still hbw.2 (fun hs => hsteps ⟨hbw, hs⟩) order ha
    · exact fun ha => ⟨[], .inl rfl, ha⟩

/-- The bytes of the receives of a QP are blocks from its first receive. -/
theorem recvBytes_eq {port : PortInfo}
    (hn : q.listedTest = true → x.size ≤ x.cycleBuffer / 2 → 1 ≤ x.slots) :
    q.recvBytes x port i =
      cells (q.recvBase x i) x.inc (q.recvSlots x) (q.recvLength x port) :=
  extent_eq_cells fun _ => mem_recvAddrs hn

end Receives

end PerftestParameters

end Perftest
