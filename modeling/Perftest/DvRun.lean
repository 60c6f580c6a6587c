import Perftest.DvAddresses
import Perftest.HostMarkers
import Perftest.Lib.Transition

namespace Perftest

open CMachine CArray ByteMemory

/-- The buffer content that `initialize_buffer_content` leaves at address `buf`. -/
def initializeBufferContent (c : DvConfig) (L : ValidationBufferLayout) (buf : Nat) (m : Mem) :
    Mem :=
  let zeroed := fillRange m buf L.totalSize 0
  let patterns := (List.range VALIDATION_PATTERNS_COUNT).foldl (fun m i =>
    fillRange m (buf + i * c.payloadSize) c.payloadSize (validationCycleToPattern i)) zeroed
  if c.mode = .read then
    writeWords patterns (buf + L.markersOffset) (c.numOfQps * c.validationChunksPerQp) 1
  else patterns

/-- Both peers and the send loop: `scnt` counts the data operations of each QP, `burst` is the QP
whose inner loop runs, with its local offsets. -/
structure DvState where
  initiator : Mem
  target : Mem
  currentRemoteRecvOffset : Nat → Int
  currentSendBufferOffset : Nat → Int
  scnt : Nat → Nat
  burst : Option (Nat × DvCursor)

def DvState.IsInit (c : DvConfig) (L : ValidationBufferLayout) (buf remBuf : Nat) (s : DvState) :
    Prop :=
  (∃ m, s.initiator = initializeBufferContent c L buf m) ∧
  (∃ m, s.target = initializeBufferContent c L remBuf m) ∧
  s.currentRemoteRecvOffset = (fun _ => 0) ∧ s.currentSendBufferOffset = (fun _ => 0) ∧
  s.scnt = (fun _ => 0) ∧ s.burst = none

/-- The data operation: an RDMA WRITE or READ of one payload. -/
def DvPost.transfer (c : DvConfig) (p : DvPost) (m : Mem × Mem) : Mem × Mem :=
  match c.mode with
  | .write => (m.1, copyRange m.2 p.remoteAddr m.1 p.sge.addr p.sge.length)
  | .read => (copyRange m.1 p.sge.addr m.2 p.remoteAddr p.sge.length, m.2)

/-- The fetch-and-add of 1 on the target's word; the old value returns to the initiator. -/
def AtomicPost.fetchAndAdd (a : AtomicPost) (m : Mem × Mem) : Mem × Mem :=
  let old := readWord m.2 a.remoteAddr
  (writeWord m.1 a.sge.addr old, writeWord m.2 a.remoteAddr (old + 1))

/-- The effect of a post on the memories of initiator and target. -/
def DvPost.effect (c : DvConfig) (p : DvPost) (m : Mem × Mem) : Mem × Mem :=
  match p.next with
  | some a => a.fetchAndAdd (p.transfer c m)
  | none => p.transfer c m

/-- One step of `run_iter_bw_dv`: the inner loop of a QP starts, posts or ends. Operations take
effect in post order, and `scnt` stays in the range of its type. -/
inductive DvStep (c : DvConfig) (x : DvSendCtx) : DvState → DvState → Prop
  | enter (s : DvState) (q : Nat) (hq : q < c.numOfQps) (hb : s.burst = none) :
      DvStep c x s { s with
        burst := some (q, DvCursor.load c (s.currentRemoteRecvOffset q)
          (s.currentSendBufferOffset q)) }
  | post (s : DvState) (q : Nat) (cur cur' : DvCursor) (p : DvPost)
      (hb : s.burst = some (q, cur)) (hn : s.scnt q + 1 < 2 ^ 64)
      (hp : buildPost c x q cur = some p) (ha : cur.advance c = some cur') :
      DvStep c x s { s with
        initiator := (p.effect c (s.initiator, s.target)).1
        target := (p.effect c (s.initiator, s.target)).2
        scnt := Function.update s.scnt q (s.scnt q + 1)
        burst := some (q, cur') }
  | leave (s : DvState) (q : Nat) (cur : DvCursor) (hb : s.burst = some (q, cur)) :
      DvStep c x s { s with
        currentRemoteRecvOffset := Function.update s.currentRemoteRecvOffset q cur.recvOff
        currentSendBufferOffset := Function.update s.currentSendBufferOffset q cur.sendOff
        burst := none }

def DvReachable (c : DvConfig) (L : ValidationBufferLayout) (x : DvSendCtx) (buf remBuf : Nat) :
    DvState → Prop :=
  Transition.Reachable (DvState.IsInit c L buf remBuf) (DvStep c x)

/-- Of initiator and target, the one whose memory the validator reads: the target for WRITE, the
initiator for READ. -/
def validatorSide {α : Type} (c : DvConfig) (m : α × α) : α :=
  match c.mode with
  | .write => m.2
  | .read => m.1

/-- The peer whose pattern buffers are the source of the data. -/
def sourceSide {α : Type} (c : DvConfig) (m : α × α) : α :=
  match c.mode with
  | .write => m.1
  | .read => m.2

def DvState.validatorMem (c : DvConfig) (s : DvState) : Mem :=
  validatorSide c (s.initiator, s.target)

section Addresses

variable (c : DvConfig) (L : ValidationBufferLayout) (buf : Nat)

/-- The address of receive slot `j` of QP `q`. -/
def slotAddr (q j : Nat) : Nat := buf + L.recvSlotsOffset + (q * c.slots + j) * c.payloadSize

def patternAddr (i : Nat) : Nat := buf + i * c.payloadSize

def markerAddr (q i : Nat) : Nat := buf + L.markersOffset + (q * c.validationChunksPerQp + i) * 8

/-- The address of the word that the validator polls for chunk `i` of QP `q`. -/
def wordAddr (q i : Nat) : Nat :=
  buf + (if c.mode = .read then L.atomicReturnsOffset else L.markersOffset) +
    (q * c.validationChunksPerQp + i) * 8

end Addresses

/-- What the `k`-th post of QP `q` has to be: payload transfer between pattern buffer
`(k / slots) % 3` and receive slot `k % slots`, with a fetch-and-add on the marker of chunk `i`
chained exactly to the last operation of the chunk. -/
structure KthPostOk (c : DvConfig) (L : ValidationBufferLayout) (buf remBuf q k : Nat)
    (p : DvPost) : Prop where
  length : p.sge.length = c.payloadSize
  write : c.mode = .write → p.sge.addr = patternAddr c buf (k / c.slots % 3) ∧
    p.remoteAddr = slotAddr c L remBuf q (k % c.slots)
  read : c.mode = .read → p.sge.addr = slotAddr c L buf q (k % c.slots) ∧
    p.remoteAddr = patternAddr c remBuf (k / c.slots % 3)
  chained : ∀ i, i < c.validationChunksPerQp →
    ((∃ a, p.next = some a ∧ a.remoteAddr = markerAddr c L remBuf q i) ↔
      k % c.slots = (i + 1) * c.validationChunkSize - 1)
  onMarker : ∀ a, p.next = some a →
    ∃ i, i < c.validationChunksPerQp ∧ a.remoteAddr = markerAddr c L remBuf q i

/-- The scan entries of the validator: every chunk of every QP has one, and it points to the word
and to the slots that the sender uses for that chunk. -/
structure EntriesOk (c : DvConfig) (L : ValidationBufferLayout) (vbuf cores : Nat) : Prop where
  covered : ∀ q i, q < c.numOfQps → i < c.validationChunksPerQp →
    ∃ en ∈ (validatorEntries c L vbuf cores).flatten, en.qpId = q ∧ en.chunkId = i
  located : ∀ en ∈ (validatorEntries c L vbuf cores).flatten,
    en.qpId < c.numOfQps ∧ en.chunkId < c.validationChunksPerQp ∧ en.lastSeen = 0 ∧
      en.markerPtr = wordAddr c L vbuf en.qpId en.chunkId ∧
      en.chunkData = slotAddr c L vbuf en.qpId (en.chunkId * c.validationChunkSize)

/-- Agreement of sender and validator for buffers at `buf` (initiator) and `remBuf` (target): the
posts are as expected in every run, and whenever the word of an entry takes a value, the chunk of
the entry holds the pattern expected for it. -/
def DvAgreement (c : DvConfig) (L : ValidationBufferLayout) (buf remBuf cores : Nat) : Prop :=
  ∃ x, dvSendCtx c L buf remBuf = some x ∧
    (∀ q k, q < c.numOfQps → ∃ p, kthPost c x q k = some p ∧ KthPostOk c L buf remBuf q k p) ∧
    EntriesOk c L (validatorSide c (buf, remBuf)) cores ∧
    (∀ s q cur, DvReachable c L x buf remBuf s → s.burst = some (q, cur) →
      buildPost c x q cur = kthPost c x q (s.scnt q)) ∧
    ∀ s s', DvReachable c L x buf remBuf s → DvStep c x s s' →
      ∀ en ∈ (validatorEntries c L (validatorSide c (buf, remBuf)) cores).flatten,
        readWord (s'.validatorMem c) en.markerPtr ≠ readWord (s.validatorMem c) en.markerPtr →
        ∃ e, markerToExpectedPattern (readWord (s'.validatorMem c) en.markerPtr) = some e ∧
          Holds (s'.validatorMem c) en.chunkData (c.validationChunkSize * c.payloadSize) e

/-- No index of the run leaves its machine type. -/
def DvIndicesFit (c : DvConfig) : Prop :=
  c.slots < 2 ^ 31 ∧
    (c.mode = .write → c.numOfQps * c.slots < 2 ^ 32 + c.validationChunkSize) ∧
    (c.mode = .read → c.numOfQps * c.slots ≤ 2 ^ 31)

instance (c : DvConfig) : Decidable (DvIndicesFit c) :=
  inferInstanceAs (Decidable (_ ∧ _ ∧ _))

/-- No index of the sender leaves its machine type. -/
def DvPostsFit (c : DvConfig) : Prop :=
  c.slots < 2 ^ 31 ∧ (c.mode = .read → c.numOfQps * c.slots ≤ 2 ^ 31)

theorem DvIndicesFit.posts {c : DvConfig} (h : DvIndicesFit c) : DvPostsFit c := ⟨h.1, h.2.2⟩

end Perftest
