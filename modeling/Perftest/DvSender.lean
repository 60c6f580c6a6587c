import Perftest.Connection
import Perftest.ValidationCommon
import Perftest.Lib.CArray
import Perftest.Lib.Cyclic

namespace Perftest

open CMachine CArray

/-- The geometry of a data-validation run, in the ranges the option parser leaves. -/
structure DvConfig where
  mode : ValidationMode
  payloadSize : Nat
  validationChunkSize : Nat
  validationChunksPerQp : Nat
  numOfQps : Nat
  payloadSize_pos : 0 < payloadSize
  payloadSize_lt : payloadSize < 2 ^ 31
  chunkSize_pos : 0 < validationChunkSize
  chunkSize_lt : validationChunkSize < 2 ^ 32
  chunks_pos : 0 < validationChunksPerQp
  chunks_le : validationChunksPerQp ≤ VALIDATION_MAX_CHUNKS_PER_QP
  numOfQps_pos : 0 < numOfQps
  numOfQps_le : numOfQps ≤ 32768

namespace DvConfig

variable (c : DvConfig)

/-- The number of receive slots of a QP. -/
def slots : Nat := c.validationChunkSize * c.validationChunksPerQp

/-- `validation_slots_per_qp`, a `uint32_t`. -/
def slotsPerQp : Nat := u32 c.slots

def layout : Option ValidationBufferLayout :=
  computeValidationLayout c.payloadSize c.validationChunkSize c.numOfQps c.validationChunksPerQp
    (c.mode = .read)

theorem slots_pos : 0 < c.slots := Nat.mul_pos c.chunkSize_pos c.chunks_pos

theorem markers_lt : c.numOfQps * c.validationChunksPerQp < 2 ^ 32 := by
  have h := Nat.mul_le_mul c.numOfQps_le c.chunks_le
  unfold VALIDATION_MAX_CHUNKS_PER_QP at h
  omega

theorem marker_lt {q i : Nat} (hq : q < c.numOfQps) (hi : i < c.validationChunksPerQp) :
    q * c.validationChunksPerQp + i < c.numOfQps * c.validationChunksPerQp := by
  have h := Cyclic.block_end_le (n := c.validationChunksPerQp) hq
  omega

end DvConfig

structure DvSlotLutEntry where
  addrOffset : Nat
  chunkId : Nat
  atomicTargetOffset : Nat
  chainAtomic : Bool
deriving DecidableEq, Repr

def dvLut (c : DvConfig) : Table DvSlotLutEntry :=
  Table.ofFn c.slotsPerQp fun s =>
    { addrOffset := s * c.payloadSize
      chunkId := s / c.validationChunkSize
      atomicTargetOffset := s / c.validationChunkSize * 8
      chainAtomic := (s + 1) % c.validationChunkSize = 0 }

/-- The assignments to `sge_list` in `ctx_set_send_wqes_data_val_read`, in loop order. -/
def readSgeWrites (c : DvConfig) (L : ValidationBufferLayout) (buf : Nat) : List (Int × Sge) :=
  (List.range c.numOfQps).flatMap fun qp =>
    (List.range (asInt c.slotsPerQp).toNat).map fun slot =>
      (asInt (u32 (qp * c.slotsPerQp + slot)),
        ⟨buf + L.recvSlotsOffset + qp * (c.slotsPerQp * c.payloadSize) + slot * c.payloadSize,
          u32 c.payloadSize⟩)

def ctxSetSendWqesDataValSges (c : DvConfig) (L : ValidationBufferLayout) (buf : Nat) :
    Option (Table Sge) :=
  match c.mode with
  | .write => some (Table.ofFn 3 fun i => ⟨buf + i * c.payloadSize, u32 c.payloadSize⟩)
  | .read => (Table.alloc (u32 (c.slotsPerQp * c.numOfQps))).fill (readSgeWrites c L buf)

def ctxSetSendWqesDataValAtomicSges (c : DvConfig) (L : ValidationBufferLayout) (buf : Nat) :
    Table Sge :=
  match c.mode with
  | .write => Table.ofFn c.numOfQps fun i => ⟨buf + L.atomicReturnsOffset + i * 8, 8⟩
  | .read =>
    Table.ofFn (c.numOfQps * c.validationChunksPerQp) fun idx =>
      ⟨buf + L.atomicReturnsOffset + idx * 8, 8⟩

/-- What the initiator's send loop reads: its SGE tables and the addresses of the peer. -/
structure DvSendCtx where
  sgeList : Table Sge
  atomicSgeList : Table Sge
  remAddr : Nat → Nat
  atomicBaseAddr : Nat

/-- The context after connection set-up and `ctx_set_send_wqes_data_val_write`/`_read`, for an
initiator buffer at `buf` and a target buffer at `remBuf`. -/
def dvSendCtx (c : DvConfig) (L : ValidationBufferLayout) (buf remBuf : Nat) :
    Option DvSendCtx := do
  let sges ← ctxSetSendWqesDataValSges c L buf
  return {
    sgeList := sges
    atomicSgeList := ctxSetSendWqesDataValAtomicSges c L buf
    remAddr := setUpConnectionVaddr false true (c.mode = .read) (fun _ => remBuf) 0 c.numOfQps
      L.recvSlotsOffset (u32 (c.validationChunksPerQp * c.validationChunkSize) * c.payloadSize)
    atomicBaseAddr := remBuf + L.markersOffset }

structure AtomicPost where
  remoteAddr : Nat
  sge : Sge
deriving DecidableEq, Repr

/-- A posted data request and the fetch-and-add chained to it. -/
structure DvPost where
  sge : Sge
  remoteAddr : Nat
  next : Option AtomicPost
deriving DecidableEq, Repr

/-- The offsets of one QP in the send loop. -/
structure DvCursor where
  recvOff : Int
  sendOff : Int
  sendAddrOffset : Nat
deriving DecidableEq, Repr

def DvCursor.load (c : DvConfig) (recvOff sendOff : Int) : DvCursor :=
  ⟨recvOff, sendOff, sendOff.toNat * c.payloadSize⟩

/-- The remote address and the SGE of the data request on QP `index`. -/
def dataWr (c : DvConfig) (x : DvSendCtx) (index : Nat) (cur : DvCursor) (slot : DvSlotLutEntry) :
    Option (Nat × Sge) :=
  match c.mode with
  | .write => do
    let sge ← x.sgeList.get cur.sendOff
    return (x.remAddr index + slot.addrOffset, sge)
  | .read => do
    let idx ← checkInt (asInt (u32 (index * c.slotsPerQp)) + cur.recvOff)
    let sge ← x.sgeList.get idx
    return (x.remAddr index + cur.sendAddrOffset, sge)

/-- The request that the loop body of `run_iter_bw_dv` prepares on QP `index`. -/
def buildPost (c : DvConfig) (x : DvSendCtx) (index : Nat) (cur : DvCursor) : Option DvPost := do
  let slot ← (dvLut c).get cur.recvOff
  let data ← dataWr c x index cur slot
  if slot.chainAtomic then
    let tailIdx := u32 (u32 (index * c.validationChunksPerQp) + slot.chunkId)
    let sge ← x.atomicSgeList.get (if c.mode = .read then tailIdx else index)
    return ⟨data.2, data.1, some ⟨x.atomicBaseAddr + tailIdx * 8, sge⟩⟩
  else return ⟨data.2, data.1, none⟩

/-- The update of the offsets after a post. -/
def DvCursor.advance (c : DvConfig) (cur : DvCursor) : Option DvCursor := do
  let recvOff ← incInt cur.recvOff
  if recvOff = asInt c.slotsPerQp then
    let sendOff ← incInt cur.sendOff
    let sendOff := if sendOff = 3 then 0 else sendOff
    pure ⟨0, sendOff, sendOff.toNat * c.payloadSize⟩
  else pure ⟨recvOff, cur.sendOff, cur.sendAddrOffset⟩

/-- The offsets of a QP before its `k`-th post. -/
def cursorAt (c : DvConfig) : Nat → Option DvCursor
  | 0 => some (DvCursor.load c 0 0)
  | k + 1 => (cursorAt c k).bind (DvCursor.advance c)

/-- The `k`-th data operation of QP `q`. -/
def kthPost (c : DvConfig) (x : DvSendCtx) (q k : Nat) : Option DvPost :=
  (cursorAt c k).bind (buildPost c x q)

end Perftest
