import Perftest.DvSender
import Perftest.Parser

namespace Perftest

inductive AtomicType where
  | cmpAndSwap | fetchAndAdd
deriving DecidableEq, Repr

inductive WrOpcode where
  | send | sendWithImm | rdmaWrite | rdmaWriteWithImm | rdmaRead
  | atomicFetchAndAdd | atomicCmpAndSwp
deriving DecidableEq, Repr

inductive QpType where
  | rc | uc | ud | xrcSend | rawPacket | driver
deriving DecidableEq, Repr

structure WrSge extends Sge where
  lkey : Nat
deriving DecidableEq, Repr

/-- An `ibv_send_wr` with its one scatter element. Of the send flags only these two are ever set, and
each member of the union `wr` is read only where it was written last. -/
structure SendWr where
  wrId : Nat
  next : Option Nat
  sge : WrSge
  opcode : WrOpcode
  signaled : Bool
  inl : Bool
  immData : Nat
  rdmaRemoteAddr : Nat
  rdmaRkey : Nat
  atomicRemoteAddr : Nat
  atomicRkey : Nat
  compareAdd : Nat
  swap : Nat
  udAh : Nat
  udRemoteQpn : Nat
  udRemoteQkey : Nat
  remoteSrqn : Nat
deriving DecidableEq, Repr

/-- A request with the operands that its opcode has. -/
inductive RequestOp where
  | send
  | sendImm (imm : Nat)
  | rdmaWrite (rkey remoteAddr : Nat)
  | rdmaWriteImm (rkey remoteAddr imm : Nat)
  | rdmaRead (rkey remoteAddr : Nat)
  | fetchAdd (rkey remoteAddr add : Nat)
  | cmpSwp (rkey remoteAddr compare swap : Nat)
deriving DecidableEq, Repr

inductive Destination where
  | connected
  | ud (ah remoteQpn remoteQkey : Nat)
  | xrc (remoteSrqn : Nat)
  | dc (ah dctn dcKey : Nat)
deriving DecidableEq, Repr

inductive DataSource where
  | inlineData (bytes : List UInt8)
  | sge (lkey addr length : Nat)
deriving DecidableEq, Repr

/-- What the device is handed for one work request. -/
structure PostedRequest where
  wrId : Nat
  signaled : Bool
  inl : Bool
  op : RequestOp
  dest : Destination
  data : DataSource
deriving DecidableEq, Repr

def bytesAt (mem : Nat → UInt8) (addr length : Nat) : List UInt8 :=
  (List.range length).map fun k => mem (addr + k)

/-- What the context knows of the peers, apart from the requests. -/
structure PostCtx where
  ah : Nat → Nat
  rDctn : Nat → Nat
  remQpn : Nat → Nat

def DEF_QKEY : Nat := 0x11111111
def DC_KEY : Nat := 0xffeeddcc
def DEF_IMM : Nat := 42
def ATOMIC_ADD_VALUE : Nat := 1
def ATOMIC_SWAP_VALUE : Nat := 0

section IbvPostSend

variable (mem : Nat → UInt8) (qpt : QpType) (wr : Nat → SendWr)

def SendWr.postedOp (w : SendWr) : RequestOp :=
  match w.opcode with
  | .send => .send
  | .sendWithImm => .sendImm w.immData
  | .rdmaWrite => .rdmaWrite w.rdmaRkey w.rdmaRemoteAddr
  | .rdmaWriteWithImm => .rdmaWriteImm w.rdmaRkey w.rdmaRemoteAddr w.immData
  | .rdmaRead => .rdmaRead w.rdmaRkey w.rdmaRemoteAddr
  | .atomicFetchAndAdd => .fetchAdd w.atomicRkey w.atomicRemoteAddr w.compareAdd
  | .atomicCmpAndSwp => .cmpSwp w.atomicRkey w.atomicRemoteAddr w.compareAdd w.swap

def SendWr.postedDest (w : SendWr) : Destination :=
  match qpt with
  | .ud => .ud w.udAh w.udRemoteQpn w.udRemoteQkey
  | .xrcSend => .xrc w.remoteSrqn
  | .rc | .uc | .rawPacket | .driver => .connected

def SendWr.posted (w : SendWr) : PostedRequest where
  wrId := w.wrId
  signaled := w.signaled
  inl := w.inl
  op := w.postedOp
  dest := w.postedDest qpt
  data := if w.inl then .inlineData (bytesAt mem w.sge.addr w.sge.length)
    else .sge w.sge.lkey w.sge.addr w.sge.length

/-- `ibv_post_send` on a chain of at most so many requests: each takes its data inline when its own
flags say so. -/
def ibvPostSend : Nat → Option Nat → List PostedRequest
  | 0, _ => []
  | _, none => []
  | n + 1, some k => (wr k).posted mem qpt :: ibvPostSend n (wr k).next

end IbvPostSend

section NewPostSend

variable (ctx : PostCtx) (mem : Nat → UInt8) (size : Nat) (inl : Bool) (index : Nat) (qpt : QpType)
  (connectionType : ConnectionType) (wr : Nat → SendWr)

/-- The switch over the opcode in `_new_post_send`. -/
def SendWr.newOp (w : SendWr) : RequestOp :=
  match w.opcode with
  | .send => .send
  | .sendWithImm => .sendImm w.immData
  | .rdmaWrite => .rdmaWrite w.rdmaRkey w.rdmaRemoteAddr
  | .rdmaWriteWithImm => .rdmaWriteImm w.rdmaRkey w.rdmaRemoteAddr w.immData
  | .rdmaRead => .rdmaRead w.rdmaRkey w.rdmaRemoteAddr
  | .atomicFetchAndAdd => .fetchAdd w.atomicRkey w.atomicRemoteAddr w.compareAdd
  | .atomicCmpAndSwp => .cmpSwp w.atomicRkey w.atomicRemoteAddr w.compareAdd w.swap

def SendWr.newDest (w : SendWr) : Destination :=
  if qpt = .driver ∧ connectionType = .dc then .dc (ctx.ah index) (ctx.rDctn index) DC_KEY
  else if qpt = .ud then .ud w.udAh w.udRemoteQpn w.udRemoteQkey
  else if qpt = .driver ∧ connectionType = .srd then
    .ud (ctx.ah index) (ctx.remQpn index) DEF_QKEY
  else if qpt = .xrcSend then .xrc w.remoteSrqn
  else .connected

/-- One round of the loop of `_new_post_send`, without encryption and signature offload. -/
def SendWr.newPosted (w : SendWr) : PostedRequest where
  wrId := w.wrId
  signaled := w.signaled
  inl := w.inl
  op := w.newOp
  dest := w.newDest ctx index qpt connectionType
  data := if inl then .inlineData (bytesAt mem w.sge.addr size)
    else .sge w.sge.lkey w.sge.addr w.sge.length

/-- The loop of `_new_post_send` over a chain of at most so many requests. -/
def newPostSend : Nat → Option Nat → List PostedRequest
  | 0, _ => []
  | _, none => []
  | n + 1, some k =>
    (wr k).newPosted ctx mem size inl index qpt connectionType :: newPostSend n (wr k).next

end NewPostSend

/-- The arguments that a `new_post_*` function gives to `_new_post_send`. -/
structure NewPost where
  inl : Bool
  qpt : QpType
  enc : Bool
deriving DecidableEq, Repr

/-- The function that `ctx_post_send_work_request_func_pointer` chooses; for the combinations that are
not supported the pointer is left alone. -/
def ctxPostSendWorkRequestFuncPointer (connectionType : ConnectionType) (verb : VerbType)
    (aesXts : Bool) (size inlineSize : Nat) : Option NewPost :=
  let useInl := decide (size ≤ inlineSize)
  match connectionType, verb with
  | .dc, .send | .dc, .sendImm | .dc, .write | .dc, .writeImm => some ⟨useInl, .driver, false⟩
  | .dc, .read | .dc, .atomic => some ⟨false, .driver, false⟩
  | .rc, .send | .rc, .sendImm | .rc, .write | .rc, .writeImm =>
    some ⟨!aesXts && useInl, .rc, aesXts⟩
  | .rc, .read => some ⟨false, .rc, aesXts⟩
  | .rc, .atomic => some ⟨false, .rc, false⟩
  | .ud, .send | .ud, .sendImm => some ⟨useInl, .ud, false⟩
  | .uc, .send | .uc, .sendImm | .uc, .write | .uc, .writeImm => some ⟨useInl, .uc, false⟩
  | .xrc, .send | .xrc, .sendImm | .xrc, .write | .xrc, .writeImm =>
    some ⟨useInl, .xrcSend, false⟩
  | .xrc, .read | .xrc, .atomic => some ⟨false, .xrcSend, false⟩
  | .srd, .send | .srd, .sendImm | .srd, .write | .srd, .writeImm => some ⟨useInl, .driver, false⟩
  | .srd, .read => some ⟨false, .driver, false⟩
  | _, _ => none

/-- The type of the QPs that the requests are posted on. -/
def qpTypeOf : ConnectionType → QpType
  | .rc => .rc
  | .uc => .uc
  | .ud => .ud
  | .xrc => .xrcSend
  | .rawEth => .rawPacket
  | .dc | .srd => .driver

def opcodeOf (atomicType : AtomicType) : VerbType → WrOpcode
  | .send => .send
  | .sendImm => .sendWithImm
  | .write => .rdmaWrite
  | .writeImm => .rdmaWriteWithImm
  | .read => .rdmaRead
  | .atomic => match atomicType with
    | .cmpAndSwap => .atomicCmpAndSwp
    | .fetchAndAdd => .atomicFetchAndAdd

def buildWrId (wrIndex qpIndex : Nat) : Nat := wrIndex % 2 ^ 32 + qpIndex % 2 ^ 16 * 2 ^ 32

/-- A request behind `memset`. -/
def zeroWr : SendWr where
  wrId := 0
  next := none
  sge := ⟨⟨0, 0⟩, 0⟩
  opcode := .rdmaWrite
  signaled := false
  inl := false
  immData := 0
  rdmaRemoteAddr := 0
  rdmaRkey := 0
  atomicRemoteAddr := 0
  atomicRkey := 0
  compareAdd := 0
  swap := 0
  udAh := 0
  udRemoteQpn := 0
  udRemoteQkey := 0
  remoteSrqn := 0

/-- What the requests are built from, apart from the parameters: the buffers and keys of this side,
what the peer sent of itself, the scatter elements that the set-up of data validation gives each QP,
and what the array held before. -/
structure WqeCtx where
  size : Nat
  inlineSize : Nat
  atomicType : AtomicType
  bufferSize : Nat
  cycleBuffer : Nat
  cacheLineSize : Nat
  buf : Nat → Nat
  lkey : Nat → Nat
  nullLkey : Nat
  ah : Nat → Nat
  vaddr : Nat → Nat
  rkey : Nat → Nat
  qpn : Nat → Nat
  srqn : Nat → Nat
  cmRemoteQpn : Nat → Nat
  cmRemoteQkey : Nat → Nat
  tailMarkersVaddr : Nat
  dataSge : Nat → Sge
  atomicSge : Nat → Sge
  prior : Nat → SendWr

/-- `increase_loc_addr` and `increase_rem_addr`. -/
def increaseAddr (addr size cnt primAddr cacheLineSize cycleBuffer : Nat) : Nat :=
  if (cnt + 1) % (cycleBuffer / incSize size cacheLineSize) = 0 then primAddr
  else addr + incSize size cacheLineSize

namespace PerftestParameters

variable (q : PerftestParameters) (x : WqeCtx)

def halvesQps : Bool :=
  (q.useXrc || q.connectionType = .dc) && (q.duplex || q.tst = .lat)

def wqeQps : Nat := if q.halvesQps then q.numOfQps / 2 else q.numOfQps

def wqeXrcOffset : Nat := if q.halvesQps then q.numOfQps / 2 else 0

def listedTest : Bool := q.tst = .bw || q.tst = .latByBw

/-- The address of the `j`-th scatter element of a QP. -/
def sgeAddr (i : Nat) : Nat → Nat
  | 0 => if q.macFwd && q.mrPerQp then
      x.buf 0 + (q.wqeQps + i) * (if x.bufferSize < x.cycleBuffer then x.cycleBuffer
        else x.bufferSize)
    else x.buf i
  | j + 1 => if q.listedTest ∧ x.size ≤ x.cycleBuffer / 2 then
      increaseAddr (sgeAddr i j) x.size j (x.buf i) x.cacheLineSize x.cycleBuffer
    else sgeAddr i j

def rdmaAddr (i : Nat) : Nat → Nat
  | 0 => x.vaddr (q.wqeXrcOffset + i)
  | j + 1 => if q.listedTest ∧ x.size ≤ x.cycleBuffer / 2 then
      increaseAddr (rdmaAddr i j) x.size j (x.vaddr (q.wqeXrcOffset + i)) x.cacheLineSize
        x.cycleBuffer
    else rdmaAddr i j

def atomicAddr (i : Nat) : Nat → Nat
  | 0 => x.vaddr (q.wqeXrcOffset + i)
  | j + 1 => if q.listedTest then
      increaseAddr (atomicAddr i j) x.size j (x.vaddr (q.wqeXrcOffset + i)) x.cacheLineSize
        x.cycleBuffer
    else atomicAddr i j

/-- The post list as `ctx_set_send_reg_wqes` counts it. -/
def listLength : Nat := q.postList.toNat

/-- The request that `ctx_set_send_reg_wqes` writes for round `j` of QP `i`; only the first one of a
QP is zeroed before. -/
def regWqe (i j : Nat) : SendWr :=
  let k := i * q.listLength + j
  let old := if j = 0 then zeroWr else x.prior k
  let rdma := q.verb = .write ∨ q.verb = .writeImm ∨ q.verb = .read
  let sends := q.verb = .send ∨ q.verb = .sendImm
  let datagram := sends ∧ (q.connectionType = .ud ∨ q.connectionType = .srd)
  let fetchAdd := x.atomicType = .fetchAndAdd
  { wrId := buildWrId k i
    next := if j + 1 = q.listLength then none else some (k + 1)
    sge := ⟨⟨q.sgeAddr x i j, (if q.connectionType = .rawEth then x.size - 4 else x.size) % 2 ^ 32⟩,
      if q.useNullMr then x.nullLkey else x.lkey i⟩
    opcode := opcodeOf x.atomicType q.verb
    signaled := (j + 1) % q.cqMod = 0
    inl := (sends ∨ q.verb = .write ∨ q.verb = .writeImm) ∧ x.size ≤ x.inlineSize
    immData := if q.verb = .sendImm ∨ q.verb = .writeImm then DEF_IMM else old.immData
    rdmaRemoteAddr := if rdma then q.rdmaAddr x i j else old.rdmaRemoteAddr
    rdmaRkey := if rdma then x.rkey (q.wqeXrcOffset + i) else old.rdmaRkey
    atomicRemoteAddr := if q.verb = .atomic then q.atomicAddr x i j else old.atomicRemoteAddr
    atomicRkey := if q.verb = .atomic then x.rkey (q.wqeXrcOffset + i) else old.atomicRkey
    compareAdd := if q.verb = .atomic ∧ fetchAdd then ATOMIC_ADD_VALUE else old.compareAdd
    swap := if q.verb = .atomic ∧ ¬ fetchAdd then ATOMIC_SWAP_VALUE else old.swap
    udAh := if datagram then x.ah i else old.udAh
    udRemoteQpn := if datagram then
      if q.workRdmaCm then x.cmRemoteQpn i else x.qpn (q.wqeXrcOffset + i) else old.udRemoteQpn
    udRemoteQkey := if datagram then
      if q.workRdmaCm then x.cmRemoteQkey i else DEF_QKEY else old.udRemoteQkey
    remoteSrqn := if q.useXrc then x.srqn (q.wqeXrcOffset + i) else old.remoteSrqn }

/-- `ctx->wr` behind `ctx_set_send_reg_wqes`. -/
def ctxSetSendRegWqes (k : Nat) : SendWr :=
  if k < q.wqeQps * q.listLength then q.regWqe x (k / q.listLength) (k % q.listLength)
  else x.prior k

/-- The data request of QP `i` and the fetch-and-add behind it, before a run sets their addresses. -/
def dataValWqe (i : Nat) : SendWr :=
  { zeroWr with
    wrId := buildWrId i i
    signaled := true
    opcode := if q.verb = .read then .rdmaRead else opcodeOf x.atomicType q.verb
    rdmaRemoteAddr := x.vaddr i
    rdmaRkey := x.rkey i
    sge := ⟨x.dataSge i, x.lkey 0⟩ }

def dataValAtomicWqe (i : Nat) : SendWr :=
  { zeroWr with
    wrId := buildWrId (i + 1000) i
    opcode := .atomicFetchAndAdd
    atomicRemoteAddr := x.tailMarkersVaddr
    atomicRkey := x.rkey i
    compareAdd := 1
    sge := ⟨x.atomicSge i, x.lkey 0⟩ }

/-- `ctx->wr` when `run_iter_bw_dv` posts on QP `index`: the data request with its addresses, and
the fetch-and-add linked to it where a chunk ends. -/
def dataValWqes (index : Nat) (signaled : Bool) (post : DvPost) (k : Nat) : SendWr :=
  if k = index then
    { q.dataValWqe x index with
      signaled := signaled
      rdmaRemoteAddr := post.remoteAddr
      sge := ⟨post.sge, x.lkey 0⟩
      next := post.next.map fun _ => index + q.numOfQps }
  else if k = index + q.numOfQps then
    match post.next with
    | some a => { dataValAtomicWqe x index with
        atomicRemoteAddr := a.remoteAddr, sge := ⟨a.sge, x.lkey 0⟩ }
    | none => dataValAtomicWqe x index
  else if k < q.numOfQps then q.dataValWqe x k
  else if k < 2 * q.numOfQps then dataValAtomicWqe x (k - q.numOfQps)
  else x.prior k

end PerftestParameters

end Perftest
