import Perftest.Lib.Cyclic
import Perftest.PollBatches
import Perftest.PostAgreement
import Perftest.WarmUpRuns

namespace Perftest

open Cyclic Checked

def UD_ADDITION : Nat := 40

/-- The slots of a ring in a buffer of `cycle_buffer` bytes. -/
def ringSlots (size cacheLineSize cycleBuffer : Nat) : Nat :=
  cycleBuffer / incSize size cacheLineSize

theorem incSize_pos {size cacheLineSize cycleBuffer : Nat}
    (hn : 1 ≤ ringSlots size cacheLineSize cycleBuffer) : 0 < incSize size cacheLineSize := by
  rcases Nat.eq_zero_or_pos (incSize size cacheLineSize) with hz | hpos
  · rw [ringSlots, hz, Nat.div_zero] at hn
    omega
  · exact hpos

/-- A step of the address is one of the slot. -/
theorem increaseAddr_slot (base size cnt slot cacheLineSize cycleBuffer : Nat) :
    increaseAddr (base + slot * incSize size cacheLineSize) size cnt base cacheLineSize cycleBuffer =
      base + ringNext (ringSlots size cacheLineSize cycleBuffer) cnt slot *
        incSize size cacheLineSize := by
  unfold increaseAddr ringNext ringSlots
  split
  · rw [Nat.zero_mul, Nat.add_zero]
  · rw [Nat.succ_mul, Nat.add_assoc]

/-- The loops that post the requests of `ctx_set_send_reg_wqes`. -/
def RunLoop.postsRegWqes : RunLoop → Bool
  | runIterBw | runIterBwInfinitely | runIterBi | runIterFw | runIterLatBurst => true
  | runIterBwDv | runIterBwServer | runIterBwInfinitelyServer | runIterLatBurstServer => false

def VerbType.oneSided (verb : VerbType) : Bool := verb ≠ .send && verb ≠ .sendImm

/-- The loops that call `increase_rem_addr`. -/
def RunLoop.stepsRemote (loop : RunLoop) (verb : VerbType) : Bool :=
  match loop with
  | runIterBw | runIterBwInfinitely => verb.oneSided
  | _ => false

/-- The addresses in the requests of each QP, what `scnt` has counted, and the pairs of addresses
that were posted. -/
structure SendRing where
  addr : Nat → Nat
  remote : Nat → Nat
  scnt : Nat → Nat
  posted : Nat → List (Nat × Nat)

namespace PerftestParameters

variable (q : PerftestParameters) (x : WqeCtx) (loop : RunLoop)

/-- The remote address of a request. -/
def remoteAddr (i j : Nat) : Nat := if q.verb = .atomic then q.atomicAddr x i j else q.rdmaAddr x i j

/-- `rem_addr` of a QP. -/
def remAddr (i : Nat) : Nat := x.vaddr (q.wqeXrcOffset + i)

def initRing : SendRing where
  addr i := q.sgeAddr x i 0
  remote i := q.remoteAddr x i 0
  scnt _ := 0
  posted _ := []

/-- A post of a single request on QP `i`, and what the loop does to its addresses. -/
def postRing (s : SendRing) (i : Nat) : SendRing where
  addr := if x.size ≤ x.cycleBuffer / 2 then
      Function.update s.addr i
        (increaseAddr (s.addr i) x.size (s.scnt i) (x.buf i) x.cacheLineSize x.cycleBuffer)
    else s.addr
  remote := if x.size ≤ x.cycleBuffer / 2 ∧ loop.stepsRemote q.verb then
      Function.update s.remote i
        (increaseAddr (s.remote i) x.size (s.scnt i) (q.remAddr x i) x.cacheLineSize x.cycleBuffer)
    else s.remote
  scnt := Function.update s.scnt i (s.scnt i + 1)
  posted := Function.update s.posted i (s.posted i ++ [(s.addr i, s.remote i)])

/-- A loop that posts on the QPs in the order of `order`. -/
def postRings (order : List Nat) : SendRing := order.foldl (q.postRing x loop) (q.initRing x)

/-- The macro `SIZE`, in the server's loop. -/
def recvSize (size : Nat) : Nat :=
  if q.connectionType = .ud ∧ q.machine = .server then size + UD_ADDITION else size

/-- `rx_buffer_addr`, the QPs of the sending half left out. -/
def rxBufferAddr (sendQpBuffSize i : Nat) : Nat :=
  (if q.mrPerQp then x.buf i
    else x.buf 0 + (q.wqeQps + (i - q.wqeXrcOffset)) * sendQpBuffSize) +
  if q.connectionType = .ud then x.cacheLineSize - UD_ADDITION else 0

/-- The receive posts of a QP before a run. -/
def sizePerQp : Nat :=
  if q.useSrq then q.rxDepth / q.recvPostList.toNat / q.numOfQps
  else q.rxDepth / q.recvPostList.toNat

/-- A receive address that is stepped `j` times, if it is stepped at all. -/
def recvAddr (steps : Bool) (base : Nat) : Nat → Nat
  | 0 => base
  | j + 1 =>
    if steps then increaseAddr (recvAddr steps base j) x.size j base x.cacheLineSize x.cycleBuffer
    else recvAddr steps base j

/-- The addresses in the receive list of a QP whose first one is `addr`. -/
def recvList (base addr : Nat) : List Nat :=
  (List.range q.recvPostList.toNat).map fun j =>
    if j = 0 then addr
    else recvAddr x (q.listedTest && decide (x.size ≤ x.cycleBuffer / 2)) base j

end PerftestParameters

/-- The first receive address of each QP, its counter of the posted receives, and the addresses of
all receives that were posted. -/
structure RecvRing where
  addr : Nat → Nat
  postedPerQp : Nat → Nat
  posted : Nat → List Nat

namespace PerftestParameters

variable (q : PerftestParameters) (x : WqeCtx) (base : Nat → Nat)

/-- `ctx_set_recv_wqes`, with `rposted` for each QP. -/
def ctxSetRecvWqes : RecvRing where
  addr := base
  postedPerQp _ := q.sizePerQp * q.recvPostList.toNat
  posted i := (List.range q.sizePerQp).flatMap fun j =>
    q.recvList x (base i) (recvAddr x (decide (q.recvPostList = 1) && q.listedTest &&
      decide (x.size ≤ x.cycleBuffer / 2)) (base i) j)

/-- `run_iter_bw_server` posts the receives of QP `i` again. -/
def repostRecv (s : RecvRing) (i : Nat) : RecvRing where
  addr := if q.recvSize x.size ≤ x.cycleBuffer / 2 ∧ q.recvPostList = 1 then
      Function.update s.addr i
        (increaseAddr (s.addr i) x.size (s.postedPerQp i) (base i) x.cacheLineSize x.cycleBuffer)
    else s.addr
  postedPerQp := Function.update s.postedPerQp i (s.postedPerQp i + q.recvPostList.toNat)
  posted := Function.update s.posted i (s.posted i ++ q.recvList x (base i) (s.addr i))

/-- A run of the server that posts on the QPs in the order of `order`. -/
def repostRecvs (order : List Nat) : RecvRing :=
  order.foldl (q.repostRecv x base) (q.ctxSetRecvWqes x base)

end PerftestParameters

namespace WqeCtx

variable (x : WqeCtx)

def slots : Nat := ringSlots x.size x.cacheLineSize x.cycleBuffer

def inc : Nat := incSize x.size x.cacheLineSize

/-- The address of slot `k` in the ring at `base`, counted around the ring. -/
def slotAddr (base k : Nat) : Nat := base + k % x.slots * x.inc

/-- A slot of the ring at `base`, inside its `cycle_buffer` bytes. -/
def InRing (base a : Nat) : Prop :=
  ∃ s < x.slots, a = base + s * x.inc ∧ a + x.inc ≤ base + x.cycleBuffer

variable {x} {base a k : Nat}

theorem inRing_of_lt (h : k < x.slots) : x.InRing base (base + k * x.inc) := by
  refine ⟨k, h, rfl, ?_⟩
  have hblock := block_end_le (n := x.inc) h
  have hdiv : x.slots * x.inc ≤ x.cycleBuffer := Nat.div_mul_le_self _ _
  omega

theorem inRing_slotAddr (hn : 1 ≤ x.slots) : x.InRing base (x.slotAddr base k) :=
  inRing_of_lt (Nat.mod_lt k hn)

theorem slotAddr_zero : x.slotAddr base 0 = base := by
  rw [slotAddr, Nat.zero_mod, Nat.zero_mul, Nat.add_zero]

/-- The address behind a step from slot `k`, when the counter is at `k`. -/
theorem increaseAddr_slotAddr (hn : 1 ≤ x.slots) :
    increaseAddr (x.slotAddr base k) x.size k base x.cacheLineSize x.cycleBuffer =
      x.slotAddr base (k + 1) := by
  rw [slotAddr, inc, increaseAddr_slot, slotAddr, ← slots, ringNext_mod hn, inc]

end WqeCtx

/-- The addresses of the requests and of the receives go around their rings. -/
structure AddressRing (q : PerftestParameters) (x : WqeCtx) (loop : RunLoop) (sendQpBuffSize : Nat) :
    Prop where
  single : loop.postsRegWqes → q.postList = 1 → ∀ order i k l r,
    ((q.postRings x loop order).posted i)[k]? = some (l, r) →
      l = x.slotAddr (x.buf i) k ∧ (q.verb.oneSided → r = x.slotAddr (q.remAddr x i) k)
  list : ∀ i j, j < q.listLength → q.sgeAddr x i j = x.slotAddr (x.buf i) j ∧
    (q.verb.oneSided → q.remoteAddr x i j = x.slotAddr (q.remAddr x i) j)
  receives : ∀ order i,
    ∀ a ∈ (q.repostRecvs x (q.rxBufferAddr x sendQpBuffSize) order).posted i,
      x.InRing (q.rxBufferAddr x sendQpBuffSize i) a
  inside : ∀ base k, x.InRing base (x.slotAddr base k)

namespace PerftestParameters

variable {q : PerftestParameters} {x : WqeCtx} {loop : RunLoop} {i j : Nat}

theorem sgeAddr_eq (hn : 1 ≤ x.slots) (hs : x.size ≤ x.cycleBuffer / 2) (hl : q.listedTest = true)
    (hm : ¬ (q.macFwd = true ∧ q.mrPerQp = true)) : q.sgeAddr x i j = x.slotAddr (x.buf i) j := by
  induction j with
  | zero =>
    have hm' : ¬ (q.macFwd && q.mrPerQp) = true := by simpa using hm
    rw [sgeAddr, if_neg hm', WqeCtx.slotAddr_zero]
  | succ j ih =>
    rw [sgeAddr, if_pos ⟨hl, hs⟩, ih]
    exact WqeCtx.increaseAddr_slotAddr hn

theorem atomicAddr_eq (hn : 1 ≤ x.slots) (hl : q.listedTest = true) :
    q.atomicAddr x i j = x.slotAddr (q.remAddr x i) j := by
  induction j with
  | zero => rw [atomicAddr, WqeCtx.slotAddr_zero, remAddr]
  | succ j ih =>
    rw [atomicAddr, if_pos hl, ih]
    exact WqeCtx.increaseAddr_slotAddr hn

theorem rdmaAddr_eq (hn : 1 ≤ x.slots) (hs : x.size ≤ x.cycleBuffer / 2)
    (hl : q.listedTest = true) : q.rdmaAddr x i j = x.slotAddr (q.remAddr x i) j := by
  induction j with
  | zero => rw [rdmaAddr, WqeCtx.slotAddr_zero, remAddr]
  | succ j ih =>
    rw [rdmaAddr, if_pos ⟨hl, hs⟩, ih]
    exact WqeCtx.increaseAddr_slotAddr hn

theorem remoteAddr_eq (hn : 1 ≤ x.slots) (hs : x.size ≤ x.cycleBuffer / 2)
    (hl : q.listedTest = true) : q.remoteAddr x i j = x.slotAddr (q.remAddr x i) j := by
  rw [remoteAddr, atomicAddr_eq hn hl, rdmaAddr_eq hn hs hl, ite_self]

/-- The slot that the loop leaves a remote address in behind `k` posts. -/
def remoteSlot (q : PerftestParameters) (loop : RunLoop) (k : Nat) : Nat :=
  if loop.stepsRemote q.verb then k else 0

theorem postRings_induct {P : SendRing → Prop} (hinit : P (q.initRing x))
    (hpost : ∀ s i, P s → P (q.postRing x loop s i)) (order : List Nat) :
    P (q.postRings x loop order) := by
  unfold postRings
  generalize q.initRing x = s at hinit
  induction order generalizing s with
  | nil => exact hinit
  | cons i order ih => exact ih _ (hpost s i hinit)

theorem postRing_remote (hn : 1 ≤ x.slots) (hs : x.size ≤ x.cycleBuffer / 2) {s : SendRing}
    (h : ∀ i, s.remote i = x.slotAddr (q.remAddr x i) (q.remoteSlot loop (s.scnt i))) (i i' : Nat) :
    (q.postRing x loop s i).remote i' =
      x.slotAddr (q.remAddr x i') (q.remoteSlot loop ((q.postRing x loop s i).scnt i')) := by
  simp only [postRing, hs, true_and]
  by_cases hi : i' = i
  · subst hi
    rw [Function.update_self]
    split
    next hstep =>
      rw [Function.update_self, h, remoteSlot, if_pos hstep, remoteSlot, if_pos hstep]
      exact WqeCtx.increaseAddr_slotAddr hn
    next hstep => rw [h, remoteSlot, if_neg hstep, remoteSlot, if_neg hstep]
  · rw [Function.update_of_ne hi]
    split
    next => rw [Function.update_of_ne hi, h]
    next => exact h i'

theorem initRing_remote (hn : 1 ≤ x.slots) (hs : x.size ≤ x.cycleBuffer / 2)
    (hl : q.listedTest = true) (i : Nat) :
    (q.initRing x).remote i = x.slotAddr (q.remAddr x i) (q.remoteSlot loop 0) := by
  rw [remoteSlot, ite_self]
  exact remoteAddr_eq hn hs hl

/-- The addresses of each QP are those of its own counter, and so were those that it has posted. -/
structure RingInv (q : PerftestParameters) (x : WqeCtx) (loop : RunLoop) (s : SendRing) : Prop where
  addr : ∀ i, s.addr i = x.slotAddr (x.buf i) (s.scnt i)
  remote : ∀ i, s.remote i = x.slotAddr (q.remAddr x i) (q.remoteSlot loop (s.scnt i))
  posted : ∀ i, s.posted i = (List.range (s.scnt i)).map fun k =>
    (x.slotAddr (x.buf i) k, x.slotAddr (q.remAddr x i) (q.remoteSlot loop k))

theorem RingInv.post (hn : 1 ≤ x.slots) (hs : x.size ≤ x.cycleBuffer / 2) {s : SendRing}
    (h : RingInv q x loop s) (i : Nat) : RingInv q x loop (q.postRing x loop s i) := by
  refine ⟨fun i' => ?_, fun i' => ?_, fun i' => ?_⟩
  · simp only [postRing, if_pos hs]
    by_cases hi : i' = i
    · rw [hi, Function.update_self, Function.update_self, h.addr]
      exact WqeCtx.increaseAddr_slotAddr hn
    · rw [Function.update_of_ne hi, Function.update_of_ne hi]
      exact h.addr i'
  · exact postRing_remote hn hs h.remote i i'
  · simp only [postRing]
    by_cases hi : i' = i
    · subst hi
      rw [Function.update_self, Function.update_self, List.range_succ, List.map_append, h.posted,
        h.addr, h.remote]
      rfl
    · rw [Function.update_of_ne hi, Function.update_of_ne hi]
      exact h.posted i'

theorem postRings_inv (hn : 1 ≤ x.slots) (hs : x.size ≤ x.cycleBuffer / 2)
    (hl : q.listedTest = true) (hm : ¬ (q.macFwd = true ∧ q.mrPerQp = true)) (order : List Nat) :
    RingInv q x loop (q.postRings x loop order) := by
  have hinit : RingInv q x loop (q.initRing x) :=
    ⟨fun i => sgeAddr_eq hn hs hl hm, initRing_remote hn hs hl, fun i => rfl⟩
  exact postRings_induct hinit (fun s i h => h.post hn hs i) order

variable {base : Nat → Nat} {steps : Bool} {a k : Nat}

theorem recvAddr_still : recvAddr x false a j = a := by
  induction j with
  | zero => rfl
  | succ j ih => exact ih

theorem recvAddr_slot (hn : 1 ≤ x.slots) : recvAddr x true a j = x.slotAddr a j := by
  induction j with
  | zero => exact WqeCtx.slotAddr_zero.symm
  | succ j ih =>
    rw [recvAddr, if_pos rfl, ih]
    exact WqeCtx.increaseAddr_slotAddr hn

theorem recvAddr_inRing (hn : 1 ≤ x.slots) : x.InRing a (recvAddr x steps a j) := by
  cases steps with
  | false =>
    have h : x.InRing a (x.slotAddr a 0) := WqeCtx.inRing_slotAddr hn
    rw [WqeCtx.slotAddr_zero] at h
    rwa [recvAddr_still]
  | true =>
    rw [recvAddr_slot hn]
    exact WqeCtx.inRing_slotAddr hn

theorem recvList_inRing (hn : 1 ≤ x.slots) {addr : Nat} (h : x.InRing a addr) :
    ∀ e ∈ q.recvList x a addr, x.InRing a e := by
  intro e he
  obtain ⟨j, -, rfl⟩ := List.mem_map.mp he
  split
  next => exact h
  next => exact recvAddr_inRing hn

/-- The first receive address of a QP stands in a slot that its counter has reached, or never moves;
the counter need not be at the start of a cycle. -/
structure RecvInv (q : PerftestParameters) (x : WqeCtx) (base : Nat → Nat) (s : RecvRing) : Prop where
  addr : ∀ i, ∃ k, s.addr i = base i + k * x.inc ∧
    if q.recvSize x.size ≤ x.cycleBuffer / 2 ∧ q.recvPostList = 1 then k ≤ s.postedPerQp i % x.slots
    else k = 0
  posted : ∀ i, ∀ a ∈ s.posted i, x.InRing (base i) a

theorem RecvInv.init (hn : 1 ≤ x.slots) : RecvInv q x base (q.ctxSetRecvWqes x base) := by
  refine ⟨fun i => ⟨0, ?_, ?_⟩, fun i a ha => ?_⟩
  · rw [Nat.zero_mul, Nat.add_zero]
    rfl
  · split
    next => exact Nat.zero_le _
    next => rfl
  · obtain ⟨j, -, ha⟩ := List.mem_flatMap.mp ha
    exact recvList_inRing hn (recvAddr_inRing hn) a ha

theorem RecvInv.repost (hn : 1 ≤ x.slots) {s : RecvRing} (h : RecvInv q x base s) (i : Nat) :
    RecvInv q x base (q.repostRecv x base s i) := by
  refine ⟨fun i' => ?_, fun i' a ha => ?_⟩
  · obtain ⟨k, hk, hslot⟩ := h.addr i'
    by_cases hsteps : q.recvSize x.size ≤ x.cycleBuffer / 2 ∧ q.recvPostList = 1
    · rw [if_pos hsteps] at hslot
      simp only [repostRecv, if_pos hsteps]
      by_cases hi : i' = i
      · subst hi
        rw [Function.update_self, Function.update_self, hk, WqeCtx.inc, increaseAddr_slot,
          hsteps.2, Int.toNat_one]
        exact ⟨_, rfl, ringNext_le_mod hn hslot⟩
      · rw [Function.update_of_ne hi, Function.update_of_ne hi]
        exact ⟨k, hk, hslot⟩
    · rw [if_neg hsteps] at hslot
      simp only [repostRecv, if_neg hsteps]
      exact ⟨k, hk, hslot⟩
  · simp only [repostRecv] at ha
    by_cases hi : i' = i
    · subst hi
      rw [Function.update_self, List.mem_append] at ha
      rcases ha with ha | ha
      · exact h.posted i' a ha
      · obtain ⟨k, hk, hslot⟩ := h.addr i'
        have hlt : k < x.slots := by
          split at hslot
          next => exact hslot.trans_lt (Nat.mod_lt _ hn)
          next => omega
        refine recvList_inRing hn ?_ a ha
        rw [hk]
        exact WqeCtx.inRing_of_lt hlt
    · rw [Function.update_of_ne hi] at ha
      exact h.posted i' a ha

theorem repostRecvs_induct {P : RecvRing → Prop} (hinit : P (q.ctxSetRecvWqes x base))
    (hpost : ∀ s i, P s → P (q.repostRecv x base s i)) (order : List Nat) :
    P (q.repostRecvs x base order) := by
  unfold repostRecvs
  generalize q.ctxSetRecvWqes x base = s at hinit
  induction order generalizing s with
  | nil => exact hinit
  | cons i order ih => exact ih _ (hpost s i hinit)

theorem repostRecvs_inv (hn : 1 ≤ x.slots) (order : List Nat) :
    RecvInv q x base (q.repostRecvs x base order) :=
  repostRecvs_induct (RecvInv.init hn) (fun _ i h => h.repost hn i) order

end PerftestParameters

section Rings

variable {q : PerftestParameters} {x : WqeCtx} {loop : RunLoop} {sendQpBuffSize : Nat}

/-- A first post of the forwarding test with a buffer for each QP is outside its ring. -/
theorem sgeAddr_macFwd_ne (hn : 1 ≤ x.slots) (hq : 1 ≤ q.wqeQps)
    (hm : q.macFwd = true ∧ q.mrPerQp = true) : q.sgeAddr x 0 0 ≠ x.buf 0 := by
  have hm' : (q.macFwd && q.mrPerQp) = true := by rw [hm.1, hm.2, Bool.and_true]
  have hcycle : 1 ≤ x.cycleBuffer := by
    by_contra hz
    have h0 : x.cycleBuffer = 0 := by omega
    rw [WqeCtx.slots, ringSlots, h0, Nat.zero_div] at hn
    omega
  have hsize : 1 ≤ if x.bufferSize < x.cycleBuffer then x.cycleBuffer else x.bufferSize := by
    split <;> omega
  rw [PerftestParameters.sgeAddr, if_pos hm']
  have := Nat.mul_pos (show 0 < q.wqeQps + 0 by omega) hsize
  omega

/-- Without a step of the remote address the second request goes to the first one's place. -/
theorem AddressRing.stepsRemote (hn : 1 ≤ x.slots) (hs : x.size ≤ x.cycleBuffer / 2)
    (hl : q.listedTest = true) (hm : ¬ (q.macFwd = true ∧ q.mrPerQp = true))
    (hloop : loop.postsRegWqes = true) (hp : q.postList = 1)
    (h : AddressRing q x loop sendQpBuffSize) :
    loop.stepsRemote q.verb = true ∨ ¬ q.verb.oneSided = true ∨ x.slots = 1 := by
  by_contra hnone
  simp only [not_or, not_not] at hnone
  obtain ⟨hstep, hone, hslots⟩ := hnone
  have hring : q.RingInv x loop (q.postRings x loop [0, 0]) := q.postRings_inv hn hs hl hm [0, 0]
  have hposted := hring.posted 0
  have hscnt : (q.postRings x loop [0, 0]).scnt 0 = 2 := by
    simp [PerftestParameters.postRings, PerftestParameters.postRing, PerftestParameters.initRing]
  rw [hscnt] at hposted
  have hsecond := h.single hloop hp [0, 0] 0 1 _ _ (by rw [hposted]; rfl)
  have hrem := hsecond.2 hone
  rw [PerftestParameters.remoteSlot, if_neg hstep, WqeCtx.slotAddr_zero, WqeCtx.slotAddr,
    Nat.mod_eq_of_lt (by omega), Nat.one_mul] at hrem
  have hinc : 0 < x.inc := incSize_pos hn
  omega

/-- The rings hold unless the forwarding test has a buffer for each QP, and unless the single
requests of a one-sided verb go through a loop that leaves the remote address alone. -/
theorem addressRing_iff (hn : 1 ≤ x.slots) (hs : x.size ≤ x.cycleBuffer / 2)
    (hl : q.listedTest = true) (hp : 1 ≤ q.postList) (hq : 1 ≤ q.wqeQps)
    (hloop : loop.postsRegWqes = true) :
    AddressRing q x loop sendQpBuffSize ↔
      ¬ (q.macFwd = true ∧ q.mrPerQp = true) ∧
        (q.postList = 1 →
          loop.stepsRemote q.verb = true ∨ ¬ q.verb.oneSided = true ∨ x.slots = 1) := by
  constructor
  · intro h
    have hm : ¬ (q.macFwd = true ∧ q.mrPerQp = true) := by
      intro hm
      have hlen : 0 < q.listLength := by
        unfold PerftestParameters.listLength
        omega
      have hfirst := (h.list 0 0 hlen).1
      rw [WqeCtx.slotAddr_zero] at hfirst
      exact sgeAddr_macFwd_ne hn hq hm hfirst
    exact ⟨hm, fun hp => h.stepsRemote hn hs hl hm hloop hp⟩
  · rintro ⟨hm, hrem⟩
    refine ⟨fun _ hone order i k l r hk => ?_, fun i j _ => ?_, fun order i a ha => ?_,
      fun base k => WqeCtx.inRing_slotAddr hn⟩
    · rw [(q.postRings_inv hn hs hl hm order).posted i, List.getElem?_map] at hk
      obtain ⟨k', hk', he⟩ := Option.map_eq_some_iff.mp hk
      obtain ⟨hlt, rfl⟩ := List.getElem?_eq_some_iff.mp hk'
      rw [List.getElem_range] at he
      obtain ⟨rfl, rfl⟩ := Prod.mk.inj he
      refine ⟨rfl, fun hside => ?_⟩
      rcases hrem hone with hstep | hside' | hslots
      · rw [PerftestParameters.remoteSlot, if_pos hstep]
      · exact absurd hside hside'
      · rw [WqeCtx.slotAddr, WqeCtx.slotAddr, hslots, Nat.mod_one, Nat.mod_one]
    · exact ⟨PerftestParameters.sgeAddr_eq hn hs hl hm,
        fun _ => PerftestParameters.remoteAddr_eq hn hs hl⟩
    · exact (PerftestParameters.repostRecvs_inv hn order).posted i a ha

end Rings

theorem inlineWqeCtx_slots : (inlineWqeCtx 0).slots = 64 := by decide

/-- The facts about a command line with `-s 64` that its rings depend on. -/
def ringFacts (verb : VerbType) (loop : RunLoop) (d : PerftestParameters) : Bool :=
  decide (d.runLoop ⟨.write, .bw, false⟩ = some loop) && decide (d.verb = verb) &&
    decide (d.tst = .bw) && decide (d.postList = 1) && decide (d.wqeQps = 1) && !d.macFwd

theorem addressRing_writeBw : ∃ d, writeBwClient [.size 64 .none] = .ok d ∧
    d.runLoop ⟨.write, .bw, false⟩ = some .runIterBw ∧
    AddressRing d (inlineWqeCtx 0) .runIterBw 8192 := by
  obtain ⟨d, hd, hr⟩ := exists_of_toOption_any (x := writeBwClient [.size 64 .none])
    (p := ringFacts .write .runIterBw) (by decide +kernel)
  simp only [ringFacts, Bool.and_eq_true, Bool.not_eq_true', decide_eq_true_eq] at hr
  obtain ⟨⟨⟨⟨⟨hloop, hv⟩, ht⟩, hp⟩, hq⟩, hm⟩ := hr
  have hlisted : d.listedTest = true := by rw [PerftestParameters.listedTest, ht]; rfl
  refine ⟨d, hd, hloop, (addressRing_iff ?_ (by decide) hlisted hp.ge hq.ge rfl).mpr
    ⟨fun h => ?_, fun _ => .inl ?_⟩⟩
  · rw [inlineWqeCtx_slots]
    decide
  · rw [hm] at h
    exact absurd h.1 (by decide)
  · rw [hv]
    rfl

/-- In both directions at once, writes with immediate data never leave the first place. -/
theorem runIterBi_keeps_remote : ∃ d,
    writeBwClient [.bidirectional, .writeWithImm, .size 64 .none] = .ok d ∧
    d.runLoop ⟨.write, .bw, false⟩ = some .runIterBi ∧
    ¬ AddressRing d (inlineWqeCtx 0) .runIterBi 8192 := by
  obtain ⟨d, hd, hr⟩ := exists_of_toOption_any
    (x := writeBwClient [.bidirectional, .writeWithImm, .size 64 .none])
    (p := ringFacts .writeImm .runIterBi) (by decide +kernel)
  simp only [ringFacts, Bool.and_eq_true, Bool.not_eq_true', decide_eq_true_eq] at hr
  obtain ⟨⟨⟨⟨⟨hloop, hv⟩, ht⟩, hp⟩, hq⟩, hm⟩ := hr
  have hlisted : d.listedTest = true := by rw [PerftestParameters.listedTest, ht]; rfl
  have hslots := inlineWqeCtx_slots
  refine ⟨d, hd, hloop, fun h => ?_⟩
  rcases h.stepsRemote (by omega) (by decide) hlisted (fun hb => by simp [hm] at hb) rfl hp with
    hstep | hside | hone
  · exact absurd hstep Bool.false_ne_true
  · rw [hv] at hside
    exact hside rfl
  · omega

end Perftest
