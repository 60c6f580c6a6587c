import Perftest.AddressRing
import Perftest.SteeringAgreement

namespace Perftest

open ByteMemory NetBytes CMachine Cyclic

/-- A client of `raw_ethernet_bw`: its parameters and its context, what its packets are built from,
and the addresses of the two sides for each QP. -/
structure FlowSender where
  params : PerftestParameters
  ctx : WqeCtx
  raw : RawEthParameters
  myDestInfo : Nat → RawEthernetInfo
  remDestInfo : Nat → RawEthernetInfo

/-- The addresses and the counters of `run_iter_bw`, with the flow that the burst counter stood at
and the address of each request that was posted. -/
structure FlowSend where
  sge : Nat → Nat
  scnt : Nat → Nat
  flowsBurstIter : Nat
  sendFlowsIndex : Nat
  addressOffset : Int
  posted : Nat → List (Nat × Nat)

namespace FlowSender

variable (c : FlowSender)

def numOfQpsFactor : Nat := if c.params.mrPerQp then 1 else c.params.numOfQps

def flowBuffSize : Nat :=
  c.raw.flowBuffSize c.ctx.cycleBuffer c.ctx.cacheLineSize c.numOfQpsFactor

/-- The `buff_size` of `alloc_ctx`. -/
def buffSize : Nat :=
  incSize (if c.raw.size < c.ctx.cycleBuffer then c.ctx.cycleBuffer else c.raw.size)
    c.ctx.cacheLineSize * 2 * c.numOfQpsFactor * c.raw.flows

/-- The packets of some QPs, one behind the other. -/
def createRawEthPkts (o : ByteOrder) (s : Mem × Nat) (qps : List Nat) : Mem × Nat :=
  qps.foldl (fun s i => c.raw.createRawEthPkt o (c.myDestInfo i) (c.remDestInfo i) c.ctx.cycleBuffer
    c.ctx.cacheLineSize c.numOfQpsFactor (c.ctx.buf i) s) s

/-- An address and an `int`. -/
def offsetAddr (addr : Nat) (offset : Int) : Nat := longToUns 64 (addr + offset)

def initFlow : FlowSend where
  sge k := c.params.sgeAddr c.ctx (k / c.params.listLength) (k % c.params.listLength)
  scnt _ := 0
  flowsBurstIter := 0
  sendFlowsIndex := 0
  addressOffset := 0
  posted _ := []

/-- What `run_iter_bw` does behind a post when there is more than one flow. -/
def switchFlow (s : FlowSend) : FlowSend :=
  if c.params.flows ≠ DEF_FLOWS then
    if ((s.flowsBurstIter + 1 : Nat) : Int) = c.params.flowsBurst then
      let index := if ((s.sendFlowsIndex + 1 : Nat) : Int) = c.params.flows then 0
        else s.sendFlowsIndex + 1
      let offset := longToInt (index * c.flowBuffSize : Nat)
      { s with
        flowsBurstIter := 0
        sendFlowsIndex := index
        addressOffset := offset
        sge := Function.update s.sge 0 (offsetAddr (c.initFlow.sge 0) offset) }
    else { s with flowsBurstIter := s.flowsBurstIter + 1 }
  else s

/-- A post of the requests of QP `i`. -/
def postFlow (s : FlowSend) (i : Nat) : FlowSend :=
  let t := c.switchFlow s
  { t with
    sge := if c.params.postList = 1 ∧ c.ctx.size ≤ c.ctx.cycleBuffer / 2 then
        Function.update t.sge i (increaseAddr (t.sge i) c.ctx.size (s.scnt i)
          (offsetAddr (c.ctx.buf i) t.addressOffset) c.ctx.cacheLineSize c.ctx.cycleBuffer)
      else t.sge
    scnt := Function.update s.scnt i (s.scnt i + c.params.listLength)
    posted := Function.update s.posted i (s.posted i ++ (List.range c.params.listLength).map fun j =>
      (s.sendFlowsIndex, s.sge (i * c.params.listLength + j))) }

def postFlows (order : List Nat) : FlowSend := order.foldl c.postFlow c.initFlow

/-- A request from `addr` sends a packet of flow `f` that was built for QP `i`, out of the region of
that flow. -/
structure SendsFlow (o : ByteOrder) (mem : Mem) (i f addr : Nat) : Prop where
  built : ∃ off, addr = c.ctx.buf i + off ∧
    (off, f) ∈ c.raw.packetPlaces c.ctx.cycleBuffer c.ctx.cacheLineSize c.numOfQpsFactor
  inside : c.ctx.buf i + c.flowBuffSize * f ≤ addr ∧
    addr + c.raw.frameSize ≤ c.ctx.buf i + c.flowBuffSize * (f + 1)
  headers : ∃ pcp, ∀ k < c.raw.frameSize, k < c.raw.linkSize + c.raw.ipSize + c.raw.l4Size →
    mem (addr + k) = byteAt (c.raw.headers o (c.myDestInfo i) (c.remDestInfo i) pcp f) k

/-- The QPs send packets of the flows that the burst counter stands at, and each QP sends bursts of
the flows in turn. -/
structure FlowsSent (o : ByteOrder) (s : Mem × Nat) (order : List Nat) : Prop where
  requests : ∀ i < c.params.numOfQps, ∀ e ∈ (c.postFlows order).posted i,
    c.SendsFlow o (c.createRawEthPkts o s (List.range c.params.numOfQps)).1 i e.1 e.2
  roundRobin : ∀ i k f addr, ((c.postFlows order).posted i)[k]? = some (f, addr) →
    f = k / c.params.flowsBurst.toNat % c.raw.flows

/-- An accepted test with its memory: the page holds whole cache lines, and every buffer that was
allocated has addresses of its own. -/
structure Accepted : Prop where
  loop : ∃ prog : Program, prog.rawEth = true ∧ c.params.runLoop prog = some .runIterBw
  raw : c.raw.Accepted
  tst : c.raw.tst = c.params.tst
  size : c.ctx.size = c.raw.size
  flows : c.params.flows = c.raw.flows
  flows_gt : 1 < c.raw.flows
  flowsBurst : 1 ≤ c.params.flowsBurst
  qps : 1 ≤ c.params.numOfQps
  cacheLine : 0 < c.ctx.cacheLineSize
  page : 0 < c.ctx.cycleBuffer ∧ c.ctx.cacheLineSize ∣ c.ctx.cycleBuffer
  space : ∀ i < c.params.numOfQps, i = 0 ∨ c.params.mrPerQp = true →
    c.ctx.buf i + c.buffSize ≤ 2 ^ 64
  apart : c.params.mrPerQp = true → ∀ i < c.params.numOfQps, ∀ j < c.params.numOfQps, i ≠ j →
    c.ctx.buf i + c.buffSize ≤ c.ctx.buf j ∨ c.ctx.buf j + c.buffSize ≤ c.ctx.buf i

/-- The loop goes to another QP only when all flows have had their bursts. -/
def TakeTurns (order : List Nat) : Prop :=
  ∀ l i j, l ++ [i, j] <+: order → i ≠ j → c.params.flowsBurst.toNat * c.raw.flows ∣ l.length + 1

/-- Single requests, offsets that an `int` holds, and either one QP, or QPs with buffers of their
own that take turns and whose rings end with the bursts. -/
structure FlowsFit (order : List Nat) : Prop where
  single : c.params.postList = 1
  offsets : c.raw.flows * c.flowBuffSize < 2 ^ 31
  qps : c.params.numOfQps = 1 ∨ (c.params.mrPerQp = true ∧
    c.ctx.size ≤ c.ctx.cycleBuffer / 2 ∧ c.ctx.slots ∣ c.params.flowsBurst.toNat)
  turns : c.TakeTurns order

variable {c} {s : FlowSend} {order : List Nat} {i j k f T : Nat}

theorem Accepted.flowBuffSize_eq (h : c.Accepted) : c.flowBuffSize =
    incSize (if c.raw.size < c.ctx.cycleBuffer then c.ctx.cycleBuffer else c.raw.size)
      c.ctx.cacheLineSize := by
  refine RawEthParameters.flowBuffSize_eq ?_ (by have := h.flows_gt; omega)
  have := h.qps
  unfold numOfQpsFactor
  split <;> omega

theorem Accepted.factor_pos (h : c.Accepted) : 0 < c.numOfQpsFactor := by
  have := h.qps
  unfold numOfQpsFactor
  split <;> omega

/-- The regions of the flows are the first half of a buffer at most. -/
theorem Accepted.flows_le_buffSize (h : c.Accepted) :
    2 * (c.raw.flows * c.flowBuffSize) ≤ c.buffSize := by
  rw [buffSize, ← h.flowBuffSize_eq]
  calc 2 * (c.raw.flows * c.flowBuffSize) = c.flowBuffSize * 2 * 1 * c.raw.flows := by ring
    _ ≤ _ := Nat.mul_le_mul_right _ (Nat.mul_le_mul_left _ h.factor_pos)

theorem Accepted.inc_pos (h : c.Accepted) : 0 < c.ctx.inc := by
  have hle := le_incSize (v := c.ctx.size) h.cacheLine
  have hsize : 64 ≤ c.raw.size := h.raw.size_ge
  rw [← h.size] at hsize
  unfold WqeCtx.inc
  omega

theorem Accepted.inc_le (h : c.Accepted) : c.ctx.inc ≤ c.flowBuffSize := by
  rw [h.flowBuffSize_eq, WqeCtx.inc, h.size]
  apply RawEthParameters.incSize_mono h.cacheLine
  split <;> omega

theorem Accepted.slots_pos (h : c.Accepted) (hs : c.ctx.size ≤ c.ctx.cycleBuffer / 2) :
    0 < c.ctx.slots := by
  refine Nat.div_pos ?_ h.inc_pos
  obtain ⟨hpos, hdvd⟩ := h.page
  unfold incSize
  split
  · exact RawEthParameters.roundUp_le (by omega) hdvd
  · exact Nat.le_of_dvd hpos hdvd

/-- The slots of a ring all lie in a region. -/
theorem Accepted.slots_le (h : c.Accepted) : c.ctx.slots ≤ c.flowBuffSize / c.ctx.inc := by
  refine Nat.div_le_div_right ?_
  rw [h.flowBuffSize_eq]
  refine Nat.le_trans ?_ (le_incSize h.cacheLine)
  split <;> omega

theorem Accepted.flowsBurst_toNat (h : c.Accepted) : 0 < c.params.flowsBurst.toNat ∧
    ∀ a : Nat, ((a : Nat) : Int) = c.params.flowsBurst ↔ a = c.params.flowsBurst.toNat := by
  have := h.flowsBurst
  exact ⟨by omega, fun a => by omega⟩

theorem Accepted.macFwd (h : c.Accepted) : c.params.macFwd = false := by
  obtain ⟨prog, hr, hloop⟩ := h.loop
  unfold PerftestParameters.runLoop at hloop
  by_contra hm
  rw [Bool.not_eq_false] at hm
  split at hloop
  next => split at hloop <;> cases hloop
  next =>
    split at hloop
    next => split_ifs at hloop <;> cases hloop
    next =>
      rw [if_pos ⟨hr, hm⟩] at hloop
      cases hloop
  next => cases hloop
  next => cases hloop

theorem Accepted.listedTest (h : c.Accepted) : c.raw.tst = .bw := by
  obtain ⟨prog, -, hloop⟩ := h.loop
  rw [h.tst]
  unfold PerftestParameters.runLoop at hloop
  split at hloop
  next => split at hloop <;> cases hloop
  next ht => exact ht
  next => cases hloop
  next => cases hloop

theorem Accepted.sgeAddr_zero (h : c.Accepted) : c.params.sgeAddr c.ctx i 0 = c.ctx.buf i := by
  rw [PerftestParameters.sgeAddr, h.macFwd, Bool.false_and, if_neg Bool.false_ne_true]

theorem listLength_single (hp : c.params.postList = 1) : c.params.listLength = 1 := by
  rw [PerftestParameters.listLength, hp, Int.toNat_one]

theorem Accepted.initFlow_sge (h : c.Accepted) (hp : c.params.postList = 1) :
    c.initFlow.sge i = c.ctx.buf i := by
  show c.params.sgeAddr c.ctx (i / c.params.listLength) (i % c.params.listLength) = c.ctx.buf i
  rw [listLength_single hp, Nat.div_one, Nat.mod_one, h.sgeAddr_zero]

theorem offsetAddr_of_lt {a b : Nat} (h : a + b < 2 ^ 64) : offsetAddr a (b : Nat) = a + b := by
  unfold offsetAddr longToUns
  omega

/-- The counters of the flows behind `T` posts. -/
structure FlowsAt (c : FlowSender) (s : FlowSend) (T : Nat) : Prop where
  iter : s.flowsBurstIter = T % c.params.flowsBurst.toNat
  index : s.sendFlowsIndex = T / c.params.flowsBurst.toNat % c.raw.flows
  offset : s.addressOffset = (s.sendFlowsIndex * c.flowBuffSize : Nat)

theorem FlowsAt.index_lt (ha : c.Accepted) (h : c.FlowsAt s T) : s.sendFlowsIndex < c.raw.flows := by
  rw [h.index]
  exact Nat.mod_lt _ (Nat.zero_lt_of_lt ha.flows_gt)

theorem Accepted.offset_lt (h : c.Accepted) (hf : f < c.raw.flows) (hi : i < c.params.numOfQps)
    (ho : i = 0 ∨ c.params.mrPerQp = true) :
    c.ctx.buf i + f * c.flowBuffSize < 2 ^ 64 := by
  have hspace := h.space i hi ho
  have hhalf := h.flows_le_buffSize
  have hend := block_end_le (n := c.flowBuffSize) hf
  have hle := h.inc_le
  have hpos := h.inc_pos
  omega

/-- The flow moves on at the end of its burst, and only then the address of the first QP does. -/
theorem FlowsAt.switchFlow (ha : c.Accepted) (hp : c.params.postList = 1)
    (hw : c.raw.flows * c.flowBuffSize < 2 ^ 31) (h : c.FlowsAt s T) :
    c.FlowsAt (c.switchFlow s) (T + 1) ∧ (c.switchFlow s).sge =
      if (T + 1) % c.params.flowsBurst.toNat = 0 then
        Function.update s.sge 0 (c.ctx.buf 0 + (c.switchFlow s).sendFlowsIndex * c.flowBuffSize)
      else s.sge := by
  obtain ⟨hb, hburst⟩ := ha.flowsBurst_toNat
  have hgt := ha.flows_gt
  have hflows : c.params.flows ≠ DEF_FLOWS := by
    rw [ha.flows, DEF_FLOWS]
    omega
  have hprimary : c.initFlow.sge 0 = c.ctx.buf 0 := ha.initFlow_sge hp
  have hindex : ∀ a, (if ((a + 1 : Nat) : Int) = c.params.flows then 0 else a + 1) =
      if a + 1 = c.raw.flows then 0 else a + 1 := by
    intro a
    rw [ha.flows]
    norm_cast
  unfold FlowSender.switchFlow
  rw [if_pos hflows]
  simp only [hburst, h.iter, h.index, hindex]
  rcases succ_cases (k := T) hb with ⟨hlt, hr, hq⟩ | ⟨heq, hr, hq⟩
  · rw [if_neg (by omega), if_neg (by omega)]
    refine ⟨⟨hr.symm, by rw [hq], ?_⟩, rfl⟩
    rw [h.offset, h.index]
  · rw [if_pos heq, if_pos hr]
    have hnext : (if T / c.params.flowsBurst.toNat % c.raw.flows + 1 = c.raw.flows then 0
        else T / c.params.flowsBurst.toNat % c.raw.flows + 1) =
          (T / c.params.flowsBurst.toNat + 1) % c.raw.flows := by
      rcases succ_cases (k := T / c.params.flowsBurst.toNat) (n := c.raw.flows) (by omega) with
        ⟨hl, hm, -⟩ | ⟨he, hm, -⟩
      · rw [hm, if_neg (by omega)]
      · rw [hm, if_pos he]
    have hidx := Nat.mod_lt (T / c.params.flowsBurst.toNat + 1) (show 0 < c.raw.flows by omega)
    have hend := block_end_le (n := c.flowBuffSize) hidx
    have hspace := ha.offset_lt hidx ha.qps (Or.inl rfl)
    simp only [hnext, hprimary]
    rw [longToInt_of_range (by omega) (by omega), offsetAddr_of_lt hspace]
    exact ⟨⟨hr.symm, by rw [hq], rfl⟩, rfl⟩

/-- The switch never touches the address of another request than the first. -/
theorem switchFlow_sge (hj : 0 < j) : (c.switchFlow s).sge j = s.sge j := by
  have hne : j ≠ 0 := Nat.ne_of_gt hj
  unfold switchFlow
  split
  next =>
    split
    next => exact Function.update_of_ne hne _ _
    next => rfl
  next => rfl

/-- What the posts in `order` leave behind. The first QP stands in the flow of the shared counter,
wherever its own counter is; the others stand where their own counters are. -/
structure FlowInv (c : FlowSender) (order : List Nat) (s : FlowSend) : Prop where
  flows : c.FlowsAt s order.length
  first : ∃ k, s.sge 0 = c.ctx.buf 0 + s.sendFlowsIndex * c.flowBuffSize + k * c.ctx.inc ∧
    if c.ctx.size ≤ c.ctx.cycleBuffer / 2 then k ≤ s.scnt 0 % c.ctx.slots else k = 0
  others : c.ctx.size ≤ c.ctx.cycleBuffer / 2 → c.ctx.slots ∣ c.params.flowsBurst.toNat →
    ∀ i, 0 < i → s.sge i = c.ctx.buf i +
      s.scnt i / c.params.flowsBurst.toNat % c.raw.flows * c.flowBuffSize +
      s.scnt i % c.ctx.slots * c.ctx.inc
  turn : ∀ i, if order.getLast? = some i then
      s.scnt i % (c.params.flowsBurst.toNat * c.raw.flows) =
        order.length % (c.params.flowsBurst.toNat * c.raw.flows)
    else c.params.flowsBurst.toNat * c.raw.flows ∣ s.scnt i
  length : ∀ i, (s.posted i).length = s.scnt i
  posted : ∀ i k f addr, (s.posted i)[k]? = some (f, addr) →
    f = k / c.params.flowsBurst.toNat % c.raw.flows ∧
      ∃ j < c.flowBuffSize / c.ctx.inc, addr = c.ctx.buf i + f * c.flowBuffSize + j * c.ctx.inc

theorem TakeTurns.init (h : c.TakeTurns (order ++ [i])) : c.TakeTurns order :=
  fun l i' j hl hne => h l i' j (hl.trans (List.prefix_append order [i])) hne

theorem TakeTurns.dvd (h : c.TakeTurns (order ++ [i])) (hl : order.getLast? = some j)
    (hne : j ≠ i) : c.params.flowsBurst.toNat * c.raw.flows ∣ order.length := by
  obtain ⟨l, rfl⟩ := List.getLast?_eq_some_iff.mp hl
  have hturn := h l j i (by simp) hne
  rwa [List.length_append, List.length_singleton]

theorem FlowsFit.init (h : c.FlowsFit (order ++ [i])) : c.FlowsFit order :=
  { h with turns := h.turns.init }

/-- Only QPs with a buffer of their own and a ring that ends with the bursts post besides the
first. -/
theorem FlowsFit.own (h : c.FlowsFit order) (hi : i < c.params.numOfQps) (h0 : 0 < i) :
    c.params.mrPerQp = true ∧ c.ctx.size ≤ c.ctx.cycleBuffer / 2 ∧
      c.ctx.slots ∣ c.params.flowsBurst.toNat := by
  rcases h.qps with hone | hown
  · omega
  · exact hown

/-- The shared counter stands where the QP that posts next has its own. -/
theorem FlowInv.scnt_mod (h : c.FlowInv order s) (hf : c.FlowsFit (order ++ [i])) :
    s.scnt i % (c.params.flowsBurst.toNat * c.raw.flows) =
      order.length % (c.params.flowsBurst.toNat * c.raw.flows) := by
  have hturn := h.turn i
  split at hturn
  next => exact hturn
  next hne =>
    rw [Nat.mod_eq_zero_of_dvd hturn]
    cases hl : order.getLast? with
    | none =>
      rw [List.getLast?_eq_none_iff.mp hl, List.length_nil, Nat.zero_mod]
    | some j =>
      refine (Nat.mod_eq_zero_of_dvd (hf.turns.dvd hl fun hji => hne ?_)).symm
      rw [hl, hji]

theorem slot_lt (ha : c.Accepted) {slot cnt : Nat}
    (h : if c.ctx.size ≤ c.ctx.cycleBuffer / 2 then slot ≤ cnt % c.ctx.slots else slot = 0) :
    slot < c.flowBuffSize / c.ctx.inc := by
  split at h
  next hs => exact (h.trans_lt (Nat.mod_lt _ (ha.slots_pos hs))).trans_le ha.slots_le
  next =>
    rw [h]
    exact Nat.div_pos ha.inc_le ha.inc_pos

/-- The next post of a QP starts at a packet of the current flow. -/
theorem FlowInv.place (ha : c.Accepted) (hf : c.FlowsFit (order ++ [i]))
    (hi : i < c.params.numOfQps) (h : c.FlowInv order s) :
    ∃ j < c.flowBuffSize / c.ctx.inc,
      s.sge i = c.ctx.buf i + s.sendFlowsIndex * c.flowBuffSize + j * c.ctx.inc := by
  rcases Nat.eq_zero_or_pos i with rfl | h0
  · obtain ⟨k, hk, hslot⟩ := h.first
    exact ⟨k, slot_lt ha hslot, hk⟩
  · obtain ⟨-, hs, hdvd⟩ := hf.own hi h0
    refine ⟨s.scnt i % c.ctx.slots, ?_, ?_⟩
    · exact (Nat.mod_lt _ (ha.slots_pos hs)).trans_le ha.slots_le
    · rw [h.others hs hdvd i h0, h.flows.index, (digits_of_mod_eq (h.scnt_mod hf)).2]

/-- The switch of the flow takes the first QP along. -/
theorem FlowInv.first_switch (ha : c.Accepted) (hp : c.params.postList = 1)
    (hw : c.raw.flows * c.flowBuffSize < 2 ^ 31) (h : c.FlowInv order s) :
    ∃ k, (c.switchFlow s).sge 0 = c.ctx.buf 0 +
        (c.switchFlow s).sendFlowsIndex * c.flowBuffSize + k * c.ctx.inc ∧
      if c.ctx.size ≤ c.ctx.cycleBuffer / 2 then k ≤ s.scnt 0 % c.ctx.slots else k = 0 := by
  obtain ⟨hat, hsge⟩ := h.flows.switchFlow ha hp hw
  obtain ⟨hb, -⟩ := ha.flowsBurst_toNat
  rw [hsge]
  rcases succ_cases (k := order.length) hb with ⟨hlt, hr, hq⟩ | ⟨heq, hr, hq⟩
  · obtain ⟨k, hk, hslot⟩ := h.first
    refine ⟨k, ?_, hslot⟩
    rw [if_neg (by omega), hat.index, hq, ← h.flows.index]
    exact hk
  · refine ⟨0, ?_, by split <;> omega⟩
    rw [if_pos hr, Function.update_self, Nat.zero_mul, Nat.add_zero]

theorem postFlow_scnt (hp : c.params.postList = 1) :
    (c.postFlow s i).scnt = Function.update s.scnt i (s.scnt i + 1) := by
  rw [← listLength_single hp]
  rfl

/-- The address of a QP with a ring behind its post. -/
theorem postFlow_sge (hp : c.params.postList = 1) (hs : c.ctx.size ≤ c.ctx.cycleBuffer / 2) :
    (c.postFlow s i).sge = Function.update (c.switchFlow s).sge i
      (increaseAddr ((c.switchFlow s).sge i) c.ctx.size (s.scnt i)
        (offsetAddr (c.ctx.buf i) (c.switchFlow s).addressOffset) c.ctx.cacheLineSize
        c.ctx.cycleBuffer) := if_pos ⟨hp, hs⟩

theorem postFlow_sge_of_list (hp : c.params.postList ≠ 1) :
    (c.postFlow s i).sge = (c.switchFlow s).sge := if_neg fun h => hp h.1

theorem postFlow_sge_of_gt (hs : ¬ c.ctx.size ≤ c.ctx.cycleBuffer / 2) :
    (c.postFlow s i).sge = (c.switchFlow s).sge := if_neg fun h => hs h.2

theorem FlowInv.post_first (ha : c.Accepted) (hp : c.params.postList = 1)
    (hw : c.raw.flows * c.flowBuffSize < 2 ^ 31) (h : c.FlowInv order s) :
    ∃ k, (c.postFlow s i).sge 0 = c.ctx.buf 0 +
        (c.postFlow s i).sendFlowsIndex * c.flowBuffSize + k * c.ctx.inc ∧
      if c.ctx.size ≤ c.ctx.cycleBuffer / 2 then k ≤ (c.postFlow s i).scnt 0 % c.ctx.slots
      else k = 0 := by
  obtain ⟨k, hk, hslot⟩ := h.first_switch ha hp hw
  obtain ⟨hat, -⟩ := h.flows.switchFlow ha hp hw
  have hscnt := postFlow_scnt (s := s) (i := i) hp
  show ∃ k, (c.postFlow s i).sge 0 = c.ctx.buf 0 +
    (c.switchFlow s).sendFlowsIndex * c.flowBuffSize + k * c.ctx.inc ∧ _
  rw [hscnt]
  by_cases hs : c.ctx.size ≤ c.ctx.cycleBuffer / 2
  · rw [if_pos hs] at hslot
    rw [postFlow_sge hp hs]
    simp only [if_pos hs]
    by_cases hi : 0 = i
    · subst hi
      rw [Function.update_self, Function.update_self, hat.offset,
        offsetAddr_of_lt (ha.offset_lt (hat.index_lt ha) ha.qps (Or.inl rfl)), hk, WqeCtx.inc,
        increaseAddr_slot]
      exact ⟨_, rfl, ringNext_le_mod (ha.slots_pos hs) hslot⟩
    · rw [Function.update_of_ne hi, Function.update_of_ne hi]
      exact ⟨k, hk, hslot⟩
  · rw [if_neg hs] at hslot
    rw [postFlow_sge_of_gt hs]
    simp only [if_neg hs]
    exact ⟨k, hk, hslot⟩

/-- Where rings end with the bursts a QP moves on to the next flow by the reset of its ring. -/
theorem FlowInv.post_others (ha : c.Accepted) (hf : c.FlowsFit (order ++ [i]))
    (hi : i < c.params.numOfQps) (h : c.FlowInv order s)
    (hs : c.ctx.size ≤ c.ctx.cycleBuffer / 2) (hdvd : c.ctx.slots ∣ c.params.flowsBurst.toNat)
    (hj : 0 < j) : (c.postFlow s i).sge j = c.ctx.buf j +
      (c.postFlow s i).scnt j / c.params.flowsBurst.toNat % c.raw.flows * c.flowBuffSize +
      (c.postFlow s i).scnt j % c.ctx.slots * c.ctx.inc := by
  obtain ⟨hat, -⟩ := h.flows.switchFlow ha hf.single hf.offsets
  obtain ⟨hb, -⟩ := ha.flowsBurst_toNat
  have hscnt := postFlow_scnt (s := s) (i := i) hf.single
  rw [postFlow_sge hf.single hs, hscnt]
  by_cases hji : j = i
  · subst hji
    obtain ⟨hmr, -, -⟩ := hf.own hi hj
    have hmod := Nat.ModEq.add_right 1 (h.scnt_mod hf)
    obtain ⟨-, hflow⟩ := digits_of_mod_eq hmod
    rw [Function.update_self, Function.update_self, hat.offset,
      offsetAddr_of_lt (ha.offset_lt (hat.index_lt ha) hi (Or.inr hmr)), switchFlow_sge hj,
      h.others hs hdvd j hj, hat.index, hflow]
    unfold increaseAddr
    rcases succ_cases (k := s.scnt j) (ha.slots_pos hs) with ⟨hlt, hr, -⟩ | ⟨-, hr, -⟩
    · have hslot : ¬ (s.scnt j + 1) % (c.ctx.cycleBuffer / incSize c.ctx.size c.ctx.cacheLineSize) =
          0 := by
        show ¬ (s.scnt j + 1) % c.ctx.slots = 0
        omega
      have hsame : (s.scnt j + 1) / c.params.flowsBurst.toNat =
          s.scnt j / c.params.flowsBurst.toNat := by
        rcases succ_cases (k := s.scnt j) hb with ⟨-, -, hq⟩ | ⟨-, hr', -⟩
        · exact hq
        · have hz := Nat.mod_eq_zero_of_dvd (hdvd.trans (Nat.dvd_of_mod_eq_zero hr'))
          omega
      rw [if_neg hslot, hr, ← hflow, hsame, Nat.add_assoc, WqeCtx.inc, ← Nat.succ_mul]
    · have hslot : (s.scnt j + 1) % (c.ctx.cycleBuffer / incSize c.ctx.size c.ctx.cacheLineSize) =
          0 := hr
      rw [if_pos hslot, hr, Nat.zero_mul]
      exact (Nat.add_zero _).symm
  · rw [Function.update_of_ne hji, Function.update_of_ne hji, switchFlow_sge hj]
    exact h.others hs hdvd j hj

theorem FlowInv.post (ha : c.Accepted) (hf : c.FlowsFit (order ++ [i]))
    (hi : i < c.params.numOfQps) (h : c.FlowInv order s) :
    c.FlowInv (order ++ [i]) (c.postFlow s i) := by
  have hone := listLength_single hf.single
  have hscnt := postFlow_scnt (s := s) (i := i) hf.single
  have hposted : (c.postFlow s i).posted =
      Function.update s.posted i (s.posted i ++ [(s.sendFlowsIndex, s.sge i)]) := by
    simp only [postFlow, hone, List.range_one, List.map_cons, List.map_nil, Nat.mul_one,
      Nat.add_zero]
  obtain ⟨hat, -⟩ := h.flows.switchFlow ha hf.single hf.offsets
  refine ⟨?_, h.post_first ha hf.single hf.offsets, fun hs hdvd j hj =>
    h.post_others ha hf hi hs hdvd hj, fun j => ?_, fun j => ?_, fun j k f addr hk => ?_⟩
  · rw [List.length_append, List.length_singleton]
    exact ⟨hat.iter, hat.index, hat.offset⟩
  · rw [List.getLast?_concat, List.length_append, List.length_singleton, hscnt]
    by_cases hji : i = j
    · subst hji
      rw [if_pos rfl, Function.update_self]
      exact Nat.ModEq.add_right 1 (h.scnt_mod hf)
    · rw [if_neg fun he => hji (Option.some.inj he), Function.update_of_ne (Ne.symm hji)]
      have hturn := h.turn j
      split at hturn
      next hl =>
        refine Nat.dvd_of_mod_eq_zero ?_
        rw [hturn, Nat.mod_eq_zero_of_dvd (hf.turns.dvd hl (Ne.symm hji))]
      next => exact hturn
  · rw [hposted, hscnt]
    by_cases hji : j = i
    · rw [hji, Function.update_self, Function.update_self, List.length_append, h.length,
        List.length_singleton]
    · rw [Function.update_of_ne hji, Function.update_of_ne hji]
      exact h.length j
  · rw [hposted] at hk
    by_cases hji : j = i
    · subst hji
      rw [Function.update_self] at hk
      rcases Nat.lt_or_ge k (s.posted j).length with hlt | hge
      · rw [List.getElem?_append_left hlt] at hk
        exact h.posted j k f addr hk
      · rw [List.getElem?_append_right hge] at hk
        obtain ⟨hz, he⟩ := List.getElem?_eq_some_iff.mp hk
        rw [List.length_singleton] at hz
        have hkl : k = s.scnt j := by
          rw [← h.length]
          omega
        rw [List.getElem_singleton] at he
        obtain ⟨rfl, rfl⟩ := Prod.mk.inj he
        refine ⟨?_, h.place ha hf hi⟩
        rw [hkl, h.flows.index, (digits_of_mod_eq (h.scnt_mod hf)).2]
    · rw [Function.update_of_ne hji] at hk
      exact h.posted j k f addr hk

theorem Accepted.init_inv (ha : c.Accepted) (hp : c.params.postList = 1) :
    c.FlowInv [] c.initFlow := by
  refine ⟨⟨?_, ?_, ?_⟩, ⟨0, ?_, ?_⟩, fun _ _ i _ => ?_, fun i => ?_, fun i => rfl,
    fun i k f addr hk => ?_⟩
  · exact (Nat.zero_mod _).symm
  · show 0 = 0 / _ % _
    rw [Nat.zero_div, Nat.zero_mod]
  · show 0 = ((0 * c.flowBuffSize : Nat) : Int)
    rw [Nat.zero_mul]
    rfl
  · rw [ha.initFlow_sge hp]
    simp [initFlow]
  · split
    · exact Nat.zero_le _
    · rfl
  · rw [ha.initFlow_sge hp]
    simp [initFlow]
  · exact Nat.dvd_zero _
  · cases hk

theorem postFlows_inv (ha : c.Accepted) (hq : ∀ i ∈ order, i < c.params.numOfQps)
    (hf : c.FlowsFit order) : c.FlowInv order (c.postFlows order) := by
  induction order using List.reverseRecOn with
  | nil => exact ha.init_inv hf.single
  | append_singleton order i ih =>
    rw [postFlows, List.foldl_append, List.foldl_cons, List.foldl_nil]
    exact (ih (fun j hj => hq j (List.mem_append_left _ hj)) hf.init).post ha hf
      (hq i (List.mem_append_right _ (List.mem_singleton_self i)))

end FlowSender

end Perftest
