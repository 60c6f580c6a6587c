import Perftest.Lib.CMachine
import Perftest.Parameters
import Perftest.SendLoop

namespace Perftest

open CMachine WorkQueue

/-- The parameters that `run_iter_fw` reads in ITERATIONS mode. -/
structure FwConfig where
  numOfQps : Nat
  iters : Nat
  postList : Nat
  recvPostList : Nat
  cqMod : Nat
  txDepth : Nat
  rxDepth : Nat

/-- Where the loop stands: at its condition, posting on a QP, at a position of the batch of received
or of sent packets, or behind its end. -/
inductive FwPc where
  | test | qp (index : Nat) | recv (i : Nat) | send (i : Nat) | done
deriving DecidableEq, Repr

/-- The state of the loop. Of the receives, `posted` counts those that wait on a QP, `received` the packets that have taken one,
and `recvCq` holds the QPs of the completions that were not polled. `wc` is what
`get_wr_id_qp_index` reads in the entries of the array of that name, nothing where it was never
written, and `credits` the send completions so far: the QP of each, and the one it was counted
for. -/
structure FwState where
  pc : FwPc
  scnt : Nat → Nat
  ccnt : Nat → Nat
  rcntForQp : Nat → Nat
  totscnt : Nat
  totccnt : Nat
  totrcnt : Nat
  rwqeSent : Nat
  signaled : Nat → Nat → Bool
  dev : Device SendReq Unit
  posted : Nat → Nat
  received : Nat → Nat
  recvCq : List Nat
  wc : Nat → Option Nat
  credits : List (Nat × Option Nat)

/-- The steps of the loop, the completion of a send and the arrival of a packet. -/
inductive FwAction where
  | test | post | leave | endFor | takeRecv | endRecv | takeSend | endSend
  | complete (q : Nat) | arrive (q : Nat)
deriving DecidableEq, Repr

namespace FwConfig

variable (c : FwConfig)

def totIters : Nat := c.iters * c.numOfQps

/-- The receives that `ctx_set_recv_wqes` posts on each QP. -/
def rposted : Nat := c.rxDepth / c.recvPostList * c.recvPostList

def start : FwState where
  pc := .test
  scnt := fun _ => 0
  ccnt := fun _ => 0
  rcntForQp := fun _ => 0
  totscnt := 0
  totccnt := 0
  totrcnt := 0
  rwqeSent := c.rxDepth
  signaled := fun _ j => (j + 1) % c.cqMod = 0
  dev := .empty
  posted := fun _ => c.rposted
  received := fun _ => 0
  recvCq := []
  wc := fun i => if i = 0 then some 0 else none
  credits := []

/-- The condition of the inner loop; the differences are those of `uint64_t`. -/
def sends (s : FwState) (q : Nat) : Bool :=
  s.scnt q < c.iters && (subU64 (s.scnt q) (s.ccnt q) + c.postList) % 2 ^ 64 ≤ c.txDepth &&
    0 < subU64 (s.rcntForQp q) (s.scnt q)

def flagsAtPost (k : Nat) (flags : Nat → Bool) : Nat → Bool :=
  if c.postList = 1 ∧ k % c.cqMod = 0 ∧ 1 < c.cqMod then Function.update flags 0 false else flags

def flagsAfterPost (k : Nat) (flags : Nat → Bool) : Nat → Bool :=
  if c.postList = 1 ∧ (k % c.cqMod = c.cqMod - 1 ∨ k = c.iters - 1) then
    Function.update flags 0 true
  else flags

def postSend (s : FwState) (q : Nat) : FwState :=
  let flags := c.flagsAtPost (s.scnt q) (s.signaled q)
  { s with
    signaled := Function.update s.signaled q
      (c.flagsAfterPost (s.scnt q + c.postList) flags)
    scnt := Function.update s.scnt q (s.scnt q + c.postList)
    totscnt := s.totscnt + c.postList
    dev := s.dev.post q ((List.range c.postList).map fun j => .data (flags j)) }

/-- The receive completion of QP `q` at position `i` of the batch. -/
def takeRecv (s : FwState) (i q : Nat) (rest : List Nat) : FwState :=
  { s with
    recvCq := rest
    wc := Function.update s.wc i (some q)
    rcntForQp := Function.update s.rcntForQp q (s.rcntForQp q + 1)
    totrcnt := s.totrcnt + 1
    pc := .recv (i + 1) }

/-- The send completion of QP `q` at position `i` of the batch is counted for the QP that the array
of the receive completions names. -/
def takeSend (s : FwState) (i q : Nat) (rest : List (Nat × Unit)) : FwState :=
  { s with
    dev := s.dev.pop q () rest
    credits := (q, s.wc i) :: s.credits
    ccnt := match s.wc i with
      | some x => Function.update s.ccnt x (s.ccnt x + c.cqMod)
      | none => s.ccnt
    totccnt := s.totccnt + c.cqMod
    pc := .send (i + 1) }

/-- The loop behind the send completions: it posts on the first QP only. -/
def repost (s : FwState) : FwState :=
  let behind := subU64 s.rwqeSent s.totccnt
  if behind < c.rxDepth then
    { s with
      rwqeSent := s.rwqeSent + (c.rxDepth - behind)
      posted := if s.rcntForQp 0 + c.rxDepth ≤ c.iters then
          Function.update s.posted 0 (s.posted 0 + (c.rxDepth - behind) * c.recvPostList)
        else s.posted }
  else s

/-- Where the loop goes on behind the receive completions. -/
def afterRecv (s : FwState) : FwPc := if s.totccnt < c.totIters then .send 0 else .test

def act : FwAction → FwState → Option FwState
  | .test, s =>
    if s.pc = .test then
      some { s with
        pc := if s.totccnt < c.totIters ∨ s.totrcnt < c.totIters then .qp 0 else .done }
    else none
  | .post, s => match s.pc with
    | .qp q => if q < c.numOfQps ∧ c.sends s q then some (c.postSend s q) else none
    | _ => none
  | .leave, s => match s.pc with
    | .qp q => if q < c.numOfQps ∧ ¬ c.sends s q then some { s with pc := .qp (q + 1) } else none
    | _ => none
  | .endFor, s => match s.pc with
    | .qp q =>
      if c.numOfQps ≤ q then
        some { s with pc := if s.totrcnt < c.totIters then .recv 0 else c.afterRecv s }
      else none
    | _ => none
  | .takeRecv, s => match s.pc, s.recvCq with
    | .recv i, q :: rest => if i < CTX_POLL_BATCH then some (takeRecv s i q rest) else none
    | _, _ => none
  | .endRecv, s => match s.pc with
    | .recv _ => some { s with pc := c.afterRecv s }
    | _ => none
  | .takeSend, s => match s.pc, s.dev.cq with
    | .send i, (q, ()) :: rest => if i < CTX_POLL_BATCH then some (c.takeSend s i q rest) else none
    | _, _ => none
  | .endSend, s => match s.pc with
    | .send _ => some { c.repost s with pc := .test }
    | _ => none
  | .complete q, s => match (s.dev.posted q)[s.dev.completed q]? with
    | some r => some { s with dev := s.dev.complete sendCqe q r }
    | none => none
  | .arrive q, s =>
    if q < c.numOfQps ∧ 0 < s.posted q then
      some { s with
        posted := Function.update s.posted q (s.posted q - 1)
        received := Function.update s.received q (s.received q + 1)
        recvCq := s.recvCq ++ [q] }
    else none

def Reachable : FwState → Prop := Transition.Reachable (· = c.start) (Transition.stepOf c.act)

/-- A list of several requests is posted when as many packets are there to forward, a send
completion stands at the position of a receive completion of its own QP, and no packet arrives
behind the last one of its QP. -/
def forwardable (a : FwAction) (s : FwState) : Bool := match a with
  | .post => match s.pc with
    | .qp q => c.postList = 1 ∨ s.scnt q + c.postList ≤ s.rcntForQp q
    | _ => true
  | .takeSend => match s.pc, s.dev.cq with
    | .send i, (q, ()) :: _ => s.wc i = some q
    | _, _ => true
  | .arrive q => s.received q < c.iters
  | _ => true

def ForwardableReachable : FwState → Prop :=
  Transition.Reachable (· = c.start) (Transition.stepOf (Transition.guarded c.forwardable c.act))

end FwConfig

/-- The accounting of the forwarding loop. -/
structure FwState.Accounted (c : FwConfig) (s : FwState) : Prop where
  forwarded : ∀ q, q < c.numOfQps → s.scnt q ≤ s.rcntForQp q
  credited : ∀ x ∈ s.credits, x.2 = some x.1
  completed : ∀ q, q < c.numOfQps → s.ccnt q ≤ s.scnt q
  supplied : ∀ q, q < c.numOfQps → s.received q < c.iters → 1 ≤ s.posted q
  ended : s.pc = .done → ∀ q, q < c.numOfQps → s.rcntForQp q = c.iters ∧ s.scnt q = c.iters

namespace FwConfig

variable {c : FwConfig}

/-- The schedule of the signals of a QP, as of a loop without an end. -/
def schedule (c : FwConfig) : SendConfig where
  testType := .duration
  iters := c.iters
  txDepth := c.cqMod
  cqMod := c.cqMod
  postList := c.postList
  numOfQps := c.numOfQps
  fillCount := false

@[simp] theorem schedule_testType (c : FwConfig) : c.schedule.testType = .duration := rfl

@[simp] theorem schedule_cqMod (c : FwConfig) : c.schedule.cqMod = c.cqMod := rfl

@[simp] theorem schedule_postList (c : FwConfig) : c.schedule.postList = c.postList := rfl

/-- The relations among the parameters under which the loop accounts for every packet: the checks of
`force_dependecies` on the post list, a number of iterations that the completions cover without
rest, and receives for all of them from the start. -/
structure Sound (c : FwConfig) : Prop where
  cqMod_pos : 0 < c.cqMod
  postList_pos : 0 < c.postList
  batch : c.postList = 1 ∨ c.cqMod ∣ c.postList
  cqMod_dvd : c.cqMod ∣ c.iters
  iters_le : c.iters ≤ c.rposted

theorem Sound.schedule (h : c.Sound) : c.schedule.Sound where
  cqMod_pos := h.cqMod_pos
  cqMod_le := le_refl _
  fillCount_eq := by simp [FwConfig.schedule, fillCountOf]
  postList_pos := h.postList_pos
  batch := by
    rcases h.batch with hb | hb
    · exact Or.inl hb
    · exact Or.inr ⟨hb, fun ht => by simp at ht⟩

theorem schedule_within (d : Nat) : c.schedule.Within d := by
  intro ht
  simp at ht

theorem flagsAtPost_eq (k : Nat) (flags : Nat → Bool) :
    c.flagsAtPost k flags = c.schedule.flagsAtPost k flags := by
  have hc : (c.postList = 1 ∧ k % c.cqMod = 0 ∧ 1 < c.cqMod) ↔
      c.schedule.clearsSignal k = true := by
    simp only [SendConfig.clearsSignal, Bool.and_eq_true, decide_eq_true_eq]
    simp
  exact if_congr hc rfl rfl

/-- The last request but one is also one behind which the signal comes by the moderation. -/
theorem Sound.mod_pred (h : c.Sound) {k : Nat} (hk : 0 < k) (he : k = c.iters - 1) :
    k % c.cqMod = c.cqMod - 1 := by
  have hs : (k + 1) % c.cqMod = 0 := by
    have : k + 1 = c.iters := by omega
    rw [this]
    exact Nat.mod_eq_zero_of_dvd h.cqMod_dvd
  rcases Cyclic.succ_cases (k := k) h.cqMod_pos with ⟨hl, hm, -⟩ | ⟨hl, hm, -⟩ <;> omega

theorem Sound.flagsAfterPost_eq (h : c.Sound) {k : Nat} (hk : 0 < k) (flags : Nat → Bool) :
    c.flagsAfterPost k flags = c.schedule.flagsAfterPost k flags := by
  have hpos := h.cqMod_pos
  have hiff : (k % c.cqMod = c.cqMod - 1 ∨ k = c.iters - 1) ↔ k % c.cqMod + 1 = c.cqMod := by
    constructor
    · intro ho
      rcases ho with ho | ho
      · omega
      · have := h.mod_pred hk ho
        omega
    · intro ho
      exact Or.inl (by omega)
  have hc : (c.postList = 1 ∧ (k % c.cqMod = c.cqMod - 1 ∨ k = c.iters - 1)) ↔
      c.schedule.asksSignal k = true := by
    simp only [SendConfig.asksSignal, Bool.and_eq_true, Bool.or_eq_true, decide_eq_true_eq]
    simp [hiff]
  exact if_congr hc rfl rfl

end FwConfig

/-- What holds between the steps of the loop. -/
structure FwInv (c : FwConfig) (s : FwState) : Prop where
  fifo : s.dev.Fifo sendCqe
  requests : ∀ q, (s.dev.posted q).filter SendReq.isData =
    (List.range (s.scnt q)).map fun k => .data (c.schedule.signaledAt k)
  flags : ∀ q, c.schedule.FlagsOk (s.scnt q) (s.signaled q)
  idle : ∀ q, c.numOfQps ≤ q → s.scnt q = 0
  forwarded : ∀ q, s.scnt q ≤ s.rcntForQp q
  polled : ∀ q, s.recvCq.count q + s.rcntForQp q = s.received q
  received : ∀ q, s.received q ≤ c.iters
  queued : ∀ q ∈ s.recvCq, q < c.numOfQps
  ccnt : ∀ q, s.ccnt q = (s.dev.polled q).length * c.cqMod
  supplied : ∀ q, c.rposted ≤ s.posted q + s.received q
  credited : ∀ x ∈ s.credits, x.2 = some x.1
  totccnt : s.totccnt = ∑ q ∈ Finset.range c.numOfQps, s.ccnt q
  totrcnt : s.totrcnt = ∑ q ∈ Finset.range c.numOfQps, s.rcntForQp q

namespace FwInv

variable {c : FwConfig} {s : FwState} {q : Nat}

theorem start (hs : c.Sound) : FwInv c c.start where
  fifo := Device.Fifo.empty
  requests _ := rfl
  flags _ := SendConfig.FlagsOk.init hs.schedule fun ht => by simp at ht
  idle _ _ := rfl
  forwarded _ := le_refl _
  polled _ := rfl
  received _ := Nat.zero_le _
  queued _ hq := absurd hq List.not_mem_nil
  ccnt _ := (Nat.zero_mul _).symm
  supplied _ := le_refl _
  credited _ hx := absurd hx List.not_mem_nil
  totccnt := by simp [FwConfig.start]
  totrcnt := by simp [FwConfig.start]

theorem setPc (h : FwInv c s) (p : FwPc) : FwInv c { s with pc := p } :=
  ⟨h.fifo, h.requests, h.flags, h.idle, h.forwarded, h.polled, h.received, h.queued, h.ccnt,
    h.supplied, h.credited, h.totccnt, h.totrcnt⟩

/-- What the loop tests on the unsigned difference is enough for one packet. -/
theorem lt_of_sends (h : FwInv c s) (hw : c.sends s q = true) : s.scnt q < s.rcntForQp q := by
  have hle := h.forwarded q
  simp only [FwConfig.sends, Bool.and_eq_true, decide_eq_true_eq] at hw
  have hd := hw.2
  rw [subU64_of_le hle] at hd
  omega

theorem post (hs : c.Sound) (h : FwInv c s) (hq : q < c.numOfQps) (hw : c.sends s q = true)
    (hl : c.postList = 1 ∨ s.scnt q + c.postList ≤ s.rcntForQp q) : FwInv c (c.postSend s q) := by
  have hk := FwConfig.schedule_within (c := c) (s.scnt q + c.postList)
  have hpos := hs.postList_pos
  have hfit : s.scnt q + c.postList ≤ s.rcntForQp q := by
    rcases hl with hl | hl
    · have := h.lt_of_sends hw
      omega
    · exact hl
  refine ⟨h.fifo.post q _, fun q' => ?_, fun q' => ?_, fun q' hq' => ?_, fun q' => ?_, h.polled,
    h.received, h.queued, h.ccnt, h.supplied, h.credited, h.totccnt, h.totrcnt⟩
  · by_cases he : q' = q
    · subst he
      have hd : ((List.range c.postList).map fun j =>
          SendReq.data (c.flagsAtPost (s.scnt q') (s.signaled q') j)).filter SendReq.isData =
          (List.range c.postList).map fun j =>
            SendReq.data (c.flagsAtPost (s.scnt q') (s.signaled q') j) := by
        refine List.filter_eq_self.mpr fun r hr => ?_
        obtain ⟨j, -, rfl⟩ := List.mem_map.mp hr
        rfl
      simp only [FwConfig.postSend, Device.post, Function.update_self, List.filter_append,
        h.requests q', hd]
      rw [List.range_add, List.map_append, List.map_map]
      congr 1
      refine List.map_congr_left fun j hj => ?_
      rw [Function.comp_apply, FwConfig.flagsAtPost_eq,
        (h.flags q').posted hs.schedule hk (List.mem_range.mp hj)]
    · simpa [FwConfig.postSend, Device.post, he] using h.requests q'
  · by_cases he : q' = q
    · subst he
      have hn := (h.flags q').next hs.schedule hk
      simpa [FwConfig.postSend, FwConfig.flagsAtPost_eq,
        hs.flagsAfterPost_eq (show 0 < s.scnt q' + c.postList by omega)] using hn
    · simpa [FwConfig.postSend, he] using h.flags q'
  · have he : q' ≠ q := by omega
    simpa [FwConfig.postSend, he] using h.idle q' hq'
  · by_cases he : q' = q
    · subst he
      simpa [FwConfig.postSend] using hfit
    · simpa [FwConfig.postSend, he] using h.forwarded q'

/-- The completions of QP `q`, polled and pending, are the signals of its completed requests. -/
theorem polled_add_pending (hs : c.Sound) (h : FwInv c s) (q : Nat) :
    (s.dev.polled q).length + (s.dev.pending q).length =
      c.schedule.signals ((s.dev.done q).countP SendReq.isData) := by
  have hsel : ∀ r : SendReq, (sendCqe r).any (fun _ => true) = true → r.isData = true := by
    intro r hr
    cases r with
    | data b => rfl
    | fetchAdd => simp [sendCqe] at hr
  have hc := h.fifo.count_labelled hsel (h.requests q)
  have hlab : (fun k => (sendCqe (.data (c.schedule.signaledAt k))).any fun _ => true) =
      c.schedule.signaledAt := by
    funext k
    cases c.schedule.signaledAt k <;> rfl
  rw [hlab, SendConfig.countP_signaledAt hs.schedule (FwConfig.schedule_within _)] at hc
  simpa [List.countP_true] using hc

theorem completed (hs : c.Sound) (h : FwInv c s) (q : Nat) : s.ccnt q ≤ s.scnt q := by
  have hc := h.polled_add_pending hs q
  have hd := (Device.done_labelled (h.requests q)).1
  have hn : (s.dev.polled q).length ≤
      c.schedule.signals ((s.dev.done q).countP SendReq.isData) := by omega
  have ha := SendConfig.accounted_le hn
  simp only [SendConfig.accounted, FwConfig.schedule_testType, reduceCtorEq, if_false,
    FwConfig.schedule_cqMod] at ha
  rw [h.ccnt q]
  exact le_trans ha hd

theorem pending_nil_of_idle (hs : c.Sound) (h : FwInv c s) (hq : c.numOfQps ≤ q) :
    s.dev.pending q = [] := by
  have hd := (Device.done_labelled (h.requests q)).1
  have hz : (s.dev.done q).countP SendReq.isData = 0 := by
    have := h.idle q hq
    omega
  have hc := h.polled_add_pending hs q
  rw [hz, SendConfig.signals_zero hs.schedule] at hc
  exact List.length_eq_zero_iff.mp (by omega)

theorem takeSend (hs : c.Sound) (h : FwInv c s) {i : Nat} {rest : List (Nat × Unit)}
    (hcq : s.dev.cq = (q, ()) :: rest) (hw : s.wc i = some q) : FwInv c (c.takeSend s i q rest) := by
  have hq : q < c.numOfQps := by
    by_contra hge
    have hp := Device.pending_cons hcq
    rw [h.pending_nil_of_idle hs (Nat.le_of_not_lt hge)] at hp
    cases hp
  refine ⟨h.fifo.pop hcq, h.requests, h.flags, h.idle, h.forwarded, h.polled, h.received, h.queued,
    fun q' => ?_, h.supplied, fun x hx => ?_, ?_, h.totrcnt⟩
  · have hc := h.ccnt q'
    by_cases he : q' = q
    · subst he
      simp [FwConfig.takeSend, hw, Device.pop, hc, Nat.add_mul]
    · simp [FwConfig.takeSend, hw, Device.pop, he, hc]
  · simp only [FwConfig.takeSend, hw] at hx
    rcases List.mem_cons.mp hx with hx | hx
    · rw [hx]
    · exact h.credited x hx
  · simp only [FwConfig.takeSend, hw, sum_update_add s.ccnt hq, h.totccnt]

theorem takeRecv (h : FwInv c s) {i : Nat} {rest : List Nat} (hcq : s.recvCq = q :: rest) :
    FwInv c (FwConfig.takeRecv s i q rest) := by
  have hq : q < c.numOfQps := h.queued q (hcq ▸ List.mem_cons_self)
  refine ⟨h.fifo, h.requests, h.flags, h.idle, fun q' => ?_, fun q' => ?_, h.received,
    fun q' hq' => ?_, h.ccnt, h.supplied, h.credited, h.totccnt, ?_⟩
  · have hf := h.forwarded q'
    by_cases he : q' = q
    · subst he
      simp only [FwConfig.takeRecv, Function.update_self]
      omega
    · simpa [FwConfig.takeRecv, he] using hf
  · have hp := h.polled q'
    rw [hcq, List.count_cons] at hp
    by_cases he : q' = q
    · subst he
      simp only [FwConfig.takeRecv, Function.update_self]
      simp only [beq_self_eq_true, if_true] at hp
      omega
    · have hne : (q == q') = false := by simpa using fun hh : q = q' => he hh.symm
      simpa [FwConfig.takeRecv, he, hne] using hp
  · exact h.queued q' (hcq ▸ List.mem_cons_of_mem _ hq')
  · simp only [FwConfig.takeRecv, sum_update_add s.rcntForQp hq, h.totrcnt]

theorem repost (h : FwInv c s) : FwInv c (c.repost s) := by
  by_cases hb : subU64 s.rwqeSent s.totccnt < c.rxDepth
  · simp only [FwConfig.repost, if_pos hb]
    refine ⟨h.fifo, h.requests, h.flags, h.idle, h.forwarded, h.polled, h.received, h.queued,
      h.ccnt, fun q => ?_, h.credited, h.totccnt, h.totrcnt⟩
    have hp := h.supplied q
    by_cases hl : s.rcntForQp 0 + c.rxDepth ≤ c.iters
    · simp only [if_pos hl]
      by_cases he : q = 0
      · subst he
        rw [Function.update_self]
        omega
      · simpa [he] using hp
    · simpa only [if_neg hl] using hp
  · simpa only [FwConfig.repost, if_neg hb] using h

theorem arrive (h : FwInv c s) (hq : q < c.numOfQps) (hp : 0 < s.posted q)
    (hr : s.received q < c.iters) :
    FwInv c { s with
      posted := Function.update s.posted q (s.posted q - 1)
      received := Function.update s.received q (s.received q + 1)
      recvCq := s.recvCq ++ [q] } := by
  refine ⟨h.fifo, h.requests, h.flags, h.idle, h.forwarded, fun q' => ?_, fun q' => ?_,
    fun q' hq' => ?_, h.ccnt, fun q' => ?_, h.credited, h.totccnt, h.totrcnt⟩
  · have hc := h.polled q'
    by_cases he : q' = q
    · subst he
      simp only [Function.update_self, List.count_append, List.count_singleton_self]
      omega
    · have hne : (q == q') = false := by simpa using fun hh : q = q' => he hh.symm
      simpa [he, List.count_append, List.count_singleton, hne] using hc
  · by_cases he : q' = q
    · subst he
      simpa using hr
    · simpa [he] using h.received q'
  · rcases List.mem_append.mp hq' with hq' | hq'
    · exact h.queued q' hq'
    · rw [List.mem_singleton.mp hq']
      exact hq
  · have hc := h.supplied q'
    by_cases he : q' = q
    · subst he
      simp only [Function.update_self]
      omega
    · simpa [he] using hc

theorem complete (h : FwInv c s) {r : SendReq}
    (hr : (s.dev.posted q)[s.dev.completed q]? = some r) :
    FwInv c { s with dev := s.dev.complete sendCqe q r } :=
  ⟨h.fifo.complete hr, h.requests, h.flags, h.idle, h.forwarded, h.polled, h.received, h.queued,
    h.ccnt, h.supplied, h.credited, h.totccnt, h.totrcnt⟩

end FwInv

/-- Behind its end the loop has counted all iterations. -/
def FwState.EndCounted (c : FwConfig) (s : FwState) : Prop :=
  s.pc = .done → c.totIters ≤ s.totccnt ∧ c.totIters ≤ s.totrcnt

theorem FwInv.step {c : FwConfig} (hs : c.Sound) {s t : FwState}
    (h : FwInv c s ∧ s.EndCounted c)
    (hst : Transition.stepOf (Transition.guarded c.forwardable c.act) s t) :
    FwInv c t ∧ t.EndCounted c := by
  obtain ⟨hi, he⟩ := h
  obtain ⟨a, ha⟩ := hst
  obtain ⟨hg, ha⟩ := Transition.guarded_eq_some.mp ha
  cases a with
  | test =>
    obtain ⟨-, rfl⟩ := Option.ite_none_right_eq_some.mp ha |>.imp_right Option.some.inj
    refine ⟨hi.setPc _, fun hd => ?_⟩
    dsimp only at hd ⊢
    split at hd
    · cases hd
    next hn => exact ⟨by omega, by omega⟩
  | post =>
    simp only [FwConfig.act] at ha
    split at ha
    next q hpc =>
      obtain ⟨⟨hq, hw⟩, ht⟩ := Option.ite_none_right_eq_some.mp ha
      rw [← Option.some.inj ht]
      simp only [FwConfig.forwardable, hpc, decide_eq_true_eq] at hg
      exact ⟨hi.post hs hq hw hg, fun hd => absurd (hpc.symm.trans hd) (by simp)⟩
    next => cases ha
  | leave =>
    simp only [FwConfig.act] at ha
    split at ha
    next q hpc =>
      obtain ⟨-, ht⟩ := Option.ite_none_right_eq_some.mp ha
      rw [← Option.some.inj ht]
      exact ⟨hi.setPc _, nofun⟩
    next => cases ha
  | endFor =>
    simp only [FwConfig.act] at ha
    split at ha
    next q hpc =>
      obtain ⟨-, ht⟩ := Option.ite_none_right_eq_some.mp ha
      rw [← Option.some.inj ht]
      refine ⟨hi.setPc _, fun hd => ?_⟩
      dsimp only [FwConfig.afterRecv] at hd
      split at hd
      · cases hd
      · split at hd <;> cases hd
    next => cases ha
  | takeRecv =>
    simp only [FwConfig.act] at ha
    split at ha
    next i q rest hpc hcq =>
      obtain ⟨-, ht⟩ := Option.ite_none_right_eq_some.mp ha
      rw [← Option.some.inj ht]
      exact ⟨hi.takeRecv hcq, nofun⟩
    next => cases ha
  | endRecv =>
    simp only [FwConfig.act] at ha
    split at ha
    next i hpc =>
      rw [← Option.some.inj ha]
      refine ⟨hi.setPc _, fun hd => ?_⟩
      dsimp only [FwConfig.afterRecv] at hd
      split at hd <;> cases hd
    next => cases ha
  | takeSend =>
    simp only [FwConfig.act] at ha
    split at ha
    next i q rest hpc hcq =>
      obtain ⟨-, ht⟩ := Option.ite_none_right_eq_some.mp ha
      rw [← Option.some.inj ht]
      simp only [FwConfig.forwardable, hpc, hcq, decide_eq_true_eq] at hg
      exact ⟨hi.takeSend hs hcq hg, nofun⟩
    next => cases ha
  | endSend =>
    simp only [FwConfig.act] at ha
    split at ha
    next i hpc =>
      rw [← Option.some.inj ha]
      exact ⟨hi.repost.setPc _, nofun⟩
    next => cases ha
  | complete q =>
    simp only [FwConfig.act] at ha
    split at ha
    next r hr =>
      rw [← Option.some.inj ha]
      exact ⟨hi.complete hr, he⟩
    next => cases ha
  | arrive q =>
    obtain ⟨⟨hq, hp⟩, ht⟩ := Option.ite_none_right_eq_some.mp ha
    rw [← Option.some.inj ht]
    simp only [FwConfig.forwardable, decide_eq_true_eq] at hg
    exact ⟨hi.arrive hq hp hg, he⟩

theorem FwInv.of_reachable {c : FwConfig} (hs : c.Sound) {s : FwState}
    (h : c.ForwardableReachable s) : FwInv c s ∧ s.EndCounted c := by
  refine h.invariant (P := fun s => FwInv c s ∧ s.EndCounted c) (fun s hs' => ?_) fun s t hp hst =>
    FwInv.step hs hp hst
  rw [hs']
  exact ⟨FwInv.start hs, nofun⟩

/-- In a run whose steps are all forwardable, the loop accounts for every packet. -/
theorem forwarding_accounted (c : FwConfig) (hs : c.Sound) (s : FwState)
    (h : c.ForwardableReachable s) : s.Accounted c := by
  obtain ⟨hi, he⟩ := FwInv.of_reachable hs h
  have hrcnt : ∀ q, s.rcntForQp q ≤ c.iters := by
    intro q
    have := hi.polled q
    have := hi.received q
    omega
  refine ⟨fun q _ => hi.forwarded q, hi.credited, fun q _ => hi.completed hs q, fun q hq hr => ?_,
    fun hd q hq => ?_⟩
  · have := hi.supplied q
    have := hs.iters_le
    omega
  · obtain ⟨hc, hr⟩ := he hd
    have hccnt : ∀ q < c.numOfQps, s.ccnt q ≤ c.iters := by
      intro q _
      exact le_trans (hi.completed hs q) (le_trans (hi.forwarded q) (hrcnt q))
    have h1 := eq_of_sum_ge (fun q _ => hrcnt q) (hi.totrcnt ▸ hr) hq
    have h2 := eq_of_sum_ge hccnt (hi.totccnt ▸ hc) hq
    have h3 := hi.completed hs q
    have h4 := hi.forwarded q
    exact ⟨h1, by omega⟩

def twoForwarders (iters : Nat) : FwConfig where
  numOfQps := 2
  iters := iters
  postList := 1
  recvPostList := 1
  cqMod := 1
  txDepth := iters
  rxDepth := iters

theorem twoForwarders_sound (iters : Nat) : (twoForwarders iters).Sound :=
  ⟨Nat.one_pos, Nat.one_pos, Or.inl rfl, Nat.one_dvd _,
    by simp [FwConfig.rposted, twoForwarders]⟩

/-- Each packet is forwarded and its completion polled before the next one is received. -/
def oneAfterTheOther : List FwAction :=
  [.arrive 1, .test, .leave, .leave, .endFor, .takeRecv, .endRecv, .endSend, .test, .leave, .post,
    .leave, .endFor, .endRecv, .complete 1, .takeSend, .endSend, .arrive 0, .test, .leave, .leave,
    .endFor, .takeRecv, .endRecv, .endSend, .test, .post, .leave, .leave, .endFor, .complete 0,
    .takeSend, .endSend, .test]

theorem twoForwarders_forwarded : ∃ s, (twoForwarders 1).ForwardableReachable s ∧ s.pc = .done ∧
    s.credits = [(0, some 0), (1, some 1)] ∧ s.Accounted (twoForwarders 1) := by
  obtain ⟨s, hs, hp⟩ := Transition.exists_of_run (· = (twoForwarders 1).start)
    (Transition.guarded (twoForwarders 1).forwardable (twoForwarders 1).act) oneAfterTheOther
    (twoForwarders 1).start
    (fun s => s.pc = .done ∧ s.credits = [(0, some 0), (1, some 1)]) rfl (by decide +kernel)
  have hp := of_decide_eq_true hp
  exact ⟨s, hs, hp.1, hp.2, forwarding_accounted _ (twoForwarders_sound 1) s hs⟩

/-- A packet of the first QP is received before the completion of the packet of the second QP is
polled, which is then counted for the first one. -/
def receivedBetween : List FwAction :=
  [.arrive 1, .test, .leave, .leave, .endFor, .takeRecv, .endRecv, .endSend, .test, .leave, .post,
    .leave, .endFor, .arrive 0, .takeRecv, .endRecv, .complete 1, .takeSend]

theorem twoForwarders_not_accounted :
    ¬ ∀ s, (twoForwarders 6).Reachable s → s.Accounted (twoForwarders 6) := by
  intro h
  obtain ⟨s, hs, hp⟩ := Transition.exists_of_run (· = (twoForwarders 6).start)
    (twoForwarders 6).act receivedBetween (twoForwarders 6).start
    (fun s => s.credits = [(1, some 0)] ∧ s.scnt 0 = 0 ∧ s.ccnt 0 = 1) rfl (by decide +kernel)
  have hp := of_decide_eq_true hp
  have hc := (h s hs).credited (1, some 0) (by rw [hp.1]; exact List.mem_cons_self)
  cases hc

end Perftest
