import Perftest.CreditServer
import Perftest.Parameters
import Perftest.SendLoop
import Perftest.Lib.CMachine
import Perftest.Lib.Cyclic

namespace Perftest

open WorkQueue CMachine CreditLink

/-- The parameters of a test with `send_rcredit`: the client's, and of the server's those that
differ. -/
structure CreditConfig where
  numOfQps : Nat
  testType : TestMethod
  txDepth : Nat
  cqMod : Nat
  postList : Nat
  rxDepth : Nat
  serverTxDepth : Nat
  serverRxDepth : Nat
  recvPostList : Nat
  useSrq : Bool
deriving DecidableEq, Repr

/-- The test of two peers. -/
def creditConfig (client server : CoreParameters) : CreditConfig :=
  { numOfQps := client.numOfQps
    testType := client.testType
    txDepth := client.txDepth
    cqMod := client.cqMod
    postList := client.postList.toNat
    rxDepth := client.rxDepth
    serverTxDepth := server.txDepth
    serverRxDepth := server.rxDepth
    recvPostList := server.recvPostList.toNat
    useSrq := server.useSrq }

inductive CreditClientPc where
  | qp (index : Nat) | poll
deriving DecidableEq, Repr

structure CreditState extends SendCounters, CreditServer where
  iters : Nat
  client : CreditClientPc
  screditForQp : Nat → Nat

namespace CreditConfig

variable (c : CreditConfig)

/-- `ctx->credit_cnt`. -/
def creditCnt : Nat := c.serverRxDepth / 3

/-- `size_per_qp`. -/
def sizePerQp : Nat :=
  let size := c.serverRxDepth / c.recvPostList
  if c.useSrq then size / c.numOfQps else size

/-- The receive queue that QP `q` takes from. -/
def recvQueue (q : Nat) : Nat := if c.useSrq then 0 else q

/-- The receives that `ctx_set_recv_wqes` posts on queue `r`. -/
def ctxSetRecvWqes (r : Nat) : Nat :=
  ∑ q ∈ Finset.range c.numOfQps with c.recvQueue q = r, c.sizePerQp * c.recvPostList

def init : CreditState :=
  { CreditServer.start c.ctxSetRecvWqes with
    signaled := fun _ j => (j + 1) % c.cqMod = 0
    scnt := fun _ => 0
    ccnt := fun _ => 0
    totscnt := 0
    totccnt := 0
    dev := Device.empty
    iters := 0
    client := .qp 0
    screditForQp := fun _ => 0 }

/-- The window of the send queue. -/
def hasRoom (s : SendCounters) (q : Nat) : Bool :=
  (subU64 (s.scnt q % 2 ^ 64) (s.ccnt q % 2 ^ 64) + c.postList) % 2 ^ 64 ≤ c.txDepth

/-- `swindow`, a `uint32_t`. -/
def swindow (scnt credit : Nat) : Nat := u32 (subU64 (scnt + c.postList) (u32 credit))

/-- The credits let QP `q` post. -/
def windowOpen (s : CreditState) (q : Nat) : Bool :=
  c.swindow (s.scnt q) (s.creditBuf q) < c.rxDepth

def clearsSignal (k : Nat) : Bool := c.postList = 1 && (k % 2 ^ 64 % c.cqMod = 0 && 1 < c.cqMod)

def asksSignal (iters k : Nat) : Bool :=
  c.postList = 1 && (k % 2 ^ 64 % c.cqMod + 1 = c.cqMod ||
    (c.testType = .iterations && k % 2 ^ 64 = subU64 (iters % 2 ^ 64) 1))

def postSend (s : CreditState) (q : Nat) : CreditState :=
  let flags := if c.clearsSignal (s.scnt q) then Function.update (s.signaled q) 0 false
    else s.signaled q
  let scnt := s.scnt q + c.postList
  { s with
    signaled := Function.update s.signaled q
      (if c.asksSignal s.iters scnt then Function.update flags 0 true else flags)
    scnt := Function.update s.scnt q scnt
    totscnt := s.totscnt + c.postList
    dev := s.dev.post q ((List.range c.postList).map fun j => .data (flags j)) }

def takeSend (s : CreditState) (q : Nat) (rest : List (Nat × Unit)) : CreditState :=
  { s with
    ccnt := Function.update s.ccnt q (s.ccnt q + c.cqMod)
    totccnt := s.totccnt + c.cqMod
    iters := s.iters + c.cqMod
    dev := s.dev.pop q () rest }

/-- `run_iter_bw_infinitely` up to its next look at the counters. -/
def runClient (s : CreditState) : Option CreditState :=
  match s.client with
  | .qp q =>
    if q < c.numOfQps then
      if c.hasRoom s.toSendCounters q && c.windowOpen s q then some (c.postSend s q)
      else some { s with client := .qp (q + 1) }
    else some { s with
      client := if s.totccnt % 2 ^ 64 < s.totscnt % 2 ^ 64 then .poll else .qp 0 }
  | .poll => none

/-- With `recv_post_list` unused receives a list of them is posted. -/
def repost (s : CreditServer) (q : Nat) : CreditServer :=
  if c.recvPostList ≤ s.unusedRecvForQp q then s.postRecv q (c.recvQueue q) c.recvPostList else s

/-- `run_iter_bw_infinitely_server` on a completion of QP `q`. -/
def receive (s : CreditState) (q : Nat) (rest : List Nat) : CreditState :=
  let t := c.repost (s.takeRecv q rest) q
  if c.useSrq then { s with toCreditServer := t }
  else
    let scredit := s.screditForQp q + 1
    { s with
      toCreditServer := t.countRecv q (scredit = c.creditCnt)
      screditForQp := Function.update s.screditForQp q scredit }

/-- The server starts to count again with each credit that it posts. -/
def resetCredit (a : CreditServer.Action) (s : CreditState) : Nat → Nat :=
  match a, s.server with
  | .postCredit, .credit q => Function.update s.screditForQp q 0
  | _, _ => s.screditForQp

/-- The steps of the client and its device, the server's receives, and the steps of the credits. -/
inductive Action where
  | client | takeSend | endPoll | completeSend (q : Nat) | receive | credit (a : CreditServer.Action)
deriving DecidableEq, Repr

def act : Action → CreditState → Option CreditState
  | .client, s => c.runClient s
  | .takeSend, s =>
    match s.client, s.dev.cq with
    | .poll, (q, _) :: rest => some (c.takeSend s q rest)
    | _, _ => none
  | .endPoll, s => if s.client = .poll then some { s with client := .qp 0 } else none
  | .completeSend q, s =>
    match (s.dev.posted q)[s.dev.completed q]? with
    | some r => some { s with dev := s.dev.complete sendCqe q r }
    | none => none
  | .receive, s =>
    match s.server, s.recvCq with
    | .poll, q :: rest => some (c.receive s q rest)
    | _, _ => none
  | .credit a, s =>
    (CreditServer.act c.serverTxDepth c.recvQueue s.scnt a s.toCreditServer).map fun t =>
      { s with toCreditServer := t, screditForQp := resetCredit a s }

def Reachable : CreditState → Prop := Transition.Reachable (· = c.init) (Transition.stepOf c.act)

/-- All sent messages are received, all posted credits delivered, and no QP may post. -/
def Blocked (s : CreditState) : Prop :=
  s.recvCq = [] ∧ s.server = .poll ∧ ∀ q, q < c.numOfQps → s.arrived q = s.scnt q ∧
    s.unfetched q = 0 ∧ s.wire q = [] ∧ c.windowOpen s q = false

/-- The receives posted on a QP by the time the server has taken `r` messages. -/
def posted (r : Nat) : Nat := c.sizePerQp * c.recvPostList + r / c.recvPostList * c.recvPostList

/-- The client goes in lists up to the window, the server credits every `credit_cnt` messages. -/
def schedule : Schedule :=
  { window := c.rxDepth - 1
    sendable := (c.postList ∣ ·)
    since := (· % c.creditCnt)
    limit := c.serverTxDepth }

end CreditConfig

/-- The credit writes of QP `q` whose completions the server has not taken. -/
def CreditServer.outstandingCredits (s : CreditServer) (q : Nat) : Nat :=
  s.unfetched q + (s.wire q).length + s.sendCq.count q

/-- In every reachable state the messages on the way find receives, the window of some QP is open
or something is on its way, and the credit writes fit the send queue. -/
structure CreditFlowOk (c : CreditConfig) : Prop where
  covered : ∀ s, c.Reachable s → ∀ q, q < c.numOfQps →
    s.scnt q - s.arrived q ≤ s.rq (c.recvQueue q)
  free : ∀ s, c.Reachable s → ¬ c.Blocked s
  credits : ∀ s, c.Reachable s → ∀ q, q < c.numOfQps → s.outstandingCredits q ≤ c.serverTxDepth

/-- The window of the client against the receives and the credits of the server. -/
structure CreditConfig.WindowFits (c : CreditConfig) : Prop where
  queues : c.useSrq = false
  postList_pos : 1 ≤ c.postList
  recvPostList_pos : 1 ≤ c.recvPostList
  creditCnt_pos : 1 ≤ c.creditCnt
  opens : c.creditCnt - Nat.gcd c.creditCnt c.postList + c.postList < c.rxDepth
  fits : ∀ j, (j * c.creditCnt + (c.rxDepth - 1)) / c.postList * c.postList ≤
    c.serverRxDepth / c.recvPostList * c.recvPostList +
      j * c.creditCnt / c.recvPostList * c.recvPostList

namespace CreditConfig

variable {c : CreditConfig} {s t : CreditState}

theorem posted_mono : Monotone c.posted := fun _ _ h =>
  Nat.add_le_add_left (Nat.mul_le_mul_right _ (Nat.div_le_div_right h)) _

theorem schedule_counts (hk : 1 ≤ c.creditCnt) : c.schedule.Counts where
  zero := Nat.zero_mod _
  succ r := by
    rcases Cyclic.succ_cases (k := r) hk with ⟨-, hm, -⟩ | ⟨-, hm, -⟩
    · exact Or.inr hm
    · exact Or.inl hm
  sendable_zero := Nat.dvd_zero _

/-- The client's 32 bits tell how far it is ahead of the credits. -/
theorem swindow_eq {scnt credit : Nat} (hrx : c.rxDepth ≤ 2 ^ 31) (hpl : c.postList ≤ c.rxDepth)
    (hle : credit ≤ scnt) (hs : scnt ≤ credit + (c.rxDepth - 1)) :
    c.swindow scnt credit = scnt + c.postList - credit := by
  unfold swindow
  rw [subU64_of_le (le_trans (u32_le _) (by omega))]
  unfold u32
  omega

/-- What holds between the steps of an infinite run. -/
structure Inv (c : CreditConfig) (s : CreditState) : Prop where
  ok : CreditOk c.schedule c.numOfQps c.recvQueue c.posted s.scnt s.toCreditServer
  unused : ∀ q, s.unusedRecvForQp q = s.rcntForQp q % c.recvPostList
  scredit : ∀ q, s.screditForQp q =
    if s.server.waits q then c.creditCnt else s.rcntForQp q % c.creditCnt

namespace Inv

theorem start (hf : c.WindowFits) : c.Inv c.init where
  ok := by
    have hok := @CreditOk.start c.schedule c.numOfQps c.recvQueue c.posted
      (schedule_counts hf.creditCnt_pos)
    rwa [posted, Nat.zero_div, Nat.zero_mul, Nat.add_zero] at hok
  unused q := (Nat.zero_mod _).symm
  scredit q := (Nat.zero_mod _).symm

theorem windowOpen_iff (h : c.Inv s) (hf : c.WindowFits) (hrx : c.rxDepth ≤ 2 ^ 31) (q : Nat) :
    c.windowOpen s q = true ↔ s.scnt q + c.postList - s.creditBuf q < c.rxDepth := by
  have hle : s.creditBuf q ≤ s.scnt q := (h.ok.chans q).credit_le
  have hsent : s.scnt q ≤ s.creditBuf q + (c.rxDepth - 1) := (h.ok.chans q).credited.sent_le
  have hgcd := Nat.le_of_dvd hf.creditCnt_pos (Nat.gcd_dvd_left c.creditCnt c.postList)
  have ho := hf.opens
  simp only [windowOpen, swindow_eq hrx (by omega) hle hsent, decide_eq_true_eq]

theorem runClient (h : c.Inv s) (hf : c.WindowFits) (hrx : c.rxDepth ≤ 2 ^ 31)
    (ha : c.runClient s = some t) : c.Inv t := by
  unfold CreditConfig.runClient at ha
  split at ha
  next q hpc =>
    split at ha
    next hq =>
      split at ha
      next hw =>
        rw [Bool.and_eq_true] at hw
        have hlt := (h.windowOpen_iff hf hrx q).mp hw.2
        have hd : c.postList ∣ s.scnt q := (h.ok.chans q).sendable
        rw [← Option.some.inj ha]
        refine ⟨h.ok.send hq ?_ (hd.add dvd_rfl), h.unused, h.scredit⟩
        show s.scnt q + c.postList ≤ s.creditBuf q + (c.rxDepth - 1)
        omega
      next =>
        rw [← Option.some.inj ha]
        exact ⟨h.ok, h.unused, h.scredit⟩
    next =>
      rw [← Option.some.inj ha]
      exact ⟨h.ok, h.unused, h.scredit⟩
  next => cases ha

/-- A list of receives follows each list of messages. -/
theorem repost (h : c.Inv s) (hf : c.WindowFits) {q : Nat} {rest : List Nat} {due : Bool}
    (hpc : s.server = .poll) (hcq : s.recvCq = q :: rest)
    (hd : due = true ↔ c.schedule.since (s.rcntForQp q + 1) = 0) :
    CreditOk c.schedule c.numOfQps c.recvQueue c.posted s.scnt
        ((c.repost (s.takeRecv q rest) q).countRecv q due) ∧
      (c.repost (s.takeRecv q rest) q).unusedRecvForQp = Function.update s.unusedRecvForQp q
        ((s.rcntForQp q + 1) % c.recvPostList) := by
  have hu : (s.takeRecv q rest).unusedRecvForQp q = s.rcntForQp q % c.recvPostList + 1 := by
    rw [← h.unused q]
    exact Function.update_self _ _ _
  have hk := schedule_counts hf.creditCnt_pos
  unfold CreditConfig.repost
  rcases Cyclic.succ_cases (k := s.rcntForQp q) hf.recvPostList_pos with
    ⟨hlt, hm, hdiv⟩ | ⟨he, hm, hdiv⟩
  · rw [if_neg (by omega), hm]
    refine ⟨h.ok.receive hk (b := false) (m := 0) hpc hcq hd ?_, ?_⟩
    · rw [posted, posted, hdiv, if_neg Bool.false_ne_true, Nat.add_zero]
    · rw [← h.unused q]
      rfl
  · rw [if_pos (by omega), hm]
    refine ⟨h.ok.receive hk (b := true) hpc hcq hd ?_, ?_⟩
    · rw [posted, posted, hdiv, if_pos rfl, Nat.succ_mul, Nat.add_assoc]
    · show Function.update (s.takeRecv q rest).unusedRecvForQp q _ = _
      rw [hu, he, Nat.sub_self]
      exact Function.update_idem _ _ _

theorem repost_counts (t : CreditServer) (q : Nat) :
    (c.repost t q).rcntForQp = t.rcntForQp ∧ (c.repost t q).server = t.server := by
  unfold CreditConfig.repost
  split
  next => exact ⟨rfl, rfl⟩
  next => exact ⟨rfl, rfl⟩

theorem receive (h : c.Inv s) (hf : c.WindowFits) {q : Nat} {rest : List Nat}
    (hpc : s.server = .poll) (hcq : s.recvCq = q :: rest) : c.Inv (c.receive s q rest) := by
  have hs : ∀ p, s.screditForQp p = s.rcntForQp p % c.creditCnt := by
    intro p
    rw [h.scredit p, hpc, CreditServerPc.waits, if_neg Bool.false_ne_true]
  have hsucc := Cyclic.succ_cases (k := s.rcntForQp q) hf.creditCnt_pos
  have hdue : decide (s.screditForQp q + 1 = c.creditCnt) = true ↔
      c.schedule.since (s.rcntForQp q + 1) = 0 := by
    rw [hs, decide_eq_true_eq]
    show _ ↔ (s.rcntForQp q + 1) % c.creditCnt = 0
    omega
  obtain ⟨hok, hunused⟩ := h.repost hf hpc hcq hdue
  obtain ⟨hcounts, hserver⟩ := @repost_counts c (s.takeRecv q rest) q
  have hrcnt : ((c.repost (s.takeRecv q rest) q).countRecv q
      (s.screditForQp q + 1 = c.creditCnt)).rcntForQp =
        Function.update s.rcntForQp q (s.rcntForQp q + 1) := by
    show Function.update _ q (_ + 1) = _
    rw [hcounts]
    rfl
  rw [CreditConfig.receive, hf.queues, if_neg Bool.false_ne_true]
  refine ⟨hok, fun p => ?_, fun p => ?_⟩
  · show (c.repost (s.takeRecv q rest) q).unusedRecvForQp p = _
    rw [hunused, hrcnt]
    by_cases hp : p = q
    · subst hp
      rw [Function.update_self, Function.update_self]
    · rw [Function.update_of_ne hp, Function.update_of_ne hp]
      exact h.unused p
  · show Function.update s.screditForQp q (s.screditForQp q + 1) p = _
    rw [hrcnt]
    have hw : ((c.repost (s.takeRecv q rest) q).countRecv q
        (s.screditForQp q + 1 = c.creditCnt)).server.waits p =
          (decide (s.screditForQp q + 1 = c.creditCnt) && decide (q = p)) := by
      unfold CreditServer.countRecv
      dsimp only
      rw [hserver]
      by_cases hd : s.screditForQp q + 1 = c.creditCnt
      · simp [hd, CreditServerPc.waits]
      · simp [hd, CreditServer.takeRecv, hpc, CreditServerPc.waits]
    rw [hw]
    by_cases hp : p = q
    · subst hp
      rw [Function.update_self, Function.update_self, decide_eq_true rfl, Bool.and_true]
      split
      next hd => exact of_decide_eq_true hd
      next hd =>
        rw [decide_eq_true_eq, hs] at hd
        rw [hs]
        omega
    · have hne : ¬ q = p := fun he => hp he.symm
      rw [Function.update_of_ne hp, Function.update_of_ne hp, decide_eq_false hne, Bool.and_false,
        if_neg Bool.false_ne_true]
      exact hs p

/-- With the post of a credit the server starts to count again. -/
theorem credit (h : c.Inv s) {a : CreditServer.Action} {u : CreditServer}
    (ha : CreditServer.act c.serverTxDepth c.recvQueue s.scnt a s.toCreditServer = some u) :
    c.Inv { s with toCreditServer := u, screditForQp := resetCredit a s } := by
  obtain ⟨hrcnt, hunused, ⟨hne, hserver⟩ | ⟨rfl, q, hpc, hserver⟩⟩ := CreditServer.act_counts ha
  · refine ⟨h.ok.act ha, fun p => ?_, fun p => ?_⟩
    · show u.unusedRecvForQp p = u.rcntForQp p % _
      rw [hunused, hrcnt]
      exact h.unused p
    · have hr : resetCredit a s = s.screditForQp := by
        unfold resetCredit
        split
        next => exact absurd rfl hne
        next => rfl
      show resetCredit a s p = if u.server.waits p then _ else u.rcntForQp p % _
      rw [hr, hserver, hrcnt]
      exact h.scredit p
  · refine ⟨h.ok.act ha, fun p => ?_, fun p => ?_⟩
    · show u.unusedRecvForQp p = u.rcntForQp p % _
      rw [hunused, hrcnt]
      exact h.unused p
    · have hr : resetCredit .postCredit s = Function.update s.screditForQp q 0 := by
        simp only [resetCredit, hpc]
      show resetCredit .postCredit s p = if u.server.waits p then _ else u.rcntForQp p % _
      rw [hr, hserver, hrcnt, CreditServerPc.waits, if_neg Bool.false_ne_true]
      have hp := h.scredit p
      rw [hpc, CreditServerPc.waits] at hp
      by_cases he : p = q
      · subst he
        have hw : (s.chan p (s.scnt p)).waits = true := by
          simp [CreditServer.chan, CreditServerPc.waits, hpc]
        have hz : s.rcntForQp p % c.creditCnt = 0 := (h.ok.chans p).due hw
        rw [Function.update_self, hz]
      · have hne : ¬ q = p := fun hq => he hq.symm
        rw [Function.update_of_ne he, hp, decide_eq_false hne, if_neg Bool.false_ne_true]

theorem step (h : c.Inv s) (hf : c.WindowFits) (hrx : c.rxDepth ≤ 2 ^ 31) {a : Action}
    (ha : c.act a s = some t) : c.Inv t := by
  cases a with
  | client => exact h.runClient hf hrx ha
  | takeSend =>
    simp only [act] at ha
    split at ha
    next =>
      rw [← Option.some.inj ha]
      exact ⟨h.ok, h.unused, h.scredit⟩
    next => cases ha
  | endPoll =>
    obtain ⟨-, rfl⟩ := Option.ite_none_right_eq_some.mp ha |>.imp_right Option.some.inj
    exact ⟨h.ok, h.unused, h.scredit⟩
  | completeSend q =>
    simp only [act] at ha
    split at ha
    next =>
      rw [← Option.some.inj ha]
      exact ⟨h.ok, h.unused, h.scredit⟩
    next => cases ha
  | receive =>
    simp only [act] at ha
    split at ha
    next q rest hpc hcq =>
      rw [← Option.some.inj ha]
      exact h.receive hf hpc hcq
    next => cases ha
  | credit b =>
    obtain ⟨u, hu, rfl⟩ := Option.map_eq_some_iff.mp ha
    exact h.credit hu

theorem of_reachable (hf : c.WindowFits) (hrx : c.rxDepth ≤ 2 ^ 31) (hr : c.Reachable s) :
    c.Inv s :=
  hr.invariant (fun _ hs => hs ▸ start hf) fun _ _ h ⟨_, ha⟩ => h.step hf hrx ha

/-- What a credit lets the client send finds receives. -/
theorem covered (h : c.Inv s) (hf : c.WindowFits) {q : Nat} (hq : q < c.numOfQps) :
    s.scnt q - s.arrived q ≤ s.rq (c.recvQueue q) := by
  refine h.ok.covered posted_mono (fun g n hg hn hle => ?_) hq
  obtain ⟨i, rfl⟩ : c.postList ∣ n := hn
  obtain ⟨j, rfl⟩ := Nat.dvd_of_mod_eq_zero hg
  have hi : i ≤ (c.creditCnt * j + (c.rxDepth - 1)) / c.postList := by
    rw [Nat.le_div_iff_mul_le hf.postList_pos, Nat.mul_comm]
    exact hle
  have hmul := Nat.mul_le_mul_right c.postList hi
  have hfit := hf.fits j
  rw [posted, sizePerQp, hf.queues, if_neg Bool.false_ne_true, Nat.mul_comm c.postList]
  rw [Nat.mul_comm j] at hfit
  exact le_trans hmul hfit

theorem not_blocked (h : c.Inv s) (hf : c.WindowFits) (hrx : c.rxDepth ≤ 2 ^ 31)
    (hn : 1 ≤ c.numOfQps) : ¬ c.Blocked s := by
  rintro ⟨hcq, hpc, hall⟩
  obtain ⟨ha, hu, hwire, hclosed⟩ := hall 0 hn
  have hok := h.ok.chans 0
  have hsince : s.scnt 0 - s.creditBuf 0 = s.scnt 0 % c.creditCnt :=
    hok.settled hu hwire (by simp [CreditServer.chan, CreditServerPc.waits, hpc])
      (by simp [CreditServer.chan, hcq]) ha
  have hle : s.creditBuf 0 ≤ s.scnt 0 := hok.credit_le
  have hg := mod_add_gcd_le hf.creditCnt_pos (show c.postList ∣ s.scnt 0 from hok.sendable)
  have ho := hf.opens
  rw [(h.windowOpen_iff hf hrx 0).mpr (by omega)] at hclosed
  cases hclosed

end Inv

theorem creditFlowOk_of_windowFits (hn : 1 ≤ c.numOfQps) (hf : c.WindowFits)
    (hrx : c.rxDepth ≤ 2 ^ 31) : CreditFlowOk c where
  covered _ hr _ hq := (Inv.of_reachable hf hrx hr).covered hf hq
  free _ hr := (Inv.of_reachable hf hrx hr).not_blocked hf hrx hn
  credits _ hr q _ :=
    have hok := (Inv.of_reachable hf hrx hr).ok.chans q
    le_trans hok.outstanding.symm.le hok.outstanding_le

end CreditConfig

end Perftest
