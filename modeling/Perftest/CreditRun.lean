import Perftest.CreditFlow

namespace Perftest

open WorkQueue CMachine CreditLink

/-- The parameters of a run of `run_iter_bw` and `run_iter_bw_server` with `send_rcredit`. -/
structure CreditRun extends CreditConfig where
  iters : Nat
  fillCount : Bool
deriving DecidableEq, Repr

/-- The test of two peers. -/
def creditRun (client server : CoreParameters) : CreditRun :=
  { creditConfig client server with
    iters := client.iters
    fillCount := client.fillCount }

structure CreditRunState extends SendState, CreditServer where
  postedPerQp : Nat → Nat

namespace CreditRun

variable (c : CreditRun)

/-- The client. -/
def loop : SendLoop :=
  runIterBw { c.toCreditConfig with iters := c.iters, fillCount := c.fillCount }

def IsInit (s : CreditRunState) : Prop :=
  c.loop.IsInit s.toSendState ∧ s.toCreditServer = CreditServer.start c.ctxSetRecvWqes ∧
    s.postedPerQp = fun _ => c.sizePerQp * c.recvPostList

/-- The credits let QP `q` post. -/
def windowOpen (s : CreditRunState) (q : Nat) : Bool :=
  c.swindow (s.scnt q) (s.creditBuf q) < c.rxDepth

/-- The client is about to post on a QP whose window is closed. -/
def lacksCredit (s : CreditRunState) : Bool :=
  match s.pc with
  | .qp q => !c.windowOpen s q
  | _ => false

/-- A list of receives is due on QP `q`, with its receives `unused`. -/
def reposts (s : CreditRunState) (q unused : Nat) : Bool :=
  (c.testType = .duration || s.postedPerQp q + c.recvPostList ≤ c.iters) &&
    c.recvPostList ≤ unused

/-- `run_iter_bw_server` on a completion of QP `q`. -/
def receive (s : CreditRunState) (q : Nat) (rest : List Nat) : CreditRunState :=
  let t := s.takeRecv q rest
  let posts := c.reposts s q (t.unusedRecvForQp q)
  let t := if posts then t.postRecv q (c.recvQueue q) c.recvPostList else t
  let creditCnt := (s.rcntForQp q + 1) % c.serverRxDepth
  { s with
    toCreditServer := t.countRecv q (creditCnt % c.creditCnt = 0)
    postedPerQp := if posts then
        Function.update s.postedPerQp q (s.postedPerQp q + c.recvPostList)
      else s.postedPerQp }

/-- The steps of the client, the server's receives, and the steps of the credits. -/
inductive Action where
  | client (a : SendLoop.Action) | receive | credit (a : CreditServer.Action)
deriving DecidableEq, Repr

/-- Without a period of the credits the server divides by zero. -/
def act : Action → CreditRunState → Option CreditRunState
  | .client a, s =>
    if a = .post ∧ c.lacksCredit s then none
    else (c.loop.act a s.toSendState).map fun t => { s with toSendState := t }
  | .receive, s =>
    match s.server, s.recvCq with
    | .poll, q :: rest => if c.creditCnt = 0 then none else some (c.receive s q rest)
    | _, _ => none
  | .credit a, s =>
    (CreditServer.act c.serverTxDepth c.recvQueue s.scnt a s.toCreditServer).map fun t =>
      { s with toCreditServer := t }

def Reachable : CreditRunState → Prop := Transition.Reachable c.IsInit (Transition.stepOf c.act)

/-- All sent messages are received, all posted credits delivered, and QP `q`, with messages left,
may not post. -/
def Blocked (s : CreditRunState) (q : Nat) : Prop :=
  s.recvCq = [] ∧ s.server = .poll ∧
    (∀ p, p < c.numOfQps → s.arrived p = s.scnt p ∧ s.unfetched p = 0 ∧ s.wire p = []) ∧
    c.loop.unfinished s.toSendCounters q = true ∧ c.windowOpen s q = false

/-- The lists of receives that follow `r` messages of a QP. -/
def repostsOf (r : Nat) : Nat :=
  if c.testType = .duration then r / c.recvPostList
  else min (r / c.recvPostList) ((c.iters - c.sizePerQp * c.recvPostList) / c.recvPostList)

/-- The receives posted on a QP by the time the server has taken `r` messages. -/
def posted (r : Nat) : Nat := c.sizePerQp * c.recvPostList + c.repostsOf r * c.recvPostList

/-- The messages since the last credit. -/
def since (r : Nat) : Nat := r % c.serverRxDepth % c.creditCnt

/-- How many messages the client sends at most with the credit `g`. -/
def reach (g : Nat) : Nat :=
  let n := (g + (c.rxDepth - 1)) / c.postList * c.postList
  if c.testType = .iterations then min n c.iters else n

end CreditRun

/-- The modulus is no zero, and in every reachable state the messages on the way find receives and
no QP waits for a credit that nobody owes. -/
structure CreditRunOk (c : CreditRun) : Prop where
  modulus : c.creditCnt ≠ 0
  covered : ∀ s, c.Reachable s → ∀ q, q < c.numOfQps →
    s.scnt q - s.arrived q ≤ s.rq (c.recvQueue q)
  free : ∀ s, c.Reachable s → ∀ q, q < c.numOfQps → ¬ c.Blocked s q

/-- The window of the client against the receives and the credits of the server. -/
structure CreditRun.WindowFits (c : CreditRun) : Prop where
  postList_pos : 1 ≤ c.postList
  recvPostList_pos : 1 ≤ c.recvPostList
  creditCnt_pos : 1 ≤ c.creditCnt
  opens : ∀ k, c.postList ∣ k → (c.testType = .iterations → k < c.iters) →
    c.since k + c.postList < c.rxDepth
  fits : ∀ g, c.since g = 0 → c.reach g ≤ c.posted g

/-- Only a post moves the count of a QP, by a list of messages. -/
theorem SendLoop.act_scnt {L : SendLoop} {a : Action} {s t : SendState} (h : L.act a s = some t) :
    t.scnt = s.scnt ∨ a = .post ∧ ∃ q, s.pc = .qp q ∧ q < L.numOfQps ∧
      L.unfinished s.toSendCounters q = true ∧
      t.scnt = Function.update s.scnt q (s.scnt q + L.postList) := by
  by_cases ha : a = .post
  · subst ha
    simp only [act] at h
    split at h
    next q hpc =>
      obtain ⟨⟨hq, hu, -⟩, rfl⟩ := Option.ite_none_right_eq_some.mp h |>.imp_right Option.some.inj
      unfold postOrBreak
      split
      next => exact Or.inl rfl
      next => exact Or.inr ⟨rfl, q, hpc, hq, hu, rfl⟩
    next => cases h
  · refine Or.inl ?_
    cases a with
    | post => exact absurd rfl ha
    | test | endPoll =>
      obtain ⟨-, rfl⟩ := Option.ite_none_right_eq_some.mp h |>.imp_right Option.some.inj
      rfl
    | leave | endFor =>
      simp only [act] at h
      split at h
      next =>
        obtain ⟨-, rfl⟩ := Option.ite_none_right_eq_some.mp h |>.imp_right Option.some.inj
        rfl
      next => cases h
    | take =>
      simp only [act] at h
      split at h
      next =>
        rw [← Option.some.inj h]
        rfl
      next => cases h
    | complete q =>
      simp only [act] at h
      split at h
      next => rw [← Option.some.inj h]
      next => cases h
    | alarm =>
      rw [← Option.some.inj h]

namespace CreditRun

/-- The client goes in lists up to the window and to `iters`. -/
def schedule (c : CreditRun) : Schedule :=
  { window := c.rxDepth - 1
    sendable := fun n => c.postList ∣ n ∧ (c.testType = .iterations → n ≤ c.iters)
    since := c.since
    limit := c.serverTxDepth }

variable {c : CreditRun} {s t : CreditRunState}

theorem repostsOf_mono : Monotone c.repostsOf := by
  intro a b h
  have hd : a / c.recvPostList ≤ b / c.recvPostList := Nat.div_le_div_right h
  unfold repostsOf
  split
  next => exact hd
  next => exact min_le_min_right _ hd

theorem posted_mono : Monotone c.posted := fun _ _ h =>
  Nat.add_le_add_left (Nat.mul_le_mul_right _ (repostsOf_mono h)) _

theorem since_succ (hk : 1 ≤ c.creditCnt) (r : Nat) :
    c.since (r + 1) = 0 ∨ c.since (r + 1) = c.since r + 1 := by
  have hd : 0 < c.serverRxDepth := by
    have : c.creditCnt = c.serverRxDepth / 3 := rfl
    omega
  unfold since
  rcases Cyclic.succ_cases (k := r) hd with ⟨-, hm, -⟩ | ⟨-, hm, -⟩
  · rw [hm]
    rcases Cyclic.succ_cases (k := r % c.serverRxDepth) hk with ⟨-, hm', -⟩ | ⟨-, hm', -⟩
    · exact Or.inr hm'
    · exact Or.inl hm'
  · rw [hm, Nat.zero_mod]
    exact Or.inl rfl

theorem schedule_counts (hk : 1 ≤ c.creditCnt) : c.schedule.Counts where
  zero := by
    show c.since 0 = 0
    rw [since, Nat.zero_mod, Nat.zero_mod]
  succ := since_succ hk
  sendable_zero := ⟨Nat.dvd_zero _, fun _ => Nat.zero_le _⟩

/-- Every `n`-th message makes a list of `n`. -/
theorem div_succ_eq {n : Nat} (hn : 1 ≤ n) (r : Nat) :
    (r + 1) / n = r / n + if n ≤ r + 1 - r / n * n then 1 else 0 := by
  have hdiv := Nat.div_add_mod r n
  rw [Nat.mul_comm] at hdiv
  rcases Cyclic.succ_cases (k := r) hn with ⟨hlt, -, hd⟩ | ⟨he, -, hd⟩
  · rw [hd, if_neg (by omega), Nat.add_zero]
  · rw [hd, if_pos (by omega)]

/-- A list follows iff the receives of one are unused and the run still needs them. -/
theorem repostsOf_succ (hr : 1 ≤ c.recvPostList) (r : Nat) :
    c.repostsOf (r + 1) = c.repostsOf r +
      if (c.testType = .duration ∨ c.posted r + c.recvPostList ≤ c.iters) ∧
        c.recvPostList ≤ r + 1 - c.repostsOf r * c.recvPostList then 1 else 0 := by
  have hsucc := div_succ_eq hr r
  by_cases ht : c.testType = .duration
  · simp only [repostsOf, ht, if_true, true_or, true_and]
    exact hsucc
  have hm : ∀ m, c.sizePerQp * c.recvPostList + m * c.recvPostList + c.recvPostList ≤ c.iters ↔
      m < (c.iters - c.sizePerQp * c.recvPostList) / c.recvPostList := by
    intro m
    rw [← Nat.succ_le_iff, Nat.le_div_iff_mul_le hr, Nat.succ_mul]
    omega
  simp only [posted, hm]
  simp only [repostsOf, ht, if_false, false_or]
  generalize (c.iters - c.sizePerQp * c.recvPostList) / c.recvPostList = n
  rcases Nat.lt_or_ge (r / c.recvPostList) n with hlt | hge
  · rw [min_eq_left hlt.le, hsucc]
    split at hsucc
    next h =>
      rw [if_pos h, if_pos ⟨hlt, h⟩, min_eq_left hlt]
    next h =>
      rw [if_neg h, if_neg fun h' => h h'.2, Nat.add_zero, min_eq_left hlt.le]
  · rw [min_eq_right hge, if_neg fun h => lt_irrefl _ h.1, Nat.add_zero]
    exact min_eq_right (le_trans hge (Nat.div_le_div_right (Nat.le_succ r)))

theorem repostsOf_le (r : Nat) : c.repostsOf r * c.recvPostList ≤ r := by
  have hle : c.repostsOf r ≤ r / c.recvPostList := by
    unfold repostsOf
    split
    next => exact le_rfl
    next => exact min_le_left _ _
  exact le_trans (Nat.mul_le_mul_right _ hle) (Nat.div_mul_le_self _ _)

/-- What `force_dependecies` makes sure of. -/
structure Sound (c : CreditRun) : Prop where
  iters_pos : c.testType = .iterations → 1 ≤ c.iters
  lists : c.testType = .iterations → c.postList ∣ c.iters
  rxDepth_le : c.rxDepth ≤ 2 ^ 31

/-- What holds between the steps of a run. -/
structure Inv (c : CreditRun) (s : CreditRunState) : Prop where
  ok : CreditOk c.schedule c.numOfQps c.recvQueue c.posted s.scnt s.toCreditServer
  postedPerQp : ∀ q, s.postedPerQp q = c.posted (s.rcntForQp q)
  unused : ∀ q, s.unusedRecvForQp q + c.repostsOf (s.rcntForQp q) * c.recvPostList = s.rcntForQp q

namespace Inv

theorem repostsOf_zero : c.repostsOf 0 = 0 := by
  unfold repostsOf
  rw [Nat.zero_div]
  split
  next => rfl
  next => exact Nat.zero_min _

theorem start (hf : c.WindowFits) (hs : c.IsInit s) : c.Inv s := by
  obtain ⟨⟨hcount, -⟩, hserver, hposted⟩ := hs
  have hscnt : s.scnt = fun _ => 0 := by rw [hcount]; rfl
  have hz : c.posted 0 = c.sizePerQp * c.recvPostList := by
    rw [posted, repostsOf_zero, Nat.zero_mul, Nat.add_zero]
  refine ⟨?_, fun q => ?_, fun q => ?_⟩
  · rw [hscnt, hserver]
    have hok := @CreditOk.start c.schedule c.numOfQps c.recvQueue c.posted
      (schedule_counts hf.creditCnt_pos)
    rwa [hz] at hok
  · rw [hposted, hserver]
    exact hz.symm
  · rw [hserver]
    show 0 + c.repostsOf 0 * _ = 0
    rw [repostsOf_zero, Nat.zero_mul]

theorem windowOpen_iff (h : c.Inv s) (hf : c.WindowFits) (hs : c.Sound) (q : Nat) :
    c.windowOpen s q = true ↔ s.scnt q + c.postList - s.creditBuf q < c.rxDepth := by
  have hle : s.creditBuf q ≤ s.scnt q := (h.ok.chans q).credit_le
  have hsent : s.scnt q ≤ s.creditBuf q + (c.rxDepth - 1) := (h.ok.chans q).credited.sent_le
  have hlt := hf.opens 0 (Nat.dvd_zero _) hs.iters_pos
  rw [windowOpen, CreditConfig.swindow_eq hs.rxDepth_le (by omega) hle hsent, decide_eq_true_eq]

/-- The client keeps within its window and its number of messages. -/
theorem client (h : c.Inv s) (hf : c.WindowFits) (hs : c.Sound) {a : SendLoop.Action}
    {u : SendState} (hn : ¬ (a = .post ∧ c.lacksCredit s = true))
    (ha : c.loop.act a s.toSendState = some u) : c.Inv { s with toSendState := u } := by
  obtain he | ⟨rfl, q, hpc, hq, hu, he⟩ := SendLoop.act_scnt ha
  · refine ⟨?_, h.postedPerQp, h.unused⟩
    dsimp only
    rw [he]
    exact h.ok
  · have hopen : c.windowOpen s q = true := by
      by_contra hc
      exact hn ⟨rfl, by simp [lacksCredit, hpc, hc]⟩
    have hlt := (h.windowOpen_iff hf hs q).mp hopen
    have hsend : c.schedule.sendable (s.scnt q) := (h.ok.chans q).sendable
    have hlist : c.schedule.sendable (s.scnt q + c.postList) := by
      refine ⟨hsend.1.add dvd_rfl, fun ht => ?_⟩
      have hlt : s.scnt q < c.iters := by
        simpa [SendLoop.unfinished, loop, runIterBw, ht] using hu
      obtain ⟨m, hm⟩ := hs.lists ht
      obtain ⟨k, hk⟩ := hsend.1
      rw [hk, hm] at hlt ⊢
      have hkm : k < m := Nat.lt_of_mul_lt_mul_left hlt
      rw [← Nat.mul_succ]
      exact Nat.mul_le_mul_left _ hkm
    refine ⟨?_, h.postedPerQp, h.unused⟩
    dsimp only
    rw [he]
    refine h.ok.send hq ?_ hlist
    show s.scnt q + c.postList ≤ s.creditBuf q + (c.rxDepth - 1)
    omega

theorem receive (h : c.Inv s) (hf : c.WindowFits) {q : Nat} {rest : List Nat}
    (hpc : s.server = .poll) (hcq : s.recvCq = q :: rest) : c.Inv (c.receive s q rest) := by
  have hu := h.unused q
  have hle := @repostsOf_le c (s.rcntForQp q)
  have hsucc := @repostsOf_succ c hf.recvPostList_pos (s.rcntForQp q)
  have htake : (s.takeRecv q rest).unusedRecvForQp q = s.unusedRecvForQp q + 1 :=
    Function.update_self _ _ _
  have hposts : c.reposts s q ((s.takeRecv q rest).unusedRecvForQp q) = true ↔
      (c.testType = .duration ∨ c.posted (s.rcntForQp q) + c.recvPostList ≤ c.iters) ∧
        c.recvPostList ≤ s.rcntForQp q + 1 - c.repostsOf (s.rcntForQp q) * c.recvPostList := by
    rw [reposts, htake, h.postedPerQp]
    simp only [Bool.and_eq_true, Bool.or_eq_true, decide_eq_true_eq]
    refine and_congr_right fun _ => ?_
    omega
  have hk := schedule_counts hf.creditCnt_pos
  have hdue : decide ((s.rcntForQp q + 1) % c.serverRxDepth % c.creditCnt = 0) = true ↔
      c.schedule.since (s.rcntForQp q + 1) = 0 := decide_eq_true_iff
  rw [CreditRun.receive]
  by_cases hb : c.reposts s q ((s.takeRecv q rest).unusedRecvForQp q) = true
  · rw [if_pos (hposts.mp hb)] at hsucc
    have hp : c.posted (s.rcntForQp q + 1) = c.posted (s.rcntForQp q) + c.recvPostList := by
      rw [posted, posted, hsucc, Nat.succ_mul, Nat.add_assoc]
    have hmul : c.repostsOf (s.rcntForQp q + 1) * c.recvPostList =
        c.repostsOf (s.rcntForQp q) * c.recvPostList + c.recvPostList := by
      rw [hsucc, Nat.succ_mul]
    have hlist := (hposts.mp hb).2
    simp only [hb, if_true]
    refine ⟨h.ok.receive hk (b := true) hpc hcq hdue hp, fun p => ?_, fun p => ?_⟩
    · show Function.update s.postedPerQp q _ p =
        c.posted (Function.update s.rcntForQp q (s.rcntForQp q + 1) p)
      by_cases he : p = q
      · subst he
        rw [Function.update_self, Function.update_self, hp, h.postedPerQp]
      · rw [Function.update_of_ne he, Function.update_of_ne he, h.postedPerQp]
    · show Function.update (s.takeRecv q rest).unusedRecvForQp q _ p +
        c.repostsOf (Function.update s.rcntForQp q (s.rcntForQp q + 1) p) * _ =
          Function.update s.rcntForQp q (s.rcntForQp q + 1) p
      by_cases he : p = q
      · subst he
        rw [Function.update_self, Function.update_self, htake, hmul]
        omega
      · rw [Function.update_of_ne he, Function.update_of_ne he]
        show Function.update s.unusedRecvForQp q _ p + _ = _
        rw [Function.update_of_ne he]
        exact h.unused p
  · rw [if_neg fun hc => hb (hposts.mpr hc)] at hsucc
    rw [Nat.add_zero (c.repostsOf _)] at hsucc
    have hp : c.posted (s.rcntForQp q + 1) = c.posted (s.rcntForQp q) := by
      rw [posted, posted, hsucc]
    simp only [hb, Bool.false_eq_true, if_false]
    refine ⟨h.ok.receive hk (b := false) (m := 0) hpc hcq hdue hp, fun p => ?_, fun p => ?_⟩
    · show s.postedPerQp p = c.posted (Function.update s.rcntForQp q (s.rcntForQp q + 1) p)
      by_cases he : p = q
      · subst he
        rw [Function.update_self, hp, h.postedPerQp]
      · rw [Function.update_of_ne he, h.postedPerQp]
    · show Function.update s.unusedRecvForQp q _ p +
        c.repostsOf (Function.update s.rcntForQp q (s.rcntForQp q + 1) p) * _ =
          Function.update s.rcntForQp q (s.rcntForQp q + 1) p
      by_cases he : p = q
      · subst he
        rw [Function.update_self, Function.update_self, hsucc]
        omega
      · rw [Function.update_of_ne he, Function.update_of_ne he]
        exact h.unused p

theorem step (h : c.Inv s) (hf : c.WindowFits) (hs : c.Sound) {a : Action}
    (ha : c.act a s = some t) : c.Inv t := by
  cases a with
  | client b =>
    simp only [act] at ha
    split at ha
    next => cases ha
    next hn =>
      obtain ⟨u, hu, rfl⟩ := Option.map_eq_some_iff.mp ha
      exact h.client hf hs hn hu
  | receive =>
    simp only [act] at ha
    split at ha
    next q rest hpc hcq =>
      split at ha
      next => cases ha
      next =>
        rw [← Option.some.inj ha]
        exact h.receive hf hpc hcq
    next => cases ha
  | credit b =>
    obtain ⟨u, hu, rfl⟩ := Option.map_eq_some_iff.mp ha
    obtain ⟨hrcnt, hunused, -⟩ := CreditServer.act_counts hu
    refine ⟨h.ok.act hu, fun q => ?_, fun q => ?_⟩
    · show s.postedPerQp q = c.posted (u.rcntForQp q)
      rw [hrcnt]
      exact h.postedPerQp q
    · show u.unusedRecvForQp q + c.repostsOf (u.rcntForQp q) * _ = u.rcntForQp q
      rw [hrcnt, hunused]
      exact h.unused q

/-- What a credit lets the client send finds receives. -/
theorem covered (h : c.Inv s) (hf : c.WindowFits) {q : Nat} (hq : q < c.numOfQps) :
    s.scnt q - s.arrived q ≤ s.rq (c.recvQueue q) := by
  refine h.ok.covered posted_mono (fun g n hg hn hle => le_trans ?_ (hf.fits g hg)) hq
  obtain ⟨⟨i, rfl⟩, hlast⟩ : c.postList ∣ n ∧ (c.testType = .iterations → n ≤ c.iters) := hn
  have hi : i ≤ (g + (c.rxDepth - 1)) / c.postList := by
    rw [Nat.le_div_iff_mul_le hf.postList_pos, Nat.mul_comm]
    exact hle
  have hmul := Nat.mul_le_mul_right c.postList hi
  rw [Nat.mul_comm i] at hmul
  unfold reach
  split
  next ht => exact le_min hmul (hlast ht)
  next => exact hmul

theorem not_blocked (h : c.Inv s) (hf : c.WindowFits) (hs : c.Sound) {q : Nat}
    (hq : q < c.numOfQps) : ¬ c.Blocked s q := by
  intro ⟨hcq, hpc, hall, hu, hclosed⟩
  obtain ⟨ha, hun, hwire⟩ := hall q hq
  have hok := h.ok.chans q
  have hsince : s.scnt q - s.creditBuf q = c.since (s.scnt q) :=
    hok.settled hun hwire (by simp [CreditServer.chan, CreditServerPc.waits, hpc])
      (by simp [CreditServer.chan, hcq]) ha
  have hle : s.creditBuf q ≤ s.scnt q := hok.credit_le
  have hlt : c.testType = .iterations → s.scnt q < c.iters := by
    intro ht
    simpa [SendLoop.unfinished, loop, runIterBw, ht] using hu
  have ho := hf.opens (s.scnt q) hok.sendable.1 hlt
  rw [(h.windowOpen_iff hf hs q).mpr (by omega)] at hclosed
  cases hclosed

end Inv

theorem creditRunOk_of_windowFits (hf : c.WindowFits) (hs : c.Sound) : CreditRunOk c := by
  have hinv : ∀ s, c.Reachable s → c.Inv s := fun s hr =>
    hr.invariant (fun _ hi => Inv.start hf hi) fun _ _ h ⟨_, ha⟩ => h.step hf hs ha
  refine ⟨Nat.one_le_iff_ne_zero.mp hf.creditCnt_pos, fun s hr q hq => ?_, fun s hr q hq => ?_⟩
  · exact (hinv s hr).covered hf hq
  · exact (hinv s hr).not_blocked hf hs hq

end CreditRun

end Perftest
