import Perftest.CreditPeers
import Perftest.Lib.Restock

namespace Perftest

open Function Checked

/-- What the receive side of a bandwidth test reads of the parameters. -/
structure RecvConfig where
  testMethod : CtxTestMethod
  iters : Nat
  rxDepth : Nat
  recvPostList : Int
  useSrq : Bool
  numOfQps : Nat
  firstQp : Nat
deriving DecidableEq

/-- The receive side as `ctx_set_recv_wqes` finds it, which leaves the first half of the QPs of a
bidirectional XRC or DC test to the sender. -/
def CoreParameters.recvConfig (c : CoreParameters) : RecvConfig where
  testMethod := c.testMethod
  iters := c.iters
  rxDepth := c.rxDepth
  recvPostList := c.recvPostList
  useSrq := c.useSrq
  numOfQps := c.mainQps
  firstQp := if (c.useXrc ∨ c.connectionType = .dc) ∧ (c.duplex ∨ c.tst = .lat) then c.mainQps / 2
    else 0

/-- The receives on the queues by the QP whose index they carry, the counts of the run loop, and
the messages that each QP received. -/
structure RecvState where
  wqes : Nat → Nat
  unusedRecvForQp : Nat → Nat
  postedPerQp : Nat → Nat
  received : Nat → Nat

/-- The completion of a message for QP `qp` that used a receive with the index of QP `label`, and
the start of the next message size. -/
inductive RecvAct where
  | completion (qp label : Nat)
  | nextSize

namespace RecvConfig

variable (c : RecvConfig)

def receivers : Finset Nat := Finset.Ico c.firstQp c.numOfQps

/-- The queue that QP `q` receives from. -/
def recvQueue (q : Nat) : Nat := if c.useSrq then 0 else q

def sizePerQp : Int :=
  let sizePerQp := (c.rxDepth : Int).tdiv c.recvPostList
  if c.useSrq then sizePerQp.tdiv c.numOfQps else sizePerQp

def rposted : Nat := (c.sizePerQp * c.recvPostList).toNat

/-- `size_per_qp` times a chain of `recv_post_list` receives is posted for each receiving QP, and
the run loop starts. -/
def ctxSetRecvWqes (wqes : Nat → Nat) : RecvState where
  wqes q := if q ∈ c.receivers then wqes q + c.sizePerQp.toNat * c.recvPostList.toNat else wqes q
  unusedRecvForQp _ := 0
  postedPerQp _ := c.rposted
  received _ := 0

/-- How `run_iter_bw_server` and `run_iter_bi` handle a receive completion. -/
def handleCompletion (qp label : Nat) (s : RecvState) : RecvState :=
  let t := { s with
    wqes := update s.wqes label (s.wqes label - 1)
    received := update s.received qp (s.received qp + 1)
    unusedRecvForQp := update s.unusedRecvForQp label (s.unusedRecvForQp label + 1) }
  if t.postedPerQp label + c.recvPostList.toNat ≤ c.iters &&
      c.recvPostList.toNat ≤ t.unusedRecvForQp label then
    { t with
      wqes := update t.wqes label (t.wqes label + c.recvPostList.toNat)
      unusedRecvForQp := update t.unusedRecvForQp label
        (t.unusedRecvForQp label - c.recvPostList.toNat)
      postedPerQp := update t.postedPerQp label (t.postedPerQp label + c.recvPostList.toNat) }
  else t

/-- All messages of the size have come. -/
def Ended (s : RecvState) : Prop := ∀ p ∈ c.receivers, s.received p = c.iters

instance (s : RecvState) : Decidable (c.Ended s) := inferInstanceAs (Decidable (∀ p ∈ _, _))

/-- A QP gets `iters` messages of each size; a message takes any receive of its queue, and finds
none on an empty one. -/
def act : RecvAct → RecvState → Option RecvState
  | .completion qp label, s =>
    if qp ∈ c.receivers ∧ label ∈ c.receivers ∧ c.recvQueue qp = c.recvQueue label ∧
        0 < s.wqes label ∧ s.received qp < c.iters then
      some (c.handleCompletion qp label s)
    else none
  | .nextSize, s =>
    if c.testMethod = .runAll ∧ c.Ended s then some (c.ctxSetRecvWqes s.wqes) else none

def Reachable : RecvState → Prop :=
  Transition.Reachable (· = c.ctxSetRecvWqes fun _ => 0) (Transition.stepOf c.act)

/-- The receives outstanding on a queue. -/
def outstanding (s : RecvState) (queue : Nat) : Nat :=
  ∑ q ∈ c.receivers with c.recvQueue q = queue, s.wqes q

/-- Every run keeps the receive queues supplied. -/
structure ReceivesSupplied : Prop where
  quotient : c.recvPostList ≠ 0
  bounded : ∀ s, c.Reachable s → ∀ queue, c.outstanding s queue ≤ c.rxDepth
  available : ∀ s, c.Reachable s → ∀ p ∈ c.receivers, s.received p < c.iters →
    0 < c.outstanding s (c.recvQueue p)
  drained : c.testMethod = .runAll → ∀ s, c.Reachable s → c.Ended s →
    ∀ queue, c.outstanding s queue = 0

/-- The QPs that share the depth of a queue. -/
def sharers : Nat := if c.useSrq then c.numOfQps else 1

/-- The depth holds a list for each QP, and in a run over all sizes no list more than the messages
of one size use up. -/
structure SupplyFits : Prop where
  recvPostList_pos : 1 ≤ c.recvPostList
  lists_le : c.recvPostList * c.sharers ≤ c.rxDepth
  sizes : c.testMethod = .runAll → c.rxDepth < (c.iters + c.recvPostList) * c.sharers

/-- What the parser sees to. -/
structure Sound : Prop where
  firstQp_lt : c.firstQp < c.numOfQps
  iters_pos : 0 < c.iters
  list_dvd : 1 ≤ c.recvPostList → c.recvPostList.toNat ∣ c.iters

/-- The plan that the receive side follows. -/
def plan : Restock.Plan Nat Nat where
  members := c.receivers
  shelf := c.recvQueue
  lot := c.recvPostList.toNat
  supply := c.rposted
  quota := c.iters

end RecvConfig

def RecvState.stock (s : RecvState) : Restock.Stock Nat where
  out := s.wqes
  unused := s.unusedRecvForQp
  placed := s.postedPerQp
  got := s.received

namespace RecvConfig

variable {c : RecvConfig} {s t : RecvState}

theorem sharers_pos (h : c.Sound) : 0 < c.sharers := by
  have hn := h.firstQp_lt
  unfold sharers
  split <;> omega

theorem sizePerQp_eq {n : Nat} (hn : c.recvPostList = n) :
    c.sizePerQp = (c.rxDepth / (n * c.sharers) : Nat) := by
  unfold sizePerQp sharers
  dsimp only
  rw [hn, ← Int.ofNat_tdiv]
  split
  · rw [← Int.ofNat_tdiv, Nat.div_div_eq_div_mul]
  · rw [Nat.mul_one]

theorem rposted_eq {n : Nat} (hn : c.recvPostList = n) :
    c.rposted = c.rxDepth / (n * c.sharers) * n := by
  unfold rposted
  rw [sizePerQp_eq hn, hn, ← Int.natCast_mul, Int.toNat_natCast]

/-- What is posted for a QP is what the loop counts as posted. -/
theorem supplied_eq (h : 1 ≤ c.recvPostList) :
    c.sizePerQp.toNat * c.recvPostList.toNat = c.rposted := by
  obtain ⟨n, hn⟩ := Int.eq_ofNat_of_zero_le (le_trans zero_le_one h)
  rw [rposted_eq hn, sizePerQp_eq hn, hn, Int.toNat_natCast, Int.toNat_natCast]

theorem rposted_mul_le {n : Nat} (hn : c.recvPostList = n) : c.sharers * c.rposted ≤ c.rxDepth := by
  rw [rposted_eq hn, mul_comm, mul_assoc]
  exact Nat.div_mul_le_self ..

theorem rposted_pos_iff {n : Nat} (hs : c.Sound) (hn : c.recvPostList = n) (hp : 1 ≤ n) :
    0 < c.rposted ↔ c.recvPostList * c.sharers ≤ c.rxDepth := by
  have hd : 0 < n * c.sharers := Nat.mul_pos hp (sharers_pos hs)
  rw [rposted_eq hn, Nat.mul_pos_iff_of_pos_right hp, Nat.div_pos_iff, hn]
  norm_cast
  exact and_iff_right hd

theorem rposted_le_iters_iff {n : Nat} (hs : c.Sound) (hn : c.recvPostList = n) (hp : 1 ≤ n) :
    c.rposted ≤ c.iters ↔ c.rxDepth < (c.iters + c.recvPostList) * c.sharers := by
  have hd : 0 < n * c.sharers := Nat.mul_pos hp (sharers_pos hs)
  obtain ⟨m, hm⟩ : n ∣ c.iters := by
    have := hs.list_dvd (by omega)
    rwa [hn, Int.toNat_natCast] at this
  have hmul : (c.iters + n) * c.sharers = (m + 1) * (n * c.sharers) := by
    rw [hm, mul_comm n m, ← Nat.succ_mul, mul_assoc]
  rw [rposted_eq hn, hm, mul_comm n m, Nat.mul_le_mul_right_iff hp, ← Nat.lt_succ_iff,
    Nat.div_lt_iff_lt_mul hd, hn, ← mul_comm n m, ← hm, Nat.succ_eq_add_one, ← hmul]
  norm_cast

theorem plan_sound {n : Nat} (hs : c.Sound) (hn : c.recvPostList = n) (hp : 1 ≤ n)
    (h : 0 < c.rposted) : c.plan.Sound where
  lot_pos := by
    simp only [plan, hn, Int.toNat_natCast]
    exact hp
  supply_pos := h
  supply_dvd := by
    simp only [plan, rposted_eq hn, hn, Int.toNat_natCast]
    exact dvd_mul_left ..
  quota_dvd := hs.list_dvd (by omega)

theorem ctxSetRecvWqes_stock (h : 1 ≤ c.recvPostList) (wqes : Nat → Nat) :
    (c.ctxSetRecvWqes wqes).stock = c.plan.fill wqes := by
  simp only [RecvState.stock, ctxSetRecvWqes, supplied_eq h]
  rfl

theorem handleCompletion_stock (qp label : Nat) (s : RecvState) :
    (c.handleCompletion qp label s).stock = c.plan.serve qp label s.stock :=
  apply_ite RecvState.stock _ _ _

/-- A completion serves a member of the plan. -/
theorem act_completion_iff {qp label : Nat} : c.act (.completion qp label) s = some t ↔
    c.plan.act (qp, label) s.stock = some t.stock := by
  have hinj : ∀ u v : RecvState, u.stock = v.stock ↔ u = v := by
    intro u v
    constructor
    · intro h
      cases u
      cases v
      cases h
      rfl
    · exact congrArg _
  simp only [act, Restock.Plan.act, Option.ite_none_right_eq_some, Option.some_inj,
    ← handleCompletion_stock, hinj]
  rfl

theorem outstanding_eq (s : RecvState) (queue : Nat) :
    c.outstanding s queue = c.plan.onShelf s.stock queue := rfl

theorem wqes_eq_zero (h : ∀ queue, c.outstanding s queue = 0) :
    ∀ q ∈ c.receivers, s.wqes q = 0 := by
  intro q hq
  exact Finset.sum_eq_zero_iff.mp (h (c.recvQueue q)) q (Finset.mem_filter.mpr ⟨hq, rfl⟩)

theorem inv_of_reachable (hP : c.plan.Sound) (hr : 1 ≤ c.recvPostList)
    (hle : c.testMethod = .runAll → c.rposted ≤ c.iters) (h : c.Reachable s) :
    c.plan.Inv s.stock := by
  refine Transition.Reachable.invariant (P := fun s => c.plan.Inv s.stock) ?_ ?_ h
  · rintro _ rfl
    rw [ctxSetRecvWqes_stock hr]
    exact Restock.Plan.inv_fill hP fun _ _ => rfl
  · rintro s t hi ⟨a, ha⟩
    cases a with
    | completion qp label => exact Restock.Plan.inv_act hi (act_completion_iff.mp ha)
    | nextSize =>
      obtain ⟨⟨hall, hend⟩, he⟩ := Option.ite_none_right_eq_some.mp ha
      obtain rfl := Option.some.inj he
      rw [ctxSetRecvWqes_stock hr]
      exact Restock.Plan.inv_fill hP
        (wqes_eq_zero (Restock.Plan.onShelf_eq_zero hi hend (hle hall)))

theorem card_receivers_le (queue : Nat) :
    (c.receivers.filter (c.recvQueue · = queue)).card ≤ c.sharers := by
  unfold sharers recvQueue
  split
  · refine (Finset.card_filter_le _ _).trans ?_
    rw [receivers, Nat.card_Ico]
    exact Nat.sub_le _ _
  · rw [Finset.filter_eq']
    split
    · exact (Finset.card_singleton _).le
    · exact (Finset.card_empty).trans_le zero_le_one

theorem receivesSupplied_of_fits (hs : c.Sound) (h : c.SupplyFits) : c.ReceivesSupplied := by
  have hr := h.recvPostList_pos
  obtain ⟨n, hn⟩ := Int.eq_ofNat_of_zero_le (le_trans zero_le_one hr)
  have hp : 1 ≤ n := by omega
  have hP := plan_sound hs hn hp ((rposted_pos_iff hs hn hp).mpr h.lists_le)
  have hle : c.testMethod = .runAll → c.rposted ≤ c.iters := fun hall =>
    (rposted_le_iters_iff hs hn hp).mpr (h.sizes hall)
  refine ⟨by omega, fun s hreach queue => ?_, fun s hreach p hp hlt => ?_,
    fun hall s hreach hend queue => ?_⟩
  · calc c.outstanding s queue
        ≤ (c.receivers.filter (c.recvQueue · = queue)).card * c.rposted :=
          Restock.Plan.onShelf_le (inv_of_reachable hP hr hle hreach) queue
      _ ≤ c.sharers * c.rposted := Nat.mul_le_mul_right _ (card_receivers_le queue)
      _ ≤ c.rxDepth := rposted_mul_le hn
  · exact Restock.Plan.onShelf_pos hP (inv_of_reachable hP hr hle hreach) hp hlt
  · exact Restock.Plan.onShelf_eq_zero (inv_of_reachable hP hr hle hreach) hend (hle hall) queue

/-- What the plan can do the receive side can do. -/
theorem exists_reachable_stock {u v : Restock.Stock Nat} (hs : c.Reachable s) (hu : s.stock = u)
    (h : Relation.ReflTransGen (Transition.stepOf c.plan.act) u v) :
    ∃ t, c.Reachable t ∧ t.stock = v := by
  induction h with
  | refl => exact ⟨s, hs, hu⟩
  | @tail _ v _ hstep ih =>
    obtain ⟨t, ht, rfl⟩ := ih
    obtain ⟨⟨qp, label⟩, ha⟩ := hstep
    exact ⟨⟨v.out, v.unused, v.placed, v.got⟩,
      ht.tail ⟨.completion qp label, act_completion_iff.mpr ha⟩, rfl⟩

theorem exists_ended (hP : c.plan.Sound) (hr : 1 ≤ c.recvPostList) :
    ∃ s, c.Reachable s ∧ c.Ended s ∧ c.plan.Inv s.stock := by
  have hi : c.plan.Inv (c.ctxSetRecvWqes fun _ => 0).stock := by
    rw [ctxSetRecvWqes_stock hr]
    exact Restock.Plan.inv_fill hP fun _ _ => rfl
  obtain ⟨t, hrun, ht, hend⟩ := Restock.Plan.exists_served hP hi
  obtain ⟨s, hs, rfl⟩ := exists_reachable_stock (.of_init rfl) rfl hrun
  exact ⟨s, hs, hend, ht⟩

/-- A supplied queue has a receive at the start. -/
theorem rposted_pos_of_available (hs : c.Sound) (h : c.ReceivesSupplied) :
    1 ≤ c.recvPostList ∧ 0 < c.rposted := by
  have hfirst : c.firstQp ∈ c.receivers := Finset.mem_Ico.mpr ⟨le_refl _, hs.firstQp_lt⟩
  have hav := h.available _ (.of_init rfl) c.firstQp hfirst hs.iters_pos
  obtain ⟨q, hq, hne⟩ := Finset.exists_ne_zero_of_sum_ne_zero hav.ne'
  have hm := (Finset.mem_filter.mp hq).1
  simp only [ctxSetRecvWqes, if_pos hm, Nat.zero_add] at hne
  have hr : 1 ≤ c.recvPostList := by
    have := right_ne_zero_of_mul hne
    omega
  rw [supplied_eq hr] at hne
  exact ⟨hr, Nat.pos_of_ne_zero hne⟩

theorem fits_of_receivesSupplied (hs : c.Sound) (h : c.ReceivesSupplied) : c.SupplyFits := by
  obtain ⟨hr, hpos⟩ := rposted_pos_of_available hs h
  obtain ⟨n, hn⟩ := Int.eq_ofNat_of_zero_le (le_trans zero_le_one hr)
  have hp : 1 ≤ n := by omega
  refine ⟨hr, (rposted_pos_iff hs hn hp).mp hpos, fun hall => ?_⟩
  rw [← rposted_le_iters_iff hs hn hp]
  by_contra hlt
  obtain ⟨s, hreach, hend, hi⟩ := exists_ended (plan_sound hs hn hp hpos) hr
  have hleft := Restock.Plan.onShelf_pos_of_served hi hend (Nat.lt_of_not_le hlt)
    (Finset.mem_Ico.mpr ⟨le_refl c.firstQp, hs.firstQp_lt⟩)
  exact hleft.ne' (h.drained hall s hreach hend _)

/-- The receive queues stay supplied just in case the depth fits. -/
theorem receivesSupplied_iff (hs : c.Sound) : c.ReceivesSupplied ↔ c.SupplyFits :=
  ⟨fits_of_receivesSupplied hs, receivesSupplied_of_fits hs⟩

end RecvConfig

theorem parser_recvConfig_sound {b : Build} {prog : Program} {other : OtherParameters}
    {servername : Bool} {args : List Opt} {d : PerftestParameters}
    (h : parser b prog other servername args = .ok d) (ht : d.testType = .iterations) :
    d.recvConfig.Sound := by
  obtain ⟨c, hc, hcore⟩ := parser_inRange h
  have hq : 1 ≤ d.numOfQps := by
    rw [hcore]
    exact (CoreParameters.coreDependecies_depthsPos hc).qps_pos
  refine ⟨?_, ?_, parser_recvPostList_dvd h ht⟩
  · have hm := CoreParameters.numOfQps_le_mainQps d.toCoreParameters
    unfold CoreParameters.recvConfig
    dsimp only
    split <;> omega
  · exact lt_of_lt_of_le (by decide) (parser_lists h ht).1

/-- In a bandwidth test with a number of messages the receive queues stay supplied just in case
the depth fits. -/
theorem ctxSetRecvWqes_receivesSupplied_iff {b : Build} {prog : Program} {other : OtherParameters}
    {servername : Bool} {args : List Opt} {d : PerftestParameters}
    (h : parser b prog other servername args = .ok d) (ht : d.testType = .iterations) :
    d.recvConfig.ReceivesSupplied ↔ d.recvConfig.SupplyFits :=
  RecvConfig.receivesSupplied_iff (parser_recvConfig_sound h ht)

/-- Two QPs of a shared queue that get their receives in lists of eight. -/
def twoSharers : RecvConfig where
  testMethod := .runRegular
  iters := 1000
  rxDepth := 512
  recvPostList := 8
  useSrq := true
  numOfQps := 2
  firstQp := 0

/-- `ib_send_bw --use-srq -q 2 --recv_post_list=8`. -/
theorem sharedLists_supplied : ∃ d, sendBwParser false [.useSrq, .qp 2, .recvPostList 8] = .ok d ∧
    d.recvConfig.ReceivesSupplied := by
  obtain ⟨d, hd, hp⟩ := exists_of_toOption_any
    (x := sendBwParser false [.useSrq, .qp 2, .recvPostList 8])
    (p := fun d => decide (d.testType = .iterations) && decide (d.recvConfig = twoSharers))
    (by decide +kernel)
  rw [Bool.and_eq_true, decide_eq_true_eq, decide_eq_true_eq] at hp
  refine ⟨d, hd, (ctxSetRecvWqes_receivesSupplied_iff hd hp.1).mpr ?_⟩
  rw [hp.2]
  exact ⟨by decide, by decide, fun h => by cases h⟩

/-- `ib_send_bw -O --use-srq -q 512`: the depth is checked against half of the QPs, and none gets a
receive. -/
theorem dualportSrq_not_supplied : ∃ d, sendBwParser false [.dualport, .useSrq, .qp 512] = .ok d ∧
    d.testType = .iterations ∧ ¬ d.recvConfig.ReceivesSupplied := by
  obtain ⟨d, hd, hp⟩ := exists_of_toOption_any
    (x := sendBwParser false [.dualport, .useSrq, .qp 512])
    (p := fun d => decide (d.testType = .iterations) &&
      decide (d.rxDepth < d.recvPostList * d.recvConfig.sharers)) (by decide +kernel)
  rw [Bool.and_eq_true, decide_eq_true_eq, decide_eq_true_eq] at hp
  refine ⟨d, hd, hp.1, fun hs => ?_⟩
  have hfit := RecvConfig.fits_of_receivesSupplied (parser_recvConfig_sound hd hp.1) hs
  exact absurd hfit.lists_le (not_le.mpr hp.2)

end Perftest
