import Perftest.BiLoop

namespace Perftest

open WorkQueue SendConfig

/-- What holds between the steps of `run_iter_bi` on the send side. -/
structure BiInv (c : BiConfig) (s : BiCounters) : Prop where
  fifo : s.dev.Fifo BiReq.cqe
  posted : ∀ q, (s.dev.posted q).filter BiReq.isData =
    (List.range (s.scnt q)).map fun k => .data (c.signaledAt k)
  flags : ∀ q, c.FlagsOk (s.scnt q) (s.signaled q)
  within : ∀ q, c.Within (s.scnt q)
  idle : ∀ q, c.numOfQps ≤ q → s.scnt q = 0
  ccnt : ∀ q, s.ccnt q = c.accounted ((s.dev.polled q).countP BiCqe.isData)
  scredit : ∀ q, s.scredit q + (s.dev.polled q).countP BiCqe.isCredit =
    (s.dev.posted q).countP BiReq.isCredit
  window : ∀ q, s.scnt q + s.scredit q ≤ s.ccnt q + c.txDepth
  totscnt : s.totscnt = ∑ q ∈ Finset.range c.numOfQps, s.scnt q
  totccnt : s.totccnt = ∑ q ∈ Finset.range c.numOfQps, s.ccnt q

/-- The messages of QP `q` that have completed. -/
def BiCounters.completedData (s : BiCounters) (q : Nat) : Nat :=
  (s.dev.done q).countP BiReq.isData

namespace BiInv

variable {c : BiConfig} {s : BiCounters} {q : Nat}

theorem init (hf : c.FlagsOk 0 fun j => (j + 1) % c.cqMod = 0) :
    BiInv c c.init.toBiCounters where
  fifo := Device.Fifo.empty
  posted _ := rfl
  flags _ := hf
  within _ _ := Nat.zero_le _
  idle _ _ := rfl
  ccnt _ := by simp [BiConfig.init, Device.empty, accounted]
  scredit _ := rfl
  window _ := Nat.zero_le _
  totscnt := by simp [BiConfig.init]
  totccnt := by simp [BiConfig.init]

theorem filter_data (n : Nat) (f : Nat → Bool) :
    ((List.range n).map fun j => BiReq.data (f j)).filter BiReq.isData =
      (List.range n).map fun j => .data (f j) := by
  rw [List.filter_eq_self]
  intro r hr
  obtain ⟨j, -, rfl⟩ := List.mem_map.mp hr
  rfl

theorem countP_credit_data (n : Nat) (f : Nat → Bool) :
    ((List.range n).map fun j => BiReq.data (f j)).countP BiReq.isCredit = 0 := by
  rw [List.countP_eq_zero]
  intro r hr
  obtain ⟨j, -, rfl⟩ := List.mem_map.mp hr
  exact Bool.false_ne_true

theorem post (hs : c.Sound) (h : BiInv c s) (hq : q < c.numOfQps) (hu : s.scnt q < c.iters)
    (hw : s.scnt q + s.scredit q + c.postList ≤ c.txDepth + s.ccnt q) :
    BiInv c (c.postSend s q) := by
  have hk := within_add_postList hs (h.flags q) (Or.inl hu)
  refine ⟨h.fifo.post q _, fun q' => ?_, fun q' => ?_, fun q' => ?_, fun q' hq' => ?_, h.ccnt,
    fun q' => ?_, fun q' => ?_, ?_, h.totccnt⟩
  · by_cases he : q' = q
    · subst he
      simp only [BiConfig.postSend, Device.post, Function.update_self, List.filter_append,
        h.posted q', filter_data]
      rw [List.range_add, List.map_append, List.map_map]
      congr 1
      refine List.map_congr_left fun j hj => ?_
      rw [Function.comp_apply, (h.flags q').posted hs hk (List.mem_range.mp hj)]
    · simpa [BiConfig.postSend, Device.post, he] using h.posted q'
  · by_cases he : q' = q
    · subst he
      simpa [BiConfig.postSend] using (h.flags q').next hs hk
    · simpa [BiConfig.postSend, he] using h.flags q'
  · by_cases he : q' = q
    · subst he
      simpa [BiConfig.postSend] using hk
    · simpa [BiConfig.postSend, he] using h.within q'
  · have he : q' ≠ q := by omega
    simpa [BiConfig.postSend, he] using h.idle q' hq'
  · have hc := h.scredit q'
    by_cases he : q' = q
    · subst he
      simp only [BiConfig.postSend, Device.post, Function.update_self, List.countP_append,
        countP_credit_data]
      exact hc
    · simpa [BiConfig.postSend, Device.post, he] using hc
  · by_cases he : q' = q
    · subst he
      simp only [BiConfig.postSend, Function.update_self]
      omega
    · simpa [BiConfig.postSend, he] using h.window q'
  · simp only [BiConfig.postSend, sum_update_add s.scnt hq, h.totscnt]

theorem postCredit (h : BiInv c s) (hw : s.scnt q + s.scredit q < c.txDepth + s.ccnt q) :
    BiInv c (BiConfig.postCredit s q) := by
  refine ⟨h.fifo.post q _, fun q' => ?_, h.flags, h.within, h.idle, h.ccnt, fun q' => ?_,
    fun q' => ?_, h.totscnt, h.totccnt⟩
  · have hp := h.posted q'
    by_cases he : q' = q
    · subst he
      simpa [BiConfig.postCredit, Device.post, BiReq.isData] using hp
    · simpa [BiConfig.postCredit, Device.post, he] using hp
  · have hc := h.scredit q'
    by_cases he : q' = q
    · subst he
      simp only [BiConfig.postCredit, Device.post, Function.update_self, List.countP_append,
        List.countP_singleton, BiReq.isCredit, if_true]
      omega
    · simpa [BiConfig.postCredit, Device.post, he] using hc
  · have hw' := h.window q'
    by_cases he : q' = q
    · subst he
      simp only [BiConfig.postCredit, Function.update_self]
      omega
    · simpa [BiConfig.postCredit, he] using hw'

/-- The completions of the messages of QP `q` are the signals of the completed ones. -/
theorem polled_add_pending (hs : c.Sound) (h : BiInv c s) (q : Nat) :
    (s.dev.polled q).countP BiCqe.isData + (s.dev.pending q).countP BiCqe.isData =
      c.signals (s.completedData q) := by
  have hsel : ∀ r : BiReq, r.cqe.any BiCqe.isData = true → r.isData = true := by
    intro r hr
    cases r with
    | data b => rfl
    | credit => simp [BiReq.cqe, BiCqe.isData] at hr
  have hc := h.fifo.count_labelled hsel (h.posted q)
  have hle := (Device.done_labelled (h.posted q)).1
  have hlab : (fun k => (BiReq.data (c.signaledAt k)).cqe.any BiCqe.isData) = c.signaledAt := by
    funext k
    cases c.signaledAt k <;> rfl
  rw [hlab, countP_signaledAt hs fun ht => le_trans hle (h.within q ht)] at hc
  exact hc

theorem completedData_le (h : BiInv c s) (q : Nat) : s.completedData q ≤ s.scnt q :=
  (Device.done_labelled (h.posted q)).1

theorem completedData_within (h : BiInv c s) (q : Nat) : c.Within (s.completedData q) :=
  fun ht => le_trans (h.completedData_le q) (h.within q ht)

theorem ccnt_le_scnt (hs : c.Sound) (h : BiInv c s) (q : Nat) : s.ccnt q ≤ s.scnt q := by
  rw [h.ccnt q]
  have := h.polled_add_pending hs q
  exact (accounted_le (by omega)).trans (h.completedData_le q)

/-- A pending credit completion belongs to a credit write that `scredit` still counts. -/
theorem pending_credit_le (h : BiInv c s) (q : Nat) :
    (s.dev.pending q).countP BiCqe.isCredit ≤ s.scredit q := by
  have hc := h.fifo.count BiCqe.isCredit q
  have hlab : (fun r : BiReq => r.cqe.any BiCqe.isCredit) = BiReq.isCredit := by
    funext r
    cases r with
    | data b => cases b <;> rfl
    | credit => rfl
  rw [hlab] at hc
  have hle : (s.dev.done q).countP BiReq.isCredit ≤ (s.dev.posted q).countP BiReq.isCredit :=
    (List.take_sublist _ _).countP_le
  have := h.scredit q
  omega

theorem consume_credit (h : BiInv c s) {fill : Nat} {rest : List (Nat × BiCqe)}
    (hcq : s.dev.cq = (q, .credit) :: rest) :
    BiInv c (BiConfig.consume fill s q .credit rest) := by
  have hpend : 1 ≤ s.scredit q := by
    have hle := h.pending_credit_le q
    rw [Device.pending_cons hcq, List.countP_cons_of_pos rfl] at hle
    omega
  refine ⟨h.fifo.pop hcq, h.posted, h.flags, h.within, h.idle, fun q' => ?_, fun q' => ?_,
    fun q' => ?_, h.totscnt, h.totccnt⟩
  · have hc := h.ccnt q'
    by_cases he : q' = q
    · subst he
      simpa [BiConfig.consume, Device.pop, BiCqe.isData] using hc
    · simpa [BiConfig.consume, Device.pop, he] using hc
  · have hc := h.scredit q'
    by_cases he : q' = q
    · subst he
      simp only [BiConfig.consume, Device.pop, Function.update_self, List.countP_append,
        List.countP_singleton, BiCqe.isCredit, if_true]
      omega
    · simpa [BiConfig.consume, Device.pop, he] using hc
  · have hw := h.window q'
    by_cases he : q' = q
    · subst he
      simp only [BiConfig.consume, Function.update_self]
      omega
    · simpa [BiConfig.consume, he] using hw

theorem consume_data (hs : c.Sound) (h : BiInv c s) {rest : List (Nat × BiCqe)}
    (hcq : s.dev.cq = (q, .data) :: rest) :
    BiInv c (BiConfig.consume (c.fill (s.ccnt q)) s q .data rest) := by
  have hlt : (s.dev.polled q).countP BiCqe.isData < c.signals (s.completedData q) := by
    have hc := h.polled_add_pending hs q
    rw [Device.pending_cons hcq, List.countP_cons_of_pos rfl] at hc
    omega
  have hq : q < c.numOfQps := by
    by_contra hge
    have hz : s.completedData q = 0 := by
      have := h.completedData_le q
      have := h.idle q (Nat.le_of_not_lt hge)
      omega
    rw [hz, signals_zero hs] at hlt
    omega
  have hfill : s.ccnt q + c.fill (s.ccnt q) =
      c.accounted ((s.dev.polled q).countP BiCqe.isData + 1) := by
    rw [h.ccnt q]
    exact accounted_add_fill hs (h.completedData_within q) hlt
  refine ⟨h.fifo.pop hcq, h.posted, h.flags, h.within, h.idle, fun q' => ?_, fun q' => ?_,
    fun q' => ?_, h.totscnt, ?_⟩
  · by_cases he : q' = q
    · subst he
      simpa [BiConfig.consume, Device.pop, BiCqe.isData] using hfill
    · simpa [BiConfig.consume, Device.pop, he] using h.ccnt q'
  · have hc := h.scredit q'
    by_cases he : q' = q
    · subst he
      simpa [BiConfig.consume, Device.pop, BiCqe.isCredit] using hc
    · simpa [BiConfig.consume, Device.pop, he] using hc
  · have hw := h.window q'
    by_cases he : q' = q
    · subst he
      simp only [BiConfig.consume, Function.update_self]
      omega
    · simpa [BiConfig.consume, he] using hw
  · simp only [BiConfig.consume, sum_update_add s.ccnt hq, h.totccnt]

theorem consume (hs : c.Sound) (h : BiInv c s) {k : BiCqe} {rest : List (Nat × BiCqe)}
    (hcq : s.dev.cq = (q, k) :: rest) :
    BiInv c (BiConfig.consume (c.fill (s.ccnt q)) s q k rest) := by
  cases k with
  | data => exact h.consume_data hs hcq
  | credit => exact h.consume_credit hcq

theorem complete (h : BiInv c s) {r : BiReq}
    (hr : (s.dev.posted q)[s.dev.completed q]? = some r) :
    BiInv c { s with dev := s.dev.complete BiReq.cqe q r } :=
  ⟨h.fifo.complete hr, h.posted, h.flags, h.within, h.idle, h.ccnt, h.scredit, h.window,
    h.totscnt, h.totccnt⟩

theorem step (hs : c.Sound) {s t : BiState} (h : BiInv c s.toBiCounters)
    (ht : Transition.stepOf (Transition.guarded c.waitFits c.act) s t) :
    BiInv c t.toBiCounters := by
  obtain ⟨a, ha⟩ := ht
  obtain ⟨hok, ha⟩ := Transition.guarded_eq_some.mp ha
  rcases BiConfig.act_counters ha with he | ⟨q, hq, hm, he⟩ | ⟨q, hf, he⟩ |
    ⟨q, k, rest, rfl, hcq, he⟩ | ⟨q, k, rest, hcq, he⟩ | ⟨q, r, hr, he⟩ <;> rw [he]
  · exact h
  · simp only [BiConfig.mayPost, Bool.and_eq_true, decide_eq_true_eq] at hm
    exact h.post hs hq hm.1.1.2 hm.1.2
  · simp only [BiConfig.queueFull, decide_eq_false_iff_not, Nat.not_le] at hf
    exact h.postCredit hf
  · cases k with
    | credit => exact h.consume_credit hcq
    | data =>
      simp only [BiConfig.waitFits, hcq, decide_eq_true_eq] at hok
      have hfill : c.fill (s.ccnt q) = c.cqMod := if_neg (by omega)
      rw [← hfill]
      exact h.consume_data hs hcq
  · exact h.consume hs hcq
  · exact h.complete hr

end BiInv

/-- Every message that arrived has been counted or waits in the receive CQ. -/
structure ReceiveInv (c : BiConfig) (s : BiState) : Prop where
  counted : s.totrcnt + s.recvCq.length = ∑ q ∈ Finset.range c.numOfQps, s.arrived q
  arrived_le : ∀ q, s.arrived q ≤ c.iters

theorem ReceiveInv.step {c : BiConfig} {s t : BiState} {a : BiConfig.Action}
    (h : ReceiveInv c s) (ha : c.act a s = some t) : ReceiveInv c t := by
  have hc := h.counted
  rcases BiConfig.act_receive ha with ⟨h1, h2, h3⟩ | ⟨e, h1, h2, h3⟩ |
    ⟨q, label, hq, hl, h1, h2, h3⟩
  · exact ⟨by rw [h1, h2, h3]; exact hc, by rw [h1]; exact h.arrived_le⟩
  · rw [h1, List.length_cons] at hc
    exact ⟨by rw [h2, h3]; omega, by rw [h2]; exact h.arrived_le⟩
  · refine ⟨?_, fun q' => ?_⟩
    · rw [h1, h2, h3, sum_update_add s.arrived hq, List.length_append, List.length_singleton]
      omega
    · have hle := h.arrived_le q'
      rw [h1]
      by_cases he : q' = q
      · subst he
        rw [Function.update_self]
        omega
      · rw [Function.update_of_ne he]
        exact hle

/-- The messages of QP `q` that the loop has received. -/
def BiState.received (s : BiState) (q : Nat) : Nat :=
  s.arrived q - s.recvCq.countP fun e => e.1 = q

/-- Bidirectional accounting with credits. -/
structure BiAccounting (c : BiConfig) (s : BiState) : Prop where
  ccnt_le : ∀ q, s.ccnt q ≤ s.scnt q
  window : ∀ q, s.scnt q + s.scredit q ≤ s.ccnt q + c.txDepth
  totccnt : s.totccnt = ∑ q ∈ Finset.range c.numOfQps, s.ccnt q
  totccnt_le : s.totccnt ≤ c.iters * c.numOfQps
  done : s.pc = .done → ∀ q < c.numOfQps,
    s.scnt q = c.iters ∧ s.ccnt q = c.iters ∧ s.received q = c.iters

theorem ReceiveInv.received_all {c : BiConfig} {s : BiState} (h : ReceiveInv c s)
    (hd : c.totIters ≤ s.totrcnt) {q : Nat} (hq : q < c.numOfQps) : s.received q = c.iters := by
  have hc := h.counted
  have hle : ∑ q ∈ Finset.range c.numOfQps, s.arrived q ≤ c.iters * c.numOfQps := by
    have := Finset.sum_le_card_nsmul (Finset.range c.numOfQps) s.arrived c.iters
      fun q _ => h.arrived_le q
    rwa [Finset.card_range, smul_eq_mul, Nat.mul_comm] at this
  unfold BiConfig.totIters at hd
  have hnil : s.recvCq = [] := List.length_eq_zero_iff.mp (by omega)
  rw [BiState.received, hnil, List.countP_nil, Nat.sub_zero]
  exact eq_of_sum_ge (fun q _ => h.arrived_le q) (by omega) hq

/-- Everything that the steps of a run keep. -/
structure BiRunInv (c : BiConfig) (s : BiState) : Prop where
  send : BiInv c s.toBiCounters
  receive : ReceiveInv c s
  done : s.pc = .done → c.totIters ≤ s.totccnt ∧ c.totIters ≤ s.totrcnt

theorem BiRunInv.step {c : BiConfig} (hs : c.Sound) {s t : BiState} (h : BiRunInv c s)
    (ht : Transition.stepOf (Transition.guarded c.waitFits c.act) s t) : BiRunInv c t := by
  refine ⟨h.send.step hs ht, ?_, ?_⟩
  · obtain ⟨a, ha⟩ := ht
    exact h.receive.step (Transition.guarded_eq_some.mp ha).2
  · intro hd
    obtain ⟨a, ha⟩ := ht
    obtain ⟨-, hc, hr, hpc⟩ := BiConfig.act_done (Transition.guarded_eq_some.mp ha).2 hd
    rw [hc, hr]
    rcases hpc with hpc | hpc
    · exact h.done hpc
    · simp only [BiConfig.continues, Bool.or_eq_false_iff, decide_eq_false_iff_not] at hpc
      exact ⟨Nat.le_of_not_lt hpc.1.2, Nat.le_of_not_lt hpc.2⟩

theorem BiRunInv.accounting {c : BiConfig} (hs : c.Sound) (ht : c.testType = .iterations)
    {s : BiState} (h : BiRunInv c s) : BiAccounting c s := by
  have hle : ∀ q, s.ccnt q ≤ c.iters := fun q =>
    (h.send.ccnt_le_scnt hs q).trans (h.send.within q ht)
  refine ⟨h.send.ccnt_le_scnt hs, h.send.window, h.send.totccnt, ?_, fun hd q hq => ?_⟩
  · rw [h.send.totccnt]
    have := Finset.sum_le_card_nsmul (Finset.range c.numOfQps) s.ccnt c.iters fun q _ => hle q
    rwa [Finset.card_range, smul_eq_mul, Nat.mul_comm] at this
  · obtain ⟨hc, hr⟩ := h.done hd
    rw [h.send.totccnt] at hc
    have hcq : s.ccnt q = c.iters := eq_of_sum_ge (fun q _ => hle q) hc hq
    have hsq := h.send.ccnt_le_scnt hs q
    have := h.send.within q ht
    exact ⟨by omega, hcq, h.receive.received_all hr hq⟩

/-- Accounting of `run_iter_bi` in the runs whose credit wait loop consumes no final partial
batch. -/
theorem runIterBi_accounting (c : BiConfig) (ht : c.testType = .iterations) (hp : c.postList = 1)
    (htx : c.txDepth ≤ c.iters) (hc : 1 ≤ c.cqMod) (hct : c.cqMod ≤ c.txDepth)
    (hfill : c.fillCount = fillCountOf c.testType c.iters c.txDepth c.cqMod) (s : BiState)
    (hr : Transition.Reachable c.IsInit
      (Transition.stepOf (Transition.guarded c.waitFits c.act)) s) : BiAccounting c s := by
  have hs : c.Sound := ⟨hc, hct, hfill, by omega, Or.inl hp⟩
  refine (Transition.Reachable.invariant (P := BiRunInv c) (fun s h0 => ?_)
    (fun s t h => h.step hs) hr).accounting hs ht
  cases h0
  exact ⟨BiInv.init (FlagsOk.init hs fun _ => htx), ⟨by simp [BiConfig.init], fun _ => Nat.zero_le _⟩,
    fun hd => by cases hd⟩

/-- Two messages; the completion of both is consumed by the wait loop. -/
def twoMessages : BiConfig :=
  { testType := .iterations, iters := 2, txDepth := 2, cqMod := 2, postList := 1, numOfQps := 1,
    fillCount := false, rxDepth := 3, sendRcredit := true, useSrq := false, isServer := false }

theorem twoMessages_ends : ∃ s, Transition.Reachable twoMessages.IsInit
    (Transition.stepOf (Transition.guarded twoMessages.waitFits twoMessages.act)) s ∧
      s.pc = .done := by
  obtain ⟨t, ht, hp⟩ := Transition.exists_of_run twoMessages.IsInit
    (Transition.guarded twoMessages.waitFits twoMessages.act)
    [.test, .post, .post, .leave, .endFor, .complete 0, .complete 0, .arrive 0 0, .arrive 0 0,
      .takeRecv, .waitPoll, .postCredit, .takeRecv, .postCredit, .endRecv, .endSend, .test]
    twoMessages.init (fun s => s.pc = .done) rfl (by decide)
  exact ⟨t, ht, by simpa using hp⟩

theorem twoMessages_accounted : ∃ s, Transition.Reachable twoMessages.IsInit
    (Transition.stepOf (Transition.guarded twoMessages.waitFits twoMessages.act)) s ∧
      s.scnt 0 = 2 ∧ s.ccnt 0 = 2 ∧ s.received 0 = 2 := by
  obtain ⟨s, hr, hd⟩ := twoMessages_ends
  exact ⟨s, hr, (runIterBi_accounting twoMessages rfl rfl (by decide) (by decide) (by decide)
    (by decide) s hr).done hd 0 (by decide)⟩

/-- Five messages in batches of two: the wait loop consumes the completion of the last one. -/
def fiveMessages : BiConfig :=
  { testType := .iterations, iters := 5, txDepth := 2, cqMod := 2, postList := 1, numOfQps := 1,
    fillCount := true, rxDepth := 6, sendRcredit := true, useSrq := false, isServer := false }

theorem fiveMessages_overshoot :
    ∃ s, fiveMessages.Reachable s ∧ s.scnt 0 = 5 ∧ s.ccnt 0 = 6 ∧ s.totccnt = 6 := by
  obtain ⟨t, ht, hp⟩ := Transition.exists_of_run fiveMessages.IsInit fiveMessages.act
    [.test, .post, .post, .leave, .endFor, .endRecv, .complete 0, .complete 0, .takeSend,
      .endSend, .test, .post, .post, .leave, .endFor, .endRecv, .complete 0, .complete 0, .takeSend,
      .endSend, .test, .post, .leave, .endFor, .arrive 0 0, .arrive 0 0, .arrive 0 0, .arrive 0 0,
      .takeRecv, .takeRecv, .postCredit, .takeRecv, .takeRecv, .complete 0, .waitPoll]
    fiveMessages.init (fun s => s.scnt 0 = 5 ∧ s.ccnt 0 = 6 ∧ s.totccnt = 6) rfl (by decide)
  exact ⟨t, ht, by simpa using hp⟩

theorem fiveMessages_not_accounted :
    fiveMessages.fillCount = fillCountOf .iterations 5 2 2 ∧
      ¬ ∀ s, fiveMessages.Reachable s → BiAccounting fiveMessages s := by
  refine ⟨by decide, fun h => ?_⟩
  obtain ⟨s, hr, hs, hc, -⟩ := fiveMessages_overshoot
  have := (h s hr).ccnt_le 0
  omega

end Perftest
