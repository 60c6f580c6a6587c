import Perftest.SendLoop

namespace Perftest

open WorkQueue SendConfig

/-- What holds between the steps of a send loop. -/
structure SendInv (L : SendLoop) (s : SendCounters) : Prop where
  fifo : s.dev.Fifo sendCqe
  posted : ∀ q, (s.dev.posted q).filter SendReq.isData =
    (List.range (s.scnt q)).map fun k => .data (L.signaledAt k)
  flags : ∀ q, L.FlagsOk (s.scnt q) (s.signaled q)
  within : ∀ q, L.Within (s.scnt q)
  idle : ∀ q, L.numOfQps ≤ q → s.scnt q = 0
  ccnt : ∀ q, s.ccnt q = L.accounted (s.dev.polled q).length
  window : ∀ q, s.scnt q ≤ s.ccnt q + L.txDepth
  totscnt : s.totscnt = ∑ q ∈ Finset.range L.numOfQps, s.scnt q
  totccnt : s.totccnt = ∑ q ∈ Finset.range L.numOfQps, s.ccnt q

namespace SendInv

variable {L : SendLoop} {s : SendCounters} {q : Nat}

theorem init (hf : L.FlagsOk 0 L.initSignaled) : SendInv L L.init where
  fifo := Device.Fifo.empty
  posted _ := rfl
  flags _ := hf
  within _ _ := Nat.zero_le _
  idle _ _ := rfl
  ccnt _ := by simp [SendLoop.init, Device.empty, accounted]
  window _ := Nat.zero_le _
  totscnt := by simp [SendLoop.init]
  totccnt := by simp [SendLoop.init]

theorem filter_batch (flags : Nat → Bool) (k : Nat) :
    (L.batch flags k).filter SendReq.isData =
      (List.range L.postList).map fun j => .data (flags j) := by
  unfold SendLoop.batch
  induction L.postList with
  | zero => rfl
  | succ n ih =>
    rw [List.range_succ, List.flatMap_append, List.filter_append, ih, List.map_append]
    by_cases hc : L.chained (k + n) <;> simp [hc, SendReq.isData, List.filter_cons]

theorem post (hs : L.Sound) (h : SendInv L s) (hq : q < L.numOfQps) (hu : L.unfinished s q = true)
    (hw : L.hasRoom s q = true) : SendInv L (L.postSend s q) := by
  have hk := within_add_postList hs (h.flags q) (by simpa [SendLoop.unfinished] using hu)
  refine ⟨h.fifo.post q _, fun q' => ?_, fun q' => ?_, fun q' => ?_, fun q' hq' => ?_, h.ccnt,
    fun q' => ?_, ?_, h.totccnt⟩
  · by_cases he : q' = q
    · subst he
      simp only [SendLoop.postSend, Device.post, Function.update_self, List.filter_append,
        h.posted q', filter_batch]
      rw [List.range_add, List.map_append, List.map_map]
      congr 1
      refine List.map_congr_left fun j hj => ?_
      rw [Function.comp_apply, (h.flags q').posted hs hk (List.mem_range.mp hj)]
    · simpa [SendLoop.postSend, Device.post, he] using h.posted q'
  · by_cases he : q' = q
    · subst he
      simpa [SendLoop.postSend] using (h.flags q').next hs hk
    · simpa [SendLoop.postSend, he] using h.flags q'
  · by_cases he : q' = q
    · subst he
      simpa [SendLoop.postSend] using hk
    · simpa [SendLoop.postSend, he] using h.within q'
  · have he : q' ≠ q := by omega
    simpa [SendLoop.postSend, he] using h.idle q' hq'
  · by_cases he : q' = q
    · subst he
      simp only [SendLoop.postSend, Function.update_self]
      simp only [SendLoop.hasRoom, decide_eq_true_eq] at hw
      omega
    · simpa [SendLoop.postSend, he] using h.window q'
  · simp only [SendLoop.postSend, sum_update_add s.scnt hq, h.totscnt]

/-- The completions of QP `q`, polled and pending, are the signals of its completed requests. -/
theorem polled_add_pending (hs : L.Sound) (h : SendInv L s) (q : Nat) :
    (s.dev.polled q).length + (s.dev.pending q).length =
      L.signals (SendLoop.completedData s q) := by
  have hsel : ∀ r : SendReq, (sendCqe r).any (fun _ => true) = true → r.isData = true := by
    intro r hr
    cases r with
    | data b => rfl
    | fetchAdd => simp [sendCqe] at hr
  have hc := h.fifo.count_labelled hsel (h.posted q)
  have hle := (Device.done_labelled (h.posted q)).1
  have hlab : (fun k => (sendCqe (.data (L.signaledAt k))).any fun _ => true) = L.signaledAt := by
    funext k
    cases L.signaledAt k <;> rfl
  rw [hlab, countP_signaledAt hs fun ht => le_trans hle (h.within q ht)] at hc
  simpa [List.countP_true, SendLoop.completedData] using hc

theorem completedData_le (h : SendInv L s) (q : Nat) : SendLoop.completedData s q ≤ s.scnt q :=
  (Device.done_labelled (h.posted q)).1

theorem completedData_within (h : SendInv L s) (q : Nat) :
    L.Within (SendLoop.completedData s q) :=
  fun ht => le_trans (h.completedData_le q) (h.within q ht)

theorem ccnt_le_completed (hs : L.Sound) (h : SendInv L s) (q : Nat) :
    s.ccnt q ≤ SendLoop.completedData s q := by
  rw [h.ccnt q]
  have := h.polled_add_pending hs q
  exact accounted_le (by omega)

theorem pending_nil_of_idle (hs : L.Sound) (h : SendInv L s) (hq : L.numOfQps ≤ q) :
    s.dev.pending q = [] := by
  have hz : SendLoop.completedData s q = 0 := by
    have := h.completedData_le q
    have := h.idle q hq
    omega
  have hc := h.polled_add_pending hs q
  rw [hz, signals_zero hs] at hc
  exact List.length_eq_zero_iff.mp (by omega)

theorem take (hs : L.Sound) (h : SendInv L s) {rest : List (Nat × Unit)}
    (hcq : s.dev.cq = (q, ()) :: rest) : SendInv L (L.takeCompletion s q rest) := by
  have hpend := Device.pending_cons hcq
  have hlt : (s.dev.polled q).length < L.signals (SendLoop.completedData s q) := by
    have hc := h.polled_add_pending hs q
    rw [hpend, List.length_cons] at hc
    omega
  have hq : q < L.numOfQps := by
    by_contra hge
    rw [h.pending_nil_of_idle hs (Nat.le_of_not_lt hge)] at hpend
    cases hpend
  have hfill : s.ccnt q + L.fill (s.ccnt q) = L.accounted ((s.dev.polled q).length + 1) := by
    rw [h.ccnt q]
    exact accounted_add_fill hs (h.completedData_within q) hlt
  refine ⟨h.fifo.pop hcq, h.posted, h.flags, h.within, h.idle, fun q' => ?_, fun q' => ?_,
    h.totscnt, ?_⟩
  · by_cases he : q' = q
    · subst he
      simpa [SendLoop.takeCompletion, Device.pop] using hfill
    · simpa [SendLoop.takeCompletion, Device.pop, he] using h.ccnt q'
  · have hw := h.window q'
    by_cases he : q' = q
    · subst he
      simp only [SendLoop.takeCompletion, Function.update_self]
      omega
    · simpa [SendLoop.takeCompletion, he] using hw
  · simp only [SendLoop.takeCompletion, sum_update_add s.ccnt hq, h.totccnt]

theorem complete (h : SendInv L s) {r : SendReq}
    (hr : (s.dev.posted q)[s.dev.completed q]? = some r) :
    SendInv L { s with dev := s.dev.complete sendCqe q r } :=
  ⟨h.fifo.complete hr, h.posted, h.flags, h.within, h.idle, h.ccnt, h.window, h.totscnt, h.totccnt⟩

theorem ccnt_of_drained (hs : L.Sound) (h : SendInv L s) (hd : SendLoop.Drained s) (q : Nat) :
    s.ccnt q = L.accounted (L.signals (s.scnt q)) := by
  have hdone : s.dev.done q = s.dev.posted q := by
    rw [Device.done, hd.2 q]
    exact List.take_length
  have hdata : SendLoop.completedData s q = s.scnt q := by
    rw [SendLoop.completedData, hdone, List.countP_eq_length_filter, h.posted q]
    simp
  have hpend : s.dev.pending q = [] := Device.pending_eq_nil_iff.mpr hd.1 q
  have hc := h.polled_add_pending hs q
  rw [hdata, hpend, List.length_nil, Nat.add_zero] at hc
  rw [h.ccnt q, hc]

/-- The window never blocks once everything posted has been accounted for. -/
theorem hasRoom_of_drained (hs : L.Sound) (hp : L.postList ≤ L.txDepth) (h : SendInv L s)
    (hd : SendLoop.Drained s) (q : Nat) : L.hasRoom s q = true := by
  have hc := h.ccnt_of_drained hs hd q
  have hle := hs.cqMod_le
  simp only [SendLoop.hasRoom, decide_eq_true_eq]
  rcases h.flags q with ⟨h1, -⟩ | ⟨h1, hdvd, -⟩
  · have := lt_accounted_signals hs (h.within q)
    omega
  · have := accounted_signals_of_dvd (h.within q) ((hs.batch_dvd h1).1.trans hdvd)
    omega

theorem clear (h : SendInv L s) (q : Nat) :
    SendInv L { s with
      signaled := Function.update s.signaled q (L.flagsAtPost (s.scnt q) (s.signaled q)) } := by
  refine ⟨h.fifo, h.posted, fun q' => ?_, h.within, h.idle, h.ccnt, h.window, h.totscnt, h.totccnt⟩
  by_cases he : q' = q
  · subst he
    simpa using (h.flags q').cleared
  · simpa [he] using h.flags q'

theorem step (hs : L.Sound) {s t : SendState} (h : SendInv L s.toSendCounters)
    (ht : Transition.stepOf L.act s t) : SendInv L t.toSendCounters := by
  obtain ⟨a, ha⟩ := ht
  rcases SendLoop.act_cases ha with ⟨he, -⟩ | ⟨q, -, hq, hu, hw, rfl⟩ | ⟨q, rfl⟩ |
    ⟨q, rest, -, hcq, rfl⟩ | ⟨q, r, hr, rfl⟩
  · exact he ▸ h
  · exact h.post hs hq hu hw
  · exact h.clear q
  · exact h.take hs hcq
  · exact h.complete hr

theorem of_reachable (hs : L.Sound) (hf : L.FlagsOk 0 L.initSignaled) {s : SendState}
    (hr : L.Reachable s) : SendInv L s.toSendCounters := by
  refine Transition.Reachable.invariant (P := fun s : SendState => SendInv L s.toSendCounters)
    (fun s h0 => ?_) (fun s t h ht => h.step hs ht) hr
  rw [h0.1]
  exact init hf

end SendInv

/-- Behind the loop the totals have reached `tot_iters`. -/
theorem SendLoop.totals_of_done {L : SendLoop} {s : SendState} (hr : L.Reachable s)
    (hd : s.pc = .done) : L.totIters ≤ s.totscnt ∧ L.totIters ≤ s.totccnt := by
  refine Transition.Reachable.invariant
    (P := fun s : SendState => s.pc = .done → L.totIters ≤ s.totscnt ∧ L.totIters ≤ s.totccnt)
    (fun s h0 hd => ?_) (fun s t h ht hd => ?_) hr hd
  · rw [h0.2] at hd
    cases hd
  · obtain ⟨a, ha⟩ := ht
    rcases act_cases ha with ⟨he, hpc⟩ | ⟨q, hpc, -, -, -, rfl⟩ | ⟨q, rfl⟩ |
      ⟨q, rest, hpc, -, rfl⟩ | ⟨q, r, hr, rfl⟩
    · rw [he]
      rcases hpc hd with hd' | hc
      · exact h hd'
      · simp only [continues, Bool.or_eq_false_iff, decide_eq_false_iff_not] at hc
        exact ⟨Nat.le_of_not_lt hc.1.1, Nat.le_of_not_lt hc.1.2⟩
    · cases hpc.symm.trans hd
    · cases hd
    · cases hpc.symm.trans hd
    · exact h hd

theorem runIterBwDv_flags {c : SendConfig} (hs : c.Sound) (hp : c.postList = 1) (g : DvConfig) :
    c.FlagsOk 0 (runIterBwDv c g).initSignaled := by
  refine Or.inl ⟨hp, fun _ hc => ?_⟩
  have hpos := hs.cqMod_pos
  simp only [clearsSignal, hp, Nat.zero_mod, decide_true, Bool.true_and, Bool.and_eq_false_iff,
    decide_eq_false_iff_not, Bool.not_eq_false', Bool.and_eq_true, decide_eq_true_eq] at hc
  rcases hc with hc | ⟨hl, ht⟩
  · have h1 : c.cqMod = 1 := by omega
    simp [runIterBwDv, signaledAt, h1]
  · simp [runIterBwDv, signaledAt, ht, hl]

/-- The accounting of an ITERATIONS run with single posts. -/
structure SendAccounting (L : SendLoop) (s : SendState) : Prop where
  posted : ∀ q, ((s.dev.posted q).filter SendReq.isData).length = s.scnt q
  signaled : ∀ q k r, ((s.dev.posted q).filter SendReq.isData)[k]? = some r →
    (r = .data true ↔ (k + 1) % L.cqMod = 0 ∨ k = L.iters - 1)
  ccnt_le : ∀ q, s.ccnt q ≤ s.scnt q
  scnt_le : ∀ q, s.scnt q ≤ s.ccnt q + L.txDepth
  completed : ∀ q, s.ccnt q ≤ SendLoop.completedData s.toSendCounters q
  totccnt : s.totccnt = ∑ q ∈ Finset.range L.numOfQps, s.ccnt q
  done : s.pc = .done →
    (∀ q < L.numOfQps, s.scnt q = L.iters ∧ s.ccnt q = L.iters) ∧ s.dev.cq = []

theorem SendInv.accounted_all {L : SendLoop} {s : SendCounters} (hs : L.Sound)
    (ht : L.testType = .iterations) (h : SendInv L s) (hd : L.totIters ≤ s.totccnt) :
    (∀ q < L.numOfQps, s.scnt q = L.iters ∧ s.ccnt q = L.iters) ∧ s.dev.cq = [] := by
  have hle : ∀ q, s.ccnt q ≤ s.scnt q ∧ s.scnt q ≤ L.iters := fun q =>
    ⟨(h.ccnt_le_completed hs q).trans (h.completedData_le q), h.within q ht⟩
  have hc : ∀ q < L.numOfQps, s.ccnt q = L.iters := by
    intro q hq
    refine eq_of_sum_ge (fun q _ => (hle q).1.trans (hle q).2) ?_ hq
    rw [← h.totccnt]
    simpa [SendLoop.totIters, ht] using hd
  refine ⟨fun q hq => ?_, Device.pending_eq_nil_iff.mp fun q => ?_⟩
  · have := hle q
    have := hc q hq
    omega
  · rcases Nat.lt_or_ge q L.numOfQps with hq | hq
    · have hn := h.polled_add_pending hs q
      have := signals_le_of_accounted hs ht (h.completedData_within q ht)
        ((h.ccnt q).symm.trans (hc q hq))
      exact List.length_eq_zero_iff.mp (by omega)
    · exact h.pending_nil_of_idle hs hq

/-- Completion accounting of `run_iter_bw` and `run_iter_bw_dv`, for any number of QPs, any order of
their completions and any size of the polls. -/
theorem sendLoop_accounting (c : SendConfig) (L : SendLoop)
    (hL : L = runIterBw c ∨ ∃ g, L = runIterBwDv c g) (ht : c.testType = .iterations)
    (hp : c.postList = 1) (hi : 1 ≤ c.iters) (htx : c.txDepth ≤ c.iters) (hc : 1 ≤ c.cqMod)
    (hct : c.cqMod ≤ c.txDepth)
    (hfill : c.fillCount = fillCountOf c.testType c.iters c.txDepth c.cqMod)
    (s : SendState) (hr : L.Reachable s) : SendAccounting L s := by
  have hs : c.Sound := ⟨hc, hct, hfill, by omega, Or.inl hp⟩
  have hLc : L.toSendConfig = c ∧ c.FlagsOk 0 L.initSignaled := by
    rcases hL with rfl | ⟨g, rfl⟩
    · exact ⟨rfl, FlagsOk.init hs fun _ => htx⟩
    · exact ⟨rfl, runIterBwDv_flags hs hp g⟩
  obtain ⟨rfl, hf⟩ := hLc
  have h := SendInv.of_reachable hs hf hr
  refine ⟨fun q => by rw [h.posted q]; simp, fun q k r hk => ?_,
    fun q => (h.ccnt_le_completed hs q).trans (h.completedData_le q), h.window,
    h.ccnt_le_completed hs, h.totccnt,
    fun hd => h.accounted_all hs ht (SendLoop.totals_of_done hr hd).2⟩
  rw [h.posted q, List.getElem?_map] at hk
  obtain ⟨k', hk', rfl⟩ := Option.map_eq_some_iff.mp hk
  obtain ⟨-, rfl⟩ := List.getElem?_eq_some_iff.mp hk'
  simp only [List.getElem_range, SendReq.data.injEq, signaledAt, ht, decide_true, Bool.true_and,
    Bool.or_eq_true, decide_eq_true_eq]
  omega

def threeSends : SendConfig :=
  { testType := .iterations, iters := 3, txDepth := 2, cqMod := 2, postList := 1, numOfQps := 1,
    fillCount := true }

theorem threeSends_ends : ∃ s, (runIterBw threeSends).Reachable s ∧ s.pc = .done := by
  obtain ⟨t, ht, hp⟩ := Transition.exists_of_run (runIterBw threeSends).IsInit
    (runIterBw threeSends).act
    [.test, .post, .post, .leave, .endFor, .complete 0, .complete 0, .take, .endPoll, .test, .post,
      .leave, .endFor, .complete 0, .take, .endPoll, .test]
    ⟨(runIterBw threeSends).init, .startState, .test⟩ (fun s => s.pc = .done) ⟨rfl, rfl⟩
    (by decide)
  exact ⟨t, ht, by simpa using hp⟩

theorem threeSends_accounted : ∃ s, (runIterBw threeSends).Reachable s ∧ s.scnt 0 = 3 ∧
    s.ccnt 0 = 3 ∧ s.totccnt = 3 := by
  obtain ⟨s, hr, hd⟩ := threeSends_ends
  have h := sendLoop_accounting threeSends (runIterBw threeSends) (Or.inl rfl) rfl rfl (by decide)
    (by decide) (by decide) (by decide) (by decide) s hr
  obtain ⟨hq, -⟩ := h.done hd
  obtain ⟨hs, hc⟩ := hq 0 (by decide)
  refine ⟨s, hr, hs, hc, ?_⟩
  rw [h.totccnt]
  simpa [runIterBw, threeSends] using hc

end Perftest
