import Perftest.PollBatches
import Perftest.RunEnd
import Perftest.WarmUp

namespace Perftest

open WorkQueue Transition Checked

namespace WarmConfig

variable (c : WarmConfig)

/-- The steps that lie ahead of a place, not counting those of the device and its completions. -/
def placeWork : WarmPc → Nat
  | .enter q => (c.numOfQps - q) * (3 * (c.lists * c.postList.toNat) + 4) + 1
  | .post q w => (c.numOfQps - (q + 1)) * (3 * (c.lists * c.postList.toNat) + 4) + 1 +
      3 * (c.lists * c.postList - w).toNat + 3
  | .wait q _ => (c.numOfQps - (q + 1)) * (3 * (c.lists * c.postList.toNat) + 4) + 1 + 2
  | .done => 0

def workLeft (s : WarmState) : Nat :=
  2 * (∑ q ∈ Finset.range c.numOfQps, s.dev.uncompleted q) + s.dev.cq.length + c.placeWork s.pc

variable {c} {s t : WarmState} {a : Action} {x k n : Nat}

theorem placeWork_enter (hx : x < c.numOfQps) : c.placeWork (.enter x) =
    c.placeWork (.enter (x + 1)) + 3 * (c.lists * c.postList.toNat) + 4 := by
  obtain ⟨r, hr⟩ := Nat.exists_eq_add_of_lt hx
  have h1 : c.numOfQps - x = r + 1 := by omega
  have h2 : c.numOfQps - (x + 1) = r := by omega
  simp only [placeWork, h1, h2, Nat.succ_mul]
  omega

theorem lists_mul (hl : k ≤ c.lists) : (c.lists * c.postList - k * c.postList).toNat =
    (c.lists - k) * c.postList.toNat := by
  obtain ⟨r, hr⟩ := Nat.exists_eq_add_of_le hl
  have hr' : c.lists - k = r := by omega
  rw [hr', hr]
  push_cast
  rw [Int.add_mul, add_sub_cancel_left]
  rcases Int.le_total 0 c.postList with hp | hp
  · obtain ⟨m, hm⟩ := Int.eq_ofNat_of_zero_le hp
    rw [hm]
    norm_cast
  · rw [Int.toNat_of_nonpos hp, Nat.mul_zero]
    exact Int.toNat_of_nonpos (Int.mul_nonpos_of_nonneg_of_nonpos (Int.natCast_nonneg _) hp)

/-- Only the QPs that a place has reached hold requests. -/
theorem WarmCount.lt_of_posted {d : Device SendFlags Unit} {pc : WarmPc} {q : Nat}
    (h : c.WarmCount d x k n) (hp : c.Place pc x k n) (hq : 0 < (d.posted q).length) :
    q < c.numOfQps := by
  rw [h.length] at hq
  have hne : (if q < x then c.lists else if q = x then k else 0) ≠ 0 := fun hz => by simp [hz] at hq
  cases hp with
  | enter hx | post hx | wait hx | done =>
    split_ifs at hne <;> omega

theorem WarmInv.workLeft_lt (ht : 0 < c.txDepth) (h : c.WarmInv s x k n)
    (ha : c.act a s = some t) : c.workLeft t < c.workLeft s := by
  obtain ⟨hcount, hplace, -⟩ := h
  cases a with
  | enter =>
    simp only [act] at ha
    split at ha
    next q hpc =>
      rw [hpc] at hplace
      cases hplace with
      | enter hq =>
        split at ha
        next hlt =>
          cases ha
          have hdev : (c.askSignal s x).dev = s.dev := by
            unfold askSignal
            split <;> rfl
          have henter := placeWork_enter hlt
          have hmul := lists_mul (c := c) (Nat.zero_le c.lists)
          rw [Nat.cast_zero, Int.zero_mul, Nat.sub_zero] at hmul
          simp only [workLeft, hdev, hpc]
          have hpost : c.placeWork (.post x 0) =
              c.placeWork (.enter (x + 1)) + 3 * (c.lists * c.postList.toNat) + 3 := by
            simp only [placeWork, hmul]
          omega
        next =>
          cases ha
          simp only [workLeft, hpc, placeWork]
          omega
    next => cases ha
  | post =>
    simp only [act] at ha
    split at ha
    next q w hpc =>
      rw [hpc] at hplace
      simp only [Option.ite_none_right_eq_some, Option.some.injEq] at ha
      obtain ⟨hlt, rfl⟩ := ha
      cases hplace with
      | post hq hk =>
        rw [lt_warmupsession_iff ht hk] at hlt
        obtain ⟨hp, -⟩ := warmupsession_eq (Nat.zero_lt_of_lt hlt)
        have hsum := Device.sum_uncompleted_post (d := s.dev) hq
          ((List.range c.postList.toNat).map (s.sendFlags x))
        rw [List.length_map, List.length_range] at hsum
        have hcast : (k : Int) * c.postList + c.postList = ((k + 1 : Nat) : Int) * c.postList := by
          push_cast
          ring
        have hbefore := lists_mul (c := c) hk
        have hafter := lists_mul (c := c) (k := k + 1) hlt
        have hstep : (c.lists - k) * c.postList.toNat =
            (c.lists - (k + 1)) * c.postList.toNat + c.postList.toNat := by
          rw [← Nat.succ_mul]
          congr 1
          omega
        have hpos : 0 < c.postList.toNat := by omega
        simp only [workLeft, hpc, hcast, placeWork, hbefore, hafter]
        simp only [Device.post] at hsum ⊢
        omega
    next => cases ha
  | endPost =>
    simp only [act] at ha
    split at ha
    next q w hpc =>
      simp only [Option.ite_none_left_eq_some, Option.some.injEq] at ha
      obtain ⟨-, rfl⟩ := ha
      have hdev : (clearSignal s q).dev = s.dev := by
        unfold clearSignal
        split <;> rfl
      simp only [workLeft, hdev, hpc, placeWork]
      omega
    next => cases ha
  | take =>
    simp only [act] at ha
    split at ha
    next q w q' u rest hpc hcq =>
      cases ha
      have hwork : c.placeWork (if w - c.postList = 0 then .enter (q + 1)
          else .wait q (w - c.postList)) ≤ c.placeWork s.pc := by
        rw [hpc]
        split
        · simp only [placeWork]
          omega
        · exact le_refl _
      have hlen : (s.dev.pop q' () rest).cq.length + 1 = s.dev.cq.length := by
        rw [hcq]
        rfl
      have hun : ∀ i, (s.dev.pop q' () rest).uncompleted i = s.dev.uncompleted i := fun _ => rfl
      simp only [workLeft, hun]
      omega
    next => cases ha
  | leave =>
    simp only [act] at ha
    split at ha
    next q hpc hcq =>
      cases ha
      simp only [workLeft, hpc, placeWork]
      omega
    next => cases ha
  | complete q =>
    simp only [act] at ha
    split at ha
    next f hf =>
      cases ha
      obtain ⟨hlt, -⟩ := List.getElem?_eq_some_iff.mp hf
      have hq := hcount.lt_of_posted hplace (Nat.zero_lt_of_lt hlt)
      have hsum := Device.sum_uncompleted_complete SendFlags.cqe hq hlt f
      have hcq : (s.dev.complete SendFlags.cqe q f).cq.length ≤ s.dev.cq.length + 1 := by
        rw [Device.complete, List.length_append]
        cases f.cqe <;> simp
      simp only [workLeft]
      omega
    next => cases ha

/-- The sum over the QPs of what those in front of a place hold, and the one at it. -/
theorem sum_place {f a b : Nat} (hf : f < n) :
    ∑ i ∈ Finset.range n, (if i < f then a else if i = f then b else 0) = f * a + b := by
  obtain ⟨r, rfl⟩ := Nat.exists_eq_add_of_lt hf
  rw [Nat.add_right_comm, Finset.sum_range_add, Finset.sum_range_succ]
  have hfirst : ∑ i ∈ Finset.range f, (if i < f then a else if i = f then b else 0) = f * a := by
    rw [Finset.sum_congr rfl fun i hi => if_pos (Finset.mem_range.mp hi), Finset.sum_const,
      Finset.card_range, smul_eq_mul]
  have hlast : ∑ i ∈ Finset.range r,
      (if f + 1 + i < f then a else if f + 1 + i = f then b else 0) = 0 :=
    Finset.sum_eq_zero fun i _ => by rw [if_neg (by omega), if_neg (by omega)]
  rw [hfirst, hlast]
  simp

theorem sum_all (a b : Nat) :
    ∑ i ∈ Finset.range n, (if i < n then a else if i = n then b else 0) = n * a := by
  rw [Finset.sum_congr rfl fun i hi => if_pos (Finset.mem_range.mp hi), Finset.sum_const,
    Finset.card_range, smul_eq_mul]

/-- The function is never stuck where every list leaves a completion. -/
theorem WarmInv.goesOn (hs : 0 < c.lists → 0 < c.signals)
    (h : c.WarmInv s x k n) (hpc : s.pc ≠ .done) : ∃ t, stepOf c.act s t := by
  obtain ⟨hcount, hplace, -⟩ := h
  suffices h : ∃ a, (c.act a s).isSome by
    obtain ⟨a, ha⟩ := h
    obtain ⟨t, ht⟩ := Option.isSome_iff_exists.mp ha
    exact ⟨t, a, ht⟩
  cases hp : s.pc with
  | enter q =>
    by_cases hq : q < c.numOfQps
    · refine ⟨.enter, ?_⟩
      simp only [act, hp, if_pos hq, Option.isSome_some]
    · refine ⟨.enter, ?_⟩
      simp only [act, hp, if_neg hq, Option.isSome_some]
  | post q w =>
    by_cases hw : w < c.warmupsession
    · refine ⟨.post, ?_⟩
      simp only [act, hp, if_pos hw, Option.isSome_some]
    · refine ⟨.endPost, ?_⟩
      simp only [act, hp, if_neg hw, Option.isSome_some]
  | wait q w =>
    by_cases hun : ∃ i, s.dev.completed i < (s.dev.posted i).length
    · obtain ⟨i, hi⟩ := hun
      refine ⟨.complete i, ?_⟩
      simp only [act, List.getElem?_eq_getElem hi, Option.isSome_some]
    have hall : ∀ i, s.dev.completed i = (s.dev.posted i).length := fun i =>
      le_antisymm (hcount.fifo.bound i) (Nat.le_of_not_lt fun h => hun ⟨i, h⟩)
    cases hcq : s.dev.cq with
    | cons e rest =>
      refine ⟨.take, ?_⟩
      simp only [act, hp, hcq, Option.isSome_some]
    | nil =>
      rw [hp] at hplace
      cases hplace with
      | @wait _ j hq hk h0 =>
        have hpolled := hcount.polled
        rw [Finset.sum_congr rfl fun i _ => hcount.polled_of_drained hall hcq, ← Finset.sum_mul,
          sum_place hq] at hpolled
        have hz : j = 0 := by
          by_contra hj
          have hl : 0 < c.lists := by omega
          have := Nat.le_mul_of_pos_right (x * c.lists + c.lists) (hs hl)
          omega
        rw [hz, Nat.cast_zero, Int.zero_mul] at hp
        refine ⟨.leave, ?_⟩
        simp only [act, hp, hcq, Option.isSome_some]
  | done => exact absurd hp hpc

theorem exists_inv (ht : 0 < c.txDepth) (h : c.Reachable s) : ∃ x k n, c.WarmInv s x k n := by
  refine Transition.Reachable.invariant (P := fun s => ∃ x k n, c.WarmInv s x k n)
    (fun s hi => ?_) (fun s t hs hst => ?_) h
  · rw [hi]
    exact ⟨0, 0, 0, init_inv⟩
  · obtain ⟨x, k, n, hs⟩ := hs
    obtain ⟨a, ha⟩ := hst
    exact hs.step ht ha

theorem reachable_init : c.Reachable c.init := Reachable.of_init rfl

theorem exists_done (ht : 0 < c.txDepth) (hs : 0 < c.lists → 0 < c.signals) :
    ∃ s, c.Reachable s ∧ s.pc = .done := by
  obtain ⟨s, hst, hd⟩ := exists_goal_of_measure (P := c.Reachable) (G := fun s => s.pc = .done)
    c.workLeft (fun s t h hst => h.tail hst) (fun s hr hpc => by
      obtain ⟨x, k, n, h⟩ := exists_inv ht hr
      obtain ⟨t, a, ha⟩ := h.goesOn hs hpc
      exact ⟨t, .single ⟨a, ha⟩, h.workLeft_lt ht ha⟩) reachable_init
  exact ⟨s, ⟨_, rfl, hst⟩, hd⟩

/-- The device goes on behind the end. -/
theorem exists_drained (ht : 0 < c.txDepth) (hr : c.Reachable s) (hd : s.pc = .done) :
    ∃ t, c.Reachable t ∧ t.pc = .done ∧ ∀ q, t.dev.completed q = (t.dev.posted q).length := by
  obtain ⟨t, hst, hall⟩ := @exists_goal_of_measure _ (fun s t => stepOf c.act s t ∧ t.pc = s.pc)
    c.Reachable (fun s => ∀ q, s.dev.completed q = (s.dev.posted q).length) c.workLeft
    (fun s t h hst => h.tail hst.1) (fun s hr hg => by
      obtain ⟨x, k, n, h⟩ := exists_inv ht hr
      obtain ⟨q, hq⟩ := not_forall.mp hg
      have hlt := Nat.lt_of_le_of_ne (h.counts.fifo.bound q) hq
      have ha : c.act (.complete q) s = some { s with
          dev := s.dev.complete SendFlags.cqe q (s.dev.posted q)[s.dev.completed q] } := by
        simp only [act, List.getElem?_eq_getElem hlt]
      exact ⟨_, .single ⟨⟨_, ha⟩, rfl⟩, h.workLeft_lt ht ha⟩) _ hr
  suffices h : c.Reachable t ∧ t.pc = .done from ⟨t, h.1, h.2, hall⟩
  clear hall
  induction hst with
  | refl => exact ⟨hr, hd⟩
  | tail _ hs ih => exact ⟨ih.1.tail hs.1, hs.2.trans ih.2⟩

/-- A warm-up whose lists fit the send queue and leave one completion each leaves no trace. -/
theorem clean_of_single (ht : 0 < c.txDepth) (hs : 0 < c.lists → c.signals = 1)
    (hw : c.lists * c.postList.toNat ≤ c.txDepth) : c.WarmUpClean := by
  have hpos : 0 < c.lists → 0 < c.signals := fun hl => by rw [hs hl]; exact Nat.one_pos
  refine ⟨⟨c.workLeft c.init, fun as t hr => ?_⟩, fun s hr hpc => ?_, fun s hr q => ?_,
    fun s hr hd => ?_, fun s hr hd q j => ?_⟩
  · exact length_le_of_measure (P := fun s => ∃ x k n, c.WarmInv s x k n) c.workLeft
      (fun s a t hs ha => by
        obtain ⟨x, k, n, hs⟩ := hs
        exact hs.step ht ha)
      (fun s a t hs ha => by
        obtain ⟨x, k, n, hs⟩ := hs
        exact hs.workLeft_lt ht ha) ⟨0, 0, 0, init_inv⟩ hr
  · obtain ⟨x, k, n, h⟩ := exists_inv ht hr
    exact h.goesOn hpos hpc
  · obtain ⟨x, k, n, h⟩ := exists_inv ht hr
    rw [h.counts.length]
    refine le_trans (Nat.mul_le_mul_right _ ?_) hw
    have hk : k ≤ c.lists := by
      have hplace := h.place
      generalize s.pc = pc at hplace
      cases hplace with
      | enter | done => exact Nat.zero_le _
      | post _ hk => exact hk
      | wait => exact le_refl _
    split_ifs <;> omega
  · obtain ⟨x, k, n, h⟩ := exists_inv ht hr
    have hplace := h.place
    rw [hd] at hplace
    cases hplace with
    | done =>
      have hcount : ∀ q, (s.dev.polled q).length + (s.dev.pending q).length ≤
          if q < c.numOfQps then c.lists else 0 := by
        intro q
        refine (h.counts.fifo.entries_le q).trans (le_of_eq ?_)
        rw [h.counts.count]
        split
        · rcases Nat.eq_zero_or_pos c.lists with hz | hl
          · rw [hz, Nat.zero_mul]
          · rw [hs hl, Nat.mul_one]
        · rw [ite_self, Nat.zero_mul]
      refine Device.pending_eq_nil_iff.mp fun q => List.length_eq_zero_iff.mp ?_
      have hq := hcount q
      by_cases hlt : q < c.numOfQps
      · rw [if_pos hlt] at hq
        have hfull := eq_of_sum_ge (f := fun q => (s.dev.polled q).length) (b := c.lists)
          (fun i hi => by
            have := hcount i
            rw [if_pos hi] at this
            omega) (by rw [h.counts.polled, Nat.mul_comm]; exact Nat.le_add_right _ _) hlt
        omega
      · rw [if_neg hlt] at hq
        omega
  · obtain ⟨x, k, n, h⟩ := exists_inv ht hr
    have hflags := h.flags
    rw [hd] at hflags
    rw [hflags.1]

theorem single_of_clean (ht : 0 < c.txDepth) (hn : 0 < c.numOfQps)
    (hs : 0 < c.lists → 0 < c.signals) (h : c.WarmUpClean) :
    c.lists * c.postList.toNat ≤ c.txDepth ∧ (0 < c.lists → c.signals = 1) := by
  obtain ⟨s, hr, hd⟩ := exists_done ht hs
  obtain ⟨t, hr, hd, hall⟩ := exists_drained ht hr hd
  obtain ⟨x, k, n, hinv⟩ := exists_inv ht hr
  have hplace := hinv.place
  rw [hd] at hplace
  cases hplace with
  | done =>
    constructor
    · have hlen := h.window t hr 0
      rwa [hinv.counts.length, if_pos hn] at hlen
    · intro hl
      have hpolled := hinv.counts.polled
      rw [Finset.sum_congr rfl fun i _ => hinv.counts.polled_of_drained hall (h.drained t hr hd),
        ← Finset.sum_mul, sum_all, Nat.add_zero] at hpolled
      have hprod : 0 < c.numOfQps * c.lists := Nat.mul_pos hn hl
      exact Nat.eq_of_mul_eq_mul_left hprod (hpolled.trans (Nat.mul_one _).symm)

end WarmConfig

namespace CoreParameters

variable {c : CoreParameters}

/-- The steps behind the rule for post lists never raise the CQ moderation. -/
theorem cqMod_le_of_postList (hp : 1 ≤ c.postList.toNat) (h : c.cqMod ≤ c.postList.toNat) :
    c.forceDuration.forceMacFwd.forceMcg.forceInfinitely.forceSrd.cqMod ≤ c.postList.toNat := by
  have hmac : c.forceDuration.forceMacFwd.cqMod ≤ c.cqMod := by
    unfold forceMacFwd forceDuration
    dsimp only
    split
    next => split <;> omega
    next => exact le_refl _
  unfold forceSrd
  split
  next => exact hp
  next => exact hmac.trans h

/-- The parameters behind the rule for post lists. -/
def forcedList (c : CoreParameters) : CoreParameters :=
  c.forceDepths.limitCqMod.clampCqMod.forceSize.deriveGeometry.forceTransport
    |>.forceDualport.forcePostList

/-- The rule for post lists leaves a list of several requests that the CQ moderation divides. -/
theorem forcedList_cqMod_dvd (hp : 1 < c.postList) (hl : c.listTest = true)
    (hq : c.reqCqMod = true → c.postList.toNat % c.forceDepths.limitCqMod.clampCqMod.cqMod = 0) :
    c.forcedList.postList = c.postList ∧ c.forcedList.cqMod ∣ c.postList.toNat := by
  obtain ⟨-, ht, -, hpl, -, -, hr⟩ := clampCqMod_kept c
  unfold forcedList
  generalize c.forceDepths.limitCqMod.clampCqMod = s at ht hpl hr hq ⊢
  obtain ⟨-, ht', -, hpl', -, -, hr', hcq⟩ := forceTransport_kept s
  generalize s.forceSize.deriveGeometry.forceTransport = e at ht' hpl' hr' hcq ⊢
  refine ⟨hpl'.trans hpl, ?_⟩
  unfold forcePostList
  dsimp only
  split
  next =>
    show e.postList.toNat ∣ c.postList.toNat
    rw [hpl', hpl]
  next hn =>
    have htest : e.forceDualport.listTest = true := by
      show (decide (e.tst = .bw) || decide (e.tst = .latByBw)) = true
      rw [ht', ht]
      exact hl
    have hlt : 1 < e.forceDualport.postList := by
      show 1 < e.postList
      rw [hpl', hpl]
      exact hp
    have hreq : e.reqCqMod = true := by
      by_contra hne
      exact hn ⟨hlt, htest, hne⟩
    rw [hr', hr] at hreq
    show e.cqMod ∣ c.postList.toNat
    rw [hcq]
    exact Nat.dvd_of_mod_eq_zero (hq hreq)

/-- A post list of several requests is no shorter than the CQ moderation. -/
theorem coreDependecies_cqMod_le (hp : 1 < c.postList) (hl : c.listTest = true)
    (hq : c.reqCqMod = true → c.postList.toNat % c.forceDepths.limitCqMod.clampCqMod.cqMod = 0) :
    c.coreDependecies.cqMod ≤ c.postList.toNat := by
  obtain ⟨hlist, hdvd⟩ := forcedList_cqMod_dvd hp hl hq
  have hle := Nat.le_of_dvd (by omega) hdvd
  have hcore : c.coreDependecies.cqMod =
      c.forcedList.forceDuration.forceMacFwd.forceMcg.forceInfinitely.forceSrd.cqMod := rfl
  rw [hcore]
  rw [← hlist] at hle ⊢
  exact cqMod_le_of_postList (by omega) hle

end CoreParameters

section Accepted

variable {b : Build} {prog : Program} {other : OtherParameters} {servername inlined : Bool}
  {args : List Opt} {d : PerftestParameters}

theorem parser_cqMod_le (h : parser b prog other servername args = .ok d) (hp : 1 < d.postList) :
    d.cqMod ≤ d.postList.toNat := by
  obtain ⟨p, -, hf⟩ := bind_eq_ok h
  have hcore := forceDependecies_core hf
  rw [hcore, CoreParameters.coreDependecies_postList] at hp ⊢
  obtain ⟨-, -, hlist⟩ := forceDependecies_lists hf
  obtain ⟨htest, -, hmod⟩ := hlist hp
  exact CoreParameters.coreDependecies_cqMod_le hp htest hmod

theorem warmConfig_listFlags (h : d.postList = 1) :
    ((d.warmConfig inlined).listFlags 0).signaled = true := by
  unfold WarmConfig.listFlags
  split
  next => rw [Function.update_self]
  next hn =>
    have hone : (d.warmConfig inlined).postList = 1 := h
    by_contra hs
    exact hn ⟨hone, hs⟩

/-- A single request is always signaled. -/
theorem warmConfig_signals_single (h : d.postList = 1) : (d.warmConfig inlined).signals = 1 := by
  have hone : (d.warmConfig inlined).postList.toNat = 1 := by
    show d.postList.toNat = 1
    rw [h, Int.toNat_one]
  rw [WarmConfig.signals, hone, List.range_one, List.countP_singleton,
    warmConfig_listFlags h, if_pos rfl]

theorem warmConfig_signals_list (h : parser b prog other servername args = .ok d)
    (hp : 1 < d.postList) : (d.warmConfig inlined).signals = d.postList.toNat / d.cqMod := by
  have hv : d.dataValidation = false := by
    by_contra hv
    have := parser_dataValidation h (by simpa using hv)
    omega
  have hflags : (d.warmConfig inlined).listFlags = (d.warmConfig inlined).sendFlags := by
    have hne : ¬ (d.warmConfig inlined).postList = 1 := by
      show ¬ d.postList = 1
      omega
    rw [WarmConfig.listFlags, if_neg fun hc => hne hc.1]
  rw [WarmConfig.signals, hflags, ← Cyclic.countP_ends (parser_cqMod_pos h)]
  refine List.countP_congr fun j _ => ?_
  show (d.dataValidation || decide ((j + 1) % d.cqMod = 0)) = true ↔ _
  rw [hv, Bool.false_or]

/-- What is left of a warm-up depends on the post list: without one nothing is left, and a longer
one must fit the send queue and leave one completion. -/
theorem performWarmUp_clean_iff (h : parser b prog other servername args = .ok d) :
    (d.warmConfig inlined).WarmUpClean ↔
      d.postList ≤ 1 ∨ d.postList ≤ d.txDepth ∧ d.postList.toNat / d.cqMod = 1 := by
  obtain ⟨c, hc, hcore⟩ := parser_inRange h
  have hpos := CoreParameters.coreDependecies_depthsPos hc
  rw [← hcore] at hpos
  have ht : 0 < (d.warmConfig inlined).txDepth := hpos.tx_pos
  have hn : 0 < (d.warmConfig inlined).numOfQps := by
    show 0 < d.sendQps
    rw [CoreParameters.sendQps_eq]
    exact hpos.qps_pos
  have hlist : (d.warmConfig inlined).postList = d.postList := rfl
  rcases lt_trichotomy d.postList 1 with hlt | heq | hgt
  · have hl : (d.warmConfig inlined).lists = 0 := by
      rw [WarmConfig.lists, hlist, if_neg (by omega), if_neg (by omega)]
    refine ⟨fun _ => .inl (by omega), fun _ => WarmConfig.clean_of_single ht (fun h0 => ?_) ?_⟩
    · omega
    · rw [hl, Nat.zero_mul]
      exact Nat.zero_le _
  · have hl : (d.warmConfig inlined).lists = (d.warmConfig inlined).txDepth := by
      rw [WarmConfig.lists, hlist, if_pos heq]
    refine ⟨fun _ => .inl (by omega), fun _ => WarmConfig.clean_of_single ht
      (fun _ => warmConfig_signals_single heq) ?_⟩
    rw [hl, hlist, heq, Int.toNat_one, Nat.mul_one]
  · have hl : (d.warmConfig inlined).lists = 1 := by
      rw [WarmConfig.lists, hlist, if_neg (by omega), if_pos hgt]
    have hsig : (d.warmConfig inlined).signals = d.postList.toNat / d.cqMod :=
      warmConfig_signals_list h hgt
    have hle := parser_cqMod_le h hgt
    have hfit : (d.warmConfig inlined).lists * (d.warmConfig inlined).postList.toNat ≤
        (d.warmConfig inlined).txDepth ↔ d.postList ≤ d.txDepth := by
      rw [hl, Nat.one_mul, hlist]
      show d.postList.toNat ≤ d.txDepth ↔ _
      omega
    constructor
    · intro hclean
      obtain ⟨hw, hs⟩ := WarmConfig.single_of_clean ht hn
        (fun _ => by rw [hsig]; exact Nat.div_pos hle (parser_cqMod_pos h)) hclean
      refine .inr ⟨hfit.mp hw, ?_⟩
      rw [← hsig]
      exact hs (by rw [hl]; exact Nat.one_pos)
    · rintro (h1 | ⟨h1, h2⟩)
      · omega
      · exact WarmConfig.clean_of_single ht (fun _ => hsig.trans h2) (hfit.mpr h1)

end Accepted

/-- The client of `ib_write_bw`. -/
def writeBwClient (args : List Opt) : Except String PerftestParameters :=
  parser usualBuild ⟨.write, .bw, false⟩ {} true args

theorem performWarmUp_writeBw :
    ∃ d, writeBwClient [.postList 4] = .ok d ∧ (d.warmConfig false).WarmUpClean := by
  obtain ⟨d, hd, hp⟩ := exists_of_toOption_any (x := writeBwClient [.postList 4])
    (p := fun d => decide (d.postList = 4) && decide (d.txDepth = 128) && decide (d.cqMod = 4))
    (by decide +kernel)
  simp only [Bool.and_eq_true, decide_eq_true_eq] at hp
  obtain ⟨⟨hl, ht⟩, hq⟩ := hp
  refine ⟨d, hd, (performWarmUp_clean_iff hd).mpr (.inr ⟨?_, ?_⟩)⟩
  · rw [hl, ht]
    decide
  · rw [hl, hq]
    rfl

/-- With two completions in a list the second one stays behind. -/
theorem performWarmUp_leaves_completion :
    ¬ ∀ d, writeBwClient [.postList 4, .cqMod 2] = .ok d → (d.warmConfig false).WarmUpClean := by
  intro h
  obtain ⟨d, hd, hp⟩ := exists_of_toOption_any (x := writeBwClient [.postList 4, .cqMod 2])
    (p := fun d => decide (d.postList = 4) && decide (d.txDepth = 128) && decide (d.cqMod = 2) &&
      decide (d.numOfQps = 1))
    (by decide +kernel)
  simp only [Bool.and_eq_true, decide_eq_true_eq] at hp
  obtain ⟨⟨⟨hl, ht⟩, hq⟩, hn⟩ := hp
  have hsig : (d.warmConfig false).signals = d.postList.toNat / d.cqMod :=
    warmConfig_signals_list hd (by omega)
  rw [hl, hq] at hsig
  have hlists : (d.warmConfig false).lists = 1 := by
    show (if d.postList = 1 then d.txDepth else if 1 < d.postList then 1 else 0) = 1
    rw [hl]
    rfl
  have ht' : 0 < (d.warmConfig false).txDepth := by
    show 0 < d.txDepth
    omega
  have hn' : 0 < (d.warmConfig false).numOfQps := by
    show 0 < d.sendQps
    rw [CoreParameters.sendQps_eq]
    omega
  have hone := (WarmConfig.single_of_clean ht' hn' (fun _ => by rw [hsig]; decide) (h d hd)).2
    (by rw [hlists]; decide)
  rw [hsig] at hone
  exact absurd hone (by decide)

end Perftest
