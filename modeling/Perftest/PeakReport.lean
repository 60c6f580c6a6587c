import Perftest.Lib.ForLoop
import Perftest.TimedSend
import Perftest.ValidatedRuns
import Perftest.WarmUpRuns

namespace Perftest

open CMachine WorkQueue SendConfig Transition Checked

/-- The pairs of a post and a completion that `print_report_bw` compares. -/
def SendConfig.reportPairs (c : SendConfig) : List (Nat × Nat) :=
  (ForLoop.upTo c.postList (c.iters * c.numOfQps) 0).flatMap fun i =>
    (ForLoop.upTo c.cqMod (c.iters * c.numOfQps) (roundUp (i + 1) c.cqMod - 1) ++
      if c.iters * c.numOfQps % c.cqMod ≠ 0 then [c.iters * c.numOfQps - 1] else []).map (i, ·)

/-- The time for each request from a post to a completion. -/
def timePerRequest (tposted tcompleted : Nat → UInt64) (p : Nat × Nat) : Nat :=
  (tcompleted p.2 - tposted p.1).toNat / (p.2 - p.1 + 1)

/-- `opt_delta` in `print_report_bw`. -/
def SendConfig.optDelta (c : SendConfig) (tposted tcompleted : Nat → UInt64) : Nat :=
  c.reportPairs.foldl
    (fun best p => if timePerRequest tposted tcompleted p < best then timePerRequest tposted tcompleted p
      else best)
    (tcompleted 0 - tposted 0).toNat

/-- What is in an array behind a run, with `old` in the cells that it has not written. -/
def contents (a : Nat → Option UInt64) (old : Nat → UInt64) (k : Nat) : UInt64 := (a k).getD (old k)

/-- The report reads what the run wrote, compares all posts with all later completions, and finds
the least time. -/
structure PeakReported (c : SendConfig) (s : TimedState) (old old' : Nat → UInt64) : Prop where
  first : (s.tposted 0).isSome ∧ (s.tcompleted 0).isSome
  written : ∀ p ∈ c.reportPairs, (s.tposted p.1).isSome ∧ (s.tcompleted p.2).isSome
  considered : ∀ i j, (s.tposted i).isSome → (s.tcompleted j).isSome → i ≤ j → (i, j) ∈ c.reportPairs
  least : IsLeast {t | ∃ i j, (s.tposted i).isSome ∧ (s.tcompleted j).isSome ∧ i ≤ j ∧
      timePerRequest (contents s.tposted old) (contents s.tcompleted old') (i, j) = t}
    (c.optDelta (contents s.tposted old) (contents s.tcompleted old'))

namespace SendLoop

variable {L : SendLoop} {s : TimedState}

theorem fill_one (hs : L.Sound) (ht : L.testType = .iterations) (hm : L.cqMod = 1) (k : Nat) :
    L.fill k = 1 := by
  rw [fill, if_neg, hm]
  rintro ⟨hf, -⟩
  rw [hs.fillCount_iff ht, hm, Nat.mod_one] at hf
  exact hf rfl

/-- Where every request is signaled, the cells written to `tcompleted` are those below the number of
completions. -/
theorem TimedReachable.completed (hs : L.Sound) (hf : L.FlagsOk 0 L.initSignaled)
    (ht : L.testType = .iterations) (hm : L.cqMod = 1) (h : L.TimedReachable s) (k : Nat) :
    (s.tcompleted k).isSome ↔ k < s.totccnt := by
  suffices hall : L.Reachable s.toSendState ∧ ∀ k, (s.tcompleted k).isSome ↔ k < s.totccnt from
    hall.2 k
  refine Transition.Reachable.invariant (P := fun s : TimedState =>
    L.Reachable s.toSendState ∧ ∀ k, (s.tcompleted k).isSome ↔ k < s.totccnt)
    (fun s hi => ⟨Reachable.of_init hi.1, fun k => ?_⟩) (fun s t hk hst => ?_) h
  · obtain ⟨⟨hcnt, -⟩, -, hnone⟩ := hi
    rw [hnone, hcnt]
    simp [init]
  · obtain ⟨hr, hk⟩ := hk
    obtain ⟨⟨a, now⟩, ha⟩ := hst
    obtain ⟨ha, -, hcomp⟩ := timedAct_cases ha
    have hr' : L.Reachable t.toSendState := hr.tail ⟨a, ha⟩
    refine ⟨hr', fun k => ?_⟩
    rw [hcomp]
    rcases act_counters ht ha with ⟨rfl, q, -, -, hcnt⟩ | ⟨rfl, q, rest, -, hcnt⟩ |
      ⟨-, hne, -, -, -, hcc⟩
    · have hcc : t.totccnt = s.totccnt := by
        rw [hcnt, postSend]
      rw [if_neg (by decide), hcc, hk]
    · have hcc : t.totccnt = s.totccnt + 1 := by
        rw [hcnt, takeCompletion, fill_one hs ht hm]
      have hle := (SendInv.of_reachable hs hf hr').totccnt_le hs ht
      rw [if_pos rfl, recordedAt_of_le (by omega) hle, hcc, Nat.add_sub_cancel]
      by_cases he : k = s.totccnt
      · rw [he, Function.update_self]
        simp
      · rw [Function.update_of_ne he, hk]
        omega
    · rw [if_neg hne, hcc, hk]

/-- With a CQ moderation the first completion stands for several requests, so that the first cell of
`tcompleted` stays unwritten. -/
theorem TimedReachable.first_unwritten (hs : L.Sound) (hf : L.FlagsOk 0 L.initSignaled)
    (ht : L.testType = .iterations) (hm : 1 < L.cqMod) (hi : 2 ≤ L.iters)
    (h : L.TimedReachable s) : s.tcompleted 0 = none := by
  suffices hall : L.Reachable s.toSendState ∧ (s.totccnt = 0 ∨ 2 ≤ s.totccnt) ∧
    s.tcompleted 0 = none from hall.2.2
  refine Transition.Reachable.invariant (P := fun s : TimedState =>
    L.Reachable s.toSendState ∧ (s.totccnt = 0 ∨ 2 ≤ s.totccnt) ∧ s.tcompleted 0 = none)
    (fun s hi => ⟨Reachable.of_init hi.1, .inl ?_, hi.2.2 0⟩) (fun s t hk hst => ?_) h
  · rw [hi.1.1]
    rfl
  · obtain ⟨hr, hcc, hnone⟩ := hk
    obtain ⟨⟨a, now⟩, ha⟩ := hst
    obtain ⟨ha, -, hcomp⟩ := timedAct_cases ha
    have hr' : L.Reachable t.toSendState := hr.tail ⟨a, ha⟩
    refine ⟨hr', ?_⟩
    rw [hcomp]
    rcases act_counters ht ha with ⟨rfl, q, -, -, hcnt⟩ | ⟨rfl, q, rest, hcq, hcnt⟩ |
      ⟨-, hne, -, -, -, he⟩
    · have he : t.totccnt = s.totccnt := by
        rw [hcnt, postSend]
      rw [if_neg (by decide), he]
      exact ⟨hcc, hnone⟩
    · have hinv := SendInv.of_reachable hs hf hr
      have hle := (SendInv.of_reachable hs hf hr').totccnt_le hs ht
      have hq := hinv.lt_of_pending hs hcq
      have he : t.totccnt = s.totccnt + L.fill (s.ccnt q) := by
        rw [hcnt, takeCompletion]
      have htwo : 2 ≤ t.totccnt := by
        rcases hcc with hz | hge
        · have hqz : s.ccnt q = 0 := by
            have hsum := hinv.totccnt.symm.trans hz
            exact Finset.sum_eq_zero_iff.mp hsum q (Finset.mem_range.mpr hq)
          rw [he, hz, hqz, fill]
          split <;> omega
        · omega
      rw [if_pos rfl, recordedAt_of_le (by omega) hle, Function.update_of_ne (by omega)]
      exact ⟨.inr htwo, hnone⟩
    · rw [if_neg hne, he]
      exact ⟨hcc, hnone⟩

end SendLoop

/-- Without CQ moderation the report compares each post with all later completions. -/
theorem mem_reportPairs {c : SendConfig} (hp : c.postList = 1) (hm : c.cqMod = 1) {i j : Nat} :
    (i, j) ∈ c.reportPairs ↔ i ≤ j ∧ j < c.iters * c.numOfQps := by
  have hround : roundUp (i + 1) 1 - 1 = i := by
    rw [roundUp, if_pos (Nat.mod_one _)]
    exact Nat.add_sub_cancel _ _
  simp only [SendConfig.reportPairs, hp, hm, Nat.mod_one, ne_eq, not_true_eq_false, if_false,
    List.append_nil, List.mem_flatMap, List.mem_map, Prod.mk.injEq]
  constructor
  · rintro ⟨i', hi, j', hj, rfl, rfl⟩
    rw [hround, ForLoop.mem_upTo Nat.one_pos] at hj
    exact ⟨hj.1, hj.2.1⟩
  · rintro ⟨hle, hlt⟩
    refine ⟨i, (ForLoop.mem_upTo Nat.one_pos).mpr ⟨Nat.zero_le _, by omega, one_dvd _⟩, j, ?_, rfl,
      rfl⟩
    rw [hround]
    exact (ForLoop.mem_upTo Nat.one_pos).mpr ⟨hle, hlt, one_dvd _⟩

/-- The seed of the search is its first pair, so the result is the least time of the pairs. -/
theorem optDelta_isLeast {c : SendConfig} (tposted tcompleted : Nat → UInt64)
    (h0 : (0, 0) ∈ c.reportPairs) :
    IsLeast {t | ∃ p ∈ c.reportPairs, timePerRequest tposted tcompleted p = t}
      (c.optDelta tposted tcompleted) := by
  have hseed : (tcompleted 0 - tposted 0).toNat = timePerRequest tposted tcompleted (0, 0) := by
    rw [timePerRequest, Nat.sub_self, Nat.div_one]
  have hleast := ForLoop.isLeast_foldl (timePerRequest tposted tcompleted) c.reportPairs
    (tcompleted 0 - tposted 0).toNat
  have hmem : (tcompleted 0 - tposted 0).toNat ∈
      {t | ∃ p ∈ c.reportPairs, timePerRequest tposted tcompleted p = t} := ⟨(0, 0), h0, hseed.symm⟩
  rw [Set.insert_eq_of_mem hmem] at hleast
  exact hleast

section Accepted

variable {b : Build} {prog : Program} {other : OtherParameters} {servername : Bool}
  {args : List Opt} {d : PerftestParameters}

theorem parser_txDepth_le (h : parser b prog other servername args = .ok d)
    (ht : d.testType = .iterations) : d.txDepth ≤ d.iters := by
  obtain ⟨c, -, hcore⟩ := parser_inRange h
  rw [hcore] at ht ⊢
  obtain ⟨hinf, htype, hiters⟩ := coreDependecies_iterations ht
  rw [CoreParameters.coreDependecies_txDepth, hiters, CoreParameters.clampedTxDepth,
    CoreParameters.boundedRun]
  simp only [hinf, htype, ne_eq, not_false_eq_true, decide_true, Bool.true_and, decide_eq_true_eq]
  split <;> omega

/-- The peak of an ITERATIONS run with single posts is the least time exactly without CQ moderation:
the search starts from the first cell of `tcompleted`. -/
theorem printReportBw_peak_iff (h : parser b prog other servername args = .ok d)
    (ht : d.testType = .iterations) (hp : d.postList = 1) {s : TimedState}
    (hr : (runIterBw d.sendConfig).TimedReachable s) (hd : s.pc = .done)
    (old old' : Nat → UInt64) : PeakReported d.sendConfig s old old' ↔ d.cqMod = 1 := by
  have hi : 5 ≤ d.iters := (parser_lists h ht).1
  obtain ⟨c, hc, hcore⟩ := parser_inRange h
  have hs := parser_sendConfig_sound h hp
  have hf : d.sendConfig.FlagsOk 0 (runIterBw d.sendConfig).initSignaled :=
    FlagsOk.init hs fun _ => parser_txDepth_le h ht
  have hone : d.sendConfig.postList = 1 := by
    rw [CoreParameters.sendConfig, hp, Int.toNat_one]
  have hn : 1 ≤ d.numOfQps := by
    rw [hcore]
    exact (CoreParameters.coreDependecies_depthsPos hc).qps_pos
  have htot : (runIterBw d.sendConfig).totIters = d.iters * d.numOfQps := if_pos ht
  constructor
  · intro hpeak
    by_contra hne
    have hm : 1 < d.cqMod := by
      have := hs.cqMod_pos
      show 1 < d.sendConfig.cqMod
      have : d.sendConfig.cqMod = d.cqMod := rfl
      omega
    have hnone := hr.first_unwritten (L := runIterBw d.sendConfig) hs hf ht hm (by
      show 2 ≤ d.iters
      omega)
    have hfirst := hpeak.first.2
    rw [hnone] at hfirst
    cases hfirst
  · intro hm
    obtain ⟨hsc, hcc⟩ := SendLoop.totals_of_done hr.untimed hd
    have hinv := SendInv.of_reachable hs hf hr.untimed
    have hsc : s.totscnt = d.iters * d.numOfQps :=
      le_antisymm ((hinv.totscnt_le ht).trans_eq htot) (htot.symm.trans_le hsc)
    have hcc : s.totccnt = d.iters * d.numOfQps :=
      le_antisymm ((hinv.totccnt_le hs ht).trans_eq htot) (htot.symm.trans_le hcc)
    have hposted : ∀ k, (s.tposted k).isSome ↔ k < d.iters * d.numOfQps := fun k =>
      hsc ▸ hr.posted ht hone k
    have hcompleted : ∀ k, (s.tcompleted k).isSome ↔ k < d.iters * d.numOfQps := fun k =>
      hcc ▸ hr.completed hs hf ht hm k
    have hpairs : ∀ i j, (i, j) ∈ d.sendConfig.reportPairs ↔ i ≤ j ∧ j < d.iters * d.numOfQps :=
      fun i j => mem_reportPairs hone hm
    have hpos : 0 < d.iters * d.numOfQps := Nat.mul_pos (by omega) hn
    refine ⟨⟨(hposted 0).mpr hpos, (hcompleted 0).mpr hpos⟩, fun p hp => ?_,
      fun i j _ hj hle => (hpairs i j).mpr ⟨hle, (hcompleted j).mp hj⟩, ?_⟩
    · obtain ⟨hle, hlt⟩ := (hpairs p.1 p.2).mp hp
      exact ⟨(hposted p.1).mpr (by omega), (hcompleted p.2).mpr hlt⟩
    · have hleast := optDelta_isLeast (contents s.tposted old) (contents s.tcompleted old')
        ((hpairs 0 0).mpr ⟨le_refl _, hpos⟩)
      convert hleast using 1
      ext t
      constructor
      · rintro ⟨i, j, -, hj, hle, rfl⟩
        exact ⟨(i, j), (hpairs i j).mpr ⟨hle, (hcompleted j).mp hj⟩, rfl⟩
      · rintro ⟨⟨i, j⟩, hp, rfl⟩
        obtain ⟨hle, hlt⟩ := (hpairs i j).mp hp
        exact ⟨i, j, (hposted i).mpr (by omega), (hcompleted j).mpr hlt, hle, rfl⟩

/-- The counters of the search are of type `int`, which is wide enough: longer runs than those of
20000 iterations do without a peak. -/
theorem parser_peak_lt (h : parser b prog other servername args = .ok d) (hb : d.tst = .bw)
    (ht : d.testType = .iterations) (hp : d.postList = 1) (hn : d.noPeak = false) :
    d.iters * d.numOfQps + d.cqMod < 2 ^ 31 := by
  have htx := parser_txDepth_le h ht
  obtain ⟨c, hc, hcore⟩ := parser_inRange h
  have hq : d.numOfQps ≤ 32768 := by
    have := hc.qps_le
    rw [hcore, CoreParameters.coreDependecies_numOfQps]
    split <;> omega
  have hcq : d.cqMod ≤ d.txDepth := by
    rw [hcore] at hp ⊢
    rw [CoreParameters.coreDependecies_postList] at hp
    have := CoreParameters.clampedTxDepth_pos hc
    exact (CoreParameters.coreDependecies_depthsFit hc (by omega)).cq_le
  have hi : d.iters ≤ 20000 := by
    obtain ⟨p, -, hf⟩ := bind_eq_ok h
    obtain ⟨-, rfl⟩ := runAll_eq_ok_iff.mp hf
    have hsplit : updates ((dependecies b).map Prod.fst) p =
        updates (((dependecies b).drop 23).map Prod.fst)
          (updates (((dependecies b).take 23).map Prod.fst) p) := by
      rw [← updates_append, ← List.map_append, List.take_append_drop]
    rw [hsplit] at ht hb hn ⊢
    generalize updates (((dependecies b).take 23).map Prod.fst) p = s at ht hb hn ⊢
    have hkept : (updates (((dependecies b).drop 23).map Prod.fst) s).noPeak =
        (marginStage.update s).noPeak := rfl
    rw [hkept] at hn
    have hnp : (s.noPeak || (s.testType = .iterations && 20000 < s.iters && s.tst = .bw)) = false :=
      hn
    have htt : s.testType = .iterations := ht
    have hbw : s.tst = .bw := hb
    show s.iters ≤ 20000
    simp only [htt, hbw, decide_true, Bool.true_and, Bool.and_true, Bool.or_eq_false_iff,
      decide_eq_false_iff_not] at hnp
    omega
  have hmul := Nat.mul_le_mul hi hq
  omega

/-- An accepted run with single posts can end. -/
theorem exists_timed_end (h : parser b prog other servername args = .ok d)
    (ht : d.testType = .iterations) (hp : d.postList = 1) :
    ∃ s, (runIterBw d.sendConfig).TimedReachable s ∧ s.pc = .done := by
  obtain ⟨c, hc, hcore⟩ := parser_inRange h
  have htx : 1 ≤ d.txDepth := by
    rw [hcore]
    exact (CoreParameters.coreDependecies_depthsPos hc).tx_pos
  have hs := parser_sendConfig_sound h hp
  have hlist : (runIterBw d.sendConfig).postList ≤ (runIterBw d.sendConfig).txDepth := by
    show d.postList.toNat ≤ d.txDepth
    rw [hp]
    exact htx
  obtain ⟨u, hr, hd⟩ := SendLoop.exists_done (L := runIterBw d.sendConfig)
    (s := ⟨(runIterBw d.sendConfig).init, .startState, .test⟩) hs
    (FlagsOk.init hs fun _ => parser_txDepth_le h ht) ht hlist (Reachable.of_init ⟨rfl, rfl⟩)
  obtain ⟨s, hs, rfl⟩ := SendLoop.Reachable.timed hr 0
  exact ⟨s, hs, hd⟩

end Accepted

theorem printReportBw_peak_single : ∃ d s, writeBwClient [.cqMod 1] = .ok d ∧ d.noPeak = false ∧
    (runIterBw d.sendConfig).TimedReachable s ∧ s.pc = .done ∧
      PeakReported d.sendConfig s (fun _ => 0) fun _ => 0 := by
  obtain ⟨d, hd, hp⟩ := exists_of_toOption_any (x := writeBwClient [.cqMod 1])
    (p := fun d => decide (d.testType = .iterations) && decide (d.postList = 1) &&
      decide (d.cqMod = 1) && !d.noPeak) (by decide +kernel)
  simp only [Bool.and_eq_true, decide_eq_true_eq, Bool.not_eq_true'] at hp
  obtain ⟨⟨⟨ht, hl⟩, hm⟩, hn⟩ := hp
  obtain ⟨s, hr, hdone⟩ := exists_timed_end hd ht hl
  exact ⟨d, s, hd, hn, hr, hdone, (printReportBw_peak_iff hd ht hl hr hdone _ _).mpr hm⟩

/-- With the CQ moderation of 100 that small messages start with, the first cell stays unwritten. -/
theorem printReportBw_reads_unwritten :
    ¬ ∀ d s, writeBwClient [.size 2 .none] = .ok d →
      (runIterBw d.sendConfig).TimedReachable s → s.pc = .done →
        PeakReported d.sendConfig s (fun _ => 0) fun _ => 0 := by
  intro h
  obtain ⟨d, hd, hp⟩ := exists_of_toOption_any (x := writeBwClient [.size 2 .none])
    (p := fun d => decide (d.testType = .iterations) && decide (d.postList = 1) &&
      decide (d.cqMod = 100)) (by decide +kernel)
  simp only [Bool.and_eq_true, decide_eq_true_eq] at hp
  obtain ⟨⟨ht, hl⟩, hm⟩ := hp
  obtain ⟨s, hr, hdone⟩ := exists_timed_end hd ht hl
  have hi : 5 ≤ d.iters := (parser_lists hd ht).1
  have hs := parser_sendConfig_sound hd hl
  have hnone := hr.first_unwritten (L := runIterBw d.sendConfig) hs
    (FlagsOk.init hs fun _ => parser_txDepth_le hd ht) ht (by
      show 1 < d.cqMod
      omega) (by
      show 2 ≤ d.iters
      omega)
  have hfirst := (h d s hd hr hdone).first.2
  rw [hnone] at hfirst
  cases hfirst

end Perftest
