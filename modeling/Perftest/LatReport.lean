import Perftest.TimeArrays

namespace Perftest

open CMachine Transition Checked

def LAT_MEASURE_TAIL : Int := 2

/-- The least integer that is not below `a / b`. -/
def ceilQuot (a b : Int) : Int := -(-a / b)

/-- What `print_report_lat` reports, in cycles; `averaged` are the samples that the average and the
deviation are taken of. -/
structure LatReport where
  min : UInt64
  max : UInt64
  typical : UInt64
  p99 : UInt64
  p999 : UInt64
  averaged : List UInt64
deriving DecidableEq, Repr

/-- The program ends without a report, or prints one. -/
inductive LatOutcome where
  | exit
  | report (delta : List UInt64) (r : LatReport)

/-- An element of `delta`; other indices are outside of the array. -/
def readDelta (delta : List UInt64) (i : Int) : Option UInt64 :=
  if 0 ≤ i then delta[i.toNat]? else none

def getMedian (n : Int) (delta : List UInt64) : Option UInt64 :=
  if (n - 1).tmod 2 ≠ 0 then do
    let a ← readDelta delta (n.tdiv 2)
    let b ← readDelta delta (n.tdiv 2 - 1)
    some ((a + b) / 2)
  else readDelta delta (n.tdiv 2)

namespace PerftestParameters

variable (d : PerftestParameters) (tposted tcompleted : Nat → UInt64)

/-- `measure_cnt` in front of the cut; a division by zero is undefined. -/
def measureCnt : Option Int :=
  if d.tst = .lat then some (longToInt (d.iters - 1 : Nat))
  else if d.replyEvery = 0 then none
  else some (longToInt (d.iters / d.replyEvery : Nat))

def latSample (i : Nat) : UInt64 :=
  if d.tst = .lat then tposted (i + 1) - tposted i else tcompleted i - tposted i

/-- The samples behind `qsort`. -/
def sortedDelta (cnt : Nat) : List UInt64 :=
  ((List.range cnt).map (d.latSample tposted tcompleted)).mergeSort

/-- `print_report_lat`; a negative count is too large a size for `malloc`. -/
def printReportLat : Option LatOutcome := do
  let cnt ← d.measureCnt
  if cnt < 0 then some .exit
  else if d.tst = .lat ∨ d.tst = .latByBw then
    let delta := d.sortedDelta tposted tcompleted cnt.toNat
    let n := cnt - LAT_MEASURE_TAIL
    let typical ← getMedian n delta
    let averaged ← (List.range n.toNat).mapM fun i => readDelta delta (i : Nat)
    let min ← readDelta delta 0
    let max ← readDelta delta n
    let p99 ← readDelta delta (ceilQuot (n * 99) 100)
    let p999 ← readDelta delta (ceilQuot (n * 999) 1000)
    some (.report delta ⟨min, max, typical, p99, p999, averaged⟩)
  else some .exit

end PerftestParameters

/-- The values are in order, and the largest is the largest of the samples but the last one. -/
structure LatReport.InOrder (delta : List UInt64) (r : LatReport) : Prop where
  min_le : r.min ≤ r.typical
  typical_le : r.typical ≤ r.max
  min_le_p99 : r.min ≤ r.p99
  p99_le : r.p99 ≤ r.p999
  p999_le : r.p999 ≤ r.max
  max_eq : (delta.take (delta.length - (LAT_MEASURE_TAIL.toNat - 1))).getLast? = some r.max

/-- No index is outside of the samples, and a report is in order. -/
def PerftestParameters.LatReportOk (d : PerftestParameters) (tposted tcompleted : Nat → UInt64) :
    Prop := ∃ o, d.printReportLat tposted tcompleted = some o ∧
  ∀ delta r, o = .report delta r → r.InOrder delta

/-- The samples that are computed are less than half of the range. -/
def PerftestParameters.DifferencesFit (d : PerftestParameters) (tposted tcompleted : Nat → UInt64) :
    Prop := ∀ cnt : Nat, d.measureCnt = some (cnt : Int) →
  ∀ i, i < cnt → (d.latSample tposted tcompleted i).toNat < 2 ^ 63

/-- Three samples at least are left over by the divisor. -/
def PerftestParameters.EnoughSamples (d : PerftestParameters) : Prop :=
  d.tst = .latByBw → 3 ≤ d.iters / d.replyEvery ∧ d.iters / d.replyEvery < 2 ^ 32

section Delta

variable {delta : List UInt64} {n : Nat}

theorem readDelta_of_lt {i : Int} {k : Nat} (hi : i = k) (hk : k < delta.length) :
    readDelta delta i = some delta[k] := by
  rw [readDelta, if_pos (by omega), hi, Int.toNat_natCast, List.getElem?_eq_getElem hk]

theorem readDelta_neg {i : Int} (hi : i < 0) : readDelta delta i = none := if_neg (by omega)

theorem readDelta_of_length_le {i : Int} (hi : (delta.length : Int) ≤ i) :
    readDelta delta i = none := by
  rw [readDelta, if_pos (by omega)]
  exact List.getElem?_eq_none (by omega)

theorem ceilQuot_99 (n : Nat) : ceilQuot ((n : Int) * 99) 100 = ((n * 99 + 99) / 100 : Nat) := by
  unfold ceilQuot
  omega

theorem ceilQuot_999 (n : Nat) :
    ceilQuot ((n : Int) * 999) 1000 = ((n * 999 + 999) / 1000 : Nat) := by
  unfold ceilQuot
  omega

variable (delta) in
theorem averaged_eq_some (hn : n ≤ delta.length) :
    ∃ l, (List.range n).mapM (fun i => readDelta delta (i : Nat)) = some l := by
  induction n with
  | zero => exact ⟨[], rfl⟩
  | succ n ih =>
    obtain ⟨l, hl⟩ := ih (by omega)
    refine ⟨l ++ [delta[n]], ?_⟩
    rw [List.range_succ, List.mapM_append, hl, List.mapM_cons, List.mapM_nil,
      readDelta_of_lt rfl (by omega)]
    rfl

theorem halfSum_between {a b lo hi : UInt64} (hla : lo ≤ a) (hlb : lo ≤ b) (hah : a ≤ hi)
    (hbh : b ≤ hi) (hhi : hi.toNat < 2 ^ 63) : lo ≤ (a + b) / 2 ∧ (a + b) / 2 ≤ hi := by
  rw [UInt64.le_iff_toNat_le] at hla hlb hah hbh
  have htwo : (2 : UInt64).toNat = 2 := rfl
  have hsum : (a + b).toNat = a.toNat + b.toNat := by
    rw [UInt64.toNat_add, Nat.mod_eq_of_lt (by omega)]
  rw [UInt64.le_iff_toNat_le, UInt64.le_iff_toNat_le, UInt64.toNat_div, hsum, htwo]
  omega

/-- The median of `n` sorted samples lies between the first one and the one behind them. -/
theorem getMedian_between (hs : delta.Pairwise (· ≤ ·)) (hb : ∀ x ∈ delta, x.toNat < 2 ^ 63)
    (hn : 1 ≤ n) (hlt : n < delta.length) :
    ∃ m, getMedian n delta = some m ∧ delta[0] ≤ m ∧ m ≤ delta[n] := by
  have hle : ∀ i j (hi : i < delta.length) (hj : j < delta.length), i ≤ j →
      delta[i] ≤ delta[j] := by
    intro i j hi hj hij
    rcases Nat.eq_or_lt_of_le hij with rfl | h
    · exact UInt64.le_refl _
    · exact List.pairwise_iff_getElem.mp hs i j hi hj h
  have hdiv : (n : Int).tdiv 2 = (n / 2 : Nat) := by
    rw [Int.tdiv_eq_ediv_of_nonneg (by omega)]
    omega
  unfold getMedian
  split
  next hodd =>
    rw [Int.tmod_eq_emod_of_nonneg (by omega)] at hodd
    have hprev : (n : Int).tdiv 2 - 1 = (n / 2 - 1 : Nat) := by omega
    refine ⟨(delta[n / 2] + delta[n / 2 - 1]) / 2, ?_, ?_⟩
    · rw [readDelta_of_lt hdiv (by omega), readDelta_of_lt hprev (by omega)]
      rfl
    · exact halfSum_between (hle _ _ _ _ (by omega)) (hle _ _ _ _ (by omega))
        (hle _ _ _ _ (by omega)) (hle _ _ _ _ (by omega)) (hb _ (List.getElem_mem hlt))
  next =>
    exact ⟨delta[n / 2], readDelta_of_lt hdiv (by omega), hle _ _ _ _ (by omega),
      hle _ _ _ _ (by omega)⟩

end Delta

namespace PerftestParameters

variable {d : PerftestParameters} {tposted tcompleted : Nat → UInt64}

variable (d tposted tcompleted) in
theorem sortedDelta_length (cnt : Nat) :
    (d.sortedDelta tposted tcompleted cnt).length = cnt := by
  rw [sortedDelta, List.length_mergeSort, List.length_map, List.length_range]

variable (d tposted tcompleted) in
theorem sortedDelta_pairwise (cnt : Nat) :
    (d.sortedDelta tposted tcompleted cnt).Pairwise (· ≤ ·) := by
  have h := @List.pairwise_mergeSort UInt64 (fun a b => decide (a ≤ b))
    (fun a b c hab hbc => by
      rw [decide_eq_true_eq] at *
      exact UInt64.le_trans hab hbc)
    (fun a b => by
      rw [Bool.or_eq_true, decide_eq_true_eq, decide_eq_true_eq]
      exact UInt64.le_total a b)
    ((List.range cnt).map (d.latSample tposted tcompleted))
  exact h.imp (fun hab => of_decide_eq_true hab)

theorem sortedDelta_lt {cnt : Nat}
    (hb : ∀ i, i < cnt → (d.latSample tposted tcompleted i).toNat < 2 ^ 63) :
    ∀ x ∈ d.sortedDelta tposted tcompleted cnt, x.toNat < 2 ^ 63 := by
  intro x hx
  rw [sortedDelta, List.mem_mergeSort] at hx
  obtain ⟨i, hi, rfl⟩ := List.mem_map.mp hx
  exact hb i (List.mem_range.mp hi)

/-- Three samples are enough for a report in order. -/
theorem latReportOk_of_three {cnt : Nat} (hc : d.measureCnt = some (cnt : Int)) (h3 : 3 ≤ cnt)
    (ht : d.tst = .lat ∨ d.tst = .latByBw)
    (hb : ∀ i, i < cnt → (d.latSample tposted tcompleted i).toNat < 2 ^ 63) :
    d.LatReportOk tposted tcompleted := by
  have hlen := sortedDelta_length d tposted tcompleted cnt
  have hs := sortedDelta_pairwise d tposted tcompleted cnt
  have hlt := sortedDelta_lt hb
  obtain ⟨n, rfl⟩ : ∃ n, cnt = n + 2 := ⟨cnt - 2, by omega⟩
  have hn : ((n + 2 : Nat) : Int) - LAT_MEASURE_TAIL = n := by
    simp only [LAT_MEASURE_TAIL]
    omega
  unfold LatReportOk printReportLat
  rw [hc]
  simp only [Option.bind_eq_bind, Option.bind_some, if_neg (show ¬ ((n + 2 : Nat) : Int) < 0 by omega),
    if_pos ht, hn, Int.toNat_natCast]
  generalize d.sortedDelta tposted tcompleted (n + 2) = delta at hlen hs hlt ⊢
  have hle : ∀ i j (hi : i < delta.length) (hj : j < delta.length), i ≤ j →
      delta[i] ≤ delta[j] := by
    intro i j hi hj hij
    rcases Nat.eq_or_lt_of_le hij with rfl | h
    · exact UInt64.le_refl _
    · exact List.pairwise_iff_getElem.mp hs i j hi hj h
  obtain ⟨m, hm, hm0, hmn⟩ := getMedian_between hs hlt (n := n) (by omega) (by omega)
  obtain ⟨l, hl⟩ := averaged_eq_some delta (n := n) (by omega)
  refine ⟨.report delta ⟨delta[0], delta[n], m, delta[(n * 99 + 99) / 100],
    delta[(n * 999 + 999) / 1000], l⟩, ?_, ?_⟩
  · have h0 : readDelta delta 0 = some delta[0] := readDelta_of_lt (k := 0) rfl (by omega)
    have hn : readDelta delta n = some delta[n] := readDelta_of_lt rfl (by omega)
    have h99 : readDelta delta (ceilQuot (n * 99) 100) = some delta[(n * 99 + 99) / 100] :=
      readDelta_of_lt (ceilQuot_99 n) (by omega)
    have h999 : readDelta delta (ceilQuot (n * 999) 1000) = some delta[(n * 999 + 999) / 1000] :=
      readDelta_of_lt (ceilQuot_999 n) (by omega)
    rw [hm, hl, h0, hn, h99, h999]
    rfl
  · intro delta' r hr
    obtain ⟨rfl, rfl⟩ := LatOutcome.report.inj hr
    refine ⟨hm0, hmn, hle _ _ _ _ (by omega), hle _ _ _ _ (by omega), hle _ _ _ _ (by omega), ?_⟩
    have hcut : delta.length - (LAT_MEASURE_TAIL.toNat - 1) = n + 1 := by
      rw [hlen]
      rfl
    have hidx : (delta.take (n + 1)).length - 1 = n := by
      rw [List.length_take]
      omega
    rw [hcut, List.getLast?_eq_getElem?, hidx, List.getElem?_take_of_lt (by omega)]
    exact List.getElem?_eq_getElem (by omega)

/-- With less than three samples an index in front of the array is read. -/
theorem three_of_latReportOk {cnt : Nat} (hc : d.measureCnt = some (cnt : Int))
    (ht : d.tst = .lat ∨ d.tst = .latByBw) (h : d.LatReportOk tposted tcompleted) : 3 ≤ cnt := by
  obtain ⟨o, ho, -⟩ := h
  by_contra hlt
  unfold printReportLat at ho
  rw [hc] at ho
  simp only [Option.bind_eq_bind, Option.bind_some, if_neg (show ¬ (cnt : Int) < 0 by omega),
    if_pos ht, LAT_MEASURE_TAIL] at ho
  obtain ⟨m, hm, ho⟩ := Option.bind_eq_some_iff.mp ho
  obtain ⟨l, -, ho⟩ := Option.bind_eq_some_iff.mp ho
  obtain ⟨mn, -, ho⟩ := Option.bind_eq_some_iff.mp ho
  obtain ⟨mx, hmx, -⟩ := Option.bind_eq_some_iff.mp ho
  rcases (by omega : cnt = 2 ∨ (cnt : Int) - 2 < 0) with rfl | hneg
  · rw [getMedian, if_pos (by decide)] at hm
    obtain ⟨a, -, hm⟩ := Option.bind_eq_some_iff.mp hm
    obtain ⟨c, hc, -⟩ := Option.bind_eq_some_iff.mp hm
    rw [readDelta_neg (by decide)] at hc
    cases hc
  · rw [readDelta_neg hneg] at hmx
    cases hmx

theorem latReportOk_of_neg {cnt : Int} (hc : d.measureCnt = some cnt) (hneg : cnt < 0) :
    d.LatReportOk tposted tcompleted := by
  refine ⟨.exit, ?_, fun delta r h => LatOutcome.noConfusion h⟩
  rw [printReportLat, hc, Option.bind_eq_bind, Option.bind_some, if_pos hneg]

theorem longToInt_natCast_or {n : Nat} (h : n < 2 ^ 32) :
    (n < 2 ^ 31 ∧ longToInt (n : Int) = n) ∨ (2 ^ 31 ≤ n ∧ longToInt (n : Int) < 0) := by
  rcases Nat.lt_or_ge n (2 ^ 31) with hlt | hge
  · exact .inl ⟨hlt, longToInt_of_range (by omega) (by omega)⟩
  · right
    unfold longToInt
    refine ⟨hge, ?_⟩
    rw [Int.bmod_def]
    split <;> omega

theorem longToInt_two_pow : longToInt ((2 ^ 32 : Nat) : Int) = 0 := by
  unfold longToInt
  exact Int.bmod_self

/-- The count of samples decides about the report. -/
theorem latReportOk_iff_count {n : Nat} (hc : d.measureCnt = some (longToInt (n : Int)))
    (hn : n ≤ 2 ^ 32) (ht : d.tst = .lat ∨ d.tst = .latByBw)
    (hb : d.DifferencesFit tposted tcompleted) :
    d.LatReportOk tposted tcompleted ↔ 3 ≤ n ∧ n < 2 ^ 32 := by
  rcases Nat.eq_or_lt_of_le hn with rfl | hlt
  · have hz : d.measureCnt = some ((0 : Nat) : Int) := by
      rw [hc, longToInt_two_pow]
      rfl
    constructor
    · intro h
      have := three_of_latReportOk hz ht h
      omega
    · intro h
      omega
  · rcases longToInt_natCast_or hlt with ⟨hs, he⟩ | ⟨hs, hneg⟩
    · rw [he] at hc
      constructor
      · intro h
        exact ⟨three_of_latReportOk hc ht h, hlt⟩
      · intro h
        exact latReportOk_of_three hc h.1 ht (hb n hc)
    · constructor
      · intro _
        omega
      · intro _
        exact latReportOk_of_neg hc hneg

section Accepted

variable {b : Build} {prog : Program} {other : OtherParameters} {servername : Bool}
  {args : List Opt}

theorem parser_iters_range (h : parser b prog other servername args = .ok d)
    (ht : d.testType = .iterations) : MIN_ITER ≤ d.iters ∧ d.iters ≤ MAX_ITER := by
  obtain ⟨p, hp, hf⟩ := bind_eq_ok h
  have hr := parsedParams_inRange hp
  have hcore := forceDependecies_core hf
  have hkeep := p.toCoreParameters.coreDependecies_iterations (by rw [← hcore]; exact ht)
  have hi : d.iters = p.iters := by
    rw [show d.iters = d.toCoreParameters.iters from rfl, hcore, hkeep.2]
  rw [hi]
  exact ⟨hr.iters_ge, hr.iters_le⟩

end Accepted

end PerftestParameters

/-- The command line of `raw_ethernet_burst_lat -n 5 -Q 1` with a reply for `k` requests. -/
def fivePings (k : Int) : Except String PerftestParameters :=
  parser usualBuild ⟨.send, .latByBw, true⟩
    { isSourceMac := true, isDestMac := true, rateLimitType := .hwRateLimit } true
    [.client, .iters 5, .replyEvery k, .cqMod 1]

/-- The steps of its run with `n` replies. -/
def fivePingsSteps (n : Nat) : List BurstLoop.Action :=
  [[.test], List.replicate 5 .post, [.endPost], List.replicate n .reply, List.replicate n .takeRecv,
    [.endRecv], List.replicate 5 .takeSend, [.endSend, .endRecv, .endSend, .test]].flatten

def fivePingsFacts (k : Nat) (d : PerftestParameters) : Bool :=
  decide (d.tst = .latByBw) && decide (d.testType = .iterations) && decide (d.iters = 5) &&
    decide (d.replyEvery = k) && decide (d.txDepth = 5) && decide (d.postList = 1) &&
    decide (d.cqMod = 1) && decide (d.burstSize = 5)

theorem fivePings_run {k n : Nat} {d : PerftestParameters} (hd : fivePingsFacts k d = true)
    (hrun : (Transition.run (BurstLoop.act ⟨5, k, 5, 1, 1, 5⟩) (fivePingsSteps n)
      BurstLoop.init).any (fun s => decide (s.pc = .done)) = true) :
    d.tst = .latByBw ∧ d.testType = .iterations ∧ d.iters = 5 ∧ d.replyEvery = k ∧
      ∃ s, d.burstLoop.Reachable s ∧ s.pc = .done := by
  simp only [fivePingsFacts, Bool.and_eq_true, decide_eq_true_eq] at hd
  obtain ⟨⟨⟨⟨⟨⟨⟨h1, h2⟩, h3⟩, h4⟩, h5⟩, h6⟩, h7⟩, h8⟩ := hd
  have hc : d.burstLoop = ⟨5, k, 5, 1, 1, 5⟩ := by
    unfold PerftestParameters.burstLoop
    rw [h3, h4, h5, h6, h7, h8]
    rfl
  obtain ⟨s, hs, hp⟩ := Transition.exists_of_run (· = BurstLoop.init)
    (BurstLoop.act ⟨5, k, 5, 1, 1, 5⟩) _ BurstLoop.init _ rfl hrun
  refine ⟨h1, h2, h3, h4, s, ?_, of_decide_eq_true hp⟩
  rw [hc]
  exact hs

end Perftest
