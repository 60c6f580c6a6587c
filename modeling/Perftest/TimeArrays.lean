import Perftest.BiLoop
import Perftest.BurstTimes
import Perftest.FsRate
import Perftest.PollBatches
import Perftest.TimedSend

namespace Perftest

open CMachine WorkQueue SendConfig Transition Checked

namespace SendConfig

variable {c : SendConfig} {scnt ccnt : Nat → Nat} {totscnt totccnt q f : Nat}

/-- The posts of an ITERATIONS run, whole lists on each QP. -/
structure PostedLists (c : SendConfig) (scnt : Nat → Nat) (totscnt : Nat) : Prop where
  dvd : ∀ q, c.postList ∣ scnt q
  le : ∀ q, scnt q ≤ c.iters
  tot : totscnt = ∑ q ∈ Finset.range c.numOfQps, scnt q

theorem PostedLists.lt (h : c.PostedLists scnt totscnt) (hq : q < c.numOfQps)
    (hlt : scnt q < c.iters) : totscnt < c.iters * c.numOfQps := by
  rw [h.tot]
  calc ∑ q ∈ Finset.range c.numOfQps, scnt q < ∑ _q ∈ Finset.range c.numOfQps, c.iters :=
        Finset.sum_lt_sum (fun i _ => h.le i) ⟨q, Finset.mem_range.mpr hq, hlt⟩
    _ = c.iters * c.numOfQps := by
      rw [Finset.sum_const, Finset.card_range, smul_eq_mul, Nat.mul_comm]

theorem PostedLists.post (h : c.PostedLists scnt totscnt) (hl : c.postList ∣ c.iters ∨ c.postList = 0)
    (hq : q < c.numOfQps) (hlt : scnt q < c.iters) :
    c.PostedLists (Function.update scnt q (scnt q + c.postList)) (totscnt + c.postList) := by
  refine ⟨fun i => ?_, fun i => ?_, ?_⟩
  · by_cases hi : i = q
    · rw [hi, Function.update_self]
      exact Nat.dvd_add (h.dvd q) (dvd_refl _)
    · rw [Function.update_of_ne hi]
      exact h.dvd i
  · by_cases hi : i = q
    · rw [hi, Function.update_self]
      rcases hl with hl | hz
      · obtain ⟨k, hk⟩ := h.dvd q
        obtain ⟨n, hn⟩ := hl
        rw [hk, hn] at hlt ⊢
        rw [← Nat.mul_succ]
        exact Nat.mul_le_mul_left _ (Nat.lt_of_mul_lt_mul_left hlt)
      · rw [hz]
        exact h.le q
    · rw [Function.update_of_ne hi]
      exact h.le i
  · rw [sum_update_add scnt hq, h.tot]

/-- The total counts at least what each QP does, and behind a completion at least one request. -/
theorem counted_take (h : ∀ i, ccnt i ≤ totccnt) (i : Nat) :
    Function.update ccnt q (ccnt q + f) i ≤ totccnt + f := by
  by_cases hi : i = q
  · rw [hi, Function.update_self]
    exact Nat.add_le_add_right (h q) f
  · rw [Function.update_of_ne hi]
    exact Nat.le_add_right_of_le (h i)

theorem one_le_add_fill (hm : 1 ≤ c.cqMod) (hi : 1 ≤ c.iters) (h : ccnt q ≤ totccnt) :
    1 ≤ totccnt + c.fill (ccnt q) := by
  unfold fill
  split <;> omega

end SendConfig

/-- The cell of a total is inside an array for `tot` requests. -/
theorem recorded_lt {tot n size : Nat} (ht : 1 ≤ tot) (hn : 1 ≤ n) (hs : tot ≤ size) :
    (if tot < n then subU64 tot 1 else subU64 n 1) < size := by
  split
  · rw [subU64_of_le ht]
    omega
  · rw [subU64_of_le hn]
    omega

namespace SendLoop

variable (L : SendLoop)

/-- The indices of `tposted` and `tcompleted` that a step of `run_iter_bw` from `s` to `t` uses. -/
def timeIndices (noPeak : Bool) (a : Action) (s t : SendState) : List Nat :=
  if noPeak then []
  else match a with
    | .post => [s.totscnt]
    | .take => [L.recordedAt t.totccnt]
    | _ => []

variable {L}

theorem timeIndices_lt (hl : L.postList ∣ L.iters ∨ L.postList = 0) (hm : 1 ≤ L.cqMod)
    (hi : 1 ≤ L.iters) (hn : 1 ≤ L.numOfQps) (ht : L.testType = .iterations) {s t : SendState}
    {a : Action} (hr : L.Reachable s) (ha : L.act a s = some t) :
    ∀ k ∈ L.timeIndices false a s t, k < L.iters * L.numOfQps := by
  have hinv : L.PostedLists s.scnt s.totscnt ∧ ∀ q, s.ccnt q ≤ s.totccnt := by
    refine Transition.Reachable.invariant
      (P := fun s : SendState => L.PostedLists s.scnt s.totscnt ∧ ∀ q, s.ccnt q ≤ s.totccnt)
      (fun s h0 => ?_) (fun s t h hst => ?_) hr
    · rw [h0.1]
      exact ⟨⟨fun _ => dvd_zero _, fun _ => Nat.zero_le _, by simp [init]⟩, fun _ => le_refl _⟩
    · obtain ⟨hp, hc⟩ := h
      obtain ⟨a, ha⟩ := hst
      rcases act_counters ht ha with ⟨-, q, hq, hlt, he⟩ | ⟨-, q, rest, -, he⟩ |
        ⟨-, -, h1, h2, h3, h4⟩
      · rw [he]
        exact ⟨hp.post hl hq hlt, hc⟩
      · rw [he]
        exact ⟨hp, counted_take hc⟩
      · rw [h1, h2, h3, h4]
        exact ⟨hp, hc⟩
  obtain ⟨hp, hc⟩ := hinv
  intro k hk
  have htot : L.totIters = L.iters * L.numOfQps := if_pos ht
  rcases act_counters ht ha with ⟨rfl, q, hq, hlt, -⟩ | ⟨rfl, q, rest, -, he⟩ | ⟨hp', ht', -⟩
  · rw [List.mem_singleton.mp hk]
    exact hp.lt hq hlt
  · rw [List.mem_singleton.mp hk, he, recordedAt, htot]
    exact recorded_lt (Nat.mul_pos hi hn) (one_le_add_fill hm hi (hc q)) (le_refl _)
  · cases a with
    | post => exact absurd rfl hp'
    | take => exact absurd rfl ht'
    | _ => cases hk

end SendLoop

namespace BiConfig

variable (c : BiConfig)

/-- The index of `tcompleted` that a completion is recorded at. -/
def recordedAt (totccnt : Nat) : Nat :=
  if c.totIters < totccnt then subU64 c.totIters 1 else subU64 totccnt 1

/-- The indices that a step of `run_iter_bi` from `s` to `t` uses; completions of credits are not
recorded. -/
def timeIndices (noPeak : Bool) (a : Action) (s t : BiState) : List Nat :=
  if noPeak then []
  else match a, s.dev.cq with
    | .post, _ => [s.totscnt]
    | .waitPoll, (_, .data) :: _ => [c.recordedAt t.totccnt]
    | .takeSend, (_, .data) :: _ => [c.recordedAt t.totccnt]
    | _, _ => []

variable {c}

theorem consume_counted {s : BiCounters} {q f : Nat} {k : BiCqe} {rest : List (Nat × BiCqe)}
    (hp : c.PostedLists s.scnt s.totscnt) (hc : ∀ q, s.ccnt q ≤ s.totccnt) :
    c.PostedLists (consume f s q k rest).scnt (consume f s q k rest).totscnt ∧
      ∀ q', (consume f s q k rest).ccnt q' ≤ (consume f s q k rest).totccnt := by
  cases k with
  | credit => exact ⟨hp, hc⟩
  | data => exact ⟨hp, counted_take hc⟩

theorem scnt_lt_of_mayPost {s : BiState} {q : Nat} (h : c.mayPost s q = true) :
    s.scnt q < c.iters := by
  simp only [mayPost, Bool.and_eq_true, decide_eq_true_eq] at h
  exact h.1.1.2

theorem counted_of_reachable (hl : c.postList ∣ c.iters ∨ c.postList = 0) {s : BiState}
    (hr : c.Reachable s) :
    c.PostedLists s.scnt s.totscnt ∧ ∀ q, s.ccnt q ≤ s.totccnt := by
  refine Transition.Reachable.invariant
    (P := fun s : BiState => c.PostedLists s.scnt s.totscnt ∧ ∀ q, s.ccnt q ≤ s.totccnt)
    (fun s h0 => ?_) (fun s t h hst => ?_) hr
  · rw [h0]
    exact ⟨⟨fun _ => dvd_zero _, fun _ => Nat.zero_le _, by simp [init]⟩, fun _ => le_refl _⟩
  · obtain ⟨hp, hc⟩ := h
    obtain ⟨a, ha⟩ := hst
    rcases act_counters ha with he | ⟨q, hq, hm, he⟩ | ⟨q, -, he⟩ | ⟨q, k, rest, -, -, he⟩ |
      ⟨q, k, rest, -, he⟩ | ⟨q, r, -, he⟩
    · rw [he]
      exact ⟨hp, hc⟩
    · rw [he]
      exact ⟨hp.post hl hq (scnt_lt_of_mayPost hm), hc⟩
    · rw [he]
      exact ⟨hp, hc⟩
    · rw [he]
      exact consume_counted hp hc
    · rw [he]
      exact consume_counted hp hc
    · rw [he]
      exact ⟨hp, hc⟩

/-- The indices are inside whatever the path of a completion, also where the wait for a credit
takes the last of a QP without the shortened fill. -/
theorem timeIndices_lt (hl : c.postList ∣ c.iters ∨ c.postList = 0) (hm : 1 ≤ c.cqMod)
    (hi : 1 ≤ c.iters) (hn : 1 ≤ c.numOfQps) {s t : BiState} {a : Action} (hr : c.Reachable s)
    (ha : c.act a s = some t) : ∀ k ∈ c.timeIndices false a s t, k < c.iters * c.numOfQps := by
  obtain ⟨hp, hc⟩ := counted_of_reachable hl hr
  intro k hk
  cases a with
  | post =>
    rw [List.mem_singleton.mp hk]
    simp only [act] at ha
    split at ha
    next q hpc =>
      simp only [Option.ite_none_right_eq_some] at ha
      exact hp.lt ha.1.1 (scnt_lt_of_mayPost ha.1.2)
    next => cases ha
  | waitPoll =>
    simp only [act] at ha
    split at ha
    next q q' k' rest hpc hcq =>
      simp only [Option.ite_none_right_eq_some, Option.some.injEq] at ha
      obtain ⟨-, rfl⟩ := ha
      cases k' with
      | data =>
        simp only [timeIndices, hcq, Bool.false_eq_true, if_false, List.mem_singleton] at hk
        rw [hk]
        have hone : 1 ≤ s.totccnt + c.cqMod := by omega
        exact recorded_lt (Nat.mul_pos hi hn) hone (le_refl _)
      | credit => simp [timeIndices, hcq] at hk
    next => cases ha
  | takeSend =>
    simp only [act] at ha
    split at ha
    next q k' rest hpc hcq =>
      cases ha
      cases k' with
      | data =>
        simp only [timeIndices, hcq, Bool.false_eq_true, if_false, List.mem_singleton] at hk
        rw [hk]
        exact recorded_lt (Nat.mul_pos hi hn) (one_le_add_fill hm hi (hc q)) (le_refl _)
      | credit => simp [timeIndices, hcq] at hk
    next => cases ha
  | _ => simp [timeIndices] at hk

end BiConfig

namespace FsConfig

variable (c : FsConfig)

/-- The indices of `tposted` and `tcompleted` that a step of `run_iter_fs` uses. -/
def timeIndices (a : FsAction) (s : FsState) : List Nat :=
  match a, s.pc with
  | .step _, .create qp flow =>
    if c.testType = .iterations ∧ qp < c.numOfQps ∧ flow < c.allocatedFlows then
      [s.totFsCnt, s.totFsCnt]
    else []
  | _, _ => []

/-- In front of a flow of an ITERATIONS run all the earlier ones have been created. -/
def CountOk (s : FsState) : Prop :=
  match s.pc with
  | .rules _ _ => s.totFsCnt = 0
  | .create qp flow => s.totFsCnt = qp * c.iters + flow ∧ flow ≤ c.iters
  | _ => True

variable {c} {s t : FsState}

theorem CountOk.step (ht : c.testType = .iterations) (h : c.CountOk s) {a : FsAction}
    (ha : c.act a s = some t) : c.CountOk t := by
  cases a with
  | alarm =>
    simp only [act, Option.ite_none_right_eq_some] at ha
    rw [ht] at ha
    cases ha.1.1
  | step ok =>
    simp only [act, runIterFs] at ha
    split at ha
    next qp flow hpc =>
      cases ha
      simp only [CountOk, hpc] at h
      unfold setUpFsRules
      split
      next =>
        split
        next =>
          cases ok with
          | true => exact h
          | false => trivial
        next => exact h
      next => exact ⟨by rw [h, Nat.zero_mul], Nat.zero_le _⟩
    next qp flow hpc =>
      simp only [CountOk, hpc] at h
      have hflows : c.allocatedFlows = c.iters := by rw [allocatedFlows, ht]
      have hended : c.ended s = false := by simp [ended, ht]
      rw [hended, hflows, if_neg Bool.false_ne_true] at ha
      split at ha
      next hq =>
        split at ha
        next hf =>
          cases ha
          cases ok with
          | true =>
            refine ⟨?_, hf⟩
            simp only [createFlow, ht, true_or, if_true]
            rw [h.1]
            rfl
          | false => trivial
        next hf =>
          cases ha
          refine ⟨?_, Nat.zero_le _⟩
          show s.totFsCnt = (qp + 1) * c.iters + 0
          rw [h.1, Nat.succ_mul]
          omega
      next =>
        cases ha
        trivial
    next hpc =>
      rw [ht] at ha
      simp only [reduceCtorEq, false_and, if_false, Option.some.injEq] at ha
      rw [← ha]
      trivial
    next flow hpc =>
      split at ha <;> cases ha <;> trivial
    next => cases ha

theorem timeIndices_lt {a : FsAction} (h : c.Reachable s) :
    ∀ k ∈ c.timeIndices a s, k < c.iters * c.numOfQps := by
  intro k hk
  unfold timeIndices at hk
  split at hk
  next ok qp flow hpc =>
    split at hk
    next hlt =>
      obtain ⟨ht, hq, hf⟩ := hlt
      have hcount : c.CountOk s := by
        refine Transition.Reachable.invariant (fun s hi => ?_) (fun s t hs hst => ?_) h
        · rw [hi]
          rfl
        · obtain ⟨a, ha⟩ := hst
          exact hs.step ht ha
      have hflows : c.allocatedFlows = c.iters := by rw [allocatedFlows, ht]
      simp only [CountOk, hpc] at hcount
      simp only [List.mem_cons, List.not_mem_nil, or_false, or_self] at hk
      have hblock := Cyclic.block_end_le (n := c.iters) hq
      rw [hk, hcount.1, Nat.mul_comm c.iters]
      omega
    next => cases hk
  next => cases hk

end FsConfig

/-- The size that `alloc_ctx` gives `tposted`, and `tcompleted` on the sides that post. -/
def PerftestParameters.tarrSize (d : PerftestParameters) : Nat :=
  if d.noPeak then 1 else d.iters * d.mainQps

/-- All indices of the two arrays are inside; with `noPeak` the bandwidth loops only use the first
cells, in front of the loop and behind it. -/
structure TimesInBounds (prog : Program) (d : PerftestParameters) : Prop where
  outside : d.noPeak = true → 0 < d.tarrSize
  bw : d.runLoop prog = some .runIterBw → ∀ s a t, (runIterBw d.sendConfig).Reachable s →
    (runIterBw d.sendConfig).act a s = some t →
      ∀ k ∈ (runIterBw d.sendConfig).timeIndices d.noPeak a s t, k < d.tarrSize
  bi : d.runLoop prog = some .runIterBi → ∀ g : BiConfig, g.toSendConfig = d.sendConfig →
    ∀ s a t, g.Reachable s → g.act a s = some t → ∀ k ∈ g.timeIndices d.noPeak a s t,
      k < d.tarrSize
  burst : d.runLoop prog = some .runIterLatBurst → ∀ s a t, d.burstLoop.Reachable s →
    d.burstLoop.act a s = some t → ∀ k ∈ d.burstLoop.timeIndices a s, k < d.tarrSize
  fs : d.tst = .fsRate → ∀ g : FsConfig, g.testType = d.testType → g.numOfQps = d.numOfQps →
    g.iters = d.iters → ∀ s a, g.Reachable s → ∀ k ∈ g.timeIndices a s, k < d.tarrSize

/-- A single cell is enough for the tests that `noPeak` is meant for, and for those of the others
that use no second one. -/
structure TimesFit (d : PerftestParameters) : Prop where
  fs : d.noPeak = true → d.tst = .fsRate → d.testType = .duration
  burst : d.noPeak = true → d.tst = .latByBw → d.iters / d.replyEvery ≤ 1

theorem CoreParameters.coreDependecies_iters (c : CoreParameters) :
    c.coreDependecies.iters = if c.testType = .duration then 0 else c.iters := by
  by_cases h : c.testType = .duration <;>
    simp only [coreDependecies, setFillCount, evenRxDepth, forceSrd, forceInfinitely, forceMcg,
      forceMacFwd, forceDuration, forcePostList, forceDualport, forceTransport, deriveGeometry,
      forceSize, clampCqMod, limitCqMod, forceDepths, h, if_true, if_false]

section Accepted

variable {b : Build} {prog : Program} {other : OtherParameters} {servername : Bool}
  {args : List Opt} {d : PerftestParameters}

/-- The post list divides the number of messages. -/
theorem parser_postList_dvd (h : parser b prog other servername args = .ok d) :
    d.postList.toNat ∣ d.iters ∨ d.postList.toNat = 0 := by
  obtain ⟨p, -, hf⟩ := bind_eq_ok h
  obtain ⟨-, -, hlist⟩ := forceDependecies_lists hf
  rw [forceDependecies_core hf, CoreParameters.coreDependecies_postList,
    CoreParameters.coreDependecies_iters]
  rcases lt_trichotomy p.postList 1 with hlt | heq | hgt
  · exact .inr (by omega)
  · rw [heq]
    exact .inl (one_dvd _)
  · split
    next => exact .inl (dvd_zero _)
    next hne =>
      cases htt : p.testType with
      | iterations => exact .inl (Nat.dvd_of_mod_eq_zero ((hlist hgt).2.1 htt))
      | duration => exact absurd htt hne

/-- A test without a number of messages records no peak. -/
theorem parser_noPeak (h : parser b prog other servername args = .ok d)
    (hn : d.noPeak = false) : d.testType = .iterations := by
  obtain ⟨p, -, hf⟩ := bind_eq_ok h
  obtain ⟨-, rfl⟩ := runAll_eq_ok_iff.mp hf
  have hsplit : updates ((dependecies b).map Prod.fst) p =
      updates (((dependecies b).drop 13).map Prod.fst)
        (updates (((dependecies b).take 13).map Prod.fst) p) := by
    rw [← updates_append, ← List.map_append, List.take_append_drop]
  have hlast : updates (((dependecies b).take 13).map Prod.fst) p = durationStage.update
      (updates (((dependecies b).take 12).map Prod.fst) p) := rfl
  have hduration : (updates (((dependecies b).take 13).map Prod.fst) p).noPeak = true ∨
      (updates (((dependecies b).take 13).map Prod.fst) p).testType = .iterations := by
    rw [hlast]
    generalize updates (((dependecies b).take 12).map Prod.fst) p = s
    cases ht : s.testType with
    | iterations => exact .inr ht
    | duration =>
      refine .inl ?_
      show (s.noPeak || decide (s.testType = .duration)) = true
      rw [ht]
      simp
  rw [hsplit] at hn ⊢
  generalize updates (((dependecies b).take 13).map Prod.fst) p = s at hn hduration ⊢
  have hkeep : ∀ st ∈ ((dependecies b).drop 13).map Prod.fst, ∀ s : PerftestParameters,
      (s.noPeak = true ∨ s.testType = .iterations) →
        (st.update s).noPeak = true ∨ (st.update s).testType = .iterations := by
    intro st hst s hs
    simp only [dependecies, List.drop_succ_cons, List.drop_zero, List.map_cons, List.map_nil,
      List.mem_cons, List.not_mem_nil, or_false] at hst
    have hor : ∀ x : Bool, s.noPeak = true → (s.noPeak || x) = true := fun x h => by
      rw [h, Bool.true_or]
    rcases hst with rfl | rfl | rfl | rfl | rfl | rfl | rfl | rfl | rfl | rfl | rfl | rfl | rfl
    -- the stage for endless runs
    case inr.inr.inl =>
      by_cases hm : s.testMethod = .runInfinitely
      · refine .inl ?_
        show (s.noPeak || decide (s.testMethod = .runInfinitely)) = true
        rw [hm]
        simp
      · refine hs.imp (hor _) fun ht => ?_
        show (if s.testMethod = .runInfinitely then TestMethod.duration else s.testType) = .iterations
        rw [if_neg hm]
        exact ht
    case inr.inl => exact hs.imp (hor _) id
    case inr.inr.inr.inr.inr.inr.inr.inr.inr.inr.inl => exact hs.imp (hor _) id
    all_goals exact hs
  exact (updates_invariant hkeep hduration).resolve_left (by rw [hn]; decide)

/-- The size covers the requests of a run that posts on the QPs of the loops. -/
theorem iters_le_tarrSize (hn : d.noPeak = false) :
    d.iters * d.numOfQps ≤ d.tarrSize := by
  rw [PerftestParameters.tarrSize, hn, if_neg Bool.false_ne_true]
  exact Nat.mul_le_mul_left _ (CoreParameters.numOfQps_le_mainQps d.toCoreParameters)

/-- The arrays are large enough, also for shortened fills and on the path of the credits, where a
test started with `-N` uses the first cells only. -/
theorem timesInBounds_of_fit (h : parser b prog other servername args = .ok d) (hfit : TimesFit d) :
    TimesInBounds prog d := by
  obtain ⟨c, hc, hcore⟩ := parser_inRange h
  have hpos := CoreParameters.coreDependecies_depthsPos hc
  rw [← hcore] at hpos
  have hdvd := parser_postList_dvd h
  have hone : d.noPeak = true → d.tarrSize = 1 := fun hn => by
    rw [PerftestParameters.tarrSize, hn, if_pos rfl]
  refine ⟨fun hn => ?_, fun _ s a t hr ha k hk => ?_, fun _ g hg s a t hr ha k hk => ?_,
    fun hloop s a t hr ha k hk => ?_, fun htst g htype hq hi s a hr k hk => ?_⟩
  · rw [hone hn]
    exact Nat.one_pos
  · cases hn : d.noPeak with
    | true => simp [SendLoop.timeIndices, hn] at hk
    | false =>
      rw [hn] at hk
      have ht := parser_noPeak h hn
      have hi : 1 ≤ d.iters := (parser_lists h ht).1.trans' (by decide)
      exact (SendLoop.timeIndices_lt (L := runIterBw d.sendConfig) hdvd hpos.cq_pos hi hpos.qps_pos
        ht hr ha k hk).trans_le (iters_le_tarrSize hn)
  · cases hn : d.noPeak with
    | true => simp [BiConfig.timeIndices, hn] at hk
    | false =>
      rw [hn] at hk
      have ht := parser_noPeak h hn
      have hi : 1 ≤ d.iters := (parser_lists h ht).1.trans' (by decide)
      have hlt := BiConfig.timeIndices_lt (c := g) (by rw [hg]; exact hdvd)
        (by rw [hg]; exact hpos.cq_pos) (by rw [hg]; exact hi) (by rw [hg]; exact hpos.qps_pos) hr ha k hk
      rw [hg] at hlt
      exact hlt.trans_le (iters_le_tarrSize hn)
  · have htst : d.tst = .latByBw := by
      unfold PerftestParameters.runLoop at hloop
      split at hloop
      next h => exact h
      next => split_ifs at hloop <;> simp at hloop
      next => cases hloop
      next => cases hloop
    rcases Nat.eq_zero_or_pos d.replyEvery with hz | hr0
    · have hhead := BurstLoop.init_of_replyEvery_zero (c := d.burstLoop) hz hr
      have hz' : d.burstLoop.replyEvery = 0 := hz
      cases a with
      | post | takeRecv => simp [BurstLoop.act, hhead] at ha
      | _ => cases hk
    · have hcount := BurstLoop.Counted.of_reachable (c := d.burstLoop) hdvd (Nat.ne_of_gt hr0) hr
      have hlt : k < d.iters / d.replyEvery := (hcount.step hdvd (Nat.ne_of_gt hr0) ha).2 k hk
      cases hn : d.noPeak with
      | true =>
        rw [hone hn]
        exact hlt.trans_le (hfit.burst hn htst)
      | false =>
        have hle := iters_le_tarrSize hn
        have hdiv := Nat.div_le_self d.iters d.replyEvery
        have hmul := Nat.le_mul_of_pos_right d.iters hpos.qps_pos
        omega
  · have hlt := FsConfig.timeIndices_lt hr k hk
    rw [hi, hq] at hlt
    cases hn : d.noPeak with
    | false => exact hlt.trans_le (iters_le_tarrSize hn)
    | true =>
      have hd := hfit.fs hn htst
      unfold FsConfig.timeIndices at hk
      rw [htype, hd] at hk
      split at hk
      next => simp at hk
      next => cases hk

end Accepted

/-- `raw_ethernet_burst_lat -N` with one reply for all requests. -/
theorem timesInBounds_burstLat : ∃ d, parser usualBuild ⟨.send, .latByBw, true⟩
    { noPeak := true, isSourceMac := true, isDestMac := true, rateLimitType := .hwRateLimit } true
      [.client, .iters 5, .replyEvery 5] = .ok d ∧ TimesInBounds ⟨.send, .latByBw, true⟩ d := by
  obtain ⟨d, hd, hp⟩ := exists_of_toOption_any (x := parser usualBuild ⟨.send, .latByBw, true⟩
    { noPeak := true, isSourceMac := true, isDestMac := true, rateLimitType := .hwRateLimit } true
      [.client, .iters 5, .replyEvery 5])
    (p := fun d => decide (d.tst = .latByBw) && decide (d.iters / d.replyEvery ≤ 1))
    (by decide +kernel)
  rw [Bool.and_eq_true, decide_eq_true_eq, decide_eq_true_eq] at hp
  refine ⟨d, hd, timesInBounds_of_fit hd ⟨fun _ hfs => ?_, fun _ _ => hp.2⟩⟩
  rw [hp.1] at hfs
  cases hfs

/-- Five flows on one QP, with a single cell for their times. -/
def fiveRules : FsConfig where
  testType := .iterations
  numOfQps := 1
  iters := 5
  noPeak := true
  serverPort := 1
  clientPort := 1
  qps_pos := Nat.one_pos
  ports_le := fiveFlows_ports_le

/-- `raw_ethernet_fs_rate -N` records the time of its second flow behind the array. -/
theorem fsRate_noPeak_out_of_bounds :
    ¬ ∀ d, parser usualBuild ⟨.send, .fsRate, true⟩
      { noPeak := true, isSourceMac := true, isDestMac := true } true [.client, .iters 5] = .ok d →
        TimesInBounds ⟨.send, .fsRate, true⟩ d := by
  intro h
  obtain ⟨d, hd, hp⟩ := exists_of_toOption_any (x := parser usualBuild ⟨.send, .fsRate, true⟩
    { noPeak := true, isSourceMac := true, isDestMac := true } true [.client, .iters 5])
    (p := fun d => decide (d.tst = .fsRate) && d.noPeak && decide (d.iters = 5) &&
      decide (d.numOfQps = 1) && decide (d.testType = .iterations))
    (by decide +kernel)
  simp only [Bool.and_eq_true, decide_eq_true_eq] at hp
  obtain ⟨⟨⟨⟨htst, hn⟩, hi⟩, hq⟩, ht⟩ := hp
  obtain ⟨s, hr, hs⟩ := exists_of_run (· = FsConfig.start) fiveRules.act
    (List.replicate 8 (FsAction.step true)) FsConfig.start
    (fun s => decide (s.pc = .create 0 1) && decide (s.totFsCnt = 1)) rfl (by decide)
  simp only [Bool.and_eq_true, decide_eq_true_eq] at hs
  have hk : 1 ∈ fiveRules.timeIndices (.step true) s := by
    unfold FsConfig.timeIndices
    rw [hs.1]
    simp [fiveRules, FsConfig.allocatedFlows, hs.2]
  have hlt := (h d hd).fs htst fiveRules ht.symm hq.symm hi.symm s (.step true) hr 1 hk
  rw [PerftestParameters.tarrSize, hn, if_pos rfl] at hlt
  exact absurd hlt (by decide)

end Perftest
