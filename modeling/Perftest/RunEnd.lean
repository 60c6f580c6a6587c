import Perftest.SendCapacity
import Perftest.SendProgress

namespace Perftest

open CMachine CArray WorkQueue SendConfig Checked Transition

namespace SendLoop

variable {L : SendLoop} {q : Nat}

/-- At the end of an ITERATIONS run only what is chained to the last data request of a QP is not
known complete. -/
theorem outstanding_of_done (hs : L.Sound) (hf : L.FlagsOk 0 L.initSignaled)
    (ht : L.testType = .iterations) (hi : 1 ≤ L.iters) {s : SendState} (hr : L.Reachable s)
    (hd : s.pc = .done) (hq : q < L.numOfQps) :
    s.dev.outstanding sendCqe q = if L.chained (L.iters - 1) then [.fetchAdd] else [] := by
  have hinv := SendInv.of_reachable hs hf hr
  have hpost := posted_scheduled hs hf hr q
  obtain ⟨hall, -⟩ := hinv.accounted_all hs ht (totals_of_done hr hd).2
  obtain ⟨hscnt, hccnt⟩ := hall q hq
  have hsucc : L.iters = L.iters - 1 + 1 := by omega
  have hlast : L.signaledAt (L.iters - 1) = true := by
    rw [signaledAt, ← hsucc]
    simp [ht]
  rw [hscnt, hsucc, List.range_succ, List.flatMap_append, List.flatMap_singleton, scheduled,
    hlast] at hpost
  refine hinv.fifo.outstanding_eq hpost rfl (fun x hx => ?_) ?_
  · cases hc : L.chained (L.iters - 1) with
    | true =>
      rw [hc, if_pos rfl] at hx
      rw [List.mem_singleton.mp hx]
      rfl
    | false =>
      rw [hc, if_neg Bool.false_ne_true] at hx
      cases hx
  · have hcount := countP_labelled isData_of_sendCqe (hinv.posted q)
    simp only [isSome_sendCqe_data] at hcount
    rw [hscnt, countP_signaledAt hs fun _ => le_refl _] at hcount
    rw [hcount]
    exact signals_le_of_accounted hs ht (le_refl _) ((hinv.ccnt q).symm.trans hccnt)

/-- Empty post lists count nothing. -/
theorem totscnt_of_postList_zero (hp : L.postList = 0) {s : SendState} (hr : L.Reachable s) :
    s.totscnt = 0 := by
  refine Transition.Reachable.invariant (P := fun s : SendState => s.totscnt = 0)
    (fun s hi => ?_) (fun s t h ht => ?_) hr
  · rw [hi.1]
    rfl
  · obtain ⟨a, ha⟩ := ht
    rcases act_cases ha with ⟨he, -⟩ | ⟨q, -, -, -, -, rfl⟩ | ⟨q, rfl⟩ | ⟨q, rest, -, -, rfl⟩ |
      ⟨q, r, -, rfl⟩
    · rw [he]
      exact h
    · show s.totscnt + L.postList = 0
      rw [h, hp]
    · exact h
    · exact h
    · exact h

end SendLoop

/-- The fetch-and-add follows the last data request of each chunk. -/
theorem dvChained_iff {g : DvConfig} (hs : g.slots < 2 ^ 31) (k : Nat) :
    dvChained g k = true ↔ g.validationChunkSize ∣ k + 1 := by
  have hlt : k % g.slots < g.slotsPerQp := by
    rw [g.slotsPerQp_eq hs]
    exact Nat.mod_lt k g.slots_pos
  have hdvd : g.validationChunkSize ∣ g.slots := Dvd.intro _ rfl
  rw [dvChained, cursorAt_eq hs, Option.bind_some, DvCursor.load, g.dvLut_get hlt, Option.any_some,
    decide_eq_true_eq, Nat.add_mod, Nat.mod_mod_of_dvd k hdvd, ← Nat.add_mod]
  exact Nat.dvd_iff_mod_eq_zero.symm

/-- Data validation is refused with post lists. -/
theorem parser_dataValidation {b : Build} {prog : Program} {other : OtherParameters}
    {servername : Bool} {args : List Opt} {d : PerftestParameters}
    (h : parser b prog other servername args = .ok d) (hv : d.dataValidation = true) :
    d.postList ≤ 1 := by
  obtain ⟨p, -, hf⟩ := bind_eq_ok h
  have hcore := forceDependecies_core hf
  rw [hcore, (CoreParameters.coreDependecies_kept p.toCoreParameters).2.2] at hv
  rw [hcore, CoreParameters.coreDependecies_postList]
  obtain ⟨hp, -⟩ := runAll_eq_ok_iff.mp hf
  have hst := (@Passes.append _ (((dependecies b).take 6).map Prod.fst)
    (((dependecies b).drop 6).map Prod.fst) _ hp).2
  have hstages : (updates (((dependecies b).take 6).map Prod.fst) p).toCoreParameters =
      p.toCoreParameters.forceDepths.limitCqMod.clampCqMod.forceSize := rfl
  generalize updates (((dependecies b).take 6).map Prod.fst) p = s at hst hstages
  have hkept : s.dataValidation = p.dataValidation ∧ s.postList = p.postList := by
    rw [hstages]
    dsimp only [CoreParameters.forceSize, CoreParameters.clampCqMod, CoreParameters.limitCqMod,
      CoreParameters.forceDepths]
    exact ⟨rfl, rfl⟩
  have hb : ∀ e ∈ (dataValidationStage b).checks s, e.1 = false := hst.1
  by_contra hgt
  simp [dataValidationStage, hkept.1, hkept.2, hv, Int.not_le.mp hgt] at hb

section Accepted

variable {b : Build} {prog : Program} {other : OtherParameters} {servername : Bool}
  {args : List Opt} {d : PerftestParameters} {g : DvConfig} {s : SendState}

theorem runIterBwDv_outstanding_eq (h : parser b prog other servername args = .ok d)
    (hv : d.dataValidation = true) (ht : d.testType = .iterations) (hp : d.postList = 1)
    (hg : g.Runs d.toCoreParameters) (hr : (runIterBwDv d.sendConfig g).Reachable s)
    (hd : s.pc = .done) {q : Nat} (hq : q < d.numOfQps) :
    s.dev.outstanding sendCqe q =
      if d.validationChunkSize ∣ d.iters then [.fetchAdd] else [] := by
  have hi : 1 ≤ d.iters := (parser_lists h ht).1.trans' (by decide)
  have hs := parser_sendConfig_sound h hp
  have hone : d.sendConfig.postList = 1 := by
    rw [CoreParameters.sendConfig, hp, Int.toNat_one]
  have hout := SendLoop.outstanding_of_done (L := runIterBwDv d.sendConfig g) hs
    (runIterBwDv_flags hs hone g) ht hi hr hd hq
  have hchain := dvChained_iff (accepted_slots hg h hv ht) (d.iters - 1)
  rw [Nat.sub_add_cancel hi, hg.chunkSize] at hchain
  rw [hout]
  by_cases hdvd : d.validationChunkSize ∣ d.iters
  · rw [if_pos hdvd]
    exact if_pos (hchain.mpr hdvd)
  · rw [if_neg hdvd]
    exact if_neg fun hc => hdvd (hchain.mp hc)

/-- When the loop of a validated run ends, every request of every QP is known complete exactly when
the run does not end with a whole chunk. -/
theorem runIterBwDv_complete_iff (h : parser b prog other servername args = .ok d)
    (hv : d.dataValidation = true) (ht : d.testType = .iterations)
    (hg : g.Runs d.toCoreParameters) (hr : (runIterBwDv d.sendConfig g).Reachable s)
    (hd : s.pc = .done) :
    (∀ q < d.numOfQps, s.dev.outstanding sendCqe q = []) ↔ ¬ d.validationChunkSize ∣ d.iters := by
  have hqps : 1 ≤ d.numOfQps := hg.numOfQps ▸ g.numOfQps_pos
  rcases eq_or_lt_of_le (parser_dataValidation h hv) with hp | hp
  · constructor
    · intro hall hdvd
      have hnil := hall 0 hqps
      rw [runIterBwDv_outstanding_eq h hv ht hp hg hr hd hqps, if_pos hdvd] at hnil
      cases hnil
    · intro hn q hq
      rw [runIterBwDv_outstanding_eq h hv ht hp hg hr hd hq, if_neg hn]
  · -- such a run counts no request and never ends
    have hi : 1 ≤ d.iters := (parser_lists h ht).1.trans' (by decide)
    have hL : (runIterBwDv d.sendConfig g).testType = .iterations := ht
    have hzero : (runIterBwDv d.sendConfig g).postList = 0 := by
      show d.postList.toNat = 0
      omega
    have htot := (SendLoop.totals_of_done hr hd).1
    rw [SendLoop.totscnt_of_postList_zero hzero hr, SendLoop.totIters, if_pos hL] at htot
    have hmul : 1 ≤ d.iters * d.numOfQps := Nat.mul_pos hi hqps
    exact absurd htot (Nat.not_le_of_lt hmul)

end Accepted

theorem thirtyTwo_pos : 0 < 32 := by decide

/-- The geometry of a WRITE run of 2 KB on one QP, with chunks of 32 operations. -/
def chunksOfThirtyTwo : DvConfig :=
  oneQpRun 2048 32 (by decide) (by decide) thirtyTwo_pos (by decide)

/-- An accepted run of `iters` such operations, up to its end. -/
theorem exists_ended_run (iters : Nat)
    (h : (writeBwParser true [.size 2048 .none, .iters iters, .txDepth 32]).toOption.any (fun d =>
      d.dataValidation && decide (d.testType = .iterations) && decide (d.validationMode = .write) &&
        decide (d.size = 2048) && decide (d.validationChunkSize = 32) &&
        decide (d.validationChunksPerQp = 24) && decide (d.numOfQps = 1) &&
        decide (d.iters = iters) && decide (d.postList = 1)) = true) :
    ∃ d s, writeBwParser true [.size 2048 .none, .iters iters, .txDepth 32] = .ok d ∧
      d.dataValidation = true ∧ d.testType = .iterations ∧
      chunksOfThirtyTwo.Runs d.toCoreParameters ∧ d.validationChunkSize = 32 ∧ d.iters = iters ∧
      d.postList = 1 ∧ d.numOfQps = 1 ∧
      (runIterBwDv d.sendConfig chunksOfThirtyTwo).Reachable s ∧ s.pc = .done := by
  obtain ⟨d, hd, h⟩ := exists_of_toOption_any h
  simp only [Bool.and_eq_true, decide_eq_true_eq] at h
  obtain ⟨⟨⟨⟨⟨⟨⟨⟨hv, ht⟩, hm⟩, hsz⟩, hcs⟩, hch⟩, hn⟩, hit⟩, hp⟩ := h
  have hs := parser_sendConfig_sound hd hp
  have hone : d.sendConfig.postList = 1 := by
    rw [CoreParameters.sendConfig, hp, Int.toNat_one]
  obtain ⟨s, hr, hdone⟩ := SendLoop.exists_done (L := runIterBwDv d.sendConfig chunksOfThirtyTwo) hs
    (runIterBwDv_flags hs hone _) ht (hone.trans_le (hs.cqMod_pos.trans_le hs.cqMod_le))
    (Reachable.of_init (s := ⟨SendLoop.init _, .startState, .test⟩) ⟨rfl, rfl⟩)
  exact ⟨d, s, hd, hv, ht, ⟨hm.symm, hsz.symm, hcs.symm, hch.symm, hn.symm⟩, hcs, hit, hp, hn, hr,
    hdone⟩

/-- The fetch-and-add of the first chunk is retired with the last data request. -/
theorem thirtyThreeWrites_complete : ∃ (d : PerftestParameters) (s : SendState),
    writeBwParser true [.size 2048 .none, .iters 33, .txDepth 32] = .ok d ∧
      (runIterBwDv d.sendConfig chunksOfThirtyTwo).Reachable s ∧ s.pc = .done ∧
      ∀ q < d.numOfQps, s.dev.outstanding sendCqe q = [] := by
  obtain ⟨d, s, hd, hv, ht, hg, hc, hi, -, -, hr, hdone⟩ := exists_ended_run 33 (by decide +kernel)
  refine ⟨d, s, hd, hr, hdone, (runIterBwDv_complete_iff hd hv ht hg hr hdone).mpr ?_⟩
  rw [hc, hi]
  decide

/-- A run of 32 operations ends with the fetch-and-add of its chunk in flight. -/
theorem thirtyTwoWrites_fetchAdd_in_flight :
    ¬ ∀ d, writeBwParser true [.size 2048 .none, .iters 32, .txDepth 32] = .ok d → ∀ g s,
      g.Runs d.toCoreParameters → (runIterBwDv d.sendConfig g).Reachable s → s.pc = .done →
        ∀ q < d.numOfQps, s.dev.outstanding sendCqe q = [] := by
  intro h
  obtain ⟨d, s, hd, hv, ht, hg, hc, hi, hp, hn, hr, hdone⟩ := exists_ended_run 32 (by decide +kernel)
  have hnil := h d hd chunksOfThirtyTwo s hg hr hdone 0 (by omega)
  rw [runIterBwDv_outstanding_eq hd hv ht hp hg hr hdone (by omega), hc, hi] at hnil
  cases hnil

end Perftest
