import Perftest.Parser

namespace Perftest

open CMachine Checked

/-- The ranges that the parser establishes. -/
structure CoreParameters.InRange (c : CoreParameters) : Prop where
  iters_ge : MIN_ITER ≤ c.iters
  iters_le : c.iters ≤ MAX_ITER
  tx_pos : 1 ≤ c.txDepth
  tx_le : c.txDepth ≤ 15000
  rx_pos : 1 ≤ c.rxDepth
  rx_le : c.rxDepth ≤ 16384
  qps_pos : 1 ≤ c.numOfQps
  qps_le : c.numOfQps ≤ 16384
  cq_pos : 1 ≤ c.cqMod
  cq_le : c.cqMod ≤ 1024
  size_pos : 1 ≤ c.size
  size_le : c.size ≤ 2147483647

theorem checkValueInRange_eq {name : String} {minv maxv value : Int} {n : Nat} (hm : 0 ≤ minv)
    (h : checkValueInRange name minv maxv value = .ok n) : minv ≤ n ∧ n ≤ maxv := by
  unfold checkValueInRange at h
  dsimp only at h
  split at h
  next => cases h
  next hr =>
    cases h
    omega

theorem initPerftestParams_inRange (prog : Program) (other : OtherParameters) :
    (initPerftestParams prog other).toCoreParameters.InRange := by
  constructor <;> simp only [initPerftestParams, MIN_ITER, MAX_ITER, DEF_ITERS, DEF_ITERS_WB,
    DEF_TX_BW, DEF_TX_LAT, DEF_RX_RDMA, DEF_RX_SEND, DEF_NUM_QPS, DEF_CQ_MOD, DEF_SIZE_ATOMIC,
    DEF_SIZE_BW, DEF_SIZE_LAT] <;> first | omega | (split_ifs <;> omega)

/-- What every option keeps, the loop over the command line keeps. -/
theorem parseArgs_invariant {b : Build} {P : CoreParameters → Prop}
    (hstep : ∀ c c' opt, P c → parseOpt b c opt = .ok c' → P c') {seen : List String}
    {c c' : CoreParameters} {args : List Opt} (hc : P c) (h : parseArgs b seen c args = .ok c') :
    P c' := by
  induction args generalizing seen c with
  | nil => exact Except.ok.inj h ▸ hc
  | cons opt rest ih =>
    unfold parseArgs at h
    split at h
    next => cases h
    next =>
      obtain ⟨c₁, h₁, h⟩ := bind_eq_ok h
      exact ih (hstep _ _ _ hc h₁) h

/-- No option leaves the ranges. -/
theorem parseOpt_inRange {b : Build} {c c' : CoreParameters} {opt : Opt} (hc : c.InRange)
    (h : parseOpt b c opt = .ok c') : c'.InRange := by
  cases opt with
  | size value suffix =>
    obtain ⟨hr, rfl⟩ := ite_error_eq_ok h
    exact { hc with size_pos := by dsimp only; omega, size_le := by dsimp only; omega }
  | iters value =>
    obtain ⟨hr, rfl⟩ := ite_error_eq_ok h
    exact { hc with iters_ge := by dsimp only; omega, iters_le := by dsimp only; omega }
  | txDepth value =>
    obtain ⟨n, hn, rfl⟩ := map_eq_ok h
    have := checkValueInRange_eq (by decide) hn
    simp only [MIN_TX, MAX_TX] at this
    exact { hc with tx_pos := by dsimp only; omega, tx_le := by dsimp only; omega }
  | rxDepth value =>
    obtain ⟨n, hn, h⟩ := bind_eq_ok h
    obtain ⟨-, rfl⟩ := ite_error_eq_ok h
    have := checkValueInRange_eq (by decide) hn
    simp only [MIN_RX, MAX_RX] at this
    exact { hc with rx_pos := by dsimp only; omega, rx_le := by dsimp only; omega }
  | qp value =>
    obtain ⟨n, hn, h⟩ := bind_eq_ok h
    obtain ⟨-, rfl⟩ := ite_error_eq_ok h
    have := checkValueInRange_eq (by decide) hn
    simp only [MIN_QP_NUM, MAX_QP_NUM] at this
    exact { hc with qps_pos := by dsimp only; omega, qps_le := by dsimp only; omega }
  | cqMod value =>
    obtain ⟨n, hn, rfl⟩ := map_eq_ok h
    have := checkValueInRange_eq (by decide) hn
    simp only [MIN_CQ_MOD, MAX_CQ_MOD] at this
    exact { hc with cq_pos := by dsimp only; omega, cq_le := by dsimp only; omega }
  | connection arg =>
    obtain ⟨conn, -, rfl⟩ := map_eq_ok h
    exact { hc with }
  | duration value =>
    obtain ⟨-, rfl⟩ := ite_error_eq_ok h
    exact { hc with }
  | bidirectional =>
    obtain ⟨-, rfl⟩ := ite_error_eq_ok h
    exact { hc with }
  | mcg =>
    obtain ⟨-, rfl⟩ := ite_error_eq_ok h
    exact { hc with }
  | writeWithImm =>
    obtain ⟨-, rfl⟩ := ite_error_eq_ok h
    exact { hc with }
  | sendWithImm =>
    obtain ⟨-, rfl⟩ := ite_error_eq_ok h
    exact { hc with }
  | _ =>
    cases h
    exact { hc with }

/-- Every command line that the parser takes leaves the core parameters in their ranges. -/
theorem parsedParams_inRange {b : Build} {prog : Program} {other : OtherParameters}
    {servername : Bool} {args : List Opt} {p : PerftestParameters}
    (h : parsedParams b prog other servername args = .ok p) : p.toCoreParameters.InRange := by
  obtain ⟨c, hc, rfl⟩ := map_eq_ok h
  have hin : c.InRange := parseArgs_invariant (fun _ _ _ hc h => parseOpt_inRange hc h)
    (initPerftestParams_inRange prog other) hc
  exact { hin with }

theorem parseOpt_tst {b : Build} {c c' : CoreParameters} {opt : Opt}
    (h : parseOpt b c opt = .ok c') : c'.tst = c.tst := by
  cases opt with
  | txDepth value | cqMod value | connection arg =>
    obtain ⟨n, -, rfl⟩ := map_eq_ok h
    rfl
  | rxDepth value | qp value =>
    obtain ⟨n, -, h⟩ := bind_eq_ok h
    obtain ⟨-, rfl⟩ := ite_error_eq_ok h
    rfl
  | size value suffix | iters value | duration value | bidirectional | mcg | writeWithImm
  | sendWithImm =>
    obtain ⟨-, rfl⟩ := ite_error_eq_ok h
    rfl
  | _ =>
    cases h
    rfl

theorem parsedParams_tst {b : Build} {prog : Program} {other : OtherParameters}
    {servername : Bool} {args : List Opt} {p : PerftestParameters}
    (h : parsedParams b prog other servername args = .ok p) : p.tst = prog.tst := by
  obtain ⟨c, hc, rfl⟩ := map_eq_ok h
  have htst : c.tst = prog.tst := parseArgs_invariant (P := fun c => c.tst = prog.tst)
    (fun _ _ _ hc h => (parseOpt_tst h).trans hc) rfl hc
  exact htst

end Perftest
