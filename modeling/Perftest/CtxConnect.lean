import Perftest.PollBatches
import Perftest.PostApis
import Perftest.SendParameters

namespace Perftest

open Checked

/-- What the calls that `ctx_connect` makes for each QP answer; `acceptsRate` is the verdict on the
static rate of a QP, and `isRateLimitType` that the user chose the kind of the rate limit. -/
structure ConnectAnswers where
  packetPacing : Bool
  rtr : Nat → Bool
  rts : Nat → Bool
  createAh : Nat → Bool
  acceptsRate : Nat → Bool
  isRateLimitType : Bool

/-- A call of `ctx_modify_qp_to_rtr`, or of `ctx_modify_qp_to_rts`, for `qp[qp]` with
`&dest[dest]`. -/
structure QpCall where
  toRts : Bool
  qp : Nat
  dest : Int
deriving DecidableEq, Repr

structure ConnectState where
  xrcOffset : Int
  rateLimitType : RateLimiterTypes
  calls : List QpCall

namespace PerftestParameters

variable (d : PerftestParameters)

/-- The QPs of a DC test that only receive stay in RTR. -/
def staysInRtr (i : Nat) : Bool :=
  d.connectionType = .dc &&
    ((!(d.duplex || d.tst = .lat) && d.machine = .server) ||
      ((d.duplex || d.tst = .lat) && d.numOfQps / 2 ≤ i))

def sends : Bool := d.tst = .lat || d.machine = .client || d.duplex

def needsAh : Bool :=
  ((d.connectionType = .ud || d.connectionType = .dc || d.connectionType = .srd) && d.sends) ||
    (d.connectionType = .srd && (d.verb = .read || d.verb = .write || d.verb = .writeImm))

/-- `xrc_offset` at the start of `ctx_connect` and behind the last line of its loop body. -/
def xrcOffset : Nat := if d.halvesQps then d.numOfQps / 2 else 0

/-- The offset of a round: negated on the receiving half. -/
def roundOffset (offset : Int) (i : Nat) : Int :=
  if offset ≤ i ∧ d.halvesQps then -offset else offset

/-- The last line of the loop body. -/
def restoreOffset (offset : Int) : Int := if d.halvesQps then (d.numOfQps / 2 : Nat) else offset

/-- The rest of the loop body for a QP that may send; `false` stands for a return with FAILURE. -/
def connectSender (ans : ConnectAnswers) (i : Nat) (s : ConnectState) : ConnectState × Bool :=
  let s := if d.sends then { s with calls := s.calls ++ [⟨true, i, s.xrcOffset + i⟩] } else s
  if d.sends ∧ ¬ ans.rts i then (s, false)
  else if d.needsAh ∧ ¬ ans.createAh i then (s, false)
  else if s.rateLimitType = .hwRateLimit ∧ ¬ ans.acceptsRate i ∧ ans.isRateLimitType then (s, false)
  else
    ({ s with
      rateLimitType := if s.rateLimitType = .hwRateLimit ∧ ¬ ans.acceptsRate i then .swRateLimit
        else s.rateLimitType
      xrcOffset := d.restoreOffset s.xrcOffset }, true)

/-- The loop body of `ctx_connect` for QP `i`. -/
def connectQp (ans : ConnectAnswers) (i : Nat) (s : ConnectState) : ConnectState × Bool :=
  if s.rateLimitType = .ppRateLimit ∧ ¬ ans.packetPacing then (s, false)
  else
    let offset := d.roundOffset s.xrcOffset i
    let s := { s with xrcOffset := offset, calls := s.calls ++ [⟨false, i, offset + i⟩] }
    if ¬ ans.rtr i then (s, false)
    else if d.staysInRtr i then (s, true)
    else d.connectSender ans i s

/-- The last `k` rounds of the loop, from QP `i` on. -/
def connectFrom (ans : ConnectAnswers) : Nat → Nat → ConnectState → ConnectState × Bool
  | 0, _, s => (s, true)
  | k + 1, i, s => match d.connectQp ans i s with
    | (s, true) => connectFrom ans k (i + 1) s
    | (s, false) => (s, false)

def ctxConnect (ans : ConnectAnswers) : ConnectState × Bool :=
  d.connectFrom ans d.numOfQps 0 ⟨d.xrcOffset, d.rateLimitType, []⟩

/-- The index into `rem_dest` from which `ctx_set_send_reg_wqes` takes the address of QP `i`. -/
def remDestIndex (i : Nat) : Nat := d.xrcOffset + i

/-- The QPs that `ctx_set_send_reg_wqes` sets up. -/
def regWqeQps : Nat := if d.halvesQps then d.numOfQps / 2 else d.numOfQps

/-- The peer that a QP is connected to. -/
def pairOf (i : Nat) : Nat := if d.halvesQps then (i + d.numOfQps / 2) % d.numOfQps else i

end PerftestParameters

/-- The calls pass the peer of each QP, inside of `dest`, and the one that the requests are sent to;
a successful connection has such a call for each QP. -/
structure QpsPaired (d : PerftestParameters) (r : ConnectState × Bool) : Prop where
  dest : ∀ c ∈ r.1.calls, c.dest = d.pairOf c.qp
  inside : ∀ c ∈ r.1.calls, 0 ≤ c.dest ∧ c.dest < d.numOfQps
  requests : ∀ c ∈ r.1.calls, c.qp < d.regWqeQps → c.dest = d.remDestIndex c.qp
  all : r.2 = true → ∀ i, i < d.numOfQps → ∃ c ∈ r.1.calls, c.qp = i ∧ c.toRts = false

namespace PerftestParameters

variable {d : PerftestParameters} {ans : ConnectAnswers} {i k : Nat} {s : ConnectState}

variable (ans i s) in
theorem connectSender_spec : ∃ cs : List QpCall,
    (d.connectSender ans i s).1.calls = s.calls ++ cs ∧
      (∀ c ∈ cs, c.qp = i ∧ c.dest = s.xrcOffset + i) ∧
      ((d.connectSender ans i s).2 = true → (d.connectSender ans i s).1.xrcOffset =
        d.restoreOffset s.xrcOffset) := by
  refine ⟨if d.sends then [⟨true, i, s.xrcOffset + i⟩] else [], ?_, fun c hc => ?_, ?_⟩
  · unfold connectSender
    cases d.sends <;> simp only [Bool.false_eq_true, if_true, if_false, List.append_nil] <;>
      split_ifs <;> rfl
  · split at hc
    next =>
      rw [List.mem_singleton.mp hc]
      exact ⟨rfl, rfl⟩
    next => cases hc
  · unfold connectSender
    cases d.sends <;> simp only [Bool.false_eq_true, if_true, if_false] <;> split_ifs <;> simp

variable (ans i s) in
/-- The calls of a round and the offset that it leaves. -/
theorem connectQp_spec : ∃ cs : List QpCall,
    (d.connectQp ans i s).1.calls = s.calls ++ cs ∧
      (∀ c ∈ cs, c.qp = i ∧ c.dest = d.roundOffset s.xrcOffset i + i) ∧
      ((d.connectQp ans i s).2 = true →
        ⟨false, i, d.roundOffset s.xrcOffset i + i⟩ ∈ cs ∧
          (d.connectQp ans i s).1.xrcOffset =
            if d.staysInRtr i then d.roundOffset s.xrcOffset i
            else d.restoreOffset (d.roundOffset s.xrcOffset i)) := by
  have hrtr : ∀ c ∈ [(⟨false, i, d.roundOffset s.xrcOffset i + i⟩ : QpCall)],
      c.qp = i ∧ c.dest = d.roundOffset s.xrcOffset i + i := by
    intro c hc
    rw [List.mem_singleton.mp hc]
    exact ⟨rfl, rfl⟩
  unfold connectQp
  split
  next =>
    refine ⟨[], (List.append_nil _).symm, fun c hc => ?_, fun h => ?_⟩
    · cases hc
    · cases h
  next =>
    dsimp only
    split
    next =>
      refine ⟨_, rfl, hrtr, fun h => ?_⟩
      cases h
    next =>
      split
      next hstay =>
        exact ⟨_, rfl, hrtr, fun _ => ⟨List.mem_singleton_self _, rfl⟩⟩
      next hstay =>
        obtain ⟨cs, hcs, hall, hoff⟩ := connectSender_spec (d := d) ans i
          ⟨d.roundOffset s.xrcOffset i, s.rateLimitType,
            s.calls ++ [⟨false, i, d.roundOffset s.xrcOffset i + i⟩]⟩
        refine ⟨_ :: cs, by rw [hcs, List.append_assoc]; rfl, fun c hc => ?_,
          fun h => ⟨List.mem_cons_self, ?_⟩⟩
        · rcases List.mem_cons.mp hc with rfl | hc
          · exact ⟨rfl, rfl⟩
          · exact hall c hc
        · exact hoff h

/-- A round that starts with the offset of the first one passes the peer of the QP. -/
theorem roundOffset_pair (he : d.halvesQps = true → d.numOfQps % 2 = 0) (hi : i < d.numOfQps) :
    d.roundOffset d.xrcOffset i + i = d.pairOf i := by
  unfold roundOffset xrcOffset pairOf
  cases hh : d.halvesQps with
  | false => simp
  | true =>
    have hn := he hh
    simp only [if_true, and_true, Nat.cast_le]
    by_cases hle : d.numOfQps / 2 ≤ i
    · have hmod : (i + d.numOfQps / 2) % d.numOfQps = i + d.numOfQps / 2 - d.numOfQps := by
        rw [Nat.mod_eq_sub_mod (by omega), Nat.mod_eq_of_lt (by omega)]
      rw [if_pos hle, hmod]
      omega
    · rw [if_neg hle, Nat.mod_eq_of_lt (by omega)]
      omega

theorem pairOf_lt (hi : i < d.numOfQps) : d.pairOf i < d.numOfQps := by
  unfold pairOf
  split
  · exact Nat.mod_lt _ (by omega)
  · exact hi

/-- The sending half is set up with the peer that it is connected to. -/
theorem pairOf_requests (hi : i < d.regWqeQps) : d.pairOf i = d.remDestIndex i := by
  unfold regWqeQps at hi
  unfold pairOf remDestIndex xrcOffset
  cases hh : d.halvesQps with
  | false => simp
  | true =>
    rw [hh] at hi
    simp only [if_true] at hi ⊢
    rw [Nat.mod_eq_of_lt (by omega), Nat.add_comm]

theorem regWqeQps_le : d.regWqeQps ≤ d.numOfQps := by
  unfold regWqeQps
  split <;> omega

theorem staysInRtr_halves (hh : d.halvesQps = true) :
    d.staysInRtr i = (decide (d.connectionType = .dc) && decide (d.numOfQps / 2 ≤ i)) := by
  simp only [halvesQps, Bool.and_eq_true] at hh
  simp only [staysInRtr, hh.2, Bool.not_true, Bool.false_and, Bool.false_or, Bool.true_and]

/-- A DC test whose receiving half has two QPs or more. -/
def skipsRestore (d : PerftestParameters) : Prop :=
  d.connectionType = .dc ∧ d.halvesQps = true ∧ 4 ≤ d.numOfQps

/-- The offset that a round leaves for a round that is still to come. -/
theorem offset_restored (he : d.halvesQps = true → d.numOfQps % 2 = 0) (hno : ¬ d.skipsRestore)
    (hi : i + 1 < d.numOfQps) :
    (if d.staysInRtr i then d.roundOffset d.xrcOffset i
      else d.restoreOffset (d.roundOffset d.xrcOffset i)) = d.xrcOffset := by
  unfold restoreOffset
  cases hh : d.halvesQps with
  | false => simp [roundOffset, xrcOffset, hh]
  | true =>
    have hn := he hh
    rw [staysInRtr_halves hh]
    simp only [Bool.and_eq_true, decide_eq_true_eq]
    rw [if_neg, if_pos trivial, xrcOffset, if_pos hh]
    rintro ⟨hdc, hle⟩
    exact hno ⟨hdc, hh, by omega⟩

variable (ans) in
theorem connectFrom_spec (he : d.halvesQps = true → d.numOfQps % 2 = 0) (hno : ¬ d.skipsRestore)
    (hk : i + k = d.numOfQps) (hoff : i < d.numOfQps → s.xrcOffset = d.xrcOffset) :
    ∃ cs : List QpCall, (d.connectFrom ans k i s).1.calls = s.calls ++ cs ∧
      (∀ c ∈ cs, c.qp < d.numOfQps ∧ c.dest = d.pairOf c.qp) ∧
      ((d.connectFrom ans k i s).2 = true →
        ∀ j, i ≤ j → j < d.numOfQps → ∃ c ∈ cs, c.qp = j ∧ c.toRts = false) := by
  induction k generalizing i s with
  | zero =>
    refine ⟨[], (List.append_nil _).symm, fun c hc => ?_, fun _ j hj hlt => ?_⟩
    · cases hc
    · omega
  | succ k ih =>
    have hi : i < d.numOfQps := by omega
    obtain ⟨cs, hcs, hall, hok⟩ := connectQp_spec (d := d) ans i s
    rw [hoff hi] at hall hok
    have hpair : ∀ c ∈ cs, c.qp < d.numOfQps ∧ c.dest = d.pairOf c.qp := by
      intro c hc
      obtain ⟨hq, hd⟩ := hall c hc
      rw [hd, hq]
      exact ⟨hi, roundOffset_pair he hi⟩
    unfold connectFrom
    split
    next t ht =>
      rw [ht] at hcs hok
      obtain ⟨hmem, hleft⟩ := hok rfl
      obtain ⟨cs', hcs', hall', hok'⟩ := ih (i := i + 1) (s := t) (by omega)
        fun hlt => hleft.trans (offset_restored he hno hlt)
      dsimp only at hcs
      refine ⟨cs ++ cs', by rw [hcs', hcs, List.append_assoc], fun c hc => ?_, fun h j hj hlt => ?_⟩
      · rcases List.mem_append.mp hc with hc | hc
        · exact hpair c hc
        · exact hall' c hc
      · rcases Nat.eq_or_lt_of_le hj with rfl | hj
        · exact ⟨_, List.mem_append_left _ hmem, rfl, rfl⟩
        · obtain ⟨c, hc, hq⟩ := hok' h j hj hlt
          exact ⟨c, List.mem_append_right _ hc, hq⟩
    next t ht =>
      rw [ht] at hcs
      refine ⟨cs, hcs, hpair, fun h => ?_⟩
      cases h

theorem ctxConnect_paired (he : d.halvesQps = true → d.numOfQps % 2 = 0) (hno : ¬ d.skipsRestore)
    (ans : ConnectAnswers) : QpsPaired d (d.ctxConnect ans) := by
  obtain ⟨cs, hcs, hall, hok⟩ := connectFrom_spec ans (k := d.numOfQps) (i := 0)
    (s := ⟨d.xrcOffset, d.rateLimitType, []⟩) he hno (Nat.zero_add _) fun _ => rfl
  have hcalls : (d.ctxConnect ans).1.calls = cs := hcs
  refine ⟨fun c hc => ?_, fun c hc => ?_, fun c hc hlt => ?_, fun h i hi => ?_⟩
  · rw [hcalls] at hc
    exact (hall c hc).2
  · rw [hcalls] at hc
    obtain ⟨hq, hd⟩ := hall c hc
    rw [hd]
    have := pairOf_lt hq
    omega
  · rw [hcalls] at hc
    rw [(hall c hc).2, pairOf_requests hlt]
  · rw [hcalls]
    exact hok h i (Nat.zero_le i) hi

/-- Every call succeeds. -/
def allAnswers : ConnectAnswers :=
  { packetPacing := true, rtr := fun _ => true, rts := fun _ => true, createAh := fun _ => true
    acceptsRate := fun _ => true, isRateLimitType := false }

theorem connectQp_allAnswers : (d.connectQp allAnswers i s).2 = true := by
  simp only [connectQp, connectSender, allAnswers, not_true_eq_false, and_false, false_and, if_false]
  split <;> rfl

theorem connectFrom_calls (ans : ConnectAnswers) (k i : Nat) (s : ConnectState) :
    ∀ c ∈ s.calls, c ∈ (d.connectFrom ans k i s).1.calls := by
  induction k generalizing i s with
  | zero => exact fun c hc => hc
  | succ k ih =>
    intro c hc
    obtain ⟨cs, hcs, -, -⟩ := connectQp_spec (d := d) ans i s
    have hmem : c ∈ (d.connectQp ans i s).1.calls := by
      rw [hcs]
      exact List.mem_append_left _ hc
    unfold connectFrom
    split
    next t ht =>
      rw [ht] at hmem
      exact ih (i + 1) t c hmem
    next t ht =>
      rw [ht] at hmem
      exact hmem

/-- One round when all calls succeed. -/
theorem connectFrom_succ (k i : Nat) (s : ConnectState) : ∃ t,
    d.connectFrom allAnswers (k + 1) i s = d.connectFrom allAnswers k (i + 1) t ∧
      (⟨false, i, d.roundOffset s.xrcOffset i + i⟩ : QpCall) ∈ t.calls ∧
      t.xrcOffset = if d.staysInRtr i then d.roundOffset s.xrcOffset i
        else d.restoreOffset (d.roundOffset s.xrcOffset i) := by
  obtain ⟨cs, hcs, -, hok⟩ := connectQp_spec (d := d) allAnswers i s
  have htrue : (d.connectQp allAnswers i s).2 = true := connectQp_allAnswers
  obtain ⟨hmem, hoff⟩ := hok htrue
  refine ⟨(d.connectQp allAnswers i s).1, ?_, ?_, hoff⟩
  · have hpair : d.connectQp allAnswers i s = ((d.connectQp allAnswers i s).1, true) := by
      rw [← htrue]
    rw [connectFrom]
    split
    next t ht => rw [ht]
    next t ht =>
      rw [ht] at htrue
      cases htrue
  · rw [hcs]
    exact List.mem_append_right _ hmem

/-- The offset is restored before the first QP that only receives. -/
theorem connectFrom_half (hh : d.halvesQps = true) (k : Nat) (hk : k ≤ d.numOfQps / 2)
    (s : ConnectState) (hs : s.xrcOffset = d.xrcOffset) (m : Nat) : ∃ t,
    d.connectFrom allAnswers (m + k) 0 s = d.connectFrom allAnswers m k t ∧
      t.xrcOffset = d.xrcOffset := by
  induction k generalizing m with
  | zero => exact ⟨s, rfl, hs⟩
  | succ k ih =>
    obtain ⟨t, ht, hoff⟩ := ih (by omega) (m + 1)
    obtain ⟨u, hu, -, huoff⟩ := connectFrom_succ (d := d) m k t
    refine ⟨u, ?_, ?_⟩
    · rw [← hu, ← ht, Nat.add_assoc, Nat.add_comm 1]
    · rw [huoff, staysInRtr_halves hh]
      have hlt : ¬ d.numOfQps / 2 ≤ k := by omega
      simp only [hlt, decide_false, Bool.and_false, Bool.false_eq_true, if_false, restoreOffset, hh,
        if_true, xrcOffset]

/-- In the second round of the receiving half the offset is positive again. -/
theorem skipsRestore_call (he : d.halvesQps = true → d.numOfQps % 2 = 0) (h : d.skipsRestore) :
    (⟨false, d.numOfQps / 2 + 1, d.numOfQps + 1⟩ : QpCall) ∈ (d.ctxConnect allAnswers).1.calls := by
  obtain ⟨hdc, hh, h4⟩ := h
  have hn := he hh
  obtain ⟨m, hm⟩ : ∃ m, d.numOfQps = m + 1 + 1 + d.numOfQps / 2 := ⟨d.numOfQps / 2 - 2, by omega⟩
  have hx : d.xrcOffset = d.numOfQps / 2 := by
    rw [xrcOffset, if_pos hh]
  obtain ⟨t, ht, htoff⟩ := connectFrom_half hh (d.numOfQps / 2) (le_refl _)
    ⟨d.xrcOffset, d.rateLimitType, []⟩ rfl (m + 1 + 1)
  obtain ⟨u, hu, -, huoff⟩ := connectFrom_succ (d := d) (m + 1) (d.numOfQps / 2) t
  obtain ⟨v, hv, hcall, -⟩ := connectFrom_succ (d := d) m (d.numOfQps / 2 + 1) u
  have hneg : u.xrcOffset = -((d.numOfQps / 2 : Nat) : Int) := by
    rw [huoff, staysInRtr_halves hh, htoff, hx, roundOffset]
    simp [hdc, hh]
  have hpos : d.roundOffset u.xrcOffset (d.numOfQps / 2 + 1) = (d.numOfQps / 2 : Nat) := by
    rw [hneg, roundOffset, if_pos ⟨by omega, hh⟩, neg_neg]
  rw [hpos] at hcall
  have hrun : d.ctxConnect allAnswers = d.connectFrom allAnswers m (d.numOfQps / 2 + 1 + 1) v := by
    rw [← hv, ← hu, ← ht, ← hm]
    rfl
  rw [hrun]
  refine connectFrom_calls _ _ _ _ _ ?_
  have hdest : ((d.numOfQps / 2 : Nat) : Int) + (d.numOfQps / 2 + 1 : Nat) = d.numOfQps + 1 := by
    omega
  rw [← hdest]
  exact hcall

end PerftestParameters

/-- The QPs are paired with those of the peer unless several QPs of a DC test receive. -/
theorem ctxConnect_paired_iff (d : PerftestParameters)
    (he : d.halvesQps = true → d.numOfQps % 2 = 0) :
    (∀ ans, QpsPaired d (d.ctxConnect ans)) ↔
      ¬ (d.connectionType = .dc ∧ d.halvesQps = true ∧ 4 ≤ d.numOfQps) := by
  refine ⟨fun h hno => ?_, fun hno ans => PerftestParameters.ctxConnect_paired he hno ans⟩
  have hin := (h PerftestParameters.allAnswers).inside _
    (PerftestParameters.skipsRestore_call he hno)
  dsimp only at hin
  omega

/-- The record behind the main function, which doubles the QPs of a test with two halves. -/
def PerftestParameters.mainParams (d : PerftestParameters) : PerftestParameters :=
  { d with numOfQps := d.mainQps }

/-- The client of a bidirectional `ib_send_bw` with two QPs for each half. -/
def sendBwHalves (connection : String) : Except String PerftestParameters :=
  parser usualBuild ⟨.send, .bw, false⟩ {} true [.connection connection, .bidirectional, .qp 2]

theorem exists_sendBwHalves (connection : String) (conn : ConnectionType)
    (h : (sendBwHalves connection).toOption.any (fun d => decide (d.mainParams.connectionType = conn) &&
      d.mainParams.halvesQps && decide (d.mainParams.numOfQps = 4)) = true) :
    ∃ d, sendBwHalves connection = .ok d ∧ d.mainParams.connectionType = conn ∧
      d.mainParams.halvesQps = true ∧ d.mainParams.numOfQps = 4 := by
  obtain ⟨d, hd, hp⟩ := exists_of_toOption_any h
  simp only [Bool.and_eq_true, decide_eq_true_eq] at hp
  exact ⟨d, hd, hp.1.1, hp.1.2, hp.2⟩

theorem ctxConnect_xrc_paired : ∃ d, sendBwHalves "XRC" = .ok d ∧ d.mainParams.halvesQps = true ∧
    ∀ ans, QpsPaired d.mainParams (d.mainParams.ctxConnect ans) := by
  obtain ⟨d, hd, hconn, hh, hq⟩ := exists_sendBwHalves "XRC" .xrc (by decide +kernel)
  refine ⟨d, hd, hh, (ctxConnect_paired_iff d.mainParams fun _ => by rw [hq]).mpr fun h => ?_⟩
  rw [hconn] at h
  cases h.1

/-- The last QP of a DC test with two QPs for each half is connected to an entry behind `dest`. -/
theorem ctxConnect_dc_outside : ∃ d, sendBwHalves "DC" = .ok d ∧ d.mainParams.numOfQps = 4 ∧
    (⟨false, 3, 5⟩ : QpCall) ∈
      (d.mainParams.ctxConnect PerftestParameters.allAnswers).1.calls ∧
    ¬ ∀ ans, QpsPaired d.mainParams (d.mainParams.ctxConnect ans) := by
  obtain ⟨d, hd, hconn, hh, hq⟩ := exists_sendBwHalves "DC" .dc (by decide +kernel)
  have hcall := PerftestParameters.skipsRestore_call (d := d.mainParams) (fun _ => by rw [hq])
    ⟨hconn, hh, by omega⟩
  rw [hq] at hcall
  refine ⟨d, hd, hq, hcall, fun h => ?_⟩
  have hin := (h PerftestParameters.allAnswers).inside _ hcall
  rw [hq] at hin
  exact absurd hin.2 (by decide)

end Perftest
