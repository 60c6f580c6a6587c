import Perftest.Lib.CMachine
import Perftest.SendProgress

namespace Perftest

open CMachine WorkQueue SendConfig Transition

/-- A run that records its peak: what it has written to `tposted` and `tcompleted`. -/
structure TimedState extends SendState where
  tposted : Nat → Option UInt64
  tcompleted : Nat → Option UInt64

namespace SendLoop

variable (L : SendLoop)

/-- The index of `tcompleted` that a completion is recorded at. -/
def recordedAt (totccnt : Nat) : Nat :=
  if L.totIters < totccnt then subU64 (L.iters * L.numOfQps) 1 else subU64 totccnt 1

/-- The arrays behind an action that leads to `t`, with what `get_cycles` reads in it. -/
def recordTime (s : TimedState) (a : Action) (now : UInt64) (t : SendState) : TimedState :=
  { t with
    tposted := if a = .post then Function.update s.tposted s.totscnt (some now) else s.tposted
    tcompleted := if a = .take then
        Function.update s.tcompleted (L.recordedAt t.totccnt) (some now)
      else s.tcompleted }

/-- A step of `run_iter_bw` without `noPeak`. -/
def timedAct (an : Action × UInt64) (s : TimedState) : Option TimedState :=
  (L.act an.1 s.toSendState).map (L.recordTime s an.1 an.2)

def IsTimedInit (s : TimedState) : Prop :=
  L.IsInit s.toSendState ∧ (∀ k, s.tposted k = none) ∧ ∀ k, s.tcompleted k = none

def TimedReachable : TimedState → Prop :=
  Transition.Reachable L.IsTimedInit (stepOf L.timedAct)

variable {L} {s t : TimedState} {a : Action} {now : UInt64}

/-- A timed step is a step of the loop, with at most one cell written. -/
theorem timedAct_cases (h : L.timedAct (a, now) s = some t) :
    L.act a s.toSendState = some t.toSendState ∧
      (t.tposted = if a = .post then Function.update s.tposted s.totscnt (some now)
        else s.tposted) ∧
      (t.tcompleted = if a = .take then
          Function.update s.tcompleted (L.recordedAt t.totccnt) (some now)
        else s.tcompleted) := by
  obtain ⟨u, hu, rfl⟩ := Option.map_eq_some_iff.mp h
  exact ⟨hu, rfl, rfl⟩

theorem TimedReachable.untimed (h : L.TimedReachable s) : L.Reachable s.toSendState := by
  refine Transition.Reachable.invariant (P := fun s : TimedState => L.Reachable s.toSendState)
    (fun s hi => Reachable.of_init hi.1) (fun s t hr hst => ?_) h
  obtain ⟨⟨a, now⟩, ha⟩ := hst
  exact hr.tail ⟨a, (timedAct_cases ha).1⟩

/-- Every run of the loop is one with recorded times. -/
theorem Reachable.timed {u : SendState} (h : L.Reachable u) (now : UInt64) :
    ∃ s : TimedState, L.TimedReachable s ∧ s.toSendState = u := by
  refine Transition.Reachable.invariant
    (P := fun u => ∃ s : TimedState, L.TimedReachable s ∧ s.toSendState = u)
    (fun u hi => ?_) (fun u v hr hst => ?_) h
  · exact ⟨{ u with tposted := fun _ => none, tcompleted := fun _ => none },
      Reachable.of_init ⟨hi, fun _ => rfl, fun _ => rfl⟩, rfl⟩
  · obtain ⟨s, hs, rfl⟩ := hr
    obtain ⟨a, ha⟩ := hst
    refine ⟨L.recordTime s a now v, hs.tail ⟨(a, now), ?_⟩, rfl⟩
    rw [timedAct, ha]
    rfl

/-- What the steps of an ITERATIONS run do to the counters: they post, they take a completion, or
they leave the counters as they are. -/
theorem act_counters {s t : SendState} (ht : L.testType = .iterations)
    (h : L.act a s = some t) :
    (a = .post ∧ ∃ q, q < L.numOfQps ∧ s.scnt q < L.iters ∧
      t.toSendCounters = L.postSend s.toSendCounters q) ∨
    (a = .take ∧ ∃ q rest, s.dev.cq = (q, ()) :: rest ∧
      t.toSendCounters = L.takeCompletion s.toSendCounters q rest) ∨
    (a ≠ .post ∧ a ≠ .take ∧ t.scnt = s.scnt ∧ t.ccnt = s.ccnt ∧ t.totscnt = s.totscnt ∧
      t.totccnt = s.totccnt) := by
  cases a with
  | post =>
    simp only [act] at h
    split at h
    next q hpc =>
      simp only [Option.ite_none_right_eq_some, Option.some.injEq] at h
      obtain ⟨⟨hq, hu, -⟩, rfl⟩ := h
      have hbreak : ¬ (L.testType = .duration ∧ s.state = .endState) := by
        rintro ⟨hd, -⟩
        rw [ht] at hd
        cases hd
      have hlt : s.scnt q < L.iters := by simpa [unfinished, ht] using hu
      rw [postOrBreak, if_neg hbreak]
      exact .inl ⟨rfl, q, hq, hlt, rfl⟩
    next => cases h
  | take =>
    simp only [act] at h
    split at h
    next q u rest hpc hcq =>
      cases h
      exact .inr (.inl ⟨rfl, q, rest, hcq, rfl⟩)
    next => cases h
  | test | endPoll =>
    simp only [act, Option.ite_none_right_eq_some, Option.some.injEq] at h
    obtain ⟨-, rfl⟩ := h
    exact .inr (.inr ⟨by decide, by decide, rfl, rfl, rfl, rfl⟩)
  | leave | endFor =>
    simp only [act] at h
    split at h
    next =>
      simp only [Option.ite_none_right_eq_some, Option.some.injEq] at h
      obtain ⟨-, rfl⟩ := h
      exact .inr (.inr ⟨by decide, by decide, rfl, rfl, rfl, rfl⟩)
    next => cases h
  | complete q =>
    simp only [act] at h
    split at h
    next =>
      cases h
      exact .inr (.inr ⟨by simp, by simp, rfl, rfl, rfl, rfl⟩)
    next => cases h
  | alarm =>
    cases h
    exact .inr (.inr ⟨by decide, by decide, rfl, rfl, rfl, rfl⟩)

end SendLoop

namespace SendInv

variable {L : SendLoop} {s : SendCounters}

theorem totccnt_le (hs : L.Sound) (h : SendInv L s) (ht : L.testType = .iterations) :
    s.totccnt ≤ L.totIters := by
  rw [h.totccnt, SendLoop.totIters, if_pos ht, Nat.mul_comm]
  have hle : ∀ q ∈ Finset.range L.numOfQps, s.ccnt q ≤ L.iters := fun q _ =>
    ((h.ccnt_le_completed hs q).trans (h.completedData_le q)).trans (h.within q ht)
  have hsum := Finset.sum_le_card_nsmul _ _ _ hle
  rwa [Finset.card_range, smul_eq_mul] at hsum

/-- A completion belongs to one of the QPs. -/
theorem lt_of_pending (hs : L.Sound) (h : SendInv L s) {q : Nat} {rest : List (Nat × Unit)}
    (hcq : s.dev.cq = (q, ()) :: rest) : q < L.numOfQps := by
  by_contra hge
  have hpend := Device.pending_cons hcq
  rw [h.pending_nil_of_idle hs (Nat.le_of_not_lt hge)] at hpend
  cases hpend

end SendInv

namespace SendLoop

variable {L : SendLoop}

/-- The completions in an ITERATIONS run are recorded at the place of the new total. -/
theorem recordedAt_of_le {n : Nat} (h1 : 1 ≤ n) (h : n ≤ L.totIters) : L.recordedAt n = n - 1 := by
  rw [recordedAt, if_neg (Nat.not_lt.mpr h), subU64_of_le h1]

/-- With single posts the cells written to `tposted` are those below the number of posts. -/
theorem TimedReachable.posted (ht : L.testType = .iterations) (hp : L.postList = 1)
    {s : TimedState} (h : L.TimedReachable s) (k : Nat) :
    (s.tposted k).isSome ↔ k < s.totscnt := by
  refine Transition.Reachable.invariant
    (P := fun s : TimedState => ∀ k, (s.tposted k).isSome ↔ k < s.totscnt)
    (fun s hi k => ?_) (fun s t hk hst k => ?_) h k
  · obtain ⟨⟨hcnt, -⟩, hnone, -⟩ := hi
    rw [hnone, hcnt]
    simp [init]
  · obtain ⟨⟨a, now⟩, ha⟩ := hst
    obtain ⟨ha, hpost, -⟩ := timedAct_cases ha
    rw [hpost]
    rcases act_counters ht ha with ⟨rfl, q, -, -, hcnt⟩ | ⟨rfl, q, rest, -, hcnt⟩ |
      ⟨hne, -, -, -, hsc, -⟩
    · have hsc : t.totscnt = s.totscnt + 1 := by
        rw [hcnt, postSend, hp]
      rw [if_pos rfl, hsc]
      by_cases he : k = s.totscnt
      · rw [he, Function.update_self]
        simp
      · rw [Function.update_of_ne he, hk]
        omega
    · have hsc : t.totscnt = s.totscnt := by
        rw [hcnt, takeCompletion]
      rw [if_neg (by decide), hsc, hk]
    · rw [if_neg hne, hsc, hk]

end SendLoop

end Perftest
