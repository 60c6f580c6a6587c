import Perftest.DvSender
import Perftest.SignalSchedule
import Perftest.Lib.Transition
import Perftest.Lib.WorkQueue

namespace Perftest

open WorkQueue CArray

/-- A posted request: one that `scnt` counts, or the unsignaled fetch-and-add behind it. -/
inductive SendReq where
  | data (signaled : Bool) | fetchAdd
deriving DecidableEq, Repr

def SendReq.isData : SendReq → Bool
  | data _ => true
  | fetchAdd => false

/-- A request leaves a completion iff it is signaled. -/
def sendCqe : SendReq → Option Unit
  | .data true => some ()
  | .data false => none
  | .fetchAdd => none

/-- A send loop: the flags its work requests are set up with, and the data requests that carry a
chained request. -/
structure SendLoop extends SendConfig where
  initSignaled : Nat → Bool
  chained : Nat → Bool

/-- `run_iter_bw` on the requests of `ctx_set_send_reg_wqes`. -/
def runIterBw (c : SendConfig) : SendLoop :=
  { c with
    initSignaled := fun j => (j + 1) % c.cqMod = 0
    chained := fun _ => false }

/-- The `k`-th data request of a QP carries the fetch-and-add. -/
def dvChained (g : DvConfig) (k : Nat) : Bool :=
  ((cursorAt g k).bind fun cur => (dvLut g).get cur.recvOff).any (·.chainAtomic)

/-- `run_iter_bw_dv` on the requests of `ctx_set_send_wqes_data_val_write` and `_read`: data
requests start signaled, fetch-and-adds never are. -/
def runIterBwDv (c : SendConfig) (g : DvConfig) : SendLoop :=
  { c with
    initSignaled := fun _ => true
    chained := dvChained g }

inductive DurationState where
  | startState | sampleState | stopSampleState | endState
deriving DecidableEq, Repr

/-- `catch_alarm`. -/
def DurationState.next : DurationState → DurationState
  | startState => sampleState
  | sampleState => stopSampleState
  | stopSampleState => endState
  | endState => endState

/-- Where the loop stands: at its condition, posting on a QP, polling, or behind its end. -/
inductive SendPc where
  | test | qp (index : Nat) | poll | done
deriving DecidableEq, Repr

structure SendCounters where
  signaled : Nat → Nat → Bool
  scnt : Nat → Nat
  ccnt : Nat → Nat
  totscnt : Nat
  totccnt : Nat
  dev : Device SendReq Unit

structure SendState extends SendCounters where
  state : DurationState
  pc : SendPc

namespace SendLoop

variable (L : SendLoop)

/-- `tot_iters`, zero in a DURATION run. -/
def totIters : Nat := if L.testType = .iterations then L.iters * L.numOfQps else 0

def init : SendCounters :=
  { signaled := fun _ => L.initSignaled
    scnt := fun _ => 0
    ccnt := fun _ => 0
    totscnt := 0
    totccnt := 0
    dev := Device.empty }

/-- The loop still has requests to post on QP `q`. -/
def unfinished (s : SendCounters) (q : Nat) : Bool := s.scnt q < L.iters || L.testType = .duration

/-- The window test of the posting condition. -/
def hasRoom (s : SendCounters) (q : Nat) : Bool := s.scnt q + L.postList ≤ L.txDepth + s.ccnt q

/-- The condition of the main loop. -/
def continues (s : SendState) : Bool :=
  s.totscnt < L.totIters || s.totccnt < L.totIters ||
    (L.testType = .duration && s.state ≠ .endState)

/-- The condition of the poll. -/
def polls (s : SendState) : Bool :=
  s.totccnt < L.totIters || (L.testType = .duration && s.totccnt < s.totscnt)

/-- The requests of one call of `post_send_method`; the first is the `k`-th of its QP. -/
def batch (flags : Nat → Bool) (k : Nat) : List SendReq :=
  (List.range L.postList).flatMap fun j =>
    .data (flags j) :: if L.chained (k + j) then [.fetchAdd] else []

def postSend (s : SendCounters) (q : Nat) : SendCounters :=
  let flags := L.flagsAtPost (s.scnt q) (s.signaled q)
  let scnt := s.scnt q + L.postList
  { s with
    signaled := Function.update s.signaled q (L.flagsAfterPost scnt flags)
    scnt := Function.update s.scnt q scnt
    totscnt := s.totscnt + L.postList
    dev := s.dev.post q (L.batch flags (s.scnt q)) }

def takeCompletion (s : SendCounters) (q : Nat) (rest : List (Nat × Unit)) : SendCounters :=
  let fill := L.fill (s.ccnt q)
  { s with
    ccnt := Function.update s.ccnt q (s.ccnt q + fill)
    totccnt := s.totccnt + fill
    dev := s.dev.pop q () rest }

/-- One step on the way through the loop body for QP `q`: in the last phase of a DURATION run the
loop breaks off between clearing the flag and the post. -/
def postOrBreak (s : SendState) (q : Nat) : SendState :=
  if L.testType = .duration ∧ s.state = .endState then
    { s with
      signaled := Function.update s.signaled q (L.flagsAtPost (s.scnt q) (s.signaled q))
      pc := .qp (q + 1) }
  else { s with toSendCounters := L.postSend s.toSendCounters q }

/-- The steps of the loop, of the device and of the timer. The posts on a QP end with the window,
and earlier through the rate limiter or for want of credit. -/
inductive Action where
  | test | post | leave | endFor | take | endPoll | complete (q : Nat) | alarm
deriving DecidableEq, Repr

def act : Action → SendState → Option SendState
  | .test, s =>
    if s.pc = .test then some { s with pc := if L.continues s then .qp 0 else .done } else none
  | .post, s =>
    match s.pc with
    | .qp q =>
      if q < L.numOfQps ∧ L.unfinished s.toSendCounters q ∧ L.hasRoom s.toSendCounters q then
        some (L.postOrBreak s q)
      else none
    | _ => none
  | .leave, s =>
    match s.pc with
    | .qp q => if q < L.numOfQps then some { s with pc := .qp (q + 1) } else none
    | _ => none
  | .endFor, s =>
    match s.pc with
    | .qp q =>
      if L.numOfQps ≤ q then some { s with pc := if L.polls s then .poll else .test } else none
    | _ => none
  | .take, s =>
    match s.pc, s.dev.cq with
    | .poll, (q, _) :: rest =>
      some { s with toSendCounters := L.takeCompletion s.toSendCounters q rest }
    | _, _ => none
  | .endPoll, s => if s.pc = .poll then some { s with pc := .test } else none
  | .complete q, s =>
    match (s.dev.posted q)[s.dev.completed q]? with
    | some r => some { s with dev := s.dev.complete sendCqe q r }
    | none => none
  | .alarm, s => some { s with state := s.state.next }

def IsInit (s : SendState) : Prop := s.toSendCounters = L.init ∧ s.pc = .test

def Reachable : SendState → Prop := Transition.Reachable L.IsInit (Transition.stepOf L.act)

variable {L}

/-- What an action can do: move on without touching the counters, post, break off a post, take a
completion, or complete a request. -/
theorem act_cases {a : Action} {s t : SendState} (h : L.act a s = some t) :
    (t.toSendCounters = s.toSendCounters ∧
      (t.pc = .done → s.pc = .done ∨ L.continues s = false)) ∨
    (∃ q, s.pc = .qp q ∧ q < L.numOfQps ∧ L.unfinished s.toSendCounters q = true ∧
      L.hasRoom s.toSendCounters q = true ∧
      t = { s with toSendCounters := L.postSend s.toSendCounters q }) ∨
    (∃ q, t = { s with
        signaled := Function.update s.signaled q (L.flagsAtPost (s.scnt q) (s.signaled q))
        pc := .qp (q + 1) }) ∨
    (∃ q rest, s.pc = .poll ∧ s.dev.cq = (q, ()) :: rest ∧
      t = { s with toSendCounters := L.takeCompletion s.toSendCounters q rest }) ∨
    (∃ q r, (s.dev.posted q)[s.dev.completed q]? = some r ∧
      t = { s with dev := s.dev.complete sendCqe q r }) := by
  cases a with
  | test =>
    simp only [act, Option.ite_none_right_eq_some, Option.some.injEq] at h
    obtain ⟨-, rfl⟩ := h
    refine Or.inl ⟨rfl, fun hd => Or.inr ?_⟩
    cases hc : L.continues s with
    | false => rfl
    | true => simp [hc] at hd
  | post =>
    simp only [act] at h
    split at h
    next q hpc =>
      simp only [Option.ite_none_right_eq_some, Option.some.injEq] at h
      obtain ⟨⟨hq, hu, hw⟩, rfl⟩ := h
      unfold postOrBreak
      split
      · exact Or.inr (Or.inr (Or.inl ⟨q, rfl⟩))
      · exact Or.inr (Or.inl ⟨q, hpc, hq, hu, hw, rfl⟩)
    next => cases h
  | leave =>
    simp only [act] at h
    split at h
    next =>
      simp only [Option.ite_none_right_eq_some, Option.some.injEq] at h
      obtain ⟨-, rfl⟩ := h
      exact Or.inl ⟨rfl, fun hd => by cases hd⟩
    next => cases h
  | endFor =>
    simp only [act] at h
    split at h
    next =>
      simp only [Option.ite_none_right_eq_some, Option.some.injEq] at h
      obtain ⟨-, rfl⟩ := h
      refine Or.inl ⟨rfl, fun hd => ?_⟩
      cases hp : L.polls s <;> simp [hp] at hd
    next => cases h
  | take =>
    simp only [act] at h
    split at h
    next q k rest hpc hcq => exact Or.inr (Or.inr (Or.inr (Or.inl ⟨q, rest, hpc, hcq, by
      simpa using h.symm⟩)))
    next => cases h
  | endPoll =>
    simp only [act, Option.ite_none_right_eq_some, Option.some.injEq] at h
    obtain ⟨-, rfl⟩ := h
    exact Or.inl ⟨rfl, fun hd => by cases hd⟩
  | complete q =>
    simp only [act] at h
    split at h
    next r hr => exact Or.inr (Or.inr (Or.inr (Or.inr ⟨q, r, hr, by simpa using h.symm⟩)))
    next => cases h
  | alarm =>
    cases h
    exact Or.inl ⟨rfl, Or.inl⟩

/-- All posted requests have completed and all completions were consumed. -/
def Drained (s : SendCounters) : Prop :=
  s.dev.cq = [] ∧ ∀ q, s.dev.completed q = (s.dev.posted q).length

/-- Data requests of QP `q` that have completed. -/
def completedData (s : SendCounters) (q : Nat) : Nat := (s.dev.done q).countP SendReq.isData

end SendLoop

end Perftest
