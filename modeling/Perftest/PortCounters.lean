import Perftest.PollBatches
import Perftest.SendLoop
import Perftest.SendParameters

namespace Perftest

open Transition Checked

/-- What the loops read of a completion: its QP, the QP index in the `wr_id` of its request, and
whether its opcode is `IBV_WC_RDMA_WRITE`. -/
structure PortWc where
  qp : Nat
  label : Nat
  rdmaWrite : Bool
deriving DecidableEq, Repr

/-- `catch_alarm`, with the call of itself that a margin of zero leads to. -/
def DurationState.catchAlarm (margin : Int) : DurationState → DurationState
  | sampleState => if 0 < margin then stopSampleState else endState
  | s => s.next

/-- A DURATION run of one of the three loops, and what lies behind the array `port_by_qp`. -/
structure PortRun where
  loop : RunLoop
  params : PerftestParameters
  sendRcredit : Bool
  beyond : Nat → Nat

/-- Where the loop stands: outside of its batches, among the receive completions of a poll, or among
the send completions, with the index of the next one. -/
inductive PortPlace where
  | outside | recvs (left : List PortWc) | sends (i : Nat) (left : List PortWc)
deriving DecidableEq, Repr

/-- The fields of the parameters that the loops count in, the array `wc` of `run_iter_bi`, and for
each QP the messages that were counted into `iters` for its completions. -/
structure PortState where
  state : DurationState
  iters : Nat
  itersPerPort : Nat → Nat
  beforeFirstRx : Bool
  wc : Nat → Nat
  place : PortPlace
  counted : Nat → Nat

namespace PortRun

variable (r : PortRun)

/-- `port_by_qp`, as `ctx_modify_qp_to_init` fills it. -/
def portByQp (q : Nat) : Nat :=
  if q < r.params.mainQps then
    let halved := (r.params.connectionType = .dc ∨ r.params.useXrc) ∧
      (r.params.duplex ∨ r.params.tst = .lat)
    let num := if halved then r.params.mainQps / 2 else r.params.mainQps
    if q % num < num / 2 then 0 else 1
  else r.beyond q

def receives : Bool := r.loop = .runIterBwServer || r.loop = .runIterBi

def sends : Bool := r.loop = .runIterBw || r.loop = .runIterBi

/-- The loop starts the test at the first message. -/
def waitsForRx : Bool :=
  r.loop = .runIterBwServer || (r.loop = .runIterBi && r.params.machine = .server)

/-- The start of the test, by the loop or by `set_on_first_rx_packet`. -/
def startState : DurationState :=
  if 0 < r.params.margin then .startState
  else DurationState.startState.catchAlarm r.params.margin

/-- A message counted for a completion of QP `qp`; the loop looks the port up with `label`. -/
def count (s : PortState) (qp n : Nat) (label : Option Nat) : PortState :=
  if r.params.testType = .duration ∧ s.state = .sampleState then
    { s with
      iters := s.iters + n
      itersPerPort := match label with
        | some l =>
          if r.params.reportPerPort then
            Function.update s.itersPerPort (r.portByQp l) (s.itersPerPort (r.portByQp l) + n)
          else s.itersPerPort
        | none => s.itersPerPort
      counted := Function.update s.counted qp (s.counted qp + n) }
  else s

/-- A poll of the receive queue; the first message starts the test of a waiting side. -/
def polledRecv (s : PortState) (wcs : List PortWc) : PortState :=
  let s := { s with
    wc := fun i => (wcs[i]?.map (·.label)).getD (s.wc i)
    place := .recvs wcs }
  if wcs ≠ [] ∧ s.beforeFirstRx then
    { s with iters := 0, state := r.startState, beforeFirstRx := false }
  else s

/-- A send completion of `run_iter_bi` is one of a credit. -/
def isCredit (w : PortWc) : Bool :=
  r.loop = .runIterBi && w.rdmaWrite && r.params.verb ≠ .writeImm

/-- The QP index with which the loop looks up the port of a send completion: `run_iter_bi` takes it
from the array of the receive completions. -/
def sendLabel (s : PortState) (i : Nat) (w : PortWc) : Nat :=
  if r.loop = .runIterBi then s.wc i else w.label

/-- Completions of receive requests carry the QP they were posted for, with an SRQ any. -/
def IsRecv (w : PortWc) : Prop :=
  w.qp < r.params.mainQps ∧ w.label < r.params.mainQps ∧ (r.params.useSrq ∨ w.label = w.qp)

def IsSend (w : PortWc) : Prop := w.qp < r.params.mainQps ∧ w.label = w.qp

instance (w : PortWc) : Decidable (r.IsRecv w) := inferInstanceAs (Decidable (_ ∧ _ ∧ _))

instance (w : PortWc) : Decidable (r.IsSend w) := inferInstanceAs (Decidable (_ ∧ _))

/-- The steps of a loop, with the results of its polls, and the timer. The wait of `run_iter_bi` for
room in the send queue lies between two receive completions. -/
inductive Action where
  | alarm | pollRecv (wcs : List PortWc) | takeRecv | waitPoll (w : PortWc)
  | pollSend (wcs : List PortWc) | takeSend | endPoll
deriving DecidableEq, Repr

def act : Action → PortState → Option PortState
  | .alarm, s =>
    if s.beforeFirstRx then none else some { s with state := s.state.catchAlarm r.params.margin }
  | .pollRecv wcs, s =>
    if r.receives ∧ s.place = .outside ∧ (∀ w ∈ wcs, r.IsRecv w) ∧
        (r.loop = .runIterBi → wcs.length ≤ r.params.rxDepth) then
      some (r.polledRecv s wcs)
    else none
  | .takeRecv, s =>
    match s.place with
    | .recvs (w :: left) => some { r.count s w.qp 1 (some w.label) with place := .recvs left }
    | _ => none
  | .waitPoll w, s =>
    match s.place with
    | .recvs _ =>
      if r.loop = .runIterBi ∧ r.sendRcredit ∧ r.IsSend w then
        some (if w.rdmaWrite then s else r.count s w.qp r.params.cqMod none)
      else none
    | _ => none
  | .pollSend wcs, s =>
    if r.sends ∧ s.place = .outside ∧ (∀ w ∈ wcs, r.IsSend w) ∧
        (r.loop = .runIterBi → wcs.length ≤ r.params.cqePoll) then
      some { s with place := .sends 0 wcs }
    else none
  | .takeSend, s =>
    match s.place with
    | .sends i (w :: left) =>
      if r.isCredit w then
        if r.sendRcredit then some { s with place := .sends (i + 1) left } else none
      else
        some { r.count s w.qp r.params.cqMod (some (r.sendLabel s i w)) with
          place := .sends (i + 1) left }
    | _ => none
  | .endPoll, s =>
    match s.place with
    | .recvs [] => some { s with place := .outside }
    | .sends _ [] => some { s with place := .outside }
    | _ => none

/-- The start of the loop; the array `wc` holds anything. -/
structure IsInit (s : PortState) : Prop where
  state : s.state = if r.waitsForRx then .startState else r.startState
  iters : s.iters = 0
  itersPerPort : ∀ p, s.itersPerPort p = 0
  beforeFirstRx : s.beforeFirstRx = r.waitsForRx
  place : s.place = .outside
  counted : ∀ q, s.counted q = 0

/-- The messages counted for the QPs of port `p`. -/
def countedOn (s : PortState) (p : Nat) : Nat :=
  ∑ q ∈ (Finset.range r.params.mainQps).filter (fun q => r.portByQp q = p), s.counted q

/-- Each port has the messages of its QPs, and the two ports have all of them. -/
structure Accounted (s : PortState) : Prop where
  port : ∀ p, s.itersPerPort p = r.countedOn s p
  total : s.itersPerPort 0 + s.itersPerPort 1 = s.iters

/-- What a step takes in the sample phase is counted on the port of its QP: the request of a receive
completion was posted for a QP of that port, no completion of a message is taken in the wait, and the
receive completion with the index of a send completion is one of that port. -/
def Attributes (s : PortState) : Action → Prop
  | .takeRecv => ∀ w left, s.place = .recvs (w :: left) → s.state = .sampleState →
      r.portByQp w.label = r.portByQp w.qp
  | .waitPoll w => s.state = .sampleState → w.rdmaWrite = true
  | .takeSend => ∀ i w left, s.place = .sends i (w :: left) → s.state = .sampleState →
      r.isCredit w = false → r.portByQp (r.sendLabel s i w) = r.portByQp w.qp
  | _ => True

/-- What holds between the steps. -/
structure PortInv (s : PortState) : Prop where
  total : s.iters = ∑ q ∈ Finset.range r.params.mainQps, s.counted q
  waiting : s.beforeFirstRx = true → s.state = .startState ∧ s.iters = 0
  recvs : ∀ left, s.place = .recvs left → ∀ w ∈ left, r.IsRecv w
  sends : ∀ i left, s.place = .sends i left → ∀ w ∈ left, r.IsSend w

variable {r} {s t : PortState} {a : Action}

theorem portByQp_lt {q : Nat} (hq : q < r.params.mainQps) :
    r.portByQp q = 0 ∨ r.portByQp q = 1 := by
  unfold portByQp
  rw [if_pos hq]
  dsimp only
  split
  · split
    · exact Or.inl rfl
    · exact Or.inr rfl
  · split
    · exact Or.inl rfl
    · exact Or.inr rfl

/-- The QPs of the two ports are all QPs. -/
theorem countedOn_add (s : PortState) : r.countedOn s 0 + r.countedOn s 1 =
    ∑ q ∈ Finset.range r.params.mainQps, s.counted q := by
  unfold countedOn
  rw [← Finset.sum_filter_add_sum_filter_not (Finset.range r.params.mainQps)
    (fun q => r.portByQp q = 0) s.counted]
  congr 1
  refine Finset.sum_congr (Finset.filter_congr fun q hq => ?_) fun _ _ => rfl
  have hp := portByQp_lt (Finset.mem_range.mp hq)
  omega

theorem PortInv.accounted_iff (h : r.PortInv s) :
    r.Accounted s ↔ ∀ p, s.itersPerPort p = r.countedOn s p := by
  constructor
  · exact Accounted.port
  · intro hp
    exact ⟨hp, by rw [hp, hp, countedOn_add, h.total]⟩

theorem count_place (s : PortState) (qp n : Nat) (label : Option Nat) :
    (r.count s qp n label).place = s.place ∧
      (r.count s qp n label).beforeFirstRx = s.beforeFirstRx ∧
      (r.count s qp n label).state = s.state := by
  unfold count
  split <;> exact ⟨rfl, rfl, rfl⟩

theorem PortInv.count (h : r.PortInv s) {qp : Nat} (hq : qp < r.params.mainQps) (n : Nat)
    (label : Option Nat) : r.PortInv (r.count s qp n label) := by
  unfold PortRun.count
  split
  next hs =>
    refine ⟨?_, fun hw => ?_, h.recvs, h.sends⟩
    · dsimp only
      rw [WorkQueue.sum_update_add s.counted hq, h.total]
    · have hstart := (h.waiting hw).1
      rw [hs.2] at hstart
      cases hstart
  next => exact h

/-- A place that is left behind stays one of valid completions. -/
theorem PortInv.move (h : r.PortInv s) {place : PortPlace}
    (hr : ∀ left, place = .recvs left → ∀ w ∈ left, r.IsRecv w)
    (hs : ∀ i left, place = .sends i left → ∀ w ∈ left, r.IsSend w) :
    r.PortInv { s with place := place } :=
  ⟨h.total, h.waiting, hr, hs⟩

theorem PortInv.polledRecv (h : r.PortInv s) {wcs : List PortWc} (hw : ∀ w ∈ wcs, r.IsRecv w) :
    r.PortInv (r.polledRecv s wcs) := by
  have hrecvs : ∀ left, PortPlace.recvs wcs = .recvs left → ∀ w ∈ left, r.IsRecv w := by
    intro left hl
    cases hl
    exact hw
  unfold PortRun.polledRecv
  dsimp only
  split
  next hf =>
    have hz := (h.waiting hf.2).2
    exact ⟨hz.symm.trans h.total, fun h => (by cases h), hrecvs, fun _ _ hp => by cases hp⟩
  next => exact ⟨h.total, h.waiting, hrecvs, fun _ _ hp => by cases hp⟩

theorem PortInv.step (h : r.PortInv s) (ha : r.act a s = some t) : r.PortInv t := by
  cases a with
  | alarm =>
    simp only [act, Option.ite_none_left_eq_some, Option.some.injEq] at ha
    obtain ⟨hw, rfl⟩ := ha
    exact ⟨h.total, fun hb => absurd hb hw, h.recvs, h.sends⟩
  | pollRecv wcs =>
    simp only [act, Option.ite_none_right_eq_some, Option.some.injEq] at ha
    obtain ⟨⟨-, -, hw, -⟩, rfl⟩ := ha
    exact h.polledRecv hw
  | takeRecv =>
    simp only [act] at ha
    split at ha
    next w left hp =>
      cases ha
      have hall := h.recvs _ hp
      refine (h.count (hall w List.mem_cons_self).1 1 _).move (fun l hl => ?_)
        fun _ _ hl => by cases hl
      cases hl
      exact fun w hw => hall w (List.mem_cons_of_mem _ hw)
    next => cases ha
  | waitPoll w =>
    simp only [act] at ha
    split at ha
    next =>
      simp only [Option.ite_none_right_eq_some, Option.some.injEq] at ha
      obtain ⟨⟨-, -, hw⟩, rfl⟩ := ha
      split
      · exact h
      · exact h.count hw.1 _ _
    next => cases ha
  | pollSend wcs =>
    simp only [act, Option.ite_none_right_eq_some, Option.some.injEq] at ha
    obtain ⟨⟨-, -, hw, -⟩, rfl⟩ := ha
    refine h.move (fun _ hl => by cases hl) fun i l hl => ?_
    cases hl
    exact hw
  | takeSend =>
    simp only [act] at ha
    split at ha
    next i w left hp =>
      have hall := h.sends _ _ hp
      have hleft : ∀ j l, PortPlace.sends (i + 1) left = .sends j l → ∀ w ∈ l, r.IsSend w := by
        intro j l hl
        cases hl
        exact fun w hw => hall w (List.mem_cons_of_mem _ hw)
      split at ha
      next =>
        simp only [Option.ite_none_right_eq_some, Option.some.injEq] at ha
        obtain ⟨-, rfl⟩ := ha
        exact h.move (fun _ hl => by cases hl) hleft
      next =>
        cases ha
        exact (h.count (hall w List.mem_cons_self).1 _ _).move (fun _ hl => by cases hl) hleft
    next => cases ha
  | endPoll =>
    simp only [act] at ha
    split at ha
    next =>
      cases ha
      exact h.move (fun _ hl => by cases hl) fun _ _ hl => by cases hl
    next =>
      cases ha
      exact h.move (fun _ hl => by cases hl) fun _ _ hl => by cases hl
    next => cases ha

/-- The messages of the ports after one more of QP `q`. -/
theorem countedOn_update {q n : Nat} (hq : q < r.params.mainQps) (p : Nat) :
    r.countedOn { s with counted := Function.update s.counted q (s.counted q + n) } p =
      r.countedOn s p + if r.portByQp q = p then n else 0 :=
  WorkQueue.sum_filter_update_add s.counted (fun q => r.portByQp q = p) hq n

/-- A message is counted for the right port exactly when it is looked up with a QP of that port. -/
theorem count_accounted_iff (h : r.PortInv s) (hacc : r.Accounted s)
    (hrep : r.params.reportPerPort = true) (ht : r.params.testType = .duration) {qp n : Nat}
    (hq : qp < r.params.mainQps) (hn : 0 < n) (label : Option Nat) :
    r.Accounted (r.count s qp n label) ↔
      (s.state = .sampleState → ∃ l, label = some l ∧ r.portByQp l = r.portByQp qp) := by
  rw [(h.count hq n label).accounted_iff]
  have hold := h.accounted_iff.mp hacc
  by_cases hs : s.state = .sampleState
  · have hnew : ∀ p, r.countedOn (r.count s qp n label) p =
        r.countedOn s p + if r.portByQp qp = p then n else 0 := by
      intro p
      rw [← countedOn_update hq p]
      unfold count
      rw [if_pos ⟨ht, hs⟩]
      rfl
    simp only [hnew, hs, true_imp_iff]
    cases label with
    | none =>
      simp only [count, ht, hs, and_self, if_true]
      constructor
      · intro hall
        have := hall (r.portByQp qp)
        rw [if_pos rfl] at this
        have := hold (r.portByQp qp)
        omega
      · rintro ⟨l, hl, -⟩
        cases hl
    | some l =>
      simp only [count, ht, hs, hrep, and_self, if_true]
      constructor
      · intro hall
        refine ⟨l, rfl, ?_⟩
        by_contra hne
        have hl := hall (r.portByQp l)
        rw [Function.update_self, if_neg (Ne.symm hne), hold] at hl
        omega
      · rintro ⟨l', hl, he⟩ p
        cases hl
        rw [he]
        by_cases hp : r.portByQp qp = p
        · subst hp
          rw [Function.update_self, if_pos rfl, hold]
        · rw [Function.update_of_ne (Ne.symm hp), if_neg hp, hold, Nat.add_zero]
  · have hkeep : r.count s qp n label = s := if_neg fun h => hs h.2
    rw [hkeep]
    exact ⟨fun _ h => absurd h hs, fun _ => hold⟩

theorem accounted_move {place : PortPlace} :
    r.Accounted { s with place := place } ↔ r.Accounted s :=
  ⟨fun h => ⟨h.port, h.total⟩, fun h => ⟨h.port, h.total⟩⟩

theorem accounted_polledRecv (h : r.PortInv s) (hacc : r.Accounted s) (wcs : List PortWc) :
    r.Accounted (r.polledRecv s wcs) := by
  unfold polledRecv
  dsimp only
  split
  next hf => exact ⟨hacc.port, hacc.total.trans (h.waiting hf.2).2⟩
  next => exact ⟨hacc.port, hacc.total⟩

/-- A step keeps the ports accounted exactly when it attributes what it counts. -/
theorem step_accounted_iff (h : r.PortInv s) (hacc : r.Accounted s)
    (hrep : r.params.reportPerPort = true) (ht : r.params.testType = .duration)
    (hcq : 0 < r.params.cqMod) (ha : r.act a s = some t) : r.Accounted t ↔ r.Attributes s a := by
  cases a with
  | alarm =>
    simp only [act, Option.ite_none_left_eq_some, Option.some.injEq] at ha
    obtain ⟨-, rfl⟩ := ha
    exact ⟨fun _ => trivial, fun _ => ⟨hacc.port, hacc.total⟩⟩
  | pollRecv wcs =>
    simp only [act, Option.ite_none_right_eq_some, Option.some.injEq] at ha
    obtain ⟨-, rfl⟩ := ha
    exact ⟨fun _ => trivial, fun _ => accounted_polledRecv h hacc wcs⟩
  | takeRecv =>
    simp only [act] at ha
    split at ha
    next w left hp =>
      cases ha
      have hq := (h.recvs _ hp w List.mem_cons_self).1
      rw [accounted_move, count_accounted_iff h hacc hrep ht hq Nat.one_pos]
      constructor
      · intro hl w' left' hp' hs
        rw [hp] at hp'
        cases hp'
        obtain ⟨l, hl, he⟩ := hl hs
        cases hl
        exact he
      · intro hl hs
        exact ⟨w.label, rfl, hl w left hp hs⟩
    next => cases ha
  | waitPoll w =>
    simp only [act] at ha
    split at ha
    next =>
      simp only [Option.ite_none_right_eq_some, Option.some.injEq] at ha
      obtain ⟨⟨-, -, hw⟩, rfl⟩ := ha
      split
      next hc => exact ⟨fun _ _ => hc, fun _ => hacc⟩
      next hc =>
        rw [count_accounted_iff h hacc hrep ht hw.1 hcq]
        constructor
        · intro hl hs
          obtain ⟨l, hl, -⟩ := hl hs
          cases hl
        · intro hl hs
          exact absurd (hl hs) hc
    next => cases ha
  | pollSend wcs =>
    simp only [act, Option.ite_none_right_eq_some, Option.some.injEq] at ha
    obtain ⟨-, rfl⟩ := ha
    exact ⟨fun _ => trivial, fun _ => accounted_move.mpr hacc⟩
  | takeSend =>
    simp only [act] at ha
    split at ha
    next i w left hp =>
      split at ha
      next hc =>
        simp only [Option.ite_none_right_eq_some, Option.some.injEq] at ha
        obtain ⟨-, rfl⟩ := ha
        refine ⟨fun _ i' w' left' hp' _ hd => ?_, fun _ => accounted_move.mpr hacc⟩
        rw [hp] at hp'
        cases hp'
        rw [hc] at hd
        cases hd
      next hc =>
        cases ha
        have hq := (h.sends _ _ hp w List.mem_cons_self).1
        rw [accounted_move, count_accounted_iff h hacc hrep ht hq hcq]
        constructor
        · intro hl i' w' left' hp' hs _
          rw [hp] at hp'
          cases hp'
          obtain ⟨l, hl, he⟩ := hl hs
          cases hl
          exact he
        · intro hl hs
          exact ⟨_, rfl, hl i w left hp hs (by simpa using hc)⟩
    next => cases ha
  | endPoll =>
    simp only [act] at ha
    split at ha
    next =>
      cases ha
      exact ⟨fun _ => trivial, fun _ => accounted_move.mpr hacc⟩
    next =>
      cases ha
      exact ⟨fun _ => trivial, fun _ => accounted_move.mpr hacc⟩
    next => cases ha

theorem IsInit.inv (h : r.IsInit s) : r.PortInv s := by
  refine ⟨?_, fun hw => ?_, fun left hp => ?_, fun i left hp => ?_⟩
  · rw [h.iters, Finset.sum_eq_zero fun q _ => h.counted q]
  · rw [h.beforeFirstRx] at hw
    exact ⟨by rw [h.state, hw, if_pos rfl], h.iters⟩
  · rw [h.place] at hp
    cases hp
  · rw [h.place] at hp
    cases hp

theorem IsInit.accounted (h : r.IsInit s) : r.Accounted s := by
  refine h.inv.accounted_iff.mpr fun p => ?_
  rw [h.itersPerPort, countedOn, Finset.sum_eq_zero fun q _ => h.counted q]

end PortRun

/-- In a run of an accepted record with `report_per_port` the ports are accounted for at every moment
exactly when every step attributes what it counts. -/
theorem portCounters_iff {b : Build} {prog : Program} {other : OtherParameters}
    {servername : Bool} {args : List Opt} {r : PortRun}
    (h : parser b prog other servername args = .ok r.params)
    (ht : r.params.testType = .duration) (hrep : r.params.reportPerPort = true) {s₀ t : PortState}
    (h₀ : r.IsInit s₀) {as : List PortRun.Action} (hr : run r.act as s₀ = some t) :
    (∀ pre, pre <+: as → ∀ s, run r.act pre s₀ = some s → r.Accounted s) ↔
      AtEach (fun pre a => ∀ s, run r.act pre s₀ = some s → r.Attributes s a) as :=
  run_holds_iff h₀.inv h₀.accounted (fun _ _ _ hi ha => hi.step ha)
    (fun _ _ _ hi hacc ha => PortRun.step_accounted_iff hi hacc hrep ht (parser_cqMod_pos h) ha) hr

/-- One-way runs without an SRQ attribute everything. -/
theorem PortRun.attributes_of_oneWay {r : PortRun} {s t : PortState} {a : PortRun.Action}
    (hl : r.loop ≠ .runIterBi) (hs : r.params.useSrq = false) (h : r.PortInv s)
    (ha : r.act a s = some t) : r.Attributes s a := by
  cases a with
  | takeRecv =>
    intro w left hp _
    obtain ⟨-, -, hsrq | he⟩ := h.recvs _ hp w List.mem_cons_self
    · rw [hs] at hsrq
      cases hsrq
    · rw [he]
  | waitPoll w =>
    simp only [act] at ha
    split at ha
    next => simp [hl] at ha
    next => cases ha
  | takeSend =>
    intro i w left hp _ _
    rw [sendLabel, if_neg hl, (h.sends _ _ hp w List.mem_cons_self).2]
  | alarm | pollRecv | pollSend | endPoll => trivial

def PortRun.start (r : PortRun) : PortState where
  state := if r.waitsForRx then .startState else r.startState
  iters := 0
  itersPerPort := fun _ => 0
  beforeFirstRx := r.waitsForRx
  wc := fun _ => 0
  place := .outside
  counted := fun _ => 0

theorem PortRun.start_isInit (r : PortRun) : r.IsInit r.start :=
  ⟨rfl, rfl, fun _ => rfl, rfl, rfl, fun _ => rfl⟩

/-- The client of a bandwidth test over two ports, for ten seconds. -/
def portsClient (verb : VerbType) (args : List Opt) : Except String PerftestParameters :=
  parser usualBuild ⟨verb, .bw, false⟩ { reportPerPort := true } true
    (args ++ [.dualport, .duration 10])

theorem exists_portRun (verb : VerbType) (args : List Opt) (loop : RunLoop)
    (as : List PortRun.Action) (p : PortRun → PortState → Bool)
    (h : (portsClient verb args).toOption.any (fun d =>
      decide (d.runLoop ⟨verb, .bw, false⟩ = some loop) && decide (d.testType = .duration) &&
        d.reportPerPort && !d.useSrq &&
        (run (PortRun.mk loop d false fun _ => 0).act as (PortRun.mk loop d false fun _ => 0).start).any
          (p (PortRun.mk loop d false fun _ => 0))) = true) :
    ∃ r : PortRun, ∃ t, portsClient verb args = .ok r.params ∧ r.loop = loop ∧
      r.params.runLoop ⟨verb, .bw, false⟩ = some loop ∧ r.params.testType = .duration ∧
      r.params.reportPerPort = true ∧ r.params.useSrq = false ∧ run r.act as r.start = some t ∧
      p r t = true := by
  obtain ⟨d, hd, h⟩ := exists_of_toOption_any h
  simp only [Bool.and_eq_true, decide_eq_true_eq, Bool.not_eq_true'] at h
  obtain ⟨⟨⟨⟨hl, ht⟩, hrep⟩, hsrq⟩, hr⟩ := h
  obtain ⟨t, hr, hp⟩ := (Option.any_eq_true _ _).mp hr
  exact ⟨_, t, hd, rfl, hl, ht, hrep, hsrq, hr, hp⟩

/-- A completion of `ib_write_bw` on the second port. -/
theorem portCounters_writeBw : ∃ r : PortRun, ∃ t, portsClient .write [] = .ok r.params ∧
    run r.act [.alarm, .pollSend [⟨1, 1, true⟩], .takeSend] r.start = some t ∧
    ∀ pre, pre <+: [.alarm, .pollSend [⟨1, 1, true⟩], .takeSend] → ∀ s,
      run r.act pre r.start = some s → r.Accounted s := by
  obtain ⟨r, t, hd, hloop, -, ht, hrep, hsrq, hr, -⟩ := exists_portRun .write []
    .runIterBw [.alarm, .pollSend [⟨1, 1, true⟩], .takeSend] (fun _ _ => true) (by decide +kernel)
  refine ⟨r, t, hd, hr, (portCounters_iff hd ht hrep r.start_isInit hr).mpr ?_⟩
  refine (run_holds_iff (P := fun _ => True) r.start_isInit.inv trivial
    (fun _ _ _ hi ha => hi.step ha) (fun s a t hi _ ha => ?_) hr).mp fun _ _ _ _ => trivial
  have hne : r.loop ≠ .runIterBi := by
    rw [hloop]
    decide
  exact ⟨fun _ => PortRun.attributes_of_oneWay hne hsrq hi ha, fun _ => trivial⟩

/-- A message arrives on the first port, then one of the second port completes. -/
theorem portCounters_sendBw_wrong_port :
    ¬ ∀ r : PortRun, portsClient .send [.bidirectional] = .ok r.params → r.loop = .runIterBi →
      ∀ pre, pre <+: [.alarm, .pollRecv [⟨0, 0, false⟩], .takeRecv, .endPoll,
        .pollSend [⟨1, 1, false⟩], .takeSend] → ∀ s, run r.act pre r.start = some s →
          r.Accounted s := by
  intro h
  obtain ⟨r, t, hd, hloop, -, -, -, -, hr, hp⟩ :=
    exists_portRun .send [.bidirectional] .runIterBi
      [.alarm, .pollRecv [⟨0, 0, false⟩], .takeRecv, .endPoll, .pollSend [⟨1, 1, false⟩], .takeSend]
      (fun r s => decide (s.itersPerPort 1 = 0) && decide (r.countedOn s 1 = 1)) (by decide +kernel)
  rw [Bool.and_eq_true, decide_eq_true_eq, decide_eq_true_eq] at hp
  have hport := (h r hd hloop _ (List.prefix_refl _) t hr).port 1
  omega

end Perftest
