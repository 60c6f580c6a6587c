import Perftest.CmHandlers
import Perftest.Parser

namespace Perftest

/-- The counters of an attempt that has seen no error, and what a node of any attempt has met. -/
structure ClientConnectionOk (d : PerftestParameters) (s : CmClient) : Prop where
  counters : ∀ i, s.phase = .events i →
    s.cma.connectsLeft = d.numOfQps - connectedCount s.cma.nodes ∧
      s.cma.disconnectsLeft = connectedCount s.cma.nodes
  nonneg : 0 ≤ s.cma.connectsLeft ∧ 0 ≤ s.cma.disconnectsLeft
  spared : ∀ n ∈ s.cma.nodes, n.disturbed = []
  success : s.phase = .finished true →
    s.cma.nodes.length = d.numOfQps ∧ (∀ n ∈ s.cma.nodes, n.connected ∧ n.connections = 1) ∧
      s.cma.disconnectsLeft = d.numOfQps

/-- The runs in which events arrive only for live ids. -/
def CmClient.Reachable (d : PerftestParameters) : CmClient → Prop :=
  Transition.Reachable (CmClient.Init d)
    (Transition.stepOf (Transition.guarded CmAction.deliverable (CmClient.act d)))

/-- The runs whose steps spare the connected nodes. -/
def CmClient.SparingReachable (d : PerftestParameters) : CmClient → Prop :=
  Transition.Reachable (CmClient.Init d) (Transition.stepOf (Transition.guarded CmAction.sparing
    (Transition.guarded CmAction.deliverable (CmClient.act d))))

namespace CmClient

variable {d : PerftestParameters} {s t : CmClient}

/-- The invariant: sound nodes always, and exact counters until an attempt has failed. -/
structure Inv (d : PerftestParameters) (s : CmClient) : Prop where
  sound : s.cma.Sound d
  nonneg : 0 ≤ s.cma.connectsLeft
  counting : (∀ i, s.phase ≠ .cleanup i) → s.phase ≠ .finished false → s.cma.Counting d
  done : s.phase = .finished true → s.cma.connectsLeft = 0

theorem Inv.of_init (h : Init d s) : Inv d s := by
  obtain ⟨created, destroyed, source, c, hc, rfl⟩ := h
  have hz : ∀ n ∈ List.replicate d.numOfQps CmaNode.zero, n.Ok := by
    intro n hn
    rw [List.eq_of_mem_replicate hn]
    exact CmaNode.zero_ok
  have hk := createIds_keeps created 0 hz
  have hcount : connectedCount (List.replicate d.numOfQps CmaNode.zero) = 0 := by
    simp [connectedCount, CmaNode.zero]
  simp only [rdmaCmAllocateNodes, Bool.false_eq_true, if_false] at hc
  generalize createIds created 0 (List.replicate d.numOfQps CmaNode.zero) = r at *
  obtain ⟨ns, o⟩ := r
  cases o with
  | some k => simp at hc
  | none =>
    obtain ⟨rfl, -⟩ := Prod.mk.inj hc
    have hns := connectedCount_keeps hk
    dsimp only at hns
    refine ⟨⟨?_, ok_keeps hk hz, ?_⟩, ?_, fun _ _ => ?_, fun hp => by cases hp⟩
    · simpa using hk.length_eq.symm
    · simp [hns, hcount]
    · show (0 : Int) ≤ d.numOfQps
      omega
    · simp [Cma.Counting, hns, hcount]

theorem Inv.enterAttempt {i : Nat} {r : Cma × Bool} (h : Cma.Handled d r) :
    Inv d (Perftest.enterAttempt i r) := by
  obtain ⟨c, ok⟩ := r
  refine ⟨h.sound, h.nonneg, fun hp _ => ?_, fun hp => ?_⟩
  · cases ok with
    | true => exact h.counting rfl
    | false => exact absurd rfl (hp i)
  · cases ok <;> cases hp

theorem Inv.finished_false {c : Cma} {ok : Bool} (h : Cma.Handled d (c, ok)) :
    Inv d ⟨c, .finished false⟩ :=
  ⟨h.sound, h.nonneg, fun _ hp => absurd rfl hp, fun hp => by cases hp⟩

theorem Inv.attempt {created : Nat → Option Nat} {destroyed : Nat → Bool} {source address : Bool}
    {resolved : Nat → Bool} (h : Inv d s)
    (hr : ∀ k, refusedAt created s.cma.nodes = some k →
      ∀ n ∈ s.cma.nodes.take k, n.connected = false)
    (ha : act d (.attempt created destroyed source address resolved) s = some t) : Inv d t := by
  simp only [act] at ha
  split at ha
  next hp =>
    obtain rfl := Option.some.inj ha
    refine .enterAttempt (Cma.resolve_handled address resolved h.sound (h.counting ?_ ?_))
    · simp [hp]
    · simp [hp]
  next i hp =>
    have hc := h.counting (by simp [hp]) (by simp [hp])
    have hall := Cma.allocate_handled created destroyed source h.sound hc hr
    generalize rdmaCmAllocateNodes d created destroyed source true s.cma = r at *
    obtain ⟨c, ok⟩ := r
    cases ok with
    | true =>
      obtain rfl := Option.some.inj ha
      exact .enterAttempt (Cma.resolve_handled address resolved hall.sound (hall.counting rfl))
    | false =>
      obtain rfl := Option.some.inj ha
      exact .finished_false hall
  next => simp at ha

theorem Inv.event {e : CmEvent} {ans : CmAnswers} (hm : d.machine = .client) (h : Inv d s)
    (hd : CmAction.deliverable (.event e ans) s = true)
    (hs : CmAction.sparing (.event e ans) s = true)
    (ha : act d (.event e ans) s = some t) : Inv d t := by
  simp only [act] at ha
  split at ha
  next i hp =>
    split at ha
    next => simp at ha
    next hz =>
      have hc := h.counting (by simp [hp]) (by simp [hp])
      have hn := h.nonneg
      simp only [CmAction.deliverable, Bool.and_eq_true, Bool.or_eq_true, decide_eq_true_eq,
        List.any_eq_true, List.all_eq_true, Bool.not_eq_true'] at hd
      simp only [CmAction.sparing, Bool.or_eq_true, decide_eq_true_eq, List.all_eq_true,
        Bool.not_eq_true'] at hs
      obtain ⟨⟨hdis, hlive⟩, hest⟩ := hd
      have hh := Cma.dispatcher_handled ans hm h.sound hc (by omega) hdis hlive
        (fun he n hn hi => ((hest.resolve_left (fun hne => hne he)) n hn).resolve_left
          (fun hne => hne hi))
        (fun he n hn hi => ((hs.resolve_left (fun hne => hne he)) n hn).resolve_left
          (fun hne => hne hi))
      generalize rdmaCmEventsDispatcher d ans e (s.cma.deliver e) = r at *
      obtain ⟨c, ok⟩ := r
      obtain rfl := Option.some.inj ha
      refine ⟨hh.sound, hh.nonneg, fun hp' _ => ?_, fun hp' => ?_⟩
      · cases ok with
        | true => exact hh.counting rfl
        | false => exact absurd rfl (hp' i)
      · dsimp only at hp'
        split at hp' <;> cases hp'
  next => simp at ha

theorem Inv.destroy {destroyed : Nat → Bool} (h : Inv d s)
    (ha : act d (.destroy destroyed) s = some t) : Inv d t := by
  simp only [act] at ha
  split at ha
  next i hp =>
    have hh := Cma.destroyCma_handled destroyed h.sound h.nonneg
    generalize rdmaCmDestroyCma d destroyed s.cma = r at *
    obtain ⟨c, ok⟩ := r
    cases ok with
    | false =>
      obtain rfl := Option.some.inj ha
      exact .finished_false hh
    | true =>
      obtain rfl := Option.some.inj ha
      refine ⟨hh.sound, hh.nonneg, fun _ _ => hh.counting rfl, fun hp' => ?_⟩
      dsimp only at hp'
      split at hp' <;> cases hp'
  next => simp at ha

theorem Inv.step (hm : d.machine = .client) {a : CmAction} (h : Inv d s)
    (hd : a.deliverable s = true) (hs : a.sparing s = true) (ha : act d a s = some t) :
    Inv d t := by
  cases a with
  | attempt created destroyed source address resolved =>
    refine h.attempt (fun k hk n hn => ?_) ha
    simp only [CmAction.sparing, hk, List.all_eq_true, Bool.not_eq_true'] at hs
    exact hs n hn
  | event e ans => exact h.event hm hd hs ha
  | noEvent =>
    simp only [act] at ha
    split at ha
    next i hp =>
      split at ha
      next => simp at ha
      next =>
        obtain rfl := Option.some.inj ha
        exact ⟨h.sound, h.nonneg, fun hp' _ => absurd rfl (hp' i), fun hp' => by cases hp'⟩
    next => simp at ha
  | leave =>
    simp only [act] at ha
    split at ha
    next i hp =>
      split at ha
      next hz =>
        obtain rfl := Option.some.inj ha
        exact ⟨h.sound, h.nonneg, fun _ _ => h.counting (by simp [hp]) (by simp [hp]),
          fun _ => hz⟩
      next => simp at ha
    next => simp at ha
  | destroy destroyed => exact h.destroy ha

theorem Inv.ok (h : Inv d s) : ClientConnectionOk d s := by
  have hdis := h.sound.disconnects
  refine ⟨fun i hp => ⟨h.counting (by simp [hp]) (by simp [hp]), hdis⟩, ⟨h.nonneg, by omega⟩,
    fun n hn => (h.sound.ok n hn).spared, fun hp => ?_⟩
  have hc := h.counting (by simp [hp]) (by simp [hp])
  have hz := h.done hp
  have hlen := h.sound.length
  unfold Cma.Counting at hc
  have hall : connectedCount s.cma.nodes = s.cma.nodes.length := by omega
  refine ⟨hlen, fun n hn => ?_, by omega⟩
  have hcon := List.countP_eq_length.mp hall n hn
  refine ⟨hcon, ?_⟩
  rw [(h.sound.ok n hn).once, hcon]
  rfl

theorem Inv.of_reachable (hm : d.machine = .client) (h : SparingReachable d s) : Inv d s := by
  refine Transition.Reachable.invariant (fun s hs => .of_init hs) ?_ h
  intro s t hi hst
  obtain ⟨a, ha⟩ := hst
  obtain ⟨hs, ha⟩ := Transition.guarded_eq_some.mp ha
  obtain ⟨hd, ha⟩ := Transition.guarded_eq_some.mp ha
  exact hi.step hm hd hs ha

end CmClient

/-- In every order of events and over all retries, a client whose clean-ups spare the connected
nodes keeps its counters exact and succeeds only with every node connected once. -/
theorem rdmaCmClientConnection_ok (d : PerftestParameters) (hm : d.machine = .client)
    (s : CmClient) (hs : s.SparingReachable d) : ClientConnectionOk d s :=
  (CmClient.Inv.of_reachable hm hs).ok

/-- `ib_write_bw -R -q 2` against a server. -/
def twoQpClient : PerftestParameters :=
  { initPerftestParams { verb := .write, tst := .bw, rawEth := false } {} with
    machine := .client, numOfQps := 2 }

def CmClient.twoNodes : CmClient :=
  { cma :=
      { rai := false
        nodes := [{ CmaNode.zero with cmaId := some 0 }, { CmaNode.zero with cmaId := some 1 }]
        connectsLeft := 2, disconnectsLeft := 0, pd := false, ahAllocated := false }
    phase := .start 0 }

theorem twoNodes_init : CmClient.Init twoQpClient .twoNodes :=
  ⟨some, fun _ => true, true, CmClient.twoNodes.cma, rfl, rfl⟩

/-- The events of a node that connects. -/
def CmAction.connects (id : Nat) : List CmAction :=
  [.event ⟨.addrResolved, id, 0, 0⟩ {}, .event ⟨.routeResolved, id, 0, 0⟩ {},
    .event ⟨.established, id, 0, 0⟩ {}]

/-- The first attempt connects node 0 and is rejected for node 1. -/
def CmAction.rejectedAttempt : List CmAction :=
  .attempt some (fun _ => true) true true (fun _ => true) :: connects 0 ++
    [.event ⟨.rejected, 1, 0, 0⟩ {}, .destroy (fun _ => true)]

theorem twoNodes_retry : ∃ s : CmClient, s.SparingReachable twoQpClient ∧
    s.phase = .finished true := by
  obtain ⟨t, ht, hp⟩ := Transition.exists_of_run (CmClient.Init twoQpClient)
    (Transition.guarded CmAction.sparing (Transition.guarded CmAction.deliverable
      (CmClient.act twoQpClient)))
    (CmAction.rejectedAttempt ++ .attempt (fun i => some (i + 2)) (fun _ => true) true true
      (fun _ => true) :: CmAction.connects 3 ++ [.leave]) .twoNodes
    (fun s => s.phase = .finished true) twoNodes_init (by decide +kernel)
  exact ⟨t, ht, by simpa using hp⟩

theorem twoNodes_retry_connected : ∃ s : CmClient, s.SparingReachable twoQpClient ∧
    s.phase = .finished true ∧ s.cma.disconnectsLeft = 2 := by
  obtain ⟨s, hs, hp⟩ := twoNodes_retry
  have hok := rdmaCmClientConnection_ok twoQpClient rfl s hs
  exact ⟨s, hs, hp, (hok.success hp).2.2⟩

/-- A retry that gets no new id for node 1 destroys the id of the connected node 0. -/
theorem refusedRetry_not_ok : ¬ ∀ s : CmClient, s.Reachable twoQpClient →
    ClientConnectionOk twoQpClient s := by
  intro h
  obtain ⟨s, hs, hp⟩ := Transition.exists_of_run (CmClient.Init twoQpClient)
    (Transition.guarded CmAction.deliverable (CmClient.act twoQpClient))
    (CmAction.rejectedAttempt ++
      [.attempt (fun _ => none) (fun _ => true) true true (fun _ => true)]) .twoNodes
    (fun s => s.cma.nodes.any (fun n => n.connected && n.disturbed = [.destroyId]))
    twoNodes_init (by decide +kernel)
  obtain ⟨n, hn, hd⟩ := List.any_eq_true.mp hp
  simp only [Bool.and_eq_true, decide_eq_true_eq] at hd
  have hsp := (h s hs).spared n hn
  rw [hd.2] at hsp
  simp at hsp

end Perftest
