import Perftest.ClientConnection
import Perftest.CmCleanUp

namespace Perftest

/-- Two nodes that differ only in their history or their UD parameters. -/
structure CmaNode.Alike (n n' : CmaNode) : Prop where
  id : n'.cmaId = n.cmaId
  connected : n'.connected = n.connected
  qp : n'.qp = n.qp
  ah : n'.ah = n.ah

theorem CmaNode.Alike.refl (n : CmaNode) : n.Alike n := ⟨rfl, rfl, rfl, rfl⟩

theorem CmaNode.alike_called (n : CmaNode) (call : CmCall) : n.Alike (n.called call) := by
  unfold called
  split <;> exact ⟨rfl, rfl, rfl, rfl⟩

/-- What an action can do to a node; `failed` tells whether the attempt fails with it. -/
inductive NodeChange (ahAllocated failed : Bool) (n n' : CmaNode) : Prop where
  | other (id : n'.cmaId = n.cmaId) (qp : n'.qp = n.qp)
      (connected : n'.connected = true → n.connected = true ∨ n.cmaId.isSome)
      (ah : n'.ah = true → n.ah = true ∨ ahAllocated = true)
  | identified (gone : n.cmaId = none) (id : n'.cmaId.isSome) (qp : n'.qp = n.qp)
      (connected : n'.connected = n.connected) (ah : n'.ah = n.ah)
  | connecting (live : n.cmaId.isSome) (id : n'.cmaId = n.cmaId)
      (connected : n'.connected = n.connected) (ah : n'.ah = n.ah)
  | refused (hf : failed = true) (id : n'.cmaId = none) (connected : n'.connected = false)
      (ah : n'.ah = n.ah)
  | destroyed (connected : n'.connected = false) (qp : n'.qp = false)
      (ah : n'.ah = true → n.ah = true)

namespace NodeChange

variable {ahAllocated failed : Bool} {n m n' : CmaNode}

theorem of_alike (h : n.Alike n') : NodeChange ahAllocated failed n n' :=
  .other h.id h.qp (fun hc => .inl (h.connected ▸ hc)) fun ha => .inl (h.ah ▸ ha)

theorem mono {a f : Bool} (h : NodeChange ahAllocated failed n n')
    (ha : ahAllocated = true → a = true) (hf : failed = true → f = true) : NodeChange a f n n' := by
  cases h with
  | other id qp con ah => exact .other id qp con fun h => (ah h).imp_right ha
  | identified gone id qp con ah => exact .identified gone id qp con ah
  | connecting live id con ah => exact .connecting live id con ah
  | refused h id con ah => exact .refused (hf h) id con ah
  | destroyed con qp ah => exact .destroyed con qp ah

theorem alike_right (h : NodeChange ahAllocated failed n m) (ha : m.Alike n') :
    NodeChange ahAllocated failed n n' := by
  cases h with
  | other id qp con ah =>
    exact .other (ha.id.trans id) (ha.qp.trans qp) (fun hc => con (ha.connected ▸ hc))
      fun h => ah (ha.ah ▸ h)
  | identified gone id qp con ah =>
    exact .identified gone (ha.id ▸ id) (ha.qp.trans qp) (ha.connected.trans con) (ha.ah.trans ah)
  | connecting live id con ah =>
    exact .connecting live (ha.id.trans id) (ha.connected.trans con) (ha.ah.trans ah)
  | refused hf id con ah =>
    exact .refused hf (ha.id.trans id) (ha.connected.trans con) (ha.ah.trans ah)
  | destroyed con qp ah =>
    exact .destroyed (ha.connected.trans con) (ha.qp.trans qp) fun h => ah (ha.ah ▸ h)

theorem alike_left (ha : n.Alike m) (h : NodeChange ahAllocated failed m n') :
    NodeChange ahAllocated failed n n' := by
  cases h with
  | other id qp con ah =>
    refine .other (id.trans ha.id) (qp.trans ha.qp) (fun hc => ?_) fun h => ?_
    · rw [← ha.connected, ← ha.id]
      exact con hc
    · rw [← ha.ah]
      exact ah h
  | identified gone id qp con ah =>
    exact .identified (ha.id ▸ gone) id (qp.trans ha.qp) (con.trans ha.connected) (ah.trans ha.ah)
  | connecting live id con ah =>
    exact .connecting (ha.id ▸ live) (id.trans ha.id) (con.trans ha.connected) (ah.trans ha.ah)
  | refused hf id con ah => exact .refused hf id con (ah.trans ha.ah)
  | destroyed con qp ah => exact .destroyed con qp fun h => ha.ah ▸ ah h

end NodeChange

section Lists

variable {ns ns' : List CmaNode}

theorem destroyBelow_alike (destroyed : Nat → Bool) (k : Nat) (ms : List CmaNode) :
    List.Forall₂ CmaNode.Alike ms (destroyBelow destroyed k ms) := by
  induction k generalizing ms with
  | zero => exact List.forall₂_same.mpr fun n _ => .refl n
  | succ k ih =>
    have hstep : List.Forall₂ CmaNode.Alike ms (ms.modify k (CmaNode.called .destroyId)) :=
      forall₂_modify CmaNode.Alike.refl fun n _ => n.alike_called _
    unfold destroyBelow
    split
    next =>
      exact forall₂_comp hstep (ih _) fun a b c h h' =>
        ⟨h'.id.trans h.id, h'.connected.trans h.connected, h'.qp.trans h.qp, h'.ah.trans h.ah⟩
    next => exact hstep

theorem resolveAddrs_alike (resolved : Nat → Bool) (i : Nat) (ms : List CmaNode) :
    List.Forall₂ CmaNode.Alike ms (resolveAddrs resolved i ms).1 := by
  induction ms generalizing i with
  | nil => exact .nil
  | cons n ms ih =>
    unfold resolveAddrs
    split
    next => exact .cons (.refl n) (ih (i + 1))
    next =>
      split
      next => exact .cons (n.alike_called _) (ih (i + 1))
      next => exact .cons (n.alike_called _) (List.forall₂_same.mpr fun m _ => .refl m)

theorem createIds_change (created : Nat → Option Nat) (i : Nat) (ms : List CmaNode)
    (ahAllocated failed : Bool) :
    List.Forall₂ (NodeChange ahAllocated failed) ms (createIds created i ms).1 := by
  induction ms generalizing i with
  | nil => exact .nil
  | cons n ms ih =>
    unfold createIds
    split
    next => exact .cons (.of_alike (.refl n)) (ih (i + 1))
    next hid =>
      split
      next id _ =>
        have ha := n.alike_called .createId
        refine .cons (.identified ?_ rfl ha.qp ha.connected ha.ah) (ih (i + 1))
        simpa [Option.isSome_iff_ne_none] using hid
      next => exact List.forall₂_same.mpr fun m _ => .of_alike (.refl m)

theorem destroyIds_change (a : Bool) (destroyed : Nat → Bool) (i : Nat) (ms : List CmaNode)
    (ahAllocated failed : Bool) :
    List.Forall₂ (NodeChange ahAllocated failed) ms (destroyIds a destroyed i ms).1 := by
  induction ms generalizing i with
  | nil => exact .nil
  | cons n ms ih =>
    unfold destroyIds
    split
    next => exact .cons (.of_alike (.refl n)) (ih (i + 1))
    next hc =>
      have hn : n.connected = false := by simpa using (not_or.mp hc).2
      have hr : (n.release a).connected = false := hn
      have hah : (n.ah && !a) = true → n.ah = true := fun h => (Bool.and_eq_true_iff.mp h).1
      dsimp only
      rw [CmaNode.called_eq hr]
      split
      next => exact .cons (.destroyed hn rfl hah) (ih (i + 1))
      next =>
        exact .cons (.destroyed hn rfl hah) (List.forall₂_same.mpr fun m _ => .of_alike (.refl m))

theorem deliver_alike (e : CmEvent) (c : Cma) :
    List.Forall₂ CmaNode.Alike c.nodes (c.deliver e).nodes := by
  unfold Cma.deliver
  split
  next =>
    refine List.forall₂_map_right_iff.mpr (List.forall₂_same.mpr fun n _ => ?_)
    split <;> exact ⟨rfl, rfl, rfl, rfl⟩
  next => exact List.forall₂_same.mpr fun n _ => .refl n

end Lists

/-- What a part of the client does to the nodes. -/
structure Changes (c : Cma) (r : Cma × Bool) : Prop where
  nodes : List.Forall₂ (NodeChange r.1.ahAllocated !r.2) c.nodes r.1.nodes
  ah : c.ahAllocated = true → r.1.ahAllocated = true

namespace Changes

variable {d : PerftestParameters} {c c' : Cma} {r : Cma × Bool} {ok : Bool}

theorem of_same (hn : c'.nodes = c.nodes) (ha : c'.ahAllocated = c.ahAllocated) :
    Changes c (c', ok) :=
  ⟨by rw [hn]; exact List.forall₂_same.mpr fun n _ => .of_alike (.refl n), fun h => ha ▸ h⟩

theorem deliver {e : CmEvent} (h : Changes (c.deliver e) r) : Changes c r := by
  refine ⟨forall₂_comp (deliver_alike e c) h.nodes fun _ _ _ => NodeChange.alike_left, fun ha => ?_⟩
  apply h.ah
  unfold Cma.deliver
  split <;> exact ha

theorem routeHandler (ans : CmAnswers) {id : Nat}
    (hid : ∀ n ∈ c.nodes, n.cmaId = some id → n.connected = false) :
    Changes c (rdmaCmRouteHandler ans id c) := by
  unfold rdmaCmRouteHandler
  split
  next => exact .of_same rfl rfl
  next k hk =>
    obtain ⟨n, hn, hi⟩ := connectionIndex_some hk
    have hu : ∀ m, c.nodes[k]? = some m → m.connected = false ∧ m.cmaId.isSome := by
      intro m hm
      obtain rfl := Option.some.inj (hn.symm.trans hm)
      exact ⟨hid n (List.mem_of_getElem? hn) hi, by rw [hi]; rfl⟩
    split
    next => exact .of_same rfl rfl
    next =>
      split
      next => exact .of_same rfl rfl
      next =>
        split
        next =>
          refine ⟨forall₂_modify (fun m => .of_alike (.refl m)) fun m hm => ?_, fun h => h⟩
          rw [CmaNode.connecting_eq (hu m hm).1]
          exact .connecting (hu m hm).2 rfl rfl rfl
        next =>
          refine ⟨forall₂_modify (fun m => .of_alike (.refl m)) fun m hm => ?_, fun h => h⟩
          rw [CmaNode.connecting_eq (hu m hm).1]
          exact .refused rfl rfl (hu m hm).1 rfl

/-- The UD parameters leave ids, queue pairs and connections alone. -/
theorem establishUd (ans : CmAnswers) (e : CmEvent) :
    List.Forall₂ (fun n n' : CmaNode => n'.cmaId = n.cmaId ∧ n'.qp = n.qp ∧
      n'.connected = n.connected ∧ (n'.ah = true → n.ah = true ∨
        (rdmaCmEstablishUdConnection d ans e c).1.ahAllocated = true)) c.nodes
      (rdmaCmEstablishUdConnection d ans e c).1.nodes ∧
    (c.ahAllocated = true → (rdmaCmEstablishUdConnection d ans e c).1.ahAllocated = true) := by
  unfold rdmaCmEstablishUdConnection
  split
  next =>
    exact ⟨List.forall₂_same.mpr fun n _ => ⟨rfl, rfl, rfl, .inl⟩, fun h => h⟩
  next =>
    dsimp only
    split
    next hah =>
      refine ⟨forall₂_modify (fun m => ⟨rfl, rfl, rfl, .inl⟩) fun m _ => ?_, fun h => h⟩
      exact ⟨rfl, rfl, rfl, fun h => absurd h hah⟩
    next =>
      refine ⟨forall₂_modify (fun m => ⟨rfl, rfl, rfl, .inl⟩) fun m _ => ?_, fun _ => rfl⟩
      exact ⟨rfl, rfl, rfl, fun _ => .inr rfl⟩

theorem establishedHandler (ans : CmAnswers) (e : CmEvent) :
    Changes c (rdmaCmConnectionEstablishedHandler d ans e c) := by
  obtain ⟨hud, hall⟩ := establishUd (d := d) (c := c) ans e
  unfold rdmaCmConnectionEstablishedHandler
  generalize rdmaCmEstablishUdConnection d ans e c = r at *
  obtain ⟨c₁, ok⟩ := r
  dsimp only at hud hall
  have hother : ∀ {failed}, List.Forall₂ (NodeChange c₁.ahAllocated failed) c.nodes c₁.nodes :=
    fun {_} => hud.imp fun n n' h => .other h.1 h.2.1 (fun hc => .inl (h.2.2.1 ▸ hc)) h.2.2.2
  cases ok with
  | false => exact ⟨hother, hall⟩
  | true =>
    have hconnect : ∀ k, connectionIndex c₁.nodes e.id = some k → ∀ {failed},
        List.Forall₂ (NodeChange c₁.ahAllocated failed) c.nodes
          (c₁.nodes.modify k CmaNode.connect) := by
      intro k hk failed
      obtain ⟨n, hn, hi⟩ := connectionIndex_some hk
      have hmod : List.Forall₂ (fun m m' : CmaNode => m'.cmaId = m.cmaId ∧ m'.qp = m.qp ∧
          m'.ah = m.ah ∧ (m'.connected = true → m.connected = true ∨ m.cmaId.isSome)) c₁.nodes
          (c₁.nodes.modify k CmaNode.connect) := by
        refine forall₂_modify (fun m => ⟨rfl, rfl, rfl, .inl⟩) fun m hm => ?_
        obtain rfl := Option.some.inj (hn.symm.trans hm)
        exact ⟨rfl, rfl, rfl, fun _ => .inr (by rw [hi]; rfl)⟩
      refine forall₂_comp hud hmod fun m m' m'' h h' => ?_
      refine .other (h'.1.trans h.1) (h'.2.1.trans h.2.1) (fun hc => ?_) fun ha => ?_
      · rw [← h.2.2.1, ← h.1]
        exact h'.2.2.2 hc
      · exact h.2.2.2 (h'.2.2.1 ▸ ha)
    dsimp only
    cases hk : connectionIndex c₁.nodes e.id with
    | none => split <;> exact ⟨hother, hall⟩
    | some k => split <;> exact ⟨hconnect k hk, hall⟩

theorem dispatcher (ans : CmAnswers) {e : CmEvent}
    (hr : e.event = .routeResolved →
      ∀ n ∈ c.nodes, n.cmaId = some e.id → n.connected = false) :
    Changes c (rdmaCmEventsDispatcher d ans e (c.deliver e)) := by
  apply deliver (e := e)
  unfold rdmaCmEventsDispatcher
  cases he : e.event with
  | addrResolved =>
    dsimp only
    unfold rdmaCmAddressHandler
    split_ifs <;> exact .of_same rfl rfl
  | routeResolved =>
    have hd : c.deliver e = c := by simp [Cma.deliver, he]
    rw [hd]
    exact routeHandler ans (hr he)
  | established => exact establishedHandler ans e
  | addrError => exact .of_same rfl rfl
  | routeError => exact .of_same rfl rfl
  | connectError => exact .of_same rfl rfl
  | unreachable => exact .of_same rfl rfl
  | rejected => exact .of_same rfl rfl
  | disconnected => exact .of_same rfl rfl
  | deviceRemoval => exact .of_same rfl rfl
  | other => exact .of_same rfl rfl

theorem resolve (address : Bool) (resolved : Nat → Bool) :
    List.Forall₂ CmaNode.Alike c.nodes (rdmaCmResolve address resolved c).1.nodes ∧
      (rdmaCmResolve address resolved c).1.ahAllocated = c.ahAllocated := by
  have hr := resolveAddrs_alike resolved 0 c.nodes
  unfold rdmaCmResolve
  split
  next => exact ⟨List.forall₂_same.mpr fun n _ => .refl n, rfl⟩
  next =>
    generalize resolveAddrs resolved 0 c.nodes = r at *
    obtain ⟨ms, ok⟩ := r
    cases ok <;> exact ⟨hr, rfl⟩

theorem allocate (created : Nat → Option Nat) (destroyed : Nat → Bool) (source : Bool)
    (ahAllocated failed : Bool) :
    List.Forall₂ (NodeChange ahAllocated failed) c.nodes
        (rdmaCmAllocateNodes d created destroyed source true c).1.nodes ∧
      (rdmaCmAllocateNodes d created destroyed source true c).1.ahAllocated = c.ahAllocated := by
  have hc := createIds_change created 0 c.nodes ahAllocated failed
  unfold rdmaCmAllocateNodes
  simp only [if_true]
  generalize createIds created 0 c.nodes = r at *
  obtain ⟨ms, o⟩ := r
  cases o with
  | none => exact ⟨hc, rfl⟩
  | some k =>
    exact ⟨forall₂_comp hc (destroyBelow_alike destroyed k ms) fun _ _ _ => .alike_right, rfl⟩

theorem destroyCma (destroyed : Nat → Bool) (ahAllocated failed : Bool) :
    List.Forall₂ (NodeChange ahAllocated failed) c.nodes (rdmaCmDestroyCma d destroyed c).1.nodes ∧
      (rdmaCmDestroyCma d destroyed c).1.ahAllocated = c.ahAllocated := by
  have hc := destroyIds_change c.ahAllocated destroyed 0 c.nodes ahAllocated failed
  unfold rdmaCmDestroyCma
  generalize destroyIds c.ahAllocated destroyed 0 c.nodes = r at *
  obtain ⟨ms, ok⟩ := r
  cases ok <;> exact ⟨hc, rfl⟩

end Changes

/-- The attempt is still on its way, or the next one may begin. -/
def CmPhase.isOpen : CmPhase → Bool
  | .start _ | .events _ => true
  | .cleanup _ | .finished _ => false

theorem changes_of_act {d : PerftestParameters} {a : CmAction} {s t : CmClient}
    (ha : CmClient.act d a s = some t) (hr : a.routedOnce s = true) :
    List.Forall₂ (NodeChange t.cma.ahAllocated !t.phase.isOpen) s.cma.nodes t.cma.nodes ∧
      (s.cma.ahAllocated = true → t.cma.ahAllocated = true) := by
  rcases CmClient.act_cases ha with
    ⟨created, destroyed, source, address, resolved, i, c, rfl, -, ⟨hc, ht⟩ | hc⟩ |
    ⟨e, ans, i, rfl, -, ht, hphase⟩ | ⟨i, -, -, ht⟩ | ⟨destroyed, i, rfl, -, ht⟩
  · obtain ⟨hn, hah⟩ := Changes.resolve (c := c) address resolved
    rw [← ht] at hn hah
    rcases hc with rfl | hc
    · exact ⟨hn.imp fun _ _ h => .of_alike h, fun h => hah.trans h⟩
    · have hall := fun b f => Changes.allocate (d := d) (c := s.cma) created destroyed source b f
      simp only [hc] at hall
      exact ⟨forall₂_comp (hall _ _).1 hn fun _ _ _ => .alike_right,
        fun h => hah.trans ((hall true true).2.trans h)⟩
  · have hall := fun b f => Changes.allocate (d := d) (c := s.cma) created destroyed source b f
    simp only [hc] at hall
    exact ⟨(hall _ _).1, fun h => (hall true true).2.trans h⟩
  · simp only [CmAction.routedOnce, Bool.or_eq_true, decide_eq_true_eq, List.all_eq_true,
      Bool.not_eq_true'] at hr
    have hch : Changes s.cma (rdmaCmEventsDispatcher d ans e (s.cma.deliver e)) :=
      Changes.dispatcher ans fun he n hn hi =>
        ((hr.resolve_left fun hne => hne he) n hn).resolve_left fun hne => hne hi
    rw [ht]
    refine ⟨hch.nodes.imp fun n n' h => h.mono (fun h => h) fun hf => ?_, hch.ah⟩
    rw [hphase (by simpa using hf)]
    rfl
  · rw [ht]
    exact ⟨List.forall₂_same.mpr fun n _ => .of_alike (.refl n), fun h => h⟩
  · have hall := fun b f => Changes.destroyCma (d := d) (c := s.cma) destroyed b f
    rw [ht]
    exact ⟨(hall _ _).1, fun h => (hall true true).2.trans h⟩

theorem Cma.Kept.step {d : PerftestParameters} {c c' : Cma} {f : Bool} (h : c.Kept d)
    (hn : List.Forall₂ (NodeChange c'.ahAllocated f) c.nodes c'.nodes)
    (ha : c.ahAllocated = true → c'.ahAllocated = true) : c'.Kept d := by
  have hback : ∀ n' ∈ c'.nodes, ∃ n ∈ c.nodes, NodeChange c'.ahAllocated f n n' := by
    intro n' hn'
    obtain ⟨k, hk⟩ := List.mem_iff_getElem?.mp hn'
    obtain ⟨n, hkn, hch⟩ := exists_of_forall₂ hn hk
    exact ⟨n, List.mem_of_getElem? hkn, hch⟩
  refine ⟨hn.length_eq ▸ h.length, fun n' hn' hc => ?_, fun n' hn' hah => ?_⟩
  · obtain ⟨n, hmem, hch⟩ := hback n' hn'
    cases hch with
    | other id qp con ah =>
      rw [id]
      exact (con hc).elim (h.live n hmem) fun h => h
    | identified gone id qp con ah => exact id
    | connecting live id con ah => rwa [id]
    | refused hf id con ah => rw [con] at hc; cases hc
    | destroyed con qp ah => rw [con] at hc; cases hc
  · obtain ⟨n, hmem, hch⟩ := hback n' hn'
    cases hch with
    | other id qp con ah => exact (ah hah).elim (fun h' => ha (h.ah n hmem h')) fun h => h
    | identified gone id qp con ah => exact ha (h.ah n hmem (ah ▸ hah))
    | connecting live id con ah => exact ha (h.ah n hmem (ah ▸ hah))
    | refused hf id con ah => exact ha (h.ah n hmem (ah ▸ hah))
    | destroyed con qp ah => exact ha (h.ah n hmem (ah hah))

/-- A node without anything stays without a queue pair and unconnected when it gets its first id. -/
theorem NodeChange.of_zero {a : Bool} {n : CmaNode} (h : NodeChange a false CmaNode.zero n) :
    n.qp = false := by
  cases h with
  | other id qp con ah => exact qp
  | identified gone id qp con ah => exact qp
  | connecting live id con ah => cases live
  | refused hf id con ah => cases hf
  | destroyed con qp ah => exact qp

theorem Cma.Kept.of_init {d : PerftestParameters} {s : CmClient} (h : CmClient.Init d s) :
    s.cma.Kept d ∧ ∀ n ∈ s.cma.nodes, n.qp = false := by
  obtain ⟨created, destroyed, source, c, hc, rfl⟩ := h
  have hch := createIds_change created 0 (List.replicate d.numOfQps CmaNode.zero) false false
  simp only [rdmaCmAllocateNodes, Bool.false_eq_true, if_false] at hc
  generalize createIds created 0 (List.replicate d.numOfQps CmaNode.zero) = r at *
  obtain ⟨ms, o⟩ := r
  cases o with
  | some k => cases (Prod.mk.inj hc).2
  | none =>
    obtain ⟨rfl, -⟩ := Prod.mk.inj hc
    have hzero : ∀ n ∈ List.replicate d.numOfQps CmaNode.zero, n = CmaNode.zero := fun n hn =>
      List.eq_of_mem_replicate hn
    have hkept : Cma.Kept d
        { rai := false, nodes := List.replicate d.numOfQps .zero, connectsLeft := d.numOfQps
          disconnectsLeft := 0, pd := false, ahAllocated := false } := by
      refine ⟨List.length_replicate, fun n hn hc => ?_, fun n hn ha => ?_⟩
      · rw [hzero n hn] at hc
        cases hc
      · rw [hzero n hn] at ha
        cases ha
    refine ⟨hkept.step hch fun h => h, fun n hn => ?_⟩
    obtain ⟨k, hk⟩ := List.mem_iff_getElem?.mp hn
    obtain ⟨m, hm, hchange⟩ := exists_of_forall₂ hch hk
    rw [hzero m (List.mem_of_getElem? hm)] at hchange
    exact hchange.of_zero

namespace OwnedClient

variable {d : PerftestParameters} {o o' : OwnedClient}

/-- The invariant of the runs whose clean-ups are all of tidy nodes. -/
structure Inv (d : PerftestParameters) (o : OwnedClient) : Prop where
  kept : o.client.cma.Kept d
  own : o.OwnQps
  ready : o.client.phase.isOpen = true → ∀ n ∈ o.client.cma.nodes, n.qp = true → n.cmaId.isSome

theorem Inv.of_init (h : Init d o) : Inv d o := by
  obtain ⟨hinit, -⟩ := h
  obtain ⟨hkept, hqp⟩ := Cma.Kept.of_init hinit
  refine ⟨hkept, fun k n hn hq _ => ?_, fun _ n hn hq => ?_⟩
  · rw [hqp n (List.mem_of_getElem? hn)] at hq
    cases hq
  · rw [hqp n hn] at hq
    cases hq

/-- Where an action starts, every queue pair belongs to a node with an id. -/
theorem Inv.qp_live {a : CmAction} {t : CmClient} (h : Inv d o) (ht : a.tidy o = true)
    (ha : o.client.act d a = some t) : ∀ n ∈ o.client.cma.nodes, n.qp = true → n.cmaId.isSome := by
  have hopen : ∀ {i}, o.client.phase = .start i ∨ o.client.phase = .events i →
      ∀ n ∈ o.client.cma.nodes, n.qp = true → n.cmaId.isSome := by
    rintro i (hp | hp) <;> exact h.ready (by rw [hp]; rfl)
  rcases CmClient.act_cases ha with ⟨-, -, -, -, -, i, -, -, hp, -⟩ | ⟨-, -, i, -, hp, -⟩ |
    ⟨i, -, hp, -⟩ | ⟨destroyed, i, rfl, -, -⟩
  · exact hopen (.inl hp)
  · exact hopen (.inr hp)
  · exact hopen (.inr hp)
  · intro n hn hq
    have hall := List.all_eq_true.mp ht n hn
    simp only [hq, Bool.or_eq_true, Bool.not_true, Bool.false_and, Bool.false_eq_true,
      or_false] at hall
    exact hall.elim (h.kept.live n hn) fun hid => hid

theorem Inv.step {a : CmAction} (h : Inv d o) (ht : a.tidy o = true) (hd : a.delivered o = true)
    (ha : o.act d a = some o') : Inv d o' := by
  obtain ⟨t, hact, rfl⟩ := Option.map_eq_some_iff.mp ha
  obtain ⟨hn, hah⟩ := changes_of_act hact (Bool.and_eq_true_iff.mp hd).2
  have hlive := h.qp_live ht hact
  refine ⟨h.kept.step hn hah, fun k n' hn' hq hid => ?_, fun hopen n' hn' hq => ?_⟩
  · obtain ⟨n, hkn, hch⟩ := exists_of_forall₂ hn hn'
    have hown : n.qp = true → n.cmaId.isSome → o.owner k = n.cmaId := h.own k n hkn
    have hqn := hlive n (List.mem_of_getElem? hkn)
    simp only [hn', hkn, Option.any_some, hq, if_true, Option.bind_some]
    cases hch with
    | other id qp con ah =>
      have hq' : n.qp = true := qp ▸ hq
      rw [if_pos hq', id]
      exact hown hq' (hqn hq')
    | identified gone id qp con ah =>
      have hq' : n.qp = true := qp ▸ hq
      have hsome := hqn hq'
      rw [gone] at hsome
      cases hsome
    | connecting live id con ah =>
      rw [id]
      split
      next hq' => exact hown hq' live
      next => rfl
    | refused hf id con ah =>
      rw [id] at hid
      cases hid
    | destroyed con qp ah =>
      rw [qp] at hq
      cases hq
  · obtain ⟨k, hk⟩ := List.mem_iff_getElem?.mp hn'
    obtain ⟨n, hkn, hch⟩ := exists_of_forall₂ hn hk
    have hqn := hlive n (List.mem_of_getElem? hkn)
    cases hch with
    | other id qp con ah =>
      rw [id]
      exact hqn (qp ▸ hq)
    | identified gone id qp con ah => exact id
    | connecting live id con ah =>
      rw [id]
      exact live
    | refused hf id con ah =>
      rw [hopen] at hf
      cases hf
    | destroyed con qp ah =>
      rw [qp] at hq
      cases hq

theorem Inv.of_reachable (h : TidyReachable d o) : Inv d o := by
  apply Transition.Reachable.invariant (fun _ => Inv.of_init) ?_ h
  rintro s t hi ⟨a, ha⟩
  obtain ⟨ht, ha⟩ := Transition.guarded_eq_some.mp ha
  obtain ⟨hd, ha⟩ := Transition.guarded_eq_some.mp ha
  exact hi.step ht hd ha

theorem Reachable.kept (h : Reachable d o) : o.client.cma.Kept d := by
  apply Transition.Reachable.invariant (P := fun o => o.client.cma.Kept d)
    (fun _ hs => (Cma.Kept.of_init hs.1).1) ?_ h
  rintro s t hk ⟨a, ha⟩
  obtain ⟨hd, ha⟩ := Transition.guarded_eq_some.mp ha
  obtain ⟨u, hact, rfl⟩ := Option.map_eq_some_iff.mp ha
  obtain ⟨hn, hah⟩ := changes_of_act hact (Bool.and_eq_true_iff.mp hd).2
  exact hk.step hn hah

end OwnedClient

/-- A clean-up that returns SUCCESS leaves what it should exactly where no node has lost its id with
its queue pair still there; where that holds for every clean-up of a run, no queue pair of a
destroyed id is used again. -/
theorem rdmaCmDestroyCma_cleanedUp_iff (d : PerftestParameters) :
    (∀ o, OwnedClient.Reachable d o → ∀ destroyed c',
      rdmaCmDestroyCma d destroyed o.client.cma = (c', true) →
      (CleanedUp (destroyCalls o.client.cma.ahAllocated destroyed 0 o.client.cma.nodes)
        o.client.cma c' ↔ o.client.cma.tidy = true)) ∧
    ∀ o, OwnedClient.TidyReachable d o → o.OwnQps :=
  ⟨fun _ hr _ _ hc => ⟨tidy_of_cleanedUp hc, fun ht => cleanedUp_of_tidy hr.kept ht hc⟩,
    fun _ hr => (OwnedClient.Inv.of_reachable hr).own⟩

/-- `ib_write_bw -R` against a server. -/
def oneQpClient : PerftestParameters :=
  { initPerftestParams { verb := .write, tst := .bw, rawEth := false } {} with
    machine := .client, workRdmaCm := true }

def OwnedClient.oneNode : OwnedClient :=
  { client :=
      { cma :=
          { rai := false, nodes := [{ CmaNode.zero with cmaId := some 0 }], connectsLeft := 1
            disconnectsLeft := 0, pd := false, ahAllocated := false }
        phase := .start 0 }
    owner := fun _ => none }

theorem oneNode_init : OwnedClient.Init oneQpClient .oneNode :=
  ⟨⟨some, fun _ => true, true, OwnedClient.oneNode.client.cma, rfl, rfl⟩, rfl⟩

/-- The first attempt, up to the queue pair, which `rdma_connect` then takes or refuses. -/
def CmAction.connectAttempt (connect : Bool) : List CmAction :=
  [.attempt some (fun _ => true) true true fun _ => true, .event ⟨.addrResolved, 0, 0, 0⟩ {},
    .event ⟨.routeResolved, 0, 0, 0⟩ { connect := connect }]

theorem rejected_cleanedUp : ∃ o c', OwnedClient.Reachable oneQpClient o ∧
    rdmaCmDestroyCma oneQpClient (fun _ => true) o.client.cma = (c', true) ∧
      CleanedUp (destroyCalls o.client.cma.ahAllocated (fun _ => true) 0 o.client.cma.nodes)
        o.client.cma c' := by
  obtain ⟨o, ho, hp⟩ := Transition.exists_of_run (OwnedClient.Init oneQpClient)
    (Transition.guarded CmAction.delivered (OwnedClient.act oneQpClient))
    (CmAction.connectAttempt true ++ [.event ⟨.rejected, 0, 0, 0⟩ {}]) .oneNode
    (fun o => (rdmaCmDestroyCma oneQpClient (fun _ => true) o.client.cma).2 && o.client.cma.tidy)
    oneNode_init (by decide +kernel)
  obtain ⟨hs, ht⟩ := Bool.and_eq_true_iff.mp hp
  exact ⟨o, _, ho, Prod.ext rfl hs,
    ((rdmaCmDestroyCma_cleanedUp_iff oneQpClient).1 o ho _ _ (Prod.ext rfl hs)).mpr ht⟩

/-- A failed `rdma_connect` leaves its queue pair behind, and the retry takes it for a new id. -/
theorem refusedConnect_not_cleanedUp :
    (¬ ∀ o, OwnedClient.Reachable oneQpClient o → ∀ destroyed c',
      rdmaCmDestroyCma oneQpClient destroyed o.client.cma = (c', true) →
        CleanedUp (destroyCalls o.client.cma.ahAllocated destroyed 0 o.client.cma.nodes)
          o.client.cma c') ∧
      ¬ ∀ o, OwnedClient.Reachable oneQpClient o → o.OwnQps := by
  constructor
  · intro h
    obtain ⟨o, ho, hp⟩ := Transition.exists_of_run (OwnedClient.Init oneQpClient)
      (Transition.guarded CmAction.delivered (OwnedClient.act oneQpClient))
      (CmAction.connectAttempt false) .oneNode
      (fun o => (rdmaCmDestroyCma oneQpClient (fun _ => true) o.client.cma).2 &&
        !o.client.cma.tidy) oneNode_init (by decide +kernel)
    obtain ⟨hs, ht⟩ := Bool.and_eq_true_iff.mp hp
    have hc := tidy_of_cleanedUp (Prod.ext rfl hs) (h o ho (fun _ => true) _ (Prod.ext rfl hs))
    rw [hc] at ht
    cases ht
  · intro h
    obtain ⟨o, ho, hp⟩ := Transition.exists_of_run (OwnedClient.Init oneQpClient)
      (Transition.guarded CmAction.delivered (OwnedClient.act oneQpClient))
      (CmAction.connectAttempt false ++ [.destroy fun _ => true,
        .attempt (fun _ => some 1) (fun _ => true) true true fun _ => true]) .oneNode
      (fun o => (o.client.cma.nodes[0]?).any fun n : CmaNode =>
        n.qp && decide (n.cmaId = some 1) && decide (o.owner 0 = some 0))
      oneNode_init (by decide +kernel)
    obtain ⟨n, hn, hp⟩ := (Option.any_eq_true _ _).mp hp
    simp only [Bool.and_eq_true, decide_eq_true_eq] at hp
    have hown := h o ho 0 n hn hp.1.1 (by rw [hp.1.2]; rfl)
    rw [hp.2, hp.1.2] at hown
    cases hown

end Perftest
