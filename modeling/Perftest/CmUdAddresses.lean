import Perftest.CmOwners
import Perftest.PostAgreement

namespace Perftest

open Transition

/-- What an ESTABLISHED event of a UD connection carries; `ah` is the address handle that
`ibv_create_ah` makes of its `ah_attr`. -/
structure UdParam where
  qpNum : Nat
  qkey : Nat
  ah : Nat
deriving DecidableEq, Repr

/-- The address of a request. -/
def SendWr.udParam (w : SendWr) : UdParam := ⟨w.udRemoteQpn, w.udRemoteQkey, w.udAh⟩

/-- The client with the handles of `ctx->ah`, what the ESTABLISHED event for each id carried, and
for each entry the number of the node whose event was the last to write it. -/
structure UdClient where
  client : CmClient
  ah : Nat → Nat
  carried : Nat → Option UdParam
  writer : Nat → Option Nat

/-- The requests of a SEND test over UD whose addresses the connection manager brings. -/
def PerftestParameters.sendsUd (q : PerftestParameters) : Bool :=
  q.connectionType = .ud && q.workRdmaCm && (q.verb = .send || q.verb = .sendImm)

theorem PerftestParameters.connectionType_of_sendsUd {q : PerftestParameters}
    (hs : q.sendsUd = true) : q.connectionType = .ud := by
  simp only [sendsUd, Bool.and_eq_true, decide_eq_true_eq] at hs
  exact hs.1.1

/-- An ESTABLISHED event is for the node that `disconnects_left` numbers. -/
def CmAction.inOrder : CmAction → CmClient → Bool
  | .event e _, s => e.event ≠ .established ||
      connectionIndex s.cma.nodes e.id = some s.cma.disconnectsLeft.toNat
  | _, _ => true

namespace UdClient

/-- The second part of an action is the handle that `ibv_create_ah` returns for its event. -/
def act (d : PerftestParameters) (a : CmAction × Nat) (o : UdClient) : Option UdClient :=
  (o.client.act d a.1).map fun t => match a.1 with
    | .event e _ =>
      if e.event = .established ∧ d.connectionType = .ud then
        { client := t
          ah := Function.update o.ah o.client.cma.disconnectsLeft.toNat a.2
          carried := Function.update o.carried e.id (some ⟨e.qpNum, e.qkey, a.2⟩)
          writer := Function.update o.writer o.client.cma.disconnectsLeft.toNat
            (connectionIndex o.client.cma.nodes e.id) }
      else { o with client := t }
    | _ => { o with client := t }

def Init (d : PerftestParameters) (o : UdClient) : Prop :=
  CmClient.Init d o.client ∧ o.ah = (fun _ => 0) ∧ o.carried = (fun _ => none) ∧
    o.writer = fun _ => none

def delivered (a : CmAction × Nat) (o : UdClient) : Bool :=
  a.1.deliverable o.client && a.1.routedOnce o.client

/-- The client in which events arrive as the connection manager sends them. -/
def step (d : PerftestParameters) : CmAction × Nat → UdClient → Option UdClient :=
  guarded delivered (act d)

/-- The address that the entries of node `i` hold. -/
def entryOf (o : UdClient) (i : Nat) : UdParam where
  qpNum := (o.client.cma.nodes[i]?).elim 0 (·.remoteQpn)
  qkey := (o.client.cma.nodes[i]?).elim 0 (·.remoteQkey)
  ah := if (o.client.cma.nodes[i]?).any (·.ah) then o.ah i else 0

/-- What `ctx_set_send_reg_wqes` finds. -/
def wqeCtx (o : UdClient) (x : WqeCtx) : WqeCtx :=
  { x with
    ah := fun i => (o.entryOf i).ah
    cmRemoteQpn := fun i => (o.entryOf i).qpNum
    cmRemoteQkey := fun i => (o.entryOf i).qkey }

end UdClient

/-- The requests of each connected QP have the address that the event for its own id carried, and
no entry holds what the event of another node wrote. -/
structure UdAddressed (q : PerftestParameters) (o : UdClient) : Prop where
  own : ∀ (x : WqeCtx) (i j : Nat) (n : CmaNode), i < q.wqeQps → j < q.listLength →
    o.client.cma.nodes[i]? = some n → n.connected = true →
      n.cmaId.bind o.carried =
        some (q.ctxSetSendRegWqes (o.wqeCtx x) (i * q.listLength + j)).udParam
  apart : ∀ i j, o.writer i = some j → j = i

/-- A node that is connected behind a change was so before, with the same id and address. -/
structure CmaNode.Quiet (n n' : CmaNode) : Prop where
  connected : n.connected = true
  id : n'.cmaId = n.cmaId
  established : n.established = true → n'.established = true
  remoteQpn : n'.remoteQpn = n.remoteQpn
  remoteQkey : n'.remoteQkey = n.remoteQkey
  ah : n'.ah = n.ah

/-- A change that brings no connection and leaves the connected nodes alone. -/
def CmaNode.Rests (n n' : CmaNode) : Prop := n'.connected = true → n.Quiet n'

/-- A connected node has an id that had its ESTABLISHED event. -/
def Cma.Live (c : Cma) : Prop :=
  ∀ n ∈ c.nodes, n.connected = true → n.cmaId.isSome ∧ n.established = true

namespace CmaNode

theorem Rests.refl (n : CmaNode) : n.Rests n := fun h => ⟨h, rfl, fun h => h, rfl, rfl, rfl⟩

theorem Rests.trans {n m n' : CmaNode} (h : n.Rests m) (h' : m.Rests n') : n.Rests n' := by
  intro hc
  have hm := h' hc
  have hn := h hm.connected
  exact ⟨hn.connected, hm.id.trans hn.id, fun he => hm.established (hn.established he),
    hm.remoteQpn.trans hn.remoteQpn, hm.remoteQkey.trans hn.remoteQkey, hm.ah.trans hn.ah⟩

theorem Rests.of_unconnected {n n' : CmaNode} (h : n'.connected = false) : n.Rests n' := by
  intro hc
  rw [h] at hc
  cases hc

theorem rests_called (n : CmaNode) (call : CmCall) : n.Rests (n.called call) := by
  unfold called
  split
  next hc => exact fun _ => ⟨hc, rfl, fun h => h, rfl, rfl, rfl⟩
  next => exact .refl n

end CmaNode

section Resting

variable {d : PerftestParameters} {c : Cma} {ns ms : List CmaNode}

theorem rests_refl (ns : List CmaNode) : List.Forall₂ CmaNode.Rests ns ns :=
  List.forall₂_same.mpr fun n _ => .refl n

theorem rests_trans {ns' : List CmaNode} (h : List.Forall₂ CmaNode.Rests ns ms)
    (h' : List.Forall₂ CmaNode.Rests ms ns') : List.Forall₂ CmaNode.Rests ns ns' :=
  forall₂_comp h h' fun _ _ _ => .trans

theorem destroyBelow_rests (destroyed : Nat → Bool) (k : Nat) (ns : List CmaNode) :
    List.Forall₂ CmaNode.Rests ns (destroyBelow destroyed k ns) := by
  induction k generalizing ns with
  | zero => exact rests_refl ns
  | succ k ih =>
    have hstep : List.Forall₂ CmaNode.Rests ns (ns.modify k (CmaNode.called .destroyId)) :=
      forall₂_modify CmaNode.Rests.refl fun n _ => n.rests_called _
    unfold destroyBelow
    split
    next => exact rests_trans hstep (ih _)
    next => exact hstep

theorem resolveAddrs_rests (resolved : Nat → Bool) (i : Nat) (ns : List CmaNode) :
    List.Forall₂ CmaNode.Rests ns (resolveAddrs resolved i ns).1 := by
  induction ns generalizing i with
  | nil => exact .nil
  | cons n ns ih =>
    unfold resolveAddrs
    split
    next => exact .cons (.refl n) (ih (i + 1))
    next =>
      split
      next => exact .cons (n.rests_called _) (ih (i + 1))
      next => exact .cons (n.rests_called _) (rests_refl ns)

/-- Only nodes without an id get a new one, and these are not connected. -/
theorem createIds_rests (created : Nat → Option Nat) (i : Nat)
    (hl : ∀ n ∈ ns, n.connected = true → n.cmaId.isSome) :
    List.Forall₂ CmaNode.Rests ns (createIds created i ns).1 := by
  induction ns generalizing i with
  | nil => exact .nil
  | cons n ns ih =>
    have hrest := ih (i + 1) fun m hm => hl m (List.mem_cons_of_mem _ hm)
    unfold createIds
    split
    next => exact .cons (.refl n) hrest
    next hid =>
      split
      next id _ =>
        have hn : n.connected = false := by
          by_contra hc
          exact hid (hl n List.mem_cons_self (by simpa using hc))
        refine .cons (.of_unconnected ?_) hrest
        rw [CmaNode.called_eq hn]
        exact hn
      next => exact rests_refl _

theorem destroyIds_rests (ahAllocated : Bool) (destroyed : Nat → Bool) (i : Nat)
    (ns : List CmaNode) :
    List.Forall₂ CmaNode.Rests ns (destroyIds ahAllocated destroyed i ns).1 := by
  induction ns generalizing i with
  | nil => exact .nil
  | cons n ns ih =>
    unfold destroyIds
    split
    next => exact .cons (.refl n) (ih (i + 1))
    next hc =>
      have hc' : n.connected = false := by simpa using (not_or.mp hc).2
      have hn : (n.release ahAllocated).connected = false := hc'
      dsimp only
      rw [CmaNode.called_eq hn]
      split
      next => exact .cons (.of_unconnected hn) (ih (i + 1))
      next => exact .cons (.of_unconnected hn) (rests_refl ns)

theorem allocate_rests (created : Nat → Option Nat) (destroyed : Nat → Bool) (source : Bool)
    (hl : c.Live) : List.Forall₂ CmaNode.Rests c.nodes
      (rdmaCmAllocateNodes d created destroyed source true c).1.nodes := by
  have hc := createIds_rests created 0 fun n hn h => (hl n hn h).1
  unfold rdmaCmAllocateNodes
  simp only [if_true]
  generalize createIds created 0 c.nodes = r at *
  obtain ⟨ns, o⟩ := r
  cases o with
  | none => exact hc
  | some k => exact rests_trans hc (destroyBelow_rests destroyed k ns)

theorem resolve_rests (address : Bool) (resolved : Nat → Bool) (c : Cma) :
    List.Forall₂ CmaNode.Rests c.nodes (rdmaCmResolve address resolved c).1.nodes := by
  have hr := resolveAddrs_rests resolved 0 c.nodes
  unfold rdmaCmResolve
  split
  next => exact rests_refl _
  next =>
    generalize resolveAddrs resolved 0 c.nodes = r at *
    obtain ⟨ns, ok⟩ := r
    cases ok <;> exact hr

theorem destroyCma_rests (destroyed : Nat → Bool) (c : Cma) :
    List.Forall₂ CmaNode.Rests c.nodes (rdmaCmDestroyCma d destroyed c).1.nodes := by
  have hc := destroyIds_rests c.ahAllocated destroyed 0 c.nodes
  unfold rdmaCmDestroyCma
  generalize destroyIds c.ahAllocated destroyed 0 c.nodes = r at *
  obtain ⟨ns, ok⟩ := r
  cases ok <;> exact hc

theorem routeHandler_rests (ans : CmAnswers) {id : Nat}
    (hid : ∀ n ∈ c.nodes, n.cmaId = some id → n.connected = false) :
    List.Forall₂ CmaNode.Rests c.nodes (rdmaCmRouteHandler ans id c).1.nodes := by
  unfold rdmaCmRouteHandler
  split
  next => exact rests_refl _
  next k hk =>
    obtain ⟨n, hn, hi⟩ := connectionIndex_some hk
    have hu : ∀ m, c.nodes[k]? = some m → m.connecting.connected = false := by
      intro m hm
      obtain rfl := Option.some.inj (hn.symm.trans hm)
      have hc := hid n (List.mem_of_getElem? hn) hi
      rw [CmaNode.connecting_eq hc]
      exact hc
    split
    next => exact rests_refl _
    next =>
      split
      next => exact rests_refl _
      next =>
        split
        next => exact forall₂_modify CmaNode.Rests.refl fun m hm => .of_unconnected (hu m hm)
        next => exact forall₂_modify CmaNode.Rests.refl fun m hm => .of_unconnected (hu m hm)

/-- No other event than ESTABLISHED connects a node. -/
theorem dispatcher_rests (ans : CmAnswers) {e : CmEvent} (he : e.event ≠ .established)
    (hr : e.event = .routeResolved →
      ∀ n ∈ c.nodes, n.cmaId = some e.id → n.connected = false) :
    List.Forall₂ CmaNode.Rests c.nodes (rdmaCmEventsDispatcher d ans e (c.deliver e)).1.nodes := by
  rw [Cma.deliver, if_neg he]
  unfold rdmaCmEventsDispatcher
  cases hk : e.event with
  | addrResolved =>
    dsimp only
    unfold rdmaCmAddressHandler
    split_ifs <;> exact rests_refl _
  | routeResolved => exact routeHandler_rests ans (hr hk)
  | established => exact absurd hk he
  | addrError => exact rests_refl _
  | routeError => exact rests_refl _
  | connectError => exact rests_refl _
  | unreachable => exact rests_refl _
  | rejected => exact rests_refl _
  | disconnected => exact rests_refl _
  | deviceRemoval => exact rests_refl _
  | other => exact rests_refl _

end Resting

/-- What an ESTABLISHED event makes of node `j`: it takes the address of the event where
`disconnects_left` numbers it, and is connected where the event is for its id. -/
structure CmaNode.Reached (ans : CmAnswers) (e : CmEvent) (c : Cma) (j : Nat) (n n' : CmaNode) :
    Prop where
  id : n'.cmaId = n.cmaId
  established : n.established = true → n'.established = true
  connected : n'.connected = true → n.connected = true ∨
    connectionIndex c.nodes e.id = some j ∧ n'.established = true ∧ ans.createAh = true
  own : j = c.disconnectsLeft.toNat →
    n'.remoteQpn = e.qpNum ∧ n'.remoteQkey = e.qkey ∧ n'.ah = ans.createAh
  other : j ≠ c.disconnectsLeft.toNat →
    n'.remoteQpn = n.remoteQpn ∧ n'.remoteQkey = n.remoteQkey ∧ n'.ah = n.ah

section Established

variable {d : PerftestParameters} {c : Cma} {e : CmEvent} {ns ms : List CmaNode}

theorem connectionIndex_congr (h : ns.map (·.cmaId) = ms.map (·.cmaId)) (id : Nat) :
    connectionIndex ns id = connectionIndex ms id := by
  have hmap : ∀ l : List CmaNode, connectionIndex l id =
      (l.map (·.cmaId)).findIdx? fun i => decide (i = some id) := by
    intro l
    rw [List.findIdx?_map]
    rfl
  rw [hmap, hmap, h]

/-- A node when the event is delivered. -/
def CmaNode.delivered (e : CmEvent) (n : CmaNode) : CmaNode :=
  if n.cmaId = some e.id then { n with established := true } else n

theorem CmaNode.delivered_same (e : CmEvent) (n : CmaNode) :
    (n.delivered e).cmaId = n.cmaId ∧ (n.delivered e).connected = n.connected ∧
      (n.delivered e).remoteQpn = n.remoteQpn ∧ (n.delivered e).remoteQkey = n.remoteQkey ∧
      (n.delivered e).ah = n.ah := by
  unfold delivered
  split <;> exact ⟨rfl, rfl, rfl, rfl, rfl⟩

theorem CmaNode.delivered_established {e : CmEvent} {n : CmaNode}
    (h : n.established = true ∨ n.cmaId = some e.id) : (n.delivered e).established = true := by
  unfold delivered
  split
  next => rfl
  next hid => exact h.resolve_right hid

/-- A node with the address of an event. -/
def CmaNode.addressed (ans : CmAnswers) (e : CmEvent) (n : CmaNode) : CmaNode :=
  { n with remoteQpn := e.qpNum, remoteQkey := e.qkey, ah := ans.createAh }

/-- The nodes behind `rdma_cm_establish_ud_connection`. -/
def udNodes (ans : CmAnswers) (e : CmEvent) (c : Cma) : List CmaNode :=
  (c.nodes.map (CmaNode.delivered e)).modify c.disconnectsLeft.toNat (CmaNode.addressed ans e)

theorem udNodes_getElem? (ans : CmAnswers) (e : CmEvent) (c : Cma) (j : Nat) :
    (udNodes ans e c)[j]? = c.nodes[j]?.map fun n =>
      if c.disconnectsLeft.toNat = j then (n.delivered e).addressed ans e else n.delivered e := by
  rw [udNodes, List.getElem?_modify, List.getElem?_map]
  cases c.nodes[j]? <;> rfl

theorem udNodes_reached {ans : CmAnswers} {j : Nat} {m : CmaNode}
    (hm : (udNodes ans e c)[j]? = some m) :
    ∃ n, c.nodes[j]? = some n ∧ n.Reached ans e c j m ∧
      (n.cmaId = some e.id → m.established = true) := by
  rw [udNodes_getElem?] at hm
  obtain ⟨n, hn, rfl⟩ := Option.map_eq_some_iff.mp hm
  obtain ⟨hid, hcon, hqpn, hqkey, hah⟩ := n.delivered_same e
  refine ⟨n, hn, ?_⟩
  split
  next hj =>
    refine ⟨⟨hid, fun h => ?_, fun h => .inl (hcon ▸ h), fun _ => ⟨rfl, rfl, rfl⟩, fun hne => ?_⟩,
      fun h => ?_⟩
    · exact CmaNode.delivered_established (.inl h)
    · exact absurd hj.symm hne
    · exact CmaNode.delivered_established (.inr h)
  next hj =>
    refine ⟨⟨hid, fun h => ?_, fun h => .inl (hcon ▸ h), fun heq => ?_, fun _ => ?_⟩, fun h => ?_⟩
    · exact CmaNode.delivered_established (.inl h)
    · exact absurd heq.symm hj
    · exact ⟨hqpn, hqkey, hah⟩
    · exact CmaNode.delivered_established (.inr h)

theorem connectionIndex_udNodes (ans : CmAnswers) (e : CmEvent) (c : Cma) :
    connectionIndex (udNodes ans e c) e.id = connectionIndex c.nodes e.id := by
  apply connectionIndex_congr
  apply List.ext_getElem?
  intro j
  rw [List.getElem?_map, List.getElem?_map, udNodes_getElem?]
  cases c.nodes[j]? with
  | none => rfl
  | some n =>
    have hid := (n.delivered_same e).1
    apply congrArg some
    dsimp only
    split <;> exact hid

theorem establishUd_nodes (ans : CmAnswers) (hud : d.connectionType = .ud)
    (he : e.event = .established) :
    (rdmaCmEstablishUdConnection d ans e (c.deliver e)).1.nodes = udNodes ans e c ∧
      ((rdmaCmEstablishUdConnection d ans e (c.deliver e)).2 = true → ans.createAh = true) := by
  rw [rdmaCmEstablishUdConnection, if_neg (not_not_intro hud), Cma.deliver, if_pos he]
  dsimp only
  split
  next => exact ⟨rfl, fun h => by cases h⟩
  next hah => exact ⟨rfl, fun _ => by simpa using hah⟩

theorem establishedHandler_nodes (ans : CmAnswers) (e : CmEvent) (c : Cma) :
    (rdmaCmConnectionEstablishedHandler d ans e c).1.nodes =
        (rdmaCmEstablishUdConnection d ans e c).1.nodes ∨
      (rdmaCmEstablishUdConnection d ans e c).2 = true ∧
        ∃ k, connectionIndex (rdmaCmEstablishUdConnection d ans e c).1.nodes e.id = some k ∧
          (rdmaCmConnectionEstablishedHandler d ans e c).1.nodes =
            (rdmaCmEstablishUdConnection d ans e c).1.nodes.modify k CmaNode.connect := by
  unfold rdmaCmConnectionEstablishedHandler
  generalize rdmaCmEstablishUdConnection d ans e c = r
  obtain ⟨c₁, ok⟩ := r
  cases ok with
  | false => exact .inl rfl
  | true =>
    dsimp only
    cases hk : connectionIndex c₁.nodes e.id with
    | none =>
      left
      split <;> rfl
    | some k =>
      refine .inr ⟨rfl, k, rfl, ?_⟩
      split <;> rfl

/-- An ESTABLISHED event over UD writes one entry and connects at most the node it is for. -/
theorem dispatcher_reached (ans : CmAnswers) (hud : d.connectionType = .ud)
    (he : e.event = .established) {j : Nat} {n' : CmaNode}
    (hn' : (rdmaCmEventsDispatcher d ans e (c.deliver e)).1.nodes[j]? = some n') :
    ∃ n, c.nodes[j]? = some n ∧ n.Reached ans e c j n' := by
  obtain ⟨hnodes, hah⟩ := establishUd_nodes (c := c) ans hud he
  have hcases := establishedHandler_nodes (d := d) ans e (c.deliver e)
  rw [rdmaCmEventsDispatcher, he] at hn'
  rw [hnodes] at hcases
  rcases hcases with heq | ⟨hok, k, hk, heq⟩
  · rw [heq] at hn'
    obtain ⟨n, hn, hr, -⟩ := udNodes_reached hn'
    exact ⟨n, hn, hr⟩
  · rw [heq, List.getElem?_modify] at hn'
    obtain ⟨m, hm, rfl⟩ := Option.map_eq_some_iff.mp hn'
    obtain ⟨n, hn, hr, hest⟩ := udNodes_reached hm
    refine ⟨n, hn, ?_⟩
    split
    next hkj =>
      subst hkj
      have hidx := (connectionIndex_udNodes ans e c).symm.trans hk
      obtain ⟨n₁, hn₁, hi⟩ := connectionIndex_some hidx
      obtain rfl := Option.some.inj (hn.symm.trans hn₁)
      exact ⟨hr.id, hr.established, fun _ => .inr ⟨hidx, hest hi, hah hok⟩, hr.own, hr.other⟩
    next => exact hr

end Established

namespace UdClient

variable {d : PerftestParameters} {o o' : UdClient} {a : CmAction × Nat}

/-- What an action that is no ESTABLISHED event does. -/
theorem rests_of_act {a : CmAction} {s t : CmClient} (ha : CmClient.act d a s = some t)
    (hr : a.routedOnce s = true) (hl : s.cma.Live)
    (he : ∀ e ans, a = .event e ans → e.event ≠ .established) :
    List.Forall₂ CmaNode.Rests s.cma.nodes t.cma.nodes := by
  rcases CmClient.act_cases ha with
    ⟨created, destroyed, source, address, resolved, i, c, rfl, -, ⟨hc, ht⟩ | hc⟩ |
    ⟨e, ans, i, rfl, -, ht, -⟩ | ⟨i, -, -, ht⟩ | ⟨destroyed, i, rfl, -, ht⟩
  · have hresolve := resolve_rests address resolved c
    rw [← ht] at hresolve
    rcases hc with rfl | hc
    · exact hresolve
    · have hall := allocate_rests (d := d) created destroyed source hl
      rw [hc] at hall
      exact rests_trans hall hresolve
  · have hall := allocate_rests (d := d) created destroyed source hl
    rwa [hc] at hall
  · simp only [CmAction.routedOnce, Bool.or_eq_true, decide_eq_true_eq, List.all_eq_true,
      Bool.not_eq_true'] at hr
    rw [ht]
    apply dispatcher_rests ans (he e ans rfl)
    intro hroute n hn hi
    exact ((hr.resolve_left fun hne => hne hroute) n hn).resolve_left fun hne => hne hi
  · rw [ht]
    exact rests_refl _
  · rw [ht]
    exact destroyCma_rests destroyed s.cma

/-- What an action makes of the client and its history. -/
theorem step_cases (hud : d.connectionType = .ud) (h : step d a o = some o') :
    delivered a o = true ∧ ∃ t, o.client.act d a.1 = some t ∧
      ((∃ e ans, a.1 = .event e ans ∧ e.event = .established ∧
          o' = ⟨t, Function.update o.ah o.client.cma.disconnectsLeft.toNat a.2,
            Function.update o.carried e.id (some ⟨e.qpNum, e.qkey, a.2⟩),
            Function.update o.writer o.client.cma.disconnectsLeft.toNat
              (connectionIndex o.client.cma.nodes e.id)⟩) ∨
        (∀ e ans, a.1 = .event e ans → e.event ≠ .established) ∧ o' = { o with client := t }) := by
  obtain ⟨hd, h⟩ := guarded_eq_some.mp h
  obtain ⟨t, ht, rfl⟩ := Option.map_eq_some_iff.mp h
  refine ⟨hd, t, ht, ?_⟩
  cases ha : a.1 with
  | event e ans =>
    by_cases he : e.event = .established
    · refine .inl ⟨e, ans, rfl, he, ?_⟩
      dsimp only
      rw [if_pos ⟨he, hud⟩]
    · refine .inr ⟨fun e' ans' heq => ?_, ?_⟩
      · cases heq
        exact he
      · dsimp only
        rw [if_neg fun hh => he hh.1]
  | attempt created destroyed source address resolved =>
    exact .inr ⟨fun _ _ heq => (by cases heq), rfl⟩
  | noEvent => exact .inr ⟨fun _ _ heq => (by cases heq), rfl⟩
  | leave => exact .inr ⟨fun _ _ heq => (by cases heq), rfl⟩
  | destroy destroyed => exact .inr ⟨fun _ _ heq => (by cases heq), rfl⟩

theorem reached_of_act {e : CmEvent} {ans : CmAnswers} {s t : CmClient}
    (hud : d.connectionType = .ud) (he : e.event = .established)
    (ha : CmClient.act d (.event e ans) s = some t) {j : Nat} {n' : CmaNode}
    (hn' : t.cma.nodes[j]? = some n') :
    ∃ n, s.cma.nodes[j]? = some n ∧ n.Reached ans e s.cma j n' := by
  rcases CmClient.act_cases ha with ⟨_, _, _, _, _, _, _, heq, -⟩ | ⟨_, _, _, heq, -, ht, -⟩ |
    ⟨_, heq | heq, -⟩ | ⟨_, _, heq, -⟩
  · cases heq
  · obtain ⟨rfl, rfl⟩ := CmAction.event.inj heq
    rw [ht] at hn'
    exact dispatcher_reached ans hud he hn'
  all_goals cases heq

/-- An ESTABLISHED event is for the id of a node, and of none that had one before. -/
theorem deliverable_established {e : CmEvent} {ans : CmAnswers} {s : CmClient}
    (h : CmAction.deliverable (.event e ans) s = true) (he : e.event = .established) :
    (∃ k, connectionIndex s.cma.nodes e.id = some k) ∧
      ∀ n ∈ s.cma.nodes, n.cmaId = some e.id → n.established = false := by
  simp only [CmAction.deliverable, Bool.and_eq_true, Bool.or_eq_true, decide_eq_true_eq,
    List.any_eq_true, List.all_eq_true, Bool.not_eq_true'] at h
  obtain ⟨⟨-, n, hn, hi⟩, hest⟩ := h
  refine ⟨connectionIndex_of_mem hn hi, fun m hm hmi => ?_⟩
  exact ((hest.resolve_left fun hne => hne he) m hm).resolve_left fun hne => hne hmi

/-- No node is connected at first. -/
theorem unconnected_of_init (h : Init d o) : ∀ n ∈ o.client.cma.nodes, n.connected = false := by
  intro n hn
  obtain ⟨⟨created, destroyed, source, c, hinit, hclient⟩, -⟩ := h
  have hz : ∀ m ∈ List.replicate d.numOfQps CmaNode.zero, m = CmaNode.zero :=
    fun m hm => List.eq_of_mem_replicate hm
  have hrest := createIds_rests created 0 fun m hm hc => by
    rw [hz m hm] at hc
    cases hc
  simp only [rdmaCmAllocateNodes, Bool.false_eq_true, if_false] at hinit
  generalize createIds created 0 (List.replicate d.numOfQps CmaNode.zero) = r at *
  obtain ⟨ms, f⟩ := r
  cases f with
  | some k => cases (Prod.mk.inj hinit).2
  | none =>
    obtain ⟨rfl, -⟩ := Prod.mk.inj hinit
    rw [hclient] at hn
    obtain ⟨k, hk⟩ := List.mem_iff_getElem?.mp hn
    obtain ⟨m, hm, hr⟩ := exists_of_forall₂ hrest hk
    by_contra hc
    have hq := hr (by simpa using hc)
    have hcon := hq.connected
    rw [hz m (List.mem_of_getElem? hm)] at hcon
    cases hcon

theorem live_step (hud : d.connectionType = .ud) (hl : o.client.cma.Live)
    (h : step d a o = some o') : o'.client.cma.Live := by
  intro n' hn' hc
  obtain ⟨j, hj⟩ := List.mem_iff_getElem?.mp hn'
  obtain ⟨hd, t, ht, ⟨e, ans, ha, he, rfl⟩ | ⟨hne, rfl⟩⟩ := step_cases hud h
  · rw [ha] at ht
    obtain ⟨n, hn, hr⟩ := reached_of_act hud he ht hj
    rcases hr.connected hc with hcn | ⟨hidx, hest, -⟩
    · obtain ⟨hid, hest⟩ := hl n (List.mem_of_getElem? hn) hcn
      exact ⟨hr.id ▸ hid, hr.established hest⟩
    · obtain ⟨m, hm, hi⟩ := connectionIndex_some hidx
      obtain rfl := Option.some.inj (hn.symm.trans hm)
      exact ⟨by rw [hr.id, hi]; rfl, hest⟩
  · obtain ⟨n, hn, hr⟩ :=
      exists_of_forall₂ (rests_of_act ht (Bool.and_eq_true_iff.mp hd).2 hl hne) hj
    have hq := hr hc
    obtain ⟨hid, hest⟩ := hl n (List.mem_of_getElem? hn) hq.connected
    exact ⟨hq.id ▸ hid, hq.established hest⟩

theorem entryOf_eq {i : Nat} {n n' : CmaNode} (hn : o.client.cma.nodes[i]? = some n)
    (hn' : o'.client.cma.nodes[i]? = some n') (hqpn : n'.remoteQpn = n.remoteQpn)
    (hqkey : n'.remoteQkey = n.remoteQkey) (hah : n'.ah = n.ah) (hh : o'.ah i = o.ah i) :
    o'.entryOf i = o.entryOf i := by
  rw [entryOf, entryOf, hn, hn']
  simp only [Option.elim_some, Option.any_some, hqpn, hqkey, hah, hh]

/-- Behind an event in order a connected node has the address that came with its id, or is as it was
before. -/
theorem own_step (hud : d.connectionType = .ud) (hl : o.client.cma.Live)
    (h : step d a o = some o') (hord : a.1.inOrder o.client = true) {i : Nat} {n' : CmaNode}
    (hn' : o'.client.cma.nodes[i]? = some n') (hc : n'.connected = true) :
    n'.cmaId.bind o'.carried = some (o'.entryOf i) ∨
      ∃ n, o.client.cma.nodes[i]? = some n ∧ n.connected = true ∧
        n'.cmaId.bind o'.carried = n.cmaId.bind o.carried ∧ o'.entryOf i = o.entryOf i := by
  obtain ⟨hd, t, ht, ⟨e, ans, ha, he, rfl⟩ | ⟨hne, rfl⟩⟩ := step_cases hud h
  · have hdel := (Bool.and_eq_true_iff.mp hd).1
    rw [ha] at ht hord hdel
    obtain ⟨-, hfresh⟩ := deliverable_established hdel he
    have hidx : connectionIndex o.client.cma.nodes e.id =
        some o.client.cma.disconnectsLeft.toNat := by
      simpa [CmAction.inOrder, he] using hord
    obtain ⟨n, hn, hr⟩ := reached_of_act hud he ht hn'
    have hmem := List.mem_of_getElem? hn
    by_cases hi : i = o.client.cma.disconnectsLeft.toNat
    · left
      obtain ⟨m, hm, hmi⟩ := connectionIndex_some hidx
      rw [← hi] at hm
      obtain rfl := Option.some.inj (hn.symm.trans hm)
      have hah : ans.createAh = true := by
        rcases hr.connected hc with hcn | ⟨-, -, hah⟩
        · have hest := (hl n hmem hcn).2
          rw [hfresh n hmem hmi] at hest
          cases hest
        · exact hah
      obtain ⟨hqpn, hqkey, hhandle⟩ := hr.own hi
      rw [hr.id, hmi, entryOf, hn']
      simp only [Option.bind_some, Function.update_self, Option.elim_some, Option.any_some, hqpn,
        hqkey, hhandle, hah, if_true, hi]
    · right
      have hcn : n.connected = true := by
        rcases hr.connected hc with hcn | ⟨hidx', -, -⟩
        · exact hcn
        · exact absurd (Option.some.inj (hidx'.symm.trans hidx)) hi
      obtain ⟨hid, hest⟩ := hl n hmem hcn
      obtain ⟨id, hid⟩ := Option.isSome_iff_exists.mp hid
      have hne : id ≠ e.id := by
        rintro rfl
        rw [hfresh n hmem hid] at hest
        cases hest
      obtain ⟨hqpn, hqkey, hhandle⟩ := hr.other hi
      refine ⟨n, hn, hcn, ?_, entryOf_eq hn hn' hqpn hqkey hhandle (Function.update_of_ne hi _ _)⟩
      rw [hr.id, hid]
      exact Function.update_of_ne hne _ _
  · right
    obtain ⟨n, hn, hr⟩ :=
      exists_of_forall₂ (rests_of_act ht (Bool.and_eq_true_iff.mp hd).2 hl hne) hn'
    have hq := hr hc
    refine ⟨n, hn, hq.connected, ?_, entryOf_eq hn hn' hq.remoteQpn hq.remoteQkey hq.ah rfl⟩
    rw [hq.id]

variable {q : PerftestParameters}

/-- The requests take the entries of their node. -/
theorem wqe_udParam (hs : q.sendsUd = true) (x : WqeCtx) {i j : Nat} (hi : i < q.wqeQps)
    (hj : j < q.listLength) :
    (q.ctxSetSendRegWqes (o.wqeCtx x) (i * q.listLength + j)).udParam = o.entryOf i := by
  simp only [PerftestParameters.sendsUd, Bool.and_eq_true, Bool.or_eq_true,
    decide_eq_true_eq] at hs
  obtain ⟨⟨hud, hcm⟩, hv⟩ := hs
  rw [ctxSetSendRegWqes_at hi hj]
  simp only [SendWr.udParam, PerftestParameters.regWqe, hv, hud, hcm, true_or, and_self, if_true,
    wqeCtx]

/-- A step keeps the addresses apart exactly when the event it handles is in order. -/
theorem udAddressed_step_iff (hs : q.sendsUd = true) (hl : o.client.cma.Live)
    (hp : UdAddressed q o) (h : step q a o = some o') :
    UdAddressed q o' ↔ a.1.inOrder o.client = true := by
  have hud := PerftestParameters.connectionType_of_sendsUd hs
  have hcases := step_cases hud h
  constructor
  · intro hp'
    obtain ⟨hd, t, ht, ⟨e, ans, ha, he, rfl⟩ | ⟨hne, rfl⟩⟩ := hcases
    · have hdel := (Bool.and_eq_true_iff.mp hd).1
      rw [ha] at hdel
      obtain ⟨⟨k, hk⟩, -⟩ := deliverable_established hdel he
      have hown := hp'.apart o.client.cma.disconnectsLeft.toNat k (by
        dsimp only
        rw [Function.update_self, hk])
      rw [ha, CmAction.inOrder, hk, hown, decide_eq_true rfl, Bool.or_true]
    · cases ha : a.1 with
      | event e ans =>
        rw [CmAction.inOrder, decide_eq_true (hne e ans ha), Bool.true_or]
      | attempt created destroyed source address resolved => rfl
      | noEvent => rfl
      | leave => rfl
      | destroy destroyed => rfl
  · intro hord
    constructor
    · intro x i j n' hi hj hn' hc
      rw [wqe_udParam hs x hi hj]
      rcases own_step hud hl h hord hn' hc with hown | ⟨n, hn, hcn, hcar, hent⟩
      · exact hown
      · rw [hcar, hent, hp.own x i j n hi hj hn hcn, wqe_udParam hs x hi hj]
    · intro i j hw
      obtain ⟨-, t, -, ⟨e, ans, ha, he, rfl⟩ | ⟨-, rfl⟩⟩ := hcases
      · dsimp only at hw
        by_cases hi : i = o.client.cma.disconnectsLeft.toNat
        · have hidx : connectionIndex o.client.cma.nodes e.id =
              some o.client.cma.disconnectsLeft.toNat := by
            rw [ha] at hord
            simpa [CmAction.inOrder, he] using hord
          rw [hi, Function.update_self, hidx] at hw
          rw [hi, Option.some.inj hw]
        · rw [Function.update_of_ne hi] at hw
          exact hp.apart i j hw
      · exact hp.apart i j hw

theorem live_of_init (h : Init d o) : o.client.cma.Live := by
  intro n hn hc
  rw [unconnected_of_init h n hn] at hc
  cases hc

theorem udAddressed_of_init (h : Init q o) : UdAddressed q o := by
  constructor
  · intro x i j n hi hj hn hc
    rw [unconnected_of_init h n (List.mem_of_getElem? hn)] at hc
    cases hc
  · intro i j hw
    rw [h.2.2.2] at hw
    cases hw

end UdClient

/-- In a run of a UD client every request has the address that came with its node's own id, and no
event writes the entry of another node, exactly when every ESTABLISHED event arrives in the order of
the nodes. -/
theorem ctxSetSendRegWqes_udAddressed_iff {q : PerftestParameters} (hs : q.sendsUd = true)
    {o₀ t : UdClient} (h₀ : UdClient.Init q o₀) {as : List (CmAction × Nat)}
    (hr : run (UdClient.step q) as o₀ = some t) :
    (∀ pre, pre <+: as → ∀ o, run (UdClient.step q) pre o₀ = some o → UdAddressed q o) ↔
      AtEach (fun pre a => ∀ o, run (UdClient.step q) pre o₀ = some o →
        a.1.inOrder o.client = true) as := by
  have hud := PerftestParameters.connectionType_of_sendsUd hs
  exact run_holds_iff (I := fun o => o.client.cma.Live) (UdClient.live_of_init h₀)
    (UdClient.udAddressed_of_init h₀) (fun _ _ _ hl ha => UdClient.live_step hud hl ha)
    (fun _ _ _ hl hp ha => UdClient.udAddressed_step_iff hs hl hp ha) hr

/-- `ib_send_bw -c UD -R -q 2` against a server. -/
def twoUdClient : PerftestParameters :=
  { initPerftestParams { verb := .send, tst := .bw, rawEth := false } {} with
    machine := .client, connectionType := .ud, workRdmaCm := true, numOfQps := 2 }

def UdClient.twoNodes : UdClient where
  client := CmClient.twoNodes
  ah := fun _ => 0
  carried := fun _ => none
  writer := fun _ => none

theorem udTwoNodes_init : UdClient.Init twoUdClient .twoNodes :=
  ⟨⟨some, fun _ => true, true, CmClient.twoNodes.cma, rfl, rfl⟩, rfl, rfl, rfl⟩

/-- The events of a node that connects to the queue pair `qpn`, with the handle `ah` for it. -/
def CmAction.connectsUd (id qpn ah : Nat) : List (CmAction × Nat) :=
  [(.event ⟨.addrResolved, id, 0, 0⟩ {}, 0), (.event ⟨.routeResolved, id, 0, 0⟩ {}, 0),
    (.event ⟨.established, id, qpn, 17⟩ {}, ah)]

def CmAction.firstUdAttempt : CmAction × Nat :=
  (.attempt some (fun _ => true) true true fun _ => true, 0)

/-- Node 0 connects, node 1 is rejected and connects in the second attempt. -/
def CmAction.retriedUd : List (CmAction × Nat) :=
  firstUdAttempt :: connectsUd 0 20 1 ++
    [(.event ⟨.rejected, 1, 0, 0⟩ {}, 0), (.destroy fun _ => true, 0),
      (.attempt (fun i => some (i + 2)) (fun _ => true) true true fun _ => true, 0)] ++
    connectsUd 3 21 2

theorem retriedUd_addressed : ∃ t, run (UdClient.step twoUdClient) CmAction.retriedUd
      UdClient.twoNodes = some t ∧
    ∀ pre, pre <+: CmAction.retriedUd → ∀ o, run (UdClient.step twoUdClient) pre
      UdClient.twoNodes = some o → UdAddressed twoUdClient o := by
  obtain ⟨t, ht, -⟩ := (Option.any_eq_true _ _).mp (show
    (run (guarded (fun a o => a.1.inOrder o.client) (UdClient.step twoUdClient))
      CmAction.retriedUd UdClient.twoNodes).any (fun _ => true) = true by decide +kernel)
  obtain ⟨hr, hord⟩ := atEach_of_guarded ht
  exact ⟨t, hr, (ctxSetSendRegWqes_udAddressed_iff rfl udTwoNodes_init hr).mpr hord⟩

/-- Node 1 is established first, and its address goes to the requests of node 0. -/
theorem swappedUd_not_addressed : ¬ ∀ o, run (UdClient.step twoUdClient)
    (CmAction.firstUdAttempt :: CmAction.connectsUd 1 21 2 ++ CmAction.connectsUd 0 20 1)
      UdClient.twoNodes = some o → UdAddressed twoUdClient o := by
  intro h
  obtain ⟨o, ho, hp⟩ := (Option.any_eq_true _ _).mp (show
    (run (UdClient.step twoUdClient)
      (CmAction.firstUdAttempt :: CmAction.connectsUd 1 21 2 ++ CmAction.connectsUd 0 20 1)
      UdClient.twoNodes).any (fun o => (o.client.cma.nodes[0]?).any fun n : CmaNode =>
        n.connected && decide (n.cmaId.bind o.carried = some ⟨20, 17, 1⟩) &&
          decide (o.entryOf 0 = ⟨21, 17, 2⟩)) = true by decide +kernel)
  obtain ⟨n, hn, hp⟩ := (Option.any_eq_true _ _).mp hp
  simp only [Bool.and_eq_true, decide_eq_true_eq] at hp
  obtain ⟨⟨hc, hcar⟩, hent⟩ := hp
  have hown := (h o ho).own (inlineWqeCtx 0) 0 0 n (by decide) (by decide) hn hc
  rw [UdClient.wqe_udParam rfl (inlineWqeCtx 0) (by decide) (by decide), hcar, hent] at hown
  cases hown

end Perftest
