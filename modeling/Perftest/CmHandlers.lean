import Perftest.RdmaCm

namespace Perftest

namespace CmaNode

/-- A connected node holds an id that was established, once, and no call disturbed it. -/
structure Ok (n : CmaNode) : Prop where
  live : n.connected = true → n.cmaId.isSome
  established : n.connected = true → n.established = true
  once : n.connections = n.connected.toNat
  spared : n.disturbed = []

theorem zero_ok : zero.Ok := ⟨by simp [zero], by simp [zero], rfl, rfl⟩

theorem called_eq {n : CmaNode} (h : n.connected = false) (c : CmCall) : n.called c = n := by
  simp [called, h]

theorem connecting_eq {n : CmaNode} (h : n.connected = false) :
    n.connecting = { n with qp := true } :=
  called_eq (n := { n with qp := true }) h _

/-- A change of a node that leaves it connected or unconnected, and sound. -/
def Keeps (n n' : CmaNode) : Prop := n'.connected = n.connected ∧ (n.Ok → n'.Ok)

theorem Keeps.refl (n : CmaNode) : n.Keeps n := ⟨rfl, fun h => h⟩

/-- An unconnected node may change anything else but its history. -/
theorem Keeps.of_unconnected {n n' : CmaNode} (h : n.connected = false)
    (h' : n'.connected = false) (hc : n'.connections = n.connections)
    (hd : n'.disturbed = n.disturbed) : n.Keeps n' := by
  refine ⟨h'.trans h.symm, fun ho => ⟨?_, ?_, ?_, ?_⟩⟩
  · intro hn
    simp [h'] at hn
  · intro hn
    simp [h'] at hn
  · rw [hc, ho.once, h, h']
  · rw [hd, ho.spared]

end CmaNode

section Lists

variable {α β γ : Type*}

theorem forall₂_comp {R : α → β → Prop} {S : β → γ → Prop} {T : α → γ → Prop} {as : List α}
    {bs : List β} {cs : List γ} (h : List.Forall₂ R as bs) (h' : List.Forall₂ S bs cs)
    (hc : ∀ a b c, R a b → S b c → T a c) : List.Forall₂ T as cs := by
  induction h generalizing cs with
  | nil =>
    cases h'
    exact .nil
  | cons hr _ ih =>
    cases h' with
    | cons hs h' => exact .cons (hc _ _ _ hr hs) (ih h')

theorem forall₂_modify {R : α → α → Prop} {f : α → α} {as : List α} {k : Nat}
    (hr : ∀ a, R a a) (h : ∀ a, as[k]? = some a → R a (f a)) :
    List.Forall₂ R as (as.modify k f) := by
  induction as generalizing k with
  | nil => simp
  | cons a as ih =>
    cases k with
    | zero => exact .cons (h a rfl) (List.forall₂_same.mpr fun b _ => hr b)
    | succ k => exact .cons (hr a) (ih fun b hb => h b (by simpa using hb))

theorem exists_of_forall₂ {R : α → β → Prop} {as : List α} {bs : List β}
    (h : List.Forall₂ R as bs) {k : Nat} {b : β} (hk : bs[k]? = some b) :
    ∃ a, as[k]? = some a ∧ R a b := by
  obtain ⟨hlt, rfl⟩ := List.getElem?_eq_some_iff.mp hk
  have hlt' : k < as.length := h.length_eq ▸ hlt
  exact ⟨as[k], List.getElem?_eq_getElem hlt', (List.forall₂_iff_get.mp h).2 k hlt' hlt⟩

end Lists

section Nodes

variable {ns ns' : List CmaNode}

theorem connectedCount_keeps (h : List.Forall₂ CmaNode.Keeps ns ns') :
    connectedCount ns' = connectedCount ns := by
  induction h with
  | nil => rfl
  | cons hn _ ih =>
    unfold connectedCount at ih ⊢
    rw [List.countP_cons, List.countP_cons, ih, hn.1]

theorem ok_keeps (h : List.Forall₂ CmaNode.Keeps ns ns') (ho : ∀ n ∈ ns, n.Ok) :
    ∀ n ∈ ns', n.Ok := by
  induction h with
  | nil => simp
  | cons hn _ ih =>
    intro m hm
    rcases List.mem_cons.mp hm with rfl | hm
    · exact hn.2 (ho _ List.mem_cons_self)
    · exact ih (fun n hn' => ho n (List.mem_cons_of_mem _ hn')) m hm

theorem keeps_refl (ns : List CmaNode) : List.Forall₂ CmaNode.Keeps ns ns :=
  List.forall₂_same.mpr fun n _ => CmaNode.Keeps.refl n

theorem keeps_modify {f : CmaNode → CmaNode} {k : Nat}
    (h : ∀ n, ns[k]? = some n → n.Keeps (f n)) :
    List.Forall₂ CmaNode.Keeps ns (ns.modify k f) :=
  forall₂_modify CmaNode.Keeps.refl h

theorem connectedCount_connect {n : CmaNode} {k : Nat} (hk : ns[k]? = some n)
    (hc : n.connected = false) :
    connectedCount (ns.modify k CmaNode.connect) = connectedCount ns + 1 := by
  induction ns generalizing k with
  | nil => simp at hk
  | cons m ns ih =>
    unfold connectedCount at ih ⊢
    cases k with
    | zero =>
      obtain rfl := Option.some.inj hk
      simp [CmaNode.connect, hc]
    | succ k =>
      rw [List.modify_succ_cons, List.countP_cons, List.countP_cons, ih (by simpa using hk)]
      omega

theorem mem_modify {f : CmaNode → CmaNode} {k : Nat} {m : CmaNode} (hm : m ∈ ns.modify k f) :
    ∃ j n, ns[j]? = some n ∧ m = if k = j then f n else n := by
  obtain ⟨j, hj⟩ := List.mem_iff_getElem?.mp hm
  rw [List.getElem?_modify] at hj
  obtain ⟨n, hn, rfl⟩ := Option.map_eq_some_iff.mp hj
  exact ⟨j, n, hn, rfl⟩

theorem ok_connect {n : CmaNode} {k : Nat} (ho : ∀ n ∈ ns, n.Ok) (hk : ns[k]? = some n)
    (hc : n.connected = false) (hi : n.cmaId.isSome) (he : n.established = true) :
    ∀ m ∈ ns.modify k CmaNode.connect, m.Ok := by
  intro m hm
  obtain ⟨j, y, hy, rfl⟩ := mem_modify hm
  have hok := ho y (List.mem_of_getElem? hy)
  split
  next hkj =>
    subst hkj
    obtain rfl := Option.some.inj (hk.symm.trans hy)
    refine ⟨fun _ => hi, fun _ => he, ?_, hok.spared⟩
    show n.connections + 1 = 1
    rw [hok.once, hc]
    rfl
  next => exact hok

theorem connectedCount_le (ns : List CmaNode) : connectedCount ns ≤ ns.length :=
  List.countP_le_length

theorem connectionIndex_some {id k : Nat} (h : connectionIndex ns id = some k) :
    ∃ n, ns[k]? = some n ∧ n.cmaId = some id := by
  obtain ⟨hk, hp, -⟩ := List.findIdx?_eq_some_iff_getElem.mp h
  exact ⟨ns[k], List.getElem?_eq_getElem hk, by simpa using hp⟩

theorem connectionIndex_of_mem {id : Nat} {n : CmaNode} (hn : n ∈ ns) (hi : n.cmaId = some id) :
    ∃ k, connectionIndex ns id = some k := by
  unfold connectionIndex
  cases h : ns.findIdx? (fun n => decide (n.cmaId = some id)) with
  | some k => exact ⟨k, rfl⟩
  | none =>
    have hf := List.findIdx?_eq_none_iff.mp h n hn
    simp [hi] at hf

theorem createIds_keeps (created : Nat → Option Nat) (i : Nat) (ho : ∀ n ∈ ns, n.Ok) :
    List.Forall₂ CmaNode.Keeps ns (createIds created i ns).1 := by
  induction ns generalizing i with
  | nil => exact .nil
  | cons n ns ih =>
    have ih := ih (i + 1) fun m hm => ho m (List.mem_cons_of_mem _ hm)
    unfold createIds
    split
    next => exact .cons (.refl n) ih
    next hid =>
      have hc : n.connected = false := by
        by_contra hn
        exact hid ((ho n List.mem_cons_self).live (by simpa using hn))
      split
      next =>
        rw [CmaNode.called_eq hc]
        exact .cons (.of_unconnected hc hc rfl rfl) ih
      next => exact keeps_refl _

theorem createIds_refused (created : Nat → Option Nat) (i : Nat) (ns : List CmaNode) :
    (createIds created i ns).2 = ((ns.zipIdx i).findIdx? (fun p =>
      p.1.cmaId.isNone && (created p.2).isNone)).map (· + i) := by
  induction ns generalizing i with
  | nil => rfl
  | cons n ns ih =>
    unfold createIds
    rw [List.zipIdx_cons, List.findIdx?_cons]
    have hshift : ∀ o : Option Nat,
        (o.map (· + 1)).map (· + i) = o.map (· + (i + 1)) := by
      intro o
      cases o with
      | none => rfl
      | some k => simp only [Option.map_some, Option.some.injEq]; omega
    split
    next hid =>
      rw [if_neg (by simp [Option.isSome_iff_ne_none.mp hid]), hshift]
      exact ih (i + 1)
    next hid =>
      split
      next id hcr =>
        rw [if_neg (by simp [hcr]), hshift]
        exact ih (i + 1)
      next hcr =>
        rw [if_pos (by simp [hcr, Option.not_isSome_iff_eq_none.mp hid])]
        simp

/-- Where no node below `k` is connected, destroying their ids disturbs none. -/
theorem destroyBelow_eq (destroyed : Nat → Bool) {k : Nat}
    (h : ∀ j < k, ∀ n, ns[j]? = some n → n.connected = false) :
    destroyBelow destroyed k ns = ns := by
  induction k with
  | zero => rfl
  | succ k ih =>
    have hm : ns.modify k (CmaNode.called .destroyId) = ns := by
      apply List.ext_getElem?
      intro j
      rw [List.getElem?_modify]
      by_cases hj : k = j
      · subst hj
        cases hn : ns[k]? with
        | none => rfl
        | some n => simp [CmaNode.called_eq (h k (by omega) n hn)]
      · simp [hj]
    unfold destroyBelow
    rw [hm, ih fun j hj => h j (by omega), ite_self]

theorem resolveAddrs_keeps (resolved : Nat → Bool) (i : Nat) (ns : List CmaNode) :
    List.Forall₂ CmaNode.Keeps ns (resolveAddrs resolved i ns).1 := by
  induction ns generalizing i with
  | nil => exact .nil
  | cons n ns ih =>
    unfold resolveAddrs
    split
    next => exact .cons (.refl n) (ih (i + 1))
    next hc =>
      rw [CmaNode.called_eq (by simpa using hc)]
      split
      next => exact .cons (.refl n) (ih (i + 1))
      next => exact keeps_refl _

theorem destroyIds_keeps (ahAllocated : Bool) (destroyed : Nat → Bool) (i : Nat)
    (ns : List CmaNode) :
    List.Forall₂ CmaNode.Keeps ns (destroyIds ahAllocated destroyed i ns).1 := by
  induction ns generalizing i with
  | nil => exact .nil
  | cons n ns ih =>
    unfold destroyIds
    split
    next => exact .cons (.refl n) (ih (i + 1))
    next hc =>
      have hn : n.connected = false := by simpa using (not_or.mp hc).2
      have hr : (n.release ahAllocated).connected = false := hn
      dsimp only
      rw [CmaNode.called_eq hr]
      split
      next => exact .cons (.of_unconnected hn hr rfl rfl) (ih (i + 1))
      next => exact .cons (.of_unconnected hn hr rfl rfl) (keeps_refl ns)

end Nodes

namespace Cma

variable {d : PerftestParameters} {c c' : Cma}

/-- What holds of the nodes and of `disconnects_left` in every phase. -/
structure Sound (d : PerftestParameters) (c : Cma) : Prop where
  length : c.nodes.length = d.numOfQps
  ok : ∀ n ∈ c.nodes, n.Ok
  disconnects : c.disconnectsLeft = connectedCount c.nodes

/-- `connects_left` counts the nodes that are not connected. -/
def Counting (d : PerftestParameters) (c : Cma) : Prop :=
  c.connectsLeft = d.numOfQps - connectedCount c.nodes

theorem Sound.keeps (h : c.Sound d) (hn : List.Forall₂ CmaNode.Keeps c.nodes c'.nodes)
    (hd : c'.disconnectsLeft = c.disconnectsLeft) : c'.Sound d :=
  ⟨hn.length_eq ▸ h.length, ok_keeps hn h.ok, by rw [hd, h.disconnects, connectedCount_keeps hn]⟩

theorem Counting.keeps (h : c.Counting d) (hn : List.Forall₂ CmaNode.Keeps c.nodes c'.nodes)
    (hc : c'.connectsLeft = c.connectsLeft) : c'.Counting d := by
  unfold Counting at h ⊢
  rw [hc, h, connectedCount_keeps hn]

theorem Counting.nonneg (h : c.Counting d) (hs : c.Sound d) : 0 ≤ c.connectsLeft := by
  unfold Counting at h
  have hl := connectedCount_le c.nodes
  have hn := hs.length
  omega

/-- What a handler leaves: sound nodes, and exact counters where it reports success. -/
structure Handled (d : PerftestParameters) (r : Cma × Bool) : Prop where
  sound : r.1.Sound d
  nonneg : 0 ≤ r.1.connectsLeft
  counting : r.2 = true → r.1.Counting d

theorem Handled.of_counting (hs : c.Sound d) (hc : c.Counting d) (ok : Bool) :
    Handled d (c, ok) :=
  ⟨hs, hc.nonneg hs, fun _ => hc⟩

theorem Handled.connectError (hs : c.Sound d) (hp : 1 ≤ c.connectsLeft) :
    Handled d (rdmaCmConnectError c, false) := by
  refine ⟨⟨hs.length, hs.ok, hs.disconnects⟩, ?_, by simp⟩
  show 0 ≤ c.connectsLeft - 1
  omega

theorem addressHandler_handled (ans : CmAnswers) (hs : c.Sound d) (hc : c.Counting d)
    (hp : 1 ≤ c.connectsLeft) : Handled d (rdmaCmAddressHandler d ans c) := by
  unfold rdmaCmAddressHandler
  split
  next => exact .of_counting hs hc false
  next =>
    split
    next => exact .connectError hs hp
    next =>
      split
      next => exact .connectError hs hp
      next => exact .of_counting hs hc true

theorem routeHandler_handled (ans : CmAnswers) {id : Nat} (hs : c.Sound d) (hc : c.Counting d)
    (hp : 1 ≤ c.connectsLeft) (hid : ∀ n ∈ c.nodes, n.cmaId = some id → n.connected = false) :
    Handled d (rdmaCmRouteHandler ans id c) := by
  unfold rdmaCmRouteHandler
  split
  next => exact .connectError hs hp
  next k hk =>
    obtain ⟨n, hn, hi⟩ := connectionIndex_some hk
    have hu : ∀ m, c.nodes[k]? = some m → m.connected = false := by
      intro m hm
      obtain rfl := Option.some.inj (hn.symm.trans hm)
      exact hid n (List.mem_of_getElem? hn) hi
    split
    next => exact .connectError hs hp
    next =>
      split
      next => exact .connectError (hs.keeps (keeps_refl _) rfl) hp
      next =>
        split
        next =>
          have hk : List.Forall₂ CmaNode.Keeps c.nodes
              (c.nodes.modify k CmaNode.connecting) := by
            refine keeps_modify fun m hm => ?_
            have hf := hu m hm
            rw [CmaNode.connecting_eq hf]
            exact .of_unconnected hf hf rfl rfl
          have hs₁ : Sound d { c with pd := true, nodes := c.nodes.modify k CmaNode.connecting } :=
            hs.keeps hk rfl
          exact .of_counting hs₁ (hc.keeps hk rfl) true
        next =>
          refine .connectError (hs.keeps (keeps_modify fun m hm => ?_) rfl) hp
          have hf := hu m hm
          rw [CmaNode.connecting_eq hf]
          exact .of_unconnected hf hf rfl rfl

/-- The node entries that the UD parameters of an event change. -/
theorem establishUd_spec (ans : CmAnswers) (e : CmEvent) (c : Cma) :
    ∃ f : CmaNode → CmaNode, (∀ n, (f n).cmaId = n.cmaId ∧ (f n).connected = n.connected ∧
        (f n).established = n.established ∧ n.Keeps (f n)) ∧
      ∃ k, (rdmaCmEstablishUdConnection d ans e c).1.nodes = c.nodes.modify k f ∧
        (rdmaCmEstablishUdConnection d ans e c).1.connectsLeft = c.connectsLeft ∧
        (rdmaCmEstablishUdConnection d ans e c).1.disconnectsLeft = c.disconnectsLeft := by
  unfold rdmaCmEstablishUdConnection
  split
  next =>
    refine ⟨id, fun n => ⟨rfl, rfl, rfl, .refl n⟩, 0, ?_, rfl, rfl⟩
    rw [List.modify_id]
  next =>
    refine ⟨fun n => { n with remoteQpn := e.qpNum, remoteQkey := e.qkey, ah := ans.createAh },
      fun n => ⟨rfl, rfl, rfl, rfl, fun h => ⟨h.live, h.established, h.once, h.spared⟩⟩,
      c.disconnectsLeft.toNat, ?_⟩
    dsimp only
    split <;> exact ⟨rfl, rfl, rfl⟩

theorem establishedHandler_handled (ans : CmAnswers) {e : CmEvent} (hm : d.machine = .client)
    (hs : c.Sound d) (hc : c.Counting d) (hp : 1 ≤ c.connectsLeft)
    (hl : ∃ n ∈ c.nodes, n.cmaId = some e.id)
    (hid : ∀ n ∈ c.nodes, n.cmaId = some e.id → n.connected = false ∧ n.established = true) :
    Handled d (rdmaCmConnectionEstablishedHandler d ans e c) := by
  obtain ⟨f, hf, k, hnodes, hleft, hdis⟩ := establishUd_spec (d := d) ans e c
  have hkeep : List.Forall₂ CmaNode.Keeps c.nodes
      (rdmaCmEstablishUdConnection d ans e c).1.nodes := by
    rw [hnodes]
    exact keeps_modify fun n _ => (hf n).2.2.2
  have hs₁ := hs.keeps hkeep hdis
  have hc₁ := hc.keeps hkeep hleft
  have hmod : ∀ m ∈ c.nodes.modify k f, ∃ n ∈ c.nodes, m.cmaId = n.cmaId ∧
      m.connected = n.connected ∧ m.established = n.established := by
    intro m hm
    obtain ⟨j, n, hn, rfl⟩ := mem_modify hm
    refine ⟨n, List.mem_of_getElem? hn, ?_⟩
    split
    next => exact ⟨(hf n).1, (hf n).2.1, (hf n).2.2.1⟩
    next => exact ⟨rfl, rfl, rfl⟩
  obtain ⟨n, hn, hni⟩ := hl
  obtain ⟨j, hj⟩ := List.mem_iff_getElem?.mp hn
  have hlive : ∃ m ∈ c.nodes.modify k f, m.cmaId = some e.id := by
    refine ⟨if k = j then f n else n, ?_, ?_⟩
    · refine List.mem_of_getElem? (i := j) ?_
      rw [List.getElem?_modify, hj]
      split <;> rfl
    · split
      next => exact (hf n).1.trans hni
      next => exact hni
  unfold rdmaCmConnectionEstablishedHandler
  generalize rdmaCmEstablishUdConnection d ans e c = r at *
  obtain ⟨c₁, ok⟩ := r
  dsimp only at hnodes hleft hdis hs₁ hc₁
  cases ok with
  | false => exact .connectError hs₁ (hleft ▸ hp)
  | true =>
    obtain ⟨m, hmm, hmi⟩ := hlive
    rw [← hnodes] at hmm hmod
    obtain ⟨q, hq⟩ := connectionIndex_of_mem hmm hmi
    obtain ⟨m', hm', hmi'⟩ := connectionIndex_some hq
    obtain ⟨n', hn', hi', hcon, hest⟩ := hmod m' (List.mem_of_getElem? hm')
    obtain ⟨hu, he⟩ := hid n' hn' (hi'.symm.trans hmi')
    have hu' : m'.connected = false := hcon.trans hu
    have hcount := connectedCount_connect hm' hu'
    simp only [hq, hm, if_true]
    have hsound : Sound d { c₁ with
        nodes := c₁.nodes.modify q CmaNode.connect
        connectsLeft := c₁.connectsLeft - 1
        disconnectsLeft := c₁.disconnectsLeft + 1 } := by
      refine ⟨by simpa using hs₁.length,
        ok_connect hs₁.ok hm' hu' (by simp [hmi']) (hest.trans he), ?_⟩
      have := hs₁.disconnects
      simp only [hcount]
      omega
    refine .of_counting hsound ?_ true
    unfold Counting at hc₁ ⊢
    simp only [hcount]
    omega

theorem deliver_keeps (e : CmEvent) (c : Cma) :
    List.Forall₂ CmaNode.Keeps c.nodes (c.deliver e).nodes := by
  unfold deliver
  split
  next =>
    refine List.forall₂_map_right_iff.mpr (List.forall₂_same.mpr fun n _ => ?_)
    split
    next => exact ⟨rfl, fun h => ⟨h.live, fun _ => rfl, h.once, h.spared⟩⟩
    next => exact .refl n
  next => exact keeps_refl _

theorem deliver_left (e : CmEvent) (c : Cma) : (c.deliver e).connectsLeft = c.connectsLeft ∧
    (c.deliver e).disconnectsLeft = c.disconnectsLeft := by
  unfold deliver
  split <;> exact ⟨rfl, rfl⟩

theorem deliver_established {e : CmEvent} (he : e.event = .established) (hs : c.Sound d)
    (hf : ∀ n ∈ c.nodes, n.cmaId = some e.id → n.established = false) :
    ∀ n ∈ (c.deliver e).nodes, n.cmaId = some e.id →
      n.connected = false ∧ n.established = true := by
  intro n hn hi
  simp only [deliver, he, if_true] at hn
  obtain ⟨m, hm, rfl⟩ := List.mem_map.mp hn
  by_cases hmi : m.cmaId = some e.id
  · simp only [hmi, if_true, and_true]
    by_contra hc
    have := (hs.ok m hm).established (by simpa using hc)
    rw [hf m hm hmi] at this
    simp at this
  · simp [hmi] at hi

theorem deliver_live {e : CmEvent} (he : e.event = .established)
    (hl : ∃ n ∈ c.nodes, n.cmaId = some e.id) :
    ∃ n ∈ (c.deliver e).nodes, n.cmaId = some e.id := by
  obtain ⟨n, hn, hi⟩ := hl
  simp only [deliver, he, if_true]
  exact ⟨_, List.mem_map_of_mem hn, by simp [hi]⟩

theorem dispatcher_handled (ans : CmAnswers) {e : CmEvent} (hm : d.machine = .client)
    (hs : c.Sound d) (hc : c.Counting d) (hp : 1 ≤ c.connectsLeft)
    (hn : e.event ≠ .disconnected) (hl : ∃ n ∈ c.nodes, n.cmaId = some e.id)
    (hf : e.event = .established →
      ∀ n ∈ c.nodes, n.cmaId = some e.id → n.established = false)
    (hr : e.event = .routeResolved →
      ∀ n ∈ c.nodes, n.cmaId = some e.id → n.connected = false) :
    Handled d (rdmaCmEventsDispatcher d ans e (c.deliver e)) := by
  have hk := deliver_keeps e c
  have hs₁ := hs.keeps hk (deliver_left e c).2
  have hc₁ := hc.keeps hk (deliver_left e c).1
  have hp₁ : 1 ≤ (c.deliver e).connectsLeft := (deliver_left e c).1 ▸ hp
  unfold rdmaCmEventsDispatcher
  cases he : e.event with
  | addrResolved => exact addressHandler_handled ans hs₁ hc₁ hp₁
  | routeResolved =>
    have hd : c.deliver e = c := by simp [deliver, he]
    rw [hd]
    exact routeHandler_handled ans hs hc hp (hr he)
  | established =>
    exact establishedHandler_handled ans hm hs₁ hc₁ hp₁ (deliver_live he hl)
      (deliver_established he hs (hf he))
  | addrError => exact .connectError hs₁ hp₁
  | routeError => exact .connectError hs₁ hp₁
  | connectError => exact .connectError hs₁ hp₁
  | unreachable => exact .connectError hs₁ hp₁
  | rejected => exact .connectError hs₁ hp₁
  | disconnected => exact absurd he hn
  | deviceRemoval => exact .of_counting hs₁ hc₁ true
  | other => exact .of_counting hs₁ hc₁ true

theorem resolveAddrs_failed (resolved : Nat → Bool) (i : Nat) (ns : List CmaNode)
    (h : (resolveAddrs resolved i ns).2 = false) : connectedCount ns < ns.length := by
  induction ns generalizing i with
  | nil => simp [resolveAddrs] at h
  | cons n ns ih =>
    have hle := connectedCount_le ns
    unfold connectedCount at ih hle ⊢
    rw [List.countP_cons, List.length_cons]
    unfold resolveAddrs at h
    split at h
    next hc =>
      have := ih (i + 1) h
      simp only [hc, if_true]
      omega
    next hc =>
      simp only [hc, Bool.false_eq_true, if_false]
      omega

theorem resolve_handled (address : Bool) (resolved : Nat → Bool) (hs : c.Sound d)
    (hc : c.Counting d) : Handled d (rdmaCmResolve address resolved c) := by
  have hk := resolveAddrs_keeps resolved 0 c.nodes
  have hf := resolveAddrs_failed resolved 0 c.nodes
  unfold rdmaCmResolve
  split
  next => exact .of_counting hs hc false
  next =>
    generalize resolveAddrs resolved 0 c.nodes = r at *
    obtain ⟨ns, ok⟩ := r
    have hs₁ : Sound d { c with rai := true, nodes := ns } := hs.keeps hk rfl
    have hc₁ : Counting d { c with rai := true, nodes := ns } := hc.keeps hk rfl
    cases ok with
    | true => exact .of_counting hs₁ hc₁ true
    | false =>
      refine .connectError hs₁ ?_
      have hlt := hf rfl
      have hlen := hs.length
      unfold Counting at hc
      show 1 ≤ c.connectsLeft
      omega

theorem allocate_handled (created : Nat → Option Nat) (destroyed : Nat → Bool) (source : Bool)
    (hs : c.Sound d) (hc : c.Counting d)
    (hr : ∀ k, refusedAt created c.nodes = some k →
      ∀ n ∈ c.nodes.take k, n.connected = false) :
    Handled d (rdmaCmAllocateNodes d created destroyed source true c) := by
  have hk := createIds_keeps created 0 hs.ok
  have href := createIds_refused created 0 c.nodes
  unfold rdmaCmAllocateNodes
  simp only [if_true]
  generalize createIds created 0 c.nodes = r at *
  obtain ⟨ns, o⟩ := r
  have hs₁ : Sound d { c with nodes := ns } := hs.keeps hk rfl
  have hc₁ : Counting d { c with nodes := ns } := hc.keeps hk rfl
  cases o with
  | none => exact .of_counting hs₁ hc₁ source
  | some k =>
    have hat : refusedAt created c.nodes = some k := by
      unfold refusedAt
      simpa using href.symm
    have hb : destroyBelow destroyed k ns = ns := by
      refine destroyBelow_eq destroyed fun j hj n hn => ?_
      obtain ⟨hlt, rfl⟩ := List.getElem?_eq_some_iff.mp hn
      have hlt' : j < c.nodes.length := hk.length_eq ▸ hlt
      have hkeep := (List.forall₂_iff_get.mp hk).2 j hlt' hlt
      simp only [List.get_eq_getElem] at hkeep
      rw [hkeep.1]
      refine hr k hat _ (List.mem_iff_getElem?.mpr ⟨j, ?_⟩)
      rw [List.getElem?_take_of_lt hj, List.getElem?_eq_getElem hlt']
    simp only [hb]
    exact .of_counting hs₁ hc₁ false

theorem destroyCma_handled (destroyed : Nat → Bool) (hs : c.Sound d) (hn : 0 ≤ c.connectsLeft) :
    Handled d (rdmaCmDestroyCma d destroyed c) := by
  have hk := destroyIds_keeps c.ahAllocated destroyed 0 c.nodes
  unfold rdmaCmDestroyCma
  generalize destroyIds c.ahAllocated destroyed 0 c.nodes = r at *
  obtain ⟨ns, ok⟩ := r
  cases ok with
  | false => exact ⟨hs.keeps hk rfl, hn, by simp⟩
  | true =>
    have hs₁ : Sound d { c with nodes := ns, connectsLeft := d.numOfQps - connectedCount ns } :=
      hs.keeps hk rfl
    exact .of_counting hs₁ rfl true

end Cma

end Perftest
