import Perftest.CmHandlers

namespace Perftest

/-- What `rdma_cm_destroy_cma` destroys of the node with a number. -/
inductive CmObject where
  | qp (i : Nat) | ah (i : Nat) | cmId (i : Nat)
deriving DecidableEq, Repr

def CmaNode.destroyCalls (ahAllocated : Bool) (i : Nat) (n : CmaNode) : List CmObject :=
  (if n.qp then [.qp i] else []) ++ (if ahAllocated && n.ah then [.ah i] else []) ++ [.cmId i]

/-- The destroy calls of the loop of `rdma_cm_destroy_cma` from node `i` on. -/
def destroyCalls (ahAllocated : Bool) (destroyed : Nat → Bool) : Nat → List CmaNode → List CmObject
  | _, [] => []
  | i, n :: ns =>
    if n.cmaId.isNone ∨ n.connected then destroyCalls ahAllocated destroyed (i + 1) ns
    else n.destroyCalls ahAllocated i ++
      if destroyed i then destroyCalls ahAllocated destroyed (i + 1) ns else []

def unconnectedCount (nodes : List CmaNode) : Nat := nodes.countP fun n => !n.connected

/-- What a clean-up that returns SUCCESS is to leave: nothing at the unconnected nodes, whose
objects were destroyed once, the connected nodes as they were, and new ids for just the others in
the next attempt. -/
structure CleanedUp (calls : List CmObject) (c c' : Cma) : Prop where
  released : ∀ n ∈ c'.nodes, n.connected = false →
    n.cmaId = none ∧ n.qp = false ∧ n.ah = false
  once : ∀ (i : Nat) (n : CmaNode), c.nodes[i]? = some n →
    calls.count (.qp i) = (n.qp && !n.connected).toNat ∧
      calls.count (.ah i) = (n.ah && !n.connected).toNat ∧
      calls.count (.cmId i) = (n.cmaId.isSome && !n.connected).toNat
  kept : ∀ (i : Nat) (n : CmaNode), c.nodes[i]? = some n → n.connected = true →
    c'.nodes[i]? = some n
  left : c'.connectsLeft = unconnectedCount c'.nodes
  fresh : ∀ created ns, createIds created 0 c'.nodes = (ns, none) →
    ∀ (i : Nat) (n : CmaNode), c'.nodes[i]? = some n → ∃ n', ns[i]? = some n' ∧
      (n.connected = true → n' = n) ∧
      (n.connected = false → n'.cmaId = created i ∧ n'.qp = false ∧ n'.ah = false)

/-- No node whose id is gone, as after a failed `rdma_connect`, still has a queue pair or an address
handle. -/
def Cma.tidy (c : Cma) : Bool :=
  c.nodes.all fun n => n.connected || n.cmaId.isSome || (!n.qp && !n.ah)

/-- The client, and for each number the id that the queue pair of the node was created for. -/
structure OwnedClient where
  client : CmClient
  owner : Nat → Option Nat

/-- A queue pair that an action creates belongs to the id that the node has then. -/
def OwnedClient.act (d : PerftestParameters) (a : CmAction) (o : OwnedClient) :
    Option OwnedClient :=
  (o.client.act d a).map fun t => ⟨t, fun k =>
    if (t.cma.nodes[k]?).any (·.qp) then
      if (o.client.cma.nodes[k]?).any (·.qp) then o.owner k
      else (o.client.cma.nodes[k]?).bind (·.cmaId)
    else none⟩

def OwnedClient.Init (d : PerftestParameters) (o : OwnedClient) : Prop :=
  CmClient.Init d o.client ∧ o.owner = fun _ => none

/-- A connected node does not get its route resolved again. -/
def CmAction.routedOnce : CmAction → CmClient → Bool
  | .event e _, s =>
    e.event ≠ .routeResolved || s.cma.nodes.all (fun n => n.cmaId ≠ some e.id || !n.connected)
  | _, _ => true

def CmAction.delivered (a : CmAction) (o : OwnedClient) : Bool :=
  a.deliverable o.client && a.routedOnce o.client

/-- A clean-up of tidy nodes. -/
def CmAction.tidy : CmAction → OwnedClient → Bool
  | .destroy _, o => o.client.cma.tidy
  | _, _ => true

namespace OwnedClient

def Reachable (d : PerftestParameters) : OwnedClient → Prop :=
  Transition.Reachable (Init d) (Transition.stepOf (Transition.guarded CmAction.delivered (act d)))

/-- The runs whose clean-ups are all of tidy nodes. -/
def TidyReachable (d : PerftestParameters) : OwnedClient → Prop :=
  Transition.Reachable (Init d) (Transition.stepOf (Transition.guarded CmAction.tidy
    (Transition.guarded CmAction.delivered (act d))))

/-- A node with an id has no queue pair of another id. -/
def OwnQps (o : OwnedClient) : Prop :=
  ∀ k n, o.client.cma.nodes[k]? = some n → n.qp = true → n.cmaId.isSome → o.owner k = n.cmaId

end OwnedClient

section CleanUp

variable {ns : List CmaNode} {d : PerftestParameters} {c c' : Cma} {destroyed : Nat → Bool}

/-- An unconnected node after a clean-up of its id. -/
def CmaNode.cleaned (ahAllocated : Bool) (n : CmaNode) : CmaNode :=
  if n.cmaId.isNone ∨ n.connected then n
  else { n.release ahAllocated with cmaId := none }

theorem destroyIds_success {ahAllocated : Bool} {i : Nat}
    (h : (destroyIds ahAllocated destroyed i ns).2 = true) :
    (destroyIds ahAllocated destroyed i ns).1 = ns.map (CmaNode.cleaned ahAllocated) := by
  induction ns generalizing i with
  | nil => rfl
  | cons n ns ih =>
    unfold destroyIds at h ⊢
    rw [List.map_cons]
    split at h
    next hc =>
      rw [if_pos hc, CmaNode.cleaned, if_pos hc]
      exact congrArg (n :: ·) (ih h)
    next hc =>
      have hn : n.connected = false := by simpa using (not_or.mp hc).2
      have hr : (n.release ahAllocated).connected = false := hn
      have hcalled := CmaNode.called_eq hr .destroyId
      dsimp only at h
      split at h
      next hd =>
        rw [if_neg hc, if_pos hd, CmaNode.cleaned, if_neg hc, hcalled]
        exact congrArg (_ :: ·) (ih h)
      next => cases h

theorem rdmaCmDestroyCma_success (h : rdmaCmDestroyCma d destroyed c = (c', true)) :
    (destroyIds c.ahAllocated destroyed 0 c.nodes).2 = true ∧
      c' = { c with
        nodes := c.nodes.map (CmaNode.cleaned c.ahAllocated)
        connectsLeft :=
          d.numOfQps - connectedCount (c.nodes.map (CmaNode.cleaned c.ahAllocated)) } := by
  have hs : (destroyIds c.ahAllocated destroyed 0 c.nodes).2 = true →
      (destroyIds c.ahAllocated destroyed 0 c.nodes).1 =
        c.nodes.map (CmaNode.cleaned c.ahAllocated) := destroyIds_success
  unfold rdmaCmDestroyCma at h
  generalize destroyIds c.ahAllocated destroyed 0 c.nodes = r at *
  obtain ⟨ms, ok⟩ := r
  cases ok with
  | false => cases h
  | true =>
    obtain ⟨rfl, -⟩ := Prod.mk.inj h
    exact ⟨rfl, by rw [← hs rfl]⟩

def CmObject.index : CmObject → Nat
  | .qp i | .ah i | .cmId i => i

theorem index_of_mem_node {ahAllocated : Bool} {i : Nat} {n : CmaNode} {o : CmObject}
    (h : o ∈ n.destroyCalls ahAllocated i) : o.index = i := by
  unfold CmaNode.destroyCalls at h
  rcases List.mem_append.mp h with h | h
  · rcases List.mem_append.mp h with h | h
    · split at h
      next => rw [List.mem_singleton.mp h]; rfl
      next => cases h
    · split at h
      next => rw [List.mem_singleton.mp h]; rfl
      next => cases h
  · rw [List.mem_singleton.mp h]
    rfl

theorem le_index_of_mem {ahAllocated : Bool} {i : Nat} {o : CmObject}
    (h : o ∈ destroyCalls ahAllocated destroyed i ns) : i ≤ o.index := by
  induction ns generalizing i with
  | nil => cases h
  | cons n ns ih =>
    unfold destroyCalls at h
    split at h
    next => exact Nat.le_of_succ_le (ih h)
    next =>
      rcases List.mem_append.mp h with h | h
      · exact (index_of_mem_node h).ge
      · split at h
        next => exact Nat.le_of_succ_le (ih h)
        next => cases h

/-- The loop destroys of each node what that node's turn destroys. -/
theorem count_destroyCalls {ahAllocated : Bool} {i k : Nat} {n : CmaNode} {o : CmObject}
    (h : (destroyIds ahAllocated destroyed i ns).2 = true) (hn : ns[k]? = some n)
    (ho : o.index = i + k) :
    (destroyCalls ahAllocated destroyed i ns).count o =
      if n.cmaId.isNone ∨ n.connected then 0 else (n.destroyCalls ahAllocated (i + k)).count o := by
  induction ns generalizing i k with
  | nil => cases hn
  | cons m ns ih =>
    have hrest : k = 0 → (destroyCalls ahAllocated destroyed (i + 1) ns).count o = 0 := by
      intro hk
      apply List.count_eq_zero.mpr
      intro hmem
      have hle := le_index_of_mem hmem
      omega
    have hfront : k ≠ 0 → (m.destroyCalls ahAllocated i).count o = 0 := by
      intro hk
      apply List.count_eq_zero.mpr
      intro hmem
      have heq := index_of_mem_node hmem
      omega
    have hnext : ∀ j, k = j + 1 → (destroyIds ahAllocated destroyed (i + 1) ns).2 = true →
        (destroyCalls ahAllocated destroyed (i + 1) ns).count o =
          if n.cmaId.isNone ∨ n.connected then 0
          else (n.destroyCalls ahAllocated (i + k)).count o := by
      rintro j rfl hs
      rw [show i + (j + 1) = i + 1 + j by omega] at ho ⊢
      exact ih hs hn ho
    unfold destroyIds at h
    unfold destroyCalls
    split at h
    next hc =>
      rw [if_pos hc]
      cases k with
      | zero =>
        obtain rfl := Option.some.inj hn
        rw [if_pos hc, hrest rfl]
      | succ k => exact hnext k rfl h
    next hc =>
      dsimp only at h
      split at h
      next hd =>
        rw [if_neg hc, if_pos hd, List.count_append]
        cases k with
        | zero =>
          obtain rfl := Option.some.inj hn
          rw [if_neg hc, hrest rfl, Nat.add_zero, Nat.add_zero]
        | succ k =>
          rw [hfront (Nat.succ_ne_zero k), Nat.zero_add]
          exact hnext k rfl h
      next => cases h

theorem countP_unconnected (ms : List CmaNode) :
    connectedCount ms + unconnectedCount ms = ms.length := by
  unfold connectedCount unconnectedCount
  induction ms with
  | nil => rfl
  | cons n ms ih =>
    rw [List.countP_cons, List.countP_cons, List.length_cons]
    cases n.connected <;> simp <;> omega

theorem createIds_success {created : Nat → Option Nat} {i : Nat} {ms : List CmaNode}
    (h : createIds created i ns = (ms, none)) {k : Nat} {n : CmaNode} (hn : ns[k]? = some n) :
    ms[k]? = some (if n.cmaId.isSome then n
      else { n.called .createId with cmaId := created (i + k), established := false }) := by
  induction ns generalizing i k ms with
  | nil => cases hn
  | cons m ns ih =>
    unfold createIds at h
    split at h
    next hid =>
      obtain ⟨rfl, hr⟩ := Prod.mk.inj h
      cases k with
      | zero =>
        obtain rfl := Option.some.inj hn
        rw [if_pos hid]
        rfl
      | succ k =>
        have hk := ih (Prod.ext rfl hr) hn
        rw [show i + 1 + k = i + (k + 1) by omega] at hk
        exact hk
    next hid =>
      split at h
      next id hcr =>
        obtain ⟨rfl, hr⟩ := Prod.mk.inj h
        cases k with
        | zero =>
          obtain rfl := Option.some.inj hn
          rw [if_neg hid, ← hcr]
          rfl
        | succ k =>
          have hk := ih (Prod.ext rfl hr) hn
          rw [show i + 1 + k = i + (k + 1) by omega] at hk
          exact hk
      next => cases h

/-- What holds of the nodes in every state: there is one for each queue pair, a connected one has an
id, and an address handle is there only after `ah_allocated` was set. -/
structure Cma.Kept (d : PerftestParameters) (c : Cma) : Prop where
  length : c.nodes.length = d.numOfQps
  live : ∀ n ∈ c.nodes, n.connected = true → n.cmaId.isSome
  ah : ∀ n ∈ c.nodes, n.ah = true → c.ahAllocated = true

theorem cleanedUp_of_tidy (hk : c.Kept d) (ht : c.tidy = true)
    (h : rdmaCmDestroyCma d destroyed c = (c', true)) :
    CleanedUp (destroyCalls c.ahAllocated destroyed 0 c.nodes) c c' := by
  obtain ⟨hs, rfl⟩ := rdmaCmDestroyCma_success h
  have hgone : ∀ n ∈ c.nodes, n.connected = false → n.cmaId = none →
      n.qp = false ∧ n.ah = false := by
    intro n hn hc hid
    have := List.all_eq_true.mp ht n hn
    simpa [hc, hid] using this
  have hah : ∀ n ∈ c.nodes, (c.ahAllocated && n.ah) = n.ah := by
    intro n hn
    cases ha : n.ah with
    | false => rw [Bool.and_false]
    | true => rw [hk.ah n hn ha, Bool.and_self]
  have hreleased : ∀ n ∈ c.nodes, n.connected = false →
      (n.cleaned c.ahAllocated).cmaId = none ∧ (n.cleaned c.ahAllocated).qp = false ∧
        (n.cleaned c.ahAllocated).ah = false := by
    intro n hn hc
    unfold CmaNode.cleaned
    split
    next hno =>
      have hid : n.cmaId = none := by simpa [hc] using hno
      exact ⟨hid, hgone n hn hc hid⟩
    next =>
      refine ⟨rfl, rfl, ?_⟩
      cases ha : n.ah with
      | false => simp [CmaNode.release, ha]
      | true => simp [CmaNode.release, hk.ah n hn ha]
  have hconn : ∀ n, (CmaNode.cleaned c.ahAllocated n).connected = n.connected := by
    intro n
    unfold CmaNode.cleaned
    split <;> rfl
  have hsame : ∀ n : CmaNode, n.connected = true → n.cleaned c.ahAllocated = n := by
    intro n hc
    rw [CmaNode.cleaned, if_pos (.inr hc)]
  refine ⟨?_, ?_, ?_, ?_, ?_⟩
  · intro n' hn' hc
    obtain ⟨n, hn, rfl⟩ := List.mem_map.mp hn'
    exact hreleased n hn ((hconn n).symm.trans hc)
  · intro i n hn
    have hmem := List.mem_of_getElem? hn
    have hcount := fun o (ho : CmObject.index o = i) =>
      count_destroyCalls (o := o) hs hn (ho.trans (Nat.zero_add i).symm)
    rw [hcount (.qp i) rfl, hcount (.ah i) rfl, hcount (.cmId i) rfl]
    split
    next hno =>
      cases hc : n.connected with
      | true => simp
      | false =>
        have hid : n.cmaId = none := by simpa [hc] using hno
        have := hgone n hmem hc hid
        simp [hid, this.1, this.2]
    next hno =>
      have hc : n.connected = false := by simpa using (not_or.mp hno).2
      have hid : n.cmaId.isSome = true := by
        simpa [Option.isSome_iff_ne_none] using (not_or.mp hno).1
      rw [CmaNode.destroyCalls, hah n hmem, Nat.zero_add, hc, hid]
      cases n.qp <;> cases n.ah <;> simp
  · intro i n hn hc
    rw [List.getElem?_map, hn]
    exact congrArg some (hsame n hc)
  · have hcount := countP_unconnected (c.nodes.map (CmaNode.cleaned c.ahAllocated))
    have hlen := hk.length
    rw [List.length_map] at hcount
    dsimp only
    omega
  · intro created ms hms i n' hn'
    refine ⟨_, createIds_success hms hn', ?_, ?_⟩
    · intro hc
      obtain ⟨n, hn, rfl⟩ := List.mem_map.mp (List.mem_of_getElem? hn')
      have hcn : n.connected = true := (hconn n).symm.trans hc
      rw [hsame n hcn, if_pos (hk.live n hn hcn)]
    · intro hc
      obtain ⟨n, hn, rfl⟩ := List.mem_map.mp (List.mem_of_getElem? hn')
      obtain ⟨hid, hqp, ha⟩ := hreleased n hn ((hconn n).symm.trans hc)
      rw [hid, Nat.zero_add, CmaNode.called_eq hc]
      exact ⟨rfl, hqp, ha⟩

theorem tidy_of_cleanedUp {calls : List CmObject} (h : rdmaCmDestroyCma d destroyed c = (c', true))
    (hc : CleanedUp calls c c') : c.tidy = true := by
  obtain ⟨-, rfl⟩ := rdmaCmDestroyCma_success h
  apply List.all_eq_true.mpr
  intro n hn
  by_contra hno
  simp only [Bool.or_eq_true, Bool.and_eq_true, Bool.not_eq_true', not_or] at hno
  obtain ⟨⟨hcon, hid⟩, hno⟩ := hno
  have hsame : n.cleaned c.ahAllocated = n := by
    rw [CmaNode.cleaned, if_pos]
    left
    simpa using hid
  have hmem : n ∈ c.nodes.map (CmaNode.cleaned c.ahAllocated) :=
    List.mem_map.mpr ⟨n, hn, hsame⟩
  obtain ⟨-, hqp, ha⟩ := hc.released n hmem (by simpa using hcon)
  exact hno ⟨hqp, ha⟩

end CleanUp

end Perftest
