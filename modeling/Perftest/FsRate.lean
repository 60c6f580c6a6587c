import Perftest.SendLoop

namespace Perftest

def MAX_FS_PORT : Nat := 65536

/-- The parameters of a flow-steering rate test whose arrays could be allocated. -/
structure FsConfig where
  testType : TestMethod
  numOfQps : Nat
  iters : Nat
  noPeak : Bool
  serverPort : Nat
  clientPort : Nat
  qps_pos : 0 < numOfQps
  ports_le : serverPort + clientPort ≤ 2 * MAX_FS_PORT

namespace FsConfig

variable (c : FsConfig)

def allocatedFlows : Nat := match c.testType with
  | .iterations => c.iters
  | .duration => 2 * MAX_FS_PORT - (c.serverPort + c.clientPort)

/-- The size of `flow_create_result` and of `flow_rules`. -/
def flowArraySize : Nat := c.allocatedFlows * c.numOfQps

/-- The size of `tposted` and of `tcompleted` in `alloc_ctx`. -/
def tarrSize : Nat := if c.noPeak then 1 else c.iters * c.numOfQps

end FsConfig

/-- An element of `flow_create_result`: not yet written, a null pointer, or the handle that the
`k`-th successful call of `ibv_create_flow` returned. -/
inductive FlowSlot where
  | garbage | null | handle (k : Nat)
deriving DecidableEq, Repr

/-- Where `run_iter_fs` stands: in the loops of `set_up_fs_rules`, in those that create the flows,
at the test of the outer loop, or in the clean-up. -/
inductive FsPc where
  | rules (qp flow : Nat) | create (qp flow : Nat) | passEnd | clean (flow : Nat) | done
deriving DecidableEq, Repr

/-- `accesses` holds the indices used so far with the sizes of their arrays, `calls` and `created`
count the calls of `ibv_create_flow` and those that returned a handle. -/
structure FsState where
  pc : FsPc
  state : DurationState
  flowCreateResult : Nat → FlowSlot
  totFsCnt : Nat
  totIters : Nat
  calls : Nat
  created : Nat
  destroyed : List FlowSlot
  accesses : List (Nat × Nat)

/-- A step of the program, `ok` being the answer of the call that it makes, or the alarm. -/
inductive FsAction where
  | step (ok : Bool)
  | alarm
deriving DecidableEq, Repr

namespace FsConfig

variable (c : FsConfig)

/-- The loop over the flows ends early. -/
def ended (s : FsState) : Bool := c.testType = .duration && s.state = .endState

def start : FsState where
  pc := .rules 0 0
  state := .startState
  flowCreateResult := fun _ => .garbage
  totFsCnt := 0
  totIters := 0
  calls := 0
  created := 0
  destroyed := []
  accesses := []

def setUpFsRules (ok : Bool) (s : FsState) (qp flow : Nat) : FsState :=
  if qp < c.numOfQps then
    if flow < c.allocatedFlows then
      { s with
        accesses := (qp * c.allocatedFlows + flow, c.flowArraySize) :: s.accesses
        pc := if ok then .rules qp (flow + 1) else .clean 0 }
    else { s with pc := .rules (qp + 1) 0 }
  else { s with pc := .create 0 0 }

/-- The indices of a call of `ibv_create_flow`. -/
def createAccesses (s : FsState) (qp flow : Nat) : List (Nat × Nat) :=
  (if c.testType = .iterations then [(s.totFsCnt, c.tarrSize), (s.totFsCnt, c.tarrSize)] else []) ++
    [(flow, c.flowArraySize), (qp * c.allocatedFlows + flow, c.flowArraySize)]

def createFlow (ok : Bool) (s : FsState) (qp flow : Nat) : FsState :=
  let s :=
    { s with
      accesses := c.createAccesses s qp flow ++ s.accesses
      calls := s.calls + 1
      flowCreateResult :=
        Function.update s.flowCreateResult flow (if ok then .handle s.created else .null) }
  if ok then
    { s with
      created := s.created + 1
      totFsCnt := if c.testType = .iterations ∨ s.state = .sampleState then s.totFsCnt + 1
        else s.totFsCnt
      totIters := s.totIters + 1
      pc := .create qp (flow + 1) }
  else { s with pc := .clean 0 }

/-- One step of `run_iter_fs`. -/
def runIterFs (ok : Bool) (s : FsState) : Option FsState := match s.pc with
  | .rules qp flow => some (c.setUpFsRules ok s qp flow)
  | .create qp flow =>
    if qp < c.numOfQps then
      if flow < c.allocatedFlows then
        if c.ended s then some { s with pc := .create (qp + 1) 0 }
        else some (c.createFlow ok s qp flow)
      else some { s with pc := .create (qp + 1) 0 }
    else some { s with pc := .passEnd }
  | .passEnd =>
    if c.testType = .duration ∧ s.state ≠ .endState then some { s with pc := .create 0 0 }
    else some { s with pc := .clean 0 }
  | .clean flow =>
    if flow < s.totIters then
      some { s with
        accesses := (flow, c.flowArraySize) :: s.accesses
        destroyed := s.flowCreateResult flow :: s.destroyed
        pc := .clean (flow + 1) }
    else some { s with pc := .done }
  | .done => none

def act : FsAction → FsState → Option FsState
  | .step ok, s => c.runIterFs ok s
  | .alarm, s =>
    if c.testType = .duration ∧ s.state ≠ .endState then some { s with state := s.state.next }
    else none

def Reachable : FsState → Prop := Transition.Reachable (· = start) (Transition.stepOf c.act)

end FsConfig

/-- Every handle was destroyed exactly once and nothing else was, with all indices in range. -/
structure FsState.FlowsOk (s : FsState) : Prop where
  destroyed : s.destroyed.Perm ((List.range s.created).map .handle)
  accesses : ∀ a ∈ s.accesses, a.1 < a.2

/-- The flows of a run fit into one pass over the flows of the first QP, and the times into their
arrays. -/
structure FsConfig.Fits (c : FsConfig) (s : FsState) : Prop where
  flows : s.calls ≤ c.allocatedFlows
  times : c.testType = .iterations → c.noPeak = true → s.calls ≤ 1

/-- Where the next flow is stored, as long as the first pass over the first QP goes on. -/
def FsConfig.PcOk (c : FsConfig) (s : FsState) : Prop := match s.pc with
  | .rules _ _ => s.calls = 0 ∧ s.destroyed = []
  | .create qp flow => s.created = s.calls ∧ s.destroyed = [] ∧
    (c.ended s = true ∨ (s.calls < c.allocatedFlows ∧ qp = 0 ∧ flow = s.calls) ∨
      (s.calls = c.allocatedFlows ∧ (flow = c.allocatedFlows ∨ flow = 0)) ∨
      c.allocatedFlows < s.calls)
  | .passEnd => s.created = s.calls ∧ s.destroyed = [] ∧
    (c.ended s = true ∨ c.allocatedFlows ≤ s.calls)
  | .clean flow => flow ≤ s.created ∧
    s.destroyed = ((List.range flow).map s.flowCreateResult).reverse
  | .done => s.destroyed = ((List.range s.created).map s.flowCreateResult).reverse

structure FsInv (c : FsConfig) (s : FsState) : Prop where
  pc : c.PcOk s
  iters : s.totIters = s.created
  cnt : c.testType = .iterations → s.totFsCnt = s.created
  le : s.created ≤ s.calls ∧ s.calls ≤ s.created + 1
  stored : s.calls ≤ c.allocatedFlows → ∀ j, j < s.created → s.flowCreateResult j = .handle j
  lost : c.allocatedFlows < s.calls → 0 < s.created ∧ ∀ j, s.flowCreateResult j ≠ .handle 0
  first : ∀ j, s.flowCreateResult j = .handle 0 → j = 0
  inRange : c.Fits s → ∀ a ∈ s.accesses, a.1 < a.2
  outOfRange : c.testType = .iterations → c.noPeak = true → 2 ≤ s.calls → (1, 1) ∈ s.accesses

namespace FsInv

variable {c : FsConfig} {s t : FsState}

theorem start : FsInv c FsConfig.start where
  pc := ⟨rfl, rfl⟩
  iters := rfl
  cnt := fun _ => rfl
  le := ⟨le_refl _, Nat.zero_le _⟩
  stored := fun _ j hj => absurd hj (Nat.not_lt_zero j)
  lost := fun h => absurd h (Nat.not_lt_zero _)
  first := fun j hj => FlowSlot.noConfusion hj
  inRange := fun _ a ha => absurd ha List.not_mem_nil
  outOfRange := fun _ _ h => absurd h (by decide)

/-- A step that touches neither flows nor arrays. -/
theorem move (h : FsInv c s) (pc : FsPc) (hp : c.PcOk { s with pc := pc }) :
    FsInv c { s with pc := pc } :=
  ⟨hp, h.iters, h.cnt, h.le, h.stored, h.lost, h.first, fun hf => h.inRange ⟨hf.1, hf.2⟩,
    h.outOfRange⟩

theorem rule_index_lt {qp flow : Nat} (hq : qp < c.numOfQps) (hf : flow < c.allocatedFlows) :
    qp * c.allocatedFlows + flow < c.flowArraySize := by
  have h : qp * c.allocatedFlows + c.allocatedFlows ≤ c.numOfQps * c.allocatedFlows := by
    rw [← Nat.succ_mul]
    exact Nat.mul_le_mul_right _ hq
  rw [FsConfig.flowArraySize, Nat.mul_comm c.allocatedFlows]
  omega

theorem flow_index_lt {flow : Nat} (hf : flow < c.allocatedFlows) : flow < c.flowArraySize :=
  hf.trans_le (Nat.le_mul_of_pos_right _ c.qps_pos)

theorem setUpFsRules (h : FsInv c s) {ok : Bool} {qp flow : Nat} (hpc : s.pc = .rules qp flow) :
    FsInv c (c.setUpFsRules ok s qp flow) := by
  have hp := h.pc
  simp only [FsConfig.PcOk, hpc] at hp
  have hz : s.created = 0 := by
    have := h.le.1
    omega
  unfold FsConfig.setUpFsRules
  split
  next hq =>
    split
    next hf =>
      refine ⟨?_, h.iters, h.cnt, h.le, h.stored, h.lost, h.first, fun hfit a ha => ?_,
        fun h1 h2 h3 => ?_⟩
      · cases ok with
        | true => exact hp
        | false => exact ⟨Nat.zero_le _, hp.2⟩
      · rcases List.mem_cons.mp ha with rfl | ha
        · exact rule_index_lt hq hf
        · exact h.inRange ⟨hfit.1, hfit.2⟩ a ha
      · exact List.mem_cons_of_mem _ (h.outOfRange h1 h2 h3)
    next => exact h.move _ hp
  next =>
    apply h.move
    refine ⟨hz.trans hp.1.symm, hp.2, ?_⟩
    rcases Nat.eq_zero_or_pos c.allocatedFlows with ha | ha
    · exact Or.inr (Or.inr (Or.inl ⟨hp.1.trans ha.symm, Or.inr rfl⟩))
    · exact Or.inr (Or.inl ⟨hp.1.trans_lt ha, rfl, hp.1.symm⟩)

/-- Where a call of `ibv_create_flow` stores its result. -/
theorem next_slot (h : FsInv c s) {qp flow : Nat} (hpc : s.pc = .create qp flow)
    (hf : flow < c.allocatedFlows) (he : c.ended s = false) :
    s.created = s.calls ∧ s.destroyed = [] ∧
      ((s.calls < c.allocatedFlows ∧ flow = s.calls ∧ qp = 0) ∨
        (s.calls = c.allocatedFlows ∧ flow = 0) ∨ c.allocatedFlows < s.calls) := by
  have hp := h.pc
  simp only [FsConfig.PcOk, hpc, he, Bool.false_eq_true, false_or] at hp
  obtain ⟨h1, h2, h3⟩ := hp
  refine ⟨h1, h2, ?_⟩
  rcases h3 with ⟨ha, hb, hc⟩ | ⟨ha, hb | hb⟩ | ha
  · exact Or.inl ⟨ha, hc, hb⟩
  · omega
  · exact Or.inr (Or.inl ⟨ha, hb⟩)
  · exact Or.inr (Or.inr ha)

/-- What a call of `ibv_create_flow` stores. -/
def result (ok : Bool) (s : FsState) : FlowSlot := if ok then .handle s.created else .null

theorem result_handle {ok : Bool} {k : Nat} (h : result ok s = .handle k) :
    ok = true ∧ k = s.created := by
  cases ok with
  | true => exact ⟨rfl, (FlowSlot.handle.inj h).symm⟩
  | false => exact FlowSlot.noConfusion h

/-- The call behind the last flow of a QP overwrites the first handle. -/
theorem lost_after (h : FsInv c s) {ok : Bool} {flow : Nat} (hcc : s.created = s.calls)
    (hf : flow < c.allocatedFlows)
    (hslot : (s.calls = c.allocatedFlows ∧ flow = 0) ∨ c.allocatedFlows < s.calls) (j : Nat) :
    Function.update s.flowCreateResult flow (result ok s) j ≠ .handle 0 := by
  intro heq
  by_cases hj : j = flow
  · subst hj
    rw [Function.update_self] at heq
    have := (result_handle heq).2
    omega
  · rw [Function.update_of_ne hj] at heq
    have h0 := h.first j heq
    rcases hslot with hs | hs
    · omega
    · exact (h.lost hs).2 j heq

theorem createAccesses_lt (h : FsInv c s) {qp flow : Nat} (hcc : s.created = s.calls)
    (hq : qp < c.numOfQps) (hf : flow < c.allocatedFlows) (hn : s.calls < c.allocatedFlows)
    (hp : c.testType = .iterations → c.noPeak = true → s.calls = 0) :
    ∀ a ∈ c.createAccesses s qp flow, a.1 < a.2 := by
  intro a ha
  have hflows : a ∈ [(flow, c.flowArraySize), (qp * c.allocatedFlows + flow, c.flowArraySize)] →
      a.1 < a.2 := by
    intro ha
    simp only [List.mem_cons, List.not_mem_nil, or_false] at ha
    rcases ha with rfl | rfl
    · exact flow_index_lt hf
    · exact rule_index_lt hq hf
  rw [FsConfig.createAccesses, List.mem_append] at ha
  rcases ha with ha | ha
  · split at ha
    next ht =>
      have htime : s.totFsCnt < c.tarrSize := by
        rw [h.cnt ht, hcc, FsConfig.tarrSize]
        split
        next hnp =>
          rw [hp ht hnp]
          exact Nat.one_pos
        next =>
          rw [FsConfig.allocatedFlows, ht] at hn
          exact hn.trans_le (Nat.le_mul_of_pos_right _ c.qps_pos)
      simp only [List.mem_cons, List.not_mem_nil, or_false, or_self] at ha
      rw [ha]
      exact htime
    next => cases ha
  · exact hflows ha

theorem createFlow (h : FsInv c s) {ok : Bool} {qp flow : Nat} (hpc : s.pc = .create qp flow)
    (hq : qp < c.numOfQps) (hf : flow < c.allocatedFlows) (he : c.ended s = false) :
    FsInv c (c.createFlow ok s qp flow) := by
  obtain ⟨hcc, hd, hslot⟩ := h.next_slot hpc hf he
  have hlost : c.allocatedFlows < s.calls + 1 → 0 < s.created ∧ ∀ j,
      Function.update s.flowCreateResult flow (result ok s) j ≠ .handle 0 := by
    intro hlt
    exact ⟨by omega, h.lost_after hcc hf (by omega)⟩
  have hstored : s.calls + 1 ≤ c.allocatedFlows → ∀ j, j < s.created →
      Function.update s.flowCreateResult flow (result ok s) j = .handle j := by
    intro hle j hj
    rw [Function.update_of_ne (by omega)]
    exact h.stored (by omega) j hj
  have hfirst : ∀ j, Function.update s.flowCreateResult flow (result ok s) j = .handle 0 →
      j = 0 := by
    intro j hj
    by_cases hjf : j = flow
    · subst hjf
      rw [Function.update_self] at hj
      have := (result_handle hj).2
      omega
    · rw [Function.update_of_ne hjf] at hj
      exact h.first j hj
  have hrange : s.calls + 1 ≤ c.allocatedFlows →
      (c.testType = .iterations → c.noPeak = true → s.calls + 1 ≤ 1) →
      ∀ a ∈ c.createAccesses s qp flow ++ s.accesses, a.1 < a.2 := by
    intro hle hp a ha
    rcases List.mem_append.mp ha with ha | ha
    · refine h.createAccesses_lt hcc hq hf (by omega) (fun h1 h2 => ?_) a ha
      have := hp h1 h2
      omega
    · refine h.inRange ⟨by omega, fun h1 h2 => ?_⟩ a ha
      have := hp h1 h2
      omega
  have hout : c.testType = .iterations → c.noPeak = true → 2 ≤ s.calls + 1 →
      (1, 1) ∈ c.createAccesses s qp flow ++ s.accesses := by
    intro h1 h2 h3
    rcases Nat.lt_or_ge s.calls 2 with hlt | hge
    · have hc1 : s.totFsCnt = 1 := by
        have := h.cnt h1
        omega
      apply List.mem_append_left
      simp [FsConfig.createAccesses, h1, hc1, FsConfig.tarrSize, h2]
    · exact List.mem_append_right _ (h.outOfRange h1 h2 hge)
  cases ok with
  | true =>
    refine ⟨?_, ?_, ?_, ?_, ?_, ?_, hfirst, fun hfit => hrange hfit.1 hfit.2, hout⟩
    · refine ⟨congrArg (· + 1) hcc, hd, ?_⟩
      right
      show (s.calls + 1 < c.allocatedFlows ∧ qp = 0 ∧ flow + 1 = s.calls + 1) ∨
        (s.calls + 1 = c.allocatedFlows ∧ (flow + 1 = c.allocatedFlows ∨ flow + 1 = 0)) ∨
        c.allocatedFlows < s.calls + 1
      omega
    · exact congrArg (· + 1) h.iters
    · intro ht
      have := h.cnt ht
      show (if c.testType = .iterations ∨ s.state = .sampleState then s.totFsCnt + 1
        else s.totFsCnt) = s.created + 1
      rw [if_pos (Or.inl ht), this]
    · show s.created + 1 ≤ s.calls + 1 ∧ s.calls + 1 ≤ s.created + 1 + 1
      omega
    · intro hle j hj
      have hle : s.calls + 1 ≤ c.allocatedFlows := hle
      have hj : j < s.created + 1 := hj
      rcases Nat.lt_succ_iff_lt_or_eq.mp hj with hj | rfl
      · exact hstored hle j hj
      · rw [show s.created = flow by omega]
        exact (Function.update_self ..).trans (congrArg FlowSlot.handle (by omega))
    · intro hlt
      exact ⟨Nat.succ_pos _, (hlost hlt).2⟩
  | false =>
    refine ⟨⟨Nat.zero_le _, hd⟩, h.iters, h.cnt, ?_, hstored, hlost, hfirst,
      fun hfit => hrange hfit.1 hfit.2, hout⟩
    show s.created ≤ s.calls + 1 ∧ s.calls + 1 ≤ s.created + 1
    omega

theorem cleanFlow (h : FsInv c s) {flow : Nat} (hpc : s.pc = .clean flow)
    (hlt : flow < s.totIters) :
    FsInv c { s with
      accesses := (flow, c.flowArraySize) :: s.accesses
      destroyed := s.flowCreateResult flow :: s.destroyed
      pc := .clean (flow + 1) } := by
  have hp := h.pc
  simp only [FsConfig.PcOk, hpc] at hp
  have hi := h.iters
  refine ⟨⟨?_, ?_⟩, h.iters, h.cnt, h.le, h.stored, h.lost, h.first, fun hfit a ha => ?_,
    fun h1 h2 h3 => List.mem_cons_of_mem _ (h.outOfRange h1 h2 h3)⟩
  · show flow + 1 ≤ s.created
    omega
  · show s.flowCreateResult flow :: s.destroyed = _
    rw [hp.2, List.range_succ, List.map_append, List.reverse_append]
    rfl
  · rcases List.mem_cons.mp ha with rfl | ha
    · have := hfit.flows
      have := h.le.1
      have h3 : flow < c.allocatedFlows := by
        simp only at *
        omega
      exact flow_index_lt h3
    · exact h.inRange ⟨hfit.1, hfit.2⟩ a ha

theorem step (h : FsInv c s) {a : FsAction} (ha : c.act a s = some t) : FsInv c t := by
  cases a with
  | alarm =>
    simp only [FsConfig.act] at ha
    split at ha
    next hdur =>
      obtain rfl := Option.some.inj ha
      refine ⟨?_, h.iters, h.cnt, h.le, h.stored, h.lost, h.first, fun hf =>
        h.inRange ⟨hf.1, hf.2⟩, h.outOfRange⟩
      have hne : c.ended s = false := by
        simp [FsConfig.ended, hdur.2]
      have hp := h.pc
      unfold FsConfig.PcOk at hp ⊢
      dsimp only
      cases hpc : s.pc with
      | create qp flow =>
        simp only [hpc, hne, Bool.false_eq_true, false_or] at hp
        exact ⟨hp.1, hp.2.1, Or.inr hp.2.2⟩
      | passEnd =>
        simp only [hpc, hne, Bool.false_eq_true, false_or] at hp
        exact ⟨hp.1, hp.2.1, Or.inr hp.2.2⟩
      | rules qp flow =>
        simp only [hpc] at hp
        exact hp
      | clean flow =>
        simp only [hpc] at hp
        exact hp
      | done =>
        simp only [hpc] at hp
        exact hp
    next => cases ha
  | step ok =>
    have hp := h.pc
    simp only [FsConfig.act, FsConfig.runIterFs] at ha
    cases hpc : s.pc with
    | rules qp flow =>
      simp only [hpc, Option.some.injEq] at ha
      subst ha
      exact h.setUpFsRules hpc
    | create qp flow =>
      simp only [hpc] at ha
      simp only [FsConfig.PcOk, hpc] at hp
      split at ha
      next hq =>
        split at ha
        next hf =>
          split at ha
          next he =>
            obtain rfl := Option.some.inj ha
            exact h.move _ ⟨hp.1, hp.2.1, Or.inl he⟩
          next he =>
            obtain rfl := Option.some.inj ha
            exact h.createFlow hpc hq hf (by simpa using he)
        next hf =>
          obtain rfl := Option.some.inj ha
          refine h.move _ ⟨hp.1, hp.2.1, ?_⟩
          rcases hp.2.2 with he | hr | hr | hr
          · exact Or.inl he
          · omega
          · exact Or.inr (Or.inr (Or.inl ⟨hr.1, Or.inr rfl⟩))
          · exact Or.inr (Or.inr (Or.inr hr))
      next hq =>
        obtain rfl := Option.some.inj ha
        refine h.move _ ⟨hp.1, hp.2.1, ?_⟩
        have hn := c.qps_pos
        rcases hp.2.2 with he | hr | hr | hr
        · exact Or.inl he
        · omega
        · exact Or.inr hr.1.ge
        · exact Or.inr (Nat.le_of_lt hr)
    | passEnd =>
      simp only [hpc] at ha
      simp only [FsConfig.PcOk, hpc] at hp
      split at ha
      next hdur =>
        obtain rfl := Option.some.inj ha
        refine h.move _ ⟨hp.1, hp.2.1, ?_⟩
        rcases hp.2.2 with he | hr
        · exact Or.inl he
        · rcases Nat.eq_or_lt_of_le hr with hr | hr
          · exact Or.inr (Or.inr (Or.inl ⟨hr.symm, Or.inr rfl⟩))
          · exact Or.inr (Or.inr (Or.inr hr))
      next =>
        obtain rfl := Option.some.inj ha
        exact h.move _ ⟨Nat.zero_le _, hp.2.1⟩
    | clean flow =>
      simp only [hpc] at ha
      split at ha
      next hlt =>
        obtain rfl := Option.some.inj ha
        exact h.cleanFlow hpc hlt
      next hge =>
        obtain rfl := Option.some.inj ha
        apply h.move
        simp only [FsConfig.PcOk, hpc] at hp ⊢
        have := h.iters
        rw [hp.2, show flow = s.created by omega]
    | done => simp [hpc] at ha

theorem of_reachable (h : c.Reachable s) : FsInv c s := by
  apply Transition.Reachable.invariant (P := fun s => FsInv c s) ?_ ?_ h
  · intro s hs
    rw [hs]
    exact start
  · intro s t hs ht
    obtain ⟨a, ha⟩ := ht
    exact hs.step ha

end FsInv

theorem fiveFlows_ports_le : 1 + 1 ≤ 2 * MAX_FS_PORT := by decide

/-- A test of five flows on each of `n` QPs. -/
def fiveFlows (n : Nat) (h : 0 < n) : FsConfig where
  testType := .iterations
  numOfQps := n
  iters := 5
  noPeak := false
  serverPort := 1
  clientPort := 1
  qps_pos := h
  ports_le := fiveFlows_ports_le

end Perftest
