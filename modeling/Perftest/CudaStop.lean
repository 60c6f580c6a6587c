import Perftest.ValidationCommon
import Perftest.ValidationQueue

namespace Perftest

open CMachine

def VALIDATION_THREADS_PER_BLOCK : Nat := 1024
def VALIDATION_MAX_VALIDATOR_BLOCKS : Nat := 128

def calculateValidatorBlocks (numQps : Nat) : Nat :=
  let blocks := numQps * 16
  let blocks := if blocks < 32 then 32 else blocks
  if VALIDATION_MAX_VALIDATOR_BLOCKS < blocks then VALIDATION_MAX_VALIDATOR_BLOCKS else blocks

/-- What `validation_init` accepts. -/
structure CudaConfig where
  numQps : Nat
  chunksPerQp : Nat
  chunksPerQp_range : 1 ≤ chunksPerQp ∧ chunksPerQp ≤ VALIDATION_MAX_CHUNKS_PER_QP
  markers_lt : numQps * chunksPerQp < 2 ^ 32

/-- A thread of `monitor_scan_tails`: at the loop test, at an index of the pass, with a new value of
its marker, or behind a successful push of it. -/
inductive MonitorPc where
  | test | scan (i : Nat) | found (i : Nat) (v : UInt64) | update (i : Nat) (v : UInt64) | exited
deriving DecidableEq, Repr

/-- A block of `validator_process_work`: at the flag test, at the pop, with an item, or with one
that was not superseded. -/
inductive ValidatorPc where
  | test | pop | work (item : WorkItem) | check (item : WorkItem) | exited
deriving DecidableEq, Repr

/-- The kernel, the queue being a list whose pushes and pops are single steps. `validated` holds the
items whose data was compared, and `quiescent` says that the sender has ended. -/
structure CudaRun where
  tailMarkers : Nat → UInt64
  lastSeen : Nat → UInt64
  queue : List WorkItem
  monitors : Nat → MonitorPc
  validators : Nat → ValidatorPc
  validated : List WorkItem
  validationFailed : Bool
  shouldStop : Bool
  quiescent : Bool

/-- The sender moves a marker or ends, `validation_stop` sets its flag, a monitor thread `m` and a
validator block `b` take a step. A pop also fails when it loses the exchange, and a comparison ends
with a real mismatch or without one. -/
inductive CudaStep where
  | write (i : Nat) (v : UInt64)
  | quiesce
  | stop
  | monitorTest (m : Nat)
  | monitorScan (m : Nat)
  | monitorPush (m : Nat)
  | monitorUpdate (m : Nat)
  | validatorTest (b : Nat)
  | validatorPop (b : Nat)
  | validatorLose (b : Nat)
  | validatorSnapshot (b : Nat)
  | validatorCheck (b : Nat) (real : Bool)

namespace CudaRun

def setMonitor (s : CudaRun) (m : Nat) (p : MonitorPc) : CudaRun :=
  { s with monitors := Function.update s.monitors m p }

def setValidator (s : CudaRun) (b : Nat) (p : ValidatorPc) : CudaRun :=
  { s with validators := Function.update s.validators b p }

/-- The state that `validation_start` launches the kernel in. -/
def start (tailMarkers : Nat → UInt64) : CudaRun where
  tailMarkers := tailMarkers
  lastSeen := fun _ => 0
  queue := []
  monitors := fun _ => .test
  validators := fun _ => .test
  validated := []
  validationFailed := false
  shouldStop := false
  quiescent := false

end CudaRun

namespace CudaConfig

variable (c : CudaConfig)

def totalTails : Nat := c.numQps * c.chunksPerQp

def validatorBlocks : Nat := calculateValidatorBlocks c.numQps

/-- What the monitor pushes for value `v` of marker `i`. -/
def workItem (i : Nat) (v : UInt64) : WorkItem where
  qpId := UInt32.ofNat (i / c.chunksPerQp)
  markerEpoch := v
  chunkId := UInt16.ofNat (i % c.chunksPerQp)
  expectedPattern := validationCycleToPattern (v.toNat - 1)

def markerIdx (item : WorkItem) : Nat := u32 (item.qpId.toNat * c.chunksPerQp + item.chunkId.toNat)

/-- The end of the kernel, for which `validation_stop` waits. -/
def Returned (s : CudaRun) : Prop :=
  s.shouldStop = true ∧ (∀ m < VALIDATION_THREADS_PER_BLOCK, s.monitors m = .exited) ∧
    ∀ b < c.validatorBlocks, s.validators b = .exited

def act : CudaStep → CudaRun → Option CudaRun
  | .write i v, s =>
    if ¬ s.quiescent ∧ i < c.totalTails ∧ s.tailMarkers i < v then
      some { s with tailMarkers := Function.update s.tailMarkers i v }
    else none
  | .quiesce, s => some { s with quiescent := true }
  | .stop, s => if s.quiescent then some { s with shouldStop := true } else none
  | .monitorTest m, s =>
    if m < VALIDATION_THREADS_PER_BLOCK ∧ s.monitors m = .test then
      some (s.setMonitor m (if s.validationFailed || s.shouldStop then .exited else .scan m))
    else none
  | .monitorScan m, s => match s.monitors m with
    | .scan i =>
      if i < c.totalTails then
        if s.tailMarkers i = 0 ∨ s.tailMarkers i ≤ s.lastSeen i then
          some (s.setMonitor m (.scan (i + VALIDATION_THREADS_PER_BLOCK)))
        else some (s.setMonitor m (.found i (s.tailMarkers i)))
      else some (s.setMonitor m .test)
    | _ => none
  | .monitorPush m, s => match s.monitors m with
    | .found i v =>
      if s.queue.length < VALIDATION_QUEUE_SIZE then
        some { s.setMonitor m (.update i v) with queue := s.queue ++ [c.workItem i v] }
      else some (s.setMonitor m (.scan (i + VALIDATION_THREADS_PER_BLOCK)))
    | _ => none
  | .monitorUpdate m, s => match s.monitors m with
    | .update i v =>
      some { s.setMonitor m (.scan (i + VALIDATION_THREADS_PER_BLOCK)) with
        lastSeen := Function.update s.lastSeen i v }
    | _ => none
  | .validatorTest b, s =>
    if b < c.validatorBlocks ∧ s.validators b = .test then
      some (s.setValidator b (if s.validationFailed || s.shouldStop then .exited else .pop))
    else none
  | .validatorPop b, s => match s.validators b, s.queue with
    | .pop, [] => some (s.setValidator b .test)
    | .pop, item :: rest => some { s.setValidator b (.work item) with queue := rest }
    | _, _ => none
  | .validatorLose b, s =>
    if s.validators b = .pop then some (s.setValidator b .test) else none
  | .validatorSnapshot b, s => match s.validators b with
    | .work item =>
      some (s.setValidator b
        (if item.markerEpoch < s.tailMarkers (c.markerIdx item) then .test else .check item))
    | _ => none
  | .validatorCheck b real, s => match s.validators b with
    | .check item =>
      some { s.setValidator b .test with
        validated := item :: s.validated
        validationFailed := s.validationFailed || real }
    | _ => none

def IsStart (s : CudaRun) : Prop := ∃ tailMarkers, s = .start tailMarkers

def Reachable : CudaRun → Prop := Transition.Reachable IsStart (Transition.stepOf c.act)

/-- The queue is empty and the monitor has seen the value of every marker. -/
def CaughtUp (s : CudaRun) : Prop :=
  s.queue = [] ∧ ∀ i < c.totalTails, s.lastSeen i = s.tailMarkers i

instance (s : CudaRun) : Decidable (c.CaughtUp s) := inferInstanceAs (Decidable (_ ∧ _))

/-- The last validator block that runs sees the stop flag only when nothing is left to do. -/
def lastExitsLate (a : CudaStep) (s : CudaRun) : Bool := match a with
  | .validatorTest b => !s.shouldStop || s.validationFailed ||
      decide (∃ b' < c.validatorBlocks, b' ≠ b ∧ s.validators b' ≠ .exited) ||
      decide (c.CaughtUp s)
  | _ => true

def LateReachable : CudaRun → Prop :=
  Transition.Reachable IsStart (Transition.stepOf (Transition.guarded c.lastExitsLate c.act))

/-- The work item of the last epoch of every marker was validated. -/
structure NoneLeft (s : CudaRun) : Prop where
  queue : s.queue = []
  seen : ∀ i < c.totalTails, s.lastSeen i = s.tailMarkers i
  validated : ∀ i < c.totalTails, s.tailMarkers i ≠ 0 →
    c.workItem i (s.tailMarkers i) ∈ s.validated

variable {c} {s : CudaRun} {i m b : Nat} {v : UInt64}

theorem validatorBlocks_pos : 0 < c.validatorBlocks := by
  simp only [validatorBlocks, calculateValidatorBlocks, VALIDATION_MAX_VALIDATOR_BLOCKS]
  split_ifs <;> omega

/-- The fields of an item hold the QP and the chunk of its marker. -/
theorem workItem_ids (hi : i < c.totalTails) :
    (c.workItem i v).qpId.toNat = i / c.chunksPerQp ∧
      (c.workItem i v).chunkId.toNat = i % c.chunksPerQp := by
  obtain ⟨h1, h2⟩ := c.chunksPerQp_range
  have hlt := c.markers_lt
  simp only [VALIDATION_MAX_CHUNKS_PER_QP] at h2
  unfold totalTails at hi
  have hq : i / c.chunksPerQp < 2 ^ 32 := by
    have := Nat.div_le_self i c.chunksPerQp
    omega
  have hm : i % c.chunksPerQp < 2 ^ 16 := by
    have := Nat.mod_lt i (show 0 < c.chunksPerQp by omega)
    omega
  exact ⟨UInt32.toNat_ofNat_of_lt' hq, UInt16.toNat_ofNat_of_lt' hm⟩

/-- The validator finds the marker of an item again. -/
theorem markerIdx_workItem (hi : i < c.totalTails) : c.markerIdx (c.workItem i v) = i := by
  obtain ⟨hq, hm⟩ := workItem_ids (v := v) hi
  have hlt := c.markers_lt
  unfold totalTails at hi
  rw [markerIdx, hq, hm, Nat.div_add_mod', u32_of_lt (by omega)]

/-- An item that was pushed waits in the queue, is held by a validator, was validated, or is
superseded. -/
def Pending (c : CudaConfig) (s : CudaRun) (i : Nat) (v : UInt64) : Prop :=
  v < s.tailMarkers i ∨ c.workItem i v ∈ s.queue ∨
    (∃ b, s.validators b = .work (c.workItem i v) ∨ s.validators b = .check (c.workItem i v)) ∨
    c.workItem i v ∈ s.validated

/-- Where a monitor thread can stand. -/
def MonitorOk (c : CudaConfig) (s : CudaRun) (m : Nat) : MonitorPc → Prop
  | .scan i => i % VALIDATION_THREADS_PER_BLOCK = m
  | .found i v => i % VALIDATION_THREADS_PER_BLOCK = m ∧ i < c.totalTails ∧ s.lastSeen i < v ∧
      v ≤ s.tailMarkers i
  | .update i v => i % VALIDATION_THREADS_PER_BLOCK = m ∧ i < c.totalTails ∧ s.lastSeen i < v ∧
      v ≤ s.tailMarkers i ∧ c.Pending s i v
  | _ => True

theorem MonitorOk.mono {t : CudaRun} {p : MonitorPc} (h : c.MonitorOk s m p)
    (hl : ∀ i, i % VALIDATION_THREADS_PER_BLOCK = m → t.lastSeen i = s.lastSeen i)
    (ht : ∀ i, s.tailMarkers i ≤ t.tailMarkers i)
    (hp : ∀ i v, i < c.totalTails → c.Pending s i v → c.Pending t i v) : c.MonitorOk t m p := by
  cases p with
  | test => trivial
  | exited => trivial
  | scan i => exact h
  | found i v =>
    obtain ⟨h1, h2, h3, h4⟩ := h
    refine ⟨h1, h2, ?_, UInt64.le_trans h4 (ht i)⟩
    rw [hl i h1]
    exact h3
  | update i v =>
    obtain ⟨h1, h2, h3, h4, h5⟩ := h
    refine ⟨h1, h2, ?_, UInt64.le_trans h4 (ht i), hp i v h2 h5⟩
    rw [hl i h1]
    exact h3

end CudaConfig

open CudaConfig

/-- What holds between the steps of the kernel. -/
structure CudaInv (c : CudaConfig) (s : CudaRun) : Prop where
  seen : ∀ i, s.lastSeen i ≤ s.tailMarkers i
  monitors : ∀ m, c.MonitorOk s m (s.monitors m)
  pending : ∀ i < c.totalTails, s.lastSeen i ≠ 0 → c.Pending s i (s.lastSeen i)
  stopped : s.shouldStop = true → s.quiescent = true
  blocks : ∀ b, s.validators b ≠ .test → b < c.validatorBlocks
  running : s.validationFailed = true ∨ (∃ b < c.validatorBlocks, s.validators b ≠ .exited) ∨
    (s.quiescent = true ∧ c.CaughtUp s)

namespace CudaInv

variable {c : CudaConfig} {s t : CudaRun} {i m b : Nat} {v : UInt64}

theorem start (tailMarkers : Nat → UInt64) : CudaInv c (.start tailMarkers) where
  seen _ := UInt64.zero_le
  monitors _ := trivial
  pending _ _ h := absurd rfl h
  stopped h := by cases h
  blocks _ h := absurd rfl h
  running := Or.inr (Or.inl ⟨0, validatorBlocks_pos, by simp [CudaRun.start]⟩)

/-- A monitor thread that has something to push contradicts that everything was seen. -/
theorem not_caughtUp (hm : i < c.totalTails) (hl : s.lastSeen i < v) (hv : v ≤ s.tailMarkers i) :
    ¬ c.CaughtUp s := by
  intro h
  have he := h.2 i hm
  rw [he] at hl
  exact absurd (UInt64.lt_of_lt_of_le hl hv) (UInt64.lt_irrefl _)

theorem setMonitor (h : CudaInv c s) {p : MonitorPc} (hp : c.MonitorOk s m p) :
    CudaInv c (s.setMonitor m p) := by
  refine ⟨h.seen, fun m' => ?_, h.pending, h.stopped, h.blocks, h.running⟩
  have hok : c.MonitorOk s m' (Function.update s.monitors m p m') := by
    by_cases he : m' = m
    · subst he
      rw [Function.update_self]
      exact hp
    · rw [Function.update_of_ne he]
      exact h.monitors m'
  exact hok.mono (fun _ _ => rfl) (fun _ => UInt64.le_refl _) fun _ _ _ hp => hp

theorem monitorTest (h : CudaInv c s) (hm : m < VALIDATION_THREADS_PER_BLOCK) :
    CudaInv c (s.setMonitor m
      (if s.validationFailed || s.shouldStop then .exited else .scan m)) := by
  refine h.setMonitor ?_
  split
  · trivial
  · exact Nat.mod_eq_of_lt hm

theorem monitorScan (h : CudaInv c s) (hs : c.act (.monitorScan m) s = some t) : CudaInv c t := by
  have hok := h.monitors m
  simp only [act] at hs
  split at hs
  next i hpc =>
    rw [hpc] at hok
    split at hs
    next hi =>
      split at hs
      next =>
        rw [← Option.some.inj hs]
        refine h.setMonitor ?_
        simpa [MonitorOk] using hok
      next hv =>
        rw [← Option.some.inj hs]
        refine h.setMonitor ⟨hok, hi, ?_, UInt64.le_refl _⟩
        exact UInt64.not_le.mp fun hle => hv (Or.inr hle)
    next =>
      rw [← Option.some.inj hs]
      exact h.setMonitor trivial
  next => cases hs

/-- What is not about the validators, the queue and the flags carries over. -/
theorem of_pending (h : CudaInv c s) (hm : t.monitors = s.monitors) (hl : t.lastSeen = s.lastSeen)
    (ht : ∀ i, s.tailMarkers i ≤ t.tailMarkers i)
    (hp : ∀ i v, i < c.totalTails → c.Pending s i v → c.Pending t i v)
    (hs : t.shouldStop = true → t.quiescent = true)
    (hb : ∀ b, t.validators b ≠ .test → b < c.validatorBlocks)
    (hr : t.validationFailed = true ∨ (∃ b < c.validatorBlocks, t.validators b ≠ .exited) ∨
      (t.quiescent = true ∧ c.CaughtUp t)) : CudaInv c t := by
  refine ⟨fun i => ?_, fun m => ?_, fun i hi h0 => ?_, hs, hb, hr⟩
  · rw [hl]
    exact UInt64.le_trans (h.seen i) (ht i)
  · rw [hm]
    exact (h.monitors m).mono (fun i _ => by rw [hl]) ht hp
  · rw [hl] at h0 ⊢
    exact hp i _ hi (h.pending i hi h0)

theorem write (h : CudaInv c s) (hq : ¬ s.quiescent = true) (hv : s.tailMarkers i < v) :
    CudaInv c { s with tailMarkers := Function.update s.tailMarkers i v } := by
  have hle : ∀ j, s.tailMarkers j ≤ Function.update s.tailMarkers i v j := by
    intro j
    by_cases he : j = i
    · subst he
      rw [Function.update_self]
      exact UInt64.le_of_lt hv
    · rw [Function.update_of_ne he]
      exact UInt64.le_refl _
  refine h.of_pending rfl rfl hle (fun j w _ hp => ?_) h.stopped h.blocks ?_
  · rcases hp with hp | hp
    · exact Or.inl (UInt64.lt_of_lt_of_le hp (hle j))
    · exact Or.inr hp
  · rcases h.running with hr | hr | hr
    · exact Or.inl hr
    · exact Or.inr (Or.inl hr)
    · exact absurd hr.1 hq

theorem monitorPush (h : CudaInv c s) (hs : c.act (.monitorPush m) s = some t) : CudaInv c t := by
  have hok := h.monitors m
  simp only [act] at hs
  split at hs
  next i v hpc =>
    rw [hpc] at hok
    obtain ⟨h1, h2, h3, h4⟩ := hok
    split at hs
    next =>
      rw [← Option.some.inj hs]
      have hq : CudaInv c { s with queue := s.queue ++ [c.workItem i v] } := by
        refine h.of_pending rfl rfl (fun _ => UInt64.le_refl _) (fun j w _ hp => ?_) h.stopped
          h.blocks ?_
        · rcases hp with hp | hp | hp
          · exact Or.inl hp
          · exact Or.inr (Or.inl (List.mem_append_left _ hp))
          · exact Or.inr (Or.inr hp)
        · rcases h.running with hr | hr | hr
          · exact Or.inl hr
          · exact Or.inr (Or.inl hr)
          · exact absurd hr.2 (not_caughtUp h2 h3 h4)
      exact hq.setMonitor ⟨h1, h2, h3, h4, Or.inr (Or.inl (by simp))⟩
    next =>
      rw [← Option.some.inj hs]
      refine h.setMonitor ?_
      simpa [MonitorOk] using h1
  next => cases hs

theorem monitorUpdate (h : CudaInv c s) (hs : c.act (.monitorUpdate m) s = some t) :
    CudaInv c t := by
  have hok := h.monitors m
  simp only [act] at hs
  split at hs
  next i v hpc =>
    rw [hpc] at hok
    obtain ⟨h1, h2, h3, h4, h5⟩ := hok
    rw [← Option.some.inj hs]
    refine ⟨fun j => ?_, fun m' => ?_, fun j hj h0 => ?_, h.stopped, h.blocks, ?_⟩
    · by_cases he : j = i
      · subst he
        simpa [CudaRun.setMonitor] using h4
      · simpa [he, CudaRun.setMonitor] using h.seen j
    · by_cases he : m' = m
      · subst he
        simpa [CudaRun.setMonitor, MonitorOk] using h1
      · simp only [CudaRun.setMonitor, Function.update_of_ne he]
        refine (h.monitors m').mono (fun j hj => ?_) (fun _ => UInt64.le_refl _) fun _ _ _ hp => hp
        have hne : j ≠ i := by
          intro heq
          rw [heq, h1] at hj
          exact he hj.symm
        exact Function.update_of_ne hne _ _
    · by_cases he : j = i
      · subst he
        simp only [Function.update_self]
        exact h5
      · simp only [Function.update_of_ne he] at h0 ⊢
        exact h.pending j hj h0
    · rcases h.running with hr | hr | hr
      · exact Or.inl hr
      · exact Or.inr (Or.inl hr)
      · exact absurd hr.2 (not_caughtUp h2 h3 h4)
  next => cases hs

/-- A validator block that goes on leaves the rest of the kernel as it is; what it held is held,
superseded or validated. -/
theorem setValidator (h : CudaInv c s) {p : ValidatorPc} (hb : b < c.validatorBlocks)
    (hp : p ≠ .exited) (ht : t.validators = Function.update s.validators b p)
    (hm : t.monitors = s.monitors) (hl : t.lastSeen = s.lastSeen)
    (hk : t.tailMarkers = s.tailMarkers) (hq : t.quiescent = s.quiescent)
    (hs : t.shouldStop = s.shouldStop) (hv : ∀ item ∈ s.validated, item ∈ t.validated)
    (hqueue : ∀ i v, i < c.totalTails → c.workItem i v ∈ s.queue → c.Pending t i v)
    (hheld : ∀ i v, i < c.totalTails → s.validators b = .work (c.workItem i v) ∨
      s.validators b = .check (c.workItem i v) → c.Pending t i v) : CudaInv c t := by
  have hpend : ∀ i v, i < c.totalTails → c.Pending s i v → c.Pending t i v := by
    intro i v hi h'
    rcases h' with h' | h' | h' | h'
    · left
      rw [hk]
      exact h'
    · exact hqueue i v hi h'
    · obtain ⟨b', hb'⟩ := h'
      by_cases he : b' = b
      · rw [he] at hb'
        exact hheld i v hi hb'
      · refine Or.inr (Or.inr (Or.inl ⟨b', ?_⟩))
        rw [ht, Function.update_of_ne he]
        exact hb'
    · exact Or.inr (Or.inr (Or.inr (hv _ h')))
  refine h.of_pending hm hl (fun i => ?_) hpend ?_ (fun b' hb' => ?_)
    (Or.inr (Or.inl ⟨b, hb, ?_⟩))
  · rw [hk]
    exact UInt64.le_refl _
  · rw [hq, hs]
    exact h.stopped
  · by_cases he : b' = b
    · rw [he]
      exact hb
    · rw [ht, Function.update_of_ne he] at hb'
      exact h.blocks b' hb'
  · rw [ht, Function.update_self]
    exact hp

theorem validatorPop (h : CudaInv c s) (hs : c.act (.validatorPop b) s = some t) :
    CudaInv c t := by
  simp only [act] at hs
  split at hs
  next hpc hqu =>
    rw [← Option.some.inj hs]
    refine h.setValidator (h.blocks b (by simp [hpc])) (by simp) rfl rfl rfl rfl rfl rfl
      (fun _ h' => h') (fun i v _ h' => ?_) fun i v _ h' => ?_
    · rw [hqu] at h'
      cases h'
    · rw [hpc] at h'
      rcases h' with h' | h' <;> cases h'
  next item rest hpc hqu =>
    rw [← Option.some.inj hs]
    refine h.setValidator (h.blocks b (by simp [hpc])) (by simp) rfl rfl rfl rfl rfl rfl
      (fun _ h' => h') (fun i v _ h' => ?_) fun i v _ h' => ?_
    · rw [hqu] at h'
      rcases List.mem_cons.mp h' with h' | h'
      · refine Or.inr (Or.inr (Or.inl ⟨b, Or.inl ?_⟩))
        rw [h']
        exact Function.update_self _ _ _
      · exact Or.inr (Or.inl h')
    · rw [hpc] at h'
      rcases h' with h' | h' <;> cases h'
  next => cases hs

theorem validatorLose (h : CudaInv c s) (hpc : s.validators b = .pop) :
    CudaInv c (s.setValidator b .test) := by
  refine h.setValidator (h.blocks b (by simp [hpc])) (by simp) rfl rfl rfl rfl rfl rfl
    (fun _ h' => h') (fun i v _ h' => Or.inr (Or.inl h')) fun i v _ h' => ?_
  rw [hpc] at h'
  rcases h' with h' | h' <;> cases h'

theorem validatorSnapshot (h : CudaInv c s) (hs : c.act (.validatorSnapshot b) s = some t) :
    CudaInv c t := by
  simp only [act] at hs
  split at hs
  next item hpc =>
    rw [← Option.some.inj hs]
    refine h.setValidator (p := if item.markerEpoch < s.tailMarkers (c.markerIdx item) then .test
        else .check item) (h.blocks b (by simp [hpc])) (by split <;> simp) rfl rfl rfl rfl rfl rfl
      (fun _ h' => h') (fun i v _ h' => Or.inr (Or.inl h')) fun i v hi h' => ?_
    rw [hpc] at h'
    have hit : item = c.workItem i v := by
      rcases h' with h' | h'
      · exact ValidatorPc.work.inj h'
      · cases h'
    rw [hit, markerIdx_workItem hi]
    by_cases hlt : v < s.tailMarkers i
    · exact Or.inl hlt
    · refine Or.inr (Or.inr (Or.inl ⟨b, Or.inr ?_⟩))
      have hlt' : ¬ (c.workItem i v).markerEpoch < s.tailMarkers i := hlt
      rw [if_neg hlt']
      exact Function.update_self _ _ _
  next => cases hs

theorem validatorCheck (h : CudaInv c s) {real : Bool}
    (hs : c.act (.validatorCheck b real) s = some t) : CudaInv c t := by
  simp only [act] at hs
  split at hs
  next item hpc =>
    rw [← Option.some.inj hs]
    refine h.setValidator (h.blocks b (by simp [hpc])) (by simp) rfl rfl rfl rfl rfl rfl
      (fun _ h' => List.mem_cons_of_mem _ h') (fun i v _ h' => Or.inr (Or.inl h'))
      fun i v _ h' => ?_
    rw [hpc] at h'
    rcases h' with h' | h'
    · cases h'
    · rw [ValidatorPc.check.inj h']
      exact Or.inr (Or.inr (Or.inr List.mem_cons_self))
  next => cases hs

/-- At the flag test a block holds no item; the last one to leave leaves nothing behind. -/
theorem validatorTest (h : CudaInv c s) (hb : b < c.validatorBlocks)
    (hpc : s.validators b = .test) (hg : c.lastExitsLate (.validatorTest b) s = true) :
    CudaInv c (s.setValidator b
      (if s.validationFailed || s.shouldStop then .exited else .pop)) := by
  have hheld : ∀ i v, ¬ (s.validators b = .work (c.workItem i v) ∨
      s.validators b = .check (c.workItem i v)) := by
    intro i v h'
    rw [hpc] at h'
    rcases h' with h' | h' <;> cases h'
  by_cases hx : (s.validationFailed || s.shouldStop) = true
  · rw [if_pos hx]
    refine h.of_pending rfl rfl (fun _ => UInt64.le_refl _) (fun i v _ h' => ?_) h.stopped
      (fun b' hb' => ?_) ?_
    · rcases h' with h' | h' | h' | h'
      · exact Or.inl h'
      · exact Or.inr (Or.inl h')
      · obtain ⟨b', hb'⟩ := h'
        refine Or.inr (Or.inr (Or.inl ⟨b', ?_⟩))
        by_cases he : b' = b
        · rw [he] at hb'
          exact absurd hb' (hheld i v)
        · simpa only [CudaRun.setValidator, Function.update_of_ne he] using hb'
      · exact Or.inr (Or.inr (Or.inr h'))
    · by_cases he : b' = b
      · rw [he]
        exact hb
      · simp only [CudaRun.setValidator, Function.update_of_ne he] at hb'
        exact h.blocks b' hb'
    · simp only [lastExitsLate, Bool.or_eq_true, Bool.not_eq_true', decide_eq_true_eq] at hg
      by_cases hf : s.validationFailed = true
      · exact Or.inl hf
      have hst : s.shouldStop = true := by simpa [hf] using hx
      rcases hg with ((hg | hg) | hg) | hg
      · rw [hst] at hg
        cases hg
      · exact absurd hg hf
      · obtain ⟨b', hlt, hne, hr⟩ := hg
        refine Or.inr (Or.inl ⟨b', hlt, ?_⟩)
        simpa only [CudaRun.setValidator, Function.update_of_ne hne] using hr
      · exact Or.inr (Or.inr ⟨h.stopped hst, hg⟩)
  · rw [if_neg hx]
    exact h.setValidator hb (by simp) rfl rfl rfl rfl rfl rfl (fun _ h' => h')
      (fun i v _ h' => Or.inr (Or.inl h')) fun i v _ h' => absurd h' (hheld i v)

theorem quiesce (h : CudaInv c s) : CudaInv c { s with quiescent := true } := by
  refine h.of_pending rfl rfl (fun _ => UInt64.le_refl _) (fun _ _ _ hp => hp) (fun _ => rfl)
    h.blocks ?_
  rcases h.running with hr | hr | hr
  · exact Or.inl hr
  · exact Or.inr (Or.inl hr)
  · exact Or.inr (Or.inr ⟨rfl, hr.2⟩)

theorem stop (h : CudaInv c s) (hq : s.quiescent = true) :
    CudaInv c { s with shouldStop := true } :=
  h.of_pending rfl rfl (fun _ => UInt64.le_refl _) (fun _ _ _ hp => hp) (fun _ => hq) h.blocks
    h.running

theorem step (h : CudaInv c s)
    (hst : Transition.stepOf (Transition.guarded c.lastExitsLate c.act) s t) : CudaInv c t := by
  obtain ⟨a, ha⟩ := hst
  obtain ⟨hg, ha⟩ := Transition.guarded_eq_some.mp ha
  cases a with
  | write i v =>
    obtain ⟨⟨hq, -, hv⟩, ht⟩ := Option.ite_none_right_eq_some.mp ha
    rw [← Option.some.inj ht]
    exact h.write hq hv
  | quiesce =>
    rw [← Option.some.inj ha]
    exact h.quiesce
  | stop =>
    obtain ⟨hq, ht⟩ := Option.ite_none_right_eq_some.mp ha
    rw [← Option.some.inj ht]
    exact h.stop hq
  | monitorTest m =>
    obtain ⟨⟨hm, -⟩, ht⟩ := Option.ite_none_right_eq_some.mp ha
    rw [← Option.some.inj ht]
    exact h.monitorTest hm
  | monitorScan m => exact h.monitorScan ha
  | monitorPush m => exact h.monitorPush ha
  | monitorUpdate m => exact h.monitorUpdate ha
  | validatorTest b =>
    obtain ⟨⟨hb, hpc⟩, ht⟩ := Option.ite_none_right_eq_some.mp ha
    rw [← Option.some.inj ht]
    exact h.validatorTest hb hpc hg
  | validatorPop b => exact h.validatorPop ha
  | validatorLose b =>
    obtain ⟨hpc, ht⟩ := Option.ite_none_right_eq_some.mp ha
    rw [← Option.some.inj ht]
    exact h.validatorLose hpc
  | validatorSnapshot b => exact h.validatorSnapshot ha
  | validatorCheck b real => exact h.validatorCheck ha

theorem of_reachable (h : c.LateReachable s) : CudaInv c s := by
  refine h.invariant (P := fun s => CudaInv c s) (fun s hs => ?_) fun s t hp hst => hp.step hst
  obtain ⟨tailMarkers, rfl⟩ := hs
  exact CudaInv.start tailMarkers

end CudaInv

/-- The two states differ in where the threads and blocks stand. -/
structure CudaRun.SameData (s t : CudaRun) : Prop where
  tailMarkers : t.tailMarkers = s.tailMarkers
  lastSeen : t.lastSeen = s.lastSeen
  queue : t.queue = s.queue
  validated : t.validated = s.validated
  validationFailed : t.validationFailed = s.validationFailed
  shouldStop : t.shouldStop = s.shouldStop

theorem CudaRun.SameData.trans {s t u : CudaRun} (h : s.SameData t) (h' : t.SameData u) : s.SameData u :=
  ⟨h'.1.trans h.1, h'.2.trans h.2, h'.3.trans h.3, h'.4.trans h.4, h'.5.trans h.5, h'.6.trans h.6⟩

section Exit

variable {c : CudaConfig} {ok : CudaStep → CudaRun → Bool} {s : CudaRun}

/-- Once the flag is set, the threads and blocks that stand at their test leave one after the
other. -/
theorem exists_returned
    (h : Transition.Reachable IsStart (Transition.stepOf (Transition.guarded ok c.act)) s)
    (hok : ∀ a t, s.SameData t → ok a t = true) (hs : s.shouldStop = true)
    (hm : ∀ m < VALIDATION_THREADS_PER_BLOCK, s.monitors m = .test)
    (hv : ∀ b < c.validatorBlocks, s.validators b = .test) :
    ∃ t, Transition.Reachable IsStart (Transition.stepOf (Transition.guarded ok c.act)) t ∧
      s.SameData t ∧ c.Returned t := by
  have hself : s.SameData s := ⟨rfl, rfl, rfl, rfl, rfl, rfl⟩
  obtain ⟨t, hr, ⟨hd, hvt⟩, het⟩ := h.exists_each (f := CudaRun.monitors)
    (P := fun t => s.SameData t ∧ t.validators = s.validators) (a := .test) (e := .exited)
    (N := VALIDATION_THREADS_PER_BLOCK)
    (fun t n hn ht hpc => by
      have hst : t.shouldStop = true := ht.1.shouldStop.trans hs
      have ha : Transition.guarded ok c.act (.monitorTest n) t = some (t.setMonitor n .exited) := by
        refine Transition.guarded_eq_some.mpr ⟨hok _ t ht.1, ?_⟩
        simp [act, hpc, hst, hn]
      exact ⟨_, ⟨_, ha⟩, ⟨ht.1.trans ⟨rfl, rfl, rfl, rfl, rfl, rfl⟩, ht.2⟩, rfl⟩)
    ⟨hself, rfl⟩ hm
  obtain ⟨u, hr', ⟨hd', hmu⟩, heu⟩ := hr.exists_each (f := CudaRun.validators)
    (P := fun u => s.SameData u ∧ u.monitors = t.monitors) (a := .test) (e := .exited)
    (N := c.validatorBlocks)
    (fun u n hn hu hpc => by
      have hst : u.shouldStop = true := hu.1.shouldStop.trans hs
      have ha : Transition.guarded ok c.act (.validatorTest n) u =
          some (u.setValidator n .exited) := by
        refine Transition.guarded_eq_some.mpr ⟨hok _ u hu.1, ?_⟩
        simp [act, hpc, hst, hn]
      exact ⟨_, ⟨_, ha⟩, ⟨hu.1.trans ⟨rfl, rfl, rfl, rfl, rfl, rfl⟩, hu.2⟩, rfl⟩)
    ⟨hd, rfl⟩ (by rw [hvt]; exact hv)
  refine ⟨u, hr', hd', hd'.shouldStop.trans hs, fun m hlt => ?_, heu⟩
  rw [hmu]
  exact het m hlt

end Exit

def oneCudaQp : CudaConfig where
  numQps := 1
  chunksPerQp := 24
  chunksPerQp_range := by decide
  markers_lt := by decide

/-- The monitor sees epoch one of the first marker and pushes its item. -/
def seeFirstMarker : List CudaStep :=
  [.write 0 1, .monitorTest 0, .monitorScan 0, .monitorPush 0, .monitorUpdate 0, .monitorScan 0]

/-- All threads and blocks stand at their tests, with the flag set. -/
def AllAtTest (c : CudaConfig) (s : CudaRun) : Prop :=
  s.shouldStop = true ∧ s.validationFailed = false ∧
    (∀ m < VALIDATION_THREADS_PER_BLOCK, s.monitors m = .test) ∧
    ∀ b < c.validatorBlocks, s.validators b = .test

instance (c : CudaConfig) (s : CudaRun) : Decidable (AllAtTest c s) :=
  inferInstanceAs (Decidable (_ ∧ _ ∧ _ ∧ _))

end Perftest
