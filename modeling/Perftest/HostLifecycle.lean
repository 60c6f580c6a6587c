import Mathlib.Algebra.BigOperators.Group.List.Basic
import Perftest.HostValidator
import Perftest.Lib.Transition

namespace Perftest

open CMachine

/-- The per-thread counters that `host_validation_stop` adds up. -/
@[ext]
structure ThreadStats extends HostValidatorStats where
  markersScanned : Nat
  markersHit : Nat
deriving DecidableEq, Repr

namespace ThreadStats

instance : Zero ThreadStats := ⟨⟨⟨0, 0, 0, 0, 0⟩, 0, 0⟩⟩

instance : Add ThreadStats :=
  ⟨fun a b =>
    { workItemsProcessed := a.workItemsProcessed + b.workItemsProcessed
      bytesValidated := a.bytesValidated + b.bytesValidated
      skippedSteps := a.skippedSteps + b.skippedSteps
      raceOverwrites := a.raceOverwrites + b.raceOverwrites
      dmaStaleRetries := a.dmaStaleRetries + b.dmaStaleRetries
      markersScanned := a.markersScanned + b.markersScanned
      markersHit := a.markersHit + b.markersHit }⟩

instance : AddCommMonoid ThreadStats where
  add_assoc a b c := by
    ext <;> exact Nat.add_assoc _ _ _
  zero_add a := by
    ext <;> exact Nat.zero_add _
  add_zero a := rfl
  add_comm a b := by
    ext <;> exact Nat.add_comm _ _
  nsmul := nsmulRec

end ThreadStats

structure ValidationConfig where
  bufferBase : Nat
  markersOffset : Nat
  recvSlotsOffset : Nat
  payloadSize : Nat
  opsPerChunk : Nat
  numQps : Nat
  chunksPerQp : Nat
  validationMode : ValidationMode
deriving DecidableEq, Repr

/-- A `struct host_validator_ctx`; the handle of a thread that does not exist is zero. -/
structure HostValidatorCtx where
  thread : Nat
  stats : ThreadStats
  ownMarkers : Option (List MarkerScanEntry)
deriving DecidableEq, Repr

/-- The part of `g_host_ctx` that only the caller writes; the empty list stands for the null pointer
`validators`. -/
structure HostValidationCtx where
  config : ValidationConfig
  validators : List HostValidatorCtx
  stopFlag : Bool
  initialized : Bool
deriving DecidableEq, Repr

structure DataValidationResult where
  passed : Bool
  stats : ThreadStats
  errorsFound : Nat
  error : Option HostValidationError
deriving DecidableEq, Repr

/-- What a validator thread does to the counters until its next synchronisation. -/
structure ThreadWork where
  stats : ThreadStats
  errors : Nat
  error : Option HostValidationError

/-- The part of `g_host_ctx` that the threads write, `running` being `validators_running` between two
calls, and the history of the threads: those created so far are `1, …, created`, `joined` holds the
handles given to `pthread_join`, and `work` and `errors` are what the threads did since the last
initialisation. -/
structure HostThreads where
  running : Nat
  errorsFound : Nat
  error : HostValidationError
  created : Nat
  joined : List Nat
  work : ThreadStats
  errors : Nat
deriving DecidableEq, Repr

/-- What became of the last start: none since the validators were set up or joined, one that
succeeded, or one that gave up with handles left in the entries. -/
inductive StartPhase where
  | idle | started | failed
deriving DecidableEq, Repr

structure HostLifecycle where
  ctx : HostValidationCtx
  threads : HostThreads
  phase : StartPhase
  reports : List (DataValidationResult × ThreadStats × Nat)
deriving DecidableEq, Repr

/-- A thread that was created and not joined. -/
def HostThreads.Live (h : HostThreads) (t : Nat) : Prop := 1 ≤ t ∧ t ≤ h.created ∧ t ∉ h.joined

instance (h : HostThreads) (t : Nat) : Decidable (h.Live t) :=
  inferInstanceAs (Decidable (1 ≤ t ∧ t ≤ h.created ∧ t ∉ h.joined))

/-- The counters after a thread of validator `v` did `w`. -/
def HostValidatorCtx.addWork (v : HostValidatorCtx) (w : ThreadWork) : HostValidatorCtx :=
  { v with stats := v.stats + w.stats }

def HostThreads.addWork (h : HostThreads) (w : ThreadWork) : HostThreads :=
  { h with
    errorsFound := h.errorsFound + w.errors
    error := w.error.getD h.error
    work := h.work + w.stats
    errors := h.errors + w.errors }

/-- `pthread_join` of the handle of `v`, whose thread does `w` before it ends. -/
def pthreadJoin (w : ThreadWork) (v : HostValidatorCtx) (h : HostThreads) :
    HostValidatorCtx × HostThreads :=
  if h.Live v.thread then
    (v.addWork w,
      { h.addWork w with joined := v.thread :: h.joined, running := h.running - 1 })
  else (v, { h with joined := v.thread :: h.joined })

/-- The loop of `host_validation_stop` and of `free_validators`. -/
def joinThreads (w : Nat → ThreadWork) :
    Nat → List HostValidatorCtx → HostThreads → List HostValidatorCtx × HostThreads
  | _, [], h => ([], h)
  | i, v :: vs, h =>
    if v.thread ≠ 0 then
      let (v', h') := pthreadJoin (w i) v h
      let (vs', h'') := joinThreads w (i + 1) vs h'
      ({ v' with thread := 0 } :: vs', h'')
    else
      let (vs', h') := joinThreads w (i + 1) vs h
      (v :: vs', h')

/-- The loop of the error path of `host_validation_start` over the first `n` validators. -/
def joinCreated (w : Nat → ThreadWork) :
    Nat → Nat → List HostValidatorCtx → HostThreads → List HostValidatorCtx × HostThreads
  | 0, _, vs, h => (vs, h)
  | _, _, [], h => ([], h)
  | n + 1, i, v :: vs, h =>
    let (v', h') := pthreadJoin (w i) v h
    let (vs', h'') := joinCreated w n (i + 1) vs h'
    (v' :: vs', h'')

/-- The loop of `host_validation_start`. Where `pthread_create` fails for validator `i`, `failure i`
is what it leaves in the handle. A created thread counts as running, which `host_validation_start`
waits for. -/
def createThreads (failure : Nat → Option Nat) :
    Nat → List HostValidatorCtx → HostThreads →
      List HostValidatorCtx × HostThreads × Option Nat
  | _, [], h => ([], h, none)
  | i, v :: vs, h => match failure i with
    | some g => ({ v with thread := g } :: vs, h, some i)
    | none =>
      let (vs', h', r) := createThreads failure (i + 1) vs
        { h with created := h.created + 1, running := h.running + 1 }
      ({ v with thread := h.created + 1 } :: vs', h', r)

/-- Which allocations of `host_validation_init` succeed. -/
structure InitAllocs where
  validators : Bool
  logicalOrder : Bool
  markerCounts : Bool
  ownMarkers : Nat → Bool

def NO_ERROR : HostValidationError := ⟨false, 0, 0, 0, 0, 0⟩

/-- `distribute_markers` on the zeroed validators; `none` when an allocation fails. -/
def distributeToValidators (cfg : ValidationConfig) (n : Nat) (allocs : InitAllocs) :
    Option (List HostValidatorCtx) :=
  if allocs.logicalOrder && allocs.markerCounts && (List.range n).all allocs.ownMarkers then
    some ((distributeMarkers n (cfg.bufferBase + cfg.markersOffset)
      (cfg.bufferBase + cfg.recvSlotsOffset) cfg.numQps cfg.chunksPerQp cfg.opsPerChunk
      cfg.payloadSize).map (⟨0, 0, some ·⟩))
  else none

def hostValidationInit (cfg : ValidationConfig) (availableCores : Nat) (allocs : InitAllocs)
    (s : HostLifecycle) : HostLifecycle × Bool :=
  if s.ctx.initialized then (s, false)
  else if cfg.bufferBase = 0 then (s, false)
  else if cfg.chunksPerQp < 1 ∨ VALIDATION_MAX_CHUNKS_PER_QP < cfg.chunksPerQp then (s, false)
  else
    let zeroed : HostLifecycle :=
      { s with
        ctx := { config := cfg, validators := [], stopFlag := false, initialized := false }
        threads := { s.threads with
          running := 0, errorsFound := 0, error := NO_ERROR, work := 0, errors := 0 }
        phase := .idle }
    if ¬ allocs.validators then (zeroed, false)
    else match distributeToValidators cfg
        (getNumValidators cfg.numQps cfg.chunksPerQp cfg.validationMode availableCores) allocs with
      | none => (zeroed, false)
      | some vs => ({ zeroed with
          ctx := { zeroed.ctx with validators := vs, initialized := true } }, true)

def hostValidationStart (failure : Nat → Option Nat) (w : Nat → ThreadWork) (s : HostLifecycle) :
    HostLifecycle :=
  if ¬ s.ctx.initialized ∨ 0 < s.threads.running then s
  else match createThreads failure 0 s.ctx.validators s.threads with
    | (vs, h, none) =>
      { s with
        ctx := { s.ctx with validators := vs, stopFlag := false }
        threads := h
        phase := .started }
    | (vs, h, some i) =>
      let (vs', h') := joinCreated w i 0 vs h
      { s with
        ctx := { s.ctx with validators := vs', stopFlag := true }
        threads := h'
        phase := if i = 0 ∧ failure 0 = some 0 then s.phase else .failed }

/-- The result that `host_validation_stop` fills in. -/
def hostValidationReport (vs : List HostValidatorCtx) (h : HostThreads) : DataValidationResult :=
  { passed := h.errorsFound = 0
    stats := (vs.map (·.stats)).sum
    errorsFound := h.errorsFound
    error := if h.errorsFound = 0 then none else some h.error }

def hostValidationStop (result : Bool) (w : Nat → ThreadWork) (s : HostLifecycle) :
    HostLifecycle :=
  if ¬ s.ctx.initialized ∨ ¬ result then s
  else
    let (vs, h) := joinThreads w 0 s.ctx.validators s.threads
    { ctx := { s.ctx with validators := vs, stopFlag := true }
      threads := h
      phase := .idle
      reports := (hostValidationReport vs h, h.work, h.errors) :: s.reports }

def hostValidationDestroy (w : Nat → ThreadWork) (s : HostLifecycle) : HostLifecycle :=
  if ¬ s.ctx.initialized then s
  else
    let (_, h) := joinThreads w 0 s.ctx.validators s.threads
    { s with
      ctx := { s.ctx with validators := [], stopFlag := true, initialized := false }
      threads := h
      phase := .idle }

/-- The calls of the user of the validator, with the answers of the system, and the work of the
thread of validator `i` between two calls. -/
inductive LifecycleCall where
  | init (cfg : ValidationConfig) (availableCores : Nat) (allocs : InitAllocs)
  | start (failure : Nat → Option Nat) (w : Nat → ThreadWork)
  | stop (result : Bool) (w : Nat → ThreadWork)
  | destroy (w : Nat → ThreadWork)
  | work (i : Nat) (w : ThreadWork)

def HostLifecycle.act : LifecycleCall → HostLifecycle → Option HostLifecycle
  | .init cfg cores allocs, s => some (hostValidationInit cfg cores allocs s).1
  | .start failure w, s => some (hostValidationStart failure w s)
  | .stop result w, s => some (hostValidationStop result w s)
  | .destroy w, s => some (hostValidationDestroy w s)
  | .work i w, s =>
    if s.ctx.validators[i]?.any (fun v => decide (s.threads.Live v.thread)) then
      some { s with
        ctx := { s.ctx with validators := s.ctx.validators.modify i (·.addWork w) }
        threads := s.threads.addWork w }
    else none

/-- The program before its first call: `g_host_ctx` is static, so zero. -/
def HostLifecycle.zero : HostLifecycle :=
  { ctx := ⟨⟨0, 0, 0, 0, 0, 0, 0, .write⟩, [], false, false⟩
    threads := ⟨0, 0, NO_ERROR, 0, [], 0, 0⟩
    phase := .idle
    reports := [] }

def HostLifecycle.Reachable : HostLifecycle → Prop :=
  Transition.Reachable (· = .zero) (Transition.stepOf HostLifecycle.act)

/-- `host_validation_stop` and `host_validation_destroy` are not called after a start that gave up
in the middle of the validators, until a start succeeds. -/
def LifecycleCall.joinable : LifecycleCall → HostLifecycle → Bool
  | .stop result _, s => !result || s.phase ≠ .failed
  | .destroy _, s => s.phase ≠ .failed
  | _, _ => true

def HostLifecycle.JoinableReachable : HostLifecycle → Prop :=
  Transition.Reachable (· = .zero)
    (Transition.stepOf (Transition.guarded LifecycleCall.joinable HostLifecycle.act))

/-- The arguments that `host_validation_init` accepts, and allocations that all succeed. -/
def InitAccepted (cfg : ValidationConfig) (allocs : InitAllocs) : Prop :=
  cfg.bufferBase ≠ 0 ∧ 1 ≤ cfg.chunksPerQp ∧ cfg.chunksPerQp ≤ VALIDATION_MAX_CHUNKS_PER_QP ∧
    allocs.validators ∧ allocs.logicalOrder ∧ allocs.markerCounts ∧ ∀ i, allocs.ownMarkers i

/-- Every join is the first of a created thread; none is left to join unless the last start
succeeded; a report adds up what the threads did; and where the validator is not initialised, an
initialisation succeeds and leaves what it would leave in a new process. -/
structure LifecycleOk (s : HostLifecycle) : Prop where
  joined_once : s.threads.joined.Nodup
  joined_created : ∀ t ∈ s.threads.joined, 1 ≤ t ∧ t ≤ s.threads.created
  all_joined : s.phase ≠ .started → ∀ t, 1 ≤ t → t ≤ s.threads.created → t ∈ s.threads.joined
  stopped : s.ctx.initialized = false → s.phase ≠ .started
  reports : ∀ r ∈ s.reports, r.1.stats = r.2.1 ∧ r.1.errorsFound = r.2.2
  clean : s.ctx.initialized = false → ∀ cfg cores allocs, InitAccepted cfg allocs →
    (hostValidationInit cfg cores allocs s).2 = true ∧
      (hostValidationInit cfg cores allocs s).1.ctx =
        (hostValidationInit cfg cores allocs .zero).1.ctx ∧
      (hostValidationInit cfg cores allocs s).1.threads.running = 0 ∧
      (hostValidationInit cfg cores allocs s).1.threads.errorsFound = 0

end Perftest
