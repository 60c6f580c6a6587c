import Perftest.HostLifecycle

namespace Perftest

open CMachine

def VALIDATOR_SPIN_CHECK_INTERVAL : Nat := 1024
def VALIDATION_REPOLL_THRESHOLD_BYTES : Nat := 64 * 1024

/-- The validators of a started host validation, and the values that its markers start with. -/
structure ScanConfig where
  mode : ValidationMode
  payloadSize : Nat
  opsPerChunk : Nat
  numQps : Nat
  chunksPerQp : Nat
  tailMarkers : Nat
  recvSlots : Nat
  availableCores : Nat
  start : Nat → Nat
  markers_lt : numQps * chunksPerQp < 2 ^ 32
  start_le : ∀ a, start a ≤ 1
  write_zero : mode = .write → ∀ a, start a = 0

/-- Where `validator_thread_fn` stands: in front of marker `m` of a scan, in a visit of it with a
value it has loaded, in front of the second load, or in the final drain. -/
inductive ScanPc where
  | scan (m : Nat) | visit (m value : Nat) | reload (m : Nat)
  | drain (m : Nat) | drainVisit (m value : Nat) | done
deriving DecidableEq, Repr

structure ScanThread where
  entries : List MarkerScanEntry
  stats : ThreadStats
  foundWork : Bool
  spinCount : Nat
  pc : ScanPc
deriving DecidableEq, Repr

/-- The markers by address, with the values that each has held and the fetch-and-adds executed on
all of them, and the validator threads with what they share. -/
structure ScanState where
  markers : Nat → Nat
  held : Nat → List Nat
  adds : Nat
  stopFlag : Bool
  error : HostValidationError
  errorsFound : Nat
  threads : Nat → ScanThread

/-- The counters of thread `x` for `validate_one_marker`. -/
def ScanThread.counters (x : ScanThread) (s : ScanState) : ValidatorState :=
  { stats := x.stats.toHostValidatorStats, error := s.error, errorsFound := s.errorsFound }

def ScanThread.next (x : ScanThread) (m : Nat) : ScanThread :=
  { x with
    stats.markersScanned := x.stats.markersScanned + 1
    pc := .scan (m + 1) }

namespace ScanConfig

variable (c : ScanConfig)

def chunkBytes : Nat := c.opsPerChunk * c.payloadSize

/-- The markers are polled again after a visit. -/
def repoll : Bool :=
  c.mode = .write && c.chunkBytes ≤ VALIDATION_REPOLL_THRESHOLD_BYTES

def numValidators : Nat := getNumValidators c.numQps c.chunksPerQp c.mode c.availableCores

def distributed : List (List MarkerScanEntry) :=
  distributeMarkers c.numValidators c.tailMarkers c.recvSlots c.numQps c.chunksPerQp
    c.opsPerChunk c.payloadSize

/-- The end of a pass over the markers. -/
def endScan (stopFlag : Bool) (x : ScanThread) : ScanThread :=
  if x.foundWork then { x with foundWork := false, spinCount := 0, pc := .scan 0 }
  else if VALIDATOR_SPIN_CHECK_INTERVAL ≤ x.spinCount + 1 then
    { x with spinCount := 0, pc := if stopFlag then .drain 0 else .scan 0 }
  else { x with spinCount := x.spinCount + 1, pc := .scan 0 }

/-- The visit of marker `m` with the value `v`: the hit is counted and the chunk validated. -/
def visitMarker (rd : ChunkReader) (s : ScanState) (x : ScanThread) (m v : Nat)
    (e : MarkerScanEntry) : Bool × ScanThread × HostValidationError × Nat :=
  let (ok, st, e', _) := validateOneMarker c.payloadSize c.opsPerChunk c.chunkBytes rd
    (x.counters s) e v 0
  (ok, { x with
      entries := x.entries.set m e'
      stats := { st.stats with
        markersScanned := x.stats.markersScanned, markersHit := x.stats.markersHit + 1 }
      foundWork := true },
    st.error, st.errorsFound)

/-- One step of `validator_thread_fn`; the reads of the chunk during a visit are those of `rd`. -/
def validatorThreadFn (rd : ChunkReader) (s : ScanState) (x : ScanThread) :
    Option (ScanThread × HostValidationError × Nat) :=
  let keep (y : ScanThread) := some (y, s.error, s.errorsFound)
  match x.pc with
  | .scan m => match x.entries[m]? with
    | none => keep (endScan s.stopFlag x)
    | some e =>
      if s.markers e.markerPtr ≠ e.lastSeen ∧ s.markers e.markerPtr ≠ 0 then
        keep { x with pc := .visit m (s.markers e.markerPtr) }
      else keep (x.next m)
  | .visit m v => match x.entries[m]? with
    | none => none
    | some e =>
      let (ok, y, err) := c.visitMarker rd s x m v e
      some (if ok then { y with pc := .reload m } else y.next m, err)
  | .reload m => match x.entries[m]? with
    | none => none
    | some e =>
      if c.repoll ∧ s.markers e.markerPtr ≠ e.lastSeen ∧ s.markers e.markerPtr ≠ 0 then
        keep { x with pc := .visit m (s.markers e.markerPtr) }
      else keep (x.next m)
  | .drain m => match x.entries[m]? with
    | none => keep { x with pc := .done }
    | some e =>
      if s.markers e.markerPtr = e.lastSeen ∨ s.markers e.markerPtr = 0 then
        keep { x with pc := .drain (m + 1) }
      else keep { x with pc := .drainVisit m (s.markers e.markerPtr) }
  | .drainVisit m v => match x.entries[m]? with
    | none => none
    | some e =>
      let (_, y, err) := c.visitMarker rd s x m v e
      some ({ y with pc := .drain (m + 1) }, err)
  | .done => none

end ScanConfig

/-- A step of a validator thread, `amount` fetch-and-adds on a marker, or the store of the stop flag
by `host_validation_stop`. -/
inductive ScanAction where
  | thread (i : Nat) (rd : ChunkReader)
  | advance (idx amount : Nat)
  | stop

namespace ScanConfig

variable (c : ScanConfig)

def act : ScanAction → ScanState → Option ScanState
  | .thread i rd, s =>
    if i < c.numValidators then
      (c.validatorThreadFn rd s (s.threads i)).map fun r =>
        { s with
          threads := Function.update s.threads i r.1, error := r.2.1, errorsFound := r.2.2 }
    else none
  | .advance idx amount, s =>
    let a := c.tailMarkers + idx * 8
    if idx < c.numQps * c.chunksPerQp ∧ s.markers a + amount < 2 ^ 64 then
      some { s with
        markers := Function.update s.markers a (s.markers a + amount)
        held := Function.update s.held a ((s.markers a + amount) :: s.held a)
        adds := s.adds + amount }
    else none
  | .stop, s => some { s with stopFlag := true }

def init : ScanState where
  markers := c.start
  held := fun a => [c.start a]
  adds := 0
  stopFlag := false
  error := NO_ERROR
  errorsFound := 0
  threads := fun i => ⟨c.distributed.getD i [], 0, false, 0, .scan 0⟩

def Reachable : ScanState → Prop :=
  Transition.Reachable (· = c.init) (Transition.stepOf c.act)

/-- The sender is quiescent before the stop flag is set. -/
def quiescent (a : ScanAction) (s : ScanState) : Bool := match a with
  | .advance _ _ => !s.stopFlag
  | _ => true

def QuiescentReachable : ScanState → Prop :=
  Transition.Reachable (· = c.init)
    (Transition.stepOf (Transition.guarded quiescent c.act))

/-- The counters that `host_validation_stop` reports. -/
def report (s : ScanState) : ThreadStats :=
  ((List.range c.numValidators).map fun i => (s.threads i).stats).sum

end ScanConfig

def ScanThread.seenSum (x : ScanThread) : Nat := (x.entries.map (·.lastSeen)).sum

/-- The counters of a validator thread. -/
structure ScanThread.Accounted (c : ScanConfig) (x : ScanThread) : Prop where
  seen : x.stats.markersHit + x.stats.skippedSteps = x.seenSum
  bytes : x.stats.bytesValidated = x.stats.markersHit * c.chunkBytes
  work : x.stats.workItemsProcessed = x.stats.markersHit * c.opsPerChunk

/-- Every last seen value is one that the marker has held. -/
def ScanState.SeenHeld (c : ScanConfig) (s : ScanState) : Prop :=
  ∀ i, i < c.numValidators → ∀ e ∈ (s.threads i).entries, e.lastSeen ∈ s.held e.markerPtr

/-- Every last seen value is zero, which it starts with, or one that the marker has held. -/
def ScanState.SeenSince (c : ScanConfig) (s : ScanState) : Prop :=
  ∀ i, i < c.numValidators → ∀ e ∈ (s.threads i).entries,
    e.lastSeen = 0 ∨ e.lastSeen ∈ s.held e.markerPtr

end Perftest
