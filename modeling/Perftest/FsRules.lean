import Perftest.FsRate
import Perftest.Parameters

namespace Perftest

open CMachine

/-- The ports on the command line: none, those of `-K` and `-k`, or those of `--local_port` and
`--remote_port`, which go to `server_port` and `client_port` by the machine. -/
inductive PortOptions where
  | none
  | old (serverPort clientPort : Int)
  | new (localPort remotePort : Int)
deriving DecidableEq, Repr

/-- The ports are values of `int`. -/
def PortOptions.Valid : PortOptions → Prop
  | .none => True
  | .old a b | .new a b => (-2 ^ 31 ≤ a ∧ a < 2 ^ 31) ∧ -2 ^ 31 ≤ b ∧ b < 2 ^ 31

/-- What `set_up_fs_rules` and `run_iter_fs` read of an accepted command line. -/
structure FsRuleParameters where
  ports : PortOptions
  machine : MachineType
  numOfQps : Nat
  iters : Nat
  testType : TestMethod
  qps_pos : 0 < numOfQps
  qps_le : (numOfQps : Int) ≤ MAX_QP_NUM
  iters_ge : MIN_ITER ≤ iters
  iters_le : iters ≤ MAX_ITER
  ports_valid : ports.Valid

/-- The variables that `set_up_fs_rules` carries from a rule to the next. -/
structure FsPorts where
  localPort : Int
  remotePort : Int
  lastLocalIndex : Int
deriving DecidableEq, Repr

def FsPorts.init : FsPorts := ⟨0, 0, 0⟩

/-- The ports that a rule is built with. -/
def FsPorts.pair (s : FsPorts) : Int × Int := (s.localPort, s.remotePort)

namespace FsRuleParameters

variable (p : FsRuleParameters)

def localPort : Int := match p.ports with
  | .new l _ => l
  | _ => 0

def remotePort : Int := match p.ports with
  | .new _ r => r
  | _ => 0

def serverPort : Int := match p.ports, p.machine with
  | .none, _ => 0
  | .old s _, _ => s
  | .new l _, .server => l
  | .new _ r, .client => r
  | .new _ _, .unchosen => 0

def clientPort : Int := match p.ports, p.machine with
  | .none, _ => 0
  | .old _ c, _ => c
  | .new _ r, .server => r
  | .new l _, .client => l
  | .new _ _, .unchosen => 0

/-- The ports that the user gave for this side; the rules are built on the server. -/
def userPorts : Int × Int := match p.ports with
  | .none => (0, 0)
  | .old s c => (s, c)
  | .new l r => (l, r)

/-- `allocated_flows`, where the difference of two `int` is converted to `uint64_t`. -/
def allocatedFlows : Option Nat := match p.testType with
  | .iterations => some p.iters
  | .duration => do
    let sum ← checkInt (p.serverPort + p.clientPort)
    let flows ← checkInt (2 * MAX_FS_PORT - sum)
    some (longToUns 64 flows)

/-- `malloc` fails for more than half of the addresses; the test ends then. -/
def allocates (flows : Nat) : Bool := 8 * (flows * p.numOfQps) % 2 ^ 64 < 2 ^ 63

def allowedServerPorts : Option Int := checkInt (MAX_FS_PORT - p.serverPort)

/-- The ports for the rule behind the one of `flow`. -/
def nextPorts (allowed flow : Int) (s : FsPorts) : Option FsPorts :=
  if flow ≤ allowed then do
    let port ← checkInt (p.localPort + flow)
    some ⟨port, p.remotePort, flow⟩
  else do
    let sum ← checkInt (p.remotePort + flow)
    let port ← checkInt (sum - s.lastLocalIndex)
    some ⟨p.localPort, port, s.lastLocalIndex⟩

/-- The inner loop: the ports of `n` rules from `flow` on, and the variables behind them. -/
def flowLoop (allowed : Int) : Nat → Int → FsPorts → Option (List (Int × Int) × FsPorts)
  | 0, _, s => some ([], s)
  | n + 1, flow, s => do
    let t ← p.nextPorts allowed flow s
    let next ← incInt flow
    let (rules, e) ← flowLoop allowed n next t
    some (s.pair :: rules, e)

/-- The outer loop over the QPs that are left. -/
def qpLoop (allowed : Int) (flows : Nat) : Nat → FsPorts → Option (List (List (Int × Int)))
  | 0, _ => some []
  | n + 1, s => do
    let (rules, t) ← p.flowLoop allowed flows 0 s
    let rest ← qpLoop allowed flows n t
    some (rules :: rest)

/-- The ports of the rules of each QP. -/
def setUpFsRules : Option (List (List (Int × Int))) := do
  let flows ← p.allocatedFlows
  if p.allocates flows then
    let allowed ← p.allowedServerPorts
    p.qpLoop allowed flows p.numOfQps FsPorts.init
  else some []

/-- The ports of the rules of a QP are distinct ports that begin with the user's. -/
structure RulesOk (rules : List (Int × Int)) : Prop where
  nodup : rules.Nodup
  start : ∀ r ∈ rules.head?, r = p.userPorts
  valid : ∀ r ∈ rules, (0 ≤ r.1 ∧ r.1 < MAX_FS_PORT) ∧ 0 ≤ r.2 ∧ r.2 < MAX_FS_PORT

/-- The rules of every QP are built and as they should be. -/
def FsRulesOk : Prop := ∃ qps, p.setUpFsRules = some qps ∧ ∀ rules ∈ qps, p.RulesOk rules

section Rules

variable {p : FsRuleParameters} {allowed flow : Int} {s t e : FsPorts} {n : Nat}
  {rules : List (Int × Int)}

theorem flowLoop_succ (h : p.flowLoop allowed (n + 1) flow s = some (rules, e)) :
    ∃ t l, p.nextPorts allowed flow s = some t ∧
      p.flowLoop allowed n (flow + 1) t = some (l, e) ∧ rules = s.pair :: l := by
  rw [flowLoop] at h
  obtain ⟨t, ht, h⟩ := Option.bind_eq_some_iff.mp h
  obtain ⟨next, hn, h⟩ := Option.bind_eq_some_iff.mp h
  obtain ⟨⟨l, e'⟩, hl, h⟩ := Option.bind_eq_some_iff.mp h
  obtain ⟨rfl, rfl⟩ := Prod.mk.inj (Option.some.inj h)
  have hnext : next = flow + 1 := by
    rw [incInt] at hn
    split at hn
    · exact (Option.some.inj hn).symm
    · cases hn
  exact ⟨t, l, ht, hnext ▸ hl, rfl⟩

theorem qpLoop_succ {flows : Nat} {qps : List (List (Int × Int))}
    (h : p.qpLoop allowed flows (n + 1) s = some qps) :
    ∃ t l rest, p.flowLoop allowed flows 0 s = some (l, t) ∧
      p.qpLoop allowed flows n t = some rest ∧ qps = l :: rest := by
  rw [qpLoop] at h
  obtain ⟨⟨l, t⟩, hl, h⟩ := Option.bind_eq_some_iff.mp h
  obtain ⟨rest, hr, h⟩ := Option.bind_eq_some_iff.mp h
  exact ⟨t, l, rest, hl, hr, (Option.some.inj h).symm⟩

theorem checkInt_eq {z w : Int} (h : checkInt z = some w) :
    w = z ∧ -2 ^ 31 ≤ z ∧ z < 2 ^ 31 := by
  rw [checkInt] at h
  split at h
  next hz => exact ⟨(Option.some.inj h).symm, hz⟩
  next => cases h

variable (p allowed) in
/-- The ports behind the rule of a flow: the local port moves up to the last index that is allowed,
then the remote one. -/
def portsBehind (flow : Int) : Int × Int :=
  if flow ≤ allowed then (p.localPort + flow, p.remotePort)
  else (p.localPort, p.remotePort + flow - max allowed 0)

variable (allowed flow s) in
/-- Behind the last local port its index is kept. -/
def LastKept : Prop := allowed < flow → s.lastLocalIndex = max allowed 0

theorem nextPorts_spec (hk : LastKept allowed flow s) (hf : 0 ≤ flow)
    (h : p.nextPorts allowed flow s = some t) :
    t.pair = p.portsBehind allowed flow ∧ LastKept allowed (flow + 1) t := by
  rw [nextPorts] at h
  unfold portsBehind
  split at h
  next hle =>
    obtain ⟨port, hp, h⟩ := Option.bind_eq_some_iff.mp h
    obtain rfl := Option.some.inj h
    refine ⟨?_, fun hlt => ?_⟩
    · rw [if_pos hle, FsPorts.pair, (checkInt_eq hp).1]
    · show flow = max allowed 0
      omega
  next hgt =>
    obtain ⟨sum, hs, h⟩ := Option.bind_eq_some_iff.mp h
    obtain ⟨port, hp, h⟩ := Option.bind_eq_some_iff.mp h
    obtain rfl := Option.some.inj h
    have hlast := hk (by omega)
    refine ⟨?_, fun _ => hlast⟩
    rw [if_neg hgt, FsPorts.pair, (checkInt_eq hp).1, (checkInt_eq hs).1, hlast]

/-- The rules of a QP: the first has the ports that were left behind, the others those behind the
flow in front of them. -/
theorem flowLoop_spec (hk : LastKept allowed flow s) (hf : 0 ≤ flow)
    (h : p.flowLoop allowed n flow s = some (rules, e)) :
    rules = (s.pair :: (List.range n).map fun k : Nat =>
      p.portsBehind allowed (flow + k)).take n ∧ LastKept allowed (flow + n) e := by
  induction n generalizing flow s rules with
  | zero =>
    obtain ⟨rfl, rfl⟩ := Prod.mk.inj (Option.some.inj h)
    exact ⟨rfl, by simpa using hk⟩
  | succ n ih =>
    obtain ⟨t, l, ht, hl, rfl⟩ := flowLoop_succ h
    obtain ⟨hpair, hkt⟩ := nextPorts_spec hk hf ht
    obtain ⟨rfl, hke⟩ := ih hkt (by omega) hl
    refine ⟨?_, ?_⟩
    · rw [List.take_succ_cons, List.range_succ_eq_map, List.map_cons, List.map_map, hpair]
      congr 3
      · simp
      · apply List.map_congr_left
        intro k _
        rw [Function.comp_apply, show flow + 1 + (k : Int) = flow + (k.succ : Nat) by push_cast; omega]
    · rw [show flow + ((n + 1 : Nat) : Int) = flow + 1 + n by push_cast; omega]
      exact hke

theorem portsBehind_inj {i j : Int} (hi : 0 ≤ i) (hj : 0 ≤ j)
    (h : p.portsBehind allowed i = p.portsBehind allowed j) : i = j := by
  unfold portsBehind at h
  split at h <;> split at h <;> obtain ⟨h1, h2⟩ := Prod.mk.inj h <;> omega

/-- Two rules of a QP have the same ports only if one of them is the first. -/
theorem flowLoop_tail_nodup (hk : LastKept allowed 0 s)
    (h : p.flowLoop allowed n 0 s = some (rules, e)) : rules.tail.Nodup := by
  obtain ⟨rfl, -⟩ := flowLoop_spec hk (le_refl 0) h
  cases n with
  | zero => exact List.nodup_nil
  | succ n =>
    rw [List.take_succ_cons, List.tail_cons]
    apply List.Nodup.sublist (List.take_sublist _ _)
    apply List.Nodup.map_on ?_ List.nodup_range
    intro i _ j _ hij
    have := portsBehind_inj (by omega) (by omega) hij
    omega

theorem qpLoop_tail_nodup {flows : Nat} {qps : List (List (Int × Int))}
    (hk : LastKept allowed 0 s) (h : p.qpLoop allowed flows n s = some qps) :
    ∀ rules ∈ qps, rules.tail.Nodup := by
  induction n generalizing s qps with
  | zero =>
    obtain rfl := Option.some.inj h
    intro rules hr
    cases hr
  | succ n ih =>
    obtain ⟨t, l, rest, hl, hr, rfl⟩ := qpLoop_succ h
    intro rules hmem
    rcases List.mem_cons.mp hmem with rfl | hmem
    · exact flowLoop_tail_nodup hk hl
    · obtain ⟨-, hkt⟩ := flowLoop_spec hk (le_refl 0) hl
      exact ih (fun hlt => hkt (by omega)) hr rules hmem

end Rules

/-- In each QP all rules behind the first have different ports. -/
theorem setUpFsRules_tail_nodup (p : FsRuleParameters) {qps : List (List (Int × Int))}
    (h : p.setUpFsRules = some qps) : ∀ rules ∈ qps, rules.tail.Nodup := by
  obtain ⟨flows, -, h⟩ := Option.bind_eq_some_iff.mp h
  split at h
  next =>
    obtain ⟨allowed, -, h⟩ := Option.bind_eq_some_iff.mp h
    exact qpLoop_tail_nodup (fun hlt => (max_eq_right hlt.le).symm) h
  next =>
    obtain rfl := Option.some.inj h
    intro rules hr
    cases hr

section Condition

variable (p : FsRuleParameters)

/-- The two ports leave no flow to a test that runs for a duration. -/
def NoFlows : Prop := p.testType = .duration ∧
  2 * (MAX_FS_PORT : Int) ≤ p.serverPort + p.clientPort ∧ p.serverPort + p.clientPort < 2 ^ 31

theorem ports_int : (-2 ^ 31 ≤ p.serverPort ∧ p.serverPort < 2 ^ 31) ∧
    -2 ^ 31 ≤ p.clientPort ∧ p.clientPort < 2 ^ 31 := by
  have h := p.ports_valid
  unfold serverPort clientPort
  cases hp : p.ports with
  | none => simp
  | old a b =>
    rw [hp] at h
    exact h
  | new a b =>
    rw [hp] at h
    cases p.machine with
    | server => exact h
    | client => exact ⟨h.2, h.1⟩
    | unchosen => simp

/-- The ports that the user gave are zero only if those of the rules start at zero. -/
theorem userPorts_zero (h : p.userPorts = (0, 0)) :
    p.serverPort = 0 ∧ p.clientPort = 0 ∧ p.localPort = 0 ∧ p.remotePort = 0 := by
  unfold userPorts at h
  unfold serverPort clientPort localPort remotePort
  cases hp : p.ports with
  | none => exact ⟨rfl, rfl, rfl, rfl⟩
  | old a b =>
    rw [hp] at h
    obtain ⟨rfl, rfl⟩ := Prod.mk.inj h
    exact ⟨rfl, rfl, rfl, rfl⟩
  | new a b =>
    rw [hp] at h
    obtain ⟨rfl, rfl⟩ := Prod.mk.inj h
    cases p.machine <;> exact ⟨rfl, rfl, rfl, rfl⟩

theorem allocatedFlows_of_noFlows (h : p.NoFlows) : ∃ k : Nat, k < 2 ^ 31 ∧
    p.allocatedFlows = some (longToUns 64 (-k)) := by
  obtain ⟨ht, hl, hu⟩ := h
  simp only [MAX_FS_PORT] at hl
  refine ⟨(p.serverPort + p.clientPort - 2 * 65536).toNat, by omega, ?_⟩
  have hsum : checkInt (p.serverPort + p.clientPort) = some (p.serverPort + p.clientPort) :=
    if_pos ⟨by omega, hu⟩
  have hdiff : checkInt (2 * MAX_FS_PORT - (p.serverPort + p.clientPort)) =
      some (2 * MAX_FS_PORT - (p.serverPort + p.clientPort)) :=
    if_pos ⟨by simp only [MAX_FS_PORT]; omega, by simp only [MAX_FS_PORT]; omega⟩
  rw [allocatedFlows, ht]
  simp only [hsum, hdiff, Option.bind_eq_bind, Option.bind_some, Option.some.injEq]
  congr 1
  simp only [MAX_FS_PORT]
  omega

/-- A negative number of flows is too large for an array. -/
theorem not_allocates_neg {k : Nat} (hk : 0 < k) (hlt : k < 2 ^ 31) :
    p.allocates (longToUns 64 (-k)) = false := by
  have hq := p.qps_pos
  have hq' := p.qps_le
  simp only [MAX_QP_NUM] at hq'
  have hv : longToUns 64 (-(k : Int)) = 2 ^ 64 - k := by
    unfold longToUns
    omega
  have hprod : k * p.numOfQps ≤ 2 ^ 31 * 16384 := Nat.mul_le_mul (by omega) (by omega)
  have hpos : 0 < k * p.numOfQps := Nat.mul_pos hk hq
  have hmul : (2 ^ 64 - k) * p.numOfQps = 2 ^ 64 * p.numOfQps - k * p.numOfQps :=
    Nat.sub_mul ..
  have hle : k * p.numOfQps ≤ 2 ^ 64 * p.numOfQps := Nat.mul_le_mul_right _ (by omega)
  rw [allocates, hv, hmul, decide_eq_false_iff_not]
  omega

theorem fsRulesOk_of_noFlows (h : p.NoFlows) : p.FsRulesOk := by
  obtain ⟨k, hlt, hk⟩ := p.allocatedFlows_of_noFlows h
  unfold FsRulesOk setUpFsRules
  rw [hk, Option.bind_eq_bind, Option.bind_some]
  rcases Nat.eq_zero_or_pos k with rfl | hpos
  · obtain ⟨hs, hc⟩ := p.ports_int
    have hl := h.2.1
    simp only [MAX_FS_PORT] at hl
    have hallowed : p.allowedServerPorts = some (MAX_FS_PORT - p.serverPort) :=
      if_pos ⟨by simp only [MAX_FS_PORT]; omega, by simp only [MAX_FS_PORT]; omega⟩
    have hz : longToUns 64 (-((0 : Nat) : Int)) = 0 := rfl
    have hloop : ∀ n s, ∃ qps, p.qpLoop (MAX_FS_PORT - p.serverPort) 0 n s = some qps ∧
        ∀ rules ∈ qps, rules = [] := by
      intro n s
      induction n with
      | zero => exact ⟨[], rfl, fun _ hr => absurd hr List.not_mem_nil⟩
      | succ n ih =>
        obtain ⟨qps, hq, hr⟩ := ih
        refine ⟨[] :: qps, ?_, List.forall_mem_cons.mpr ⟨rfl, hr⟩⟩
        rw [qpLoop, flowLoop, Option.bind_eq_bind, Option.bind_some]
        simp only [hq, Option.bind_eq_bind, Option.bind_some]
    obtain ⟨qps, hq, hr⟩ := hloop p.numOfQps FsPorts.init
    have ha : p.allocates 0 = true := by simp [allocates]
    refine ⟨qps, ?_, fun rules hmem => ?_⟩
    · rw [hz, if_pos ha, hallowed, Option.bind_eq_bind, Option.bind_some, hq]
    · rw [hr rules hmem]
      exact ⟨List.nodup_nil, fun r hr => (nomatch hr), fun r hr => absurd hr List.not_mem_nil⟩
  · rw [p.not_allocates_neg hpos hlt]
    exact ⟨[], rfl, fun rules hr => absurd hr List.not_mem_nil⟩

/-- A test with flows has arrays for them. -/
theorem allocatedFlows_pos {flows : Nat} (h : p.allocatedFlows = some flows) (hn : ¬ p.NoFlows) :
    0 < flows ∧ p.allocates flows = true ∧
      (flows = 1 → p.serverPort + p.clientPort = 131071) := by
  have hq' := p.qps_le
  simp only [MAX_QP_NUM] at hq'
  have hroom : ∀ k, k ≤ 2 ^ 32 → p.allocates k = true := by
    intro k hk
    have hprod : k * p.numOfQps ≤ 2 ^ 32 * 16384 := Nat.mul_le_mul hk (by omega)
    rw [allocates, decide_eq_true_eq]
    omega
  rw [allocatedFlows] at h
  cases ht : p.testType with
  | iterations =>
    rw [ht] at h
    obtain rfl := Option.some.inj h
    have hge := p.iters_ge
    have hle := p.iters_le
    simp only [MIN_ITER, MAX_ITER] at hge hle
    exact ⟨by omega, hroom _ (by omega), fun h1 => by omega⟩
  | duration =>
    rw [ht] at h
    obtain ⟨sum, hs, h⟩ := Option.bind_eq_some_iff.mp h
    obtain ⟨diff, hd, h⟩ := Option.bind_eq_some_iff.mp h
    obtain rfl := Option.some.inj h
    obtain ⟨rfl, hsl, hsu⟩ := checkInt_eq hs
    obtain ⟨rfl, hdl, hdu⟩ := checkInt_eq hd
    have hlt : p.serverPort + p.clientPort < 2 * (MAX_FS_PORT : Int) := by
      by_contra hge
      exact hn ⟨ht, not_lt.mp hge, hsu⟩
    simp only [MAX_FS_PORT] at hlt hdl hdu ⊢
    have hv : longToUns 64 (2 * ((65536 : Nat) : Int) - (p.serverPort + p.clientPort)) =
        (131072 - (p.serverPort + p.clientPort)).toNat := by
      unfold longToUns
      omega
    rw [hv]
    exact ⟨by omega, hroom _ (by omega), fun h1 => by omega⟩

/-- The first rule of a test is built with two zeros and the second with the ports of the user, so
a test with flows breaks the order or repeats a pair. -/
theorem noFlows_of_fsRulesOk (h : p.FsRulesOk) : p.NoFlows := by
  by_contra hn
  obtain ⟨qps, hq, hok⟩ := h
  obtain ⟨flows, hf, hq⟩ := Option.bind_eq_some_iff.mp hq
  obtain ⟨hpos, ha, hone⟩ := p.allocatedFlows_pos hf hn
  rw [if_pos ha] at hq
  obtain ⟨allowed, -, hq⟩ := Option.bind_eq_some_iff.mp hq
  obtain ⟨n, hqps⟩ : ∃ n, p.numOfQps = n + 1 := ⟨p.numOfQps - 1, by have := p.qps_pos; omega⟩
  rw [hqps] at hq
  obtain ⟨t, rules, rest, hl, -, rfl⟩ := qpLoop_succ hq
  have hr := hok rules List.mem_cons_self
  obtain ⟨hrules, -⟩ := flowLoop_spec (fun hlt => (max_eq_right hlt.le).symm) (le_refl 0) hl
  obtain ⟨k, rfl⟩ : ∃ k, flows = k + 1 := ⟨flows - 1, by omega⟩
  rw [List.take_succ_cons] at hrules
  have huser : p.userPorts = (0, 0) := by
    have := hr.start (0, 0) (by rw [hrules]; rfl)
    exact this.symm
  obtain ⟨hs, hc, hlp, hrp⟩ := p.userPorts_zero huser
  have hk : k ≠ 0 := by
    intro hk
    have := hone (by omega)
    omega
  obtain ⟨j, rfl⟩ := Nat.exists_eq_succ_of_ne_zero hk
  have hsecond : p.portsBehind allowed 0 = (0, 0) := by
    unfold portsBehind
    split
    next => rw [hlp, hrp, add_zero]
    next hgt =>
      rw [hlp, hrp, max_eq_right (by omega)]
      rfl
  have hnd := hr.nodup
  rw [hrules, List.range_succ_eq_map, List.map_cons, List.take_succ_cons] at hnd
  apply (List.nodup_cons.mp hnd).1
  have h0 : p.portsBehind allowed (0 + ((0 : Nat) : Int)) = (0, 0) := hsecond
  rw [h0]
  exact List.mem_cons_self

end Condition

end FsRuleParameters

/-- The rules of the flow-steering rate test have distinct valid ports from the user's on exactly
where no rule is built, in a test for a duration whose ports leave no flow. -/
theorem fs_rules_distinct_iff (p : FsRuleParameters) : p.FsRulesOk ↔ p.NoFlows :=
  ⟨p.noFlows_of_fsRulesOk, p.fsRulesOk_of_noFlows⟩

/-- `raw_ethernet_fs_rate --local_port 1000 --remote_port 2000` with five flows. -/
def fivePorts : FsRuleParameters where
  ports := .new 1000 2000
  machine := .server
  numOfQps := 1
  iters := 5
  testType := .iterations
  qps_pos := Nat.one_pos
  qps_le := by decide
  iters_ge := by decide
  iters_le := by decide
  ports_valid := by norm_num [PortOptions.Valid]

/-- The first rule has no port of the user. -/
theorem fivePorts_zero : ¬ ∀ p : FsRuleParameters, p.FsRulesOk := by
  intro h
  have hn := fivePorts.noFlows_of_fsRulesOk (h fivePorts)
  exact TestMethod.noConfusion hn.1

end Perftest
