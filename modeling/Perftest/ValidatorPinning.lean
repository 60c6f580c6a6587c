import Mathlib.Data.List.GetD
import Perftest.HostMarkers

namespace Perftest

open CMachine

def NUMA_MAX_CPUS : Nat := 1024

/-- What the validators see of the system: the number of online CPUs, and the CPUs of the NUMA node
as `get_numa_node_cpus` lists them, none without a node. -/
structure CpuSystem where
  nproc : Int
  numaCpus : List Int
  numaCpus_le : numaCpus.length ≤ NUMA_MAX_CPUS
  nodup : numaCpus.Nodup

namespace CpuSystem

variable (c : CpuSystem)

/-- The cores that the number of validators is measured against; zero or less if unknown. -/
def availableCores : Int :=
  if 0 < c.numaCpus.length then c.numaCpus.length
  else if 0 < c.nproc then longToInt c.nproc
  else 0

/-- `get_num_validators` on the machine's integers. -/
def getNumValidators (numQps chunksPerQp : Nat) (mode : ValidationMode) : Int :=
  let totalMarkers := u32 (numQps * chunksPerQp)
  let perQp := if mode = .read then 3 else 2
  let n := longToInt (asInt numQps * perQp)
  let n := if n < HOST_VALIDATION_DEFAULT_VALIDATORS then ↑HOST_VALIDATION_DEFAULT_VALIDATORS
    else n
  let n := if 0 < c.availableCores then
      let halfCores := c.availableCores / 2
      if halfCores < n then halfCores else n
    else n
  let n := if HOST_VALIDATION_MAX_VALIDATORS < n then ↑HOST_VALIDATION_MAX_VALIDATORS else n
  let n := if totalMarkers < longToUns 32 n then ↑totalMarkers else n
  if n < 1 then 1 else n

/-- `choose_validator_cpu`: an error is its return value. -/
def chooseValidatorCpu (validatorId : Int) : Except Int Int :=
  let numCpus : Int := c.numaCpus.length
  if 0 < numCpus then
    let evenSlots := (numCpus + 1) / 2
    if numCpus ≤ 1 then .error (-2)
    else
      let targetIdx := if validatorId < evenSlots then validatorId * 2
        else (validatorId - evenSlots) * 2 + 1
      .ok (c.numaCpus.getD (targetIdx % numCpus).toNat 0)
  else
    let totalCpus := if 0 < c.nproc then longToInt c.nproc else 0
    if totalCpus ≤ 2 then .error (-2)
    else
      let usableCpus := totalCpus - 2
      let evenSlots := usableCpus / 2
      if validatorId < evenSlots then .ok (2 + validatorId * 2)
      else
        let targetCpu := 3 + (validatorId - evenSlots) * 2
        .ok (if totalCpus ≤ targetCpu then 2 + (targetCpu - 2) % usableCpus else targetCpu)

/-- A CPU that a validator may run on. -/
def Allowed (cpu : Int) : Prop :=
  if c.numaCpus = [] then 2 ≤ cpu ∧ cpu < c.nproc else cpu ∈ c.numaCpus

/-- The validators with the identifiers below `n` that are pinned share no CPU. -/
structure Pinned (n : Int) : Prop where
  distinct : ∀ i j cpu, 0 ≤ i → i < n → 0 ≤ j → j < n → c.chooseValidatorCpu i = .ok cpu →
    c.chooseValidatorCpu j = .ok cpu → i = j
  allowed : ∀ i cpu, 0 ≤ i → i < n → c.chooseValidatorCpu i = .ok cpu → c.Allowed cpu

variable {c}

theorem ite_lt_eq_max (n m : Int) : (if n < m then m else n) = max n m := by
  split <;> omega

theorem ite_lt_eq_min (n m : Int) : (if m < n then m else n) = min n m := by
  split <;> omega

/-- The bounds on the number of validators, one after the other. -/
theorem getNumValidators_bounds (numQps chunksPerQp : Nat) (mode : ValidationMode) :
    let n := max (longToInt (asInt numQps * if mode = .read then 3 else 2))
      HOST_VALIDATION_DEFAULT_VALIDATORS
    c.getNumValidators numQps chunksPerQp mode =
      max (min (min (if 0 < c.availableCores then min n (c.availableCores / 2) else n)
        HOST_VALIDATION_MAX_VALIDATORS) (u32 (numQps * chunksPerQp))) 1 := by
  unfold getNumValidators
  dsimp only
  simp only [ite_lt_eq_max, ite_lt_eq_min]
  generalize hm : min (α := Int) (if 0 < c.availableCores then _ else _) _ = m
  have hrange : 0 ≤ m ∧ m ≤ 32 := by
    unfold HOST_VALIDATION_DEFAULT_VALIDATORS HOST_VALIDATION_MAX_VALIDATORS at hm
    split at hm <;> omega
  have hu : longToUns 32 m = m.toNat := by
    unfold longToUns
    rw [Int.emod_eq_of_lt (by omega) (by omega)]
  rw [hu]
  split <;> omega

theorem getNumValidators_le (h : 2 ≤ c.availableCores) (numQps chunksPerQp : Nat)
    (mode : ValidationMode) :
    c.getNumValidators numQps chunksPerQp mode ≤ c.availableCores / 2 := by
  rw [getNumValidators_bounds, if_pos (by omega)]
  omega

/-- Where the products fit an `int`, this is the number that the markers are distributed over. -/
theorem getNumValidators_eq {numQps : Nat} (h : numQps * 3 < 2 ^ 31) (chunksPerQp : Nat)
    (mode : ValidationMode) : c.getNumValidators numQps chunksPerQp mode =
      Perftest.getNumValidators numQps chunksPerQp mode c.availableCores.toNat := by
  have hmul : longToInt (asInt numQps * if mode = .read then 3 else 2) =
      (numQps * if mode = .read then 3 else 2 : Nat) := by
    rw [asInt_of_lt (by omega)]
    split <;> rw [longToInt_of_range (by omega) (by omega)] <;> push_cast <;> rfl
  rw [getNumValidators_bounds, hmul]
  unfold Perftest.getNumValidators
  dsimp only
  generalize numQps * (if mode = .read then 3 else 2) = n
  by_cases hc : 0 < c.availableCores
  · have ht : 0 < c.availableCores.toNat := by omega
    rw [if_pos hc, if_pos ht]
    push_cast
    rw [Int.toNat_of_nonneg hc.le]
  · have ht : ¬ 0 < c.availableCores.toNat := by omega
    rw [if_neg hc, if_neg ht]
    push_cast
    rfl

theorem availableCores_numa (h : 0 < c.numaCpus.length) :
    c.availableCores = c.numaCpus.length := if_pos h

theorem availableCores_online (h : ¬ 0 < c.numaCpus.length) :
    c.availableCores = if 0 < c.nproc then longToInt c.nproc else 0 := if_neg h

/-- The validators of a NUMA node take every second CPU of its list. -/
theorem chooseValidatorCpu_numa {i n : Int} (h : 1 < c.numaCpus.length) (h0 : 0 ≤ i) (hi : i < n)
    (hn : n ≤ c.availableCores / 2) :
    c.chooseValidatorCpu i = .ok (c.numaCpus.getD (2 * i).toNat 0) ∧
      (2 * i).toNat < c.numaCpus.length := by
  rw [availableCores_numa (by omega)] at hn
  have hlt : 2 * i < c.numaCpus.length := by omega
  refine ⟨?_, by omega⟩
  unfold chooseValidatorCpu
  dsimp only
  rw [if_pos (by omega), if_neg (by omega), if_pos (by omega), mul_comm i 2,
    Int.emod_eq_of_lt (by omega) hlt]

/-- Without a list they take the even CPUs from 2 on and one odd CPU, or the last CPU of three. -/
theorem chooseValidatorCpu_online {i n cores : Int} (h : ¬ 0 < c.numaCpus.length)
    (hc : c.availableCores = cores) (h2 : 2 < cores) (hi : i < n)
    (hn : n ≤ cores / 2) :
    c.chooseValidatorCpu i = .ok (if i < (cores - 2) / 2 then 2 + i * 2
      else if cores = 3 then 2 else 3) := by
  rw [availableCores_online h] at hc
  unfold chooseValidatorCpu
  dsimp only
  rw [if_neg (by omega), hc, if_neg (by omega)]
  split
  next => rfl
  next hodd =>
    have he : i = (cores - 2) / 2 := by omega
    rw [he, sub_self, zero_mul, add_zero]
    split
    next hle =>
      have h3 : cores = 3 := by omega
      subst h3
      rfl
    next hlt => rw [if_neg (by omega)]

/-- A validator is pinned only where there are CPUs to choose from. -/
theorem chooseValidatorCpu_of_ok {i cpu : Int} (h : c.chooseValidatorCpu i = .ok cpu) :
    1 < c.numaCpus.length ∨ (¬ 0 < c.numaCpus.length ∧ 2 < c.availableCores) := by
  by_cases hl : 0 < c.numaCpus.length
  · refine .inl ?_
    by_contra hle
    unfold chooseValidatorCpu at h
    dsimp only at h
    rw [if_pos (by omega), if_pos (by omega)] at h
    cases h
  · refine .inr ⟨hl, ?_⟩
    by_contra hle
    unfold chooseValidatorCpu at h
    dsimp only at h
    rw [if_neg (by omega), ← availableCores_online hl, if_pos (by omega)] at h
    cases h

theorem availableCores_le (hl : ¬ 0 < c.numaCpus.length) (h : 0 < c.availableCores) :
    c.availableCores ≤ c.nproc := by
  rw [availableCores_online hl] at h ⊢
  split
  next hp =>
    have := longToInt_range c.nproc
    by_cases hlt : c.nproc < 2 ^ 31
    · rw [longToInt_of_range (by omega) hlt]
    · omega
  next hp =>
    rw [if_neg hp] at h
    omega

/-- No two validators are pinned to one CPU, and each is pinned to a CPU of its node or to one that
is neither of the first two. -/
theorem chooseValidatorCpu_pinned (c : CpuSystem) (numQps chunksPerQp : Nat)
    (mode : ValidationMode) : c.Pinned (c.getNumValidators numQps chunksPerQp mode) := by
  have hcap := fun h => c.getNumValidators_le h numQps chunksPerQp mode
  generalize c.getNumValidators numQps chunksPerQp mode = n at hcap
  constructor
  · intro i j cpu hi hin hj hjn hci hcj
    rcases chooseValidatorCpu_of_ok hci with hl | ⟨hl, h2⟩
    · have hn := hcap (by rw [availableCores_numa (by omega)]; omega)
      obtain ⟨hei, hlti⟩ := chooseValidatorCpu_numa hl hi hin hn
      obtain ⟨hej, hltj⟩ := chooseValidatorCpu_numa hl hj hjn hn
      rw [hei] at hci
      rw [hej] at hcj
      have he := (Except.ok.inj hci).trans (Except.ok.inj hcj).symm
      rw [List.getD_eq_getElem _ _ hlti, List.getD_eq_getElem _ _ hltj] at he
      have := c.nodup.getElem_inj_iff.mp he
      omega
    · have hn := hcap (by omega)
      have hei := chooseValidatorCpu_online hl rfl h2 hin hn
      have hej := chooseValidatorCpu_online hl rfl h2 hjn hn
      rw [hei] at hci
      rw [hej] at hcj
      have he := (Except.ok.inj hci).trans (Except.ok.inj hcj).symm
      split at he <;> split at he <;> omega
  · intro i cpu hi hin hci
    unfold Allowed
    rcases chooseValidatorCpu_of_ok hci with hl | ⟨hl, h2⟩
    · have hn := hcap (by rw [availableCores_numa (by omega)]; omega)
      obtain ⟨hei, hlt⟩ := chooseValidatorCpu_numa hl hi hin hn
      rw [hei] at hci
      rw [if_neg (List.ne_nil_of_length_pos (by omega)), ← Except.ok.inj hci,
        List.getD_eq_getElem _ _ hlt]
      exact List.getElem_mem hlt
    · have hn := hcap (by omega)
      have hei := chooseValidatorCpu_online hl rfl h2 hin hn
      have hle := availableCores_le hl (by omega)
      rw [hei] at hci
      rw [if_pos (List.length_eq_zero_iff.mp (by omega)), ← Except.ok.inj hci]
      split
      next => omega
      next => split <;> omega

end CpuSystem

end Perftest
