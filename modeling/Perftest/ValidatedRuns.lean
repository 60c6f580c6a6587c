import Mathlib.Algebra.Order.Floor.Div
import Perftest.DvAgreement
import Perftest.HostAccounting
import Perftest.LayoutAgreement

namespace Perftest

open CMachine CArray ByteMemory Checked

/-- The geometry of the run of an accepted record. -/
structure DvConfig.Runs (c : DvConfig) (d : CoreParameters) : Prop where
  mode : c.mode = d.validationMode
  payloadSize : c.payloadSize = d.size
  chunkSize : c.validationChunkSize = d.validationChunkSize
  chunksPerQp : c.validationChunksPerQp = d.validationChunksPerQp
  numOfQps : c.numOfQps = d.numOfQps

/-- The host validator of a run, whose words start at zero. -/
def DvConfig.hostScan (c : DvConfig) (L : ValidationBufferLayout) (vbuf cores : Nat) :
    ScanConfig where
  mode := c.mode
  payloadSize := c.payloadSize
  opsPerChunk := c.validationChunkSize
  numQps := c.numOfQps
  chunksPerQp := c.validationChunksPerQp
  tailMarkers := vbuf + if c.mode = .read then L.atomicReturnsOffset else L.markersOffset
  recvSlots := vbuf + L.recvSlotsOffset
  availableCores := cores
  start := fun _ => 0
  markers_lt := c.markers_lt
  start_le := fun _ => Nat.zero_le 1
  write_zero := fun _ _ => rfl

/-- The operations of a QP, in whole send windows, cover the smallest chunk. -/
def CoreParameters.CoversChunk (d : CoreParameters) : Prop :=
  VALIDATION_MIN_CHUNK_BYTES ≤ d.size * (d.txDepth * (d.iters / d.txDepth))

instance (d : CoreParameters) : Decidable d.CoversChunk := inferInstanceAs (Decidable (_ ≤ _))

theorem ceil_le_iff {a b n : Nat} (h : 0 < b) : (a + b - 1) / b ≤ n ↔ a ≤ b * n := by
  rw [← Nat.ceilDiv_eq_add_pred_div]
  exact ceilDiv_le_iff_le_mul h

theorem deriveValidationChunkSize_le_iff {p t n : Nat} (hp : 0 < p) (ht : 0 < t) (hn : t ≤ n) :
    deriveValidationChunkSize p t ≤ n ↔ VALIDATION_MIN_CHUNK_BYTES ≤ p * (t * (n / t)) := by
  have hdiv : 1 ≤ n / t := (Nat.one_le_div_iff ht).mpr hn
  have hcov : p * t ≤ p * (t * (n / t)) := Nat.mul_le_mul_left p (Nat.le_mul_of_pos_right t hdiv)
  simp only [deriveValidationChunkSize]
  split
  next h =>
    rw [← Nat.le_div_iff_mul_le ht, ceil_le_iff ht, ceil_le_iff hp]
  next h =>
    have hmin : VALIDATION_MIN_CHUNK_BYTES ≤ p * t := by
      by_contra hlt
      exact h ⟨by omega, hp⟩
    have hright : VALIDATION_MIN_CHUNK_BYTES ≤ p * (t * (n / t)) := hmin.trans hcov
    split
    next hmax =>
      have htarget : ¬ t ≤ VALIDATION_MAX_CHUNK_BYTES / p := by
        intro hle
        have := (Nat.le_div_iff_mul_le hp).mp hle
        rw [Nat.mul_comm] at this
        omega
      rw [if_neg htarget]
      refine iff_of_true ?_ hright
      split <;> omega
    next => exact iff_of_true hn hright

theorem deriveValidationChunkSize_le {p t : Nat} (ht : t ≤ 15000) :
    deriveValidationChunkSize p t ≤ VALIDATION_MAX_CHUNK_BYTES := by
  have hmax : ∀ a, VALIDATION_MAX_CHUNK_BYTES / a ≤ VALIDATION_MAX_CHUNK_BYTES :=
    fun a => Nat.div_le_self _ _
  simp only [deriveValidationChunkSize]
  split_ifs with h1 h2 h3
  · have h := Nat.div_mul_le_self ((VALIDATION_MIN_CHUNK_BYTES + p - 1) / p + t - 1) t
    have hneed : (VALIDATION_MIN_CHUNK_BYTES + p - 1) / p ≤ VALIDATION_MIN_CHUNK_BYTES :=
      (ceil_le_iff h1.2).mpr (Nat.le_mul_of_pos_left _ h1.2)
    unfold VALIDATION_MIN_CHUNK_BYTES at *
    unfold VALIDATION_MAX_CHUNK_BYTES
    omega
  · exact (Nat.div_mul_le_self _ _).trans (hmax p)
  · exact hmax p
  · norm_num [VALIDATION_MAX_CHUNK_BYTES]
  · norm_num [VALIDATION_MAX_CHUNK_BYTES]
    omega

/-- A marker fires for the first time with the last operation of its chunk. -/
theorem exists_markerFires_iff {c : DvConfig} {k : Nat} :
    (∃ i, i < c.validationChunksPerQp ∧ markerFires c i k ≠ 0) ↔ c.validationChunkSize ≤ k := by
  have hsl : c.validationChunkSize ≤ c.slots := Nat.le_mul_of_pos_right _ c.chunks_pos
  constructor
  · intro h
    obtain ⟨i, hi, hf⟩ := h
    rcases Nat.lt_or_ge k c.slots with hk | hk
    · rw [markerFires, Nat.div_eq_of_lt hk, Nat.mod_eq_of_lt hk, Nat.zero_add] at hf
      split at hf
      next hle => exact (Nat.le_mul_of_pos_left _ (Nat.succ_pos i)).trans hle
      next => exact absurd rfl hf
    · omega
  · intro h
    refine ⟨0, c.chunks_pos, ?_⟩
    rcases Nat.lt_or_ge k c.slots with hk | hk
    · rw [markerFires, Nat.mod_eq_of_lt hk, if_pos (by omega)]
      exact Nat.succ_ne_zero _
    · have := (Nat.one_le_div_iff c.slots_pos).mpr hk
      rw [markerFires]
      omega

namespace ScanConfig

variable {c : ScanConfig} {s : ScanState}

theorem QuiescentReachable.reachable (h : c.QuiescentReachable s) : c.Reachable s := by
  apply Transition.Reachable.invariant (P := fun s => c.Reachable s) ?_ ?_ h
  · intro s hs
    exact Transition.Reachable.of_init hs
  · intro s t hs ht
    obtain ⟨a, ha⟩ := ht
    exact hs.tail ⟨a, (Transition.guarded_eq_some.mp ha).2⟩

/-- A thread that has hit no marker has seen none. -/
theorem Reachable.seenSum_eq_zero (h : c.Reachable s) :
    ∀ i, i < c.numValidators → (s.threads i).stats.markersHit = 0 → (s.threads i).seenSum = 0 := by
  suffices hP : ScanInv c s ∧ ∀ i, i < c.numValidators →
      (s.threads i).stats.markersHit = 0 → (s.threads i).seenSum = 0 from hP.2
  apply Transition.Reachable.invariant (P := fun s => ScanInv c s ∧ ∀ i, i < c.numValidators →
      (s.threads i).stats.markersHit = 0 → (s.threads i).seenSum = 0) ?_ ?_ h
  · intro s hs
    rw [hs]
    refine ⟨scanInv_init, fun i hi _ => ?_⟩
    exact (scanInv_init.threads i hi).accounted.seen.symm
  · intro s t hs ht
    obtain ⟨a, ha⟩ := ht
    refine ⟨(scanInv_step hs.1 ha).1, fun i hi => ?_⟩
    rcases act_cases ha with ⟨j, r, rd, hj, hr, rfl⟩ | ⟨idx, b, rfl, hidx, rfl⟩ | rfl
    · by_cases hij : i = j
      · subst hij
        simp only [Function.update_self]
        rcases validatorThreadFn_cases hr (hs.1.threads i hi).pc with
          ⟨m, e, he, hne, ⟨-, hy⟩ | ⟨-, hy⟩⟩ | ⟨hu, hpc⟩ | ⟨m, v, e, he, hlt, hv, hpc⟩
        · rw [hy]
          exact hs.2 i hi
        · rw [hy]
          exact hs.2 i hi
        · rw [hu.hit, ScanThread.seenSum, hu.entries]
          exact hs.2 i hi
        · rw [hv.hit]
          omega
      · simp only [Function.update_of_ne hij]
        exact hs.2 i hi
    · exact hs.2 i hi
    · exact hs.2 i hi

theorem ThreadStats.sum_markersHit (l : List ThreadStats) :
    l.sum.markersHit = (l.map (·.markersHit)).sum := by
  induction l with
  | nil => rfl
  | cons x l ih =>
    rw [List.sum_cons, List.map_cons, List.sum_cons, ← ih]
    rfl

theorem ThreadStats.sum_workItemsProcessed (l : List ThreadStats) :
    l.sum.workItemsProcessed = (l.map (·.workItemsProcessed)).sum := by
  induction l with
  | nil => rfl
  | cons x l ih =>
    rw [List.sum_cons, List.map_cons, List.sum_cons, ← ih]
    rfl

/-- Work is reported when a thread has seen a marker move. -/
theorem report_work_iff (h : c.Reachable s) (ho : 0 < c.opsPerChunk) :
    (c.report s).workItemsProcessed = 0 ↔
      (c.report s).markersHit + (c.report s).skippedSteps = 0 := by
  rw [report, ThreadStats.sum_workItemsProcessed, ThreadStats.sum_counts, List.sum_eq_zero_iff,
    List.sum_eq_zero_iff]
  simp only [List.map_map, List.mem_map, List.mem_range, Function.comp_apply, forall_exists_index,
    and_imp, forall_apply_eq_imp_iff₂]
  refine forall₂_congr fun i hi => ?_
  have hacc := (h.inv.threads i hi).accounted
  rw [hacc.seen, hacc.work, Nat.mul_eq_zero]
  constructor
  · intro hz
    exact h.seenSum_eq_zero i hi (hz.resolve_right (by omega))
  · intro hz
    have := hacc.seen
    exact Or.inl (by omega)

/-- After a quiescent stop, work is reported exactly when some marker has moved. -/
theorem QuiescentReachable.work_ne_zero_iff (h : c.QuiescentReachable s) (ho : 0 < c.opsPerChunk)
    (hd : ∀ i, i < c.numValidators → (s.threads i).pc = .done) :
    (c.report s).workItemsProcessed ≠ 0 ↔
      ∃ k, k < c.numQps * c.chunksPerQp ∧ s.markers (c.tailMarkers + k * 8) ≠ 0 := by
  rw [Ne, report_work_iff h.reachable ho, h.report_eq hd, ← h.inv.1.total, List.sum_eq_zero_iff]
  simp only [List.mem_map, List.mem_range, forall_exists_index, and_imp,
    forall_apply_eq_imp_iff₂, not_forall, exists_prop, Ne]

end ScanConfig

section Runs

variable {c : DvConfig} {L : ValidationBufferLayout} {x : DvSendCtx} {buf remBuf k : Nat}

/-- The inner loop of a QP can post as often as it wants. -/
theorem exists_posts (hr : DvRegions c L) (hf : DvPostsFit c)
    (hx : dvSendCtx c L buf remBuf = some x) (ho : SgesOk c L buf x.sgeList) {s : DvState}
    {q : Nat} {cur : DvCursor} (hs : DvReachable c L x buf remBuf s)
    (hb : s.burst = some (q, cur)) (h0 : s.scnt q = 0) (n : Nat) (hn : n < 2 ^ 64) :
    ∃ t cur', DvReachable c L x buf remBuf t ∧ t.burst = some (q, cur') ∧
      t.scnt = Function.update s.scnt q n := by
  induction n with
  | zero =>
    refine ⟨s, cur, hs, hb, ?_⟩
    rw [← h0, Function.update_eq_self]
  | succ n ih =>
    obtain ⟨t, cur', ht, htb, hsc⟩ := ih (by omega)
    have hi := DvReachable.inv hr hf hx ho ht
    obtain ⟨hq, rfl⟩ := hi.burst q cur' htb
    have htq : t.scnt q = n := by rw [hsc, Function.update_self]
    have hpost := buildPost_eq (k := t.scnt q) hf hx ho hq
    refine ⟨_, _, ht.tail (DvStep.post t q _ _ _ htb (by omega) hpost
      (cursorOf_advance hf (t.scnt q))), rfl, ?_⟩
    simp only [htq, hsc, Function.update_idem]

/-- There is a run that executes `k` operations on each QP. -/
theorem exists_full_run (hr : DvRegions c L) (hf : DvPostsFit c)
    (hx : dvSendCtx c L buf remBuf = some x) (ho : SgesOk c L buf x.sgeList) (hk : k < 2 ^ 64) :
    ∃ s, DvReachable c L x buf remBuf s ∧ ∀ q, q < c.numOfQps → s.scnt q = k := by
  have key : ∀ n, n ≤ c.numOfQps → ∃ s, DvReachable c L x buf remBuf s ∧ s.burst = none ∧
      (∀ q, q < n → s.scnt q = k) ∧ ∀ q, n ≤ q → s.scnt q = 0 := by
    intro n
    induction n with
    | zero =>
      intro _
      refine ⟨⟨initializeBufferContent c L buf fun _ => 0,
        initializeBufferContent c L remBuf fun _ => 0, fun _ => 0, fun _ => 0, fun _ => 0, none⟩,
        .of_init ⟨⟨_, rfl⟩, ⟨_, rfl⟩, rfl, rfl, rfl, rfl⟩, rfl, ?_, fun _ _ => rfl⟩
      intro q hq
      omega
    | succ n ih =>
      intro hn
      obtain ⟨s, hs, hb, hlt, hge⟩ := ih (by omega)
      have henter := hs.tail (DvStep.enter s n (by omega) hb)
      obtain ⟨t, cur, ht, htb, hsc⟩ := exists_posts hr hf hx ho henter rfl (hge n (le_refl _)) k hk
      refine ⟨_, ht.tail (DvStep.leave t n cur htb), rfl, fun q hq => ?_, fun q hq => ?_⟩
      · by_cases hqn : q = n
        · subst hqn
          simp only [hsc, Function.update_self]
        · simp only [hsc, Function.update_of_ne hqn]
          exact hlt q (by omega)
      · simp only [hsc, Function.update_of_ne (show q ≠ n by omega)]
        exact hge q (by omega)
  obtain ⟨s, hs, -, hlt, -⟩ := key c.numOfQps (le_refl _)
  exact ⟨s, hs, hlt⟩

/-- At the end of a run of `k` operations on each QP a word has moved exactly when they complete a
chunk. -/
theorem full_run_words_iff (hr : DvRegions c L) (hf : DvPostsFit c)
    (hx : dvSendCtx c L buf remBuf = some x) (ho : SgesOk c L buf x.sgeList) {s : DvState}
    (hs : DvReachable c L x buf remBuf s) (hd : ∀ q, q < c.numOfQps → s.scnt q = k)
    (cores : Nat) :
    (∃ en ∈ (validatorEntries c L (validatorSide c (buf, remBuf)) cores).flatten,
      readWord (s.validatorMem c) en.markerPtr ≠ 0) ↔ c.validationChunkSize ≤ k := by
  have hi := DvReachable.inv hr hf hx ho hs
  have hptr : ∀ q i, (scanEntry (validatorSide c (buf, remBuf) + if c.mode = .read then
      L.atomicReturnsOffset else L.markersOffset) (validatorSide c (buf, remBuf) +
      L.recvSlotsOffset) c.validationChunksPerQp c.validationChunkSize c.payloadSize
      (q * c.validationChunksPerQp + i)).markerPtr =
        wordAddr c L (validatorSide c (buf, remBuf)) q i := fun q i => rfl
  rw [← exists_markerFires_iff]
  constructor
  · intro h
    obtain ⟨en, hen, hne⟩ := h
    obtain ⟨q, i, hq, hi', rfl⟩ := mem_validatorEntries.mp hen
    rw [hptr, hi.words q i hq hi', hd q hq] at hne
    exact ⟨i, hi', hne⟩
  · intro h
    obtain ⟨i, hi', hne⟩ := h
    refine ⟨_, mem_validatorEntries.mpr ⟨0, i, c.numOfQps_pos, hi', rfl⟩, ?_⟩
    rw [hptr, hi.words 0 i c.numOfQps_pos hi', hd 0 c.numOfQps_pos]
    exact hne

end Runs

/-- A record whose test stays bounded by iterations keeps their number. -/
theorem coreDependecies_iterations {p : CoreParameters}
    (h : p.coreDependecies.testType = .iterations) :
    p.testMethod ≠ .runInfinitely ∧ p.testType = .iterations ∧
      p.coreDependecies.iters = p.iters := by
  by_cases hm : p.testMethod = .runInfinitely
  · simp only [CoreParameters.coreDependecies, CoreParameters.setFillCount,
      CoreParameters.evenRxDepth, CoreParameters.forceSrd, CoreParameters.forceInfinitely,
      CoreParameters.forceMcg, CoreParameters.forceMacFwd, CoreParameters.forceDuration,
      CoreParameters.forcePostList, CoreParameters.forceDualport, CoreParameters.forceTransport,
      CoreParameters.deriveGeometry, CoreParameters.forceSize, CoreParameters.clampCqMod,
      CoreParameters.limitCqMod, CoreParameters.forceDepths, hm, if_true, reduceCtorEq] at h
  · by_cases hd : p.testType = .duration
    · simp only [CoreParameters.coreDependecies, CoreParameters.setFillCount,
        CoreParameters.evenRxDepth, CoreParameters.forceSrd, CoreParameters.forceInfinitely,
        CoreParameters.forceMcg, CoreParameters.forceMacFwd, CoreParameters.forceDuration,
        CoreParameters.forcePostList, CoreParameters.forceDualport, CoreParameters.forceTransport,
        CoreParameters.deriveGeometry, CoreParameters.forceSize, CoreParameters.clampCqMod,
        CoreParameters.limitCqMod, CoreParameters.forceDepths, hm, hd, if_false,
        reduceCtorEq] at h
    · simp only [CoreParameters.coreDependecies, CoreParameters.setFillCount,
        CoreParameters.evenRxDepth, CoreParameters.forceSrd, CoreParameters.forceInfinitely,
        CoreParameters.forceMcg, CoreParameters.forceMacFwd, CoreParameters.forceDuration,
        CoreParameters.forcePostList, CoreParameters.forceDualport, CoreParameters.forceTransport,
        CoreParameters.deriveGeometry, CoreParameters.forceSize, CoreParameters.clampCqMod,
        CoreParameters.limitCqMod, CoreParameters.forceDepths, hm, hd, if_false] at h ⊢
      exact ⟨hm, h, trivial⟩

section Accepted

variable {b : Build} {prog : Program} {other : OtherParameters} {servername : Bool}
  {args : List Opt} {d : PerftestParameters}

/-- What an accepted record with data validation says about its geometry. -/
theorem accepted_geometry (hp : parser b prog other servername args = .ok d)
    (hv : d.dataValidation = true) (ht : d.testType = .iterations) :
    d.validationChunkSize = deriveValidationChunkSize d.size d.txDepth ∧ 1 ≤ d.size ∧
      1 ≤ d.txDepth ∧ d.txDepth ≤ d.iters ∧ d.txDepth ≤ 15000 := by
  obtain ⟨c, hc, hf⟩ := bind_eq_ok hp
  have hr := parsedParams_inRange hc
  have hcore := forceDependecies_core hf
  generalize c.toCoreParameters = p at hr hcore
  have hrange := CoreParameters.coreDependecies_ranges hr
  have hsize := CoreParameters.coreDependecies_size p
  have htx := CoreParameters.coreDependecies_txDepth p
  rw [hcore, (CoreParameters.coreDependecies_kept p).2.2] at hv
  have hgeo := (CoreParameters.coreDependecies_geometry hv).1
  obtain ⟨hinf, htype, hiters⟩ := coreDependecies_iterations (hcore ▸ ht)
  rw [hcore]
  have hi := hr.iters_ge
  have hs := hr.size_pos
  have ht1 := hr.tx_pos
  unfold MIN_ITER at hi
  refine ⟨hgeo, ?_, ?_, ?_, hrange.2.2.1⟩
  · rw [hsize]
    split
    · norm_num [MAX_SIZE]
    · exact hs
  · rw [htx, CoreParameters.clampedTxDepth]
    split <;> omega
  · rw [htx, hiters, CoreParameters.clampedTxDepth, CoreParameters.boundedRun]
    simp only [hinf, htype, ne_eq, not_false_eq_true, decide_true, Bool.true_and,
      decide_eq_true_eq]
    split <;> omega

/-- A QP of an accepted record has no truncated slot. -/
theorem accepted_slots {c : DvConfig} (hc : c.Runs d.toCoreParameters)
    (hp : parser b prog other servername args = .ok d) (hv : d.dataValidation = true)
    (ht : d.testType = .iterations) : c.slots < 2 ^ 31 := by
  obtain ⟨hgeo, -, -, -, htx⟩ := accepted_geometry hp hv ht
  have hle := deriveValidationChunkSize_le (p := d.size) htx
  have hmul := Nat.mul_le_mul (hc.chunkSize.trans_le (hgeo.trans_le hle)) c.chunks_le
  rw [DvConfig.slots]
  unfold VALIDATION_MAX_CHUNK_BYTES VALIDATION_MAX_CHUNKS_PER_QP at hmul
  omega

theorem accepted_coversChunk (hp : parser b prog other servername args = .ok d)
    (hv : d.dataValidation = true) (ht : d.testType = .iterations) :
    d.validationChunkSize ≤ d.iters ↔ d.CoversChunk := by
  obtain ⟨hgeo, hs, htx, hle, -⟩ := accepted_geometry hp hv ht
  rw [hgeo]
  exact deriveValidationChunkSize_le_iff hs htx hle

/-- A run that executes all operations of an accepted record without an error ends with a marker
that has moved, and so with validated chunks, exactly when the operations of a QP, counted in whole
send windows, cover 64 KB. -/
theorem validated_run_passes_iff {c : DvConfig} {L : ValidationBufferLayout} {x : DvSendCtx}
    {buf remBuf cores : Nat} {s : DvState}
    (hp : parser b prog other servername args = .ok d) (hv : d.dataValidation = true)
    (ht : d.testType = .iterations) (hc : c.Runs d.toCoreParameters) (hl : c.layout = some L)
    (hx : dvSendCtx c L buf remBuf = some x) (hs : DvReachable c L x buf remBuf s)
    (hd : ∀ q, q < c.numOfQps → s.scnt q = d.iters) :
    ((∃ en ∈ (validatorEntries c L (validatorSide c (buf, remBuf)) cores).flatten,
      readWord (s.validatorMem c) en.markerPtr ≠ 0) ↔ d.CoversChunk) ∧
    (d.validationChunkSize ≤ d.iters ↔ d.CoversChunk) ∧
    ∀ v : ScanState,
      (c.hostScan L (validatorSide c (buf, remBuf)) cores).QuiescentReachable v →
      (∀ i, i < (c.hostScan L (validatorSide c (buf, remBuf)) cores).numValidators →
        (v.threads i).pc = .done) →
      (∀ en ∈ (validatorEntries c L (validatorSide c (buf, remBuf)) cores).flatten,
        v.markers en.markerPtr = readWord (s.validatorMem c) en.markerPtr) →
      (((c.hostScan L (validatorSide c (buf, remBuf)) cores).report v).workItemsProcessed ≠ 0 ↔
        d.CoversChunk) := by
  have hr := c.regions hl
  have hf := postsFit_of_sendCtx (accepted_slots hc hp hv ht) hx
  have ho := sgesOk_of_sendCtx hf hx
  have hcov := accepted_coversChunk hp hv ht
  have hwords := full_run_words_iff hr hf hx ho hs hd cores
  rw [hc.chunkSize, hcov] at hwords
  refine ⟨hwords, hcov, fun v hq hdone hm => ?_⟩
  rw [hq.work_ne_zero_iff c.chunkSize_pos hdone, ← hwords]
  constructor
  · intro h
    obtain ⟨k, hk, hne⟩ := h
    have hk : k < c.numOfQps * c.validationChunksPerQp := hk
    have hen := (@mem_validatorEntries c L (validatorSide c (buf, remBuf)) cores _).mpr
      ⟨k / c.validationChunksPerQp, k % c.validationChunksPerQp,
        Nat.div_lt_of_lt_mul (by rwa [Nat.mul_comm]), Nat.mod_lt _ c.chunks_pos, rfl⟩
    refine ⟨_, hen, ?_⟩
    rw [← hm _ hen, Nat.div_add_mod']
    exact hne
  · intro h
    obtain ⟨en, hen, hne⟩ := h
    rw [← hm en hen] at hne
    obtain ⟨q, i, hq, hi, rfl⟩ := mem_validatorEntries.mp hen
    exact ⟨q * c.validationChunksPerQp + i, c.marker_lt hq hi, hne⟩

end Accepted

/-- A WRITE run on one QP. -/
def oneQpRun (payload chunkSize : Nat) (hp : 0 < payload) (hp' : payload < 2 ^ 31)
    (hs : 0 < chunkSize) (hs' : chunkSize < 2 ^ 26) : DvConfig where
  mode := .write
  payloadSize := payload
  validationChunkSize := chunkSize
  validationChunksPerQp := 24
  numOfQps := 1
  payloadSize_pos := hp
  payloadSize_lt := hp'
  chunkSize_pos := hs
  chunkSize_lt := Nat.lt_trans hs' (by norm_num)
  chunks_pos := VALIDATION_MAX_CHUNKS_PER_QP_pos
  chunks_le := Nat.le_refl VALIDATION_MAX_CHUNKS_PER_QP
  numOfQps_pos := Nat.one_pos
  numOfQps_le := by decide

/-- An accepted command line of `ib_write_bw --data_validation` on one QP, with a full run. -/
theorem exists_write_run (args : List Opt) (payload chunkSize : Nat)
    (cov : CoreParameters → Bool) (hp : 0 < payload) (hp' : payload < 2 ^ 31) (hs : 0 < chunkSize)
    (hs' : chunkSize < 2 ^ 26)
    (hl : (oneQpRun payload chunkSize hp hp' hs hs').layout.isSome = true)
    (h : (writeBwParser true args).toOption.any (fun d =>
      d.dataValidation && decide (d.testType = .iterations) && decide (d.validationMode = .write) &&
        decide (d.size = payload) && decide (d.validationChunkSize = chunkSize) &&
        decide (d.validationChunksPerQp = 24) && decide (d.numOfQps = 1) &&
        decide (d.iters < 2 ^ 64) && cov d.toCoreParameters) = true) :
    ∃ d c L x s, writeBwParser true args = .ok d ∧ d.dataValidation = true ∧
      d.testType = .iterations ∧ c.Runs d.toCoreParameters ∧ c.layout = some L ∧
      dvSendCtx c L 4096 8192 = some x ∧ DvReachable c L x 4096 8192 s ∧
      (∀ q, q < c.numOfQps → s.scnt q = d.iters) ∧ cov d.toCoreParameters = true := by
  obtain ⟨d, hd, h⟩ := exists_of_toOption_any h
  simp only [Bool.and_eq_true, decide_eq_true_eq] at h
  obtain ⟨⟨⟨⟨⟨⟨⟨⟨hv, ht⟩, hm⟩, hsz⟩, hcs⟩, hch⟩, hn⟩, hi⟩, hcov⟩ := h
  obtain ⟨L, hL⟩ := Option.isSome_iff_exists.mp hl
  have hf : DvPostsFit (oneQpRun payload chunkSize hp hp' hs hs') := by
    refine ⟨?_, fun hm => by cases hm⟩
    show chunkSize * 24 < 2 ^ 31
    omega
  obtain ⟨x, hx, ho⟩ := dvSendCtx_ok L 4096 8192 hf
  obtain ⟨s, hs, hq⟩ := exists_full_run (DvConfig.regions hL) hf hx ho hi
  exact ⟨d, _, L, x, s, hd, hv, ht, ⟨hm.symm, hsz.symm, hcs.symm, hch.symm, hn.symm⟩, hL, hx, hs,
    hq, hcov⟩

/-- A run of 32 operations of 2 KB moves a marker. -/
theorem thirtyTwo_operations_validated : ∃ d c L x s,
    writeBwParser true [.size 2048 .none, .iters 32, .txDepth 32] = .ok d ∧
      DvReachable c L x 4096 8192 s ∧ (∀ q, q < c.numOfQps → s.scnt q = d.iters) ∧
      ∃ en ∈ (validatorEntries c L (validatorSide c (4096, 8192)) 16).flatten,
        readWord (s.validatorMem c) en.markerPtr ≠ 0 := by
  obtain ⟨d, c, L, x, s, hp, hv, ht, hc, hl, hx, hs, hd, hcov⟩ :=
    exists_write_run [.size 2048 .none, .iters 32, .txDepth 32] 2048 32
      (fun d => decide d.CoversChunk) (by decide) (by decide) (by decide) (by decide)
      (by decide +kernel) (by decide +kernel)
  exact ⟨d, c, L, x, s, hp, hs, hd,
    (validated_run_passes_iff hp hv ht hc hl hx hs hd).1.mpr (of_decide_eq_true hcov)⟩

/-- A thousand operations of two bytes, all of them correct, move none. -/
theorem shortRun_not_validated :
    ¬ ∀ d, writeBwParser true [.size 2 .none, .iters 1000] = .ok d → ∀ c L x s,
      c.Runs d.toCoreParameters → c.layout = some L → dvSendCtx c L 4096 8192 = some x →
      DvReachable c L x 4096 8192 s → (∀ q, q < c.numOfQps → s.scnt q = d.iters) →
      ∃ en ∈ (validatorEntries c L (validatorSide c (4096, 8192)) 16).flatten,
        readWord (s.validatorMem c) en.markerPtr ≠ 0 := by
  intro h
  obtain ⟨d, c, L, x, s, hp, hv, ht, hc, hl, hx, hs, hd, hcov⟩ :=
    exists_write_run [.size 2 .none, .iters 1000] 2 32768
      (fun d => decide ¬ d.validationChunkSize ≤ d.iters) (by decide) (by decide) (by decide)
      (by decide) (by decide +kernel) (by decide +kernel)
  have hf := postsFit_of_sendCtx (accepted_slots hc hp hv ht) hx
  have hw := (full_run_words_iff (c.regions hl) hf hx (sgesOk_of_sendCtx hf hx) hs hd 16).mp
    (h d hp c L x s hc hl hx hs hd)
  rw [hc.chunkSize] at hw
  exact of_decide_eq_true hcov hw

end Perftest
