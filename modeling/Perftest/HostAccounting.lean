import Perftest.HostScan

namespace Perftest

open CMachine

/-- A mismatch is counted apart from the work done. -/
theorem recordMismatch_counters (p : Nat) (e : MarkerScanEntry) (expected : UInt8)
    (mm : ChunkMismatch) (st : ValidatorState) :
    (recordMismatch p e expected mm st).stats.skippedSteps = st.stats.skippedSteps ∧
      (recordMismatch p e expected mm st).stats.bytesValidated = st.stats.bytesValidated ∧
      (recordMismatch p e expected mm st).stats.workItemsProcessed =
        st.stats.workItemsProcessed := by
  unfold recordMismatch
  cases mm.mtype <;> exact ⟨rfl, rfl, rfl⟩

/-- The counters of a visit that finds the marker at `v`. -/
theorem validateOneMarker_stats {p o n v t : Nat} {r : ChunkReader} {u : ValidatorState}
    {e : MarkerScanEntry} (h : e.lastSeen < v) :
    ∃ st' t', validateOneMarker p o n r u e v t = (true, st', { e with lastSeen := v }, t') ∧
      st'.stats.skippedSteps + 1 = u.stats.skippedSteps + (v - e.lastSeen) ∧
      st'.stats.bytesValidated = u.stats.bytesValidated + n ∧
      st'.stats.workItemsProcessed = u.stats.workItemsProcessed + o := by
  obtain ⟨k, rfl⟩ : ∃ k, v = k + 1 := ⟨v - 1, by omega⟩
  have hd : subU64 (k + 1) e.lastSeen = k + 1 - e.lastSeen := subU64_of_le (Nat.le_of_lt h)
  simp only [validateOneMarker, markerToExpectedPattern_succ, hd]
  refine ⟨_, _, rfl, ?_⟩
  rcases inspectChunk p n (validationCycleToPattern k) r t with ⟨found, t'⟩
  by_cases h1 : 1 < k + 1 - e.lastSeen
  · cases found with
    | none =>
      simp only [h1, if_true, and_true]
      omega
    | some mm =>
      simp only [h1, if_true, recordMismatch_counters, and_true]
      omega
  · cases found with
    | none =>
      simp only [h1, if_false, and_true]
      omega
    | some mm =>
      simp only [h1, if_false, recordMismatch_counters, and_true]
      omega

/-- What a visit of entry `m` with the value `v` does to the counters of a thread. -/
structure ScanThread.Visited (c : ScanConfig) (x y : ScanThread) (m v : Nat)
    (e : MarkerScanEntry) : Prop where
  entries : y.entries = x.entries.set m { e with lastSeen := v }
  hit : y.stats.markersHit = x.stats.markersHit + 1
  skipped : y.stats.skippedSteps + 1 = x.stats.skippedSteps + (v - e.lastSeen)
  bytes : y.stats.bytesValidated = x.stats.bytesValidated + c.chunkBytes
  work : y.stats.workItemsProcessed = x.stats.workItemsProcessed + c.opsPerChunk

/-- The thread has visited nothing. -/
structure ScanThread.Unvisited (x y : ScanThread) : Prop where
  entries : y.entries = x.entries
  stats : y.stats.toHostValidatorStats = x.stats.toHostValidatorStats
  hit : y.stats.markersHit = x.stats.markersHit

theorem visitMarker_visited {c : ScanConfig} {r : ChunkReader} {s : ScanState} {x : ScanThread}
    {m v : Nat} {e : MarkerScanEntry} (h : e.lastSeen < v) :
    (c.visitMarker r s x m v e).1 = true ∧
      x.Visited c (c.visitMarker r s x m v e).2.1 m v e := by
  obtain ⟨st, t, hv, hs, hb, hw⟩ := validateOneMarker_stats (p := c.payloadSize)
    (o := c.opsPerChunk) (n := c.chunkBytes) (r := r) (u := x.counters s) (t := 0) h
  simp only [ScanConfig.visitMarker, hv]
  exact ⟨trivial, ⟨rfl, rfl, hs, hb, hw⟩⟩

/-- The marker of the entry that the thread is about to visit holds `v`, or did so when it was
loaded. -/
def ScanState.Loaded (s : ScanState) (x : ScanThread) (m v : Nat) : Prop :=
  ∃ e, x.entries[m]? = some e ∧ v ∈ s.held e.markerPtr ∧ e.lastSeen < v ∧ v ≤ s.markers e.markerPtr

def ScanState.PcOk (s : ScanState) (x : ScanThread) : Prop := match x.pc with
  | .visit m v => s.Loaded x m v
  | .drainVisit m v => s.Loaded x m v
  | _ => True

structure ScanState.ThreadOk (c : ScanConfig) (s : ScanState) (es : List MarkerScanEntry)
    (x : ScanThread) : Prop where
  pointers : x.entries.map (·.markerPtr) = es.map (·.markerPtr)
  since : ∀ e ∈ x.entries, e.lastSeen = 0 ∨ e.lastSeen ∈ s.held e.markerPtr
  le : ∀ e ∈ x.entries, e.lastSeen ≤ s.markers e.markerPtr
  accounted : x.Accounted c
  pc : s.PcOk x

structure ScanInv (c : ScanConfig) (s : ScanState) : Prop where
  held : ∀ a, s.markers a ∈ s.held a
  total : ((List.range (c.numQps * c.chunksPerQp)).map fun k => s.markers (c.tailMarkers + k * 8)).sum
    = ((List.range (c.numQps * c.chunksPerQp)).map fun k => c.start (c.tailMarkers + k * 8)).sum
      + s.adds
  threads : ∀ i, i < c.numValidators →
    s.ThreadOk c (c.distributed.getD i []) (s.threads i)

/-- The entries of `x` are those of `y`, with values that have not decreased. -/
def ScanThread.Grows (x y : ScanThread) : Prop :=
  ∀ (m : Nat) (e : MarkerScanEntry), x.entries[m]? = some e →
    ∃ e', y.entries[m]? = some e' ∧ e'.markerPtr = e.markerPtr ∧ e.lastSeen ≤ e'.lastSeen

namespace ScanConfig

variable {c : ScanConfig} {s t : ScanState} {x y : ScanThread} {rd : ChunkReader}

theorem endScan_unvisited (f : Bool) (x : ScanThread) : x.Unvisited (endScan f x) := by
  unfold endScan
  split
  · exact ⟨rfl, rfl, rfl⟩
  · split <;> exact ⟨rfl, rfl, rfl⟩

theorem endScan_pc (f : Bool) (x : ScanThread) :
    (endScan f x).pc = .scan 0 ∨ f = true ∧ (endScan f x).pc = .drain 0 := by
  unfold endScan
  split
  · exact Or.inl rfl
  · split
    · cases f with
      | false => exact Or.inl rfl
      | true => exact Or.inr ⟨rfl, rfl⟩
    · exact Or.inl rfl

theorem next_unvisited (x : ScanThread) (m : Nat) : x.Unvisited (x.next m) := ⟨rfl, rfl, rfl⟩

/-- What a step of a validator thread can do: load a marker with a new value, go on, or finish a
visit. -/
theorem validatorThreadFn_cases {r : ScanThread × HostValidationError × Nat}
    (h : c.validatorThreadFn rd s x = some r) (hp : s.PcOk x) :
    (∃ m e, x.entries[m]? = some e ∧ s.markers e.markerPtr ≠ e.lastSeen ∧
      (((∃ k, x.pc = .scan k) ∨ ∃ k, x.pc = .reload k) ∧
          r.1 = { x with pc := .visit m (s.markers e.markerPtr) } ∨
        x.pc = .drain m ∧ r.1 = { x with pc := .drainVisit m (s.markers e.markerPtr) })) ∨
    (x.Unvisited r.1 ∧
      ((∃ k, r.1.pc = .scan k) ∨ (s.stopFlag = true ∧ r.1.pc = .drain 0) ∨
        ∃ m, x.pc = .drain m ∧ (r.1.pc = .done ∧ x.entries.length ≤ m ∨
          r.1.pc = .drain (m + 1) ∧ ∃ e, x.entries[m]? = some e ∧
            (s.markers e.markerPtr = e.lastSeen ∨ s.markers e.markerPtr = 0)))) ∨
    ∃ m v e, x.entries[m]? = some e ∧ e.lastSeen < v ∧ x.Visited c r.1 m v e ∧
      (x.pc = .visit m v ∧ r.1.pc = .reload m ∨
        x.pc = .drainVisit m v ∧ r.1.pc = .drain (m + 1)) := by
  unfold validatorThreadFn at h
  cases hpc : x.pc with
  | scan m =>
    simp only [hpc] at h
    cases he : x.entries[m]? with
    | none =>
      simp only [he, Option.some.injEq] at h
      subst h
      refine Or.inr (Or.inl ⟨endScan_unvisited _ _, ?_⟩)
      rcases endScan_pc s.stopFlag x with h0 | h0
      · exact Or.inl ⟨0, h0⟩
      · exact Or.inr (Or.inl h0)
    | some e =>
      simp only [he] at h
      split at h
      next hne =>
        obtain rfl := Option.some.inj h
        exact Or.inl ⟨m, e, he, hne.1, Or.inl ⟨Or.inl ⟨m, rfl⟩, rfl⟩⟩
      next =>
        obtain rfl := Option.some.inj h
        exact Or.inr (Or.inl ⟨next_unvisited x m, Or.inl ⟨m + 1, rfl⟩⟩)
  | visit m v =>
    simp only [hpc] at h
    simp only [ScanState.PcOk, hpc] at hp
    obtain ⟨e, he, -, hlt, -⟩ := hp
    obtain ⟨hok, hv⟩ := visitMarker_visited (c := c) (r := rd) (s := s) (x := x) (m := m) hlt
    simp only [he, hok, if_true, Option.some.injEq] at h
    subst h
    exact Or.inr (Or.inr ⟨m, v, e, he, hlt, ⟨hv.1, hv.2, hv.3, hv.4, hv.5⟩, Or.inl ⟨rfl, rfl⟩⟩)
  | reload m =>
    simp only [hpc] at h
    cases he : x.entries[m]? with
    | none => simp [he] at h
    | some e =>
      simp only [he] at h
      split at h
      next hne =>
        obtain rfl := Option.some.inj h
        exact Or.inl ⟨m, e, he, hne.2.1, Or.inl ⟨Or.inr ⟨m, rfl⟩, rfl⟩⟩
      next =>
        obtain rfl := Option.some.inj h
        exact Or.inr (Or.inl ⟨next_unvisited x m, Or.inl ⟨m + 1, rfl⟩⟩)
  | drain m =>
    simp only [hpc] at h
    cases he : x.entries[m]? with
    | none =>
      simp only [he, Option.some.injEq] at h
      subst h
      exact Or.inr (Or.inl ⟨⟨rfl, rfl, rfl⟩,
        Or.inr (Or.inr ⟨m, rfl, Or.inl ⟨rfl, List.getElem?_eq_none_iff.mp he⟩⟩)⟩)
    | some e =>
      simp only [he] at h
      split at h
      next heq =>
        obtain rfl := Option.some.inj h
        exact Or.inr (Or.inl ⟨⟨rfl, rfl, rfl⟩, Or.inr (Or.inr ⟨m, rfl, Or.inr ⟨rfl, e, he, heq⟩⟩)⟩)
      next hne =>
        obtain rfl := Option.some.inj h
        exact Or.inl ⟨m, e, he, fun h => hne (Or.inl h), Or.inr ⟨rfl, rfl⟩⟩
  | drainVisit m v =>
    simp only [hpc] at h
    simp only [ScanState.PcOk, hpc] at hp
    obtain ⟨e, he, -, hlt, -⟩ := hp
    obtain ⟨-, hv⟩ := visitMarker_visited (c := c) (r := rd) (s := s) (x := x) (m := m) hlt
    simp only [he, Option.some.injEq] at h
    subst h
    exact Or.inr (Or.inr ⟨m, v, e, he, hlt, ⟨hv.1, hv.2, hv.3, hv.4, hv.5⟩, Or.inr ⟨rfl, rfl⟩⟩)
  | done => simp [hpc] at h

end ScanConfig

theorem sum_map_set {α : Type} (f : α → Nat) {l : List α} {m : Nat} {a b : α}
    (h : l[m]? = some a) : ((l.set m b).map f).sum + f a = (l.map f).sum + f b := by
  induction l generalizing m with
  | nil => simp at h
  | cons d l ih =>
    cases m with
    | zero =>
      simp only [List.getElem?_cons_zero, Option.some.injEq] at h
      simp only [List.set_cons_zero, List.map_cons, List.sum_cons, h]
      omega
    | succ m =>
      have := ih (m := m) (by simpa using h)
      simp only [List.set_cons_succ, List.map_cons, List.sum_cons]
      omega

theorem map_set_of_eq {α β : Type} (f : α → β) {l : List α} {m : Nat} {a b : α}
    (h : l[m]? = some a) (hb : f b = f a) : (l.set m b).map f = l.map f := by
  rw [List.map_set, hb]
  apply List.ext_getElem? fun k => ?_
  rw [List.getElem?_set]
  split
  next hk =>
    subst hk
    obtain ⟨hl, he⟩ := List.getElem?_eq_some_iff.mp h
    simp [hl, he]
  next => rfl

namespace ScanThread

variable {c : ScanConfig} {x y : ScanThread} {m v : Nat} {e : MarkerScanEntry}

theorem Unvisited.grows (h : x.Unvisited y) : x.Grows y := by
  intro m e he
  exact ⟨e, by rw [h.entries, he], rfl, le_refl _⟩

theorem Visited.grows (h : x.Visited c y m v e) (he : x.entries[m]? = some e)
    (hv : e.lastSeen < v) : x.Grows y := by
  intro k e' he'
  rw [h.entries, List.getElem?_set]
  split
  next hk =>
    subst hk
    obtain rfl := Option.some.inj (he.symm.trans he')
    have hl := (List.getElem?_eq_some_iff.mp he).1
    exact ⟨{ e with lastSeen := v }, by rw [if_pos hl], rfl, Nat.le_of_lt hv⟩
  next => exact ⟨e', he', rfl, le_refl _⟩

theorem Unvisited.accounted (h : x.Unvisited y) (ha : x.Accounted c) : y.Accounted c := by
  have hs : y.seenSum = x.seenSum := by rw [seenSum, seenSum, h.entries]
  refine ⟨?_, ?_, ?_⟩
  · rw [h.hit, h.stats, hs]
    exact ha.seen
  · rw [h.hit, h.stats]
    exact ha.bytes
  · rw [h.hit, h.stats]
    exact ha.work

theorem Visited.accounted (h : x.Visited c y m v e) (he : x.entries[m]? = some e)
    (hv : e.lastSeen < v) (ha : x.Accounted c) : y.Accounted c := by
  have hs : y.seenSum + e.lastSeen = x.seenSum + v := by
    rw [seenSum, h.entries]
    exact sum_map_set (·.lastSeen) he
  have h1 := ha.seen
  have h2 := h.skipped
  have h3 := h.hit
  refine ⟨by omega, ?_, ?_⟩
  · rw [h.hit, h.bytes, ha.bytes, Nat.succ_mul]
  · rw [h.hit, h.work, ha.work, Nat.succ_mul]

end ScanThread

namespace ScanState

variable {c : ScanConfig} {s t : ScanState} {x y : ScanThread} {m v : Nat} {e : MarkerScanEntry}
  {es : List MarkerScanEntry}

theorem Loaded.mono (hm : ∀ a, s.markers a ≤ t.markers a) (hh : ∀ a, s.held a ⊆ t.held a)
    (h : s.Loaded x m v) : t.Loaded x m v := by
  obtain ⟨e, he, hv, hl, hle⟩ := h
  exact ⟨e, he, hh _ hv, hl, hle.trans (hm _)⟩

theorem PcOk.mono (hm : ∀ a, s.markers a ≤ t.markers a) (hh : ∀ a, s.held a ⊆ t.held a)
    (h : s.PcOk x) : t.PcOk x := by
  unfold PcOk at h ⊢
  cases hp : x.pc with
  | visit m v =>
    rw [hp] at h
    exact Loaded.mono hm hh h
  | drainVisit m v =>
    rw [hp] at h
    exact Loaded.mono hm hh h
  | scan m => trivial
  | reload m => trivial
  | drain m => trivial
  | done => trivial

theorem ThreadOk.mono (hm : ∀ a, s.markers a ≤ t.markers a) (hh : ∀ a, s.held a ⊆ t.held a)
    (h : s.ThreadOk c es x) : t.ThreadOk c es x where
  pointers := h.pointers
  since := fun e he => (h.since e he).imp_right (fun hs => hh _ hs)
  le := fun e he => (h.le e he).trans (hm _)
  accounted := h.accounted
  pc := h.pc.mono hm hh

theorem ThreadOk.of_eq (h : s.ThreadOk c es x) (hm : t.markers = s.markers)
    (hh : t.held = s.held) : t.ThreadOk c es x :=
  h.mono (fun a => by rw [hm]) (fun a => by rw [hh]; exact List.Subset.refl _)

/-- A load of a marker that has moved. -/
theorem ThreadOk.loaded (h : s.ThreadOk c es x) (hh : ∀ a, s.markers a ∈ s.held a)
    (he : x.entries[m]? = some e) (hne : s.markers e.markerPtr ≠ e.lastSeen) :
    s.Loaded x m (s.markers e.markerPtr) := by
  have hle := h.le e (List.mem_of_getElem? he)
  exact ⟨e, he, hh _, by omega, le_refl _⟩

theorem ThreadOk.unvisited (h : s.ThreadOk c es x) (hu : x.Unvisited y) (hp : s.PcOk y) :
    s.ThreadOk c es y where
  pointers := by rw [hu.entries, h.pointers]
  since := by rw [hu.entries]; exact h.since
  le := by rw [hu.entries]; exact h.le
  accounted := hu.accounted h.accounted
  pc := hp

theorem ThreadOk.visited (h : s.ThreadOk c es x) (hl : s.Loaded x m v)
    (he : x.entries[m]? = some e) (hv : x.Visited c y m v e) (hp : s.PcOk y) :
    s.ThreadOk c es y := by
  obtain ⟨e', he', hheld, hlt, hle⟩ := hl
  obtain rfl := Option.some.inj (he'.symm.trans he)
  have hmem : ∀ d ∈ y.entries, d = { e' with lastSeen := v } ∨ d ∈ x.entries := by
    intro d hd
    rw [hv.entries] at hd
    exact (List.mem_or_eq_of_mem_set hd).symm
  refine ⟨?_, ?_, ?_, hv.accounted he hlt h.accounted, hp⟩
  · rw [hv.entries]
    exact (map_set_of_eq (b := { e' with lastSeen := v }) (·.markerPtr) he rfl).trans h.pointers
  · intro d hd
    rcases hmem d hd with rfl | hd
    · exact Or.inr hheld
    · exact h.since d hd
  · intro d hd
    rcases hmem d hd with rfl | hd
    · exact hle
    · exact h.le d hd

/-- One step of a validator thread keeps its invariant and its progress. -/
theorem ThreadOk.step {rd : ChunkReader} {r : ScanThread × HostValidationError × Nat}
    (h : s.ThreadOk c es x) (hh : ∀ a, s.markers a ∈ s.held a)
    (hr : c.validatorThreadFn rd s x = some r) : s.ThreadOk c es r.1 ∧ x.Grows r.1 := by
  rcases ScanConfig.validatorThreadFn_cases hr h.pc with
    ⟨m, e, he, hne, hy⟩ | ⟨hu, hpc⟩ | ⟨m, v, e, he, hlt, hv, hpc⟩
  · have hl := h.loaded hh he hne
    have hu : ∀ pc, x.Unvisited { x with pc := pc } := fun pc => ⟨rfl, rfl, rfl⟩
    rcases hy with ⟨-, hy⟩ | ⟨-, hy⟩
    · rw [hy]
      exact ⟨h.unvisited (hu _) hl, (hu _).grows⟩
    · rw [hy]
      exact ⟨h.unvisited (hu _) hl, (hu _).grows⟩
  · refine ⟨h.unvisited hu ?_, hu.grows⟩
    rcases hpc with ⟨k, hk⟩ | ⟨-, hk⟩ | ⟨k, -, ⟨hk, -⟩ | ⟨hk, -⟩⟩ <;>
      simp only [PcOk, hk]
  · have hl : s.Loaded x m v := by
      have hp := h.pc
      rcases hpc with ⟨hx, -⟩ | ⟨hx, -⟩ <;> simpa only [PcOk, hx] using hp
    refine ⟨h.visited hl he hv ?_, hv.grows he hlt⟩
    rcases hpc with ⟨-, hk⟩ | ⟨-, hk⟩ <;> simp only [PcOk, hk]

end ScanState

theorem sum_range_update (f : Nat → Nat) {i n : Nat} (b : Nat) (h : i < n) :
    ((List.range n).map (Function.update f i (f i + b))).sum = ((List.range n).map f).sum + b := by
  induction n with
  | zero => omega
  | succ n ih =>
    rw [List.range_succ, List.map_append, List.map_append, List.sum_append, List.sum_append]
    simp only [List.map_cons, List.map_nil, List.sum_cons, List.sum_nil]
    by_cases hi : i = n
    · subst hi
      have hc : (List.range i).map (Function.update f i (f i + b)) = (List.range i).map f := by
        apply List.map_congr_left
        intro k hk
        have := List.mem_range.mp hk
        exact Function.update_of_ne (by omega) _ _
      rw [hc, Function.update_self]
      omega
    · rw [ih (by omega), Function.update_of_ne (by omega)]
      omega

namespace ScanConfig

variable {c : ScanConfig} {s t : ScanState} {a : ScanAction}

/-- What an action can do. -/
theorem act_cases (h : c.act a s = some t) :
    (∃ i r rd, i < c.numValidators ∧ c.validatorThreadFn rd s (s.threads i) = some r ∧
      t = { s with threads := Function.update s.threads i r.1, error := r.2.1,
                   errorsFound := r.2.2 }) ∨
    (∃ idx b, a = .advance idx b ∧ idx < c.numQps * c.chunksPerQp ∧
      t = { s with
        markers := Function.update s.markers (c.tailMarkers + idx * 8)
          (s.markers (c.tailMarkers + idx * 8) + b)
        held := Function.update s.held (c.tailMarkers + idx * 8)
          ((s.markers (c.tailMarkers + idx * 8) + b) :: s.held (c.tailMarkers + idx * 8))
        adds := s.adds + b }) ∨
    t = { s with stopFlag := true } := by
  cases a with
  | thread i rd =>
    simp only [act] at h
    split at h
    next hi =>
      obtain ⟨r, hr, rfl⟩ := Option.map_eq_some_iff.mp h
      exact Or.inl ⟨i, r, rd, hi, hr, rfl⟩
    next => cases h
  | advance idx b =>
    simp only [act] at h
    split at h
    next hi =>
      obtain rfl := Option.some.inj h
      exact Or.inr (Or.inl ⟨idx, b, rfl, hi.1, rfl⟩)
    next => cases h
  | stop =>
    obtain rfl := Option.some.inj h
    exact Or.inr (Or.inr rfl)

theorem distributed_perm (c : ScanConfig) : c.distributed.flatten.Perm
    ((logicalOrder c.numQps c.chunksPerQp).map
      (scanEntry c.tailMarkers c.recvSlots c.chunksPerQp c.opsPerChunk c.payloadSize)) :=
  distributeMarkers_perm (getNumValidators_pos _ _ _ _) _ _ _ _ _ _ c.markers_lt

theorem distributed_lastSeen {i : Nat} {e : MarkerScanEntry} (he : e ∈ c.distributed.getD i []) :
    e.lastSeen = 0 := by
  have hm : e ∈ c.distributed.flatten := by
    rw [List.getD_eq_getElem?_getD] at he
    cases hg : c.distributed[i]? with
    | none => simp [hg] at he
    | some es =>
      simp only [hg, Option.getD_some] at he
      exact List.mem_flatten.mpr ⟨es, List.mem_of_getElem? hg, he⟩
  obtain ⟨k, -, rfl⟩ := List.mem_map.mp (c.distributed_perm.mem_iff.mp hm)
  rfl

theorem init_threads (c : ScanConfig) (i : Nat) :
    c.init.threads i = ⟨c.distributed.getD i [], 0, false, 0, .scan 0⟩ := by
  simp only [ScanConfig.init]

/-- A thread with entries that have seen nothing. -/
theorem threadOk_init {u : ScanState} {es : List MarkerScanEntry}
    (hz : ∀ e ∈ es, e.lastSeen = 0) : u.ThreadOk c es ⟨es, 0, false, 0, .scan 0⟩ := by
  have hs : (es.map (·.lastSeen)).sum = 0 := by
    apply List.sum_eq_zero
    intro n hn
    obtain ⟨e, he, rfl⟩ := List.mem_map.mp hn
    exact hz e he
  refine ⟨rfl, fun e he => Or.inl (hz e he), fun e he => ?_, ⟨?_, ?_, ?_⟩, trivial⟩
  · rw [hz e he]
    exact Nat.zero_le _
  · exact hs.symm
  · exact (Nat.zero_mul _).symm
  · exact (Nat.zero_mul _).symm

theorem scanInv_init : ScanInv c c.init where
  held := fun a => List.mem_singleton_self _
  total := (Nat.add_zero _).symm
  threads := by
    intro i hi
    rw [init_threads]
    apply threadOk_init
    intro e he
    exact distributed_lastSeen he

/-- A step keeps the invariant, and no last seen value decreases in it. -/
theorem scanInv_step (h : ScanInv c s) (ha : c.act a s = some t) :
    ScanInv c t ∧ ∀ i, i < c.numValidators → (s.threads i).Grows (t.threads i) := by
  have hg : ∀ x : ScanThread, x.Grows x := fun x m e he => ⟨e, he, rfl, le_refl _⟩
  rcases act_cases ha with ⟨j, r, rd, hj, hr, rfl⟩ | ⟨idx, b, -, hidx, rfl⟩ | rfl
  · obtain ⟨hok, hgr⟩ := (h.threads j hj).step h.held hr
    refine ⟨⟨h.held, h.total, fun i hi => ?_⟩, fun i hi => ?_⟩
    · by_cases hij : i = j
      · subst hij
        simp only [Function.update_self]
        exact hok.of_eq rfl rfl
      · simp only [Function.update_of_ne hij]
        exact (h.threads i hi).of_eq rfl rfl
    · by_cases hij : i = j
      · subst hij
        simpa only [Function.update_self] using hgr
      · simpa only [Function.update_of_ne hij] using hg _
  · refine ⟨⟨fun a => ?_, ?_, fun i hi => ?_⟩, fun i _ => hg _⟩
    · by_cases ha : a = c.tailMarkers + idx * 8
      · subst ha
        simp only [Function.update_self]
        exact List.mem_cons_self
      · simp only [Function.update_of_ne ha]
        exact h.held a
    · have hinj : Function.Injective fun k => c.tailMarkers + k * 8 := by
        intro k l hkl
        simp only at hkl
        omega
      have := sum_range_update (fun k => s.markers (c.tailMarkers + k * 8)) b hidx
      rw [← Function.update_comp_eq_of_injective' s.markers hinj idx] at this
      have ht := h.total
      simp only
      omega
    · apply (h.threads i hi).mono
      · intro a
        by_cases ha : a = c.tailMarkers + idx * 8
        · subst ha
          simp only [Function.update_self]
          omega
        · simp only [Function.update_of_ne ha, le_refl]
      · intro a
        by_cases ha : a = c.tailMarkers + idx * 8
        · subst ha
          simp only [Function.update_self]
          exact List.subset_cons_self _ _
        · simp only [Function.update_of_ne ha, List.Subset.refl]
  · refine ⟨⟨h.held, h.total, fun i hi => ?_⟩, fun i _ => hg _⟩
    exact (h.threads i hi).of_eq rfl rfl

theorem Reachable.inv (h : c.Reachable s) : ScanInv c s := by
  apply Transition.Reachable.invariant (P := fun s => ScanInv c s) ?_ ?_ h
  · intro s hs
    rw [hs]
    exact scanInv_init
  · intro s t hs ht
    obtain ⟨a, ha⟩ := ht
    exact (scanInv_step hs ha).1

end ScanConfig

/-- The first `m` entries have been brought up to date. -/
def ScanState.Drained (s : ScanState) (x : ScanThread) (m : Nat) : Prop :=
  ∀ (j : Nat) (e : MarkerScanEntry), j < m → x.entries[j]? = some e →
    e.lastSeen = s.markers e.markerPtr

def ScanState.DrainOk (s : ScanState) (x : ScanThread) : Prop := match x.pc with
  | .drain m => s.stopFlag = true ∧ s.Drained x m
  | .drainVisit m v => s.stopFlag = true ∧ s.Drained x m ∧
    ∀ e : MarkerScanEntry, x.entries[m]? = some e → v = s.markers e.markerPtr
  | .done => s.stopFlag = true ∧ s.Drained x x.entries.length
  | _ => True

namespace ScanState

variable {c : ScanConfig} {s t : ScanState} {x y : ScanThread} {es : List MarkerScanEntry}

theorem DrainOk.of_running (h : s.DrainOk x) (hs : s.stopFlag = false) : t.DrainOk x := by
  unfold DrainOk at h ⊢
  cases hp : x.pc with
  | drain m => simp [hp, hs] at h
  | drainVisit m v => simp [hp, hs] at h
  | done => simp [hp, hs] at h
  | scan m => trivial
  | visit m v => trivial
  | reload m => trivial

theorem DrainOk.of_eq (h : s.DrainOk x) (hm : t.markers = s.markers)
    (hs : s.stopFlag = true → t.stopFlag = true) : t.DrainOk x := by
  unfold DrainOk Drained at *
  rw [hm]
  cases hp : x.pc with
  | drain m =>
    rw [hp] at h
    exact h.imp_left hs
  | drainVisit m v =>
    rw [hp] at h
    exact h.imp_left hs
  | done =>
    rw [hp] at h
    exact h.imp_left hs
  | scan m => trivial
  | visit m v => trivial
  | reload m => trivial

theorem DrainOk.step {rd : ChunkReader} {r : ScanThread × HostValidationError × Nat}
    (h : s.DrainOk x) (hok : s.ThreadOk c es x) (hr : c.validatorThreadFn rd s x = some r) :
    s.DrainOk r.1 := by
  rcases ScanConfig.validatorThreadFn_cases hr hok.pc with
    ⟨m, e, he, hne, hy⟩ | ⟨hu, hpc⟩ | ⟨m, v, e, he, hlt, hv, hpc⟩
  · rcases hy with ⟨-, hy⟩ | ⟨hx, hy⟩
    · rw [hy]
      trivial
    · rw [hy]
      simp only [DrainOk, hx] at h ⊢
      refine ⟨h.1, h.2, fun e' he' => ?_⟩
      rw [Option.some.inj (he.symm.trans he')]
  · rcases hpc with ⟨k, hk⟩ | ⟨hs, hk⟩ | ⟨m, hx, hend⟩
    · simp only [DrainOk, hk]
    · simp only [DrainOk, hk]
      exact ⟨hs, fun j e hj _ => by omega⟩
    · simp only [DrainOk, hx] at h
      rcases hend with ⟨hk, hlen⟩ | ⟨hk, e, he, hm⟩
      · simp only [DrainOk, hk, Drained, hu.entries]
        exact ⟨h.1, fun j e hj he => h.2 j e (by omega) he⟩
      · simp only [DrainOk, hk, Drained, hu.entries]
        refine ⟨h.1, fun j e' hj he' => ?_⟩
        rcases Nat.lt_succ_iff_lt_or_eq.mp hj with hj | rfl
        · exact h.2 j e' hj he'
        · obtain rfl := Option.some.inj (he.symm.trans he')
          have hle := hok.le e (List.mem_of_getElem? he)
          rcases hm with hm | hm <;> omega
  · rcases hpc with ⟨-, hk⟩ | ⟨hx, hk⟩
    · simp only [DrainOk, hk]
    · simp only [DrainOk, hx] at h
      simp only [DrainOk, hk, Drained, hv.entries]
      refine ⟨h.1, fun j e' hj he' => ?_⟩
      rw [List.getElem?_set] at he'
      split at he'
      next hmj =>
        subst hmj
        have hl := (List.getElem?_eq_some_iff.mp he).1
        rw [if_pos hl] at he'
        obtain rfl := Option.some.inj he'
        exact h.2.2 e he
      next hmj => exact h.2.1 j e' (by omega) he'

end ScanState

namespace ScanConfig

variable {c : ScanConfig} {s t : ScanState}

theorem QuiescentReachable.inv (h : c.QuiescentReachable s) :
    ScanInv c s ∧ ∀ i, i < c.numValidators → s.DrainOk (s.threads i) := by
  apply Transition.Reachable.invariant
    (P := fun s => ScanInv c s ∧ ∀ i, i < c.numValidators → s.DrainOk (s.threads i)) ?_ ?_ h
  · intro s hs
    rw [hs]
    exact ⟨scanInv_init, fun i hi => trivial⟩
  · intro s t hs ht
    obtain ⟨a, ha⟩ := ht
    obtain ⟨hq, ha⟩ := Transition.guarded_eq_some.mp ha
    refine ⟨(scanInv_step hs.1 ha).1, fun i hi => ?_⟩
    rcases act_cases ha with ⟨j, r, rd, hj, hr, rfl⟩ | ⟨idx, b, rfl, hidx, rfl⟩ | rfl
    · have hstep := (hs.2 j hj).step (hs.1.threads j hj) hr
      by_cases hij : i = j
      · subst hij
        simp only [Function.update_self]
        exact hstep.of_eq rfl id
      · simp only [Function.update_of_ne hij]
        exact (hs.2 i hi).of_eq rfl id
    · have hf : s.stopFlag = false := by simpa [quiescent] using hq
      exact (hs.2 i hi).of_running hf
    · exact (hs.2 i hi).of_eq rfl (fun _ => rfl)

/-- After the drain every entry holds the value of its marker. -/
theorem QuiescentReachable.lastSeen_eq (h : c.QuiescentReachable s) {i : Nat}
    (hi : i < c.numValidators) (hd : (s.threads i).pc = .done) {e : MarkerScanEntry}
    (he : e ∈ (s.threads i).entries) : e.lastSeen = s.markers e.markerPtr := by
  have hok := h.inv.2 i hi
  simp only [ScanState.DrainOk, hd] at hok
  obtain ⟨j, hj⟩ := List.mem_iff_getElem?.mp he
  exact hok.2 j e (List.getElem?_eq_some_iff.mp hj).1 hj

end ScanConfig

theorem logicalOrder_perm {n c : Nat} (h : n * c < 2 ^ 32) :
    (logicalOrder n c).Perm (List.range (n * c)) := by
  have hsub : List.range (n * c) ⊆ logicalOrder n c := by
    intro k hk
    have hk := List.mem_range.mp hk
    have hc : 0 < c := Nat.pos_of_ne_zero (by rintro rfl; simp at hk)
    refine (mem_logicalOrder h).mpr ⟨k / c, k % c, ?_, Nat.mod_lt _ hc, ?_⟩
    · exact Nat.div_lt_of_lt_mul (by rwa [Nat.mul_comm])
    · rw [Nat.mul_comm]
      exact (Nat.div_add_mod k c).symm
  apply List.Perm.symm
  apply (List.subperm_of_subset List.nodup_range hsub).perm_of_length_le
  rw [logicalOrder_length, List.length_range]

theorem assignSlices_length {α : Type} (ns : List Nat) (l : List α) :
    (assignSlices ns l).length = ns.length := by
  induction ns generalizing l with
  | nil => rfl
  | cons n ns ih => rw [assignSlices, List.length_cons, List.length_cons, ih]

theorem ThreadStats.sum_counts (l : List ThreadStats) :
    l.sum.markersHit + l.sum.skippedSteps =
      (l.map fun x => x.markersHit + x.skippedSteps).sum := by
  induction l with
  | nil => rfl
  | cons x l ih =>
    rw [List.sum_cons, List.map_cons, List.sum_cons, ← ih]
    show x.markersHit + l.sum.markersHit + (x.skippedSteps + l.sum.skippedSteps) = _
    omega

namespace ScanConfig

variable {c : ScanConfig} {s : ScanState}

theorem distributed_length (c : ScanConfig) : c.distributed.length = c.numValidators := by
  rw [distributed, distributeMarkers, List.length_map, assignSlices_length, List.length_map,
    List.length_range]

/-- A sum over the entries of all validators is one over the markers. -/
theorem sum_distributed (c : ScanConfig) (f : Nat → Nat) :
    ((List.range c.numValidators).map fun i =>
      ((c.distributed.getD i []).map fun e => f e.markerPtr).sum).sum =
    ((List.range (c.numQps * c.chunksPerQp)).map fun k => f (c.tailMarkers + k * 8)).sum := by
  have hl : ((List.range c.numValidators).map fun i => c.distributed.getD i []) = c.distributed := by
    apply List.ext_getElem
    · rw [List.length_map, List.length_range, distributed_length]
    · intro i hi hi'
      simp [List.getD_eq_getElem?_getD, hi']
  calc
    _ = (c.distributed.map fun es => (es.map fun e => f e.markerPtr).sum).sum := by
      conv => rhs; rw [← hl, List.map_map]
      rfl
    _ = (c.distributed.flatten.map fun e => f e.markerPtr).sum := by
      rw [List.map_flatten, List.sum_flatten, List.map_map]
      rfl
    _ = ((logicalOrder c.numQps c.chunksPerQp).map fun k => f (c.tailMarkers + k * 8)).sum := by
      rw [(c.distributed_perm.map _).sum_eq, List.map_map]
      rfl
    _ = _ := ((logicalOrder_perm c.markers_lt).map _).sum_eq

/-- When all threads have drained their markers, the reported steps are the values of the
markers. -/
theorem QuiescentReachable.report_eq (h : c.QuiescentReachable s)
    (hd : ∀ i, i < c.numValidators → (s.threads i).pc = .done) :
    (c.report s).markersHit + (c.report s).skippedSteps =
      ((List.range (c.numQps * c.chunksPerQp)).map fun k =>
        c.start (c.tailMarkers + k * 8)).sum + s.adds := by
  rw [← h.inv.1.total, ← c.sum_distributed, report, ThreadStats.sum_counts, List.map_map]
  refine congrArg List.sum (List.map_congr_left ?_)
  intro i hi
  have hi := List.mem_range.mp hi
  have hok := h.inv.1.threads i hi
  have hs : (s.threads i).entries.map (·.lastSeen) =
      ((s.threads i).entries.map (·.markerPtr)).map s.markers := by
    rw [List.map_map]
    apply List.map_congr_left
    intro e he
    exact h.lastSeen_eq hi (hd i hi) he
  rw [Function.comp_apply, hok.accounted.seen, ScanThread.seenSum, hs, hok.pointers, List.map_map]
  rfl

/-- Two fetch-and-add return words that hold one, scanned by one validator. -/
def twoReturnWords : ScanConfig where
  mode := .read
  payloadSize := 1
  opsPerChunk := 1
  numQps := 1
  chunksPerQp := 2
  tailMarkers := 64
  recvSlots := 128
  availableCores := 2
  start := fun _ => 1
  markers_lt := by decide
  start_le := fun _ => Nat.le_refl 1
  write_zero := by intro h; cases h

end ScanConfig

end Perftest
