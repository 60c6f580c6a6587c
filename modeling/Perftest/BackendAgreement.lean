import Perftest.CudaBlock

namespace Perftest

open CMachine ByteMemory

/-- What holds between the accesses of the warps: the sum over those that have added, and of the
first offset and its byte that each comes from some warp. -/
structure BlockInv (warps : Nat → WarpErrors) (s : BlockErrors) : Prop where
  total : s.totalErrors = ∑ w ∈ (Finset.range blockWarps).filter
    (fun w => s.pcs w ≠ .add ∧ (warps w).hasErrors = true), (warps w).errorCount
  offset : s.firstErrorOffset = UINT64_MAX ∨ ∃ w < blockWarps, (warps w).hasErrors = true ∧
    s.firstErrorOffset = (warps w).firstErrorOffset
  actual : s.firstErrorOffset ≠ UINT64_MAX → (∃ w < blockWarps, s.pcs w = .storeActual) ∨
    ∃ w < blockWarps, (warps w).hasErrors = true ∧
      s.firstErrorActual = (warps w).firstErrorActual
  busy : ∀ w, s.pcs w = .load ∨ s.pcs w = .storeOffset ∨ s.pcs w = .storeActual →
    (warps w).hasErrors = true
  stored : ∀ w, s.pcs w = .storeActual ∨ (s.pcs w = .done ∧ (warps w).hasErrors = true) →
    s.firstErrorOffset ≠ UINT64_MAX

namespace BlockInv

variable {warps : Nat → WarpErrors} {s t : BlockErrors} {w : Nat}

theorem start (a : UInt8) : BlockInv warps (.start a) where
  total := by simp [BlockErrors.start]
  offset := Or.inl rfl
  actual h := absurd rfl h
  busy _ h := by simp [BlockErrors.start] at h
  stored _ h := by simp [BlockErrors.start] at h

theorem filter_of_ne_add {p : WarpPc} (hw : s.pcs w ≠ .add) (hp : p ≠ .add) :
    (Finset.range blockWarps).filter
        (fun v => Function.update s.pcs w p v ≠ .add ∧ (warps v).hasErrors = true) =
      (Finset.range blockWarps).filter
        (fun v => s.pcs v ≠ .add ∧ (warps v).hasErrors = true) := by
  refine Finset.filter_congr fun v _ => ?_
  by_cases hv : v = w
  · subst hv
    simp [hw, hp]
  · simp [hv]

theorem add (h : BlockInv warps s) (hlt : w < blockWarps) (hpc : s.pcs w = .add)
    (he : (warps w).hasErrors = true) :
    BlockInv warps { s with
      totalErrors := s.totalErrors + (warps w).errorCount
      pcs := Function.update s.pcs w .load } := by
  refine ⟨?_, h.offset, fun ho => ?_, fun v hv => ?_, fun v hv => ?_⟩
  · have hset : (Finset.range blockWarps).filter
        (fun v => Function.update s.pcs w .load v ≠ .add ∧ (warps v).hasErrors = true) =
        insert w ((Finset.range blockWarps).filter
          (fun v => s.pcs v ≠ .add ∧ (warps v).hasErrors = true)) := by
      ext v
      by_cases hv : v = w
      · subst hv
        simp [hlt, he]
      · simp [hv]
    dsimp only
    rw [hset, Finset.sum_insert (by simp [hpc]), ← h.total, add_comm]
  · rcases h.actual ho with ⟨v, hv, hp⟩ | hr
    · refine Or.inl ⟨v, hv, ?_⟩
      have hne : v ≠ w := by
        intro heq
        rw [heq, hpc] at hp
        cases hp
      exact (Function.update_of_ne hne _ _).trans hp
    · exact Or.inr hr
  · by_cases heq : v = w
    · rw [heq]
      exact he
    · simp only [Function.update_of_ne heq] at hv
      exact h.busy v hv
  · by_cases heq : v = w
    · subst heq
      simp at hv
    · simp only [Function.update_of_ne heq] at hv
      exact h.stored v hv

/-- A warp that leaves the variables alone. -/
theorem move (h : BlockInv warps s) {p : WarpPc} (hadd : s.pcs w ≠ .add ∨
      (warps w).hasErrors = false) (hpa : p ≠ .add) (hsa : s.pcs w ≠ .storeActual)
    (hb : p = .load ∨ p = .storeOffset ∨ p = .storeActual → (warps w).hasErrors = true)
    (hst : p = .storeActual ∨ (p = .done ∧ (warps w).hasErrors = true) →
      s.firstErrorOffset ≠ UINT64_MAX) :
    BlockInv warps { s with pcs := Function.update s.pcs w p } := by
  refine ⟨?_, h.offset, fun ho => ?_, fun v hv => ?_, fun v hv => ?_⟩
  · rw [h.total]
    refine congrArg (fun S => ∑ v ∈ S, (warps v).errorCount) (Finset.filter_congr fun v _ => ?_)
    by_cases heq : v = w
    · subst heq
      rcases hadd with hadd | hadd
      · simp [hadd, hpa]
      · simp [hadd]
    · simp [heq]
  · rcases h.actual ho with ⟨v, hv, hp⟩ | hr
    · refine Or.inl ⟨v, hv, ?_⟩
      have hne : v ≠ w := by
        intro heq
        rw [heq] at hp
        exact hsa hp
      exact (Function.update_of_ne hne _ _).trans hp
    · exact Or.inr hr
  · by_cases heq : v = w
    · subst heq
      simp only [Function.update_self] at hv
      exact hb hv
    · simp only [Function.update_of_ne heq] at hv
      exact h.busy v hv
  · by_cases heq : v = w
    · subst heq
      simp only [Function.update_self] at hv
      exact hst hv
    · simp only [Function.update_of_ne heq] at hv
      exact h.stored v hv

theorem storeOffset (h : BlockInv warps s) (hlt : w < blockWarps) (hpc : s.pcs w = .storeOffset)
    (hm : (warps w).firstErrorOffset < UINT64_MAX) :
    BlockInv warps { s with
      firstErrorOffset := (warps w).firstErrorOffset
      pcs := Function.update s.pcs w .storeActual } := by
  have he := h.busy w (Or.inr (Or.inl hpc))
  refine ⟨?_, Or.inr ⟨w, hlt, he, rfl⟩, fun _ => Or.inl ⟨w, hlt, Function.update_self _ _ _⟩,
    fun v hv => ?_, fun v hv => ne_of_lt hm⟩
  · dsimp only
    rw [filter_of_ne_add (by simp [hpc]) (by simp)]
    exact h.total
  · by_cases heq : v = w
    · rw [heq]
      exact he
    · simp only [Function.update_of_ne heq] at hv
      exact h.busy v hv

theorem storeActual (h : BlockInv warps s) (hlt : w < blockWarps)
    (hpc : s.pcs w = .storeActual) :
    BlockInv warps { s with
      firstErrorActual := (warps w).firstErrorActual
      pcs := Function.update s.pcs w .done } := by
  have he := h.busy w (Or.inr (Or.inr hpc))
  refine ⟨?_, h.offset, fun _ => Or.inr ⟨w, hlt, he, rfl⟩, fun v hv => ?_, fun v hv => ?_⟩
  · dsimp only
    rw [filter_of_ne_add (by simp [hpc]) (by simp)]
    exact h.total
  · by_cases heq : v = w
    · rw [heq]
      exact he
    · simp only [Function.update_of_ne heq] at hv
      exact h.busy v hv
  · by_cases heq : v = w
    · exact h.stored w (Or.inl hpc)
    · simp only [Function.update_of_ne heq] at hv
      exact h.stored v hv

theorem step (hm : ∀ w, (warps w).hasErrors = true → (warps w).firstErrorOffset < UINT64_MAX)
    (h : BlockInv warps s) (hs : BlockErrors.act warps w s = some t) : BlockInv warps t := by
  obtain ⟨hlt, hs⟩ := Option.ite_none_right_eq_some.mp hs
  split at hs
  next hpc =>
    split at hs
    next he =>
      rw [← Option.some.inj hs]
      exact h.add hlt hpc he
    next he =>
      rw [← Option.some.inj hs]
      have he : (warps w).hasErrors = false := by simpa using he
      exact h.move (Or.inr he) (by simp) (by simp [hpc]) (by simp) (by simp [he])
  next hpc =>
    rw [← Option.some.inj hs]
    have he := h.busy w (Or.inl hpc)
    refine h.move (Or.inl (by simp [hpc])) ?_ (by simp [hpc]) (fun _ => he) fun hp => ?_
    · split <;> simp
    · split at hp
      · simp at hp
      next hge =>
        have := hm w he
        omega
  next hpc =>
    rw [← Option.some.inj hs]
    exact h.storeOffset hlt hpc (hm w (h.busy w (Or.inr (Or.inl hpc))))
  next hpc =>
    rw [← Option.some.inj hs]
    exact h.storeActual hlt hpc
  next => cases hs

theorem of_reachable
    (hm : ∀ w, (warps w).hasErrors = true → (warps w).firstErrorOffset < UINT64_MAX) {a : UInt8}
    (h : BlockErrors.Reachable warps a s) : BlockInv warps s := by
  refine h.invariant (P := fun s => BlockInv warps s) (fun s hs => ?_) fun s t hp hst => ?_
  · rw [hs]
    exact BlockInv.start a
  · obtain ⟨w, hw⟩ := hst
    exact hp.step hm hw

end BlockInv

section Schedule

variable {warps : Nat → WarpErrors} {a : UInt8} {s : BlockErrors} {w n : Nat}

/-- The accesses that are left to a warp, at most. -/
def WarpPc.left : WarpPc → Nat
  | add => 4
  | load => 3
  | storeOffset => 2
  | storeActual => 1
  | done => 0

variable (warps) in
theorem exists_act (hw : w < blockWarps) (hd : s.pcs w ≠ .done) :
    ∃ t p, BlockErrors.act warps w s = some t ∧ t.pcs = Function.update s.pcs w p ∧
      p.left < (s.pcs w).left := by
  cases hpc : s.pcs w with
  | add =>
    cases he : (warps w).hasErrors with
    | true => exact ⟨_, .load, by simp [BlockErrors.act, hw, hpc, he]; rfl, rfl, by decide⟩
    | false => exact ⟨_, .done, by simp [BlockErrors.act, hw, hpc, he]; rfl, rfl, by decide⟩
  | load =>
    refine ⟨_, _, by simp only [BlockErrors.act, hw, hpc, if_true]; rfl, rfl, ?_⟩
    split <;> decide
  | storeOffset => exact ⟨_, .storeActual, by simp [BlockErrors.act, hw, hpc]; rfl, rfl, by decide⟩
  | storeActual => exact ⟨_, .done, by simp [BlockErrors.act, hw, hpc]; rfl, rfl, by decide⟩
  | done => exact absurd hpc hd

/-- One warp can go on to the barrier alone. -/
theorem exists_done (hw : w < blockWarps) (h : BlockErrors.Reachable warps a s) :
    ∃ t, BlockErrors.Reachable warps a t ∧ t.pcs = Function.update s.pcs w .done := by
  induction hk : (s.pcs w).left using Nat.strong_induction_on generalizing s with
  | _ k ih =>
    by_cases hd : s.pcs w = .done
    · refine ⟨s, h, ?_⟩
      rw [← hd]
      exact (Function.update_eq_self w s.pcs).symm
    · obtain ⟨t, p, ht, hp, hl⟩ := exists_act warps hw hd
      have hpt : t.pcs w = p := by
        rw [hp]
        exact Function.update_self _ _ _
      obtain ⟨u, hu, hpu⟩ := ih p.left (hk ▸ hl) (h.tail ⟨w, ht⟩) (by rw [hpt])
      refine ⟨u, hu, ?_⟩
      rw [hpu, hp, Function.update_idem]

/-- All warps but one go on to the barrier. -/
theorem exists_others_done (h : BlockErrors.Reachable warps a s) (w : Nat)
    (hn : n ≤ blockWarps) :
    ∃ t, BlockErrors.Reachable warps a t ∧ t.pcs w = s.pcs w ∧
      ∀ v < n, v ≠ w → t.pcs v = .done := by
  induction n with
  | zero => exact ⟨s, h, rfl, fun v hv => by omega⟩
  | succ n ih =>
    obtain ⟨t, ht, hw, hd⟩ := ih (by omega)
    by_cases hnw : n = w
    · refine ⟨t, ht, hw, fun v hv hne => hd v (by omega) hne⟩
    · obtain ⟨u, hu, hp⟩ := exists_done (show n < blockWarps by omega) ht
      refine ⟨u, hu, ?_, fun v hv hne => ?_⟩
      · rw [hp, Function.update_of_ne (Ne.symm hnw)]
        exact hw
      · rw [hp]
        by_cases hvn : v = n
        · rw [hvn, Function.update_self]
        · rw [Function.update_of_ne hvn]
          exact hd v (by omega) hne

variable (warps a) in
theorem exists_atBarrier : ∃ s, BlockErrors.Reachable warps a s ∧ s.AtBarrier := by
  obtain ⟨s, hs, -, hd⟩ := exists_others_done
    (show BlockErrors.Reachable warps a (.start a) from .of_init rfl) blockWarps (le_refl _)
  exact ⟨s, hs, fun v hv => hd v hv (by omega)⟩

variable (a) in
/-- The first offset that the block keeps can be that of any warp with errors. -/
theorem exists_lastStore (hw : w < blockWarps) (he : (warps w).hasErrors = true)
    (hm : (warps w).firstErrorOffset < UINT64_MAX) :
    ∃ s, BlockErrors.Reachable warps a s ∧ s.AtBarrier ∧
      s.firstErrorOffset = (warps w).firstErrorOffset := by
  have h0 : BlockErrors.Reachable warps a (.start a) := .of_init rfl
  have h1 := h0.tail ⟨w, show BlockErrors.act warps w (.start a) = some _ by
    simp [BlockErrors.act, BlockErrors.start, hw, he]; rfl⟩
  have h2 := h1.tail ⟨w, show BlockErrors.act warps w _ = some _ by
    simp [BlockErrors.act, hw, hm]; rfl⟩
  obtain ⟨t, ht, hpc, hd⟩ := exists_others_done h2 w (le_refl _)
  simp only [Function.update_self] at hpc
  have h3 := ht.tail ⟨w, show BlockErrors.act warps w t = some _ by
    simp [BlockErrors.act, hw, hpc]; rfl⟩
  have h4 := h3.tail ⟨w, show BlockErrors.act warps w _ = some _ by
    simp [BlockErrors.act, hw]; rfl⟩
  refine ⟨_, h4, fun v hv => ?_, rfl⟩
  by_cases hvw : v = w
  · rw [hvw]
    exact Function.update_self _ _ _
  · simp only [Function.update_of_ne hvw]
    exact hd v hv hvw

end Schedule

section Classification

variable {p n m t : Nat} {mem : Mem} {d : Nat} {expected : UInt8}

theorem classifyValidationMismatch_overwritten (hm : mem (d + m) ≠ expected)
    (hl : LooksOverwritten mem d n m) :
    classifyValidationMismatch m n p expected (mem (d + m)) false
      (fun i => mem (d + (m + 1 + i))) true = .race := by
  unfold classifyValidationMismatch
  rw [if_neg (by simp), if_pos ⟨rfl, hm, hl.2.1, fun i => (hl.2.2 i).symm⟩]

theorem classifyValidationMismatch_not_overwritten (hn : m + 4 < n)
    (hl : ¬ LooksOverwritten mem d n m) :
    classifyValidationMismatch m n p expected (mem (d + m)) false
      (fun i => mem (d + (m + 1 + i))) true = .real := by
  refine classifyValidationMismatch_real_iff.mpr ⟨by simp, fun h => hl ?_⟩
  exact ⟨hn, h.2.2.1, fun i => (h.2.2.2 i).symm⟩

/-- The type of a mismatch at `m` in a quiescent chunk. -/
structure QuiescentType (mem : Mem) (d n m : Nat) (ty : ValidationMismatchType) : Prop where
  race : LooksOverwritten mem d n m → ty = .race
  real : ¬ LooksOverwritten mem d n m → ty = .real

theorem forwardSnapshot_quiescent (hm : mem (d + m) ≠ expected) (actual byte : UInt8) (t : Nat) :
    (forwardSnapshot p n expected (quiescentReader mem d) actual m byte false t).1.offset = m ∧
      (forwardSnapshot p n expected (quiescentReader mem d) actual m byte false t).1.actual = byte ∧
      QuiescentType mem d n m
        (forwardSnapshot p n expected (quiescentReader mem d) actual m byte false t).1.mtype := by
  by_cases h : m + 4 < n
  · simp only [forwardSnapshot, Bool.not_false, h, and_self, if_true]
    exact ⟨trivial, trivial, classifyValidationMismatch_overwritten hm,
      classifyValidationMismatch_not_overwritten h⟩
  · simp only [forwardSnapshot, h, and_false, if_false]
    refine ⟨trivial, trivial, fun hl => absurd hl.1 h, fun _ => ?_⟩
    exact classifyValidationMismatch_real_iff.mpr ⟨by simp, by simp⟩

/-- The host finds the first difference of a quiescent chunk, also with the tail retry. -/
theorem inspectChunk_quiescent (hm : FirstDifference mem d n expected m) :
    ∃ mm, (inspectChunk p n expected (quiescentReader mem d) t).1 = some mm ∧ mm.offset = m ∧
      mm.actual = mem (d + m) ∧ QuiescentType mem d n m mm.mtype := by
  have hf : FirstMismatch (quiescentReader mem d) expected 0 n t m :=
    firstMismatch_quiescent.mpr ⟨Nat.zero_le _, by simpa using hm.1, hm.2.1,
      fun a _ ha => hm.2.2 a ha⟩
  rcases validateChunk_spec (quiescentReader mem d) expected 0 n t with ⟨-, hno⟩ | ⟨i, hv, hi⟩
  · exact absurd hf (hno m)
  have him : i = m := by simpa using hi.unique hf
  subst him
  rw [inspectChunk_eq hv]
  have hsnap := fun ts => forwardSnapshot_quiescent (p := p) (n := n) hm.2.1
    (quiescentReader mem d (t + i) (0 + i)) (mem (d + i)) ts
  rcases tailRetry_spec p n expected (quiescentReader mem d) i
    (quiescentReader mem d (t + i) (0 + i)) (t + i + 1) with ⟨-, -, hno⟩ | ⟨-, j, hr, hj⟩ | ⟨-, hr⟩
  · refine absurd (firstMismatch_quiescent.mpr ⟨le_refl i, ?_, hm.2.1, fun a h1 h2 => ?_⟩) (hno i)
    · have := hm.1
      omega
    · omega
  · have hj0 : j = 0 := by
      by_contra hne
      have hlt : i < i + j := by omega
      exact hm.2.1 ((firstMismatch_quiescent.mp hj).2.2.2 i (le_refl i) hlt)
    subst hj0
    rw [hr]
    exact ⟨_, rfl, hsnap _⟩
  · rw [hr]
    refine ⟨_, rfl, ?_⟩
    have hb : quiescentReader mem d (t + i) (0 + i) = mem (d + i) := by
      rw [Nat.zero_add]
      rfl
    rw [hb] at hsnap ⊢
    exact hsnap _

theorem inspectChunk_matching (h : ∀ o < n, mem (d + o) = expected) :
    (inspectChunk p n expected (quiescentReader mem d) t).1 = none := by
  rcases validateChunk_spec (quiescentReader mem d) expected 0 n t with ⟨hv, -⟩ | ⟨i, -, hi⟩
  · simp [inspectChunk, hv]
  · have hi := firstMismatch_quiescent.mp hi
    exact absurd (h _ (by omega)) hi.2.2.1

end Classification

/-- What the counters of a host validator contribute to the result. -/
def ValidatorState.contribution (st : ValidatorState) : Contribution where
  chunksValidated := st.stats.workItemsProcessed
  bytesValidated := st.stats.bytesValidated
  errorsFound := st.errorsFound
  raceOverwrites := st.stats.raceOverwrites
  dmaStaleRetries := st.stats.dmaStaleRetries
  error := if st.error.hasError then
    some ⟨st.error.qpId, st.error.chunkId, st.error.byteOffset, st.error.expected, st.error.actual⟩
    else none

section Host

variable {p ops n t v : Nat} {mem : Mem} {e : MarkerScanEntry}

/-- One validation of the host backend, from counters at zero. -/
def hostAdds (payloadSize opsPerChunk chunkBytes : Nat) (mem : Mem) (entry : MarkerScanEntry)
    (markerVal t : Nat) : Contribution :=
  (validateOneMarker payloadSize opsPerChunk chunkBytes (quiescentReader mem entry.chunkData)
    freshValidator entry markerVal t).2.1.contribution

theorem hostAdds_matching (hv : v ≠ 0)
    (h : ∀ o < n, mem (e.chunkData + o) = validationCycleToPattern (v - 1)) :
    hostAdds p ops n mem e v t = ⟨ops, n, 0, 0, 0, none⟩ := by
  have hi := inspectChunk_matching (p := p) (t := t) h
  simp only [hostAdds, validateOneMarker, markerToExpectedPattern, if_neg hv, hi]
  split <;> simp [ValidatorState.contribution, freshValidator]

theorem hostAdds_mismatch (hv : v ≠ 0) {m : Nat}
    (hm : FirstDifference mem e.chunkData n (validationCycleToPattern (v - 1)) m) :
    (LooksOverwritten mem e.chunkData n m → hostAdds p ops n mem e v t = ⟨ops, n, 0, 1, 0, none⟩) ∧
      (¬ LooksOverwritten mem e.chunkData n m → hostAdds p ops n mem e v t =
        ⟨ops, n, 1, 0, 0, some ⟨e.qpId, e.chunkId, m % p, validationCycleToPattern (v - 1),
          mem (e.chunkData + m)⟩⟩) := by
  obtain ⟨mm, hi, ho, ha, hty⟩ := inspectChunk_quiescent (p := p) (t := t) hm
  simp only [hostAdds, validateOneMarker, markerToExpectedPattern, if_neg hv, hi]
  constructor
  · intro hl
    simp only [recordMismatch, hty.race hl]
    split <;> simp [ValidatorState.contribution, freshValidator]
  · intro hl
    simp only [recordMismatch, hty.real hl, ho, ha]
    split <;> simp [ValidatorState.contribution, freshValidator]

end Host

namespace CudaKernel

variable {k : CudaKernel} {mem : Mem} {item : WorkItem} {a : UInt8} {s : BlockErrors}

/-- The mismatches of the chunk of an item. -/
def itemMismatches (k : CudaKernel) (mem : Mem) (item : WorkItem) : Finset Nat :=
  wrongBytes (fun i => mem (k.chunkData item + i)) k.chunkSize item.expectedPattern

/-- Those that warp `w` finds. -/
def itemWarpMismatches (k : CudaKernel) (mem : Mem) (item : WorkItem) (w : Nat) : Finset Nat :=
  warpMismatches (fun i => mem (k.chunkData item + i)) (k.chunkData item) k.chunkSize
    item.expectedPattern w

/-- The bounds of a chunk under which no counter of the block wraps. -/
structure Bounded (k : CudaKernel) (mem : Mem) (item : WorkItem) : Prop where
  size_ge : 16 ≤ k.chunkSize
  size_lt : k.chunkSize < UINT64_MAX
  card_lt : (k.itemMismatches mem item).card < 2 ^ 32

theorem Bounded.hasErrors (h : k.Bounded mem item) (w : Nat) :
    (k.warps mem item w).hasErrors = true ↔ (k.itemWarpMismatches mem item w).Nonempty :=
  reduceWarp_hasErrors h.size_ge h.size_lt h.card_lt w

theorem Bounded.errorCount (h : k.Bounded mem item) (w : Nat) :
    (k.warps mem item w).errorCount = UInt32.ofNat (k.itemWarpMismatches mem item w).card :=
  reduceWarp_errorCount h.size_ge h.size_lt w

theorem Bounded.first (h : k.Bounded mem item) (w : Nat) :
    FirstOf (fun i => mem (k.chunkData item + i)) (k.itemWarpMismatches mem item w)
      ((k.warps mem item w).firstErrorOffset, (k.warps mem item w).firstErrorActual) :=
  reduceWarp_first h.size_ge h.size_lt w

theorem itemWarpMismatches_subset (w : Nat) :
    k.itemWarpMismatches mem item w ⊆ k.itemMismatches mem item := Finset.filter_subset _ _

theorem mem_itemMismatches {o : Nat} : o ∈ k.itemMismatches mem item ↔
    o < k.chunkSize ∧ mem (k.chunkData item + o) ≠ item.expectedPattern := by
  simp [itemMismatches, wrongBytes]

/-- A warp with errors has found its first mismatch. -/
theorem Bounded.first_mem (h : k.Bounded mem item) {w : Nat}
    (he : (k.warps mem item w).hasErrors = true) :
    (k.warps mem item w).firstErrorOffset ∈ k.itemWarpMismatches mem item w ∧
      (k.warps mem item w).firstErrorActual =
        mem (k.chunkData item + (k.warps mem item w).firstErrorOffset) := by
  obtain ⟨o, ho⟩ := (h.hasErrors w).mp he
  have hx := (h.first w).2
  generalize k.warps mem item w = r at *
  rcases hx with hx | hx
  · exact hx
  · rw [hx.1] at ho
    cases ho

theorem Bounded.first_isLeast (h : k.Bounded mem item) {w : Nat}
    (he : (k.warps mem item w).hasErrors = true) :
    IsLeast (↑(k.itemWarpMismatches mem item w) : Set Nat)
      (k.warps mem item w).firstErrorOffset := by
  refine ⟨Finset.mem_coe.mpr (h.first_mem he).1, fun o ho => ?_⟩
  have hx := (h.first w).1 o (Finset.mem_coe.mp ho)
  generalize k.warps mem item w = r at *
  exact hx

theorem Bounded.first_lt (h : k.Bounded mem item) (w : Nat)
    (he : (k.warps mem item w).hasErrors = true) :
    (k.warps mem item w).firstErrorOffset < UINT64_MAX := by
  have hm := mem_itemMismatches.mp (itemWarpMismatches_subset w (h.first_mem he).1)
  have := h.size_lt
  omega

/-- Behind the barrier the block has counted all mismatches. -/
theorem Bounded.totalErrors (h : k.Bounded mem item)
    (hr : BlockErrors.Reachable (k.warps mem item) a s) (hb : s.AtBarrier) :
    s.totalErrors = UInt32.ofNat (k.itemMismatches mem item).card := by
  have hi := BlockInv.of_reachable h.first_lt hr
  have hcard : (k.itemMismatches mem item).card =
      ∑ w ∈ Finset.range blockWarps, (k.itemWarpMismatches mem item w).card :=
    card_wrongBytes_warps
  rw [hi.total, hcard, ← sum_ofNat, Finset.sum_filter]
  refine Finset.sum_congr rfl fun w hw => ?_
  have hd := hb w (Finset.mem_range.mp hw)
  by_cases he : (k.warps mem item w).hasErrors = true
  · rw [if_pos ⟨by simp [hd], he⟩, h.errorCount]
  · rw [if_neg fun hc => he hc.2]
    have hz : k.itemWarpMismatches mem item w = ∅ :=
      Finset.not_nonempty_iff_eq_empty.mp fun hne => he ((h.hasErrors w).mpr hne)
    rw [hz]
    rfl

/-- Behind the barrier the first offset is that of some warp, and so is the byte. -/
theorem Bounded.stored (h : k.Bounded mem item)
    (hr : BlockErrors.Reachable (k.warps mem item) a s) (hb : s.AtBarrier)
    (hne : (k.itemMismatches mem item).Nonempty) :
    (∃ w < blockWarps, (k.warps mem item w).hasErrors = true ∧
        s.firstErrorOffset = (k.warps mem item w).firstErrorOffset) ∧
      ∃ w < blockWarps, (k.warps mem item w).hasErrors = true ∧
        s.firstErrorActual = (k.warps mem item w).firstErrorActual := by
  have hi := BlockInv.of_reachable h.first_lt hr
  have hw : ∃ w < blockWarps, (k.warps mem item w).hasErrors = true := by
    by_contra hno
    have hcard : (k.itemMismatches mem item).card =
        ∑ w ∈ Finset.range blockWarps, (k.itemWarpMismatches mem item w).card :=
      card_wrongBytes_warps
    have hz : (k.itemMismatches mem item).card = 0 := by
      rw [hcard]
      refine Finset.sum_eq_zero fun w hw => Finset.card_eq_zero.mpr ?_
      refine Finset.not_nonempty_iff_eq_empty.mp fun hn => hno ?_
      exact ⟨w, Finset.mem_range.mp hw, (h.hasErrors w).mpr hn⟩
    have := Finset.card_pos.mpr hne
    omega
  obtain ⟨w, hlt, he⟩ := hw
  have hmax := hi.stored w (Or.inr ⟨hb w hlt, he⟩)
  refine ⟨?_, ?_⟩
  · rcases hi.offset with ho | ho
    · exact absurd ho hmax
    · exact ho
  · rcases hi.actual hmax with ⟨v, hv, hp⟩ | ha
    · rw [hb v hv] at hp
      cases hp
    · exact ha

/-- Thread 0 classifies the offset that the block kept as the host does its own. -/
theorem classify_quiescent (hm : mem (k.chunkData item + s.firstErrorOffset) ≠
    item.expectedPattern) :
    QuiescentType mem (k.chunkData item) k.chunkSize s.firstErrorOffset
      (k.classify mem item s) := by
  by_cases h : s.firstErrorOffset + 4 < k.chunkSize
  · simp only [classify, hm, and_false, decide_false, Bool.not_false, h, and_self, decide_true,
      if_true]
    exact ⟨classifyValidationMismatch_overwritten hm,
      classifyValidationMismatch_not_overwritten h⟩
  · simp only [classify, hm, and_false, decide_false, h, Bool.false_eq_true, if_false]
    refine ⟨fun hl => absurd hl.1 h, fun _ => ?_⟩
    exact classifyValidationMismatch_real_iff.mpr ⟨by simp, by simp⟩

theorem account_matching {v : UInt64} (ht : s.totalErrors = 0) :
    k.account mem v item s = ⟨1, k.chunkSize, 0, 0, 0, none⟩ := by
  simp [account, ht]

theorem account_mismatch (hm : mem (k.chunkData item + s.firstErrorOffset) ≠ item.expectedPattern)
    (ht : 0 < s.totalErrors) :
    (LooksOverwritten mem (k.chunkData item) k.chunkSize s.firstErrorOffset →
      k.account mem item.markerEpoch item s = ⟨1, k.chunkSize, 0, 1, 0, none⟩) ∧
    (¬ LooksOverwritten mem (k.chunkData item) k.chunkSize s.firstErrorOffset →
      k.account mem item.markerEpoch item s = ⟨1, k.chunkSize, s.totalErrors.toNat, 0, 0,
        some ⟨item.qpId.toNat, item.chunkId.toNat, s.firstErrorOffset, item.expectedPattern,
          s.firstErrorActual⟩⟩) := by
  have hty := k.classify_quiescent hm
  have hlt : ¬ item.markerEpoch < item.markerEpoch := UInt64.lt_irrefl _
  constructor
  · intro hl
    simp only [account, if_pos ht, if_neg hlt, hty.race hl]
  · intro hl
    simp only [account, if_pos ht, if_neg hlt, hty.real hl]

theorem account_chunksValidated {v : UInt64} : (k.account mem v item s).chunksValidated = 1 := by
  unfold account
  split
  · split
    · rfl
    · split <;> rfl
  · rfl

/-- The scan entry of the host for the same marker. -/
def hostEntry (k : CudaKernel) (tailMarkers lastSeen idx : Nat) : MarkerScanEntry :=
  { scanEntry tailMarkers k.recvSlotsBase k.chunksPerQp k.txDepth k.payloadSize idx with
    lastSeen := lastSeen }

variable {idx : Nat} {v : UInt64}

/-- With one operation for each chunk the two backends look at the same bytes. -/
theorem hostEntry_chunkData (ho : k.txDepth = 1) (hi : idx < k.totalTails) (tm ls : Nat) :
    (k.hostEntry tm ls idx).chunkData = k.chunkData (k.workItem idx v) := by
  obtain ⟨h1, h2⟩ := k.chunksPerQp_range
  have hlt := k.markers_lt
  have hid := CudaConfig.workItem_ids (v := v) hi
  have hc : k.chunksPerQp < 2 ^ 32 := by
    simp only [VALIDATION_MAX_CHUNKS_PER_QP] at h2
    omega
  have hdm := Nat.div_add_mod' idx k.chunksPerQp
  have hidx : idx < 2 ^ 32 := by
    unfold CudaConfig.totalTails at hi
    omega
  simp only [hostEntry, scanEntry, chunkData, chunkSize, ho, hid.1, hid.2, Nat.one_mul,
    Nat.mul_one, u32_of_lt hc, hdm, u32_of_lt hidx]
  rw [Nat.add_assoc, ← Nat.mul_assoc, ← Nat.add_mul, hdm]

end CudaKernel

theorem hostAdds_errorsFound_le {p ops n t v : Nat} {mem : Mem} {e : MarkerScanEntry} (hv : v ≠ 0) :
    (hostAdds p ops n mem e v t).errorsFound ≤ 1 ∧
      (hostAdds p ops n mem e v t).chunksValidated = ops := by
  by_cases h : ∀ o < n, mem (e.chunkData + o) = validationCycleToPattern (v - 1)
  · rw [hostAdds_matching hv h]
    exact ⟨Nat.zero_le _, rfl⟩
  · push Not at h
    obtain ⟨o, ho, hne⟩ := h
    obtain ⟨m, hm⟩ := exists_firstDifference ho hne
    obtain ⟨h1, h2⟩ := hostAdds_mismatch (p := p) (t := t) hv hm
    by_cases hl : LooksOverwritten mem e.chunkData n m
    · rw [h1 hl]
      exact ⟨Nat.zero_le _, rfl⟩
    · rw [h2 hl]
      exact ⟨le_refl _, rfl⟩

open CudaKernel

/-- The first mismatch of every warp looks overwritten. -/
def CudaKernel.WarpsLookOverwritten (k : CudaKernel) (mem : Mem) (item : WorkItem) : Prop :=
  ∀ w < blockWarps, ∀ o, IsLeast (↑(k.itemWarpMismatches mem item w)) o →
    LooksOverwritten mem (k.chunkData item) k.chunkSize o

section Agreement

variable {k : CudaKernel} {mem : Mem} {idx t tm ls : Nat} {v : UInt64}

theorem bounded_of_one (ho : k.txDepth = 1) (hp : k.payloadSize < 2 ^ 32) (hn : 16 ≤ k.chunkSize)
    (mem : Mem) (item : WorkItem) : k.Bounded mem item := by
  have hc : k.chunkSize = k.payloadSize := by rw [chunkSize, ho, Nat.one_mul]
  refine ⟨hn, by rw [hc]; unfold UINT64_MAX; omega, lt_of_le_of_lt (Finset.card_filter_le _ _) ?_⟩
  rw [Finset.card_range, hc]
  exact hp

/-- The chunk's first difference is the first mismatch of the warp that looks at it. -/
theorem exists_warp_of_firstDifference {m : Nat} {item : WorkItem}
    (hm : FirstDifference mem (k.chunkData item) k.chunkSize item.expectedPattern m) :
    ∃ w < blockWarps, IsLeast (↑(k.itemWarpMismatches mem item w) : Set Nat) m := by
  refine ⟨portionOwner (k.chunkData item) k.chunkSize m / WARP_SIZE, ?_, ?_, fun o ho => ?_⟩
  · have hlt : portionOwner (k.chunkData item) k.chunkSize m < VALIDATION_THREADS_PER_BLOCK := by
      unfold portionOwner
      split_ifs <;> exact Nat.mod_lt _ (by decide)
    simp only [VALIDATION_THREADS_PER_BLOCK, WARP_SIZE, blockWarps] at *
    omega
  · exact Finset.mem_coe.mpr (Finset.mem_filter.mpr
      ⟨mem_itemMismatches.mpr ⟨hm.1, hm.2.1⟩, rfl⟩)
  · have ho := mem_itemMismatches.mp (itemWarpMismatches_subset _ (Finset.mem_coe.mp ho))
    by_contra hlt
    exact ho.2 (hm.2.2 o (Nat.lt_of_not_le hlt))

/-- Several mismatches, of which a warp can keep one that does not look overwritten. -/
theorem exists_adds_errors {item : WorkItem} (hb : k.Bounded mem item) {w o : Nat}
    (hw : w < blockWarps) (ho : IsLeast (↑(k.itemWarpMismatches mem item w) : Set Nat) o)
    (hl : ¬ LooksOverwritten mem (k.chunkData item) k.chunkSize o) :
    ∃ r, k.Adds mem item.markerEpoch item r ∧
      r.errorsFound = (k.itemMismatches mem item).card := by
  have he : (k.warps mem item w).hasErrors = true :=
    (hb.hasErrors w).mpr ⟨o, Finset.mem_coe.mp ho.1⟩
  obtain ⟨s, hs, hbar, hoff⟩ := exists_lastStore 0 hw he (hb.first_lt w he)
  rw [(hb.first_isLeast he).unique ho] at hoff
  have hmem := mem_itemMismatches.mp (itemWarpMismatches_subset w (Finset.mem_coe.mp ho.1))
  have htot := hb.totalErrors hs hbar
  have hpos : 0 < s.totalErrors := by
    rw [htot, ofNat_pos_iff hb.card_lt]
    exact Finset.card_pos.mpr ⟨o, mem_itemMismatches.mpr hmem⟩
  refine ⟨k.account mem item.markerEpoch item s, ?_, ?_⟩
  · rw [Adds, if_neg (UInt64.lt_irrefl _)]
    exact ⟨0, s, hs, hbar, rfl⟩
  · rw [(k.account_mismatch (by rw [hoff]; exact hmem.2) hpos).2 (by rw [hoff]; exact hl), htot]
    exact UInt32.toNat_ofNat_of_lt' hb.card_lt

/-- One operation for each chunk, and one mismatch at most or nothing that is taken for an error. -/
theorem adds_eq_hostAdds (ho : k.txDepth = 1) (hi : idx < k.totalTails) (hv : v ≠ 0)
    (hb : k.Bounded mem (k.workItem idx v))
    (hc : (k.itemMismatches mem (k.workItem idx v)).card ≤ 1 ∨
      k.WarpsLookOverwritten mem (k.workItem idx v)) {a : UInt8} {s : BlockErrors}
    (hs : BlockErrors.Reachable (k.warps mem (k.workItem idx v)) a s) (hbar : s.AtBarrier) :
    k.account mem v (k.workItem idx v) s =
      hostAdds k.payloadSize k.txDepth k.chunkSize mem (k.hostEntry tm ls idx) v.toNat t := by
  have hd := k.hostEntry_chunkData (v := v) ho hi tm ls
  have hv' : v.toNat ≠ 0 := fun h => hv (UInt64.toNat_inj.mp h)
  have htot := hb.totalErrors hs hbar
  by_cases hne : (k.itemMismatches mem (k.workItem idx v)).Nonempty
  · obtain ⟨⟨w, hw, he, hoff⟩, w', hw', he', hact⟩ := hb.stored hs hbar hne
    have hmem := mem_itemMismatches.mp (itemWarpMismatches_subset w (hb.first_mem he).1)
    rw [← hoff] at hmem
    obtain ⟨m, hm⟩ := exists_firstDifference hmem.1 hmem.2
    have hpos : 0 < s.totalErrors := by
      rw [htot, ofNat_pos_iff hb.card_lt]
      exact Finset.card_pos.mpr hne
    obtain ⟨hrace, hreal⟩ := k.account_mismatch hmem.2 hpos
    obtain ⟨hhrace, hhreal⟩ := hostAdds_mismatch (p := k.payloadSize) (t := t) hv'
      (show FirstDifference mem (k.hostEntry tm ls idx).chunkData k.chunkSize _ m from hd ▸ hm)
    rcases hc with hc | hc
    · have hone : ∀ o ∈ k.itemMismatches mem (k.workItem idx v), o = m := by
        intro o ho'
        exact Finset.card_le_one.mp hc o ho' m (mem_itemMismatches.mpr ⟨hm.1, hm.2.1⟩)
      have hom : s.firstErrorOffset = m := hone _ (mem_itemMismatches.mpr hmem)
      have ham : s.firstErrorActual = mem (k.chunkData (k.workItem idx v) + m) := by
        have hf := hb.first_mem he'
        rw [hact, hf.2, hone _ (itemWarpMismatches_subset w' hf.1)]
      have hcard : s.totalErrors.toNat = 1 := by
        rw [htot, UInt32.toNat_ofNat_of_lt' hb.card_lt]
        have := Finset.card_pos.mpr hne
        omega
      by_cases hl : LooksOverwritten mem (k.chunkData (k.workItem idx v)) k.chunkSize m
      · exact (hrace (hom ▸ hl)).trans ((hhrace (hd ▸ hl)).trans (by rw [ho])).symm
      · refine (hreal (hom ▸ hl)).trans ((hhreal (hd ▸ hl)).trans ?_).symm
        obtain ⟨hq, hk⟩ := CudaConfig.workItem_ids (v := v) hi
        have hmod : m % k.payloadSize = m := by
          have hlt := hm.1
          rw [chunkSize, ho, Nat.one_mul] at hlt
          exact Nat.mod_eq_of_lt hlt
        rw [ho, hcard, hom, ham, hq, hk, hmod, hd]
        rfl
    · have hlo := hc w hw s.firstErrorOffset (by rw [hoff]; exact hb.first_isLeast he)
      obtain ⟨wm, hwm, hleast⟩ := exists_warp_of_firstDifference hm
      have hlm := hc wm hwm m hleast
      exact (hrace hlo).trans ((hhrace (hd ▸ hlm)).trans (by rw [ho])).symm
  · have hz := Finset.not_nonempty_iff_eq_empty.mp hne
    have ht0 : s.totalErrors = 0 := by
      rw [htot, hz]
      rfl
    rw [account_matching ht0, hostAdds_matching hv' fun o hlt => ?_, ho]
    by_contra hd'
    rw [hd] at hd'
    exact hne ⟨o, mem_itemMismatches.mpr ⟨hlt, hd'⟩⟩

end Agreement

/-- The host and the CUDA backend account for a quiescent chunk in the same way, whatever the order
of the warps, exactly if a chunk is one operation and the chunk has one mismatch at most or the
first mismatch of every warp looks overwritten. -/
theorem backends_agree_iff (k : CudaKernel) (mem : Mem) (idx tailMarkers lastSeen t : Nat)
    (v : UInt64) (hi : idx < k.totalTails) (hv : v ≠ 0) (hp : k.payloadSize < 2 ^ 32)
    (hn : 16 ≤ k.chunkSize) :
    (∀ r, k.Adds mem v (k.workItem idx v) r →
      r = hostAdds k.payloadSize k.txDepth k.chunkSize mem (k.hostEntry tailMarkers lastSeen idx)
        v.toNat t) ↔
      k.txDepth = 1 ∧ ((k.itemMismatches mem (k.workItem idx v)).card ≤ 1 ∨
        k.WarpsLookOverwritten mem (k.workItem idx v)) := by
  have hv' : v.toNat ≠ 0 := fun h => hv (UInt64.toNat_inj.mp h)
  have hirr : ¬ (k.workItem idx v).markerEpoch < v := UInt64.lt_irrefl _
  constructor
  · intro h
    obtain ⟨s, hs, hbar⟩ := exists_atBarrier (k.warps mem (k.workItem idx v)) 0
    have ho : k.txDepth = 1 := by
      have hr := h (k.account mem v (k.workItem idx v) s) (by
        rw [Adds, if_neg hirr]
        exact ⟨0, s, hs, hbar, rfl⟩)
      have hc := congrArg Contribution.chunksValidated hr
      rw [account_chunksValidated, (hostAdds_errorsFound_le hv').2] at hc
      exact hc.symm
    refine ⟨ho, ?_⟩
    by_contra hno
    push Not at hno
    obtain ⟨hcard, hw⟩ := hno
    unfold CudaKernel.WarpsLookOverwritten at hw
    push Not at hw
    obtain ⟨w, hlt, o, hleast, hl⟩ := hw
    obtain ⟨r, hr, he⟩ := exists_adds_errors (bounded_of_one ho hp hn mem _) hlt hleast hl
    have hle : (hostAdds k.payloadSize k.txDepth k.chunkSize mem
        (k.hostEntry tailMarkers lastSeen idx) v.toNat t).errorsFound ≤ 1 :=
      (hostAdds_errorsFound_le hv').1
    rw [← h r hr, he] at hle
    omega
  · rintro ⟨ho, hc⟩ r hr
    rw [Adds, if_neg hirr] at hr
    obtain ⟨a, s, hs, hbar, rfl⟩ := hr
    exact adds_eq_hostAdds ho hi hv (bounded_of_one ho hp hn mem _) hc hs hbar

/-- One QP with messages of `payload` bytes and a transmit depth of 128. -/
def depth128 (payload : Nat) : CudaKernel where
  toCudaConfig := oneCudaQp
  payloadSize := payload
  txDepth := deriveValidationChunkSize payload 128
  recvSlotsBase := 1024

/-- The chunk of the first epoch with one wrong byte. -/
def oneWrongByte : Mem := fun a => if a = 1031 then 9 else 1

theorem oneWrongByte_agreed : 16 ≤ (depth128 8388608).chunkSize ∧
    ∀ r, (depth128 8388608).Adds oneWrongByte 1 ((depth128 8388608).workItem 0 1) r →
      r = hostAdds 8388608 1 (1 * 8388608) oneWrongByte
        ((depth128 8388608).hostEntry 0 0 0) 1 0 := by
  refine ⟨by decide +kernel, ?_⟩
  have hd : (depth128 8388608).chunkData ((depth128 8388608).workItem 0 1) = 1024 := by
    decide +kernel
  refine (backends_agree_iff (depth128 8388608) oneWrongByte 0 0 0 0 1 (by decide) (by decide)
    (by decide) (by decide +kernel)).mpr ⟨by decide +kernel, Or.inl ?_⟩
  refine Finset.card_le_one.mpr fun o ho o' ho' => ?_
  have h1 := (mem_itemMismatches.mp ho).2
  have h2 := (mem_itemMismatches.mp ho').2
  have hp : ((depth128 8388608).workItem 0 1).expectedPattern = 1 := by decide +kernel
  rw [hd, hp] at h1 h2
  have hne : ∀ o, oneWrongByte (1024 + o) ≠ 1 → o = 7 := by
    intro o h
    by_contra hne
    rw [oneWrongByte, if_neg (by omega)] at h
    exact h rfl
  rw [hne o h1, hne o' h2]

/-- A chunk of 128 operations without any mismatch counts as 128 with the one backend and as one
with the other. -/
theorem depth128_counted_apart : ¬ ∀ r, (depth128 65536).Adds (fun _ => 1) 1
      ((depth128 65536).workItem 0 1) r →
    r = hostAdds 65536 128 (128 * 65536) (fun _ => 1) ((depth128 65536).hostEntry 0 0 0) 1 0 := by
  intro h
  obtain ⟨s, hs, hbar⟩ := exists_atBarrier
    ((depth128 65536).warps (fun _ => 1) ((depth128 65536).workItem 0 1)) 0
  have hr := h ((depth128 65536).account (fun _ => 1) 1 ((depth128 65536).workItem 0 1) s) (by
    rw [Adds, if_neg (by decide)]
    exact ⟨0, s, hs, hbar, rfl⟩)
  have hc := congrArg Contribution.chunksValidated hr
  rw [account_chunksValidated, (hostAdds_errorsFound_le (by decide)).2] at hc
  cases hc

end Perftest
