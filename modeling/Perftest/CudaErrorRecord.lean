import Perftest.BackendAgreement

namespace Perftest

open CMachine ByteMemory

/-- The validator blocks that have taken a work item, what their chunks hold, and the marker that
thread 0 of each reads behind the reduction. No chunk is too large for the counters of a block. -/
structure ErrorReporters extends CudaKernel where
  mem : Mem
  numBlocks : Nat
  item : Nat → WorkItem
  markerAfter : Nat → UInt64
  chunkSize_ge : 16 ≤ toCudaKernel.chunkSize
  chunkSize_lt : toCudaKernel.chunkSize < 2 ^ 32

/-- Where thread 0 of a block stands: in front of the barrier of the reduction, or in front of the
store of a field of the error record. -/
inductive RecordPc where
  | reduce | store (field : Fin 5) | done
deriving DecidableEq, Repr

namespace RecordPc

/-- In front of the store of field `i`, behind all stores from the fifth on. -/
def stage (i : Nat) : RecordPc := if h : i < 5 then .store ⟨i, h⟩ else .done

/-- The store of field `i` has been made. -/
def Passed (i : Fin 5) : RecordPc → Prop
  | reduce => False
  | store j => i < j
  | done => True

end RecordPc

namespace ReportedError

/-- The fields in the order of their stores. -/
def field (r : ReportedError) : Fin 5 → Nat
  | 0 => r.qpId
  | 1 => r.chunkId
  | 2 => r.byteOffset
  | 3 => r.expected.toNat
  | 4 => r.actual.toNat

/-- Field `i` of the record is overwritten with that of `r`. -/
def store (r : ReportedError) (i : Fin 5) (e : ReportedError) : ReportedError :=
  match i with
  | 0 => { e with qpId := r.qpId }
  | 1 => { e with chunkId := r.chunkId }
  | 2 => { e with byteOffset := r.byteOffset }
  | 3 => { e with expected := r.expected }
  | 4 => { e with actual := r.actual }

theorem field_store (r e : ReportedError) (i j : Fin 5) :
    (r.store i e).field j = if j = i then r.field j else e.field j := by
  fin_cases i <;> fin_cases j <;> rfl

theorem ext_field {r e : ReportedError} (h : ∀ i, r.field i = e.field i) : r = e := by
  obtain ⟨qp, chunk, off, exp, act⟩ := r
  obtain ⟨qp', chunk', off', exp', act'⟩ := e
  have h0 : qp = qp' := h 0
  have h1 : chunk = chunk' := h 1
  have h2 : off = off' := h 2
  have h3 : exp = exp' := UInt8.toNat_inj.mp (h 3)
  have h4 : act = act' := UInt8.toNat_inj.mp (h 4)
  rw [h0, h1, h2, h3, h4]

/-- Any combination of fields of the records is one of them. -/
def MixClosed (R : Set ReportedError) : Prop :=
  ∀ pick : Fin 5 → ReportedError, (∀ i, pick i ∈ R) → ∃ r ∈ R, ∀ i, r.field i = (pick i).field i

end ReportedError

/-- The shared variables of the blocks, where their threads 0 stand, and the error record. -/
structure RecordState where
  blocks : Nat → BlockErrors
  pcs : Nat → RecordPc
  record : ReportedError

/-- The record is cleared; the bytes of the blocks are what they were. -/
def RecordState.Cleared (s : RecordState) : Prop :=
  ∃ a : Nat → UInt8, s = ⟨fun b => .start (a b), fun _ => .reduce, ⟨0, 0, 0, 0, 0⟩⟩

/-- An access of warp `w` of block `b`, or a step of its thread 0. -/
inductive RecordAction where
  | warp (b w : Nat)
  | thread0 (b : Nat)

namespace ErrorReporters

variable (c : ErrorReporters)

def blockWarpErrors (b : Nat) : Nat → WarpErrors := c.warps c.mem (c.item b)

/-- The record that thread 0 of block `b` stores, for the variables behind the barrier. -/
def report (b : Nat) (x : BlockErrors) : Option ReportedError :=
  (c.account c.mem (c.markerAfter b) (c.item b) x).error

instance (x : BlockErrors) : Decidable x.AtBarrier :=
  inferInstanceAs (Decidable (∀ w < blockWarps, x.pcs w = .done))

def act : RecordAction → RecordState → Option RecordState
  | .warp b w, s =>
    if b < c.numBlocks then
      (BlockErrors.act (c.blockWarpErrors b) w (s.blocks b)).map fun x =>
        { s with blocks := Function.update s.blocks b x }
    else none
  | .thread0 b, s =>
    if b < c.numBlocks then
      match s.pcs b with
      | .reduce =>
        if (s.blocks b).AtBarrier then
          some { s with
            pcs := Function.update s.pcs b
              (if (c.report b (s.blocks b)).isSome then .stage 0 else .done) }
        else none
      | .store i => (c.report b (s.blocks b)).map fun r =>
        { s with
          record := r.store i s.record
          pcs := Function.update s.pcs b (.stage (i + 1)) }
      | .done => none
    else none

def Reachable : RecordState → Prop :=
  Transition.Reachable RecordState.Cleared (Transition.stepOf c.act)

/-- The variables of a block hold the count of the mismatches of its chunk and the first one with
its byte. -/
def ReducedRight (b : Nat) (x : BlockErrors) : Prop :=
  x.totalErrors.toNat = (c.itemMismatches c.mem (c.item b)).card ∧
    ∀ m, FirstDifference c.mem (c.chunkData (c.item b)) c.chunkSize (c.item b).expectedPattern m →
      x.firstErrorOffset = m ∧ x.firstErrorActual = c.mem (c.chunkData (c.item b) + m)

/-- Behind the barrier the variables of every block are right, and in the end the record is the one
of some block. -/
def RecordsRight : Prop :=
  ∀ s, c.Reachable s →
    (∀ b, b < c.numBlocks → (s.blocks b).AtBarrier → c.ReducedRight b (s.blocks b)) ∧
      ((∀ b, b < c.numBlocks → s.pcs b = .done) →
        (∃ b, b < c.numBlocks ∧ (c.report b (s.blocks b)).isSome) →
        ∃ b, b < c.numBlocks ∧ c.report b (s.blocks b) = some s.record)

/-- All mismatches of the chunk of a block are found by one warp. -/
def OneWarp (b : Nat) : Prop :=
  ∀ w w', (c.itemWarpMismatches c.mem (c.item b) w).Nonempty →
    (c.itemWarpMismatches c.mem (c.item b) w').Nonempty → w = w'

/-- The variables of a block whose reduction is right. -/
def reduced (b : Nat) : BlockErrors :=
  let S := c.itemMismatches c.mem (c.item b)
  let first := if h : S.Nonempty then S.min' h else UINT64_MAX
  ⟨UInt32.ofNat S.card, first, c.mem (c.chunkData (c.item b) + first), fun _ => .done⟩

/-- The records of the first real mismatches of the chunks. -/
def chunkRecords : Set ReportedError :=
  {r | ∃ b, b < c.numBlocks ∧ c.report b (c.reduced b) = some r}

end ErrorReporters

namespace ErrorReporters

variable {c : ErrorReporters} {s t : RecordState} {b : Nat} {a : UInt8} {x : BlockErrors}

theorem bounded (c : ErrorReporters) (b : Nat) : c.Bounded c.mem (c.item b) where
  size_ge := c.chunkSize_ge
  size_lt := by
    have := c.chunkSize_lt
    unfold UINT64_MAX
    omega
  card_lt := by
    have hle : (c.itemMismatches c.mem (c.item b)).card ≤ c.chunkSize := by
      have h := Finset.card_filter_le (Finset.range c.chunkSize)
        fun o => c.mem (c.chunkData (c.item b) + o) ≠ (c.item b).expectedPattern
      rwa [Finset.card_range] at h
    exact lt_of_le_of_lt hle c.chunkSize_lt

/-- The record of a block depends on its variables only. -/
theorem report_congr {x y : BlockErrors} (ht : x.totalErrors = y.totalErrors)
    (ho : 0 < x.totalErrors → x.firstErrorOffset = y.firstErrorOffset)
    (ha : 0 < x.totalErrors → x.firstErrorActual = y.firstErrorActual) :
    c.report b x = c.report b y := by
  unfold report CudaKernel.account
  rw [← ht]
  split
  next h => simp only [CudaKernel.classify, ho h, ha h]
  next => rfl

section Reduction

/-- A block whose mismatches are all found by one warp reduces them right. -/
theorem OneWarp.reducedRight (h : c.OneWarp b)
    (hr : BlockErrors.Reachable (c.blockWarpErrors b) a x) (hb : x.AtBarrier) :
    c.ReducedRight b x := by
  have hbd := c.bounded b
  refine ⟨?_, fun m hm => ?_⟩
  · rw [hbd.totalErrors hr hb]
    exact UInt32.toNat_ofNat_of_lt' hbd.card_lt
  · have hne : (c.itemMismatches c.mem (c.item b)).Nonempty :=
      ⟨m, CudaKernel.mem_itemMismatches.mpr ⟨hm.1, hm.2.1⟩⟩
    obtain ⟨⟨w, hw, he, ho⟩, w', hw', he', ha⟩ := hbd.stored hr hb hne
    obtain ⟨v, hv, hleast⟩ := exists_warp_of_firstDifference hm
    have hvw : v = w := h v w ⟨m, hleast.1⟩ ((hbd.hasErrors w).mp he)
    have hww : w' = w := h w' w ((hbd.hasErrors w').mp he') ((hbd.hasErrors w).mp he)
    subst hvw hww
    have hfirst := (hbd.first_isLeast he).unique hleast
    refine ⟨ho.trans hfirst, ?_⟩
    rw [ha, (hbd.first_mem he).2, hfirst]

/-- Two warps with mismatches can leave an offset that is not the first one. -/
theorem exists_not_reducedRight (h : ¬ c.OneWarp b) (a : UInt8) :
    ∃ x, BlockErrors.Reachable (c.blockWarpErrors b) a x ∧ x.AtBarrier ∧
      ¬ c.ReducedRight b x := by
  have hbd := c.bounded b
  simp only [OneWarp, not_forall] at h
  obtain ⟨w, w', hn, hn', hne⟩ := h
  obtain ⟨o, ho⟩ := hn
  have hmem := CudaKernel.mem_itemMismatches.mp (CudaKernel.itemWarpMismatches_subset w ho)
  obtain ⟨m, hm⟩ := exists_firstDifference hmem.1 hmem.2
  obtain ⟨v, hv, hleast⟩ := exists_warp_of_firstDifference hm
  obtain ⟨u, hu, huv⟩ : ∃ u, (c.itemWarpMismatches c.mem (c.item b) u).Nonempty ∧ u ≠ v := by
    by_cases hwv : w = v
    · exact ⟨w', hn', fun he => hne (hwv.trans he.symm)⟩
    · exact ⟨w, ⟨o, ho⟩, hwv⟩
  have he := (hbd.hasErrors u).mpr hu
  have hlt : u < blockWarps := by
    obtain ⟨o', ho'⟩ := hu
    have hown := (Finset.mem_filter.mp ho').2
    have hbound : portionOwner (c.chunkData (c.item b)) c.chunkSize o' <
        VALIDATION_THREADS_PER_BLOCK := by
      unfold portionOwner
      split_ifs <;> exact Nat.mod_lt _ (by decide)
    simp only [VALIDATION_THREADS_PER_BLOCK, WARP_SIZE, blockWarps] at *
    omega
  obtain ⟨x, hx, hbar, hoff⟩ := exists_lastStore a hlt he (hbd.first_lt u he)
  refine ⟨x, hx, hbar, fun hright => ?_⟩
  have hxm := (hright.2 m hm).1
  have h1 := (Finset.mem_filter.mp (hbd.first_mem he).1).2
  have h2 := (Finset.mem_filter.mp hleast.1).2
  rw [← hoff, hxm] at h1
  exact huv (h1.symm.trans h2)

/-- A block whose variables are right stores the record of its chunk. -/
theorem report_eq_of_reducedRight (h : c.ReducedRight b x) :
    c.report b x = c.report b (c.reduced b) := by
  have hbd := c.bounded b
  have htot : x.totalErrors = UInt32.ofNat (c.itemMismatches c.mem (c.item b)).card := by
    rw [← h.1, UInt32.ofNat_toNat]
  have hfirst : 0 < x.totalErrors →
      ∃ hn : (c.itemMismatches c.mem (c.item b)).Nonempty,
        FirstDifference c.mem (c.chunkData (c.item b)) c.chunkSize (c.item b).expectedPattern
          ((c.itemMismatches c.mem (c.item b)).min' hn) := by
    intro hpos
    rw [htot, ofNat_pos_iff hbd.card_lt, Finset.card_pos] at hpos
    have hm := CudaKernel.mem_itemMismatches.mp (Finset.min'_mem _ hpos)
    refine ⟨hpos, hm.1, hm.2, fun o ho => ?_⟩
    by_contra hne
    have hle := Finset.min'_le _ o (CudaKernel.mem_itemMismatches.mpr ⟨ho.trans hm.1, hne⟩)
    omega
  refine report_congr htot (fun hpos => ?_) fun hpos => ?_
  · obtain ⟨hn, hm⟩ := hfirst hpos
    rw [(h.2 _ hm).1, reduced]
    simp only [hn, dif_pos]
  · obtain ⟨hn, hm⟩ := hfirst hpos
    rw [(h.2 _ hm).2, reduced]
    simp only [hn, dif_pos]

end Reduction

section Invariant

/-- What a step does: an access of a warp, the end of the reduction of a block, or a store. -/
theorem act_cases {a : RecordAction} (h : c.act a s = some t) :
    (∃ b w x, b < c.numBlocks ∧ BlockErrors.act (c.blockWarpErrors b) w (s.blocks b) = some x ∧
      t = { s with blocks := Function.update s.blocks b x }) ∨
    (∃ b, b < c.numBlocks ∧ s.pcs b = .reduce ∧ (s.blocks b).AtBarrier ∧
      t = { s with
        pcs := Function.update s.pcs b
          (if (c.report b (s.blocks b)).isSome then .stage 0 else .done) }) ∨
    ∃ b i r, b < c.numBlocks ∧ s.pcs b = .store i ∧ c.report b (s.blocks b) = some r ∧
      t = { s with
        record := r.store i s.record
        pcs := Function.update s.pcs b (.stage (i + 1)) } := by
  cases a with
  | warp b w =>
    left
    obtain ⟨hb, h⟩ := Option.ite_none_right_eq_some.mp h
    obtain ⟨x, hx, rfl⟩ := Option.map_eq_some_iff.mp h
    exact ⟨b, w, x, hb, hx, rfl⟩
  | thread0 b =>
    right
    obtain ⟨hb, h⟩ := Option.ite_none_right_eq_some.mp h
    split at h
    next hpc =>
      left
      obtain ⟨hbar, h⟩ := Option.ite_none_right_eq_some.mp h
      exact ⟨b, hb, hpc, hbar, (Option.some.inj h).symm⟩
    next i hpc =>
      right
      obtain ⟨r, hr, rfl⟩ := Option.map_eq_some_iff.mp h
      exact ⟨b, i, r, hb, hpc, hr, rfl⟩
    next => cases h

theorem passed_stage_succ {i j : Fin 5} : (RecordPc.stage (i + 1)).Passed j ↔ j ≤ i := by
  unfold RecordPc.stage
  split
  next h => exact Nat.lt_succ_iff
  next h =>
    refine iff_of_true trivial ?_
    rw [Fin.le_def]
    omega

/-- What holds between the steps: behind the barrier a block does not move, and a field that some
block has stored comes from such a block. -/
structure RecordInv (c : ErrorReporters) (s : RecordState) : Prop where
  reach : ∀ b, b < c.numBlocks → ∃ a, BlockErrors.Reachable (c.blockWarpErrors b) a (s.blocks b)
  barrier : ∀ b, b < c.numBlocks → s.pcs b ≠ .reduce → (s.blocks b).AtBarrier
  fields : ∀ i, (∃ b, b < c.numBlocks ∧ (s.pcs b).Passed i ∧
      (c.report b (s.blocks b)).isSome = true) →
    ∃ b, b < c.numBlocks ∧ (s.pcs b).Passed i ∧ ∃ r, c.report b (s.blocks b) = some r ∧
      s.record.field i = r.field i

theorem RecordInv.warp {b w : Nat} (h : RecordInv c s) (hb : b < c.numBlocks)
    (hx : BlockErrors.act (c.blockWarpErrors b) w (s.blocks b) = some x) :
    RecordInv c { s with blocks := Function.update s.blocks b x } := by
  have hpc : s.pcs b = .reduce := by
    by_contra hne
    obtain ⟨hw, hx⟩ := Option.ite_none_right_eq_some.mp hx
    rw [h.barrier b hb hne w hw] at hx
    cases hx
  have hkeep : ∀ v i, (s.pcs v).Passed i → Function.update s.blocks b x v = s.blocks v := by
    intro v i hv
    have hne : v ≠ b := by
      rintro rfl
      rw [hpc] at hv
      exact hv
    exact Function.update_of_ne hne _ _
  refine ⟨fun v hv => ?_, fun v hv hne => ?_, fun i hi => ?_⟩
  · dsimp only
    by_cases hvb : v = b
    · subst hvb
      obtain ⟨a, ha⟩ := h.reach v hv
      rw [Function.update_self]
      exact ⟨a, ha.tail ⟨w, hx⟩⟩
    · rw [Function.update_of_ne hvb]
      exact h.reach v hv
  · have hvb : v ≠ b := by
      rintro rfl
      exact hne hpc
    dsimp only
    rw [Function.update_of_ne hvb]
    exact h.barrier v hv hne
  · dsimp only at hi ⊢
    obtain ⟨v, hv, hp, hs⟩ := hi
    rw [hkeep v i hp] at hs
    obtain ⟨u, hu, hpu, r, hr, he⟩ := h.fields i ⟨v, hv, hp, hs⟩
    exact ⟨u, hu, hpu, r, by rw [hkeep u i hpu]; exact hr, he⟩

theorem RecordInv.thread0 {pc : RecordPc} {e : ReportedError} (h : RecordInv c s)
    (hb : b < c.numBlocks) (hbar : (s.blocks b).AtBarrier)
    (hpassed : ∀ i, (s.pcs b).Passed i → pc.Passed i)
    (hfields : ∀ i, pc.Passed i → (c.report b (s.blocks b)).isSome = true →
      (s.pcs b).Passed i ∨ ∃ r, c.report b (s.blocks b) = some r ∧ e.field i = r.field i)
    (hkeep : ∀ i, e.field i = s.record.field i ∨
      (pc.Passed i ∧ ∃ r, c.report b (s.blocks b) = some r ∧ e.field i = r.field i)) :
    RecordInv c { s with record := e, pcs := Function.update s.pcs b pc } := by
  refine ⟨h.reach, fun v hv hne => ?_, fun i hi => ?_⟩
  · by_cases hvb : v = b
    · rw [hvb]
      exact hbar
    · dsimp only at hne
      rw [Function.update_of_ne hvb] at hne
      exact h.barrier v hv hne
  · have hmono : ∀ v, (s.pcs v).Passed i → (Function.update s.pcs b pc v).Passed i := by
      intro v hv
      by_cases hvb : v = b
      · rw [hvb, Function.update_self]
        exact hpassed i (hvb ▸ hv)
      · rw [Function.update_of_ne hvb]
        exact hv
    have hself : pc.Passed i → (Function.update s.pcs b pc b).Passed i := by
      rw [Function.update_self]
      exact id
    rcases hkeep i with hk | ⟨hp, r, hr, he⟩
    · dsimp only at hi
      obtain ⟨v, hv, hp, hs⟩ := hi
      have hold : (s.pcs v).Passed i ∨
          ∃ r, c.report b (s.blocks b) = some r ∧ e.field i = r.field i ∧ pc.Passed i := by
        by_cases hvb : v = b
        · subst hvb
          rw [Function.update_self] at hp
          rcases hfields i hp hs with ho | ⟨r, hr, he⟩
          · exact Or.inl ho
          · exact Or.inr ⟨r, hr, he, hp⟩
        · rw [Function.update_of_ne hvb] at hp
          exact Or.inl hp
      rcases hold with ho | ⟨r, hr, he, hp'⟩
      · obtain ⟨u, hu, hpu, r, hr, he⟩ := h.fields i ⟨v, hv, ho, hs⟩
        exact ⟨u, hu, hmono u hpu, r, hr, hk.trans he⟩
      · exact ⟨b, hb, hself hp', r, hr, he⟩
    · exact ⟨b, hb, hself hp, r, hr, he⟩

theorem RecordInv.step {a : RecordAction} (h : RecordInv c s) (ha : c.act a s = some t) :
    RecordInv c t := by
  obtain ⟨b, w, x, hb, hx, rfl⟩ | ⟨b, hb, hpc, hbar, rfl⟩ | ⟨b, i, r, hb, hpc, hr, rfl⟩ :=
    act_cases ha
  · exact h.warp hb hx
  · refine h.thread0 hb hbar (fun i hi => ?_) (fun i hi hs => ?_) fun i => Or.inl rfl
    · rw [hpc] at hi
      cases hi
    · rw [if_pos hs] at hi
      exact absurd hi (Nat.not_lt_zero _)
  · have hbar := h.barrier b hb (by rw [hpc]; exact fun hc => nomatch hc)
    refine h.thread0 hb hbar (fun j hj => ?_) (fun j hj _ => ?_) fun j => ?_
    · rw [hpc] at hj
      exact passed_stage_succ.mpr (le_of_lt hj)
    · rcases lt_or_eq_of_le (passed_stage_succ.mp hj) with hlt | heq
      · left
        rw [hpc]
        exact hlt
      · right
        refine ⟨r, hr, ?_⟩
        rw [ReportedError.field_store, if_pos heq]
    · rw [ReportedError.field_store]
      split
      next heq =>
        right
        exact ⟨passed_stage_succ.mpr (le_of_eq heq), r, hr, rfl⟩
      next => exact Or.inl rfl

theorem RecordInv.of_reachable (h : c.Reachable s) : RecordInv c s := by
  refine h.invariant (P := fun s => RecordInv c s) (fun s hs => ?_) fun s t hp hst => ?_
  · obtain ⟨a, rfl⟩ := hs
    refine ⟨fun b _ => ⟨a b, .of_init rfl⟩, fun b _ hne => absurd rfl hne, fun i hi => ?_⟩
    obtain ⟨b, -, hp, -⟩ := hi
    cases hp
  · obtain ⟨a, ha⟩ := hst
    exact hp.step ha

/-- With one warp for each chunk and records that mix to nothing new, every run ends well. -/
theorem recordsRight_of (hw : ∀ b, b < c.numBlocks → c.OneWarp b)
    (hm : ReportedError.MixClosed c.chunkRecords) : c.RecordsRight := by
  intro s hs
  have hinv := RecordInv.of_reachable hs
  have hright : ∀ b, b < c.numBlocks → (s.blocks b).AtBarrier →
      c.ReducedRight b (s.blocks b) := by
    intro b hb hbar
    obtain ⟨a, ha⟩ := hinv.reach b hb
    exact (hw b hb).reducedRight ha hbar
  refine ⟨hright, fun hd hsome => ?_⟩
  obtain ⟨b, hb, hsome⟩ := hsome
  have hpick : ∀ i, ∃ r ∈ c.chunkRecords, s.record.field i = r.field i := by
    intro i
    obtain ⟨v, hv, -, r, hr, he⟩ := hinv.fields i ⟨b, hb, by rw [hd b hb]; trivial, hsome⟩
    have hbar := hinv.barrier v hv (by rw [hd v hv]; exact fun h => nomatch h)
    rw [report_eq_of_reducedRight (hright v hv hbar)] at hr
    exact ⟨r, ⟨v, hv, hr⟩, he⟩
  choose pick hmem hfield using hpick
  obtain ⟨r, ⟨v, hv, hr⟩, he⟩ := hm pick hmem
  have hbar := hinv.barrier v hv (by rw [hd v hv]; exact fun h => nomatch h)
  rw [← report_eq_of_reducedRight (hright v hv hbar)] at hr
  refine ⟨v, hv, ?_⟩
  rw [hr, ReportedError.ext_field fun i => (he i).trans (hfield i).symm]

end Invariant

section Runs

/-- A block alone goes on to any state of its reduction. -/
theorem Reachable.lift_block {a : UInt8} (h : c.Reachable s) (hb : b < c.numBlocks)
    (hs : s.blocks b = .start a) (hx : BlockErrors.Reachable (c.blockWarpErrors b) a x) :
    c.Reachable { s with blocks := Function.update s.blocks b x } := by
  obtain ⟨x₀, rfl, hrun⟩ := hx
  induction hrun with
  | refl =>
    rw [← hs, Function.update_eq_self]
    exact h
  | tail _ hstep ih =>
    obtain ⟨w, hw⟩ := hstep
    refine ih.tail ⟨.warp b w, ?_⟩
    simp only [act, hb, if_true, Function.update_self, hw, Option.map_some, Function.update_idem]

/-- All blocks come to the barrier, each in a state of its own. -/
theorem exists_reduced {a : Nat → UInt8} {y : Nat → BlockErrors}
    (hy : ∀ b, b < c.numBlocks → BlockErrors.Reachable (c.blockWarpErrors b) (a b) (y b)) {n : Nat}
    (hn : n ≤ c.numBlocks) :
    c.Reachable ⟨fun b => if b < n then y b else .start (a b), fun _ => .reduce,
      ⟨0, 0, 0, 0, 0⟩⟩ := by
  induction n with
  | zero => exact .of_init ⟨a, rfl⟩
  | succ n ih =>
    have hr := (ih (by omega)).lift_block (by omega : n < c.numBlocks)
      (if_neg (lt_irrefl n)) (hy n (by omega))
    have heq : Function.update (fun b => if b < n then y b else BlockErrors.start (a b)) n (y n) =
        fun b => if b < n + 1 then y b else .start (a b) := by
      funext b
      by_cases hb : b = n
      · rw [hb, Function.update_self, if_pos (Nat.lt_succ_self n)]
      · rw [Function.update_of_ne hb]
        have hiff : b < n + 1 ↔ b < n := by omega
        simp only [hiff]
    rwa [heq] at hr

/-- The threads 0 of the blocks below `n` leave the reduction. -/
theorem exists_staged (h : c.Reachable s)
    (hbar : ∀ b, b < c.numBlocks → (s.blocks b).AtBarrier) (hpc : ∀ b, s.pcs b = .reduce) {n : Nat}
    (hn : n ≤ c.numBlocks) :
    c.Reachable { s with
      pcs := fun b => if b < n then
        if (c.report b (s.blocks b)).isSome then .stage 0 else .done
      else .reduce } := by
  induction n with
  | zero =>
    have heq : s.pcs = fun b => if b < 0 then
        if (c.report b (s.blocks b)).isSome then RecordPc.stage 0 else .done else .reduce :=
      funext fun b => by rw [hpc b, if_neg (Nat.not_lt_zero b)]
    rw [← heq]
    exact h
  | succ n ih =>
    refine (ih (by omega)).tail ⟨.thread0 n, ?_⟩
    have hlt : n < c.numBlocks := by omega
    simp only [act, hlt, if_true, lt_irrefl, if_false, hbar n hlt]
    congr 2
    funext b
    by_cases hb : b = n
    · rw [hb, Function.update_self, if_pos (Nat.lt_succ_self n)]
    · rw [Function.update_of_ne hb]
      have hiff : b < n + 1 ↔ b < n := by omega
      simp only [hiff]

/-- Where the threads 0 stand when the blocks with a record are in front of field `i`, those of
`passed` in front of the next one. -/
def staged (c : ErrorReporters) (y : Nat → BlockErrors) (passed : Nat → Prop)
    [DecidablePred passed] (i b : Nat) : RecordPc :=
  if b < c.numBlocks then
    if (c.report b (y b)).isSome then .stage (if passed b then i + 1 else i) else .done
  else .reduce

/-- The store of field `i` by one block. -/
theorem exists_store {y : Nat → BlockErrors} {passed : Nat → Prop} [DecidablePred passed]
    {i : Fin 5} {e r : ReportedError} {v : Nat} (h : c.Reachable ⟨y, c.staged y passed i, e⟩)
    (hv : v < c.numBlocks) (hr : c.report v (y v) = some r) (hp : ¬ passed v) :
    c.Reachable ⟨y, c.staged y (fun b => passed b ∨ b = v) i, r.store i e⟩ := by
  have hpc : c.staged y passed i v = .store i := by
    rw [staged, if_pos hv, if_pos (by rw [hr]; rfl), if_neg hp, RecordPc.stage, dif_pos i.isLt]
  refine h.tail ⟨.thread0 v, ?_⟩
  simp only [act, hv, if_true, hpc, hr, Option.map_some]
  congr 2
  funext b
  by_cases hb : b = v
  · rw [hb, Function.update_self, staged, if_pos hv, if_pos (by rw [hr]; rfl),
      if_pos (Or.inr rfl)]
  · rw [Function.update_of_ne hb]
    simp only [staged, hb, or_false]

/-- The blocks below `n` other than `v` store field `i`; the other fields stay. -/
theorem exists_sweep {y : Nat → BlockErrors} {i : Fin 5} {e : ReportedError} (v : Nat)
    (h : c.Reachable ⟨y, c.staged y (fun _ => False) i, e⟩) {n : Nat} (hn : n ≤ c.numBlocks) :
    ∃ e', (∀ j, j ≠ i → e'.field j = e.field j) ∧
      c.Reachable ⟨y, c.staged y (fun b => b < n ∧ b ≠ v) i, e'⟩ := by
  induction n with
  | zero =>
    refine ⟨e, fun j _ => rfl, ?_⟩
    have heq : c.staged y (fun _ => False) i = c.staged y (fun b => b < 0 ∧ b ≠ v) i := by
      funext b
      simp only [staged, Nat.not_lt_zero, false_and]
    rwa [← heq]
  | succ n ih =>
    obtain ⟨e', hkeep, hr⟩ := ih (by omega)
    by_cases hstore : n ≠ v ∧ (c.report n (y n)).isSome = true
    · obtain ⟨r, hrep⟩ := Option.isSome_iff_exists.mp hstore.2
      refine ⟨r.store i e', fun j hj => ?_, ?_⟩
      · rw [ReportedError.field_store, if_neg hj, hkeep j hj]
      · have hs := exists_store hr (by omega : n < c.numBlocks) hrep
          fun hc => absurd hc.1 (lt_irrefl n)
        have heq : c.staged y (fun b => (b < n ∧ b ≠ v) ∨ b = n) i =
            c.staged y (fun b => b < n + 1 ∧ b ≠ v) i := by
          funext b
          have hiff : (b < n ∧ b ≠ v) ∨ b = n ↔ b < n + 1 ∧ b ≠ v := by
            have := hstore.1
            omega
          simp only [staged, hiff]
        rwa [← heq]
    · refine ⟨e', hkeep, ?_⟩
      have heq : c.staged y (fun b => b < n ∧ b ≠ v) i =
          c.staged y (fun b => b < n + 1 ∧ b ≠ v) i := by
        funext b
        by_cases hb : b = n
        · subst hb
          by_cases hv : b = v
          · simp only [staged, hv, ne_eq, not_true, and_false]
          · have hno : ¬ (c.report b (y b)).isSome = true := fun hc => hstore ⟨hv, hc⟩
            simp only [staged, if_neg hno]
        · have hiff : b < n ∧ b ≠ v ↔ b < n + 1 ∧ b ≠ v := by omega
          simp only [staged, hiff]
      rwa [← heq]

/-- Every block stores field `i`, block `v` as the last. -/
theorem exists_field {y : Nat → BlockErrors} {i : Fin 5} {e r : ReportedError} {v : Nat}
    (h : c.Reachable ⟨y, c.staged y (fun _ => False) i, e⟩) (hv : v < c.numBlocks)
    (hr : c.report v (y v) = some r) :
    ∃ e', (∀ j, j ≠ i → e'.field j = e.field j) ∧ e'.field i = r.field i ∧
      c.Reachable ⟨y, c.staged y (fun _ => False) (i + 1 : Nat), e'⟩ := by
  obtain ⟨e', hkeep, hs⟩ := exists_sweep v h (le_refl c.numBlocks)
  refine ⟨r.store i e', fun j hj => ?_, ?_, ?_⟩
  · rw [ReportedError.field_store, if_neg hj, hkeep j hj]
  · rw [ReportedError.field_store, if_pos rfl]
  · have hl := exists_store hs hv hr fun hc => hc.2 rfl
    have heq : c.staged y (fun b => (b < c.numBlocks ∧ b ≠ v) ∨ b = v) i =
        c.staged y (fun _ => False) (i + 1 : Nat) := by
      funext b
      by_cases hb : b < c.numBlocks
      · have hiff : (b < c.numBlocks ∧ b ≠ v) ∨ b = v := by omega
        simp only [staged, hiff, if_true, if_false]
      · simp only [staged, hb, if_false]
    rwa [← heq]

/-- Any combination of fields of the records can end up in the record. -/
theorem exists_mixed {y : Nat → BlockErrors} {e : ReportedError} {pick : Fin 5 → ReportedError}
    (h : c.Reachable ⟨y, c.staged y (fun _ => False) 0, e⟩)
    (hp : ∀ i, ∃ v, v < c.numBlocks ∧ c.report v (y v) = some (pick i)) {n : Nat} (hn : n ≤ 5) :
    ∃ e', (∀ j : Fin 5, j.val < n → e'.field j = (pick j).field j) ∧
      c.Reachable ⟨y, c.staged y (fun _ => False) n, e'⟩ := by
  induction n with
  | zero => exact ⟨e, fun j hj => absurd hj (Nat.not_lt_zero _), h⟩
  | succ n ih =>
    obtain ⟨e', hlow, hs⟩ := ih (by omega)
    obtain ⟨v, hv, hr⟩ := hp ⟨n, by omega⟩
    obtain ⟨e₂, hkeep, hnew, ht⟩ := exists_field (i := ⟨n, by omega⟩) hs hv hr
    refine ⟨e₂, fun j hj => ?_, ht⟩
    by_cases hjn : j.val = n
    · rw [show j = ⟨n, by omega⟩ from Fin.ext hjn]
      exact hnew
    · rw [hkeep j fun hc => hjn (congrArg Fin.val hc)]
      exact hlow j (by omega)

/-- Records that mix to something new make some run end with it. -/
theorem mixClosed_of_recordsRight (h : c.RecordsRight) (hw : ∀ b, b < c.numBlocks → c.OneWarp b) :
    ReportedError.MixClosed c.chunkRecords := by
  intro pick hpick
  have hrun := fun b => exists_atBarrier (c.blockWarpErrors b) 0
  choose y hy hbar using hrun
  have hred := exists_reduced (fun b _ => hy b) (le_refl c.numBlocks)
  generalize hz : (fun b => if b < c.numBlocks then y b else BlockErrors.start 0) = z at hred
  have hzy : ∀ b, b < c.numBlocks → z b = y b := by
    intro b hb
    rw [← hz]
    exact if_pos hb
  have hrep : ∀ b, b < c.numBlocks → c.report b (z b) = c.report b (c.reduced b) := by
    intro b hb
    rw [hzy b hb]
    exact report_eq_of_reducedRight ((hw b hb).reducedRight (hy b) (hbar b))
  have hstage := exists_staged hred (fun b hb => by dsimp only; rw [hzy b hb]; exact hbar b)
    (fun _ => rfl) (le_refl c.numBlocks)
  have hpc : (fun b => if b < c.numBlocks then
      if (c.report b (z b)).isSome then RecordPc.stage 0 else .done else .reduce) =
        c.staged z (fun _ => False) 0 := by
    funext b
    simp only [staged, if_false]
  dsimp only at hstage
  rw [hpc] at hstage
  have hblocks : ∀ i, ∃ v, v < c.numBlocks ∧ c.report v (z v) = some (pick i) := by
    intro i
    obtain ⟨v, hv, hr⟩ := hpick i
    exact ⟨v, hv, (hrep v hv).trans hr⟩
  obtain ⟨e, hfields, hend⟩ := exists_mixed hstage hblocks (le_refl 5)
  obtain ⟨v, hv, hr⟩ := hblocks 0
  obtain ⟨b, hb, hrec⟩ := (h _ hend).2
    (fun b hb => by
      simp only [staged, hb, if_true, if_false]
      split <;> rfl)
    ⟨v, hv, by rw [hr]; rfl⟩
  refine ⟨e, ⟨b, hb, (hrep b hb).symm.trans hrec⟩, fun i => hfields i i.isLt⟩

/-- Two warps with mismatches make some run leave a wrong first offset. -/
theorem oneWarp_of_recordsRight (h : c.RecordsRight) (hb : b < c.numBlocks) : c.OneWarp b := by
  by_contra hno
  obtain ⟨x, hx, hbar, hwrong⟩ := exists_not_reducedRight hno 0
  have h0 : c.Reachable ⟨fun _ => .start 0, fun _ => .reduce, ⟨0, 0, 0, 0, 0⟩⟩ :=
    .of_init ⟨fun _ => 0, rfl⟩
  have hlift := h0.lift_block hb rfl hx
  have hright := (h _ hlift).1 b hb
  simp only [Function.update_self] at hright
  exact hwrong (hright hbar)

/-- In every interleaving the variables of the blocks and the record are right, exactly if the
mismatches of every chunk are found by one warp and the records of the chunks mix to nothing new. -/
theorem recordsRight_iff (c : ErrorReporters) : c.RecordsRight ↔
    (∀ b, b < c.numBlocks → c.OneWarp b) ∧ ReportedError.MixClosed c.chunkRecords := by
  constructor
  · intro h
    have hw : ∀ b, b < c.numBlocks → c.OneWarp b := fun b hb => oneWarp_of_recordsRight h hb
    exact ⟨hw, mixClosed_of_recordsRight h hw⟩
  · intro h
    exact recordsRight_of h.1 h.2

end Runs

end ErrorReporters

/-- One block whose chunk has a wrong byte for each of two warps. -/
def twoWrongWarps : ErrorReporters where
  toCudaKernel := depth128 65536
  mem := fun a => if a = 1024 ∨ a = 1536 then 9 else 1
  numBlocks := 1
  item := fun _ => (depth128 65536).workItem 0 1
  markerAfter := fun _ => 1
  chunkSize_ge := by decide +kernel
  chunkSize_lt := by decide +kernel

theorem twoWrongWarps_not_recordsRight : ¬ twoWrongWarps.RecordsRight := by
  intro h
  have hone := ErrorReporters.oneWarp_of_recordsRight h (b := 0) (by decide)
  have hd : twoWrongWarps.chunkData (twoWrongWarps.item 0) = 1024 := by decide +kernel
  have hp : (twoWrongWarps.item 0).expectedPattern = 1 := by decide +kernel
  have hmem : ∀ o w, o = 0 ∨ o = 512 → portionOwner 1024 twoWrongWarps.chunkSize o / WARP_SIZE = w →
      (twoWrongWarps.itemWarpMismatches twoWrongWarps.mem (twoWrongWarps.item 0) w).Nonempty := by
    intro o w ho hw
    refine ⟨o, Finset.mem_filter.mpr ⟨CudaKernel.mem_itemMismatches.mpr ⟨?_, ?_⟩, ?_⟩⟩
    · have hn : 512 < twoWrongWarps.chunkSize := by decide +kernel
      omega
    · rw [hd, hp]
      rcases ho with rfl | rfl <;> decide
    · rw [hd]
      exact hw
  have hw0 := hmem 0 0 (Or.inl rfl) (by decide +kernel)
  have hw1 := hmem 512 1 (Or.inr rfl) (by decide +kernel)
  exact absurd (hone 0 1 hw0 hw1) (by decide)

end Perftest
