import Perftest.CtxDestroy

namespace Perftest

open Custody InitResource

namespace InitParams

variable {p : InitParams} {m : InitMarks} {failing : InitStep} {x y : InitState}

section Made

/-- The DEKs and the mkeys that were made. -/
def Counts (d k : Nat) (x : InitState) : Prop := x.dekIndex = d ∧ x.mkeyIndex = k

theorem createDeks_counts {d k : Nat} (n : Nat) (h : Counts d k x) :
    Ends (createDeks failing n x) (Counts (d + n) k) fun _ => True := by
  induction n generalizing d x with
  | zero => exact h
  | succ n ih =>
    unfold createDeks
    apply Ends.bind (Q := Counts d k)
    · exact ends_orGoto (ends_check h fun _ => trivial)
    intro y hy
    apply Ends.bind (Q := Counts d k)
    · exact ends_orGoto (ends_make (fun _ => hy) fun _ => trivial)
    intro z hz
    have hnext := ih (x := { z with dekIndex := z.dekIndex + 1 }) (d := d + 1)
      ⟨congrArg (· + 1) hz.1, hz.2⟩
    rwa [Nat.add_assoc, Nat.add_comm 1 n] at hnext

theorem createMkeys_counts {d k : Nat} (n : Nat) (h : Counts d k x) :
    Ends (createMkeys failing n x) (Counts d (k + n)) fun _ => True := by
  induction n generalizing k x with
  | zero => exact h
  | succ n ih =>
    unfold createMkeys
    apply Ends.bind (Q := Counts d k)
    · exact ends_orGoto (ends_make (fun _ => h) fun _ => trivial)
    intro z hz
    have hnext := ih (x := { z with mkeyIndex := z.mkeyIndex + 1 }) (k := k + 1)
      ⟨hz.1, congrArg (· + 1) hz.2⟩
    rwa [Nat.add_assoc, Nat.add_comm 1 n] at hnext

def dekCount (p : InitParams) : Nat := if p.aesXts then p.dataEncKeysNumber else 0

def mkeyCount (p : InitParams) : Nat := if p.aesXts || p.sigOffload then p.numOfQps else 0

theorem createKeys_counts (h : Counts 0 0 x) :
    Ends (p.createKeys failing x) (Counts p.dekCount p.mkeyCount) fun _ => True := by
  unfold createKeys
  cases haes : p.aesXts with
  | true =>
    apply Ends.bind (Q := Counts p.dekCount p.mkeyCount)
    · refine (createDeks_counts p.dataEncKeysNumber h).bind fun y hy => ?_
      have hmade : Ends (createMkeys failing p.numOfQps y) _ fun _ => True :=
        createMkeys_counts p.numOfQps hy
      simpa [dekCount, mkeyCount, haes] using hmade
    · intro y hy
      exact ends_given_false (p.aes_alone haes) hy
  | false =>
    apply Ends.bind (Q := Counts 0 0)
    · exact h
    intro y hy
    apply ends_given
    · intro hsig
      apply Ends.bind (Q := Counts 0 0)
      · exact ends_orGoto (ends_check hy fun _ => trivial)
      intro z hz
      have hmade : Ends (createMkeys failing p.numOfQps z) _ fun _ => True :=
        createMkeys_counts p.numOfQps hz
      simpa [dekCount, mkeyCount, haes, hsig] using hmade
    · intro hsig
      simpa [dekCount, mkeyCount, haes, hsig] using hy

theorem createDmah_counts {d k : Nat} (h : Counts d k x) :
    Ends (given p.needDmah (createDmah failing) x) (Counts d k) fun _ => True := by
  apply ends_given
  · intro _
    apply Ends.map (Q := Counts d k)
    · exact ends_orGoto (ends_make (fun _ => h) fun _ => trivial)
    · intro y hy
      exact hy
  · intro _
    exact h

theorem createQps_made (n : Nat) {q : Nat}
    (h : Stands (p.heldQps (qpMarks m q)) (qpMarks m q) x) :
    Ends (p.createQps failing n x)
      (Stands (p.heldQps (qpMarks m (q + n))) (qpMarks m (q + n))) fun _ => True := by
  induction n generalizing q x with
  | zero => exact h
  | succ n ih =>
    have hq : x.qpIndex = q := congrArg InitMarks.qpIndex h.marks
    have hnew : .qp q ∉ p.heldQps (qpMarks m q) :=
      next_not_mem (fun _ _ => InitResource.qp.inj) (below_heldSrqs.not_mem (by rw [rank]))
    have hnext : p.heldQps (qpMarks m (q + 1)) = p.heldQps (qpMarks m q) ++ [.qp q] := by
      rw [heldQps, heldQps, qpMarks, qpMarks]
      simp [List.range_succ]
      rfl
    unfold createQps
    rw [hq]
    apply Ends.bind (Q := Stands (p.heldQps (qpMarks m (q + 1))) (qpMarks m q))
    · refine ends_orGoto (ends_make (fun _ => ?_) fun _ => trivial)
      rw [hnext]
      exact h.acquire hnew
    intro y hy
    apply Ends.bind (Q := Stands (p.heldQps (qpMarks m (q + 1))) (qpMarks m q))
    · apply ends_given
      · intro _
        exact ends_orGoto (ends_check hy fun _ => trivial)
      · intro _
        exact hy
    intro z hz
    have hrest := ih (q := q + 1) (x := { z with qpIndex := z.qpIndex + 1 })
      ⟨hz.run, congrArg (fun m : InitMarks => { m with qpIndex := m.qpIndex + 1 }) hz.marks⟩
    rwa [Nat.add_assoc, Nat.add_comm 1 n] at hrest

/-- What a successful `ctx_init` leaves behind. -/
structure AllMade (p : InitParams) (x : InitState) : Prop where
  td : x.td = p.noLock
  pad : x.pad = p.needParentDomain
  deks : x.dekIndex = p.dekCount
  mkeys : x.mkeyIndex = p.mkeyCount
  qps : x.qpIndex = p.numOfQps
  run : Custody.run needs [] x.trace = some (p.heldQps x.toInitMarks)

theorem initSteps_made (hq : (!p.workRdmaCm || p.cmId) = true) :
    Ends (p.initSteps failing ⟨⟨false, false, false, 0, 0, 0⟩, []⟩) p.AllMade fun _ => True := by
  have hstart : Stands [] ⟨false, false, false, 0, 0, 0⟩
      ⟨⟨false, false, false, 0, 0, 0⟩, []⟩ := ⟨rfl, rfl⟩
  unfold initSteps
  apply Ends.bind (Q := Stands [] ⟨false, false, false, 0, 0, 0⟩)
  · apply ends_given
    · intro _
      exact ends_orGoto (ends_check hstart fun _ => trivial)
    · intro _
      exact hstart
  intro x hx
  apply (createChannels_ends hx).success.bind
  intro x hx
  apply Ends.bind (Q := Stands p.heldPd ⟨false, false, false, 0, 0, 0⟩)
  · exact ends_orGoto (ends_make
      (fun _ => hx.acquire (below_atCompChannel.not_mem (by rw [rank]))) fun _ => trivial)
  intro x hx
  apply (createDomains_ends hx).success.bind
  intro x hx
  have hcount : Counts 0 0 x :=
    ⟨congrArg InitMarks.dekIndex hx.marks, congrArg InitMarks.mkeyIndex hx.marks⟩
  apply ((createKeys_ends hx).and (createKeys_counts hcount)).bind
  rintro x ⟨⟨d, k, hx⟩, hcount⟩
  apply Ends.bind (Q := fun y => Stands (p.heldKeys (p.keyMarks d k)) (p.keyMarks d k) y ∧
    Counts p.dekCount p.mkeyCount y)
  · exact ends_orGoto (ends_check ⟨hx, hcount⟩ fun _ => trivial)
  rintro x ⟨hx, hcount⟩
  apply ((createDmah_ends hx).and (createDmah_counts hcount)).bind
  rintro x ⟨⟨m, htd, hpad, hqp, hx⟩, hcount⟩
  rw [Counts, hx.marks] at hcount
  apply (ends_orGoto (createMr_ends htd hpad hx)).success.bind
  intro x hx
  apply (ends_orGoto (createCqs_ends htd hpad hx)).success.bind
  intro x hx
  apply (createSrqs_ends htd hpad hx).success.bind
  intro x hx
  rw [given, if_pos hq]
  have hm : qpMarks m 0 = m := by rw [qpMarks, ← hqp]
  have hheld : p.heldQps m = p.heldSrqs m := by
    rw [heldQps, hqp, List.range_zero, List.map_nil, List.append_nil]
  have hqps : Ends (p.createQps failing p.numOfQps x)
      (Stands (p.heldQps (qpMarks m (0 + p.numOfQps))) (qpMarks m (0 + p.numOfQps)))
      fun _ => True :=
    createQps_made p.numOfQps (by rwa [hm, hheld])
  rw [Nat.zero_add] at hqps
  refine hqps.mono fun y hy => ?_
  have hmarks := hy.marks
  exact ⟨by rw [hmarks]; exact htd, by rw [hmarks]; exact hpad, by rw [hmarks]; exact hcount.1,
    by rw [hmarks]; exact hcount.2, by rw [hmarks]; rfl, by rw [hmarks]; exact hy.run⟩

end Made

end InitParams

/-- The order in which `destroy_ctx` works. -/
def CtxResource.tier : CtxResource → Nat
  | .ah _ | .init (.qp _) => 0
  | .init .srq => 1
  | .init .xrcDomain => 2
  | .init .xrcFile => 3
  | .init .sendCq => 4
  | .init .recvCq => 5
  | .init (.mr _) | .init (.nullMr _) => 6
  | .init (.ibvBuf _) => 7
  | .init .dmah => 8
  | .init (.dek _) => 9
  | .init (.mkey _) => 10
  | .init .parentDomain => 11
  | .init .td => 12
  | .init .pd => 13
  | .init .sendChannel | .init .recvChannel => 14

theorem CtxResource.tier_lt_of_needs (s r : CtxResource) (h : needs s r = true) :
    tier s < tier r := by
  have hall : ∀ r ∈ s.madeFrom, tier s < tier r := by
    cases s with
    | ah i => simp [madeFrom, tier]
    | init s => cases s <;> simp [madeFrom, InitResource.madeFrom, tier]
  exact hall r (of_decide_eq_true h)

theorem CtxResource.init_injective : Function.Injective CtxResource.init :=
  fun _ _ => CtxResource.init.inj

namespace InitParams

variable {p : InitParams} {m : InitMarks} {t : AhTable}

open CtxResource (tier)

theorem tiered_if {c : Prop} [Decidable c] {rs : List CtxResource} {a b : Nat}
    (h : Tiered tier a b rs) : Tiered tier a b (if c then rs else []) := by
  split
  next => exact h
  next => exact Tiered.nil a b

theorem tiered_single {k : Nat} (r : CtxResource) (h : tier r = k) :
    Tiered tier k (k + 1) [r] := by
  refine Tiered.tier (List.nodup_singleton r) fun s hs => ?_
  rwa [List.mem_singleton.mp hs]

theorem tiered_indexed {f : Nat → CtxResource} {k : Nat} (hf : Function.Injective f)
    (hk : ∀ i, tier (f i) = k) (n : Nat) : Tiered tier k (k + 1) ((List.range n).map f) := by
  refine Tiered.tier (List.nodup_range.map hf) fun s hs => ?_
  obtain ⟨i, -, rfl⟩ := List.mem_map.mp hs
  exact hk i

theorem mem_destroyQp {r : CtxResource} {i : Nat} : r ∈ p.destroyQp m t i ↔
    (r = .ah i ∧ p.destroysAh i = true ∧ t.allocated = true ∧ t.cell i = true) ∨
      (r = .init (.qp i) ∧ p.workRdmaCm = false ∧ i < m.qpIndex) := by
  unfold destroyQp
  simp only [List.mem_append, List.mem_ite_nil_right, List.mem_singleton, Bool.and_eq_true,
    Bool.not_eq_true', decide_eq_true_eq]
  rw [and_comm, and_comm (b := r = CtxResource.init (qp i))]

theorem tiered_destroyQps : Tiered tier 0 1 (p.destroyQps m t) := by
  apply Tiered.tier
  · refine List.nodup_flatMap.mpr ⟨fun i _ => ?_, List.nodup_range.imp fun {i j} hij => ?_⟩
    · unfold destroyQp
      split <;> split <;> simp
    · intro r hi hj
      rcases mem_destroyQp.mp hi with ⟨rfl, -⟩ | ⟨rfl, -⟩ <;>
        rcases mem_destroyQp.mp hj with ⟨h, -⟩ | ⟨h, -⟩
      · exact hij (CtxResource.ah.inj h)
      · cases h
      · cases h
      · exact hij (InitResource.qp.inj (CtxResource.init.inj h))
  · intro r hr
    obtain ⟨i, -, hi⟩ := List.mem_flatMap.mp hr
    rcases mem_destroyQp.mp hi with ⟨rfl, -⟩ | ⟨rfl, -⟩ <;> rfl

theorem map_init_if {c : Prop} [Decidable c] (rs : List InitResource) :
    (if c then rs else []).map CtxResource.init = if c then rs.map .init else [] := by
  split <;> rfl

theorem tiered_ibvBufs (n : Nat) :
    Tiered tier 7 8 (((List.range n).flatMap p.ibvBufs).map CtxResource.init) := by
  have hbufs : (List.range n).flatMap p.ibvBufs =
      if p.useCcUnprotected then (List.range n).map .ibvBuf else [] := by
    unfold ibvBufs
    split
    next => exact List.map_eq_flatMap.symm
    next => simp
  rw [hbufs, map_init_if, List.map_map]
  exact tiered_if (tiered_indexed (fun _ _ h => InitResource.ibvBuf.inj (CtxResource.init.inj h))
    (fun _ => rfl) n)

theorem tiered_destroyInit : Tiered tier 1 15 ((p.destroyInit m).map .init) := by
  have hkeys : ∀ {f : Nat → InitResource} {k : Nat} (n : Nat), Function.Injective f →
      (∀ i, tier (.init (f i)) = k) → Tiered tier k (k + 1) (((List.range n).map f).map .init) := by
    intro f k n hf hk
    rw [List.map_map]
    exact tiered_indexed (CtxResource.init_injective.comp hf) hk n
  have hmkeys : ∀ rest : List InitResource,
      (if p.aesXts then (List.range p.numOfQps).map mkey else []) ++
        ((if p.sigOffload then (List.range p.numOfQps).map mkey else []) ++ rest) =
      (if p.aesXts || p.sigOffload then (List.range p.numOfQps).map mkey else []) ++ rest := by
    intro rest
    cases ha : p.aesXts with
    | true => simp [p.aes_alone ha]
    | false => simp
  have hxrc : Tiered tier 2 4 ([xrcDomain, xrcFile].map .init) :=
    (tiered_single (k := 2) (.init xrcDomain) rfl).append
      (tiered_single (k := 3) (.init xrcFile) rfl) (by omega) (by omega)
  have hchannels : Tiered tier 14 15 (p.atCompChannel.map .init) := by
    refine Tiered.tier (nodup_atCompChannel.map CtxResource.init_injective) fun r hr => ?_
    obtain ⟨c, hc, rfl⟩ := List.mem_map.mp hr
    unfold atCompChannel at hc
    split at hc
    next => rcases List.mem_pair.mp hc with rfl | rfl <;> rfl
    next => cases hc
  unfold destroyInit
  rw [hmkeys]
  simp only [List.map_append, map_init_if]
  refine (tiered_if (tiered_single (k := 1) (.init srq) rfl)).append ?_ (by omega) (by omega)
  refine (tiered_if hxrc).append ?_ (by omega) (by omega)
  refine (tiered_single (k := 4) (.init sendCq) rfl).append ?_ (by omega) (by omega)
  refine (tiered_if (tiered_single (k := 5) (.init recvCq) rfl)).append ?_ (by omega) (by omega)
  refine (hkeys (k := 6) _ (fun _ _ => InitResource.mr.inj) fun _ => rfl).append ?_
    (by omega) (by omega)
  refine (tiered_ibvBufs _).append ?_ (by omega) (by omega)
  refine (tiered_if (tiered_single (k := 8) (.init dmah) rfl)).append ?_ (by omega) (by omega)
  refine (tiered_if (hkeys (k := 9) _ (fun _ _ => InitResource.dek.inj) fun _ => rfl)).append ?_
    (by omega) (by omega)
  refine (tiered_if (hkeys (k := 10) _ (fun _ _ => InitResource.mkey.inj) fun _ => rfl)).append ?_
    (by omega) (by omega)
  refine (tiered_if (tiered_single (k := 11) (.init parentDomain) rfl)).append ?_
    (by omega) (by omega)
  refine (tiered_if (tiered_single (k := 12) (.init td) rfl)).append ?_ (by omega) (by omega)
  exact (tiered_single (k := 13) (.init pd) rfl).append hchannels (by omega) (by omega)

theorem tiered_destroyCtx : Tiered tier 0 15 (p.destroyCtx m t) :=
  tiered_destroyQps.append tiered_destroyInit (by omega) (by omega)

/-- With no null MR `destroy_ctx` names what a successful `ctx_init` made. -/
theorem mem_destroyed {x : InitState} (hx : p.AllMade x) (hnull : p.useNullMr = false)
    (hs : p.srqExists = ((p.useSrq && p.receives) || p.useXrc)) (r : InitResource) :
    r ∈ p.heldQps x.toInitMarks ↔
      (∃ i < p.numOfQps, r = qp i) ∨ r ∈ p.destroyInit x.toInitMarks := by
  have hrecv : p.needRecvCq = (hasRecvComp p.verb || (p.connectionType = .dc && !p.dctOnly)) := by
    rw [needRecvCq, Bool.or_comm]
  have hsrqs : p.heldSrqs x.toInitMarks = p.heldCqs x.toInitMarks ++
      ((if p.useXrc then [xrcFile, xrcDomain] else []) ++ if p.srqExists then [srq] else []) := by
    rw [heldSrqs, hs]
    cases p.useXrc <;> simp
  have hdek : ∀ i, (p.aesXts = true ∧ i < p.dekCount) ↔
      (p.aesXts = true ∧ i < p.dataEncKeysNumber) := by
    intro i
    unfold dekCount
    cases p.aesXts <;> simp
  have hmkey : ∀ i, ((p.aesXts = true ∨ p.sigOffload = true) ∧ i < p.mkeyCount) ↔
      ((p.aesXts = true ∧ i < p.numOfQps) ∨ (p.sigOffload = true ∧ i < p.numOfQps)) := by
    intro i
    unfold mkeyCount
    cases p.aesXts <;> cases p.sigOffload <;> simp
  cases r <;> simp [heldQps, hsrqs, heldCqs, heldMrs, heldDmah, heldKeys, heldDeks, heldPad,
    heldTd, heldPd, atCompChannel, mrBlock, ibvBufs, mrCount, destroyInit, hx.td, hx.pad, hx.deks,
    hx.mkeys, hx.qps, hnull, hrecv, hdek, hmkey]

theorem mem_destroyCtx_init {r : InitResource} (hcm : p.workRdmaCm = false) :
    .init r ∈ p.destroyCtx m t ↔
      (∃ i < p.numOfQps, i < m.qpIndex ∧ r = qp i) ∨ r ∈ p.destroyInit m := by
  unfold destroyCtx destroyQps
  rw [List.mem_append, List.mem_map_of_injective CtxResource.init_injective, List.mem_flatMap]
  refine or_congr_left ⟨?_, ?_⟩
  · rintro ⟨i, hi, hr⟩
    rcases mem_destroyQp.mp hr with ⟨h, -⟩ | ⟨h, -, hq⟩
    · cases h
    · exact ⟨i, List.mem_range.mp hi, hq, CtxResource.init.inj h⟩
  · rintro ⟨i, hi, hq, rfl⟩
    exact ⟨i, List.mem_range.mpr hi, mem_destroyQp.mpr (.inr ⟨rfl, hcm, hq⟩)⟩

theorem mem_destroyCtx_ah {i : Nat} : .ah i ∈ p.destroyCtx m t ↔
    i < p.numOfQps ∧ p.destroysAh i = true ∧ t.allocated = true ∧ t.cell i = true := by
  unfold destroyCtx destroyQps
  rw [List.mem_append, List.mem_flatMap]
  constructor
  · rintro (⟨j, hj, hr⟩ | hr)
    · rcases mem_destroyQp.mp hr with ⟨h, hd⟩ | ⟨h, -⟩
      · rw [CtxResource.ah.inj h]
        exact ⟨List.mem_range.mp hj, hd⟩
      · cases h
    · obtain ⟨r, -, h⟩ := List.mem_map.mp hr
      cases h
  · rintro ⟨hi, hd⟩
    exact .inl ⟨i, List.mem_range.mpr hi, mem_destroyQp.mpr (.inl ⟨rfl, hd⟩)⟩

theorem nullMr_not_mem_destroyCtx (i : Nat) : .init (.nullMr i) ∉ p.destroyCtx m t := by
  unfold destroyCtx destroyQps
  rw [List.mem_append, List.mem_map_of_injective CtxResource.init_injective, List.mem_flatMap]
  rintro (⟨j, -, hr⟩ | hr)
  · rcases mem_destroyQp.mp hr with ⟨h, -⟩ | ⟨h, -⟩
    · cases h
    · cases CtxResource.init.inj h
  · simp [destroyInit, ibvBufs, atCompChannel] at hr

variable {failing : InitStep} {ans : ConnectAnswers} {garbage : Nat → Bool}

theorem ctxInit_made (hcm : p.workRdmaCm = false) (h : (p.ctxInit failing).2 = true) :
    p.AllMade (p.ctxInit failing).1 := by
  have hmade : Ends (p.initSteps failing ⟨⟨false, false, false, 0, 0, 0⟩, []⟩) p.AllMade
      fun _ => True := initSteps_made (by rw [hcm]; rfl)
  unfold ctxInit at h ⊢
  cases hs : p.initSteps failing ⟨⟨false, false, false, 0, 0, 0⟩, []⟩ with
  | ok x =>
    rw [hs] at hmade
    exact hmade
  | error e =>
    rw [hs] at h
    cases h

theorem connectedAhs_kept : (p.connectedAhs ans garbage).Kept p.toPerftestParameters garbage
    p.numOfQps := by
  have hk : (p.connectedAhs ans garbage).Kept p.toPerftestParameters garbage (0 + p.numOfQps) :=
    PerftestParameters.connectAhs_kept p.numOfQps
      (AhTable.Kept.fresh p.toPerftestParameters garbage)
  rwa [Nat.zero_add] at hk

/-- The life of the resources comes down to the question whether `destroy_ctx` names each of them
once. -/
theorem lifetime_returned (hcm : p.workRdmaCm = false) (h : (p.ctxInit failing).2 = true) :
    AllReturned CtxResource.needs (p.lifetime failing ans garbage) ↔
      ∀ r, r ∈ p.destroyCtx (p.ctxInit failing).1.toInitMarks (p.connectedAhs ans garbage) ↔
        r ∈ (p.heldQps (p.ctxInit failing).1.toInitMarks).map .init ++
          (p.connectedAhs ans garbage).made.map .ah := by
  have hx := ctxInit_made hcm h
  have hkept : (p.connectedAhs ans garbage).Kept p.toPerftestParameters garbage p.numOfQps :=
    connectedAhs_kept
  have hd : ((p.heldQps (p.ctxInit failing).1.toInitMarks).map CtxResource.init ++
      (p.connectedAhs ans garbage).made.map CtxResource.ah).Nodup := by
    refine List.nodup_append.mpr ⟨?_, ?_, ?_⟩
    · exact (nodup_of_run List.nodup_nil hx.run).map CtxResource.init_injective
    · exact hkept.nodup.map fun _ _ => CtxResource.ah.inj
    · intro r hr s hs heq
      obtain ⟨a, -, rfl⟩ := List.mem_map.mp hr
      obtain ⟨i, -, rfl⟩ := List.mem_map.mp hs
      cases heq
  have hinit : run CtxResource.needs [] ((p.ctxInit failing).1.trace.map (Event.map .init)) =
      some ((p.heldQps (p.ctxInit failing).1.toInitMarks).map .init) := by
    have hn : ∀ s r : InitResource, CtxResource.needs (.init s) (.init r) = s.needs r := by
      intro s r
      unfold CtxResource.needs CtxResource.madeFrom InitResource.needs
      simp only [List.mem_map_of_injective CtxResource.init_injective]
    have hmap := run_map CtxResource.init_injective hn [] (p.ctxInit failing).1.trace
    rwa [hx.run] at hmap
  have htiers := tiered_destroyCtx (p := p) (m := (p.ctxInit failing).1.toInitMarks)
    (t := p.connectedAhs ans garbage)
  rw [AllReturned, lifetime, run_append hinit, run_append (run_acquires hd),
    run_release_sorted_iff CtxResource.tier_lt_of_needs htiers.sorted]
  exact List.perm_ext_iff_of_nodup htiers.nodup hd

/-- Where `ctx_init` has succeeded and `ctx_connect` has succeeded or failed anywhere,
`destroy_ctx` gives back each resource once, and behind all that were made from it, just when there
is no null MR and no cell of `ctx->ah` that `ctx_connect` did not write holds what was there before
while another holds a handle. -/
theorem destroy_ctx_returns_all_iff (p : InitParams) (failing : InitStep) (ans : ConnectAnswers)
    (garbage : Nat → Bool) (hs : p.srqExists = ((p.useSrq && p.receives) || p.useXrc))
    (hcm : p.workRdmaCm = false) (h : (p.ctxInit failing).2 = true) :
    (AllReturned CtxResource.needs (p.lifetime failing ans garbage) ↔
      p.useNullMr = false ∧ ((p.connectedAhs ans garbage).made = [] ∨
        ∀ i < p.numOfQps, p.destroysAh i = true → i ∉ (p.connectedAhs ans garbage).written →
          garbage i = false)) ∧
    ((p.ctxConnect ans).2 = true →
      (AllReturned CtxResource.needs (p.lifetime failing ans garbage) ↔ p.useNullMr = false)) := by
  have hx := ctxInit_made hcm h
  have hkept : (p.connectedAhs ans garbage).Kept p.toPerftestParameters garbage p.numOfQps :=
    connectedAhs_kept
  have hall : AllReturned CtxResource.needs (p.lifetime failing ans garbage) ↔
      p.useNullMr = false ∧ ((p.connectedAhs ans garbage).made = [] ∨
        ∀ i < p.numOfQps, p.destroysAh i = true → i ∉ (p.connectedAhs ans garbage).written →
          garbage i = false) := by
    rw [lifetime_returned hcm h]
    constructor
    · intro hmem
      constructor
      · by_contra hnull
        have hheld : nullMr 0 ∈ p.heldQps (p.ctxInit failing).1.toInitMarks :=
          List.mem_append_left _
            (List.mem_append_left _ (nullMr_mem_heldCqs (Bool.eq_true_of_not_eq_false hnull)))
        exact nullMr_not_mem_destroyCtx 0
          ((hmem _).mpr (List.mem_append_left _ (List.mem_map_of_mem hheld)))
      · by_cases hmade : (p.connectedAhs ans garbage).made = []
        · exact .inl hmade
        right
        intro i hi hd hw
        by_contra hg
        have hcell := (hkept.stale i hw).trans (Bool.eq_true_of_not_eq_false hg)
        have hdestroyed := (hmem (.ah i)).mp
          (mem_destroyCtx_ah.mpr ⟨hi, hd, hkept.allocated.mpr hmade, hcell⟩)
        rcases List.mem_append.mp hdestroyed with hm | hm
        · obtain ⟨r, -, hr⟩ := List.mem_map.mp hm
          cases hr
        · obtain ⟨j, hj, hr⟩ := List.mem_map.mp hm
          rw [CtxResource.ah.inj hr] at hj
          exact hw (hkept.made i hj)
    · rintro ⟨hnull, hstale⟩ r
      cases r with
      | init r =>
        have hah : CtxResource.init r ∉ (p.connectedAhs ans garbage).made.map .ah := by
          intro hm
          obtain ⟨j, -, hj⟩ := List.mem_map.mp hm
          cases hj
        rw [mem_destroyCtx_init hcm, List.mem_append, or_iff_left hah,
          List.mem_map_of_injective CtxResource.init_injective, mem_destroyed hx hnull hs, hx.qps]
        refine or_congr_left (exists_congr fun i => ?_)
        simp only [and_self_left]
      | ah i =>
        have hinit : CtxResource.ah i ∉
            (p.heldQps (p.ctxInit failing).1.toInitMarks).map .init := by
          intro hm
          obtain ⟨r, -, hr⟩ := List.mem_map.mp hm
          cases hr
        rw [mem_destroyCtx_ah, List.mem_append, or_iff_right hinit,
          List.mem_map_of_injective fun _ _ => CtxResource.ah.inj]
        constructor
        · rintro ⟨hi, hd, halloc, hcell⟩
          by_cases hw : i ∈ (p.connectedAhs ans garbage).written
          · exact (hkept.cell i hw).mp hcell
          · rcases hstale with hm | hg
            · exact absurd hm (hkept.allocated.mp halloc)
            · have hnot := hg i hi hd hw
              rw [← hkept.stale i hw, hcell] at hnot
              cases hnot
        · intro hm
          have hw := hkept.made i hm
          exact ⟨(hkept.written i hw).1, (hkept.written i hw).2,
            hkept.allocated.mpr (List.ne_nil_of_mem hm), (hkept.cell i hw).mpr hm⟩
  refine ⟨hall, fun hc => ?_⟩
  rw [hall, and_iff_left]
  right
  intro i hi hd hw
  refine absurd (PerftestParameters.connectAhs_written p.numOfQps hc ?_ i (by omega) hd) hw
  intro j hj
  exact absurd hj (Nat.not_lt_zero j)

end InitParams

/-- `srq_exists` as `force_dependecies` leaves it. -/
theorem forceDependecies_srqExists {b : Build} {p d : PerftestParameters}
    (h : forceDependecies b p = .ok d) : d.srqExists = (p.srqExists ||
      (d.useSrq && (d.tst = .lat || d.machine = .server || d.duplex)) || d.useXrc) := by
  obtain ⟨-, rfl⟩ := Checked.runAll_eq_ok_iff.mp h
  rfl

theorem eventInit_no_xrc (h : eventInit.useXrc = true) :
    ConnectionType.ud = .xrc ∧ eventInit.useSrq = true := by
  cases h

/-- A client of `ib_send_bw` with two UD QPs. -/
def udInit : InitParams :=
  { eventInit with
    connectionType := .ud
    machine := .client
    numOfQps := 2
    qps_pos := Nat.two_pos
    xrc_srq := eventInit_no_xrc }

/-- The second QP does not come to RTR. -/
def secondStays : ConnectAnswers := { PerftestParameters.allAnswers with rtr := fun i => i = 0 }

/-- A client that fails at its second QP destroys whatever the second cell of `ctx->ah` holds. -/
theorem udInit_returned : (udInit.ctxInit (.make .srq)).2 = true ∧
    AllReturned CtxResource.needs
      (udInit.lifetime (.make .srq) PerftestParameters.allAnswers fun _ => true) ∧
    ¬ AllReturned CtxResource.needs (udInit.lifetime (.make .srq) secondStays fun _ => true) := by
  have hinit : (udInit.ctxInit (.make .srq)).2 = true := by decide
  refine ⟨hinit, ?_, fun h => ?_⟩
  · have hall := (udInit.destroy_ctx_returns_all_iff (.make .srq) PerftestParameters.allAnswers
      (fun _ => true) rfl rfl hinit).2
    exact (hall (by decide)).mpr rfl
  · have hc := ((udInit.destroy_ctx_returns_all_iff (.make .srq) secondStays (fun _ => true) rfl
      rfl hinit).1.mp h).2
    revert hc
    decide

end Perftest
