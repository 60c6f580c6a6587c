import Perftest.Negotiation
import Perftest.ParsedRanges

namespace Perftest

open CMachine Checked

/-- The number of QPs at the point of `force_dependecies` where the geometry is derived. -/
def CoreParameters.geometryQps (d : CoreParameters) : Nat :=
  if d.dualport then d.numOfQps / 2 else d.numOfQps

/-- The marker of a slot of a QP. -/
def CoreParameters.markerOf (d : CoreParameters) (qp slot : Nat) : Nat :=
  qp * d.validationChunksPerQp + slot / d.validationChunkSize

/-- Both sides hold the same geometry, and with it the same slots and markers. -/
structure SameLayout (d e : CoreParameters) : Prop where
  chunkSize : d.validationChunkSize = e.validationChunkSize
  chunksPerQp : d.validationChunksPerQp = e.validationChunksPerQp
  slotsPerQp : u32 (d.validationChunkSize * d.validationChunksPerQp) =
    u32 (e.validationChunkSize * e.validationChunksPerQp)
  markers : u32 (d.numOfQps * d.validationChunksPerQp) =
    u32 (e.numOfQps * e.validationChunksPerQp)
  markerOf : ∀ qp slot, d.markerOf qp slot = e.markerOf qp slot

/-- The two numbers of QPs that one final number can come from give the same ring depth. -/
def SameDepth (d e : CoreParameters) : Prop :=
  d.dualport = e.dualport ∨ d.numOfQps ∉ [4, 6, 8] ∨ (d.verb = .read ∧ d.numOfQps = 4 ∧
    d.size * deriveValidationChunkSize d.size d.txDepth < 128 * 1024)

namespace CoreParameters

variable {c : CoreParameters}

/-- The parameters that no step changes. -/
theorem coreDependecies_kept (c : CoreParameters) : c.coreDependecies.verb = c.verb ∧
    c.coreDependecies.dualport = c.dualport ∧
    c.coreDependecies.dataValidation = c.dataValidation := by
  simp only [coreDependecies, setFillCount, evenRxDepth, forceSrd, forceInfinitely, forceMcg,
    forceMacFwd, forceDuration, forcePostList, forceDualport, forceTransport, deriveGeometry,
    forceSize, clampCqMod, limitCqMod, forceDepths, and_self]

theorem coreDependecies_txDepth (c : CoreParameters) :
    c.coreDependecies.txDepth = c.clampedTxDepth := by
  simp only [coreDependecies, setFillCount, evenRxDepth, forceSrd, forceInfinitely, forceMcg,
    forceMacFwd, forceDuration, forcePostList, forceDualport, forceTransport, deriveGeometry,
    forceSize, clampCqMod, limitCqMod, forceDepths]

theorem coreDependecies_size (c : CoreParameters) :
    c.coreDependecies.size = if c.testMethod = .runAll then MAX_SIZE else c.size := by
  by_cases h : c.testMethod = .runAll <;>
    simp only [coreDependecies, setFillCount, evenRxDepth, forceSrd, forceInfinitely, forceMcg,
    forceMacFwd, forceDuration, forcePostList, forceDualport, forceTransport, deriveGeometry,
    forceSize, clampCqMod, limitCqMod, forceDepths, h, if_true, if_false]

theorem coreDependecies_numOfQps (c : CoreParameters) :
    c.coreDependecies.numOfQps = if c.dualport then c.numOfQps * 2 else c.numOfQps := by
  cases h : c.dualport <;>
    simp only [coreDependecies, setFillCount, evenRxDepth, forceSrd, forceInfinitely, forceMcg,
    forceMacFwd, forceDuration, forcePostList, forceDualport, forceTransport, deriveGeometry,
    forceSize, clampCqMod, limitCqMod, forceDepths, h, if_true, if_false,
      Bool.false_eq_true]

theorem coreDependecies_geometryQps (c : CoreParameters) :
    c.coreDependecies.geometryQps = c.numOfQps := by
  unfold geometryQps
  rw [coreDependecies_numOfQps, (coreDependecies_kept c).2.1]
  split <;> simp

/-- The geometry in terms of the parameters that an accepted record ends up with. -/
theorem coreDependecies_geometry (hd : c.dataValidation = true) :
    c.coreDependecies.validationChunkSize =
      deriveValidationChunkSize c.coreDependecies.size c.coreDependecies.txDepth ∧
    c.coreDependecies.validationChunksPerQp = deriveValidationChunksPerQp
      (c.coreDependecies.size * c.coreDependecies.validationChunkSize)
      c.coreDependecies.geometryQps (c.coreDependecies.verb = .read) := by
  have hsize : c.coreDependecies.validationChunkSize =
      deriveValidationChunkSize c.coreDependecies.size c.coreDependecies.txDepth := by
    simp only [coreDependecies, setFillCount, evenRxDepth, forceSrd, forceInfinitely, forceMcg,
    forceMacFwd, forceDuration, forcePostList, forceDualport, forceTransport, deriveGeometry,
    forceSize, clampCqMod, limitCqMod, forceDepths, hd, if_true]
  refine ⟨hsize, ?_⟩
  rw [coreDependecies_geometryQps, hsize]
  simp only [coreDependecies, setFillCount, evenRxDepth, forceSrd, forceInfinitely, forceMcg,
    forceMacFwd, forceDuration, forcePostList, forceDualport, forceTransport, deriveGeometry,
    forceSize, clampCqMod, limitCqMod, forceDepths, hd, if_true]

/-- The ranges of the values that the negotiation compares. -/
theorem coreDependecies_ranges (h : c.InRange) :
    1 ≤ c.coreDependecies.numOfQps ∧ c.coreDependecies.numOfQps ≤ 32768 ∧
    c.coreDependecies.txDepth ≤ 15000 ∧ c.coreDependecies.size < 2 ^ 31 := by
  have hn := coreDependecies_numOfQps c
  have hq := h.qps_pos
  have hq' := h.qps_le
  refine ⟨?_, ?_, ?_, ?_⟩
  · rw [hn]
    split <;> omega
  · rw [hn]
    split <;> omega
  · rw [coreDependecies_txDepth, clampedTxDepth]
    have htx := h.tx_le
    split
    next hlt =>
      simp only [Bool.and_eq_true, decide_eq_true_eq] at hlt
      omega
    next => exact htx
  · rw [coreDependecies_size]
    have hs := h.size_le
    split
    · norm_num [MAX_SIZE]
    · omega

end CoreParameters

theorem chunksPerQpBase_cases (chunkBytes : Nat) :
    (chunksPerQpBase chunkBytes = 12 ∧ chunkBytes < 128 * 1024) ∨
      (chunksPerQpBase chunkBytes ∈ [10, 8, 6, 4] ∧ ¬ chunkBytes < 128 * 1024) := by
  unfold chunksPerQpBase
  by_cases h : chunkBytes < 128 * 1024
  · simp [h]
  · simp only [h, if_false, false_or, and_false, not_false_eq_true, and_true]
    split_ifs <;> simp

/-- Halving the number of QPs changes the ring depth for the numbers on the two sides of a
threshold, unless the cap hides it. -/
theorem deriveValidationChunksPerQp_half (chunkBytes : Nat) {n : Nat} (isRead : Bool)
    (hn : 1 ≤ n) :
    deriveValidationChunksPerQp chunkBytes (n * 2 : Nat) isRead =
        deriveValidationChunksPerQp chunkBytes n isRead ↔
      n * 2 ∉ [4, 6, 8] ∨ (isRead = true ∧ n * 2 = 4 ∧ chunkBytes < 128 * 1024) := by
  have hcases : n = 1 ∨ n = 2 ∨ n = 3 ∨ n = 4 ∨ 5 ≤ n := by omega
  have hbase := chunksPerQpBase_cases chunkBytes
  unfold deriveValidationChunksPerQp
  generalize chunksPerQpBase chunkBytes = base at *
  rcases hcases with rfl | rfl | rfl | rfl | hn5
  · simp
  · rcases hbase with ⟨rfl, hb⟩ | ⟨hbase, hb⟩
    · cases isRead <;> simp [hb, VALIDATION_MAX_CHUNKS_PER_QP]
    · simp only [List.mem_cons, List.not_mem_nil, or_false] at hbase
      rcases hbase with rfl | rfl | rfl | rfl <;> cases isRead <;>
        simp [hb, VALIDATION_MAX_CHUNKS_PER_QP]
  · rcases hbase with ⟨rfl, hb⟩ | ⟨hbase, hb⟩
    · cases isRead <;> simp [VALIDATION_MAX_CHUNKS_PER_QP]
    · simp only [List.mem_cons, List.not_mem_nil, or_false] at hbase
      rcases hbase with rfl | rfl | rfl | rfl <;> cases isRead <;>
        simp [VALIDATION_MAX_CHUNKS_PER_QP]
  · rcases hbase with ⟨rfl, hb⟩ | ⟨hbase, hb⟩
    · cases isRead <;> simp [VALIDATION_MAX_CHUNKS_PER_QP]
    · simp only [List.mem_cons, List.not_mem_nil, or_false] at hbase
      rcases hbase with rfl | rfl | rfl | rfl <;> cases isRead <;>
        simp [VALIDATION_MAX_CHUNKS_PER_QP]
  · have h1 : ¬ ((n * 2 : Nat) : Int) ≤ 2 := by omega
    have h2 : ¬ ((n * 2 : Nat) : Int) ≤ 4 := by omega
    have h3 : ¬ (n : Int) ≤ 2 := by omega
    have h4 : ¬ (n : Int) ≤ 4 := by omega
    have hmem : n * 2 ∉ [4, 6, 8] := by
      simp only [List.mem_cons, List.not_mem_nil, or_false]
      omega
    simp only [h1, h2, h3, h4, if_false, hmem, not_false_eq_true, true_or]

section Agreement

variable {p q : NegotiationPeer}

theorem VerbType.toInt_inj {v w : VerbType} (h : v.toInt = w.toInt) : v = w := by
  revert h
  cases v <;> cases w <;> decide

/-- What a successful negotiation says about the values that the geometry depends on. -/
theorem Agree.geometry (h : Agree p q) (hp : p.numOfQps ≤ 32768) (hq : q.numOfQps ≤ 32768)
    (htp : p.txDepth ≤ 15000) (htq : q.txDepth ≤ 15000) (hsp : p.size < 2 ^ 31)
    (hsq : q.size < 2 ^ 31) :
    p.numOfQps = q.numOfQps ∧ p.txDepth = q.txDepth ∧ p.size = q.size ∧ p.verb = q.verb ∧
      p.dataValidation = q.dataValidation := by
  have hverb : ∀ v : VerbType, 0 ≤ v.toInt ∧ v.toInt < 256 ^ 4 := by
    intro v
    cases v <;> decide
  have hbool : ∀ x : Bool, 0 ≤ boolToInt x ∧ boolToInt x < 256 ^ 4 := by decide
  refine ⟨?_, ?_, ?_, ?_, ?_⟩
  · have hv := value_inj (h (symmetricField "num_of_qps" .int fun p => p.numOfQps)
      (by simp [symmetricFields])) (by simp only [symmetricField, CompareType.size]; omega)
      (by simp only [symmetricField, CompareType.size]; omega)
    exact Int.ofNat_inj.mp hv
  · have hv := value_inj (h (symmetricField "tx_depth" .int fun p => p.txDepth)
      (by simp [symmetricFields])) (by simp only [symmetricField, CompareType.size]; omega)
      (by simp only [symmetricField, CompareType.size]; omega)
    exact Int.ofNat_inj.mp hv
  · have hv := value_inj (h (symmetricField "size" .uint64 fun p => p.size)
      (by simp [symmetricFields])) (by simp only [symmetricField, CompareType.size]; omega)
      (by simp only [symmetricField, CompareType.size]; omega)
    exact Int.ofNat_inj.mp hv
  · exact VerbType.toInt_inj (value_inj (h (symmetricField "verb" .int fun p => p.verb.toInt)
      (by simp [symmetricFields])) (hverb _) (hverb _))
  · have hv := value_inj (h (symmetricField "data_validation" .int fun p =>
      boolToInt p.dataValidation) (by simp [symmetricFields])) (hbool _) (hbool _)
    revert hv
    simp only [symmetricField]
    cases p.dataValidation <;> cases q.dataValidation <;> decide

end Agreement

section Layout

variable {c e : CoreParameters}

theorem sameLayout_iff_chunks {d e : CoreParameters} (hn : d.numOfQps = e.numOfQps)
    (hs : d.validationChunkSize = e.validationChunkSize) :
    SameLayout d e ↔ d.validationChunksPerQp = e.validationChunksPerQp := by
  refine ⟨SameLayout.chunksPerQp, fun hc => ⟨hs, hc, ?_, ?_, ?_⟩⟩
  · rw [hs, hc]
  · rw [hn, hc]
  · intro qp slot
    rw [CoreParameters.markerOf, CoreParameters.markerOf, hs, hc]

/-- One record of an accepted pair has the dual port, so it derived the geometry from half the
number of QPs. -/
theorem chunks_eq_iff_half {B : Nat} {r : Bool} (hc : 1 ≤ c.numOfQps) (hd : c.dualport = true)
    (he : e.dualport = false) (hn : c.coreDependecies.numOfQps = e.coreDependecies.numOfQps) :
    deriveValidationChunksPerQp B c.coreDependecies.geometryQps r =
        deriveValidationChunksPerQp B e.coreDependecies.geometryQps r ↔
      c.coreDependecies.numOfQps ∉ [4, 6, 8] ∨
        (r = true ∧ c.coreDependecies.numOfQps = 4 ∧ B < 128 * 1024) := by
  have h1 := CoreParameters.coreDependecies_numOfQps c
  have h2 := CoreParameters.coreDependecies_numOfQps e
  rw [if_pos hd] at h1
  rw [if_neg (by simp [he]), ← hn, h1] at h2
  rw [CoreParameters.coreDependecies_geometryQps, CoreParameters.coreDependecies_geometryQps,
    h1, ← h2, eq_comm]
  exact deriveValidationChunksPerQp_half B r hc

theorem geometryQps_congr (hd : c.dualport = e.dualport)
    (hn : c.coreDependecies.numOfQps = e.coreDependecies.numOfQps) :
    c.coreDependecies.geometryQps = e.coreDependecies.geometryQps := by
  unfold CoreParameters.geometryQps
  rw [(CoreParameters.coreDependecies_kept c).2.1, (CoreParameters.coreDependecies_kept e).2.1,
    hd, hn]

theorem sameLayout_iff (hc : c.InRange) (he : e.InRange) (hdc : c.dataValidation = true)
    (hde : e.dataValidation = true)
    (hn : c.coreDependecies.numOfQps = e.coreDependecies.numOfQps)
    (ht : c.coreDependecies.txDepth = e.coreDependecies.txDepth)
    (hs : c.coreDependecies.size = e.coreDependecies.size)
    (hv : c.coreDependecies.verb = e.coreDependecies.verb) :
    SameLayout c.coreDependecies e.coreDependecies ↔
      SameDepth c.coreDependecies e.coreDependecies := by
  obtain ⟨hcs, hcc⟩ := CoreParameters.coreDependecies_geometry hdc
  obtain ⟨hes, hec⟩ := CoreParameters.coreDependecies_geometry hde
  have hsize : c.coreDependecies.validationChunkSize =
      e.coreDependecies.validationChunkSize := by
    rw [hcs, hes, hs, ht]
  rw [sameLayout_iff_chunks hn hsize, hcc, hec, ← hsize, ← hs, ← hv, SameDepth, ← hcs,
    (CoreParameters.coreDependecies_kept c).2.1, (CoreParameters.coreDependecies_kept e).2.1]
  have hread : decide (c.coreDependecies.verb = .read) = true ↔ c.coreDependecies.verb = .read :=
    decide_eq_true_iff
  cases hcd : c.dualport <;> cases hed : e.dualport
  · simp [geometryQps_congr (hcd.trans hed.symm) hn]
  · have h := chunks_eq_iff_half (B := c.coreDependecies.size *
      c.coreDependecies.validationChunkSize) (r := decide (c.coreDependecies.verb = .read))
      he.qps_pos hed hcd hn.symm
    rw [eq_comm, h, hread, ← hn]
    simp
  · have h := chunks_eq_iff_half (B := c.coreDependecies.size *
      c.coreDependecies.validationChunkSize) (r := decide (c.coreDependecies.verb = .read))
      hc.qps_pos hcd hed hn
    rw [h, hread]
    simp
  · simp [geometryQps_congr (hcd.trans hed.symm) hn]

end Layout

/-- Two accepted records that pass the negotiation with data validation have the same layout
exactly when the doubling of the QPs for the dual port cannot make a difference. -/
theorem validationLayout_agrees_iff {b b' : Build} {nb : NegotiationBuild}
    {prog prog' : Program} {other other' : OtherParameters} {servername servername' : Bool}
    {args args' : List Opt} {p q p' q' : NegotiationPeer}
    (hp : parser b prog other servername args = .ok p.toPerftestParameters)
    (hq : parser b' prog' other' servername' args' = .ok q.toPerftestParameters)
    (hpq : negotiate nb p q = .ok p') (hqp : negotiate nb q p = .ok q')
    (hdv : p.dataValidation = true) :
    SameLayout p'.toCoreParameters q'.toCoreParameters ↔
      SameDepth p.toCoreParameters q.toCoreParameters := by
  obtain ⟨c, hc, hcf⟩ := bind_eq_ok hp
  obtain ⟨e, he, hef⟩ := bind_eq_ok hq
  have hcr := parsedParams_inRange hc
  have her := parsedParams_inRange he
  have hcore := forceDependecies_core hcf
  have hcore' := forceDependecies_core hef
  obtain ⟨hagree, rfl⟩ := negotiate_eq_ok_iff.mp hpq
  obtain ⟨-, rfl⟩ := negotiate_eq_ok_iff.mp hqp
  rw [(settled_params nb p q).1, (settled_params nb q p).1]
  obtain ⟨-, h2, h3, h4⟩ := CoreParameters.coreDependecies_ranges hcr
  obtain ⟨-, h6, h7, h8⟩ := CoreParameters.coreDependecies_ranges her
  rw [← hcore] at h2 h3 h4
  rw [← hcore'] at h6 h7 h8
  obtain ⟨hn, ht, hs, hv, hd⟩ := hagree.geometry h2 h6 h3 h7 h4 h8
  rw [hdv] at hd
  rw [hcore] at hn ht hs hv hdv ⊢
  rw [hcore'] at hn ht hs hv hd ⊢
  rw [(CoreParameters.coreDependecies_kept _).2.2] at hdv hd
  exact sameLayout_iff hcr her hdv hd.symm hn ht hs hv

/-- `ib_write_bw --data_validation` with the options `args`, on a host that supports it. -/
def writeBwParser (servername : Bool) (args : List Opt) : Except String PerftestParameters :=
  parser { haveXrcd := true, haveMlx5dv := true, haveSrd := false, haveSrdQpSl := false
           haveAesXts := false, haveSigOffload := false, haveDcs := true, haveIbvWrApi := true
           haveCcUnprotectedAlloc := false, haveHnsdv := false, haveRegMrEx := false
           hostValidationRuntimeSupported := true, disableMlx5ScatterToCqe := false }
    ⟨.write, .bw, false⟩ {} servername (.dataValidation :: args)

/-- The peer with these parameters on a device without special capabilities. -/
def PerftestParameters.peer (d : PerftestParameters) : NegotiationPeer :=
  { d with atomicType := 0, reportFmt := 0, noEnhancedReorder := false, outReads := 1
           maxQpRdAtom := 16, vendorId := 0, dvCompMask := none }

instance (p q : NegotiationPeer) : Decidable (Agree p q) :=
  inferInstanceAs (Decidable (∀ f ∈ symmetricFields, _))

/-- Two accepted command lines whose negotiation succeeds with the properties `r`. -/
theorem exists_peers (argsC argsS : List Opt) (r : CoreParameters → CoreParameters → Bool)
    (h : (writeBwParser true argsC).toOption.any (fun d =>
      (writeBwParser false argsS).toOption.any fun e =>
        decide (Agree d.peer e.peer) && r d.toCoreParameters e.toCoreParameters) = true) :
    ∃ d e, writeBwParser true argsC = .ok d ∧ writeBwParser false argsS = .ok e ∧
      Agree d.peer e.peer ∧ r d.toCoreParameters e.toCoreParameters = true := by
  obtain ⟨d, hd, h⟩ := exists_of_toOption_any h
  obtain ⟨e, he, h⟩ := exists_of_toOption_any h
  rw [Bool.and_eq_true, decide_eq_true_eq] at h
  exact ⟨d, e, hd, he, h⟩

/-- Twelve QPs against six on each of two ports. -/
theorem validationLayout_agrees_twelve : ∃ p q p' q' : NegotiationPeer,
    p.dualport = false ∧ q.dualport = true ∧ negotiate ⟨false, false, 0⟩ p q = .ok p' ∧
      negotiate ⟨false, false, 0⟩ q p = .ok q' ∧
      SameLayout p'.toCoreParameters q'.toCoreParameters := by
  obtain ⟨d, e, hd, he, ha, hr⟩ := exists_peers [.qp 12] [.qp 6, .dualport]
    (fun d e => d.dataValidation && !d.dualport && e.dualport && d.numOfQps = 12)
    (by decide +kernel)
  simp only [Bool.and_eq_true, Bool.not_eq_true', decide_eq_true_eq] at hr
  obtain ⟨⟨⟨hdv, h1⟩, h2⟩, h3⟩ := hr
  have hpq := (negotiate_eq_ok_iff (b := ⟨false, false, 0⟩)).mpr ⟨ha, rfl⟩
  have hqp := (negotiate_eq_ok_iff (b := ⟨false, false, 0⟩)).mpr ⟨ha.symm, rfl⟩
  refine ⟨d.peer, e.peer, _, _, h1, h2, hpq, hqp,
    (validationLayout_agrees_iff (p := d.peer) (q := e.peer) hd he hpq hqp hdv).mpr
      (.inr (.inl ?_))⟩
  show d.numOfQps ∉ [4, 6, 8]
  rw [h3]
  decide

/-- Four QPs against two on each of two ports: the negotiation sees four on both sides. -/
theorem validationLayout_differs_four :
    ¬ ∀ d e, writeBwParser true [.qp 4] = .ok d →
      writeBwParser false [.qp 2, .dualport] = .ok e → ∀ p' q',
        negotiate ⟨false, false, 0⟩ d.peer e.peer = .ok p' →
        negotiate ⟨false, false, 0⟩ e.peer d.peer = .ok q' →
        SameLayout p'.toCoreParameters q'.toCoreParameters := by
  intro h
  obtain ⟨d, e, hd, he, ha, hr⟩ := exists_peers [.qp 4] [.qp 2, .dualport]
    (fun d e => d.validationChunksPerQp ≠ e.validationChunksPerQp) (by decide +kernel)
  have hs := h d e hd he _ _ (negotiate_eq_ok_iff.mpr ⟨ha, rfl⟩)
    (negotiate_eq_ok_iff.mpr ⟨ha.symm, rfl⟩)
  rw [(settled_params _ _ _).1, (settled_params _ _ _).1] at hs
  exact of_decide_eq_true hr hs.chunksPerQp

end Perftest
