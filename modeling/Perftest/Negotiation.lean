import Perftest.KvString
import Perftest.Lib.CMachine
import Perftest.Lib.Checked
import Perftest.Parser

namespace Perftest

open CString CMachine Checked

def MLNX_VENDOR_ID : Nat := 0x02c9

/-- What `negotiate_params` reads on one side: the parameters, the limits of the device, and the
mask that `mlx5dv_query_device` returned, if it succeeded. -/
structure NegotiationPeer extends PerftestParameters where
  atomicType : Nat
  reportFmt : Nat
  noEnhancedReorder : Bool
  outReads : Int
  maxQpRdAtom : Int
  vendorId : Nat
  dvCompMask : Option UInt64
deriving DecidableEq

/-- The build of the program and the capability bit of out-of-order receives in `mlx5dv.h`. -/
structure NegotiationBuild where
  haveMlx5dv : Bool
  haveOooRecvWrs : Bool
  oooRecvWrs : UInt64

inductive CompareType where
  | int
  | uint64
deriving DecidableEq, Repr

def CompareType.size : CompareType → Nat
  | int => 4
  | uint64 => 8

inductive CompareFunc where
  | compare
  | compareMaxQpRdAtom
  | compareMlx5dv
deriving DecidableEq, Repr

/-- A line of the compare table. -/
structure CompareFunction where
  func : CompareFunc
  name : String
  type : CompareType
  value : NegotiationPeer → Int
  cond : NegotiationPeer → Bool

def ofString (s : String) : Text := s.toList.map fun c => UInt8.ofNat c.toNat

namespace CompareFunction

/-- The value in network order. -/
def localValue (f : CompareFunction) (p : NegotiationPeer) : Text :=
  beBytes f.type.size (f.value p % 256 ^ f.type.size).toNat

theorem localValue_length (f : CompareFunction) (p : NegotiationPeer) :
    (f.localValue p).length = f.type.size := beBytes_length _ _

def entry (f : CompareFunction) (p : NegotiationPeer) : CompareEntry :=
  { name := ofString f.name, localValue := f.localValue p
    remoteValue := List.replicate (f.localValue p).length 0, received := false
    sizes := List.length_replicate }

end CompareFunction

def VerbType.toInt : VerbType → Int
  | .send => 0 | .sendImm => 1 | .write => 2 | .writeImm => 3 | .read => 4 | .atomic => 5

def TestType.toInt : TestType → Int
  | .lat => 0 | .bw => 1 | .latByBw => 2 | .fsRate => 3

def ConnectionType.toInt : ConnectionType → Int
  | .rc => 0 | .uc => 1 | .ud => 2 | .rawEth => 3 | .xrc => 4 | .dc => 5 | .srd => 6

def CtxTestMethod.toInt : CtxTestMethod → Int
  | .runRegular => 0 | .runAll => 1 | .runInfinitely => 2

def TestMethod.toInt : TestMethod → Int
  | .iterations => 0 | .duration => 1

def boolToInt (b : Bool) : Int := if b then 1 else 0

/-- A line of the table that both sides must agree on. -/
def symmetricField (name : String) (type : CompareType) (value : NegotiationPeer → Int) :
    CompareFunction :=
  { func := .compare, name := name, type := type, value := value, cond := fun _ => true }

/-- The lines with the function `compare`. -/
def symmetricFields : List CompareFunction :=
  [symmetricField "test_method" .int fun p => p.testMethod.toInt,
    symmetricField "connection_type" .int fun p => p.connectionType.toInt,
    symmetricField "verb" .int fun p => p.verb.toInt,
    symmetricField "tst" .int fun p => p.tst.toInt,
    symmetricField "atomicType" .int fun p => p.atomicType,
    symmetricField "test_type" .int fun p => p.testType.toInt,
    symmetricField "report_fmt" .int fun p => p.reportFmt,
    symmetricField "size" .uint64 fun p => p.size,
    symmetricField "iters" .uint64 fun p => p.iters,
    symmetricField "aes_xts" .int fun p => boolToInt p.aesXts,
    symmetricField "duplex" .int fun p => boolToInt p.duplex,
    symmetricField "num_of_qps" .int fun p => p.numOfQps,
    symmetricField "duration" .int fun p => p.duration,
    symmetricField "use_rdma_cm" .int fun p => boolToInt p.useRdmaCm,
    symmetricField "use_write_with_imm" .int fun p => boolToInt p.useWriteWithImm,
    symmetricField "no_enhanced_reorder" .int fun p => boolToInt p.noEnhancedReorder,
    symmetricField "sig_offload" .int fun p => boolToInt p.sigOffload,
    symmetricField "data_validation" .int fun p => boolToInt p.dataValidation,
    symmetricField "tx_depth" .int fun p => p.txDepth]

def maxQpRdAtomField : CompareFunction :=
  { func := .compareMaxQpRdAtom, name := "max_qp_rd_atom", type := .int
    value := fun p => p.maxQpRdAtom, cond := fun p => p.connectionType ≠ .dc }

/-- The mask stays 0 on other vendors' devices and when the query fails. -/
def mlx5dvCompMask (p : NegotiationPeer) : UInt64 :=
  if p.vendorId = MLNX_VENDOR_ID then p.dvCompMask.getD 0 else 0

def mlx5dvField : CompareFunction :=
  { func := .compareMlx5dv, name := "mlx5dv_comp_mask", type := .uint64
    value := fun p => (mlx5dvCompMask p).toNat, cond := fun p => p.vendorId = MLNX_VENDOR_ID }

def compareFunctions (b : NegotiationBuild) : List CompareFunction :=
  symmetricFields ++ [maxQpRdAtomField] ++ if b.haveMlx5dv then [mlx5dvField] else []

def ntohInt (value : Text) : Int := asInt (beValue value)

/-- `compare` on the two values in host order. -/
def compareValues (type : CompareType) (localValue remoteValue : Text) : Bool :=
  match type with
  | .int => ntohInt localValue = ntohInt remoteValue
  | .uint64 => beValue localValue = beValue remoteValue

def oooBit (b : NegotiationBuild) (value : Text) : UInt64 :=
  UInt64.ofNat (beValue value) &&& b.oooRecvWrs

/-- One round of the compare loop on an entry whose bytes were received. -/
def runCompare (b : NegotiationBuild) (user : NegotiationPeer) (f : CompareFunction)
    (e : CompareEntry) : Except String NegotiationPeer :=
  match f.func with
  | .compare =>
    if compareValues f.type e.localValue e.remoteValue then .ok user
    else .error s!" {f.name} mismatch"
  | .compareMaxQpRdAtom =>
    .ok (if ntohInt e.remoteValue < user.outReads then
      { user with outReads := ntohInt e.remoteValue } else user)
  | .compareMlx5dv =>
    .ok (if b.haveOooRecvWrs ∧ ¬ user.noEnhancedReorder ∧
        oooBit b e.localValue ≠ oooBit b e.remoteValue then
      { user with noEnhancedReorder := true } else user)

def compareStep (b : NegotiationBuild) (p user : NegotiationPeer)
    (x : CompareFunction × CompareEntry) : Except String NegotiationPeer :=
  if ¬ x.2.received ∨ ¬ x.1.cond p then .ok user else runCompare b user x.1 x.2

/-- `negotiate_params` on the string of the peer. -/
def negotiateParams (b : NegotiationBuild) (p : NegotiationPeer) (remoteStr : Text) :
    Except String NegotiationPeer :=
  ((compareFunctions b).zip (parseKvString (remoteStr ++ [0])
    ((compareFunctions b).map fun f => f.entry p))).foldlM (compareStep b p) p

/-- The string a peer sends. -/
def negotiationString (b : NegotiationBuild) (p : NegotiationPeer) : Text :=
  (kvString ((compareFunctions b).map fun f => f.entry p)).1

/-- `negotiate_params` of `p` against the peer `q`. -/
def negotiate (b : NegotiationBuild) (p q : NegotiationPeer) : Except String NegotiationPeer :=
  negotiateParams b p (negotiationString b q)

section Exchange

variable {b : NegotiationBuild} {p q : NegotiationPeer}

theorem compareFunctions_nodup (b : NegotiationBuild) :
    ((compareFunctions b).map fun f => ofString f.name).Nodup := by
  unfold compareFunctions
  split <;> decide +kernel

theorem compareFunctions_clean (b : NegotiationBuild) : ∀ f ∈ compareFunctions b,
    ∀ c ∈ ofString f.name, c ≠ KV_SEP ∧ c ≠ KV_PAIR_SEP ∧ c ≠ 0 := by
  unfold compareFunctions
  split <;> decide +kernel

theorem entries_kvTable (b : NegotiationBuild) (p : NegotiationPeer) :
    KvTable ((compareFunctions b).map fun f => f.entry p) := by
  constructor
  · rw [List.map_map]
    exact compareFunctions_nodup b
  · intro e he
    obtain ⟨f, hf, rfl⟩ := List.mem_map.mp he
    exact compareFunctions_clean b f hf

/-- The entry of `f` on the side of `p` once the string of `q` was parsed. -/
def receivedEntry (b : NegotiationBuild) (p q : NegotiationPeer) (f : CompareFunction) :
    CompareEntry :=
  receiveAll ((compareFunctions b).map fun f => f.entry q) (f.entry p)

/-- Every line reaches a peer of the same build. -/
theorem receivedEntry_spec {f : CompareFunction} (hf : f ∈ compareFunctions b) :
    (receivedEntry b p q f).received = true ∧
      (receivedEntry b p q f).localValue = f.localValue p ∧
      (receivedEntry b p q f).remoteValue = f.localValue q := by
  have hn := (entries_kvTable b q).nodup
  have hm : f.entry q ∈ (compareFunctions b).map fun f => f.entry q :=
    List.mem_map.mpr ⟨f, hf, rfl⟩
  have hk : receivedEntry b p q f = (f.entry p).storeHex (hexBytes (f.localValue q)) :=
    receiveAll_known hn hm rfl
  have hsize : (f.entry p).valueSize = (f.localValue q).length := by
    rw [f.localValue_length]
    exact f.localValue_length p
  obtain ⟨hr, hv⟩ := (storeHex_hexBytes (f.entry p) (f.localValue q)).1 hsize.le
  rw [hk]
  refine ⟨hr, rfl, ?_⟩
  rw [hv, hsize, List.take_length]

theorem negotiate_eq_foldlM : negotiate b p q = (compareFunctions b).foldlM
    (fun u f => compareStep b p u (f, receivedEntry b p q f)) p := by
  have hparse : parseKvString (negotiationString b q ++ [0])
      ((compareFunctions b).map fun f => f.entry p) =
        (compareFunctions b).map (receivedEntry b p q) := by
    rw [negotiationString, parseKvString_foldl (entries_kvTable b q),
      foldl_receivePair (entries_kvTable b p).nodup, List.map_map]
    rfl
  rw [negotiate, negotiateParams, hparse, ← List.map_prod_left_eq_zip, List.foldlM_map]

theorem asInt_inj {m n : Nat} (hm : m < 2 ^ 32) (hn : n < 2 ^ 32) (h : asInt m = asInt n) :
    m = n := by
  unfold asInt at h
  split at h <;> split at h <;> omega

theorem beValue_localValue (f : CompareFunction) (p : NegotiationPeer) :
    beValue (f.localValue p) = (f.value p % 256 ^ f.type.size).toNat ∧
      beValue (f.localValue p) < 256 ^ f.type.size := by
  have hpos : (0 : Int) < 256 ^ f.type.size := by positivity
  have h1 := Int.emod_nonneg (f.value p) hpos.ne'
  have h2 := Int.emod_lt_of_pos (f.value p) hpos
  have h3 : ((f.value p % 256 ^ f.type.size).toNat : Int) < ((256 ^ f.type.size : Nat) : Int) := by
    rw [Int.toNat_of_nonneg h1]
    simpa using h2
  have hlt : (f.value p % 256 ^ f.type.size).toNat < 256 ^ f.type.size := by exact_mod_cast h3
  have hv : beValue (f.localValue p) = (f.value p % 256 ^ f.type.size).toNat :=
    beValue_beBytes hlt
  exact ⟨hv, hv ▸ hlt⟩

theorem compareValues_iff (f : CompareFunction) :
    compareValues f.type (f.localValue p) (f.localValue q) = true ↔
      f.localValue p = f.localValue q := by
  refine ⟨fun h => ?_, fun h => ?_⟩
  · obtain ⟨hp, hp'⟩ := beValue_localValue f p
    obtain ⟨hq, hq'⟩ := beValue_localValue f q
    have heq : beValue (f.localValue p) = beValue (f.localValue q) := by
      unfold compareValues at h
      split at h
      next ht =>
        rw [ht] at hp' hq'
        exact asInt_inj hp' hq' (of_decide_eq_true h)
      next => exact of_decide_eq_true h
    rw [hp, hq] at heq
    rw [CompareFunction.localValue, heq]
    rfl
  · unfold compareValues
    split <;> simp [h]

/-- Values in the range of their type are equal when their bytes are. -/
theorem value_inj {f : CompareFunction} (h : f.localValue p = f.localValue q)
    (hp : 0 ≤ f.value p ∧ f.value p < 256 ^ f.type.size)
    (hq : 0 ≤ f.value q ∧ f.value q < 256 ^ f.type.size) : f.value p = f.value q := by
  have h1 := (beValue_localValue f p).1
  have h2 := (beValue_localValue f q).1
  rw [h, h2, Int.emod_eq_of_lt hp.1 hp.2, Int.emod_eq_of_lt hq.1 hq.2] at h1
  omega

/-- Both sides have the same values in every line with `compare`. -/
def Agree (p q : NegotiationPeer) : Prop :=
  ∀ f ∈ symmetricFields, f.localValue p = f.localValue q

theorem symmetricFields_func : ∀ f ∈ symmetricFields,
    f.func = .compare ∧ ∀ p, f.cond p = true := by
  intro f hf
  simp only [symmetricFields, List.mem_cons, List.not_mem_nil, or_false] at hf
  rcases hf with rfl | rfl | rfl | rfl | rfl | rfl | rfl | rfl | rfl | rfl | rfl | rfl | rfl |
    rfl | rfl | rfl | rfl | rfl | rfl <;> exact ⟨rfl, fun _ => rfl⟩

theorem compareStep_symmetric {f : CompareFunction} {u : NegotiationPeer}
    (hf : f ∈ symmetricFields) :
    compareStep b p u (f, receivedEntry b p q f) =
      if f.localValue p = f.localValue q then .ok u else .error s!" {f.name} mismatch" := by
  have hm : f ∈ compareFunctions b := by
    simp [compareFunctions, hf]
  obtain ⟨hr, hl, hv⟩ := receivedEntry_spec (p := p) (q := q) hm
  obtain ⟨hc, hcond⟩ := symmetricFields_func f hf
  simp only [compareStep, hr, hcond p, not_true_eq_false, or_self, if_false, runCompare, hc, hl,
    hv, compareValues_iff]

theorem foldlM_symmetric {l : List CompareFunction} (hl : ∀ f ∈ l, f ∈ symmetricFields)
    {u v : NegotiationPeer} :
    l.foldlM (fun u f => compareStep b p u (f, receivedEntry b p q f)) u = .ok v ↔
      (∀ f ∈ l, f.localValue p = f.localValue q) ∧ v = u := by
  induction l generalizing u with
  | nil => simp [pure, Except.pure, eq_comm]
  | cons f l ih =>
    rw [List.foldlM_cons, compareStep_symmetric (hl f (by simp))]
    by_cases h : f.localValue p = f.localValue q
    · rw [if_pos h]
      simp only [bind, Except.bind, List.mem_cons, forall_eq_or_imp, h, true_and]
      exact ih fun x hx => hl x (by simp [hx])
    · rw [if_neg h]
      simp [bind, Except.bind, h]

/-- The capability bit a side announces. -/
def announcedBit (b : NegotiationBuild) (p : NegotiationPeer) : UInt64 :=
  oooBit b (mlx5dvField.localValue p)

def lowerOutReads (p q : NegotiationPeer) : NegotiationPeer :=
  if p.connectionType ≠ .dc ∧ ntohInt (maxQpRdAtomField.localValue q) < p.outReads then
    { p with outReads := ntohInt (maxQpRdAtomField.localValue q) }
  else p

/-- A side that looks for a mismatch of the capability. -/
def checksReorder (b : NegotiationBuild) (p : NegotiationPeer) : Prop :=
  b.haveMlx5dv ∧ b.haveOooRecvWrs ∧ p.vendorId = MLNX_VENDOR_ID

instance (b : NegotiationBuild) (p : NegotiationPeer) : Decidable (checksReorder b p) :=
  inferInstanceAs (Decidable (_ ∧ _ ∧ _))

/-- The parameters of `p` after a successful negotiation with `q`. -/
def settled (b : NegotiationBuild) (p q : NegotiationPeer) : NegotiationPeer :=
  { lowerOutReads p q with
    noEnhancedReorder := p.noEnhancedReorder ||
      decide (checksReorder b p ∧ announcedBit b p ≠ announcedBit b q) }

theorem lowerOutReads_reorder (p q : NegotiationPeer) :
    (lowerOutReads p q).noEnhancedReorder = p.noEnhancedReorder := by
  unfold lowerOutReads
  split <;> rfl

theorem compareStep_maxQpRdAtom : compareStep b p p (maxQpRdAtomField,
    receivedEntry b p q maxQpRdAtomField) = .ok (lowerOutReads p q) := by
  have hm : maxQpRdAtomField ∈ compareFunctions b := by
    simp [compareFunctions]
  obtain ⟨hr, -, hv⟩ := receivedEntry_spec (p := p) (q := q) hm
  have hf : maxQpRdAtomField.func = .compareMaxQpRdAtom := rfl
  unfold lowerOutReads
  by_cases hc : p.connectionType = .dc
  · have hcond : maxQpRdAtomField.cond p = false := decide_eq_false (not_not.mpr hc)
    rw [if_neg fun h => h.1 hc]
    simp [compareStep, hcond]
  · have hcond : maxQpRdAtomField.cond p = true := decide_eq_true hc
    simp only [compareStep, hr, hcond, not_true_eq_false, or_self, if_false, runCompare, hf, hv,
      ne_eq, hc, not_false_eq_true, true_and]

theorem compareStep_mlx5dv (hb : b.haveMlx5dv = true) : compareStep b p (lowerOutReads p q)
    (mlx5dvField, receivedEntry b p q mlx5dvField) = .ok (settled b p q) := by
  have hm : mlx5dvField ∈ compareFunctions b := by
    simp [compareFunctions, hb]
  obtain ⟨hr, hl, hv⟩ := receivedEntry_spec (p := p) (q := q) hm
  have hf : mlx5dvField.func = .compareMlx5dv := rfl
  have hner := lowerOutReads_reorder p q
  have hkeep : { lowerOutReads p q with noEnhancedReorder := p.noEnhancedReorder } =
      lowerOutReads p q := by
    rw [← hner]
  unfold settled checksReorder
  by_cases hc : p.vendorId = MLNX_VENDOR_ID
  · have hcond : mlx5dvField.cond p = true := decide_eq_true hc
    simp only [compareStep, hr, hcond, not_true_eq_false, or_self, if_false, runCompare, hf, hl,
      hv, hner, hb, hc, true_and, and_true, announcedBit]
    by_cases hn : p.noEnhancedReorder = true
    · simp only [hn, not_true_eq_false, false_and, and_false, if_false, Bool.true_or]
      rw [← hkeep, hn]
    · have hn' : p.noEnhancedReorder = false := by simpa using hn
      rw [hn'] at hkeep
      simp only [hn', Bool.false_eq_true, not_false_eq_true, true_and, Bool.false_or]
      split
      next h => simp [h]
      next h =>
        rw [decide_eq_false h, hkeep]
  · have hcond : mlx5dvField.cond p = false := decide_eq_false hc
    simp only [compareStep, hcond, Bool.false_eq_true, not_false_eq_true, or_true, if_true, hc,
      and_false, false_and, decide_false, Bool.or_false]
    rw [hkeep]

/-- The lines behind the symmetric ones change the parameters and never fail. -/
theorem foldlM_adjusting : ([maxQpRdAtomField] ++ if b.haveMlx5dv then [mlx5dvField] else []).foldlM
    (fun u f => compareStep b p u (f, receivedEntry b p q f)) p = .ok (settled b p q) := by
  rw [List.singleton_append, List.foldlM_cons, compareStep_maxQpRdAtom]
  change List.foldlM _ (lowerOutReads p q) _ = _
  split
  next hb =>
    rw [List.foldlM_cons, compareStep_mlx5dv hb]
    rfl
  next hb =>
    have hc : ¬ (checksReorder b p ∧ announcedBit b p ≠ announcedBit b q) := fun h => hb h.1.1
    rw [settled, decide_eq_false hc, Bool.or_false, ← lowerOutReads_reorder p q]
    rfl

theorem negotiate_eq_ok_iff {v : NegotiationPeer} :
    negotiate b p q = .ok v ↔ Agree p q ∧ v = settled b p q := by
  rw [negotiate_eq_foldlM, compareFunctions, List.append_assoc, List.foldlM_append]
  constructor
  · intro h
    obtain ⟨u, hu, h⟩ := bind_eq_ok h
    obtain ⟨ha, rfl⟩ := (foldlM_symmetric fun f hf => hf).mp hu
    rw [foldlM_adjusting] at h
    exact ⟨ha, (Except.ok.inj h).symm⟩
  · rintro ⟨ha, rfl⟩
    rw [(foldlM_symmetric fun f hf => hf).mpr ⟨ha, rfl⟩]
    exact foldlM_adjusting

end Exchange

/-- The use of enhanced reordering by the QPs that are created after the negotiation. -/
def usesReorder (b : NegotiationBuild) (p : NegotiationPeer) : Prop :=
  b.haveMlx5dv ∧ b.haveOooRecvWrs ∧ p.noEnhancedReorder = false ∧ p.vendorId = MLNX_VENDOR_ID ∧
    p.connectionType ≠ .ud ∧ p.connectionType ≠ .uc ∧ announcedBit b p ≠ 0

/-- The verdict is the same on both sides, and on success they agree on the symmetric parameters
and on `no_enhanced_reorder`. -/
def NegotiationSymmetric (b : NegotiationBuild) (p q : NegotiationPeer) : Prop :=
  ((∃ p', negotiate b p q = .ok p') ↔ ∃ q', negotiate b q p = .ok q') ∧
    ∀ p' q', negotiate b p q = .ok p' → negotiate b q p = .ok q' →
      ∀ f ∈ symmetricFields, f.localValue p' = f.localValue q'

section Verdict

variable {b : NegotiationBuild} {p q : NegotiationPeer}

theorem Agree.symm (h : Agree p q) : Agree q p := fun f hf => (h f hf).symm

theorem negotiate_verdict :
    (∃ p', negotiate b p q = .ok p') ↔ ∃ q', negotiate b q p = .ok q' := by
  simp only [negotiate_eq_ok_iff]
  constructor
  · rintro ⟨_, h, rfl⟩
    exact ⟨_, h.symm, rfl⟩
  · rintro ⟨_, h, rfl⟩
    exact ⟨_, h.symm, rfl⟩

theorem settled_params (b : NegotiationBuild) (p q : NegotiationPeer) :
    (settled b p q).toPerftestParameters = p.toPerftestParameters ∧
      (settled b p q).atomicType = p.atomicType ∧ (settled b p q).reportFmt = p.reportFmt ∧
      (settled b p q).vendorId = p.vendorId ∧ (settled b p q).dvCompMask = p.dvCompMask := by
  unfold settled lowerOutReads
  split <;> exact ⟨rfl, rfl, rfl, rfl, rfl⟩

theorem settled_reorder (b : NegotiationBuild) (p q : NegotiationPeer) :
    (settled b p q).noEnhancedReorder = (p.noEnhancedReorder ||
      decide (checksReorder b p ∧ announcedBit b p ≠ announcedBit b q)) := rfl

/-- What the symmetric lines read. -/
theorem localValue_congr {f : CompareFunction} (hf : f ∈ symmetricFields)
    (hp : p.toPerftestParameters = q.toPerftestParameters) (ha : p.atomicType = q.atomicType)
    (hr : p.reportFmt = q.reportFmt)
    (hn : f.name = "no_enhanced_reorder" → p.noEnhancedReorder = q.noEnhancedReorder) :
    f.localValue p = f.localValue q := by
  have hv : f.value p = f.value q := by
    simp only [symmetricFields, List.mem_cons, List.not_mem_nil, or_false] at hf
    rcases hf with rfl | rfl | rfl | rfl | rfl | rfl | rfl | rfl | rfl | rfl | rfl | rfl | rfl |
      rfl | rfl | rfl | rfl | rfl | rfl <;>
      first | exact congrArg boolToInt (hn rfl) | simp only [symmetricField, hp, ha, hr]
  unfold CompareFunction.localValue
  rw [hv]

/-- The lines other than `no_enhanced_reorder` read nothing that the negotiation changes. -/
theorem settled_value {f : CompareFunction} (hf : f ∈ symmetricFields)
    (hn : f.name ≠ "no_enhanced_reorder") : f.localValue (settled b p q) = f.localValue p := by
  obtain ⟨hp, ha, hr, -, -⟩ := settled_params b p q
  exact localValue_congr hf hp ha hr fun h => absurd h hn

theorem Agree.reorder (h : Agree p q) : p.noEnhancedReorder = q.noEnhancedReorder := by
  have hv := h (symmetricField "no_enhanced_reorder" .int fun p => boolToInt p.noEnhancedReorder)
    (by simp [symmetricFields])
  have hr : ∀ x : Bool, 0 ≤ boolToInt x ∧ boolToInt x < 256 ^ 4 := by decide
  have he := value_inj hv (hr _) (hr _)
  revert he
  simp only [symmetricField]
  cases p.noEnhancedReorder <;> cases q.noEnhancedReorder <;> decide

theorem Agree.connectionType (h : Agree p q) : p.connectionType = q.connectionType := by
  have hv := h (symmetricField "connection_type" .int fun p => p.connectionType.toInt)
    (by simp [symmetricFields])
  have hr : ∀ x : ConnectionType, 0 ≤ x.toInt ∧ x.toInt < 256 ^ 4 := by
    intro x
    cases x <;> decide
  have he := value_inj hv (hr _) (hr _)
  revert he
  simp only [symmetricField]
  cases p.connectionType <;> cases q.connectionType <;> decide

theorem announcedBit_other (h : p.vendorId ≠ MLNX_VENDOR_ID) : announcedBit b p = 0 := by
  have hv : mlx5dvField.value p = 0 := by
    simp [mlx5dvField, mlx5dvCompMask, h]
  have hb := (beValue_localValue mlx5dvField p).1
  rw [hv] at hb
  rw [announcedBit, oooBit, hb]
  simp

/-- A side that still uses enhanced reordering checked the capability, so its peer has it too. -/
theorem usesReorder_settled (h : Agree p q) (hu : usesReorder b (settled b p q)) :
    usesReorder b (settled b q p) := by
  obtain ⟨hp, -, -, hvp, hmp⟩ := settled_params b p q
  obtain ⟨hq, -, -, hvq, hmq⟩ := settled_params b q p
  have hbit : ∀ r s : NegotiationPeer, announcedBit b (settled b r s) = announcedBit b r := by
    intro r s
    obtain ⟨-, -, -, hv, hm⟩ := settled_params b r s
    simp only [announcedBit, CompareFunction.localValue, mlx5dvField, mlx5dvCompMask, hv, hm]
  obtain ⟨h1, h2, h3, h4, h5, h6, h7⟩ := hu
  rw [hvp] at h4
  rw [hbit] at h7
  rw [hp] at h5 h6
  rw [settled_reorder, Bool.or_eq_false_iff, decide_eq_false_iff_not] at h3
  have hsame : announcedBit b p = announcedBit b q := by
    by_contra hne
    exact h3.2 ⟨⟨h1, h2, h4⟩, hne⟩
  have hvendor : q.vendorId = MLNX_VENDOR_ID := by
    by_contra hne
    exact h7 (hsame.trans (announcedBit_other hne))
  refine ⟨h1, h2, ?_, by rw [hvq, hvendor], ?_, ?_, ?_⟩
  · rw [settled_reorder, Bool.or_eq_false_iff, decide_eq_false_iff_not]
    exact ⟨h.reorder ▸ h3.1, fun hc => hc.2 hsame.symm⟩
  · rw [hq]
    exact h.connectionType ▸ h5
  · rw [hq]
    exact h.connectionType ▸ h6
  · rw [hbit, ← hsame]
    exact h7

end Verdict

/-- A peer with the defaults of `ib_write_bw` on a device of the given vendor and capability. -/
def samplePeer (vendorId : Nat) (dvCompMask : UInt64) : NegotiationPeer :=
  { initPerftestParams ⟨.write, .bw, false⟩ {} with
    atomicType := 0, reportFmt := 0, noEnhancedReorder := false, outReads := 1, maxQpRdAtom := 16
    vendorId := vendorId, dvCompMask := some dvCompMask }

end Perftest
