import Perftest.Negotiation
import Perftest.Lib.NetBytes
import Perftest.Lib.StructImage

namespace Perftest

open CString StructImage
open NetBytes (ByteOrder)

/-- The members of `perftest_parameters_negotiate_legacy` that have the name of the parameter, in
front of the device attributes. -/
def legacyNamedMembers : List (String × Nat) :=
  [("test_method", 4), ("connection_type", 4), ("verb", 4), ("tst", 4), ("atomicType", 4),
    ("test_type", 4), ("report_fmt", 4), ("size", 8), ("iters", 8), ("aes_xts", 4),
    ("num_of_qps", 4), ("duration", 4), ("use_rdma_cm", 4), ("use_write_with_imm", 4),
    ("no_enhanced_reorder", 4), ("sig_offload", 4), ("data_validation", 4)]

def MAX_QP_RD_ATOM_MEMBER : String := "attr.max_qp_rd_atom"

/-- The members that are packed. -/
def legacyMembers (b : NegotiationBuild) : List (String × Nat) :=
  legacyNamedMembers ++ [(MAX_QP_RD_ATOM_MEMBER, 4)] ++
    if b.haveMlx5dv then [("mlx5dv_comp_mask", 8)] else []

abbrev LegacyLayout (b : NegotiationBuild) := StructImage.Layout String (legacyMembers b)

/-- `ntoh_int` and `hton_int` on the bytes of an `int` in memory. -/
def swapInt (order : ByteOrder) (bytes : Text) : Text := match order with
  | .little => bytes.reverse
  | .big => bytes

/-- The bytes of a field of `local_params`. -/
def localParam (b : NegotiationBuild) (p : NegotiationPeer) (field : String) : Text :=
  (((compareFunctions b).find? fun f => f.name = field).map fun f => f.localValue p).getD []

/-- What is packed into a member. -/
def legacyValue (b : NegotiationBuild) (order : ByteOrder) (p : NegotiationPeer) (member : String) :
    Text :=
  if member = MAX_QP_RD_ATOM_MEMBER then swapInt order (localParam b p "max_qp_rd_atom")
  else localParam b p member

/-- The structure that a peer sends. -/
def localLegacy (b : NegotiationBuild) (order : ByteOrder) (L : LegacyLayout b)
    (p : NegotiationPeer) : Image := pack L (legacyValue b order p)

/-- The bytes that are assigned to a field of `remote_params` of size `n`. -/
def unpacked (b : NegotiationBuild) (order : ByteOrder) (L : LegacyLayout b) (remoteLegacy : Image)
    (field : String) (n : Nat) : Text :=
  if field = "max_qp_rd_atom" then
    swapInt order (StructImage.load remoteLegacy (L.offset MAX_QP_RD_ATOM_MEMBER) n)
  else StructImage.load remoteLegacy (L.offset field) n

theorem unpacked_length {b : NegotiationBuild} {order : ByteOrder} {L : LegacyLayout b}
    {remoteLegacy : Image} {field : String} {n : Nat} :
    (unpacked b order L remoteLegacy field n).length = n := by
  unfold unpacked swapInt
  split
  next => cases order <;> simp
  next => simp

/-- An assignment to the field of `remote_params` that an entry refers to. -/
def CompareEntry.assign (e : CompareEntry) (bytes : Nat → Text) (h : ∀ n, (bytes n).length = n) :
    CompareEntry :=
  { e with remoteValue := bytes e.valueSize, sizes := h e.valueSize }

def CompareEntry.mark (e : CompareEntry) : CompareEntry := { e with received := true }

/-- `mark_received` stops at the first entry of the name. -/
def markReceived (name : Text) : List CompareEntry → List CompareEntry
  | [] => []
  | e :: es => if e.name = name then e.mark :: es else e :: markReceived name es

/-- The names that are unpacked and marked, in the order of the source. -/
def unpackedFields (b : NegotiationBuild) : List String :=
  legacyNamedMembers.map Prod.fst ++ ["max_qp_rd_atom"] ++
    if b.haveMlx5dv then ["mlx5dv_comp_mask"] else []

section Unpack

variable (b : NegotiationBuild) (order : ByteOrder) (L : LegacyLayout b)

/-- `remote_params->field = remote_legacy.field`, and `mark_received` with its name. -/
def unpackField (remoteLegacy : Image) (table : List CompareEntry) (field : String) :
    List CompareEntry :=
  markReceived (ofString field) <| table.map fun e : CompareEntry =>
    if e.name = ofString field then
      e.assign (unpacked b order L remoteLegacy field) fun _ => unpacked_length
    else e

/-- `negotiate_params_legacy` on the structure of the peer. -/
def negotiateParamsLegacy (remoteLegacy : Image) (table : List CompareEntry) : List CompareEntry :=
  (unpackedFields b).foldl (unpackField b order L remoteLegacy) table

/-- The table of `p` behind an exchange with `q` of the legacy structure. -/
def legacyTable (p q : NegotiationPeer) : List CompareEntry :=
  negotiateParamsLegacy b order L (transfer (localLegacy b order L q) L.size)
    ((compareFunctions b).map fun f => f.entry p)

/-- The table of `p` behind an exchange with `q` of key/value strings. -/
def kvTable (p q : NegotiationPeer) : List CompareEntry :=
  parseKvString (negotiationString b q ++ [0]) ((compareFunctions b).map fun f => f.entry p)

/-- `negotiate_params` of `p` against the peer `q`, with the legacy structure. -/
def negotiateLegacy (p q : NegotiationPeer) : Except String NegotiationPeer :=
  ((compareFunctions b).zip (legacyTable b order L p q)).foldlM (compareStep b p) p

end Unpack

/-- The fields that the legacy structure does not have. -/
def isModernField (name : Text) : Prop := name = ofString "tx_depth" ∨ name = ofString "duplex"

instance (name : Text) : Decidable (isModernField name) := inferInstanceAs (Decidable (_ ∨ _))

/-- The two negotiations agree: on the entries they share, and on the result where the peers agree on
the others. -/
structure LegacyAgrees (b : NegotiationBuild) (order : ByteOrder) (L : LegacyLayout b)
    (p q : NegotiationPeer) : Prop where
  length : (legacyTable b order L p q).length = (kvTable b p q).length
  received : ∀ (i : Nat) (e k : CompareEntry),
    (legacyTable b order L p q)[i]? = some e → (kvTable b p q)[i]? = some k →
    e.name = k.name ∧ (e.received = true ↔ k.received = true ∧ ¬ isModernField k.name)
  remote : ∀ (i : Nat) (e k : CompareEntry),
    (legacyTable b order L p q)[i]? = some e → (kvTable b p q)[i]? = some k →
    e.received = true → e.remoteValue = k.remoteValue
  result : (∀ f ∈ symmetricFields, isModernField (ofString f.name) →
    f.localValue p = f.localValue q) → negotiateLegacy b order L p q = negotiate b p q

section Entries

variable {b : NegotiationBuild} {order : ByteOrder} {L : LegacyLayout b} {p q : NegotiationPeer}
  {R : List CompareEntry}

theorem markReceived_eq_map {name : Text} (h : (R.map CompareEntry.name).Nodup) :
    markReceived name R = R.map fun e => if e.name = name then e.mark else e := by
  induction R with
  | nil => rfl
  | cons e R ih =>
    rw [List.map_cons, List.nodup_cons] at h
    rw [markReceived, List.map_cons]
    split
    next he =>
      have hrest : ∀ x ∈ R, (if x.name = name then x.mark else x) = x := by
        intro x hx
        rw [if_neg]
        intro hk
        exact h.1 (List.mem_map.mpr ⟨x, hx, by rw [hk, he]⟩)
      rw [List.map_congr_left hrest, List.map_id']
    next => rw [ih h.2]

variable (b order L) in
/-- What a field does to an entry. -/
def receiveField (remoteLegacy : Image) (e : CompareEntry) (field : String) : CompareEntry :=
  if e.name = ofString field then
    (e.assign (unpacked b order L remoteLegacy field) fun _ => unpacked_length).mark
  else e

theorem receiveField_name {remoteLegacy : Image} {e : CompareEntry} {field : String} :
    (receiveField b order L remoteLegacy e field).name = e.name := by
  unfold receiveField
  split <;> rfl

theorem unpackField_eq_map {remoteLegacy : Image} {field : String}
    (h : (R.map CompareEntry.name).Nodup) : unpackField b order L remoteLegacy R field =
      R.map fun e => receiveField b order L remoteLegacy e field := by
  unfold unpackField
  rw [markReceived_eq_map, List.map_map]
  · apply List.map_congr_left
    intro e _
    simp only [Function.comp_apply, receiveField]
    by_cases he : e.name = ofString field
    · simp only [he, if_true]
      exact if_pos he
    · simp only [he, if_false]
  · have hname : (R.map fun e : CompareEntry => if e.name = ofString field then
        e.assign (unpacked b order L remoteLegacy field) fun _ => unpacked_length else e).map
          CompareEntry.name = R.map CompareEntry.name := by
      rw [List.map_map]
      apply List.map_congr_left
      intro e _
      simp only [Function.comp_apply]
      split <;> rfl
    exact hname ▸ h

theorem foldl_unpackField {remoteLegacy : Image} (fields : List String)
    (h : (R.map CompareEntry.name).Nodup) :
    fields.foldl (unpackField b order L remoteLegacy) R =
      R.map fun e => fields.foldl (receiveField b order L remoteLegacy) e := by
  induction fields generalizing R with
  | nil => exact (List.map_id' R).symm
  | cons field fields ih =>
    rw [List.foldl_cons, unpackField_eq_map h, ih, List.map_map]
    · rfl
    · have hname : (R.map fun e => receiveField b order L remoteLegacy e field).map
          CompareEntry.name = R.map CompareEntry.name := by
        rw [List.map_map]
        apply List.map_congr_left
        intro e _
        exact receiveField_name
      exact hname ▸ h

theorem foldl_receiveField_other {remoteLegacy : Image} {fields : List String} {e : CompareEntry}
    (h : ∀ x ∈ fields, e.name ≠ ofString x) :
    fields.foldl (receiveField b order L remoteLegacy) e = e := by
  induction fields with
  | nil => rfl
  | cons field fields ih =>
    rw [List.foldl_cons, receiveField, if_neg (h field List.mem_cons_self)]
    exact ih fun x hx => h x (List.mem_cons_of_mem _ hx)

/-- An entry is received through the one field of its name. -/
theorem foldl_receiveField {remoteLegacy : Image} {fields : List String} {e : CompareEntry}
    {field : String} (hn : (fields.map ofString).Nodup) (hf : field ∈ fields)
    (he : e.name = ofString field) : fields.foldl (receiveField b order L remoteLegacy) e =
      (e.assign (unpacked b order L remoteLegacy field) fun _ => unpacked_length).mark := by
  induction fields generalizing e with
  | nil => cases hf
  | cons x fields ih =>
    rw [List.map_cons, List.nodup_cons] at hn
    rcases List.mem_cons.mp hf with rfl | hf
    · rw [List.foldl_cons, receiveField, if_pos he]
      apply foldl_receiveField_other
      intro x hx hname
      apply hn.1
      have heq : ofString field = ofString x := he.symm.trans hname
      rw [heq]
      exact List.mem_map_of_mem hx
    · have hne : e.name ≠ ofString x := by
        intro hname
        apply hn.1
        rw [← hname, he]
        exact List.mem_map_of_mem hf
      rw [List.foldl_cons, receiveField, if_neg hne]
      exact ih hn.2 hf he

theorem unpackedFields_nodup (b : NegotiationBuild) : ((unpackedFields b).map ofString).Nodup := by
  unfold unpackedFields
  split <;> decide +kernel

/-- The fields that are unpacked are those of the table but the two. -/
theorem unpackedFields_complete (b : NegotiationBuild) : ∀ f ∈ compareFunctions b,
    (f.name ∈ unpackedFields b ∧ ¬ isModernField (ofString f.name)) ∨
      (isModernField (ofString f.name) ∧ ∀ x ∈ unpackedFields b, ofString f.name ≠ ofString x) := by
  unfold compareFunctions unpackedFields
  split <;> decide +kernel

theorem localParam_eq {f : CompareFunction} (hf : f ∈ compareFunctions b) :
    localParam b p f.name = f.localValue p := by
  have hex : ((compareFunctions b).find? fun g => decide (g.name = f.name)).isSome := by
    rw [List.find?_isSome]
    exact ⟨f, hf, decide_eq_true rfl⟩
  obtain ⟨g, hg⟩ := Option.isSome_iff_exists.mp hex
  have hgf : g = f := by
    apply List.inj_on_of_nodup_map (compareFunctions_nodup b) (List.mem_of_find?_eq_some hg) hf
    have hname := List.find?_some hg
    rw [decide_eq_true_eq] at hname
    rw [hname]
  rw [localParam, hg, hgf]
  rfl

/-- Each member belongs to a line of the table of its size. -/
theorem legacyMembers_table (b : NegotiationBuild) : ∀ m ∈ legacyMembers b,
    ∃ f ∈ compareFunctions b, f.type.size = m.2 ∧
      f.name = if m.1 = MAX_QP_RD_ATOM_MEMBER then "max_qp_rd_atom" else m.1 := by
  unfold legacyMembers compareFunctions
  split <;> decide +kernel

theorem legacyMembers_field (b : NegotiationBuild) : ∀ f ∈ compareFunctions b,
    f.name ∈ unpackedFields b → (f.name ≠ MAX_QP_RD_ATOM_MEMBER) ∧
      (f.name = "max_qp_rd_atom" ∧ f.type.size = 4 ∨
        f.name ≠ "max_qp_rd_atom" ∧ (f.name, f.type.size) ∈ legacyMembers b) := by
  unfold legacyMembers compareFunctions unpackedFields
  split <;> decide +kernel

theorem swapInt_length (order : ByteOrder) (bytes : Text) :
    (swapInt order bytes).length = bytes.length := by
  cases order <;> simp [swapInt]

theorem swapInt_swapInt (order : ByteOrder) (bytes : Text) :
    swapInt order (swapInt order bytes) = bytes := by
  cases order <;> simp [swapInt]

theorem legacyValue_length (b : NegotiationBuild) (order : ByteOrder) (p : NegotiationPeer) :
    ∀ m ∈ legacyMembers b, (legacyValue b order p m.1).length = m.2 := by
  intro m hm
  obtain ⟨f, hf, hsize, hname⟩ := legacyMembers_table b m hm
  unfold legacyValue
  split at hname
  next ha => rw [if_pos ha, swapInt_length, ← hname, localParam_eq hf, f.localValue_length, hsize]
  next ha => rw [if_neg ha, ← hname, localParam_eq hf, f.localValue_length, hsize]

/-- A field that is unpacked has the bytes of the peer. -/
theorem unpacked_eq {f : CompareFunction} (hf : f ∈ compareFunctions b)
    (hu : f.name ∈ unpackedFields b) :
    unpacked b order L (transfer (localLegacy b order L q) L.size) f.name f.type.size =
      f.localValue q := by
  have hload := load_pack_transfer (L := L) (legacyValue_length b order q)
  obtain ⟨hmember, ⟨hname, hsize⟩ | ⟨hname, hmem⟩⟩ := legacyMembers_field b f hf hu
  · have hm : (MAX_QP_RD_ATOM_MEMBER, 4) ∈ legacyMembers b := by
      simp [legacyMembers]
    have h := hload _ hm
    rw [unpacked, if_pos hname, hsize, localLegacy]
    rw [h, legacyValue, if_pos rfl, swapInt_swapInt, ← hname, localParam_eq hf]
  · rw [unpacked, if_neg hname, localLegacy]
    have h := hload _ hmem
    rw [h, legacyValue, if_neg hmember, localParam_eq hf]

variable (b order L p q) in
/-- The entry of a line behind the exchange of the legacy structure. -/
def legacyReceived (f : CompareFunction) : CompareEntry :=
  (unpackedFields b).foldl
    (receiveField b order L (transfer (localLegacy b order L q) L.size)) (f.entry p)

theorem legacyTable_eq_map :
    legacyTable b order L p q = (compareFunctions b).map (legacyReceived b order L p q) := by
  rw [legacyTable, negotiateParamsLegacy, foldl_unpackField _ (entries_kvTable b p).nodup,
    List.map_map]
  rfl

theorem kvTable_eq_map : kvTable b p q = (compareFunctions b).map (receivedEntry b p q) := by
  rw [kvTable, negotiationString, parseKvString_foldl (entries_kvTable b q),
    foldl_receivePair (entries_kvTable b p).nodup, List.map_map]
  rfl

theorem receivedEntry_name {f : CompareFunction} :
    (receivedEntry b p q f).name = ofString f.name := by
  have key : ∀ (S : List CompareEntry) (e : CompareEntry), (receiveAll S e).name = e.name := by
    intro S
    induction S with
    | nil => exact fun e => rfl
    | cons s S ih =>
      intro e
      rw [receiveAll, List.foldl_cons]
      refine (ih _).trans ?_
      split <;> rfl
  exact key _ _

/-- A line of the legacy structure ends as in the other exchange, the other lines stay as they are. -/
theorem legacyReceived_eq {f : CompareFunction} (hf : f ∈ compareFunctions b) :
    legacyReceived b order L p q f =
      if isModernField (ofString f.name) then f.entry p else receivedEntry b p q f := by
  rcases unpackedFields_complete b f hf with ⟨hu, hm⟩ | ⟨hm, hother⟩
  · obtain ⟨hr, hl, hv⟩ := receivedEntry_spec (p := p) (q := q) hf
    have hname := @receivedEntry_name b p q f
    have hbytes := @unpacked_eq b order L q f hf hu
    rw [if_neg hm, legacyReceived, foldl_receiveField (unpackedFields_nodup b) hu rfl]
    have hsize : (f.entry p).valueSize = f.type.size := f.localValue_length p
    have hremote : unpacked b order L (transfer (localLegacy b order L q) L.size) f.name
        (f.entry p).valueSize = (receivedEntry b p q f).remoteValue := by
      rw [hsize, hbytes, hv]
    generalize receivedEntry b p q f = k at hr hl hv hname hremote ⊢
    obtain ⟨name, localValue, remoteValue, received, sizes⟩ := k
    simp only at hr hl hv hname hremote
    subst hr hl hname hremote
    rfl
  · rw [if_pos hm, legacyReceived]
    exact foldl_receiveField_other hother

theorem isModernField_symmetric {f : CompareFunction} (hf : f ∈ compareFunctions b)
    (hm : isModernField (ofString f.name)) : f ∈ symmetricFields := by
  have key : ∀ f ∈ [maxQpRdAtomField] ++ if b.haveMlx5dv then [mlx5dvField] else [],
      ¬ isModernField (ofString f.name) := by
    split <;> decide +kernel
  rw [compareFunctions, List.append_assoc] at hf
  rcases List.mem_append.mp hf with h | h
  · exact h
  · exact absurd hm (key f h)

/-- Where the peers agree on the two other fields, a round ends alike. -/
theorem compareStep_legacy {f : CompareFunction} {u : NegotiationPeer}
    (hf : f ∈ compareFunctions b)
    (ha : isModernField (ofString f.name) → f.localValue p = f.localValue q) :
    compareStep b p u (f, legacyReceived b order L p q f) =
      compareStep b p u (f, receivedEntry b p q f) := by
  rw [legacyReceived_eq hf]
  split
  next hm =>
    rw [compareStep_symmetric (isModernField_symmetric hf hm), if_pos (ha hm)]
    rfl
  next => rfl

theorem foldlM_congr_mem {α σ : Type} {g h : σ → α → Except String σ} {l : List α}
    (hgh : ∀ a ∈ l, ∀ u, g u a = h u a) (u : σ) : l.foldlM g u = l.foldlM h u := by
  induction l generalizing u with
  | nil => rfl
  | cons a l ih =>
    rw [List.foldlM_cons, List.foldlM_cons, hgh a List.mem_cons_self]
    exact bind_congr fun v => ih (fun c hc => hgh c (List.mem_cons_of_mem _ hc)) v

theorem negotiateLegacy_eq_foldlM : negotiateLegacy b order L p q = (compareFunctions b).foldlM
    (fun u f => compareStep b p u (f, legacyReceived b order L p q f)) p := by
  rw [negotiateLegacy, legacyTable_eq_map, ← List.map_prod_left_eq_zip, List.foldlM_map]

theorem negotiateLegacy_eq (ha : ∀ f ∈ symmetricFields, isModernField (ofString f.name) →
    f.localValue p = f.localValue q) : negotiateLegacy b order L p q = negotiate b p q := by
  rw [negotiateLegacy_eq_foldlM, negotiate_eq_foldlM]
  apply foldlM_congr_mem
  intro f hf u
  apply compareStep_legacy hf
  intro hm
  exact ha f (isModernField_symmetric hf hm) hm

end Entries

/-- The legacy exchange marks the entries of the other but `tx_depth` and `duplex`, with the same
bytes, and where the peers agree on these two it has the same result. -/
theorem legacy_negotiation_agrees (b : NegotiationBuild) (order : ByteOrder) (L : LegacyLayout b)
    (p q : NegotiationPeer) : LegacyAgrees b order L p q := by
  have hlegacy := @legacyTable_eq_map b order L p q
  have hkv := @kvTable_eq_map b p q
  have hentries : ∀ (i : Nat) (e k : CompareEntry), (legacyTable b order L p q)[i]? = some e →
      (kvTable b p q)[i]? = some k → ∃ f ∈ compareFunctions b,
        e = legacyReceived b order L p q f ∧ k = receivedEntry b p q f := by
    intro i e k he hk
    rw [hlegacy, List.getElem?_map] at he
    rw [hkv, List.getElem?_map] at hk
    obtain ⟨f, hf, rfl⟩ := Option.map_eq_some_iff.mp he
    rw [hf, Option.map_some] at hk
    exact ⟨f, List.mem_of_getElem? hf, rfl, (Option.some.inj hk).symm⟩
  refine ⟨?_, ?_, ?_, negotiateLegacy_eq⟩
  · rw [hlegacy, hkv, List.length_map, List.length_map]
  · intro i e k he hk
    obtain ⟨f, hf, rfl, rfl⟩ := hentries i e k he hk
    obtain ⟨hr, -, -⟩ := receivedEntry_spec (p := p) (q := q) hf
    rw [legacyReceived_eq hf, receivedEntry_name]
    split
    next hm =>
      refine ⟨rfl, fun h => ?_, fun h => absurd hm h.2⟩
      cases h
    next hm => exact ⟨receivedEntry_name, fun _ => ⟨hr, hm⟩, fun _ => hr⟩
  · intro i e k he hk hreceived
    obtain ⟨f, hf, rfl, rfl⟩ := hentries i e k he hk
    rw [legacyReceived_eq hf] at hreceived ⊢
    split
    next hm =>
      rw [if_pos hm] at hreceived
      cases hreceived
    next => rfl

/-- The offsets on a 64-bit host, where `max_qp_rd_atom` is at 144 of the device attributes. -/
def lp64Offset (member : String) : Nat :=
  ((([("test_method", 0), ("connection_type", 4), ("verb", 8), ("tst", 12), ("atomicType", 16),
    ("test_type", 20), ("report_fmt", 24), ("size", 32), ("iters", 40), ("aes_xts", 48),
    ("num_of_qps", 52), ("duration", 56), ("use_rdma_cm", 60), ("use_write_with_imm", 64),
    ("no_enhanced_reorder", 68), ("sig_offload", 72), ("data_validation", 76),
    (MAX_QP_RD_ATOM_MEMBER, 80 + 144), ("mlx5dv_comp_mask", 312)] : List (String × Nat)).find?
      fun m => m.1 = member).map Prod.snd).getD 0

def lp64Layout (b : NegotiationBuild) : LegacyLayout b where
  size := 320
  offset := lp64Offset
  inside := by
    unfold legacyMembers
    split <;> decide +kernel
  apart := by
    unfold legacyMembers
    split <;> decide +kernel

/-- On such hosts the limit of the device is sent in host order. -/
example : StructImage.load (localLegacy ⟨true, true, 1⟩ .little (lp64Layout ⟨true, true, 1⟩)
    (samplePeer MLNX_VENDOR_ID 1)) 224 4 = [16, 0, 0, 0] := by decide +kernel

end Perftest
