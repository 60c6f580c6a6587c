import Perftest.Lib.CLiteral

namespace Perftest

open CLiteral
open CString (Text)

def MCG_GID : List UInt8 := [255, 1, 0, 0, 0, 2, 201, 133, 0, 0, 0, 0, 0, 0, 0, 0]

/-- The size of the field buffer `tmp`. -/
def MGID_TMP_SIZE : Nat := 20

/-- What goes outside the objects of the function: a copy whose length comes from a null `term`, and
a copy past the end of `tmp`. -/
inductive MgidFault where
  | nullTerm | tmpOverflow
deriving DecidableEq, Repr

/-- A field with the byte behind it is copied to `tmp` and converted. -/
def copyMgidField (tmp : Text) : Except MgidFault UInt8 :=
  if MGID_TMP_SIZE < tmp.length + 1 then .error .tmpOverflow
  else .ok (UInt8.ofInt (strtolAuto tmp).1)

/-- So many fields up to a colon, and the rest of the text as the last one. -/
def mgidFields : Nat → Text → Except MgidFault (List UInt8)
  | 0, pstr => do
    let b ← copyMgidField pstr
    return [b]
  | n + 1, pstr =>
    match CString.splitAt 58 pstr with
    | none => .error .nullTerm
    | some (tmp, pstr) => do
      let b ← copyMgidField tmp
      let bs ← mgidFields n pstr
      return b :: bs

/-- `set_multicast_gid`, with what it leaves in `mgid.raw`; it returns nothing, so that a fault is
its only way to fail. -/
def setMulticastGid (userMgid : Option Text) (isClient : Bool) : Except MgidFault (List UInt8) :=
  match userMgid with
  | some pstr => mgidFields 15 pstr
  | none => .ok (if isClient then MCG_GID.modify 15 (· + 1) else MCG_GID)

/-- Sixteen integers between single colons, each the value of a byte. -/
def IsMgid (s : Text) (raw : List UInt8) : Prop :=
  ∃ fields : List Text, s = [58].intercalate fields ∧ fields.length = 16 ∧
    List.Forall₂ (fun f b => IntegerLiteral f b.toNat) fields raw

/-- A multicast GID whose fields fit the buffer with their terminator. -/
def ShortMgid (s : Text) (raw : List UInt8) : Prop :=
  ∃ fields : List Text, s = [58].intercalate fields ∧ fields.length = 16 ∧
    List.Forall₂ (fun f b => IntegerLiteral f b.toNat ∧ f.length < MGID_TMP_SIZE) fields raw

section Fields

variable {f s : Text} {b : UInt8} {n : Nat} {fields : List Text} {raw : List UInt8}

theorem isDigitOf_ne {base : Nat} (h : isDigitOf base b = true) : b ≠ 58 ∧ b ≠ 0 := by
  obtain ⟨hlo, -, hne, -⟩ := CString.isHex_ne (isDigitOf_isHex h)
  constructor
  · rintro rfl
    exact hne rfl
  · rintro rfl
    exact absurd hlo (by decide)

/-- No colon and no terminator stands in a literal. -/
theorem literal_bytes (h : IntegerLiteral f n) : ∀ b ∈ f, b ≠ 58 ∧ b ≠ 0 := by
  cases h with
  | decimal d ds hd hz hds =>
    exact List.forall_mem_cons.mpr ⟨isDigitOf_ne hd, fun b hb => isDigitOf_ne (hds b hb)⟩
  | octal ds hds =>
    exact List.forall_mem_cons.mpr ⟨by decide, fun b hb => isDigitOf_ne (hds b hb)⟩
  | hex x d ds hx hd hds =>
    refine List.forall_mem_cons.mpr ⟨by decide, List.forall_mem_cons.mpr ⟨?_, ?_⟩⟩
    · rcases hx with rfl | rfl
      · decide
      · decide
    · exact List.forall_mem_cons.mpr ⟨isDigitOf_ne hd, fun b hb => isDigitOf_ne (hds b hb)⟩

/-- The literal of a byte is stored as that byte when the buffer holds it. -/
theorem copyMgidField_literal (h : IntegerLiteral f b.toNat) :
    copyMgidField f = if f.length < MGID_TMP_SIZE then .ok b else .error .tmpOverflow := by
  have hlt := b.toNat_lt
  have hclamp : clampLong (b.toNat : Int) = b.toNat := by
    unfold clampLong
    omega
  unfold copyMgidField
  rw [strtolAuto_literal h, hclamp, CString.ofInt_toNat_uint8]
  by_cases hf : f.length < MGID_TMP_SIZE
  · rw [if_neg (by omega), if_pos hf]
  · rw [if_pos (by omega), if_neg hf]

/-- Fields without a colon are copied one by one. -/
theorem mgidFields_intercalate (h : ∀ g ∈ f :: fields, ∀ b ∈ g, b ≠ 58 ∧ b ≠ 0) :
    mgidFields fields.length ([58].intercalate (f :: fields)) = (f :: fields).mapM copyMgidField := by
  induction fields generalizing f with
  | nil =>
    rw [List.intercalate_singleton]
    simp only [List.length_nil, mgidFields, List.mapM_cons, List.mapM_nil, pure_bind]
  | cons g fields ih =>
    obtain ⟨hf, hg⟩ := List.forall_mem_cons.mp h
    have hsplit : CString.splitAt 58 ([58].intercalate (f :: g :: fields)) =
        some (f, [58].intercalate (g :: fields)) := by
      rw [List.intercalate_cons_cons, List.append_assoc]
      exact CString.splitAt_append hf
    rw [List.mapM_cons, ← ih hg]
    simp only [List.length_cons, mgidFields, hsplit]

/-- The sixteen bytes are stored exactly when every field fits. -/
theorem mapM_copyMgidField_literals
    (h : List.Forall₂ (fun f b => IntegerLiteral f b.toNat) fields raw) :
    fields.mapM copyMgidField = .ok raw ↔ ∀ f ∈ fields, f.length < MGID_TMP_SIZE := by
  induction h with
  | nil => simp [pure, Except.pure]
  | @cons f b fields raw hf hfs ih =>
    rw [List.mapM_cons, copyMgidField_literal hf, List.forall_mem_cons]
    by_cases hlen : f.length < MGID_TMP_SIZE
    · rw [if_pos hlen, ← ih]
      cases fields.mapM copyMgidField with
      | error e => simp [bind, Except.bind, hlen]
      | ok bs => simp [bind, Except.bind, pure, Except.pure, hlen]
    · rw [if_neg hlen]
      simp [bind, Except.bind, hlen]

theorem setMulticastGid_isMgid (hlen : fields.length = 16)
    (h : List.Forall₂ (fun f b => IntegerLiteral f b.toNat) fields raw) (isClient : Bool) :
    setMulticastGid (some ([58].intercalate fields)) isClient = .ok raw ↔
      ∀ f ∈ fields, f.length < MGID_TMP_SIZE := by
  rw [← mapM_copyMgidField_literals h]
  cases fields with
  | nil => cases hlen
  | cons f fields =>
    have hcount : fields.length = 15 := Nat.succ.inj hlen
    have hbytes : ∀ g ∈ f :: fields, ∀ b ∈ g, b ≠ 58 ∧ b ≠ 0 := by
      intro g hg
      obtain ⟨i, hi, rfl⟩ := List.getElem_of_mem hg
      exact literal_bytes (h.get hi (h.length_eq ▸ hi))
    rw [← mgidFields_intercalate hbytes, hcount]
    rfl

end Fields

/-- The texts that are stored as the multicast GID that they stand for. -/
theorem setMulticastGid_stores_iff (s : Text) (isClient : Bool) :
    (∃ raw, IsMgid s raw ∧ setMulticastGid (some s) isClient = .ok raw) ↔
      ∃ raw, ShortMgid s raw := by
  constructor
  · rintro ⟨raw, ⟨fields, rfl, hlen, hf⟩, hok⟩
    have hshort := (setMulticastGid_isMgid hlen hf isClient).mp hok
    refine ⟨raw, fields, rfl, hlen, ?_⟩
    rw [List.forall₂_iff_get] at hf ⊢
    exact ⟨hf.1, fun i hi hr => ⟨hf.2 i hi hr, hshort _ (List.get_mem fields ⟨i, hi⟩)⟩⟩
  · rintro ⟨raw, fields, rfl, hlen, hf⟩
    have hlit := hf.imp fun _ _ h => h.1
    refine ⟨raw, ⟨fields, rfl, hlen, hlit⟩, (setMulticastGid_isMgid hlen hlit isClient).mpr ?_⟩
    intro f hm
    obtain ⟨i, hi, rfl⟩ := List.getElem_of_mem hm
    exact (hf.get hi (hf.length_eq ▸ hi)).2

/-- The text `"1:2"`. -/
def twoFields : Text := [49, 58, 50]

theorem twoFields_nullTerm :
    ¬ ∃ raw, IsMgid twoFields raw ∧ setMulticastGid (some twoFields) false = .ok raw := by
  rintro ⟨raw, -, hok⟩
  have hfault : setMulticastGid (some twoFields) false = .error .nullTerm := by
    rfl
  rw [hfault] at hok
  cases hok

end Perftest
