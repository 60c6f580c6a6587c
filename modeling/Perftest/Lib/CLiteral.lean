import Perftest.Lib.CString
import Mathlib.Tactic

/-!
# Integer literals of C, and `strtol` in base zero
-/

namespace CLiteral

open CString

def isDigitOf (base : Nat) (b : UInt8) : Bool := (digitVal b).any (· < base)

def valueOf (base : Nat) (ds : Text) : Nat :=
  ds.foldl (fun v b => base * v + (digitVal b).getD 0) 0

/-- The integer constants of C without a suffix, with their values. -/
inductive IntegerLiteral : Text → Nat → Prop
  | decimal (d : UInt8) (ds : Text) (hd : isDigitOf 10 d = true) (hz : d ≠ 48)
      (hds : ∀ b ∈ ds, isDigitOf 10 b = true) : IntegerLiteral (d :: ds) (valueOf 10 (d :: ds))
  | octal (ds : Text) (hds : ∀ b ∈ ds, isDigitOf 8 b = true) :
      IntegerLiteral (48 :: ds) (valueOf 8 (48 :: ds))
  | hex (x d : UInt8) (ds : Text) (hx : x = 120 ∨ x = 88) (hd : isDigitOf 16 d = true)
      (hds : ∀ b ∈ ds, isDigitOf 16 b = true) :
      IntegerLiteral (48 :: x :: d :: ds) (valueOf 16 (d :: ds))

/-- The base that the front of a text asks for, and the text behind its mark. -/
def literalBase (s : Text) : Nat × Text := match s with
  | 48 :: x :: d :: rest =>
    if (x = 120 ∨ x = 88) ∧ isDigitOf 16 d then (16, d :: rest) else (8, s)
  | 48 :: _ => (8, s)
  | _ => (10, s)

def scanLiteral (s : Text) : Option (Nat × Text) :=
  let (base, t) := literalBase s
  let ds := t.takeWhile (isDigitOf base)
  if ds = [] then none else some (valueOf base ds, t.drop ds.length)

def dropSign (s : Text) : Text × Text := match s with
  | 45 :: rest => ([45], rest)
  | 43 :: rest => ([43], rest)
  | _ => ([], s)

def signedValue (sign : Text) (n : Nat) : Int := if sign = [45] then -n else n

/-- The range of a `long`. -/
def clampLong (z : Int) : Int := max (-2 ^ 63) (min z (2 ^ 63 - 1))

/-- `strtol` in base zero: the value, and the text that the end pointer points to. -/
def strtolAuto (s : Text) : Int × Text :=
  let (sign, t) := dropSign (s.dropWhile isSpace)
  match scanLiteral t with
  | none => (0, s)
  | some (n, rest) => (clampLong (signedValue sign n), rest)

section Literal

variable {base n m : Nat} {b : UInt8} {s lit blanks sign : Text}

theorem isDigitOf_isHex (h : isDigitOf base b = true) : isHex b = true := by
  obtain ⟨v, hv, -⟩ := (Option.any_eq_true ..).mp h
  rw [isHex, hv]
  rfl

theorem literalBase_of_ne {d : UInt8} (hz : d ≠ 48) (ds : Text) :
    literalBase (d :: ds) = (10, d :: ds) := by
  unfold literalBase
  split
  next h => exact absurd (List.cons.inj h).1 hz
  next h => exact absurd (List.cons.inj h).1 hz
  next => rfl

theorem literalBase_mark {x d : UInt8} (hx : x = 120 ∨ x = 88) (hd : isDigitOf 16 d = true)
    (ds : Text) : literalBase (48 :: x :: d :: ds) = (16, d :: ds) := if_pos ⟨hx, hd⟩

theorem literalBase_octal {ds : Text}
    (h : ∀ x d rest, ds = x :: d :: rest → ¬ ((x = 120 ∨ x = 88) ∧ isDigitOf 16 d = true)) :
    literalBase (48 :: ds) = (8, 48 :: ds) := by
  unfold literalBase
  split
  next x d rest he =>
    rw [(List.cons.inj he).2] at h ⊢
    exact if_neg (h x d rest rfl)
  next => rfl
  next hne => exact absurd rfl (hne ds)

/-- The three forms of a text. -/
theorem literalBase_cases (s : Text) :
    (∃ x d rest, s = 48 :: x :: d :: rest ∧ (x = 120 ∨ x = 88) ∧ isDigitOf 16 d = true) ∨
      (∃ rest, s = 48 :: rest ∧ literalBase s = (8, s)) ∨
      (s.head? ≠ some 48 ∧ literalBase s = (10, s)) := by
  cases s with
  | nil => exact .inr (.inr ⟨by simp, rfl⟩)
  | cons z ds =>
    by_cases hz : z = 48
    · subst hz
      by_cases hm : ∃ x d rest, ds = x :: d :: rest ∧ (x = 120 ∨ x = 88) ∧ isDigitOf 16 d = true
      · obtain ⟨x, d, rest, rfl, hx, hd⟩ := hm
        exact .inl ⟨x, d, rest, rfl, hx, hd⟩
      · refine .inr (.inl ⟨ds, rfl, literalBase_octal fun x d rest he hc => hm ?_⟩)
        exact ⟨x, d, rest, he, hc⟩
    · refine .inr (.inr ⟨?_, literalBase_of_ne hz ds⟩)
      intro h
      exact hz (Option.some.inj h)

theorem literalBase_digits (h : IntegerLiteral lit n) :
    (literalBase lit).2 ≠ [] ∧ (∀ b ∈ (literalBase lit).2, isDigitOf (literalBase lit).1 b = true) ∧
      n = valueOf (literalBase lit).1 (literalBase lit).2 := by
  cases h with
  | decimal d ds hd hz hds =>
    rw [literalBase_of_ne hz]
    exact ⟨List.cons_ne_nil d ds, List.forall_mem_cons.mpr ⟨hd, hds⟩, rfl⟩
  | octal ds hds =>
    rw [literalBase_octal]
    · exact ⟨List.cons_ne_nil 48 ds, List.forall_mem_cons.mpr
        ⟨show isDigitOf 8 48 = true by decide, hds⟩, rfl⟩
    · rintro x d rest rfl ⟨rfl | rfl, -⟩
      · exact absurd (hds 120 List.mem_cons_self) (by decide)
      · exact absurd (hds 88 List.mem_cons_self) (by decide)
  | hex x d ds hx hd hds =>
    rw [literalBase_mark hx hd]
    exact ⟨List.cons_ne_nil d ds, List.forall_mem_cons.mpr ⟨hd, hds⟩, rfl⟩

theorem scanLiteral_literal (h : IntegerLiteral lit n) : scanLiteral lit = some (n, []) := by
  obtain ⟨hne, hall, hn⟩ := literalBase_digits h
  have htake : (literalBase lit).2.takeWhile (isDigitOf (literalBase lit).1) = (literalBase lit).2 :=
    List.takeWhile_eq_self_iff.mpr hall
  simp only [scanLiteral, htake, if_neg hne, ← hn, List.drop_length]

theorem IntegerLiteral.value_unique (h : IntegerLiteral lit n) (h' : IntegerLiteral lit m) :
    n = m := by
  have he := (scanLiteral_literal h).symm.trans (scanLiteral_literal h')
  exact (Prod.mk.inj (Option.some.inj he)).1

/-- A text that is scanned to its end is a literal. -/
theorem literal_of_scanLiteral (h : scanLiteral s = some (n, [])) : IntegerLiteral s n := by
  have hdigits : (literalBase s).2 ≠ [] ∧
      (∀ b ∈ (literalBase s).2, isDigitOf (literalBase s).1 b = true) ∧
      n = valueOf (literalBase s).1 (literalBase s).2 := by
    unfold scanLiteral at h
    dsimp only at h
    generalize literalBase s = p at h ⊢
    split at h
    next => cases h
    next hne =>
      obtain ⟨hv, hrest⟩ := Prod.mk.inj (Option.some.inj h)
      have htake : p.2.takeWhile (isDigitOf p.1) = p.2 := by
        apply (List.takeWhile_prefix _).eq_of_length_le
        exact List.drop_eq_nil_iff.mp hrest
      rw [htake] at hne hv
      exact ⟨hne, List.takeWhile_eq_self_iff.mp htake, hv.symm⟩
  obtain ⟨hne, hall, rfl⟩ := hdigits
  rcases literalBase_cases s with ⟨x, d, rest, rfl, hx, hd⟩ | ⟨rest, rfl, hb⟩ | ⟨hh, hb⟩
  · rw [literalBase_mark hx hd] at hall ⊢
    exact .hex x d rest hx hd (List.forall_mem_cons.mp hall).2
  · rw [hb] at hall ⊢
    exact .octal rest (List.forall_mem_cons.mp hall).2
  · rw [hb] at hall hne ⊢
    cases s with
    | nil => exact absurd rfl hne
    | cons d ds =>
      obtain ⟨hd, hds⟩ := List.forall_mem_cons.mp hall
      exact .decimal d ds hd (fun he => hh (congrArg some he)) hds

/-- A literal begins with a digit. -/
theorem IntegerLiteral.head (h : IntegerLiteral lit n) :
    ∃ d ds, lit = d :: ds ∧ isSpace d = false ∧ d ≠ 45 ∧ d ≠ 43 := by
  cases h with
  | decimal d ds hd => exact ⟨d, ds, rfl, head_of_digits (isDigitOf_isHex hd)⟩
  | octal ds => exact ⟨48, ds, rfl, by decide⟩
  | hex x d ds => exact ⟨48, x :: d :: ds, rfl, by decide⟩

end Literal

/-- Blanks, a sign and a literal. -/
structure Numeral (blanks sign lit : Text) (n : Nat) : Prop where
  blanks : ∀ b ∈ blanks, isSpace b = true
  sign : sign = [] ∨ sign = [45] ∨ sign = [43]
  literal : IntegerLiteral lit n

section Strtol

variable {n : Nat} {s lit blanks sign : Text} {z : Int}

theorem dropSign_append (hs : sign = [] ∨ sign = [45] ∨ sign = [43]) (hl : IntegerLiteral lit n) :
    dropSign (sign ++ lit) = (sign, lit) := by
  obtain ⟨d, ds, rfl, -, hm, hp⟩ := hl.head
  rcases hs with rfl | rfl | rfl
  · rw [List.nil_append]
    unfold dropSign
    split
    next h => exact absurd (List.cons.inj h).1 hm
    next h => exact absurd (List.cons.inj h).1 hp
    next => rfl
  · rfl
  · rfl

theorem strtolAuto_numeral (h : Numeral blanks sign lit n) :
    strtolAuto (blanks ++ sign ++ lit) = (clampLong (signedValue sign n), []) := by
  have hdrop : (blanks ++ sign ++ lit).dropWhile isSpace = sign ++ lit := by
    rw [List.append_assoc]
    apply dropWhile_append_of_all h.blanks
    intro b hb
    obtain ⟨d, ds, hl, hd, -⟩ := h.literal.head
    rcases h.sign with rfl | rfl | rfl
    · rw [hl] at hb
      obtain rfl := Option.some.inj hb
      exact hd
    · obtain rfl := Option.some.inj hb
      decide
    · obtain rfl := Option.some.inj hb
      decide
  rw [strtolAuto, hdrop, dropSign_append h.sign h.literal]
  simp only [scanLiteral_literal h.literal]

theorem strtolAuto_literal (h : IntegerLiteral lit n) : strtolAuto lit = (clampLong n, []) := by
  have hn : Numeral [] [] lit n := ⟨fun b hb => absurd hb List.not_mem_nil, .inl rfl, h⟩
  exact strtolAuto_numeral hn

theorem strtolAuto_nil : strtolAuto [] = (0, []) := rfl

theorem dropSign_spec (s : Text) : s = (dropSign s).1 ++ (dropSign s).2 ∧
    ((dropSign s).1 = [] ∨ (dropSign s).1 = [45] ∨ (dropSign s).1 = [43]) := by
  unfold dropSign
  split
  next => exact ⟨rfl, .inr (.inl rfl)⟩
  next => exact ⟨rfl, .inr (.inr rfl)⟩
  next => exact ⟨rfl, .inl rfl⟩

/-- A text that `strtol` takes to its end is empty or a numeral. -/
theorem exists_numeral (h : strtolAuto s = (z, [])) : (s = [] ∧ z = 0) ∨
    ∃ blanks sign lit n, Numeral blanks sign lit n ∧ s = blanks ++ sign ++ lit ∧
      z = clampLong (signedValue sign n) := by
  unfold strtolAuto at h
  obtain ⟨happ, hsign⟩ := dropSign_spec (s.dropWhile isSpace)
  generalize dropSign (s.dropWhile isSpace) = p at h happ hsign
  dsimp only at h
  split at h
  next =>
    obtain ⟨rfl, rfl⟩ := Prod.mk.inj h
    exact .inl ⟨rfl, rfl⟩
  next n rest hscan =>
    obtain ⟨rfl, rfl⟩ := Prod.mk.inj h
    refine .inr ⟨s.takeWhile isSpace, p.1, p.2, n, ⟨?_, hsign, literal_of_scanLiteral hscan⟩, ?_, rfl⟩
    · exact fun b hb => List.mem_takeWhile_imp hb
    · rw [List.append_assoc, ← happ, List.takeWhile_append_dropWhile]

end Strtol

end CLiteral
