import Perftest.Lib.CLiteral

/-!
# `strtol` and `strtoul` in a fixed base
-/

namespace CNumeral

open CString hiding dropSign strtol
open CLiteral

/-- The text behind the mark of base sixteen, which stands in front of a digit. -/
def dropMark (base : Nat) (s : Text) : Text := match s with
  | 48 :: x :: d :: rest =>
    if base = 16 ∧ (x = 120 ∨ x = 88) ∧ isDigitOf 16 d then d :: rest else s
  | _ => s

/-- The sign and the digits at the front of a text, and the text behind them. -/
def scan (base : Nat) (s : Text) : Option (Text × Nat × Text) :=
  let (sign, t) := dropSign (s.dropWhile isSpace)
  let t := dropMark base t
  let ds := t.takeWhile (isDigitOf base)
  if ds = [] then none else some (sign, valueOf base ds, t.dropWhile (isDigitOf base))

/-- The value, and the text that the end pointer points to. -/
def strtol (base : Nat) (s : Text) : Int × Text := match scan base s with
  | none => (0, s)
  | some (sign, n, rest) => (clampLong (signedValue sign n), rest)

/-- A minus sign negates in the unsigned type. -/
def strtoul (base : Nat) (s : Text) : Nat × Text := match scan base s with
  | none => (0, s)
  | some (sign, n, rest) =>
    (if 2 ^ 64 ≤ n then 2 ^ 64 - 1 else (signedValue sign n % 2 ^ 64).toNat, rest)

/-- Blanks, a sign, a mark and digits. -/
structure Numeral (base : Nat) (blanks sign mark ds : Text) : Prop where
  blanks : ∀ b ∈ blanks, isSpace b = true
  sign : sign = [] ∨ sign = [45] ∨ sign = [43]
  mark : mark = [] ∨ base = 16 ∧ (mark = [48, 120] ∨ mark = [48, 88])
  ne : ds ≠ []
  digits : ∀ b ∈ ds, isDigitOf base b = true

/-- A text that no number of the base goes on in. -/
def Ends (base : Nat) (rest : Text) : Prop :=
  ∀ b ∈ rest.head?, isDigitOf base b = false ∧ (base = 16 → b ≠ 120 ∧ b ≠ 88)

theorem ends_nil (base : Nat) : Ends base [] := by
  intro b hb
  cases hb

/-- Digits stand for less than the power of the base for their number. -/
theorem valueOf_lt_pow {base : Nat} {ds : Text} (h : ∀ b ∈ ds, isDigitOf base b = true) :
    valueOf base ds < base ^ ds.length := by
  induction ds using List.reverseRecOn with
  | nil => exact Nat.one_pos
  | append_singleton ds b ih =>
    obtain ⟨d, hd, hlt⟩ := (Option.any_eq_true ..).mp
      (h b (List.mem_append_right ds List.mem_cons_self))
    have hd' : d + 1 ≤ base := of_decide_eq_true hlt
    have hv := ih fun c hc => h c (List.mem_append_left [b] hc)
    have hvalue : valueOf base (ds ++ [b]) = base * valueOf base ds + d := by
      simp only [valueOf, List.foldl_append, List.foldl_cons, List.foldl_nil, hd, Option.getD_some]
    have hm : base * (valueOf base ds + 1) ≤ base * base ^ ds.length := Nat.mul_le_mul_left base hv
    rw [hvalue, List.length_append, List.length_singleton, Nat.pow_succ']
    rw [Nat.mul_add] at hm
    omega

section Scan

variable {base n : Nat} {s rest blanks sign mark ds : Text}

theorem dropMark_cons_cons {x : UInt8} (hx : x = 120 ∨ x = 88) {d : UInt8}
    (hd : isDigitOf 16 d = true) (t : Text) : dropMark 16 (48 :: x :: d :: t) = d :: t :=
  if_pos ⟨rfl, hx, hd⟩

/-- What is dropped is a mark. -/
theorem dropMark_spec (base : Nat) (s : Text) : ∃ mark, s = mark ++ dropMark base s ∧
    (mark = [] ∨ base = 16 ∧ (mark = [48, 120] ∨ mark = [48, 88])) := by
  unfold dropMark
  split
  next x d rest =>
    split
    next h =>
      obtain ⟨hb, hx, -⟩ := h
      rcases hx with rfl | rfl
      · exact ⟨[48, 120], rfl, .inr ⟨hb, .inl rfl⟩⟩
      · exact ⟨[48, 88], rfl, .inr ⟨hb, .inr rfl⟩⟩
    next => exact ⟨[], rfl, .inl rfl⟩
  next => exact ⟨[], rfl, .inl rfl⟩

/-- A number begins with a digit behind its sign. -/
theorem Numeral.head (h : Numeral base blanks sign mark ds) (rest : Text) :
    ∃ d t, mark ++ ds ++ rest = d :: t ∧ isSpace d = false ∧ d ≠ 45 ∧ d ≠ 43 := by
  rcases h.mark with rfl | ⟨-, rfl | rfl⟩
  · obtain ⟨d, t, rfl⟩ := List.exists_cons_of_ne_nil h.ne
    have hd := h.digits d List.mem_cons_self
    exact ⟨d, t ++ rest, rfl, head_of_digits (isDigitOf_isHex hd)⟩
  · exact ⟨48, 120 :: (ds ++ rest), rfl, by decide⟩
  · exact ⟨48, 88 :: (ds ++ rest), rfl, by decide⟩

theorem dropSign_append_cons {d : UInt8} {t : Text} (hs : sign = [] ∨ sign = [45] ∨ sign = [43])
    (hm : d ≠ 45) (hp : d ≠ 43) : dropSign (sign ++ d :: t) = (sign, d :: t) := by
  rcases hs with rfl | rfl | rfl
  · rw [List.nil_append]
    unfold dropSign
    split
    next h => exact absurd (List.cons.inj h).1 hm
    next h => exact absurd (List.cons.inj h).1 hp
    next => rfl
  · rfl
  · rfl

theorem dropMark_numeral (h : Numeral base blanks sign mark ds) (hr : Ends base rest) :
    dropMark base (mark ++ ds ++ rest) = ds ++ rest := by
  obtain ⟨d, t, rfl⟩ := List.exists_cons_of_ne_nil h.ne
  have hd := h.digits d List.mem_cons_self
  rcases h.mark with rfl | ⟨rfl, rfl | rfl⟩
  · unfold dropMark
    split
    next x e r he =>
      rw [if_neg]
      · rfl
      rintro ⟨hb, hx, -⟩
      have ht : t ++ rest = x :: e :: r := (List.cons.inj he).2
      have hhead : (t ++ rest).head? = some x := by
        rw [ht]
        rfl
      cases t with
      | nil =>
        obtain ⟨hn, hn'⟩ := (hr x hhead).2 hb
        exact hx.elim hn hn'
      | cons y t =>
        obtain rfl := Option.some.inj hhead
        have hy := h.digits y (List.mem_cons_of_mem _ List.mem_cons_self)
        rw [hb] at hy
        rcases hx with rfl | rfl
        · exact absurd hy (by decide)
        · exact absurd hy (by decide)
    next => rfl
  · exact dropMark_cons_cons (.inl rfl) hd _
  · exact dropMark_cons_cons (.inr rfl) hd _

/-- A number of the base is scanned up to a text that it does not go on in. -/
theorem scan_numeral (h : Numeral base blanks sign mark ds) (hr : Ends base rest) :
    scan base (blanks ++ (sign ++ (mark ++ ds ++ rest))) = some (sign, valueOf base ds, rest) := by
  obtain ⟨d, t, ht, hspace, hm, hp⟩ := h.head rest
  have hdrop : (blanks ++ (sign ++ (mark ++ ds ++ rest))).dropWhile isSpace =
      sign ++ (mark ++ ds ++ rest) := by
    apply dropWhile_append_of_all h.blanks
    intro b hb
    rcases h.sign with rfl | rfl | rfl
    · rw [ht] at hb
      obtain rfl := Option.some.inj hb
      exact hspace
    · obtain rfl := Option.some.inj hb
      decide
    · obtain rfl := Option.some.inj hb
      decide
  have hsign : dropSign (sign ++ (mark ++ ds ++ rest)) = (sign, mark ++ ds ++ rest) := by
    rw [ht]
    exact dropSign_append_cons h.sign hm hp
  have htake : (ds ++ rest).takeWhile (isDigitOf base) = ds :=
    takeWhile_append_of_all h.digits fun b hb => (hr b hb).1
  have hrest : (ds ++ rest).dropWhile (isDigitOf base) = rest :=
    dropWhile_append_of_all h.digits fun b hb => (hr b hb).1
  simp only [scan, hdrop, hsign, dropMark_numeral h hr, htake, if_neg h.ne, hrest]

theorem scan_spec (h : scan base s = some (sign, n, rest)) : ∃ blanks mark ds,
    Numeral base blanks sign mark ds ∧ s = blanks ++ (sign ++ (mark ++ ds ++ rest)) ∧
      n = valueOf base ds ∧ ∀ b ∈ rest.head?, isDigitOf base b = false := by
  unfold scan at h
  obtain ⟨happ, hsign⟩ := dropSign_spec (s.dropWhile isSpace)
  generalize dropSign (s.dropWhile isSpace) = p at h happ hsign
  obtain ⟨mark, hmark, hm⟩ := dropMark_spec base p.2
  dsimp only at h
  generalize dropMark base p.2 = t at h hmark
  split at h
  next => cases h
  next hne =>
    obtain ⟨rfl, hp⟩ := Prod.mk.inj (Option.some.inj h)
    obtain ⟨rfl, rfl⟩ := Prod.mk.inj hp
    refine ⟨s.takeWhile isSpace, mark, t.takeWhile (isDigitOf base), ?_, ?_, rfl, ?_⟩
    · exact ⟨fun b hb => List.mem_takeWhile_imp hb, hsign, hm, hne,
        fun b hb => List.mem_takeWhile_imp hb⟩
    · rw [List.append_assoc mark, List.takeWhile_append_dropWhile, ← hmark, ← happ,
        List.takeWhile_append_dropWhile]
    · intro b hb
      have hhead := List.head?_dropWhile_not (isDigitOf base) t
      rw [hb] at hhead
      exact hhead

/-- A text with a number at its front is scanned, in a base without a mark. -/
theorem scan_ne_none (h : Numeral base blanks sign mark ds) (hb : base ≠ 16) (rest : Text) :
    scan base (blanks ++ (sign ++ (mark ++ ds ++ rest))) ≠ none := by
  have hdigits : ds ++ rest = ds ++ rest.takeWhile (isDigitOf base) ++
      rest.dropWhile (isDigitOf base) := by
    rw [List.append_assoc, List.takeWhile_append_dropWhile]
  have hn : Numeral base blanks sign mark (ds ++ rest.takeWhile (isDigitOf base)) := by
    refine ⟨h.blanks, h.sign, h.mark, List.append_ne_nil_of_left_ne_nil h.ne _, fun b hm => ?_⟩
    rcases List.mem_append.mp hm with hm | hm
    · exact h.digits b hm
    · exact List.mem_takeWhile_imp hm
  have hends : Ends base (rest.dropWhile (isDigitOf base)) := by
    intro b hm
    refine ⟨?_, fun he => absurd he hb⟩
    have hhead := List.head?_dropWhile_not (isDigitOf base) rest
    rw [hm] at hhead
    exact hhead
  have hs := scan_numeral hn hends
  rw [List.append_assoc mark, ← hdigits, ← List.append_assoc mark] at hs
  rw [hs]
  exact Option.some_ne_none _

theorem strtol_numeral (h : Numeral base blanks sign mark ds) (hr : Ends base rest) :
    strtol base (blanks ++ (sign ++ (mark ++ ds ++ rest))) =
      (clampLong (signedValue sign (valueOf base ds)), rest) := by
  rw [strtol, scan_numeral h hr]

theorem strtoul_numeral (h : Numeral base blanks sign mark ds) (hr : Ends base rest)
    (hn : valueOf base ds < 2 ^ 64) :
    strtoul base (blanks ++ (sign ++ (mark ++ ds ++ rest))) =
      ((signedValue sign (valueOf base ds) % 2 ^ 64).toNat, rest) := by
  rw [strtoul, scan_numeral h hr]
  dsimp only
  rw [if_neg (by omega)]

/-- The end pointer is at the front only without a conversion. -/
theorem scan_length (h : scan base s = some (sign, n, rest)) : rest.length < s.length := by
  obtain ⟨blanks, mark, ds, hn, rfl, -, -⟩ := scan_spec h
  have hpos := List.length_pos_of_ne_nil hn.ne
  simp only [List.length_append]
  omega

theorem strtol_length_lt (h : (strtol base s).2 ≠ s) : (strtol base s).2.length < s.length := by
  unfold strtol at h ⊢
  split at h
  next => exact absurd rfl h
  next hs => exact scan_length hs

theorem strtol_length_le (base : Nat) (s : Text) : (strtol base s).2.length ≤ s.length := by
  unfold strtol
  split
  next => exact le_rfl
  next h => exact (scan_length h).le

end Scan

end CNumeral
