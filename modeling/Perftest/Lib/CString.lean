import Mathlib.Data.List.Basic
import Mathlib.Data.List.TakeWhile
import Mathlib.Tactic.IntervalCases

/-!
# Numbers in C text

The `x` conversions of `printf` and `scanf`, `strtol` in base sixteen, and the search for a
separator, on texts as lists of bytes.
-/

namespace CString

abbrev Text := List UInt8

def hexDigit (d : Nat) : UInt8 := if d < 10 then UInt8.ofNat (48 + d) else UInt8.ofNat (87 + d)

def digitVal (b : UInt8) : Option Nat :=
  if 48 ≤ b ∧ b ≤ 57 then some (b.toNat - 48)
  else if 97 ≤ b ∧ b ≤ 102 then some (b.toNat - 87)
  else if 65 ≤ b ∧ b ≤ 70 then some (b.toNat - 55)
  else none

def isHex (b : UInt8) : Bool := (digitVal b).isSome

def isSpace (b : UInt8) : Bool := b == 32 || (9 ≤ b && b ≤ 13)

def hexDigitsFrom : Nat → Nat → Text
  | 0, _ => []
  | fuel + 1, n =>
    if n < 16 then [hexDigit n] else hexDigitsFrom fuel (n / 16) ++ [hexDigit (n % 16)]

/-- The digits of the `x` conversion. -/
def hexDigits (n : Nat) : Text := hexDigitsFrom (n + 1) n

/-- The conversion `%0wx`: the width is a minimum. -/
def padHex (w n : Nat) : Text :=
  List.replicate (w - (hexDigits n).length) 48 ++ hexDigits n

/-- The last `w` digits. -/
def fixedHex : Nat → Nat → Text
  | 0, _ => []
  | w + 1, n => fixedHex w (n / 16) ++ [hexDigit (n % 16)]

def hexValue (ds : Text) : Nat := ds.foldl (fun v b => 16 * v + (digitVal b).getD 0) 0

/-- The optional `0x` in front of a digit. -/
def dropPrefix (w : Nat) (s : Text) : Nat × Text :=
  match s with
  | z :: x :: d :: rest =>
    if z = 48 ∧ (x = 120 ∨ x = 88) ∧ isHex d ∧ 3 ≤ w then (w - 2, d :: rest) else (w, s)
  | _ => (w, s)

def dropSign (w : Nat) (s : Text) : Bool × Nat × Text :=
  match s with
  | b :: rest => if b = 45 ∧ 2 ≤ w then (true, w - 1, rest)
    else if b = 43 ∧ 2 ≤ w then (false, w - 1, rest) else (false, w, s)
  | [] => (false, w, s)

/-- The conversion `%wx` of `scanf` at the front of a text. -/
def scanHex (w : Nat) (s : Text) : Option (Int × Text) :=
  let (neg, w, s) := dropSign w (s.dropWhile isSpace)
  let (w, s) := dropPrefix w s
  let ds := (s.take w).takeWhile isHex
  if ds = [] then none
  else some (if neg then -(hexValue ds : Int) else hexValue ds, s.drop ds.length)

/-- The subject of `strtol` and its siblings in base sixteen; 0 without a conversion. -/
def strtox (s : Text) : Int := ((scanHex s.length s).map Prod.fst).getD 0

def strtol (s : Text) : Int := max (-2 ^ 63) (min (strtox s) (2 ^ 63 - 1))

def strtoull (s : Text) : Nat :=
  if 2 ^ 64 ≤ (strtox s).natAbs then 2 ^ 64 - 1 else (strtox s % 2 ^ 64).toNat

/-- A C string up to its terminator. -/
def cstr (s : Text) : Text := s.takeWhile (· ≠ 0)

/-- The text in front of the first separator and the text behind it. -/
def splitAt (sep : UInt8) (s : Text) : Option (Text × Text) :=
  match s.dropWhile (fun b => b ≠ sep && b ≠ 0) with
  | b :: rest =>
    if b = sep then some (s.takeWhile (fun b => b ≠ sep && b ≠ 0), rest) else none
  | [] => none

theorem digitVal_hexDigit {d : Nat} (h : d < 16) : digitVal (hexDigit d) = some d := by
  interval_cases d <;> rfl

theorem isHex_hexDigit {d : Nat} (h : d < 16) : isHex (hexDigit d) = true := by
  rw [isHex, digitVal_hexDigit h]
  rfl

/-- A byte read as a digit is no separator, space, sign or prefix letter. -/
theorem isHex_ne {b : UInt8} (h : isHex b = true) :
    48 ≤ b.toNat ∧ b.toNat ≤ 102 ∧ b.toNat ≠ 58 ∧ b.toNat ≠ 59 ∧ b.toNat ≠ 61 ∧ b.toNat ≠ 88 := by
  simp only [isHex, digitVal, UInt8.le_iff_toNat_le] at h
  split at h
  next h1 =>
    have : b.toNat ≤ 57 := h1.2
    have : 48 ≤ b.toNat := h1.1
    omega
  next =>
    split at h
    next h2 =>
      have : b.toNat ≤ 102 := h2.2
      have : 97 ≤ b.toNat := h2.1
      omega
    next =>
      split at h
      next h3 =>
        have : b.toNat ≤ 70 := h3.2
        have : 65 ≤ b.toNat := h3.1
        omega
      next => simp at h

theorem fixedHex_length (w n : Nat) : (fixedHex w n).length = w := by
  induction w generalizing n with
  | zero => rfl
  | succ w ih => simp [fixedHex, ih]

theorem isHex_of_mem_fixedHex {w n : Nat} {b : UInt8} (h : b ∈ fixedHex w n) :
    isHex b = true := by
  induction w generalizing n with
  | zero => simp [fixedHex] at h
  | succ w ih =>
    rcases List.mem_append.mp h with h | h
    · exact ih h
    · rw [List.mem_singleton.mp h]
      exact isHex_hexDigit (Nat.mod_lt n (by omega))

theorem hexValue_append (ds : Text) (b : UInt8) :
    hexValue (ds ++ [b]) = 16 * hexValue ds + (digitVal b).getD 0 := by
  simp [hexValue, List.foldl_append]

theorem hexValue_fixedHex {w n : Nat} (h : n < 16 ^ w) : hexValue (fixedHex w n) = n := by
  induction w generalizing n with
  | zero =>
    simp only [Nat.pow_zero] at h
    simp only [fixedHex, hexValue, List.foldl_nil]
    omega
  | succ w ih =>
    have hd : n / 16 < 16 ^ w := by
      apply (Nat.div_lt_iff_lt_mul (by omega)).mpr
      simpa [Nat.pow_succ] using h
    rw [fixedHex, hexValue_append, ih hd, digitVal_hexDigit (Nat.mod_lt n (by omega))]
    simp only [Option.getD_some]
    omega

theorem fixedHex_zero (w : Nat) : fixedHex w 0 = List.replicate w 48 := by
  induction w with
  | zero => rfl
  | succ w ih =>
    rw [fixedHex, Nat.zero_div, ih, List.replicate_succ']
    rfl

theorem hexDigitsFrom_eq {fuel n : Nat} (h : n < fuel) : hexDigitsFrom fuel n = hexDigits n := by
  induction n using Nat.strong_induction_on generalizing fuel with
  | _ n ih =>
    obtain ⟨f, rfl⟩ : ∃ f, fuel = f + 1 := ⟨fuel - 1, by omega⟩
    rw [hexDigits, hexDigitsFrom, hexDigitsFrom]
    split
    · rfl
    · rw [ih (n / 16) (by omega) (by omega), ih (n / 16) (by omega) (by omega)]

theorem hexDigits_of_ge {n : Nat} (h : ¬ n < 16) :
    hexDigits n = hexDigits (n / 16) ++ [hexDigit (n % 16)] := by
  rw [hexDigits, hexDigitsFrom, if_neg h, hexDigitsFrom_eq (by omega)]

/-- A number that fits the width is printed with exactly that many digits. -/
theorem padHex_eq {w n : Nat} (hw : 1 ≤ w) (h : n < 16 ^ w) : padHex w n = fixedHex w n := by
  induction w generalizing n with
  | zero => omega
  | succ w ih =>
    by_cases hn : n < 16
    · have hd : hexDigits n = [hexDigit n] := by
        rw [hexDigits, hexDigitsFrom, if_pos hn]
      rw [padHex, hd, fixedHex, Nat.div_eq_of_lt hn, Nat.mod_eq_of_lt hn, fixedHex_zero]
      simp
    · have hd := hexDigits_of_ge hn
      have hq : n / 16 < 16 ^ w := by
        apply (Nat.div_lt_iff_lt_mul (by omega)).mpr
        simpa [Nat.pow_succ] using h
      have hw' : 1 ≤ w := by
        by_contra hlt
        have hz : w = 0 := by omega
        subst hz
        simp at hq
        omega
      have hi := ih hw' hq
      rw [padHex] at hi
      rw [padHex, hd, fixedHex, ← hi]
      simp [List.append_assoc]

theorem takeWhile_append_of_all {p : UInt8 → Bool} {l rest : Text} (h : ∀ b ∈ l, p b = true)
    (hr : ∀ b ∈ rest.head?, p b = false) : (l ++ rest).takeWhile p = l := by
  induction l with
  | nil =>
    cases rest with
    | nil => rfl
    | cons b rest => simp [hr b (by simp)]
  | cons a l ih =>
    have ha := h a (by simp)
    simp only [List.cons_append, List.takeWhile_cons, ha, if_true]
    rw [ih (fun b hb => h b (by simp [hb]))]

theorem dropWhile_append_of_all {p : UInt8 → Bool} {l rest : Text} (h : ∀ b ∈ l, p b = true)
    (hr : ∀ b ∈ rest.head?, p b = false) : (l ++ rest).dropWhile p = rest := by
  induction l with
  | nil =>
    cases rest with
    | nil => rfl
    | cons b rest => simp [hr b (by simp)]
  | cons a l ih =>
    have ha := h a (by simp)
    simp only [List.cons_append, List.dropWhile_cons, ha, if_true]
    exact ih (fun b hb => h b (by simp [hb]))

theorem splitAt_append {sep : UInt8} {l rest : Text} (h : ∀ b ∈ l, b ≠ sep ∧ b ≠ 0) :
    splitAt sep (l ++ sep :: rest) = some (l, rest) := by
  have hp : ∀ b ∈ l, (fun b => b ≠ sep && b ≠ 0 : UInt8 → Bool) b = true := by
    intro b hb
    simpa using h b hb
  have hr : ∀ b ∈ (sep :: rest).head?, (fun b => b ≠ sep && b ≠ 0 : UInt8 → Bool) b = false := by
    intro b hb
    have : b = sep := by simpa using hb.symm
    simp [this]
  rw [splitAt, dropWhile_append_of_all hp hr, takeWhile_append_of_all hp hr]
  simp

/-- A text at whose front no number goes on. -/
def Stops (s : Text) : Prop := ∀ b ∈ s.head?, isHex b = false ∧ b ≠ 120 ∧ b ≠ 88

theorem head_of_digits {d : UInt8} (h : isHex d = true) :
    isSpace d = false ∧ d ≠ 45 ∧ d ≠ 43 := by
  have hne := (isHex_ne h).1
  refine ⟨?_, ?_, ?_⟩
  · simp only [isSpace, Bool.or_eq_false_iff, beq_eq_false_iff_ne, Bool.and_eq_false_iff,
      decide_eq_false_iff_not, UInt8.le_iff_toNat_le]
    refine ⟨?_, Or.inr ?_⟩
    · rintro rfl
      exact absurd hne (by decide)
    · change ¬ d.toNat ≤ 13
      omega
  · rintro rfl
    exact absurd hne (by decide)
  · rintro rfl
    exact absurd hne (by decide)

/-- The digits of a printed number are scanned back when the width ends with them or the text
behind them is no number. -/
theorem scanHex_append {w v n : Nat} (rest : Text) (hw : 1 ≤ w) (h : n < 16 ^ w) (hv : w ≤ v)
    (hr : v = w ∨ Stops rest) : scanHex v (fixedHex w n ++ rest) = some ((n : Int), rest) := by
  obtain ⟨d, ds, hd⟩ : ∃ d ds, fixedHex w n = d :: ds := by
    cases hf : fixedHex w n with
    | nil =>
      have := fixedHex_length w n
      simp [hf] at this
      omega
    | cons d ds => exact ⟨d, ds, rfl⟩
  have hall : ∀ b ∈ fixedHex w n, isHex b = true := fun b hb => isHex_of_mem_fixedHex hb
  obtain ⟨hspace, hminus, hplus⟩ := head_of_digits (hall d (by simp [hd]))
  have hlen := fixedHex_length w n
  have hdrop : (fixedHex w n ++ rest).dropWhile isSpace = fixedHex w n ++ rest := by
    rw [hd]
    simp [hspace]
  have hsign : dropSign v (fixedHex w n ++ rest) = (false, v, fixedHex w n ++ rest) := by
    rw [hd]
    simp [dropSign, hminus, hplus]
  have hprefix : dropPrefix v (fixedHex w n ++ rest) = (v, fixedHex w n ++ rest) := by
    unfold dropPrefix
    split
    next z x e r he =>
      rw [if_neg]
      rintro ⟨-, hx, -, hw3⟩
      have hx1 : (fixedHex w n ++ rest)[1]? = some x := by
        rw [he]
        rfl
      by_cases hw2 : 2 ≤ w
      · rw [List.getElem?_append_left (by omega)] at hx1
        have hn := isHex_ne (hall x (List.mem_of_getElem? hx1))
        rcases hx with rfl | rfl
        · exact absurd hn.2.1 (by decide)
        · exact absurd rfl hn.2.2.2.2.2
      · rcases hr with hr | hr
        · omega
        · rw [List.getElem?_append_right (by omega), hlen,
            show 1 - w = 0 by omega, ← List.head?_eq_getElem?] at hx1
          have hs := hr x hx1
          rcases hx with hx | hx
          · exact hs.2.1 hx
          · exact hs.2.2 hx
    next => rfl
  have hwhile : ((fixedHex w n ++ rest).take v).takeWhile isHex = fixedHex w n := by
    rw [List.take_append, List.take_of_length_le (by omega)]
    apply takeWhile_append_of_all hall
    intro b hb
    rcases hr with rfl | hr
    · simp [hlen] at hb
    · have hb' : b ∈ rest.head? := by
        rw [List.head?_take] at hb
        split at hb
        · simp at hb
        · exact hb
      exact (hr b hb').1
  have hnil : fixedHex w n ≠ [] := by simp [hd]
  have hrest : (fixedHex w n ++ rest).drop w = rest := by
    rw [List.drop_append_of_le_length (by omega), List.drop_of_length_le (by omega)]
    rfl
  simp only [scanHex, hdrop, hsign, hprefix, hwhile, if_neg hnil, hlen, hrest,
    hexValue_fixedHex h, Bool.false_eq_true, if_false]

theorem strtox_append {w n : Nat} {rest : Text} (hw : 1 ≤ w) (h : n < 16 ^ w)
    (hr : Stops rest) : strtox (fixedHex w n ++ rest) = n := by
  rw [strtox, scanHex_append rest hw h (by simp [fixedHex_length]) (Or.inr hr)]
  rfl

theorem stops_nil : Stops [] := by
  intro b hb
  simp at hb

theorem stops_cons {b : UInt8} {rest : Text} (h : isHex b = false ∧ b ≠ 120 ∧ b ≠ 88) :
    Stops (b :: rest) := by
  intro c hc
  have : c = b := by simpa using hc.symm
  rwa [this]

theorem strtol_append {w n : Nat} {rest : Text} (hw : 1 ≤ w) (h : n < 16 ^ w) (hn : n < 2 ^ 63)
    (hr : Stops rest) : strtol (fixedHex w n ++ rest) = n := by
  rw [strtol, strtox_append hw h hr]
  omega

theorem strtol_fixedHex {w n : Nat} (hw : 1 ≤ w) (h : n < 16 ^ w) (hn : n < 2 ^ 63) :
    strtol (fixedHex w n) = n := by
  have hs := strtol_append hw h hn stops_nil
  rwa [List.append_nil] at hs

theorem strtoull_append {w n : Nat} {rest : Text} (hw : 1 ≤ w) (h : n < 16 ^ w)
    (hn : n < 2 ^ 64) (hr : Stops rest) : strtoull (fixedHex w n ++ rest) = n := by
  rw [strtoull, strtox_append hw h hr, Int.natAbs_natCast, if_neg (by omega)]
  omega

theorem strtoull_fixedHex {w n : Nat} (hw : 1 ≤ w) (h : n < 16 ^ w) (hn : n < 2 ^ 64) :
    strtoull (fixedHex w n) = n := by
  have hs := strtoull_append hw h hn stops_nil
  rwa [List.append_nil] at hs

theorem ofInt_toNat_uint8 (x : UInt8) : UInt8.ofInt (x.toNat : Int) = x := by
  have h := x.toNat_lt
  rw [UInt8.ofInt, Int.emod_eq_of_lt (by omega) (by omega), Int.toNat_natCast, UInt8.ofNat_toNat]

theorem ofInt_toNat_uint32 (x : UInt32) : UInt32.ofInt (x.toNat : Int) = x := by
  have h := x.toNat_lt
  rw [UInt32.ofInt, Int.emod_eq_of_lt (by omega) (by omega), Int.toNat_natCast,
    UInt32.ofNat_toNat]

theorem ofInt_toNat_uint64 (x : UInt64) : UInt64.ofInt (x.toNat : Int) = x := by
  have h := x.toNat_lt
  rw [UInt64.ofInt, Int.emod_eq_of_lt (by omega) (by omega), Int.toNat_natCast,
    UInt64.ofNat_toNat]

/-- Conversions separated by a byte, as `printf` writes them. -/
def printFields (sep : UInt8) : List (Nat × Nat) → Text
  | [] => []
  | [f] => padHex f.1 f.2
  | f :: g :: fs => padHex f.1 f.2 ++ sep :: printFields sep (g :: fs)

/-- The values that `scanf` converts before the first mismatch. -/
def scanFields (sep : UInt8) : List Nat → Text → List Int
  | [], _ => []
  | w :: ws, s =>
    match scanHex w s with
    | none => []
    | some (v, rest) =>
      match ws, rest with
      | [], _ => [v]
      | _ :: _, [] => [v]
      | u :: us, b :: rest => if b = sep then v :: scanFields sep (u :: us) rest else [v]

/-- Every number fits the width it is printed with. -/
def Fits (fs : List (Nat × Nat)) : Prop := ∀ f ∈ fs, 1 ≤ f.1 ∧ f.2 < 16 ^ f.1

theorem fits_nil : Fits [] := by
  intro f hf
  simp at hf

theorem fits_cons {w n : Nat} {fs : List (Nat × Nat)} (hw : 1 ≤ w) (hn : n < 16 ^ w)
    (h : Fits fs) : Fits ((w, n) :: fs) := by
  intro f hf
  rcases List.mem_cons.mp hf with rfl | hf
  · exact ⟨hw, hn⟩
  · exact h f hf

theorem fits_append {fs gs : List (Nat × Nat)} (hf : Fits fs) (hg : Fits gs) :
    Fits (fs ++ gs) := by
  intro f h
  rcases List.mem_append.mp h with h | h
  · exact hf f h
  · exact hg f h

theorem scanFields_printFields (sep : UInt8) {fs : List (Nat × Nat)} (h : Fits fs) :
    scanFields sep (fs.map Prod.fst) (printFields sep fs) = fs.map fun f => (f.2 : Int) := by
  induction fs with
  | nil => rfl
  | cons f fs ih =>
    obtain ⟨hw, hn⟩ := h f (by simp)
    have hp := padHex_eq hw hn
    cases fs with
    | nil =>
      have hs := scanHex_append [] hw hn le_rfl (Or.inl rfl)
      rw [List.append_nil] at hs
      simp [printFields, scanFields, hp, hs]
    | cons g gs =>
      have hs := scanHex_append (sep :: printFields sep (g :: gs)) hw hn le_rfl (Or.inl rfl)
      have hi := ih fun x hx => h x (by simp [hx])
      simp only [List.map_cons] at hi ⊢
      simp only [printFields, scanFields, hp, hs, if_true, hi]

theorem printFields_length (sep : UInt8) {fs : List (Nat × Nat)} (h : Fits fs) (hne : fs ≠ []) :
    (printFields sep fs).length + 1 = (fs.map fun f => f.1 + 1).sum := by
  induction fs with
  | nil => exact absurd rfl hne
  | cons f fs ih =>
    obtain ⟨hw, hn⟩ := h f (by simp)
    cases fs with
    | nil => simp [printFields, padHex_eq hw hn, fixedHex_length]
    | cons g gs =>
      have hi := ih (fun x hx => h x (by simp [hx])) (by simp)
      simp only [printFields, padHex_eq hw hn, List.length_append, fixedHex_length,
        List.length_cons, List.map_cons, List.sum_cons] at hi ⊢
      omega

theorem printFields_ne {sep c : UInt8} {fs : List (Nat × Nat)} (h : Fits fs)
    (hc : isHex c = false) (hs : c ≠ sep) : ∀ b ∈ printFields sep fs, b ≠ c := by
  have hdig : ∀ f ∈ fs, ∀ b ∈ padHex f.1 f.2, b ≠ c := by
    intro f hf b hb he
    rw [padHex_eq (h f hf).1 (h f hf).2] at hb
    have := isHex_of_mem_fixedHex hb
    rw [he, hc] at this
    exact absurd this (by decide)
  induction fs with
  | nil => simp [printFields]
  | cons f fs ih =>
    intro b hb
    cases fs with
    | nil => exact hdig f (by simp) b hb
    | cons g gs =>
      rcases List.mem_append.mp hb with hb | hb
      · exact hdig f (by simp) b hb
      · rcases List.mem_cons.mp hb with rfl | hb
        · exact fun he => hs he.symm
        · exact ih (fun x hx => h x (by simp [hx])) (fun x hx => hdig x (by simp [hx])) b hb

theorem cstr_append {l rest : Text} (h : ∀ b ∈ l, b ≠ 0) : cstr (l ++ 0 :: rest) = l := by
  apply takeWhile_append_of_all
  · intro b hb
    simpa using h b hb
  · intro b hb
    have : b = 0 := by simpa using hb.symm
    simp [this]

end CString
