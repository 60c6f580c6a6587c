import Perftest.Lib.CMachine
import Perftest.Lib.CString

namespace Perftest

open CString CMachine

/-- A call of `strtok`: the token, and what is left for the next call. -/
def strtokNext (seps s : Text) : Option (Text × Text) :=
  match s.dropWhile (· ∈ seps) with
  | [] => none
  | b :: t => some ((b :: t).takeWhile (· ∉ seps), ((b :: t).dropWhile (· ∉ seps)).drop 1)

theorem strtokNext_length_lt {seps s token rest : Text}
    (h : strtokNext seps s = some (token, rest)) : rest.length < s.length := by
  unfold strtokNext at h
  split at h
  next => cases h
  next b t hd =>
    obtain ⟨-, rfl⟩ := Prod.mk.inj (Option.some.inj h)
    have h1 : (s.dropWhile (· ∈ seps)).length ≤ s.length := (List.dropWhile_sublist _).length_le
    have h2 : ((b :: t).dropWhile (· ∉ seps)).length ≤ (b :: t).length :=
      (List.dropWhile_sublist _).length_le
    rw [hd] at h1
    rw [List.length_drop]
    simp only [List.length_cons] at h1 h2
    omega

def COMMA : UInt8 := 44
def NEWLINE : UInt8 := 10

/-- How many characters `strtol` looks at in a text that begins with a digit. -/
def strtolReads (s : Text) : Nat := (s.takeWhile isHex).length + 1

/-- The bytes of `payload_content` so far, and whether all reads were inside of their buffers. -/
structure PayloadBytes where
  content : Text
  inBounds : Bool
deriving DecidableEq, Repr

section Loop

variable (behind : Text) (size : Nat)

/-- The characters at `8 - i` and `9 - i` of the token go through a buffer of two characters, behind
which lies the memory `behind`. -/
def convertByte (token : Text) (i : Nat) (st : PayloadBytes) : Option PayloadBytes :=
  let chars := [token.getD (8 - i) 0, token.getD (9 - i) 0]
  if chars.all isHex then
    some { content := st.content ++ [UInt8.ofInt (strtol (chars ++ behind))]
           inBounds := st.inBounds && decide (strtolReads (chars ++ behind) ≤ chars.length) }
  else none

/-- The inner loop; an error carries whether the reads were inside of their buffers. -/
def convertDword (token : Text) : List Nat → PayloadBytes → Except Bool PayloadBytes
  | [], st => .ok st
  | i :: l, st => match convertByte behind token i st with
    | none => .error st.inBounds
    | some st => if st.content.length = size then .ok st else convertDword token l st

/-- The outer loop from a token on. -/
def payloadLoop (token rest : Text) (st : PayloadBytes) : Except Bool PayloadBytes :=
  if token.length ≠ 10 then .error st.inBounds
  else match convertDword behind size token [0, 2, 4, 6] st with
    | .error inBounds => .error inBounds
    | .ok st => match h : strtokNext [COMMA, NEWLINE] rest with
      | none => .ok st
      | some (token, rest) =>
        have := strtokNext_length_lt h
        if st.content.length < size then payloadLoop token rest st else .ok st
termination_by rest.length

/-- `payload_file_size`, an `int`. -/
@[irreducible]
def payloadFileSize (file : Text) : Int := longToInt file.length

/-- The string in `file_content`. -/
def fileString (file : Text) : Text := cstr (file.take (payloadFileSize file).toNat)

/-- `create_payload`; the length of a token that is a null pointer is undefined. -/
def createPayload (file : Text) : Option (Except Bool PayloadBytes) :=
  if payloadFileSize file ≤ 0 then some (.error true)
  else (strtokNext [COMMA] (fileString file)).map fun t =>
    payloadLoop behind size t.1 t.2 ⟨[], true⟩

end Loop

def dwordToken (digits : Text) : Text := 48 :: 120 :: digits

def IsDword (digits : Text) : Prop := digits.length = 8 ∧ ∀ b ∈ digits, isHex b = true

/-- The bytes of a DWORD, the lowest first. -/
def dwordBytes (digits : Text) : Text :=
  let n := hexValue digits
  [UInt8.ofNat n, UInt8.ofNat (n / 2 ^ 8), UInt8.ofNat (n / 2 ^ 16), UInt8.ofNat (n / 2 ^ 24)]

/-- The text behind the first token. -/
def furtherTokens (dwords : List Text) : Text := dwords.flatMap fun d => COMMA :: dwordToken d

/-- A file of DWORD tokens with its payload. -/
def IsPayload (size : Nat) (file content : Text) : Prop :=
  ∃ d dwords newline, (newline = [] ∨ newline = [NEWLINE]) ∧ (∀ x ∈ d :: dwords, IsDword x) ∧
    file = dwordToken d ++ furtherTokens dwords ++ newline ∧
    content = ((d :: dwords).flatMap dwordBytes).take size

/-- A failure, or the payload of the file, without an access outside of a buffer. -/
def ResultOk (size : Nat) (file : Text) : Option (Except Bool PayloadBytes) → Prop
  | none => False
  | some (.error inBounds) => inBounds = true
  | some (.ok st) => st.inBounds = true ∧ IsPayload size file st.content

def PayloadOk (behind : Text) (size : Nat) (file : Text) : Prop :=
  ResultOk size file (createPayload behind size file)

/-- The first token ends in two digits and has the length of a DWORD. -/
def EndsInByte (token : Text) : Prop :=
  token.length = 10 ∧ isHex (token.getD 8 0) = true ∧ isHex (token.getD 9 0) = true

/-- The call fails before it converts a byte. -/
def FailsFirst (file : Text) : Prop :=
  payloadFileSize file ≤ 0 ∨ ∃ t, strtokNext [COMMA] (fileString file) = some t ∧ ¬ EndsInByte t.1

section Bounds

variable {behind token rest file : Text} {size : Nat} {st st' : PayloadBytes}

theorem strtolReads_digits {a b : UInt8} (ha : isHex a = true) (hb : isHex b = true) :
    2 < strtolReads ([a, b] ++ behind) := by
  rw [strtolReads, List.cons_append, List.cons_append, List.takeWhile_cons_of_pos ha,
    List.takeWhile_cons_of_pos hb, List.length_cons, List.length_cons]
  omega

/-- Both characters are digits, so that a third one is looked at. -/
theorem convertByte_inBounds {i : Nat} (h : convertByte behind token i st = some st') :
    st'.inBounds = false := by
  unfold convertByte at h
  dsimp only at h
  split at h
  next hall =>
    obtain rfl := Option.some.inj h
    simp only [List.all_cons, List.all_nil, Bool.and_true, Bool.and_eq_true] at hall
    rw [Bool.and_eq_false_iff, decide_eq_false_iff_not]
    have := @strtolReads_digits behind _ _ hall.1 hall.2
    right
    simp only [List.length_cons, List.length_nil]
    omega
  next => cases h

/-- What is read outside stays recorded. -/
theorem convertDword_inBounds {l : List Nat} (hs : st.inBounds = false) :
    (∀ e, convertDword behind size token l st = .error e → e = false) ∧
      ∀ t, convertDword behind size token l st = .ok t → t.inBounds = false := by
  induction l generalizing st with
  | nil =>
    refine ⟨fun e h => (nomatch h), fun t h => ?_⟩
    obtain rfl := Except.ok.inj h
    exact hs
  | cons i l ih =>
    rw [convertDword]
    split
    next =>
      refine ⟨fun e h => ?_, fun t h => (nomatch h)⟩
      obtain rfl := Except.error.inj h
      exact hs
    next st' hb =>
      have hs' := convertByte_inBounds hb
      split
      next =>
        refine ⟨fun e h => (nomatch h), fun t h => ?_⟩
        obtain rfl := Except.ok.inj h
        exact hs'
      next => exact ih hs'

theorem convertDword_cons_inBounds {i : Nat} {l : List Nat}
    (hc : (convertByte behind token i st).isSome) :
    (∀ e, convertDword behind size token (i :: l) st = .error e → e = false) ∧
      ∀ t, convertDword behind size token (i :: l) st = .ok t → t.inBounds = false := by
  obtain ⟨st', hb⟩ := Option.isSome_iff_exists.mp hc
  have hs' := convertByte_inBounds hb
  rw [convertDword, hb]
  dsimp only
  split
  next =>
    refine ⟨fun e h => (nomatch h), fun t h => ?_⟩
    obtain rfl := Except.ok.inj h
    exact hs'
  next => exact convertDword_inBounds hs'

theorem payloadLoop_eq (hlen : token.length = 10) : payloadLoop behind size token rest st =
    match convertDword behind size token [0, 2, 4, 6] st with
    | .error inBounds => .error inBounds
    | .ok st => match strtokNext [COMMA, NEWLINE] rest with
      | none => .ok st
      | some t => if st.content.length < size then payloadLoop behind size t.1 t.2 st else .ok st := by
  rw [payloadLoop, if_neg (not_not_intro hlen)]
  cases convertDword behind size token [0, 2, 4, 6] st with
  | error e => rfl
  | ok st =>
    dsimp only
    split
    next h => rw [h]
    next token rest h => rw [h]

theorem payloadLoop_inBounds (hs : st.inBounds = false) :
    (∀ e, payloadLoop behind size token rest st = .error e → e = false) ∧
      ∀ t, payloadLoop behind size token rest st = .ok t → t.inBounds = false := by
  induction hn : rest.length using Nat.strong_induction_on generalizing token rest st with
  | _ n ih =>
    by_cases hlen : token.length = 10
    · rw [payloadLoop_eq hlen]
      have hd := @convertDword_inBounds behind token size st [0, 2, 4, 6] hs
      split
      next e he =>
        refine ⟨fun e' h => ?_, fun t h => (nomatch h)⟩
        obtain rfl := Except.error.inj h
        exact hd.1 _ he
      next st' hok =>
        have hs' := hd.2 _ hok
        have hdone : (∀ e, Except.ok st' = .error e → e = false) ∧
            ∀ t, (Except.ok st' : Except Bool PayloadBytes) = .ok t → t.inBounds = false :=
          ⟨fun e h => (nomatch h), fun t h => Except.ok.inj h ▸ hs'⟩
        split
        next => exact hdone
        next t ht =>
          split
          next => exact ih _ (hn ▸ strtokNext_length_lt ht) hs' rfl
          next => exact hdone
    · rw [payloadLoop, if_pos hlen]
      refine ⟨fun e h => ?_, fun t h => (nomatch h)⟩
      obtain rfl := Except.error.inj h
      exact hs

/-- A first token that ends in a byte is read behind its buffer. -/
theorem payloadLoop_endsInByte (h : EndsInByte token) :
    (∀ e, payloadLoop behind size token rest st = .error e → e = false) ∧
      ∀ t, payloadLoop behind size token rest st = .ok t → t.inBounds = false := by
  obtain ⟨hlen, h8, h9⟩ := h
  have hc : (convertByte behind token 0 st).isSome := by
    rw [convertByte, if_pos (by simp only [List.all_cons, h8, h9, List.all_nil, Bool.and_self])]
    rfl
  have hd := @convertDword_cons_inBounds behind token size st 0 [2, 4, 6] hc
  rw [payloadLoop_eq hlen]
  split
  next e he =>
    refine ⟨fun e' h => ?_, fun t h => (nomatch h)⟩
    obtain rfl := Except.error.inj h
    exact hd.1 _ he
  next st' hok =>
    have hs' := hd.2 _ hok
    have hdone : (∀ e, Except.ok st' = .error e → e = false) ∧
        ∀ t, (Except.ok st' : Except Bool PayloadBytes) = .ok t → t.inBounds = false :=
      ⟨fun e h => (nomatch h), fun t h => Except.ok.inj h ▸ hs'⟩
    split
    next => exact hdone
    next =>
      split
      next => exact payloadLoop_inBounds hs'
      next => exact hdone

/-- Any other first token is refused before something is read of a byte. -/
theorem payloadLoop_refuses (h : ¬ EndsInByte token) :
    payloadLoop behind size token rest st = .error st.inBounds := by
  by_cases hlen : token.length = 10
  · have hc : convertByte behind token 0 st = none := by
      rw [convertByte, if_neg]
      intro hall
      simp only [List.all_cons, List.all_nil, Bool.and_true, Bool.and_eq_true] at hall
      exact h ⟨hlen, hall.1, hall.2⟩
    rw [payloadLoop_eq hlen, convertDword, hc]
  · rw [payloadLoop, if_pos hlen]

end Bounds

section Content

variable {behind : Text} {size : Nat} {st : PayloadBytes}

theorem strtokNext_append {seps l R : Text} (hl : l ≠ []) (hn : ∀ b ∈ l, b ∉ seps)
    (hR : ∀ b ∈ R.head?, b ∈ seps) : strtokNext seps (l ++ R) = some (l, R.drop 1) := by
  have hall : ∀ b ∈ l, decide (b ∉ seps) = true := fun b hb => decide_eq_true (hn b hb)
  have hstop : ∀ b ∈ R.head?, decide (b ∉ seps) = false := fun b hb => by
    rw [decide_eq_false_iff_not, not_not]
    exact hR b hb
  have hd : (l ++ R).dropWhile (fun b => decide (b ∈ seps)) = l ++ R := by
    cases l with
    | nil => exact absurd rfl hl
    | cons a l =>
      rw [List.cons_append, List.dropWhile_cons_of_neg]
      simpa using hn a List.mem_cons_self
  have ht := takeWhile_append_of_all hall hstop
  have hdr := dropWhile_append_of_all hall hstop
  cases l with
  | nil => exact absurd rfl hl
  | cons a l =>
    rw [strtokNext, hd]
    dsimp only [List.cons_append]
    rw [← List.cons_append, ht, hdr]

theorem digitVal_lt {b : UInt8} {v : Nat} (h : digitVal b = some v) : v < 16 := by
  have hl := b.toNat_lt
  unfold digitVal at h
  simp only [UInt8.le_iff_toNat_le] at h
  split at h
  next hr =>
    have : b.toNat ≤ 57 := hr.2
    obtain rfl := Option.some.inj h
    omega
  next =>
    split at h
    next hr =>
      have : b.toNat ≤ 102 := hr.2
      obtain rfl := Option.some.inj h
      omega
    next =>
      split at h
      next hr =>
        have : b.toNat ≤ 70 := hr.2
        obtain rfl := Option.some.inj h
        omega
      next => cases h

theorem exists_digitVal {b : UInt8} (h : isHex b = true) : ∃ v, digitVal b = some v ∧ v < 16 := by
  obtain ⟨v, hv⟩ := Option.isSome_iff_exists.mp h
  exact ⟨v, hv, digitVal_lt hv⟩

theorem hexValue_pair {a b : UInt8} {v w : Nat} (ha : digitVal a = some v)
    (hb : digitVal b = some w) : hexValue [a, b] = 16 * v + w := by
  simp only [hexValue, List.foldl_cons, List.foldl_nil, ha, hb, Option.getD_some]
  omega

/-- Where no digit follows the buffer, its two digits are the number. -/
theorem strtol_pair {a b : UInt8} (ha : isHex a = true) (hb : isHex b = true)
    (hbehind : ∀ x ∈ behind.head?, isHex x = false) :
    strtol ([a, b] ++ behind) = hexValue [a, b] := by
  obtain ⟨v, hv, hv16⟩ := exists_digitVal ha
  obtain ⟨w, hw, hw16⟩ := exists_digitVal hb
  obtain ⟨hspace, hminus, hplus⟩ := head_of_digits ha
  have hx := isHex_ne hb
  have hdrop : ([a, b] ++ behind).dropWhile isSpace = [a, b] ++ behind := by
    rw [List.cons_append, List.dropWhile_cons_of_neg (by simp [hspace])]
  have hsign : dropSign ([a, b] ++ behind).length ([a, b] ++ behind) =
      (false, ([a, b] ++ behind).length, [a, b] ++ behind) := by
    simp [dropSign, hminus, hplus]
  have hprefix : dropPrefix ([a, b] ++ behind).length ([a, b] ++ behind) =
      (([a, b] ++ behind).length, [a, b] ++ behind) := by
    cases behind with
    | nil => rfl
    | cons d r =>
      simp only [List.cons_append, List.nil_append, dropPrefix]
      rw [if_neg]
      rintro ⟨-, rfl | rfl, -⟩
      · exact absurd hx.2.1 (by decide)
      · exact absurd rfl hx.2.2.2.2.2
  have hwhile : (([a, b] ++ behind).take ([a, b] ++ behind).length).takeWhile isHex = [a, b] := by
    rw [List.take_length]
    apply takeWhile_append_of_all ?_ hbehind
    intro x hx
    simp only [List.mem_cons, List.not_mem_nil, or_false] at hx
    rcases hx with rfl | rfl
    · exact ha
    · exact hb
  have hscan : scanHex ([a, b] ++ behind).length ([a, b] ++ behind) =
      some ((hexValue [a, b] : Int), behind) := by
    simp only [scanHex, hdrop, hsign, hprefix, hwhile]
    simp
  have hval := hexValue_pair hv hw
  rw [strtol, strtox, hscan]
  simp only [Option.map_some, Option.getD_some]
  omega

theorem ofInt_natCast (n : Nat) : UInt8.ofInt (n : Int) = UInt8.ofNat n := by
  apply UInt8.toNat_inj.mp
  rw [UInt8.ofInt, UInt8.toNat_ofNat', UInt8.toNat_ofNat']
  omega

/-- The byte that is converted from the characters at `8 - i` and `9 - i`. -/
def tokenByte (token : Text) (i : Nat) : UInt8 :=
  UInt8.ofNat (hexValue [token.getD (8 - i) 0, token.getD (9 - i) 0])

theorem convertByte_eq {token : Text} {i : Nat} (h8 : isHex (token.getD (8 - i) 0) = true)
    (h9 : isHex (token.getD (9 - i) 0) = true) (hbehind : ∀ x ∈ behind.head?, isHex x = false) :
    convertByte behind token i st = some ⟨st.content ++ [tokenByte token i], false⟩ := by
  have hc : (convertByte behind token i st).isSome := by
    rw [convertByte, if_pos (by simp only [List.all_cons, h8, h9, List.all_nil, Bool.and_self])]
    rfl
  obtain ⟨st', hst⟩ := Option.isSome_iff_exists.mp hc
  have hb := convertByte_inBounds hst
  rw [hst]
  rw [convertByte, if_pos (by simp only [List.all_cons, h8, h9, List.all_nil, Bool.and_self]),
    strtol_pair h8 h9 hbehind] at hst
  have hcontent := congrArg PayloadBytes.content (Option.some.inj hst)
  obtain ⟨content, inBounds⟩ := st'
  simp only at hb hcontent
  rw [hb, ← hcontent, ofInt_natCast]
  rfl

/-- The inner loop takes the bytes up to the size. -/
theorem convertDword_eq {token : Text} {l : List Nat} (hl : l ≠ [])
    (hex : ∀ i ∈ l, isHex (token.getD (8 - i) 0) = true ∧ isHex (token.getD (9 - i) 0) = true)
    (hbehind : ∀ x ∈ behind.head?, isHex x = false) (hlt : st.content.length < size) :
    convertDword behind size token l st =
      .ok ⟨(st.content ++ l.map (tokenByte token)).take size, false⟩ := by
  induction l generalizing st with
  | nil => exact absurd rfl hl
  | cons i l ih =>
    obtain ⟨h8, h9⟩ := hex i List.mem_cons_self
    rw [convertDword, convertByte_eq h8 h9 hbehind]
    dsimp only
    have hlen : (st.content ++ [tokenByte token i]).length = st.content.length + 1 := by simp
    have hcons : st.content ++ (i :: l).map (tokenByte token) =
        (st.content ++ [tokenByte token i]) ++ l.map (tokenByte token) := by simp
    split
    next hs => rw [hcons, List.take_left' hs]
    next hs =>
      cases l with
      | nil =>
        rw [convertDword, hcons, List.map_nil, List.append_nil, List.take_of_length_le (by omega)]
      | cons j l =>
        rw [ih (List.cons_ne_nil j l) (fun k hk => hex k (List.mem_cons_of_mem _ hk))
          (by rw [hlen]; rw [hlen] at hs; omega), hcons]

/-- The four conversions give the bytes of the DWORD. -/
theorem tokenBytes_dword {digits : Text} (h : IsDword digits) :
    [0, 2, 4, 6].map (tokenByte (dwordToken digits)) = dwordBytes digits := by
  obtain ⟨hlen, hex⟩ := h
  match digits, hlen with
  | [a, b, c, d, e, f, g, i], _ =>
    obtain ⟨va, ha, hva⟩ := exists_digitVal (hex a (by simp))
    obtain ⟨vb, hb, hvb⟩ := exists_digitVal (hex b (by simp))
    obtain ⟨vc, hc, hvc⟩ := exists_digitVal (hex c (by simp))
    obtain ⟨vd, hd, hvd⟩ := exists_digitVal (hex d (by simp))
    obtain ⟨ve, he, hve⟩ := exists_digitVal (hex e (by simp))
    obtain ⟨vf, hf, hvf⟩ := exists_digitVal (hex f (by simp))
    obtain ⟨vg, hg, hvg⟩ := exists_digitVal (hex g (by simp))
    obtain ⟨vi, hi, hvi⟩ := exists_digitVal (hex i (by simp))
    have hn : hexValue [a, b, c, d, e, f, g, i] = 16 ^ 7 * va + 16 ^ 6 * vb + 16 ^ 5 * vc +
        16 ^ 4 * vd + 16 ^ 3 * ve + 16 ^ 2 * vf + 16 * vg + vi := by
      simp only [hexValue, List.foldl_cons, List.foldl_nil, ha, hb, hc, hd, he, hf, hg, hi,
        Option.getD_some]
      ring
    have heq : ∀ m n : Nat, m % 256 = n % 256 → UInt8.ofNat m = UInt8.ofNat n := by
      intro m n hmn
      apply UInt8.toNat_inj.mp
      rw [UInt8.toNat_ofNat', UInt8.toNat_ofNat']
      exact hmn
    have hbyte : [0, 2, 4, 6].map (tokenByte (dwordToken [a, b, c, d, e, f, g, i])) =
        [UInt8.ofNat (16 * vg + vi), UInt8.ofNat (16 * ve + vf), UInt8.ofNat (16 * vc + vd),
          UInt8.ofNat (16 * va + vb)] := by
      rw [← hexValue_pair hg hi, ← hexValue_pair he hf, ← hexValue_pair hc hd,
        ← hexValue_pair ha hb]
      rfl
    rw [hbyte, dwordBytes, hn]
    congr 1
    · exact heq _ _ (by omega)
    · congr 1
      · exact heq _ _ (by omega)
      · congr 1
        · exact heq _ _ (by omega)
        · congr 1
          exact heq _ _ (by omega)

theorem isHex_not_sep {b : UInt8} (h : isHex b = true) : b ∉ [COMMA, NEWLINE] := by
  have := (isHex_ne h).1
  intro hm
  simp only [List.mem_cons, List.not_mem_nil, or_false] at hm
  rcases hm with rfl | rfl
  · exact absurd this (by decide)
  · exact absurd this (by decide)

theorem dwordToken_not_sep {digits : Text} (h : IsDword digits) :
    ∀ b ∈ dwordToken digits, b ∉ [COMMA, NEWLINE] := by
  intro b hb
  rw [dwordToken, List.mem_cons, List.mem_cons] at hb
  rcases hb with rfl | rfl | hb
  · decide
  · decide
  · exact isHex_not_sep (h.2 b hb)

theorem convertDword_dword {digits : Text} (h : IsDword digits)
    (hbehind : ∀ x ∈ behind.head?, isHex x = false) (hlt : st.content.length < size) :
    convertDword behind size (dwordToken digits) [0, 2, 4, 6] st =
      .ok ⟨(st.content ++ dwordBytes digits).take size, false⟩ := by
  rw [convertDword_eq (by simp) ?_ hbehind hlt, tokenBytes_dword h]
  obtain ⟨hlen, hex⟩ := h
  match digits, hlen with
  | [a, b, c, d, e, f, g, i], _ =>
    intro j hj
    simp only [List.mem_cons, List.not_mem_nil, or_false] at hj
    rcases hj with rfl | rfl | rfl | rfl
    · exact ⟨hex g (by simp), hex i (by simp)⟩
    · exact ⟨hex e (by simp), hex f (by simp)⟩
    · exact ⟨hex c (by simp), hex d (by simp)⟩
    · exact ⟨hex a (by simp), hex b (by simp)⟩

/-- What is left behind a token of a file. -/
def behindToken (dwords : List Text) (newline : Text) : Text :=
  (furtherTokens dwords ++ newline).drop 1

theorem further_head {dwords : List Text} {newline : Text}
    (hn : newline = [] ∨ newline = [NEWLINE]) :
    ∀ b ∈ (furtherTokens dwords ++ newline).head?, b ∈ [COMMA, NEWLINE] := by
  intro b hb
  cases dwords with
  | nil =>
    rcases hn with rfl | rfl
    · cases hb
    · obtain rfl := Option.some.inj hb
      decide
  | cons d dwords =>
    obtain rfl := Option.some.inj hb
    decide

theorem dwordBytes_length (digits : Text) : (dwordBytes digits).length = 4 := rfl

/-- The loop from a token of the file on stores the rest of the payload. -/
theorem payloadLoop_dwords {d : Text} {dwords : List Text} {newline : Text}
    (hn : newline = [] ∨ newline = [NEWLINE]) (hd : ∀ x ∈ d :: dwords, IsDword x)
    (hbehind : ∀ x ∈ behind.head?, isHex x = false) (hlt : st.content.length < size) :
    payloadLoop behind size (dwordToken d) (behindToken dwords newline) st =
      .ok ⟨(st.content ++ (d :: dwords).flatMap dwordBytes).take size, false⟩ := by
  induction dwords generalizing d st with
  | nil =>
    have hdw := hd d List.mem_cons_self
    have hnone : strtokNext [COMMA, NEWLINE] (behindToken [] newline) = none := by
      rcases hn with rfl | rfl <;> rfl
    rw [payloadLoop_eq (by rw [dwordToken, List.length_cons, List.length_cons, hdw.1]),
      convertDword_dword hdw hbehind hlt, hnone]
    simp
  | cons e dwords ih =>
    have hdw := hd d List.mem_cons_self
    have hew := hd e (List.mem_cons_of_mem _ List.mem_cons_self)
    have hnext : strtokNext [COMMA, NEWLINE] (behindToken (e :: dwords) newline) =
        some (dwordToken e, behindToken dwords newline) := by
      have hsplit : behindToken (e :: dwords) newline =
          dwordToken e ++ (furtherTokens dwords ++ newline) := by
        simp [behindToken, furtherTokens]
      rw [hsplit]
      exact strtokNext_append (List.cons_ne_nil _ _) (dwordToken_not_sep hew) (further_head hn)
    rw [payloadLoop_eq (by rw [dwordToken, List.length_cons, List.length_cons, hdw.1]),
      convertDword_dword hdw hbehind hlt, hnext]
    dsimp only
    have hcons : st.content ++ (d :: e :: dwords).flatMap dwordBytes =
        (st.content ++ dwordBytes d) ++ (e :: dwords).flatMap dwordBytes := by
      rw [List.flatMap_cons, List.append_assoc]
    split
    next hs =>
      have htake : (st.content ++ dwordBytes d).take size = st.content ++ dwordBytes d := by
        apply List.take_of_length_le
        rw [List.length_take] at hs
        omega
      rw [ih (fun x hx => hd x (List.mem_cons_of_mem _ hx)) hs, hcons]
      dsimp only
      rw [htake]
    next hs =>
      have hle : size ≤ (st.content ++ dwordBytes d).length := by
        rw [List.length_take] at hs
        omega
      rw [hcons, List.take_append_of_le_length hle]

end Content

theorem payload_ne_zero {d : Text} {dwords : List Text} {newline : Text}
    (hn : newline = [] ∨ newline = [NEWLINE]) (hd : ∀ x ∈ d :: dwords, IsDword x) :
    ∀ b ∈ dwordToken d ++ furtherTokens dwords ++ newline, b ≠ 0 := by
  have htoken : ∀ x, IsDword x → ∀ b ∈ dwordToken x, b ≠ 0 := by
    intro x hx b hb
    rw [dwordToken, List.mem_cons, List.mem_cons] at hb
    rcases hb with rfl | rfl | hb
    · decide
    · decide
    · rintro rfl
      exact absurd (hx.2 0 hb) (by decide)
  intro b hb
  rw [List.mem_append, List.mem_append, furtherTokens, List.mem_flatMap] at hb
  rcases hb with (hb | ⟨x, hx, hb⟩) | hb
  · exact htoken d (hd d List.mem_cons_self) b hb
  · rcases List.mem_cons.mp hb with rfl | hb
    · decide
    · exact htoken x (hd x (List.mem_cons_of_mem _ hx)) b hb
  · rcases hn with rfl | rfl
    · cases hb
    · obtain rfl := List.mem_singleton.mp hb
      decide

/-- Where no digit follows the buffer of two characters, a file of tokens is stored as it should be,
unless a newline follows its only token. -/
theorem createPayload_stores {behind : Text} {size : Nat} {d : Text} {dwords : List Text}
    {newline : Text} (hs : 0 < size) (hn : newline = [] ∨ (newline = [NEWLINE] ∧ dwords ≠ []))
    (hd : ∀ x ∈ d :: dwords, IsDword x) (hbehind : ∀ x ∈ behind.head?, isHex x = false)
    (hlen : (dwordToken d ++ furtherTokens dwords ++ newline).length < 2 ^ 31) :
    createPayload behind size (dwordToken d ++ furtherTokens dwords ++ newline) =
      some (.ok ⟨((d :: dwords).flatMap dwordBytes).take size, false⟩) := by
  have hn' : newline = [] ∨ newline = [NEWLINE] := hn.imp_right And.left
  have hzero := payload_ne_zero hn' hd
  have hdw := hd d List.mem_cons_self
  have hpos : 0 < (dwordToken d ++ furtherTokens dwords ++ newline).length := by simp [dwordToken]
  have hsize : payloadFileSize (dwordToken d ++ furtherTokens dwords ++ newline) =
      (dwordToken d ++ furtherTokens dwords ++ newline).length := by
    unfold payloadFileSize
    exact longToInt_of_range (by omega) (by omega)
  have hstring : fileString (dwordToken d ++ furtherTokens dwords ++ newline) =
      dwordToken d ++ (furtherTokens dwords ++ newline) := by
    rw [fileString, hsize, Int.toNat_natCast, List.take_length, cstr,
      List.takeWhile_eq_self_iff.mpr (fun b hb => decide_eq_true (hzero b hb)), List.append_assoc]
  have hfirst : ∀ b ∈ (furtherTokens dwords ++ newline).head?, b ∈ [COMMA] := by
    intro b hb
    cases dwords with
    | nil =>
      rcases hn with rfl | ⟨-, hne⟩
      · cases hb
      · exact absurd rfl hne
    | cons e dwords =>
      obtain rfl := Option.some.inj hb
      exact List.mem_singleton.mpr rfl
  have htoken : strtokNext [COMMA] (dwordToken d ++ (furtherTokens dwords ++ newline)) =
      some (dwordToken d, behindToken dwords newline) := by
    apply strtokNext_append (List.cons_ne_nil _ _) ?_ hfirst
    intro b hb hm
    exact dwordToken_not_sep hdw b hb (List.mem_cons.mpr (.inl (List.mem_singleton.mp hm)))
  rw [createPayload, if_neg (by rw [hsize]; omega), hstring, htoken, Option.map_some,
    payloadLoop_dwords hn' hd hbehind hs, List.nil_append]

theorem createPayload_empty {behind : Text} {size : Nat} {file : Text}
    (h : payloadFileSize file ≤ 0) : createPayload behind size file = some (.error true) := if_pos h

theorem createPayload_eq {behind : Text} {size : Nat} {file : Text}
    (h : ¬ payloadFileSize file ≤ 0) : createPayload behind size file =
      (strtokNext [COMMA] (fileString file)).map fun t =>
        payloadLoop behind size t.1 t.2 ⟨[], true⟩ := if_neg h

theorem payloadOk_of_failsFirst {behind : Text} {size : Nat} {file : Text} (h : FailsFirst file) :
    PayloadOk behind size file := by
  rw [PayloadOk]
  by_cases hsize : payloadFileSize file ≤ 0
  · rw [createPayload_empty hsize, ResultOk]
  · obtain ⟨t, ht, hb⟩ := h.resolve_left hsize
    rw [createPayload_eq hsize, ht, Option.map_some, payloadLoop_refuses hb, ResultOk]

theorem failsFirst_of_payloadOk {behind : Text} {size : Nat} {file : Text}
    (h : PayloadOk behind size file) : FailsFirst file := by
  by_contra hn
  rw [FailsFirst, not_or] at hn
  obtain ⟨hsize, hfirst⟩ := hn
  rw [PayloadOk, createPayload_eq hsize] at h
  cases ht : strtokNext [COMMA] (fileString file) with
  | none =>
    rw [ht, Option.map_none, ResultOk] at h
    exact h
  | some t =>
    have hb : EndsInByte t.1 := by
      by_contra hb
      exact hfirst ⟨t, ht, hb⟩
    obtain ⟨herr, hok⟩ := @payloadLoop_endsInByte behind t.1 t.2 size ⟨[], true⟩ hb
    rw [ht, Option.map_some] at h
    cases hr : payloadLoop behind size t.1 t.2 ⟨[], true⟩ with
    | error e =>
      rw [hr, ResultOk, herr e hr] at h
      cases h
    | ok st =>
      rw [hr, ResultOk, hok st hr] at h
      cases h.1

/-- Every conversion looks behind its buffer, so the call is as it should be exactly where it fails
before the first one. -/
theorem create_payload_iff (behind : Text) (size : Nat) (file : Text) :
    PayloadOk behind size file ↔ FailsFirst file :=
  ⟨failsFirst_of_payloadOk, payloadOk_of_failsFirst⟩

/-- The file `0xddccbbaa`. -/
def oneDword : Text := [48, 120, 100, 100, 99, 99, 98, 98, 97, 97]

/-- A single DWORD is read behind the buffer of its bytes. -/
theorem oneDword_overread : ¬ ∀ (behind : Text) (size : Nat) (file : Text), 0 < size →
    PayloadOk behind size file := by
  intro h
  have hsize : ¬ payloadFileSize oneDword ≤ 0 := by decide +kernel
  have ht : strtokNext [COMMA] (fileString oneDword) = some (oneDword, []) := by decide +kernel
  rcases failsFirst_of_payloadOk (h [0] 4 oneDword (by decide)) with hf | ⟨t, hf, hb⟩
  · exact hsize hf
  · rw [ht] at hf
    obtain rfl := Option.some.inj hf
    exact hb ⟨rfl, rfl, rfl⟩

end Perftest
