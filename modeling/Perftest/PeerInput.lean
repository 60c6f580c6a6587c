import Perftest.LayoutAgreement

namespace Perftest

open CString CMachine Checked

/-- The tokens that `strtok_r` returns, each with the memory behind its terminator: the rest of the
string, in which the separators still stand, and what follows the string. -/
def strtokIn (sep : UInt8) (tail : Text) : Nat → Text → List (Text × Text)
  | 0, _ => []
  | fuel + 1, s =>
    match s.dropWhile (· == sep) with
    | [] => []
    | b :: t =>
      ((b :: t).takeWhile (· != sep),
        match (b :: t).dropWhile (· != sep) with
        | [] => tail
        | _ :: rest => rest ++ 0 :: tail) ::
      strtokIn sep tail fuel ((b :: t).dropWhile (· != sep))

/-- The tokens of the received buffer, behind which lies the memory `beyond`. -/
def bufferTokens (remoteStr beyond : Text) : List (Text × Text) :=
  let buffer := remoteStr ++ 0 :: beyond
  strtokIn KV_PAIR_SEP ((buffer.dropWhile (· ≠ 0)).drop 1) ((cstr buffer).length + 1) (cstr buffer)

/-- One round of the token loop: `sscanf` sees the value, its terminator and the memory behind. -/
def receiveTokenIn (table : List CompareEntry) (token : Text × Text) : List CompareEntry :=
  match CString.splitAt KV_SEP token.1 with
  | some (key, hex) => receivePair key (hex ++ 0 :: token.2) table
  | none => table

/-- The receiving half of `negotiate_params_kv_string` on a buffer with any content. -/
def parseBuffer (remoteStr beyond : Text) (table : List CompareEntry) : List CompareEntry :=
  (bufferTokens remoteStr beyond).foldl receiveTokenIn table

/-- The offsets at which `sscanf` is called for a value of `n` bytes. -/
def scanStarts : Nat → Nat → Text → List Nat
  | 0, _, _ => []
  | n + 1, off, hex =>
    off :: match scanHex KV_HEX_PER_BYTE hex with
      | none => []
      | some _ => scanStarts n (off + KV_HEX_PER_BYTE) (hex.drop KV_HEX_PER_BYTE)

/-- The value begins with the digits of `n` bytes. -/
def HoldsDigits (n : Nat) (value : Text) : Prop :=
  2 * n ≤ value.length ∧ ∀ b ∈ value.take (2 * n), isHex b = true

/-- Decoding `n` bytes of a value stays in front of its terminator, and succeeds only on digits. -/
structure ScanOk (n : Nat) (value behind : Text) : Prop where
  inside : ∀ off ∈ scanStarts n 0 (value ++ 0 :: behind), off ≤ value.length
  digits : (scanBytes n (value ++ 0 :: behind)).length = n → HoldsDigits n value

/-- The value begins with enough digits, or a conversion fails at an even offset up to its end. -/
def Decodable (n : Nat) (value : Text) : Prop :=
  HoldsDigits n value ∨
    ∃ j, j < n ∧ 2 * j ≤ value.length ∧ scanHex KV_HEX_PER_BYTE (value.drop (2 * j)) = none

/-- The names that `compare` prints for the values of a field. -/
def returnValues (f : CompareFunction) : Option (List String) := match f.name with
  | "test_method" => some ["RUN_REGULAR", "RUN_ALL", "RUN_INFINITELY"]
  | "connection_type" => some ["RC", "UC", "UD", "RawEth", "XRC", "DC", "SRD"]
  | "verb" => some ["SEND", "SEND_IMM", "WRITE", "WRITE_IMM", "READ", "ATOMIC"]
  | "tst" => some ["LAT", "BW", "LAT_BY_BW", "FS_RATE"]
  | "atomicType" => some ["CMP_AND_SWAP", "FETCH_AND_ADD"]
  | "test_type" => some ["ITERATIONS", "DURATION"]
  | "report_fmt" => some ["GBS", "MBS"]
  | "aes_xts" | "duplex" | "use_rdma_cm" | "use_write_with_imm" | "no_enhanced_reorder"
  | "sig_offload" | "data_validation" => some ["OFF", "ON"]
  | _ => none

/-- The value as the `uint64_t` that `compare` uses as an index. -/
def tableIndex (type : CompareType) (value : Text) : Nat := match type with
  | .int => (ntohInt value % 2 ^ 64).toNat
  | .uint64 => beValue value

/-- The accesses of `compare` to the names of a field whose values differ: index and size. -/
def compareLookups (f : CompareFunction) (e : CompareEntry) : List (Nat × Nat) :=
  match returnValues f with
  | none => []
  | some names => [(tableIndex f.type e.localValue, names.length),
      (tableIndex f.type e.remoteValue, names.length)]

/-- A line at which the comparison loop fails. -/
def mismatches (p : NegotiationPeer) (x : CompareFunction × CompareEntry) : Bool :=
  x.2.received && x.1.cond p && decide (x.1.func = .compare) &&
    !compareValues x.1.type x.2.localValue x.2.remoteValue

/-- The accesses of the comparison loop, which returns at the first line that differs. -/
def loopLookups (p : NegotiationPeer) : List (CompareFunction × CompareEntry) → List (Nat × Nat)
  | [] => []
  | x :: rest => if mismatches p x then compareLookups x.1 x.2 else loopLookups p rest

def LookupsOk (p : NegotiationPeer) (lines : List (CompareFunction × CompareEntry)) : Prop :=
  ∀ a ∈ loopLookups p lines, a.1 < a.2

/-- The first line that differs prints numbers, or has a name for the value of the peer. -/
def MismatchNamed (p : NegotiationPeer) (lines : List (CompareFunction × CompareEntry)) : Prop :=
  ∀ x, lines.find? (mismatches p) = some x → ∀ names, returnValues x.1 = some names →
    tableIndex x.1.type x.2.remoteValue < names.length

/-- The compare table with the values of `p`. -/
def localEntries (b : NegotiationBuild) (p : NegotiationPeer) : List CompareEntry :=
  (compareFunctions b).map fun f => f.entry p

/-- The lines that `negotiate_params_legacy` marks as received. -/
def legacyFields : List String :=
  ["test_method", "connection_type", "verb", "tst", "atomicType", "test_type", "report_fmt", "size",
    "iters", "aes_xts", "num_of_qps", "duration", "use_rdma_cm", "use_write_with_imm",
    "no_enhanced_reorder", "sig_offload", "data_validation", "max_qp_rd_atom", "mlx5dv_comp_mask"]

/-- The bytes that the legacy struct of the peer holds for a field. -/
structure LegacyContent where
  field : CompareFunction → Text
  size : ∀ f, (field f).length = f.type.size

/-- The entry of a line after `negotiate_params_legacy`. -/
def legacyEntry (p : NegotiationPeer) (content : LegacyContent) (f : CompareFunction) :
    CompareEntry :=
  if f.name ∈ legacyFields then
    { f.entry p with
      remoteValue := content.field f
      received := true
      sizes := (content.size f).trans (f.localValue_length p).symm }
  else f.entry p

/-- The values of the enumerations that are modelled as numbers. -/
def NegotiationPeer.EnumsOk (p : NegotiationPeer) : Prop := p.atomicType ≤ 1 ∧ p.reportFmt ≤ 1

instance (p : NegotiationPeer) : Decidable p.EnumsOk := inferInstanceAs (Decidable (_ ∧ _))

section Scan

theorem mem_scanStarts {n off base : Nat} {hex : Text} :
    off ∈ scanStarts n base hex ↔ ∃ j, j < n ∧ off = base + 2 * j ∧
      ∀ i, i < j → scanHex KV_HEX_PER_BYTE (hex.drop (2 * i)) ≠ none := by
  induction n generalizing base hex with
  | zero => simp [scanStarts]
  | succ n ih =>
    rw [scanStarts, List.mem_cons]
    constructor
    · intro h
      rcases h with rfl | h
      · exact ⟨0, by omega, by omega, fun i hi => by omega⟩
      · cases hs : scanHex KV_HEX_PER_BYTE hex with
        | none => simp [hs] at h
        | some v =>
          simp only [hs, ih, List.drop_drop] at h
          obtain ⟨j, hj, rfl, hall⟩ := h
          refine ⟨j + 1, by omega, by unfold KV_HEX_PER_BYTE; omega, fun i hi => ?_⟩
          cases i with
          | zero => simp [hs]
          | succ i =>
            have := hall i (by omega)
            rwa [show KV_HEX_PER_BYTE + 2 * i = 2 * (i + 1) by unfold KV_HEX_PER_BYTE; omega] at this
    · intro h
      obtain ⟨j, hj, rfl, hall⟩ := h
      cases j with
      | zero => exact Or.inl rfl
      | succ j =>
        right
        have h0 := hall 0 (by omega)
        rw [Nat.mul_zero, List.drop_zero] at h0
        obtain ⟨v, hs⟩ := Option.ne_none_iff_exists'.mp h0
        simp only [hs, ih, List.drop_drop]
        refine ⟨j, by omega, by unfold KV_HEX_PER_BYTE; omega, fun i hi => ?_⟩
        rw [show KV_HEX_PER_BYTE + 2 * i = 2 * (i + 1) by unfold KV_HEX_PER_BYTE; omega]
        exact hall (i + 1) (by omega)

theorem scanBytes_length_eq_iff {n : Nat} {hex : Text} :
    (scanBytes n hex).length = n ↔
      ∀ j, j < n → scanHex KV_HEX_PER_BYTE (hex.drop (2 * j)) ≠ none := by
  induction n generalizing hex with
  | zero => simp [scanBytes]
  | succ n ih =>
    unfold scanBytes
    cases hs : scanHex KV_HEX_PER_BYTE hex with
    | none =>
      refine iff_of_false (by simp) fun h => ?_
      exact h 0 (by omega) (by simpa using hs)
    | some v =>
      simp only [List.length_cons, Nat.add_right_cancel_iff, ih, List.drop_drop]
      constructor
      · intro h j hj
        cases j with
        | zero => simp [hs]
        | succ j =>
          have := h j (by omega)
          rwa [show KV_HEX_PER_BYTE + 2 * j = 2 * (j + 1) by unfold KV_HEX_PER_BYTE; omega] at this
      · intro h j hj
        rw [show KV_HEX_PER_BYTE + 2 * j = 2 * (j + 1) by unfold KV_HEX_PER_BYTE; omega]
        exact h (j + 1) (by omega)

theorem dropWhile_terminated {p : UInt8 → Bool} (hp : p 0 = false) (u behind : Text) :
    (u ++ 0 :: behind).dropWhile p = u.dropWhile p ++ 0 :: behind := by
  induction u with
  | nil => simp [hp]
  | cons b u ih =>
    rw [List.cons_append, List.dropWhile_cons, List.dropWhile_cons]
    split
    · exact ih
    · rfl

theorem digits_terminated (w : Nat) (u behind : Text) :
    ((u ++ 0 :: behind).take w).takeWhile isHex = (u.take w).takeWhile isHex := by
  induction u generalizing w with
  | nil =>
    cases w with
    | zero => rfl
    | succ w => rfl
  | cons b u ih =>
    cases w with
    | zero => rfl
    | succ w =>
      rw [List.cons_append, List.take_succ_cons, List.take_succ_cons, List.takeWhile_cons,
        List.takeWhile_cons, ih]

theorem dropPrefix_two {w : Nat} (hw : w ≤ 2) (s : Text) : dropPrefix w s = (w, s) := by
  unfold dropPrefix
  split
  next => rw [if_neg (by omega)]
  next => rfl

/-- The conversion of two characters stops at the terminator of the text. -/
theorem scanHex_terminated (u behind : Text) :
    (scanHex KV_HEX_PER_BYTE (u ++ 0 :: behind)).map Prod.fst =
      (scanHex KV_HEX_PER_BYTE u).map Prod.fst := by
  have hspace : (u ++ 0 :: behind).dropWhile isSpace = u.dropWhile isSpace ++ 0 :: behind :=
    dropWhile_terminated rfl u behind
  have hsign : ∀ v : Text, ∃ neg w v', w ≤ 2 ∧ dropSign 2 v = (neg, w, v') ∧
      dropSign 2 (v ++ 0 :: behind) = (neg, w, v' ++ 0 :: behind) := by
    intro v
    cases v with
    | nil => exact ⟨false, 2, [], by omega, rfl, rfl⟩
    | cons b v =>
      by_cases h1 : b = 45
      · exact ⟨true, 1, v, by omega, by simp [dropSign, h1], by simp [dropSign, h1]⟩
      · by_cases h2 : b = 43
        · exact ⟨false, 1, v, by omega, by simp [dropSign, h2], by simp [dropSign, h2]⟩
        · exact ⟨false, 2, b :: v, by omega, by simp [dropSign, h1, h2],
            by simp [dropSign, h1, h2]⟩
  obtain ⟨neg, w, v, hw, h1, h2⟩ := hsign (u.dropWhile isSpace)
  simp only [scanHex, KV_HEX_PER_BYTE, hspace, h1, h2, dropPrefix_two hw, digits_terminated]
  split
  · rfl
  · rfl

theorem scanHex_terminated_none {value b : Text} {j : Nat} (h : 2 * j ≤ value.length) :
    scanHex KV_HEX_PER_BYTE ((value ++ 0 :: b).drop (2 * j)) = none ↔
      scanHex KV_HEX_PER_BYTE (value.drop (2 * j)) = none := by
  rw [List.drop_append_of_le_length h]
  have ht := scanHex_terminated (value.drop (2 * j)) b
  rw [← Option.map_eq_none_iff (f := Prod.fst), ht, Option.map_eq_none_iff]

theorem scanOk_iff_decodable {n : Nat} {value b : Text} :
    ScanOk n value b ↔ Decodable n value := by
  constructor
  · intro h
    by_contra hd
    have hconv : ∀ j, j < n → 2 * j ≤ value.length →
        scanHex KV_HEX_PER_BYTE ((value ++ 0 :: b).drop (2 * j)) ≠ none := by
      intro j hj hle hn
      exact hd (Or.inr ⟨j, hj, hle, (scanHex_terminated_none hle).mp hn⟩)
    have hin : ∀ j, j < n → 2 * j ≤ value.length := by
      intro j
      induction j using Nat.strong_induction_on with
      | _ j ih =>
        intro hj
        have hs := h.inside (0 + 2 * j) (mem_scanStarts.mpr ⟨j, hj, rfl, fun i hi =>
          hconv i (by omega) (ih i hi (by omega))⟩)
        omega
    exact hd (Or.inl (h.digits (scanBytes_length_eq_iff.mpr fun j hj => hconv j hj (hin j hj))))
  · intro h
    rcases h with hdig | ⟨k, hk, hle, hn⟩
    · refine ⟨fun off hoff => ?_, fun _ => hdig⟩
      obtain ⟨j, hj, rfl, -⟩ := mem_scanStarts.mp hoff
      have := hdig.1
      omega
    · have hn' := (scanHex_terminated_none (b := b) hle).mpr hn
      refine ⟨fun off hoff => ?_, fun hlen => ?_⟩
      · obtain ⟨j, hj, rfl, hall⟩ := mem_scanStarts.mp hoff
        have : j ≤ k := by
          by_contra hlt
          exact hall k (by omega) hn'
        omega
      · exact absurd hn' (scanBytes_length_eq_iff.mp hlen k hk)

/-- A decoding that stays in the value does not depend on what is behind. -/
theorem scanBytes_inside {n : Nat} {value behind : Text}
    (h : ∀ off ∈ scanStarts n 0 (value ++ 0 :: behind), off ≤ value.length) :
    scanBytes n (value ++ 0 :: behind) = scanBytes n value := by
  have hin : ∀ j, j < n → (∀ i, i < j →
      scanHex KV_HEX_PER_BYTE ((value ++ 0 :: behind).drop (2 * i)) ≠ none) →
      2 * j ≤ value.length := by
    intro j hj hall
    have := h (0 + 2 * j) (mem_scanStarts.mpr ⟨j, hj, rfl, hall⟩)
    omega
  clear h
  induction n generalizing value with
  | zero => rfl
  | succ n ih =>
    have ht := scanHex_terminated value behind
    rw [scanBytes, scanBytes]
    cases hs : scanHex KV_HEX_PER_BYTE value with
    | none =>
      rw [hs, Option.map_none, Option.map_eq_none_iff] at ht
      rw [ht]
    | some v =>
      rw [hs, Option.map_some, Option.map_eq_some_iff] at ht
      obtain ⟨v', hv', he⟩ := ht
      rw [hv']
      dsimp only
      rw [he]
      congr 1
      cases n with
      | zero => rfl
      | succ n =>
        have h2 := hin 1 (by omega) (fun i hi => by
          rw [show i = 0 by omega, Nat.mul_zero, List.drop_zero, hv']
          exact Option.some_ne_none _)
        rw [List.drop_append_of_le_length (by unfold KV_HEX_PER_BYTE; omega)]
        refine ih fun j hj hall => ?_
        have := hin (j + 1) (by omega) (fun i hi => ?_)
        · rw [List.length_drop]
          unfold KV_HEX_PER_BYTE
          omega
        · cases i with
          | zero =>
            rw [Nat.mul_zero, List.drop_zero, hv']
            exact Option.some_ne_none _
          | succ i =>
            have := hall i (by omega)
            rw [← List.drop_append_of_le_length (by unfold KV_HEX_PER_BYTE; omega),
              List.drop_drop] at this
            rwa [show KV_HEX_PER_BYTE + 2 * i = 2 * (i + 1) by unfold KV_HEX_PER_BYTE; omega] at this

end Scan

section Tokens

/-- The tokens of a payload. -/
def payloadTokens (remoteStr : Text) : List Text :=
  strtok KV_PAIR_SEP ((cstr remoteStr).length + 1) (cstr remoteStr)

theorem strtokIn_fst (sep : UInt8) (tail : Text) (fuel : Nat) (s : Text) :
    (strtokIn sep tail fuel s).map Prod.fst = strtok sep fuel s := by
  induction fuel generalizing s with
  | zero => rfl
  | succ fuel ih =>
    rw [strtokIn, strtok]
    cases s.dropWhile (· == sep) with
    | nil => rfl
    | cons b t => rw [List.map_cons, ih]

/-- The loop over the tokens ends: more rounds than characters change nothing. -/
theorem strtokIn_fuel {sep : UInt8} {tail s : Text} {k : Nat} (h : s.length < k) :
    strtokIn sep tail k s = strtokIn sep tail (s.length + 1) s := by
  induction hn : s.length using Nat.strong_induction_on generalizing s k with
  | _ n ih =>
    obtain ⟨f, rfl⟩ : ∃ f, k = f + 1 := ⟨k - 1, by omega⟩
    rw [strtokIn, strtokIn]
    cases hd : s.dropWhile (· == sep) with
    | nil => rfl
    | cons b t =>
      have hb : (b == sep) = false := by
        have := List.head?_dropWhile_not (· == sep) s
        simpa [hd] using this
      have hlen : (b :: t).length ≤ s.length := by
        rw [← hd]
        exact (List.dropWhile_sublist _).length_le
      have hrest : ((b :: t).dropWhile (· != sep)).length ≤ t.length := by
        have hne : (b != sep) = true := by simpa [bne] using hb
        rw [List.dropWhile_cons, if_pos hne]
        exact (List.dropWhile_sublist _).length_le
      simp only [List.length_cons] at hlen
      dsimp only
      congr 1
      rw [ih _ (by omega) (k := f) (by omega) rfl, ih _ (by omega) (k := n) (by omega) rfl]

theorem cstr_buffer (remoteStr beyond : Text) :
    cstr (remoteStr ++ 0 :: beyond) = cstr remoteStr := by
  unfold cstr
  induction remoteStr with
  | nil => rfl
  | cons b s ih =>
    rw [List.cons_append, List.takeWhile_cons, List.takeWhile_cons, ih]

theorem bufferTokens_fst (remoteStr beyond : Text) :
    (bufferTokens remoteStr beyond).map Prod.fst = payloadTokens remoteStr := by
  rw [bufferTokens, strtokIn_fst, cstr_buffer]
  rfl

end Tokens

/-- Every token of a known key can be decoded without leaving it. -/
def KvDecodable (remoteStr : Text) (table : List CompareEntry) : Prop :=
  ∀ token ∈ payloadTokens remoteStr, ∀ key value, CString.splitAt KV_SEP token = some (key, value) →
    ∀ e ∈ table, e.name = key → Decodable e.valueSize value

section Parse

variable {key hex behind : Text} {table : List CompareEntry}

/-- What the parser keeps of an entry. -/
def CompareEntry.fixed (e : CompareEntry) : Text × Text := (e.name, e.localValue)

theorem receivePair_fixed (key hex : Text) (table : List CompareEntry) :
    (receivePair key hex table).map CompareEntry.fixed = table.map CompareEntry.fixed := by
  induction table with
  | nil => rfl
  | cons e table ih =>
    rw [receivePair]
    split
    · rfl
    · rw [List.map_cons, List.map_cons, ih]

theorem receiveTokenIn_fixed (table : List CompareEntry) (token : Text × Text) :
    (receiveTokenIn table token).map CompareEntry.fixed = table.map CompareEntry.fixed := by
  unfold receiveTokenIn
  split
  · exact receivePair_fixed _ _ _
  · rfl

theorem parseBuffer_fixed (remoteStr beyond : Text) (table : List CompareEntry) :
    (parseBuffer remoteStr beyond table).map CompareEntry.fixed =
      table.map CompareEntry.fixed := by
  unfold parseBuffer
  induction bufferTokens remoteStr beyond generalizing table with
  | nil => rfl
  | cons token tokens ih => rw [List.foldl_cons, ih, receiveTokenIn_fixed]

theorem receivePair_terminated
    (h : ∀ e ∈ table, e.name = key → Decodable e.valueSize hex) :
    receivePair key (hex ++ 0 :: behind) table = receivePair key hex table := by
  induction table with
  | nil => rfl
  | cons e table ih =>
    rw [receivePair, receivePair]
    split
    next hk =>
      have hd := (scanOk_iff_decodable (b := behind)).mpr (h e (by simp) hk)
      have hs := scanBytes_inside hd.inside
      simp only [CompareEntry.storeHex, hs]
    next => rw [ih fun e he => h e (by simp [he])]

/-- Tables with the same names and sizes. -/
theorem decodable_of_fixed {table' : List CompareEntry} {value : Text}
    (hf : table'.map CompareEntry.fixed = table.map CompareEntry.fixed)
    (h : ∀ e ∈ table, e.name = key → Decodable e.valueSize value) :
    ∀ e ∈ table', e.name = key → Decodable e.valueSize value := by
  intro e he hk
  have hm : e.fixed ∈ table.map CompareEntry.fixed := by
    rw [← hf]
    exact List.mem_map_of_mem he
  obtain ⟨e', he', heq⟩ := List.mem_map.mp hm
  have h1 : e'.name = e.name := congrArg Prod.fst heq
  have h2 : e'.localValue = e.localValue := congrArg Prod.snd heq
  have := h e' he' (h1.trans hk)
  rwa [CompareEntry.valueSize, h2] at this

/-- On a decodable payload the memory behind a token does not matter. -/
theorem parseBuffer_eq {remoteStr : Text} (beyond : Text) (h : KvDecodable remoteStr table) :
    parseBuffer remoteStr beyond table = parseKvString remoteStr table := by
  rw [parseKvString, parseBuffer, ← payloadTokens, ← bufferTokens_fst remoteStr beyond,
    List.foldl_map]
  rw [KvDecodable, ← bufferTokens_fst remoteStr beyond] at h
  generalize bufferTokens remoteStr beyond = tokens at h
  have key : ∀ table' : List CompareEntry,
      table'.map CompareEntry.fixed = table.map CompareEntry.fixed →
      tokens.foldl receiveTokenIn table' =
        tokens.foldl (fun t x => receiveToken t x.1) table' := by
    induction tokens with
    | nil => exact fun _ _ => rfl
    | cons token tokens ih =>
      intro table' hf
      have hstep : receiveTokenIn table' token = receiveToken table' token.1 := by
        cases hs : CString.splitAt KV_SEP token.1 with
        | none => simp only [receiveTokenIn, receiveToken, hs]
        | some kv =>
          obtain ⟨key, value⟩ := kv
          simp only [receiveTokenIn, receiveToken, hs]
          exact receivePair_terminated (decodable_of_fixed hf (h token.1 (by simp) key value hs))
      rw [List.foldl_cons, List.foldl_cons, ← hstep]
      apply ih
      · intro t ht
        exact h t (by simp only [List.map_cons, List.mem_cons, ht, or_true])
      · rw [receiveTokenIn_fixed, hf]
  exact key table rfl

end Parse

section Loop

variable {b : NegotiationBuild} {p : NegotiationPeer}
  {lines : List (CompareFunction × CompareEntry)}

theorem lookupsOk_iff (h : ∀ x ∈ lines, ∀ names, returnValues x.1 = some names →
      tableIndex x.1.type x.2.localValue < names.length) :
    LookupsOk p lines ↔ MismatchNamed p lines := by
  induction lines with
  | nil => simp [LookupsOk, MismatchNamed, loopLookups]
  | cons x lines ih =>
    unfold LookupsOk MismatchNamed at *
    rw [loopLookups, List.find?_cons]
    cases hm : mismatches p x with
    | false => exact ih fun y hy => h y (by simp [hy])
    | true =>
      have hx := h x (by simp)
      simp only [if_true, Option.some.injEq]
      cases hr : returnValues x.1 with
      | none =>
        refine iff_of_true (by simp [compareLookups, hr]) ?_
        rintro y rfl names hn
        rw [hr] at hn
        cases hn
      | some names =>
        simp only [compareLookups, hr, List.mem_cons, List.not_mem_nil, or_false,
          forall_eq_or_imp, forall_eq, hx names hr, true_and]
        constructor
        · rintro hlt y rfl names' hn
          rw [hr] at hn
          rw [← Option.some.inj hn]
          exact hlt
        · intro hall
          exact hall x rfl names hr

/-- The entries that were not received do not reach the verdict. -/
theorem verdict_of_received (g : CompareEntry → CompareEntry)
    (hg : ∀ e, (g e).received = e.received ∧ (e.received = true → g e = e)) (u : NegotiationPeer) :
    (lines.map fun x => (x.1, g x.2)).foldlM (compareStep b p) u =
      lines.foldlM (compareStep b p) u := by
  rw [List.foldlM_map]
  congr 1
  funext u x
  unfold compareStep
  cases hr : x.2.received with
  | false => simp [hr, (hg x.2).1]
  | true => rw [(hg x.2).2 hr, hr]

theorem tableIndex_localValue {f : CompareFunction} (ht : f.type = .int) {n : Nat}
    (hv : f.value p = n) (hn : n < 2 ^ 31) : tableIndex f.type (f.localValue p) = n := by
  have h := (beValue_localValue f p).1
  rw [ht] at h
  have hm : ((n : Int) % 256 ^ CompareType.int.size).toNat = n := by
    have : (n : Int) % 256 ^ CompareType.int.size = n :=
      Int.emod_eq_of_lt (by omega) (by simp only [CompareType.size]; omega)
    rw [this]
    rfl
  rw [hv, hm] at h
  simp only [tableIndex, ht, ntohInt, h, asInt_of_lt hn]
  omega

/-- The values of the enumerations are the indices of their names. -/
theorem enum_ranges : (∀ x : Bool, ∃ n : Nat, boolToInt x = n ∧ n < 2) ∧
    (∀ x : CtxTestMethod, ∃ n : Nat, x.toInt = n ∧ n < 3) ∧
    (∀ x : ConnectionType, ∃ n : Nat, x.toInt = n ∧ n < 7) ∧
    (∀ x : VerbType, ∃ n : Nat, x.toInt = n ∧ n < 6) ∧
    (∀ x : TestType, ∃ n : Nat, x.toInt = n ∧ n < 4) ∧
    ∀ x : TestMethod, ∃ n : Nat, x.toInt = n ∧ n < 2 := by
  refine ⟨?_, ?_, ?_, ?_, ?_, ?_⟩ <;> intro x <;> cases x <;> exact ⟨_, rfl, by decide⟩

/-- Every own value has a name. -/
theorem returnValues_local (hp : p.EnumsOk) {f : CompareFunction} (hf : f ∈ compareFunctions b)
    {names : List String} (hn : returnValues f = some names) :
    tableIndex f.type (f.localValue p) < names.length := by
  have key : f.type = .int → (∃ n : Nat, f.value p = n ∧ n < names.length) →
      names.length ≤ 7 → tableIndex f.type (f.localValue p) < names.length := by
    intro ht hv hle
    obtain ⟨n, hv, hlt⟩ := hv
    rwa [tableIndex_localValue ht hv (by omega)]
  obtain ⟨hat, hrf⟩ := hp
  obtain ⟨hbool, hmethod, hconn, hverb, htst, htype⟩ := enum_ranges
  have hmem : f ∈ symmetricFields := by
    simp only [compareFunctions, List.mem_append, List.mem_singleton] at hf
    rcases hf with (hf | rfl) | hf
    · exact hf
    · cases hn
    · split at hf
      · rw [List.mem_singleton] at hf
        subst hf
        cases hn
      · cases hf
  simp only [symmetricFields, List.mem_cons, List.not_mem_nil, or_false] at hmem
  rcases hmem with rfl | rfl | rfl | rfl | rfl | rfl | rfl | rfl | rfl | rfl | rfl | rfl | rfl |
    rfl | rfl | rfl | rfl | rfl | rfl <;> cases hn
  · exact key rfl (hmethod p.testMethod) (by decide)
  · exact key rfl (hconn p.connectionType) (by decide)
  · exact key rfl (hverb p.verb) (by decide)
  · exact key rfl (htst p.tst) (by decide)
  · exact key rfl ⟨p.atomicType, rfl, Nat.lt_succ_of_le hat⟩ (by decide)
  · exact key rfl (htype p.testType) (by decide)
  · exact key rfl ⟨p.reportFmt, rfl, Nat.lt_succ_of_le hrf⟩ (by decide)
  · exact key rfl (hbool p.aesXts) (by decide)
  · exact key rfl (hbool p.duplex) (by decide)
  · exact key rfl (hbool p.useRdmaCm) (by decide)
  · exact key rfl (hbool p.useWriteWithImm) (by decide)
  · exact key rfl (hbool p.noEnhancedReorder) (by decide)
  · exact key rfl (hbool p.sigOffload) (by decide)
  · exact key rfl (hbool p.dataValidation) (by decide)

/-- The lines of a table that keeps the own values. -/
theorem lookupsOk_lines (hp : p.EnumsOk) {entries : List CompareEntry}
    (he : entries.map CompareEntry.localValue = (compareFunctions b).map fun f => f.localValue p) :
    LookupsOk p ((compareFunctions b).zip entries) ↔
      MismatchNamed p ((compareFunctions b).zip entries) := by
  have hlocal : ∀ (fs : List CompareFunction) (es : List CompareEntry),
      es.map CompareEntry.localValue = fs.map (fun f => f.localValue p) →
      ∀ x ∈ fs.zip es, x.2.localValue = x.1.localValue p := by
    intro fs
    induction fs with
    | nil =>
      intro es _ x hx
      simp at hx
    | cons f fs ih =>
      intro es hes x hx
      cases es with
      | nil => simp at hx
      | cons e es =>
        simp only [List.map_cons, List.cons.injEq] at hes
        rcases List.mem_cons.mp hx with rfl | hx
        · exact hes.1
        · exact ih es hes.2 x hx
  apply lookupsOk_iff
  intro x hx names hn
  rw [hlocal _ _ he x hx]
  exact returnValues_local hp (List.of_mem_zip hx).1 hn

end Loop

/-- What the peer may not achieve with any payload: decoding a token leaves it, a field counts as
received without its digits, or the comparison loop reads behind a table. -/
structure RobustKv (b : NegotiationBuild) (p : NegotiationPeer) (remoteStr beyond : Text) :
    Prop where
  scans : ∀ token ∈ bufferTokens remoteStr beyond, ∀ key value,
    CString.splitAt KV_SEP token.1 = some (key, value) →
    ∀ e ∈ localEntries b p, e.name = key → ScanOk e.valueSize value token.2
  lookups : LookupsOk p
    ((compareFunctions b).zip (parseBuffer remoteStr beyond (localEntries b p)))

theorem scans_iff_decodable {b : NegotiationBuild} {p : NegotiationPeer}
    {remoteStr beyond : Text} :
    (∀ token ∈ bufferTokens remoteStr beyond, ∀ key value,
      CString.splitAt KV_SEP token.1 = some (key, value) →
      ∀ e ∈ localEntries b p, e.name = key → ScanOk e.valueSize value token.2) ↔
      KvDecodable remoteStr (localEntries b p) := by
  rw [KvDecodable, ← bufferTokens_fst remoteStr beyond, List.forall_mem_map]
  simp only [scanOk_iff_decodable]

/-- The parsing of any payload ends, entries that were not received do not reach the verdict, and
the rest holds exactly for the payloads whose tokens of known keys have enough digits or fail to
convert before their end, and whose first differing value, if it has names, is one of them; for the
legacy struct the last condition alone decides. -/
theorem negotiation_robust_iff (b : NegotiationBuild) (p : NegotiationPeer) (hp : p.EnumsOk) :
    (∀ remoteStr beyond, RobustKv b p remoteStr beyond ↔
      KvDecodable remoteStr (localEntries b p) ∧ MismatchNamed p
        ((compareFunctions b).zip (parseKvString remoteStr (localEntries b p)))) ∧
    (∀ content : LegacyContent,
      LookupsOk p ((compareFunctions b).zip ((compareFunctions b).map (legacyEntry p content))) ↔
      MismatchNamed p
        ((compareFunctions b).zip ((compareFunctions b).map (legacyEntry p content)))) ∧
    (∀ tail s fuel, s.length < fuel →
      strtokIn KV_PAIR_SEP tail fuel s = strtokIn KV_PAIR_SEP tail (s.length + 1) s) ∧
    (∀ (lines : List (CompareFunction × CompareEntry)) (g : CompareEntry → CompareEntry),
      (∀ e, (g e).received = e.received ∧ (e.received = true → g e = e)) → ∀ u,
      (lines.map fun x => (x.1, g x.2)).foldlM (compareStep b p) u =
        lines.foldlM (compareStep b p) u) := by
  refine ⟨fun remoteStr beyond => ?_, fun content => ?_, fun tail s fuel h => strtokIn_fuel h,
    fun lines g hg u => verdict_of_received g hg u⟩
  · have hlocal : (parseBuffer remoteStr beyond (localEntries b p)).map CompareEntry.localValue =
        (compareFunctions b).map fun f => f.localValue p := by
      have h := congrArg (List.map Prod.snd)
        (parseBuffer_fixed remoteStr beyond (localEntries b p))
      rw [List.map_map, List.map_map, localEntries, List.map_map] at h
      exact h
    have hloop := lookupsOk_lines hp hlocal
    constructor
    · intro h
      have hd := scans_iff_decodable.mp h.scans
      refine ⟨hd, ?_⟩
      rw [← parseBuffer_eq beyond hd]
      exact hloop.mp h.lookups
    · intro h
      obtain ⟨hd, hm⟩ := h
      refine ⟨scans_iff_decodable.mpr hd, hloop.mpr ?_⟩
      rwa [parseBuffer_eq beyond hd]
  · apply lookupsOk_lines hp
    rw [List.map_map]
    apply List.map_congr_left
    intro f _
    rw [Function.comp_apply, legacyEntry]
    split <;> rfl

/-- An `ib_write_bw` with its defaults. -/
def defaultPeer : NegotiationPeer := (initPerftestParams ⟨.write, .bw, false⟩ {}).peer

def plainBuild : NegotiationBuild := ⟨false, false, 0⟩

theorem verbEntry_size : ∀ e ∈ localEntries plainBuild defaultPeer, e.name = ofString "verb" →
    e.valueSize = 4 := by
  decide +kernel

/-- A peer that announces its verb in full, with nothing else. -/
theorem announcedVerb_robust : RobustKv plainBuild defaultPeer (ofString "verb=00000002") [] := by
  apply ((negotiation_robust_iff plainBuild defaultPeer (by decide)).1 _ _).mpr
  have htok : payloadTokens (ofString "verb=00000002") = [ofString "verb=00000002"] := by
    decide +kernel
  have hsplit : CString.splitAt KV_SEP (ofString "verb=00000002") =
      some (ofString "verb", ofString "00000002") := by
    decide +kernel
  refine ⟨fun token ht key value hs e he hk => ?_, fun x hx => ?_⟩
  · rw [htok, List.mem_singleton] at ht
    rw [ht, hsplit] at hs
    cases hs
    rw [verbEntry_size e he hk]
    exact Or.inl ⟨by decide +kernel, by decide +kernel⟩
  · have hnone : ((compareFunctions plainBuild).zip (parseKvString (ofString "verb=00000002")
        (localEntries plainBuild defaultPeer))).all (fun x => !mismatches defaultPeer x) = true := by
      decide +kernel
    have hm := List.find?_some hx
    have := List.all_eq_true.mp hnone x (List.mem_of_find?_eq_some hx)
    simp [hm] at this

/-- Single digits between blanks count as the bytes of a verb, five digits make the decoder read
behind their token, and a verb without a name is looked up behind the names. -/
theorem peerInput_not_robust :
    ¬ RobustKv plainBuild defaultPeer (ofString "verb=1 1 1 1 ") [] ∧
      ¬ RobustKv plainBuild defaultPeer (ofString "verb=00000") [] ∧
      ¬ RobustKv plainBuild defaultPeer (ofString "verb=000000ff") [] := by
  obtain ⟨e, he, hk⟩ : ∃ e ∈ localEntries plainBuild defaultPeer, e.name = ofString "verb" := by
    decide +kernel
  have hsize := verbEntry_size e he hk
  refine ⟨fun h => ?_, fun h => ?_, fun h => ?_⟩
  · have hs := h.scans (ofString "verb=1 1 1 1 ", []) (by decide +kernel) (ofString "verb")
      (ofString "1 1 1 1 ") (by decide +kernel) e he hk
    rw [hsize] at hs
    exact absurd ((hs.digits (by decide +kernel)).2 32 (by decide +kernel)) (by decide)
  · have hs := h.scans (ofString "verb=00000", []) (by decide +kernel) (ofString "verb")
      (ofString "00000") (by decide +kernel) e he hk
    rw [hsize] at hs
    exact absurd (hs.inside 6 (by decide +kernel)) (by decide +kernel)
  · exact absurd (h.lookups (255, 6) (by decide +kernel)) (by decide)

end Perftest
