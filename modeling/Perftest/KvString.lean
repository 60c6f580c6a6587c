import Mathlib.Data.List.Perm.Basic
import Perftest.Lib.CString

namespace Perftest

open CString

def KV_PAIR_SEP : UInt8 := 59
def KV_SEP : UInt8 := 61
def KV_HEX_PER_BYTE : Nat := 2

/-- An entry of the compare table: both values have `value_size` bytes. -/
structure CompareEntry where
  name : Text
  localValue : Text
  remoteValue : Text
  received : Bool
  sizes : remoteValue.length = localValue.length

namespace CompareEntry

def valueSize (e : CompareEntry) : Nat := e.localValue.length

end CompareEntry

/-- The size that is computed before the string is allocated. -/
def localSize (table : List CompareEntry) : Nat :=
  (table.map fun e => e.name.length + 1 + e.valueSize * KV_HEX_PER_BYTE + 1).sum + 1

/-- One call of `snprintf` behind the `off` characters so far, into a buffer of `size`. -/
def snprintf (size : Nat) (st : Text × Nat) (out : Text) : Text × Nat :=
  (st.1 ++ out.take (size - st.2 - 1), st.2 + out.length)

/-- What is printed for one entry, call by call. -/
def entryPrints (e : CompareEntry) : List Text :=
  (e.name ++ [KV_SEP]) :: e.localValue.map (fun b => padHex KV_HEX_PER_BYTE b.toNat) ++
    [[KV_PAIR_SEP]]

/-- `local_str` and `off` after the loop over the table. -/
def kvString (table : List CompareEntry) : Text × Nat :=
  (table.flatMap entryPrints).foldl (snprintf (localSize table)) ([], 0)

/-- The tokens that `strtok_r` returns one after the other. -/
def strtok (sep : UInt8) : Nat → Text → List Text
  | 0, _ => []
  | fuel + 1, s =>
    match s.dropWhile (· == sep) with
    | [] => []
    | b :: t => (b :: t).takeWhile (· != sep) :: strtok sep fuel ((b :: t).dropWhile (· != sep))

/-- The bytes that `%2hhx` converts at every second character, up to the first failure. -/
def scanBytes : Nat → Text → Text
  | 0, _ => []
  | n + 1, hex =>
    match scanHex KV_HEX_PER_BYTE hex with
    | none => []
    | some (v, _) => UInt8.ofInt v :: scanBytes n (hex.drop KV_HEX_PER_BYTE)

theorem scanBytes_length_le (n : Nat) (hex : Text) : (scanBytes n hex).length ≤ n := by
  induction n generalizing hex with
  | zero => simp [scanBytes]
  | succ n ih =>
    unfold scanBytes
    split
    · simp
    · simpa using ih _

namespace CompareEntry

/-- The bytes are stored as they are converted; the entry counts as received when all were. -/
def storeHex (e : CompareEntry) (hex : Text) : CompareEntry :=
  { e with
    remoteValue := scanBytes e.valueSize hex ++
      e.remoteValue.drop (scanBytes e.valueSize hex).length
    received := e.received || (scanBytes e.valueSize hex).length == e.valueSize
    sizes := by
      have h := scanBytes_length_le e.valueSize hex
      have hs := e.sizes
      unfold valueSize at h ⊢
      rw [List.length_append, List.length_drop]
      omega }

end CompareEntry

/-- The search for the key stops at the first entry of that name. -/
def receivePair (key hex : Text) : List CompareEntry → List CompareEntry
  | [] => []
  | e :: es => if e.name = key then e.storeHex hex :: es else e :: receivePair key hex es

def receiveToken (table : List CompareEntry) (token : Text) : List CompareEntry :=
  match CString.splitAt KV_SEP token with
  | some (key, hex) => receivePair key hex table
  | none => table

/-- The receiving half of `negotiate_params_kv_string`. -/
def parseKvString (remoteStr : Text) (table : List CompareEntry) : List CompareEntry :=
  (strtok KV_PAIR_SEP ((cstr remoteStr).length + 1) (cstr remoteStr)).foldl receiveToken table

/-- Distinct names without the separators and the terminator. -/
structure KvTable (table : List CompareEntry) : Prop where
  nodup : (table.map CompareEntry.name).Nodup
  clean : ∀ e ∈ table, ∀ b ∈ e.name, b ≠ KV_SEP ∧ b ≠ KV_PAIR_SEP ∧ b ≠ 0

section Encode

variable {table : List CompareEntry}

def hexBytes (value : Text) : Text := value.flatMap fun b => fixedHex 2 b.toNat

/-- The text of an entry without the separator behind it. -/
def pairText (e : CompareEntry) : Text := e.name ++ KV_SEP :: hexBytes e.localValue

theorem snprintf_foldl {size : Nat} (outs : List Text) (st : Text × Nat)
    (hl : st.1.length = st.2) (h : st.2 + outs.flatten.length < size) :
    outs.foldl (snprintf size) st =
      (st.1 ++ outs.flatten, st.2 + outs.flatten.length) := by
  induction outs generalizing st with
  | nil => simp
  | cons out outs ih =>
    simp only [List.flatten_cons, List.length_append] at h
    have ht : out.take (size - st.2 - 1) = out := List.take_of_length_le (by omega)
    rw [List.foldl_cons, snprintf, ht, ih]
    · simp [Nat.add_assoc]
    · simp [hl]
    · simp only
      omega

theorem hexBytes_length (value : Text) : (hexBytes value).length = value.length * 2 := by
  induction value with
  | nil => rfl
  | cons b value ih =>
    simp only [hexBytes, List.flatMap_cons, List.length_append, fixedHex_length,
      List.length_cons] at ih ⊢
    omega

theorem entryPrints_flatten (e : CompareEntry) :
    (entryPrints e).flatten = pairText e ++ [KV_PAIR_SEP] := by
  have hb : (e.localValue.map fun b => padHex KV_HEX_PER_BYTE b.toNat).flatten =
      hexBytes e.localValue := by
    rw [hexBytes, List.flatMap_def]
    congr 1
    apply List.map_congr_left
    intro b _
    exact padHex_eq (by decide) b.toNat_lt
  simp [entryPrints, pairText, hb]

theorem prints_flatten (table : List CompareEntry) :
    (table.flatMap entryPrints).flatten =
      table.flatMap fun e => pairText e ++ [KV_PAIR_SEP] := by
  induction table with
  | nil => rfl
  | cons e table ih => simp [entryPrints_flatten, ih]

theorem pairs_length (table : List CompareEntry) :
    (table.flatMap fun e => pairText e ++ [KV_PAIR_SEP]).length + 1 = localSize table := by
  induction table with
  | nil => rfl
  | cons e table ih =>
    simp only [localSize, List.flatMap_cons, List.length_append, pairText, List.length_cons,
      hexBytes_length, List.map_cons, List.sum_cons,
      CompareEntry.valueSize, KV_HEX_PER_BYTE, List.length_nil] at ih ⊢
    omega

/-- No call truncates: the string is the concatenation of the pairs, and its length is the
computed one. -/
theorem kvString_eq (table : List CompareEntry) :
    kvString table = (table.flatMap fun e => pairText e ++ [KV_PAIR_SEP], localSize table - 1) := by
  have hl := pairs_length table
  rw [kvString, snprintf_foldl]
  · rw [prints_flatten]
    simp only [List.nil_append, Nat.zero_add, Prod.mk.injEq, true_and]
    omega
  · rfl
  · rw [prints_flatten]
    simp only
    omega

end Encode

section Decode

theorem scanBytes_hexBytes (n : Nat) (value : Text) :
    scanBytes n (hexBytes value) = value.take n := by
  induction n generalizing value with
  | zero => rfl
  | succ n ih =>
    cases value with
    | nil => rfl
    | cons b value =>
      have hs := scanHex_append (w := 2) (v := 2) (n := b.toNat) (hexBytes value) (by omega)
        b.toNat_lt le_rfl (Or.inl rfl)
      have hd : (fixedHex 2 b.toNat ++ hexBytes value).drop 2 = hexBytes value := by
        have hl := fixedHex_length 2 b.toNat
        rw [List.drop_append_of_le_length (by omega), List.drop_of_length_le (by omega)]
        rfl
      have hc : hexBytes (b :: value) = fixedHex 2 b.toNat ++ hexBytes value := rfl
      rw [hc, scanBytes]
      simp only [KV_HEX_PER_BYTE, hs, hd, ih, ofInt_toNat_uint8, List.take_succ_cons]

theorem strtok_pairs {sep : UInt8} {l : List Text} (h : ∀ t ∈ l, t ≠ [] ∧ ∀ b ∈ t, b ≠ sep)
    (fuel : Nat) (hf : l.length < fuel) (lead : Text) (hlead : lead = [] ∨ lead = [sep]) :
    strtok sep fuel (lead ++ l.flatMap fun t => t ++ [sep]) = l := by
  induction l generalizing fuel lead with
  | nil =>
    obtain ⟨f, rfl⟩ : ∃ f, fuel = f + 1 := ⟨fuel - 1, by omega⟩
    rcases hlead with rfl | rfl <;> simp [strtok]
  | cons t l ih =>
    obtain ⟨f, rfl⟩ : ∃ f, fuel = f + 1 := ⟨fuel - 1, by omega⟩
    obtain ⟨hne, hsep⟩ := h t (by simp)
    obtain ⟨b, t', rfl⟩ := List.exists_cons_of_ne_nil hne
    have hb : b ≠ sep := hsep b (by simp)
    have hall : ∀ c ∈ b :: t', (c != sep) = true := by
      intro c hc
      simpa using hsep c hc
    have hstop : ∀ c ∈ (sep :: l.flatMap fun t => t ++ [sep]).head?, (c != sep) = false := by
      intro c hc
      have : c = sep := by simpa using hc.symm
      simp [this]
    have htext : (lead ++ ((b :: t') :: l).flatMap fun t => t ++ [sep]).dropWhile (· == sep) =
        (b :: t') ++ sep :: l.flatMap fun t => t ++ [sep] := by
      have hbs : (b == sep) = false := by simpa using hb
      rcases hlead with rfl | rfl <;> simp [hbs]
    have hlen : l.length < f := by
      simp only [List.length_cons] at hf
      omega
    have hi := ih (fun x hx => h x (by simp [hx])) f hlen [sep] (Or.inr rfl)
    rw [strtok, htext, List.cons_append]
    dsimp only
    rw [← List.cons_append, takeWhile_append_of_all hall hstop, dropWhile_append_of_all hall hstop]
    exact congrArg ((b :: t') :: ·) hi

variable {S R : List CompareEntry}

theorem pairText_ne {e : CompareEntry} {c : UInt8} (hn : ∀ b ∈ e.name, b ≠ c) (hc : c ≠ KV_SEP)
    (hx : isHex c = false) : ∀ b ∈ pairText e, b ≠ c := by
  intro b hb
  rcases List.mem_append.mp hb with hb | hb
  · exact hn b hb
  · rcases List.mem_cons.mp hb with rfl | hb
    · exact hc.symm
    · obtain ⟨v, -, hv⟩ := List.mem_flatMap.mp hb
      rintro rfl
      have := isHex_of_mem_fixedHex hv
      rw [hx] at this
      exact absurd this (by decide)

theorem cstr_kvString (hS : KvTable S) :
    cstr ((kvString S).1 ++ [0]) = S.flatMap fun e => pairText e ++ [KV_PAIR_SEP] := by
  rw [kvString_eq]
  apply cstr_append
  intro b hb
  obtain ⟨e, he, hb⟩ := List.mem_flatMap.mp hb
  rcases List.mem_append.mp hb with hb | hb
  · exact pairText_ne (fun c hc => (hS.clean e he c hc).2.2) (by decide) (by decide) b hb
  · rw [List.mem_singleton.mp hb]
    decide

theorem length_le_pairs (S : List CompareEntry) :
    S.length ≤ (S.flatMap fun e => pairText e ++ [KV_PAIR_SEP]).length := by
  induction S with
  | nil => simp
  | cons e S ih =>
    simp only [List.flatMap_cons, List.length_append, List.length_cons] at ih ⊢
    omega

theorem receiveToken_pairText {e : CompareEntry} (h : ∀ b ∈ e.name, b ≠ KV_SEP ∧ b ≠ 0) :
    receiveToken R (pairText e) = receivePair e.name (hexBytes e.localValue) R := by
  rw [receiveToken, pairText, splitAt_append h]

/-- The parser takes the pairs one by one. -/
theorem parseKvString_foldl (hS : KvTable S) :
    parseKvString ((kvString S).1 ++ [0]) R =
      S.foldl (fun R e => receivePair e.name (hexBytes e.localValue) R) R := by
  have htok : ∀ t ∈ S.map pairText, t ≠ [] ∧ ∀ b ∈ t, b ≠ KV_PAIR_SEP := by
    intro t ht
    obtain ⟨e, he, rfl⟩ := List.mem_map.mp ht
    refine ⟨by simp [pairText], ?_⟩
    exact pairText_ne (fun c hc => (hS.clean e he c hc).2.1) (by decide) (by decide)
  have hlen := length_le_pairs S
  have hs := strtok_pairs htok ((S.flatMap fun e => pairText e ++ [KV_PAIR_SEP]).length + 1)
    (by rw [List.length_map]; omega) [] (Or.inl rfl)
  rw [List.nil_append, List.flatMap_map] at hs
  rw [parseKvString, cstr_kvString hS, hs, List.foldl_map]
  have hclean := hS.clean
  clear hS htok hlen hs
  induction S generalizing R with
  | nil => rfl
  | cons e S ih =>
    rw [List.foldl_cons, List.foldl_cons, receiveToken_pairText, ih]
    · exact fun x hx => hclean x (by simp [hx])
    · exact fun b hb => ⟨(hclean e (by simp) b hb).1, (hclean e (by simp) b hb).2.2⟩

theorem receivePair_eq_map {key hex : Text} (h : (R.map CompareEntry.name).Nodup) :
    receivePair key hex R = R.map fun e => if e.name = key then e.storeHex hex else e := by
  induction R with
  | nil => rfl
  | cons e R ih =>
    rw [List.map_cons, List.nodup_cons] at h
    rw [receivePair, List.map_cons]
    split
    next he =>
      have hrest : ∀ x ∈ R, (if x.name = key then x.storeHex hex else x) = x := by
        intro x hx
        rw [if_neg]
        intro hk
        exact h.1 (List.mem_map.mpr ⟨x, hx, by rw [hk, he]⟩)
      rw [List.map_congr_left hrest, List.map_id']
    next => rw [ih h.2]

/-- What the pairs of a table do to one entry of the receiver. -/
def receiveAll (S : List CompareEntry) (e : CompareEntry) : CompareEntry :=
  S.foldl (fun e s => if e.name = s.name then e.storeHex (hexBytes s.localValue) else e) e

theorem foldl_receivePair (h : (R.map CompareEntry.name).Nodup) :
    S.foldl (fun R e => receivePair e.name (hexBytes e.localValue) R) R =
      R.map (receiveAll S) := by
  induction S generalizing R with
  | nil =>
    symm
    exact List.map_id' R
  | cons s S ih =>
    have hname : (R.map fun e => if e.name = s.name then e.storeHex (hexBytes s.localValue)
        else e).map CompareEntry.name = R.map CompareEntry.name := by
      rw [List.map_map]
      apply List.map_congr_left
      intro e _
      simp only [Function.comp_apply]
      split <;> rfl
    rw [List.foldl_cons, receivePair_eq_map h, ih (hname ▸ h), List.map_map]
    rfl

theorem receiveAll_unknown {e : CompareEntry} (h : ∀ s ∈ S, s.name ≠ e.name) :
    receiveAll S e = e := by
  induction S with
  | nil => rfl
  | cons s S ih =>
    have hs := h s (by simp)
    rw [receiveAll, List.foldl_cons, if_neg (Ne.symm hs)]
    exact ih fun x hx => h x (by simp [hx])

theorem receiveAll_known {e s : CompareEntry} (h : (S.map CompareEntry.name).Nodup) (hs : s ∈ S)
    (hn : s.name = e.name) : receiveAll S e = e.storeHex (hexBytes s.localValue) := by
  induction S generalizing e with
  | nil => simp at hs
  | cons x S ih =>
    rw [List.map_cons, List.nodup_cons] at h
    rw [receiveAll, List.foldl_cons]
    rcases List.mem_cons.mp hs with rfl | hs
    · rw [if_pos hn.symm]
      apply receiveAll_unknown
      intro y hy he
      refine h.1 (List.mem_map.mpr ⟨y, hy, ?_⟩)
      rw [he, hn]
      rfl
    · rw [if_neg]
      · exact ih h.2 hs hn
      · intro he
        exact h.1 (List.mem_map.mpr ⟨s, hs, by rw [hn, he]⟩)

theorem storeHex_hexBytes (e : CompareEntry) (value : Text) :
    (e.valueSize ≤ value.length → (e.storeHex (hexBytes value)).received = true ∧
      (e.storeHex (hexBytes value)).remoteValue = value.take e.valueSize) ∧
    (value.length < e.valueSize → (e.storeHex (hexBytes value)).received = e.received) := by
  have hs := e.sizes
  simp only [CompareEntry.storeHex, scanBytes_hexBytes]
  refine ⟨fun h => ?_, fun h => ?_⟩
  · have hl : (value.take e.valueSize).length = e.valueSize := by
      rw [List.length_take]
      omega
    refine ⟨by simp [hl], ?_⟩
    rw [hl, List.drop_of_length_le (by unfold CompareEntry.valueSize; omega), List.append_nil]
  · have hl : ((value.take e.valueSize).length == e.valueSize) = false := by
      rw [List.length_take, beq_eq_false_iff_ne]
      omega
    rw [hl, Bool.or_false]

end Decode

/-- What the receiver's entry `e` becomes against the sender's table: the entry of its name is
stored when it is long enough, and other names change nothing. -/
def KvReceived (S : List CompareEntry) (e e' : CompareEntry) : Prop :=
  e'.name = e.name ∧ e'.localValue = e.localValue ∧
    (∀ s ∈ S, s.name = e.name → e.valueSize ≤ s.valueSize →
      e'.received = true ∧ e'.remoteValue = s.localValue.take e.valueSize) ∧
    (∀ s ∈ S, s.name = e.name → s.valueSize < e.valueSize → e'.received = e.received) ∧
    ((∀ s ∈ S, s.name ≠ e.name) → e' = e)

theorem receiveAll_received {S : List CompareEntry} (hS : (S.map CompareEntry.name).Nodup)
    (e : CompareEntry) : KvReceived S e (receiveAll S e) := by
  have hkept : (receiveAll S e).name = e.name ∧ (receiveAll S e).localValue = e.localValue := by
    by_cases h : ∃ s ∈ S, s.name = e.name
    · obtain ⟨s, hs, hn⟩ := h
      rw [receiveAll_known hS hs hn]
      exact ⟨rfl, rfl⟩
    · rw [receiveAll_unknown fun s hs hn => h ⟨s, hs, hn⟩]
      exact ⟨rfl, rfl⟩
  refine ⟨hkept.1, hkept.2, fun s hs hn hl => ?_, fun s hs hn hl => ?_, receiveAll_unknown⟩
  · rw [receiveAll_known hS hs hn]
    exact (storeHex_hexBytes e s.localValue).1 hl
  · rw [receiveAll_known hS hs hn]
    exact (storeHex_hexBytes e s.localValue).2 hl

/-- The string has the computed length, parsing it stores exactly the values that both tables name
and that are long enough, and the order of the sender's table does not matter. -/
theorem kvString_round_trip (S R : List CompareEntry) (hS : KvTable S) (hR : KvTable R) :
    (kvString S).1.length = (kvString S).2 ∧ (kvString S).2 + 1 = localSize S ∧
      (∃ f, parseKvString ((kvString S).1 ++ [0]) R = R.map f ∧ ∀ e ∈ R, KvReceived S e (f e)) ∧
      ∀ S', S'.Perm S →
        parseKvString ((kvString S').1 ++ [0]) R = parseKvString ((kvString S).1 ++ [0]) R := by
  have hl := pairs_length S
  have hparse : ∀ {T}, KvTable T →
      parseKvString ((kvString T).1 ++ [0]) R = R.map (receiveAll T) := by
    intro T hT
    rw [parseKvString_foldl hT, foldl_receivePair hR.nodup]
  refine ⟨?_, ?_, ⟨receiveAll S, hparse hS, fun e _ => receiveAll_received hS.nodup e⟩, ?_⟩
  · rw [kvString_eq]
    simp only
    omega
  · rw [kvString_eq]
    simp only
    omega
  · intro S' hp
    have hS' : KvTable S' :=
      ⟨(hp.map CompareEntry.name).nodup_iff.mpr hS.nodup, fun e he => hS.clean e (hp.subset he)⟩
    rw [hparse hS, hparse hS']
    apply List.map_congr_left
    intro e _
    by_cases h : ∃ s ∈ S, s.name = e.name
    · obtain ⟨s, hs, hn⟩ := h
      rw [receiveAll_known hS.nodup hs hn, receiveAll_known hS'.nodup (hp.symm.subset hs) hn]
    · have h' : ∀ s ∈ S, s.name ≠ e.name := fun s hs hn => h ⟨s, hs, hn⟩
      rw [receiveAll_unknown h', receiveAll_unknown fun s hs => h' s (hp.subset hs)]

/-- A sender with a value of three bytes, and a receiver that knows two of them and another
name. -/
def threeByteTable : List CompareEntry := [⟨[115], [1, 2, 3], [0, 0, 0], false, rfl⟩]

def twoByteTable : List CompareEntry :=
  [⟨[115], [9, 9], [0, 0], false, rfl⟩, ⟨[116], [7], [0], false, rfl⟩]

theorem twoByteTable_received :
    ∃ f, parseKvString ((kvString threeByteTable).1 ++ [0]) twoByteTable = twoByteTable.map f ∧
      ∀ e ∈ twoByteTable, KvReceived threeByteTable e (f e) :=
  (kvString_round_trip threeByteTable twoByteTable ⟨by decide +kernel, by decide +kernel⟩
    ⟨by decide +kernel, by decide +kernel⟩).2.2.1

example : (parseKvString ((kvString threeByteTable).1 ++ [0]) twoByteTable).map
    (fun e => (e.remoteValue, e.received)) = [([1, 2], true), ([0], false)] := by
  decide +kernel

end Perftest
