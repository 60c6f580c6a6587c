import Perftest.Lib.OnesComplement
import Perftest.RawPacket

namespace Perftest

open NetBytes OnesComplement

/-- The 16-bit words of a header in network order. -/
def netWords : List UInt8 → List Nat
  | a :: b :: l => (a.toNat * 256 + b.toNat) :: netWords l
  | _ => []

section Fold

theorem foldCarries_reaches (n s : Nat) :
    Relation.ReflTransGen Fold s (foldCarries n s) := by
  induction n generalizing s with
  | zero => exact .refl
  | succ n ih =>
    unfold foldCarries
    split
    next => exact .refl
    next hs => exact (ih _).head ⟨hs, rfl⟩

/-- A round makes a sum smaller, so that each bound leads to the next one. -/
theorem foldCarries_succ_lt {n s b : Nat} (hs : s < b)
    (hb : ∀ t, t ≤ 2 ^ 16 - 1 + b / 2 ^ 16 → foldCarries n t < 2 ^ 16) :
    foldCarries (n + 1) s < 2 ^ 16 := by
  unfold foldCarries
  split
  next => omega
  next =>
    refine hb _ ?_
    have hdiv : s / 2 ^ 16 ≤ b / 2 ^ 16 := Nat.div_le_div_right (Nat.le_of_lt hs)
    omega

theorem foldCarries_lt_of_lt (n : Nat) {s : Nat} (hs : s < 2 ^ 16) : foldCarries n s < 2 ^ 16 := by
  have hz : s / 2 ^ 16 = 0 := Nat.div_eq_of_lt hs
  cases n with
  | zero => exact hs
  | succ n =>
    unfold foldCarries
    rwa [if_pos hz]

/-- The loop ends on every value of an `unsigned long long`. -/
theorem foldCarries_lt {s : Nat} (hs : s < 2 ^ 64) : foldCarries 64 s < 2 ^ 16 := by
  refine foldCarries_succ_lt hs fun t ht => ?_
  refine foldCarries_succ_lt (b := 2 ^ 49) (by omega) fun t ht => ?_
  refine foldCarries_succ_lt (b := 2 ^ 34) (by omega) fun t ht => ?_
  refine foldCarries_succ_lt (b := 2 ^ 19) (by omega) fun t ht => ?_
  unfold foldCarries
  split
  next => omega
  next =>
    refine foldCarries_lt_of_lt _ ?_
    omega

end Fold

section Words

variable {o : ByteOrder} {l : List UInt8} {v : Nat}

/-- A list without two bytes has no word. -/
theorem netWords_short (hl : ∀ a b t, l = a :: b :: t → False) :
    netWords l = [] ∧ l.length ≤ 1 := by
  match l, hl with
  | [], _ => exact ⟨rfl, Nat.zero_le 1⟩
  | [x], _ => exact ⟨by simp [netWords], le_refl 1⟩
  | x :: y :: t, hl => exact absurd rfl (hl x y t)

theorem netWords_append {a : List UInt8} (b : List UInt8) (ha : a.length % 2 = 0) :
    netWords (a ++ b) = netWords a ++ netWords b := by
  induction a using netWords.induct with
  | case1 x y l ih =>
    simp only [List.length_cons] at ha
    simp only [List.cons_append, netWords, ih (by omega)]
  | case2 l hl =>
    have hlen := (netWords_short hl).2
    have hnil : l = [] := List.length_eq_zero_iff.mp (by omega)
    rw [hnil]
    rfl

theorem netWords_length (l : List UInt8) : (netWords l).length = l.length / 2 := by
  induction l using netWords.induct with
  | case1 a b l ih =>
    simp only [netWords, List.length_cons, ih]
    omega
  | case2 l hl =>
    obtain ⟨hnil, hlen⟩ := netWords_short hl
    rw [hnil, List.length_nil]
    omega

theorem netWords_lt (l : List UInt8) : ∀ w ∈ netWords l, w < 2 ^ 16 := by
  induction l using netWords.induct with
  | case1 a b l ih =>
    intro w hw
    have ha := a.toNat_lt
    have hb := b.toNat_lt
    rcases List.mem_cons.mp hw with rfl | hw
    · omega
    · exact ih w hw
  | case2 l hl =>
    rw [(netWords_short hl).1]
    exact fun w hw => absurd hw List.not_mem_nil

/-- `htons` multiplies with 256 modulo 65535 where it swaps the bytes. -/
def swapFactor : ByteOrder → Nat
  | .little => 256
  | .big => 1

theorem htons_modEq (hv : v < 2 ^ 16) : htons o v ≡ swapFactor o * v [MOD 65535] := by
  unfold Nat.ModEq
  cases o with
  | little =>
    have hdiv := Nat.div_add_mod v 256
    have hhigh : v / 256 % 256 = v / 256 := Nat.mod_eq_of_lt (by omega)
    simp only [htons, swapFactor, hhigh]
    generalize v / 256 = y at *
    generalize v % 256 = x at *
    omega
  | big =>
    simp only [htons, swapFactor]
    omega

theorem swapFactor_sq (o : ByteOrder) (n : Nat) :
    swapFactor o * (swapFactor o * n) ≡ n [MOD 65535] := by
  unfold Nat.ModEq
  cases o <;> simp only [swapFactor] <;> omega

theorem htons_lt (o : ByteOrder) (v : Nat) : htons o v < 2 ^ 16 := by
  cases o <;> simp only [htons] <;> omega

theorem htons_eq_zero_iff (hv : v < 2 ^ 16) : htons o v = 0 ↔ v = 0 := by
  cases o <;> simp only [htons] <;> omega

theorem htons_compl (hv : v < 2 ^ 16) : htons o (2 ^ 16 - 1 - v) = 2 ^ 16 - 1 - htons o v := by
  cases o <;> simp only [htons] <;> omega

/-- The 32-bit words of the host against the 16-bit words of the network. -/
theorem words32_netWords (o : ByteOrder) (k : Nat) (l : List UInt8) (hl : l.length = 4 * k) :
    (netWords l).sum ≡ swapFactor o * (words32 o l).sum [MOD 65535] ∧
      ((netWords l).sum = 0 ↔ (words32 o l).sum = 0) ∧ (words32 o l).sum ≤ k * (2 ^ 32 - 1) := by
  induction k generalizing l with
  | zero =>
    rw [List.length_eq_zero_iff.mp (by omega : l.length = 0)]
    exact ⟨Nat.ModEq.refl 0, Iff.rfl, le_refl 0⟩
  | succ k ih =>
    match l, hl with
    | a :: b :: c :: d :: l, hl =>
      simp only [List.length_cons] at hl
      obtain ⟨hmod, hzero, hle⟩ := ih l (by omega)
      have ha := a.toNat_lt
      have hb := b.toNat_lt
      have hc := c.toNat_lt
      have hd := d.toNat_lt
      simp only [netWords, words32, List.sum_cons]
      unfold Nat.ModEq at hmod ⊢
      cases o with
      | little =>
        simp only [swapFactor] at hmod ⊢
        refine ⟨?_, ?_, ?_⟩ <;> omega
      | big =>
        simp only [swapFactor] at hmod ⊢
        refine ⟨?_, ?_, ?_⟩ <;> omega

/-- The folded sum of the host's words is the one's complement sum of the network's words, as the
host stores it. -/
theorem foldCarries_words32 (o : ByteOrder) {k : Nat} (hl : l.length = 4 * k) (hk : k < 2 ^ 32) :
    (words32 o l).sum < 2 ^ 64 ∧
      foldCarries 64 (words32 o l).sum = htons o (OnesComplement.sum (netWords l)) := by
  obtain ⟨hmod, hzero, hle⟩ := words32_netWords o k l hl
  have hlt : (words32 o l).sum < 2 ^ 64 := by omega
  have hnet : OnesComplement.sum (netWords l) < 2 ^ 16 := sum_lt (netWords_lt l)
  refine ⟨hlt, eq_of_modEq (foldCarries_lt hlt) (htons_lt o _) ?_ ?_⟩
  · have hswap : htons o (OnesComplement.sum (netWords l)) ≡ (words32 o l).sum [MOD 65535] :=
      calc htons o (OnesComplement.sum (netWords l))
          ≡ swapFactor o * OnesComplement.sum (netWords l) [MOD 65535] := htons_modEq hnet
        _ ≡ swapFactor o * (netWords l).sum [MOD 65535] := (sum_modEq _).mul_left _
        _ ≡ swapFactor o * (swapFactor o * (words32 o l).sum) [MOD 65535] := hmod.mul_left _
        _ ≡ (words32 o l).sum [MOD 65535] := swapFactor_sq o _
    exact (folds_modEq (foldCarries_reaches 64 _)).trans hswap.symm
  · rw [folds_eq_zero_iff (foldCarries_reaches 64 _), htons_eq_zero_iff hnet, sum_eq_zero_iff]
    exact hzero.symm

end Words

/-- The sum over a header that holds the complement of its own sum in its empty word. -/
theorem sum_with_checksum (o : ByteOrder) {front back : List UInt8} (hf : front.length = 10)
    (hb : back.length = 8) (hne : (netWords front).sum ≠ 0) :
    OnesComplement.sum (netWords
      (front ++ store16 o (ipChecksum o (front ++ [0, 0] ++ back)) ++ back)) = 2 ^ 16 - 1 := by
  have hwords : ∀ mid : List UInt8, mid.length = 2 →
      (netWords (front ++ mid ++ back)).sum =
        (netWords front).sum + (netWords mid).sum + (netWords back).sum := by
    intro mid hm
    rw [netWords_append _ (by rw [List.length_append, hf, hm]), netWords_append _ (by rw [hf]),
      List.sum_append, List.sum_append]
  have hzero := hwords [0, 0] rfl
  have hlen : (front ++ [0, 0] ++ back).length = 4 * 5 := by
    simp [hf, hb]
  have hnet : OnesComplement.sum (netWords (front ++ [0, 0] ++ back)) < 2 ^ 16 :=
    sum_lt (netWords_lt _)
  obtain ⟨hlt, hsum⟩ := foldCarries_words32 o hlen (by decide)
  have hcheck : netWords (store16 o (ipChecksum o (front ++ [0, 0] ++ back))) =
      [2 ^ 16 - 1 - OnesComplement.sum (netWords (front ++ [0, 0] ++ back))] := by
    have hword := be16_store16 o (ipChecksum o (front ++ [0, 0] ++ back)) []
    rw [List.append_nil, ipChecksum, hsum, htons_compl (htons_lt o _), htons_htons,
      Nat.mod_eq_of_lt hnet] at hword
    rw [ipChecksum, hsum, ← hword]
    cases o <;> rfl
  have htotal := hwords _ (store16_length o (ipChecksum o (front ++ [0, 0] ++ back)))
  rw [hcheck] at htotal
  have hmod := sum_modEq (netWords (front ++ [0, 0] ++ back))
  have hpos : OnesComplement.sum (netWords (front ++ [0, 0] ++ back)) ≠ 0 := by
    rw [ne_eq, sum_eq_zero_iff]
    omega
  refine eq_of_modEq (sum_lt (netWords_lt _)) (by decide) ((sum_modEq _).trans ?_) ?_
  · rw [htotal]
    rw [hzero] at hmod
    simp only [netWords, List.sum_cons, List.sum_nil, UInt8.toNat_zero] at hmod ⊢
    unfold Nat.ModEq at hmod ⊢
    omega
  · rw [sum_eq_zero_iff, htotal]
    omega

/-- Every IPv4 header that is built sums up to all ones, and the loop of `ip_checksum` ends with the
one's complement sum of any header. -/
theorem ipv4_checksum :
    (∀ (o : ByteOrder) (saddr daddr : Ip4) (protocol pktSize ttl : Nat) (tos : Int),
      (netWords (genIpv4Header o saddr daddr protocol pktSize ttl tos)).length = 10 ∧
        OnesComplement.sum (netWords (genIpv4Header o saddr daddr protocol pktSize ttl tos)) =
          0xFFFF) ∧
    ∀ (o : ByteOrder) (header : Fin 20 → UInt8),
      (words32 o (List.ofFn header)).sum < 2 ^ 64 ∧
        Relation.ReflTransGen Fold (words32 o (List.ofFn header)).sum
          (foldCarries 64 (words32 o (List.ofFn header)).sum) ∧
        foldCarries 64 (words32 o (List.ofFn header)).sum < 2 ^ 16 ∧
        foldCarries 64 (words32 o (List.ofFn header)).sum =
          htons o (OnesComplement.sum (netWords (List.ofFn header))) := by
  refine ⟨fun o saddr daddr protocol pktSize ttl tos => ⟨?_, ?_⟩, fun o header => ?_⟩
  · rw [netWords_length]
    simp [genIpv4Header]
  · refine sum_with_checksum o (by simp) (by simp) ?_
    simp only [List.cons_append, netWords, List.sum_cons]
    have hversion : (0x45 : UInt8).toNat = 69 := rfl
    omega
  · obtain ⟨hlt, hsum⟩ := foldCarries_words32 (l := List.ofFn header) o (k := 5) (by simp)
      (by decide)
    exact ⟨hlt, foldCarries_reaches 64 _, foldCarries_lt hlt, hsum⟩

end Perftest
