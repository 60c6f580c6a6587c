import Perftest.SteeringRules

namespace Perftest

open ByteMemory NetBytes

namespace RawEthParameters

variable {p q : RawEthParameters} {o : ByteOrder} {my rem : RawEthernetInfo} {pcp flow k : Nat}
  {f : Nat → UInt8} {r : List UInt8}

/-- The first 64 bytes of a packet are those of its headers. -/
def PacketHolds (p : RawEthParameters) (o : ByteOrder) (my rem : RawEthernetInfo) (pcp flow : Nat)
    (f : Nat → UInt8) : Prop :=
  ∀ x, x < 64 → x < p.linkSize + p.ipSize + p.l4Size →
    f x = byteAt (p.headers o my rem pcp flow) x

theorem byteAt_ofFn {n : Nat} (g : Fin n → UInt8) (h : k < n) :
    byteAt (List.ofFn g ++ r) k = g ⟨k, h⟩ := by
  rw [byteAt_append_left (by simpa using h)]
  simp [byteAt, List.getD_eq_getElem?_getD, h]

theorem byteAt_ofFn_right {n : Nat} (g : Fin n → UInt8) :
    byteAt (List.ofFn g ++ r) (n + k) = byteAt r k := by
  rw [byteAt_append_right (by simp)]
  simp

theorem ipSize_le : p.ipSize ≤ 40 := by
  unfold ipSize
  split
  · split <;> omega
  · omega

theorem PacketHolds.mac (h : p.PacketHolds o my rem pcp flow f) (hk : k < 6) :
    f k = rem.mac ⟨k, hk⟩ := by
  rw [h k (by omega) (by unfold linkSize; omega)]
  simp only [headers, ethHeader, genEthHeader, List.append_assoc]
  exact byteAt_ofFn _ hk

theorem PacketHolds.type (h : p.PacketHolds o my rem pcp flow f) :
    be16 f (p.linkSize - 2) = p.ethType % 2 ^ 16 := by
  rw [← @headers_type p o my rem pcp flow]
  have := vlanTagSize_le (p := p)
  refine be16_congr (h _ ?_ ?_) (h _ ?_ ?_) <;> unfold linkSize <;> omega

theorem PacketHolds.ip (h : p.PacketHolds o my rem pcp flow f) (hk : k < p.ipSize) :
    f (p.linkSize + k) =
      byteAt (p.ipHeader o my rem (p.size - RAWETH_ADDITION - p.vlanTagSize)) k := by
  have hv := vlanTagSize_le (p := p)
  have hi := ipSize_le (p := p)
  rw [h _ (by unfold linkSize; omega) (by omega), headers_ip,
    byteAt_append_left (by rw [ipHeader_length]; exact hk)]

theorem PacketHolds.ipv4_addr (h : p.PacketHolds o my rem pcp flow f) (hi : p.haveIpHeader = true)
    (h4 : p.rawIpv6 = false) (hk : k < 8) :
    f (p.linkSize + 12 + k) = byteAt (List.ofFn my.ip ++ List.ofFn rem.ip) k := by
  rw [Nat.add_assoc, h.ip (by simp [ipSize, hi, h4]; omega)]
  simp only [ipHeader, hi, h4, if_true, Bool.false_eq_true, if_false, genIpv4Header]
  rw [byteAt_append_right (by simp)]
  congr 1
  simp

theorem PacketHolds.ipv4_tos (h : p.PacketHolds o my rem pcp flow f) (hi : p.haveIpHeader = true)
    (h4 : p.rawIpv6 = false) :
    f (p.linkSize + 1) = if p.tos = DEF_TOS then 0 else UInt8.ofNat p.tos.toNat := by
  rw [h.ip (by simp [ipSize, hi, h4])]
  simp only [ipHeader, hi, h4, if_true, Bool.false_eq_true, if_false, genIpv4Header,
    List.append_assoc]
  rfl

theorem PacketHolds.ipv6_addr (h : p.PacketHolds o my rem pcp flow f) (hi : p.haveIpHeader = true)
    (h6 : p.rawIpv6 = true) (hk : k < 32) :
    f (p.linkSize + 8 + k) = byteAt (List.ofFn my.ip6 ++ List.ofFn rem.ip6) k := by
  rw [Nat.add_assoc, h.ip (by simp [ipSize, hi, h6]; omega)]
  simp only [ipHeader, hi, h6, if_true, genIpv6Header, List.append_assoc]
  rw [← List.append_assoc, ← List.append_assoc, byteAt_append_right (by simp)]
  congr 1
  simp

/-- The traffic class and the flow label of a packet are zero. -/
theorem PacketHolds.ipv6_front (h : p.PacketHolds o my rem pcp flow f)
    (hi : p.haveIpHeader = true) (h6 : p.rawIpv6 = true) (hk : k < 4) :
    f (p.linkSize + k) = byteAt [0x60, 0, 0, 0] k := by
  rw [h.ip (by simp [ipSize, hi, h6]; omega)]
  simp only [ipHeader, hi, h6, if_true, genIpv6Header, List.append_assoc]
  exact byteAt_append_left hk

theorem PacketHolds.protocol (h : p.PacketHolds o my rem pcp flow f) (hi : p.haveIpHeader = true)
    (hl : p.isUdpOrTcp = true) : f (p.linkSize + if p.rawIpv6 then 6 else 9) =
      UInt8.ofNat (if p.tcp then TCP_PROTOCOL else UDP_PROTOCOL) := by
  have hn : (if p.tcp then TCP_PROTOCOL else UDP_PROTOCOL) ≠ 0 := by
    split <;> decide
  cases h6 : p.rawIpv6 with
  | true =>
    rw [h.ip (by simp [ipSize, hi, h6])]
    simp only [ipHeader, hi, h6, if_true, genIpv6Header, List.append_assoc, ipNextProtocol, hl,
      hn, ne_eq, not_false_eq_true]
    cases o <;> rfl
  | false =>
    rw [h.ip (by simp [ipSize, hi, h6])]
    simp only [ipHeader, hi, h6, if_true, Bool.false_eq_true, if_false, ipNextProtocol, hl]
    have := @genIpv4Header_protocol o [] my.ip rem.ip
    simp only [List.append_nil] at this
    exact this

theorem PacketHolds.ports (h : p.PacketHolds o my rem pcp flow f)
    (hl : p.isUdpOrTcp = true) (hk : k < 4) :
    f (p.linkSize + p.ipSize + k) =
      byteAt (net16 (my.port + flow) ++ net16 (rem.port + flow)) k := by
  have hv := vlanTagSize_le (p := p)
  have hip := ipSize_le (p := p)
  have hl4 : 8 ≤ p.l4Size := by
    simp only [l4Size, hl, if_true]
    split <;> omega
  rw [h _ (by unfold linkSize; omega) (by omega), Nat.add_assoc, headers_ip,
    byteAt_append_right (by rw [ipHeader_length]; omega), ipHeader_length, Nat.add_sub_cancel_left]
  simp only [l4Header, hl, if_true]
  split
  · simp only [genTcpHeader, store16_htons, List.append_assoc]
    rw [← List.append_assoc]
    exact byteAt_append_left (by simp [net16]; omega)
  · simp only [genUdpHeader, store16_htons, List.append_assoc]
    rw [← List.append_assoc]
    exact byteAt_append_left (by simp [net16]; omega)

theorem and_ff (a : UInt8) : a &&& 0xff = a := UInt8.and_neg_one

theorem byteAt_replicate {n : Nat} {b : UInt8} : byteAt (List.replicate n b) k =
    if k < n then b else 0 := by
  simp only [byteAt, List.getD_eq_getElem?_getD, List.getElem?_replicate]
  split <;> rfl

theorem PacketHolds.matches_eth (h : p.PacketHolds o my rem pcp flow f)
    (hmac : q.sourceMac = rem.mac) : p.MatchesSpec f q.ethSpec := by
  refine ⟨trivial, fun k _ => ?_⟩
  show p.packetFilter f .eth k &&& byteAt (List.replicate 6 0xff) k =
    byteAt (List.ofFn q.sourceMac) k &&& byteAt (List.replicate 6 0xff) k
  rw [byteAt_replicate]
  split
  next hk =>
    have hb := byteAt_ofFn (r := []) q.sourceMac hk
    rw [List.append_nil] at hb
    rw [and_ff, and_ff, hb, hmac, ← h.mac hk, packetFilter, if_pos (by omega)]
  next => simp

theorem PacketHolds.type_bytes (h : p.PacketHolds o my rem pcp flow f) :
    f (p.linkSize - 2) = UInt8.ofNat (p.ethType / 256) ∧
      f (p.linkSize - 2 + 1) = UInt8.ofNat p.ethType := by
  have ht := h.type
  have h0 := (f (p.linkSize - 2)).toNat_lt
  have h1 := (f (p.linkSize - 2 + 1)).toNat_lt
  rw [be16] at ht
  rw [← UInt8.toNat_inj, ← UInt8.toNat_inj, UInt8.toNat_ofNat', UInt8.toNat_ofNat']
  omega

/-- The type that was stored in the Ethernet specification is that of the packet. -/
theorem PacketHolds.matches_eth_type (h : p.PacketHolds o my rem pcp flow f)
    (hmac : q.sourceMac = rem.mac) (he : q.isEthertype = p.isEthertype)
    (hty : q.ethertype = p.ethertype) : p.MatchesSpec f (q.storeEtherType q.ethSpec) := by
  have hm := h.matches_eth hmac
  cases het : q.isEthertype with
  | true =>
    have hp : p.ethType = q.ethertype := by
      rw [ethType, if_pos (he ▸ het), hty]
    refine ⟨by rw [storeEtherType_type]; exact trivial, fun k hk => ?_⟩
    rw [storeEtherType_type] at hk ⊢
    have hk : k < 16 := hk
    obtain ⟨h0, h1⟩ := h.type_bytes
    by_cases hk' : k = 12 ∨ k = 13
    · rcases hk' with rfl | rfl
      · rw [storeEtherType_val, storeEtherType_mask]
        simp [het, ethSpec, FlowSpecType.valAt, FlowSpecType.maskAt, FlowSpecType.filterSize,
          packetFilter, and_ff, h0, hp]
      · rw [storeEtherType_val, storeEtherType_mask]
        simp [het, ethSpec, FlowSpecType.valAt, FlowSpecType.maskAt, FlowSpecType.filterSize,
          packetFilter, and_ff, h1, hp]
    · rw [storeEtherType_val_of_ne, storeEtherType_mask_of_ne]
      · exact hm.2 k hk
      · simp only [ethSpec, FlowSpecType.maskAt, FlowSpecType.valAt, FlowSpecType.filterSize]
        omega
      · simp only [ethSpec, FlowSpecType.valAt]
        omega
  | false =>
    rw [storeEtherType, if_neg (by simp [het])]
    exact hm

theorem PacketHolds.matches_ipv4 {e : Bool} {a c : Nat}
    (h : p.PacketHolds o my rem pcp flow f) (hi : p.haveIpHeader = true) (h4 : p.rawIpv6 = false)
    (hq : q.rawIpv6 = false) (hs : q.machine = .server) (he : p.isEthertype = false)
    (hc : q.clientIp = my.ip) (hd : q.serverIp = rem.ip) (ht : q.tos = p.tos) :
    p.MatchesSpec f (q.fillIpSpec e a c) := by
  have hhas : be16 f (p.linkSize - 2) = IP_ETHER_TYPE := by
    rw [h.type]
    simp [ethType, he, hi, h4, IP_ETHER_TYPE]
  have haddr : ∀ k, k < 8 → ∀ r, byteAt (q.ipv4Val r) k = f (p.linkSize + 12 + k) := by
    intro k hk r
    rw [h.ipv4_addr hi h4 hk, ipv4Val, hc, hd, byteAt_append_left (by simp; omega)]
  have htos : e = true → ∀ k, k < 4 →
      byteAt [f (p.linkSize + 9), f (p.linkSize + 1), f (p.linkSize + 8),
        f (p.linkSize + 6) >>> 5] k &&& byteAt (q.ipv4Mask true) (8 + k) =
      byteAt (q.ipv4Val true) (8 + k) &&& byteAt (q.ipv4Mask true) (8 + k) := by
    intro _ k hk
    have ht' := h.ipv4_tos hi h4
    rw [← ht] at ht'
    rw [ipv4Mask, ipv4Val, byteAt_append_right (by simp), byteAt_append_right (by simp)]
    interval_cases k <;> simp [byteAt, ht']
  have hval : ∀ k, k < 8 → ∀ r, p.packetFilter f (q.ipSpecType r) k = byteAt (q.ipv4Val r) k := by
    intro k hk r
    rw [haddr k hk]
    cases r <;> simp [ipSpecType, hq, packetFilter, hk]
  refine ⟨?_, fun k hk => ?_⟩
  · cases e <;> simpa [fillIpSpec, ipSpecType, hq, HasHeader] using hhas
  · simp only [fillIpSpec, hs, hq, if_true, Bool.false_eq_true, if_false, filterBytes] at hk ⊢
    by_cases hk8 : k < 8
    · rw [hval k hk8]
    · cases e with
      | false =>
        simp only [ipSpecType, hq, Bool.false_eq_true, if_false, FlowSpecType.filterSize] at hk
        omega
      | true =>
        simp only [ipSpecType, hq, if_true, Bool.false_eq_true, if_false,
          FlowSpecType.filterSize] at hk ⊢
        obtain ⟨m, rfl⟩ := Nat.exists_eq_add_of_le (Nat.le_of_not_lt hk8)
        rw [← htos rfl m (by omega)]
        simp [packetFilter]

theorem ipv6Mask_addr {c : Nat} (hk : k < 32) : byteAt (q.ipv6Mask c) k = 0xff := by
  rw [ipv6Mask, List.append_assoc, byteAt_append_left (by simpa using hk), byteAt_replicate,
    if_pos hk]

/-- The bytes of the mask behind the addresses. -/
theorem ipv6Mask_tail {c : Nat} : byteAt (q.ipv6Mask c) (32 + k) =
    byteAt ((if (q.nextFlowLabel c).isSome then [0, 0x0f, 0xff, 0xff] else [0, 0, 0, 0]) ++
      [0, if q.tos ≠ DEF_TOS then 0xff else 0, 0, 0]) k := by
  rw [ipv6Mask, List.append_assoc, byteAt_append_right (by simp)]
  cases q.nextFlowLabel c <;> simp

/-- The fields of a packet behind the addresses are zero where a mask looks at them. -/
theorem PacketHolds.ipv6_tail {c : Nat} (h : p.PacketHolds o my rem pcp flow f)
    (hi : p.haveIpHeader = true) (h6 : p.rawIpv6 = true) (hk : k < 8) :
    p.packetFilter f .ipv6 (32 + k) &&& byteAt (q.ipv6Mask c) (32 + k) = 0 := by
  have h0 := h.ipv6_front hi h6 (k := 0) (by omega)
  have h1 := h.ipv6_front hi h6 (k := 1) (by omega)
  have h2 := h.ipv6_front hi h6 (k := 2) (by omega)
  have h3 := h.ipv6_front hi h6 (k := 3) (by omega)
  simp only [byteAt, Nat.add_zero, List.getD_cons_zero, List.getD_cons_succ] at h0 h1 h2 h3
  rw [ipv6Mask_tail, packetFilter, if_neg (by omega), Nat.add_sub_cancel_left, h0, h1, h2, h3]
  have h4 : (0x60 : UInt8) <<< 4 = 0 := rfl
  interval_cases k <;> split <;> simp [byteAt, h4]

/-- A specification with the masks of the server's IPv6 specification matches when its addresses
are those of the packet, and what else it asks for is zero. -/
theorem PacketHolds.matches_ipv6_iff {c : Nat} {s : FlowSpec}
    (h : p.PacketHolds o my rem pcp flow f) (hi : p.haveIpHeader = true) (h6 : p.rawIpv6 = true)
    (hty : s.type = .ipv6) (hm : s.mask = filterBytes (q.ipv6Mask c)) :
    p.MatchesSpec f s ↔ p.ethType % 2 ^ 16 = IP6_ETHER_TYPE ∧
      (∀ k, k < 32 → s.val k = byteAt (List.ofFn my.ip6 ++ List.ofFn rem.ip6) k) ∧
      ∀ k, k < 8 → s.val (32 + k) &&& byteAt (q.ipv6Mask c) (32 + k) = 0 := by
  have hfront : ∀ k, k < 32 → p.packetFilter f .ipv6 k =
      byteAt (List.ofFn my.ip6 ++ List.ofFn rem.ip6) k := by
    intro k hk
    rw [packetFilter, if_pos hk, h.ipv6_addr hi h6 hk]
  unfold MatchesSpec
  rw [hty, hm]
  constructor
  · rintro ⟨hh, hk⟩
    refine ⟨by rw [← h.type]; exact hh, fun k hk32 => ?_, fun k hk8 => ?_⟩
    · have := hk k (by simp only [FlowSpecType.filterSize]; omega)
      rwa [filterBytes, ipv6Mask_addr hk32, and_ff, and_ff, hfront k hk32, eq_comm] at this
    · have := hk (32 + k) (by simp only [FlowSpecType.filterSize]; omega)
      rw [filterBytes, h.ipv6_tail hi h6 hk8] at this
      exact this.symm
  · rintro ⟨hh, ha, ht⟩
    refine ⟨by rw [HasHeader, h.type]; exact hh, fun k hk => ?_⟩
    simp only [FlowSpecType.filterSize] at hk
    by_cases hk32 : k < 32
    · rw [hfront k hk32, ha k hk32]
    · obtain ⟨m, rfl⟩ := Nat.exists_eq_add_of_le (Nat.le_of_not_lt hk32)
      rw [filterBytes, h.ipv6_tail hi h6 (by omega), ht m (by omega)]

theorem ofNat_eq_zero_iff (v : Nat) : UInt8.ofNat v = 0 ↔ v % 256 = 0 := by
  rw [← UInt8.toNat_inj, UInt8.toNat_ofNat']
  simp

theorem ofNat_and_15_iff (v : Nat) : UInt8.ofNat v &&& 0x0f = 0 ↔ v % 16 = 0 := by
  rw [← UInt8.toNat_inj, UInt8.toNat_and, UInt8.toNat_ofNat',
    show (0x0f : UInt8).toNat = 2 ^ 4 - 1 from rfl, Nat.and_two_pow_sub_one_eq_mod]
  show v % 256 % 16 = 0 ↔ _
  omega

theorem ipv6Val_tail {c : Nat} : byteAt (q.ipv6Val c) (32 + k) =
    byteAt ((match q.nextFlowLabel c with
        | some label => net16 (label / 2 ^ 16) ++ net16 label
        | none => [0, 0, 0, 0]) ++
      [0, if q.tos ≠ DEF_TOS then UInt8.ofNat q.tos.toNat else 0, 0, 0]) k := by
  rw [ipv6Val, List.append_assoc, byteAt_append_right (by simp)]
  cases q.nextFlowLabel c <;> simp

/-- What the server's IPv6 specification asks for behind the addresses is zero just when the
traffic class and the label are. -/
theorem ipv6Val_tail_iff {c : Nat} :
    (∀ k, k < 8 → byteAt (q.ipv6Val c) (32 + k) &&& byteAt (q.ipv6Mask c) (32 + k) = 0) ↔
      (q.tos ≠ DEF_TOS → q.tos.toNat % 256 = 0) ∧
      ∀ label, q.nextFlowLabel c = some label → label % 2 ^ 20 = 0 := by
  have htos : (byteAt (q.ipv6Val c) (32 + 5) &&& byteAt (q.ipv6Mask c) (32 + 5) = 0) ↔
      (q.tos ≠ DEF_TOS → q.tos.toNat % 256 = 0) := by
    rw [ipv6Val_tail, ipv6Mask_tail]
    by_cases ht : q.tos = DEF_TOS
    · cases q.nextFlowLabel c <;> simp [ht, byteAt, net16]
    · cases q.nextFlowLabel c <;> simp [ht, byteAt, net16, and_ff, ofNat_eq_zero_iff]
  have hlabel : (∀ k, k < 4 → byteAt (q.ipv6Val c) (32 + k) &&&
      byteAt (q.ipv6Mask c) (32 + k) = 0) ↔
      ∀ label, q.nextFlowLabel c = some label → label % 2 ^ 20 = 0 := by
    simp only [ipv6Val_tail, ipv6Mask_tail]
    cases q.nextFlowLabel c with
    | none =>
      constructor
      · intro _ label hl
        cases hl
      · intro _ k hk
        interval_cases k <;> simp [byteAt]
    | some v =>
      have h1 := ofNat_and_15_iff (v / 2 ^ 16)
      have h2 := ofNat_eq_zero_iff (v / 256)
      have h3 := ofNat_eq_zero_iff v
      constructor
      · rintro h label ⟨⟩
        have e1 := h 1 (by omega)
        have e2 := h 2 (by omega)
        have e3 := h 3 (by omega)
        simp [byteAt, net16, and_ff] at e1 e2 e3 h1
        rw [h1] at e1
        rw [h2] at e2
        rw [h3] at e3
        omega
      · intro h k hk
        have hv := h v rfl
        interval_cases k
        · simp [byteAt]
        · simp [byteAt, net16] at h1 ⊢
          exact h1.2 (by omega)
        · simp [byteAt, net16, and_ff]
          exact h2.2 (by omega)
        · simp [byteAt, net16, and_ff]
          exact h3.2 (by omega)
  constructor
  · intro h
    exact ⟨htos.1 (h 5 (by omega)), hlabel.1 fun k hk => h k (by omega)⟩
  · rintro ⟨ht, hl⟩ k hk
    by_cases h4 : k < 4
    · exact hlabel.2 hl k h4
    · by_cases h5 : k = 5
      · rw [h5]
        exact htos.2 ht
      · rw [ipv6Val_tail, ipv6Mask_tail]
        have hz : byteAt ((if (q.nextFlowLabel c).isSome then [0, 0x0f, 0xff, 0xff]
            else [0, 0, 0, 0]) ++ [0, if q.tos ≠ DEF_TOS then 0xff else 0, 0, 0]) k = 0 := by
          interval_cases k
          all_goals first | omega | (split <;> simp [byteAt])
        rw [hz]
        simp

/-- The ports of the server's specification are those of the packet. -/
theorem PacketHolds.matches_ports_iff {a lp rp : Nat} (h : p.PacketHolds o my rem pcp flow f)
    (hi : p.haveIpHeader = true) (hl : p.isUdpOrTcp = true) (ht : q.tcp = p.tcp)
    (hs : q.machine = .server) :
    p.MatchesSpec f (q.tcpUdpSpec a lp rp) ↔
      lp % 2 ^ 16 = (rem.port + flow) % 2 ^ 16 ∧ rp % 2 ^ 16 = (my.port + flow) % 2 ^ 16 := by
  have hhas : p.HasHeader f (q.tcpUdpSpec a lp rp).type := by
    have hp := h.protocol hi hl
    cases htcp : p.tcp <;>
      simp only [tcpUdpSpec, ht, htcp, if_true, Bool.false_eq_true, if_false, HasHeader] at hp ⊢ <;>
      rw [hp] <;> rfl
  have hsize : (q.tcpUdpSpec a lp rp).type.filterSize = 4 := by
    cases htcp : q.tcp <;> simp [tcpUdpSpec, htcp, FlowSpecType.filterSize]
  have hfil : ∀ k, k < 4 → p.packetFilter f (q.tcpUdpSpec a lp rp).type k =
      byteAt (net16 (rem.port + flow) ++ net16 (my.port + flow)) k := by
    intro k hk
    have h0 := h.ports hl (k := if k < 2 then 2 + k else k - 2) (by split <;> omega)
    have heq : p.packetFilter f (q.tcpUdpSpec a lp rp).type k =
        f (p.linkSize + p.ipSize + if k < 2 then 2 + k else k - 2) := by
      cases htcp : q.tcp <;> simp [tcpUdpSpec, htcp, packetFilter]
    rw [heq, h0]
    interval_cases k <;> rfl
  have hmask : ∀ k, k < 4 → (q.tcpUdpSpec a lp rp).mask k = 0xff := by
    intro k hk
    show byteAt (List.replicate 4 0xff) k = 0xff
    rw [byteAt_replicate, if_pos hk]
  have hval : (q.tcpUdpSpec a lp rp).val = byteAt (net16 lp ++ net16 rp) := by
    simp only [tcpUdpSpec, hs, if_true, filterBytes]
  have hiff : p.MatchesSpec f (q.tcpUdpSpec a lp rp) ↔ ∀ k, k < 4 →
      byteAt (net16 (rem.port + flow) ++ net16 (my.port + flow)) k =
        byteAt (net16 lp ++ net16 rp) k := by
    unfold MatchesSpec
    rw [hsize]
    refine ⟨fun hm k hk => ?_, fun hm => ⟨hhas, fun k hk => ?_⟩⟩
    · have := hm.2 k hk
      rwa [hmask k hk, and_ff, and_ff, hfil k hk, hval] at this
    · rw [hfil k hk, hm k hk, hval]
  rw [hiff]
  constructor
  · intro hk
    have h0 := be16_congr (hk 0 (by omega)) (hk 1 (by omega))
    have h2 := be16_congr (hk 2 (by omega)) (hk 3 (by omega))
    have hlast : ∀ v w, be16 (byteAt (net16 v ++ net16 w)) 2 = w % 2 ^ 16 := by
      intro v w
      have := be16_net16 w []
      rw [List.append_nil] at this
      rw [be16_append_right (by simp [net16])]
      exact this
    rw [be16_net16, be16_net16] at h0
    rw [hlast, hlast] at h2
    exact ⟨h0.symm, h2.symm⟩
  · rintro ⟨hd, hs⟩
    have hn : ∀ v w, v % 2 ^ 16 = w % 2 ^ 16 → net16 v = net16 w := by
      intro v w hvw
      simp only [net16, List.cons.injEq, and_true, ← UInt8.toNat_inj, UInt8.toNat_ofNat']
      omega
    intro k _
    rw [hn _ _ hd, hn _ _ hs]

end RawEthParameters

end Perftest
