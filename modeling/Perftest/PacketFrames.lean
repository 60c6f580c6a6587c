import Perftest.RawPacket

namespace Perftest

open ByteMemory NetBytes

namespace RawEthParameters

variable (p : RawEthParameters)

def linkSize : Nat := 14 + p.vlanTagSize

def ipSize : Nat := if p.haveIpHeader then if p.rawIpv6 then 40 else 20 else 0

def l4Size : Nat := if p.isUdpOrTcp then if p.tcp then 20 else 8 else 0

/-- The length of the frame that is sent, without the CRC. -/
def frameSize : Nat := p.size - HW_CRC_ADDITION

/-- What the parser, `force_dependecies` and the check against the MTU let through. -/
structure Accepted : Prop where
  size_ge : RAWETH_MIN_MSG_SIZE ≤ p.size
  size_le : p.size ≤ MAX_MTU_RAW_ETERNET
  ports : p.isServerPort = p.isClientPort
  ips : p.isServerPort = true → p.isServerIp = true ∧ p.isClientIp = true
  tcp_ports : p.tcp = true → p.isServerPort = true
  ethertype_lt : p.ethertype < 2 ^ 16
  flows_pos : 0 < p.flows
  flows_lt : p.flows < 2 ^ 16
  flows_ports : p.flows ≠ 1 → p.isServerPort = true

/-- The types of the headers that this program can put behind the link header. -/
def NamesHeader (ty : Nat) : Prop := ty = IP_ETHER_TYPE ∨ ty = IP6_ETHER_TYPE ∨ ty = VLAN_TPID

/-- Without an IP header the type field is the length of what follows, or from 0x600 on the type
that was given for it. -/
def PayloadType (ty : Nat) : Prop :=
  if ty < 0x600 then ty = p.frameSize - p.linkSize
  else p.isEthertype = true ∧ ¬ NamesHeader ty

/-- A frame is consistent: the fields in network order describe the headers that are there and their
lengths. -/
structure FrameOk (f : Nat → UInt8) : Prop where
  tagged : p.vlanEn = true → be16 f 12 = VLAN_TPID
  ip_type : p.haveIpHeader = true →
    be16 f (p.linkSize - 2) = if p.rawIpv6 then IP6_ETHER_TYPE else IP_ETHER_TYPE
  payload_type : p.haveIpHeader = false → p.PayloadType (be16 f (p.linkSize - 2))
  ipv4_length : p.haveIpHeader = true → p.rawIpv6 = false →
    be16 f (p.linkSize + 2) = p.frameSize - p.linkSize
  ipv6_length : p.haveIpHeader = true → p.rawIpv6 = true →
    be16 f (p.linkSize + 4) + 40 = p.frameSize - p.linkSize
  udp_length : p.isUdpOrTcp = true → p.tcp = false →
    be16 f (p.linkSize + p.ipSize + 4) =
      if p.rawIpv6 then be16 f (p.linkSize + 4) else be16 f (p.linkSize + 2) - 20
  protocol : p.isUdpOrTcp = true →
    (f (p.linkSize + if p.rawIpv6 then 6 else 9)).toNat =
      if p.tcp then TCP_PROTOCOL else UDP_PROTOCOL
  fits : p.linkSize + p.ipSize + p.l4Size ≤ p.frameSize

/-- The options whose packets are consistent. -/
def Consistent : Prop :=
  ¬ (p.haveIpHeader = true ∧ p.rawIpv6 = true ∧ p.isUdpOrTcp = true) ∧
    (p.isEthertype = false → p.haveIpHeader = false →
      p.size - RAWETH_ADDITION - p.vlanTagSize < 0x600) ∧
    (p.isEthertype = true → p.haveIpHeader = true →
      p.ethertype = if p.rawIpv6 then IP6_ETHER_TYPE else IP_ETHER_TYPE) ∧
    (p.isEthertype = true → p.haveIpHeader = false →
      if p.ethertype < 0x600 then p.ethertype = p.size - RAWETH_ADDITION - p.vlanTagSize
      else ¬ NamesHeader p.ethertype)

variable {p} {o : ByteOrder} {my rem : RawEthernetInfo} {pcp flow : Nat} {f g : Nat → UInt8}

theorem vlanTagSize_le : p.vlanTagSize ≤ 4 := by
  unfold vlanTagSize
  split <;> omega

theorem Accepted.ip_of_l4 (h : p.Accepted) (hl : p.isUdpOrTcp = true) : p.haveIpHeader = true := by
  simp only [isUdpOrTcp, Bool.and_eq_true] at hl
  simp [haveIpHeader, (h.ips hl.2).1]

/-- A frame is judged by the first 64 bytes of its headers. -/
theorem FrameOk.congr (ha : p.Accepted) (h : p.FrameOk f)
    (hfg : ∀ x, x < 64 → x < p.linkSize + p.ipSize + p.l4Size → f x = g x) : p.FrameOk g := by
  have hv : p.vlanTagSize ≤ 4 := vlanTagSize_le
  have hb : ∀ k, k + 1 < 64 → k + 1 < p.linkSize + p.ipSize + p.l4Size → be16 f k = be16 g k := by
    intro k h1 h2
    exact be16_congr (hfg k (by omega) (by omega)) (hfg (k + 1) h1 h2)
  have htype : be16 f (p.linkSize - 2) = be16 g (p.linkSize - 2) := by
    refine hb _ ?_ ?_ <;> unfold linkSize <;> omega
  refine ⟨fun ht => ?_, fun hi => ?_, fun hi => ?_, fun hi h4 => ?_, fun hi h6 => ?_,
    fun hl ht => ?_, fun hl => ?_, h.fits⟩
  · rw [← hb 12 (by omega) (by unfold linkSize; omega)]
    exact h.tagged ht
  · rw [← htype]
    exact h.ip_type hi
  · rw [← htype]
    exact h.payload_type hi
  · rw [← hb _ (by unfold linkSize; omega) (by simp only [ipSize, hi, h4]; simp; omega)]
    exact h.ipv4_length hi h4
  · rw [← hb _ (by unfold linkSize; omega) (by simp only [ipSize, hi, h6]; simp; omega)]
    exact h.ipv6_length hi h6
  · have hi := ha.ip_of_l4 hl
    have h0 := h.udp_length hl ht
    have hip : p.ipSize = if p.rawIpv6 then 40 else 20 := by simp [ipSize, hi]
    have hl4 : p.l4Size = 8 := by simp [l4Size, hl, ht]
    rw [hb _ (by unfold linkSize; rw [hip]; split <;> omega) (by omega)] at h0
    rw [h0]
    cases h6 : p.rawIpv6 with
    | true =>
      simp only [h6, if_true] at hip ⊢
      exact hb _ (by unfold linkSize; omega) (by omega)
    | false =>
      simp only [h6, Bool.false_eq_true, if_false] at hip ⊢
      rw [hb _ (by unfold linkSize; omega) (by omega)]
  · have hi := ha.ip_of_l4 hl
    have hip : p.ipSize = if p.rawIpv6 then 40 else 20 := by simp [ipSize, hi]
    rw [← hfg _ (by unfold linkSize; split <;> omega) (by rw [hip]; split <;> omega)]
    exact h.protocol hl

section Fields

variable {r : List UInt8}

@[simp] theorem genEthHeader_length {s d : Mac} {ty : Nat} {v : Option Nat} :
    (genEthHeader o s d ty v).length = if v.isSome then 18 else 14 := by
  cases v <;> simp [genEthHeader, net16]

theorem genEthHeader_type {s d : Mac} {ty : Nat} {v : Option Nat} :
    be16 (byteAt (genEthHeader o s d ty v ++ r)) (if v.isSome then 16 else 12) = ty % 2 ^ 16 := by
  unfold genEthHeader
  rw [store16_htons, List.append_assoc, be16_append_right (by cases v <;> simp [net16])]
  cases v <;> simpa [net16] using be16_net16 ty r

theorem genEthHeader_tag {s d : Mac} {ty pcp : Nat} :
    be16 (byteAt (genEthHeader o s d ty (some pcp) ++ r)) 12 = VLAN_TPID := by
  unfold genEthHeader
  rw [List.append_assoc, List.append_assoc, be16_append_right (by simp)]
  simp only [List.length_append, List.length_ofFn, Nat.sub_self, List.append_assoc]
  exact be16_net16 _ _

@[simp] theorem genIpv4Header_length {s d : Ip4} {pr sz ttl : Nat} {tos : Int} :
    (genIpv4Header o s d pr sz ttl tos).length = 20 := by
  simp [genIpv4Header]

theorem genIpv4Header_length_field {s d : Ip4} {pr sz ttl : Nat} {tos : Int} :
    be16 (byteAt (genIpv4Header o s d pr sz ttl tos ++ r)) 2 = sz % 2 ^ 16 := by
  simp only [genIpv4Header, store16_htons, List.append_assoc]
  rw [be16_append_right (by simp)]
  exact be16_net16 _ _

theorem genIpv4Header_protocol {s d : Ip4} {pr sz ttl : Nat} {tos : Int} :
    byteAt (genIpv4Header o s d pr sz ttl tos ++ r) 9 = UInt8.ofNat pr := by
  simp only [genIpv4Header, store16_htons, net16, List.append_assoc]
  rfl

@[simp] theorem genIpv6Header_length {s d : Ip6} {pr sz hop : Nat} {l4 tcp : Bool} :
    (genIpv6Header o s d pr sz hop l4 tcp).length = 40 := by
  simp [genIpv6Header]

theorem genIpv6Header_length_field {s d : Ip6} {pr sz hop : Nat} {l4 tcp : Bool} :
    be16 (byteAt (genIpv6Header o s d pr sz hop l4 tcp ++ r)) 4 =
      htons o (if l4 then (htons o (sz + 2 ^ 16 - 40) + 2 ^ 16 - if tcp then 20 else 8) % 2 ^ 16
        else htons o (sz + 2 ^ 16 - 40)) := by
  simp only [genIpv6Header, List.append_assoc]
  rw [be16_append_right (by simp)]
  exact be16_store16 _ _ _

@[simp] theorem genUdpHeader_length {s d sz : Nat} : (genUdpHeader o s d sz).length = 8 := by
  simp [genUdpHeader]

@[simp] theorem genTcpHeader_length {s d : Nat} : (genTcpHeader o s d).length = 20 := by
  simp [genTcpHeader]

theorem genUdpHeader_length_field {s d sz : Nat} :
    be16 (byteAt (genUdpHeader o s d sz ++ r)) 4 = (sz + 2 ^ 16 - 20) % 2 ^ 16 := by
  simp only [genUdpHeader, store16_htons, List.append_assoc]
  rw [← List.append_assoc, be16_append_right (by simp [net16])]
  exact be16_net16 _ _

end Fields

section Headers

theorem ethHeader_length : (p.ethHeader o my rem pcp).length = p.linkSize := by
  cases hv : p.vlanEn <;> simp [ethHeader, hv, linkSize, vlanTagSize]

theorem ipHeader_length {sz : Nat} : (p.ipHeader o my rem sz).length = p.ipSize := by
  unfold ipHeader ipSize
  split
  · split <;> simp
  · rfl

theorem l4Header_length {sz : Nat} : (p.l4Header o my rem sz flow).length = p.l4Size := by
  unfold l4Header l4Size
  split
  · split <;> simp
  · rfl

theorem headers_length :
    (p.headers o my rem pcp flow).length = p.linkSize + p.ipSize + p.l4Size := by
  simp only [headers, List.length_append, ethHeader_length, ipHeader_length, l4Header_length]

theorem headers_type :
    be16 (byteAt (p.headers o my rem pcp flow)) (p.linkSize - 2) = p.ethType % 2 ^ 16 := by
  have h := fun r => @genEthHeader_type o r my.mac rem.mac p.ethType
    (if p.vlanEn then some pcp else none)
  have ht : p.linkSize - 2 = if (if p.vlanEn then some pcp else none).isSome then 16 else 12 := by
    cases hv : p.vlanEn <;> simp [linkSize, vlanTagSize, hv]
  unfold headers ethHeader
  rw [List.append_assoc, ht]
  exact h _

theorem headers_tag (hv : p.vlanEn = true) :
    be16 (byteAt (p.headers o my rem pcp flow)) 12 = VLAN_TPID := by
  unfold headers ethHeader
  rw [List.append_assoc, hv]
  exact genEthHeader_tag

/-- What stands behind the link header. -/
theorem headers_ip {k : Nat} : byteAt (p.headers o my rem pcp flow) (p.linkSize + k) =
    byteAt (p.ipHeader o my rem (p.size - RAWETH_ADDITION - p.vlanTagSize) ++
      p.l4Header o my rem (p.size - RAWETH_ADDITION - p.vlanTagSize) flow) k := by
  unfold headers
  rw [List.append_assoc, byteAt_append_right (by rw [ethHeader_length]; omega), ethHeader_length,
    Nat.add_sub_cancel_left]

theorem headers_ip16 {k : Nat} : be16 (byteAt (p.headers o my rem pcp flow)) (p.linkSize + k) =
    be16 (byteAt (p.ipHeader o my rem (p.size - RAWETH_ADDITION - p.vlanTagSize) ++
      p.l4Header o my rem (p.size - RAWETH_ADDITION - p.vlanTagSize) flow)) k := by
  rw [be16, be16, headers_ip, Nat.add_assoc, headers_ip]

theorem headers_l4 {k : Nat} :
    be16 (byteAt (p.headers o my rem pcp flow)) (p.linkSize + p.ipSize + k) =
      be16 (byteAt (p.l4Header o my rem (p.size - RAWETH_ADDITION - p.vlanTagSize) flow)) k := by
  rw [Nat.add_assoc, headers_ip16, be16_append_right (by rw [ipHeader_length]; omega),
    ipHeader_length, Nat.add_sub_cancel_left]

/-- The sizes of an accepted packet behind the link header. -/
theorem Accepted.sizes (ha : p.Accepted) : p.frameSize - p.linkSize =
      p.size - RAWETH_ADDITION - p.vlanTagSize ∧
    42 ≤ p.size - RAWETH_ADDITION - p.vlanTagSize ∧
    p.size - RAWETH_ADDITION - p.vlanTagSize < 2 ^ 16 ∧
    p.frameSize = p.linkSize + (p.size - RAWETH_ADDITION - p.vlanTagSize) := by
  have h1 := ha.size_ge
  have h2 := ha.size_le
  have := vlanTagSize_le (p := p)
  simp only [RAWETH_MIN_MSG_SIZE, MAX_MTU_RAW_ETERNET] at h1 h2
  simp only [frameSize, linkSize, RAWETH_ADDITION, HW_CRC_ADDITION]
  omega

theorem htons_mod (o : ByteOrder) (v : Nat) : htons o (v % 2 ^ 16) = htons o v := by
  cases o <;> simp only [htons] <;> omega

theorem htons_lt (o : ByteOrder) (v : Nat) : htons o v < 2 ^ 16 := by
  cases o <;> simp only [htons] <;> omega

/-- Taking a header's length off the swapped value never leaves the length that belongs there. -/
theorem htons_sub_ne {v d : Nat} (hd : 0 < d) (hd' : d < 2 ^ 16) :
    htons o ((htons o v + 2 ^ 16 - d) % 2 ^ 16) ≠ v := by
  intro h
  have hs := congrArg (htons o) h
  rw [htons_htons, Nat.mod_mod] at hs
  have hlt := htons_lt o v
  generalize htons o v = x at *
  omega

theorem Accepted.not_ipv6_l4 (ha : p.Accepted)
    (h : p.FrameOk (byteAt (p.headers o my rem pcp flow))) :
    ¬ (p.haveIpHeader = true ∧ p.rawIpv6 = true ∧ p.isUdpOrTcp = true) := by
  rintro ⟨hi, h6, hl⟩
  obtain ⟨h1, h2, h3, -⟩ := ha.sizes
  have hlen := h.ipv6_length hi h6
  rw [headers_ip16, h1] at hlen
  generalize p.size - RAWETH_ADDITION - p.vlanTagSize = sz at *
  simp only [ipHeader, hi, h6, hl, if_true, genIpv6Header_length_field] at hlen
  have hm : htons o (sz + 2 ^ 16 - 40) = htons o (sz - 40) := by
    rw [← htons_mod, show (sz + 2 ^ 16 - 40) % 2 ^ 16 = sz - 40 by omega]
  rw [hm] at hlen
  cases ht : p.tcp with
  | true =>
    simp only [ht, if_true] at hlen
    exact htons_sub_ne (o := o) (v := sz - 40) (d := 20) (by omega) (by omega) (by omega)
  | false =>
    simp only [ht, Bool.false_eq_true, if_false] at hlen
    exact htons_sub_ne (o := o) (v := sz - 40) (d := 8) (by omega) (by omega) (by omega)

/-- The type field of a packet without an IP header is right just when `Consistent` says so. -/
theorem Accepted.payloadType_iff (ha : p.Accepted) (hi : p.haveIpHeader = false) :
    p.PayloadType (p.ethType % 2 ^ 16) ↔ if p.isEthertype then
      if p.ethertype < 0x600 then p.ethertype = p.size - RAWETH_ADDITION - p.vlanTagSize
      else ¬ NamesHeader p.ethertype
    else p.size - RAWETH_ADDITION - p.vlanTagSize < 0x600 := by
  obtain ⟨h1, h2, h3, -⟩ := ha.sizes
  have het := Nat.mod_eq_of_lt ha.ethertype_lt
  unfold PayloadType
  rw [h1]
  generalize hz : p.size - RAWETH_ADDITION - p.vlanTagSize = z at *
  cases he : p.isEthertype with
  | true => simp only [ethType, he, het, if_true, true_and]
  | false =>
    have hm : p.ethType % 2 ^ 16 = z := by
      simp only [ethType, he, hi, Bool.false_eq_true, if_false, hz]
      omega
    simp only [hm, Bool.false_eq_true, if_false, false_and]
    split
    next hlt => simp [hlt]
    next hlt => simp [hlt]

theorem Accepted.consistent (ha : p.Accepted)
    (h : p.FrameOk (byteAt (p.headers o my rem pcp flow))) : p.Consistent := by
  have het := Nat.mod_eq_of_lt ha.ethertype_lt
  have hpay : p.haveIpHeader = false → p.PayloadType (p.ethType % 2 ^ 16) := by
    intro hi
    have := h.payload_type hi
    rwa [headers_type] at this
  refine ⟨ha.not_ipv6_l4 h, fun he hi => ?_, fun he hi => ?_, fun he hi => ?_⟩
  · simpa [he] using (ha.payloadType_iff hi).1 (hpay hi)
  · have hty := h.ip_type hi
    rwa [headers_type, ethType, if_pos he, het] at hty
  · simpa only [he, if_true] using (ha.payloadType_iff hi).1 (hpay hi)

theorem Accepted.headers_fit (ha : p.Accepted) (hc : p.Consistent) :
    p.linkSize + p.ipSize + p.l4Size ≤ p.frameSize := by
  obtain ⟨-, h2, -, h4⟩ := ha.sizes
  have hsum : p.ipSize + p.l4Size ≤ 40 := by
    cases hl : p.isUdpOrTcp with
    | true =>
      have hi := ha.ip_of_l4 hl
      have h6 : p.rawIpv6 = false := by
        cases h6 : p.rawIpv6 with
        | true => exact absurd ⟨hi, h6, hl⟩ hc.1
        | false => rfl
      simp only [ipSize, l4Size, hi, hl, h6, if_true, Bool.false_eq_true, if_false]
      split <;> omega
    | false =>
      simp only [ipSize, l4Size, hl, Bool.false_eq_true, if_false]
      split
      · split <;> omega
      · omega
  omega

theorem Accepted.frameOk (ha : p.Accepted) (hc : p.Consistent) :
    p.FrameOk (byteAt (p.headers o my rem pcp flow)) := by
  have hfit := ha.headers_fit hc
  obtain ⟨hl6, hlen, hty, hpay⟩ := hc
  obtain ⟨h1, h2, h3, -⟩ := ha.sizes
  have het := Nat.mod_eq_of_lt ha.ethertype_lt
  have h4 : p.isUdpOrTcp = true → p.rawIpv6 = false := by
    intro hl
    cases h6 : p.rawIpv6 with
    | true => exact absurd ⟨ha.ip_of_l4 hl, h6, hl⟩ hl6
    | false => rfl
  refine ⟨fun hv => headers_tag hv, fun hi => ?_, fun hi => ?_, fun hi h4 => ?_, fun hi h6 => ?_,
    fun hl ht => ?_, fun hl => ?_, hfit⟩
  · rw [headers_type, ethType]
    cases he : p.isEthertype with
    | true => rw [if_pos rfl, het, hty he hi]
    | false =>
      simp only [hi, if_true, Bool.false_eq_true, if_false]
      split <;> rfl
  · rw [headers_type]
    apply (ha.payloadType_iff hi).2
    split
    next he => exact hpay he hi
    next he => exact hlen (by simpa using he) hi
  · rw [headers_ip16, h1]
    simp only [ipHeader, hi, h4, if_true, Bool.false_eq_true, if_false,
      genIpv4Header_length_field]
    omega
  · have hl : p.isUdpOrTcp = false := by
      cases hl : p.isUdpOrTcp with
      | true => exact absurd ⟨hi, h6, hl⟩ hl6
      | false => rfl
    rw [headers_ip16, h1]
    simp only [ipHeader, hi, h6, hl, if_true, Bool.false_eq_true, if_false,
      genIpv6Header_length_field, htons_htons]
    omega
  · have hi := ha.ip_of_l4 hl
    have h4 := h4 hl
    rw [headers_l4]
    simp only [h4, Bool.false_eq_true, if_false, headers_ip16, ipHeader, hi, if_true, l4Header,
      hl, ht, genIpv4Header_length_field]
    have hu := fun z => @genUdpHeader_length_field o [] (my.port + flow) (rem.port + flow) z
    simp only [List.append_nil] at hu
    rw [hu]
    omega
  · have hi := ha.ip_of_l4 hl
    have h4 := h4 hl
    simp only [h4, Bool.false_eq_true, if_false, headers_ip, ipHeader, hi, if_true,
      genIpv4Header_protocol, ipNextProtocol, hl]
    split <;> rfl

end Headers

section Buffer

variable {b cls n buf off i : Nat} {s : Mem × Nat} {l : List (Nat × Nat)}

theorem flowBuffSize_eq (hn : 0 < n) (hf : 0 < p.flows) : p.flowBuffSize b cls n =
    incSize (if p.size < b then b else p.size) cls := by
  unfold flowBuffSize
  generalize incSize (if p.size < b then b else p.size) cls = z
  rw [Nat.div_div_eq_div_mul, Nat.div_div_eq_div_mul,
    show z * 2 * n * p.flows = z * (n * (2 * p.flows)) by ring]
  exact Nat.mul_div_cancel z (by positivity)

theorem le_flowBuffSize (hc : 0 < cls) (hn : 0 < n) (hf : 0 < p.flows) :
    p.size ≤ p.flowBuffSize b cls n := by
  have hz := le_incSize (v := if p.size < b then b else p.size) hc
  rw [flowBuffSize_eq hn hf]
  refine Nat.le_trans ?_ hz
  split <;> omega

/-- The packets of a buffer stand at least their size apart, in the order of their addresses. -/
theorem packetPlaces_spaced (ha : p.Accepted) (hc : 0 < cls) (hn : 0 < n) :
    (p.packetPlaces b cls n).Pairwise fun x y => x.1 + p.size ≤ y.1 := by
  have hflow := le_flowBuffSize (p := p) (b := b) hc hn ha.flows_pos
  have hinc := le_incSize (v := p.size) hc
  have hnext : ∀ {i j}, i < j → p.flowBuffSize b cls n * i + p.flowBuffSize b cls n ≤
      p.flowBuffSize b cls n * j := by
    intro i j hij
    calc _ = p.flowBuffSize b cls n * (i + 1) := by ring
      _ ≤ _ := Nat.mul_le_mul_left _ hij
  have hbw : ((List.range p.flows).flatMap fun i =>
      (List.range (p.flowBuffSize b cls n / incSize p.size cls)).map fun j =>
        (p.flowBuffSize b cls n * i + j * incSize p.size cls, i)).Pairwise
          fun x y => x.1 + p.size ≤ y.1 := by
    generalize p.flowBuffSize b cls n = flow at *
    generalize incSize p.size cls = inc at *
    refine List.pairwise_flatMap.2 ⟨fun i _ => ?_, ?_⟩
    · refine List.pairwise_map.2 (List.pairwise_lt_range.imp fun {j k} hjk => ?_)
      have : (j + 1) * inc ≤ k * inc := Nat.mul_le_mul_right _ hjk
      rw [Nat.add_mul] at this
      simp only
      omega
    · refine List.pairwise_lt_range.imp fun {i i'} hi x hx y hy => ?_
      obtain ⟨j, hj, rfl⟩ := List.mem_map.1 hx
      obtain ⟨k, -, rfl⟩ := List.mem_map.1 hy
      have h1 : (j + 1) * inc ≤ flow := by
        calc _ ≤ flow / inc * inc := Nat.mul_le_mul_right _ (List.mem_range.1 hj)
          _ ≤ _ := Nat.div_mul_le_self flow inc
      have h2 := hnext hi
      rw [Nat.add_mul] at h1
      simp only
      omega
  unfold packetPlaces
  split
  · exact hbw
  · exact hbw
  · refine List.pairwise_map.2 (List.pairwise_lt_range.imp fun {i j} hij => ?_)
    have := hnext hij
    simp only
    omega
  · exact List.Pairwise.nil

/-- A byte that no packet's headers reach stays as it is. -/
theorem foldl_buildPktOnBuffer_outside {a : Nat}
    (h : ∀ x ∈ l, a < buf + x.1 ∨ buf + x.1 + (p.linkSize + p.ipSize + p.l4Size) ≤ a) :
    (l.foldl (p.buildPktOnBuffer o my rem buf) s).1 a = s.1 a := by
  induction l generalizing s with
  | nil => rfl
  | cons x l ih =>
    rw [List.foldl_cons, ih fun y hy => h y (List.mem_cons_of_mem _ hy)]
    have := h x List.mem_cons_self
    simp only [buildPktOnBuffer, writeBytes, headers_length]
    rw [if_neg (by omega)]

/-- When all packets are built each still holds its own headers, as far as the next packet. -/
theorem foldl_buildPktOnBuffer_at {gap : Nat} (hl : l.Pairwise fun x y => x.1 + gap ≤ y.1)
    (hm : (off, i) ∈ l) : ∃ pcp, ∀ x, x < gap → x < p.linkSize + p.ipSize + p.l4Size →
      (l.foldl (p.buildPktOnBuffer o my rem buf) s).1 (buf + off + x) =
        byteAt (p.headers o my rem pcp i) x := by
  induction l generalizing s with
  | nil => cases hm
  | cons y l ih =>
    obtain ⟨hy, hl⟩ := List.pairwise_cons.1 hl
    rw [List.foldl_cons]
    rcases List.mem_cons.1 hm with rfl | hm
    · refine ⟨p.nextVlanPcp s.2, fun x hx hlen => ?_⟩
      rw [foldl_buildPktOnBuffer_outside]
      · simp only [buildPktOnBuffer, writeBytes, headers_length]
        rw [if_pos (by omega), Nat.add_sub_cancel_left]
      · intro z hz
        have := hy z hz
        simp only at this
        omega
    · exact ih hl hm

theorem createRawEthPkt_at (ha : p.Accepted) (hc : 0 < cls) (hn : 0 < n)
    (hm : (off, i) ∈ p.packetPlaces b cls n) :
    ∃ pcp, ∀ x, x < p.size → x < p.linkSize + p.ipSize + p.l4Size →
      (p.createRawEthPkt o my rem b cls n buf s).1 (buf + off + x) =
        byteAt (p.headers o my rem pcp i) x :=
  foldl_buildPktOnBuffer_at (packetPlaces_spaced ha hc hn) hm

/-- For every accepted set of options a packet on the buffer is consistent exactly when the options
are `Consistent`. -/
theorem createRawEthPkt_frameOk_iff (ha : p.Accepted) (hc : 0 < cls) (hn : 0 < n)
    (hm : (off, i) ∈ p.packetPlaces b cls n) :
    p.FrameOk (fun x => (p.createRawEthPkt o my rem b cls n buf s).1 (buf + off + x)) ↔
      p.Consistent := by
  obtain ⟨pcp, hpcp⟩ := @createRawEthPkt_at p o my rem b cls n buf off i s ha hc hn hm
  have hsz : 64 ≤ p.size := ha.size_ge
  constructor
  · intro h
    exact ha.consistent (h.congr ha fun x hx hlen => hpcp x (hx.trans_le hsz) hlen)
  · intro h
    exact FrameOk.congr ha (ha.frameOk h) fun x hx hlen => (hpcp x (hx.trans_le hsz) hlen).symm

/-- The client's side of a latency test with UDP between two ports. -/
def udpClient (ipv6 vlan : Bool) : RawEthParameters where
  tst := .lat
  machine := .client
  size := 64
  sourceMac := fun _ => 0x02
  destMac := fun _ => 0x04
  isServerIp := true
  isClientIp := true
  serverIp := fun k => if k = 3 then 1 else 10
  clientIp := fun k => if k = 3 then 2 else 10
  serverIp6 := fun k => if k = 15 then 1 else 0xfd
  clientIp6 := fun k => if k = 15 then 2 else 0xfd
  isServerPort := true
  isClientPort := true
  serverPort := 5000
  clientPort := 6000
  rawIpv6 := ipv6
  tcp := false
  isEthertype := false
  ethertype := 0
  vlanEn := vlan
  vlanPcp := 1
  hopLimit := 0x3f
  tos := DEF_TOS
  flowLabel := none
  flows := 1

/-- The addresses of the two sides of `udpClient`. -/
def udpInfo (client : Bool) : RawEthernetInfo :=
  let p := udpClient false false
  if client then ⟨p.sourceMac, p.clientIp, p.clientIp6, p.clientPort⟩
  else ⟨p.destMac, p.serverIp, p.serverIp6, p.serverPort⟩

theorem udpClient_accepted (ipv6 vlan : Bool) : (udpClient ipv6 vlan).Accepted := by
  refine ⟨?_, ?_, rfl, fun _ => ⟨rfl, rfl⟩, fun h => ?_, ?_, ?_, ?_, fun _ => rfl⟩
  · exact Nat.le_refl 64
  · show 64 ≤ 9600
    omega
  · cases h
  · show 0 < 2 ^ 16
    omega
  · exact Nat.one_pos
  · show 1 < 2 ^ 16
    omega

theorem udpClient_vlan_frameOk : (udpClient false true).FrameOk fun x =>
    ((udpClient false true).createRawEthPkt .little (udpInfo true) (udpInfo false) 4096 64 1 0
      (fun _ => 0, 0)).1 (0 + 0 + x) := by
  apply (createRawEthPkt_frameOk_iff (i := 0) (udpClient_accepted false true) (by decide)
    (by decide) (by decide +kernel)).2
  refine ⟨fun h => ?_, fun _ h => ?_, fun h => ?_, fun h => ?_⟩
  · exact absurd h.2.1 (by decide)
  · exact absurd h (by decide)
  · exact absurd h (by decide)
  · exact absurd h (by decide)

/-- With IPv6 and UDP in 64 bytes the payload length on the wire is not that of the packet. -/
theorem udpClient_ipv6_not_frameOk : (udpClient true false).Accepted ∧
    (0, 0) ∈ (udpClient true false).packetPlaces 4096 64 1 ∧
    ¬ (udpClient true false).FrameOk fun x =>
      ((udpClient true false).createRawEthPkt .little (udpInfo true) (udpInfo false) 4096 64 1 0
        (fun _ => 0, 0)).1 (0 + 0 + x) := by
  refine ⟨udpClient_accepted true false, by decide +kernel, fun h => ?_⟩
  exact absurd (h.ipv6_length rfl rfl) (by decide +kernel)

end Buffer

end RawEthParameters

end Perftest
