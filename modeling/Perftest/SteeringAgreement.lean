import Perftest.PacketMatching

namespace Perftest

open ByteMemory NetBytes

namespace RawEthParameters

section Agreement

variable {p q : RawEthParameters} {o : ByteOrder} {pcp flow k c a : Nat} {f : Nat → UInt8}
  {ext : Bool}

theorem SameDescription.haveIpHeader (hd : SameDescription p q) :
    q.haveIpHeader = p.haveIpHeader := by
  unfold RawEthParameters.haveIpHeader
  rw [hd.isClientIp, hd.isServerIp]

theorem SameDescription.isUdpOrTcp (hd : SameDescription p q) :
    q.isUdpOrTcp = p.isUdpOrTcp := by
  unfold RawEthParameters.isUdpOrTcp
  rw [hd.isClientPort, hd.isServerPort]

theorem SameDescription.nextFlowLabel (hd : SameDescription p q) (i : Nat) :
    q.nextFlowLabel i = p.nextFlowLabel i := by
  unfold RawEthParameters.nextFlowLabel
  rw [hd.flowLabel]

/-- The addresses in the client's packets are those of the description. -/
theorem SameDescription.addresses (hd : SameDescription p q) :
    p.remDestInfo.mac = q.sourceMac ∧
    (p.rawIpv6 = false → p.myDestInfo.ip = q.clientIp ∧ p.remDestInfo.ip = q.serverIp) ∧
    (p.rawIpv6 = true → p.myDestInfo.ip6 = p.clientIp6 ∧ p.remDestInfo.ip6 = p.serverIp6) ∧
    p.myDestInfo.port = p.clientPort ∧ p.remDestInfo.port = p.serverPort := by
  refine ⟨hd.mac.symm, fun h4 => ?_, fun h6 => ?_, ?_, ?_⟩
  · simp only [myDestInfo, remDestInfo, h4, hd.client, hd.serverIp, hd.clientIp, if_true,
      Bool.not_false, Bool.and_true, Bool.false_eq_true, if_false, and_true]
    split
    next => rfl
    next hc => rw [(hd.clientIp_zero (by simpa using hc)).1]
  · simp only [myDestInfo, remDestInfo, h6, hd.client, if_true, Bool.and_true, and_true]
    split
    next => rfl
    next hc => rw [(hd.clientIp_zero (by simpa using hc)).2]
  · simp only [myDestInfo, hd.client, if_true]
  · simp only [remDestInfo, hd.client, if_true]

/-- Packets whose type was not given match the IP specification unless it asks for a traffic class
or a label. -/
theorem SameDescription.matches_ip_iff (hd : SameDescription p q)
    (h : p.PacketHolds o p.myDestInfo p.remDestInfo pcp flow f) (hi : p.haveIpHeader = true)
    (he : p.isEthertype = false) : p.MatchesSpec f (q.fillIpSpec ext a c) ↔
      (p.rawIpv6 = true → (q.tos ≠ DEF_TOS → q.tos.toNat % 256 = 0) ∧
        ∀ label, q.nextFlowLabel c = some label → label % 2 ^ 20 = 0) := by
  obtain ⟨-, hv4, hv6, -⟩ := hd.addresses
  cases h6 : p.rawIpv6 with
  | false =>
    have hm := h.matches_ipv4 (e := ext) (a := a) (c := c) hi h6 (hd.rawIpv6.trans h6) hd.server
      he (hv4 h6).1.symm (hv4 h6).2.symm hd.tos
    simp [hm]
  | true =>
    have hq := hd.rawIpv6.trans h6
    have hval : (q.fillIpSpec ext a c).val = byteAt (q.ipv6Val c) := by
      simp only [fillIpSpec, hd.server, hq, if_true, filterBytes]
    rw [h.matches_ipv6_iff (q := q) (c := c) hi h6 (by simp [fillIpSpec, ipSpecType, hq])
      (by simp [fillIpSpec, hd.server, hq]), hval, ipv6Val_tail_iff]
    have hty : p.ethType % 2 ^ 16 = IP6_ETHER_TYPE := by
      simp [ethType, he, hi, h6, IP6_ETHER_TYPE]
    have haddr : ∀ k, k < 32 → byteAt (q.ipv6Val c) k =
        byteAt (List.ofFn p.myDestInfo.ip6 ++ List.ofFn p.remDestInfo.ip6) k := by
      intro k hk
      rw [ipv6Val, hd.clientIp6, hd.serverIp6, (hv6 h6).1, (hv6 h6).2, List.append_assoc,
        byteAt_append_left (by simp; omega)]
    simp only [hty, true_and, forall_const]
    exact ⟨fun h => h.2, fun h => ⟨haddr, h⟩⟩

/-- With a type of their own packets match an IPv6 specification only when the bytes that were
stored in the middle of the addresses are the ones that belong there. -/
theorem SameDescription.matches_stored_iff (hd : SameDescription p q)
    (h : p.PacketHolds o p.myDestInfo p.remDestInfo pcp flow f) (ha : p.Accepted)
    (hi : p.haveIpHeader = true) (h6 : p.rawIpv6 = true) (he : p.isEthertype = true) :
    p.MatchesSpec f (q.storeEtherType (q.fillIpSpec ext a c)) ↔
      (p.ethertype = IP6_ETHER_TYPE ∧ p.clientIp6 10 = 0x86 ∧ p.clientIp6 11 = 0xdd ∧
        p.serverIp6 10 = 0xff ∧ p.serverIp6 11 = 0xff) ∧
      (q.tos ≠ DEF_TOS → q.tos.toNat % 256 = 0) ∧
        ∀ label, q.nextFlowLabel c = some label → label % 2 ^ 20 = 0 := by
  obtain ⟨-, -, hv6, -⟩ := hd.addresses
  have hq := hd.rawIpv6.trans h6
  have hqe := hd.isEthertype.trans he
  have hst : (q.fillIpSpec ext a c).type = .ipv6 := by simp [fillIpSpec, ipSpecType, hq]
  have hval : (q.fillIpSpec ext a c).val = byteAt (q.ipv6Val c) := by
    simp only [fillIpSpec, hd.server, hq, if_true, filterBytes]
  have hmask : (q.storeEtherType (q.fillIpSpec ext a c)).mask = filterBytes (q.ipv6Mask c) := by
    funext k
    rw [storeEtherType_mask_of_ne]
    · simp [fillIpSpec, hd.server, hq]
    · rw [hst]
      simp only [FlowSpecType.maskAt, FlowSpecType.valAt, FlowSpecType.filterSize]
      omega
  have haddr : ∀ k, k < 32 → byteAt (q.ipv6Val c) k =
      byteAt (List.ofFn p.myDestInfo.ip6 ++ List.ofFn p.remDestInfo.ip6) k := by
    intro k hk
    rw [ipv6Val, hd.clientIp6, hd.serverIp6, (hv6 h6).1, (hv6 h6).2, List.append_assoc,
      byteAt_append_left (by simp; omega)]
  have htail : ∀ k, (q.storeEtherType (q.fillIpSpec ext a c)).val (32 + k) =
      byteAt (q.ipv6Val c) (32 + k) := by
    intro k
    rw [storeEtherType_val_of_ne (by rw [hst]; simp only [FlowSpecType.valAt]; omega), hval]
  have hstored : (∀ k, k < 32 → (q.storeEtherType (q.fillIpSpec ext a c)).val k =
      byteAt (List.ofFn p.myDestInfo.ip6 ++ List.ofFn p.remDestInfo.ip6) k) ↔
      UInt8.ofNat (p.ethertype / 256) = p.clientIp6 10 ∧
        UInt8.ofNat p.ethertype = p.clientIp6 11 ∧
        0xff = p.serverIp6 10 ∧ 0xff = p.serverIp6 11 := by
    rw [(hv6 h6).1, (hv6 h6).2] at haddr ⊢
    have hright : ∀ k (hk : k < 16), byteAt (List.ofFn p.clientIp6 ++ List.ofFn p.serverIp6)
        (16 + k) = p.serverIp6 ⟨k, hk⟩ := by
      intro k hk
      have := byteAt_ofFn (r := []) p.serverIp6 hk
      rw [List.append_nil] at this
      rw [byteAt_ofFn_right, this]
    have hvk : ∀ k, (q.storeEtherType (q.fillIpSpec ext a c)).val k =
        if k = 10 then UInt8.ofNat (p.ethertype / 256) else if k = 11 then UInt8.ofNat p.ethertype
        else if k = 26 ∨ k = 27 then 0xff else byteAt (q.ipv6Val c) k := by
      intro k
      rw [storeEtherType_val, hst, hval, hqe, hd.ethertype]
      simp only [FlowSpecType.valAt, true_and]
      grind
    have h10 := byteAt_ofFn (r := List.ofFn p.serverIp6) p.clientIp6 (show 10 < 16 by omega)
    have h11 := byteAt_ofFn (r := List.ofFn p.serverIp6) p.clientIp6 (show 11 < 16 by omega)
    have h26 := hright 10 (by omega)
    have h27 := hright 11 (by omega)
    constructor
    · intro hk
      have e10 := hk 10 (by omega)
      have e11 := hk 11 (by omega)
      have e26 := hk 26 (by omega)
      have e27 := hk 27 (by omega)
      rw [hvk] at e10 e11 e26 e27
      exact ⟨e10.trans h10, e11.trans h11, e26.trans h26, e27.trans h27⟩
    · rintro ⟨e10, e11, e26, e27⟩ k hk
      rw [hvk]
      by_cases k10 : k = 10
      · rw [k10, if_pos rfl, e10]
        exact h10.symm
      by_cases k11 : k = 11
      · rw [k11, if_neg (by omega), if_pos rfl, e11]
        exact h11.symm
      by_cases k26 : k = 26
      · rw [k26, if_neg (by omega), if_neg (by omega), if_pos (.inl rfl), e26]
        exact h26.symm
      by_cases k27 : k = 27
      · rw [k27, if_neg (by omega), if_neg (by omega), if_pos (.inr rfl), e27]
        exact h27.symm
      rw [if_neg k10, if_neg k11, if_neg (by omega), haddr k hk]
  have hty : p.ethType % 2 ^ 16 = p.ethertype := by
    rw [ethType, if_pos he, Nat.mod_eq_of_lt ha.ethertype_lt]
  rw [h.matches_ipv6_iff (q := q) (c := c) hi h6 (by rw [storeEtherType_type, hst]) hmask, hstored,
    hty]
  simp only [htail, ipv6Val_tail_iff]
  constructor
  · rintro ⟨he6, ⟨h10, h11, h26, h27⟩, ht⟩
    rw [he6] at h10 h11
    exact ⟨⟨he6, h10.symm, h11.symm, h26.symm, h27.symm⟩, ht⟩
  · rintro ⟨⟨he6, h10, h11, h26, h27⟩, ht⟩
    rw [he6]
    exact ⟨rfl, ⟨h10.symm, h11.symm, h26.symm, h27.symm⟩, ht⟩

/-- What the rule of a flow asks of the packets of another or the same flow, where the rule is well
formed. -/
theorem SameDescription.matchesRule_iff {lp rp : Nat} (hd : SameDescription p q)
    (h : p.PacketHolds o p.myDestInfo p.remDestInfo pcp flow f) (ha : p.Accepted) (hq : q.Accepted)
    (hok : (q.setUpFlowRules ext lp rp c).Ok) :
    p.MatchesRule f (q.setUpFlowRules ext lp rp c) ↔
      (p.isUdpOrTcp = true → lp % 2 ^ 16 = (p.serverPort + flow) % 2 ^ 16 ∧
        rp % 2 ^ 16 = (p.clientPort + flow) % 2 ^ 16) ∧
      (p.isEthertype = true → p.haveIpHeader = true →
        p.ethertype = IP6_ETHER_TYPE ∧ p.clientIp6 10 = 0x86 ∧ p.clientIp6 11 = 0xdd ∧
          p.serverIp6 10 = 0xff ∧ p.serverIp6 11 = 0xff) ∧
      (p.haveIpHeader = true → p.rawIpv6 = true → (q.tos ≠ DEF_TOS → q.tos.toNat % 256 = 0) ∧
        ∀ label, q.nextFlowLabel c = some label → label % 2 ^ 20 = 0) := by
  rw [hq.rule_ok_iff, hd.isEthertype, hd.haveIpHeader, hd.rawIpv6, hd.isUdpOrTcp] at hok
  obtain ⟨hmac, -, -, hmy, hrem⟩ := hd.addresses
  have heth := h.matches_eth hmac.symm
  have hplain : p.isEthertype = false → ∀ s, q.storeEtherType s = s := by
    intro he s
    rw [storeEtherType, hd.isEthertype, he]
    rfl
  cases hl : p.isUdpOrTcp with
  | true =>
    have hi := ha.ip_of_l4 hl
    have he : p.isEthertype = false := by
      cases he : p.isEthertype with
      | true => exact absurd (hok he hi).2 (by simp [hl])
      | false => rfl
    rw [hq.rule_ports (hd.isUdpOrTcp.trans hl), MatchesRule]
    simp only [ruleOf, List.mem_cons, List.not_mem_nil, or_false, forall_eq_or_imp, forall_eq,
      hplain he, heth, and_true, hd.matches_ip_iff h hi he,
      h.matches_ports_iff hi hl hd.tcp hd.server, hmy, hrem, hi, he, Bool.false_eq_true,
      false_implies, true_and, forall_const]
  | false =>
    cases hi : p.haveIpHeader with
    | true =>
      rw [hq.rule_ip (hd.isUdpOrTcp.trans hl) (hd.haveIpHeader.trans hi), MatchesRule]
      simp only [ruleOf, List.mem_cons, List.not_mem_nil, or_false, forall_eq_or_imp, forall_eq,
        heth, and_true, Bool.false_eq_true, false_implies, true_and, forall_const]
      cases he : p.isEthertype with
      | true =>
        have h6 := (hok he hi).1
        simp only [hd.matches_stored_iff h ha hi h6 he, h6, forall_const]
      | false =>
        simp only [hplain he, hd.matches_ip_iff h hi he, Bool.false_eq_true, false_implies,
          true_and]
    | false =>
      rw [hq.rule_eth (hd.isUdpOrTcp.trans hl) (hd.haveIpHeader.trans hi), MatchesRule]
      simp only [ruleOf, List.mem_cons, List.not_mem_nil, or_false, forall_eq,
        h.matches_eth_type hmac.symm hd.isEthertype hd.ethertype, Bool.false_eq_true,
        false_implies, implies_true, and_self]

end Agreement

section Buffer

variable {p q : RawEthParameters} {o : ByteOrder} {b cls n buf : Nat} {s : Mem × Nat} {ext : Bool}

theorem roundUp_le {v a x : Nat} (hv : v ≤ x) (hx : a ∣ x) : roundUp v a ≤ x := by
  unfold roundUp
  split
  · exact hv
  next hm =>
    obtain ⟨m, rfl⟩ := hx
    have hlt : v < a * m := by
      rcases Nat.lt_or_eq_of_le hv with h | h
      · exact h
      · exact absurd (by rw [h, Nat.mul_mod_right]) hm
    exact Nat.mul_le_mul_left a (Nat.div_lt_of_lt_mul hlt)

theorem dvd_roundUp (v a : Nat) : a ∣ roundUp v a := by
  unfold roundUp
  split
  next h => exact Nat.dvd_of_mod_eq_zero h
  next => exact Nat.dvd_mul_right a _

theorem incSize_mono {v w : Nat} (hc : 0 < cls) (h : v ≤ w) : incSize v cls ≤ incSize w cls := by
  have hw := le_incSize (v := w) hc
  unfold incSize at hw ⊢
  split
  next hv =>
    rw [if_pos (by omega)] at hw ⊢
    exact roundUp_le (by omega) (dvd_roundUp w cls)
  next =>
    split at hw
    next hcw =>
      rw [if_pos hcw]
      omega
    next hcw => rw [if_neg hcw]

theorem incSize_le_flowBuffSize (hc : 0 < cls) (hn : 0 < n) (hf : 0 < p.flows) :
    incSize p.size cls ≤ p.flowBuffSize b cls n := by
  rw [flowBuffSize_eq hn hf]
  apply incSize_mono hc
  split <;> omega

theorem mem_packetPlaces_lt {off i : Nat} (h : (off, i) ∈ p.packetPlaces b cls n) :
    i < p.flows := by
  unfold packetPlaces at h
  split at h
  all_goals
    simp only [List.mem_flatMap, List.mem_map, List.mem_range, Prod.mk.injEq, List.not_mem_nil] at h
  · obtain ⟨j, hj, _, _, _, rfl⟩ := h
    exact hj
  · obtain ⟨j, hj, _, _, _, rfl⟩ := h
    exact hj
  · obtain ⟨j, hj, _, rfl⟩ := h
    exact hj

/-- There is a packet of every flow. -/
theorem exists_packetPlace {i : Nat} (hc : 0 < cls) (hn : 0 < n) (ht : p.tst ≠ .fsRate)
    (ha : p.Accepted) (hi : i < p.flows) : ∃ off, (off, i) ∈ p.packetPlaces b cls n := by
  have hle := incSize_le_flowBuffSize (p := p) (b := b) hc hn ha.flows_pos
  have hpos : 0 < incSize p.size cls := by
    have h1 := le_incSize (v := p.size) hc
    have h2 : 64 ≤ p.size := ha.size_ge
    omega
  have hdiv : 0 < p.flowBuffSize b cls n / incSize p.size cls := Nat.div_pos hle hpos
  have hbw : (p.flowBuffSize b cls n * i + 0 * incSize p.size cls, i) ∈
      (List.range p.flows).flatMap fun i =>
        (List.range (p.flowBuffSize b cls n / incSize p.size cls)).map fun j =>
          (p.flowBuffSize b cls n * i + j * incSize p.size cls, i) :=
    List.mem_flatMap.2 ⟨i, List.mem_range.2 hi, List.mem_map.2 ⟨0, List.mem_range.2 hdiv, rfl⟩⟩
  unfold packetPlaces
  split
  · exact ⟨_, hbw⟩
  · exact ⟨_, hbw⟩
  · exact ⟨_, List.mem_map.2 ⟨i, List.mem_range.2 hi, rfl⟩⟩
  next h => exact absurd h ht

/-- The packets of an accepted client on its buffer. -/
theorem createRawEthPkt_holds {off i : Nat} (ha : p.Accepted) (hc : 0 < cls) (hn : 0 < n)
    (hm : (off, i) ∈ p.packetPlaces b cls n) :
    ∃ pcp, p.PacketHolds o p.myDestInfo p.remDestInfo pcp i fun x =>
      (p.createRawEthPkt o p.myDestInfo p.remDestInfo b cls n buf s).1 (buf + off + x) := by
  obtain ⟨pcp, hpcp⟩ := createRawEthPkt_at ha hc hn hm
  exact ⟨pcp, fun x hx hlen => hpcp x (hx.trans_le ha.size_ge) hlen⟩

/-- For a client and a server that describe the same packets, the packets on the client's buffer and
the server's rules agree exactly when the options are `Steered`. -/
theorem steeringAgrees_iff (hd : SameDescription p q) (ha : p.Accepted) (hq : q.Accepted)
    (ht : p.tst ≠ .fsRate) (hc : 0 < cls) (hn : 0 < n) :
    SteeringAgrees p q ext (fun off x =>
      (p.createRawEthPkt o p.myDestInfo p.remDestInfo b cls n buf s).1 (buf + off + x))
      (p.packetPlaces b cls n) ↔ p.Steered := by
  have hrule : ∀ i, i < p.flows → (q.flowRules ext)[i]? = some (q.setUpFlowRules ext
      (q.serverPort + i) (q.clientPort + i) (q.countLabel^[i] 0)) := by
    intro i hi
    exact flowRules_getElem? (by rw [hd.flows]; exact hi)
  have hlabel : p.haveIpHeader = true → p.rawIpv6 = true → ∀ i,
      q.nextFlowLabel (q.countLabel^[i] 0) = p.nextFlowLabel i := by
    intro hi h6 i
    rw [nextFlowLabel_iterate (hd.haveIpHeader.trans hi) hd.server (hd.rawIpv6.trans h6),
      hd.nextFlowLabel]
  have hokiff : ∀ lp rp c, (q.setUpFlowRules ext lp rp c).Ok ↔ (p.isEthertype = true →
      p.haveIpHeader = true → p.rawIpv6 = true ∧ p.isUdpOrTcp = false) := by
    intro lp rp c
    rw [hq.rule_ok_iff, hd.isEthertype, hd.haveIpHeader, hd.rawIpv6, hd.isUdpOrTcp]
  constructor
  · intro h
    have hok : ∀ lp rp c, (q.setUpFlowRules ext lp rp c).Ok := by
      have h0 := h.rules _ (List.mem_of_getElem? (hrule 0 ha.flows_pos))
      intro lp rp c
      exact (hokiff lp rp c).2 ((hokiff _ _ _).1 h0)
    have hmatch : ∀ i, i < p.flows → (p.isEthertype = true → p.haveIpHeader = true →
          p.ethertype = IP6_ETHER_TYPE ∧ p.clientIp6 10 = 0x86 ∧ p.clientIp6 11 = 0xdd ∧
            p.serverIp6 10 = 0xff ∧ p.serverIp6 11 = 0xff) ∧
        (p.haveIpHeader = true → p.rawIpv6 = true → (q.tos ≠ DEF_TOS → q.tos.toNat % 256 = 0) ∧
          ∀ label, q.nextFlowLabel (q.countLabel^[i] 0) = some label → label % 2 ^ 20 = 0) := by
      intro i hi
      obtain ⟨off, hm⟩ := exists_packetPlace (b := b) hc hn ht ha hi
      obtain ⟨pcp, hp⟩ := @createRawEthPkt_holds p o b cls n buf s off i ha hc hn hm
      obtain ⟨r, hr, hmr⟩ := h.matched off i hm
      rw [hrule i hi] at hr
      obtain rfl := Option.some.inj hr
      exact ((hd.matchesRule_iff hp ha hq (hok _ _ _)).1 hmr).2
    refine ⟨fun he hi => ?_, fun hi h6 => ⟨?_, fun i label hif hl => ?_⟩⟩
    · obtain ⟨h6, hl⟩ := (hokiff 0 0 0).1 (hok 0 0 0) he hi
      exact ⟨h6, hl, (hmatch 0 ha.flows_pos).1 he hi⟩
    · rw [← hd.tos]
      exact ((hmatch 0 ha.flows_pos).2 hi h6).1
    · exact ((hmatch i hif).2 hi h6).2 label (by rw [hlabel hi h6, hl])
  · rintro ⟨hety, hfields⟩
    have hok : ∀ lp rp c, (q.setUpFlowRules ext lp rp c).Ok := by
      intro lp rp c
      refine (hokiff lp rp c).2 fun he hi => ?_
      obtain ⟨h6, hl, -⟩ := hety he hi
      exact ⟨h6, hl⟩
    refine ⟨fun off i hm => ?_, fun hl off i j r hm hji hr hmr => ?_, fun r hr => ?_⟩
    · have hi := mem_packetPlaces_lt hm
      obtain ⟨pcp, hp⟩ := @createRawEthPkt_holds p o b cls n buf s off i ha hc hn hm
      refine ⟨_, hrule i hi, (hd.matchesRule_iff hp ha hq (hok _ _ _)).2
        ⟨fun _ => ?_, fun he hip => (hety he hip).2.2, fun hip h6 => ?_⟩⟩
      · rw [hd.serverPort, hd.clientPort]
        exact ⟨rfl, rfl⟩
      · rw [hd.tos]
        refine ⟨(hfields hip h6).1, fun label hlab => ?_⟩
        rw [hlabel hip h6] at hlab
        exact (hfields hip h6).2 i label hi hlab
    · have hi := mem_packetPlaces_lt hm
      have hj : j < p.flows := by
        have := (List.getElem?_eq_some_iff.1 hr).1
        rwa [flowRules_length, hd.flows] at this
      obtain ⟨pcp, hp⟩ := @createRawEthPkt_holds p o b cls n buf s off i ha hc hn hm
      rw [hrule j hj] at hr
      obtain rfl := Option.some.inj hr
      have hports := (((hd.matchesRule_iff hp ha hq (hok _ _ _)).1 hmr).1 hl).1
      have hflows := ha.flows_lt
      rw [hd.serverPort] at hports
      omega
    · obtain ⟨i, hi⟩ := List.getElem?_of_mem hr
      have hif : i < p.flows := by
        have := (List.getElem?_eq_some_iff.1 hi).1
        rwa [flowRules_length, hd.flows] at this
      rw [hrule i hif] at hi
      obtain rfl := Option.some.inj hi
      exact hok _ _ _

/-- The client of `udpClient` with a value for `--tos`, and the server that it talks to. -/
def tosClient (ipv6 vlan : Bool) (tos : Int) : RawEthParameters :=
  { udpClient ipv6 vlan with tos := tos }

def tosServer (ipv6 vlan : Bool) (tos : Int) : RawEthParameters :=
  { udpClient ipv6 vlan with
    tos := tos
    machine := .server
    sourceMac := (udpClient ipv6 vlan).destMac }

theorem tosClient_accepted (ipv6 vlan : Bool) (tos : Int) : (tosClient ipv6 vlan tos).Accepted := by
  have h := udpClient_accepted ipv6 vlan
  exact ⟨h.1, h.2, h.3, h.4, h.5, h.6, h.7, h.8, h.9⟩

theorem tosServer_accepted (ipv6 vlan : Bool) (tos : Int) : (tosServer ipv6 vlan tos).Accepted := by
  have h := udpClient_accepted ipv6 vlan
  exact ⟨h.1, h.2, h.3, h.4, h.5, h.6, h.7, h.8, h.9⟩

theorem tosClient_sameDescription (ipv6 vlan : Bool) (tos : Int) :
    SameDescription (tosClient ipv6 vlan tos) (tosServer ipv6 vlan tos) := by
  constructor
  all_goals first
    | rfl
    | exact fun h => absurd h (by simp [tosClient, udpClient])

theorem tosClient_steered : SteeringAgrees (tosClient false true 32) (tosServer false true 32) true
    (fun off x => ((tosClient false true 32).createRawEthPkt .little
      (tosClient false true 32).myDestInfo (tosClient false true 32).remDestInfo 4096 64 1 0
      (fun _ => 0, 0)).1 (0 + off + x)) ((tosClient false true 32).packetPlaces 4096 64 1) := by
  apply (steeringAgrees_iff (tosClient_sameDescription false true 32)
    (tosClient_accepted false true 32) (tosServer_accepted false true 32) (by decide) (by decide)
    (by decide)).2
  refine ⟨fun h => ?_, fun _ h => ?_⟩
  · exact absurd h (by decide)
  · exact absurd h (by decide)

/-- With IPv6 and a traffic class the rule asks for a value that no packet has. -/
theorem tosClient_ipv6_not_steered :
    SameDescription (tosClient true false 32) (tosServer true false 32) ∧
    (tosClient true false 32).Accepted ∧ (tosServer true false 32).Accepted ∧
    ¬ SteeringAgrees (tosClient true false 32) (tosServer true false 32) true
      (fun off x => ((tosClient true false 32).createRawEthPkt .little
        (tosClient true false 32).myDestInfo (tosClient true false 32).remDestInfo 4096 64 1 0
        (fun _ => 0, 0)).1 (0 + off + x)) ((tosClient true false 32).packetPlaces 4096 64 1) := by
  refine ⟨tosClient_sameDescription true false 32, tosClient_accepted true false 32,
    tosServer_accepted true false 32, fun h => ?_⟩
  obtain ⟨r, hr, hm⟩ := h.matched 0 0 (by decide +kernel)
  rw [flowRules_getElem? (by decide), (tosServer_accepted true false 32).rule_ports rfl] at hr
  obtain rfl := Option.some.inj hr
  have hs := (hm _ (List.mem_cons_of_mem _ List.mem_cons_self)).2 37 (by decide)
  revert hs
  decide +kernel

end Buffer

end RawEthParameters

end Perftest
