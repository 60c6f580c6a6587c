import Perftest.FlowRules
import Perftest.PacketFrames

namespace Perftest

open ByteMemory NetBytes

namespace RawEthParameters

variable (p q : RawEthParameters)

/-- The fields of a packet in the form of a filter. -/
def packetFilter (f : Nat → UInt8) : FlowSpecType → Nat → UInt8
  | .eth, k =>
    if k < 12 then f k else if k < 14 then f (p.linkSize - 2 + (k - 12))
    else if p.vlanEn then f k else 0
  | .ipv4, k | .ipv4Ext, k =>
    if k < 8 then f (p.linkSize + 12 + k) else
      byteAt [f (p.linkSize + 9), f (p.linkSize + 1), f (p.linkSize + 8),
        f (p.linkSize + 6) >>> 5] (k - 8)
  | .ipv6, k =>
    if k < 32 then f (p.linkSize + 8 + k) else
      byteAt [0, f (p.linkSize + 1) &&& 0x0f, f (p.linkSize + 2), f (p.linkSize + 3),
        f (p.linkSize + 6), f p.linkSize <<< 4 ||| f (p.linkSize + 1) >>> 4,
        f (p.linkSize + 7)] (k - 32)
  | .tcp, k | .udp, k =>
    f (p.linkSize + p.ipSize + if k < 2 then 2 + k else k - 2)

/-- A packet has the header that a specification is about. -/
def HasHeader (f : Nat → UInt8) : FlowSpecType → Prop
  | .eth => True
  | .ipv4 | .ipv4Ext => be16 f (p.linkSize - 2) = IP_ETHER_TYPE
  | .ipv6 => be16 f (p.linkSize - 2) = IP6_ETHER_TYPE
  | .tcp => (f (p.linkSize + if p.rawIpv6 then 6 else 9)).toNat = TCP_PROTOCOL
  | .udp => (f (p.linkSize + if p.rawIpv6 then 6 else 9)).toNat = UDP_PROTOCOL

def MatchesSpec (f : Nat → UInt8) (s : FlowSpec) : Prop :=
  p.HasHeader f s.type ∧ ∀ k, k < s.type.filterSize →
    p.packetFilter f s.type k &&& s.mask k = s.val k &&& s.mask k

def MatchesRule (f : Nat → UInt8) (r : FlowRule) : Prop := ∀ s ∈ r.specs, p.MatchesSpec f s

end RawEthParameters

/-- The specifications, the last one first, stand one behind the other from the attributes up to an
end. -/
def SpecsFill : List FlowSpec → Nat → Prop
  | [], e => e = flowAttrSize
  | s :: l, e => e = s.offset + s.type.size ∧ SpecsFill l s.offset

structure FlowRule.Ok (r : FlowRule) : Prop where
  count : r.numOfSpecs = r.specs.length
  fill : SpecsFill r.specs r.size
  inside : ∀ x ∈ r.stored, flowAttrSize ≤ x.1 ∧ x.1 + x.2 ≤ r.size

namespace RawEthParameters

/-- The two command lines describe the same packets: `p` is the client's, `q` the server's. -/
structure SameDescription (p q : RawEthParameters) : Prop where
  client : p.machine = .client
  server : q.machine = .server
  mac : q.sourceMac = p.destMac
  isServerIp : q.isServerIp = p.isServerIp
  isClientIp : q.isClientIp = p.isClientIp
  serverIp : q.serverIp = p.serverIp
  clientIp : q.clientIp = p.clientIp
  serverIp6 : q.serverIp6 = p.serverIp6
  clientIp6 : q.clientIp6 = p.clientIp6
  rawIpv6 : q.rawIpv6 = p.rawIpv6
  isServerPort : q.isServerPort = p.isServerPort
  isClientPort : q.isClientPort = p.isClientPort
  serverPort : q.serverPort = p.serverPort
  clientPort : q.clientPort = p.clientPort
  tcp : q.tcp = p.tcp
  tos : q.tos = p.tos
  flowLabel : q.flowLabel = p.flowLabel
  isEthertype : q.isEthertype = p.isEthertype
  ethertype : q.ethertype = p.ethertype
  vlanEn : q.vlanEn = p.vlanEn
  flows : q.flows = p.flows
  clientIp_zero : p.isClientIp = false → p.clientIp = (fun _ => 0) ∧ p.clientIp6 = fun _ => 0

/-- The packets on the client's buffer and the rules of the server agree. -/
structure SteeringAgrees (p q : RawEthParameters) (ipv4Ext : Bool) (buffer : Nat → Nat → UInt8)
    (places : List (Nat × Nat)) : Prop where
  matched : ∀ off i, (off, i) ∈ places →
    ∃ r, (q.flowRules ipv4Ext)[i]? = some r ∧ p.MatchesRule (buffer off) r
  apart : p.isUdpOrTcp = true → ∀ off i j r, (off, i) ∈ places → j ≠ i →
    (q.flowRules ipv4Ext)[j]? = some r → ¬ p.MatchesRule (buffer off) r
  rules : ∀ r ∈ q.flowRules ipv4Ext, r.Ok

/-- The options for which the packets and the rules agree. -/
def Steered (p : RawEthParameters) : Prop :=
  (p.isEthertype = true → p.haveIpHeader = true → p.rawIpv6 = true ∧ p.isUdpOrTcp = false ∧
    p.ethertype = IP6_ETHER_TYPE ∧ p.clientIp6 10 = 0x86 ∧ p.clientIp6 11 = 0xdd ∧
    p.serverIp6 10 = 0xff ∧ p.serverIp6 11 = 0xff) ∧
  (p.haveIpHeader = true → p.rawIpv6 = true →
    (p.tos ≠ DEF_TOS → p.tos.toNat % 256 = 0) ∧
    ∀ i label, i < p.flows → p.nextFlowLabel i = some label → label % 2 ^ 20 = 0)

section Rules

variable {p q : RawEthParameters} {ext : Bool} {lp rp c : Nat}

theorem flowRuleLoop_getElem? (a n k : Nat) (hk : k < n) :
    (q.flowRuleLoop ext (List.range' a n) c)[k]? =
      some (q.setUpFlowRules ext (q.serverPort + (a + k)) (q.clientPort + (a + k))
        (q.countLabel^[k] c)) := by
  induction n generalizing a k c with
  | zero => omega
  | succ n ih =>
    rw [List.range'_succ, flowRuleLoop]
    cases k with
    | zero => rfl
    | succ k =>
      rw [List.getElem?_cons_succ, ih (a + 1) k (by omega), Function.iterate_succ_apply,
        Nat.add_assoc, Nat.add_comm 1 k]

theorem flowRuleLoop_length (l : List Nat) (c : Nat) :
    (q.flowRuleLoop ext l c).length = l.length := by
  induction l generalizing c with
  | nil => rfl
  | cons i l ih => simp [flowRuleLoop, ih]

/-- The rule of a flow. -/
theorem flowRules_getElem? {i : Nat} (hi : i < q.flows) : (q.flowRules ext)[i]? =
    some (q.setUpFlowRules ext (q.serverPort + i) (q.clientPort + i) (q.countLabel^[i] 0)) := by
  have h := @flowRuleLoop_getElem? q ext 0 0 q.flows i hi
  rw [Nat.zero_add, ← List.range_eq_range'] at h
  exact h

theorem flowRules_length : (q.flowRules ext).length = q.flows := by
  rw [flowRules, flowRuleLoop_length, List.length_range]

theorem countLabel_iterate (h : q.countLabel c = c + 1) (i : Nat) :
    q.countLabel^[i] 0 = i := by
  have hs : ∀ k, q.countLabel k = k + 1 := by
    intro k
    unfold countLabel at h ⊢
    split at h
    next hc => rw [if_pos hc]
    next => omega
  induction i with
  | zero => rfl
  | succ i ih => rw [Function.iterate_succ_apply', ih, hs]

/-- Where a label is used each rule takes the next one. -/
theorem nextFlowLabel_iterate (hi : q.haveIpHeader = true) (hs : q.machine = .server)
    (h6 : q.rawIpv6 = true) (i : Nat) :
    q.nextFlowLabel (q.countLabel^[i] 0) = q.nextFlowLabel i := by
  cases hl : q.flowLabel with
  | none => simp [nextFlowLabel, hl]
  | some l =>
    rw [countLabel_iterate (c := 0)]
    rw [countLabel, if_pos ⟨hi, hs, h6, by rw [hl]; rfl⟩]

theorem Accepted.isPort (ha : q.Accepted) :
    (q.isServerPort || q.isClientPort) = q.isUdpOrTcp := by
  unfold isUdpOrTcp
  rw [ha.ports, Bool.or_self, Bool.and_self]

@[simp] theorem storeEtherType_type (s : FlowSpec) : (q.storeEtherType s).type = s.type := by
  unfold storeEtherType
  split <;> rfl

@[simp] theorem storeEtherType_offset (s : FlowSpec) :
    (q.storeEtherType s).offset = s.offset := by
  unfold storeEtherType
  split <;> rfl

theorem storeEtherType_val (s : FlowSpec) (k : Nat) : (q.storeEtherType s).val k =
    if q.isEthertype = true ∧ s.type.valAt + k = 18 then UInt8.ofNat (q.ethertype / 256)
    else if q.isEthertype = true ∧ s.type.valAt + k = 19 then UInt8.ofNat q.ethertype
    else if q.isEthertype = true ∧ (s.type.valAt + k = 34 ∨ s.type.valAt + k = 35) then 0xff
    else s.val k := by
  unfold storeEtherType
  cases q.isEthertype <;> simp [FlowSpec.store, etherTypeVal, etherTypeMask, etherTypeAt,
    FlowSpecType.maskAt, FlowSpecType.filterSize]
  grind [FlowSpecType.valAt]

theorem storeEtherType_mask (s : FlowSpec) (k : Nat) : (q.storeEtherType s).mask k =
    if q.isEthertype = true ∧ s.type.maskAt + k = 18 then UInt8.ofNat (q.ethertype / 256)
    else if q.isEthertype = true ∧ s.type.maskAt + k = 19 then UInt8.ofNat q.ethertype
    else if q.isEthertype = true ∧ (s.type.maskAt + k = 34 ∨ s.type.maskAt + k = 35) then 0xff
    else s.mask k := by
  unfold storeEtherType
  cases q.isEthertype <;> simp [FlowSpec.store, etherTypeVal, etherTypeMask, etherTypeAt]
  grind [FlowSpecType.valAt, FlowSpecType.maskAt, FlowSpecType.filterSize]

theorem storeEtherType_val_of_ne {s : FlowSpec} {k : Nat} (h : s.type.valAt + k ≠ 18 ∧
    s.type.valAt + k ≠ 19 ∧ s.type.valAt + k ≠ 34 ∧ s.type.valAt + k ≠ 35) :
    (q.storeEtherType s).val k = s.val k := by
  rw [storeEtherType_val]
  simp [h]

theorem storeEtherType_mask_of_ne {s : FlowSpec} {k : Nat} (h : s.type.maskAt + k ≠ 18 ∧
    s.type.maskAt + k ≠ 19 ∧ s.type.maskAt + k ≠ 34 ∧ s.type.maskAt + k ≠ 35) :
    (q.storeEtherType s).mask k = s.mask k := by
  rw [storeEtherType_mask]
  simp [h]

theorem tcpUdpSpec_size {a : Nat} : (q.tcpUdpSpec a lp rp).type.size = 16 := by
  cases h : q.tcp <;> simp [tcpUdpSpec, FlowSpecType.size, h]

theorem getIpSize_cases :
    q.getIpSize ext = if q.rawIpv6 then 88 else if ext then 32 else 24 := by
  unfold getIpSize ipSpecType
  split
  · rfl
  · split <;> rfl

/-- The stores of a rule whose last specification is `s`, in front of `l`. -/
def ruleOf (q : RawEthParameters) (size : Nat) (s : FlowSpec) (l : List FlowSpec) : FlowRule where
  size := size
  numOfSpecs := l.length + 1
  specs := q.storeEtherType s :: l
  stored := (s.offset, s.type.size) :: l.map (fun s => (s.offset, s.type.size)) ++
    if q.isEthertype then [(s.offset + 18, 2), (s.offset + 34, 2)] else []

theorem Accepted.rule_ports (ha : q.Accepted) (hl : q.isUdpOrTcp = true) :
    q.setUpFlowRules ext lp rp c = q.ruleOf (60 + q.getIpSize ext + 16)
      (q.tcpUdpSpec (60 + q.getIpSize ext) lp rp) [q.fillIpSpec ext 60 c, q.ethSpec] := by
  have hi := ha.ip_of_l4 hl
  simp only [setUpFlowRules, flowSpecs, calcFlowRulesSize, ha.isPort, hl, hi, if_true, ruleOf]
  rfl

theorem Accepted.rule_ip (ha : q.Accepted) (hl : q.isUdpOrTcp = false)
    (hi : q.haveIpHeader = true) : q.setUpFlowRules ext lp rp c =
      q.ruleOf (60 + q.getIpSize ext) (q.fillIpSpec ext 60 c) [q.ethSpec] := by
  simp only [setUpFlowRules, flowSpecs, calcFlowRulesSize, ha.isPort, hl, hi, if_true, ruleOf,
    Bool.false_eq_true, if_false]
  rfl

theorem Accepted.rule_eth (ha : q.Accepted) (hl : q.isUdpOrTcp = false)
    (hi : q.haveIpHeader = false) :
    q.setUpFlowRules ext lp rp c = q.ruleOf 60 q.ethSpec [] := by
  simp only [setUpFlowRules, flowSpecs, calcFlowRulesSize, ha.isPort, hl, hi, ruleOf,
    Bool.false_eq_true, if_false]
  rfl

/-- A rule whose specifications fill it is well formed when the last one has room for the type. -/
theorem ruleOf_ok_iff {n : Nat} {s : FlowSpec} {l : List FlowSpec} (hn : n = s.offset + s.type.size)
    (hl : SpecsFill l s.offset) (hat : flowAttrSize ≤ s.offset)
    (hin : ∀ x ∈ l, flowAttrSize ≤ x.offset ∧ x.offset + x.type.size ≤ s.offset) :
    (q.ruleOf n s l).Ok ↔ (q.isEthertype = true → 36 ≤ s.type.size) := by
  constructor
  · intro h he
    have hm := h.inside (s.offset + 34, 2) (by simp [ruleOf, he])
    simp only [ruleOf] at hm
    omega
  · intro h
    refine ⟨rfl, ?_, ?_⟩
    · simp only [ruleOf, SpecsFill, storeEtherType_offset, storeEtherType_type]
      exact ⟨hn, hl⟩
    · intro x hx
      simp only [ruleOf, List.cons_append, List.mem_cons, List.mem_append, List.mem_map] at hx ⊢
      rcases hx with rfl | ⟨y, hy, rfl⟩ | hx
      · exact ⟨hat, by omega⟩
      · have := hin y hy
        simp only
        omega
      · split at hx
        next he =>
          have := h he
          simp only [List.mem_cons, List.not_mem_nil, or_false] at hx
          rcases hx with rfl | rfl <;> simp only <;> omega
        next => cases hx

/-- A rule is well formed unless the type was stored behind the Ethernet specification, where only
that of IPv6 has room for it. -/
theorem Accepted.rule_ok_iff (ha : q.Accepted) : (q.setUpFlowRules ext lp rp c).Ok ↔
    (q.isEthertype = true → q.haveIpHeader = true →
      q.rawIpv6 = true ∧ q.isUdpOrTcp = false) := by
  have hsz := @getIpSize_cases q ext
  have hty : (q.fillIpSpec ext 60 c).type.size = q.getIpSize ext := rfl
  have hoff : (q.fillIpSpec ext 60 c).offset = 60 := rfl
  have heth : q.ethSpec.offset = 20 ∧ q.ethSpec.type.size = 40 := ⟨rfl, rfl⟩
  cases hl : q.isUdpOrTcp with
  | true =>
    have hl4 := @tcpUdpSpec_size q lp rp (60 + q.getIpSize ext)
    have hl4o : (q.tcpUdpSpec (60 + q.getIpSize ext) lp rp).offset = 60 + q.getIpSize ext := rfl
    rw [ha.rule_ports hl, ruleOf_ok_iff]
    · rw [hl4, ha.ip_of_l4 hl]
      simp
    · rw [hl4, hl4o]
    · exact ⟨by rw [hl4o, hoff, hty], by rw [hoff, heth.1, heth.2], heth.1⟩
    · rw [hl4o, flowAttrSize]
      omega
    · simp only [List.mem_cons, List.not_mem_nil, or_false, forall_eq_or_imp, forall_eq, hoff, hty,
        heth, hl4o, flowAttrSize]
      omega
  | false =>
    cases hi : q.haveIpHeader with
    | true =>
      rw [ha.rule_ip hl hi, ruleOf_ok_iff]
      · rw [hty, hsz]
        cases h6 : q.rawIpv6 <;> cases ext <;> simp
      · rw [hoff, hty]
      · exact ⟨by rw [hoff, heth.1, heth.2], heth.1⟩
      · rw [hoff, flowAttrSize]
        omega
      · simp only [List.mem_cons, List.not_mem_nil, or_false, forall_eq, heth, hoff, flowAttrSize]
        omega
    | false =>
      rw [ha.rule_eth hl hi, ruleOf_ok_iff]
      · rw [heth.2]
        simp
      · rw [heth.1, heth.2]
      · exact heth.1
      · rw [heth.1, flowAttrSize]
      · simp

end Rules

end RawEthParameters

end Perftest
