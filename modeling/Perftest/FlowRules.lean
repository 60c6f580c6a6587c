import Perftest.RawPacket

namespace Perftest

open NetBytes

inductive FlowSpecType where
  | eth | ipv4 | ipv4Ext | ipv6 | tcp | udp
deriving DecidableEq, Repr

namespace FlowSpecType

/-- The size of the structure of `infiniband/verbs.h`. -/
def size : FlowSpecType → Nat
  | eth => 40
  | ipv4 => 24
  | ipv4Ext => 32
  | ipv6 => 88
  | tcp | udp => 16

/-- The size of a filter, of which each structure has two, `val` and `mask`. -/
def filterSize : FlowSpecType → Nat
  | eth => 16
  | ipv4 => 8
  | ipv4Ext => 12
  | ipv6 => 40
  | tcp | udp => 4

/-- The offset of `val`; the filters of IP addresses are aligned to words. -/
def valAt : FlowSpecType → Nat
  | eth | tcp | udp => 6
  | ipv4 | ipv4Ext | ipv6 => 8

def maskAt (t : FlowSpecType) : Nat := t.valAt + t.filterSize

end FlowSpecType

def flowAttrSize : Nat := 20

/-- The offset of `ether_type` in the filter of an Ethernet specification. -/
def etherTypeAt : Nat := 12

/-- A specification of a rule: where it stands, and the bytes of its two filters. -/
structure FlowSpec where
  type : FlowSpecType
  offset : Nat
  val : Nat → UInt8
  mask : Nat → UInt8

/-- A store of one byte at an offset of the structure, whatever member it was meant for. -/
def FlowSpec.store (s : FlowSpec) (x : Nat) (b : UInt8) : FlowSpec :=
  { s with
    val := fun k => if s.type.valAt + k = x then b else s.val k
    mask := fun k => if s.type.maskAt + k = x then b else s.mask k }

/-- A rule; `stored` are the offsets and the lengths of what was written behind the attributes. -/
structure FlowRule where
  size : Nat
  numOfSpecs : Nat
  specs : List FlowSpec
  stored : List (Nat × Nat)

/-- The bytes of a filter. -/
def filterBytes (l : List UInt8) : Nat → UInt8 := byteAt l

namespace RawEthParameters

variable (p : RawEthParameters) (ipv4Ext : Bool)

/-- The type of the IP specification; `ipv4Ext` is `HAVE_IPV4_EXT`. -/
def ipSpecType : FlowSpecType :=
  if p.rawIpv6 then .ipv6 else if ipv4Ext then .ipv4Ext else .ipv4

def getIpSize : Nat := (p.ipSpecType ipv4Ext).size

def calcFlowRulesSize (isIpHeader isUdpHeader : Bool) : Nat :=
  flowAttrSize + FlowSpecType.eth.size + (if isIpHeader then p.getIpSize ipv4Ext else 0) +
    (if isUdpHeader then FlowSpecType.udp.size else 0)

/-- The flow label of the rule that is built when `count` labels have been used. -/
def nextFlowLabel (count : Nat) : Option Nat :=
  p.flowLabel.map fun labels => labels.getD (count % labels.length) 0

def ipv6Val (count : Nat) : List UInt8 :=
  List.ofFn p.clientIp6 ++ List.ofFn p.serverIp6 ++
    (match p.nextFlowLabel count with
      | some label => net16 (label / 2 ^ 16) ++ net16 label
      | none => [0, 0, 0, 0]) ++
    [0, if p.tos ≠ DEF_TOS then UInt8.ofNat p.tos.toNat else 0, 0, 0]

def ipv6Mask (count : Nat) : List UInt8 :=
  List.replicate 32 (0xff : UInt8) ++
    (match p.nextFlowLabel count with
      | some _ => ([0, 0x0f, 0xff, 0xff] : List UInt8)
      | none => [0, 0, 0, 0]) ++
    [0, if p.tos ≠ DEF_TOS then 0xff else 0, 0, 0]

def ipv4Val : List UInt8 :=
  List.ofFn p.clientIp ++ List.ofFn p.serverIp ++ (if ipv4Ext then
    [0, if p.tos ≠ DEF_TOS then UInt8.ofNat p.tos.toNat else 0, 0, 0] else [])

def ipv4Mask : List UInt8 :=
  List.replicate 8 (0xff : UInt8) ++ (if ipv4Ext then
    [0, if p.tos ≠ DEF_TOS then 0xff else 0, 0, 0] else [])

/-- `fill_ip_spec` on a specification of zeros; only a server fills the filters. -/
def fillIpSpec (offset count : Nat) : FlowSpec where
  type := p.ipSpecType ipv4Ext
  offset := offset
  val := filterBytes <| if p.machine = .server then
    if p.rawIpv6 then p.ipv6Val count else p.ipv4Val ipv4Ext else []
  mask := filterBytes <| if p.machine = .server then
    if p.rawIpv6 then p.ipv6Mask count else p.ipv4Mask ipv4Ext else []

/-- `user_param->flow_label[1]` behind a rule. -/
def countLabel (count : Nat) : Nat :=
  if p.haveIpHeader ∧ p.machine = .server ∧ p.rawIpv6 ∧ p.flowLabel.isSome then count + 1
  else count

def ethSpec : FlowSpec where
  type := .eth
  offset := flowAttrSize
  val := filterBytes (List.ofFn p.sourceMac)
  mask := filterBytes (List.replicate 6 0xff)

def tcpUdpSpec (offset localPort remotePort : Nat) : FlowSpec where
  type := if p.tcp then .tcp else .udp
  offset := offset
  val := filterBytes <| if p.machine = .server then net16 localPort ++ net16 remotePort
    else net16 remotePort ++ net16 localPort
  mask := filterBytes (List.replicate 4 0xff)

/-- The specifications of a rule in front of the last step of `set_up_flow_rules`, the one that
`spec_info` points to first. -/
def flowSpecs (localPort remotePort count : Nat) : List FlowSpec :=
  let ipAt := flowAttrSize + if p.haveIpHeader then FlowSpecType.eth.size else 0
  (if p.isUdpOrTcp then
    [p.tcpUdpSpec (ipAt + p.getIpSize ipv4Ext) localPort remotePort] else []) ++
  (if p.haveIpHeader then [p.fillIpSpec ipv4Ext ipAt count] else []) ++ [p.ethSpec]

/-- The offsets at which the last step of `set_up_flow_rules` stores the type and its mask. -/
def etherTypeVal : Nat := FlowSpecType.eth.valAt + etherTypeAt
def etherTypeMask : Nat := FlowSpecType.eth.maskAt + etherTypeAt

/-- The last step: the type goes to wherever `spec_info` points. -/
def storeEtherType (s : FlowSpec) : FlowSpec :=
  if p.isEthertype then
    (((s.store etherTypeVal (UInt8.ofNat (p.ethertype / 256))).store (etherTypeVal + 1)
      (UInt8.ofNat p.ethertype)).store etherTypeMask 0xff).store (etherTypeMask + 1) 0xff
  else s

def setUpFlowRules (localPort remotePort count : Nat) : FlowRule :=
  let isPort := p.isServerPort || p.isClientPort
  let specs := p.flowSpecs ipv4Ext localPort remotePort count
  { size := p.calcFlowRulesSize ipv4Ext p.haveIpHeader isPort
    numOfSpecs := 1 + p.haveIpHeader.toNat + isPort.toNat
    specs := match specs with
      | s :: l => p.storeEtherType s :: l
      | [] => []
    stored := specs.map (fun s => (s.offset, s.type.size)) ++
      if p.isEthertype then (specs.take 1).flatMap fun s =>
        [(s.offset + etherTypeVal, 2), (s.offset + etherTypeMask, 2)] else [] }

/-- The loop of `send_set_up_connection`, from a flow on. -/
def flowRuleLoop : List Nat → Nat → List FlowRule
  | [], _ => []
  | i :: l, count =>
    p.setUpFlowRules ipv4Ext (p.serverPort + i) (p.clientPort + i) count ::
      flowRuleLoop l (p.countLabel count)

def flowRules : List FlowRule := p.flowRuleLoop ipv4Ext (List.range p.flows) 0

/-- The addresses that `send_set_up_connection` gives to the own packets. -/
def myDestInfo : RawEthernetInfo where
  mac := p.sourceMac
  ip := if p.isClientIp && !p.rawIpv6 then
    if p.machine = .client then p.clientIp else p.serverIp else fun _ => 0
  ip6 := if p.isClientIp && p.rawIpv6 then
    if p.machine = .client then p.clientIp6 else p.serverIp6 else fun _ => 0
  port := if p.machine = .client then p.clientPort else p.serverPort

def remDestInfo : RawEthernetInfo where
  mac := p.destMac
  ip := if p.rawIpv6 then fun _ => 0 else
    if p.machine = .client then p.serverIp else p.clientIp
  ip6 := if p.rawIpv6 then if p.machine = .client then p.serverIp6 else p.clientIp6
    else fun _ => 0
  port := if p.machine = .client then p.serverPort else p.clientPort

end RawEthParameters

end Perftest
