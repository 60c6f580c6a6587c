import Perftest.Lib.ByteMemory
import Perftest.Lib.CMachine
import Perftest.Lib.NetBytes
import Perftest.Connection
import Perftest.Parameters

namespace Perftest

open ByteMemory NetBytes

def IP_ETHER_TYPE : Nat := 0x800
def IP6_ETHER_TYPE : Nat := 0x86DD
def UDP_PROTOCOL : Nat := 0x11
def TCP_PROTOCOL : Nat := 0x06
def DEFAULT_IPV6_NEXT_HDR : Nat := 0x3b
def VLAN_TPID : Nat := 0x8100
def VLAN_VID : Nat := 1
def VLAN_CFI : Nat := 0
def VLAN_PCP_VARIOUS : Nat := 8
def RAWETH_ADDITION : Nat := 18
def HW_CRC_ADDITION : Nat := 4
def RAWETH_MIN_MSG_SIZE : Nat := 64
def MAX_MTU_RAW_ETERNET : Nat := 9600

abbrev Mac := Fin 6 → UInt8
abbrev Ip4 := Fin 4 → UInt8
abbrev Ip6 := Fin 16 → UInt8

instance ip6_length : NeZero 16 := ⟨by decide⟩

/-- The addresses of one side, in the order in which they stand in memory. -/
structure RawEthernetInfo where
  mac : Mac
  ip : Ip4
  ip6 : Ip6
  port : Nat

/-- The parameters of a Raw Ethernet test that the packets and the flow rules are built from. -/
structure RawEthParameters where
  tst : TestType
  machine : MachineType
  size : Nat
  sourceMac : Mac
  destMac : Mac
  isServerIp : Bool
  isClientIp : Bool
  serverIp : Ip4
  clientIp : Ip4
  serverIp6 : Ip6
  clientIp6 : Ip6
  isServerPort : Bool
  isClientPort : Bool
  serverPort : Nat
  clientPort : Nat
  rawIpv6 : Bool
  tcp : Bool
  isEthertype : Bool
  ethertype : Nat
  vlanEn : Bool
  vlanPcp : Nat
  hopLimit : Nat
  tos : Int
  flowLabel : Option (List Nat)
  flows : Nat

/-- `ip_checksum`'s second loop; one round for each bit of the sum is more than it needs. -/
def foldCarries : Nat → Nat → Nat
  | 0, sum => sum
  | n + 1, sum => if sum / 2 ^ 16 = 0 then sum else foldCarries n (sum % 2 ^ 16 + sum / 2 ^ 16)

/-- The 32-bit words of a header, as the host reads them. -/
def words32 (o : ByteOrder) : List UInt8 → List Nat
  | a :: b :: c :: d :: l =>
    (match o with
      | .little => a.toNat + 256 * (b.toNat + 256 * (c.toNat + 256 * d.toNat))
      | .big => d.toNat + 256 * (c.toNat + 256 * (b.toNat + 256 * a.toNat))) :: words32 o l
  | _ => []

def ipChecksum (o : ByteOrder) (header : List UInt8) : Nat :=
  2 ^ 16 - 1 - foldCarries 64 (words32 o header).sum

/-- `gen_ipv6_header`: the length of the next header is taken off behind `htons`. -/
def genIpv6Header (o : ByteOrder) (saddr daddr : Ip6) (protocol pktSize hopLimit : Nat)
    (isL4 isTcp : Bool) : List UInt8 :=
  let payloadLen := htons o (pktSize + 2 ^ 16 - 40)
  let payloadLen := if isL4 then
      (payloadLen + 2 ^ 16 - if isTcp then 20 else 8) % 2 ^ 16
    else payloadLen
  [0x60, 0, 0, 0] ++ store16 o payloadLen ++
    [UInt8.ofNat (if protocol ≠ 0 then protocol else DEFAULT_IPV6_NEXT_HDR),
      UInt8.ofNat hopLimit] ++ List.ofFn saddr ++ List.ofFn daddr

def genIpv4Header (o : ByteOrder) (saddr daddr : Ip4) (protocol pktSize ttl : Nat) (tos : Int) :
    List UInt8 :=
  let front := [0x45, if tos = DEF_TOS then 0 else UInt8.ofNat tos.toNat] ++
    store16 o (htons o pktSize) ++ [0, 0, 0, 0, UInt8.ofNat ttl, UInt8.ofNat protocol]
  let back := List.ofFn saddr ++ List.ofFn daddr
  front ++ store16 o (ipChecksum o (front ++ [0, 0] ++ back)) ++ back

/-- `gen_udp_header`: the length is that behind an IPv4 header. -/
def genUdpHeader (o : ByteOrder) (srcPort dstPort pktSize : Nat) : List UInt8 :=
  store16 o (htons o srcPort) ++ store16 o (htons o dstPort) ++
    store16 o (htons o (pktSize + 2 ^ 16 - 20)) ++ [0, 0]

def genTcpHeader (o : ByteOrder) (srcPort dstPort : Nat) : List UInt8 :=
  store16 o (htons o srcPort) ++ store16 o (htons o dstPort) ++ List.replicate 8 0 ++ [0x50, 0] ++
    store16 o (htons o 8192) ++ [0, 0, 0, 0]

/-- `gen_eth_header`, with the VLAN tag in front of the type when there is one. -/
def genEthHeader (o : ByteOrder) (srcMac dstMac : Mac) (ethType : Nat) (vlan : Option Nat) :
    List UInt8 :=
  List.ofFn dstMac ++ List.ofFn srcMac ++
    (match vlan with
      | some pcp => net16 VLAN_TPID ++ net16 (pcp % 8 * 2 ^ 13 + VLAN_CFI * 2 ^ 12 + VLAN_VID)
      | none => []) ++ store16 o (htons o ethType)

namespace RawEthParameters

variable (p : RawEthParameters)

def haveIpHeader : Bool := p.isClientIp || p.isServerIp

def isUdpOrTcp : Bool := p.isClientPort && p.isServerPort

def vlanTagSize : Nat := if p.vlanEn then 4 else 0

/-- The `eth_type` of `create_raw_eth_pkt`, a `uint16_t`. -/
def ethType : Nat :=
  if p.isEthertype then p.ethertype
  else if p.haveIpHeader then if p.rawIpv6 then IP6_ETHER_TYPE else IP_ETHER_TYPE
  else (p.size - RAWETH_ADDITION - p.vlanTagSize) % 2 ^ 16

def ipNextProtocol : Nat :=
  if p.isUdpOrTcp then if p.tcp then TCP_PROTOCOL else UDP_PROTOCOL else 0

/-- The static `vlan_pcp` of `build_pkt_on_buffer` at the next packet. -/
def nextVlanPcp (vlanPcp : Nat) : Nat :=
  if p.vlanPcp = VLAN_PCP_VARIOUS then (vlanPcp + 1) % 2 ^ 32 else p.vlanPcp

def ethHeader (o : ByteOrder) (my rem : RawEthernetInfo) (vlanPcp : Nat) : List UInt8 :=
  genEthHeader o my.mac rem.mac p.ethType (if p.vlanEn then some vlanPcp else none)

def ipHeader (o : ByteOrder) (my rem : RawEthernetInfo) (pktSize : Nat) : List UInt8 :=
  if p.haveIpHeader then
    if p.rawIpv6 then
      genIpv6Header o my.ip6 rem.ip6 p.ipNextProtocol pktSize p.hopLimit p.isUdpOrTcp p.tcp
    else genIpv4Header o my.ip rem.ip p.ipNextProtocol pktSize p.hopLimit p.tos
  else []

def l4Header (o : ByteOrder) (my rem : RawEthernetInfo) (pktSize flowsOffset : Nat) : List UInt8 :=
  if p.isUdpOrTcp then
    if p.tcp then genTcpHeader o (my.port + flowsOffset) (rem.port + flowsOffset)
    else genUdpHeader o (my.port + flowsOffset) (rem.port + flowsOffset) pktSize
  else []

/-- What `build_pkt_on_buffer` writes for `pkt_size` being the size of the packet without the link
header and the CRC. -/
def headers (o : ByteOrder) (my rem : RawEthernetInfo) (vlanPcp flowsOffset : Nat) : List UInt8 :=
  let pktSize := p.size - RAWETH_ADDITION - p.vlanTagSize
  p.ethHeader o my rem vlanPcp ++ p.ipHeader o my rem pktSize ++
    p.l4Header o my rem pktSize flowsOffset

end RawEthParameters

/-- The bytes of a list at an address. -/
def writeBytes (mem : Mem) (addr : Nat) (l : List UInt8) : Mem :=
  fun x => if addr ≤ x ∧ x < addr + l.length then byteAt l (x - addr) else mem x

namespace RawEthParameters

variable (p : RawEthParameters)

/-- The `flow_buff_size` that `alloc_ctx` computes. -/
def flowBuffSize (cycleBuffer cacheLineSize numOfQps : Nat) : Nat :=
  incSize (if p.size < cycleBuffer then cycleBuffer else p.size) cacheLineSize * 2 * numOfQps *
    p.flows / numOfQps / 2 / p.flows

/-- The offset and the flow of each packet that `create_raw_eth_pkt` builds; the loop over a flow
ends when no packet fits in front of its limit. -/
def packetPlaces (cycleBuffer cacheLineSize numOfQps : Nat) : List (Nat × Nat) :=
  let flow := p.flowBuffSize cycleBuffer cacheLineSize numOfQps
  let inc := incSize p.size cacheLineSize
  match p.tst with
  | .bw | .latByBw => (List.range p.flows).flatMap fun i =>
      (List.range (flow / inc)).map fun j => (flow * i + j * inc, i)
  | .lat => (List.range p.flows).map fun i => (flow * i, i)
  | .fsRate => []

/-- One call of `build_pkt_on_buffer`, on the memory and the static `vlan_pcp`. -/
def buildPktOnBuffer (o : ByteOrder) (my rem : RawEthernetInfo) (buf : Nat)
    (s : Mem × Nat) (place : Nat × Nat) : Mem × Nat :=
  let vlanPcp := p.nextVlanPcp s.2
  (writeBytes s.1 (buf + place.1) (p.headers o my rem vlanPcp place.2), vlanPcp)

def createRawEthPkt (o : ByteOrder) (my rem : RawEthernetInfo)
    (cycleBuffer cacheLineSize numOfQps buf : Nat) (s : Mem × Nat) : Mem × Nat :=
  (p.packetPlaces cycleBuffer cacheLineSize numOfQps).foldl
    (p.buildPktOnBuffer o my rem buf) s

end RawEthParameters

end Perftest
