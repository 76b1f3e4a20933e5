import MyWireshark.Dissect.Checksum

/-! The header parsers of eth_parser.c, arp_parser.c, ip_parser.c, ipv6_parser.c,
tcp_udp_parser.c and icmp_parser.c. A parser gets the capture and the span it may look at;
it returns `none` when it reads outside the capture, `some none` for its `return -1`, and
otherwise the header with the span of the payload. -/
namespace MyWireshark.Dissect
open Bytes DispFilter

/-! Ethernet -/

def ethHeaderLen : Nat := 14
def ethVlanTagLen : Nat := 4
def ethTypeIpv4 : Nat := 0x0800
def ethTypeArp : Nat := 0x0806
def ethTypeIpv6 : Nat := 0x86DD
def ethTypeVlan : Nat := 0x8100

structure EthHeader where
  dstMac : MacAddr
  srcMac : MacAddr
  etherType : Nat
  hasVlan : Bool
  vlanTci : Nat

def ethVlanId (tci : Nat) : Nat := tci &&& 0x0FFF

def ethParse (mem : List UInt8) (data : Span) : Option (Option (EthHeader × Span)) := do
  if data.len < ethHeaderLen then
    return none
  let dstMac ← readBytes mem data.start 6
  let srcMac ← readBytes mem (data.start + 6) 6
  let typeOrTpid ← read16 mem (data.start + 12)
  if typeOrTpid = ethTypeVlan then
    if data.len < ethHeaderLen + ethVlanTagLen then
      return none
    let vlanTci ← read16 mem (data.start + 14)
    let etherType ← read16 mem (data.start + 16)
    return some (⟨dstMac, srcMac, etherType, true, vlanTci⟩,
      data.advance (ethHeaderLen + ethVlanTagLen))
  else
    return some (⟨dstMac, srcMac, typeOrTpid, false, 0⟩, data.advance ethHeaderLen)

/-! ARP -/

def arpHeaderLen : Nat := 28
def arpHtypeEthernet : Nat := 1
def arpPtypeIpv4 : Nat := 0x0800
def arpOpRequest : Nat := 1
def arpOpReply : Nat := 2

structure ArpHeader where
  hardwareType : Nat
  protocolType : Nat
  hardwareAddrLen : UInt8
  protocolAddrLen : UInt8
  opcode : Nat
  senderMac : MacAddr
  senderIp : Ipv4Addr
  targetMac : MacAddr
  targetIp : Ipv4Addr

def arpParse (mem : List UInt8) (data : Span) : Option (Option ArpHeader) := do
  if data.len < arpHeaderLen then
    return none
  let htype ← read16 mem data.start
  let ptype ← read16 mem (data.start + 2)
  let hlen ← mem[data.start + 4]?
  let plen ← mem[data.start + 5]?
  if htype ≠ arpHtypeEthernet ∨ ptype ≠ arpPtypeIpv4 ∨ hlen ≠ 6 ∨ plen ≠ 4 then
    return none
  let opcode ← read16 mem (data.start + 6)
  let senderMac ← readBytes mem (data.start + 8) 6
  let senderIp ← readBytes mem (data.start + 14) 4
  let targetMac ← readBytes mem (data.start + 18) 6
  let targetIp ← readBytes mem (data.start + 24) 4
  return some ⟨htype, ptype, hlen, plen, opcode, senderMac, senderIp, targetMac, targetIp⟩

/-! IPv4 -/

def ipHeaderMinLen : Nat := 20
def ipProtoIcmp : UInt8 := 1
def ipProtoTcp : UInt8 := 6
def ipProtoUdp : UInt8 := 17

structure IpHeader where
  version : UInt8
  ihl : UInt8
  tos : UInt8
  totalLength : Nat
  identification : Nat
  flags : Nat
  fragmentOffset : Nat
  ttl : UInt8
  protocol : UInt8
  checksum : Nat
  srcAddr : Ipv4Addr
  dstAddr : Ipv4Addr
  checksumValid : Bool

/-- The payload ip_parse hands on: what was captured, or less when the header says so. -/
def ipPayload (data : Span) (headerLen totalLength : Nat) : Span :=
  let payload := data.advance headerLen
  if totalLength ≥ headerLen ∧ totalLength - headerLen < payload.len then
    { payload with len := totalLength - headerLen }
  else payload

def ipParse (mem : List UInt8) (data : Span) : Option (Option (IpHeader × Span)) := do
  if data.len < ipHeaderMinLen then
    return none
  let versionIhl ← mem[data.start]?
  let version := versionIhl >>> 4
  let ihl := versionIhl &&& 0x0F
  let headerLen := ihl.toNat * 4
  if version ≠ 4 ∨ ihl < 5 ∨ headerLen > data.len then
    return none
  let checksumValid ← checksumVerify mem ⟨data.start, headerLen⟩
  let tos ← mem[data.start + 1]?
  let totalLength ← read16 mem (data.start + 2)
  let identification ← read16 mem (data.start + 4)
  let flagsFrag ← read16 mem (data.start + 6)
  let ttl ← mem[data.start + 8]?
  let protocol ← mem[data.start + 9]?
  let checksum ← read16 mem (data.start + 10)
  let srcAddr ← readBytes mem (data.start + 12) 4
  let dstAddr ← readBytes mem (data.start + 16) 4
  return some (⟨version, ihl, tos, totalLength, identification, flagsFrag >>> 13,
    flagsFrag &&& 0x1FFF, ttl, protocol, checksum, srcAddr, dstAddr, checksumValid⟩,
    ipPayload data headerLen totalLength)

/-! IPv6 -/

def ipv6HeaderLen : Nat := 40
def ipProtoIcmpv6 : UInt8 := 58

structure Ipv6Header where
  version : UInt8
  trafficClass : UInt8
  flowLabel : Nat
  payloadLength : Nat
  nextHeader : UInt8
  hopLimit : UInt8
  srcAddr : Ipv6Addr
  dstAddr : Ipv6Addr

def ipv6Parse (mem : List UInt8) (data : Span) : Option (Option (Ipv6Header × Span)) := do
  if data.len < ipv6HeaderLen then
    return none
  let b0 ← mem[data.start]?
  let version := b0 >>> 4
  if version ≠ 6 then
    return none
  let b1 ← mem[data.start + 1]?
  let b2 ← mem[data.start + 2]?
  let b3 ← mem[data.start + 3]?
  let trafficClass := (b0 &&& 0x0F) <<< 4 ||| b1 >>> 4
  let flowLabel := (b1 &&& 0x0F).toNat <<< 16 ||| b2.toNat <<< 8 ||| b3.toNat
  let payloadLength ← read16 mem (data.start + 4)
  let nextHeader ← mem[data.start + 6]?
  let hopLimit ← mem[data.start + 7]?
  let srcAddr ← readBytes mem (data.start + 8) 16
  let dstAddr ← readBytes mem (data.start + 24) 16
  return some (⟨version, trafficClass, flowLabel, payloadLength, nextHeader, hopLimit, srcAddr,
    dstAddr⟩, data.advance ipv6HeaderLen)

/-! TCP and UDP -/

def tcpHeaderMinLen : Nat := 20
def udpHeaderLen : Nat := 8

structure TcpHeader where
  srcPort : Nat
  dstPort : Nat
  seqNum : Nat
  ackNum : Nat
  dataOffset : UInt8
  flags : UInt8
  windowSize : Nat
  checksum : Nat
  urgentPointer : Nat
  checksumValid : Bool

def tcpParse (mem : List UInt8) (data : Span) : Option (Option (TcpHeader × Span)) := do
  if data.len < tcpHeaderMinLen then
    return none
  let b12 ← mem[data.start + 12]?
  let dataOffset := b12 >>> 4
  let headerLen := dataOffset.toNat * 4
  if dataOffset < 5 ∨ headerLen > data.len then
    return none
  let srcPort ← read16 mem data.start
  let dstPort ← read16 mem (data.start + 2)
  let seqNum ← read32 mem (data.start + 4)
  let ackNum ← read32 mem (data.start + 8)
  let b13 ← mem[data.start + 13]?
  let windowSize ← read16 mem (data.start + 14)
  let checksum ← read16 mem (data.start + 16)
  let urgentPointer ← read16 mem (data.start + 18)
  return some (⟨srcPort, dstPort, seqNum, ackNum, dataOffset, b13 &&& 0x3F, windowSize, checksum,
    urgentPointer, false⟩, data.advance headerLen)

structure UdpHeader where
  srcPort : Nat
  dstPort : Nat
  length : Nat
  checksum : Nat
  checksumPresent : Bool
  checksumValid : Bool

def udpParse (mem : List UInt8) (data : Span) : Option (Option (UdpHeader × Span)) := do
  if data.len < udpHeaderLen then
    return none
  let srcPort ← read16 mem data.start
  let dstPort ← read16 mem (data.start + 2)
  let length ← read16 mem (data.start + 4)
  let checksum ← read16 mem (data.start + 6)
  return some (⟨srcPort, dstPort, length, checksum, checksum != 0, false⟩,
    data.advance udpHeaderLen)

def tcpVerifyChecksum (mem : List UInt8) (segment : Span) (srcIp dstIp : Ipv4Addr) :
    Option Bool :=
  if segment.len < tcpHeaderMinLen then some false
  else checksumVerifyIpv4Pseudo mem segment srcIp dstIp ipProtoTcp

/-- A zero checksum field counts as valid. -/
def udpVerifyChecksum (mem : List UInt8) (segment : Span) (srcIp dstIp : Ipv4Addr) :
    Option Bool := do
  if segment.len < udpHeaderLen then
    return false
  let checksumField ← read16 mem (segment.start + 6)
  if checksumField = 0 then
    return true
  checksumVerifyIpv4Pseudo mem segment srcIp dstIp ipProtoUdp

def tcpVerifyChecksumIpv6 (mem : List UInt8) (segment : Span) (srcIp dstIp : Ipv6Addr) :
    Option Bool :=
  if segment.len < tcpHeaderMinLen then some false
  else checksumVerifyIpv6Pseudo mem segment srcIp dstIp ipProtoTcp

/-- There is no exemption for a zero field over IPv6. -/
def udpVerifyChecksumIpv6 (mem : List UInt8) (segment : Span) (srcIp dstIp : Ipv6Addr) :
    Option Bool :=
  if segment.len < udpHeaderLen then some false
  else checksumVerifyIpv6Pseudo mem segment srcIp dstIp ipProtoUdp

/-! ICMP -/

def icmpHeaderLen : Nat := 8
def icmpv4TypeEchoReply : UInt8 := 0
def icmpv4TypeDestUnreachable : UInt8 := 3
def icmpv4TypeEchoRequest : UInt8 := 8
def icmpv4TypeTimeExceeded : UInt8 := 11
def icmpv6TypeDestUnreachable : UInt8 := 1
def icmpv6TypePacketTooBig : UInt8 := 2
def icmpv6TypeTimeExceeded : UInt8 := 3
def icmpv6TypeEchoRequest : UInt8 := 128
def icmpv6TypeEchoReply : UInt8 := 129

inductive IcmpFamily where
  | v4 | v6
  deriving DecidableEq

structure IcmpHeader where
  type : UInt8
  code : UInt8
  checksum : Nat
  checksumValid : Bool
  isEcho : Bool
  echoId : Nat
  echoSeq : Nat

def icmpParse (mem : List UInt8) (data : Span) (family : IcmpFamily) :
    Option (Option IcmpHeader) := do
  if data.len < icmpHeaderLen then
    return none
  let type ← mem[data.start]?
  let code ← mem[data.start + 1]?
  let checksum ← read16 mem (data.start + 2)
  let echoRequestType := if family = .v6 then icmpv6TypeEchoRequest else icmpv4TypeEchoRequest
  let echoReplyType := if family = .v6 then icmpv6TypeEchoReply else icmpv4TypeEchoReply
  if type = echoRequestType ∨ type = echoReplyType then
    let echoId ← read16 mem (data.start + 4)
    let echoSeq ← read16 mem (data.start + 6)
    return some ⟨type, code, checksum, false, true, echoId, echoSeq⟩
  else
    return some ⟨type, code, checksum, false, false, 0, 0⟩

def icmpv4VerifyChecksum (mem : List UInt8) (segment : Span) : Option Bool :=
  if segment.len < icmpHeaderLen then some false else checksumVerify mem segment

def icmpv6VerifyChecksum (mem : List UInt8) (segment : Span) (srcIp dstIp : Ipv6Addr) :
    Option Bool :=
  if segment.len < icmpHeaderLen then some false
  else checksumVerifyIpv6Pseudo mem segment srcIp dstIp ipProtoIcmpv6

end MyWireshark.Dissect
