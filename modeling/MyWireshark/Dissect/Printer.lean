import MyWireshark.Dissect.Parsers
import MyWireshark.DispFilter.Parser

/-! print_packet: the summary lines of the packet classes, the hex dump, and the decode that
leads to them. -/
namespace MyWireshark.Dissect
open Bytes DispFilter

/-! Formats -/

/-- The conversion `%0<width>x`. -/
def hex (width n : Nat) : String :=
  let digits := Nat.toDigits 16 n
  String.ofList (List.replicate (width - digits.length) '0' ++ digits)

def padded6 (n : Nat) : String :=
  let digits := Nat.toDigits 10 n
  String.ofList (List.replicate (6 - digits.length) '0' ++ digits)

def decimal (b : UInt8) : String := toString b.toNat

def ethMacToStr (mac : MacAddr) : String :=
  ":".intercalate (mac.toList.map fun b => hex 2 b.toNat)

def ipAddrToStr (addr : Ipv4Addr) : String := ".".intercalate (addr.toList.map decimal)

def ipv6AddrToStr (addr : Ipv6Addr) : String :=
  ":".intercalate ((List.finRange 8).map fun k =>
    hex 0 (addr[2 * k.val].toNat <<< 8 ||| addr[2 * k.val + 1].toNat))

def hextets (addr : Ipv6Addr) : List Nat :=
  (List.finRange 8).map fun k => addr[2 * k.val].toNat <<< 8 ||| addr[2 * k.val + 1].toNat

/-! The packet classes -/

structure PacketBase where
  tsSeconds : Nat
  tsMicroseconds : Nat
  captureLength : Nat
  eth : EthHeader
  ip : Option IpHeader

/-- A Packet or an object of one of its derived classes. -/
inductive Packet where
  | packet (base : PacketBase)
  | tcp (base : PacketBase) (tcp : TcpHeader)
  | udp (base : PacketBase) (udp : UdpHeader)
  | icmp (base : PacketBase) (icmp : IcmpHeader)
  | arp (base : PacketBase) (arp : ArpHeader)
  | ipv6 (base : PacketBase) (ipv6 : Ipv6Header) (tcp : Option TcpHeader) (udp : Option UdpHeader)
      (icmp : Option IcmpHeader)

def Packet.base : Packet → PacketBase
  | .packet base | .tcp base _ | .udp base _ | .icmp base _ | .arp base _ | .ipv6 base .. => base

def Packet.protocolName : Packet → String
  | .packet base => if base.ip.isSome then "IP" else "ETH"
  | .tcp .. => "TCP"
  | .udp .. => "UDP"
  | .icmp .. => "ICMP"
  | .arp .. => "ARP"
  | .ipv6 _ _ tcpHdr udpHdr icmpHdr =>
    if tcpHdr.isSome then "TCP" else if udpHdr.isSome then "UDP"
    else if icmpHdr.isSome then "ICMPv6" else "IPv6"

def printIp : Option IpHeader → String
  | none => ""
  | some ip =>
    " " ++ ipAddrToStr ip.srcAddr ++ " > " ++ ipAddrToStr ip.dstAddr ++ " ttl=" ++ decimal ip.ttl ++
      if ip.checksumValid then "" else " ip_csum=BAD"

/-- Packet::print -/
def printBase (base : PacketBase) (protocolName : String) : String :=
  toString base.tsSeconds ++ "." ++ padded6 base.tsMicroseconds ++ " len=" ++
    toString base.captureLength ++ " " ++ ethMacToStr base.eth.srcMac ++ " > " ++
    ethMacToStr base.eth.dstMac ++
    (if base.eth.hasVlan then " vlan=" ++ toString (ethVlanId base.eth.vlanTci) else "") ++
    " [" ++ protocolName ++ "]" ++ printIp base.ip

/-- The flags in the order print_flags tests them. -/
def tcpFlagNames : List (UInt8 × String) :=
  [(0x02, "SYN"), (0x01, "FIN"), (0x08, "PSH"), (0x04, "RST"), (0x20, "URG"), (0x10, "ACK")]

def printFlags (flags : UInt8) : String :=
  String.join (tcpFlagNames.map fun (flag, name) => if flags &&& flag ≠ 0 then name else "")

def printTcpSummary (tcp : TcpHeader) : String :=
  " " ++ toString tcp.srcPort ++ " > " ++ toString tcp.dstPort ++ " seq=" ++ toString tcp.seqNum ++
    " ack=" ++ toString tcp.ackNum ++ " flags=[" ++ printFlags tcp.flags ++ "]" ++
    if tcp.checksumValid then "" else " tcp_csum=BAD"

def printUdpSummary (udp : UdpHeader) (checksumMandatory : Bool) : String :=
  let reportBad :=
    if checksumMandatory then !udp.checksumValid else udp.checksumPresent && !udp.checksumValid
  " " ++ toString udp.srcPort ++ " > " ++ toString udp.dstPort ++ " len=" ++ toString udp.length ++
    if reportBad then " udp_csum=BAD" else ""

def icmpTypeName (type : UInt8) : IcmpFamily → Option String
  | .v6 =>
    if type = icmpv6TypeDestUnreachable then some "dest-unreachable"
    else if type = icmpv6TypePacketTooBig then some "packet-too-big"
    else if type = icmpv6TypeTimeExceeded then some "time-exceeded"
    else none
  | .v4 =>
    if type = icmpv4TypeDestUnreachable then some "dest-unreachable"
    else if type = icmpv4TypeTimeExceeded then some "time-exceeded"
    else none

def printIcmpSummary (icmp : IcmpHeader) (family : IcmpFamily) : String :=
  (if icmp.isEcho then
    let isRequest := icmp.type =
      if family = .v6 then icmpv6TypeEchoRequest else icmpv4TypeEchoRequest
    " " ++ (if isRequest then "echo-request" else "echo-reply") ++ " id=" ++
      toString icmp.echoId ++ " seq=" ++ toString icmp.echoSeq
  else
    match icmpTypeName icmp.type family with
    | some name => " " ++ name ++ " code=" ++ decimal icmp.code
    | none => " type=" ++ decimal icmp.type ++ " code=" ++ decimal icmp.code) ++
  if icmp.checksumValid then "" else " icmp_csum=BAD"

def printArpSummary (arp : ArpHeader) : String :=
  if arp.opcode = arpOpRequest then
    " who-has " ++ ipAddrToStr arp.targetIp ++ " tell " ++ ipAddrToStr arp.senderIp
  else if arp.opcode = arpOpReply then
    " " ++ ipAddrToStr arp.senderIp ++ " is-at " ++ ethMacToStr arp.senderMac
  else " op=" ++ toString arp.opcode

def nextHeaderName (nextHeader : UInt8) : String :=
  if nextHeader = ipProtoTcp then "TCP"
  else if nextHeader = ipProtoUdp then "UDP"
  else if nextHeader = ipProtoIcmpv6 then "ICMPv6"
  else decimal nextHeader

def printIpv6Summary (ipv6 : Ipv6Header) (tcp : Option TcpHeader) (udp : Option UdpHeader)
    (icmp : Option IcmpHeader) : String :=
  " " ++ ipv6AddrToStr ipv6.srcAddr ++ " > " ++ ipv6AddrToStr ipv6.dstAddr ++ " hop=" ++
    decimal ipv6.hopLimit ++
    match tcp, udp, icmp with
    | some tcp, _, _ => printTcpSummary tcp
    | none, some udp, _ => printUdpSummary udp true
    | none, none, some icmp => printIcmpSummary icmp .v6
    | none, none, none => " next=" ++ nextHeaderName ipv6.nextHeader

def Packet.print (pkt : Packet) : String :=
  printBase pkt.base pkt.protocolName ++
    match pkt with
    | .packet _ => ""
    | .tcp _ hdr => printTcpSummary hdr
    | .udp _ hdr => printUdpSummary hdr false
    | .icmp _ hdr => printIcmpSummary hdr .v4
    | .arp _ hdr => printArpSummary hdr
    | .ipv6 _ hdr tcpHdr udpHdr icmpHdr => printIpv6Summary hdr tcpHdr udpHdr icmpHdr

/-! The hex dump -/

/-- isprint of the C locale, with '.' for the bytes it refuses -/
def printable (b : UInt8) : Char :=
  if 0x20 ≤ b ∧ b ≤ 0x7e then Char.ofNat b.toNat else '.'

def hexDumpLine (data : List UInt8) (length offset : Nat) : Option String := do
  let chunk := if length - offset < 16 then length - offset else 16
  let bytes ← (List.range chunk).mapM fun i => data[offset + i]?
  let columns := (List.range 16).map fun i =>
    (match bytes[i]? with
    | some b => hex 2 b.toNat
    | none => "  ") ++ if i % 2 = 1 then " " else ""
  return "  0x" ++ hex 4 offset ++ ":  " ++ String.join columns ++ " " ++
    String.ofList (bytes.map printable) ++ "\n"

/-- What the loop of hex_dump writes in its first `turns` turns from `offset` on. The offset
is of 32 bits: the loop ends unless it wraps around, in the last 15 lengths. -/
def hexDump (data : List UInt8) (length : Nat) : (turns offset : Nat) → Option String
  | 0, _ => some ""
  | turns + 1, offset =>
    if offset < length then do
      let line ← hexDumpLine data length offset
      let rest ← hexDump data length turns (u32 (offset + 16))
      return line ++ rest
    else some ""

/-! The decode -/

/-- The arguments of print_packet but the filter. The length is that of the packet and has
32 bits. -/
structure Job where
  packet : List UInt8
  tsSeconds : Nat
  tsMicroseconds : Nat
  packetNumber : Nat
  small : packet.length < 2 ^ 32

def Job.length (job : Job) : Nat := job.packet.length

/-- What a call did: the record the filter was asked about, and the text written. -/
structure Printed where
  record : Fields
  text : String

def zeroFields : Fields where
  ethSrc := .replicate 6 0
  ethDst := .replicate 6 0
  hasIp := 0
  ipSrc := .replicate 4 0
  ipDst := .replicate 4 0
  hasIpv6 := 0
  ipv6Src := .replicate 16 0
  ipv6Dst := .replicate 16 0
  hasTcp := 0
  tcpSrcPort := 0
  tcpDstPort := 0
  hasUdp := 0
  udpSrcPort := 0
  udpDstPort := 0

def passesFilter (filter : Option Dispfilter) (fields : Fields) : Option Bool :=
  match filter with
  | none => some true
  | some filter => dispfilterMatches (some filter) fields

section
variable (job : Job) (filter : Option Dispfilter) (turns : Nat)

/-- The common part of finish_raw and finish: `line` and the dump, if the filter agrees. -/
def finishLine (fields : Fields) (line : String) : Option Printed := do
  if !(← passesFilter filter fields) then
    return ⟨fields, ""⟩
  let dump ← hexDump job.packet job.length turns 0
  return ⟨fields, "[#" ++ toString job.packetNumber ++ "] " ++ line ++ "\n" ++ dump⟩

def finishRaw (fields : Fields) (message : String) : Option Printed :=
  finishLine job filter turns fields message

/-- finish; `suffix` is empty for the null pointer. -/
def finish (fields : Fields) (pkt : Packet) (suffix : String) : Option Printed :=
  finishLine job filter turns fields (pkt.print ++ suffix)

def packetBase (eth : EthHeader) (ip : Option IpHeader) : PacketBase :=
  ⟨job.tsSeconds, job.tsMicroseconds, job.length, eth, ip⟩

def printArp (fields : Fields) (eth : EthHeader) (payload : Span) : Option Printed := do
  match ← arpParse job.packet payload with
  | some arp => finish job filter turns fields (.arp (packetBase job eth none) arp) ""
  | none => finish job filter turns fields (.packet (packetBase job eth none)) " ARP (truncated)"

def printIpv6Payload (fields : Fields) (eth : EthHeader) (ipv6 : Ipv6Header) (payload : Span) :
    Option Printed := do
  let base := packetBase job eth none
  if ipv6.nextHeader = ipProtoTcp then
    match ← tcpParse job.packet payload with
    | some (tcp, _) =>
      let ok ← tcpVerifyChecksumIpv6 job.packet payload ipv6.srcAddr ipv6.dstAddr
      let tcp := { tcp with checksumValid := ok }
      finish job filter turns
        { fields with hasTcp := 1, tcpSrcPort := tcp.srcPort, tcpDstPort := tcp.dstPort }
        (.ipv6 base ipv6 (some tcp) none none) ""
    | none => finish job filter turns fields (.ipv6 base ipv6 none none none) " TCP (truncated)"
  else if ipv6.nextHeader = ipProtoUdp then
    match ← udpParse job.packet payload with
    | some (udp, _) =>
      let ok ← udpVerifyChecksumIpv6 job.packet payload ipv6.srcAddr ipv6.dstAddr
      let udp := { udp with checksumValid := ok }
      finish job filter turns
        { fields with hasUdp := 1, udpSrcPort := udp.srcPort, udpDstPort := udp.dstPort }
        (.ipv6 base ipv6 none (some udp) none) ""
    | none => finish job filter turns fields (.ipv6 base ipv6 none none none) " UDP (truncated)"
  else if ipv6.nextHeader = ipProtoIcmpv6 then
    match ← icmpParse job.packet payload .v6 with
    | some icmp =>
      let ok ← icmpv6VerifyChecksum job.packet payload ipv6.srcAddr ipv6.dstAddr
      finish job filter turns fields
        (.ipv6 base ipv6 none none (some { icmp with checksumValid := ok })) ""
    | none => finish job filter turns fields (.ipv6 base ipv6 none none none) " ICMPv6 (truncated)"
  else finish job filter turns fields (.ipv6 base ipv6 none none none) ""

def printIpv6 (fields : Fields) (eth : EthHeader) (payload : Span) : Option Printed := do
  match ← ipv6Parse job.packet payload with
  | some (ipv6, payload) =>
    printIpv6Payload job filter turns
      { fields with hasIpv6 := 1, ipv6Src := ipv6.srcAddr, ipv6Dst := ipv6.dstAddr } eth ipv6
      payload
  | none => finish job filter turns fields (.packet (packetBase job eth none)) " IPv6 (truncated)"

def printIpPayload (fields : Fields) (eth : EthHeader) (ip : IpHeader) (payload : Span) :
    Option Printed := do
  let base := packetBase job eth (some ip)
  if ip.protocol = ipProtoTcp then
    match ← tcpParse job.packet payload with
    | some (tcp, _) =>
      let ok ← tcpVerifyChecksum job.packet payload ip.srcAddr ip.dstAddr
      let tcp := { tcp with checksumValid := ok }
      finish job filter turns
        { fields with hasTcp := 1, tcpSrcPort := tcp.srcPort, tcpDstPort := tcp.dstPort }
        (.tcp base tcp) ""
    | none => finish job filter turns fields (.packet base) " TCP (truncated)"
  else if ip.protocol = ipProtoUdp then
    match ← udpParse job.packet payload with
    | some (udp, _) =>
      let ok ← udpVerifyChecksum job.packet payload ip.srcAddr ip.dstAddr
      let udp := { udp with checksumValid := ok }
      finish job filter turns
        { fields with hasUdp := 1, udpSrcPort := udp.srcPort, udpDstPort := udp.dstPort }
        (.udp base udp) ""
    | none => finish job filter turns fields (.packet base) " UDP (truncated)"
  else if ip.protocol = ipProtoIcmp then
    match ← icmpParse job.packet payload .v4 with
    | some icmp =>
      let ok ← icmpv4VerifyChecksum job.packet payload
      finish job filter turns fields (.icmp base { icmp with checksumValid := ok }) ""
    | none => finish job filter turns fields (.packet base) " ICMP (truncated)"
  else finish job filter turns fields (.packet base) (" proto=" ++ decimal ip.protocol)

/-- The rest of print_packet, for ETH_TYPE_IPV4. -/
def printIpv4 (fields : Fields) (eth : EthHeader) (payload : Span) : Option Printed := do
  match ← ipParse job.packet payload with
  | some (ip, payload) =>
    printIpPayload job filter turns
      { fields with hasIp := 1, ipSrc := ip.srcAddr, ipDst := ip.dstAddr } eth ip payload
  | none => finishRaw job filter turns fields "(truncated IPv4 header)"

/-- print_packet, watched for `turns` turns of its hex dump. -/
def printPacket : Option Printed := do
  match ← ethParse job.packet ⟨0, job.length⟩ with
  | none => finishRaw job filter turns zeroFields "(truncated Ethernet frame)"
  | some (eth, payload) =>
    let fields := { zeroFields with ethSrc := eth.srcMac, ethDst := eth.dstMac }
    if eth.etherType = ethTypeArp then printArp job filter turns fields eth payload
    else if eth.etherType = ethTypeIpv6 then printIpv6 job filter turns fields eth payload
    else if eth.etherType ≠ ethTypeIpv4 then
      finish job filter turns fields (.packet (packetBase job eth none)) ""
    else printIpv4 job filter turns fields eth payload

end

end MyWireshark.Dissect
