import MyWireshark.Dissect.Accepts
import MyWireshark.Dissect.Lines

/-! What print_packet writes about a frame, described by the headers in the frame. -/
namespace MyWireshark.Dissect
open Bytes DispFilter Layers Layout OnesComplement Separated

/-! The formats are unambiguous. -/

section
variable {α : Type} {Wire : α → List UInt8 → Prop}

theorem unambiguous_of_eq {hdrAt : List UInt8 → α} {lenAt : List UInt8 → Nat}
    (h : ∀ s hdr bs, Wire hdr bs → At s 0 bs → hdr = hdrAt s ∧ bs.length = lenAt s) :
    Unambiguous Wire := by
  intro s hdr bs hdr' bs' hwire hwire' hpre hpre'
  have hat : ∀ {cs}, cs <+: s → At s 0 cs := by
    intro cs hcs
    rw [at_iff]
    exact ⟨by have := hcs.length_le; omega, (List.prefix_iff_eq_take.mp hcs).symm⟩
  obtain ⟨rfl, hlen⟩ := h s hdr bs hwire (hat hpre)
  obtain ⟨rfl, hlen'⟩ := h s hdr' bs' hwire' (hat hpre')
  refine ⟨rfl, ?_⟩
  rw [List.prefix_iff_eq_take.mp hpre, List.prefix_iff_eq_take.mp hpre', hlen, hlen']

theorem ethWire_unambiguous : Unambiguous EthWire :=
  unambiguous_of_eq fun _ _ _ hwire hat => hwire.eq hat

theorem arpWire_unambiguous : Unambiguous ArpWire :=
  unambiguous_of_eq fun _ _ _ hwire hat => ⟨(hwire.eq hat).1, (hwire.eq hat).2.2⟩

theorem ipWire_unambiguous : Unambiguous IpWire :=
  unambiguous_of_eq fun _ _ _ hwire hat => ⟨(hwire.eq hat).1, (hwire.eq hat).2.2.2⟩

theorem ipv6Wire_unambiguous : Unambiguous Ipv6Wire :=
  unambiguous_of_eq fun _ _ _ hwire hat => ⟨(hwire.eq hat).1, (hwire.eq hat).2.2⟩

theorem tcpWire_unambiguous : Unambiguous TcpWire :=
  unambiguous_of_eq fun _ _ _ hwire hat => ⟨(hwire.eq hat).1, (hwire.eq hat).2.2⟩

theorem udpWire_unambiguous : Unambiguous UdpWire :=
  unambiguous_of_eq fun _ _ _ hwire hat => hwire.eq hat

theorem icmpWire_unambiguous (family : IcmpFamily) : Unambiguous (IcmpWire family) :=
  unambiguous_of_eq fun _ _ _ hwire hat => hwire.eq hat

end

/-! The description. `pseudo` is the sum of the words of the pseudo-header for a segment of that
length, and `plain` is the name of the protocol in a line about a segment without a header. -/

section
variable (pseudo : Nat → Nat) (plain : Protocol)

def segmentValid (segment : List UInt8) : Bool :=
  sumsToOnes (pseudo segment.length + wordSum segment)

def TcpShown : List UInt8 → Protocol × Segment → Prop :=
  Layer TcpWire (fun tcp bs rest said => said =
      (.tcp, tcpSays { tcp with checksumValid := segmentValid pseudo (bs ++ rest) }))
    (plain, .cut .tcp)

/-- With `optional`, a checksum of zero stands for none. -/
def UdpShown (optional : Bool) : List UInt8 → Protocol × Segment → Prop :=
  Layer UdpWire (fun udp bs rest said => said =
      (.udp, udpSays udp (optional && udp.checksum == 0 || segmentValid pseudo (bs ++ rest))))
    (plain, .cut .udp)

def IcmpShown (family : IcmpFamily) (protocol : Protocol) :
    List UInt8 → Protocol × Segment → Prop :=
  Layer (IcmpWire family) (fun icmp bs rest said => said =
      (protocol, icmpSays { icmp with checksumValid := segmentValid pseudo (bs ++ rest) } family))
    (plain, .cut protocol)

end

def IpShown (ip : IpHeader) (segment : List UInt8) (said : Protocol × Segment) : Prop :=
  let pseudo := ipv4PseudoSum ip.srcAddr ip.dstAddr
  if ip.protocol = ipProtoTcp then TcpShown (pseudo ipProtoTcp) .ip segment said
  else if ip.protocol = ipProtoUdp then UdpShown (pseudo ipProtoUdp) .ip true segment said
  else if ip.protocol = ipProtoIcmp then IcmpShown (fun _ => 0) .ip .v4 .icmp segment said
  else said = (.ip, .other ip.protocol.toNat)

def Ipv6Shown (ipv6 : Ipv6Header) (segment : List UInt8) (said : Protocol × Segment) : Prop :=
  let pseudo := ipv6PseudoSum ipv6.srcAddr ipv6.dstAddr
  if ipv6.nextHeader = ipProtoTcp then TcpShown (pseudo ipProtoTcp) .ipv6 segment said
  else if ipv6.nextHeader = ipProtoUdp then UdpShown (pseudo ipProtoUdp) .ipv6 false segment said
  else if ipv6.nextHeader = ipProtoIcmpv6 then
    IcmpShown (pseudo ipProtoIcmpv6) .ipv6 .v6 .icmpv6 segment said
  else said = (.ipv6, .other ipv6.nextHeader.toNat)

def EthShown (head : Head) (etherType : Nat) (payload : List UInt8) (summary : Summary) : Prop :=
  if etherType = ethTypeArp then
    Layer ArpWire (fun arp _ _ summary => summary = .frame head .arp (.arp (arpSays arp)))
      (.frame head .eth (.cut .arp)) payload summary
  else if etherType = ethTypeIpv6 then
    Layer Ipv6Wire (fun ipv6 _ rest summary =>
        ∃ said, Ipv6Shown ipv6 rest said ∧ summary = ipv6Line head ipv6 said)
      (.frame head .eth (.cut .ipv6)) payload summary
  else if etherType ≠ ethTypeIpv4 then summary = .frame head .eth .nothing
  else
    Layer IpWire (fun ip bs rest summary =>
        ∃ said, IpShown ip (clip bs.length ip.totalLength rest) said ∧
          summary = ipv4Line head ip said)
      .noIpv4 payload summary

def frameHead (job : Job) (eth : EthHeader) : Head where
  tsSeconds := job.tsSeconds
  tsMicroseconds := job.tsMicroseconds
  captureLength := job.packet.length
  srcMac := eth.srcMac
  dstMac := eth.dstMac
  vlanId := if eth.hasVlan then some (eth.vlanTci % 4096) else none

/-- What is to be said about a frame. -/
def Shown (job : Job) : Summary → Prop :=
  Layer EthWire (fun eth _ rest summary => EthShown (frameHead job eth) eth.etherType rest summary)
    .noEthernet job.packet

/-! There is only one thing to be said about a frame. -/

section
variable {pseudo : Nat → Nat} {plain : Protocol} {segment : List UInt8}
  {said said' : Protocol × Segment} {summary summary' : Summary}

theorem TcpShown.unique (h : TcpShown pseudo plain segment said)
    (h' : TcpShown pseudo plain segment said') : said = said' :=
  Layer.unique tcpWire_unambiguous (fun _ _ _ _ _ hn hn' => hn.trans hn'.symm) h h'

theorem UdpShown.unique {optional : Bool} (h : UdpShown pseudo plain optional segment said)
    (h' : UdpShown pseudo plain optional segment said') : said = said' :=
  Layer.unique udpWire_unambiguous (fun _ _ _ _ _ hn hn' => hn.trans hn'.symm) h h'

theorem IcmpShown.unique {family : IcmpFamily} {protocol : Protocol}
    (h : IcmpShown pseudo plain family protocol segment said)
    (h' : IcmpShown pseudo plain family protocol segment said') : said = said' :=
  Layer.unique (icmpWire_unambiguous family) (fun _ _ _ _ _ hn hn' => hn.trans hn'.symm) h h'

theorem IpShown.unique {ip : IpHeader} (h : IpShown ip segment said)
    (h' : IpShown ip segment said') : said = said' := by
  simp only [IpShown] at h h'
  split_ifs at h h'
  · exact h.unique h'
  · exact h.unique h'
  · exact h.unique h'
  · exact h.trans h'.symm

theorem Ipv6Shown.unique {ipv6 : Ipv6Header} (h : Ipv6Shown ipv6 segment said)
    (h' : Ipv6Shown ipv6 segment said') : said = said' := by
  simp only [Ipv6Shown] at h h'
  split_ifs at h h'
  · exact h.unique h'
  · exact h.unique h'
  · exact h.unique h'
  · exact h.trans h'.symm

theorem EthShown.unique {head : Head} {etherType : Nat} {payload : List UInt8}
    (h : EthShown head etherType payload summary) (h' : EthShown head etherType payload summary') :
    summary = summary' := by
  simp only [EthShown] at h h'
  split_ifs at h h'
  · exact Layer.unique arpWire_unambiguous (fun _ _ _ _ _ hn hn' => hn.trans hn'.symm) h h'
  · refine Layer.unique ipv6Wire_unambiguous ?_ h h'
    rintro ipv6 bs rest _ _ ⟨said, hsaid, rfl⟩ ⟨said', hsaid', rfl⟩
    rw [hsaid.unique hsaid']
  · exact h.trans h'.symm
  · refine Layer.unique ipWire_unambiguous ?_ h h'
    rintro ip bs rest _ _ ⟨said, hsaid, rfl⟩ ⟨said', hsaid', rfl⟩
    rw [hsaid.unique hsaid']

theorem Shown.unique {job : Job} (h : Shown job summary) (h' : Shown job summary') :
    summary = summary' :=
  Layer.unique ethWire_unambiguous (fun _ _ _ _ _ hn hn' => hn.unique hn') h h'

end

section
variable {α : Type} {mem bs : List UInt8} {data : Span} {Wire : α → List UInt8 → Prop}
  {γ : Type} {next : α → List UInt8 → List UInt8 → γ → Prop} {cut c : γ}

theorem layer_header (h : data.Fits mem) {hdr : α} (hwire : Wire hdr bs)
    (hstarts : Starts mem data bs) (hnext : next hdr bs ((data.advance bs.length).bytes mem) c) :
    Layer Wire next cut (data.bytes mem) c := by
  rw [hstarts.split h]
  exact .header hwire hnext

theorem layer_none (h : data.Fits mem) (hno : ∀ hdr bs, Wire hdr bs → ¬Starts mem data bs) :
    Layer Wire next cut (data.bytes mem) cut :=
  .none fun hdr bs hwire hpre => hno hdr bs hwire ((starts_iff h).mpr hpre)

end

/-! print_packet, path by path. -/

/-- A piece of print_packet that ends, whatever the filter, with a line that says `summary`. -/
def Writes (job : Job) (run : Option Dispfilter → Nat → Option Printed) (summary : Summary) :
    Prop :=
  ∃ record line, Tells line summary ∧
    ∀ filter turns, run filter turns = finishLine job filter turns record line

def WritesShown (job : Job) (run : Option Dispfilter → Nat → Option Printed)
    (shown : Summary → Prop) : Prop :=
  ∃ summary, shown summary ∧ Writes job run summary

section
variable {job : Job} {fields : Fields} {eth : EthHeader} {payload : Span} {summary : Summary}

theorem writes_finish {pkt : Packet} {suffix : String} (h : Tells (pkt.print ++ suffix) summary) :
    Writes job (fun filter turns => finish job filter turns fields pkt suffix) summary :=
  ⟨fields, _, h, fun _ _ => rfl⟩

theorem writes_finishRaw {message : String} (h : Tells message summary) :
    Writes job (fun filter turns => finishRaw job filter turns fields message) summary :=
  ⟨fields, _, h, fun _ _ => rfl⟩

theorem Writes.read {α : Type} {x : Option α} {a : α}
    {run : α → Option Dispfilter → Nat → Option Printed} (hx : x = some a)
    (h : Writes job (run a) summary) :
    Writes job (fun filter turns => x >>= fun v => run v filter turns) summary := by
  obtain ⟨record, line, htells, hline⟩ := h
  exact ⟨record, line, htells, fun filter turns => by rw [hx]; exact hline filter turns⟩

theorem tells_messages : Tells "(truncated Ethernet frame)" .noEthernet ∧
    Tells "(truncated IPv4 header)" .noIpv4 := by
  refine ⟨?_, ?_⟩
  · exact @Tells.mk "(truncated" ["Ethernet", "frame)"] _ (by decide) (by decide)
  · exact @Tells.mk "(truncated" ["IPv4", "header)"] _ (by decide) (by decide)

theorem cutSuffix_eq : cutSuffix .arp = " ARP (truncated)" ∧
    cutSuffix .ipv6 = " IPv6 (truncated)" ∧ cutSuffix .tcp = " TCP (truncated)" ∧
    cutSuffix .udp = " UDP (truncated)" ∧ cutSuffix .icmp = " ICMP (truncated)" ∧
    cutSuffix .icmpv6 = " ICMPv6 (truncated)" := by
  decide

theorem TcpWire.flags_lt {tcp : TcpHeader} {bs : List UInt8} (h : TcpWire tcp bs) :
    tcp.flags < 64 := by
  obtain ⟨srcPort, dstPort, seqNum, ackNum, k, reserved, ecn, flags, windowSize, checksum,
    urgentPointer, options, hk, hreserved, hecn, hflags, hoptions⟩ := h
  rw [UInt8.lt_iff_toNat_lt, UInt8.toNat_ofNat', Nat.mod_eq_of_lt (by omega)]
  exact hflags

theorem UdpWire.reported {udp : UdpHeader} {bs : List UInt8} (h : UdpWire udp bs) {ok : Bool} :
    (!udp.checksumPresent || (true && udp.checksum == 0 || ok)) =
      (true && udp.checksum == 0 || ok) := by
  obtain ⟨srcPort, dstPort, length, checksum⟩ := h
  dsimp only
  cases hzero : checksum.toNat == 0 <;> simp_all

section
variable {pseudo : Nat → Nat} {plain : Protocol} {cut : Packet} {verify : Option Bool}
  {mk : Protocol × Segment → Summary}

theorem writes_tcp (h : payload.Fits job.packet)
    (hverify : tcpHeaderMinLen ≤ payload.len →
      verify = some (segmentValid pseudo (payload.bytes job.packet))) (pkt : TcpHeader → Packet)
    (htells : ∀ tcp, tcp.flags < 64 → Tells ((pkt tcp).print ++ "") (mk (.tcp, tcpSays tcp)))
    (hcut : Tells (cut.print ++ cutSuffix .tcp) (mk (plain, .cut .tcp))) :
    WritesShown job (fun filter turns => do
        match ← tcpParse job.packet payload with
        | some (tcp, _) =>
          let ok ← verify
          let tcp := { tcp with checksumValid := ok }
          finish job filter turns
            { fields with hasTcp := 1, tcpSrcPort := tcp.srcPort, tcpDstPort := tcp.dstPort }
            (pkt tcp) ""
        | none => finish job filter turns fields cut " TCP (truncated)")
      (fun summary => ∃ said, TcpShown pseudo plain (payload.bytes job.packet) said ∧
        summary = mk said) := by
  rw [cutSuffix_eq.2.2.1] at hcut
  obtain ⟨tcp, bs, hwire, hstarts, hparse⟩ | ⟨hno, hparse⟩ := (tcpParse_takes h).cases
  · -- a whole header is long enough for the verifier to look at the segment
    have hlen : tcpHeaderMinLen ≤ bs.length := by
      obtain ⟨-, hoffset, hlen⟩ := hwire.eq hstarts.there
      rw [hlen, tcpHeaderMinLen]
      omega
    have hsum := hverify (hlen.trans hstarts.len)
    rw [hstarts.split h] at hsum
    exact ⟨_, ⟨_, layer_header h hwire hstarts rfl, rfl⟩,
      .read hparse (.read hsum (writes_finish (htells _ hwire.flags_lt)))⟩
  · exact ⟨_, ⟨_, layer_none h hno, rfl⟩, .read hparse (writes_finish hcut)⟩

theorem writes_udp (h : payload.Fits job.packet) {optional : Bool}
    (hverify : ∀ udp bs, UdpWire udp bs → Starts job.packet payload bs →
      verify = some (optional && udp.checksum == 0 ||
        segmentValid pseudo (payload.bytes job.packet))) (pkt : UdpHeader → Packet)
    (htells : ∀ udp bs ok, UdpWire udp bs →
      Tells ((pkt { udp with checksumValid := optional && udp.checksum == 0 || ok }).print ++ "")
        (mk (.udp, udpSays udp (optional && udp.checksum == 0 || ok))))
    (hcut : Tells (cut.print ++ cutSuffix .udp) (mk (plain, .cut .udp))) :
    WritesShown job (fun filter turns => do
        match ← udpParse job.packet payload with
        | some (udp, _) =>
          let ok ← verify
          let udp := { udp with checksumValid := ok }
          finish job filter turns
            { fields with hasUdp := 1, udpSrcPort := udp.srcPort, udpDstPort := udp.dstPort }
            (pkt udp) ""
        | none => finish job filter turns fields cut " UDP (truncated)")
      (fun summary => ∃ said, UdpShown pseudo plain optional (payload.bytes job.packet) said ∧
        summary = mk said) := by
  rw [cutSuffix_eq.2.2.2.1] at hcut
  obtain ⟨udp, bs, hwire, hstarts, hparse⟩ | ⟨hno, hparse⟩ := (udpParse_takes h).cases
  · have hsum := hverify udp bs hwire hstarts
    rw [hstarts.split h] at hsum
    exact ⟨_, ⟨_, layer_header h hwire hstarts rfl, rfl⟩,
      .read hparse (.read hsum (writes_finish (htells udp bs _ hwire)))⟩
  · exact ⟨_, ⟨_, layer_none h hno, rfl⟩, .read hparse (writes_finish hcut)⟩

theorem writes_icmp (h : payload.Fits job.packet) {family : IcmpFamily} {protocol : Protocol}
    (hverify : icmpHeaderLen ≤ payload.len →
      verify = some (segmentValid pseudo (payload.bytes job.packet))) {suffix : String}
    (pkt : IcmpHeader → Packet)
    (htells : ∀ icmp, Tells ((pkt icmp).print ++ "") (mk (protocol, icmpSays icmp family)))
    (hcut : Tells (cut.print ++ suffix) (mk (plain, .cut protocol))) :
    WritesShown job (fun filter turns => do
        match ← icmpParse job.packet payload family with
        | some icmp =>
          let ok ← verify
          finish job filter turns fields (pkt { icmp with checksumValid := ok }) ""
        | none => finish job filter turns fields cut suffix)
      (fun summary => ∃ said, IcmpShown pseudo plain family protocol (payload.bytes job.packet)
        said ∧ summary = mk said) := by
  obtain ⟨icmp, bs, hwire, hstarts, hparse⟩ | ⟨hno, hparse⟩ := (icmpParse_takes h family).cases
  · have hlen : bs.length = icmpHeaderLen := (hwire.eq hstarts.there).2
    have hsum := hverify (hlen ▸ hstarts.len)
    rw [hstarts.split h] at hsum
    exact ⟨_, ⟨_, layer_header h hwire hstarts rfl, rfl⟩,
      .read hparse (.read hsum (writes_finish (htells _)))⟩
  · exact ⟨_, ⟨_, layer_none h hno, rfl⟩, .read hparse (writes_finish hcut)⟩

end

theorem printArp_shown (h : payload.Fits job.packet) :
    WritesShown job (fun filter turns => printArp job filter turns fields eth payload)
      (Layer ArpWire (fun arp _ _ summary =>
          summary = .frame (frameHead job eth) .arp (.arp (arpSays arp)))
        (.frame (frameHead job eth) .eth (.cut .arp)) (payload.bytes job.packet)) := by
  have hcut := @tells_eth_cut (packetBase job eth none) rfl .arp
  rw [cutSuffix_eq.1] at hcut
  unfold printArp
  obtain ⟨arp, bs, hwire, hstarts, hparse⟩ | ⟨hno, hparse⟩ := (arpParse_takes h).cases
  · exact ⟨_, layer_header h hwire hstarts rfl, .read hparse (writes_finish (tells_arp rfl arp))⟩
  · exact ⟨_, layer_none h hno, .read hparse (writes_finish hcut)⟩

/-! The verifiers, on a segment that starts with its header. -/

section
variable (h : payload.Fits job.packet) (hsmall : payload.len ≤ 65535)
include h hsmall

theorem checksumVerifyIpv4Pseudo_shown (srcIp dstIp : Ipv4Addr) (protocol : UInt8) :
    checksumVerifyIpv4Pseudo job.packet payload srcIp dstIp protocol =
      some (segmentValid (ipv4PseudoSum srcIp dstIp protocol) (payload.bytes job.packet)) := by
  rw [checksumVerifyIpv4Pseudo_eq h hsmall, segmentValid, h.length_bytes]

theorem checksumVerifyIpv6Pseudo_shown (srcIp dstIp : Ipv6Addr) (nextHeader : UInt8) :
    checksumVerifyIpv6Pseudo job.packet payload srcIp dstIp nextHeader =
      some (segmentValid (ipv6PseudoSum srcIp dstIp nextHeader) (payload.bytes job.packet)) := by
  rw [checksumVerifyIpv6Pseudo_eq h (by omega), segmentValid, h.length_bytes]

theorem udpVerifyChecksum_shown (srcIp dstIp : Ipv4Addr) {udp : UdpHeader} {bs : List UInt8}
    (hwire : UdpWire udp bs) (hstarts : Starts job.packet payload bs) :
    udpVerifyChecksum job.packet payload srcIp dstIp =
      some (true && udp.checksum == 0 ||
        segmentValid (ipv4PseudoSum srcIp dstIp ipProtoUdp) (payload.bytes job.packet)) := by
  have hb := h.bound
  have h8 : udpHeaderLen = 8 := rfl
  have hlen := hstarts.len
  obtain ⟨rfl, hbs⟩ := hwire.eq hstarts.there
  rw [udpVerifyChecksum, if_neg (by omega), checksumVerifyIpv4Pseudo_shown h hsmall]
  simp (disch := omega) only [read16_eq, Option.bind_eq_bind, Option.bind_some]
  by_cases hzero : num job.packet (payload.start + 6) 2 = 0
  · rw [if_pos hzero]
    simp [udpHeaderAt, hzero]
  · rw [if_neg hzero]
    simp [udpHeaderAt, hzero]

theorem printIpPayload_shown (ip : IpHeader) :
    WritesShown job (fun filter turns => printIpPayload job filter turns fields eth ip payload)
      (fun summary => ∃ said, IpShown ip (payload.bytes job.packet) said ∧
        summary = ipv4Line (frameHead job eth) ip said) := by
  have hip : (packetBase job eth (some ip)).ip = some ip := rfl
  unfold printIpPayload IpShown
  by_cases htcp : ip.protocol = ipProtoTcp
  · simp only [if_pos htcp]
    refine writes_tcp h (fun hlong => ?_) (.tcp _) (fun tcp => tells_tcp hip)
      (tells_ip_cut hip .tcp)
    rw [tcpVerifyChecksum, if_neg (Nat.not_lt.mpr hlong), checksumVerifyIpv4Pseudo_shown h hsmall]
  · simp only [if_neg htcp]
    by_cases hudp : ip.protocol = ipProtoUdp
    · simp only [if_pos hudp]
      refine writes_udp h (fun udp bs => udpVerifyChecksum_shown h hsmall _ _) (.udp _)
        (fun udp bs ok hwire => ?_) (tells_ip_cut hip .udp)
      have htells := tells_udp hip { udp with checksumValid := true && udp.checksum == 0 || ok }
      rwa [hwire.reported] at htells
    · simp only [if_neg hudp]
      by_cases hicmp : ip.protocol = ipProtoIcmp
      · simp only [if_pos hicmp]
        have hcut := tells_ip_cut hip .icmp
        rw [cutSuffix_eq.2.2.2.2.1] at hcut
        refine writes_icmp h (fun hlong => ?_) (.icmp _) (tells_icmp hip) hcut
        rw [icmpv4VerifyChecksum, if_neg (Nat.not_lt.mpr hlong), checksumVerify_eq h (by omega),
          segmentValid, Nat.zero_add]
      · simp only [if_neg hicmp]
        exact ⟨_, ⟨_, rfl, rfl⟩, writes_finish (tells_ip_other hip _)⟩

theorem printIpv6Payload_shown (ipv6 : Ipv6Header) :
    WritesShown job (fun filter turns => printIpv6Payload job filter turns fields eth ipv6 payload)
      (fun summary => ∃ said, Ipv6Shown ipv6 (payload.bytes job.packet) said ∧
        summary = ipv6Line (frameHead job eth) ipv6 said) := by
  have hip : (packetBase job eth none).ip = none := rfl
  unfold printIpv6Payload Ipv6Shown
  by_cases htcp : ipv6.nextHeader = ipProtoTcp
  · simp only [if_pos htcp]
    refine writes_tcp h (fun hlong => ?_) (fun tcp => .ipv6 _ ipv6 (some tcp) none none)
      (fun tcp => tells_ipv6_tcp hip ipv6)
      (tells_ipv6_cut hip ipv6 (by rw [htcp]; rfl))
    rw [tcpVerifyChecksumIpv6, if_neg (Nat.not_lt.mpr hlong),
      checksumVerifyIpv6Pseudo_shown h hsmall]
  · simp only [if_neg htcp]
    by_cases hudp : ipv6.nextHeader = ipProtoUdp
    · simp only [if_pos hudp]
      refine writes_udp h (fun udp bs hwire hstarts => ?_)
        (fun udp => .ipv6 _ ipv6 none (some udp) none)
        (fun udp bs ok _ => tells_ipv6_udp hip ipv6 _)
        (tells_ipv6_cut hip ipv6 (by rw [hudp]; rfl))
      have hlen : bs.length = udpHeaderLen := (hwire.eq hstarts.there).2
      have hlong : udpHeaderLen ≤ payload.len := hlen ▸ hstarts.len
      rw [udpVerifyChecksumIpv6, if_neg (Nat.not_lt.mpr hlong),
        checksumVerifyIpv6Pseudo_shown h hsmall, Bool.false_and, Bool.false_or]
    · simp only [if_neg hudp]
      by_cases hicmp : ipv6.nextHeader = ipProtoIcmpv6
      · simp only [if_pos hicmp]
        have hcut := @tells_ipv6_cut _ hip ipv6 .icmpv6 (by rw [hicmp]; rfl)
        rw [cutSuffix_eq.2.2.2.2.2] at hcut
        refine writes_icmp h (fun hlong => ?_) (fun icmp => .ipv6 _ ipv6 none none (some icmp))
          (tells_ipv6_icmp hip ipv6) hcut
        rw [icmpv6VerifyChecksum, if_neg (Nat.not_lt.mpr hlong),
          checksumVerifyIpv6Pseudo_shown h hsmall]
      · simp only [if_neg hicmp]
        have hname : nextHeaderName ipv6.nextHeader = decimal ipv6.nextHeader := by
          rw [nextHeaderName, if_neg htcp, if_neg hudp, if_neg hicmp]
        exact ⟨_, ⟨_, rfl, rfl⟩, writes_finish (tells_ipv6_other hip ipv6 hname)⟩

theorem printIpv6_shown :
    WritesShown job (fun filter turns => printIpv6 job filter turns fields eth payload)
      (Layer Ipv6Wire (fun ipv6 _ rest summary =>
          ∃ said, Ipv6Shown ipv6 rest said ∧ summary = ipv6Line (frameHead job eth) ipv6 said)
        (.frame (frameHead job eth) .eth (.cut .ipv6)) (payload.bytes job.packet)) := by
  have hcut := @tells_eth_cut (packetBase job eth none) rfl .ipv6
  rw [cutSuffix_eq.2.1] at hcut
  unfold printIpv6
  obtain ⟨ipv6, bs, hwire, hstarts, hparse⟩ | ⟨hno, hparse⟩ := (ipv6Parse_takes h).cases
  · have hwithin := Span.advance_within hstarts.len h.len
    obtain ⟨summary, hshown, hwrites⟩ := printIpv6Payload_shown (hwithin.fits h)
      (by obtain ⟨hstart, hend⟩ := hwithin; omega) ipv6
    exact ⟨summary, layer_header h hwire hstarts hshown, .read hparse hwrites⟩
  · exact ⟨_, layer_none h hno, .read hparse (writes_finish hcut)⟩

theorem printIpv4_shown :
    WritesShown job (fun filter turns => printIpv4 job filter turns fields eth payload)
      (Layer IpWire (fun ip bs rest summary =>
          ∃ said, IpShown ip (clip bs.length ip.totalLength rest) said ∧
            summary = ipv4Line (frameHead job eth) ip said)
        .noIpv4 (payload.bytes job.packet)) := by
  unfold printIpv4
  obtain ⟨ip, bs, hwire, hstarts, hparse⟩ | ⟨hno, hparse⟩ := (ipParse_takes h).cases
  · have hwithin : (ipPayload payload bs.length ip.totalLength).Within payload :=
      ipPayload_within_of_le hstarts.len h.len
    obtain ⟨summary, hshown, hwrites⟩ := printIpPayload_shown (hwithin.fits h)
      (by obtain ⟨hstart, hend⟩ := hwithin; omega) ip
    rw [ipPayload_bytes] at hshown
    exact ⟨summary, layer_header h hwire hstarts hshown, .read hparse hwrites⟩
  · exact ⟨_, layer_none h hno, .read hparse (writes_finishRaw tells_messages.2)⟩

end

theorem printPacket_shown (hsmall : job.length ≤ 65536) :
    WritesShown job (fun filter turns => printPacket job filter turns) (Shown job) := by
  have hframe := job.frame_fits
  have hwhole : (⟨0, job.length⟩ : Span).bytes job.packet = job.packet := List.take_length
  suffices hsuff : WritesShown job (fun filter turns => printPacket job filter turns)
      (Layer EthWire (fun eth _ rest summary =>
          EthShown (frameHead job eth) eth.etherType rest summary)
        .noEthernet ((⟨0, job.length⟩ : Span).bytes job.packet)) by
    rw [hwhole] at hsuff
    exact hsuff
  unfold printPacket
  obtain ⟨eth, bs, hwire, hstarts, hparse⟩ | ⟨hno, hparse⟩ := (ethParse_takes hframe).cases
  · have hlen := (hwire.eq hstarts.there).2
    have hbounds := (l2Len_bounds job.packet 0).1
    have hrest := (Span.advance_within hstarts.len hframe.len).fits hframe
    -- Without its header the frame is short enough for the 16 bits of a length over IPv4.
    have hshort : ((⟨0, job.length⟩ : Span).advance bs.length).len ≤ 65535 := by
      rw [Span.advance_eq hstarts.len hframe.len]
      simp only at hlen ⊢
      omega
    suffices hnext : ∃ summary, EthShown (frameHead job eth) eth.etherType _ summary ∧
        Writes job _ summary by
      obtain ⟨summary, hshown, hwrites⟩ := hnext
      exact ⟨summary, layer_header hframe hwire hstarts hshown, .read hparse hwrites⟩
    unfold EthShown
    by_cases harp : eth.etherType = ethTypeArp
    · simp only [if_pos harp]
      exact printArp_shown hrest
    · simp only [if_neg harp]
      by_cases h6 : eth.etherType = ethTypeIpv6
      · simp only [if_pos h6]
        exact printIpv6_shown hrest hshort
      · simp only [if_neg h6]
        by_cases h4 : eth.etherType ≠ ethTypeIpv4
        · simp only [if_pos h4]
          exact ⟨_, rfl, writes_finish (tells_eth rfl)⟩
        · simp only [if_neg h4]
          exact printIpv4_shown hrest hshort
  · exact ⟨_, layer_none hframe hno, .read hparse (writes_finishRaw tells_messages.1)⟩

end

theorem printPacket_tells {job : Job} (hsmall : job.length ≤ 65536) :
    ∃ summary line, Shown job summary ∧ Tells line summary ∧ ∀ filter turns verdict,
      passesFilter filter (refFields job.packet) = some verdict →
      printPacket job filter turns = some ⟨refFields job.packet, if verdict then
        String.ofList (terminated '\n'
          (numbered job.packetNumber line :: dumpLines job.packet turns 0)) else ""⟩ := by
  obtain ⟨summary, hshown, record, line, htells, hline⟩ := printPacket_shown hsmall
  have hline : ∀ filter turns, printPacket job filter turns =
    finishLine job filter turns record line := hline
  obtain ⟨text, htext⟩ := printPacket_text job 0
  have hrecord : record = refFields job.packet := by
    rw [hline none 0] at htext
    exact congrArg Printed.record (Option.some.inj htext)
  refine ⟨summary, line, hshown, htells, fun filter turns verdict hverdict => ?_⟩
  have hlen : job.packet.length ≤ 65536 := hsmall
  have hdump := @hexDump_eq job.packet (by omega) turns 0
  have htext : "[#" ++ toString job.packetNumber ++ "] " ++ line ++ "\n" ++
      String.ofList (terminated '\n' (dumpLines job.packet turns 0)) =
        String.ofList (terminated '\n'
          (numbered job.packetNumber line :: dumpLines job.packet turns 0)) := by
    rw [← String.toList_inj]
    simp [numbered]
  rw [hline, hrecord, finishLine_eq hverdict hdump, htext]

/-- What print_packet writes about a frame is what the headers in it say, and they leave no choice:
if the filter agrees, the text is read as the number of the frame, that summary and the bytes of the
lines of the dump written so far. The filter is asked about the reference record. -/
theorem print_packet_shows_the_headers (job : Job) (hsmall : job.length ≤ 65536) :
    ∃ summary, (∀ summary', Shown job summary' ↔ summary' = summary) ∧
      ∀ filter turns verdict, passesFilter filter (refFields job.packet) = some verdict →
        ∃ text, printPacket job filter turns = some ⟨refFields job.packet, text⟩ ∧
          (verdict = false → text = "") ∧
          (verdict = true → readReport text =
            some [((job.packetNumber, summary), job.packet.take (16 * turns))]) := by
  obtain ⟨summary, line, hshown, htells, hprint⟩ := printPacket_tells hsmall
  refine ⟨summary, fun summary' => ⟨fun h => h.unique hshown, fun h => h ▸ hshown⟩,
    fun filter turns verdict hverdict => ⟨_, hprint filter turns verdict hverdict, ?_, ?_⟩⟩
  · rintro rfl
    rfl
  · rintro rfl
    have hreads := Reads.nil.frame htells.newline (readHead_tells job.packetNumber htells)
      job.packet turns
    rw [List.append_nil] at hreads
    exact hreads.readFrames String.toList_ofList

def synSummary : Summary :=
  .frame ⟨1700000000, 42, 54, #v[2, 0, 0, 0, 0, 1], #v[2, 0, 0, 0, 0, 2], none⟩ .tcp
    (.ipv4 #v[10, 0, 0, 1] #v[10, 0, 0, 2] 64 true (.tcp 1234 443 1 0 2 true))

theorem print_packet_shows_the_headers_syn : ∃ text,
    printPacket synFrame none 4 = some ⟨refFields synFrame.packet, text⟩ ∧
      readReport text = some [((7, synSummary), synFrame.packet)] := by
  obtain ⟨summary, honly, hprint⟩ := print_packet_shows_the_headers synFrame (by decide)
  have htcp : TcpWire _ _ := TcpWire.mk 1234 443 1 0 0 0 0 2 1024 0x9152 0 [] (by decide)
    (by decide) (by decide) (by decide) rfl
  have hip : IpWire _ _ := IpWire.mk 0 0 40 1 0 64 6 0x66cd #v[10, 0, 0, 1] #v[10, 0, 0, 2] []
    (by decide) rfl rfl
  have heth : EthWire _ _ := EthWire.plain #v[2, 0, 0, 0, 0, 2] #v[2, 0, 0, 0, 0, 1] 0x0800
    (by decide)
  have hshown : Shown synFrame synSummary := by
    refine Layer.header heth (Layer.header hip
      ⟨(.tcp, .tcp 1234 443 1 0 2 true), Layer.header htcp ?_, ?_⟩)
    · decide +kernel
    · decide +kernel
  obtain ⟨text, htext, -, hread⟩ := hprint none 4 true rfl
  refine ⟨text, htext, ?_⟩
  rw [hread rfl, ← (honly _).mp hshown]
  rfl

end MyWireshark.Dissect
