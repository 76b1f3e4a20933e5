import MyWireshark.Dissect.Correct

/-! Bytes after the end of an IPv4 packet, which Ethernet adds to short frames: the parsers
and verifiers depend on nothing outside the span they are given, and ip_parse cuts the
span at the total length. -/
namespace MyWireshark.Dissect
open Bytes DispFilter

section
variable {mem : List UInt8} {data : Span} (tail : List UInt8)

theorem checksumLoop_append {i left : Nat} (h : i + left ≤ mem.length) (sum : Nat) :
    checksumLoop (mem ++ tail) i left sum = checksumLoop mem i left sum := by
  induction left using Nat.strongRecOn generalizing i sum with
  | ind left ih =>
    match left with
    | 0 => rfl
    | 1 => rw [checksumLoop, checksumLoop, List.getElem?_append_left (by omega)]
    | left + 2 =>
      rw [checksumLoop, checksumLoop, List.getElem?_append_left (by omega),
        List.getElem?_append_left (by omega)]
      simp only [ih left (by omega) (by omega : i + 2 + left ≤ mem.length)]

theorem checksumVerify_append (h : data.Fits mem) :
    checksumVerify (mem ++ tail) data = checksumVerify mem data := by
  rw [checksumVerify, checksumVerify, checksumPartial, checksumPartial,
    checksumLoop_append tail h.bound]

theorem checksumVerifyPseudo_append (pseudoHeader : List UInt8) (h : data.Fits mem) :
    checksumVerifyPseudo pseudoHeader (mem ++ tail) data =
      checksumVerifyPseudo pseudoHeader mem data := by
  simp only [checksumVerifyPseudo, checksumPartial, checksumLoop_append tail h.bound]

theorem tcpParse_append (h : data.Fits mem) :
    tcpParse (mem ++ tail) data = tcpParse mem data := by
  have hb := h.bound
  have h20 : tcpHeaderMinLen = 20 := rfl
  by_cases hshort : data.len < tcpHeaderMinLen
  · rw [tcpParse, tcpParse, if_pos hshort, if_pos hshort]
  · rw [tcpParse, tcpParse, if_neg hshort, if_neg hshort]
    simp (disch := omega) only [List.getElem?_append_left, read16_append, read32_append]

theorem udpParse_append (h : data.Fits mem) :
    udpParse (mem ++ tail) data = udpParse mem data := by
  have hb := h.bound
  have h8 : udpHeaderLen = 8 := rfl
  by_cases hshort : data.len < udpHeaderLen
  · rw [udpParse, udpParse, if_pos hshort, if_pos hshort]
  · rw [udpParse, udpParse, if_neg hshort, if_neg hshort]
    simp (disch := omega) only [read16_append]

theorem icmpParse_append (h : data.Fits mem) (family : IcmpFamily) :
    icmpParse (mem ++ tail) data family = icmpParse mem data family := by
  have hb := h.bound
  have h8 : icmpHeaderLen = 8 := rfl
  by_cases hshort : data.len < icmpHeaderLen
  · rw [icmpParse, icmpParse, if_pos hshort, if_pos hshort]
  · rw [icmpParse, icmpParse, if_neg hshort, if_neg hshort]
    simp (disch := omega) only [List.getElem?_append_left, read16_append]

theorem tcpVerifyChecksum_append (h : data.Fits mem) (src dst : Ipv4Addr) :
    tcpVerifyChecksum (mem ++ tail) data src dst = tcpVerifyChecksum mem data src dst := by
  rw [tcpVerifyChecksum, tcpVerifyChecksum, checksumVerifyIpv4Pseudo, checksumVerifyIpv4Pseudo,
    checksumVerifyPseudo_append tail _ h]

theorem udpVerifyChecksum_append (h : data.Fits mem) (src dst : Ipv4Addr) :
    udpVerifyChecksum (mem ++ tail) data src dst = udpVerifyChecksum mem data src dst := by
  have hb := h.bound
  have h8 : udpHeaderLen = 8 := rfl
  by_cases hshort : data.len < udpHeaderLen
  · rw [udpVerifyChecksum, udpVerifyChecksum, if_pos hshort, if_pos hshort]
  · rw [udpVerifyChecksum, udpVerifyChecksum, if_neg hshort, if_neg hshort,
      read16_append tail (by omega), checksumVerifyIpv4Pseudo, checksumVerifyIpv4Pseudo,
      checksumVerifyPseudo_append tail _ h]

theorem icmpv4VerifyChecksum_append (h : data.Fits mem) :
    icmpv4VerifyChecksum (mem ++ tail) data = icmpv4VerifyChecksum mem data := by
  rw [icmpv4VerifyChecksum, icmpv4VerifyChecksum, checksumVerify_append tail h]

theorem ethParse_append {hdr : EthHeader} {payload : Span} (h : data.Fits mem)
    (hlen : data.len + tail.length < 2 ^ 32)
    (hparse : ethParse mem data = some (some (hdr, payload))) :
    ethParse (mem ++ tail) (data.grow tail.length) =
      some (some (hdr, payload.grow tail.length)) := by
  have hb := h.bound
  have h14 : ethHeaderLen = 14 := rfl
  have h18 : ethHeaderLen + ethVlanTagLen = 18 := rfl
  have hgrow : (data.grow tail.length).len = data.len + tail.length := rfl
  have hstart : (data.grow tail.length).start = data.start := rfl
  rw [ethParse] at hparse ⊢
  by_cases hshort : data.len < ethHeaderLen
  · rw [if_pos hshort] at hparse
    cases hparse
  · rw [if_neg hshort] at hparse
    rw [if_neg (by omega), hstart]
    simp (disch := omega) only [readBytes_eq, read16_eq, Option.bind_eq_bind,
      Option.bind_some] at hparse
    simp (disch := omega) only [readBytes_append, read16_append, readBytes_eq, read16_eq,
      Option.bind_eq_bind, Option.bind_some]
    by_cases htag : num mem (data.start + 12) 2 = ethTypeVlan
    · rw [if_pos htag] at hparse ⊢
      by_cases hcut : data.len < ethHeaderLen + ethVlanTagLen
      · rw [if_pos hcut] at hparse
        cases hparse
      · rw [if_neg hcut] at hparse
        rw [if_neg (by omega), Span.advance_grow (by omega) hlen]
        simp (disch := omega) only [read16_append, read16_eq, Option.bind_some] at hparse ⊢
        cases hparse
        rfl
    · rw [if_neg htag] at hparse ⊢
      rw [Span.advance_grow (by omega) hlen]
      cases hparse
      rfl

theorem ipPayload_clipped {headerLen totalLength : Nat} (hlen : data.len < 2 ^ 32)
    (hlow : headerLen ≤ totalLength) (hhigh : totalLength ≤ data.len) :
    ipPayload data headerLen totalLength = ⟨data.start + headerLen, totalLength - headerLen⟩ := by
  rw [ipPayload, Span.advance_eq (hlow.trans hhigh) hlen]
  by_cases hclip : totalLength - headerLen < data.len - headerLen
  · exact if_pos ⟨hlow, hclip⟩
  · have hall : data.len - headerLen = totalLength - headerLen := by omega
    rw [← hall]
    exact if_neg fun h => by simp only at h; omega

/-- The header and the span of the payload do not depend on what was appended, if the total
length is that of a whole packet in the capture. -/
theorem ipParse_append {hdr : IpHeader} {payload : Span} (h : data.Fits mem)
    (hlen : data.len + tail.length < 2 ^ 32)
    (hparse : ipParse mem data = some (some (hdr, payload)))
    (hlow : hdr.ihl.toNat * 4 ≤ hdr.totalLength) (hhigh : hdr.totalLength ≤ data.len) :
    ipParse (mem ++ tail) (data.grow tail.length) =
      some (some (hdr, payload)) := by
  have hb := h.bound
  have h20 : ipHeaderMinLen = 20 := rfl
  have hgrow : (data.grow tail.length).len = data.len + tail.length := rfl
  have hstart : (data.grow tail.length).start = data.start := rfl
  rw [ipParse] at hparse ⊢
  by_cases hshort : data.len < ipHeaderMinLen
  · rw [if_pos hshort] at hparse
    cases hparse
  · rw [if_neg hshort] at hparse
    rw [if_neg (by omega), hstart]
    simp (disch := omega) only [getElem?_octet, readBytes_eq, read16_eq, Option.bind_eq_bind,
      Option.bind_some] at hparse
    simp (disch := omega) only [List.getElem?_append_left, getElem?_octet, readBytes_append,
      read16_append, readBytes_eq, read16_eq, Option.bind_eq_bind, Option.bind_some]
    by_cases hbad : octet mem data.start >>> 4 ≠ 4 ∨ octet mem data.start &&& 0x0F < 5 ∨
        (octet mem data.start &&& 0x0F).toNat * 4 > data.len
    · rw [if_pos hbad] at hparse
      cases hparse
    · have hfits : (octet mem data.start &&& 0x0F).toNat * 4 ≤ data.len := by
        by_contra hover
        exact hbad (.inr (.inr (Nat.lt_of_not_le hover)))
      have hhdr : (⟨data.start, (octet mem data.start &&& 0x0F).toNat * 4⟩ : Span).Within data :=
        ⟨Nat.le_refl _, Nat.add_le_add_left hfits _⟩
      rw [if_neg hbad] at hparse
      rw [if_neg fun hor => hbad (hor.imp_right (Or.imp_right fun hover => by omega)),
        checksumVerify_append tail (hhdr.fits h)]
      obtain ⟨ok, hsum⟩ := checksumVerify_total (hhdr.fits h)
      rw [hsum] at hparse ⊢
      have hpayload : ipPayload (data.grow tail.length)
          ((octet mem data.start &&& 0x0F).toNat * 4) (num mem (data.start + 2) 2) = payload := by
        cases hparse
        rw [ipPayload_clipped hlen hlow (Nat.le_add_right_of_le hhigh),
          ipPayload_clipped h.len hlow hhigh, hstart]
      rw [hpayload]
      cases hparse
      rfl

end

structure SameSegment (mem mem' : List UInt8) (segment : Span) : Prop where
  tcp : tcpParse mem' segment = tcpParse mem segment
  udp : udpParse mem' segment = udpParse mem segment
  icmp : ∀ family, icmpParse mem' segment family = icmpParse mem segment family
  tcpSum : ∀ src dst, tcpVerifyChecksum mem' segment src dst = tcpVerifyChecksum mem segment src dst
  udpSum : ∀ src dst, udpVerifyChecksum mem' segment src dst = udpVerifyChecksum mem segment src dst
  icmpSum : icmpv4VerifyChecksum mem' segment = icmpv4VerifyChecksum mem segment

theorem sameSegment_append {mem : List UInt8} {segment : Span} (tail : List UInt8)
    (h : segment.Fits mem) : SameSegment mem (mem ++ tail) segment where
  tcp := tcpParse_append tail h
  udp := udpParse_append tail h
  icmp := icmpParse_append tail h
  tcpSum := tcpVerifyChecksum_append tail h
  udpSum := udpVerifyChecksum_append tail h
  icmpSum := icmpv4VerifyChecksum_append tail h

/-! The two runs of print_packet -/

def Job.pad (job : Job) (tail : List UInt8) (h : (job.packet ++ tail).length < 2 ^ 32) : Job :=
  { job with packet := job.packet ++ tail, small := h }

def Job.cut (job : Job) (n : Nat) : Job where
  packet := job.packet.take n
  tsSeconds := job.tsSeconds
  tsMicroseconds := job.tsMicroseconds
  packetNumber := job.packetNumber
  small := (List.length_take_le' _ _).trans_lt job.small

def Packet.mapBase (f : PacketBase → PacketBase) : Packet → Packet
  | .packet base => .packet (f base)
  | .tcp base hdr => .tcp (f base) hdr
  | .udp base hdr => .udp (f base) hdr
  | .icmp base hdr => .icmp (f base) hdr
  | .arp base hdr => .arp (f base) hdr
  | .ipv6 base hdr tcpHdr udpHdr icmpHdr => .ipv6 (f base) hdr tcpHdr udpHdr icmpHdr

def Packet.withLength (pkt : Packet) (length : Nat) : Packet :=
  pkt.mapBase fun base => { base with captureLength := length }

/-- Two runs come to their end with one record, one suffix and one packet object, which has
the header `ip`; the object differs in the captured length only. -/
def EndAlike (job job' : Job) (ip : IpHeader)
    (run run' : Option Dispfilter → Nat → Option Printed) : Prop :=
  ∃ record pkt suffix, pkt.base.ip = some ip ∧ ∀ filter turns,
    run filter turns = finish job filter turns record pkt suffix ∧
    run' filter turns = finish job' filter turns record (pkt.withLength job'.length) suffix

section
variable {job job' : Job} {ip : IpHeader}

theorem endAlike_finish {pkt pkt' : Packet} (record : Fields) (suffix : String)
    (hip : pkt.base.ip = some ip) (hpkt : pkt' = pkt.withLength job'.length) :
    EndAlike job job' ip (fun filter turns => finish job filter turns record pkt suffix)
      (fun filter turns => finish job' filter turns record pkt' suffix) :=
  ⟨record, pkt, suffix, hip, fun _ _ => ⟨rfl, by rw [hpkt]⟩⟩

theorem EndAlike.read {α : Type} {x x' : Option α} {a : α}
    {run run' : α → Option Dispfilter → Nat → Option Printed} (hx : x = some a) (hx' : x' = x)
    (h : EndAlike job job' ip (run a) (run' a)) :
    EndAlike job job' ip (fun filter turns => x >>= fun v => run v filter turns)
      (fun filter turns => x' >>= fun v => run' v filter turns) := by
  rw [hx', hx]
  exact h

end

section
variable {job : Job} {tail : List UInt8} {hsmall : (job.packet ++ tail).length < 2 ^ 32}
  {ip : IpHeader} {payload : Span}

theorem printIpPayload_alike (h : payload.Fits job.packet) (fields : Fields) (eth : EthHeader) :
    EndAlike job (job.pad tail hsmall) ip
      (fun filter turns => printIpPayload job filter turns fields eth ip payload)
      (fun filter turns => printIpPayload (job.pad tail hsmall) filter turns fields eth ip
        payload) := by
  have hsame : SameSegment job.packet (job.pad tail hsmall).packet payload :=
    sameSegment_append tail h
  unfold printIpPayload
  by_cases htcp : ip.protocol = ipProtoTcp
  · simp only [if_pos htcp]
    obtain ⟨ok, hsum⟩ := tcpVerifyChecksum_total h ip.srcAddr ip.dstAddr
    obtain ⟨-, hparse⟩ | ⟨-, hparse⟩ := tcpParse_spec h
    · refine .read hparse hsame.tcp ?_
      exact endAlike_finish _ _ rfl rfl
    · refine .read hparse hsame.tcp ?_
      refine .read hsum (hsame.tcpSum _ _) ?_
      exact endAlike_finish _ _ rfl rfl
  · simp only [if_neg htcp]
    by_cases hudp : ip.protocol = ipProtoUdp
    · simp only [if_pos hudp]
      obtain ⟨ok, hsum⟩ := udpVerifyChecksum_total h ip.srcAddr ip.dstAddr
      obtain ⟨-, hparse⟩ | ⟨-, hparse⟩ := udpParse_spec h
      · refine .read hparse hsame.udp ?_
        exact endAlike_finish _ _ rfl rfl
      · refine .read hparse hsame.udp ?_
        refine .read hsum (hsame.udpSum _ _) ?_
        exact endAlike_finish _ _ rfl rfl
    · simp only [if_neg hudp]
      by_cases hicmp : ip.protocol = ipProtoIcmp
      · simp only [if_pos hicmp]
        obtain ⟨ok, hsum⟩ := icmpv4VerifyChecksum_total h
        obtain ⟨r, hparse⟩ := icmpParse_total h .v4
        refine .read hparse (hsame.icmp .v4) ?_
        cases r with
        | none => exact endAlike_finish _ _ rfl rfl
        | some icmp =>
          refine .read hsum hsame.icmpSum ?_
          exact endAlike_finish _ _ rfl rfl
      · simp only [if_neg hicmp]
        exact endAlike_finish _ _ rfl rfl

end

theorem printPacket_ipv4 {job : Job} {eth : EthHeader} {ip : IpHeader} {l3 payload : Span}
    (heth : ethParse job.packet ⟨0, job.length⟩ = some (some (eth, l3)))
    (htype : eth.etherType = ethTypeIpv4)
    (hip : ipParse job.packet l3 = some (some (ip, payload))) (filter : Option Dispfilter)
    (turns : Nat) :
    printPacket job filter turns = printIpPayload job filter turns
      { zeroFields with ethSrc := eth.srcMac, ethDst := eth.dstMac, hasIp := 1, ipSrc := ip.srcAddr,
                        ipDst := ip.dstAddr } eth ip payload := by
  have harp : ¬eth.etherType = ethTypeArp := by rw [htype]; decide
  have hipv6 : ¬eth.etherType = ethTypeIpv6 := by rw [htype]; decide
  rw [printPacket, heth, Option.bind_eq_bind, Option.bind_some]
  dsimp only
  rw [if_neg harp, if_neg hipv6, if_neg (not_not_intro htype), printIpv4, hip]
  rfl

/-- Bytes after the frame change nothing in the decode of an IPv4 packet that ends inside
the frame: not the headers, not the verdicts on the checksums, not the record. -/
theorem ipv4_decode_ignores_padding {job : Job} {eth : EthHeader} {ip : IpHeader}
    {l3 payload : Span} (tail : List UInt8) (hsmall : (job.packet ++ tail).length < 2 ^ 32)
    (heth : ethParse job.packet ⟨0, job.length⟩ = some (some (eth, l3)))
    (htype : eth.etherType = ethTypeIpv4)
    (hip : ipParse job.packet l3 = some (some (ip, payload)))
    (hlow : ip.ihl.toNat * 4 ≤ ip.totalLength) (hhigh : ip.totalLength ≤ l3.len) :
    (∃ l3', ethParse (job.pad tail hsmall).packet ⟨0, (job.pad tail hsmall).length⟩ =
        some (some (eth, l3')) ∧
      ipParse (job.pad tail hsmall).packet l3' = some (some (ip, payload))) ∧
    SameSegment job.packet (job.pad tail hsmall).packet payload ∧
    EndAlike job (job.pad tail hsmall) ip (printPacket job)
      (printPacket (job.pad tail hsmall)) := by
  have hframe := job.frame_fits
  have hl3within := (Hands.eth eth heth).within hframe
  have hl3 := hl3within.fits hframe
  have hpayload := ((Hands.ip ip hip).within hl3).fits hl3
  have hlen : job.length + tail.length < 2 ^ 32 := by
    rw [List.length_append] at hsmall
    exact hsmall
  have hgrown : (⟨0, job.length⟩ : Span).grow tail.length = ⟨0, (job.pad tail hsmall).length⟩ := by
    simp [Span.grow, Job.length, Job.pad]
  have heth' := hgrown ▸ ethParse_append tail hframe hlen heth
  have hl3len : l3.len + tail.length < 2 ^ 32 := by
    have hend := hl3within.2
    simp only at hend
    omega
  have hip' := ipParse_append tail hl3 hl3len hip hlow hhigh
  refine ⟨⟨_, heth', hip'⟩, sameSegment_append tail hpayload, ?_⟩
  obtain ⟨record, pkt, suffix, hbase, hends⟩ :=
    @printIpPayload_alike job tail hsmall ip payload hpayload _ eth
  refine ⟨record, pkt, suffix, hbase, fun filter turns => ⟨?_, ?_⟩⟩
  · rw [printPacket_ipv4 heth htype hip]
    exact (hends filter turns).1
  · rw [printPacket_ipv4 heth' htype hip']
    exact (hends filter turns).2

/-- An empty UDP datagram from 10.0.0.1 to 10.0.0.2, and what is missing to 60 bytes -/
def shortJob : Job where
  packet := [1, 2, 3, 4, 5, 6, 7, 8, 9, 10, 11, 12, 8, 0, 0x45, 0, 0, 28, 0, 0, 0, 0, 64, 17,
    0x66, 0xCF, 10, 0, 0, 1, 10, 0, 0, 2, 0, 53, 0, 53, 0, 8, 0, 0]
  tsSeconds := 0
  tsMicroseconds := 0
  packetNumber := 1
  small := by decide

theorem ipv4_decode_ignores_padding_short :
    ∃ ip, ip.totalLength = 28 ∧ EndAlike shortJob
      (shortJob.pad (List.replicate 18 0) (by decide)) ip (printPacket shortJob)
      (printPacket (shortJob.pad (List.replicate 18 0) (by decide))) := by
  refine ⟨_, ?_, (ipv4_decode_ignores_padding (List.replicate 18 0) (by decide)
    (show ethParse shortJob.packet ⟨0, shortJob.length⟩ = some (some (_, _)) from rfl) ?_
    (show ipParse shortJob.packet _ = some (some (_, _)) from rfl) ?_ ?_).2.2⟩
  all_goals decide

end MyWireshark.Dissect
