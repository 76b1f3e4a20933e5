import MyWireshark.Dissect.ChecksumExact
import MyWireshark.Dissect.Layout
import MyWireshark.Lib.Layout

/-! The headers as they are on the wire, each written down as its fields one after the other, and
what it means for the bytes of a capture that one of them stands at an offset. -/
namespace MyWireshark.Dissect
open Bytes DispFilter Framing Layout OnesComplement

inductive EthWire : EthHeader → List UInt8 → Prop where
  | plain (dstMac srcMac : MacAddr) (etherType : UInt16) (h : etherType.toNat ≠ ethTypeVlan) :
    EthWire ⟨dstMac, srcMac, etherType.toNat, false, 0⟩
      (dstMac.toList ++ srcMac.toList ++ beBytes etherType.toNat 2)
  | tagged (dstMac srcMac : MacAddr) (vlanTci etherType : UInt16) :
    EthWire ⟨dstMac, srcMac, etherType.toNat, true, vlanTci.toNat⟩
      (dstMac.toList ++ srcMac.toList ++ beBytes 0x8100 2 ++ beBytes vlanTci.toNat 2 ++
        beBytes etherType.toNat 2)

inductive ArpWire : ArpHeader → List UInt8 → Prop where
  | mk (opcode : UInt16) (senderMac : MacAddr) (senderIp : Ipv4Addr) (targetMac : MacAddr)
    (targetIp : Ipv4Addr) :
    ArpWire ⟨1, 0x0800, 6, 4, opcode.toNat, senderMac, senderIp, targetMac, targetIp⟩
      (beBytes 1 2 ++ beBytes 0x0800 2 ++ [6] ++ [4] ++ beBytes opcode.toNat 2 ++
        senderMac.toList ++ senderIp.toList ++ targetMac.toList ++ targetIp.toList)

def ipFixed (k : Nat) (tos : UInt8) (totalLength identification flagsFrag : UInt16)
    (ttl protocol : UInt8) (checksum : UInt16) (srcAddr dstAddr : Ipv4Addr) : List UInt8 :=
  [UInt8.ofNat (0x45 + k)] ++ [tos] ++ beBytes totalLength.toNat 2 ++
    beBytes identification.toNat 2 ++ beBytes flagsFrag.toNat 2 ++ [ttl] ++ [protocol] ++
    beBytes checksum.toNat 2 ++ srcAddr.toList ++ dstAddr.toList

inductive IpWire : IpHeader → List UInt8 → Prop where
  | mk (k : Nat) (tos : UInt8) (totalLength identification flagsFrag : UInt16)
    (ttl protocol : UInt8) (checksum : UInt16) (srcAddr dstAddr : Ipv4Addr) (options : List UInt8)
    (hk : k ≤ 10) (hoptions : options.length = 4 * k) {bs : List UInt8}
    (hbs : bs = ipFixed k tos totalLength identification flagsFrag ttl protocol checksum srcAddr
      dstAddr ++ options) :
    IpWire ⟨4, UInt8.ofNat (5 + k), tos, totalLength.toNat, identification.toNat,
      flagsFrag.toNat >>> 13, flagsFrag.toNat &&& 0x1FFF, ttl, protocol, checksum.toNat, srcAddr,
      dstAddr, sumsToOnes (wordSum bs)⟩ bs

inductive Ipv6Wire : Ipv6Header → List UInt8 → Prop where
  | mk (trafficClass : UInt8) (flowLabel : Nat) (payloadLength : UInt16)
    (nextHeader hopLimit : UInt8) (srcAddr dstAddr : Ipv6Addr) (hflow : flowLabel < 0x100000) :
    Ipv6Wire ⟨6, trafficClass, flowLabel, payloadLength.toNat, nextHeader, hopLimit, srcAddr,
        dstAddr⟩
      (beBytes (0x60000000 + trafficClass.toNat * 0x100000 + flowLabel) 4 ++
        beBytes payloadLength.toNat 2 ++ [nextHeader] ++ [hopLimit] ++ srcAddr.toList ++
        dstAddr.toList)

/-- A TCP header with `k` words of options. Of the bits between the data offset and the six flags
nothing is kept. -/
inductive TcpWire : TcpHeader → List UInt8 → Prop where
  | mk (srcPort dstPort : UInt16) (seqNum ackNum : UInt32) (k reserved ecn flags : Nat)
    (windowSize checksum urgentPointer : UInt16) (options : List UInt8) (hk : k ≤ 10)
    (hreserved : reserved < 16) (hecn : ecn < 4) (hflags : flags < 64)
    (hoptions : options.length = 4 * k) :
    TcpWire ⟨srcPort.toNat, dstPort.toNat, seqNum.toNat, ackNum.toNat, UInt8.ofNat (5 + k),
        UInt8.ofNat flags, windowSize.toNat, checksum.toNat, urgentPointer.toNat, false⟩
      (beBytes srcPort.toNat 2 ++ beBytes dstPort.toNat 2 ++ beBytes seqNum.toNat 4 ++
        beBytes ackNum.toNat 4 ++ [UInt8.ofNat (16 * (5 + k) + reserved)] ++
        [UInt8.ofNat (64 * ecn + flags)] ++ beBytes windowSize.toNat 2 ++
        beBytes checksum.toNat 2 ++ beBytes urgentPointer.toNat 2 ++ options)

inductive UdpWire : UdpHeader → List UInt8 → Prop where
  | mk (srcPort dstPort length checksum : UInt16) :
    UdpWire ⟨srcPort.toNat, dstPort.toNat, length.toNat, checksum.toNat, checksum.toNat != 0, false⟩
      (beBytes srcPort.toNat 2 ++ beBytes dstPort.toNat 2 ++ beBytes length.toNat 2 ++
        beBytes checksum.toNat 2)

abbrev IsEchoType (family : IcmpFamily) (type : UInt8) : Prop :=
  type = (if family = .v6 then icmpv6TypeEchoRequest else icmpv4TypeEchoRequest) ∨
    type = (if family = .v6 then icmpv6TypeEchoReply else icmpv4TypeEchoReply)

inductive IcmpWire (family : IcmpFamily) : IcmpHeader → List UInt8 → Prop where
  | echo (type code : UInt8) (checksum echoId echoSeq : UInt16) (h : IsEchoType family type) :
    IcmpWire family ⟨type, code, checksum.toNat, false, true, echoId.toNat, echoSeq.toNat⟩
      ([type] ++ [code] ++ beBytes checksum.toNat 2 ++ beBytes echoId.toNat 2 ++
        beBytes echoSeq.toNat 2)
  | other (type code : UInt8) (checksum : UInt16) (rest : Vector UInt8 4)
    (h : ¬IsEchoType family type) :
    IcmpWire family ⟨type, code, checksum.toNat, false, false, 0, 0⟩
      ([type] ++ [code] ++ beBytes checksum.toNat 2 ++ rest.toList)

/-- A header with the bytes `bs` stands at the start of a span that is long enough for it. -/
structure Starts (mem : List UInt8) (data : Span) (bs : List UInt8) : Prop where
  there : At mem data.start bs
  len : bs.length ≤ data.len

theorem num_two (mem : List UInt8) (i : Nat) : ∃ v : UInt16, num mem i 2 = v.toNat := by
  have hlt : num mem i 2 < 2 ^ 16 := num_lt mem i 2
  exact ⟨.ofNat (num mem i 2), by rw [UInt16.toNat_ofNat', Nat.mod_eq_of_lt hlt]⟩

theorem num_four (mem : List UInt8) (i : Nat) : ∃ v : UInt32, num mem i 4 = v.toNat := by
  have hlt : num mem i 4 < 2 ^ 32 := num_lt mem i 4
  exact ⟨.ofNat (num mem i 4), by rw [UInt32.toNat_ofNat', Nat.mod_eq_of_lt hlt]⟩

/-! For each header: what stands at an offset is one with the fields there, and no other. -/

section
variable {mem bs : List UInt8} {i : Nat}

/-! Ethernet -/

def ethHeaderAt (mem : List UInt8) (i : Nat) : EthHeader :=
  if num mem (i + 12) 2 = ethTypeVlan then
    ⟨octets mem i 6, octets mem (i + 6) 6, num mem (i + 16) 2, true, num mem (i + 14) 2⟩
  else ⟨octets mem i 6, octets mem (i + 6) 6, num mem (i + 12) 2, false, 0⟩

theorem EthWire.eq {hdr : EthHeader} (hwire : EthWire hdr bs) (h : At mem i bs) :
    hdr = ethHeaderAt mem i ∧ bs.length = l2Len mem i := by
  have hvlan : ethTypeVlan = 0x8100 := rfl
  cases hwire with
  | plain dstMac srcMac etherType hplain =>
    simp only [at_append, at_toList, at_uint16, List.length_append, Vector.length_toList,
      Nat.reduceAdd, Nat.add_assoc] at h
    obtain ⟨⟨⟨-, hdst⟩, -, hsrc⟩, -, htype⟩ := h
    rw [ethHeaderAt, l2Len, htype, if_neg hplain, if_neg (hvlan ▸ hplain), hdst, hsrc]
    exact ⟨rfl, by simp⟩
  | tagged dstMac srcMac vlanTci etherType =>
    simp (disch := decide) only [at_append, at_toList, at_uint16, at_beBytes, List.length_append,
      Vector.length_toList, length_beBytes, Nat.reduceAdd, Nat.add_assoc] at h
    obtain ⟨⟨⟨⟨⟨-, hdst⟩, -, hsrc⟩, -, htag⟩, -, htci⟩, -, htype⟩ := h
    rw [ethHeaderAt, l2Len, if_pos (htag.trans hvlan.symm), if_pos htag, hdst, hsrc, htci, htype]
    exact ⟨rfl, by simp⟩

theorem exists_ethWire (h : i + l2Len mem i ≤ mem.length) :
    ∃ bs, EthWire (ethHeaderAt mem i) bs ∧ At mem i bs ∧ bs.length = l2Len mem i := by
  have hvlan : ethTypeVlan = 0x8100 := rfl
  by_cases htag : num mem (i + 12) 2 = 0x8100
  · obtain ⟨vlanTci, htci⟩ := num_two mem (i + 14)
    obtain ⟨etherType, htype⟩ := num_two mem (i + 16)
    rw [l2Len, if_pos htag] at h ⊢
    rw [ethHeaderAt, if_pos (htag.trans hvlan.symm), htci, htype]
    refine ⟨_, .tagged _ _ vlanTci etherType, ?_, by simp⟩
    simp (disch := decide) only [at_append, at_toList, at_uint16, at_beBytes, List.length_append,
      Vector.length_toList, length_beBytes, Nat.reduceAdd, Nat.add_assoc, and_true, htag, htci,
      htype]
    omega
  · obtain ⟨etherType, htype⟩ := num_two mem (i + 12)
    rw [l2Len, if_neg htag] at h ⊢
    rw [ethHeaderAt, hvlan, if_neg htag, htype]
    refine ⟨_, .plain _ _ etherType (htype ▸ hvlan ▸ htag), ?_, by simp⟩
    simp only [at_append, at_toList, at_uint16, List.length_append, Vector.length_toList,
      Nat.reduceAdd, Nat.add_assoc, and_true, htype]
    omega

/-! ARP -/

def arpHeaderAt (mem : List UInt8) (i : Nat) : ArpHeader :=
  ⟨1, 0x0800, 6, 4, num mem (i + 6) 2, octets mem (i + 8) 6, octets mem (i + 14) 4,
    octets mem (i + 18) 6, octets mem (i + 24) 4⟩

structure ArpOk (mem : List UInt8) (i : Nat) : Prop where
  hardwareType : num mem i 2 = 1
  protocolType : num mem (i + 2) 2 = 0x0800
  hardwareAddrLen : octet mem (i + 4) = 6
  protocolAddrLen : octet mem (i + 5) = 4

theorem ArpWire.eq {hdr : ArpHeader} (hwire : ArpWire hdr bs) (h : At mem i bs) :
    hdr = arpHeaderAt mem i ∧ ArpOk mem i ∧ bs.length = 28 := by
  obtain ⟨opcode, senderMac, senderIp, targetMac, targetIp⟩ := hwire
  simp (disch := decide) only [at_append, at_toList, at_uint16, at_beBytes, at_octet,
    List.length_append, List.length_singleton, Vector.length_toList, length_beBytes, Nat.reduceAdd,
    Nat.add_assoc] at h
  obtain ⟨⟨⟨⟨⟨⟨⟨⟨⟨-, hhtype⟩, -, hptype⟩, -, hhlen⟩, -, hplen⟩, -, hop⟩, -, hsmac⟩, -, hsip⟩, -,
    htmac⟩, -, htip⟩ := h
  refine ⟨?_, ⟨hhtype, hptype, hhlen, hplen⟩, by simp⟩
  rw [arpHeaderAt, hop, hsmac, hsip, htmac, htip]

theorem exists_arpWire (h : i + 28 ≤ mem.length) (hok : ArpOk mem i) :
    ∃ bs, ArpWire (arpHeaderAt mem i) bs ∧ At mem i bs ∧ bs.length = 28 := by
  obtain ⟨opcode, hop⟩ := num_two mem (i + 6)
  rw [arpHeaderAt, hop]
  refine ⟨_, .mk opcode _ _ _ _, ?_, by simp⟩
  simp (disch := decide) only [at_append, at_toList, at_uint16, at_beBytes, at_octet,
    List.length_append, List.length_singleton, Vector.length_toList, length_beBytes, Nat.reduceAdd,
    Nat.add_assoc, and_true, hop, hok.hardwareType, hok.protocolType, hok.hardwareAddrLen,
    hok.protocolAddrLen]
  omega

/-! UDP -/

theorem UdpWire.eq {hdr : UdpHeader} (hwire : UdpWire hdr bs) (h : At mem i bs) :
    hdr = udpHeaderAt mem i ∧ bs.length = 8 := by
  obtain ⟨srcPort, dstPort, length, checksum⟩ := hwire
  simp only [at_append, at_uint16, List.length_append, length_beBytes, Nat.reduceAdd,
    Nat.add_assoc] at h
  obtain ⟨⟨⟨⟨-, hsrc⟩, -, hdst⟩, -, hlength⟩, -, hsum⟩ := h
  refine ⟨?_, by simp⟩
  rw [udpHeaderAt, hsrc, hdst, hlength, hsum]

theorem exists_udpWire (h : i + 8 ≤ mem.length) :
    ∃ bs, UdpWire (udpHeaderAt mem i) bs ∧ At mem i bs ∧ bs.length = 8 := by
  obtain ⟨srcPort, hsrc⟩ := num_two mem i
  obtain ⟨dstPort, hdst⟩ := num_two mem (i + 2)
  obtain ⟨length, hlength⟩ := num_two mem (i + 4)
  obtain ⟨checksum, hsum⟩ := num_two mem (i + 6)
  rw [udpHeaderAt, hsrc, hdst, hlength, hsum]
  refine ⟨_, .mk srcPort dstPort length checksum, ?_, by simp⟩
  simp only [at_append, at_uint16, List.length_append, length_beBytes, Nat.reduceAdd,
    Nat.add_assoc, and_true, hsrc, hdst, hlength, hsum]
  omega

/-! ICMP -/

theorem IcmpWire.eq {family : IcmpFamily} {hdr : IcmpHeader} (hwire : IcmpWire family hdr bs)
    (h : At mem i bs) : hdr = icmpHeaderAt mem i family ∧ bs.length = 8 := by
  cases hwire with
  | echo type code checksum echoId echoSeq hecho =>
    simp only [at_append, at_octet, at_uint16, List.length_append, List.length_singleton,
      length_beBytes, Nat.reduceAdd, Nat.add_assoc] at h
    obtain ⟨⟨⟨⟨⟨-, htype⟩, -, hcode⟩, -, hsum⟩, -, hid⟩, -, hseq⟩ := h
    refine ⟨?_, by simp⟩
    rw [icmpHeaderAt, htype, if_pos hecho, hcode, hsum, hid, hseq]
  | other type code checksum rest hother =>
    simp only [at_append, at_octet, at_uint16, at_toList, List.length_append, List.length_singleton,
      length_beBytes, Nat.reduceAdd, Nat.add_assoc] at h
    obtain ⟨⟨⟨⟨-, htype⟩, -, hcode⟩, -, hsum⟩, -, hrest⟩ := h
    refine ⟨?_, by simp⟩
    rw [icmpHeaderAt, htype, if_neg hother, hcode, hsum]

theorem exists_icmpWire (family : IcmpFamily) (h : i + 8 ≤ mem.length) :
    ∃ bs, IcmpWire family (icmpHeaderAt mem i family) bs ∧ At mem i bs ∧ bs.length = 8 := by
  obtain ⟨checksum, hsum⟩ := num_two mem (i + 2)
  by_cases hecho : IsEchoType family (octet mem i)
  · obtain ⟨echoId, hid⟩ := num_two mem (i + 4)
    obtain ⟨echoSeq, hseq⟩ := num_two mem (i + 6)
    rw [icmpHeaderAt, if_pos hecho, hsum, hid, hseq]
    refine ⟨_, .echo _ _ checksum echoId echoSeq hecho, ?_, by simp⟩
    simp only [at_append, at_octet, at_uint16, List.length_append, List.length_singleton,
      length_beBytes, Nat.reduceAdd, Nat.add_assoc, and_true, hsum, hid, hseq]
    omega
  · rw [icmpHeaderAt, if_neg hecho, hsum]
    refine ⟨_, .other _ _ checksum (octets mem (i + 4) 4) hecho, ?_, by simp⟩
    simp only [at_append, at_octet, at_uint16, at_toList, List.length_append, List.length_singleton,
      length_beBytes, Nat.reduceAdd, Nat.add_assoc, and_true, hsum]
    omega

/-! IPv4 -/

def ipHeaderAt (mem : List UInt8) (i : Nat) : IpHeader where
  version := 4
  ihl := UInt8.ofNat (lowNibble mem i)
  tos := octet mem (i + 1)
  totalLength := num mem (i + 2) 2
  identification := num mem (i + 4) 2
  flags := num mem (i + 6) 2 >>> 13
  fragmentOffset := num mem (i + 6) 2 &&& 0x1FFF
  ttl := octet mem (i + 8)
  protocol := octet mem (i + 9)
  checksum := num mem (i + 10) 2
  srcAddr := octets mem (i + 12) 4
  dstAddr := octets mem (i + 16) 4
  checksumValid := sumsToOnes (wordSum ((mem.drop i).take (4 * lowNibble mem i)))

theorem nibbles_ofNat {b : UInt8} {n : Nat} (h : b = UInt8.ofNat n) (hn : n < 256) :
    b.toNat / 16 = n / 16 ∧ b.toNat % 16 = n % 16 := by
  rw [h, UInt8.toNat_ofNat', Nat.mod_eq_of_lt hn]
  exact ⟨rfl, rfl⟩

theorem IpWire.eq {hdr : IpHeader} (hwire : IpWire hdr bs) (h : At mem i bs) :
    hdr = ipHeaderAt mem i ∧ highNibble mem i = 4 ∧ 5 ≤ lowNibble mem i ∧
      bs.length = 4 * lowNibble mem i := by
  obtain ⟨k, tos, totalLength, identification, flagsFrag, ttl, protocol, checksum, srcAddr, dstAddr,
    options, hk, hoptions, rfl⟩ := hwire
  -- The checksum is over the header as it stands there, options and all.
  have hbytes := (at_iff.mp h).2
  rw [at_append] at h
  simp only [ipFixed, at_append, at_octet, at_uint16, at_toList, List.length_append,
    List.length_singleton, Vector.length_toList, length_beBytes, Nat.reduceAdd, Nat.add_assoc] at h
  obtain ⟨⟨⟨⟨⟨⟨⟨⟨⟨⟨⟨-, hfirst⟩, -, htos⟩, -, htotal⟩, -, hid⟩, -, hfrag⟩, -, httl⟩, -, hproto⟩, -,
    hsum⟩, -, hsrc⟩, -, hdst⟩, -⟩ := h
  obtain ⟨hhigh, hlow⟩ := nibbles_ofNat hfirst (by omega)
  have hlow : lowNibble mem i = 5 + k := by rw [lowNibble, hlow]; omega
  have hlen : (ipFixed k tos totalLength identification flagsFrag ttl protocol checksum srcAddr
      dstAddr ++ options).length = 4 * lowNibble mem i := by
    simp [ipFixed, hoptions, hlow]
    omega
  refine ⟨?_, by rw [highNibble, hhigh]; omega, by omega, hlen⟩
  rw [hlen] at hbytes
  rw [ipHeaderAt, htos, htotal, hid, hfrag, httl, hproto, hsum, hsrc, hdst, hbytes, hlow]

theorem exists_ipWire (hhigh : highNibble mem i = 4) (hlow : 5 ≤ lowNibble mem i)
    (h : i + 4 * lowNibble mem i ≤ mem.length) :
    ∃ bs, IpWire (ipHeaderAt mem i) bs ∧ At mem i bs ∧ bs.length = 4 * lowNibble mem i := by
  obtain ⟨totalLength, htotal⟩ := num_two mem (i + 2)
  obtain ⟨identification, hid⟩ := num_two mem (i + 4)
  obtain ⟨flagsFrag, hfrag⟩ := num_two mem (i + 6)
  obtain ⟨checksum, hsum⟩ := num_two mem (i + 10)
  obtain ⟨k, hk⟩ := Nat.exists_eq_add_of_le hlow
  have hk10 : k ≤ 10 := by
    have hsmall : lowNibble mem i < 16 := Nat.mod_lt _ (by decide)
    omega
  have hfirst : octet mem i = UInt8.ofNat (0x45 + k) := by
    rw [← UInt8.toNat_inj, UInt8.toNat_ofNat', Nat.mod_eq_of_lt (by omega)]
    rw [highNibble] at hhigh
    rw [lowNibble] at hk
    omega
  obtain ⟨hthere, hoptions⟩ := @at_take mem (i + 20) (4 * k) (by omega)
  have hat : At mem i (ipFixed k (octet mem (i + 1)) totalLength identification flagsFrag
      (octet mem (i + 8)) (octet mem (i + 9)) checksum (octets mem (i + 12) 4)
      (octets mem (i + 16) 4) ++ (mem.drop (i + 20)).take (4 * k)) := by
    rw [at_append]
    simp only [ipFixed, at_append, at_octet, at_uint16, at_toList, List.length_append,
      List.length_singleton, Vector.length_toList, length_beBytes, Nat.reduceAdd, Nat.add_assoc,
      and_true, htotal, hid, hfrag, hsum, hfirst, hthere]
    omega
  have hlen : (ipFixed k (octet mem (i + 1)) totalLength identification flagsFrag
      (octet mem (i + 8)) (octet mem (i + 9)) checksum (octets mem (i + 12) 4)
      (octets mem (i + 16) 4) ++ (mem.drop (i + 20)).take (4 * k)).length =
      4 * lowNibble mem i := by
    rw [List.length_append, hoptions]
    simp [ipFixed]
    omega
  have hbytes := (at_iff.mp hat).2
  rw [hlen] at hbytes
  refine ⟨_, ?_, hat, hlen⟩
  rw [ipHeaderAt, htotal, hid, hfrag, hsum, hbytes, hk]
  exact .mk k _ totalLength identification flagsFrag _ _ checksum _ _ _ hk10 hoptions rfl

/-! IPv6. The first four fields share a word. -/

def ipv6HeaderAt (mem : List UInt8) (i : Nat) : Ipv6Header where
  version := 6
  trafficClass := UInt8.ofNat (num mem i 4 / 0x100000)
  flowLabel := num mem i 4 % 0x100000
  payloadLength := num mem (i + 4) 2
  nextHeader := octet mem (i + 6)
  hopLimit := octet mem (i + 7)
  srcAddr := octets mem (i + 8) 16
  dstAddr := octets mem (i + 24) 16

theorem num_four_eq (mem : List UInt8) (i : Nat) :
    num mem i 4 = (((octet mem i).toNat * 256 + (octet mem (i + 1)).toNat) * 256 +
      (octet mem (i + 2)).toNat) * 256 + (octet mem (i + 3)).toNat := by
  simp only [num_succ, num_zero, Nat.zero_mul, Nat.zero_add, Nat.add_zero]

theorem highNibble_eq (mem : List UInt8) (i : Nat) :
    highNibble mem i = num mem i 4 / 0x10000000 := by
  have h1 := (octet mem (i + 1)).toNat_lt
  have h2 := (octet mem (i + 2)).toNat_lt
  have h3 := (octet mem (i + 3)).toNat_lt
  rw [highNibble, num_four_eq]
  omega

theorem trafficClass_eq (mem : List UInt8) (i : Nat) :
    (octet mem i &&& 0x0F) <<< 4 ||| octet mem (i + 1) >>> 4 =
      UInt8.ofNat (num mem i 4 / 0x100000) := by
  have h1 := (octet mem (i + 1)).toNat_lt
  have h2 := (octet mem (i + 2)).toNat_lt
  have h3 := (octet mem (i + 3)).toNat_lt
  have hshift : ((octet mem i &&& 0x0F) <<< 4).toNat = ((octet mem i).toNat % 16) <<< 4 := by
    rw [UInt8.toNat_shiftLeft, toNat_and_fifteen]
    change (_ <<< 4) % 2 ^ 8 = _
    rw [Nat.shiftLeft_eq]
    omega
  have hhalf : (octet mem (i + 1)).toNat / 16 < 2 ^ 4 := by omega
  rw [← UInt8.toNat_inj, UInt8.toNat_or, hshift, toNat_shiftRight_four, UInt8.toNat_ofNat',
    ← Nat.shiftLeft_add_eq_or_of_lt hhalf, Nat.shiftLeft_eq, num_four_eq]
  omega

theorem flowLabel_eq (mem : List UInt8) (i : Nat) :
    (octet mem (i + 1) &&& 0x0F).toNat <<< 16 ||| (octet mem (i + 2)).toNat <<< 8 |||
      (octet mem (i + 3)).toNat = num mem i 4 % 0x100000 := by
  have h2 := (octet mem (i + 2)).toNat_lt
  have h3 := (octet mem (i + 3)).toNat_lt
  have hjoin : (octet mem (i + 1) &&& 0x0F).toNat <<< 16 ||| (octet mem (i + 2)).toNat <<< 8 =
      ((octet mem (i + 1) &&& 0x0F).toNat <<< 8 ||| (octet mem (i + 2)).toNat) <<< 8 := by
    rw [Nat.shiftLeft_or_distrib, ← Nat.shiftLeft_add]
  rw [hjoin, shiftLeft_or_byte, shiftLeft_or_byte, toNat_and_fifteen, num_four_eq]
  omega

theorem Ipv6Wire.eq {hdr : Ipv6Header} (hwire : Ipv6Wire hdr bs) (h : At mem i bs) :
    hdr = ipv6HeaderAt mem i ∧ highNibble mem i = 6 ∧ bs.length = 40 := by
  obtain ⟨trafficClass, flowLabel, payloadLength, nextHeader, hopLimit, srcAddr, dstAddr, hflow⟩ :=
    hwire
  have htc := trafficClass.toNat_lt
  -- The word gets a name, or its sum would be regrouped together with the offsets.
  obtain ⟨word, heq⟩ : ∃ word, word = 0x60000000 + trafficClass.toNat * 0x100000 + flowLabel :=
    ⟨_, rfl⟩
  have hword : word < 256 ^ 4 := by omega
  rw [← heq] at h ⊢
  simp only [at_append, at_octet, at_uint16, at_toList, at_beBytes hword, List.length_append,
    List.length_singleton, Vector.length_toList, length_beBytes, Nat.reduceAdd, Nat.add_assoc] at h
  obtain ⟨⟨⟨⟨⟨⟨-, hfirst⟩, -, hlength⟩, -, hnext⟩, -, hhop⟩, -, hsrc⟩, -, hdst⟩ := h
  have hclass : UInt8.ofNat (num mem i 4 / 0x100000) = trafficClass := by
    rw [← UInt8.toNat_inj, UInt8.toNat_ofNat', hfirst]
    omega
  have hlabel : num mem i 4 % 0x100000 = flowLabel := by omega
  refine ⟨?_, by rw [highNibble_eq, hfirst]; omega, by simp⟩
  rw [ipv6HeaderAt, hclass, hlabel, hlength, hnext, hhop, hsrc, hdst]

theorem exists_ipv6Wire (hsix : highNibble mem i = 6) (h : i + 40 ≤ mem.length) :
    ∃ bs, Ipv6Wire (ipv6HeaderAt mem i) bs ∧ At mem i bs ∧ bs.length = 40 := by
  obtain ⟨payloadLength, hlength⟩ := num_two mem (i + 4)
  rw [highNibble_eq] at hsix
  have hclass : (UInt8.ofNat (num mem i 4 / 0x100000)).toNat = num mem i 4 / 0x100000 % 256 :=
    UInt8.toNat_ofNat'
  have hfirst : num mem i 4 = 0x60000000 +
      (UInt8.ofNat (num mem i 4 / 0x100000)).toNat * 0x100000 + num mem i 4 % 0x100000 := by
    omega
  have hword := num_lt mem i 4
  rw [ipv6HeaderAt, hlength]
  refine ⟨_, .mk _ _ payloadLength _ _ _ _ (Nat.mod_lt _ (by decide)), ?_, by simp⟩
  rw [← hfirst]
  simp only [at_append, at_octet, at_uint16, at_toList, at_beBytes hword, List.length_append,
    List.length_singleton, Vector.length_toList, length_beBytes, Nat.reduceAdd, Nat.add_assoc,
    and_true, hlength]
  omega

/-! TCP -/

theorem toNat_and_63 (b : UInt8) : (b &&& 0x3F).toNat = b.toNat % 64 := by
  rw [UInt8.toNat_and]
  exact Nat.and_two_pow_sub_one_eq_mod b.toNat 6

theorem TcpWire.eq {hdr : TcpHeader} (hwire : TcpWire hdr bs) (h : At mem i bs) :
    hdr = tcpHeaderAt mem i ∧ 5 ≤ highNibble mem (i + 12) ∧
      bs.length = 4 * highNibble mem (i + 12) := by
  obtain ⟨srcPort, dstPort, seqNum, ackNum, k, reserved, ecn, flags, windowSize, checksum,
    urgentPointer, options, hk, hreserved, hecn, hflags, hoptions⟩ := hwire
  rw [at_append] at h
  simp only [at_append, at_octet, at_uint16, at_uint32, List.length_append, List.length_singleton,
    length_beBytes, Nat.reduceAdd, Nat.add_assoc] at h
  obtain ⟨⟨⟨⟨⟨⟨⟨⟨⟨⟨-, hsrc⟩, -, hdst⟩, -, hseq⟩, -, hack⟩, -, hoff⟩, -, hflag⟩, -, hwindow⟩, -,
    hsum⟩, -, hurgent⟩, -⟩ := h
  have hhigh : highNibble mem (i + 12) = 5 + k := by
    rw [highNibble, hoff, UInt8.toNat_ofNat']
    omega
  have hoffset : octet mem (i + 12) >>> 4 = UInt8.ofNat (5 + k) := by
    rw [← UInt8.toNat_inj, toNat_shiftRight_four, UInt8.toNat_ofNat', hoff, UInt8.toNat_ofNat']
    omega
  -- The mask drops the two bits above the flags.
  have hlow : octet mem (i + 13) &&& 0x3F = UInt8.ofNat flags := by
    rw [← UInt8.toNat_inj, toNat_and_63, UInt8.toNat_ofNat', hflag, UInt8.toNat_ofNat']
    omega
  refine ⟨?_, by omega, ?_⟩
  · rw [tcpHeaderAt, hsrc, hdst, hseq, hack, hoffset, hlow, hwindow, hsum, hurgent]
  · rw [List.length_append, hoptions, hhigh]
    simp
    omega

theorem exists_tcpWire (hoffset : 5 ≤ highNibble mem (i + 12))
    (h : i + 4 * highNibble mem (i + 12) ≤ mem.length) :
    ∃ bs, TcpWire (tcpHeaderAt mem i) bs ∧ At mem i bs ∧
      bs.length = 4 * highNibble mem (i + 12) := by
  obtain ⟨srcPort, hsrc⟩ := num_two mem i
  obtain ⟨dstPort, hdst⟩ := num_two mem (i + 2)
  obtain ⟨seqNum, hseq⟩ := num_four mem (i + 4)
  obtain ⟨ackNum, hack⟩ := num_four mem (i + 8)
  obtain ⟨windowSize, hwindow⟩ := num_two mem (i + 14)
  obtain ⟨checksum, hsum⟩ := num_two mem (i + 16)
  obtain ⟨urgentPointer, hurgent⟩ := num_two mem (i + 18)
  obtain ⟨k, hk⟩ := Nat.exists_eq_add_of_le hoffset
  have hb12 := (octet mem (i + 12)).toNat_lt
  have hb13 := (octet mem (i + 13)).toNat_lt
  have hhigh : (octet mem (i + 12)).toNat / 16 = 5 + k := hk
  have hoff : octet mem (i + 12) =
      UInt8.ofNat (16 * (5 + k) + (octet mem (i + 12)).toNat % 16) := by
    rw [← UInt8.toNat_inj, UInt8.toNat_ofNat']
    omega
  have hflag : octet mem (i + 13) = UInt8.ofNat (64 * ((octet mem (i + 13)).toNat / 64) +
      (octet mem (i + 13)).toNat % 64) := by
    rw [← UInt8.toNat_inj, UInt8.toNat_ofNat']
    omega
  have hword : octet mem (i + 12) >>> 4 = UInt8.ofNat (5 + k) := by
    rw [← UInt8.toNat_inj, toNat_shiftRight_four, UInt8.toNat_ofNat']
    omega
  have hlow : octet mem (i + 13) &&& 0x3F = UInt8.ofNat ((octet mem (i + 13)).toNat % 64) := by
    rw [← UInt8.toNat_inj, toNat_and_63, UInt8.toNat_ofNat']
    omega
  obtain ⟨hthere, hoptions⟩ := @at_take mem (i + 20) (4 * k) (by omega)
  rw [tcpHeaderAt, hsrc, hdst, hseq, hack, hword, hlow, hwindow, hsum, hurgent]
  refine ⟨_, .mk srcPort dstPort seqNum ackNum k ((octet mem (i + 12)).toNat % 16)
    ((octet mem (i + 13)).toNat / 64) _ windowSize checksum urgentPointer _ (by omega) (by omega)
    (by omega) (by omega) hoptions, ?_, ?_⟩
  · rw [at_append]
    simp only [at_append, at_octet, at_uint16, at_uint32, List.length_append, List.length_singleton,
      length_beBytes, Nat.reduceAdd, Nat.add_assoc, and_true, hsrc, hdst, hseq, hack, hwindow, hsum,
      hurgent, ← hoff, ← hflag, hthere]
    omega
  · rw [List.length_append, hoptions, hk]
    simp
    omega

end
end MyWireshark.Dissect
