import MyWireshark.Dissect.Parsers

/-! What the parsers do on a span that lies inside the capture: when they accept, which bytes
the fields come from, and which span they hand on. No read of theirs leaves the capture. -/
namespace MyWireshark.Dissect
open Bytes DispFilter

section
variable {mem : List UInt8} {data : Span}

theorem toNat_shiftRight_four (b : UInt8) : (b >>> 4).toNat = b.toNat / 16 := by
  rw [UInt8.toNat_shiftRight]
  exact Nat.shiftRight_eq_div_pow b.toNat 4

theorem toNat_and_fifteen (b : UInt8) : (b &&& 0x0F).toNat = b.toNat % 16 := by
  rw [UInt8.toNat_and]
  exact Nat.and_two_pow_sub_one_eq_mod b.toNat 4

def highNibble (mem : List UInt8) (i : Nat) : Nat := (octet mem i).toNat / 16

def lowNibble (mem : List UInt8) (i : Nat) : Nat := (octet mem i).toNat % 16

/-- Length of the Ethernet header at an offset, with its tag if it has one. -/
def l2Len (mem : List UInt8) (i : Nat) : Nat := if num mem (i + 12) 2 = 0x8100 then 18 else 14

theorem l2Len_bounds (mem : List UInt8) (i : Nat) : 14 ≤ l2Len mem i ∧ l2Len mem i ≤ 18 := by
  unfold l2Len
  split <;> omega

section
variable {i : Nat} (tail : List UInt8)

theorem highNibble_append (h : i < mem.length) :
    highNibble (mem ++ tail) i = highNibble mem i := by
  rw [highNibble, highNibble, octet_append tail h]

theorem lowNibble_append (h : i < mem.length) : lowNibble (mem ++ tail) i = lowNibble mem i := by
  rw [lowNibble, lowNibble, octet_append tail h]

theorem l2Len_append (h : i + 14 ≤ mem.length) : l2Len (mem ++ tail) i = l2Len mem i := by
  rw [l2Len, l2Len, num_append tail (show i + 12 + 2 ≤ mem.length from h)]

end

theorem ethParse_spec (h : data.Fits mem) :
    (data.len < l2Len mem data.start ∧ ethParse mem data = some none) ∨
    (l2Len mem data.start ≤ data.len ∧ ∃ hdr,
      ethParse mem data = some (some (hdr, data.advance (l2Len mem data.start))) ∧
      hdr.dstMac = octets mem data.start 6 ∧ hdr.srcMac = octets mem (data.start + 6) 6 ∧
      hdr.etherType = num mem (data.start + (l2Len mem data.start - 2)) 2 ∧
      hdr.hasVlan = (l2Len mem data.start != 14)) := by
  have hb := h.bound
  have h14 : ethHeaderLen = 14 := rfl
  have h18 : ethHeaderLen + ethVlanTagLen = 18 := rfl
  unfold l2Len
  by_cases hshort : data.len < ethHeaderLen
  · refine .inl ⟨by split <;> omega, ?_⟩
    rw [ethParse, if_pos hshort]
    rfl
  · rw [ethParse, if_neg hshort]
    simp (disch := omega) only [readBytes_eq, read16_eq, Option.bind_eq_bind, Option.bind_some]
    by_cases htag : num mem (data.start + 12) 2 = ethTypeVlan
    · have hvlan : num mem (data.start + 12) 2 = 0x8100 := htag
      rw [if_pos htag, if_pos hvlan]
      by_cases hcut : data.len < ethHeaderLen + ethVlanTagLen
      · refine .inl ⟨by omega, ?_⟩
        rw [if_pos hcut]
        rfl
      · refine .inr ⟨by omega, ?_⟩
        rw [if_neg hcut]
        exact ⟨_, rfl, rfl, rfl, rfl, rfl⟩
    · have hplain : ¬ num mem (data.start + 12) 2 = 0x8100 := htag
      rw [if_neg htag, if_neg hplain]
      exact .inr ⟨by omega, _, rfl, rfl, rfl, rfl, rfl⟩

theorem of_ethParse {hdr : EthHeader} {payload : Span} (h : data.Fits mem)
    (hparse : ethParse mem data = some (some (hdr, payload))) :
    l2Len mem data.start ≤ data.len ∧ payload = data.advance (l2Len mem data.start) ∧
      hdr.etherType = num mem (data.start + (l2Len mem data.start - 2)) 2 ∧
      hdr.hasVlan = (l2Len mem data.start != 14) := by
  obtain ⟨-, hno⟩ | ⟨hfits, hdr', hyes, -, -, htype, hvlan⟩ := ethParse_spec h
  · rw [hno] at hparse
    cases hparse
  · rw [hyes] at hparse
    cases hparse
    exact ⟨hfits, rfl, htype, hvlan⟩

structure IpOk (mem : List UInt8) (data : Span) : Prop where
  len : 20 ≤ data.len
  version : highNibble mem data.start = 4
  ihl : 5 ≤ lowNibble mem data.start
  fits : 4 * lowNibble mem data.start ≤ data.len

/-- The bytes of a packet after its header, as far as the packet and the capture go. -/
def ipPayloadLen (mem : List UInt8) (data : Span) : Nat :=
  let headerLen := 4 * lowNibble mem data.start
  let totalLength := num mem (data.start + 2) 2
  if headerLen ≤ totalLength then min data.len totalLength - headerLen else data.len - headerLen

theorem ipPayload_eq (hlen : data.len < 2 ^ 32)
    (hfits : 4 * lowNibble mem data.start ≤ data.len) :
    ipPayload data (lowNibble mem data.start * 4) (num mem (data.start + 2) 2) =
      ⟨data.start + 4 * lowNibble mem data.start, ipPayloadLen mem data⟩ := by
  have hadv := Span.advance_eq hfits hlen
  rw [ipPayload, Nat.mul_comm, hadv]
  simp only [ipPayloadLen]
  split_ifs with hclip hle hle <;> simp <;> omega

theorem ipPayload_within (hfits : 4 * lowNibble mem data.start ≤ data.len) :
    (⟨data.start + 4 * lowNibble mem data.start, ipPayloadLen mem data⟩ : Span).Within data := by
  refine ⟨Nat.le_add_right _ _, ?_⟩
  simp only [ipPayloadLen]
  split_ifs <;> omega

theorem ipParse_spec (h : data.Fits mem) :
    (¬ IpOk mem data ∧ ipParse mem data = some none) ∨
    (IpOk mem data ∧ ∃ hdr,
      ipParse mem data = some (some (hdr,
        ⟨data.start + 4 * lowNibble mem data.start, ipPayloadLen mem data⟩)) ∧
      hdr.protocol = octet mem (data.start + 9) ∧
      hdr.srcAddr = octets mem (data.start + 12) 4 ∧
      hdr.dstAddr = octets mem (data.start + 16) 4 ∧
      hdr.ihl.toNat = lowNibble mem data.start) := by
  have hb := h.bound
  have h20 : ipHeaderMinLen = 20 := rfl
  by_cases hshort : data.len < ipHeaderMinLen
  · refine .inl ⟨fun hok => by have := hok.len; omega, ?_⟩
    rw [ipParse, if_pos hshort]
    rfl
  · have hword : (octet mem data.start &&& 0x0F).toNat = lowNibble mem data.start :=
      toNat_and_fifteen _
    have hbad : (octet mem data.start >>> 4 ≠ 4 ∨ octet mem data.start &&& 0x0F < 5 ∨
        lowNibble mem data.start * 4 > data.len) ↔ ¬ IpOk mem data := by
      rw [ne_eq, ← UInt8.toNat_inj, toNat_shiftRight_four, UInt8.lt_iff_toNat_lt, hword]
      change ¬ highNibble mem data.start = 4 ∨ lowNibble mem data.start < 5 ∨ _ ↔ _
      constructor
      · rintro hor ⟨-, hversion, hihl, hfits⟩
        omega
      · intro hnot
        by_contra hor
        exact hnot ⟨by omega, by omega, by omega, by omega⟩
    rw [ipParse, if_neg hshort]
    simp (disch := omega) only [getElem?_octet, read16_eq, readBytes_eq, Option.bind_eq_bind,
      Option.bind_some, hword]
    by_cases hok : IpOk mem data
    · rw [if_neg (by rw [hbad]; exact not_not_intro hok), ipPayload_eq h.len hok.fits]
      have hhdr : (⟨data.start, lowNibble mem data.start * 4⟩ : Span).Within data :=
        ⟨Nat.le_refl _, by have := hok.fits; simp only; omega⟩
      obtain ⟨ok, hsum⟩ := checksumVerify_total (hhdr.fits h)
      rw [hsum]
      exact .inr ⟨hok, _, rfl, rfl, rfl, rfl, hword⟩
    · rw [if_pos (hbad.mpr hok)]
      exact .inl ⟨hok, rfl⟩

theorem of_ipParse {hdr : IpHeader} {payload : Span} (h : data.Fits mem)
    (hparse : ipParse mem data = some (some (hdr, payload))) :
    IpOk mem data ∧
      payload = ⟨data.start + 4 * lowNibble mem data.start, ipPayloadLen mem data⟩ ∧
      hdr.protocol = octet mem (data.start + 9) ∧ hdr.ihl.toNat = lowNibble mem data.start := by
  obtain ⟨-, hno⟩ | ⟨hok, hdr', hyes, hproto, -, -, hihl⟩ := ipParse_spec h
  · rw [hno] at hparse
    cases hparse
  · rw [hyes] at hparse
    cases hparse
    exact ⟨hok, rfl, hproto, hihl⟩

structure Ipv6Ok (mem : List UInt8) (data : Span) : Prop where
  len : 40 ≤ data.len
  version : highNibble mem data.start = 6

theorem ipv6Parse_spec (h : data.Fits mem) :
    (¬ Ipv6Ok mem data ∧ ipv6Parse mem data = some none) ∨
    (Ipv6Ok mem data ∧ ∃ hdr, ipv6Parse mem data = some (some (hdr, data.advance 40)) ∧
      hdr.nextHeader = octet mem (data.start + 6) ∧
      hdr.srcAddr = octets mem (data.start + 8) 16 ∧
      hdr.dstAddr = octets mem (data.start + 24) 16) := by
  have hb := h.bound
  have h40 : ipv6HeaderLen = 40 := rfl
  by_cases hshort : data.len < ipv6HeaderLen
  · refine .inl ⟨fun hok => by have := hok.len; omega, ?_⟩
    rw [ipv6Parse, if_pos hshort]
    rfl
  · have hversion : octet mem data.start >>> 4 ≠ 6 ↔ ¬ highNibble mem data.start = 6 := by
      rw [ne_eq, ← UInt8.toNat_inj, toNat_shiftRight_four]
      rfl
    rw [ipv6Parse, if_neg hshort]
    simp (disch := omega) only [getElem?_octet, read16_eq, readBytes_eq, Option.bind_eq_bind,
      Option.bind_some]
    by_cases hsix : highNibble mem data.start = 6
    · rw [if_neg (by rw [hversion]; exact not_not_intro hsix)]
      exact .inr ⟨⟨by omega, hsix⟩, _, rfl, rfl, rfl, rfl⟩
    · rw [if_pos (hversion.mpr hsix)]
      exact .inl ⟨fun hok => hsix hok.version, rfl⟩

theorem of_ipv6Parse {hdr : Ipv6Header} {payload : Span} (h : data.Fits mem)
    (hparse : ipv6Parse mem data = some (some (hdr, payload))) :
    Ipv6Ok mem data ∧ payload = data.advance ipv6HeaderLen := by
  obtain ⟨-, hno⟩ | ⟨hok, hdr', hyes, -⟩ := ipv6Parse_spec h
  · rw [hno] at hparse
    cases hparse
  · rw [hyes] at hparse
    cases hparse
    exact ⟨hok, rfl⟩

structure TcpOk (mem : List UInt8) (data : Span) : Prop where
  len : 20 ≤ data.len
  dataOffset : 5 ≤ highNibble mem (data.start + 12)
  fits : 4 * highNibble mem (data.start + 12) ≤ data.len

def tcpHeaderAt (mem : List UInt8) (i : Nat) : TcpHeader where
  srcPort := num mem i 2
  dstPort := num mem (i + 2) 2
  seqNum := num mem (i + 4) 4
  ackNum := num mem (i + 8) 4
  dataOffset := octet mem (i + 12) >>> 4
  flags := octet mem (i + 13) &&& 0x3F
  windowSize := num mem (i + 14) 2
  checksum := num mem (i + 16) 2
  urgentPointer := num mem (i + 18) 2
  checksumValid := false

theorem tcpParse_spec (h : data.Fits mem) :
    (¬ TcpOk mem data ∧ tcpParse mem data = some none) ∨
    (TcpOk mem data ∧ tcpParse mem data = some (some (tcpHeaderAt mem data.start,
      data.advance (highNibble mem (data.start + 12) * 4)))) := by
  have hb := h.bound
  have h20 : tcpHeaderMinLen = 20 := rfl
  by_cases hshort : data.len < tcpHeaderMinLen
  · refine .inl ⟨fun hok => by have := hok.len; omega, ?_⟩
    rw [tcpParse, if_pos hshort]
    rfl
  · have hword : (octet mem (data.start + 12) >>> 4).toNat = highNibble mem (data.start + 12) :=
      toNat_shiftRight_four _
    have hbad : (octet mem (data.start + 12) >>> 4 < 5 ∨
        highNibble mem (data.start + 12) * 4 > data.len) ↔ ¬ TcpOk mem data := by
      rw [UInt8.lt_iff_toNat_lt, hword]
      change highNibble mem (data.start + 12) < 5 ∨ _ ↔ _
      constructor
      · rintro hor ⟨-, hoff, hfits⟩
        omega
      · intro hnot
        by_contra hor
        exact hnot ⟨by omega, by omega, by omega⟩
    rw [tcpParse, if_neg hshort]
    simp (disch := omega) only [getElem?_octet, read16_eq, read32_eq, Option.bind_eq_bind,
      Option.bind_some, hword]
    by_cases hok : TcpOk mem data
    · rw [if_neg (by rw [hbad]; exact not_not_intro hok)]
      exact .inr ⟨hok, rfl⟩
    · rw [if_pos (hbad.mpr hok)]
      exact .inl ⟨hok, rfl⟩

def udpHeaderAt (mem : List UInt8) (i : Nat) : UdpHeader where
  srcPort := num mem i 2
  dstPort := num mem (i + 2) 2
  length := num mem (i + 4) 2
  checksum := num mem (i + 6) 2
  checksumPresent := num mem (i + 6) 2 != 0
  checksumValid := false

theorem udpParse_spec (h : data.Fits mem) :
    (data.len < 8 ∧ udpParse mem data = some none) ∨
    (8 ≤ data.len ∧ udpParse mem data =
      some (some (udpHeaderAt mem data.start, data.advance 8))) := by
  have hb := h.bound
  have h8 : udpHeaderLen = 8 := rfl
  by_cases hshort : data.len < udpHeaderLen
  · refine .inl ⟨by omega, ?_⟩
    rw [udpParse, if_pos hshort]
    rfl
  · rw [udpParse, if_neg hshort]
    simp (disch := omega) only [read16_eq, Option.bind_eq_bind, Option.bind_some]
    exact .inr ⟨by omega, rfl⟩

def icmpHeaderAt (mem : List UInt8) (i : Nat) (family : IcmpFamily) : IcmpHeader :=
  let request := if family = .v6 then icmpv6TypeEchoRequest else icmpv4TypeEchoRequest
  let reply := if family = .v6 then icmpv6TypeEchoReply else icmpv4TypeEchoReply
  if octet mem i = request ∨ octet mem i = reply then
    ⟨octet mem i, octet mem (i + 1), num mem (i + 2) 2, false, true, num mem (i + 4) 2,
      num mem (i + 6) 2⟩
  else ⟨octet mem i, octet mem (i + 1), num mem (i + 2) 2, false, false, 0, 0⟩

theorem icmpParse_spec (h : data.Fits mem) (family : IcmpFamily) :
    (data.len < 8 ∧ icmpParse mem data family = some none) ∨
    (8 ≤ data.len ∧ icmpParse mem data family =
      some (some (icmpHeaderAt mem data.start family))) := by
  have hb := h.bound
  have h8 : icmpHeaderLen = 8 := rfl
  by_cases hshort : data.len < icmpHeaderLen
  · refine .inl ⟨by omega, ?_⟩
    rw [icmpParse, if_pos hshort]
    rfl
  · refine .inr ⟨by omega, ?_⟩
    rw [icmpParse, if_neg hshort]
    simp (disch := omega) only [getElem?_octet, read16_eq, Option.bind_eq_bind, Option.bind_some]
    rw [icmpHeaderAt]
    split <;> split <;> rfl

/- The parsers and verifiers of which only the text of the summary depends. -/

theorem arpParse_total (h : data.Fits mem) : ∃ r, arpParse mem data = some r := by
  have hb := h.bound
  have h28 : arpHeaderLen = 28 := rfl
  by_cases hshort : data.len < arpHeaderLen
  · exact ⟨none, by rw [arpParse, if_pos hshort]; rfl⟩
  · rw [arpParse, if_neg hshort]
    simp (disch := omega) only [getElem?_octet, read16_eq, readBytes_eq, Option.bind_eq_bind,
      Option.bind_some]
    split <;> exact ⟨_, rfl⟩

theorem icmpParse_total (h : data.Fits mem) (family : IcmpFamily) :
    ∃ r, icmpParse mem data family = some r :=
  (icmpParse_spec h family).elim (fun h => ⟨_, h.2⟩) fun h => ⟨_, h.2⟩

/-- A verifier that looks at its segment only when the header can be there. -/
theorem verify_total {n : Nat} {v : Option Bool} (h : ∃ ok, v = some ok) :
    ∃ ok, (if data.len < n then some false else v) = some ok := by
  split
  · exact ⟨false, rfl⟩
  · exact h

theorem tcpVerifyChecksum_total (h : data.Fits mem) (src dst : Ipv4Addr) :
    ∃ ok, tcpVerifyChecksum mem data src dst = some ok :=
  verify_total (checksumVerifyPseudo_total _ h)

theorem tcpVerifyChecksumIpv6_total (h : data.Fits mem) (src dst : Ipv6Addr) :
    ∃ ok, tcpVerifyChecksumIpv6 mem data src dst = some ok :=
  verify_total (checksumVerifyPseudo_total _ h)

theorem udpVerifyChecksumIpv6_total (h : data.Fits mem) (src dst : Ipv6Addr) :
    ∃ ok, udpVerifyChecksumIpv6 mem data src dst = some ok :=
  verify_total (checksumVerifyPseudo_total _ h)

theorem icmpv4VerifyChecksum_total (h : data.Fits mem) :
    ∃ ok, icmpv4VerifyChecksum mem data = some ok :=
  verify_total (checksumVerify_total h)

theorem icmpv6VerifyChecksum_total (h : data.Fits mem) (src dst : Ipv6Addr) :
    ∃ ok, icmpv6VerifyChecksum mem data src dst = some ok :=
  verify_total (checksumVerifyPseudo_total _ h)

theorem udpVerifyChecksum_total (h : data.Fits mem) (src dst : Ipv4Addr) :
    ∃ ok, udpVerifyChecksum mem data src dst = some ok := by
  have hb := h.bound
  have h8 : udpHeaderLen = 8 := rfl
  by_cases hshort : data.len < udpHeaderLen
  · exact ⟨false, by rw [udpVerifyChecksum, if_pos hshort]; rfl⟩
  · rw [udpVerifyChecksum, if_neg hshort]
    simp (disch := omega) only [read16_eq, Option.bind_eq_bind, Option.bind_some]
    split
    · exact ⟨true, rfl⟩
    · exact checksumVerifyPseudo_total _ h

end
end MyWireshark.Dissect
