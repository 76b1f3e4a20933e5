import MyWireshark.Dissect.ChecksumExact
import MyWireshark.Dissect.Padding

/-! Bytes after the end of an IPv6 packet. Unlike ip_parse, ipv6_parse hands on all that was
captured after its header, whatever the payload length says, and the trailer is taken for a
part of the segment. -/
namespace MyWireshark.Dissect
open Bytes OnesComplement DispFilter

/-- What the switch over the next header finds: the L4 header with the verdict on its
checksum, which goes into the packet object, and the suffix of the line. -/
structure Ipv6L4 where
  tcp : Option TcpHeader
  udp : Option UdpHeader
  icmp : Option IcmpHeader
  suffix : String

def ipv6L4 (mem : List UInt8) (ipv6 : Ipv6Header) (payload : Span) : Option Ipv6L4 := do
  if ipv6.nextHeader = ipProtoTcp then
    match ← tcpParse mem payload with
    | some (tcp, _) =>
      let ok ← tcpVerifyChecksumIpv6 mem payload ipv6.srcAddr ipv6.dstAddr
      return ⟨some { tcp with checksumValid := ok }, none, none, ""⟩
    | none => return ⟨none, none, none, " TCP (truncated)"⟩
  else if ipv6.nextHeader = ipProtoUdp then
    match ← udpParse mem payload with
    | some (udp, _) =>
      let ok ← udpVerifyChecksumIpv6 mem payload ipv6.srcAddr ipv6.dstAddr
      return ⟨none, some { udp with checksumValid := ok }, none, ""⟩
    | none => return ⟨none, none, none, " UDP (truncated)"⟩
  else if ipv6.nextHeader = ipProtoIcmpv6 then
    match ← icmpParse mem payload .v6 with
    | some icmp =>
      let ok ← icmpv6VerifyChecksum mem payload ipv6.srcAddr ipv6.dstAddr
      return ⟨none, none, some { icmp with checksumValid := ok }, ""⟩
    | none => return ⟨none, none, none, " ICMPv6 (truncated)"⟩
  else return ⟨none, none, none, ""⟩

def Ipv6L4.record (l4 : Ipv6L4) (fields : Fields) : Fields :=
  match l4.tcp, l4.udp with
  | some tcp, _ => { fields with hasTcp := 1, tcpSrcPort := tcp.srcPort, tcpDstPort := tcp.dstPort }
  | none, some udp =>
    { fields with hasUdp := 1, udpSrcPort := udp.srcPort, udpDstPort := udp.dstPort }
  | none, none => fields

/-- The packet object is made of what the switch found, and of nothing else. -/
theorem printIpv6Payload_eq (job : Job) (filter : Option Dispfilter) (turns : Nat)
    (fields : Fields) (eth : EthHeader) (ipv6 : Ipv6Header) (payload : Span) :
    printIpv6Payload job filter turns fields eth ipv6 payload =
      (ipv6L4 job.packet ipv6 payload).bind fun l4 =>
        finish job filter turns (l4.record fields)
          (.ipv6 (packetBase job eth none) ipv6 l4.tcp l4.udp l4.icmp) l4.suffix := by
  unfold printIpv6Payload ipv6L4
  by_cases htcp : ipv6.nextHeader = ipProtoTcp
  · simp only [if_pos htcp]
    rcases tcpParse job.packet payload with _ | _ | ⟨hdr, rest⟩
    · rfl
    · rfl
    · cases tcpVerifyChecksumIpv6 job.packet payload ipv6.srcAddr ipv6.dstAddr <;> rfl
  · simp only [if_neg htcp]
    by_cases hudp : ipv6.nextHeader = ipProtoUdp
    · simp only [if_pos hudp]
      rcases udpParse job.packet payload with _ | _ | ⟨hdr, rest⟩
      · rfl
      · rfl
      · cases udpVerifyChecksumIpv6 job.packet payload ipv6.srcAddr ipv6.dstAddr <;> rfl
    · simp only [if_neg hudp]
      by_cases hicmp : ipv6.nextHeader = ipProtoIcmpv6
      · simp only [if_pos hicmp]
        rcases icmpParse job.packet payload .v6 with _ | _ | hdr
        · rfl
        · rfl
        · cases icmpv6VerifyChecksum job.packet payload ipv6.srcAddr ipv6.dstAddr <;> rfl
      · simp only [if_neg hicmp]
        rfl

/-! The switch on a span inside the capture -/

/-- The words of a segment and its pseudo-header. -/
def ipv6Sum (mem : List UInt8) (ipv6 : Ipv6Header) (segment : Span) : Nat :=
  ipv6PseudoSum ipv6.srcAddr ipv6.dstAddr ipv6.nextHeader segment.len + wordSum (segment.bytes mem)

/-- The verifiers have 32 bits for the sum. -/
def ipv6Verdict (mem : List UInt8) (ipv6 : Ipv6Header) (segment : Span) : Bool :=
  sumsToOnes (u32 (ipv6Sum mem ipv6 segment))

section
variable {mem : List UInt8} {ipv6 : Ipv6Header} {segment : Span}

theorem verify_eq {n : Nat} {proto : UInt8} (hproto : ipv6.nextHeader = proto)
    (h : segment.Fits mem) (hn : n ≤ segment.len) :
    (if segment.len < n then some false
      else checksumVerifyIpv6Pseudo mem segment ipv6.srcAddr ipv6.dstAddr proto) =
      some (ipv6Verdict mem ipv6 segment) := by
  rw [if_neg (by omega), checksumVerifyIpv6Pseudo_mod h, ← hproto]
  rfl

theorem ipv6L4_tcp (hproto : ipv6.nextHeader = ipProtoTcp) (h : segment.Fits mem) :
    (¬ TcpOk mem segment ∧ ipv6L4 mem ipv6 segment = some ⟨none, none, none, " TCP (truncated)"⟩) ∨
    (TcpOk mem segment ∧ ipv6L4 mem ipv6 segment = some ⟨some { tcpHeaderAt mem segment.start with
      checksumValid := ipv6Verdict mem ipv6 segment }, none, none, ""⟩) := by
  rw [ipv6L4, if_pos hproto]
  obtain ⟨hno, hparse⟩ | ⟨hok, hparse⟩ := tcpParse_spec h
  · rw [hparse]
    exact .inl ⟨hno, rfl⟩
  · have hsum : tcpVerifyChecksumIpv6 mem segment ipv6.srcAddr ipv6.dstAddr =
        some (ipv6Verdict mem ipv6 segment) := verify_eq hproto h hok.len
    rw [hparse, hsum]
    exact .inr ⟨hok, rfl⟩

theorem ipv6L4_udp (hproto : ipv6.nextHeader = ipProtoUdp) (h : segment.Fits mem) :
    (segment.len < 8 ∧ ipv6L4 mem ipv6 segment = some ⟨none, none, none, " UDP (truncated)"⟩) ∨
    (8 ≤ segment.len ∧ ipv6L4 mem ipv6 segment =
      some ⟨none, some { udpHeaderAt mem segment.start with
        checksumValid := ipv6Verdict mem ipv6 segment }, none, ""⟩) := by
  rw [ipv6L4, if_neg (by rw [hproto]; decide), if_pos hproto]
  obtain ⟨hno, hparse⟩ | ⟨hok, hparse⟩ := udpParse_spec h
  · rw [hparse]
    exact .inl ⟨hno, rfl⟩
  · have hsum : udpVerifyChecksumIpv6 mem segment ipv6.srcAddr ipv6.dstAddr =
        some (ipv6Verdict mem ipv6 segment) := verify_eq hproto h hok
    rw [hparse, hsum]
    exact .inr ⟨hok, rfl⟩

theorem ipv6L4_icmp (hproto : ipv6.nextHeader = ipProtoIcmpv6) (h : segment.Fits mem) :
    (segment.len < 8 ∧ ipv6L4 mem ipv6 segment = some ⟨none, none, none, " ICMPv6 (truncated)"⟩) ∨
    (8 ≤ segment.len ∧ ipv6L4 mem ipv6 segment = some ⟨none, none,
      some { icmpHeaderAt mem segment.start .v6 with
        checksumValid := ipv6Verdict mem ipv6 segment }, ""⟩) := by
  rw [ipv6L4, if_neg (by rw [hproto]; decide), if_neg (by rw [hproto]; decide), if_pos hproto]
  obtain ⟨hno, hparse⟩ | ⟨hok, hparse⟩ := icmpParse_spec h .v6
  · rw [hparse]
    exact .inl ⟨hno, rfl⟩
  · have hsum : icmpv6VerifyChecksum mem segment ipv6.srcAddr ipv6.dstAddr =
        some (ipv6Verdict mem ipv6 segment) := verify_eq hproto h hok
    rw [hparse, hsum]
    exact .inr ⟨hok, rfl⟩

theorem ipv6L4_other (htcp : ipv6.nextHeader ≠ ipProtoTcp) (hudp : ipv6.nextHeader ≠ ipProtoUdp)
    (hicmp : ipv6.nextHeader ≠ ipProtoIcmpv6) (mem : List UInt8) (segment : Span) :
    ipv6L4 mem ipv6 segment = some ⟨none, none, none, ""⟩ := by
  rw [ipv6L4, if_neg htcp, if_neg hudp, if_neg hicmp]
  rfl

theorem ipv6L4_append (tail : List UInt8) (h : segment.Fits mem) :
    ipv6L4 (mem ++ tail) ipv6 segment = ipv6L4 mem ipv6 segment := by
  simp only [ipv6L4, tcpVerifyChecksumIpv6, udpVerifyChecksumIpv6, icmpv6VerifyChecksum,
    checksumVerifyIpv6Pseudo, tcpParse_append tail h, udpParse_append tail h,
    icmpParse_append tail h, checksumVerifyPseudo_append tail _ h]

/-- Of two spans from one offset on, the report is one and the same when the longer one is
refused too, or when both hold the header and get one verdict. -/
theorem report_eq_iff {α : Type} {longOk shortOk : Prop} {cut long short : α} (mk : Bool → α)
    {longVerdict shortVerdict : Bool} (hmono : shortOk → longOk) (hmk : ∀ v w, mk v = mk w → v = w)
    (hcut : ∀ v, mk v ≠ cut) (hlong : ¬ longOk ∧ long = cut ∨ longOk ∧ long = mk longVerdict)
    (hshort : ¬ shortOk ∧ short = cut ∨ shortOk ∧ short = mk shortVerdict) :
    long = short ↔ (longOk → shortOk ∧ longVerdict = shortVerdict) := by
  obtain ⟨hno, rfl⟩ | ⟨hlongOk, rfl⟩ := hlong
  · obtain ⟨-, rfl⟩ | ⟨hshortOk, -⟩ := hshort
    · exact iff_of_true rfl fun hok => absurd hok hno
    · exact absurd (hmono hshortOk) hno
  · obtain ⟨hno, rfl⟩ | ⟨hshortOk, rfl⟩ := hshort
    · exact iff_of_false (hcut _) fun h => hno (h hlongOk).1
    · exact ⟨fun heq _ => ⟨hshortOk, hmk _ _ heq⟩, fun h => congrArg mk (h hlongOk).2⟩

end

/-! What a trailer adds to the sum -/

/-- Modulo 65535, bytes behind the first `short` ones of a segment add their words and, in the
pseudo-header, their number. -/
def trailerSum (short : Nat) (trailer : List UInt8) : Nat :=
  wordSumFrom short trailer + trailer.length

/-- The bytes behind the first `short` ones keep the sum a multiple of 65535 if it is one, and do
not make it one otherwise. -/
structure SumKept (mem : List UInt8) (ipv6 : Ipv6Header) (start short long : Nat) : Prop where
  captured : long ≤ 65536 → (65535 ∣ ipv6Sum mem ipv6 ⟨start, short⟩ ↔
    65535 ∣ ipv6Sum mem ipv6 ⟨start, short⟩ +
      trailerSum short (Span.bytes ⟨start + short, long - short⟩ mem))
  /-- More bytes than raw_socket_recv ever returns: each time the sum leaves 32 bits, 1 is lost of
  it modulo 65535. -/
  longer : 65536 < long → (65535 ∣ ipv6Sum mem ipv6 ⟨start, short⟩ ↔
    ¬2 ^ 32 ∣ ipv6Sum mem ipv6 ⟨start, long⟩ ∧ ipv6Sum mem ipv6 ⟨start, short⟩ +
      trailerSum short (Span.bytes ⟨start + short, long - short⟩ mem) ≡
        ipv6Sum mem ipv6 ⟨start, long⟩ / 2 ^ 32 [MOD 65535])

section
variable {mem : List UInt8} {ipv6 : Ipv6Header} {start short long : Nat}

theorem ipv6PseudoSum_modEq (srcIp dstIp : Ipv6Addr) (nextHeader : UInt8) (hle : short ≤ long) :
    ipv6PseudoSum srcIp dstIp nextHeader long ≡
      ipv6PseudoSum srcIp dstIp nextHeader short + (long - short) [MOD 65535] := by
  unfold ipv6PseudoSum Nat.ModEq
  omega

theorem bytes_split (mem : List UInt8) (start : Nat) (hle : short ≤ long) :
    Span.bytes ⟨start, long⟩ mem =
      Span.bytes ⟨start, short⟩ mem ++ Span.bytes ⟨start + short, long - short⟩ mem := by
  have hlong : long = short + (long - short) := by omega
  simp only [Span.bytes]
  rw [← List.drop_drop, ← List.take_add, ← hlong]

theorem ipv6Sum_modEq (hfits : (⟨start, long⟩ : Span).Fits mem) (hle : short ≤ long) :
    ipv6Sum mem ipv6 ⟨start, long⟩ ≡ ipv6Sum mem ipv6 ⟨start, short⟩ +
      trailerSum short (Span.bytes ⟨start + short, long - short⟩ mem) [MOD 65535] := by
  have hfirst : (⟨start, short⟩ : Span).Within ⟨start, long⟩ := ⟨by simp, by simp; omega⟩
  have hrest : (⟨start + short, long - short⟩ : Span).Within ⟨start, long⟩ :=
    ⟨by simp, by simp; omega⟩
  have hshort : (Span.bytes ⟨start, short⟩ mem).length = short := (hfirst.fits hfits).length_bytes
  have htrailer : (Span.bytes ⟨start + short, long - short⟩ mem).length = long - short :=
    (hrest.fits hfits).length_bytes
  have hsum := wordSum_append_from (Span.bytes ⟨start, short⟩ mem)
    (Span.bytes ⟨start + short, long - short⟩ mem)
  rw [← bytes_split mem start hle, hshort] at hsum
  have hpseudo := ipv6PseudoSum_modEq ipv6.srcAddr ipv6.dstAddr ipv6.nextHeader hle
  unfold ipv6Sum trailerSum
  rw [hsum, htrailer]
  dsimp only
  unfold Nat.ModEq at hpseudo ⊢
  omega

/-- Of a sum that leaves 32 bits, the carries are missing. -/
theorem sumsToOnes_u32 (sum : Nat) :
    sumsToOnes (u32 sum) = true ↔ ¬2 ^ 32 ∣ sum ∧ sum ≡ sum / 2 ^ 32 [MOD 65535] := by
  unfold sumsToOnes u32 Nat.ModEq
  rw [decide_eq_true_iff]
  omega

theorem ipv6Sum_lt {segment : Span} (hlen : segment.len ≤ 65536) :
    ipv6Sum mem ipv6 segment < 2 ^ 32 := by
  have hsrc := wordSum_le ipv6.srcAddr.toList
  have hdst := wordSum_le ipv6.dstAddr.toList
  have hbytes := wordSum_le (segment.bytes mem)
  have hcount : (segment.bytes mem).length ≤ segment.len := List.length_take_le _ _
  have hnext := ipv6.nextHeader.toNat_lt
  rw [Vector.length_toList] at hsrc hdst
  unfold ipv6Sum ipv6PseudoSum
  omega

theorem ipv6Verdict_iff {segment : Span} (hlen : segment.len ≤ 65536)
    (hnext : ipv6.nextHeader ≠ 0) :
    ipv6Verdict mem ipv6 segment = true ↔ 65535 ∣ ipv6Sum mem ipv6 segment := by
  have hlt := @ipv6Sum_lt mem ipv6 segment hlen
  have hpos : 0 < ipv6.nextHeader.toNat := Nat.pos_of_ne_zero fun h => hnext (UInt8.toNat_inj.mp h)
  have hsum : ipv6.nextHeader.toNat ≤ ipv6Sum mem ipv6 segment := by
    unfold ipv6Sum ipv6PseudoSum
    omega
  rw [ipv6Verdict, u32, Nat.mod_eq_of_lt hlt, sumsToOnes, decide_eq_true_iff]
  exact and_iff_right (hpos.trans_le hsum)

theorem ipv6Verdict_eq_iff (hfits : (⟨start, long⟩ : Span).Fits mem) (hle : short ≤ long)
    (hshort : short ≤ 65535) (hnext : ipv6.nextHeader ≠ 0) :
    ipv6Verdict mem ipv6 ⟨start, long⟩ = ipv6Verdict mem ipv6 ⟨start, short⟩ ↔
      SumKept mem ipv6 start short long := by
  have hmod := @ipv6Sum_modEq mem ipv6 start short long hfits hle
  have hown := @ipv6Verdict_iff mem ipv6 ⟨start, short⟩ (Nat.le_succ_of_le hshort) hnext
  rw [eq_comm, Bool.eq_iff_iff, hown]
  by_cases hlong : long ≤ 65536
  · rw [@ipv6Verdict_iff mem ipv6 ⟨start, long⟩ hlong hnext, hmod.dvd_iff (dvd_refl _)]
    exact ⟨fun h => ⟨fun _ => h, fun hmore => absurd hlong (by omega)⟩, fun h => h.captured hlong⟩
  · rw [ipv6Verdict, sumsToOnes_u32]
    have hall : ∀ n, ipv6Sum mem ipv6 ⟨start, long⟩ ≡ n [MOD 65535] ↔
        ipv6Sum mem ipv6 ⟨start, short⟩ +
          trailerSum short (Span.bytes ⟨start + short, long - short⟩ mem) ≡ n [MOD 65535] :=
      fun n => ⟨hmod.symm.trans, hmod.trans⟩
    rw [hall]
    exact ⟨fun h => ⟨fun hfew => absurd hfew hlong, fun _ => h⟩, fun h => h.longer (by omega)⟩

end

/-- A segment reported as it is in its first `short` bytes when `long` bytes are handed on:
there is no header even in the longer one, or there is one in the shorter one and the trailer does
not spoil or repair the checksum. -/
structure TrailerHarmless (mem : List UInt8) (ipv6 : Ipv6Header) (start short long : Nat) :
    Prop where
  tcp : ipv6.nextHeader = ipProtoTcp → TcpOk mem ⟨start, long⟩ →
    TcpOk mem ⟨start, short⟩ ∧ SumKept mem ipv6 start short long
  udpOrIcmp : ipv6.nextHeader = ipProtoUdp ∨ ipv6.nextHeader = ipProtoIcmpv6 → 8 ≤ long →
    8 ≤ short ∧ SumKept mem ipv6 start short long

theorem ipv6L4_eq_iff {mem : List UInt8} {ipv6 : Ipv6Header} {start short long : Nat}
    (hlong : (⟨start, long⟩ : Span).Fits mem) (hle : short ≤ long) (hsmall : short ≤ 65535) :
    ipv6L4 mem ipv6 ⟨start, long⟩ = ipv6L4 mem ipv6 ⟨start, short⟩ ↔
      TrailerHarmless mem ipv6 start short long := by
  have hverdict := @ipv6Verdict_eq_iff mem ipv6 start short long hlong hle hsmall
  have hwithin : (⟨start, short⟩ : Span).Within ⟨start, long⟩ :=
    ⟨Nat.le_refl _, Nat.add_le_add_left hle _⟩
  have hshort := hwithin.fits hlong
  have hsome : 8 ≤ short → 8 ≤ long := fun h => h.trans hle
  by_cases htcp : ipv6.nextHeader = ipProtoTcp
  · have hmono : TcpOk mem ⟨start, short⟩ → TcpOk mem ⟨start, long⟩ :=
      fun hok => ⟨hok.len.trans hle, hok.dataOffset, hok.fits.trans hle⟩
    rw [report_eq_iff (fun v => some ⟨some { tcpHeaderAt mem start with checksumValid := v },
      none, none, ""⟩) hmono (by simp) (by simp) (ipv6L4_tcp htcp hlong) (ipv6L4_tcp htcp hshort),
      hverdict (by rw [htcp]; decide)]
    refine ⟨fun h => ⟨fun _ => h, fun hother => ?_⟩, fun h => h.tcp htcp⟩
    rw [htcp] at hother
    exact absurd hother (by decide)
  · by_cases hudp : ipv6.nextHeader = ipProtoUdp
    · have hl := ipv6L4_udp hudp hlong
      have hs := ipv6L4_udp hudp hshort
      rw [← Nat.not_le] at hl hs
      rw [report_eq_iff (fun v =>
        some ⟨none, some { udpHeaderAt mem start with checksumValid := v }, none, ""⟩)
        hsome (by simp) (by simp) hl hs, hverdict (by rw [hudp]; decide)]
      exact ⟨fun h => ⟨fun htcp' => absurd htcp' htcp, fun _ => h⟩,
        fun h => h.udpOrIcmp (.inl hudp)⟩
    · by_cases hicmp : ipv6.nextHeader = ipProtoIcmpv6
      · have hl := ipv6L4_icmp hicmp hlong
        have hs := ipv6L4_icmp hicmp hshort
        rw [← Nat.not_le] at hl hs
        rw [report_eq_iff (fun v => some ⟨none, none, some { icmpHeaderAt mem start .v6 with
          checksumValid := v }, ""⟩) hsome (by simp) (by simp) hl hs,
          hverdict (by rw [hicmp]; decide)]
        exact ⟨fun h => ⟨fun htcp' => absurd htcp' htcp, fun _ => h⟩,
          fun h => h.udpOrIcmp (.inr hicmp)⟩
      · rw [ipv6L4_other htcp hudp hicmp, ipv6L4_other htcp hudp hicmp]
        exact iff_of_true rfl ⟨fun h => absurd h htcp, fun h => absurd h (not_or.mpr ⟨hudp, hicmp⟩)⟩

/-! The two runs of print_packet -/

theorem ipv6Parse_append {mem : List UInt8} {data payload : Span} {hdr : Ipv6Header}
    (tail : List UInt8) (h : data.Fits mem) (hlen : data.len + tail.length < 2 ^ 32)
    (hparse : ipv6Parse mem data = some (some (hdr, payload))) :
    ipv6Parse (mem ++ tail) (data.grow tail.length) =
      some (some (hdr, payload.grow tail.length)) := by
  have hb := h.bound
  have h40 : ipv6HeaderLen = 40 := rfl
  have hgrow : (data.grow tail.length).len = data.len + tail.length := rfl
  have hstart : (data.grow tail.length).start = data.start := rfl
  rw [ipv6Parse] at hparse ⊢
  by_cases hshort : data.len < ipv6HeaderLen
  · rw [if_pos hshort] at hparse
    cases hparse
  · rw [if_neg hshort] at hparse
    rw [if_neg (by omega), hstart, Span.advance_grow (by omega) hlen]
    simp (disch := omega) only [getElem?_octet, readBytes_eq, read16_eq, Option.bind_eq_bind,
      Option.bind_some] at hparse
    simp (disch := omega) only [List.getElem?_append_left, getElem?_octet, readBytes_append,
      read16_append, readBytes_eq, read16_eq, Option.bind_eq_bind, Option.bind_some]
    by_cases hversion : octet mem data.start >>> 4 ≠ 6
    · rw [if_pos hversion] at hparse
      cases hparse
    · rw [if_neg hversion] at hparse ⊢
      cases hparse
      rfl

theorem payloadLength_lt {mem : List UInt8} {data payload : Span} {hdr : Ipv6Header}
    (h : data.Fits mem) (hparse : ipv6Parse mem data = some (some (hdr, payload))) :
    hdr.payloadLength < 2 ^ 16 := by
  have hb := h.bound
  have h40 : ipv6HeaderLen = 40 := rfl
  rw [ipv6Parse] at hparse
  by_cases hshort : data.len < ipv6HeaderLen
  · rw [if_pos hshort] at hparse
    cases hparse
  · rw [if_neg hshort] at hparse
    simp (disch := omega) only [getElem?_octet, readBytes_eq, read16_eq, Option.bind_eq_bind,
      Option.bind_some] at hparse
    by_cases hversion : octet mem data.start >>> 4 ≠ 6
    · rw [if_pos hversion] at hparse
      cases hparse
    · rw [if_neg hversion] at hparse
      cases hparse
      exact num_lt mem (data.start + 4) 2

/- The other way round: a header that ends inside the shorter buffer is found there too. -/

section
variable {mem rest : List UInt8} {data payload : Span}

theorem ethParse_cut {hdr : EthHeader} (h : data.Fits mem) (hlen : data.len + rest.length < 2 ^ 32)
    (hparse : ethParse (mem ++ rest) (data.grow rest.length) = some (some (hdr, payload)))
    (hin : payload.start ≤ data.start + data.len) :
    ethParse mem data =
      some (some (hdr, ⟨payload.start, data.start + data.len - payload.start⟩)) := by
  have hb := h.bound
  have hlong : (data.grow rest.length).Fits (mem ++ rest) :=
    ⟨by simp only [Span.grow, List.length_append]; omega, hlen⟩
  obtain ⟨-, hadvance, -⟩ := of_ethParse hlong hparse
  have hstart : payload.start = data.start + l2Len (mem ++ rest) data.start :=
    congrArg Span.start hadvance
  have hmin := (l2Len_bounds (mem ++ rest) data.start).1
  have hl2 := l2Len_append rest (show data.start + 14 ≤ mem.length by omega)
  obtain ⟨hshort, -⟩ | ⟨hfits, hdr', hcut, -⟩ := ethParse_spec h
  · omega
  · have hgrown := ethParse_append rest h hlen hcut
    obtain ⟨rfl, -⟩ : hdr = hdr' ∧ payload = _ := by simpa [hparse] using hgrown
    have hrest : data.len - l2Len mem data.start =
        data.start + data.len - (data.start + l2Len mem data.start) := by omega
    rw [hcut, Span.advance_eq hfits h.len, hstart, hl2, hrest]

theorem ethParse_end {hdr : EthHeader} (h : data.Fits mem)
    (hparse : ethParse mem data = some (some (hdr, payload))) :
    payload.start + payload.len = data.start + data.len := by
  obtain ⟨hl2, rfl, -⟩ := of_ethParse h hparse
  rw [Span.advance_eq hl2 h.len]
  simp only
  omega

theorem ipv6Parse_cut {hdr : Ipv6Header} (h : data.Fits mem)
    (hlen : data.len + rest.length < 2 ^ 32)
    (hparse : ipv6Parse (mem ++ rest) (data.grow rest.length) = some (some (hdr, payload)))
    (hin : ipv6HeaderLen ≤ data.len) :
    ipv6Parse mem data = some (some (hdr, data.advance ipv6HeaderLen)) := by
  have hb := h.bound
  have h40 : ipv6HeaderLen = 40 := rfl
  have hlong : (data.grow rest.length).Fits (mem ++ rest) :=
    ⟨by simp only [Span.grow, List.length_append]; omega, hlen⟩
  obtain ⟨hno, hcut⟩ | ⟨-, hdr', hcut, -⟩ := ipv6Parse_spec h
  · have hversion : highNibble (mem ++ rest) data.start = 6 :=
      (of_ipv6Parse hlong hparse).1.version
    rw [highNibble_append rest (by omega)] at hversion
    exact absurd ⟨by omega, hversion⟩ hno
  · have hgrown := ipv6Parse_append rest h hlen hcut
    rw [hparse] at hgrown
    cases hgrown
    exact hcut

end

/-- print_packet ends with the packet object and the suffix made of what the switch found. -/
def Reports (job : Job) (eth : EthHeader) (ipv6 : Ipv6Header) (report : Option Ipv6L4) : Prop :=
  ∀ filter turns, printPacket job filter turns = report.bind fun l4 =>
    finish job filter turns
      (l4.record { zeroFields with ethSrc := eth.srcMac, ethDst := eth.dstMac, hasIpv6 := 1,
                                   ipv6Src := ipv6.srcAddr, ipv6Dst := ipv6.dstAddr })
      (.ipv6 (packetBase job eth none) ipv6 l4.tcp l4.udp l4.icmp) l4.suffix

theorem printPacket_ipv6 {job : Job} {eth : EthHeader} {ipv6 : Ipv6Header} {l3 payload : Span}
    (heth : ethParse job.packet ⟨0, job.length⟩ = some (some (eth, l3)))
    (htype : eth.etherType = ethTypeIpv6)
    (hip : ipv6Parse job.packet l3 = some (some (ipv6, payload))) :
    Reports job eth ipv6 (ipv6L4 job.packet ipv6 payload) := by
  intro filter turns
  have harp : ¬eth.etherType = ethTypeArp := by rw [htype]; decide
  rw [printPacket, heth, Option.bind_eq_bind, Option.bind_some]
  dsimp only
  rw [if_neg harp, if_pos htype, printIpv6, hip]
  exact printIpv6Payload_eq ..

section
variable {job : Job} {eth : EthHeader} {ipv6 : Ipv6Header} {l3 payload : Span}

theorem ipv6Payload_fits (heth : ethParse job.packet ⟨0, job.length⟩ = some (some (eth, l3)))
    (hip : ipv6Parse job.packet l3 = some (some (ipv6, payload))) : payload.Fits job.packet := by
  have hl3 := ((Hands.eth eth heth).within job.frame_fits).fits job.frame_fits
  exact ((Hands.ipv6 ipv6 hip).within hl3).fits hl3

theorem Job.cut_parses (heth : ethParse job.packet ⟨0, job.length⟩ = some (some (eth, l3)))
    (hip : ipv6Parse job.packet l3 = some (some (ipv6, payload))) {n : Nat}
    (hcap : ipv6HeaderLen + n ≤ l3.len) :
    ethParse (job.cut (l3.start + ipv6HeaderLen + n)).packet
        ⟨0, (job.cut (l3.start + ipv6HeaderLen + n)).length⟩ =
      some (some (eth, ⟨l3.start, ipv6HeaderLen + n⟩)) ∧
    ipv6Parse (job.cut (l3.start + ipv6HeaderLen + n)).packet ⟨l3.start, ipv6HeaderLen + n⟩ =
      some (some (ipv6, ⟨l3.start + ipv6HeaderLen, n⟩)) := by
  have hend : l3.start + l3.len = 0 + job.packet.length := ethParse_end job.frame_fits heth
  have hjob := job.small
  obtain ⟨cut, hcut⟩ : ∃ cut, cut = job.cut (l3.start + ipv6HeaderLen + n) := ⟨_, rfl⟩
  obtain ⟨rest, hrest⟩ : ∃ rest, job.packet = cut.packet ++ rest :=
    ⟨_, by rw [hcut]; exact (List.take_append_drop _ _).symm⟩
  have hcutlen : cut.packet.length = l3.start + ipv6HeaderLen + n := by
    rw [hcut, Job.cut, List.length_take]
    omega
  have hsum : job.packet.length = cut.packet.length + rest.length := by
    rw [hrest, List.length_append]
  have hframe : (⟨0, job.length⟩ : Span) = (⟨0, cut.length⟩ : Span).grow rest.length := by
    rw [Job.length, hsum]
    rfl
  have hl3 : l3 = (⟨l3.start, ipv6HeaderLen + n⟩ : Span).grow rest.length := by
    rw [Span.grow, ← show l3.len = ipv6HeaderLen + n + rest.length by omega]
  rw [hrest, hframe] at heth
  rw [hrest, hl3] at hip
  have hsmall : cut.packet.length + rest.length < 2 ^ 32 := by omega
  have hfits : (⟨l3.start, ipv6HeaderLen + n⟩ : Span).Fits cut.packet :=
    ⟨by simp only; omega, by simp only; omega⟩
  rw [← hcut]
  constructor
  · have hstop : 0 + cut.packet.length - l3.start = ipv6HeaderLen + n := by omega
    rw [ethParse_cut cut.frame_fits hsmall heth (by simp only [Job.length]; omega)]
    simp only [Job.length, hstop]
  · rw [ipv6Parse_cut hfits (by simp only; omega) hip (by simp only; omega),
      Span.advance_eq (by simp only; omega) hfits.len]
    simp only [Nat.add_sub_cancel_left]

theorem Job.pad_parses (heth : ethParse job.packet ⟨0, job.length⟩ = some (some (eth, l3)))
    (hip : ipv6Parse job.packet l3 = some (some (ipv6, payload))) (tail : List UInt8)
    (hsmall : (job.packet ++ tail).length < 2 ^ 32) :
    ethParse (job.pad tail hsmall).packet ⟨0, (job.pad tail hsmall).length⟩ =
      some (some (eth, l3.grow tail.length)) ∧
    ipv6Parse (job.pad tail hsmall).packet (l3.grow tail.length) =
      some (some (ipv6, payload.grow tail.length)) := by
  have hend : l3.start + l3.len = 0 + job.packet.length := ethParse_end job.frame_fits heth
  have hlen : job.packet.length + tail.length < 2 ^ 32 := by
    rwa [List.length_append] at hsmall
  have hgrown : (⟨0, job.length⟩ : Span).grow tail.length = ⟨0, (job.pad tail hsmall).length⟩ := by
    simp [Span.grow, Job.length, Job.pad]
  have hl3 := ((Hands.eth eth heth).within job.frame_fits).fits job.frame_fits
  rw [← hgrown]
  exact ⟨ethParse_append tail job.frame_fits hlen heth, ipv6Parse_append tail hl3 (by omega) hip⟩

/-- For an IPv6 packet that ends inside the frame, by its payload length: what is reported of
the frame followed by `tail` is what is reported of the frame cut at the end of the packet if
and only if the trailer is harmless. -/
theorem ipv6_trailer_ignored_iff (tail : List UInt8)
    (hsmall : (job.packet ++ tail).length < 2 ^ 32)
    (heth : ethParse job.packet ⟨0, job.length⟩ = some (some (eth, l3)))
    (htype : eth.etherType = ethTypeIpv6)
    (hip : ipv6Parse job.packet l3 = some (some (ipv6, payload)))
    (hcap : ipv6HeaderLen + ipv6.payloadLength ≤ l3.len) :
    let padded := job.pad tail hsmall
    let cut := job.cut (l3.start + ipv6HeaderLen + ipv6.payloadLength)
    let long := payload.len + tail.length
    let found := ipv6L4 padded.packet ipv6 ⟨payload.start, long⟩
    let expected := ipv6L4 cut.packet ipv6 ⟨payload.start, ipv6.payloadLength⟩
    Reports padded eth ipv6 found ∧ Reports cut eth ipv6 expected ∧
      (found = expected ↔
        TrailerHarmless padded.packet ipv6 payload.start ipv6.payloadLength long) := by
  intro padded cut long found expected
  obtain ⟨hpadeth, hpadip⟩ := Job.pad_parses heth hip tail hsmall
  obtain ⟨hcuteth, hcutip⟩ := Job.cut_parses heth hip hcap
  have hl3 := ((Hands.eth eth heth).within job.frame_fits).fits job.frame_fits
  have hsixteen := payloadLength_lt hl3 hip
  obtain ⟨-, rfl⟩ := of_ipv6Parse hl3 hip
  have hlen : (l3.advance ipv6HeaderLen).len = l3.len - ipv6HeaderLen :=
    congrArg Span.len (Span.advance_eq (by omega) hl3.len)
  have hlong := ipv6Payload_fits hpadeth hpadip
  have hshort := ipv6Payload_fits hcuteth hcutip
  obtain ⟨rest, hrest⟩ : ∃ rest, padded.packet = cut.packet ++ rest := by
    refine ⟨job.packet.drop (l3.start + ipv6HeaderLen + ipv6.payloadLength) ++ tail, ?_⟩
    rw [← List.append_assoc]
    exact congrArg (· ++ tail) (List.take_append_drop _ _).symm
  refine ⟨printPacket_ipv6 hpadeth htype hpadip, printPacket_ipv6 hcuteth htype hcutip, ?_⟩
  have hexpected : expected = ipv6L4 padded.packet ipv6
      ⟨(l3.advance ipv6HeaderLen).start, ipv6.payloadLength⟩ := by
    rw [hrest]
    exact (ipv6L4_append rest hshort).symm
  rw [hexpected]
  exact ipv6L4_eq_iff hlong (by simp only [long, hlen]; omega) (by omega)

end

/-- An empty UDP datagram from ::1 to ::2, with its checksum -/
def datagramJob : Job where
  packet := [1, 2, 3, 4, 5, 6, 7, 8, 9, 10, 11, 12, 0x86, 0xDD, 0x60, 0, 0, 0, 0, 8, 17, 64,
    0, 0, 0, 0, 0, 0, 0, 0, 0, 0, 0, 0, 0, 0, 0, 1, 0, 0, 0, 0, 0, 0, 0, 0, 0, 0, 0, 0, 0, 0, 0, 2,
    0, 53, 0, 53, 0, 8, 0xFF, 0x71]
  tsSeconds := 0
  tsMicroseconds := 0
  packetNumber := 1
  small := by decide

/-- Two bytes that make up for their own number -/
theorem ipv6_trailer_ignored_iff_neutral :
    ∃ ipv6, ipv6.payloadLength = 8 ∧ trailerSum 8 [0xFF, 0xFD] = 65535 ∧
      ipv6L4 (datagramJob.packet ++ [0xFF, 0xFD]) ipv6 ⟨54, 10⟩ =
        ipv6L4 (datagramJob.cut 62).packet ipv6 ⟨54, 8⟩ := by
  refine ⟨_, ?_, ?_, (ipv6_trailer_ignored_iff [0xFF, 0xFD] (by decide)
    (show ethParse datagramJob.packet ⟨0, datagramJob.length⟩ = some (some (_, _)) from rfl) ?_
    (show ipv6Parse datagramJob.packet _ = some (some (_, _)) from rfl) ?_).2.2.mpr
    ⟨fun htcp => ?_, fun _ _ => ?_⟩⟩
  · decide
  · decide
  · decide
  · decide
  · exact absurd htcp (by decide)
  · refine ⟨by decide, fun _ => ?_, fun hlong => absurd hlong (by decide)⟩
    decide +kernel

/-- Four zero bytes after the datagram turn the verdict on its checksum. -/
theorem ipv6_trailer_turns_verdict :
    ∃ eth ipv6 l3 payload,
      ethParse datagramJob.packet ⟨0, datagramJob.length⟩ = some (some (eth, l3)) ∧
      eth.etherType = ethTypeIpv6 ∧
      ipv6Parse datagramJob.packet l3 = some (some (ipv6, payload)) ∧
      0 < ipv6.payloadLength ∧ ipv6HeaderLen + ipv6.payloadLength ≤ l3.len ∧
      (ipv6L4 (datagramJob.packet ++ [0, 0, 0, 0]) ipv6 ⟨payload.start, payload.len + 4⟩).map
        (fun l4 => l4.udp.map UdpHeader.checksumValid) = some (some false) ∧
      (ipv6L4 (datagramJob.cut (l3.start + ipv6HeaderLen + ipv6.payloadLength)).packet ipv6
        ⟨payload.start, ipv6.payloadLength⟩).map
        (fun l4 => l4.udp.map UdpHeader.checksumValid) = some (some true) ∧
      (printPacket (datagramJob.pad [0, 0, 0, 0] (by decide)) none 0).map Printed.text =
        some ("[#1] 0.000000 len=66 07:08:09:0a:0b:0c > 01:02:03:04:05:06 [UDP] " ++
          "0:0:0:0:0:0:0:1 > 0:0:0:0:0:0:0:2 hop=64 53 > 53 len=8 udp_csum=BAD\n") ∧
      (printPacket datagramJob none 0).map Printed.text =
        some ("[#1] 0.000000 len=62 07:08:09:0a:0b:0c > 01:02:03:04:05:06 [UDP] " ++
          "0:0:0:0:0:0:0:1 > 0:0:0:0:0:0:0:2 hop=64 53 > 53 len=8\n") := by
  refine ⟨_, _, _, _, rfl, ?_, rfl, ?_, ?_, ?_, ?_, ?_, ?_⟩
  all_goals decide +kernel

end MyWireshark.Dissect
