import MyWireshark.Dissect.Layout
import MyWireshark.Dissect.Printer
import MyWireshark.DispFilter.Correct

/-! A reference decode over frame offsets, and print_packet against it: on every path the
filter is asked about the reference record, and it only decides whether the text is written. -/
namespace MyWireshark.Dissect
open Bytes DispFilter

/-! The reference -/

/-- The ports of a segment of protocol `proto` in the bytes from `i` up to `stop`. -/
def refL4 (f : List UInt8) (proto : UInt8) (i stop : Nat) (r : Fields) : Fields :=
  if proto = 6 then
    if i + 20 ≤ stop ∧ 5 ≤ highNibble f (i + 12) ∧ i + 4 * highNibble f (i + 12) ≤ stop then
      { r with hasTcp := 1, tcpSrcPort := num f i 2, tcpDstPort := num f (i + 2) 2 }
    else r
  else if proto = 17 then
    if i + 8 ≤ stop then
      { r with hasUdp := 1, udpSrcPort := num f i 2, udpDstPort := num f (i + 2) 2 }
    else r
  else r

/-- Where the payload of the IPv4 packet at `i` ends: with the frame, or where its total
length says when that covers the header. -/
def refIpEnd (f : List UInt8) (i : Nat) : Nat :=
  if 4 * lowNibble f i ≤ num f (i + 2) 2 then min f.length (i + num f (i + 2) 2) else f.length

def refIpv4 (f : List UInt8) (i : Nat) (r : Fields) : Fields :=
  if i + 20 ≤ f.length ∧ highNibble f i = 4 ∧ 5 ≤ lowNibble f i ∧
      i + 4 * lowNibble f i ≤ f.length then
    refL4 f (octet f (i + 9)) (i + 4 * lowNibble f i) (refIpEnd f i)
      { r with hasIp := 1, ipSrc := octets f (i + 12) 4, ipDst := octets f (i + 16) 4 }
  else r

def refIpv6 (f : List UInt8) (i : Nat) (r : Fields) : Fields :=
  if i + 40 ≤ f.length ∧ highNibble f i = 6 then
    refL4 f (octet f (i + 6)) (i + 40) f.length
      { r with hasIpv6 := 1, ipv6Src := octets f (i + 8) 16, ipv6Dst := octets f (i + 24) 16 }
  else r

def refL3 (f : List UInt8) (l2 : Nat) (r : Fields) : Fields :=
  if num f (l2 - 2) 2 = 0x0800 then refIpv4 f l2 r
  else if num f (l2 - 2) 2 = 0x86DD then refIpv6 f l2 r
  else r

def refFields (f : List UInt8) : Fields :=
  if f.length < l2Len f 0 then zeroFields
  else refL3 f (l2Len f 0) { zeroFields with ethSrc := octets f 6 6, ethDst := octets f 0 6 }

structure Layered (r : Fields) : Prop where
  l3 : r.hasIp = 0 ∨ r.hasIpv6 = 0
  l4 : r.hasTcp = 0 ∨ r.hasUdp = 0
  nested : r.hasTcp ≠ 0 ∨ r.hasUdp ≠ 0 → r.hasIp ≠ 0 ∨ r.hasIpv6 ≠ 0

theorem refL4_layered (f : List UInt8) (proto : UInt8) (i stop : Nat) {r : Fields}
    (h3 : r.hasIp = 0 ∧ r.hasIpv6 = 1 ∨ r.hasIp = 1 ∧ r.hasIpv6 = 0) (htcp : r.hasTcp = 0)
    (hudp : r.hasUdp = 0) : Layered (refL4 f proto i stop r) := by
  have hl3 : r.hasIp = 0 ∨ r.hasIpv6 = 0 := h3.imp And.left And.right
  have hset : r.hasIp ≠ 0 ∨ r.hasIpv6 ≠ 0 := by
    cases h3 with
    | inl h => exact .inr (by rw [h.2]; decide)
    | inr h => exact .inl (by rw [h.1]; decide)
  unfold refL4
  split_ifs
  · exact ⟨hl3, .inr hudp, fun _ => hset⟩
  all_goals exact ⟨hl3, .inl htcp, fun _ => hset⟩

theorem refFields_layered (f : List UInt8) : Layered (refFields f) := by
  have hlink : ∀ src dst, Layered { zeroFields with ethSrc := src, ethDst := dst } :=
    fun _ _ => ⟨.inl rfl, .inl rfl, fun h => absurd rfl (h.elim id id)⟩
  unfold refFields refL3 refIpv4 refIpv6
  split_ifs
  · exact hlink _ _
  · exact refL4_layered f _ _ _ (.inr ⟨rfl, rfl⟩) rfl rfl
  · exact hlink _ _
  · exact refL4_layered f _ _ _ (.inl ⟨rfl, rfl⟩) rfl rfl
  · exact hlink _ _
  · exact hlink _ _

/-! The exit paths of print_packet -/

theorem Job.frame_fits (job : Job) : (⟨0, job.length⟩ : Span).Fits job.packet :=
  ⟨by simp [Job.length], job.small⟩

/-- A piece of print_packet that ends, whatever the filter, with `record` and one and the same
line. -/
def Settles (job : Job) (run : Option Dispfilter → Nat → Option Printed) (record : Fields) : Prop :=
  ∃ line, ∀ filter turns, run filter turns = finishLine job filter turns record line

section
variable {job : Job} {fields record : Fields} {eth : EthHeader} {payload : Span}

theorem settles_finish (pkt : Packet) (suffix : String) :
    Settles job (fun filter turns => finish job filter turns fields pkt suffix) fields :=
  ⟨pkt.print ++ suffix, fun _ _ => rfl⟩

theorem settles_finishRaw (message : String) :
    Settles job (fun filter turns => finishRaw job filter turns fields message) fields :=
  ⟨message, fun _ _ => rfl⟩

theorem Settles.read {α : Type} {x : Option α} {a : α}
    {run : α → Option Dispfilter → Nat → Option Printed} (hx : x = some a)
    (h : Settles job (run a) record) :
    Settles job (fun filter turns => x >>= fun v => run v filter turns) record := by
  obtain ⟨line, hline⟩ := h
  exact ⟨line, fun filter turns => by rw [hx]; exact hline filter turns⟩

theorem printArp_settles (h : payload.Fits job.packet) :
    Settles job (fun filter turns => printArp job filter turns fields eth payload) fields := by
  obtain ⟨r, hr⟩ := arpParse_total h
  unfold printArp
  refine .read hr ?_
  cases r with
  | none => exact settles_finish _ _
  | some arp => exact settles_finish _ _

/- The two transport protocols, whichever IP version they are under: `mk` makes the packet
object and `verify` is the checksum verifier. -/

theorem settles_tcp (h : payload.Fits job.packet) {verify : Option Bool}
    (hverify : ∃ ok, verify = some ok) (mk : TcpHeader → Packet) (cut : Packet) :
    Settles job (fun filter turns => do
        match ← tcpParse job.packet payload with
        | some (tcp, _) =>
          let ok ← verify
          let tcp := { tcp with checksumValid := ok }
          finish job filter turns
            { fields with hasTcp := 1, tcpSrcPort := tcp.srcPort, tcpDstPort := tcp.dstPort }
            (mk tcp) ""
        | none => finish job filter turns fields cut " TCP (truncated)")
      (refL4 job.packet 6 payload.start (payload.start + payload.len) fields) := by
  rw [refL4, if_pos rfl]
  cases tcpParse_spec h with
  | inl hbad =>
    obtain ⟨hno, hparse⟩ := hbad
    rw [if_neg fun hc => hno ⟨by omega, hc.2.1, by omega⟩]
    exact .read hparse (settles_finish _ _)
  | inr hok =>
    obtain ⟨hyes, hparse⟩ := hok
    obtain ⟨ok, hsum⟩ := hverify
    have hlen := hyes.len
    have hfits := hyes.fits
    rw [if_pos ⟨by omega, hyes.dataOffset, by omega⟩]
    exact .read hparse (.read hsum (settles_finish _ _))

theorem settles_udp (h : payload.Fits job.packet) {verify : Option Bool}
    (hverify : ∃ ok, verify = some ok) (mk : UdpHeader → Packet) (cut : Packet) :
    Settles job (fun filter turns => do
        match ← udpParse job.packet payload with
        | some (udp, _) =>
          let ok ← verify
          let udp := { udp with checksumValid := ok }
          finish job filter turns
            { fields with hasUdp := 1, udpSrcPort := udp.srcPort, udpDstPort := udp.dstPort }
            (mk udp) ""
        | none => finish job filter turns fields cut " UDP (truncated)")
      (refL4 job.packet 17 payload.start (payload.start + payload.len) fields) := by
  rw [refL4, if_neg (by decide), if_pos rfl]
  cases udpParse_spec h with
  | inl hbad =>
    obtain ⟨hno, hparse⟩ := hbad
    rw [if_neg (by omega)]
    exact .read hparse (settles_finish _ _)
  | inr hok =>
    obtain ⟨hyes, hparse⟩ := hok
    obtain ⟨ok, hsum⟩ := hverify
    rw [if_pos (by omega)]
    exact .read hparse (.read hsum (settles_finish _ _))

theorem refL4_other (f : List UInt8) {proto : UInt8} (i stop : Nat) (r : Fields)
    (htcp : proto ≠ 6) (hudp : proto ≠ 17) : refL4 f proto i stop r = r := by
  rw [refL4, if_neg htcp, if_neg hudp]

theorem settles_icmp (h : payload.Fits job.packet) (family : IcmpFamily) {verify : Option Bool}
    (hverify : ∃ ok, verify = some ok) (mk : IcmpHeader → Packet) (cut : Packet)
    (suffix : String) :
    Settles job (fun filter turns => do
        match ← icmpParse job.packet payload family with
        | some icmp =>
          let ok ← verify
          finish job filter turns fields (mk { icmp with checksumValid := ok }) ""
        | none => finish job filter turns fields cut suffix)
      fields := by
  obtain ⟨r, hr⟩ := icmpParse_total h family
  obtain ⟨ok, hsum⟩ := hverify
  refine .read hr ?_
  cases r with
  | none => exact settles_finish _ _
  | some icmp => exact .read hsum (settles_finish _ _)

theorem printIpv6Payload_settles (h : payload.Fits job.packet) (ipv6 : Ipv6Header) :
    Settles job (fun filter turns => printIpv6Payload job filter turns fields eth ipv6 payload)
      (refL4 job.packet ipv6.nextHeader payload.start (payload.start + payload.len) fields) := by
  unfold printIpv6Payload
  by_cases htcp : ipv6.nextHeader = ipProtoTcp
  · simp only [if_pos htcp]
    rw [htcp]
    exact settles_tcp h (tcpVerifyChecksumIpv6_total h _ _)
      (fun tcp => .ipv6 (packetBase job eth none) ipv6 (some tcp) none none) _
  · simp only [if_neg htcp]
    by_cases hudp : ipv6.nextHeader = ipProtoUdp
    · simp only [if_pos hudp]
      rw [hudp]
      exact settles_udp h (udpVerifyChecksumIpv6_total h _ _)
        (fun udp => .ipv6 (packetBase job eth none) ipv6 none (some udp) none) _
    · simp only [if_neg hudp]
      rw [refL4_other _ _ _ _ htcp hudp]
      by_cases hicmp : ipv6.nextHeader = ipProtoIcmpv6
      · simp only [if_pos hicmp]
        exact settles_icmp h .v6 (icmpv6VerifyChecksum_total h _ _)
          (fun icmp => .ipv6 (packetBase job eth none) ipv6 none none (some icmp)) _ _
      · simp only [if_neg hicmp]
        exact settles_finish _ _

theorem printIpPayload_settles (h : payload.Fits job.packet) (ip : IpHeader) :
    Settles job (fun filter turns => printIpPayload job filter turns fields eth ip payload)
      (refL4 job.packet ip.protocol payload.start (payload.start + payload.len) fields) := by
  unfold printIpPayload
  by_cases htcp : ip.protocol = ipProtoTcp
  · simp only [if_pos htcp]
    rw [htcp]
    exact settles_tcp h (tcpVerifyChecksum_total h _ _)
      (fun tcp => .tcp (packetBase job eth (some ip)) tcp) _
  · simp only [if_neg htcp]
    by_cases hudp : ip.protocol = ipProtoUdp
    · simp only [if_pos hudp]
      rw [hudp]
      exact settles_udp h (udpVerifyChecksum_total h _ _)
        (fun udp => .udp (packetBase job eth (some ip)) udp) _
    · simp only [if_neg hudp]
      rw [refL4_other _ _ _ _ htcp hudp]
      by_cases hicmp : ip.protocol = ipProtoIcmp
      · simp only [if_pos hicmp]
        exact settles_icmp h .v4 (icmpv4VerifyChecksum_total h)
          (fun icmp => .icmp (packetBase job eth (some ip)) icmp) _ _
      · simp only [if_neg hicmp]
        exact settles_finish _ _

/-! From here on the span is that of an Ethernet payload: it ends with the frame. -/

theorem printIpv6_settles (h : payload.Fits job.packet)
    (hend : payload.start + payload.len = job.length) :
    Settles job (fun filter turns => printIpv6 job filter turns fields eth payload)
      (refIpv6 job.packet payload.start fields) := by
  have hlen : job.length = job.packet.length := rfl
  unfold printIpv6 refIpv6
  cases ipv6Parse_spec h with
  | inl hbad =>
    obtain ⟨hno, hparse⟩ := hbad
    rw [if_neg fun hc => hno ⟨by omega, hc.2⟩]
    exact .read hparse (settles_finish _ _)
  | inr hok =>
    obtain ⟨hyes, hdr, hparse, hnext, hsrc, hdst⟩ := hok
    have h40 := hyes.len
    have hrest := (Span.advance_within h40 h.len).fits h
    rw [Span.advance_eq h40 h.len] at hparse hrest
    have hstop : job.packet.length = payload.start + 40 + (payload.len - 40) := by omega
    rw [if_pos ⟨by omega, hyes.version⟩, ← hnext, ← hsrc, ← hdst, hstop]
    exact .read hparse (printIpv6Payload_settles hrest hdr)

theorem printIpv4_settles (h : payload.Fits job.packet)
    (hend : payload.start + payload.len = job.length) :
    Settles job (fun filter turns => printIpv4 job filter turns fields eth payload)
      (refIpv4 job.packet payload.start fields) := by
  have hlen : job.length = job.packet.length := rfl
  unfold printIpv4 refIpv4
  cases ipParse_spec h with
  | inl hbad =>
    obtain ⟨hno, hparse⟩ := hbad
    rw [if_neg fun hc => hno ⟨by omega, hc.2.1, hc.2.2.1, by omega⟩]
    exact .read hparse (settles_finishRaw _)
  | inr hok =>
    obtain ⟨hyes, hdr, hparse, hproto, hsrc, hdst, -⟩ := hok
    have h20 := hyes.len
    have hfits := hyes.fits
    have hrest := (ipPayload_within hfits).fits h
    have hstop : refIpEnd job.packet payload.start = payload.start +
        4 * lowNibble job.packet payload.start + ipPayloadLen job.packet payload := by
      simp only [ipPayloadLen, refIpEnd]
      split_ifs <;> omega
    rw [if_pos ⟨by omega, hyes.version, hyes.ihl, by omega⟩, ← hproto, ← hsrc, ← hdst, hstop]
    exact .read hparse (printIpPayload_settles hrest hdr)

/-- Every path of print_packet ends with the reference record. -/
theorem printPacket_settles (job : Job) :
    Settles job (fun filter turns => printPacket job filter turns) (refFields job.packet) := by
  have hlen : job.length = job.packet.length := rfl
  have hframe := job.frame_fits
  unfold printPacket refFields
  cases ethParse_spec hframe with
  | inl hbad =>
    obtain ⟨hshort, hparse⟩ := hbad
    have hshort : job.packet.length < l2Len job.packet 0 := hshort
    rw [if_pos hshort]
    exact .read hparse (settles_finishRaw _)
  | inr hok =>
    obtain ⟨hl2, hdr, hparse, hdst, hsrc, htype, -⟩ := hok
    have hrest := (Span.advance_within hl2 hframe.len).fits hframe
    rw [Span.advance_eq hl2 hframe.len] at hparse hrest
    simp only [Nat.zero_add] at hl2 hdst hsrc htype hparse hrest
    rw [if_neg (by omega), ← hsrc, ← hdst]
    refine .read hparse ?_
    have hend : l2Len job.packet 0 + (job.length - l2Len job.packet 0) = job.length := by omega
    unfold refL3
    rw [← htype]
    by_cases harp : hdr.etherType = ethTypeArp
    · simp only [if_pos harp]
      rw [harp, if_neg (by decide), if_neg (by decide)]
      exact printArp_settles hrest
    · simp only [if_neg harp]
      by_cases h6 : hdr.etherType = ethTypeIpv6
      · simp only [if_pos h6]
        rw [h6, if_neg (by decide), if_pos (by decide)]
        exact printIpv6_settles hrest hend
      · simp only [if_neg h6]
        have h6 : ¬ hdr.etherType = 0x86DD := h6
        by_cases h4 : hdr.etherType = ethTypeIpv4
        · rw [h4]
          simp only [ne_eq, not_true_eq_false, if_false]
          rw [if_pos (by decide)]
          exact printIpv4_settles hrest hend
        · simp only [ne_eq, h4, not_false_eq_true, if_true]
          have h4 : ¬ hdr.etherType = 0x0800 := h4
          rw [if_neg h4, if_neg h6]
          exact settles_finish _ _

end
end MyWireshark.Dissect
