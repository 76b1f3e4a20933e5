import MyWireshark.Dissect.Reference
import Mathlib.Logic.Relation

/-! print_packet as a whole: it never reads outside the capture, decodes what the reference
decode says, and lets the display filter decide about nothing but the text. -/
namespace MyWireshark.Dissect
open Bytes DispFilter

/-! The hex dump -/

theorem mapM_total {α β : Type} {f : α → Option β} {l : List α}
    (h : ∀ x ∈ l, ∃ y, f x = some y) : ∃ ys, l.mapM f = some ys := by
  induction l with
  | nil => exact ⟨[], rfl⟩
  | cons x l ih =>
    obtain ⟨y, hy⟩ := h x (by simp)
    obtain ⟨ys, hys⟩ := ih fun x hx => h x (by simp [hx])
    exact ⟨y :: ys, by simp [hy, hys]⟩

theorem hexDumpLine_total {data : List UInt8} {offset : Nat} (h : offset < data.length) :
    ∃ line, hexDumpLine data data.length offset = some line := by
  obtain ⟨bytes, hbytes⟩ : ∃ bytes, (List.range (if data.length - offset < 16 then
      data.length - offset else 16)).mapM (fun i => data[offset + i]?) = some bytes := by
    apply mapM_total
    intro i hi
    have hlt : offset + i < data.length := by
      rw [List.mem_range] at hi
      split at hi <;> omega
    exact ⟨_, getElem?_octet hlt⟩
  simp only [hexDumpLine, hbytes, Option.bind_eq_bind, Option.bind_some]
  exact ⟨_, rfl⟩

theorem hexDump_total (data : List UInt8) (turns offset : Nat) :
    ∃ text, hexDump data data.length turns offset = some text := by
  induction turns generalizing offset with
  | zero => exact ⟨"", rfl⟩
  | succ turns ih =>
    by_cases h : offset < data.length
    · obtain ⟨line, hline⟩ := hexDumpLine_total h
      obtain ⟨rest, hrest⟩ := ih (u32 (offset + 16))
      exact ⟨line ++ rest, by rw [hexDump, if_pos h, hline, hrest]; rfl⟩
    · exact ⟨"", by rw [hexDump, if_neg h]⟩

/-- The loop is over after one turn for every line, unless its offset wraps around. -/
theorem hexDump_over {data : List UInt8} {length : Nat} (hsmall : length + 16 ≤ 2 ^ 32)
    (turns more offset : Nat) (h : length ≤ offset + 16 * turns) :
    hexDump data length (turns + more) offset = hexDump data length turns offset := by
  induction turns generalizing offset with
  | zero =>
    cases more with
    | zero => rfl
    | succ more => rw [Nat.zero_add, hexDump, hexDump, if_neg (by omega)]
  | succ turns ih =>
    rw [Nat.add_right_comm, hexDump, hexDump]
    by_cases hlt : offset < length
    · have hu : u32 (offset + 16) = offset + 16 := Nat.mod_eq_of_lt (by omega)
      rw [if_pos hlt, if_pos hlt, hu, ih (offset + 16) (by omega)]
    · rw [if_neg hlt, if_neg hlt]

/-! The display filter -/

theorem finishLine_eq {job : Job} {filter : Option Dispfilter} {turns : Nat} {record : Fields}
    {line dump : String} {verdict : Bool} (hpass : passesFilter filter record = some verdict)
    (hdump : hexDump job.packet job.length turns 0 = some dump) :
    finishLine job filter turns record line = some ⟨record, if verdict then
      "[#" ++ toString job.packetNumber ++ "] " ++ line ++ "\n" ++ dump else ""⟩ := by
  simp only [finishLine, hpass, hdump, Option.bind_eq_bind, Option.bind_some]
  cases verdict <;> rfl

theorem printPacket_text (job : Job) (turns : Nat) :
    ∃ text, printPacket job none turns = some ⟨refFields job.packet, text⟩ := by
  obtain ⟨line, hline⟩ := printPacket_settles job
  obtain ⟨dump, hdump⟩ := hexDump_total job.packet turns 0
  exact ⟨_, (hline none turns).trans (finishLine_eq rfl hdump)⟩

/-- The filter is asked about the reference record, and print_packet writes what it writes
without a filter or nothing. Without wrap-around that text is complete after a turn of the
dump for every line. -/
theorem printPacket_matches_reference (job : Job) (turns : Nat) :
    Layered (refFields job.packet) ∧
    ∃ text, printPacket job none turns = some ⟨refFields job.packet, text⟩ ∧
      (job.length + 16 ≤ 2 ^ 32 → job.length ≤ 16 * turns → ∀ more,
        printPacket job none (turns + more) = some ⟨refFields job.packet, text⟩) ∧
      ∀ expr errNull errLen mallocFilter mallocNodes r filter,
        dispfilterCompile expr errNull errLen mallocFilter mallocNodes = some r →
        r.filter = some filter →
        ∃ verdict, dispfilterMatches (some filter) (refFields job.packet) = some verdict ∧
          printPacket job (some filter) turns =
            some ⟨refFields job.packet, if verdict then text else ""⟩ := by
  obtain ⟨line, hline⟩ := printPacket_settles job
  obtain ⟨dump, hdump⟩ := hexDump_total job.packet turns 0
  have hnone : passesFilter none (refFields job.packet) = some true := rfl
  refine ⟨refFields_layered _, _, (hline none turns).trans (finishLine_eq hnone hdump), ?_, ?_⟩
  · intro hsmall hturns more
    have hmore := (hexDump_over hsmall turns more 0 (by omega)).trans hdump
    exact (hline none (turns + more)).trans (finishLine_eq hnone hmore)
  · intro expr errNull errLen mallocFilter mallocNodes r filter hcompile hr
    obtain ⟨verdict, hverdict⟩ := compiled_decides hcompile hr (refFields job.packet)
    exact ⟨verdict, hverdict, (hline (some filter) turns).trans (finishLine_eq hverdict hdump)⟩

/-- A SYN from 10.0.0.1 to port 443 of 10.0.0.2 -/
def synFrame : Job where
  packet := [2, 0, 0, 0, 0, 2, 2, 0, 0, 0, 0, 1, 0x08, 0x00,
    0x45, 0, 0, 40, 0, 1, 0, 0, 64, 6, 0x66, 0xcd, 10, 0, 0, 1, 10, 0, 0, 2,
    0x04, 0xd2, 0x01, 0xbb, 0, 0, 0, 1, 0, 0, 0, 0, 0x50, 2, 0x04, 0, 0x91, 0x52, 0, 0]
  tsSeconds := 1700000000
  tsMicroseconds := 42
  packetNumber := 7
  small := by decide

theorem printPacket_matches_reference_syn : ∃ text r web r' other,
    dispfilterCompile (some "tcp.port == 443".toList) true 0 true true = some r ∧
    r.filter = some web ∧
    dispfilterCompile (some "tcp.port == 80".toList) true 0 true true = some r' ∧
    r'.filter = some other ∧
    printPacket synFrame none 4 = some ⟨refFields synFrame.packet, text⟩ ∧
    printPacket synFrame (some web) 4 = some ⟨refFields synFrame.packet, text⟩ ∧
    printPacket synFrame (some other) 4 = some ⟨refFields synFrame.packet, ""⟩ := by
  have hweb : (dispfilterCompile (some "tcp.port == 443".toList) true 0 true true).map
      (fun r => (r.filter.isSome, dispfilterMatches r.filter (refFields synFrame.packet))) =
        some (true, some true) := by decide +kernel
  have hother : (dispfilterCompile (some "tcp.port == 80".toList) true 0 true true).map
      (fun r => (r.filter.isSome, dispfilterMatches r.filter (refFields synFrame.packet))) =
        some (true, some false) := by decide +kernel
  obtain ⟨-, text, htext, -, hselect⟩ := printPacket_matches_reference synFrame 4
  -- what is printed with a filter whose verdict is known
  have hprint : ∀ {expr : List Char} {verdict : Bool},
      (dispfilterCompile (some expr) true 0 true true).map (fun r => (r.filter.isSome,
        dispfilterMatches r.filter (refFields synFrame.packet))) = some (true, some verdict) →
      ∃ r filter, dispfilterCompile (some expr) true 0 true true = some r ∧
        r.filter = some filter ∧ printPacket synFrame (some filter) 4 =
          some ⟨refFields synFrame.packet, if verdict then text else ""⟩ := by
    intro expr verdict heval
    obtain ⟨r, hr, hval⟩ := Option.map_eq_some_iff.mp heval
    obtain ⟨hsome, hmatches⟩ := Prod.mk.inj hval
    obtain ⟨filter, hfilter⟩ := Option.isSome_iff_exists.mp hsome
    obtain ⟨verdict', hverdict, hprint⟩ := hselect _ _ _ _ _ r filter hr hfilter
    rw [hfilter, hverdict] at hmatches
    rw [Option.some.inj hmatches] at hprint
    exact ⟨r, filter, hr, hfilter, hprint⟩
  obtain ⟨r, web, hr, hfilter, hshows⟩ := hprint hweb
  obtain ⟨r', other, hr', hfilter', hhides⟩ := hprint hother
  exact ⟨text, r, web, r', other, hr, hfilter, hr', hfilter', htext, hshows, hhides⟩

/-! The capture -/

inductive Hands (mem : List UInt8) (s t : Span) : Prop where
  | eth (hdr : EthHeader) (h : ethParse mem s = some (some (hdr, t)))
  | ip (hdr : IpHeader) (h : ipParse mem s = some (some (hdr, t)))
  | ipv6 (hdr : Ipv6Header) (h : ipv6Parse mem s = some (some (hdr, t)))
  | tcp (hdr : TcpHeader) (h : tcpParse mem s = some (some (hdr, t)))
  | udp (hdr : UdpHeader) (h : udpParse mem s = some (some (hdr, t)))

structure ReadsInside (mem : List UInt8) (s : Span) : Prop where
  eth : ∃ r, ethParse mem s = some r
  arp : ∃ r, arpParse mem s = some r
  ip : ∃ r, ipParse mem s = some r
  ipv6 : ∃ r, ipv6Parse mem s = some r
  tcp : ∃ r, tcpParse mem s = some r
  udp : ∃ r, udpParse mem s = some r
  icmp : ∀ family, ∃ r, icmpParse mem s family = some r
  tcpSum : ∀ src dst, ∃ ok, tcpVerifyChecksum mem s src dst = some ok
  udpSum : ∀ src dst, ∃ ok, udpVerifyChecksum mem s src dst = some ok
  tcpSumIpv6 : ∀ src dst, ∃ ok, tcpVerifyChecksumIpv6 mem s src dst = some ok
  udpSumIpv6 : ∀ src dst, ∃ ok, udpVerifyChecksumIpv6 mem s src dst = some ok
  icmpSum : ∃ ok, icmpv4VerifyChecksum mem s = some ok
  icmpSumIpv6 : ∀ src dst, ∃ ok, icmpv6VerifyChecksum mem s src dst = some ok

section
variable {mem : List UInt8} {s t : Span}

theorem Hands.within (h : Hands mem s t) (hs : s.Fits mem) : t.Within s := by
  cases h with
  | eth hdr h =>
    obtain ⟨hl2, rfl, -⟩ := of_ethParse hs h
    exact Span.advance_within hl2 hs.len
  | ip hdr h =>
    obtain ⟨hok, rfl, -⟩ := of_ipParse hs h
    exact ipPayload_within hok.fits
  | ipv6 hdr h =>
    obtain ⟨hok, rfl⟩ := of_ipv6Parse hs h
    exact Span.advance_within hok.len hs.len
  | tcp hdr h =>
    obtain ⟨-, hno⟩ | ⟨hok, hparse⟩ := tcpParse_spec hs
    · simp [hno] at h
    · obtain ⟨-, rfl⟩ : _ = hdr ∧ _ = t := by simpa [hparse] using h
      exact Span.advance_within (by have := hok.fits; omega) hs.len
  | udp hdr h =>
    obtain ⟨-, hno⟩ | ⟨hok, hparse⟩ := udpParse_spec hs
    · simp [hno] at h
    · obtain ⟨-, rfl⟩ : _ = hdr ∧ _ = t := by simpa [hparse] using h
      exact Span.advance_within hok hs.len

theorem readsInside_of_fits (hs : s.Fits mem) : ReadsInside mem s where
  eth := (ethParse_spec hs).elim (fun h => ⟨_, h.2⟩) fun ⟨_, _, h, _⟩ => ⟨_, h⟩
  arp := arpParse_total hs
  ip := (ipParse_spec hs).elim (fun h => ⟨_, h.2⟩) fun ⟨_, _, h, _⟩ => ⟨_, h⟩
  ipv6 := (ipv6Parse_spec hs).elim (fun h => ⟨_, h.2⟩) fun ⟨_, _, h, _⟩ => ⟨_, h⟩
  tcp := (tcpParse_spec hs).elim (fun h => ⟨_, h.2⟩) fun h => ⟨_, h.2⟩
  udp := (udpParse_spec hs).elim (fun h => ⟨_, h.2⟩) fun h => ⟨_, h.2⟩
  icmp := icmpParse_total hs
  tcpSum := tcpVerifyChecksum_total hs
  udpSum := udpVerifyChecksum_total hs
  tcpSumIpv6 := tcpVerifyChecksumIpv6_total hs
  udpSumIpv6 := udpVerifyChecksumIpv6_total hs
  icmpSum := icmpv4VerifyChecksum_total hs
  icmpSumIpv6 := icmpv6VerifyChecksum_total hs

/-- Whatever is handed on from parser to parser stays inside the capture. -/
theorem handed_fits (h : Relation.ReflTransGen (Hands mem) s t) (hs : s.Fits mem) :
    t.Fits mem := by
  induction h with
  | refl => exact hs
  | tail _ hstep ih => exact (hstep.within ih).fits ih

end

/-- No access of the decode of a frame is outside the frame, and the spans handed from
parser to parser are nested. -/
theorem decode_reads_inside (job : Job) (turns : Nat) :
    (∃ out, printPacket job none turns = some out) ∧
    ∀ s, Relation.ReflTransGen (Hands job.packet) ⟨0, job.length⟩ s →
      s.start + s.len ≤ job.length ∧ ReadsInside job.packet s ∧
      ∀ t, Hands job.packet s t → t.Within s := by
  have hframe := job.frame_fits
  constructor
  · obtain ⟨text, htext⟩ := printPacket_text job turns
    exact ⟨_, htext⟩
  · intro s hs
    have hfits := handed_fits hs hframe
    exact ⟨hfits.bound, readsInside_of_fits hfits, fun t ht => ht.within hfits⟩

end MyWireshark.Dissect
