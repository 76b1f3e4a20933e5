import MyWireshark.Dissect.Wire

/-! Every parser takes exactly the headers of its protocol: what stands at the start of the bytes it
accepts is a header with the fields that it returns, and it accepts all of these headers that are
there as a whole. -/
namespace MyWireshark.Dissect
open Bytes DispFilter Framing Layout OnesComplement

/-! What each parser returns where its checks pass. -/

section
variable {mem : List UInt8} {data : Span}

theorem ethParse_at (h : data.Fits mem) (hfits : l2Len mem data.start ≤ data.len) :
    ethParse mem data = some (some (ethHeaderAt mem data.start,
      data.advance (l2Len mem data.start))) := by
  have hb := h.bound
  have h14 : ethHeaderLen = 14 := rfl
  have h18 : ethHeaderLen + ethVlanTagLen = 18 := rfl
  have hlong := (l2Len_bounds mem data.start).1
  rw [ethParse, if_neg (by omega), ethHeaderAt]
  simp (disch := omega) only [readBytes_eq, read16_eq, Option.bind_eq_bind, Option.bind_some]
  by_cases htag : num mem (data.start + 12) 2 = ethTypeVlan
  · have hlen : l2Len mem data.start = 18 := if_pos htag
    rw [if_pos htag, if_pos htag, if_neg (by omega), hlen]
    rfl
  · have hlen : l2Len mem data.start = 14 := if_neg htag
    rw [if_neg htag, if_neg htag, hlen]
    rfl

theorem arpParse_spec (h : data.Fits mem) :
    (¬(28 ≤ data.len ∧ ArpOk mem data.start) ∧ arpParse mem data = some none) ∨
    ((28 ≤ data.len ∧ ArpOk mem data.start) ∧
      arpParse mem data = some (some (arpHeaderAt mem data.start))) := by
  have hb := h.bound
  have h28 : arpHeaderLen = 28 := rfl
  by_cases hshort : data.len < arpHeaderLen
  · refine .inl ⟨by omega, ?_⟩
    rw [arpParse, if_pos hshort]
    rfl
  · rw [arpParse, if_neg hshort]
    simp (disch := omega) only [getElem?_octet, read16_eq, readBytes_eq, Option.bind_eq_bind,
      Option.bind_some]
    by_cases hok : ArpOk mem data.start
    · have hchecks := hok
      obtain ⟨hhtype, hptype, hhlen, hplen⟩ := hok
      refine .inr ⟨⟨by omega, hchecks⟩, ?_⟩
      rw [arpHeaderAt, hhtype, hptype, hhlen, hplen]
      rfl
    · refine .inl ⟨fun hboth => hok hboth.2, if_pos ?_⟩
      by_contra hor
      simp only [not_or, not_not] at hor
      exact hok ⟨hor.1, hor.2.1, hor.2.2.1, hor.2.2.2⟩

theorem ipParse_at (h : data.Fits mem) (hok : IpOk mem data) :
    ipParse mem data = some (some (ipHeaderAt mem data.start,
      ipPayload data (4 * lowNibble mem data.start) (ipHeaderAt mem data.start).totalLength)) := by
  have hb := h.bound
  have h20 : ipHeaderMinLen = 20 := rfl
  obtain ⟨hlen, hversion, hihl, hfits⟩ := hok
  have hword : (octet mem data.start &&& 0x0F).toNat = lowNibble mem data.start :=
    toNat_and_fifteen _
  have hfour : octet mem data.start >>> 4 = 4 := by
    rw [← UInt8.toNat_inj, toNat_shiftRight_four]
    exact hversion
  have hlow : octet mem data.start &&& 0x0F = UInt8.ofNat (lowNibble mem data.start) := by
    rw [← hword, UInt8.ofNat_toNat]
  have hsmall : lowNibble mem data.start < 16 := Nat.mod_lt _ (by decide)
  have hhdr : (⟨data.start, 4 * lowNibble mem data.start⟩ : Span).Fits mem :=
    ⟨by simp only; omega, by simp only; omega⟩
  have hsum := checksumVerify_eq hhdr (by simp only; omega)
  rw [ipParse, if_neg (by omega)]
  simp (disch := omega) only [getElem?_octet, read16_eq, readBytes_eq, Option.bind_eq_bind,
    Option.bind_some, hword, Nat.mul_comm (lowNibble mem data.start) 4, hsum]
  rw [if_neg ?_, hfour, hlow]
  · rfl
  · rw [UInt8.lt_iff_toNat_lt, hword, not_or, not_or, not_not]
    exact ⟨hfour, by change ¬_ < 5; omega, by omega⟩

theorem ipv6Parse_at (h : data.Fits mem) (hok : Ipv6Ok mem data) :
    ipv6Parse mem data = some (some (ipv6HeaderAt mem data.start, data.advance 40)) := by
  have hb := h.bound
  have h40 : ipv6HeaderLen = 40 := rfl
  obtain ⟨hlen, hversion⟩ := hok
  have hsix : octet mem data.start >>> 4 = 6 := by
    rw [← UInt8.toNat_inj, toNat_shiftRight_four]
    exact hversion
  rw [ipv6Parse, if_neg (by omega)]
  simp (disch := omega) only [getElem?_octet, read16_eq, readBytes_eq, Option.bind_eq_bind,
    Option.bind_some, trafficClass_eq, flowLabel_eq]
  rw [if_neg (not_not_intro hsix), hsix]
  rfl

end

/-! The parsers. -/

section
variable {α β : Type} {mem : List UInt8} {data : Span}

/-- A parser takes the headers of one format: it accepts just when one of them is at the start of
the bytes it is given, and returns what `result` makes of it. -/
structure Takes (Wire : α → List UInt8 → Prop) (result : α → List UInt8 → β) (mem : List UInt8)
    (data : Span) (parsed : Option (Option β)) : Prop where
  accepts : ∀ r, parsed = some (some r) ↔
    ∃ hdr bs, Wire hdr bs ∧ Starts mem data bs ∧ result hdr bs = r
  rejects : parsed = some none ↔ ∀ hdr bs, Wire hdr bs → ¬Starts mem data bs

variable {Wire : α → List UInt8 → Prop} {parsed : Option (Option β)}

/-- A parser is decided by the one place where a header can be: `found` is what stands there, `n`
its length, and `Bad` says that it is no header. -/
theorem takes_of_spec (r : α → Nat → β) {found : α} {n : Nat} {Bad Ok : Prop}
    (hspec : Bad ∧ parsed = some none ∨ Ok ∧ parsed = some (some (r found n)))
    (hfound : Ok → (∃ bs, Wire found bs ∧ At mem data.start bs ∧ bs.length = n) ∧ n ≤ data.len)
    (honly : ∀ hdr bs, Wire hdr bs → Starts mem data bs →
      ¬Bad ∧ hdr = found ∧ bs.length = n) :
    Takes Wire (fun hdr bs => r hdr bs.length) mem data parsed := by
  cases hspec with
  | inl hbad =>
    obtain ⟨hbad, hparse⟩ := hbad
    have hno : ∀ hdr bs, Wire hdr bs → ¬Starts mem data bs :=
      fun hdr bs hwire hstarts => (honly hdr bs hwire hstarts).1 hbad
    refine ⟨fun res => ?_, iff_of_true hparse hno⟩
    rw [hparse]
    constructor
    · intro hsome
      cases hsome
    · rintro ⟨hdr, bs, hwire, hstarts, -⟩
      exact absurd hstarts (hno hdr bs hwire)
  | inr hok =>
    obtain ⟨hok, hparse⟩ := hok
    obtain ⟨⟨bs, hwire, hat, hlen⟩, hfits⟩ := hfound hok
    have hstarts : Starts mem data bs := ⟨hat, hlen.trans_le hfits⟩
    refine ⟨fun res => ?_, ?_⟩
    · rw [hparse, Option.some.injEq, Option.some.injEq]
      constructor
      · intro hres
        exact ⟨found, bs, hwire, hstarts, hlen ▸ hres⟩
      · rintro ⟨hdr', bs', hwire', hstarts', hres⟩
        obtain ⟨-, rfl, hlen'⟩ := honly hdr' bs' hwire' hstarts'
        exact hlen' ▸ hres
    · rw [hparse]
      constructor
      · intro hnone
        cases hnone
      · intro hno
        exact absurd hstarts (hno found bs hwire)

theorem ethParse_takes (h : data.Fits mem) :
    Takes EthWire (fun hdr bs => (hdr, data.advance bs.length)) mem data (ethParse mem data) := by
  have hb := h.bound
  have hspec := (ethParse_spec h).imp_right fun hyes => And.intro hyes.1 (ethParse_at h hyes.1)
  refine takes_of_spec (fun hdr n => (hdr, data.advance n)) hspec ?_ ?_
  · intro hfits
    exact ⟨exists_ethWire (by omega), hfits⟩
  · intro hdr bs hwire hstarts
    obtain ⟨hhdr, hlen⟩ := hwire.eq hstarts.there
    exact ⟨Nat.not_lt.mpr (hlen ▸ hstarts.len), hhdr, hlen⟩

theorem arpParse_takes (h : data.Fits mem) :
    Takes ArpWire (fun hdr _ => hdr) mem data (arpParse mem data) := by
  have hb := h.bound
  refine takes_of_spec (n := 28) (fun hdr _ => hdr) (arpParse_spec h) ?_ ?_
  · rintro ⟨hfits, hok⟩
    exact ⟨exists_arpWire (by omega) hok, hfits⟩
  · intro hdr bs hwire hstarts
    obtain ⟨hhdr, hok, hlen⟩ := hwire.eq hstarts.there
    exact ⟨not_not_intro ⟨hlen ▸ hstarts.len, hok⟩, hhdr, hlen⟩

theorem ipParse_takes (h : data.Fits mem) :
    Takes IpWire (fun hdr bs => (hdr, ipPayload data bs.length hdr.totalLength)) mem data
      (ipParse mem data) := by
  have hb := h.bound
  have hspec := (ipParse_spec h).imp_right fun hyes => And.intro hyes.1 (ipParse_at h hyes.1)
  refine takes_of_spec (fun (hdr : IpHeader) n => (hdr, ipPayload data n hdr.totalLength)) hspec ?_
    ?_
  · rintro ⟨-, hversion, hihl, hfits⟩
    exact ⟨exists_ipWire hversion hihl (by omega), hfits⟩
  · intro hdr bs hwire hstarts
    obtain ⟨hhdr, hversion, hihl, hlen⟩ := hwire.eq hstarts.there
    have hle := hstarts.len
    exact ⟨not_not_intro ⟨by omega, hversion, hihl, by omega⟩, hhdr, hlen⟩

theorem ipv6Parse_takes (h : data.Fits mem) :
    Takes Ipv6Wire (fun hdr bs => (hdr, data.advance bs.length)) mem data (ipv6Parse mem data) := by
  have hb := h.bound
  have hspec := (ipv6Parse_spec h).imp_right fun hyes => And.intro hyes.1 (ipv6Parse_at h hyes.1)
  refine takes_of_spec (fun hdr n => (hdr, data.advance n)) hspec ?_ ?_
  · rintro ⟨hfits, hversion⟩
    exact ⟨exists_ipv6Wire hversion (by omega), hfits⟩
  · intro hdr bs hwire hstarts
    obtain ⟨hhdr, hversion, hlen⟩ := hwire.eq hstarts.there
    exact ⟨not_not_intro ⟨hlen ▸ hstarts.len, hversion⟩, hhdr, hlen⟩

theorem tcpParse_takes (h : data.Fits mem) :
    Takes TcpWire (fun hdr bs => (hdr, data.advance bs.length)) mem data (tcpParse mem data) := by
  have hb := h.bound
  have hspec := tcpParse_spec h
  rw [Nat.mul_comm] at hspec
  refine takes_of_spec (fun hdr n => (hdr, data.advance n)) hspec ?_ ?_
  · rintro ⟨-, hoffset, hfits⟩
    exact ⟨exists_tcpWire hoffset (by omega), hfits⟩
  · intro hdr bs hwire hstarts
    obtain ⟨hhdr, hoffset, hlen⟩ := hwire.eq hstarts.there
    have hle := hstarts.len
    exact ⟨not_not_intro ⟨by omega, hoffset, by omega⟩, hhdr, hlen⟩

theorem udpParse_takes (h : data.Fits mem) :
    Takes UdpWire (fun hdr bs => (hdr, data.advance bs.length)) mem data (udpParse mem data) := by
  have hb := h.bound
  refine takes_of_spec (fun hdr n => (hdr, data.advance n)) (udpParse_spec h) ?_ ?_
  · intro hfits
    exact ⟨exists_udpWire (by omega), hfits⟩
  · intro hdr bs hwire hstarts
    obtain ⟨hhdr, hlen⟩ := hwire.eq hstarts.there
    exact ⟨Nat.not_lt.mpr (hlen ▸ hstarts.len), hhdr, hlen⟩

theorem icmpParse_takes (h : data.Fits mem) (family : IcmpFamily) :
    Takes (IcmpWire family) (fun hdr _ => hdr) mem data (icmpParse mem data family) := by
  have hb := h.bound
  refine takes_of_spec (n := 8) (fun hdr _ => hdr) (icmpParse_spec h family) ?_ ?_
  · intro hfits
    exact ⟨exists_icmpWire family (by omega), hfits⟩
  · intro hdr bs hwire hstarts
    obtain ⟨hhdr, hlen⟩ := hwire.eq hstarts.there
    exact ⟨Nat.not_lt.mpr (hlen ▸ hstarts.len), hhdr, hlen⟩

/-! Spans as byte strings -/

section
variable {α β : Type} {bs : List UInt8} {Wire : α → List UInt8 → Prop}

theorem starts_iff (h : data.Fits mem) : Starts mem data bs ↔ bs <+: data.bytes mem := by
  have hb := h.bound
  constructor
  · rintro ⟨hat, hlen⟩
    rw [List.prefix_iff_eq_take, Span.bytes, List.take_take, Nat.min_eq_left hlen]
    exact (at_iff.mp hat).2.symm
  · intro hpre
    have hlen := hpre.length_le
    rw [h.length_bytes] at hlen
    rw [List.prefix_iff_eq_take, Span.bytes, List.take_take, Nat.min_eq_left hlen] at hpre
    exact ⟨at_iff.mpr ⟨by omega, hpre.symm⟩, hlen⟩

theorem Starts.split (h : data.Fits mem) (hstarts : Starts mem data bs) :
    data.bytes mem = bs ++ (data.advance bs.length).bytes mem := by
  obtain ⟨rest, hrest⟩ := (starts_iff h).mp hstarts
  rw [← hrest, Span.advance_eq hstarts.len h.len]
  congr 1
  have hdrop : rest = (data.bytes mem).drop bs.length := by rw [← hrest, List.drop_left]
  rw [hdrop, Span.bytes, Span.bytes, List.drop_take, List.drop_drop]

theorem Takes.cases {result : α → List UInt8 → β} {parsed : Option (Option β)}
    (h : Takes Wire result mem data parsed) :
    (∃ hdr bs, Wire hdr bs ∧ Starts mem data bs ∧ parsed = some (some (result hdr bs))) ∨
    ((∀ hdr bs, Wire hdr bs → ¬Starts mem data bs) ∧ parsed = some none) := by
  by_cases hno : ∀ hdr bs, Wire hdr bs → ¬Starts mem data bs
  · exact .inr ⟨hno, h.rejects.mpr hno⟩
  · simp only [not_forall, not_not] at hno
    obtain ⟨hdr, bs, hwire, hstarts⟩ := hno
    exact .inl ⟨hdr, bs, hwire, hstarts, (h.accepts _).mpr ⟨hdr, bs, hwire, hstarts, rfl⟩⟩

end

/-- An IPv4 packet ends where its header says, unless the header is not covered by that. -/
def clip (headerLen totalLength : Nat) (rest : List UInt8) : List UInt8 :=
  if headerLen ≤ totalLength then rest.take (totalLength - headerLen) else rest

theorem ipPayload_within_of_le {n total : Nat} (hn : n ≤ data.len) (hlen : data.len < 2 ^ 32) :
    (ipPayload data n total).Within data := by
  rw [ipPayload, Span.advance_eq hn hlen]
  simp only
  split_ifs
  · exact ⟨by simp, by simp; omega⟩
  · exact ⟨by simp, by simp; omega⟩

theorem ipPayload_bytes (n total : Nat) :
    (ipPayload data n total).bytes mem = clip n total ((data.advance n).bytes mem) := by
  rw [ipPayload, clip]
  simp only [Span.bytes]
  split_ifs with hclip hle hle
  · rw [List.take_take, Nat.min_eq_left hclip.2.le]
  · exact absurd hclip.1 hle
  · rw [List.take_take, Nat.min_eq_right (by omega)]
  · rfl

theorem ipParse_payload (h : data.Fits mem) {hdr : IpHeader} {payload : Span}
    (hparse : ipParse mem data = some (some (hdr, payload))) : ∃ bs rest, IpWire hdr bs ∧
      data.bytes mem = bs ++ rest ∧ payload.bytes mem = clip bs.length hdr.totalLength rest := by
  obtain ⟨hdr', bs, hwire, hstarts, heq⟩ := ((ipParse_takes h).accepts _).mp hparse
  obtain ⟨rfl, rfl⟩ := Prod.mk.inj heq
  exact ⟨bs, _, hwire, hstarts.split h, ipPayload_bytes _ _⟩

/-- Every parser takes exactly the headers of its protocol, whatever bytes it is given. The payload
of an IPv4 packet is what follows the header, up to the total length in it. -/
theorem parsers_take_exactly_the_headers (h : data.Fits mem) :
    Takes EthWire (fun hdr bs => (hdr, data.advance bs.length)) mem data (ethParse mem data) ∧
    Takes ArpWire (fun hdr _ => hdr) mem data (arpParse mem data) ∧
    Takes IpWire (fun hdr bs => (hdr, ipPayload data bs.length hdr.totalLength)) mem data
      (ipParse mem data) ∧
    (∀ hdr payload, ipParse mem data = some (some (hdr, payload)) → ∃ bs rest, IpWire hdr bs ∧
      data.bytes mem = bs ++ rest ∧ payload.bytes mem = clip bs.length hdr.totalLength rest) ∧
    Takes Ipv6Wire (fun hdr bs => (hdr, data.advance bs.length)) mem data (ipv6Parse mem data) ∧
    Takes TcpWire (fun hdr bs => (hdr, data.advance bs.length)) mem data (tcpParse mem data) ∧
    Takes UdpWire (fun hdr bs => (hdr, data.advance bs.length)) mem data (udpParse mem data) ∧
    ∀ family, Takes (IcmpWire family) (fun hdr _ => hdr) mem data (icmpParse mem data family) :=
  ⟨ethParse_takes h, arpParse_takes h, ipParse_takes h, fun _ _ => ipParse_payload h,
    ipv6Parse_takes h, tcpParse_takes h, udpParse_takes h, icmpParse_takes h⟩

end

theorem parsers_take_exactly_the_headers_udp :
    udpParse [0, 53, 0x12, 0x34, 0, 9, 0, 0, 7] ⟨0, 9⟩ =
      some (some (⟨53, 0x1234, 9, 0, false, false⟩, ⟨8, 1⟩)) := by
  obtain ⟨-, -, -, -, -, -, hudp, -⟩ := @parsers_take_exactly_the_headers
    [0, 53, 0x12, 0x34, 0, 9, 0, 0, 7] ⟨0, 9⟩ ⟨by decide, by decide⟩
  exact (hudp.accepts _).mpr ⟨_, _, .mk 53 0x1234 9 0, ⟨rfl, by decide⟩, rfl⟩

end MyWireshark.Dissect
