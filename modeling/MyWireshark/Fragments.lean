import MyWireshark.DispFilter.Absent
import MyWireshark.KeywordSync

/-! Fragments of IPv4 packets. ip_parse stores the fragment offset, but neither the switch over
the protocol nor the test of a port looks at it: the first bytes after the header are taken
for ports wherever in the packet they come from. -/
namespace MyWireshark.Fragments
open Bytes BoolGrammar MyWireshark.Filter CapFilter Dissect Agreement KeywordSync
open DispFilter (Fields Field Cmp)

def isPortField : Field → Bool
  | .tcpSrcport | .tcpDstport | .tcpPort | .udpSrcport | .udpDstport | .udpPort => true
  | _ => false

structure NoPorts (f : List UInt8) (r : Fields) : Prop where
  tcp : r.hasTcp = 0
  udp : r.hasUdp = 0
  display : ∀ n : Cmp, isPortField n.field = true → n.cmp = .eq → DispFilter.evalCmp n r = false
  capture : ∀ n prog, Compiled (portText n) prog → Bpf.bpfInterpRun prog f f.length = some 0

theorem present_port {r : Fields} (htcp : r.hasTcp = 0) (hudp : r.hasUdp = 0) {field : Field}
    (h : isPortField field = true) : field.present r = false := by
  cases field <;> simp_all [isPortField, DispFilter.Field.present]

theorem compiled_port_le {n : Nat} {prog : Bpf.SockFprog} (h : Compiled (portText n) prog) :
    n ≤ 65535 := by
  by_contra hlarge
  have hno : ∀ us, us = [] ∨ us = [Token.number n] → ∀ e, ¬IsExpr (.port :: us) e := by
    intro us hus e
    refine not_derives primSpec (by decide) (by decide) ?_
    obtain rfl | rfl := hus
    · rfl
    · exact if_neg hlarge
  have htokens : ∃ us, (us = [] ∨ us = [Token.number n]) ∧ tokens (portText n) = .port :: us := by
    rw [tokens, tokenize_portText]
    split
    · exact ⟨[], .inl rfl, rfl⟩
    · exact ⟨_, .inr rfl, rfl⟩
  obtain ⟨us, hus, htokens⟩ := htokens
  obtain ⟨errNull, errLen, r, hs, -⟩ := h.succeeds rfl
  obtain ⟨-, -, -, -, -, -, -, -, ⟨e, he, -⟩, -⟩ := hs.stages
  exact hno us hus e (htokens ▸ he)

theorem evalAst_and {f : List UInt8} {l r : Ast} {b : Bool} (h : evalAst f l = some b) :
    evalAst f (.and l r) = if b then evalAst f r else some false := by
  cases b <;> simp [evalAst, h]

theorem evalAst_or {f : List UInt8} {l r : Ast} {b : Bool} (h : evalAst f l = some b) :
    evalAst f (.or l r) = if b then some true else evalAst f r := by
  cases b <;> simp [evalAst, h]

theorem evalAst_or_none {f : List UInt8} {l r : Ast} (h : evalAst f l = none) :
    evalAst f (.or l r) = none := by
  simp [evalAst, h]

section
variable {f : List UInt8} (htype : field f 12 2 = some 0x0800) (hip : IpOk f ⟨14, f.length - 14⟩)
include htype hip

theorem evalAst_port (n : Nat) : evalAst f (desugar (.port none n)) =
    if num f 23 1 = 6 ∨ num f 23 1 = 17 then
      (field f (14 + 4 * lowNibble f 14) 2).bind fun src =>
        if src = n then some true
        else (field f (16 + 4 * lowNibble f 14) 2).bind fun dst => some (dst == n)
    else some false := by
  have hlen : 20 ≤ f.length - 14 := hip.len
  have hether : evalAst f (.leaf (.ethertype ethertypeIpv4)) = some true := by
    simp [evalAst, Leaf.test, htype, ethertypeIpv4]
  have hleaf : ∀ k, evalAst f (.leaf (.ipproto k)) = some (num f 23 1 == k) := fun k => by
    rw [evalAst, Leaf.test, field_eq (by omega), Option.bind_some]
  have hproto : evalAst f (.or (.leaf (.ipproto ipprotoTcp)) (.leaf (.ipproto ipprotoUdp))) =
      some (decide (num f 23 1 = 6 ∨ num f 23 1 = 17)) := by
    rw [evalAst_or (hleaf _), hleaf]
    by_cases h6 : num f 23 1 = 6 <;> simp [h6, ipprotoTcp, ipprotoUdp]
    rfl
  have hport : ∀ dir, evalAst f (.leaf (.port dir n)) =
      (field f (dir.portOff + 4 * lowNibble f 14) 2).bind fun v => some (v == n) := fun dir => by
    have hnibble : num f 14 1 % 16 = lowNibble f 14 := by rw [num_one]; rfl
    rw [evalAst, Leaf.test, field_eq (by omega : 14 + 1 ≤ f.length), Option.bind_some, hnibble]
  rw [desugar, underIpv4, evalAst_and hether, if_pos rfl, evalAst_and hproto]
  simp only [decide_eq_true_eq]
  congr 1
  have hsrc : evalAst f (.leaf (.port .src n)) =
      (field f (14 + 4 * lowNibble f 14) 2).bind fun v => some (v == n) := hport .src
  cases hfield : field f (14 + 4 * lowNibble f 14) 2 with
  | none =>
    rw [hfield] at hsrc
    exact evalAst_or_none hsrc
  | some src =>
    rw [hfield] at hsrc
    rw [onSides, evalAst_or hsrc, hport .dst]
    simp [Dir.portOff]

/-- The port test accepts some number exactly when the protocol is one with ports and the
first two bytes after the header were captured. -/
theorem port_accepted_iff : (∃ n ≤ 65535, evalAst f (desugar (.port none n)) = some true) ↔
    (num f 23 1 = 6 ∨ num f 23 1 = 17) ∧ 14 + 4 * lowNibble f 14 + 2 ≤ f.length := by
  constructor
  · rintro ⟨n, -, htrue⟩
    rw [evalAst_port htype hip] at htrue
    split at htrue
    · rename_i hproto
      refine ⟨hproto, ?_⟩
      by_contra hshort
      rw [field, slice, if_neg hshort] at htrue
      cases htrue
    · cases htrue
  · rintro ⟨hproto, hlen⟩
    have hlt := num_lt f (14 + 4 * lowNibble f 14) 2
    refine ⟨num f (14 + 4 * lowNibble f 14) 2, by omega, ?_⟩
    rw [evalAst_port htype hip, if_pos hproto, field_eq hlen, Option.bind_some, if_pos rfl]

omit hip in
theorem record_no_ports
    (h : ¬((num f 23 1 = 6 ∨ num f 23 1 = 17) ∧ 14 + 4 * lowNibble f 14 + 2 ≤ f.length)) :
    (refFields f).hasTcp = 0 ∧ (refFields f).hasUdp = 0 := by
  have hstop := refIpEnd_le f 14
  have hproto : num f 23 1 = (octet f 23).toNat := num_one f 23
  obtain ⟨-, hrec⟩ := refFields_ipv4 htype
  rw [hrec]
  unfold refIpv4
  split
  · obtain hsame | ⟨htcp, hfits, -⟩ | ⟨hudp, hfits, -⟩ := refL4_cases f (octet f 23)
      (14 + 4 * lowNibble f 14) (refIpEnd f 14) { zeroFields with
        ethSrc := octets f 6 6, ethDst := octets f 0 6, hasIp := 1, ipSrc := octets f 26 4,
        ipDst := octets f 30 4 }
    · rw [hsame]
      exact ⟨rfl, rfl⟩
    · rw [htcp] at hproto
      exact absurd ⟨.inl hproto, by omega⟩ h
    · rw [hudp] at hproto
      exact absurd ⟨.inr hproto, by omega⟩ h
  · exact ⟨rfl, rfl⟩

end

theorem untagged_ipv4 {job : Job} {eth : EthHeader} {ip : IpHeader} {l3 payload : Span}
    (heth : ethParse job.packet ⟨0, job.length⟩ = some (some (eth, l3)))
    (hplain : eth.hasVlan = false) (htype : eth.etherType = ethTypeIpv4)
    (hip : ipParse job.packet l3 = some (some (ip, payload))) :
    field job.packet 12 2 = some 0x0800 ∧ IpOk job.packet ⟨14, job.packet.length - 14⟩ ∧
      num job.packet 23 1 = ip.protocol.toNat ∧ lowNibble job.packet 14 = ip.ihl.toNat := by
  obtain ⟨hl2, rfl, hnum, hvlan⟩ := of_ethParse job.frame_fits heth
  have h14 : l2Len job.packet 0 = 14 := by simpa [hplain] using hvlan
  rw [h14] at hl2 hnum hip
  rw [Span.advance_eq hl2 job.small] at hip
  have hlen : 14 ≤ job.packet.length := hl2
  have hl3 : (⟨14, job.packet.length - 14⟩ : Span).Fits job.packet :=
    ⟨by simp only; omega, (Nat.sub_le _ _).trans_lt job.small⟩
  have hip' : ipParse job.packet ⟨14, job.packet.length - 14⟩ = some (some (ip, payload)) := hip
  obtain ⟨hok, -, hproto, hihl⟩ := of_ipParse hl3 hip'
  refine ⟨?_, hok, ?_, hihl.symm⟩
  · rw [field_eq (by omega)]
    exact congrArg some (hnum.symm.trans htype)
  · rw [num_one, hproto]

/-- Of an untagged frame with an IPv4 header, whatever its fragment offset, no port is seen if
and only if the protocol is one without ports or the capture ends before the second byte
after the header. -/
theorem fragment_no_ports_iff {job : Job} {eth : EthHeader} {ip : IpHeader} {l3 payload : Span}
    (heth : ethParse job.packet ⟨0, job.length⟩ = some (some (eth, l3)))
    (hplain : eth.hasVlan = false) (htype : eth.etherType = ethTypeIpv4)
    (hip : ipParse job.packet l3 = some (some (ip, payload))) (turns : Nat) :
    ∃ out, printPacket job none turns = some out ∧
      (NoPorts job.packet out.record ↔
        (ip.protocol ≠ ipProtoTcp ∧ ip.protocol ≠ ipProtoUdp) ∨
          job.length < ethHeaderLen + ip.ihl.toNat * 4 + 2) := by
  obtain ⟨text, htext⟩ := printPacket_text job turns
  obtain ⟨hfield, hok, hproto, hihl⟩ := untagged_ipv4 heth hplain htype hip
  refine ⟨_, htext, ?_⟩
  have hcond : ((ip.protocol ≠ ipProtoTcp ∧ ip.protocol ≠ ipProtoUdp) ∨
      job.length < ethHeaderLen + ip.ihl.toNat * 4 + 2) ↔
      ¬((num job.packet 23 1 = 6 ∨ num job.packet 23 1 = 17) ∧
        14 + 4 * lowNibble job.packet 14 + 2 ≤ job.packet.length) := by
    have h14 : ethHeaderLen = 14 := rfl
    have hlen : job.length = job.packet.length := rfl
    have htcp : ipProtoTcp.toNat = 6 := rfl
    have hudp : ipProtoUdp.toNat = 17 := rfl
    rw [ne_eq, ne_eq, ← UInt8.toNat_inj, ← UInt8.toNat_inj, htcp, hudp, hproto, hihl]
    omega
  rw [hcond]
  constructor
  · intro hnone haccepts
    obtain ⟨n, hn, htrue⟩ := (port_accepted_iff hfield hok).mpr haccepts
    obtain ⟨⟨prog, hprog⟩, hall⟩ := (accepted_port hn job.packet).mpr htrue
    obtain ⟨k, hk, hpos⟩ := hall prog hprog
    rw [hnone.capture n prog hprog] at hk
    exact hpos (Option.some.inj hk).symm
  · intro hnot
    obtain ⟨htcp, hudp⟩ := record_no_ports hfield hnot
    refine ⟨htcp, hudp, fun n hfieldn heq => ?_, fun n prog hprog => ?_⟩
    · rw [DispFilter.evalCmp_eq_holds, DispFilter.holds_absent, heq]
      · rfl
      · exact present_port htcp hudp hfieldn
    · have hn := compiled_port_le hprog
      have hfalse : ¬evalAst job.packet (desugar (.port none n)) = some true := fun htrue =>
        hnot ((port_accepted_iff hfield hok).mp ⟨n, hn, htrue⟩)
      rw [compiled_run (tokenize_port hn) (.port none n hn) rfl hprog, if_neg hfalse]

/-- The eight bytes from 1480 on of a datagram from 10.0.0.1 to 10.0.0.2, of the protocol with
number `protocol` -/
def lastFragment (protocol : UInt8) : Job where
  packet := [2, 0, 0, 0, 0, 2, 2, 0, 0, 0, 0, 1, 8, 0, 0x45, 0, 0, 28, 0, 1, 0, 185, 64, protocol,
    0, 0, 10, 0, 0, 1, 10, 0, 0, 2, 4, 0xD2, 0x16, 0x2E, 0x61, 0x62, 0x63, 0x64]
  tsSeconds := 0
  tsMicroseconds := 0
  packetNumber := 1
  small := by simp

theorem fragment_no_ports_iff_icmp :
    ∃ out, printPacket (lastFragment 1) none 0 = some out ∧
      NoPorts (lastFragment 1).packet out.record := by
  obtain ⟨out, hout, hiff⟩ := fragment_no_ports_iff
    (show ethParse (lastFragment 1).packet ⟨0, (lastFragment 1).length⟩ = some (some (_, _)) from
      rfl) (by decide) (by decide)
    (show ipParse (lastFragment 1).packet _ = some (some (_, _)) from rfl) 0
  exact ⟨out, hout, hiff.mpr (.inl (by decide))⟩

/-- Application data of a UDP fragment is taken for a header with source port 1234. -/
theorem fragment_data_taken_for_ports :
    ∃ eth ip l3 payload out,
      ethParse (lastFragment 17).packet ⟨0, (lastFragment 17).length⟩ = some (some (eth, l3)) ∧
      eth.hasVlan = false ∧ eth.etherType = ethTypeIpv4 ∧
      ipParse (lastFragment 17).packet l3 = some (some (ip, payload)) ∧ ip.fragmentOffset = 185 ∧
      printPacket (lastFragment 17) none 0 = some out ∧ out.record.hasUdp = 1 ∧
      out.record.udpSrcPort = 1234 ∧ Accepted (portText 1234) (lastFragment 17).packet ∧
      ¬NoPorts (lastFragment 17).packet out.record := by
  obtain ⟨text, htext⟩ := printPacket_text (lastFragment 17) 0
  have hrecord : (refFields (lastFragment 17).packet).hasUdp = 1 ∧
      (refFields (lastFragment 17).packet).udpSrcPort = 1234 := by decide +kernel
  refine ⟨_, _, _, _, _, rfl, by decide, by decide, rfl, by decide, htext, hrecord.1, hrecord.2,
    (accepted_port (by decide) _).mpr (by decide +kernel), fun hnone => ?_⟩
  have hzero : (refFields (lastFragment 17).packet).hasUdp = 0 := hnone.udp
  rw [hrecord.1] at hzero
  cases hzero

end MyWireshark.Fragments
