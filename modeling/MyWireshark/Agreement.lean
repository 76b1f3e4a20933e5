import MyWireshark.CapFilter.Correct
import MyWireshark.Dissect.Correct

/-! The two readings of an IPv4 frame: the byte offsets of a compiled capture filter and the
fields print_packet decodes. They agree on every untagged frame whose TCP or UDP header was
parsed. -/
namespace MyWireshark.Agreement
open Bytes BoolGrammar MyWireshark.Filter CapFilter Dissect
open DispFilter (Fields)

def addrOf (r : Fields) : Dir → Ipv4Addr
  | .src => r.ipSrc
  | .dst => r.ipDst

def portIs (r : Fields) (n : Nat) : Dir → Bool
  | .src => r.hasTcp != 0 && r.tcpSrcPort == n || r.hasUdp != 0 && r.udpSrcPort == n
  | .dst => r.hasTcp != 0 && r.tcpDstPort == n || r.hasUdp != 0 && r.udpDstPort == n

def onSide (test : Dir → Bool) : Option Dir → Bool
  | some dir => test dir
  | none => test .src || test .dst

/-- What a primitive says about the decoded fields of an IPv4 packet with ports. -/
def holds (r : Fields) : Primitive → Bool
  | .tcp => r.hasTcp != 0
  | .udp => r.hasUdp != 0
  | .ip => true
  | .ip6 | .arp | .icmp => false
  | .host dir addr => onSide (fun d => addrOf r d == addr) dir
  | .net dir addr prefixLen => onSide (fun d =>
      netPart prefixLen (be (addrOf r d).toList) == netPart prefixLen (be addr.toList)) dir
  | .port dir n => onSide (portIs r n) dir

/-- Where in the frame the fields of a decoded IPv4 segment come from. -/
structure Segment (f : List UInt8) (r : Fields) : Prop where
  frame : 18 + 4 * lowNibble f 14 ≤ f.length
  ihl : 5 ≤ lowNibble f 14
  etherType : num f 12 2 = 0x0800
  addr : ∀ dir, addrOf r dir = octets f dir.addrOff 4
  tcp : (num f 23 1 == 6) = (r.hasTcp != 0)
  udp : (num f 23 1 == 17) = (r.hasUdp != 0)
  icmp : (num f 23 1 == 1) = false
  one : (r.hasTcp != 0 || r.hasUdp != 0) = true
  port : ∀ dir n, portIs r n dir = (num f (dir.portOff + 4 * lowNibble f 14) 2 == n)

theorem refFields_ipv4 {f : List UInt8} (htype : field f 12 2 = some 0x0800) :
    num f 12 2 = 0x0800 ∧ refFields f =
      refIpv4 f 14 { zeroFields with ethSrc := octets f 6 6, ethDst := octets f 0 6 } := by
  have hlen : 14 ≤ f.length := by
    by_contra hshort
    rw [field, slice, if_neg (by omega)] at htype
    cases htype
  rw [field_eq (by omega)] at htype
  have hnum : num f 12 2 = 0x0800 := Option.some.inj htype
  have hl2 : l2Len f 0 = 14 := by rw [l2Len, hnum]; rfl
  refine ⟨hnum, ?_⟩
  rw [refFields, hl2, if_neg (by omega), refL3, if_pos hnum]

theorem refIpEnd_le (f : List UInt8) (i : Nat) : refIpEnd f i ≤ f.length := by
  unfold refIpEnd
  split <;> omega

theorem refL4_cases (f : List UInt8) (proto : UInt8) (i stop : Nat) (r : Fields) :
    refL4 f proto i stop r = r ∨
    (proto = 6 ∧ i + 20 ≤ stop ∧ refL4 f proto i stop r =
      { r with hasTcp := 1, tcpSrcPort := num f i 2, tcpDstPort := num f (i + 2) 2 }) ∨
    (proto = 17 ∧ i + 8 ≤ stop ∧ refL4 f proto i stop r =
      { r with hasUdp := 1, udpSrcPort := num f i 2, udpDstPort := num f (i + 2) 2 }) := by
  unfold refL4
  split_ifs with htcp hok hudp hok
  · exact .inr (.inl ⟨htcp, hok.1, rfl⟩)
  · exact .inl rfl
  · exact .inr (.inr ⟨hudp, hok, rfl⟩)
  · exact .inl rfl
  · exact .inl rfl

theorem segment_of_record {f : List UInt8} (htype : field f 12 2 = some 0x0800)
    (hl4 : (refFields f).hasTcp = 1 ∨ (refFields f).hasUdp = 1) : Segment f (refFields f) := by
  obtain ⟨hnum, hrec⟩ := refFields_ipv4 htype
  have hstop := refIpEnd_le f 14
  have hproto : num f 23 1 = (octet f 23).toNat := num_one f 23
  have hdst : 14 + 4 * lowNibble f 14 + 2 = 16 + 4 * lowNibble f 14 := by omega
  by_cases hip : 14 + 20 ≤ f.length ∧ highNibble f 14 = 4 ∧ 5 ≤ lowNibble f 14 ∧
      14 + 4 * lowNibble f 14 ≤ f.length
  · rw [refIpv4, if_pos hip] at hrec
    obtain hsame | ⟨htcp, hfits, hports⟩ | ⟨hudp, hfits, hports⟩ := refL4_cases f (octet f 23)
      (14 + 4 * lowNibble f 14) (refIpEnd f 14) { zeroFields with
        ethSrc := octets f 6 6, ethDst := octets f 0 6, hasIp := 1, ipSrc := octets f 26 4,
        ipDst := octets f 30 4 }
    · rw [hrec.trans hsame] at hl4
      exact absurd hl4 (by simp [zeroFields])
    · rw [hrec.trans hports]
      rw [htcp] at hproto
      refine ⟨by omega, hip.2.2.1, hnum, ?_, by rw [hproto]; rfl, by rw [hproto]; rfl,
        by rw [hproto]; rfl, rfl, ?_⟩
      · intro dir
        cases dir <;> rfl
      · intro dir n
        cases dir <;> simp [portIs, Dir.portOff, zeroFields, hdst]
    · rw [hrec.trans hports]
      rw [hudp] at hproto
      refine ⟨by omega, hip.2.2.1, hnum, ?_, by rw [hproto]; rfl, by rw [hproto]; rfl,
        by rw [hproto]; rfl, rfl, ?_⟩
      · intro dir
        cases dir <;> rfl
      · intro dir n
        cases dir <;> simp [portIs, Dir.portOff, zeroFields, hdst]
  · rw [refIpv4, if_neg hip] at hrec
    rw [hrec] at hl4
    exact absurd hl4 (by simp [zeroFields])

/-! The tests of the leaves -/

theorem evalAst_onSides {f : List UInt8} (leaf : Dir → Leaf) (test : Dir → Bool)
    (hleaf : ∀ d, (leaf d).test f = some (test d)) (dir : Option Dir) :
    evalAst f (onSides leaf dir) = some (onSide test dir) := by
  cases dir with
  | some d => exact hleaf d
  | none =>
    simp only [onSides, evalAst, hleaf, onSide]
    cases test .src <;> rfl

section
variable {f : List UInt8} {r : Fields} (h : Segment f r)
include h

theorem test_ethertype (k : Nat) : (Leaf.ethertype k).test f = some (0x0800 == k) := by
  have hframe := h.frame
  rw [Leaf.test, field_eq (by omega), h.etherType]
  rfl

theorem test_ipproto (k : Nat) : (Leaf.ipproto k).test f = some (num f 23 1 == k) := by
  have hframe := h.frame
  have hihl := h.ihl
  rw [Leaf.test, field_eq (by omega)]
  rfl

theorem field_addr (dir : Dir) : field f dir.addrOff 4 = some (be (addrOf r dir).toList) := by
  have hframe := h.frame
  have hihl := h.ihl
  have hoff : dir.addrOff ≤ 30 := by cases dir <;> decide
  rw [field_eq (by omega), h.addr dir]
  rfl

theorem test_host (dir : Dir) (addr : Ipv4Addr) :
    (Leaf.host dir addr).test f = some (addrOf r dir == addr) := by
  have heq : (be (addrOf r dir).toList == be addr.toList) = (addrOf r dir == addr) := by
    rw [Bool.eq_iff_iff, beq_iff_eq, beq_iff_eq]
    constructor
    · intro hbe
      exact Vector.toList_inj.mp (be_inj (by simp) hbe)
    · intro hadr
      rw [hadr]
  rw [Leaf.test, field_addr h, Option.bind_some, heq]

theorem test_net (dir : Dir) (addr : Ipv4Addr) (p : Nat) : (Leaf.net dir addr p).test f =
    some (netPart p (be (addrOf r dir).toList) == netPart p (be addr.toList)) := by
  rw [Leaf.test, field_addr h, Option.bind_some]

theorem test_port (dir : Dir) (n : Nat) : (Leaf.port dir n).test f = some (portIs r n dir) := by
  have hframe := h.frame
  have hoff : dir.portOff ≤ 16 := by cases dir <;> decide
  have hnibble : num f 14 1 % 16 = lowNibble f 14 := by rw [num_one]; rfl
  rw [Leaf.test, field_eq (by omega), Option.bind_some, hnibble, field_eq (by omega), h.port]
  rfl

theorem evalAst_underIpv4 (n : Ast) : evalAst f (underIpv4 n) = evalAst f n := by
  simp [underIpv4, evalAst, test_ethertype h, ethertypeIpv4]

/-- Every primitive tests what it says about the decoded fields. -/
theorem evalAst_desugar (a : Primitive) : evalAst f (desugar a) = some (holds r a) := by
  cases a with
  | tcp =>
    rw [desugar, evalAst_underIpv4 h, evalAst, test_ipproto h]
    exact congrArg some h.tcp
  | udp =>
    rw [desugar, evalAst_underIpv4 h, evalAst, test_ipproto h]
    exact congrArg some h.udp
  | icmp =>
    rw [desugar, evalAst_underIpv4 h, evalAst, test_ipproto h]
    exact congrArg some h.icmp
  | ip => exact test_ethertype h _
  | ip6 => exact test_ethertype h _
  | arp => exact test_ethertype h _
  | host dir addr =>
    rw [desugar, evalAst_underIpv4 h]
    exact evalAst_onSides _ _ (fun d => test_host h d addr) dir
  | net dir addr p =>
    rw [desugar, evalAst_underIpv4 h]
    exact evalAst_onSides _ _ (fun d => test_net h d addr p) dir
  | port dir n =>
    have hproto : evalAst f (.or (.leaf (.ipproto ipprotoTcp)) (.leaf (.ipproto ipprotoUdp))) =
        some true := by
      have hone := h.one
      rw [← h.tcp, ← h.udp] at hone
      simp only [evalAst, test_ipproto h, ipprotoTcp, ipprotoUdp]
      cases htcp : num f 23 1 == 6 <;> simp_all
    rw [desugar, evalAst_underIpv4 h, evalAst, hproto]
    exact evalAst_onSides _ _ (fun d => test_port h d n) dir

theorem evalAst_ast (e : Expr Primitive) : evalAst f (ast e) = some (e.eval (holds r)) := by
  induction e with
  | prim a => exact evalAst_desugar h a
  | neg e ih => exact congrArg (Option.map (!·)) ih
  | conj l r ihl ihr =>
    simp only [ast, Node.ofExpr, evalAst] at ihl ihr ⊢
    rw [ihl, ihr, Expr.eval]
    cases l.eval (holds _) <;> rfl
  | disj l r ihl ihr =>
    simp only [ast, Node.ofExpr, evalAst] at ihl ihr ⊢
    rw [ihl, ihr, Expr.eval]
    cases l.eval (holds _) <;> rfl

end

/-- A compiled capture filter accepts an untagged IPv4 frame with a decoded TCP or UDP header
exactly when its expression is true of the decoded fields. -/
theorem capture_filter_agrees_with_decode {expr : List Char} {o prog : Bpf.SockFprog}
    {errNull : Bool} {errLen : Int} {mallocOk : Bool} {r : CompileResult}
    (h : capfilterCompile (some expr) (some o) errNull errLen mallocOk = some r)
    (hret : r.ret = 0) (hout : r.out = some prog) (hprog : prog.len ≠ 0)
    (job : Job) (turns : Nat) {out : Printed} (hprint : printPacket job none turns = some out)
    (htype : field job.packet 12 2 = some 0x0800)
    (hl4 : out.record.hasTcp = 1 ∨ out.record.hasUdp = 1) :
    ∃ e, IsExpr (tokens expr) e ∧ (∀ e', IsExpr (tokens expr) e' → e' = e) ∧
      Bpf.bpfInterpRun prog job.packet job.length =
        some (if e.eval (holds out.record) then 65535 else 0) := by
  obtain ⟨c, root, p, -, -, ⟨e, he, rfl⟩, hrun⟩ :=
    (succeeds_of_program h hret hout hprog).runs hout
  have hrecord : out.record = refFields job.packet := by
    obtain ⟨text, htext⟩ := printPacket_text job turns
    rw [Option.some.inj (hprint.symm.trans htext)]
  rw [hrecord] at hl4 ⊢
  refine ⟨e, he, fun e' he' => he'.unique primSpec he, ?_⟩
  rw [Job.length, hrun, evalAst_ast (segment_of_record htype hl4) e]
  simp [acceptLen]

/-- A DNS query from 10.0.0.1 to 10.0.0.2, cut after its UDP header. -/
def dnsQuery : Job where
  packet := [2, 0, 0, 0, 0, 2, 2, 0, 0, 0, 0, 1, 8, 0,
    0x45, 0, 0, 28, 0, 0, 0, 0, 64, 17, 0, 0, 10, 0, 0, 1, 10, 0, 0, 2,
    4, 0, 0, 53, 0, 8, 0, 0]
  tsSeconds := 0
  tsMicroseconds := 0
  packetNumber := 1
  small := by decide

theorem capture_filter_agrees_with_decode_dns :
    ∃ r prog out,
      capfilterCompile (some "dst port 53".toList) (some emptyProg) true 0 true = some r ∧
      r.out = some prog ∧ printPacket dnsQuery none 0 = some out ∧ out.record.hasUdp = 1 ∧
      ∃ e, IsExpr (tokens "dst port 53".toList) e ∧
        (∀ e', IsExpr (tokens "dst port 53".toList) e' → e' = e) ∧
        Bpf.bpfInterpRun prog dnsQuery.packet dnsQuery.length =
          some (if e.eval (holds out.record) then 65535 else 0) := by
  have hrun : (capfilterCompile (some "dst port 53".toList) (some emptyProg) true 0 true).map
      (fun r => (r.ret, r.out.map Bpf.SockFprog.len)) = some (0, some 11) := by decide +kernel
  obtain ⟨r, hr, hval⟩ := Option.map_eq_some_iff.mp hrun
  obtain ⟨hret, hlen⟩ := Prod.mk.inj hval
  obtain ⟨prog, hprog, hlen⟩ := Option.map_eq_some_iff.mp hlen
  obtain ⟨text, htext⟩ := printPacket_text dnsQuery 0
  have hudp : (refFields dnsQuery.packet).hasUdp = 1 := by decide +kernel
  have htype : field dnsQuery.packet 12 2 = some 0x0800 := by decide +kernel
  have hagree := capture_filter_agrees_with_decode hr hret hprog (by rw [hlen]; decide) dnsQuery 0
    htext htype (.inr hudp)
  exact ⟨r, prog, _, hr, hprog, htext, hudp, hagree⟩

end MyWireshark.Agreement
