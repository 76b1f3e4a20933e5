import MyWireshark.Agreement
import MyWireshark.CapFilter.Words

/-! The keywords of the capture filter against the analyzer: which of the frames decoded as TCP
or UDP the programs of "tcp", "udp" and "port N" accept. -/
namespace MyWireshark.KeywordSync
open Bytes BoolGrammar MyWireshark.Filter CapFilter Dissect Agreement
open DispFilter (Fields)

def Compiled (expr : List Char) (prog : Bpf.SockFprog) : Prop :=
  ∃ o errNull errLen mallocOk r,
    capfilterCompile (some expr) (some o) errNull errLen mallocOk = some r ∧ r.ret = 0 ∧
      r.out = some prog

/-- The expression compiles, and its program accepts the frame. -/
def Accepted (expr : List Char) (f : List UInt8) : Prop :=
  (∃ prog, Compiled expr prog) ∧
    ∀ prog, Compiled expr prog → ∃ n, Bpf.bpfInterpRun prog f f.length = some n ∧ n ≠ 0

def portText (n : Nat) : List Char := "port ".toList ++ Nat.toDigits 10 n

/-- The keywords accept a frame that is decoded as `r` where the decode says they should. -/
structure InSync (f : List UInt8) (r : Fields) : Prop where
  tcp : r.hasTcp = 1 → Accepted "tcp".toList f
  udp : r.hasUdp = 1 → Accepted "udp".toList f
  port : ∀ n, onSide (portIs r n) none = true → Accepted (portText n) f

theorem Compiled.succeeds {expr : List Char} {prog : Bpf.SockFprog} (h : Compiled expr prog)
    (hne : isEmpty expr = false) :
    ∃ errNull errLen r, Succeeds expr errNull errLen r ∧ r.out = some prog := by
  obtain ⟨o, errNull, errLen, mallocOk, r, hr, hret, hout⟩ := h
  exact ⟨errNull, errLen, r, succeeds_of_ret hne hr hret, hout⟩

section
variable {expr : List Char} {a : Primitive} {ts : List Token}
  (htok : tokenize cfScanner expr = (ts, none)) (hword : PrimitiveWord ts a)
  (hne : isEmpty expr = false)
include htok hword hne

theorem compiled_run {prog : Bpf.SockFprog} (hprog : Compiled expr prog) (f : List UInt8) :
    Bpf.bpfInterpRun prog f f.length =
      some (if evalAst f (desugar a) = some true then acceptLen else 0) := by
  have hts : tokens expr = ts := congrArg Prod.fst htok
  have he : IsExpr (tokens expr) (.prim a) := by
    rw [hts]
    exact .ofAnd (.ofNot (.prim hword))
  obtain ⟨errNull, errLen, r, hs, hout⟩ := hprog.succeeds hne
  exact hs.decides hout he f

variable (hlen : ts.length ≤ 255)
include hlen

theorem exists_compiled (hnodes : (desugar a).nodes ≤ 256)
    (hsize : insnCount (desugar a) + 2 ≤ 256) : ∃ prog, Compiled expr prog := by
  have hts : tokens expr = ts := congrArg Prod.fst htok
  have herr : lexError expr = none := congrArg Prod.snd htok
  obtain ⟨r, hr, hcases⟩ :=
    capfilterCompile_spec hne (by rw [hts]; exact hlen) emptyProg true 0 true
  cases hcases with
  | inl hs =>
    obtain ⟨c, root, p, t, -, -, -, -, -, hout⟩ := hs.stages
    exact ⟨_, emptyProg, true, 0, true, r, hr, hs.ret, hout⟩
  | inr hf =>
    have he : IsExpr (tokens expr) (.prim a) := by
      rw [hts]
      exact .ofAnd (.ofNot (.prim hword))
    have hlarge := hf.2 herr rfl (.prim a) he hnodes
    have hast : insnCount (ast (.prim a)) = insnCount (desugar a) := rfl
    omega

theorem accepted_iff (hnodes : (desugar a).nodes ≤ 256) (hsize : insnCount (desugar a) + 2 ≤ 256)
    (f : List UInt8) : Accepted expr f ↔ evalAst f (desugar a) = some true := by
  have hrun := fun prog hprog => @compiled_run expr a ts htok hword hne prog hprog f
  have hexists := exists_compiled htok hword hne hlen hnodes hsize
  constructor
  · rintro ⟨⟨prog, hprog⟩, hall⟩
    obtain ⟨n, hn, hpos⟩ := hall prog hprog
    rw [hrun prog hprog] at hn
    by_contra hfalse
    rw [if_neg hfalse] at hn
    exact hpos (Option.some.inj hn).symm
  · intro htrue
    refine ⟨hexists, fun prog hprog => ⟨acceptLen, ?_, by decide⟩⟩
    rw [hrun prog hprog, if_pos htrue]

end

theorem tokenize_portText (n : Nat) : tokenize cfScanner (portText n) =
    if n > 0xFFFFFFFF then ([.port], some "number out of range")
    else ([.port, .number n], none) := by
  have hkeyword := @tokenize_keyword 'p' "ort".toList (Nat.toDigits 10 n) .port rfl rfl
    (List.all_eq_true.mp rfl) (by decide)
  rw [tokenize_toDigits] at hkeyword
  refine hkeyword.trans ?_
  split <;> rfl

theorem tokenize_port {n : Nat} (h : n ≤ 65535) :
    tokenize cfScanner (portText n) = ([.port, .number n], none) := by
  rw [tokenize_portText, if_neg (by omega)]

theorem accepted_tcp (f : List UInt8) :
    Accepted "tcp".toList f ↔ evalAst f (desugar .tcp) = some true :=
  accepted_iff (by decide +kernel) .tcp (by decide) (by decide) (by decide) (by decide) f

theorem accepted_udp (f : List UInt8) :
    Accepted "udp".toList f ↔ evalAst f (desugar .udp) = some true :=
  accepted_iff (by decide +kernel) .udp (by decide) (by decide) (by decide) (by decide) f

theorem accepted_port {n : Nat} (h : n ≤ 65535) (f : List UInt8) :
    Accepted (portText n) f ↔ evalAst f (desugar (.port none n)) = some true :=
  accepted_iff (tokenize_port h) (.port none n h) rfl (by simp) (Nat.le_of_ble_eq_true rfl)
    (Nat.le_of_ble_eq_true rfl) f

theorem ethertype_of_underIpv4 {f : List UInt8} {n : Ast}
    (h : evalAst f (underIpv4 n) = some true) :
    field f 12 2 = some 0x0800 := by
  cases hfield : field f 12 2 with
  | none => simp [underIpv4, evalAst, Leaf.test, hfield] at h
  | some v =>
    by_cases hv : v = 0x0800
    · rw [hv]
    · simp [underIpv4, evalAst, Leaf.test, hfield, hv, ethertypeIpv4] at h

theorem port_le {f : List UInt8} {r : Fields} (h : Segment f r) {n : Nat}
    (hport : onSide (portIs r n) none = true) : n ≤ 65535 := by
  have hside : ∀ dir, portIs r n dir = true → n ≤ 65535 := by
    intro dir hdir
    rw [h.port, beq_iff_eq] at hdir
    have hlt := num_lt f (dir.portOff + 4 * lowNibble f 14) 2
    omega
  cases Bool.or_eq_true_iff.mp hport with
  | inl hsrc => exact hside .src hsrc
  | inr hdst => exact hside .dst hdst

/-- For the frames decoded as TCP or UDP, the keywords are in sync with the analyzer exactly
on those that carry IPv4 without a tag. -/
theorem inSync_iff_untagged_ipv4 (job : Job) (turns : Nat) {out : Printed}
    (hprint : printPacket job none turns = some out)
    (hl4 : out.record.hasTcp = 1 ∨ out.record.hasUdp = 1) :
    InSync job.packet out.record ↔ field job.packet 12 2 = some 0x0800 := by
  have hrecord : out.record = refFields job.packet := by
    obtain ⟨text, htext⟩ := printPacket_text job turns
    rw [Option.some.inj (hprint.symm.trans htext)]
  rw [hrecord] at hl4 ⊢
  constructor
  · intro hsync
    cases hl4 with
    | inl htcp => exact ethertype_of_underIpv4 ((accepted_tcp _).mp (hsync.tcp htcp))
    | inr hudp => exact ethertype_of_underIpv4 ((accepted_udp _).mp (hsync.udp hudp))
  · intro htype
    have hsegment := segment_of_record htype hl4
    refine ⟨fun htcp => ?_, fun hudp => ?_, fun n hport => ?_⟩
    · rw [accepted_tcp, evalAst_desugar hsegment, holds, htcp]
      rfl
    · rw [accepted_udp, evalAst_desugar hsegment, holds, hudp]
      rfl
    · rw [accepted_port (port_le hsegment hport), evalAst_desugar hsegment, holds, hport]

/-- The DNS query of the untagged frame, in VLAN 1. -/
def taggedDnsQuery : Job where
  packet := [2, 0, 0, 0, 0, 2, 2, 0, 0, 0, 0, 1, 0x81, 0, 0, 1, 8, 0,
    0x45, 0, 0, 28, 0, 0, 0, 0, 64, 17, 0, 0, 10, 0, 0, 1, 10, 0, 0, 2,
    4, 0, 0, 53, 0, 8, 0, 0]
  tsSeconds := 0
  tsMicroseconds := 0
  packetNumber := 1
  small := by decide

theorem inSync_iff_untagged_ipv4_dns :
    ∃ out, printPacket dnsQuery none 0 = some out ∧ out.record.hasUdp = 1 ∧
      (InSync dnsQuery.packet out.record ↔ field dnsQuery.packet 12 2 = some 0x0800) := by
  obtain ⟨text, htext⟩ := printPacket_text dnsQuery 0
  have hudp : (refFields dnsQuery.packet).hasUdp = 1 := by decide +kernel
  have hiff := inSync_iff_untagged_ipv4 dnsQuery 0 htext (.inr hudp)
  exact ⟨_, htext, hudp, hiff⟩

/-- The tagged query is decoded as UDP to port 53, and neither "udp" nor "port 53" accepts it. -/
theorem tagged_query_out_of_sync :
    ∃ out, printPacket taggedDnsQuery none 0 = some out ∧ out.record.hasUdp = 1 ∧
      out.record.udpDstPort = 53 ∧ ¬Accepted "udp".toList taggedDnsQuery.packet ∧
      ¬Accepted (portText 53) taggedDnsQuery.packet ∧
      ¬InSync taggedDnsQuery.packet out.record := by
  obtain ⟨text, htext⟩ := printPacket_text taggedDnsQuery 0
  have hrecord : (refFields taggedDnsQuery.packet).hasUdp = 1 ∧
      (refFields taggedDnsQuery.packet).udpDstPort = 53 := by decide +kernel
  have htype : field taggedDnsQuery.packet 12 2 ≠ some 0x0800 := by decide +kernel
  have hudp : ¬Accepted "udp".toList taggedDnsQuery.packet := fun h =>
    htype (ethertype_of_underIpv4 ((accepted_udp _).mp h))
  have hport : ¬Accepted (portText 53) taggedDnsQuery.packet := fun h =>
    htype (ethertype_of_underIpv4 ((accepted_port (by decide) _).mp h))
  exact ⟨_, htext, hrecord.1, hrecord.2, hudp, hport, fun hsync => hudp (hsync.udp hrecord.1)⟩

end MyWireshark.KeywordSync
