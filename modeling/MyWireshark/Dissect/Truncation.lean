import MyWireshark.DispFilter.Absent
import MyWireshark.Dissect.Padding

/-! The decode of the first bytes of a frame against that of the whole frame: what a short
capture shows of a packet is there in the long one. -/
namespace MyWireshark.Dissect
open Bytes DispFilter BoolGrammar

/-- Every layer of `r` is in `s`, with the same addresses and ports. -/
structure Extends (r s : Fields) : Prop where
  ip : r.hasIp ≠ 0 → s.hasIp ≠ 0 ∧ s.ipSrc = r.ipSrc ∧ s.ipDst = r.ipDst
  ipv6 : r.hasIpv6 ≠ 0 → s.hasIpv6 ≠ 0 ∧ s.ipv6Src = r.ipv6Src ∧ s.ipv6Dst = r.ipv6Dst
  tcp : r.hasTcp ≠ 0 → s.hasTcp ≠ 0 ∧ s.tcpSrcPort = r.tcpSrcPort ∧ s.tcpDstPort = r.tcpDstPort
  udp : r.hasUdp ≠ 0 → s.hasUdp ≠ 0 ∧ s.udpSrcPort = r.udpSrcPort ∧ s.udpDstPort = r.udpDstPort

theorem Extends.refl (r : Fields) : Extends r r :=
  ⟨fun h => ⟨h, rfl, rfl⟩, fun h => ⟨h, rfl, rfl⟩, fun h => ⟨h, rfl, rfl⟩,
    fun h => ⟨h, rfl, rfl⟩⟩

structure LinkOnly (r : Fields) : Prop where
  ip : r.hasIp = 0
  ipv6 : r.hasIpv6 = 0
  tcp : r.hasTcp = 0
  udp : r.hasUdp = 0

theorem LinkOnly.extends {r : Fields} (h : LinkOnly r) (s : Fields) : Extends r s :=
  ⟨fun hip => absurd h.ip hip, fun hip => absurd h.ipv6 hip, fun htcp => absurd h.tcp htcp,
    fun hudp => absurd h.udp hudp⟩

section
variable {g : List UInt8} (rest : List UInt8)

theorem extends_refL4 (f : List UInt8) (proto : UInt8) (i stop : Nat) {r : Fields}
    (htcp : r.hasTcp = 0) (hudp : r.hasUdp = 0) : Extends r (refL4 f proto i stop r) := by
  have hself := Extends.refl r
  unfold refL4
  split_ifs
  · exact ⟨hself.ip, hself.ipv6, fun h => absurd htcp h, hself.udp⟩
  · exact hself
  · exact ⟨hself.ip, hself.ipv6, hself.tcp, fun h => absurd hudp h⟩
  · exact hself
  · exact hself

theorem refL4_extends {proto : UInt8} {i stop stop' : Nat} {r : Fields} (htcp : r.hasTcp = 0)
    (hudp : r.hasUdp = 0) (hin : stop ≤ g.length) (hle : stop ≤ stop') :
    Extends (refL4 g proto i stop r) (refL4 (g ++ rest) proto i stop' r) := by
  by_cases hproto : proto = 6
  · subst hproto
    by_cases hc : i + 20 ≤ stop ∧ 5 ≤ highNibble g (i + 12) ∧ i + 4 * highNibble g (i + 12) ≤ stop
    · have hoff := highNibble_append rest (show i + 12 < g.length by omega)
      have hc' : i + 20 ≤ stop' ∧ 5 ≤ highNibble (g ++ rest) (i + 12) ∧
          i + 4 * highNibble (g ++ rest) (i + 12) ≤ stop' := by omega
      simp only [refL4, if_true, if_pos hc, if_pos hc',
        num_append rest (by omega : i + 2 ≤ g.length),
        num_append rest (by omega : i + 2 + 2 ≤ g.length)]
      exact Extends.refl _
    · have hcut : refL4 g 6 i stop r = r := by rw [refL4, if_pos rfl, if_neg hc]
      rw [hcut]
      exact extends_refL4 _ _ _ _ htcp hudp
  · by_cases hproto' : proto = 17
    · subst hproto'
      by_cases hc : i + 8 ≤ stop
      · have hc' : i + 8 ≤ stop' := by omega
        simp only [refL4, if_neg hproto, if_true, if_pos hc, if_pos hc',
          num_append rest (by omega : i + 2 ≤ g.length),
          num_append rest (by omega : i + 2 + 2 ≤ g.length)]
        exact Extends.refl _
      · have hcut : refL4 g 17 i stop r = r := by rw [refL4, if_neg hproto, if_pos rfl, if_neg hc]
        rw [hcut]
        exact extends_refL4 _ _ _ _ htcp hudp
    · rw [refL4_other _ _ _ _ hproto hproto', refL4_other _ _ _ _ hproto hproto']
      exact Extends.refl _

theorem refIpv4_extends {i : Nat} {r : Fields} (hr : LinkOnly r) :
    Extends (refIpv4 g i r) (refIpv4 (g ++ rest) i r) := by
  by_cases hc : i + 20 ≤ g.length ∧ highNibble g i = 4 ∧ 5 ≤ lowNibble g i ∧
      i + 4 * lowNibble g i ≤ g.length
  · have hhigh := highNibble_append rest (show i < g.length by omega)
    have hlow := lowNibble_append rest (show i < g.length by omega)
    have hlen : (g ++ rest).length = g.length + rest.length := List.length_append
    have hc' : i + 20 ≤ (g ++ rest).length ∧ highNibble (g ++ rest) i = 4 ∧
        5 ≤ lowNibble (g ++ rest) i ∧ i + 4 * lowNibble (g ++ rest) i ≤ (g ++ rest).length := by
      omega
    rw [refIpv4, if_pos hc, refIpv4, if_pos hc', hlow, octet_append rest (by omega),
      octets_append rest (by omega), octets_append rest (by omega)]
    have htotal : num (g ++ rest) (i + 2) 2 = num g (i + 2) 2 := num_append rest (by omega)
    refine refL4_extends rest hr.tcp hr.udp ?_ ?_
    · unfold refIpEnd
      split <;> omega
    · rw [refIpEnd, refIpEnd, hlow, htotal]
      split <;> omega
  · rw [refIpv4, if_neg hc]
    exact hr.extends _

theorem refIpv6_extends {i : Nat} {r : Fields} (hr : LinkOnly r) :
    Extends (refIpv6 g i r) (refIpv6 (g ++ rest) i r) := by
  by_cases hc : i + 40 ≤ g.length ∧ highNibble g i = 6
  · have hhigh := highNibble_append rest (show i < g.length by omega)
    have hlen : (g ++ rest).length = g.length + rest.length := List.length_append
    rw [refIpv6, if_pos hc, refIpv6, if_pos (by omega), octet_append rest (by omega),
      octets_append rest (by omega), octets_append rest (by omega)]
    exact refL4_extends rest hr.tcp hr.udp (Nat.le_refl _) (by omega)
  · rw [refIpv6, if_neg hc]
    exact hr.extends _

theorem refFields_extends : Extends (refFields g) (refFields (g ++ rest)) := by
  have hlink : ∀ src dst, LinkOnly { zeroFields with ethSrc := src, ethDst := dst } :=
    fun _ _ => ⟨rfl, rfl, rfl, rfl⟩
  by_cases hshort : g.length < l2Len g 0
  · rw [refFields, if_pos hshort]
    exact (hlink _ _).extends _
  · have hmin := l2Len_bounds g 0
    have hlen : (g ++ rest).length = g.length + rest.length := List.length_append
    have hl2 := l2Len_append rest (show 0 + 14 ≤ g.length by omega)
    rw [refFields, if_neg hshort, refFields, hl2, if_neg (by omega), octets_append rest (by omega),
      octets_append rest (by omega)]
    simp only [refL3, num_append rest (by omega : l2Len g 0 - 2 + 2 ≤ g.length)]
    split_ifs
    · exact refIpv4_extends rest (hlink _ _)
    · exact refIpv6_extends rest (hlink _ _)
    · exact (hlink _ _).extends _

end

/-! Filters -/

/-- A field of the link layer, which is compared whether the layer is there or not. -/
def isEthField : Field → Bool
  | .ethSrc | .ethDst | .ethAddr => true
  | _ => false

section
variable {r s : Fields}

theorem Extends.values (h : Extends r s) {field : Field} (heth : isEthField field = false)
    (hr : field.present r = true) : field.present s = true ∧ field.values s = field.values r := by
  cases field <;> simp only [isEthField, Bool.true_eq_false] at heth
  case ipSrc | ipDst | ipAddr =>
    obtain ⟨hs, hsrc, hdst⟩ := h.ip (bne_iff_ne.mp hr)
    simp [Field.present, Field.values, hs, hsrc, hdst]
  case ipv6Src | ipv6Dst | ipv6Addr =>
    obtain ⟨hs, hsrc, hdst⟩ := h.ipv6 (bne_iff_ne.mp hr)
    simp [Field.present, Field.values, hs, hsrc, hdst]
  case tcpSrcport | tcpDstport | tcpPort =>
    obtain ⟨hs, hsrc, hdst⟩ := h.tcp (bne_iff_ne.mp hr)
    simp [Field.present, Field.values, hs, hsrc, hdst]
  case udpSrcport | udpDstport | udpPort =>
    obtain ⟨hs, hsrc, hdst⟩ := h.udp (bne_iff_ne.mp hr)
    simp [Field.present, Field.values, hs, hsrc, hdst]

theorem Extends.holds (h : Extends r s) {n : Cmp} (heq : n.cmp = .eq)
    (heth : isEthField n.field = false) (hr : n.holds r = true) : n.holds s = true := by
  simp only [Cmp.holds, heq, Bool.and_eq_true, decide_eq_true_eq] at hr ⊢
  obtain ⟨hpresent, hvalues⟩ := h.values heth hr.1
  exact ⟨hpresent, hvalues ▸ hr.2⟩

end

/-- A layer found in the first `n` bytes of a frame is found in the whole frame, with the same
addresses and ports; and what a filter without 'not' and '!=' above the link layer matches in
the short capture it matches in the frame. -/
theorem truncation_invents_nothing (job : Job) (n turns : Nat) :
    ∃ cut full, printPacket (job.cut n) none turns = some cut ∧
      printPacket job none turns = some full ∧ Extends cut.record full.record ∧
      ∀ expr errNull errLen mallocFilter mallocNodes r filter e,
        dispfilterCompile (some expr) errNull errLen mallocFilter mallocNodes = some r →
        r.filter = some filter → IsExpr (tokens expr) e → e.negFree = true →
        (∀ p ∈ e.prims, p.cmp = .eq ∧ isEthField p.field = false) →
        dispfilterMatches (some filter) cut.record = some true →
        dispfilterMatches (some filter) full.record = some true := by
  obtain ⟨cutText, hcut⟩ := printPacket_text (job.cut n) turns
  obtain ⟨text, hfull⟩ := printPacket_text job turns
  have hextends : Extends (refFields (job.cut n).packet) (refFields job.packet) := by
    have h := @refFields_extends (job.packet.take n) (job.packet.drop n)
    rwa [List.take_append_drop] at h
  refine ⟨_, _, hcut, hfull, hextends, ?_⟩
  intro expr errNull errLen mallocFilter mallocNodes r filter e hcompile hr he hfree hprims
  obtain ⟨e', he', hroot⟩ := compiled_tree (isEmpty_of_isExpr he) hcompile hr
  obtain rfl : e' = e := he'.unique primSpec he
  rw [matches_tree hroot, matches_tree hroot, Option.some.injEq, Option.some.injEq]
  exact e'.eval_mono hfree fun p hp => hextends.holds (hprims p hp).1 (hprims p hp).2

theorem truncation_invents_nothing_datagram :
    let text := "udp.port == 53 or tcp.port == 53".toList
    ∃ r filter full, dispfilterCompile (some text) true 0 true true = some r ∧
      r.filter = some filter ∧
      printPacket (shortJob.pad (List.replicate 18 0) (by decide)) none 0 = some full ∧
      dispfilterMatches (some filter) full.record = some true := by
  intro text
  have hcut : (printPacket ((shortJob.pad (List.replicate 18 0) (by decide)).cut 42) none 0).any
      (fun cut => (dispfilterCompile (some text) true 0 true true).any fun r =>
        r.filter.any fun filter => dispfilterMatches (some filter) cut.record == some true) =
      true := by
    decide +kernel
  obtain ⟨cut, full, hcutrun, hfull, -, hfilters⟩ :=
    truncation_invents_nothing (shortJob.pad (List.replicate 18 0) (by decide)) 42 0
  rw [hcutrun, Option.any_some] at hcut
  obtain ⟨r, hr, hcut⟩ := (Option.any_eq_true _ _).mp hcut
  obtain ⟨filter, hfilter, hcut⟩ := (Option.any_eq_true _ _).mp hcut
  let udp : Cmp := ⟨.udpPort, .eq, (53 : Nat)⟩
  let tcp : Cmp := ⟨.tcpPort, .eq, (53 : Nat)⟩
  have htok : tokens text = [.field .udpPort, .eq, .number 53] ++
      .or :: [.field .tcpPort, .eq, .number 53] := by
    decide +kernel
  have he : IsExpr (tokens text) (.disj (.prim udp) (.prim tcp)) := by
    rw [htok]
    exact .orSnoc (.ofAnd (.ofNot (.prim (.cmp udp (by decide : 53 ≤ 65535))))) rfl
      (.ofNot (.prim (.cmp tcp (by decide : 53 ≤ 65535))))
  exact ⟨r, filter, full, hr, hfilter, hfull, hfilters _ _ _ _ _ _ _ _ hr hfilter he rfl (by decide)
    (beq_iff_eq.mp hcut)⟩

end MyWireshark.Dissect
