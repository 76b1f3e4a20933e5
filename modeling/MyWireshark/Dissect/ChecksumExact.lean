import MyWireshark.Lib.OnesComplement
import MyWireshark.Dissect.Checksum

/-! The verifiers of checksum.c against exact integer sums. -/
namespace MyWireshark.Dissect
open Bytes OnesComplement DispFilter

/-! The accumulator. -/

theorem checksumLoop_mod {mem : List UInt8} {i left sum : Nat} (h : i + left ≤ mem.length)
    (hsum : sum < 2 ^ 32) :
    checksumLoop mem i left sum = some (u32 (sum + wordSum ((mem.drop i).take left))) := by
  induction left using Nat.strongRecOn generalizing i sum with
  | ind left ih =>
    match left with
    | 0 =>
      have hkept : u32 sum = sum := Nat.mod_eq_of_lt hsum
      simp [checksumLoop, wordSum, hkept]
    | 1 =>
      have hi : i < mem.length := by omega
      have hshift : mem[i].toNat <<< 8 = mem[i].toNat * 256 := Nat.shiftLeft_eq _ _
      rw [List.drop_eq_getElem_cons hi, checksumLoop, List.getElem?_eq_getElem hi]
      simp only [List.take_succ_cons, List.take_zero, wordSum, Option.bind_eq_bind,
        Option.bind_some, hshift]
      rfl
    | left + 2 =>
      have hi : i + 1 < mem.length := by omega
      rw [List.drop_eq_getElem_cons (by omega), List.drop_eq_getElem_cons hi, checksumLoop,
        List.getElem?_eq_getElem (by omega), List.getElem?_eq_getElem hi]
      simp only [Option.bind_eq_bind, Option.bind_some, shiftLeft_or_byte]
      have hkept : u32 (sum + (mem[i].toNat * 256 + mem[i + 1].toNat)) < 2 ^ 32 :=
        Nat.mod_lt _ (by decide)
      rw [ih left (by omega) (by omega) hkept]
      simp only [List.take_succ_cons, wordSum, u32, Nat.mod_add_mod, Nat.add_assoc]

theorem checksumLoop_eq {mem : List UInt8} {i left sum : Nat} (h : i + left ≤ mem.length)
    (hsum : sum + wordSum ((mem.drop i).take left) < 2 ^ 32) :
    checksumLoop mem i left sum = some (sum + wordSum ((mem.drop i).take left)) := by
  rw [checksumLoop_mod h (by omega), u32, Nat.mod_eq_of_lt hsum]

/-- Every value the accumulator takes over the buffer is the exact sum. (After each round
of the loop it holds the sum of the bytes so far, which are a shorter buffer.) -/
def NeverWraps (mem : List UInt8) (data : Span) (sum : Nat) : Prop :=
  ∀ n ≤ data.len, sum + wordSum (Span.bytes ⟨data.start, n⟩ mem) < 2 ^ 32 ∧
    checksumPartial mem ⟨data.start, n⟩ sum =
      some (sum + wordSum (Span.bytes ⟨data.start, n⟩ mem))

theorem neverWraps_of_le {mem : List UInt8} {data : Span} {sum : Nat} (hfit : data.Fits mem)
    (hlen : data.len ≤ 65536) (hsum : sum < 2 ^ 31) : NeverWraps mem data sum := by
  intro n hn
  have hle := wordSum_le (Span.bytes ⟨data.start, n⟩ mem)
  have hbytes : (Span.bytes ⟨data.start, n⟩ mem).length ≤ n := List.length_take_le _ _
  have hbound := hfit.bound
  have hlt : sum + wordSum (Span.bytes ⟨data.start, n⟩ mem) < 2 ^ 32 := by omega
  exact ⟨hlt, checksumLoop_eq (show data.start + n ≤ mem.length by omega) hlt⟩

theorem NeverWraps.sum_eq {mem : List UInt8} {data : Span} {sum : Nat}
    (h : NeverWraps mem data sum) :
    checksumPartial mem data sum = some (sum + wordSum (data.bytes mem)) :=
  (h data.len (Nat.le_refl _)).2

/-! The fold. -/

theorem foldCarry_of_lt {sum : Nat} (h : sum < 2 ^ 16) : foldCarry sum = sum := by
  rw [foldCarry, Nat.shiftRight_eq_div_pow, if_pos (Nat.div_eq_of_lt h)]

theorem foldCarry_endAround (sum : Nat) : foldCarry (endAround (2 ^ 16) sum) = foldCarry sum := by
  by_cases h : sum < 2 ^ 16
  · rw [endAround_of_lt h]
  · have hand : sum &&& 0xFFFF = sum % 2 ^ 16 := Nat.and_two_pow_sub_one_eq_mod sum 16
    have hdiv : ¬sum / 2 ^ 16 = 0 := by omega
    rw [foldCarry.eq_1 sum, Nat.shiftRight_eq_div_pow, if_neg hdiv, hand, endAround]

/-- What the loop leaves: one word, of the same residue, zero only for zero. -/
theorem foldCarry_spec (sum : Nat) :
    foldCarry sum < 2 ^ 16 ∧ foldCarry sum ≡ sum [MOD 65535] ∧ (0 < foldCarry sum ↔ 0 < sum) := by
  induction sum using Nat.strongRecOn with
  | ind sum ih =>
    by_cases h : sum < 2 ^ 16
    · rw [foldCarry_of_lt h]
      exact ⟨h, rfl, Iff.rfl⟩
    · have hsum : 0 < sum := by omega
      obtain ⟨hlt, hmod, hpos⟩ := ih _ (endAround_lt (by decide) (Nat.le_of_not_lt h))
      rw [foldCarry_endAround] at hlt hmod hpos
      exact ⟨hlt, hmod.trans (endAround_modEq (by decide) sum),
        iff_of_true (hpos.mpr (endAround_pos hsum)) hsum⟩

/-- Two passes are enough for 32 bits, as the comment in checksum_verify says. -/
theorem foldCarry_two {sum : Nat} (h : sum < 2 ^ 32) :
    foldCarry sum = endAround (2 ^ 16) (endAround (2 ^ 16) sum) := by
  have htwice : endAround (2 ^ 16) (endAround (2 ^ 16) sum) < 2 ^ 16 := by
    simp only [endAround]
    omega
  rw [← foldCarry_endAround, ← foldCarry_endAround, foldCarry_of_lt htwice]

def sumsToOnes (sum : Nat) : Bool := decide (0 < sum ∧ 65535 ∣ sum)

theorem foldsToOnes_eq (sum : Nat) : foldsToOnes sum = sumsToOnes sum := by
  obtain ⟨hlt, hmod, hpos⟩ := foldCarry_spec sum
  have hand : foldCarry sum &&& 0xFFFF = foldCarry sum % 2 ^ 16 :=
    Nat.and_two_pow_sub_one_eq_mod _ 16
  rw [foldsToOnes, sumsToOnes, Bool.eq_iff_iff, beq_iff_eq, decide_eq_true_iff, hand,
    Nat.mod_eq_of_lt hlt, ← hpos, ← hmod.dvd_iff (dvd_refl _)]
  exact eq_pred_iff (by decide) hlt

/-! The pseudo-headers. -/

/-- The words of the pseudo-header of RFC 793 and RFC 768: the two addresses, the protocol
below a zero byte, the length of the segment. -/
def ipv4PseudoSum (srcIp dstIp : Ipv4Addr) (protocol : UInt8) (len : Nat) : Nat :=
  wordSum srcIp.toList + wordSum dstIp.toList + protocol.toNat + len

/-- The words of the pseudo-header of RFC 2460: the two addresses, the two words of the
length, the next header below three zero bytes. -/
def ipv6PseudoSum (srcIp dstIp : Ipv6Addr) (nextHeader : UInt8) (len : Nat) : Nat :=
  wordSum srcIp.toList + wordSum dstIp.toList + (len / 2 ^ 16 + len % 2 ^ 16) + nextHeader.toNat

theorem length_ipv4PseudoHeader (len : Nat) (srcIp dstIp : Ipv4Addr) (protocol : UInt8) :
    (ipv4PseudoHeader len srcIp dstIp protocol).length = 12 := by
  simp [ipv4PseudoHeader]

theorem length_ipv6PseudoHeader (len : Nat) (srcIp dstIp : Ipv6Addr) (nextHeader : UInt8) :
    (ipv6PseudoHeader len srcIp dstIp nextHeader).length = 40 := by
  simp [ipv6PseudoHeader]

theorem wordSum_ipv4PseudoHeader {len : Nat} (hlen : len ≤ 65535) (srcIp dstIp : Ipv4Addr)
    (protocol : UInt8) :
    wordSum (ipv4PseudoHeader len srcIp dstIp protocol) =
      ipv4PseudoSum srcIp dstIp protocol len := by
  have hlow : len &&& 0xFF = len % 2 ^ 8 := Nat.and_two_pow_sub_one_eq_mod len 8
  have hzero : (0 : UInt8).toNat = 0 := rfl
  rw [ipv4PseudoHeader, wordSum_append _ (by simp), wordSum_append _ (by simp), ipv4PseudoSum]
  simp only [wordSum, UInt8.toNat_ofNat', Nat.shiftRight_eq_div_pow, hlow, hzero]
  omega

theorem wordSum_ipv6PseudoHeader {len : Nat} (hlen : len < 2 ^ 32) (srcIp dstIp : Ipv6Addr)
    (nextHeader : UInt8) :
    wordSum (ipv6PseudoHeader len srcIp dstIp nextHeader) =
      ipv6PseudoSum srcIp dstIp nextHeader len := by
  have hlow : len &&& 0xFF = len % 2 ^ 8 := Nat.and_two_pow_sub_one_eq_mod len 8
  have hzero : (0 : UInt8).toNat = 0 := rfl
  rw [ipv6PseudoHeader, wordSum_append _ (by simp), wordSum_append _ (by simp), ipv6PseudoSum]
  simp only [wordSum, UInt8.toNat_ofNat', Nat.shiftRight_eq_div_pow, hlow, hzero]
  omega

def ChainNeverWraps (pseudoHeader mem : List UInt8) (segment : Span) : Prop :=
  NeverWraps pseudoHeader ⟨0, pseudoHeader.length⟩ 0 ∧
    NeverWraps mem segment (wordSum pseudoHeader)

theorem checksumVerifyPseudo_eq {pseudoHeader mem : List UInt8} {segment : Span}
    (hfit : segment.Fits mem) (hlen : segment.len ≤ 65536)
    (hpseudo : pseudoHeader.length ≤ 40) :
    ChainNeverWraps pseudoHeader mem segment ∧
      checksumVerifyPseudo pseudoHeader mem segment =
        some (sumsToOnes (wordSum pseudoHeader + wordSum (segment.bytes mem))) := by
  have hle := wordSum_le pseudoHeader
  have hhead : NeverWraps pseudoHeader ⟨0, pseudoHeader.length⟩ 0 :=
    neverWraps_of_le ⟨by simp, show pseudoHeader.length < 2 ^ 32 by omega⟩
      (show pseudoHeader.length ≤ 65536 by omega) (by decide)
  have hseg : NeverWraps mem segment (wordSum pseudoHeader) :=
    neverWraps_of_le hfit hlen (by omega)
  refine ⟨⟨hhead, hseg⟩, ?_⟩
  have hbytes : Span.bytes ⟨0, pseudoHeader.length⟩ pseudoHeader = pseudoHeader := by
    simp [Span.bytes]
  rw [checksumVerifyPseudo, hhead.sum_eq, Option.bind_eq_bind, Option.bind_some, hbytes,
    Nat.zero_add, hseg.sum_eq, Option.bind_some, foldsToOnes_eq]
  rfl

theorem checksumVerifyIpv4Pseudo_eq {mem : List UInt8} {segment : Span} (hfit : segment.Fits mem)
    (hlen : segment.len ≤ 65535) (srcIp dstIp : Ipv4Addr) (protocol : UInt8) :
    checksumVerifyIpv4Pseudo mem segment srcIp dstIp protocol =
      some (sumsToOnes (ipv4PseudoSum srcIp dstIp protocol segment.len +
        wordSum (segment.bytes mem))) := by
  have hhead := length_ipv4PseudoHeader segment.len srcIp dstIp protocol
  rw [checksumVerifyIpv4Pseudo, (checksumVerifyPseudo_eq hfit (by omega) (by omega)).2,
    wordSum_ipv4PseudoHeader hlen]

theorem checksumVerifyIpv6Pseudo_eq {mem : List UInt8} {segment : Span} (hfit : segment.Fits mem)
    (hlen : segment.len ≤ 65536) (srcIp dstIp : Ipv6Addr) (nextHeader : UInt8) :
    checksumVerifyIpv6Pseudo mem segment srcIp dstIp nextHeader =
      some (sumsToOnes (ipv6PseudoSum srcIp dstIp nextHeader segment.len +
        wordSum (segment.bytes mem))) := by
  have hhead := length_ipv6PseudoHeader segment.len srcIp dstIp nextHeader
  rw [checksumVerifyIpv6Pseudo, (checksumVerifyPseudo_eq hfit hlen hhead.le).2,
    wordSum_ipv6PseudoHeader (by omega)]

/-- The IPv6 verifier on a segment of any length: the sum may leave 32 bits. -/
theorem checksumVerifyIpv6Pseudo_mod {mem : List UInt8} {segment : Span} (hfit : segment.Fits mem)
    (srcIp dstIp : Ipv6Addr) (nextHeader : UInt8) :
    checksumVerifyIpv6Pseudo mem segment srcIp dstIp nextHeader =
      some (sumsToOnes (u32 (ipv6PseudoSum srcIp dstIp nextHeader segment.len +
        wordSum (segment.bytes mem)))) := by
  have hhead := length_ipv6PseudoHeader segment.len srcIp dstIp nextHeader
  have hle := wordSum_le (ipv6PseudoHeader segment.len srcIp dstIp nextHeader)
  rw [hhead, wordSum_ipv6PseudoHeader hfit.len] at hle
  have hpseudo : checksumPartial (ipv6PseudoHeader segment.len srcIp dstIp nextHeader) ⟨0, 40⟩ 0 =
      some (ipv6PseudoSum srcIp dstIp nextHeader segment.len) := by
    rw [checksumPartial, checksumLoop_eq (by simp only; omega), List.drop_zero,
      List.take_of_length_le hhead.le, wordSum_ipv6PseudoHeader hfit.len, Nat.zero_add]
    rw [List.drop_zero, List.take_of_length_le hhead.le, wordSum_ipv6PseudoHeader hfit.len]
    omega
  rw [checksumVerifyIpv6Pseudo, checksumVerifyPseudo, hhead, hpseudo, Option.bind_eq_bind,
    Option.bind_some, checksumPartial, checksumLoop_mod hfit.bound (by omega), Option.bind_some,
    foldsToOnes_eq]
  rfl

theorem checksumVerify_eq {mem : List UInt8} {data : Span} (hfit : data.Fits mem)
    (hlen : data.len ≤ 65536) :
    checksumVerify mem data = some (sumsToOnes (wordSum (data.bytes mem))) := by
  have hsum : NeverWraps mem data 0 := neverWraps_of_le hfit hlen (by decide)
  rw [checksumVerify, hsum.sum_eq, Option.bind_eq_bind, Option.bind_some, foldsToOnes_eq,
    Nat.zero_add]
  rfl

/-- The three verifiers decide whether the exact sum is a positive multiple of 65535, no
sum on the way leaves 32 bits, and the loop that folds it ends after two passes. -/
theorem checksum_verification_exact {mem : List UInt8} {data : Span} (hfit : data.Fits mem) :
    (data.len ≤ 65536 → NeverWraps mem data 0 ∧
      checksumVerify mem data = some (sumsToOnes (wordSum (data.bytes mem)))) ∧
    (data.len ≤ 65535 → ∀ srcIp dstIp protocol,
      ChainNeverWraps (ipv4PseudoHeader data.len srcIp dstIp protocol) mem data ∧
      checksumVerifyIpv4Pseudo mem data srcIp dstIp protocol =
        some (sumsToOnes (ipv4PseudoSum srcIp dstIp protocol data.len +
          wordSum (data.bytes mem)))) ∧
    (data.len ≤ 65536 → ∀ srcIp dstIp nextHeader,
      ChainNeverWraps (ipv6PseudoHeader data.len srcIp dstIp nextHeader) mem data ∧
      checksumVerifyIpv6Pseudo mem data srcIp dstIp nextHeader =
        some (sumsToOnes (ipv6PseudoSum srcIp dstIp nextHeader data.len +
          wordSum (data.bytes mem)))) ∧
    ∀ sum < 2 ^ 32, foldCarry sum = endAround (2 ^ 16) (endAround (2 ^ 16) sum) := by
  refine ⟨fun hlen => ⟨?_, ?_⟩, fun hlen srcIp dstIp protocol => ⟨?_, ?_⟩,
    fun hlen srcIp dstIp nextHeader => ⟨?_, ?_⟩, fun sum => foldCarry_two⟩
  · exact neverWraps_of_le hfit hlen (by decide)
  · exact checksumVerify_eq hfit hlen
  · have hhead := length_ipv4PseudoHeader data.len srcIp dstIp protocol
    exact (checksumVerifyPseudo_eq hfit (by omega) (by omega)).1
  · exact checksumVerifyIpv4Pseudo_eq hfit hlen srcIp dstIp protocol
  · exact (checksumVerifyPseudo_eq hfit hlen (length_ipv6PseudoHeader ..).le).1
  · exact checksumVerifyIpv6Pseudo_eq hfit hlen srcIp dstIp nextHeader

theorem checksum_verification_exact_complement :
    checksumVerify [0x12, 0x34, 0xED, 0xCB] ⟨0, 4⟩ = some true := by
  rw [((@checksum_verification_exact [0x12, 0x34, 0xED, 0xCB] ⟨0, 4⟩
    ⟨by decide, by decide⟩).1 (by decide)).2]
  decide

end MyWireshark.Dissect
