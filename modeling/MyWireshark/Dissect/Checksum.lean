import MyWireshark.Lib.Bytes
import MyWireshark.DispFilter.Lexer

/-! The Internet checksum of checksum.c, over a plain buffer and over a segment with its
pseudo-header. `none` is a read outside the buffer. -/
namespace MyWireshark.Dissect
open Bytes DispFilter

/-- The loop of checksum_partial with `left` bytes to go from `i` on: `i + 1 < len` is two
bytes left, `i < len` after it is one. -/
def checksumLoop (mem : List UInt8) (i : Nat) : (left : Nat) → (sum : Nat) → Option Nat
  | left + 2, sum => do
    let hi ← mem[i]?
    let lo ← mem[i + 1]?
    checksumLoop mem (i + 2) left (u32 (sum + (hi.toNat <<< 8 ||| lo.toNat)))
  | 1, sum => do
    let b ← mem[i]?
    return u32 (sum + b.toNat <<< 8)
  | 0, sum => some sum

def checksumPartial (mem : List UInt8) (data : Span) (sum : Nat) : Option Nat :=
  checksumLoop mem data.start data.len sum

def foldCarry (sum : Nat) : Nat :=
  if sum >>> 16 = 0 then sum
  else foldCarry ((sum &&& 0xFFFF) + (sum >>> 16))
termination_by sum
decreasing_by
  have hand : sum &&& 0xFFFF = sum % 2 ^ 16 := Nat.and_two_pow_sub_one_eq_mod sum 16
  rw [hand, Nat.shiftRight_eq_div_pow]
  rw [Nat.shiftRight_eq_div_pow] at *
  omega

def foldsToOnes (sum : Nat) : Bool := foldCarry sum &&& 0xFFFF == 0xFFFF

def checksumVerify (mem : List UInt8) (data : Span) : Option Bool := do
  let sum ← checksumPartial mem data 0
  return foldsToOnes sum

def ipv4PseudoHeader (segmentLen : Nat) (srcIp dstIp : Ipv4Addr) (protocol : UInt8) :
    List UInt8 :=
  srcIp.toList ++ dstIp.toList ++
    [0, protocol, UInt8.ofNat (segmentLen >>> 8), UInt8.ofNat (segmentLen &&& 0xFF)]

def ipv6PseudoHeader (segmentLen : Nat) (srcIp dstIp : Ipv6Addr) (nextHeader : UInt8) :
    List UInt8 :=
  srcIp.toList ++ dstIp.toList ++
    [UInt8.ofNat (segmentLen >>> 24), UInt8.ofNat (segmentLen >>> 16),
      UInt8.ofNat (segmentLen >>> 8), UInt8.ofNat (segmentLen &&& 0xFF), 0, 0, 0, nextHeader]

/-- The common body of the two pseudo-header verifiers. -/
def checksumVerifyPseudo (pseudoHeader mem : List UInt8) (segment : Span) : Option Bool := do
  let sum ← checksumPartial pseudoHeader ⟨0, pseudoHeader.length⟩ 0
  let sum ← checksumPartial mem segment sum
  return foldsToOnes sum

def checksumVerifyIpv4Pseudo (mem : List UInt8) (segment : Span) (srcIp dstIp : Ipv4Addr)
    (protocol : UInt8) : Option Bool :=
  checksumVerifyPseudo (ipv4PseudoHeader segment.len srcIp dstIp protocol) mem segment

def checksumVerifyIpv6Pseudo (mem : List UInt8) (segment : Span) (srcIp dstIp : Ipv6Addr)
    (nextHeader : UInt8) : Option Bool :=
  checksumVerifyPseudo (ipv6PseudoHeader segment.len srcIp dstIp nextHeader) mem segment

/-! No checksum reads past its buffer. -/

theorem checksumLoop_total (mem : List UInt8) (i left sum : Nat) (h : i + left ≤ mem.length) :
    ∃ sum', checksumLoop mem i left sum = some sum' := by
  induction left using Nat.strongRecOn generalizing i sum with
  | ind left ih =>
    match left with
    | 0 => exact ⟨sum, rfl⟩
    | 1 =>
      have hb := getElem?_octet (by omega : i < mem.length)
      exact ⟨_, by rw [checksumLoop, hb]; rfl⟩
    | left + 2 =>
      have hhi := getElem?_octet (by omega : i < mem.length)
      have hlo := getElem?_octet (by omega : i + 1 < mem.length)
      obtain ⟨sum', hsum⟩ := ih left (by omega) (i + 2)
        (u32 (sum + ((octet mem i).toNat <<< 8 ||| (octet mem (i + 1)).toNat))) (by omega)
      exact ⟨sum', by rw [checksumLoop, hhi, hlo]; exact hsum⟩

theorem checksumVerify_total {mem : List UInt8} {data : Span} (h : data.Fits mem) :
    ∃ ok, checksumVerify mem data = some ok := by
  obtain ⟨sum, hsum⟩ := checksumLoop_total mem data.start data.len 0 h.bound
  exact ⟨foldsToOnes sum, by rw [checksumVerify, checksumPartial, hsum]; rfl⟩

theorem checksumVerifyPseudo_total (pseudoHeader : List UInt8) {mem : List UInt8} {segment : Span}
    (h : segment.Fits mem) : ∃ ok, checksumVerifyPseudo pseudoHeader mem segment = some ok := by
  obtain ⟨sum, hsum⟩ := checksumLoop_total pseudoHeader 0 pseudoHeader.length 0 (by omega)
  obtain ⟨sum', hsum'⟩ := checksumLoop_total mem segment.start segment.len sum h.bound
  refine ⟨foldsToOnes sum', ?_⟩
  rw [checksumVerifyPseudo, checksumPartial, hsum, Option.bind_eq_bind, Option.bind_some,
    checksumPartial, hsum']
  rfl

end MyWireshark.Dissect
