import MyWireshark.Dissect.ChecksumExact

/-! One word of a segment, all other bytes fixed: which values of it the pseudo-header
verifiers accept, and which changes of it they miss. -/
namespace MyWireshark.Dissect
open Bytes OnesComplement DispFilter

def acceptedWords (verify : List UInt8 → Option Bool) (mem : List UInt8) (k : Nat) : Set UInt16 :=
  {w | verify (putWord mem k w) = some true}

/-- The verifier leaves one value for the word at offset `k`, or the two zeros of one's
complement, and flags every change of an accepted word but from one zero to the other. -/
structure ChecksWord (verify : List UInt8 → Option Bool) (mem : List UInt8) (k : Nat) : Prop where
  accepted : (∃ v, v ≠ 0 ∧ v ≠ 0xFFFF ∧ acceptedWords verify mem k = {v}) ∨
    acceptedWords verify mem k = {0, 0xFFFF}
  solvable : ∃ w, verify (putWord mem k w) = some true
  flagged : verify mem = some true → ∀ w, w ≠ wordAt mem k →
    ¬(wordAt mem k = 0 ∧ w = 0xFFFF) → ¬(wordAt mem k = 0xFFFF ∧ w = 0) →
      verify (putWord mem k w) = some false

theorem checksWord_of_sum {verify : List UInt8 → Option Bool} {mem : List UInt8} {k rest : Nat}
    (hk : k + 1 < mem.length) (hrest : 0 < rest)
    (h : ∀ w, verify (putWord mem k w) = some (sumsToOnes (rest + w.toNat))) :
    ChecksWord verify mem k := by
  have htrue : ∀ w, verify (putWord mem k w) = some true ↔ 65535 ∣ rest + w.toNat := by
    intro w
    rw [h, Option.some.injEq, sumsToOnes, decide_eq_true_iff]
    exact and_iff_right (Nat.add_pos_left hrest _)
  have hwords : acceptedWords verify mem k = {w | 65535 ∣ rest + w.toNat} := Set.ext htrue
  have hcases := hwords ▸ completing_words rest
  refine ⟨hcases, ?_, ?_⟩
  · obtain ⟨v, -, -, hv⟩ | hpair := hcases
    · exact ⟨v, (Set.ext_iff.mp hv v).mpr rfl⟩
    · exact ⟨0, (Set.ext_iff.mp hpair 0).mpr (.inl rfl)⟩
  · intro hmem w hne hzero hones
    rw [← putWord_wordAt hk] at hmem
    cases hw : sumsToOnes (rest + w.toNat) with
    | false => rw [h, hw]
    | true =>
      -- both the old and the new word are accepted
      have hnew : verify (putWord mem k w) = some true := by rw [h, hw]
      exfalso
      obtain ⟨v, -, -, hv⟩ | hpair := hcases
      · have hold : wordAt mem k = v := (Set.ext_iff.mp hv _).mp hmem
        exact hne (((Set.ext_iff.mp hv w).mp hnew).trans hold.symm)
      · obtain hold | hold := (Set.ext_iff.mp hpair _).mp hmem
        · obtain hw' | hw' := (Set.ext_iff.mp hpair w).mp hnew
          · exact hne (hw'.trans hold.symm)
          · exact hzero ⟨hold, hw'⟩
        · obtain hw' | hw' := (Set.ext_iff.mp hpair w).mp hnew
          · exact hones ⟨hold, hw'⟩
          · exact hne (hw'.trans hold.symm)

theorem bytes_putWord (mem : List UInt8) (s : Span) (i : Nat) (w : UInt16) :
    s.bytes (putWord mem (s.start + i) w) = putWord (s.bytes mem) i w := by
  have hdrop : ∀ (l : List UInt8) (n : Nat) (b : UInt8),
      (l.set (s.start + n) b).drop s.start = (l.drop s.start).set n b := by
    intro l n b
    rw [List.drop_set, if_neg (by omega), Nat.add_sub_cancel_left]
  rw [Span.bytes, putWord, Nat.add_assoc, hdrop, hdrop, List.take_set, List.take_set]
  rfl

section segment
variable {mem : List UInt8} {segment : Span} {i : Nat}

theorem fits_putWord (hfit : segment.Fits mem) (w : UInt16) :
    segment.Fits (putWord mem (segment.start + i) w) :=
  ⟨by rw [length_putWord]; exact hfit.bound, hfit.len⟩

theorem segment_sum (hfit : segment.Fits mem) (hi : i + 1 < segment.len) (heven : i % 2 = 0) :
    ∃ rest, ∀ w,
      wordSum (segment.bytes (putWord mem (segment.start + i) w)) = rest + w.toNat := by
  obtain ⟨rest, hrest⟩ := wordSum_putWord heven (hfit.length_bytes.symm ▸ hi)
  exact ⟨rest, fun w => by rw [bytes_putWord, hrest]⟩

/-- For a segment with either pseudo-header and a protocol number that is not zero. -/
theorem pseudo_verifiers_check_word (hfit : segment.Fits mem) (hlen : segment.len ≤ 65535)
    (heven : i % 2 = 0) (hi : i + 1 < segment.len) {protocol : UInt8} (hproto : protocol ≠ 0) :
    (∀ srcIp dstIp, ChecksWord
      (fun mem => checksumVerifyIpv4Pseudo mem segment srcIp dstIp protocol) mem
      (segment.start + i)) ∧
    ∀ srcIp dstIp, ChecksWord
      (fun mem => checksumVerifyIpv6Pseudo mem segment srcIp dstIp protocol) mem
      (segment.start + i) := by
  obtain ⟨rest, hrest⟩ := segment_sum hfit hi heven
  have hk : segment.start + i + 1 < mem.length := by
    have hbound := hfit.bound
    omega
  have hpos : 0 < protocol.toNat := Nat.pos_of_ne_zero fun h => hproto (UInt8.toNat_inj.mp h)
  constructor
  · intro srcIp dstIp
    refine @checksWord_of_sum _ _ _ (ipv4PseudoSum srcIp dstIp protocol segment.len + rest) hk ?_ ?_
    · rw [ipv4PseudoSum]
      omega
    · intro w
      rw [checksumVerifyIpv4Pseudo_eq (fits_putWord hfit w) hlen, hrest, Nat.add_assoc]
  · intro srcIp dstIp
    refine @checksWord_of_sum _ _ _ (ipv6PseudoSum srcIp dstIp protocol segment.len + rest) hk ?_ ?_
    · rw [ipv6PseudoSum]
      omega
    · intro w
      rw [checksumVerifyIpv6Pseudo_eq (fits_putWord hfit w) (by omega), hrest, Nat.add_assoc]

end segment

theorem pseudo_verifiers_check_word_udp :
    ∃ w, checksumVerifyIpv4Pseudo (putWord [0, 53, 0, 53, 0, 8, 0, 0] 6 w) ⟨0, 8⟩
      #v[10, 0, 0, 1] #v[10, 0, 0, 2] 17 = some true :=
  ((@pseudo_verifiers_check_word [0, 53, 0, 53, 0, 8, 0, 0] ⟨0, 8⟩ 6 ⟨by decide, by decide⟩
    (by decide) (by decide) (by decide) 17 (by decide)).1 #v[10, 0, 0, 1] #v[10, 0, 0, 2]).solvable

end MyWireshark.Dissect
