import MyWireshark.Lib.Framing

/-! Headers in a buffer. A header is written down as its fields one after the other; that it stands
at an offset then falls apart into one statement for each field. The format of a header is a
relation between headers and byte strings, and formats come in layers: a header, and then what it
announces. -/
namespace MyWireshark.Layout
open Bytes Framing

def At (mem : List UInt8) (i : Nat) (bs : List UInt8) : Prop := slice mem i bs.length = some bs

section
variable {mem : List UInt8} {i : Nat}

theorem at_iff {bs : List UInt8} :
    At mem i bs ↔ i + bs.length ≤ mem.length ∧ (mem.drop i).take bs.length = bs := by
  unfold At slice
  split <;> simp_all

theorem at_take {n : Nat} (h : i + n ≤ mem.length) :
    At mem i ((mem.drop i).take n) ∧ ((mem.drop i).take n).length = n := by
  have hlen : ((mem.drop i).take n).length = n := by simp; omega
  rw [at_iff, hlen]
  exact ⟨⟨h, rfl⟩, rfl⟩

theorem at_append {bs cs : List UInt8} :
    At mem i (bs ++ cs) ↔ At mem i bs ∧ At mem (i + bs.length) cs := by
  rw [at_iff, at_iff, at_iff, List.length_append, ← Nat.add_assoc, List.take_add, List.drop_drop]
  constructor
  · rintro ⟨hlen, heq⟩
    have hfirst : ((mem.drop i).take bs.length).length = bs.length := by simp; omega
    obtain ⟨hbs, hcs⟩ := List.append_inj heq hfirst
    exact ⟨⟨by omega, hbs⟩, hlen, hcs⟩
  · rintro ⟨⟨-, hbs⟩, hlen, hcs⟩
    exact ⟨hlen, by rw [hbs, hcs]⟩

theorem slice_octets {n : Nat} (h : i + n ≤ mem.length) :
    slice mem i n = some (octets mem i n).toList := by
  have hfield := field_eq h
  rw [field, slice, if_pos h] at hfield
  rw [slice, if_pos h]
  refine congrArg some (be_inj ?_ (Option.some.inj hfield))
  simp only [List.length_take, List.length_drop, Vector.length_toList]
  omega

theorem at_toList {n : Nat} {v : Vector UInt8 n} :
    At mem i v.toList ↔ i + n ≤ mem.length ∧ octets mem i n = v := by
  rw [At, Vector.length_toList]
  by_cases h : i + n ≤ mem.length
  · rw [slice_octets h, Option.some.injEq, Vector.toList_inj]
    exact (and_iff_right h).symm
  · rw [slice, if_neg h]
    simp [h]

theorem at_beBytes {v n : Nat} (hv : v < 256 ^ n) :
    At mem i (beBytes v n) ↔ i + n ≤ mem.length ∧ num mem i n = v := by
  have hval : be (beBytes v n) = v := by rw [be_beBytes, Nat.mod_eq_of_lt hv]
  rw [At, length_beBytes]
  by_cases h : i + n ≤ mem.length
  · rw [slice_octets h, Option.some.injEq, num, and_iff_right h]
    constructor
    · intro heq
      rw [heq, hval]
    · intro heq
      exact be_inj (by simp) (heq.trans hval.symm)
  · rw [slice, if_neg h]
    simp [h]

theorem at_uint16 {v : UInt16} :
    At mem i (beBytes v.toNat 2) ↔ i + 2 ≤ mem.length ∧ num mem i 2 = v.toNat :=
  at_beBytes v.toNat_lt

theorem at_uint32 {v : UInt32} :
    At mem i (beBytes v.toNat 4) ↔ i + 4 ≤ mem.length ∧ num mem i 4 = v.toNat :=
  at_beBytes v.toNat_lt

theorem at_octet {b : UInt8} : At mem i [b] ↔ i + 1 ≤ mem.length ∧ octet mem i = b := by
  have h := @at_toList mem i 1 #v[b]
  rw [show #v[b].toList = [b] from rfl] at h
  rw [h]
  simp [octets, Vector.ofFn_succ]

end
end MyWireshark.Layout

namespace MyWireshark.Layers

section
variable {α β γ : Type}

/-- Nothing starts with two headers of the format. -/
def Unambiguous (Wire : α → List β → Prop) : Prop :=
  ∀ ⦃s hdr bs hdr' bs'⦄, Wire hdr bs → Wire hdr' bs' → bs <+: s → bs' <+: s → hdr = hdr' ∧ bs = bs'

/-- A string that starts with a header means what `next` says about the header, its bytes and the
rest; one that starts with no header means `cut`. -/
inductive Layer (Wire : α → List β → Prop) (next : α → List β → List β → γ → Prop) (cut : γ) :
    List β → γ → Prop where
  | header {hdr : α} {bs rest : List β} {c : γ} (hwire : Wire hdr bs)
    (hnext : next hdr bs rest c) : Layer Wire next cut (bs ++ rest) c
  | none {s : List β} (hno : ∀ hdr bs, Wire hdr bs → ¬bs <+: s) : Layer Wire next cut s cut

variable {Wire : α → List β → Prop} {next : α → List β → List β → γ → Prop} {cut c c' : γ}
  {s : List β}

theorem Layer.unique (hwire : Unambiguous Wire)
    (hnext : ∀ hdr bs rest c c', next hdr bs rest c → next hdr bs rest c' → c = c')
    (h : Layer Wire next cut s c) (h' : Layer Wire next cut s c') : c = c' := by
  cases h with
  | @header _ bs rest _ hw hn =>
    generalize hs : bs ++ rest = s at h'
    cases h' with
    | header hw' hn' =>
      have hpre : bs <+: _ := hs ▸ List.prefix_append bs rest
      obtain ⟨rfl, rfl⟩ := hwire hw hw' hpre (List.prefix_append _ _)
      rw [List.append_cancel_left hs] at hn
      exact hnext _ _ _ _ _ hn hn'
    | none hno => exact absurd (hs ▸ List.prefix_append _ _) (hno _ _ hw)
  | none hno =>
    cases h' with
    | header hw' hn' => exact absurd (List.prefix_append _ _) (hno _ _ hw')
    | none hno' => rfl

end
end MyWireshark.Layers
