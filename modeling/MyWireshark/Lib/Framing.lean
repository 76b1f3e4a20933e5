import MyWireshark.Lib.Bytes

/-! Numbers as they lie in memory in either byte order, and files of records that name their own
length: a head of fixed size that says how long the body behind it is. -/
namespace MyWireshark.Framing
open Bytes

inductive ByteOrder where
  | little
  | big
  deriving DecidableEq

def beBytes (v : Nat) : Nat → List UInt8
  | 0 => []
  | n + 1 => UInt8.ofNat (v / 256 ^ n) :: beBytes v n

@[simp] theorem length_beBytes (v n : Nat) : (beBytes v n).length = n := by
  induction n with
  | zero => rfl
  | succ n ih => simp [beBytes, ih]

theorem be_beBytes (v n : Nat) : be (beBytes v n) = v % 256 ^ n := by
  induction n with
  | zero => simp [beBytes, be, beFrom, Nat.mod_one]
  | succ n ih =>
    have hsplit : v % (256 ^ n * 256) = v % 256 ^ n + 256 ^ n * (v / 256 ^ n % 256) := Nat.mod_mul
    rw [beBytes, be, beFrom_cons, beFrom_eq, ih, length_beBytes, Nat.pow_succ, hsplit,
      UInt8.toNat_ofNat', Nat.zero_mul, Nat.zero_add, Nat.add_comm, Nat.mul_comm]

namespace ByteOrder
variable (o : ByteOrder)

def bytes (v n : Nat) : List UInt8 :=
  match o with
  | big => beBytes v n
  | little => (beBytes v n).reverse

def value (bs : List UInt8) : Nat :=
  match o with
  | big => be bs
  | little => be bs.reverse

@[simp] theorem length_bytes (v n : Nat) : (o.bytes v n).length = n := by
  cases o <;> simp [bytes]

theorem value_bytes {v n : Nat} (h : v < 256 ^ n) : o.value (o.bytes v n) = v := by
  cases o <;> simp [value, bytes, be_beBytes, Nat.mod_eq_of_lt h]

@[simp] theorem value_bytes_uint32 (v : UInt32) : o.value (o.bytes v.toNat 4) = v.toNat :=
  o.value_bytes v.toNat_lt

end ByteOrder

/-- How records are read: the size of a head, the size of the body that a head announces, and
the record made of the two. -/
structure Format (β ρ : Type) where
  headLen : Nat
  headLen_pos : 0 < headLen
  bodyLen : List β → Nat
  make : List β → List β → ρ

namespace Format
variable {β ρ : Type} (fmt : Format β ρ)

def size (bs : List β) : Nat := fmt.headLen + fmt.bodyLen (bs.take fmt.headLen)

/-- The records of a string, as long as they are complete, and what is left behind them. -/
def read (bs : List β) : List ρ × List β :=
  if fmt.size bs ≤ bs.length then
    let rest := read (bs.drop (fmt.size bs))
    (fmt.make (bs.take fmt.headLen) ((bs.take (fmt.size bs)).drop fmt.headLen) :: rest.1, rest.2)
  else ([], bs)
termination_by bs.length
decreasing_by
  have hpos := fmt.headLen_pos
  simp only [List.length_drop, size] at *
  omega

@[simp] theorem read_nil : fmt.read [] = ([], []) := by
  have hpos := fmt.headLen_pos
  rw [read, if_neg]
  rw [size, List.length_nil]
  omega

structure Encodes (bs : List β) (r : ρ) : Prop where
  head : fmt.headLen ≤ bs.length
  size : fmt.size bs = bs.length
  make : fmt.make (bs.take fmt.headLen) (bs.drop fmt.headLen) = r

variable {fmt} {bs rest : List β} {r : ρ}

theorem Encodes.size_append (h : fmt.Encodes bs r) : fmt.size (bs ++ rest) = bs.length := by
  rw [Format.size, List.take_append_of_le_length h.head]
  exact h.size

theorem Encodes.read_append (h : fmt.Encodes bs r) :
    fmt.read (bs ++ rest) = (r :: (fmt.read rest).1, (fmt.read rest).2) := by
  have hfits : bs.length ≤ (bs ++ rest).length := by simp
  rw [Format.read, h.size_append, if_pos hfits, List.take_append_of_le_length h.head,
    List.take_left, List.drop_left, h.make]

theorem Encodes.read_take (h : fmt.Encodes bs r) {k : Nat} (hk : k < bs.length) :
    fmt.read (bs.take k) = ([], bs.take k) := by
  have hlen : (bs.take k).length = k := List.length_take_of_le (by omega)
  have hlarge : k < fmt.size (bs.take k) := by
    by_cases hhead : fmt.headLen ≤ k
    · have hsize := h.size
      rw [Format.size] at hsize ⊢
      rw [List.take_take, Nat.min_eq_left hhead]
      omega
    · rw [Format.size]
      omega
  rw [Format.read, if_neg (by omega)]

theorem read_flatMap {α : Type} {encode : α → List β} {record : α → ρ} {as : List α}
    (h : ∀ a ∈ as, fmt.Encodes (encode a) (record a)) :
    fmt.read (as.flatMap encode ++ rest) =
      (as.map record ++ (fmt.read rest).1, (fmt.read rest).2) := by
  induction as with
  | nil => rfl
  | cons a as ih =>
    have hhead := h a List.mem_cons_self
    have htail := ih fun b hb => h b (List.mem_cons_of_mem a hb)
    rw [List.flatMap_cons, List.append_assoc, hhead.read_append, htail, List.map_cons,
      List.cons_append]

end Format
end MyWireshark.Framing
