import Mathlib.Data.List.Basic
import Mathlib.Data.Nat.Bitwise
import Mathlib.Data.Vector.Basic
import Mathlib.Tactic.Ring

/-! Byte strings and the big-endian numbers in them, read with and without a check of the
bounds, and pointers into a buffer. -/
namespace MyWireshark.Bytes

/-- The value a 32-bit unsigned integer keeps. -/
def u32 (n : Nat) : Nat := n % 2 ^ 32

/-- Big-endian value of a byte string, on top of the digits `v` read before it. -/
def beFrom (v : Nat) (bs : List UInt8) : Nat := bs.foldl (fun v b => v * 256 + b.toNat) v

def be (bs : List UInt8) : Nat := beFrom 0 bs

/-- The `n` bytes from offset `off` on, if they are all there. -/
def slice (mem : List UInt8) (off n : Nat) : Option (List UInt8) :=
  if off + n ≤ mem.length then some ((mem.drop off).take n) else none

def field (mem : List UInt8) (off n : Nat) : Option Nat := (slice mem off n).map be

theorem slice_length {mem bs : List UInt8} {off n : Nat} (h : slice mem off n = some bs) :
    bs.length = n := by
  unfold slice at h
  split_ifs at h
  cases h
  simp only [List.length_take, List.length_drop]
  omega

theorem beFrom_cons (v : Nat) (b : UInt8) (bs : List UInt8) :
    beFrom v (b :: bs) = beFrom (v * 256 + b.toNat) bs := rfl

theorem beFrom_lt (v m : Nat) (bs : List UInt8) (h : v < m) :
    beFrom v bs < m * 256 ^ bs.length := by
  induction bs generalizing v m with
  | nil => simpa [beFrom] using h
  | cons b bs ih =>
    have hb : b.toNat < 256 := b.toNat_lt
    have hlt := ih (v * 256 + b.toNat) (m * 256) (by omega)
    rw [beFrom_cons]
    calc beFrom (v * 256 + b.toNat) bs < m * 256 * 256 ^ bs.length := hlt
      _ = m * 256 ^ (b :: bs).length := by rw [List.length_cons, Nat.pow_succ', Nat.mul_assoc]

theorem be_lt (bs : List UInt8) : be bs < 256 ^ bs.length := by
  simpa [be] using beFrom_lt 0 1 bs (by omega)

theorem field_lt {mem : List UInt8} {off n v : Nat} (h : field mem off n = some v) :
    v < 256 ^ n := by
  obtain ⟨bs, hbs, rfl⟩ := Option.map_eq_some_iff.mp h
  rw [← slice_length hbs]
  exact be_lt bs

theorem shiftLeft_or_byte (v : Nat) (b : UInt8) : v <<< 8 ||| b.toNat = v * 256 + b.toNat := by
  rw [← Nat.shiftLeft_add_eq_or_of_lt b.toNat_lt, Nat.shiftLeft_eq]

theorem or_bytes (a b c d : UInt8) :
    u32 (a.toNat <<< 24) ||| u32 (b.toNat <<< 16) ||| u32 (c.toNat <<< 8) ||| d.toNat =
      ((a.toNat * 256 + b.toNat) * 256 + c.toNat) * 256 + d.toNat := by
  have hshift : ∀ (x : UInt8) (n : Nat), n ≤ 24 → u32 (x.toNat <<< n) = x.toNat <<< n := by
    intro x n hn
    have hx : x.toNat < 256 := x.toNat_lt
    rw [u32, Nat.mod_eq_of_lt]
    calc x.toNat <<< n = x.toNat * 2 ^ n := Nat.shiftLeft_eq _ _
      _ < 256 * 2 ^ n := Nat.mul_lt_mul_of_pos_right hx (Nat.pow_pos (by decide))
      _ ≤ 256 * 2 ^ 24 := Nat.mul_le_mul_left _ (Nat.pow_le_pow_right (by decide) hn)
  rw [hshift a 24 (by decide), hshift b 16 (by decide), hshift c 8 (by decide)]
  rw [← shiftLeft_or_byte, ← shiftLeft_or_byte, ← shiftLeft_or_byte]
  simp only [Nat.shiftLeft_or_distrib, ← Nat.shiftLeft_add]

theorem beFrom_eq (v : Nat) (bs : List UInt8) : beFrom v bs = v * 256 ^ bs.length + be bs := by
  induction bs generalizing v with
  | nil => simp [be, beFrom]
  | cons b bs ih =>
    rw [be, beFrom_cons, beFrom_cons, ih, ih (0 * 256 + b.toNat), List.length_cons, Nat.pow_succ']
    ring

theorem be_inj {bs cs : List UInt8} (hlen : bs.length = cs.length) (h : be bs = be cs) :
    bs = cs := by
  induction bs generalizing cs with
  | nil => exact (List.eq_nil_of_length_eq_zero hlen.symm).symm
  | cons b bs ih =>
    cases cs with
    | nil => cases hlen
    | cons c cs =>
      have hlen' : bs.length = cs.length := by simpa using hlen
      have hb := be_lt bs
      have hc := be_lt cs
      rw [be, be, beFrom_cons, beFrom_cons, beFrom_eq, beFrom_eq, hlen'] at h
      rw [hlen'] at hb
      simp only [Nat.zero_mul, Nat.zero_add] at h
      have hpos : 0 < 256 ^ cs.length := Nat.pow_pos (by decide)
      have hdiv := congrArg (· / 256 ^ cs.length) h
      have hmod := congrArg (· % 256 ^ cs.length) h
      simp only [Nat.mul_comm _ (256 ^ cs.length), Nat.mul_add_div hpos, Nat.div_eq_of_lt hb,
        Nat.div_eq_of_lt hc, Nat.mul_add_mod, Nat.mod_eq_of_lt hb, Nat.mod_eq_of_lt hc,
        Nat.add_zero] at hdiv hmod
      rw [UInt8.toNat_inj.mp hdiv, ih hlen' hmod]

/-! Reads of a buffer. `none` is an access outside it. -/

def read16 (mem : List UInt8) (i : Nat) : Option Nat := do
  let hi ← mem[i]?
  let lo ← mem[i + 1]?
  return (hi.toNat <<< 8 ||| lo.toNat) % 2 ^ 16

def read32 (mem : List UInt8) (i : Nat) : Option Nat := do
  let a ← mem[i]?
  let b ← mem[i + 1]?
  let c ← mem[i + 2]?
  let d ← mem[i + 3]?
  return u32 (a.toNat <<< 24) ||| u32 (b.toNat <<< 16) ||| u32 (c.toNat <<< 8) ||| d.toNat

def readBytes (mem : List UInt8) (i n : Nat) : Option (Vector UInt8 n) :=
  if h : i + n ≤ mem.length then some (Vector.ofFn fun k => mem[i + k]) else none

/- What is at an offset, zero outside the buffer. -/

def octet (mem : List UInt8) (i : Nat) : UInt8 := mem.getD i 0

def octets (mem : List UInt8) (i n : Nat) : Vector UInt8 n := Vector.ofFn fun k => octet mem (i + k)

def num (mem : List UInt8) (i n : Nat) : Nat := be (octets mem i n).toList

theorem getElem?_octet {mem : List UInt8} {i : Nat} (h : i < mem.length) :
    mem[i]? = some (octet mem i) := by
  simp [octet, h]

theorem num_succ (mem : List UInt8) (i n : Nat) :
    num mem i (n + 1) = num mem i n * 256 + (octet mem (i + n)).toNat := by
  simp only [num, octets, be, beFrom, Vector.toList_ofFn, List.ofFn_succ_last, List.foldl_append]
  rfl

theorem num_zero (mem : List UInt8) (i : Nat) : num mem i 0 = 0 := rfl

theorem num_one (mem : List UInt8) (i : Nat) : num mem i 1 = (octet mem i).toNat := by
  simp [num_succ, num_zero]

theorem num_lt (mem : List UInt8) (i n : Nat) : num mem i n < 256 ^ n := by
  have h := be_lt (octets mem i n).toList
  rwa [Vector.length_toList] at h

theorem read16_eq {mem : List UInt8} {i : Nat} (h : i + 2 ≤ mem.length) :
    read16 mem i = some (num mem i 2) := by
  have hlt : num mem i 2 < 2 ^ 16 := num_lt mem i 2
  rw [read16, getElem?_octet (by omega), getElem?_octet (by omega)]
  simp only [Option.bind_eq_bind, Option.bind_some, shiftLeft_or_byte, ← num_one mem i,
    ← num_succ, Nat.mod_eq_of_lt hlt]
  rfl

theorem read32_eq {mem : List UInt8} {i : Nat} (h : i + 4 ≤ mem.length) :
    read32 mem i = some (num mem i 4) := by
  rw [read32, getElem?_octet (by omega), getElem?_octet (by omega), getElem?_octet (by omega),
    getElem?_octet (by omega)]
  simp only [Option.bind_eq_bind, Option.bind_some, or_bytes, ← num_one mem i, ← num_succ]
  rfl

theorem readBytes_eq {mem : List UInt8} {i n : Nat} (h : i + n ≤ mem.length) :
    readBytes mem i n = some (octets mem i n) := by
  rw [readBytes, dif_pos h]
  congr 2
  funext k
  have hk : i + k < mem.length := by omega
  simp [octet, hk]

theorem field_eq {mem : List UInt8} {i n : Nat} (h : i + n ≤ mem.length) :
    field mem i n = some (num mem i n) := by
  have hslice : (mem.drop i).take n = (octets mem i n).toList := by
    apply List.ext_getElem
    · simp only [List.length_take, List.length_drop, Vector.length_toList]
      omega
    · intro k hk _
      have hk' : i + k < mem.length := by
        simp only [List.length_take, List.length_drop] at hk
        omega
      simp [octets, octet, hk']
  rw [field, slice, if_pos h, hslice]
  rfl

/-! Reads of a buffer that goes on after the bytes they need. -/

section append
variable {mem : List UInt8} {i : Nat} (tail : List UInt8)

theorem octet_append (h : i < mem.length) : octet (mem ++ tail) i = octet mem i := by
  rw [octet, octet, List.getD_append _ _ _ _ h]

theorem octets_append {n : Nat} (h : i + n ≤ mem.length) :
    octets (mem ++ tail) i n = octets mem i n := by
  unfold octets
  congr 1
  funext k
  exact octet_append tail (by omega)

theorem num_append {n : Nat} (h : i + n ≤ mem.length) : num (mem ++ tail) i n = num mem i n := by
  rw [num, num, octets_append tail h]

theorem read16_append (h : i + 2 ≤ mem.length) : read16 (mem ++ tail) i = read16 mem i := by
  rw [read16_eq h, read16_eq (by rw [List.length_append]; omega), num_append tail h]

theorem read32_append (h : i + 4 ≤ mem.length) : read32 (mem ++ tail) i = read32 mem i := by
  rw [read32_eq h, read32_eq (by rw [List.length_append]; omega), num_append tail h]

theorem readBytes_append {n : Nat} (h : i + n ≤ mem.length) :
    readBytes (mem ++ tail) i n = readBytes mem i n := by
  rw [readBytes_eq h, readBytes_eq (by rw [List.length_append]; omega), octets_append tail h]

end append

/-! Pointers with a length. -/

/-- A pointer into a buffer, and how many bytes it may be followed for. -/
structure Span where
  start : Nat
  len : Nat
  deriving DecidableEq

namespace Span

/-- `data + n` with the length `length - n` of 32 bits. -/
def advance (s : Span) (n : Nat) : Span := ⟨s.start + n, u32 (s.len + (2 ^ 32 - n))⟩

def bytes (s : Span) (mem : List UInt8) : List UInt8 := (mem.drop s.start).take s.len

def Within (s t : Span) : Prop := t.start ≤ s.start ∧ s.start + s.len ≤ t.start + t.len

/-- The bytes are there, and the length is one of 32 bits. -/
structure Fits (s : Span) (mem : List UInt8) : Prop where
  bound : s.start + s.len ≤ mem.length
  len : s.len < 2 ^ 32

theorem Within.fits {s t : Span} {mem : List UInt8} (h : s.Within t) (ht : t.Fits mem) :
    s.Fits mem := by
  obtain ⟨hstart, hend⟩ := h
  have hb := ht.bound
  have hl := ht.len
  exact ⟨by omega, by omega⟩

theorem Fits.length_bytes {s : Span} {mem : List UInt8} (h : s.Fits mem) :
    (s.bytes mem).length = s.len := by
  have hb := h.bound
  rw [bytes, List.length_take, List.length_drop]
  omega

theorem advance_eq {s : Span} {n : Nat} (hn : n ≤ s.len) (hs : s.len < 2 ^ 32) :
    s.advance n = ⟨s.start + n, s.len - n⟩ := by
  have hu : u32 (s.len + (2 ^ 32 - n)) = s.len - n := by
    rw [u32, show s.len + (2 ^ 32 - n) = s.len - n + 2 ^ 32 by omega, Nat.add_mod_right]
    exact Nat.mod_eq_of_lt (by omega)
  rw [advance, hu]

def grow (s : Span) (n : Nat) : Span := ⟨s.start, s.len + n⟩

theorem advance_grow {s : Span} {n k : Nat} (hn : n ≤ s.len) (hs : s.len + k < 2 ^ 32) :
    (s.grow k).advance n = (s.advance n).grow k := by
  have hgrow : n ≤ (s.grow k).len := Nat.le_add_right_of_le hn
  rw [advance_eq hgrow hs, advance_eq hn (by omega)]
  simp only [grow, mk.injEq, true_and]
  omega

theorem advance_within {s : Span} {n : Nat} (hn : n ≤ s.len) (hs : s.len < 2 ^ 32) :
    (s.advance n).Within s := by
  rw [advance_eq hn hs]
  exact ⟨by simp, by simp; omega⟩

end Span
end MyWireshark.Bytes
