import MyWireshark.Lib.Bytes
import Mathlib.Data.Nat.ModEq
import Mathlib.Data.Set.Insert

/-! Sums of 16-bit words with end-around carry: what the carry preserves, which numbers it
takes to all ones, and how the sum depends on a single word. -/
namespace MyWireshark.OnesComplement

section carry
variable {b : Nat}

/-- In base `b`, the lowest digit plus all of the number above it. -/
def endAround (b n : Nat) : Nat := n % b + n / b

theorem endAround_modEq (hb : 0 < b) (n : Nat) : endAround b n ≡ n [MOD b - 1] := by
  have hone : 1 ≡ b [MOD b - 1] := (Nat.modEq_iff_dvd' hb).mpr (dvd_refl _)
  calc endAround b n = n % b + 1 * (n / b) := by rw [endAround, Nat.one_mul]
    _ ≡ n % b + b * (n / b) [MOD b - 1] := (hone.mul_right _).add_left _
    _ = n := Nat.mod_add_div n b

theorem endAround_of_lt {n : Nat} (h : n < b) : endAround b n = n := by
  rw [endAround, Nat.mod_eq_of_lt h, Nat.div_eq_of_lt h, Nat.add_zero]

theorem endAround_lt {n : Nat} (hb : 1 < b) (h : b ≤ n) : endAround b n < n := by
  have hq : 0 < n / b := Nat.div_pos h (by omega)
  calc endAround b n = n % b + 1 * (n / b) := by rw [endAround, Nat.one_mul]
    _ < n % b + b * (n / b) := Nat.add_lt_add_left (Nat.mul_lt_mul_of_pos_right hb hq) _
    _ = n := Nat.mod_add_div n b

theorem endAround_pos {n : Nat} (hn : 0 < n) : 0 < endAround b n := by
  refine Nat.pos_of_ne_zero fun h => hn.ne' ?_
  obtain ⟨hmod, hdiv⟩ := Nat.add_eq_zero_iff.mp h
  rw [← Nat.mod_add_div n b, hmod, hdiv, Nat.mul_zero]

theorem eq_pred_iff {n : Nat} (hb : 1 < b) (hn : n < b) :
    n = b - 1 ↔ 0 < n ∧ b - 1 ∣ n := by
  constructor
  · rintro rfl
    exact ⟨by omega, dvd_refl _⟩
  · rintro ⟨hpos, hdvd⟩
    have := Nat.le_of_dvd hpos hdvd
    omega

end carry

/-- The big-endian 16-bit words of a byte string added up; a last odd byte is the high
byte of a word. -/
def wordSum : List UInt8 → Nat
  | hi :: lo :: bs => hi.toNat * 256 + lo.toNat + wordSum bs
  | [hi] => hi.toNat * 256
  | [] => 0

theorem wordSum_append {xs : List UInt8} (ys : List UInt8) (h : xs.length % 2 = 0) :
    wordSum (xs ++ ys) = wordSum xs + wordSum ys := by
  fun_induction wordSum xs with
  | case1 hi lo bs ih =>
    simp only [List.length_cons] at h
    rw [List.cons_append, List.cons_append, wordSum, ih (by omega)]
    omega
  | case2 hi => cases h
  | case3 => simp

/-- The words of a byte string that goes on behind `n` bytes: the words begin at even offsets of the
whole. -/
def wordSumFrom (n : Nat) (bs : List UInt8) : Nat := wordSum (if n % 2 = 0 then bs else 0 :: bs)

theorem wordSum_append_from (xs ys : List UInt8) :
    wordSum (xs ++ ys) = wordSum xs + wordSumFrom xs.length ys := by
  unfold wordSumFrom
  fun_induction wordSum xs with
  | case1 hi lo bs ih =>
    have hparity : (hi :: lo :: bs).length % 2 = bs.length % 2 := by
      simp only [List.length_cons]
      omega
    rw [List.cons_append, List.cons_append, wordSum, ih, hparity]
    omega
  | case2 hi =>
    cases ys with
    | nil => simp [wordSum]
    | cons lo ys => simp [wordSum, Nat.add_assoc]
  | case3 => simp

theorem wordSum_le (bs : List UInt8) : wordSum bs ≤ 65535 * ((bs.length + 1) / 2) := by
  fun_induction wordSum bs with
  | case1 hi lo bs ih =>
    have hhi := hi.toNat_lt
    have hlo := lo.toNat_lt
    simp only [List.length_cons]
    omega
  | case2 hi =>
    have hhi := hi.toNat_lt
    simp only [List.length_singleton]
    omega
  | case3 => simp

/-! One word of a byte string. -/

def wordAt (bs : List UInt8) (i : Nat) : UInt16 :=
  .ofNat ((bs.getD i 0).toNat * 256 + (bs.getD (i + 1) 0).toNat)

def putWord (bs : List UInt8) (i : Nat) (w : UInt16) : List UInt8 :=
  (bs.set i (.ofNat (w.toNat / 256))).set (i + 1) (.ofNat w.toNat)

@[simp] theorem length_putWord (bs : List UInt8) (i : Nat) (w : UInt16) :
    (putWord bs i w).length = bs.length := by
  simp [putWord]

theorem putWord_append (xs : List UInt8) (a b : UInt8) (ys : List UInt8) (w : UInt16) :
    putWord (xs ++ a :: b :: ys) xs.length w =
      xs ++ .ofNat (w.toNat / 256) :: .ofNat w.toNat :: ys := by
  simp [putWord]

theorem exists_split {bs : List UInt8} {i : Nat} (h : i + 1 < bs.length) :
    ∃ xs a b ys, bs = xs ++ a :: b :: ys ∧ xs.length = i := by
  refine ⟨bs.take i, bs[i], bs[i + 1], bs.drop (i + 2), ?_, by simp; omega⟩
  rw [← List.drop_eq_getElem_cons, ← List.drop_eq_getElem_cons, List.take_append_drop]

theorem putWord_wordAt {bs : List UInt8} {i : Nat} (h : i + 1 < bs.length) :
    putWord bs i (wordAt bs i) = bs := by
  obtain ⟨xs, a, b, ys, rfl, rfl⟩ := exists_split h
  have ha := a.toNat_lt
  have hb := b.toNat_lt
  have hw : wordAt (xs ++ a :: b :: ys) xs.length = .ofNat (a.toNat * 256 + b.toNat) := by
    simp [wordAt]
  have hhi : UInt8.ofNat ((a.toNat * 256 + b.toNat) % 2 ^ 16 / 256) = a := by
    rw [← UInt8.toNat_inj, UInt8.toNat_ofNat']
    omega
  have hlo : UInt8.ofNat ((a.toNat * 256 + b.toNat) % 2 ^ 16) = b := by
    rw [← UInt8.toNat_inj, UInt8.toNat_ofNat']
    omega
  rw [putWord_append, hw, UInt16.toNat_ofNat', hhi, hlo]

theorem wordSum_putWord {bs : List UInt8} {i : Nat} (heven : i % 2 = 0) (h : i + 1 < bs.length) :
    ∃ rest, ∀ w, wordSum (putWord bs i w) = rest + w.toNat := by
  obtain ⟨xs, a, b, ys, rfl, rfl⟩ := exists_split h
  refine ⟨wordSum xs + wordSum ys, fun w => ?_⟩
  have hw := w.toNat_lt
  rw [putWord_append, wordSum_append _ heven, wordSum, UInt8.toNat_ofNat', UInt8.toNat_ofNat']
  omega

/-- The words that complete a sum to a multiple of 65535. -/
theorem completing_words (rest : Nat) :
    (∃ v : UInt16, v ≠ 0 ∧ v ≠ 0xFFFF ∧ {w : UInt16 | 65535 ∣ rest + w.toNat} = {v}) ∨
      {w : UInt16 | 65535 ∣ rest + w.toNat} = {0, 0xFFFF} := by
  have hzero : (0 : UInt16).toNat = 0 := rfl
  have hones : (0xFFFF : UInt16).toNat = 65535 := rfl
  by_cases hrest : rest % 65535 = 0
  · right
    ext w
    have hw := w.toNat_lt
    rw [Set.mem_ofPred_eq, Set.mem_insert_iff, Set.mem_singleton_iff, ← UInt16.toNat_inj,
      ← UInt16.toNat_inj, hzero, hones]
    omega
  · left
    have hv : (UInt16.ofNat (65535 - rest % 65535)).toNat = 65535 - rest % 65535 := by
      rw [UInt16.toNat_ofNat']
      omega
    refine ⟨.ofNat (65535 - rest % 65535), ?_, ?_, ?_⟩
    · rw [Ne, ← UInt16.toNat_inj, hv, hzero]
      omega
    · rw [Ne, ← UInt16.toNat_inj, hv, hones]
      omega
    · ext w
      have hw := w.toNat_lt
      rw [Set.mem_ofPred_eq, Set.mem_singleton_iff, ← UInt16.toNat_inj, hv]
      omega

end MyWireshark.OnesComplement
