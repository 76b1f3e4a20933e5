import Mathlib.Data.Nat.ModEq
import Mathlib.Logic.Function.Basic

/-! A ring of slots, each owned by a producer or by a consumer, seen as a queue. -/
namespace MyWireshark.RingBuffer

section
variable {n base j k : Nat}

theorem offset_inj (hj : j < n) (hk : k < n) (h : (base + j) % n = (base + k) % n) : j = k := by
  have hmod : j ≡ k [MOD n] := Nat.ModEq.add_left_cancel' base h
  have hj' : j % n = j := Nat.mod_eq_of_lt hj
  have hk' : k % n = k := Nat.mod_eq_of_lt hk
  rw [← hj', ← hk']
  exact hmod

theorem offset_zero (hb : base < n) : (base + 0) % n = base := Nat.mod_eq_of_lt hb

theorem offset_succ : ((base + 1) % n + j) % n = (base + (j + 1)) % n := by
  rw [Nat.mod_add_mod, Nat.add_assoc, Nat.add_comm 1 j]

theorem offset_ne (hb : base < n) (hj : 0 < j) (hn : j < n) : (base + j) % n ≠ base := by
  intro heq
  have hzero := offset_inj hn (Nat.lt_trans hj hn) (heq.trans (offset_zero hb).symm)
  omega

end

section
variable {α β : Type} {n : Nat} {slot : Nat → β} {Full : α → β → Prop} {Free : β → Prop}
  {base tail k : Nat} {items : List α} {x : α} {b : β}

/-- The consumer is at `base`, the producer at `tail`, and the slots from the one to the
other are full with the items of the queue. All the other slots are free. -/
structure Window (n : Nat) (slot : Nat → β) (Full : α → β → Prop) (Free : β → Prop)
    (base tail : Nat) (items : List α) : Prop where
  base_lt : base < n
  size : items.length ≤ n
  tail_eq : tail = (base + items.length) % n
  full : ∀ j (h : j < items.length), Full items[j] (slot ((base + j) % n))
  free : ∀ j, items.length ≤ j → j < n → Free (slot ((base + j) % n))

namespace Window

theorem start (hn : 0 < n) (h : ∀ k, Free (slot k)) : Window n slot Full Free 0 0 [] where
  base_lt := hn
  size := Nat.zero_le n
  tail_eq := (Nat.mod_eq_of_lt hn).symm
  full j hj := absurd hj (Nat.not_lt_zero j)
  free _ _ _ := h _

theorem head (h : Window n slot Full Free base tail (x :: items)) : Full x (slot base) := by
  have hfull := h.full 0 (Nat.zero_lt_succ _)
  rw [offset_zero h.base_lt] at hfull
  exact hfull

/-- A consumer that finds its slot free has taken everything. -/
theorem empty_of_free (h : Window n slot Full Free base tail items)
    (hexcl : ∀ x b, Full x b → ¬Free b) (hfree : Free (slot base)) : items = [] := by
  cases items with
  | nil => rfl
  | cons x items => exact absurd hfree (hexcl x _ h.head)

theorem scribble (h : Window n slot Full Free base tail items)
    (hexcl : ∀ x b, Full x b → ¬Free b) (hk : Free (slot k)) (hb : Free b) :
    Window n (Function.update slot k b) Full Free base tail items where
  base_lt := h.base_lt
  size := h.size
  tail_eq := h.tail_eq
  full j hj := by
    have hfull := h.full j hj
    have hne : (base + j) % n ≠ k := by
      intro heq
      rw [heq] at hfull
      exact hexcl _ _ hfull hk
    rw [Function.update_of_ne hne]
    exact hfull
  free j hj hn := by
    by_cases heq : (base + j) % n = k
    · rw [heq, Function.update_self]
      exact hb
    · rw [Function.update_of_ne heq]
      exact h.free j hj hn

theorem room (h : Window n slot Full Free base tail items)
    (hexcl : ∀ x b, Full x b → ¬Free b) (hfree : Free (slot tail)) : items.length < n := by
  by_contra hge
  have hlen : items.length = n := Nat.le_antisymm h.size (Nat.le_of_not_lt hge)
  -- a ring that is full has its tail at its base
  have htail : tail = base := by
    rw [h.tail_eq, hlen, Nat.add_mod_right, Nat.mod_eq_of_lt h.base_lt]
  rw [htail] at hfree
  have hnil := h.empty_of_free hexcl hfree
  have := h.base_lt
  rw [hnil] at hlen
  simp at hlen
  omega

theorem push (h : Window n slot Full Free base tail items)
    (hexcl : ∀ x b, Full x b → ¬Free b) (hfree : Free (slot tail)) (hx : Full x b) :
    Window n (Function.update slot tail b) Full Free base ((tail + 1) % n) (items ++ [x]) := by
  have hroom := h.room hexcl hfree
  refine ⟨h.base_lt, ?_, ?_, fun j hj => ?_, fun j hj hn => ?_⟩
  · rw [List.length_append, List.length_singleton]
    exact hroom
  · rw [h.tail_eq, List.length_append, List.length_singleton, Nat.mod_add_mod, Nat.add_assoc]
  · rw [h.tail_eq]
    by_cases hlast : j = items.length
    · subst hlast
      rw [Function.update_self, List.getElem_concat_length rfl]
      exact hx
    · have hj' : j < items.length := by
        rw [List.length_append, List.length_singleton] at hj
        omega
      have hne : (base + j) % n ≠ (base + items.length) % n := fun heq =>
        hlast (offset_inj (Nat.lt_trans hj' hroom) hroom heq)
      rw [Function.update_of_ne hne, List.getElem_append_left hj']
      exact h.full j hj'
  · rw [List.length_append, List.length_singleton] at hj
    have hne : (base + j) % n ≠ tail := by
      intro heq
      rw [h.tail_eq] at heq
      have := offset_inj hn hroom heq
      omega
    rw [Function.update_of_ne hne]
    exact h.free j (by omega) hn

theorem pop (h : Window n slot Full Free base tail (x :: items)) (hb : Free b) :
    Window n (Function.update slot base b) Full Free ((base + 1) % n) tail items := by
  have hlt := h.base_lt
  have hsize := h.size
  rw [List.length_cons] at hsize
  refine ⟨Nat.mod_lt _ (by omega), by omega, ?_, fun j hj => ?_, fun j hj hn => ?_⟩
  · rw [offset_succ, h.tail_eq, List.length_cons]
  · rw [offset_succ]
    rw [Function.update_of_ne (offset_ne hlt (Nat.succ_pos j) (by omega))]
    exact h.full (j + 1) (by simpa using hj)
  · rw [offset_succ]
    by_cases hlast : j + 1 = n
    · -- the slot just given back is now the last one
      rw [hlast, Nat.add_mod_right, Nat.mod_eq_of_lt hlt, Function.update_self]
      exact hb
    · rw [Function.update_of_ne (offset_ne hlt (Nat.succ_pos j) (by omega))]
      exact h.free (j + 1) (by simpa using hj) (by omega)

end Window
end
end MyWireshark.RingBuffer
