import Mathlib.Data.List.Basic

/-! Text: numbers written out in a base and read back from the left, and words made of fields with a
separator between them. -/
namespace MyWireshark.Digits
variable {b n : Nat}

/-- Induction over a number as it is written: one digit, or one more digit behind a number. -/
theorem toDigits_induction (hb : 1 < b) {motive : Nat → List Char → Prop}
    (single : ∀ d, d < b → motive d [d.digitChar])
    (snoc : ∀ n d, 0 < n → d < b → motive n (Nat.toDigits b n) →
      motive (b * n + d) (Nat.toDigits b n ++ [d.digitChar]))
    (n : Nat) : motive n (Nat.toDigits b n) := by
  induction n using Nat.base_induction b hb with
  | single d hd =>
    rw [Nat.toDigits_of_lt_base hd]
    exact single d hd
  | digit n d hd hn ih =>
    rw [← Nat.toDigits_append_toDigits hb hn hd, Nat.toDigits_of_lt_base hd]
    exact snoc n d hn hd ih

theorem mem_toDigits (hb : 1 < b) {ch : Char} (h : ch ∈ Nat.toDigits b n) :
    ∃ d, d < b ∧ ch = d.digitChar := by
  revert h
  apply toDigits_induction hb (motive := fun _ ds => ch ∈ ds → ∃ d, d < b ∧ ch = d.digitChar)
  · intro d hd hmem
    exact ⟨d, hd, List.mem_singleton.mp hmem⟩
  · intro n d _ hd ih hmem
    cases List.mem_append.mp hmem with
    | inl hold => exact ih hold
    | inr hnew => exact ⟨d, hd, List.mem_singleton.mp hnew⟩

theorem notMem_toDigits (hb : 1 < b) {ch : Char} (h : ∀ d, d < b → ch ≠ d.digitChar) (n : Nat) :
    ch ∉ Nat.toDigits b n := by
  intro hmem
  obtain ⟨d, hd, heq⟩ := mem_toDigits hb hmem
  exact h d hd heq

/-- A reader that takes one more digit as long as the number stays within its bound reads a
number that is within it. -/
theorem foldlM_toDigits (hb : 1 < b) {step : Nat → Char → Option Nat} {bound : Nat}
    (hstep : ∀ v d, d < b → b * v + d ≤ bound → step v d.digitChar = some (b * v + d))
    (hn : n ≤ bound) : (Nat.toDigits b n).foldlM step 0 = some n := by
  revert hn
  apply toDigits_induction hb (motive := fun n ds => n ≤ bound → ds.foldlM step 0 = some n)
  · intro d hd hle
    have hfirst := hstep 0 d hd (by omega)
    rw [Nat.mul_zero, Nat.zero_add] at hfirst
    simp [hfirst]
  · intro n d _ hd ih hle
    have hsmall : n ≤ bound := by
      have hmul : n ≤ b * n := Nat.le_mul_of_pos_left n (by omega)
      omega
    simp [List.foldlM_append, ih hsmall, hstep n d hd hle]

/-- The value of a digit; of the letters only the small ones are digits. -/
def digitValue (c : Char) : Option Nat :=
  if '0' ≤ c ∧ c ≤ '9' then some (c.toNat - '0'.toNat)
  else if 'a' ≤ c ∧ c ≤ 'f' then some (c.toNat - 'a'.toNat + 10)
  else none

def readDigit (b n : Nat) (c : Char) : Option Nat := do
  let d ← digitValue c
  if d < b then some (b * n + d) else none

def readDigits (b : Nat) (text : List Char) : Option Nat :=
  if text = [] then none else text.foldlM (readDigit b) 0

theorem readDigit_digitChar (hb : b ≤ 16) {d : Nat} (hd : d < b) (n : Nat) :
    readDigit b n d.digitChar = some (b * n + d) := by
  have hvalue : ∀ d, d < 16 → digitValue d.digitChar = some d := by decide
  rw [readDigit, hvalue d (by omega), Option.bind_eq_bind, Option.bind_some, if_pos hd]

theorem readDigits_padded (hb : 1 < b) (hb' : b ≤ 16) (k n : Nat) :
    readDigits b (List.replicate k '0' ++ Nat.toDigits b n) = some n := by
  have hzeros : (List.replicate k '0').foldlM (readDigit b) 0 = some 0 := by
    induction k with
    | zero => rfl
    | succ k ih =>
      have hzero := readDigit_digitChar hb' (show 0 < b by omega) 0
      rw [List.replicate_succ, List.foldlM_cons]
      exact (congrArg (Option.bind · _) hzero).trans ih
  have hne : List.replicate k '0' ++ Nat.toDigits b n ≠ [] := by simp [Nat.toDigits_ne_nil]
  rw [readDigits, if_neg hne, List.foldlM_append, hzeros]
  exact foldlM_toDigits hb (fun v d hd _ => readDigit_digitChar hb' hd v) (Nat.le_refl n)

theorem readDigits_toDigits (hb : 1 < b) (hb' : b ≤ 16) (n : Nat) :
    readDigits b (Nat.toDigits b n) = some n := readDigits_padded hb hb' 0 n

end MyWireshark.Digits

namespace MyWireshark.Separated
open Digits

variable {α : Type} {sep : α}

theorem exists_fields [DecidableEq α] (sep : α) (word : List α) :
    ∃ fields, fields ≠ [] ∧ (∀ f ∈ fields, sep ∉ f) ∧ word = [sep].intercalate fields := by
  induction word with
  | nil => exact ⟨[[]], by simp, by simp, rfl⟩
  | cons c word ih =>
    obtain ⟨fields, hne, hsep, rfl⟩ := ih
    obtain ⟨f, fs, rfl⟩ := List.exists_cons_of_ne_nil hne
    by_cases hc : c = sep
    · refine ⟨[] :: f :: fs, by simp, ?_, ?_⟩
      · intro x hx
        obtain rfl | hx := List.mem_cons.mp hx
        · exact List.not_mem_nil
        · exact hsep x hx
      · rw [List.intercalate_cons_cons, hc]
        rfl
    · refine ⟨(c :: f) :: fs, by simp, ?_, ?_⟩
      · intro x hx
        obtain rfl | hx := List.mem_cons.mp hx
        · have hf := hsep f List.mem_cons_self
          simp [hf, Ne.symm hc]
        · exact hsep x (List.mem_cons_of_mem f hx)
      · cases fs with
        | nil => simp
        | cons g gs => simp [List.intercalate_cons_cons]

theorem intercalate_concat {fields : List (List α)} (hne : fields ≠ []) :
    [sep].intercalate fields ++ [sep] = fields.flatMap fun f => f ++ [sep] := by
  induction fields with
  | nil => exact absurd rfl hne
  | cons f fields ih =>
    cases fields with
    | nil => simp
    | cons g fields =>
      rw [List.intercalate_cons_cons, List.append_assoc, ih (List.cons_ne_nil g fields)]
      simp

theorem sep_mem_intercalate {fields : List (List α)} (h : 2 ≤ fields.length) :
    sep ∈ [sep].intercalate fields := by
  match fields, h with
  | f :: g :: fields, _ => simp [List.intercalate_cons_cons]

theorem mem_intercalate {c : α} {fields : List (List α)}
    (h : c ∈ [sep].intercalate fields) : c = sep ∨ ∃ w ∈ fields, c ∈ w := by
  induction fields with
  | nil => cases h
  | cons w fields ih =>
    cases fields with
    | nil =>
      rw [List.intercalate_singleton] at h
      exact .inr ⟨w, List.mem_cons_self, h⟩
    | cons g fields =>
      rw [List.intercalate_cons_cons, List.append_assoc, List.mem_append, List.singleton_append,
        List.mem_cons] at h
      obtain hw | rfl | hrest := h
      · exact .inr ⟨w, List.mem_cons_self, hw⟩
      · exact .inl rfl
      · obtain hsep | ⟨x, hx, hc⟩ := ih hrest
        · exact .inl hsep
        · exact .inr ⟨x, List.mem_cons_of_mem w hx, hc⟩

def readFields (sep : Char) (b : Nat) (text : List Char) : Option (List Nat) :=
  (text.splitOn sep).mapM (readDigits b)

theorem readFields_intercalate {sep : Char} {b : Nat} {write : Nat → List Char} {ns : List Nat}
    (hne : ns ≠ []) (hsep : ∀ n ∈ ns, sep ∉ write n)
    (hread : ∀ n ∈ ns, readDigits b (write n) = some n) :
    readFields sep b ([sep].intercalate (ns.map write)) = some ns := by
  have hfields : ∀ f ∈ ns.map write, sep ∉ f := by
    intro f hf
    obtain ⟨n, hn, rfl⟩ := List.mem_map.mp hf
    exact hsep n hn
  rw [readFields, List.splitOn_intercalate sep hfields (by simpa using hne)]
  clear hne hsep hfields
  induction ns with
  | nil => rfl
  | cons n ns ih =>
    rw [List.map_cons, List.mapM_cons, hread n List.mem_cons_self,
      ih fun m hm => hread m (List.mem_cons_of_mem n hm)]
    rfl

theorem length_intercalate_le {fields : List (List α)} {n : Nat} (hne : fields ≠ [])
    (h : ∀ w ∈ fields, w.length ≤ n) :
    ([sep].intercalate fields).length + 1 ≤ (n + 1) * fields.length := by
  induction fields with
  | nil => exact absurd rfl hne
  | cons w fields ih =>
    have hw := h w List.mem_cons_self
    cases fields with
    | nil => simpa using hw
    | cons g fields =>
      have hrest := ih (List.cons_ne_nil _ _) fun x hx => h x (List.mem_cons_of_mem w hx)
      simp only [List.intercalate_cons_cons, List.length_append, List.length_cons, List.length_nil,
        Nat.mul_add] at hrest ⊢
      omega

def terminated (sep : α) (fields : List (List α)) : List α := fields.flatMap fun f => f ++ [sep]

@[simp] theorem terminated_cons (f : List α) (fields : List (List α)) :
    terminated sep (f :: fields) = f ++ sep :: terminated sep fields := by
  simp [terminated]

@[simp] theorem terminated_append (fields fields' : List (List α)) :
    terminated sep (fields ++ fields') = terminated sep fields ++ terminated sep fields' :=
  List.flatMap_append

theorem splitOn_terminated [DecidableEq α] {fields : List (List α)} (h : ∀ f ∈ fields, sep ∉ f) :
    (terminated sep fields).splitOn sep = fields ++ [[]] := by
  induction fields with
  | nil => rfl
  | cons f fields ih =>
    have hf : ∀ x ∈ f, (x == sep) = false := by
      intro x hx
      rw [beq_eq_false_iff_ne]
      rintro rfl
      exact h f List.mem_cons_self hx
    have hrest := ih fun g hg => h g (List.mem_cons_of_mem f hg)
    rw [List.splitOn] at hrest ⊢
    rw [terminated_cons, List.splitOnP_append_cons_of_forall_mem hf sep (beq_self_eq_true sep),
      hrest, List.cons_append]

end MyWireshark.Separated
