import MyWireshark.Lib.Monitor
import Mathlib.Algebra.Order.BigOperators.Group.Finset
import Mathlib.Data.Fintype.BigOperators

/-! How much work the threads of a monitor have before them. Every step of an operation does
some of it; only a call, or a wake-up that nobody caused, makes more. -/
namespace MyWireshark.Monitor
open Finset

section
variable {ι κ σ χ ρ : Type}

/-- The steps that a notification can cause among `n` threads: its own, and for each waiter that
it wakes the two on the way back to the wait set. -/
def Wake.weight (n : Nat) : Wake χ → Nat
  | .one _ => 3
  | .all _ => 2 * n + 1

def wakesWeight (n : Nat) : List (Wake χ) → Nat
  | [] => 0
  | w :: wakes => w.weight n + wakesWeight n wakes

/-- The work of a thread, where the notifications of one critical section weigh at most
`bound`. -/
def Pc.weight (n bound : Nat) : Pc κ χ ρ → Nat
  | .out _ => 0
  | .lock _ => bound + 5
  | .held _ => bound + 4
  | .wait .. => bound + 3
  | .leave wakes _ => wakesWeight n wakes + 2
  | .notify wakes _ => wakesWeight n wakes + 1

@[simp] theorem wakesWeight_nil (n : Nat) : wakesWeight n ([] : List (Wake χ)) = 0 := rfl

@[simp] theorem wakesWeight_cons (n : Nat) (w : Wake χ) (wakes : List (Wake χ)) :
    wakesWeight n (w :: wakes) = w.weight n + wakesWeight n wakes := rfl

variable [DecidableEq χ]

theorem Pc.weight_woken (n bound : Nat) (c : χ) (pc : Pc κ χ ρ) :
    (pc.woken c).weight n bound ≤ pc.weight n bound + 2 := by
  cases pc with
  | wait op c' =>
    by_cases hc : c' = c
    · simp [Pc.woken, Pc.weight, hc]
    · simp [Pc.woken, Pc.weight, hc]
  | _ => exact Nat.le_add_right _ _

variable [Fintype ι]

def State.work (bound : Nat) (s : State ι κ σ χ ρ) : Nat :=
  ∑ i, (s.pc i).weight (Fintype.card ι) bound

variable [DecidableEq ι] {bound : Nat} {s t : State ι κ σ χ ρ}

omit [DecidableEq χ] in
theorem State.work_goto (bound : Nat) (s : State ι κ σ χ ρ) (i : ι) (pc : Pc κ χ ρ) :
    (s.goto i pc).work bound + (s.pc i).weight (Fintype.card ι) bound =
      s.work bound + pc.weight (Fintype.card ι) bound := by
  have hrest : ∑ j ∈ univ.erase i, ((s.goto i pc).pc j).weight (Fintype.card ι) bound =
      ∑ j ∈ univ.erase i, (s.pc j).weight (Fintype.card ι) bound :=
    sum_congr rfl fun j hj => by rw [State.goto_other s pc (ne_of_mem_erase hj)]
  unfold State.work
  rw [← add_sum_erase univ _ (mem_univ i), ← add_sum_erase univ (fun j => (s.pc j).weight _ _)
    (mem_univ i), hrest, State.goto_self]
  omega

omit [DecidableEq χ] in
theorem State.work_goto_lt {i : ι} {pc : Pc κ χ ρ}
    (h : pc.weight (Fintype.card ι) bound < (s.pc i).weight (Fintype.card ι) bound) :
    (s.goto i pc).work bound < s.work bound := by
  have hsum := s.work_goto bound i pc
  omega

theorem State.work_wakeAll {i : ι} {c : χ} {wakes : List (Wake χ)} {result : ρ}
    (h : s.pc i = .notify (.all c :: wakes) result) :
    ({ s with pc := fun j => if j = i then .notify wakes result else (s.pc j).woken c } :
      State ι κ σ χ ρ).work bound < s.work bound := by
  have hothers : ∑ j ∈ univ.erase i, (if j = i then (.notify wakes result : Pc κ χ ρ)
        else (s.pc j).woken c).weight (Fintype.card ι) bound ≤
      ∑ j ∈ univ.erase i, ((s.pc j).weight (Fintype.card ι) bound + 2) :=
    sum_le_sum fun j hj => by
      rw [if_neg (ne_of_mem_erase hj)]
      exact Pc.weight_woken _ _ c (s.pc j)
  have hcard : (univ.erase i).card ≤ Fintype.card ι := card_le_univ _
  unfold State.work
  dsimp only
  rw [← add_sum_erase univ _ (mem_univ i), ← add_sum_erase univ (fun j => (s.pc j).weight _ _)
    (mem_univ i), if_pos rfl, h]
  rw [sum_add_distrib, sum_const_nat fun _ _ => rfl] at hothers
  have hown : (.notify (.all c :: wakes) result : Pc κ χ ρ).weight (Fintype.card ι) bound =
      (.notify wakes result : Pc κ χ ρ).weight (Fintype.card ι) bound +
        (2 * Fintype.card ι + 1) := by
    simp only [Pc.weight, wakesWeight_cons, Wake.weight]
    omega
  omega

variable {enter : κ → σ → Section σ χ ρ}

theorem Run.work_lt {i : ι} (hbound : ∀ op d d' wakes result,
      enter op d = .done d' wakes result → wakesWeight (Fintype.card ι) wakes ≤ bound)
    (h : Run enter i s t) : t.work bound < s.work bound := by
  cases h with
  | acquire h hfree =>
    exact State.work_goto_lt (by rw [h]; simp [Pc.weight])
  | wait h hsec =>
    exact State.work_goto_lt (by rw [h]; simp [Pc.weight])
  | @act op data wakes result h hsec =>
    have hwakes := hbound _ _ _ _ _ hsec
    exact State.work_goto_lt (by rw [h]; simp only [Pc.weight]; omega)
  | unlock h =>
    exact State.work_goto_lt (by rw [h]; simp [Pc.weight])
  | @wakeOne c wakes result j op h hj =>
    have hself := s.work_goto bound i (.notify wakes result)
    have hother := (s.goto i (.notify wakes result)).work_goto bound j (.lock op)
    have hji : j ≠ i := by
      rintro rfl
      simp [h] at hj
    rw [State.goto_other s _ hji, hj] at hother
    rw [h] at hself
    simp only [Pc.weight, wakesWeight_cons, Wake.weight] at hself hother
    omega
  | wakeNone h hnone =>
    exact State.work_goto_lt (by rw [h]; simp [Pc.weight, Wake.weight])
  | wakeAll h => exact State.work_wakeAll h
  | ret h => exact State.work_goto_lt (by rw [h]; simp [Pc.weight])

omit [DecidableEq χ] in
theorem Call.work {i : ι} {op : κ} (h : Call i op s t) (bound : Nat) :
    t.work bound = s.work bound + (bound + 5) := by
  obtain ⟨hpc⟩ := h
  have hsum := s.work_goto bound i (.lock op)
  rw [hpc] at hsum
  simpa [Pc.weight] using hsum

omit [DecidableEq χ] in
theorem Spurious.work (h : Spurious s t) (bound : Nat) : t.work bound = s.work bound + 2 := by
  obtain @⟨j, op, c, hpc⟩ := h
  have hsum := s.work_goto bound j (.lock op)
  rw [hpc] at hsum
  simp only [Pc.weight] at hsum
  omega

end
end MyWireshark.Monitor
