import Mathlib.Data.Nat.Basic

/-! Deterministic machines that are run for a bounded number of steps, and code laid out
in a program at a given address. -/
namespace MyWireshark.Machine
variable {σ ρ ι : Type}

/-- Run until a step gives a result; out of fuel, the result is `d`. -/
def run (step : σ → ρ ⊕ σ) (d : ρ) : Nat → σ → ρ
  | 0, _ => d
  | n + 1, s =>
    match step s with
    | .inl r => r
    | .inr s' => run step d n s'

inductive Steps (step : σ → ρ ⊕ σ) : Nat → σ → σ → Prop where
  | zero (s : σ) : Steps step 0 s s
  | succ {n : Nat} {s t u : σ} : step s = .inr t → Steps step n t u → Steps step (n + 1) s u

variable {step : σ → ρ ⊕ σ} {d : ρ}

theorem Steps.trans {n m : Nat} {s t u : σ} (h : Steps step n s t) (h' : Steps step m t u) :
    Steps step (n + m) s u := by
  induction h with
  | zero s => simpa using h'
  | @succ n s t u hst _ ih =>
    rw [Nat.add_right_comm]
    exact .succ hst (ih h')

theorem run_steps {n : Nat} {s t : σ} (h : Steps step n s t) (k : Nat) :
    run step d (n + k) s = run step d k t := by
  induction h with
  | zero s => rw [Nat.zero_add]
  | @succ n s t u hst _ ih =>
    rw [Nat.add_right_comm, run, hst]
    exact ih

theorem run_of_steps {n fuel : Nat} {s t : σ} {r : ρ} (h : Steps step n s t)
    (ht : step t = .inl r) (hn : n < fuel) : run step d fuel s = r := by
  obtain ⟨k, rfl⟩ : ∃ k, fuel = n + (k + 1) := ⟨fuel - n - 1, by omega⟩
  rw [run_steps h, run, ht]

/-- A machine that only goes forward, and not beyond `n`, stops: the steps before that are not
more than the way it went. -/
theorem exists_stop {pc : σ → Nat} {n : Nat}
    (hforward : ∀ s t, pc s < n → step s = .inr t → pc s < pc t ∧ pc t < n) (s : σ)
    (hs : pc s < n) :
    ∃ k t r, Steps step k s t ∧ pc s + k ≤ pc t ∧ pc t < n ∧ step t = .inl r := by
  obtain ⟨m, hm⟩ : ∃ m, n ≤ pc s + m := ⟨n, by omega⟩
  induction m generalizing s with
  | zero => omega
  | succ m ih =>
    cases hstep : step s with
    | inl r => exact ⟨0, s, r, .zero s, Nat.le_refl _, hs, hstep⟩
    | inr t =>
      obtain ⟨hlt, ht⟩ := hforward s t hs hstep
      obtain ⟨k, u, r, hsteps, hk, hu, hstop⟩ := ih t ht (by omega)
      exact ⟨k + 1, u, r, .succ hstep hsteps, by omega, hu, hstop⟩

def CodeAt (prog : List ι) (pc : Nat) (code : List ι) : Prop :=
  ∃ before after, prog = before ++ code ++ after ∧ before.length = pc

variable {prog code code' : List ι} {pc : Nat}

theorem CodeAt.left (h : CodeAt prog pc (code ++ code')) : CodeAt prog pc code := by
  obtain ⟨before, after, rfl, rfl⟩ := h
  exact ⟨before, code' ++ after, by simp, rfl⟩

theorem CodeAt.right (h : CodeAt prog pc (code ++ code')) :
    CodeAt prog (pc + code.length) code' := by
  obtain ⟨before, after, rfl, rfl⟩ := h
  exact ⟨before ++ code, after, by simp, by simp⟩

theorem CodeAt.head {i : ι} (h : CodeAt prog pc (i :: code)) : prog[pc]? = some i := by
  obtain ⟨before, after, rfl, rfl⟩ := h
  simp

end MyWireshark.Machine
