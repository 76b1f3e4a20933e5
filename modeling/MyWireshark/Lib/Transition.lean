import Mathlib.Logic.Relation

/-! Transition systems, the states they reach, and the induction rules for them. -/
namespace MyWireshark.Transition

structure System (σ : Type) where
  init : σ → Prop
  step : σ → σ → Prop

namespace System
variable {σ : Type} (S : System σ) {s t u : σ} {P : σ → Prop}

def Reaches : σ → σ → Prop := Relation.ReflTransGen S.step

inductive Reachable : σ → Prop where
  | init {s : σ} (h : S.init s) : Reachable s
  | step {s t : σ} (h : Reachable s) (hst : S.step s t) : Reachable t

def restrict (ok : σ → σ → Prop) : System σ := ⟨S.init, fun s t => S.step s t ∧ ok s t⟩

variable {S}

/-- The invariant rule. The state before a step may be taken to be reachable. -/
theorem Reachable.invariant (h : S.Reachable s) (hinit : ∀ s, S.init s → P s)
    (hstep : ∀ s t, S.Reachable s → P s → S.step s t → P t) : P s := by
  induction h with
  | init h => exact hinit _ h
  | step h hst ih => exact hstep _ _ h ih hst

/-- What holds now and survives every step holds from now on. -/
theorem Reaches.stable (h : S.Reaches s t) (hs : P s) (hstep : ∀ s t, P s → S.step s t → P t) :
    P t := by
  induction h with
  | refl => exact hs
  | tail _ hst ih => exact hstep _ _ ih hst

theorem Reachable.reaches (hs : S.Reachable s) (h : S.Reaches s t) : S.Reachable t :=
  h.stable hs fun _ _ hs hst => hs.step hst

/-- A system whose steps are steps of another one reaches only states of that one. -/
theorem Reachable.map {τ : Type} {T : System τ} (f : σ → τ) (h : S.Reachable s)
    (hinit : ∀ s, S.init s → T.init (f s)) (hstep : ∀ s t, S.step s t → T.step (f s) (f t)) :
    T.Reachable (f s) := by
  induction h with
  | init h => exact .init (hinit _ h)
  | step _ hst ih => exact ih.step (hstep _ _ hst)

theorem Reachable.of_restrict {ok : σ → σ → Prop} (h : (S.restrict ok).Reachable s) :
    S.Reachable s :=
  h.map id (fun _ hinit => hinit) fun _ _ hstep => hstep.1

theorem restrict_true : (S.restrict fun _ _ => True) = S := by
  unfold restrict
  simp only [and_true]

/-- As `map`, for a system that also has steps of its own which the other one does not see. -/
theorem Reachable.project {τ : Type} {T : System τ} (f : σ → τ) (h : S.Reachable s)
    (hinit : ∀ s, S.init s → T.init (f s))
    (hstep : ∀ s t, S.step s t → f t = f s ∨ T.step (f s) (f t)) : T.Reachable (f s) := by
  induction h with
  | init h => exact .init (hinit _ h)
  | step _ hst ih =>
    obtain hsame | hmove := hstep _ _ hst
    · rwa [hsame]
    · exact ih.step hmove

end System

/-! Counting steps -/

/-- A run with `n` steps of the kind that is counted and `k` of the kind that may undo some of
their work; the other steps are free. -/
inductive Counted {σ : Type} (own undo free : σ → σ → Prop) (s : σ) : Nat → Nat → σ → Prop where
  | refl : Counted own undo free s 0 0 s
  | own {n k : Nat} {t u : σ} (h : Counted own undo free s n k t) (hst : own t u) :
      Counted own undo free s (n + 1) k u
  | undo {n k : Nat} {t u : σ} (h : Counted own undo free s n k t) (hst : undo t u) :
      Counted own undo free s n (k + 1) u
  | free {n k : Nat} {t u : σ} (h : Counted own undo free s n k t) (hst : free t u) :
      Counted own undo free s n k u

namespace Counted
variable {σ : Type} {own undo free : σ → σ → Prop} {P : σ → Prop} {s t : σ} {n k : Nat}

theorem invariant (h : Counted own undo free s n k t) (hs : P s)
    (hown : ∀ s t, P s → own s t → P t) (hundo : ∀ s t, P s → undo s t → P t)
    (hfree : ∀ s t, P s → free s t → P t) : P t := by
  induction h with
  | refl => exact hs
  | own _ hst ih => exact hown _ _ ih hst
  | undo _ hst ih => exact hundo _ _ ih hst
  | free _ hst ih => exact hfree _ _ ih hst

theorem trans {n' k' : Nat} {u : σ} (h : Counted own undo free s n k t)
    (h' : Counted own undo free t n' k' u) : Counted own undo free s (n + n') (k + k') u := by
  induction h' with
  | refl => exact h
  | own _ hst ih => exact ih.own hst
  | undo _ hst ih => exact ih.undo hst
  | free _ hst ih => exact ih.free hst

theorem reaches {S : System σ}
    (h : Counted S.step (fun _ _ => False) (fun _ _ => False) s n k t) : S.Reaches s t :=
  h.invariant .refl (fun _ _ hs hst => hs.tail hst) (fun _ _ _ => False.elim)
    fun _ _ _ => False.elim

theorem map {τ : Type} {own' undo' free' : τ → τ → Prop} (f : σ → τ)
    (h : Counted own undo free s n k t) (hown : ∀ s t, own s t → own' (f s) (f t))
    (hundo : ∀ s t, undo s t → undo' (f s) (f t)) (hfree : ∀ s t, free s t → free' (f s) (f t)) :
    Counted own' undo' free' (f s) n k (f t) := by
  induction h with
  | refl => exact .refl
  | own _ hst ih => exact ih.own (hown _ _ hst)
  | undo _ hst ih => exact ih.undo (hundo _ _ hst)
  | free _ hst ih => exact ih.free (hfree _ _ hst)

/-- The potential rule: a number that goes down at every counted step, up by at most `c` where
work is undone and never up otherwise, bounds the counted steps. -/
theorem bound {m : σ → Nat} {c : Nat} (h : Counted own undo free s n k t) (hs : P s)
    (hown : ∀ s t, P s → own s t → P t ∧ m t < m s)
    (hundo : ∀ s t, P s → undo s t → P t ∧ m t ≤ m s + c)
    (hfree : ∀ s t, P s → free s t → P t ∧ m t ≤ m s) : n + m t ≤ m s + c * k := by
  have hall : ∀ {n k t}, Counted own undo free s n k t → P t := fun h =>
    h.invariant hs (fun s t hs hst => (hown s t hs hst).1) (fun s t hs hst => (hundo s t hs hst).1)
      fun s t hs hst => (hfree s t hs hst).1
  induction h with
  | refl => omega
  | own h hst ih =>
    have hlt := (hown _ _ (hall h) hst).2
    omega
  | undo h hst ih =>
    have hle := (hundo _ _ (hall h) hst).2
    rw [Nat.mul_succ]
    omega
  | free h hst ih =>
    have hle := (hfree _ _ (hall h) hst).2
    omega

end Counted
end MyWireshark.Transition
