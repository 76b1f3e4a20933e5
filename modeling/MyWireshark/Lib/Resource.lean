import Mathlib.Data.List.Basic

/-! Resources that a program takes, uses and gives back. Some of them rest on others: they can only
be taken while those are held, and those can only be given back after them. -/
namespace MyWireshark.Resource

inductive Act (ρ : Type) where
  | acquire (r : ρ)
  | use (r : ρ)
  | release (r : ρ)

variable {ρ : Type} [DecidableEq ρ]

/-- What is held after an act, `none` for a mistake: something is taken twice or without what it
rests on, used without being held, or given back without being held or under what rests on it. -/
def hold (restsOn : ρ → List ρ) (held : List ρ) : Act ρ → Option (List ρ)
  | .acquire r => if r ∉ held ∧ ∀ d ∈ restsOn r, d ∈ held then some (r :: held) else none
  | .use r => if r ∈ held then some held else none
  | .release r => if r ∈ held ∧ ∀ h ∈ held, r ∉ restsOn h then some (held.erase r) else none

variable {restsOn : ρ → List ρ} {held : List ρ} {r : ρ}

theorem hold_use (h : r ∈ held) : hold restsOn held (.use r) = some held := if_pos h

def acquired (r : ρ) (es : List (Act ρ)) : Nat :=
  es.countP fun e => match e with | .acquire r' => r' = r | _ => false

def released (r : ρ) (es : List (Act ρ)) : Nat :=
  es.countP fun e => match e with | .release r' => r' = r | _ => false

/-- In a run without mistakes, what was taken was given back or is still held. -/
theorem acquired_eq {es : List (Act ρ)} {held' : List ρ}
    (h : es.foldlM (hold restsOn) held = some held') (r : ρ) :
    acquired r es + held.count r = released r es + held'.count r := by
  induction es generalizing held with
  | nil =>
    cases h
    simp [acquired, released]
  | cons e es ih =>
    rw [List.foldlM_cons] at h
    obtain ⟨mid, hmid, hrest⟩ := Option.bind_eq_some_iff.mp h
    have hes := ih hrest
    simp only [acquired, released, List.countP_cons] at hes ⊢
    cases e with
    | acquire r' =>
      simp only [hold] at hmid
      split_ifs at hmid
      obtain rfl := Option.some.inj hmid
      rw [List.count_cons] at hes
      simp only [decide_eq_true_eq, beq_iff_eq, Bool.false_eq_true, if_false] at hes ⊢
      omega
    | use r' =>
      simp only [hold] at hmid
      split_ifs at hmid
      obtain rfl := Option.some.inj hmid
      simpa using hes
    | release r' =>
      simp only [hold] at hmid
      split_ifs at hmid with hok
      obtain rfl := Option.some.inj hmid
      have hcount : (held.erase r').count r = held.count r - if r' == r then 1 else 0 :=
        List.count_erase
      have hpos : 0 < held.count r' := List.count_pos_iff.mpr hok.1
      simp only [decide_eq_true_eq, beq_iff_eq, Bool.false_eq_true, if_false] at hes hcount ⊢
      by_cases hr : r' = r
      · subst hr
        simp only [if_true] at hcount ⊢
        omega
      · simp only [hr, if_false] at hcount ⊢
        omega

end MyWireshark.Resource
