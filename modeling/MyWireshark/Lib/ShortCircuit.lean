import MyWireshark.Lib.BoolGrammar
import MyWireshark.Lib.Machine
import Mathlib.Logic.Function.Basic

/-! Branching code for Boolean expressions. Every leaf is straight-line code that ends in
a test with two relative forward jumps, one for each outcome. A jump whose target is not
known yet is left at zero and entered into a list of references; patching the list later
gives the code with the target filled in (`patchAll_refs`), and code with both targets
filled in branches on the value of the expression (`asm_branches`). -/
namespace MyWireshark.ShortCircuit
open BoolGrammar Machine
variable {ι β σ ρ : Type}

/-- The code of the leaves: `loads` and then `test`, whose jumps `patch` overwrites. -/
structure Target (ι β : Type) where
  loads : β → List ι
  test : β → (Bool → Nat) → ι
  patch : Bool → Nat → ι → ι
  patch_test : ∀ b j s o, patch s o (test b j) = test b (Function.update j s o)

variable (T : Target ι β)

/-- Instructions the code of an expression takes; the connectives cost nothing. -/
def Target.size : Expr β → Nat
  | .prim b => (T.loads b).length + 1
  | .neg e => size e
  | .conj l r => size l + size r
  | .disj l r => size l + size r

/-- The jumps of a test at address `pc`: unknown targets are left at zero. -/
def skip (pc : Nat) (lab : Bool → Option Nat) (s : Bool) : Nat :=
  match lab s with
  | none => 0
  | some t => t - (pc + 1)

/-- The code of an expression at address `pc`; `lab s` is the target for outcome `s`. -/
def Target.asm : Expr β → Nat → (Bool → Option Nat) → List ι
  | .prim b, pc, lab => T.loads b ++ [T.test b (skip (pc + (T.loads b).length) lab)]
  | .neg e, pc, lab => asm e pc fun s => lab !s
  | .conj l r, pc, lab =>
    asm l pc (Function.update lab true (some (pc + T.size l))) ++ asm r (pc + T.size l) lab
  | .disj l r, pc, lab =>
    asm l pc (Function.update lab false (some (pc + T.size l))) ++ asm r (pc + T.size l) lab

/-- The tests whose jump for outcome `s` leaves the code of the expression, each with the
side of the test that does. -/
def Target.refs : Expr β → Nat → Bool → List (Nat × Bool)
  | .prim b, pc, s => [(pc + (T.loads b).length, s)]
  | .neg e, pc, s => refs e pc !s
  | .conj l r, pc, s => (if s = true then [] else refs l pc s) ++ refs r (pc + T.size l) s
  | .disj l r, pc, s => (if s = false then [] else refs l pc s) ++ refs r (pc + T.size l) s

def Target.patchAll (t : Nat) (rs : List (Nat × Bool)) (code : List ι) : List ι :=
  rs.foldl (fun code r => code.modify r.1 (T.patch r.2 (t - (r.1 + 1)))) code

def leaves : Expr β → Nat
  | .prim _ => 1
  | .neg e => leaves e
  | .conj l r => leaves l + leaves r
  | .disj l r => leaves l + leaves r

@[simp] theorem Target.asm_length (e : Expr β) (pc : Nat) (lab : Bool → Option Nat) :
    (T.asm e pc lab).length = T.size e := by
  induction e generalizing pc lab with
  | prim b => simp [asm, size]
  | neg e ih => exact ih ..
  | conj l r ihl ihr => simp [asm, size, ihl, ihr]
  | disj l r ihl ihr => simp [asm, size, ihl, ihr]

theorem Target.refs_length (e : Expr β) (pc : Nat) (s : Bool) :
    (T.refs e pc s).length ≤ leaves e := by
  induction e generalizing pc s with
  | prim b => simp [refs, leaves]
  | neg e ih => exact ih ..
  | conj l r ihl ihr | disj l r ihl ihr =>
    have hl := ihl pc s
    have hr := ihr (pc + T.size l) s
    cases s <;> simp [refs, leaves] <;> omega

theorem Target.refs_range (e : Expr β) (pc : Nat) (s : Bool) :
    ∀ r ∈ T.refs e pc s, pc ≤ r.1 ∧ r.1 < pc + T.size e := by
  induction e generalizing pc s with
  | prim b => simp [refs, size]
  | neg e ih => exact ih pc (!s)
  | conj l r ihl ihr | disj l r ihl ihr =>
    intro x hx
    have hl := ihl pc s x
    have hr := ihr (pc + T.size l) s x
    simp only [refs, List.mem_append] at hx
    simp only [size]
    rcases hx with hx | hx
    · have := hl (by cases s <;> simp_all)
      omega
    · have := hr hx
      omega

theorem Target.patchAll_append (t : Nat) (rs rs' : List (Nat × Bool)) (code : List ι) :
    T.patchAll t (rs ++ rs') code = T.patchAll t rs' (T.patchAll t rs code) := by
  simp [patchAll, List.foldl_append]

theorem skip_update (pc t : Nat) (lab : Bool → Option Nat) (s : Bool) :
    skip pc (Function.update lab s (some t)) = Function.update (skip pc lab) s (t - (pc + 1)) := by
  funext x
  by_cases hx : x = s
  · subst hx
    simp [skip]
  · simp [skip, Function.update_of_ne hx]

theorem update_not (lab : Bool → Option Nat) (s : Bool) (v : Option Nat) :
    Function.update (fun x => lab !x) (!s) v = fun x => Function.update lab s v !x := by
  funext x
  cases s <;> cases x <;> simp [Function.update]

theorem modify_middle (f : ι → ι) (before after : List ι) (i : ι) :
    (before ++ i :: after).modify before.length f = before ++ f i :: after := by
  induction before with
  | nil => rfl
  | cons x before ih => simp [ih]

def Target.Patchable (e : Expr β) : Prop :=
  ∀ (t : Nat) (s : Bool) (lab : Bool → Option Nat) (pc : Nat) (before after : List ι),
    before.length = pc →
    T.patchAll t (T.refs e pc s) (before ++ T.asm e pc lab ++ after) =
      before ++ T.asm e pc (Function.update lab s (some t)) ++ after

theorem Target.patchAll_seq (w : Bool) {l r : Expr β} (hl : T.Patchable l) (hr : T.Patchable r)
    (t : Nat) (s : Bool) (lab : Bool → Option Nat) (pc : Nat) (before after : List ι)
    (hpc : before.length = pc) :
    T.patchAll t ((if s = w then [] else T.refs l pc s) ++ T.refs r (pc + T.size l) s)
        (before ++ (T.asm l pc (Function.update lab w (some (pc + T.size l))) ++
          T.asm r (pc + T.size l) lab) ++ after) =
      before ++ (T.asm l pc
          (Function.update (Function.update lab s (some t)) w (some (pc + T.size l))) ++
        T.asm r (pc + T.size l) (Function.update lab s (some t))) ++ after := by
  have hright : ∀ L : List ι, L.length = T.size l →
      T.patchAll t (T.refs r (pc + T.size l) s)
          (before ++ (L ++ T.asm r (pc + T.size l) lab) ++ after) =
        before ++ (L ++ T.asm r (pc + T.size l) (Function.update lab s (some t))) ++ after := by
    intro L hL
    have h := hr t s lab (pc + T.size l) (before ++ L) after (by simp [hpc, hL])
    simpa using h
  by_cases hs : s = w
  · -- the jump of the first operand is its fall-through, which is not on the list
    subst hs
    rw [if_pos rfl, List.nil_append, hright _ (T.asm_length ..), Function.update_idem]
  · have hleft := hl t s (Function.update lab w (some (pc + T.size l))) pc before
      (T.asm r (pc + T.size l) lab ++ after) hpc
    simp only [List.append_assoc] at hleft hright ⊢
    rw [if_neg hs, patchAll_append, hleft, hright _ (T.asm_length ..), Function.update_comm hs]

/-- Patching the references of an expression fills in the target in its code and changes
nothing around it. -/
theorem Target.patchAll_refs (e : Expr β) : T.Patchable e := by
  induction e with
  | prim b =>
    intro t s lab pc before after hpc
    have hlen : pc + (T.loads b).length = (before ++ T.loads b).length := by simp [hpc]
    have hmod := modify_middle (T.patch s (t - (pc + (T.loads b).length + 1)))
      (before ++ T.loads b) after (T.test b (skip (pc + (T.loads b).length) lab))
    rw [← hlen, T.patch_test, ← skip_update] at hmod
    simpa [patchAll, refs, asm] using hmod
  | neg e ih =>
    intro t s lab pc before after hpc
    have h := ih t (!s) (fun x => lab !x) pc before after hpc
    rw [update_not] at h
    exact h
  | conj l r ihl ihr => exact T.patchAll_seq true ihl ihr
  | disj l r ihl ihr => exact T.patchAll_seq false ihl ihr

/-- The instruction `f` at address `a` is a load, or a test that jumps ahead and not beyond the
targets `lab`. -/
def Target.Ahead (lab : Bool → Nat) (a : Nat) (f : ι) : Prop :=
  (∃ b, f ∈ T.loads b) ∨
    ∃ b, ∃ t : Bool → Nat, f = T.test b (fun w => t w - (a + 1)) ∧
      ∀ w, a < t w ∧ ∃ w', t w ≤ lab w'

def Target.Forward (e : Expr β) : Prop :=
  ∀ (pc : Nat) (lab : Bool → Nat) (i : Nat) (f : ι), (∀ w, pc + T.size e ≤ lab w) →
    (T.asm e pc (some ∘ lab))[i]? = some f → T.Ahead lab (pc + i) f

theorem Target.Forward.seq {T : Target ι β} (w : Bool) {l r : Expr β} (hl : T.Forward l)
    (hr : T.Forward r) (pc : Nat) (lab : Bool → Nat) (i : Nat) (f : ι)
    (hlab : ∀ x, pc + (T.size l + T.size r) ≤ lab x)
    (hi : (T.asm l pc (Function.update (some ∘ lab) w (some (pc + T.size l))) ++
      T.asm r (pc + T.size l) (some ∘ lab))[i]? = some f) : T.Ahead lab (pc + i) f := by
  rw [← Function.comp_update] at hi
  by_cases hin : i < T.size l
  · rw [List.getElem?_append_left (by simpa using hin)] at hi
    have hclosed : ∀ x, pc + T.size l ≤ Function.update lab w (pc + T.size l) x := by
      intro x
      by_cases hx : x = w
      · rw [hx, Function.update_self]
      · rw [Function.update_of_ne hx]
        have := hlab x
        omega
    refine (hl pc _ i f hclosed hi).imp_right fun ⟨b, t, hf, ht⟩ => ⟨b, t, hf, fun x => ?_⟩
    obtain ⟨hlt, x', hle⟩ := ht x
    refine ⟨hlt, x', ?_⟩
    by_cases hx : x' = w
    · -- the operand falls through to the other one, which is not beyond the targets either
      rw [hx, Function.update_self] at hle
      have := hlab x'
      omega
    · rwa [Function.update_of_ne hx] at hle
  · rw [List.getElem?_append_right (by simpa using hin), T.asm_length] at hi
    have haddr : pc + T.size l + (i - T.size l) = pc + i := by omega
    have hright := hr (pc + T.size l) lab (i - T.size l) f
      (fun x => by have := hlab x; omega) hi
    rwa [haddr] at hright

theorem Target.asm_forward (e : Expr β) : T.Forward e := by
  induction e with
  | prim b =>
    intro pc lab i f hlab hi
    simp only [size] at hlab
    rw [asm] at hi
    by_cases hin : i < (T.loads b).length
    · rw [List.getElem?_append_left hin] at hi
      exact .inl ⟨b, List.mem_of_getElem? hi⟩
    · have hlast : i = (T.loads b).length := by
        have hlt := (List.getElem?_eq_some_iff.mp hi).1
        rw [List.length_append, List.length_singleton] at hlt
        omega
      subst hlast
      rw [List.getElem?_append_right (Nat.le_refl _), Nat.sub_self] at hi
      refine .inr ⟨b, lab, (Option.some.inj hi).symm, fun w => ⟨?_, w, Nat.le_refl _⟩⟩
      have := hlab w
      omega
  | neg e ih =>
    intro pc lab i f hlab hi
    refine (ih pc (fun w => lab !w) i f (fun w => hlab !w) hi).imp_right ?_
    rintro ⟨b, t, hf, ht⟩
    refine ⟨b, t, hf, fun w => ⟨(ht w).1, ?_⟩⟩
    obtain ⟨w', hle⟩ := (ht w).2
    exact ⟨!w', hle⟩
  | conj l r ihl ihr => exact Forward.seq true ihl ihr
  | disj l r ihl ihr => exact Forward.seq false ihl ihr

/-! Running the code. -/

/-- From state `s` the machine reaches the target of the verdict, or gives `reject`; it
takes at most `n` steps to get there. -/
def Lands (step : σ → ρ ⊕ σ) (pc : σ → Nat) (reject : ρ) (n : Nat) (lab : Bool → Nat) (s : σ) :
    Option Bool → Prop
  | some w => ∃ k t, Steps step k s t ∧ k ≤ n ∧ pc t = lab w
  | none => ∃ k t, Steps step k s t ∧ k < n ∧ step t = .inl reject

/-- The machine runs the code of every leaf as the valuation `v` says. -/
structure Target.Sound (step : List ι → σ → ρ ⊕ σ) (pc : σ → Nat) (reject : ρ)
    (v : β → Option Bool) : Prop where
  leaf : ∀ b j prog s, CodeAt prog (pc s) (T.loads b ++ [T.test b j]) →
    Lands (step prog) pc reject ((T.loads b).length + 1)
      (fun w => pc s + (T.loads b).length + 1 + j w) s (v b)

variable {T} {step : List ι → σ → ρ ⊕ σ} {pc : σ → Nat} {reject : ρ} {v : β → Option Bool}

theorem Lands.load {υ : Type} {step : σ → ρ ⊕ σ} {n : Nat} {lab : Bool → Nat} {s : σ}
    {o : Option υ} {g : υ → σ} {f : υ → Option Bool}
    (hstep : step s = o.elim (.inl reject) fun x => .inr (g x))
    (h : ∀ x, o = some x → Lands step pc reject n lab (g x) (f x)) :
    Lands step pc reject (n + 1) lab s (o.bind f) := by
  cases o with
  | none => exact ⟨0, s, .zero s, by omega, hstep⟩
  | some x =>
    have hx := h x rfl
    rw [Option.bind_some]
    cases hfx : f x with
    | none =>
      rw [hfx] at hx
      obtain ⟨k, t, hst, hk, ht⟩ := hx
      exact ⟨k + 1, t, .succ hstep hst, by omega, ht⟩
    | some w =>
      rw [hfx] at hx
      obtain ⟨k, t, hst, hk, ht⟩ := hx
      exact ⟨k + 1, t, .succ hstep hst, by omega, ht⟩

theorem Lands.jump {step : σ → ρ ⊕ σ} {lab : Bool → Nat} {s t : σ} {w : Bool}
    (hstep : step s = .inr t) (ht : pc t = lab w) : Lands step pc reject 1 lab s (some w) :=
  ⟨1, t, .succ hstep (.zero t), Nat.le_refl 1, ht⟩

theorem Lands.seq {step : σ → ρ ⊕ σ} {n m : Nat} {lab : Bool → Nat} {s : σ} {w : Bool} {a : Nat}
    {o o' : Option Bool} (h : Lands step pc reject n (Function.update lab w a) s o)
    (h' : ∀ t, pc t = a → Lands step pc reject m lab t o') :
    Lands step pc reject (n + m) lab s (if o = some w then o' else o) := by
  cases o with
  | none =>
    obtain ⟨k, t, hst, hk, ht⟩ := h
    exact ⟨k, t, hst, by omega, ht⟩
  | some x =>
    obtain ⟨k, t, hst, hk, ht⟩ := h
    by_cases hx : x = w
    · subst hx
      rw [Function.update_self] at ht
      rw [if_pos rfl]
      cases o' with
      | none =>
        obtain ⟨k', t', hst', hk', ht'⟩ := h' t ht
        exact ⟨k + k', t', hst.trans hst', by omega, ht'⟩
      | some y =>
        obtain ⟨k', t', hst', hk', ht'⟩ := h' t ht
        exact ⟨k + k', t', hst.trans hst', by omega, ht'⟩
    · rw [if_neg (by simpa using hx)]
      rw [Function.update_of_ne hx] at ht
      exact ⟨k, t, hst, by omega, ht⟩

/-- Wherever its code with both targets known, and ahead of it, stands, it branches on
the value of the expression. -/
def Branches (T : Target ι β) (step : List ι → σ → ρ ⊕ σ) (pc : σ → Nat) (reject : ρ)
    (e : Expr β) (o : Option Bool) : Prop :=
  ∀ (lab : Bool → Nat) (prog : List ι) (s : σ), CodeAt prog (pc s) (T.asm e (pc s) (some ∘ lab)) →
    (∀ w, pc s + T.size e ≤ lab w) → Lands (step prog) pc reject (T.size e) lab s o

theorem Branches.seq (w : Bool) {l r : Expr β} {o o' : Option Bool}
    (hl : Branches T step pc reject l o) (hr : Branches T step pc reject r o')
    (lab : Bool → Nat) (prog : List ι) (s : σ)
    (hcode : CodeAt prog (pc s)
      (T.asm l (pc s) (Function.update (some ∘ lab) w (some (pc s + T.size l))) ++
        T.asm r (pc s + T.size l) (some ∘ lab)))
    (hlab : ∀ w, pc s + (T.size l + T.size r) ≤ lab w) :
    Lands (step prog) pc reject (T.size l + T.size r) lab s (if o = some w then o' else o) := by
  have hleft := hcode.left
  rw [← Function.comp_update] at hleft
  refine Lands.seq (a := pc s + T.size l) (hl _ prog s hleft ?_) ?_
  · intro x
    by_cases hx : x = w
    · rw [hx, Function.update_self]
    · rw [Function.update_of_ne hx]
      have := hlab x
      omega
  · intro t ht
    have hright := hcode.right
    rw [T.asm_length, ← ht] at hright
    refine hr lab prog t hright fun x => ?_
    have := hlab x
    omega

theorem asm_branches (hT : T.Sound step pc reject v) (e : Expr β) :
    Branches T step pc reject e (e.evalAbort v) := by
  induction e with
  | prim b =>
    intro lab prog s hcode hlab
    have h := hT.leaf b _ prog s hcode
    have hjump : (fun w => pc s + (T.loads b).length + 1 +
        skip (pc s + (T.loads b).length) (some ∘ lab) w) = lab := by
      funext w
      have := hlab w
      simp only [skip, Target.size, Function.comp_apply] at this ⊢
      omega
    rw [hjump] at h
    exact h
  | neg e ih =>
    intro lab prog s hcode hlab
    have h := ih (fun w => lab !w) prog s hcode fun w => hlab !w
    rw [Expr.evalAbort]
    cases ho : e.evalAbort v with
    | none | some w =>
      rw [ho] at h
      exact h
  | conj l r ihl ihr => exact Branches.seq true ihl ihr
  | disj l r ihl ihr => exact Branches.seq false ihl ihr

end MyWireshark.ShortCircuit
