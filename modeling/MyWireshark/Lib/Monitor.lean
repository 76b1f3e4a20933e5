import MyWireshark.Lib.Transition
import Mathlib.Logic.Function.Basic

/-! Monitors: data under a mutex with condition variables. A thread that runs an operation
takes the mutex, tests the operation's predicate, waits while it is false, and otherwise runs
its critical section; it notifies after it has released the mutex. Waiting releases the mutex
and joins the wait set in one step. -/
namespace MyWireshark.Monitor
open Transition

inductive Wake (χ : Type) where
  | one (c : χ)
  | all (c : χ)

/-- What an operation does when it has the mutex: it waits for a condition, or it changes
the data, notifies after the unlock, and returns. -/
inductive Section (σ χ ρ : Type) where
  | wait (c : χ)
  | done (data : σ) (wakes : List (Wake χ)) (result : ρ)

/-- Where a thread is. A thread that was notified takes the mutex again and tests again, so it
is where a thread is that just called. -/
inductive Pc (κ χ ρ : Type) where
  | out (last : Option ρ)
  | lock (op : κ)
  | held (op : κ)
  | wait (op : κ) (c : χ)
  | leave (wakes : List (Wake χ)) (result : ρ)
  | notify (wakes : List (Wake χ)) (result : ρ)

def Pc.holds {κ χ ρ : Type} : Pc κ χ ρ → Bool
  | .held _ | .leave .. => true
  | _ => false

def Pc.woken {κ χ ρ : Type} [DecidableEq χ] (c : χ) : Pc κ χ ρ → Pc κ χ ρ
  | .wait op c' => if c' = c then .lock op else .wait op c'
  | pc => pc

/-- The state of a monitor: its data, the owner of the mutex, the threads, and the critical
sections so far with their results. -/
structure State (ι κ σ χ ρ : Type) where
  data : σ
  owner : Option ι
  pc : ι → Pc κ χ ρ
  log : List (ι × κ × ρ)

section
variable {ι κ σ χ ρ : Type} [DecidableEq ι] [DecidableEq χ] (enter : κ → σ → Section σ χ ρ)

def State.goto (s : State ι κ σ χ ρ) (i : ι) (pc : Pc κ χ ρ) : State ι κ σ χ ρ :=
  { s with pc := Function.update s.pc i pc }

omit [DecidableEq χ] in
@[simp] theorem State.goto_self (s : State ι κ σ χ ρ) (i : ι) (pc : Pc κ χ ρ) :
    (s.goto i pc).pc i = pc := by simp [State.goto]

omit [DecidableEq χ] in
@[simp] theorem State.goto_other (s : State ι κ σ χ ρ) {i j : ι} (pc : Pc κ χ ρ) (h : j ≠ i) :
    (s.goto i pc).pc j = s.pc j := by simp [State.goto, h]

omit [DecidableEq χ] in
@[simp] theorem State.goto_data (s : State ι κ σ χ ρ) (i : ι) (pc : Pc κ χ ρ) :
    (s.goto i pc).data = s.data := rfl

omit [DecidableEq χ] in
@[simp] theorem State.goto_owner (s : State ι κ σ χ ρ) (i : ι) (pc : Pc κ χ ρ) :
    (s.goto i pc).owner = s.owner := rfl

omit [DecidableEq χ] in
@[simp] theorem State.goto_log (s : State ι κ σ χ ρ) (i : ι) (pc : Pc κ χ ρ) :
    (s.goto i pc).log = s.log := rfl

inductive Call (i : ι) (op : κ) (s : State ι κ σ χ ρ) : State ι κ σ χ ρ → Prop where
  | call {last : Option ρ} (h : s.pc i = .out last) : Call i op s (s.goto i (.lock op))

inductive Run (i : ι) (s : State ι κ σ χ ρ) : State ι κ σ χ ρ → Prop where
  | acquire {op : κ} (h : s.pc i = .lock op) (hfree : s.owner = none) :
      Run i s { s.goto i (.held op) with owner := some i }
  | wait {op : κ} {c : χ} (h : s.pc i = .held op) (hsec : enter op s.data = .wait c) :
      Run i s { s.goto i (.wait op c) with owner := none }
  | act {op : κ} {data : σ} {wakes : List (Wake χ)} {result : ρ} (h : s.pc i = .held op)
      (hsec : enter op s.data = .done data wakes result) :
      Run i s { s.goto i (.leave wakes result) with
        data := data, log := s.log ++ [(i, op, result)] }
  | unlock {wakes : List (Wake χ)} {result : ρ} (h : s.pc i = .leave wakes result) :
      Run i s { s.goto i (.notify wakes result) with owner := none }
  | wakeOne {c : χ} {wakes : List (Wake χ)} {result : ρ} {j : ι} {op : κ}
      (h : s.pc i = .notify (.one c :: wakes) result) (hj : s.pc j = .wait op c) :
      Run i s ((s.goto i (.notify wakes result)).goto j (.lock op))
  | wakeNone {c : χ} {wakes : List (Wake χ)} {result : ρ}
      (h : s.pc i = .notify (.one c :: wakes) result) (hnone : ∀ j op, s.pc j ≠ .wait op c) :
      Run i s (s.goto i (.notify wakes result))
  | wakeAll {c : χ} {wakes : List (Wake χ)} {result : ρ}
      (h : s.pc i = .notify (.all c :: wakes) result) :
      Run i s { s with pc := fun j =>
        if j = i then .notify wakes result else (s.pc j).woken c }
  | ret {result : ρ} (h : s.pc i = .notify [] result) : Run i s (s.goto i (.out (some result)))

inductive Spurious (s : State ι κ σ χ ρ) : State ι κ σ χ ρ → Prop where
  | spurious {j : ι} {op : κ} {c : χ} (h : s.pc j = .wait op c) :
      Spurious s (s.goto j (.lock op))

/-- Any threads calling any operations, with spurious wake-ups. -/
inductive Step (s t : State ι κ σ χ ρ) : Prop where
  | call (i : ι) (op : κ) (h : Call i op s t)
  | run (i : ι) (h : Run enter i s t)
  | spurious (h : Spurious s t)

def initial (data : σ) : State ι κ σ χ ρ := ⟨data, none, fun _ => .out none, []⟩

def system (data : σ) : System (State ι κ σ χ ρ) where
  init s := s = initial data
  step := Step enter

/-- The result a thread is about to return or has returned last. -/
def Pc.result : Pc κ χ ρ → Option ρ
  | .out last => last
  | .leave _ result | .notify _ result => some result
  | .lock _ | .held _ | .wait .. => none

variable {enter} {s t : State ι κ σ χ ρ} {data : σ}

omit [DecidableEq ι] in
@[simp] theorem Pc.holds_woken (c : χ) (pc : Pc κ χ ρ) : (pc.woken c).holds = pc.holds := by
  cases pc with
  | wait op c' => by_cases h : c' = c <;> simp [Pc.woken, Pc.holds, h]
  | _ => rfl

omit [DecidableEq ι] in
@[simp] theorem Pc.result_woken (c : χ) (pc : Pc κ χ ρ) : (pc.woken c).result = pc.result := by
  cases pc with
  | wait op c' => by_cases h : c' = c <;> simp [Pc.woken, Pc.result, h]
  | _ => rfl

omit [DecidableEq ι] in
theorem Pc.wait_of_woken {c c' : χ} {op : κ} {pc : Pc κ χ ρ} (h : pc.woken c = .wait op c') :
    pc = .wait op c' ∧ c' ≠ c := by
  cases pc with
  | wait op' d =>
    by_cases hd : d = c
    · simp [Pc.woken, hd] at h
    · have heq : (.wait op' d : Pc κ χ ρ) = .wait op c' := by simpa [Pc.woken, hd] using h
      cases heq
      exact ⟨rfl, hd⟩
  | _ => cases h

omit [DecidableEq ι] in
theorem Pc.out_of_woken {c : χ} {last : Option ρ} {pc : Pc κ χ ρ} (h : pc.woken c = .out last) :
    pc = .out last := by
  cases pc with
  | wait op d => by_cases hd : d = c <;> simp [Pc.woken, hd] at h
  | out last' => exact h
  | _ => cases h

/-- The mutex has one owner, the thread in its critical section. -/
def State.Exclusive (s : State ι κ σ χ ρ) : Prop :=
  ∀ i, s.owner = some i ↔ (s.pc i).holds = true

omit [DecidableEq χ] in
theorem State.Exclusive.goto (hs : s.Exclusive) {i : ι} {pc : Pc κ χ ρ}
    (hi : (s.pc i).holds = false) (hpc : pc.holds = false) : (s.goto i pc).Exclusive := by
  intro j
  by_cases hj : j = i
  · subst hj
    have hout := hs j
    rw [hi] at hout
    simpa [hpc] using hout
  · simpa [hj] using hs j

omit [DecidableEq χ] in
theorem State.Exclusive.release (hs : s.Exclusive) {i : ι} {pc : Pc κ χ ρ}
    (hi : (s.pc i).holds = true) (hpc : pc.holds = false) :
    ({ s.goto i pc with owner := none } : State ι κ σ χ ρ).Exclusive := by
  intro j
  by_cases hj : j = i
  · subst hj
    simp [hpc]
  · have hout := hs j
    simp only [(hs i).mpr hi, Option.some.injEq, Ne.symm hj, false_iff] at hout
    simp [hj, hout]

def State.Logged (s : State ι κ σ χ ρ) : Prop :=
  ∀ i result, (s.pc i).result = some result → ∃ op, (i, op, result) ∈ s.log

omit [DecidableEq χ] in
theorem State.Logged.goto (hs : s.Logged) {i : ι} {pc : Pc κ χ ρ}
    (hpc : pc.result = none ∨ pc.result = (s.pc i).result) : (s.goto i pc).Logged := by
  intro j result hj
  by_cases hji : j = i
  · subst hji
    rw [State.goto_self] at hj
    cases hpc with
    | inl hnone => simp [hnone] at hj
    | inr hsame => exact hs j result (hsame ▸ hj)
  · exact hs j result (by simpa [hji] using hj)

theorem Step.sections (h : Step enter s t) :
    (t.data = s.data ∧ t.log = s.log) ∨ ∃ i op data wakes result,
      enter op s.data = .done data wakes result ∧ t.data = data ∧
      t.log = s.log ++ [(i, op, result)] := by
  cases h with
  | call i op h =>
    cases h
    exact .inl ⟨rfl, rfl⟩
  | spurious h =>
    cases h
    exact .inl ⟨rfl, rfl⟩
  | run i h =>
    cases h with
    | act h hsec => exact .inr ⟨i, _, _, _, _, hsec, rfl, rfl⟩
    | _ => exact .inl ⟨rfl, rfl⟩

/-- What every critical section keeps about the data and the log is invariant. -/
theorem Reachable.sections {P : List (ι × κ × ρ) → σ → Prop} (h : (system enter data).Reachable s)
    (hinit : P [] data)
    (hstep : ∀ log d i op d' wakes result, P log d → enter op d = .done d' wakes result →
      P (log ++ [(i, op, result)]) d') : P s.log s.data := by
  refine h.invariant (P := fun s => P s.log s.data) ?_ ?_
  · rintro _ rfl
    exact hinit
  · intro s t _ hs hst
    obtain ⟨hd, hl⟩ | ⟨i, op, d, wakes, result, hsec, hd, hl⟩ := Step.sections hst
    · rwa [hd, hl]
    · rw [hd, hl]
      exact hstep _ _ i op d wakes result hs hsec

theorem Step.exclusive (h : Step enter s t) (hs : s.Exclusive) : t.Exclusive := by
  cases h with
  | call i op h =>
    obtain ⟨hpc⟩ := h
    exact hs.goto (by rw [hpc]; rfl) rfl
  | spurious h =>
    obtain ⟨hpc⟩ := h
    exact hs.goto (by rw [hpc]; rfl) rfl
  | run i h =>
    cases h with
    | acquire h hfree =>
      intro j
      by_cases hj : j = i
      · subst hj
        simp [Pc.holds]
      · have hout := hs j
        simp only [hfree, reduceCtorEq, false_iff] at hout
        simp [hj, Ne.symm hj, hout]
    | wait h hsec => exact hs.release (by rw [h]; rfl) rfl
    | act h hsec =>
      intro j
      have hi := (hs i).mpr (by rw [h]; rfl)
      by_cases hj : j = i
      · subst hj
        simp [Pc.holds, hi]
      · simpa [hj] using hs j
    | unlock h => exact hs.release (by rw [h]; rfl) rfl
    | wakeOne h hj =>
      refine (hs.goto (by rw [h]; rfl) rfl).goto ?_ rfl
      rename_i j op
      by_cases hji : j = i
      · subst hji
        simp [Pc.holds]
      · simp [hji, hj, Pc.holds]
    | wakeNone h hnone => exact hs.goto (by rw [h]; rfl) rfl
    | wakeAll h =>
      intro j
      have hout := hs i
      rw [h] at hout
      by_cases hj : j = i
      · subst hj
        simpa [Pc.holds] using hout
      · simpa [hj] using hs j
    | ret h => exact hs.goto (by rw [h]; rfl) rfl

theorem Reachable.exclusive (h : (system enter data).Reachable s) : s.Exclusive := by
  refine h.invariant ?_ fun s t _ hs hst => Step.exclusive hst hs
  rintro _ rfl i
  simp [initial, Pc.holds]

theorem Step.logged (h : Step enter s t) (hs : s.Logged) : t.Logged := by
  cases h with
  | call i op h =>
    obtain ⟨-⟩ := h
    exact hs.goto (.inl rfl)
  | spurious h =>
    obtain ⟨-⟩ := h
    exact hs.goto (.inl rfl)
  | run i h =>
    cases h with
    | acquire h hfree => exact hs.goto (.inl rfl)
    | wait h hsec => exact hs.goto (.inl rfl)
    | act h hsec =>
      rename_i op data wakes result
      intro j r hj
      by_cases hji : j = i
      · subst hji
        obtain rfl : result = r := by simpa [Pc.result] using hj
        exact ⟨op, by simp⟩
      · obtain ⟨op', hop'⟩ := hs j r (by simpa [hji] using hj)
        exact ⟨op', by simp [hop']⟩
    | unlock h => exact hs.goto (.inr (by rw [h]; rfl))
    | wakeOne h hj => exact (hs.goto (.inr (by rw [h]; rfl))).goto (.inl rfl)
    | wakeNone h hnone => exact hs.goto (.inr (by rw [h]; rfl))
    | wakeAll h =>
      intro j r hj
      by_cases hji : j = i
      · subst hji
        exact hs j r (by simpa [h, Pc.result] using hj)
      · exact hs j r (by simpa [hji] using hj)
    | ret h => exact hs.goto (.inr (by rw [h]; rfl))

theorem Reachable.logged (h : (system enter data).Reachable s) : s.Logged := by
  refine h.invariant ?_ fun s t _ hs hst => Step.logged hst hs
  rintro _ rfl i result hr
  simp [initial, Pc.result] at hr

theorem Run.inside {i : ι} (h : Run enter i s t) (last : Option ρ) : s.pc i ≠ .out last := by
  intro hout
  cases h with
  | acquire h | wait h | act h | unlock h | wakeOne h | wakeNone h | wakeAll h | ret h =>
    rw [hout] at h
    cases h

theorem Run.stays_out {i j : ι} {last : Option ρ} (h : Run enter i s t) (hj : s.pc j = .out last) :
    t.pc j = .out last := by
  have hji : j ≠ i := by
    rintro rfl
    exact h.inside last hj
  cases h with
  | acquire | wait | act | unlock | wakeNone | ret => simpa [hji] using hj
  | wakeOne h hwait =>
    rename_i j' op
    have hj' : j ≠ j' := by
      rintro rfl
      rw [hj] at hwait
      cases hwait
    simpa [hji, hj'] using hj
  | wakeAll => simp [hji, hj, Pc.woken]

/-! An operation that meets nobody -/

def State.NoWaiters (s : State ι κ σ χ ρ) : Prop := ∀ j op c, s.pc j ≠ .wait op c

theorem State.NoWaiters.wakeAll (hnone : s.NoWaiters) (i : ι) (c : χ) (pc : Pc κ χ ρ) :
    (fun j => if j = i then pc else (s.pc j).woken c) = (s.goto i pc).pc := by
  funext j
  by_cases hj : j = i
  · rw [if_pos hj, hj, State.goto_self]
  · rw [if_neg hj, State.goto_other s pc hj]
    cases hpc : s.pc j with
    | wait op c' => exact absurd hpc (hnone j op c')
    | _ => rfl

omit [DecidableEq χ] in
theorem State.NoWaiters.goto (hnone : s.NoWaiters) {i : ι} {pc : Pc κ χ ρ}
    (hpc : ∀ op c, pc ≠ .wait op c) : (s.goto i pc).NoWaiters := by
  intro j op c
  by_cases hj : j = i
  · rw [hj, State.goto_self]
    exact hpc op c
  · rw [State.goto_other s pc hj]
    exact hnone j op c

omit [DecidableEq χ] in
theorem State.goto_goto (s : State ι κ σ χ ρ) (i : ι) (pc pc' : Pc κ χ ρ) :
    (s.goto i pc).goto i pc' = s.goto i pc' := by
  simp [State.goto]

abbrev Alone (enter : κ → σ → Section σ χ ρ) (i : ι) (s : State ι κ σ χ ρ) (n : Nat)
    (t : State ι κ σ χ ρ) : Prop :=
  Counted (Run enter i) (fun _ _ => False) (fun _ _ => False) s n 0 t

theorem Alone.notify {i : ι} {wakes : List (Wake χ)} {result : ρ} (hnone : s.NoWaiters)
    (h : s.pc i = .notify wakes result) :
    Alone enter i s (wakes.length + 1) (s.goto i (.out (some result))) := by
  induction wakes generalizing s with
  | nil => exact .own .refl (.ret h)
  | cons w wakes ih =>
    have hstep : Run enter i s (s.goto i (.notify wakes result)) := by
      cases w with
      | one c => exact .wakeNone h fun j op => hnone j op c
      | all c =>
        have hall : Run enter i s _ := .wakeAll h
        rwa [hnone.wakeAll] at hall
    have hquiet : (s.goto i (.notify wakes result)).NoWaiters :=
      hnone.goto fun _ _ hwait => by cases hwait
    have hrest := ih hquiet (s.goto_self i _)
    rw [State.goto_goto] at hrest
    have hrun := (Counted.own .refl hstep).trans hrest
    rwa [Nat.add_comm] at hrun

/-- A call that meets nobody runs through: it has the effect of its critical section. -/
theorem Alone.call {i : ι} {op : κ} {data : σ} {wakes : List (Wake χ)} {result : ρ}
    (hnone : s.NoWaiters) (hfree : s.owner = none) (h : s.pc i = .lock op)
    (hsec : enter op s.data = .done data wakes result) :
    Alone enter i s (wakes.length + 4)
      { s.goto i (.out (some result)) with data := data, log := s.log ++ [(i, op, result)] } := by
  let held := { s.goto i (.held op) with owner := some i }
  let left := { held.goto i (.leave wakes result) with
    data := data, log := s.log ++ [(i, op, result)] }
  let freed := { left.goto i (.notify wakes result) with owner := none }
  have hheld : Run enter i s held := .acquire h hfree
  have hleft : Run enter i held left := .act (s.goto_self i _) hsec
  have hfreed : Run enter i left freed := .unlock (held.goto_self i _)
  have hquiet : freed.NoWaiters := by
    have hpc : freed.pc = (s.goto i (.notify wakes result)).pc := by
      simp [freed, left, held, State.goto]
    intro j
    rw [hpc]
    exact hnone.goto (fun _ _ hwait => by cases hwait) j
  have hback : Alone enter i freed (wakes.length + 1) (freed.goto i (.out (some result))) :=
    .notify hquiet (left.goto_self i _)
  have hrun := (((Counted.refl.own hheld).own hleft).own hfreed).trans hback
  have hend : freed.goto i (.out (some result)) = { s.goto i (.out (some result)) with
      data := data, log := s.log ++ [(i, op, result)] } := by
    simp [freed, left, held, State.goto, hfree]
  rw [← hend]
  rwa [Nat.add_comm] at hrun

structure State.Idle (s : State ι κ σ χ ρ) : Prop where
  owner : s.owner = none
  pc : ∀ i, ∃ last, s.pc i = .out last

theorem State.Idle.call (h : s.Idle) (i : ι) {op : κ} {data : σ} {wakes : List (Wake χ)}
    {result : ρ} (hsec : enter op s.data = .done data wakes result) :
    ∃ t, Call i op s (s.goto i (.lock op)) ∧
      Alone enter i (s.goto i (.lock op)) (wakes.length + 4) t ∧ t.Idle ∧ t.data = data ∧
      t.pc i = .out (some result) ∧ ∀ j, j ≠ i → t.pc j = s.pc j := by
  obtain ⟨last, hout⟩ := h.pc i
  have hnone : (s.goto i (.lock op)).NoWaiters := by
    refine State.NoWaiters.goto (fun j op c hwait => ?_) fun _ _ hwait => by cases hwait
    obtain ⟨last, hout⟩ := h.pc j
    rw [hout] at hwait
    cases hwait
  have hrun := Alone.call hnone h.owner (s.goto_self i (.lock op)) hsec
  rw [State.goto_goto] at hrun
  refine ⟨_, .call hout, hrun, ⟨h.owner, fun j => ?_⟩, rfl, s.goto_self i _,
    fun j hj => s.goto_other _ hj⟩
  by_cases hj : j = i
  · subst hj
    exact ⟨some result, s.goto_self j _⟩
  · obtain ⟨last, hout⟩ := h.pc j
    exact ⟨last, (s.goto_other _ hj).trans hout⟩

/-! Progress -/

/-- A thread inside an operation can go on, unless it waits or another one has the mutex. -/
theorem Run.progress (enter : κ → σ → Section σ χ ρ) (i : ι) (hout : ∀ last, s.pc i ≠ .out last)
    (hwait : ∀ op c, s.pc i ≠ .wait op c) (hlock : ∀ op, s.pc i = .lock op → s.owner = none) :
    ∃ t, Run enter i s t := by
  cases hpc : s.pc i with
  | out last => exact absurd hpc (hout last)
  | wait op c => exact absurd hpc (hwait op c)
  | lock op => exact ⟨_, .acquire hpc (hlock op hpc)⟩
  | held op =>
    cases hsec : enter op s.data with
    | wait c => exact ⟨_, .wait hpc hsec⟩
    | done data wakes result => exact ⟨_, .act hpc hsec⟩
  | leave wakes result => exact ⟨_, .unlock hpc⟩
  | notify wakes result =>
    cases wakes with
    | nil => exact ⟨_, .ret hpc⟩
    | cons w wakes =>
      cases w with
      | all c => exact ⟨_, .wakeAll hpc⟩
      | one c =>
        by_cases hj : ∃ j op, s.pc j = .wait op c
        · obtain ⟨j, op, hj⟩ := hj
          exact ⟨_, .wakeOne hpc hj⟩
        · exact ⟨_, .wakeNone hpc fun j op hwait => hj ⟨j, op, hwait⟩⟩

/-- When no thread can go on, all of them are outside or wait. -/
theorem State.Exclusive.stuck (hs : s.Exclusive) (hstuck : ∀ i t, ¬ Run enter i s t) (i : ι) :
    (∃ last, s.pc i = .out last) ∨ ∃ op c, s.pc i = .wait op c := by
  have hfree : s.owner = none := by
    cases howner : s.owner with
    | none => rfl
    | some j =>
      have hj := (hs j).mp howner
      obtain ⟨t, ht⟩ := Run.progress enter (s := s) j
        (by intro last h; simp [h, Pc.holds] at hj) (by intro op c h; simp [h, Pc.holds] at hj)
        (by intro op h; simp [h, Pc.holds] at hj)
      exact absurd ht (hstuck j t)
  by_contra hnot
  obtain ⟨t, ht⟩ := Run.progress enter (s := s) i
    (fun last h => hnot (.inl ⟨last, h⟩)) (fun op c h => hnot (.inr ⟨op, c, h⟩)) fun _ _ => hfree
  exact hstuck i t ht

end
end MyWireshark.Monitor
