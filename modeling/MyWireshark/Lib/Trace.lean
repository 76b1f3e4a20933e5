import Mathlib.Control.Monad.Writer

/-! Computations that may stop without a result and that record events on their way, with a rule
for each way to put them together. -/
namespace MyWireshark.Trace

variable {ε α β : Type}

abbrev Traced (ε α : Type) := WriterT (List ε) Option α

def event (e : ε) : Traced ε Unit := MonadWriter.tell [e]

def eventIf (b : Bool) (e : ε) : Traced ε Unit := if b then event e else pure ()

def erase (x : Traced ε α) : Option α := x.run.map Prod.fst

@[simp] theorem erase_pure (a : α) : erase (pure a : Traced ε α) = some a := rfl

@[simp] theorem erase_lift (o : Option α) : erase (liftM o : Traced ε α) = o := by
  cases o <;> rfl

@[simp] theorem erase_event (e : ε) : erase (event e) = some () := rfl

@[simp] theorem erase_bind (x : Traced ε α) (f : α → Traced ε β) :
    erase (x >>= f) = erase x >>= fun a => erase (f a) := by
  simp only [erase, WriterT.run_bind]
  cases x.run with
  | none => rfl
  | some r => simp [Function.comp_def]

@[simp] theorem erase_ite (c : Prop) [Decidable c] (x y : Traced ε α) :
    erase (if c then x else y) = if c then erase x else erase y := apply_ite erase c x y

@[simp] theorem erase_eventIf (b : Bool) (e : ε) : erase (eventIf b e) = some () := by
  cases b <;> rfl

/-- The computation has a result, of which `Q` holds, and `P` holds of all its events. -/
def Ensures (P : ε → Prop) (x : Traced ε α) (Q : α → Prop) : Prop :=
  ∃ a es, x.run = some (a, es) ∧ (∀ e ∈ es, P e) ∧ Q a

namespace Ensures
variable {P : ε → Prop} {Q R : α → Prop} {S : β → Prop}

theorem pure {a : α} (h : Q a) : Ensures P (Pure.pure a : Traced ε α) Q :=
  ⟨a, [], rfl, fun _ he => absurd he List.not_mem_nil, h⟩

theorem event {e : ε} (h : P e) : Ensures P (event e) fun _ => True :=
  ⟨(), [e], rfl, fun _ he => by rwa [List.mem_singleton.mp he], trivial⟩

theorem lift {o : Option α} {a : α} (ho : o = some a) (h : Q a) :
    Ensures P (liftM o : Traced ε α) Q := by
  rw [ho]
  exact pure h

theorem bind {x : Traced ε α} {f : α → Traced ε β} (hx : Ensures P x Q)
    (hf : ∀ a, Q a → Ensures P (f a) S) : Ensures P (x >>= f) S := by
  obtain ⟨a, es, hrun, hes, ha⟩ := hx
  obtain ⟨b, es', hrun', hes', hb⟩ := hf a ha
  refine ⟨b, es ++ es', ?_, ?_, hb⟩
  · rw [WriterT.run_bind, hrun]
    simp [hrun']
  · intro e he
    obtain he | he := List.mem_append.mp he
    · exact hes e he
    · exact hes' e he

theorem mono {x : Traced ε α} (hx : Ensures P x Q) (h : ∀ a, Q a → R a) : Ensures P x R := by
  obtain ⟨a, es, hrun, hes, ha⟩ := hx
  exact ⟨a, es, hrun, hes, h a ha⟩

theorem erased {x : Traced ε α} (hx : Ensures P x Q) :
    ∃ a es, x.run = some (a, es) ∧ erase x = some a ∧ (∀ e ∈ es, P e) ∧ Q a := by
  obtain ⟨a, es, hrun, hes, ha⟩ := hx
  exact ⟨a, es, hrun, by rw [erase, hrun]; rfl, hes, ha⟩

end Ensures

/-- The computation has a result, an automaton that reads its events comes from `s` to a state, and
`Q` holds of the two. -/
def Leads {σ : Type} (step : σ → ε → Option σ) (s : σ) (x : Traced ε α) (Q : α → σ → Prop) : Prop :=
  ∃ a es t, x.run = some (a, es) ∧ es.foldlM step s = some t ∧ Q a t

namespace Leads
variable {σ : Type} {step : σ → ε → Option σ} {s t : σ} {Q : α → σ → Prop} {S : β → σ → Prop}

theorem pure {a : α} (h : Q a s) : Leads step s (Pure.pure a : Traced ε α) Q :=
  ⟨a, [], s, rfl, rfl, h⟩

theorem event {e : ε} (h : step s e = some t) : Leads step s (event e) fun _ u => u = t :=
  ⟨(), [e], t, rfl, by simp [h], rfl⟩

theorem bind {x : Traced ε α} {f : α → Traced ε β} (hx : Leads step s x Q)
    (hf : ∀ a t, Q a t → Leads step t (f a) S) : Leads step s (x >>= f) S := by
  obtain ⟨a, es, t, hrun, hes, ha⟩ := hx
  obtain ⟨b, es', u, hrun', hes', hb⟩ := hf a t ha
  refine ⟨b, es ++ es', u, ?_, ?_, hb⟩
  · rw [WriterT.run_bind, hrun]
    simp [hrun']
  · rw [List.foldlM_append, hes]
    exact hes'

theorem step_then {e : ε} {x : Traced ε α} (h : step s e = some t) (hx : Leads step t x Q) :
    Leads step s (Trace.event e >>= fun _ => x) Q :=
  (event h).bind fun _ _ ht => ht ▸ hx

theorem step_if {b : Bool} {e : ε} {x : Traced ε α} (h : b = true → step s e = some t)
    (hx : Leads step (if b then t else s) x Q) :
    Leads step s (Trace.eventIf b e >>= fun _ => x) Q := by
  cases b with
  | true => exact step_then (h rfl) hx
  | false => exact (pure rfl : Leads step s _ fun _ u => u = s).bind fun _ _ hu => hu ▸ hx

end Leads

end MyWireshark.Trace
