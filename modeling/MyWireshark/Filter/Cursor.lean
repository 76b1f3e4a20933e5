import MyWireshark.Filter.Core

/-! What the parsers do to their context. Every change is a cursor move or a call of the
fail function (`Evolves`), so the facts about errors are proved once for those two;
the cursor is seen through the tokens it has left (`Remaining`, `Advances`). -/
namespace MyWireshark.Filter
open BoolGrammar
variable {τ β : Type}

/-- The two things the parser does to a context, any number of times. -/
inductive Ctx.Evolves (c : Ctx τ) : Ctx τ → Prop where
  | refl : Evolves c c
  | move {d : Ctx τ} (n : Nat) : Evolves c d → Evolves c { d with pos := n }
  | fail {d : Ctx τ} (m : String) : Evolves c d → Evolves c (d.fail m)

theorem Ctx.Evolves.trans {c d e : Ctx τ} (h : c.Evolves d) (h' : d.Evolves e) : c.Evolves e := by
  induction h' with
  | refl => exact h
  | move n _ ih => exact .move n ih
  | fail m _ ih => exact .fail m ih

@[simp] theorem Ctx.fail_failed (c : Ctx τ) (m : String) : (c.fail m).failed = true := by
  by_cases h : c.failed <;> simp [Ctx.fail, h]

@[simp] theorem Ctx.fail_toks (c : Ctx τ) (m : String) : (c.fail m).toks = c.toks := by
  by_cases h : c.failed <;> simp [Ctx.fail, h]

@[simp] theorem Ctx.fail_pos (c : Ctx τ) (m : String) : (c.fail m).pos = c.pos := by
  by_cases h : c.failed <;> simp [Ctx.fail, h]

@[simp] theorem Ctx.fail_raised (c : Ctx τ) (m : String) :
    (c.fail m).raised = c.raised ++ [m] := by
  by_cases h : c.failed <;> simp [Ctx.fail, h]

theorem Ctx.Evolves.failed {c d : Ctx τ} (h : c.Evolves d) (hc : c.failed = true) :
    d.failed = true := by
  induction h with
  | refl => exact hc
  | move n _ ih => exact ih
  | fail m _ _ => exact Ctx.fail_failed _ m

def shown (errNull : Bool) (errLen : Int) (m : String) : Option String :=
  if errNull = false ∧ 0 < errLen then some (cut errLen m) else none

/-- The sticky error: the flag says whether anything was raised, and the caller's buffer
holds the first message raised, cut to its length, and nothing else. -/
structure Ctx.FirstError (errNull : Bool) (errLen : Int) (c : Ctx τ) : Prop where
  null : c.errNull = errNull
  len : c.errLen = errLen
  flag : c.failed = true ↔ c.raised ≠ []
  text : c.errText = c.raised.head?.bind (shown errNull errLen)

variable {errNull : Bool} {errLen : Int}

theorem Ctx.FirstError.fail {c : Ctx τ} (h : c.FirstError errNull errLen) (m : String) :
    (c.fail m).FirstError errNull errLen := by
  obtain ⟨hnull, hlen, hflag, htext⟩ := h
  by_cases hf : c.failed = true
  · have hne := hflag.mp hf
    have hhead : (c.raised ++ [m]).head? = c.raised.head? := by
      cases hr : c.raised with
      | nil => exact absurd hr hne
      | cons a l => rfl
    refine ⟨by simpa [Ctx.fail, hf] using hnull, by simpa [Ctx.fail, hf] using hlen, by simp, ?_⟩
    simp only [Ctx.fail, hf, if_true, hhead]
    exact htext
  · have hnil : c.raised = [] := by
      by_contra hne
      exact hf (hflag.mpr hne)
    rw [hnil] at htext
    refine ⟨by simpa [Ctx.fail, hf] using hnull, by simpa [Ctx.fail, hf] using hlen, by simp, ?_⟩
    simp only [Ctx.fail, hf, hnil, Ctx.printed, htext, hnull, hlen, List.nil_append]
    rfl

theorem Ctx.Evolves.firstError {c d : Ctx τ} (h : c.Evolves d) (hc : c.FirstError errNull errLen) :
    d.FirstError errNull errLen := by
  induction h with
  | refl => exact hc
  | move n _ ih => exact ⟨ih.null, ih.len, ih.flag, ih.text⟩
  | fail m _ ih => exact ih.fail m

theorem mkNode_failed {p : Parser τ} (h : p.c.failed = true) (x : Node β) :
    (mkNode p x).2.c.failed = true := by
  simp [mkNode, h]

theorem mkNode_full {p : Parser τ} (h : p.cap ≤ p.count) (x : Node β) :
    (mkNode p x).2.c.failed = true := by
  by_cases hf : p.c.failed = true
  · exact mkNode_failed hf x
  · simp [mkNode, hf, h, Parser.fail]

theorem mkNode_ok {p : Parser τ} (hf : p.c.failed = false) (h : p.count < p.cap) (x : Node β) :
    mkNode p x = (x, { p with count := p.count + 1 }) := by
  simp [mkNode, hf, Nat.not_le.mpr h]

theorem mkNode_null {p : Parser τ} {x : Node β} (hx : x.isNull = false)
    (h : (mkNode p x).1.isNull = true) : (mkNode p x).2.c.failed = true := by
  unfold mkNode at h ⊢
  split
  · assumption
  · split
    · exact Ctx.fail_failed _ _
    · simp_all

@[simp] theorem mkNode_cap (p : Parser τ) (x : Node β) : (mkNode p x).2.cap = p.cap := by
  unfold mkNode
  split
  · rfl
  · split <;> rfl

/-! The token cursor. -/

variable [Lexeme τ]

/-- The tokens from the cursor up to, and without, the closing TOK_END. -/
def Remaining (c : Ctx τ) (ts : List τ) : Prop :=
  ∃ e, Lexeme.isEnd e = true ∧ c.toks.drop c.pos = ts ++ [e] ∧ ∀ t ∈ ts, Lexeme.isEnd t = false

theorem Remaining.fail {c : Ctx τ} {ts : List τ} (h : Remaining c ts) (m : String) :
    Remaining (c.fail m) ts := by
  simpa [Remaining] using h

theorem Remaining.unique {c : Ctx τ} {ts us : List τ} (h : Remaining c ts) (h' : Remaining c us) :
    ts = us := by
  obtain ⟨e, -, hd, -⟩ := h
  obtain ⟨e', -, hd', -⟩ := h'
  exact (List.append_inj' (hd.symm.trans hd') rfl).1

theorem Remaining.length_lt {c : Ctx τ} {ts : List τ} (h : Remaining c ts) :
    ts.length < c.toks.length := by
  obtain ⟨e, -, hd, -⟩ := h
  have hl := congrArg List.length hd
  simp only [List.length_drop, List.length_append, List.length_singleton] at hl
  omega
theorem pPeek_end {p : Parser τ} (h : Remaining p.c []) :
    ∃ e, pPeek p = some e ∧ Lexeme.isEnd e = true := by
  obtain ⟨e, he, hd, -⟩ := h
  refine ⟨e, ?_, he⟩
  rw [pPeek, ← List.head?_drop, hd]
  rfl

theorem pPeek_cons {p : Parser τ} {t : τ} {ts : List τ} (h : Remaining p.c (t :: ts)) :
    pPeek p = some t ∧ Lexeme.isEnd t = false := by
  obtain ⟨e, he, hd, hts⟩ := h
  refine ⟨?_, hts t (by simp)⟩
  rw [pPeek, ← List.head?_drop, hd]
  rfl

theorem pAdvance_end {p : Parser τ} (h : Remaining p.c []) :
    ∃ e, pAdvance p = some (e, p) ∧ Lexeme.isEnd e = true := by
  obtain ⟨e, hp, he⟩ := pPeek_end h
  exact ⟨e, by simp [pAdvance, hp, he], he⟩

theorem pAdvance_cons {p : Parser τ} {t : τ} {ts : List τ} (h : Remaining p.c (t :: ts)) :
    pAdvance p = some (t, p.next) ∧
      Remaining p.next.c ts := by
  obtain ⟨hp, ht⟩ := pPeek_cons h
  obtain ⟨e, he, hd, hts⟩ := h
  refine ⟨by simp [pAdvance, hp, ht], e, he, ?_, fun u hu => hts u (by simp [hu])⟩
  have htail := congrArg List.tail hd
  simpa [Parser.next, List.tail_drop] using htail

/-! One call of a parse function, seen from outside. -/

/-- `q` comes from `p` by cursor moves and errors, with no more tokens left than `n`. -/
structure Advances (p : Parser τ) (n : Nat) (q : Parser τ) : Prop where
  evolves : p.c.Evolves q.c
  cap : q.cap = p.cap
  left : ∃ us, Remaining q.c us ∧ us.length ≤ n

theorem Advances.trans {p q r : Parser τ} {n m : Nat} (h : Advances p n q) (h' : Advances q m r)
    (hm : m ≤ n) : Advances p n r := by
  obtain ⟨us, hr, hl⟩ := h'.left
  exact ⟨h.evolves.trans h'.evolves, h'.cap.trans h.cap, us, hr, Nat.le_trans hl hm⟩

theorem Advances.mono {p q : Parser τ} {n m : Nat} (h : Advances p n q) (hm : n ≤ m) :
    Advances p m q := by
  obtain ⟨us, hr, hl⟩ := h.left
  exact ⟨h.evolves, h.cap, us, hr, Nat.le_trans hl hm⟩

theorem Advances.self {p : Parser τ} {ts : List τ} (h : Remaining p.c ts) :
    Advances p ts.length p := ⟨.refl, rfl, ts, h, Nat.le_refl _⟩

theorem Advances.step {p : Parser τ} {t : τ} {ts : List τ} (h : Remaining p.c (t :: ts)) :
    Advances p ts.length p.next :=
  ⟨.move _ .refl, rfl, ts, (pAdvance_cons h).2, Nat.le_refl _⟩

theorem Advances.fail {p q : Parser τ} {n : Nat} (h : Advances p n q) (m : String) :
    Advances p n (q.fail m) := by
  obtain ⟨us, hr, hl⟩ := h.left
  exact ⟨.fail m h.evolves, h.cap, us, hr.fail m, hl⟩

theorem Advances.mkNode {p q : Parser τ} {n : Nat} (h : Advances p n q) (x : Node β) :
    Advances p n (mkNode q x).2 := by
  unfold Filter.mkNode
  split
  · exact h
  · split
    · exact h.fail tooComplex
    · exact ⟨h.evolves, h.cap, h.left⟩

theorem Advances.advance {p q : Parser τ} {n : Nat} {us : List τ} (h : Advances p n q)
    (hleft : Remaining q.c us) (hle : us.length ≤ n) :
    (us = [] ∧ ∃ e, Lexeme.isEnd e = true ∧ pAdvance q = some (e, q)) ∨
      ∃ t vs, us = t :: vs ∧ pAdvance q = some (t, q.next) ∧ Remaining q.next.c vs ∧
        vs.length ≤ n ∧ Advances p n q.next := by
  cases us with
  | nil =>
    obtain ⟨e, hadv, he⟩ := pAdvance_end hleft
    exact Or.inl ⟨rfl, e, he, hadv⟩
  | cons t vs =>
    obtain ⟨hadv, hleft'⟩ := pAdvance_cons hleft
    simp only [List.length_cons] at hle
    exact Or.inr ⟨t, vs, rfl, hadv, hleft', by omega,
      h.trans (Advances.step hleft) (by omega)⟩

end MyWireshark.Filter
