import Mathlib.Data.List.Basic

/-! Boolean expressions over an arbitrary token alphabet: the three-level grammar
or / and / not, a recursive-descent reader for it, and the proof that the reader
accepts exactly the derivable words and that a word has at most one tree. -/
namespace MyWireshark.BoolGrammar
variable {τ α : Type}

/-- What a token contributes to the Boolean skeleton. -/
inductive Shape where
  | conj | disj | neg | lparen | rparen | other
  deriving DecidableEq

inductive Expr (α : Type) where
  | prim (a : α)
  | neg (e : Expr α)
  | conj (l r : Expr α)
  | disj (l r : Expr α)
  deriving DecidableEq

def Expr.eval (v : α → Bool) : Expr α → Bool
  | .prim a => v a
  | .neg e => !e.eval v
  | .conj l r => l.eval v && r.eval v
  | .disj l r => l.eval v || r.eval v

def Expr.prims : Expr α → List α
  | .prim a => [a]
  | .neg e => e.prims
  | .conj l r => l.prims ++ r.prims
  | .disj l r => l.prims ++ r.prims

def Expr.negFree : Expr α → Bool
  | .prim _ => true
  | .neg _ => false
  | .conj l r => l.negFree && r.negFree
  | .disj l r => l.negFree && r.negFree

theorem Expr.eval_congr {v w : α → Bool} (e : Expr α) (h : ∀ a ∈ e.prims, v a = w a) :
    e.eval v = e.eval w := by
  induction e with
  | prim a => exact h a (List.mem_singleton_self a)
  | neg e ih => rw [Expr.eval, Expr.eval, ih h]
  | conj l r ihl ihr =>
    rw [Expr.eval, Expr.eval, ihl fun a ha => h a (List.mem_append_left _ ha),
      ihr fun a ha => h a (List.mem_append_right _ ha)]
  | disj l r ihl ihr =>
    rw [Expr.eval, Expr.eval, ihl fun a ha => h a (List.mem_append_left _ ha),
      ihr fun a ha => h a (List.mem_append_right _ ha)]

theorem Expr.eval_mono {v w : α → Bool} {e : Expr α} (hfree : e.negFree = true)
    (h : ∀ a ∈ e.prims, v a = true → w a = true) : e.eval v = true → e.eval w = true := by
  induction e with
  | prim a => exact h a (List.mem_singleton_self a)
  | neg e ih => cases hfree
  | conj l r ihl ihr =>
    rw [Expr.negFree, Bool.and_eq_true] at hfree
    rw [Expr.eval, Expr.eval, Bool.and_eq_true, Bool.and_eq_true]
    exact And.imp (ihl hfree.1 fun a ha => h a (List.mem_append_left _ ha))
      (ihr hfree.2 fun a ha => h a (List.mem_append_right _ ha))
  | disj l r ihl ihr =>
    rw [Expr.negFree, Bool.and_eq_true] at hfree
    rw [Expr.eval, Expr.eval, Bool.or_eq_true, Bool.or_eq_true]
    exact Or.imp (ihl hfree.1 fun a ha => h a (List.mem_append_left _ ha))
      (ihr hfree.2 fun a ha => h a (List.mem_append_right _ ha))

theorem Expr.eval_eq_false {v : α → Bool} {e : Expr α} (hfree : e.negFree = true)
    (h : ∀ a ∈ e.prims, v a = false) : e.eval v = false := by
  rw [Expr.eval_congr e (w := fun _ => false) h]
  induction e with
  | prim a => rfl
  | neg e ih => cases hfree
  | conj l r ihl ihr =>
    obtain ⟨hl, hr⟩ := Bool.and_eq_true_iff.mp hfree
    rw [Expr.eval, ihl hl fun a ha => h a (List.mem_append_left _ ha), Bool.false_and]
  | disj l r ihl ihr =>
    obtain ⟨hl, hr⟩ := Bool.and_eq_true_iff.mp hfree
    rw [Expr.eval, ihl hl fun a ha => h a (List.mem_append_left _ ha),
      ihr hr fun a ha => h a (List.mem_append_right _ ha), Bool.false_or]

/-- Evaluation from left to right with short circuit, where a primitive may abort. -/
def Expr.evalAbort (v : α → Option Bool) : Expr α → Option Bool
  | .prim a => v a
  | .neg e => (e.evalAbort v).map (!·)
  | .conj l r => if l.evalAbort v = some true then r.evalAbort v else l.evalAbort v
  | .disj l r => if l.evalAbort v = some false then r.evalAbort v else l.evalAbort v

/-- One for every connective, plus what the primitives weigh. -/
def Expr.size (w : α → Nat) : Expr α → Nat
  | .prim a => w a
  | .neg e => e.size w + 1
  | .conj l r => l.size w + r.size w + 1
  | .disj l r => l.size w + r.size w + 1

inductive Level where
  | or | and | not

/-- `Derives lvl ts e`: the word `ts` is generated at level `lvl` with tree `e`.
The repetitions of the grammar are read to the left, hence the two `snoc` rules. -/
inductive Derives (shape : τ → Shape) (Prim : List τ → α → Prop) :
    Level → List τ → Expr α → Prop where
  | prim {ts a} : Prim ts a → Derives shape Prim .not ts (.prim a)
  | neg {t ts e} : shape t = .neg → Derives shape Prim .not ts e →
      Derives shape Prim .not (t :: ts) (.neg e)
  | paren {l ts r e} : shape l = .lparen → Derives shape Prim .or ts e → shape r = .rparen →
      Derives shape Prim .not (l :: (ts ++ [r])) e
  | ofNot {ts e} : Derives shape Prim .not ts e → Derives shape Prim .and ts e
  | andSnoc {ts o us e f} : Derives shape Prim .and ts e → shape o = .conj →
      Derives shape Prim .not us f → Derives shape Prim .and (ts ++ o :: us) (.conj e f)
  | ofAnd {ts e} : Derives shape Prim .and ts e → Derives shape Prim .or ts e
  | orSnoc {ts o us e f} : Derives shape Prim .or ts e → shape o = .disj →
      Derives shape Prim .and us f → Derives shape Prim .or (ts ++ o :: us) (.disj e f)

section reader
variable (shape : τ → Shape) (prim : List τ → Option (α × List τ))

def closeParen : Option (Expr α × List τ) → Option (Expr α × List τ)
  | some (e, c :: r) => if shape c = .rparen then some (e, r) else none
  | _ => none

/- The length tests only carry the termination argument: a primitive reader that
   consumes what it returns never fails them. -/
mutual
def readNot (ts : List τ) : Option (Expr α × List τ) :=
  match ts with
  | [] => none
  | t :: us =>
    match shape t with
    | .neg => (readNot us).map fun (e, r) => (.neg e, r)
    | .lparen => closeParen shape (readOr us)
    | _ => (prim (t :: us)).map fun (a, r) => (.prim a, r)
termination_by 4 * ts.length + 1
decreasing_by all_goals simp <;> omega

def readAnd (ts : List τ) : Option (Expr α × List τ) :=
  match readNot ts with
  | some (e, r) => if r.length < ts.length then andLoop e r else none
  | none => none
termination_by 4 * ts.length + 2
decreasing_by all_goals omega

def andLoop (acc : Expr α) (ts : List τ) : Option (Expr α × List τ) :=
  match ts with
  | [] => some (acc, [])
  | t :: us =>
    if shape t = .conj then
      match readNot us with
      | some (e, r) => if r.length < us.length then andLoop (.conj acc e) r else none
      | none => none
    else some (acc, t :: us)
termination_by 4 * ts.length + 1
decreasing_by all_goals simp <;> omega

def readOr (ts : List τ) : Option (Expr α × List τ) :=
  match readAnd ts with
  | some (e, r) => if r.length < ts.length then orLoop e r else none
  | none => none
termination_by 4 * ts.length + 3
decreasing_by all_goals omega

def orLoop (acc : Expr α) (ts : List τ) : Option (Expr α × List τ) :=
  match ts with
  | [] => some (acc, [])
  | t :: us =>
    if shape t = .disj then
      match readAnd us with
      | some (e, r) => if r.length < us.length then orLoop (.disj acc e) r else none
      | none => none
    else some (acc, t :: us)
termination_by 4 * ts.length + 1
decreasing_by all_goals (simp; omega)
end

end reader

/-- A primitive reader that agrees with the relation `Prim`, whatever follows. -/
structure PrimSpec (shape : τ → Shape) (Prim : List τ → α → Prop)
    (prim : List τ → Option (α × List τ)) : Prop where
  sound : ∀ {ts a r}, prim ts = some (a, r) → ∃ used, ts = used ++ r ∧ Prim used a
  complete : ∀ {used a}, Prim used a → ∀ r, prim (used ++ r) = some (a, r)
  head : ∀ {used a}, Prim used a → ∃ t us, used = t :: us ∧
    shape t ≠ .neg ∧ shape t ≠ .lparen

variable {shape : τ → Shape} {Prim : List τ → α → Prop} {prim : List τ → Option (α × List τ)}

theorem Derives.ne_nil (hp : PrimSpec shape Prim prim) {lvl : Level} {ts : List τ} {e : Expr α}
    (h : Derives shape Prim lvl ts e) : ts ≠ [] := by
  induction h with
  | prim ha =>
    obtain ⟨t, us, rfl, -⟩ := hp.head ha
    simp
  | neg | paren | andSnoc | orSnoc => simp
  | ofNot _ ih => exact ih
  | ofAnd _ ih => exact ih

theorem closeParen_some {o : Option (Expr α × List τ)} {e : Expr α} {r : List τ}
    (h : closeParen shape o = some (e, r)) : ∃ c, o = some (e, c :: r) ∧ shape c = .rparen := by
  unfold closeParen at h
  split at h
  · rename_i f c r'
    split at h
    · rename_i hc
      obtain ⟨rfl, rfl⟩ := Prod.mk.inj (Option.some.inj h)
      exact ⟨c, rfl, hc⟩
    · cases h
  · cases h

theorem readNot_neg {t : τ} (us : List τ) (h : shape t = .neg) :
    readNot shape prim (t :: us) = (readNot shape prim us).map fun (e, r) => (.neg e, r) := by
  rw [readNot, h]

theorem readNot_lparen {t : τ} (us : List τ) (h : shape t = .lparen) :
    readNot shape prim (t :: us) = closeParen shape (readOr shape prim us) := by
  rw [readNot, h]

theorem readNot_prim {t : τ} (us : List τ) (hn : shape t ≠ .neg) (hl : shape t ≠ .lparen) :
    readNot shape prim (t :: us) = (prim (t :: us)).map fun (a, r) => (.prim a, r) := by
  rw [readNot]
  split
  · contradiction
  · contradiction
  · rfl

/-! What is read is derivable. -/

mutual
theorem readNot_sound (hp : PrimSpec shape Prim prim) (ts : List τ) {e : Expr α} {r : List τ}
    (h : readNot shape prim ts = some (e, r)) :
    ∃ used, ts = used ++ r ∧ Derives shape Prim .not used e := by
  match ts with
  | [] => simp [readNot] at h
  | t :: us =>
    rw [readNot] at h
    split at h
    · rename_i ht
      obtain ⟨⟨f, r'⟩, hf, he⟩ := Option.map_eq_some_iff.mp h
      obtain ⟨rfl, rfl⟩ := Prod.mk.inj he
      obtain ⟨used, hu, hd⟩ := readNot_sound hp us hf
      exact ⟨t :: used, by simp [hu], .neg ht hd⟩
    · rename_i ht
      obtain ⟨c, hf, hc⟩ := closeParen_some h
      obtain ⟨used, hu, hd⟩ := readOr_sound hp us hf
      exact ⟨t :: (used ++ [c]), by simp [hu], .paren ht hd hc⟩
    · obtain ⟨⟨a, r'⟩, ha, he⟩ := Option.map_eq_some_iff.mp h
      obtain ⟨rfl, rfl⟩ := Prod.mk.inj he
      obtain ⟨used, hu, hd⟩ := hp.sound ha
      exact ⟨used, hu, .prim hd⟩
termination_by 4 * ts.length + 1
decreasing_by all_goals simp <;> omega

theorem readAnd_sound (hp : PrimSpec shape Prim prim) (ts : List τ) {e : Expr α} {r : List τ}
    (h : readAnd shape prim ts = some (e, r)) :
    ∃ used, ts = used ++ r ∧ Derives shape Prim .and used e := by
  rw [readAnd] at h
  split at h
  · rename_i f r' hf
    split at h
    · obtain ⟨used, hu, hd⟩ := readNot_sound hp ts hf
      obtain ⟨more, hm, hd'⟩ := andLoop_sound hp r' h (.ofNot hd)
      exact ⟨used ++ more, by simp [hu, hm], hd'⟩
    · cases h
  · cases h
termination_by 4 * ts.length + 2
decreasing_by all_goals omega

theorem andLoop_sound (hp : PrimSpec shape Prim prim) (ts : List τ) {acc e : Expr α}
    {pre r : List τ} (h : andLoop shape prim acc ts = some (e, r))
    (hacc : Derives shape Prim .and pre acc) :
    ∃ used, ts = used ++ r ∧ Derives shape Prim .and (pre ++ used) e := by
  match ts with
  | [] =>
    rw [andLoop] at h
    obtain ⟨rfl, rfl⟩ := Prod.mk.inj (Option.some.inj h)
    exact ⟨[], rfl, by simpa using hacc⟩
  | t :: us =>
    rw [andLoop] at h
    split at h
    · rename_i ht
      split at h
      · rename_i f r' hf
        split at h
        · obtain ⟨used, hu, hd⟩ := readNot_sound hp us hf
          obtain ⟨more, hm, hd'⟩ := andLoop_sound hp r' h (.andSnoc hacc ht hd)
          exact ⟨t :: (used ++ more), by simp [hu, hm], by simpa using hd'⟩
        · cases h
      · cases h
    · obtain ⟨rfl, rfl⟩ := Prod.mk.inj (Option.some.inj h)
      exact ⟨[], rfl, by simpa using hacc⟩
termination_by 4 * ts.length + 1
decreasing_by all_goals simp <;> omega

theorem readOr_sound (hp : PrimSpec shape Prim prim) (ts : List τ) {e : Expr α} {r : List τ}
    (h : readOr shape prim ts = some (e, r)) :
    ∃ used, ts = used ++ r ∧ Derives shape Prim .or used e := by
  rw [readOr] at h
  split at h
  · rename_i f r' hf
    split at h
    · obtain ⟨used, hu, hd⟩ := readAnd_sound hp ts hf
      obtain ⟨more, hm, hd'⟩ := orLoop_sound hp r' h (.ofAnd hd)
      exact ⟨used ++ more, by simp [hu, hm], hd'⟩
    · cases h
  · cases h
termination_by 4 * ts.length + 3
decreasing_by all_goals omega

theorem orLoop_sound (hp : PrimSpec shape Prim prim) (ts : List τ) {acc e : Expr α}
    {pre r : List τ} (h : orLoop shape prim acc ts = some (e, r))
    (hacc : Derives shape Prim .or pre acc) :
    ∃ used, ts = used ++ r ∧ Derives shape Prim .or (pre ++ used) e := by
  match ts with
  | [] =>
    rw [orLoop] at h
    obtain ⟨rfl, rfl⟩ := Prod.mk.inj (Option.some.inj h)
    exact ⟨[], rfl, by simpa using hacc⟩
  | t :: us =>
    rw [orLoop] at h
    split at h
    · rename_i ht
      split at h
      · rename_i f r' hf
        split at h
        · obtain ⟨used, hu, hd⟩ := readAnd_sound hp us hf
          obtain ⟨more, hm, hd'⟩ := orLoop_sound hp r' h (.orSnoc hacc ht hd)
          exact ⟨t :: (used ++ more), by simp [hu, hm], by simpa using hd'⟩
        · cases h
      · cases h
    · obtain ⟨rfl, rfl⟩ := Prod.mk.inj (Option.some.inj h)
      exact ⟨[], rfl, by simpa using hacc⟩
termination_by 4 * ts.length + 1
decreasing_by all_goals (simp; omega)
end

/-! What is derivable is read. A derivation at the and level hands its tree to the
loop, which decides alone how far the repetition goes; at the or level the word
must not be followed by a token the inner loop would take. -/

def NotStarting (shape : τ → Shape) (s : Shape) (ts : List τ) : Prop :=
  ∀ t us, ts = t :: us → shape t ≠ s

theorem andLoop_stop {ts : List τ} (acc : Expr α) (h : NotStarting shape .conj ts) :
    andLoop shape prim acc ts = some (acc, ts) := by
  cases ts with
  | nil => simp [andLoop]
  | cons t us => rw [andLoop, if_neg (h t us rfl)]

theorem orLoop_stop {ts : List τ} (acc : Expr α) (h : NotStarting shape .disj ts) :
    orLoop shape prim acc ts = some (acc, ts) := by
  cases ts with
  | nil => simp [orLoop]
  | cons t us => rw [orLoop, if_neg (h t us rfl)]

def Reads (shape : τ → Shape) (prim : List τ → Option (α × List τ)) :
    Level → List τ → Expr α → Prop
  | .not, ts, e => ∀ r, readNot shape prim (ts ++ r) = some (e, r)
  | .and, ts, e => ∀ r, readAnd shape prim (ts ++ r) = andLoop shape prim e r
  | .or, ts, e => ∀ r, NotStarting shape .conj r →
      readOr shape prim (ts ++ r) = orLoop shape prim e r

theorem length_lt_append {ts : List τ} (h : ts ≠ []) (r : List τ) :
    r.length < (ts ++ r).length := by
  have := List.length_pos_iff.mpr h
  simp; omega

theorem Derives.reads (hp : PrimSpec shape Prim prim) {lvl : Level} {ts : List τ} {e : Expr α}
    (h : Derives shape Prim lvl ts e) : Reads shape prim lvl ts e := by
  -- on the derivation; what follows the word is arbitrary, so that the cases fit behind each other
  induction h with
  | prim ha =>
    intro r
    obtain ⟨t, us, rfl, hn, hl⟩ := hp.head ha
    have hread := hp.complete ha r
    rw [List.cons_append] at hread ⊢
    rw [readNot_prim _ hn hl, hread]
    rfl
  | @neg t ts e ht _ ih =>
    intro r
    rw [List.cons_append, readNot_neg _ ht, ih r]
    rfl
  | @paren l ts c e hl hd hc ih =>
    intro r
    have hstop : NotStarting shape .conj (c :: r) := by
      rintro t us ⟨⟩
      simp [hc]
    have hstop' : NotStarting shape .disj (c :: r) := by
      rintro t us ⟨⟩
      simp [hc]
    have hread := ih (c :: r) hstop
    rw [orLoop_stop e hstop'] at hread
    have hword : l :: (ts ++ [c]) ++ r = l :: (ts ++ c :: r) := by simp
    rw [hword, readNot_lparen _ hl, hread]
    simp only [closeParen, hc, if_true]
  | @ofNot ts e hd ih =>
    intro r
    rw [readAnd, ih r]
    simp only [length_lt_append (hd.ne_nil hp) r, if_true]
  | @andSnoc ts o us e f _ ho hd ih ih' =>
    intro r
    have hword : ts ++ o :: us ++ r = ts ++ (o :: (us ++ r)) := by simp
    rw [hword, ih, andLoop, if_pos ho, ih' r]
    simp only [length_lt_append (hd.ne_nil hp) r, if_true]
  | @ofAnd ts e hd ih =>
    intro r hr
    rw [readOr, ih r, andLoop_stop e hr]
    simp only [length_lt_append (hd.ne_nil hp) r, if_true]
  | @orSnoc ts o us e f _ ho hd ih ih' =>
    intro r hr
    have hstop : NotStarting shape .conj (o :: (us ++ r)) := by
      rintro t vs ⟨⟩
      simp [ho]
    have hword : ts ++ o :: us ++ r = ts ++ (o :: (us ++ r)) := by simp
    rw [hword, ih _ hstop, orLoop, if_pos ho, ih' r, andLoop_stop f hr]
    simp only [length_lt_append (hd.ne_nil hp) r, if_true]

/-- The reader and the grammar accept the same whole words, with the same trees. -/
theorem readOr_iff (hp : PrimSpec shape Prim prim) (ts : List τ) (e : Expr α) :
    readOr shape prim ts = some (e, []) ↔ Derives shape Prim .or ts e := by
  constructor
  · intro h
    obtain ⟨used, hu, hd⟩ := readOr_sound hp ts h
    simpa [hu] using hd
  · intro h
    have hnil : ∀ s, NotStarting shape s ([] : List τ) := by
      rintro s t us ⟨⟩
    have hread := h.reads hp [] (hnil .conj)
    rwa [List.append_nil, orLoop_stop e (hnil .disj)] at hread

theorem not_derives (hp : PrimSpec shape Prim prim) {t : τ} {us : List τ} {e : Expr α}
    (hneg : shape t ≠ .neg) (hlparen : shape t ≠ .lparen) (hprim : prim (t :: us) = none) :
    ¬Derives shape Prim .or (t :: us) e := by
  intro h
  have hread := (readOr_iff hp _ _).mpr h
  rw [readOr, readAnd, readNot_prim us hneg hlparen, hprim] at hread
  cases hread

theorem Derives.unique (hp : PrimSpec shape Prim prim) {ts : List τ} {e f : Expr α}
    (he : Derives shape Prim .or ts e) (hf : Derives shape Prim .or ts f) : e = f := by
  have h := ((readOr_iff hp ts e).mpr he).symm.trans ((readOr_iff hp ts f).mpr hf)
  exact (Prod.mk.inj (Option.some.inj h)).1

theorem readNot_length_lt (hp : PrimSpec shape Prim prim) {ts r : List τ} {e : Expr α}
    (h : readNot shape prim ts = some (e, r)) : r.length < ts.length := by
  obtain ⟨used, rfl, hd⟩ := readNot_sound hp ts h
  exact length_lt_append (hd.ne_nil hp) r

theorem readAnd_length_lt (hp : PrimSpec shape Prim prim) {ts r : List τ} {e : Expr α}
    (h : readAnd shape prim ts = some (e, r)) : r.length < ts.length := by
  obtain ⟨used, rfl, hd⟩ := readAnd_sound hp ts h
  exact length_lt_append (hd.ne_nil hp) r

/-! The loops only ever grow the tree they are handed. -/

theorem andLoop_size_le (w : α → Nat) (ts : List τ) {acc e : Expr α} {r : List τ}
    (h : andLoop shape prim acc ts = some (e, r)) : acc.size w ≤ e.size w := by
  match ts with
  | [] =>
    rw [andLoop] at h
    obtain ⟨rfl, -⟩ := Prod.mk.inj (Option.some.inj h)
    exact Nat.le_refl _
  | t :: us =>
    rw [andLoop] at h
    split at h
    · split at h
      · rename_i f r' hf
        split at h
        · have ih := andLoop_size_le w r' h
          simp only [Expr.size] at ih
          omega
        · cases h
      · cases h
    · obtain ⟨rfl, -⟩ := Prod.mk.inj (Option.some.inj h)
      exact Nat.le_refl _
termination_by ts.length
decreasing_by simp; omega

theorem orLoop_size_le (w : α → Nat) (ts : List τ) {acc e : Expr α} {r : List τ}
    (h : orLoop shape prim acc ts = some (e, r)) : acc.size w ≤ e.size w := by
  match ts with
  | [] =>
    rw [orLoop] at h
    obtain ⟨rfl, -⟩ := Prod.mk.inj (Option.some.inj h)
    exact Nat.le_refl _
  | t :: us =>
    rw [orLoop] at h
    split at h
    · split at h
      · rename_i f r' hf
        split at h
        · have ih := orLoop_size_le w r' h
          simp only [Expr.size] at ih
          omega
        · cases h
      · cases h
    · obtain ⟨rfl, -⟩ := Prod.mk.inj (Option.some.inj h)
      exact Nat.le_refl _
termination_by ts.length
decreasing_by simp; omega

end MyWireshark.BoolGrammar
