import MyWireshark.Filter.Descent

/-! When every node made takes a token of its own, an arena as large as the token array
never runs out: the parsers keep at least as many tokens behind the cursor as nodes. -/
namespace MyWireshark.Filter
open BoolGrammar
variable {τ β : Type}

/-- `k` more nodes can be made for the tokens already taken, and no error so far is about
the size of the arena. -/
structure Slack (k : Nat) (p : Parser τ) : Prop where
  fits : p.c.failed = true ∨ p.count + k ≤ p.c.pos
  inside : p.c.pos ≤ p.c.toks.length
  room : p.c.toks.length ≤ p.cap
  clean : tooComplex ∉ p.c.raised

theorem Slack.mono {p : Parser τ} {j k : Nat} (h : Slack k p) (hj : j ≤ k) : Slack j p := by
  refine ⟨?_, h.inside, h.room, h.clean⟩
  rcases h.fits with hf | hle
  · exact .inl hf
  · exact .inr (by omega)

theorem Slack.fail {p : Parser τ} {k : Nat} (h : Slack k p) {m : String} (hm : m ≠ tooComplex) :
    Slack k (p.fail m) := by
  refine ⟨.inl (Ctx.fail_failed _ m), ?_, ?_, ?_⟩
  · simpa [Parser.fail] using h.inside
  · simpa [Parser.fail] using h.room
  · simpa [Parser.fail, h.clean] using hm.symm

theorem Slack.mkNode {p : Parser τ} {k : Nat} (h : Slack (k + 1) p) (x : Node β) :
    Slack k (mkNode p x).2 := by
  by_cases hf : p.c.failed = true
  · simpa [Filter.mkNode, hf] using h.mono (Nat.le_succ k)
  · have hle : p.count + (k + 1) ≤ p.c.pos := h.fits.resolve_left hf
    have hroom : p.count < p.cap := by
      have := h.inside
      have := h.room
      omega
    rw [mkNode_ok (by simpa using hf) hroom]
    exact ⟨.inr (by simp only; omega), h.inside, h.room, h.clean⟩

/-- A parse function that uses no more slack than it makes. -/
def Thrifty (f : Parser τ → Option (Node β × Parser τ)) : Prop :=
  ∀ {k p n q}, Slack k p → f p = some (n, q) → Slack k q

theorem head_thrifty {first : Parser τ → Option (Node β × Parser τ)}
    {loop : Node β → Parser τ → Option (Node β × Parser τ)} (hfirst : Thrifty first)
    (hloop : ∀ left, Thrifty (loop left)) :
    Thrifty fun p => (first p).bind fun r => loop r.1 r.2 := by
  intro k p n q hp h
  obtain ⟨⟨left, p₁⟩, hl, h⟩ := Option.bind_eq_some_iff.mp h
  exact hloop left (hfirst hp hl) h

variable [Lexeme τ]

theorem Slack.advance {p q : Parser τ} {k : Nat} {t : τ} (h : Slack k p)
    (hadv : pAdvance p = some (t, q)) : Slack k q ∧ (Lexeme.isEnd t = false → Slack (k + 1) q) := by
  cases hpk : pPeek p with
  | none => simp [pAdvance, hpk] at hadv
  | some u =>
    have hlt : p.c.pos < p.c.toks.length := (List.getElem?_eq_some_iff.mp hpk).1
    by_cases hu : Lexeme.isEnd u = true
    · obtain ⟨rfl, rfl⟩ : u = t ∧ p = q := by simpa [pAdvance, hpk, hu] using hadv
      exact ⟨h, by simp [hu]⟩
    · obtain ⟨rfl, rfl⟩ : u = t ∧ p.next = q := by simpa [pAdvance, hpk, hu] using hadv
      have hnext : Slack (k + 1) p.next := by
        refine ⟨?_, hlt, h.room, h.clean⟩
        rcases h.fits with hf | hle
        · exact .inl hf
        · exact .inr (by simp only [Parser.next]; omega)
      exact ⟨hnext.mono (Nat.le_succ k), fun _ => hnext⟩

theorem Slack.operator {p q : Parser τ} {k : Nat} {t u : τ} (h : Slack k p)
    (hpk : pPeek p = some t) (hs : Lexeme.shape t ≠ .other) (hadv : pAdvance p = some (u, q)) :
    Slack (k + 1) q := by
  have hend : Lexeme.isEnd t = false := by
    by_contra hend
    exact hs (Lexeme.shape_end t (by simpa using hend))
  obtain ⟨rfl, rfl⟩ : t = u ∧ p.next = q := by simpa [pAdvance, hpk, hend] using hadv
  exact (h.advance hadv).2 hend

variable {primitive : Parser τ → Option (Node β × Parser τ)} {stop : Bool}

theorem parseNot_thrifty {fuel : Nat} (hprim : Thrifty primitive)
    (ihNot : Thrifty (parseNot primitive stop fuel))
    (ihExpr : Thrifty (parseExpr primitive stop fuel)) :
    Thrifty (parseNot primitive stop (fuel + 1)) := by
  intro k p n q hp h
  simp only [parseNot, Option.bind_eq_bind, Option.bind_eq_some_iff] at h
  obtain ⟨t, hpk, h⟩ := h
  split_ifs at h with hneg hlp
  · obtain ⟨⟨u, p₁⟩, hadv, h⟩ := Option.bind_eq_some_iff.mp h
    obtain ⟨⟨operand, p₂⟩, hop, h⟩ := Option.bind_eq_some_iff.mp h
    have h₂ := ihNot (hp.operator hpk (by simp [hneg]) hadv) hop
    obtain rfl : (mkNode p₂ (.not operand)).2 = q := congrArg Prod.snd (Option.some.inj h)
    exact h₂.mkNode _
  · obtain ⟨⟨u, p₁⟩, hadv, h⟩ := Option.bind_eq_some_iff.mp h
    obtain ⟨⟨inner, p₂⟩, hin, h⟩ := Option.bind_eq_some_iff.mp h
    obtain ⟨⟨v, p₃⟩, hadv', h⟩ := Option.bind_eq_some_iff.mp h
    have h₂ := ihExpr (hp.advance hadv).1 hin
    have h₃ := (h₂.advance hadv').1
    split_ifs at h with hrp
    · obtain rfl : p₃.fail "expected ')'" = q := congrArg Prod.snd (Option.some.inj h)
      exact h₃.fail (by decide)
    · obtain rfl : p₃ = q := congrArg Prod.snd (Option.some.inj h)
      exact h₃
  · exact hprim hp h

theorem loopBody_thrifty (op : Shape) {mk : Node β → Node β → Node β}
    {inner : Parser τ → Option (Node β × Parser τ)}
    {again : Node β → Parser τ → Option (Node β × Parser τ)} (hop : op ≠ .other)
    (hinner : Thrifty inner) (hagain : ∀ left, Thrifty (again left)) (left : Node β) :
    Thrifty (loopBody stop op mk inner again left) := by
  intro k p n q hp h
  simp only [loopBody, Option.bind_eq_bind, Option.bind_eq_some_iff] at h
  obtain ⟨t, hpk, h⟩ := h
  split_ifs at h with hs
  · obtain ⟨⟨u, p₁⟩, hadv, h⟩ := Option.bind_eq_some_iff.mp h
    obtain ⟨⟨right, p₂⟩, hin, h⟩ := Option.bind_eq_some_iff.mp h
    have h₂ := hinner (hp.operator hpk (by simpa [hs] using hop) hadv) hin
    have h₃ := h₂.mkNode (mk left right)
    split_ifs at h with hnull
    · obtain rfl : (mkNode p₂ (mk left right)).2 = q := congrArg Prod.snd (Option.some.inj h)
      exact h₃
    · exact hagain _ h₃ h
  · obtain rfl : p = q := congrArg Prod.snd (Option.some.inj h)
    exact hp

theorem parse_thrifty (hprim : Thrifty primitive) (fuel : Nat) :
    Thrifty (parseNot primitive stop fuel) ∧ Thrifty (parseAnd primitive stop fuel) ∧
      (∀ left, Thrifty (parseAndLoop primitive stop fuel left)) ∧
      Thrifty (parseExpr primitive stop fuel) ∧
      ∀ left, Thrifty (parseExprLoop primitive stop fuel left) := by
  induction fuel with
  | zero =>
    refine ⟨?_, ?_, fun left => ?_, ?_, fun left => ?_⟩ <;>
      · intro k p n q _ h
        simp [parseNot, parseAnd, parseAndLoop, parseExpr, parseExprLoop] at h
  | succ fuel ih =>
    obtain ⟨ihNot, ihAnd, ihAndLoop, ihExpr, ihExprLoop⟩ := ih
    exact ⟨parseNot_thrifty hprim ihNot ihExpr, head_thrifty ihNot ihAndLoop,
      loopBody_thrifty .conj (by simp) ihNot ihAndLoop, head_thrifty ihAnd ihExprLoop,
      loopBody_thrifty .disj (by simp) ihAnd ihExprLoop⟩

/-- The parser stage never complains about the size of the arena. -/
theorem parseStage_clean (hprim : Thrifty primitive) {p q : Parser τ} {root : Node β}
    (hp : Slack 0 p) (h : parseStage primitive stop p = some (root, q)) :
    tooComplex ∉ q.c.raised := by
  obtain ⟨⟨root', p₁⟩, hexpr, h⟩ := Option.bind_eq_some_iff.mp h
  have h₁ := (parse_thrifty hprim (parseFuel p)).2.2.2.1 hp hexpr
  simp only at h
  split_ifs at h with hf
  · obtain rfl : p₁ = q := congrArg Prod.snd (Option.some.inj h)
    exact h₁.clean
  · obtain ⟨t, hpk, h⟩ := Option.bind_eq_some_iff.mp h
    split_ifs at h with hend
    · obtain rfl : p₁ = q := congrArg Prod.snd (Option.some.inj h)
      exact h₁.clean
    · obtain rfl : p₁.fail "unexpected trailing tokens in filter expression" = q :=
        congrArg Prod.snd (Option.some.inj h)
      exact (h₁.fail (by decide)).clean

end MyWireshark.Filter
