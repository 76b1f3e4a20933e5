import MyWireshark.Filter.Follows

/-! The shared parser against the Boolean grammar: on any tokens the parse functions do
what the reader of the grammar does on the word that is left. -/
namespace MyWireshark.Filter
open BoolGrammar
variable {τ α β : Type} [Lexeme τ]

section simulation
variable {g : α → Node β} {Prim : List τ → α → Prop} {prim : List τ → Option (α × List τ)}
  {primitive : Parser τ → Option (Node β × Parser τ)} {stop : Bool}

def readPrim (prim : List τ → Option (α × List τ)) (ts : List τ) : Option (Expr α × List τ) :=
  (prim ts).map fun (a, r) => (.prim a, r)

theorem prim_nil (hp : PrimSpec Lexeme.shape Prim prim) : prim [] = none := by
  cases h : prim [] with
  | none => rfl
  | some ar =>
    obtain ⟨used, hu, ha⟩ := hp.sound h
    obtain ⟨t, us, rfl, -⟩ := hp.head ha
    simp at hu

theorem parseParen_tail {fuel : Nat} {p q : Parser τ} {t : τ} {n : Node β} {m : Nat}
    (hlp : Lexeme.shape t = .lparen) (hpk : pPeek p = some t)
    (hadv : pAdvance p = some (t, p.next))
    (hq : parseExpr primitive stop fuel p.next = some (n, q)) (hpq : Advances p m q) :
    ∃ n' q', parseNot primitive stop (fuel + 1) p = some (n', q') ∧ Advances p m q' ∧
      q'.cap = q.cap ∧
      (∀ {b : Nat} {e : Expr α} {r : List τ}, q.c.failed = false →
        q.count = b + (Node.ofExpr g e).nodes → Remaining q.c r →
        b + (Node.ofExpr g e).nodes ≤ q.cap → n = Node.ofExpr g e →
        Follows g b (closeParen Lexeme.shape (some (e, r))) n' q') ∧
      (q.c.failed = true → q'.c.failed = true) := by
  obtain ⟨vs, hvs, hvl⟩ := hpq.left
  cases vs with
  | nil =>
    obtain ⟨e, hadv', he⟩ := pAdvance_end hvs
    refine ⟨.null, q.fail "expected ')'", ?_, hpq.fail _, rfl, ?_, ?_⟩
    · simp [parseNot, hpk, hlp, hadv, hq, hadv', Lexeme.shape_end e he]
    · intro b e' r hok hcount hleft hle hn
      rw [hleft.unique hvs]
      exact Ctx.fail_failed _ _
    · intro _
      exact Ctx.fail_failed _ _
  | cons v vs =>
    obtain ⟨hadv', hrem'⟩ := pAdvance_cons hvs
    have hpn := (hpq.trans (Advances.step hvs) (by simp at hvl; omega))
    by_cases hv : Lexeme.shape v = .rparen
    · refine ⟨n, q.next, ?_, hpn, rfl, ?_, ?_⟩
      · simp [parseNot, hpk, hlp, hadv, hq, hadv', hv]
      · intro b e r hok hcount hleft hle hn
        rw [hleft.unique hvs]
        have hroom : b + (Node.ofExpr g e).nodes ≤ q.next.cap := hle
        simp only [closeParen, hv, if_true, Follows, if_pos hroom]
        exact ⟨hn, hok, hcount, hrem'⟩
      · exact id
    · refine ⟨.null, q.next.fail "expected ')'", ?_, hpn.fail _, rfl, ?_, ?_⟩
      · simp [parseNot, hpk, hlp, hadv, hq, hadv', hv]
      · intro b e r hok hcount hleft hle hn
        rw [hleft.unique hvs]
        simp only [closeParen, hv, if_false]
        exact Ctx.fail_failed _ _
      · intro _
        exact Ctx.fail_failed _ _

theorem parseNot_step (hp : PrimSpec Lexeme.shape Prim prim) {fuel : Nat}
    (hprim : ∀ (p : Parser τ) ts, Remaining p.c ts → Simulates g primitive (readPrim prim) p ts)
    (ihNot : ∀ (p : Parser τ) ts, Remaining p.c ts → 4 * ts.length + 1 ≤ fuel →
      Simulates g (parseNot primitive stop fuel) (readNot Lexeme.shape prim) p ts)
    (ihOr : ∀ (p : Parser τ) ts, Remaining p.c ts → 4 * ts.length + 3 ≤ fuel →
      Simulates g (parseExpr primitive stop fuel) (readOr Lexeme.shape prim) p ts)
    (p : Parser τ) (ts : List τ) (h : Remaining p.c ts) (hf : 4 * ts.length + 1 ≤ fuel + 1) :
    Simulates g (parseNot primitive stop (fuel + 1)) (readNot Lexeme.shape prim) p ts := by
  cases ts with
  | nil =>
    obtain ⟨e, hpk, he⟩ := pPeek_end h
    obtain ⟨n, q, hq, ha, hfol⟩ := hprim p [] h
    refine ⟨n, q, ?_, ha, ?_⟩
    · simpa [parseNot, hpk, Lexeme.shape_end e he] using hq
    · intro hok
      simpa [readPrim, prim_nil hp, readNot, Follows] using hfol hok
  | cons t us =>
    obtain ⟨hpk, -⟩ := pPeek_cons h
    obtain ⟨hadv, hrem⟩ := pAdvance_cons h
    have hstep := Advances.step h
    simp only [List.length_cons] at hf
    by_cases hneg : Lexeme.shape t = .neg
    · obtain ⟨n, q, hq, ha, hfol⟩ := ihNot p.next us hrem (by omega)
      refine ⟨(mkNode q (.not n)).1, (mkNode q (.not n)).2, ?_, ?_, ?_⟩
      · simp [parseNot, hpk, hneg, hadv, hq]
      · exact ((hstep.trans ha (Nat.le_refl _)).mkNode _).mono (by simp)
      · intro hok
        have hfol : Follows g p.count _ n q := hfol hok
        rw [readNot_neg us hneg]
        cases hr : readNot Lexeme.shape prim us with
        | none =>
          rw [hr] at hfol
          exact mkNode_failed hfol _
        | some er =>
          rw [hr] at hfol
          apply Follows.mkNode (s := (Node.ofExpr g er.1).nodes) rfl
          obtain ⟨-, rfl, hgood⟩ | hbad := hfol.some_cases
          · exact Or.inl ⟨rfl, hgood⟩
          · exact Or.inr hbad
    · by_cases hlp : Lexeme.shape t = .lparen
      · obtain ⟨n, q, hq, ha, hfol⟩ := ihOr p.next us hrem (by omega)
        have hpq := (hstep.trans ha (Nat.le_refl _)).mono (m := (t :: us).length) (by simp)
        obtain ⟨n', q', hq', hpq', hcap, hok', hbad'⟩ := parseParen_tail hlp hpk hadv hq hpq
        refine ⟨n', q', hq', hpq', ?_⟩
        intro hok
        have hfol : Follows g p.count _ n q := hfol hok
        rw [readNot_lparen us hlp]
        cases hr : readOr Lexeme.shape prim us with
        | none =>
          rw [hr] at hfol
          exact hbad' hfol
        | some er =>
          obtain ⟨e, r⟩ := er
          rw [hr] at hfol
          obtain ⟨hle, rfl, hgood, hcount, hleft⟩ | ⟨hgt, hbad⟩ := hfol.some_cases
          · exact hok' hgood hcount hleft hle rfl
          · refine Follows.of_failed (hbad' hbad) ?_
            intro e' r' he
            obtain ⟨c, hc, -⟩ := closeParen_some he
            obtain ⟨rfl, -⟩ := Prod.mk.inj (Option.some.inj hc)
            rw [hcap]
            exact hgt
      · obtain ⟨n, q, hq, ha, hfol⟩ := hprim p (t :: us) h
        refine ⟨n, q, ?_, ha, ?_⟩
        · simpa [parseNot, hpk, hneg, hlp] using hq
        · rwa [readNot_prim us hneg hlp]

/-! The two loops differ in the connective, the operand and the node they build. -/

def loopBody (stop : Bool) (op : Shape) (mk : Node β → Node β → Node β)
    (inner : Parser τ → Option (Node β × Parser τ))
    (again : Node β → Parser τ → Option (Node β × Parser τ)) (left : Node β) (p : Parser τ) :
    Option (Node β × Parser τ) := do
  let t ← pPeek p
  if Lexeme.shape t = op then
    let (_, p) ← pAdvance p
    let (right, p) ← inner p
    let (n, p) := mkNode p (mk left right)
    if stop && n.isNull then
      return (.null, p)
    else
      again n p
  else
    return (left, p)

def readBody (op : Shape) (mk : Expr α → Expr α → Expr α)
    (inner : List τ → Option (Expr α × List τ))
    (again : Expr α → List τ → Option (Expr α × List τ)) (acc : Expr α) (ts : List τ) :
    Option (Expr α × List τ) :=
  match ts with
  | [] => some (acc, [])
  | t :: us =>
    if Lexeme.shape t = op then
      match inner us with
      | some (e, r) => if r.length < us.length then again (mk acc e) r else none
      | none => none
    else some (acc, t :: us)

theorem andLoop_body (acc : Expr α) (ts : List τ) :
    andLoop Lexeme.shape prim acc ts =
      readBody .conj .conj (readNot Lexeme.shape prim) (andLoop Lexeme.shape prim) acc ts := by
  cases ts <;> (rw [andLoop]; rfl)

theorem orLoop_body (acc : Expr α) (ts : List τ) :
    orLoop Lexeme.shape prim acc ts =
      readBody .disj .disj (readAnd Lexeme.shape prim) (orLoop Lexeme.shape prim) acc ts := by
  cases ts <;> (rw [orLoop]; rfl)

/-- A loop entered with the tree of `acc` in hand, `b` slots taken before that tree. -/
def LoopSimulates (g : α → Node β) (loop : Node β → Parser τ → Option (Node β × Parser τ))
    (read : Expr α → List τ → Option (Expr α × List τ)) (p : Parser τ) (ts : List τ) : Prop :=
  ∀ left, ∃ n q, loop left p = some (n, q) ∧ Advances p ts.length q ∧
    ∀ b acc, p.c.failed = false → left = Node.ofExpr g acc →
      p.count = b + (Node.ofExpr g acc).nodes → p.count ≤ p.cap → Follows g b (read acc ts) n q

theorem loop_operand {mk : Node β → Node β → Node β} {mkE : Expr α → Expr α → Expr α}
    (hmk : ∀ a e, Node.ofExpr g (mkE a e) = mk (Node.ofExpr g a) (Node.ofExpr g e))
    (hnodes : ∀ l r, (mk l r).nodes = l.nodes + r.nodes + 1)
    {b c : Nat} {acc e : Expr α} {r : List τ} {right : Node β} {q : Parser τ}
    (hcount : c = b + (Node.ofExpr g acc).nodes)
    (h : Follows g c (some (e, r)) right q) :
    Follows g b (some (mkE acc e, r)) (mkNode q (mk (Node.ofExpr g acc) right)).1
      (mkNode q (mk (Node.ofExpr g acc) right)).2 := by
  apply Follows.mkNode (s := (Node.ofExpr g acc).nodes + (Node.ofExpr g e).nodes)
  · rw [hmk, hnodes]
  · obtain ⟨-, rfl, hok, hq, hleft⟩ | ⟨hgt, hbad⟩ := h.some_cases
    · exact Or.inl ⟨(hmk acc e).symm, hok, by omega, hleft⟩
    · exact Or.inr ⟨by omega, hbad⟩

/-- The end of one iteration: an error already recorded stays, and without one the loop
goes round again. -/
theorem loop_iteration {op : Shape} {mk : Node β → Node β → Node β}
    {inner : Parser τ → Option (Node β × Parser τ)}
    {again : Node β → Parser τ → Option (Node β × Parser τ)}
    (hnull : ∀ l r, (mk l r).isNull = false)
    {p q r : Parser τ} {t : τ} {left right n : Node β} {m : Nat}
    (hpk : pPeek p = some t) (hop : Lexeme.shape t = op)
    (hadv : pAdvance p = some (t, p.next)) (hq : inner p.next = some (right, q))
    (hr : again (mkNode q (mk left right)).1 (mkNode q (mk left right)).2 = some (n, r))
    (hpq : Advances p m (mkNode q (mk left right)).2)
    (har : Advances (mkNode q (mk left right)).2 m r) :
    ∃ n' q', loopBody stop op mk inner again left p = some (n', q') ∧ Advances p m q' ∧
      ((mkNode q (mk left right)).2.c.failed = true → q'.c.failed = true) ∧
      ((mkNode q (mk left right)).2.c.failed = false → n' = n ∧ q' = r) := by
  by_cases hstop : (stop && (mkNode q (mk left right)).1.isNull) = true
  · refine ⟨.null, (mkNode q (mk left right)).2, ?_, hpq, id, ?_⟩
    · simp only [loopBody, hpk, hop, hadv, hq, hstop, Option.bind_eq_bind, Option.bind_some,
        if_true]
      rfl
    · intro hok
      have hisnull := (Bool.and_eq_true_iff.mp hstop).2
      simp [mkNode_null (hnull left right) hisnull] at hok
  · refine ⟨n, r, ?_, hpq.trans har (Nat.le_refl _), har.evolves.failed, fun _ => ⟨rfl, rfl⟩⟩
    simp only [loopBody, hpk, hop, hadv, hq, hstop, Option.bind_eq_bind, Option.bind_some,
      if_true]
    exact hr

theorem loop_step (stop : Bool) {fuel k : Nat} (op : Shape) (mk : Node β → Node β → Node β)
    (mkE : Expr α → Expr α → Expr α) {inner : Parser τ → Option (Node β × Parser τ)}
    {innerRead : List τ → Option (Expr α × List τ)}
    {again : Node β → Parser τ → Option (Node β × Parser τ)}
    {againRead : Expr α → List τ → Option (Expr α × List τ)}
    (hop : op ≠ .other) (hk : k ≤ 4) (hnull : ∀ l r, (mk l r).isNull = false)
    (hmk : ∀ a e, Node.ofExpr g (mkE a e) = mk (Node.ofExpr g a) (Node.ofExpr g e))
    (hnodes : ∀ l r, (mk l r).nodes = l.nodes + r.nodes + 1)
    (hlt : ∀ {us e r}, innerRead us = some (e, r) → r.length < us.length)
    (hgrow : ∀ {acc ts e r}, againRead acc ts = some (e, r) →
      (Node.ofExpr g acc).nodes ≤ (Node.ofExpr g e).nodes)
    (ihInner : ∀ (p : Parser τ) ts, Remaining p.c ts → 4 * ts.length + k ≤ fuel →
      Simulates g inner innerRead p ts)
    (ihAgain : ∀ (p : Parser τ) ts, Remaining p.c ts → 4 * ts.length + 1 ≤ fuel →
      LoopSimulates g again againRead p ts)
    (p : Parser τ) (ts : List τ) (h : Remaining p.c ts) (hf : 4 * ts.length + 1 ≤ fuel + 1) :
    LoopSimulates g (loopBody stop op mk inner again) (readBody op mkE innerRead againRead)
      p ts := by
  intro left
  have hleave : ∀ {t}, pPeek p = some t → Lexeme.shape t ≠ op →
      loopBody stop op mk inner again left p = some (left, p) := by
    intro t ht hne
    simp [loopBody, ht, hne]
  have hstay : ∀ b acc, p.c.failed = false → left = Node.ofExpr g acc →
      p.count = b + (Node.ofExpr g acc).nodes → p.count ≤ p.cap →
      Follows g b (some (acc, ts)) left p := by
    intro b acc hok hl hcount hcap
    simp only [Follows]
    rw [if_pos (by omega)]
    exact ⟨hl, hok, hcount, h⟩
  cases ts with
  | nil =>
    obtain ⟨e, hpk, he⟩ := pPeek_end h
    have hne : Lexeme.shape e ≠ op := by
      rw [Lexeme.shape_end e he]
      exact hop.symm
    exact ⟨left, p, hleave hpk hne, Advances.self h, hstay⟩
  | cons t us =>
    obtain ⟨hpk, -⟩ := pPeek_cons h
    by_cases hne : Lexeme.shape t = op
    · -- one operand behind the connective, the node for the two, and the loop again
      obtain ⟨hadv, hrem⟩ := pAdvance_cons h
      simp only [List.length_cons] at hf
      obtain ⟨right, q, hq, ha, hfol⟩ := ihInner p.next us hrem (by omega)
      have hpq := ((Advances.step h).trans ha (Nat.le_refl _)).mkNode (mk left right)
      obtain ⟨vs, hvs, hvl⟩ := hpq.left
      obtain ⟨n, r, hr, har, hagain⟩ := ihAgain _ vs hvs (by omega) (mkNode q (mk left right)).1
      obtain ⟨n', q', hq', hpq', hbad, hgood⟩ :=
        loop_iteration hnull hpk hne hadv hq hr hpq (har.mono hvl)
      refine ⟨n', q', hq', hpq'.mono (by simp), ?_⟩
      intro b acc hok hl hcount hcap
      subst hl
      have hin : Follows g p.count _ right q := hfol hok
      simp only [readBody, hne, if_true]
      cases hread : innerRead us with
      | none =>
        rw [hread] at hin
        exact hbad (mkNode_failed hin _)
      | some er =>
        obtain ⟨e, rest⟩ := er
        rw [hread] at hin
        simp only [hlt hread, if_true]
        obtain ⟨hle, hn, hok', hcount', hleft⟩ | ⟨hgt, hf'⟩ :=
          (loop_operand hmk hnodes hcount hin).some_cases
        · obtain ⟨rfl, rfl⟩ := hgood hok'
          rw [hleft.unique hvs]
          exact hagain b (mkE acc e) hok' hn hcount' (by omega)
        · -- the arena is full already, and what the reader goes on to build is not smaller
          refine Follows.of_failed (hbad hf') ?_
          intro e' r' he'
          have hsize := hgrow he'
          have hcap' := hpq'.cap
          have hcap'' := hpq.cap
          omega
    · refine ⟨left, p, hleave hpk hne, Advances.self h, ?_⟩
      simpa [readBody, hne] using hstay

theorem head_step {f inner : Parser τ → Option (Node β × Parser τ)}
    {read innerRead : List τ → Option (Expr α × List τ)}
    {loop : Node β → Parser τ → Option (Node β × Parser τ)}
    {loopRead : Expr α → List τ → Option (Expr α × List τ)} {p : Parser τ} {ts : List τ}
    (hdef : f p = inner p >>= fun x => loop x.1 x.2)
    (hread : read ts = (innerRead ts).bind fun x => loopRead x.1 x.2)
    (hgrow : ∀ {acc us e r}, loopRead acc us = some (e, r) →
      (Node.ofExpr g acc).nodes ≤ (Node.ofExpr g e).nodes)
    (hinner : Simulates g inner innerRead p ts)
    (hloop : ∀ (q : Parser τ) us, Remaining q.c us → us.length ≤ ts.length →
      LoopSimulates g loop loopRead q us) : Simulates g f read p ts := by
  obtain ⟨left, q, hq, hpq, hfol⟩ := hinner
  obtain ⟨us, hus, hul⟩ := hpq.left
  obtain ⟨n, r, hr, hqr, hafter⟩ := hloop q us hus hul left
  refine ⟨n, r, ?_, hpq.trans hqr hul, ?_⟩
  · rw [hdef, hq]
    exact hr
  · intro hok
    have hin := hfol hok
    rw [hread]
    cases hi : innerRead ts with
    | none =>
      rw [hi] at hin
      exact hqr.evolves.failed hin
    | some er =>
      obtain ⟨e, rest⟩ := er
      rw [hi] at hin
      simp only [Option.bind_some]
      obtain ⟨hle, hn, hok', hcount, hleft⟩ | ⟨hgt, hbad⟩ := hin.some_cases
      · rw [hleft.unique hus]
        exact hafter p.count e hok' hn hcount (by omega)
      · refine Follows.of_failed (hqr.evolves.failed hbad) ?_
        intro e' r' he'
        have hsize := hgrow he'
        have hcap := hqr.cap
        omega

theorem readAnd_bind (hp : PrimSpec Lexeme.shape Prim prim) (ts : List τ) :
    readAnd Lexeme.shape prim ts =
      (readNot Lexeme.shape prim ts).bind fun x => andLoop Lexeme.shape prim x.1 x.2 := by
  rw [readAnd]
  cases h : readNot Lexeme.shape prim ts with
  | none => rfl
  | some er => simp only [readNot_length_lt hp h, if_true, Option.bind_some]

theorem readOr_bind (hp : PrimSpec Lexeme.shape Prim prim) (ts : List τ) :
    readOr Lexeme.shape prim ts =
      (readAnd Lexeme.shape prim ts).bind fun x => orLoop Lexeme.shape prim x.1 x.2 := by
  rw [readOr]
  cases h : readAnd Lexeme.shape prim ts with
  | none => rfl
  | some er => simp only [readAnd_length_lt hp h, if_true, Option.bind_some]

theorem andLoop_nodes_le {acc e : Expr α} {us r : List τ}
    (h : andLoop Lexeme.shape prim acc us = some (e, r)) :
    (Node.ofExpr g acc).nodes ≤ (Node.ofExpr g e).nodes := by
  simpa only [Node.nodes_ofExpr] using andLoop_size_le _ us h

theorem orLoop_nodes_le {acc e : Expr α} {us r : List τ}
    (h : orLoop Lexeme.shape prim acc us = some (e, r)) :
    (Node.ofExpr g acc).nodes ≤ (Node.ofExpr g e).nodes := by
  simpa only [Node.nodes_ofExpr] using orLoop_size_le _ us h

/-- With fuel for the tokens left, every parse function returns and follows the reader.
The induction is on the fuel: each call has less of it, and the tokens left bound how
much each of the five functions needs. -/
theorem descent (stop : Bool) (hp : PrimSpec Lexeme.shape Prim prim)
    (hprim : ∀ (p : Parser τ) ts, Remaining p.c ts → Simulates g primitive (readPrim prim) p ts)
    (fuel : Nat) : ∀ (p : Parser τ) ts, Remaining p.c ts →
      (4 * ts.length + 1 ≤ fuel →
        Simulates g (parseNot primitive stop fuel) (readNot Lexeme.shape prim) p ts) ∧
      (4 * ts.length + 2 ≤ fuel →
        Simulates g (parseAnd primitive stop fuel) (readAnd Lexeme.shape prim) p ts) ∧
      (4 * ts.length + 1 ≤ fuel →
        LoopSimulates g (parseAndLoop primitive stop fuel) (andLoop Lexeme.shape prim) p ts) ∧
      (4 * ts.length + 3 ≤ fuel →
        Simulates g (parseExpr primitive stop fuel) (readOr Lexeme.shape prim) p ts) ∧
      (4 * ts.length + 1 ≤ fuel →
        LoopSimulates g (parseExprLoop primitive stop fuel) (orLoop Lexeme.shape prim) p ts) := by
  induction fuel with
  | zero =>
    intro p ts _
    refine ⟨?_, ?_, ?_, ?_, ?_⟩ <;> (intro hf; omega)
  | succ fuel ih =>
    intro p ts h
    have ihNot := fun q us hq => (ih q us hq).1
    have ihAnd := fun q us hq => (ih q us hq).2.1
    have ihAndLoop := fun q us hq => (ih q us hq).2.2.1
    have ihOr := fun q us hq => (ih q us hq).2.2.2.1
    have ihOrLoop := fun q us hq => (ih q us hq).2.2.2.2
    refine ⟨?_, ?_, ?_, ?_, ?_⟩
    · exact parseNot_step hp hprim ihNot ihOr p ts h
    · intro hf
      exact head_step rfl (readAnd_bind hp ts) andLoop_nodes_le (ihNot p ts h (by omega))
        fun q us hq hl => ihAndLoop q us hq (by omega)
    · intro hf
      have hstep := loop_step stop .conj .and .conj (by decide) (by omega) (fun _ _ => rfl)
        (fun _ _ => rfl) (fun _ _ => rfl) (fun h => readNot_length_lt hp h) andLoop_nodes_le
        ihNot ihAndLoop p ts h hf
      intro left
      obtain ⟨n, q, hq, ha, hfol⟩ := hstep left
      refine ⟨n, q, hq, ha, ?_⟩
      intro b acc
      rw [andLoop_body]
      exact hfol b acc
    · intro hf
      exact head_step rfl (readOr_bind hp ts) orLoop_nodes_le (ihAnd p ts h (by omega))
        fun q us hq hl => ihOrLoop q us hq (by omega)
    · intro hf
      have hstep := loop_step stop .disj .or .disj (by decide) (by omega) (fun _ _ => rfl)
        (fun _ _ => rfl) (fun _ _ => rfl) (fun h => readAnd_length_lt hp h) orLoop_nodes_le
        ihAnd ihOrLoop p ts h hf
      intro left
      obtain ⟨n, q, hq, ha, hfol⟩ := hstep left
      refine ⟨n, q, hq, ha, ?_⟩
      intro b acc
      rw [orLoop_body]
      exact hfol b acc

/-- The parser stage always returns. It succeeds exactly on the derivable words whose
tree the arena can hold, and then its root is that tree. -/
theorem parseStage_spec (hp : PrimSpec Lexeme.shape Prim prim)
    (hprim : ∀ (p : Parser τ) ts, Remaining p.c ts → Simulates g primitive (readPrim prim) p ts)
    (p : Parser τ) (ts : List τ) (h : Remaining p.c ts) (hok : p.c.failed = false)
    (hcount : p.count = 0) :
    ∃ root q, parseStage primitive stop p = some (root, q) ∧ p.c.Evolves q.c ∧
      (∀ e, Derives Lexeme.shape Prim .or ts e → (Node.ofExpr g e).nodes ≤ p.cap →
        q.c.failed = false) ∧
      (q.c.failed = false → ∃ e, Derives Lexeme.shape Prim .or ts e ∧
        (Node.ofExpr g e).nodes ≤ p.cap ∧ root = Node.ofExpr g e) := by
  have hfuel : 4 * ts.length + 3 ≤ parseFuel p := by
    have := h.length_lt
    simp only [parseFuel]
    omega
  obtain ⟨root, q, hq, hpq, hfol⟩ :=
    (descent stop hp hprim (parseFuel p) p ts h).2.2.2.1 hfuel
  have hfol := hfol hok
  rw [hcount] at hfol
  by_cases hbad : q.c.failed = true
  · -- parse_expr has failed: no derivable word gets here
    refine ⟨root, q, by simp [parseStage, hq, hbad], hpq.evolves, ?_, by simp [hbad]⟩
    intro e he hle
    rw [(readOr_iff hp ts e).mpr he] at hfol
    obtain ⟨-, -, hgood, -⟩ | ⟨hgt, -⟩ := hfol.some_cases
    · exact hgood
    · have := hpq.cap
      omega
  · have hgood : q.c.failed = false := by simpa using hbad
    cases hread : readOr Lexeme.shape prim ts with
    | none =>
      rw [hread] at hfol
      exact absurd hfol hbad
    | some er =>
      obtain ⟨e, r⟩ := er
      rw [hread] at hfol
      obtain ⟨hle, hroot, -, -, hleft⟩ | ⟨-, hf⟩ := hfol.some_cases
      · cases r with
        | nil =>
          obtain ⟨t, hpk, ht⟩ := pPeek_end hleft
          refine ⟨root, q, by simp [parseStage, hq, hgood, hpk, ht], hpq.evolves,
            fun _ _ _ => hgood, fun _ => ⟨e, (readOr_iff hp ts e).mp hread, ?_, hroot⟩⟩
          have := hpq.cap
          omega
        | cons t r =>
          obtain ⟨hpk, ht⟩ := pPeek_cons hleft
          refine ⟨root, q.fail "unexpected trailing tokens in filter expression",
            by simp [parseStage, hq, hgood, hpk, ht], .fail _ hpq.evolves, ?_, ?_⟩
          · intro e' he' _
            rw [(readOr_iff hp ts e').mpr he'] at hread
            simp at hread
          · intro hf
            simp [Parser.fail] at hf
      · exact absurd hf hbad

end simulation

end MyWireshark.Filter
