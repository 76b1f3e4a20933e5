import MyWireshark.Filter.Cursor

/-! What a parse function owes the reader of the grammar (`Follows`, `Simulates`), and
how the functions that only build nodes pay it. -/
namespace MyWireshark.Filter
open BoolGrammar
variable {τ α β : Type} [Lexeme τ]

/-- The AST of a grammar tree, every primitive replaced by the nodes it stands for. -/
def Node.ofExpr (g : α → Node β) : Expr α → Node β
  | .prim a => g a
  | .neg e => .not (Node.ofExpr g e)
  | .conj l r => .and (Node.ofExpr g l) (Node.ofExpr g r)
  | .disj l r => .or (Node.ofExpr g l) (Node.ofExpr g r)

theorem Node.nodes_ofExpr (g : α → Node β) (e : Expr α) :
    (Node.ofExpr g e).nodes = e.size fun a => (g a).nodes := by
  induction e with
  | prim a => rfl
  | neg e ih => simp [Node.ofExpr, Node.nodes, Expr.size, ih]
  | conj l r ihl ihr => simp [Node.ofExpr, Node.nodes, Expr.size, ihl, ihr]
  | disj l r ihl ihr => simp [Node.ofExpr, Node.nodes, Expr.size, ihl, ihr]

/-- The parser state `q` and node `n` are what the reader's answer `o` calls for, when
`b` arena slots were taken before: the tree and the rest of the word if the arena can
hold the tree, a recorded failure in every other case. -/
def Follows (g : α → Node β) (b : Nat) (o : Option (Expr α × List τ)) (n : Node β)
    (q : Parser τ) : Prop :=
  match o with
  | none => q.c.failed = true
  | some (e, r) =>
    if b + (Node.ofExpr g e).nodes ≤ q.cap then
      n = Node.ofExpr g e ∧ q.c.failed = false ∧
        q.count = b + (Node.ofExpr g e).nodes ∧ Remaining q.c r
    else q.c.failed = true

def Simulates (g : α → Node β) (f : Parser τ → Option (Node β × Parser τ))
    (read : List τ → Option (Expr α × List τ)) (p : Parser τ) (ts : List τ) : Prop :=
  ∃ n q, f p = some (n, q) ∧ Advances p ts.length q ∧
    (p.c.failed = false → Follows g p.count (read ts) n q)

theorem Follows.of_failed {g : α → Node β} {b : Nat} {o : Option (Expr α × List τ)}
    {n : Node β} {q : Parser τ} (hq : q.c.failed = true)
    (h : ∀ e r, o = some (e, r) → q.cap < b + (Node.ofExpr g e).nodes) : Follows g b o n q := by
  cases o with
  | none => exact hq
  | some er =>
    have hlt := h er.1 er.2 rfl
    simp only [Follows, if_neg (Nat.not_le.mpr hlt), hq]

theorem Follows.some_cases {g : α → Node β} {b : Nat} {e : Expr α} {r : List τ}
    {n : Node β} {q : Parser τ} (h : Follows g b (some (e, r)) n q) :
    (b + (Node.ofExpr g e).nodes ≤ q.cap ∧ n = Node.ofExpr g e ∧ q.c.failed = false ∧
        q.count = b + (Node.ofExpr g e).nodes ∧ Remaining q.c r) ∨
      (q.cap < b + (Node.ofExpr g e).nodes ∧ q.c.failed = true) := by
  simp only [Follows] at h
  split at h
  · rename_i hle
    exact Or.inl ⟨hle, h⟩
  · rename_i hgt
    exact Or.inr ⟨Nat.not_le.mp hgt, h⟩

theorem Follows.mkNode {g : α → Node β} {b s : Nat} {e : Expr α} {r : List τ} {x : Node β}
    {q : Parser τ} (hs : (Node.ofExpr g e).nodes = s + 1)
    (h : (x = Node.ofExpr g e ∧ q.c.failed = false ∧ q.count = b + s ∧ Remaining q.c r) ∨
      (q.cap < b + s ∧ q.c.failed = true)) :
    Follows g b (some (e, r)) (mkNode q x).1 (mkNode q x).2 := by
  obtain ⟨rfl, hok, hcount, hleft⟩ | ⟨hgt, hbad⟩ := h
  · by_cases hroom : q.count < q.cap
    · rw [mkNode_ok hok hroom]
      simp only [Follows]
      rw [if_pos (by omega)]
      exact ⟨trivial, hok, by omega, hleft⟩
    · refine Follows.of_failed (mkNode_full (by omega) _) ?_
      rintro e' r' ⟨⟩
      rw [mkNode_cap]
      omega
  · refine Follows.of_failed (mkNode_failed hbad _) ?_
    rintro e' r' ⟨⟩
    rw [mkNode_cap]
    omega

/-! Functions that only build nodes. -/

/-- `f` puts the tree `x` into the arena and does nothing else: without room, or after
an error, the error flag is up. -/
structure Builds (f : Parser τ → Node β × Parser τ) (x : Node β) : Prop where
  advances : ∀ {p q : Parser τ} {n : Nat}, Advances p n q → Advances p n (f q).2
  failed : ∀ {q : Parser τ}, q.c.failed = true → (f q).2.c.failed = true
  full : ∀ {q : Parser τ}, q.cap < q.count + x.nodes → (f q).2.c.failed = true
  room : ∀ {q : Parser τ}, q.c.failed = false → q.count + x.nodes ≤ q.cap →
    f q = (x, { q with count := q.count + x.nodes })

theorem Builds.leaf (b : β) : Builds (fun p : Parser τ => mkNode p (.leaf b)) (.leaf b) where
  advances h := h.mkNode _
  failed h := mkNode_failed h _
  full h := mkNode_full (Nat.lt_succ_iff.mp h) _
  room hok h := mkNode_ok hok h _

theorem Builds.pair {f f' : Parser τ → Node β × Parser τ} {x x' : Node β}
    (mk : Node β → Node β → Node β) (hmk : (mk x x').nodes = x.nodes + x'.nodes + 1)
    (h : Builds f x) (h' : Builds f' x') :
    Builds (fun p => mkNode (f' (f p).2).2 (mk (f p).1 (f' (f p).2).1)) (mk x x') where
  advances hq := (h'.advances (h.advances hq)).mkNode _
  failed hq := mkNode_failed (h'.failed (h.failed hq)) _
  full := by
    intro q hq
    by_cases hok : q.c.failed = true
    · exact mkNode_failed (h'.failed (h.failed hok)) _
    · by_cases hroom : q.count + x.nodes ≤ q.cap
      · rw [h.room (by simpa using hok) hroom]
        by_cases hroom' : q.count + x.nodes + x'.nodes ≤ q.cap
        · rw [h'.room (by simpa using hok) hroom']
          exact mkNode_full (by simp only; omega) _
        · exact mkNode_failed (h'.full (by simp only; omega)) _
      · exact mkNode_failed (h'.failed (h.full (by omega))) _
  room := by
    intro q hok hq
    have hx := h.room hok (by omega)
    have hx' := h'.room (q := { q with count := q.count + x.nodes }) hok (by simp only; omega)
    simp only [hx, hx']
    have hmkNode := mkNode_ok (p := { q with count := q.count + x.nodes + x'.nodes }) hok
      (by simp only; omega) (mk x x')
    simp only [hmkNode, hmk, ← Nat.add_assoc]

theorem Simulates.of_builds {g : α → Node β} {f : Parser τ → Option (Node β × Parser τ)}
    {read : List τ → Option (Expr α × List τ)} {build : Parser τ → Node β × Parser τ}
    {p q : Parser τ} {ts r : List τ} {a : α} (hf : f p = some (build q)) (hb : Builds build (g a))
    (ha : Advances p ts.length q) (hcount : q.count = p.count) (hq : q.c.failed = p.c.failed)
    (hread : read ts = some (.prim a, r)) (hleft : Remaining q.c r) :
    Simulates g f read p ts := by
  refine ⟨(build q).1, (build q).2, hf, hb.advances ha, ?_⟩
  intro hok
  rw [hread, ← hcount]
  by_cases hroom : q.count + (g a).nodes ≤ q.cap
  · have hq' := hb.room (hq.trans hok) hroom
    simp only [Follows, hq', Node.ofExpr, if_pos hroom]
    exact ⟨trivial, hq.trans hok, trivial, hleft⟩
  · refine Follows.of_failed (hb.full (by omega)) ?_
    rintro e r' ⟨⟩
    rw [(hb.advances ha).cap, ← ha.cap]
    exact Nat.not_le.mp hroom

theorem Simulates.of_failed {g : α → Node β} {f : Parser τ → Option (Node β × Parser τ)}
    {read : List τ → Option (Expr α × List τ)} {p q : Parser τ} {ts : List τ} {n : Node β}
    (hf : f p = some (n, q)) (ha : Advances p ts.length q) (hq : q.c.failed = true)
    (hread : read ts = none) : Simulates g f read p ts := by
  refine ⟨n, q, hf, ha, ?_⟩
  intro _
  rw [hread]
  exact hq

theorem Simulates.of_fail {g : α → Node β} {f : Parser τ → Option (Node β × Parser τ)}
    {read : List τ → Option (Expr α × List τ)} {p q : Parser τ} {ts : List τ} {m : String}
    (hf : f p = some (.null, q.fail m)) (ha : Advances p ts.length q) (hread : read ts = none) :
    Simulates g f read p ts :=
  .of_failed hf (ha.fail m) (Ctx.fail_failed _ m) hread

end MyWireshark.Filter
