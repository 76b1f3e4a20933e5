import MyWireshark.CapFilter.Grammar
import MyWireshark.CapFilter.Semantics

/-! capfilter_compile as a whole: what it accepts, what it leaves behind when it fails,
and what the programs it returns decide. -/
namespace MyWireshark.CapFilter
open MyWireshark.Filter Bpf BoolGrammar ShortCircuit Bytes Machine

theorem exists_treeAst {n : Ast} (h : n.noNull = true) : ∃ t : Expr Leaf, n = treeAst t := by
  induction n with
  | null => simp [Node.noNull] at h
  | leaf b => exact ⟨.prim b, rfl⟩
  | not l ih =>
    obtain ⟨t, rfl⟩ := ih h
    exact ⟨.neg t, rfl⟩
  | and l r ihl ihr =>
    obtain ⟨hl, hr⟩ := Bool.and_eq_true_iff.mp h
    obtain ⟨t, rfl⟩ := ihl hl
    obtain ⟨u, rfl⟩ := ihr hr
    exact ⟨.conj t u, rfl⟩
  | or l r ihl ihr =>
    obtain ⟨hl, hr⟩ := Bool.and_eq_true_iff.mp h
    obtain ⟨t, rfl⟩ := ihl hl
    obtain ⟨u, rfl⟩ := ihr hr
    exact ⟨.disj t u, rfl⟩

theorem leaves_le_nodes (t : Expr Leaf) : leaves t ≤ (treeAst t).nodes := by
  induction t with
  | prim b => exact Nat.le_refl 1
  | neg e ih => exact Nat.le_succ_of_le ih
  | conj l r ihl ihr | disj l r ihl ihr =>
    simp only [treeAst, leaves, Node.ofExpr, Node.nodes] at *
    omega

/-! Running a whole program. -/

theorem program_body (e : Expr Leaf) :
    CodeAt (program e) 0 (cfTarget.asm e 0 (some ∘ exits e)) :=
  ⟨[], [retK acceptLen, retK 0], rfl, rfl⟩

theorem program_exit (e : Expr Leaf) (w : Bool) :
    CodeAt (program e) (exits e w) [retK (if w then acceptLen else 0)] := by
  cases w with
  | true => exact ⟨cfTarget.asm e 0 (some ∘ exits e), [retK 0], by simp [program], by simp [exits]⟩
  | false =>
    exact ⟨cfTarget.asm e 0 (some ∘ exits e) ++ [retK acceptLen], [], by simp [program],
      by simp [exits]⟩

/-- The program of a tree decides what the tree evaluates to. -/
theorem program_run (e : Expr Leaf) (pkt : List UInt8) (hlen : (program e).length ≤ maxInsns) :
    bpfInterpRun ⟨(program e).length % 65536, some (program e)⟩ pkt pkt.length =
      some (if e.evalAbort (Leaf.test pkt) = some true then acceptLen else 0) := by
  have hmax : maxInsns = 1024 := rfl
  have hsize := program_length e
  have hmod : (program e).length % 65536 = (program e).length := Nat.mod_eq_of_lt (by omega)
  have hlands := asm_branches (cfTarget_sound pkt) e (exits e) (program e) ⟨0, 0, 0⟩
    (program_body e) (fun w => by cases w <;> simp [exits])
  rw [hmod, bpfInterpRun]
  simp only [if_neg (show (program e).length ≠ 0 by omega)]
  cases hv : e.evalAbort (Leaf.test pkt) with
  | none =>
    rw [hv] at hlands
    obtain ⟨k, t, hst, hk, ht⟩ := hlands
    exact run_of_steps hst ht (by omega)
  | some w =>
    rw [hv] at hlands
    obtain ⟨k, t, hst, hk, ht⟩ := hlands
    have hexit := program_exit e w
    rw [← ht] at hexit
    refine (run_of_steps hst (stepOn_retK pkt hexit.head) (by omega)).trans ?_
    cases w <;> rfl

/-! The stages in a row. -/

def tokens (expr : List Char) : List Token := (tokenize cfScanner expr).1

def lexError (expr : List Char) : Option String := (tokenize cfScanner expr).2

/-- Instructions the code of an AST takes, without the two returns. -/
def insnCount : Ast → Nat
  | .null => 0
  | .and l r => insnCount l + insnCount r
  | .or l r => insnCount l + insnCount r
  | .not l => insnCount l
  | .leaf b => (leafLoads b).length + 1

theorem insnCount_treeAst (t : Expr Leaf) : insnCount (treeAst t) = cfTarget.size t := by
  induction t with
  | prim b => rfl
  | neg e ih => exact ih
  | conj l r ihl ihr => exact congrArg₂ (· + ·) ihl ihr
  | disj l r ihl ihr => exact congrArg₂ (· + ·) ihl ihr

theorem frontEnd_spec {expr : List Char} (errNull : Bool) (errLen : Int)
    (hlen : (tokens expr).length ≤ 255) :
    ∃ c, cfLex (Ctx.start errNull errLen) expr = some c ∧ c.FirstError errNull errLen ∧
      c.failed = (lexError expr).isSome ∧
      (lexError expr = none → ∃ root p, cfParse c = some (root, p) ∧
        p.c.FirstError errNull errLen ∧
        (∀ e, IsExpr (tokens expr) e → (ast e).nodes ≤ maxNodes → p.c.failed = false) ∧
        (p.c.failed = false →
          ∃ e, IsExpr (tokens expr) e ∧ (ast e).nodes ≤ maxNodes ∧ root = ast e)) := by
  have hmax : maxTokens = 256 := rfl
  simp only [tokens] at hlen
  have hlex := lexLoop_eq_tokenize cfScanner expr (Ctx.start errNull errLen)
    (by simp only [Ctx.start, List.length_nil]; omega)
  have hfirst := lexed_firstError errNull errLen cfScanner.tokEnd (tokenize cfScanner expr)
  have hfailed := lexed_failed errNull errLen cfScanner.tokEnd (tokenize cfScanner expr)
  refine ⟨_, hlex, hfirst, hfailed, ?_⟩
  intro herr
  have herr' : (tokenize cfScanner expr).2 = none := herr
  obtain ⟨root, p, hparse, hev, hcomplete, hsound⟩ :=
    cfParse_spec (remaining_lexed cfScanner errNull errLen herr') (by rw [hfailed, herr']; rfl)
  exact ⟨root, p, hparse, hev.firstError hfirst, hcomplete, hsound⟩

theorem backEnd_spec {c : Ctx Token} {root : Ast} (hok : c.failed = false)
    (hnull : root.noNull = true) (hnodes : root.nodes ≤ maxNodes) :
    ∃ t, root = treeAst t ∧
      ((cfGenerate c root = some (true, ⟨program t, c⟩) ∧ (program t).length ≤ maxInsns) ∨
        ∃ g, cfGenerate c root = some (false, g) ∧ g.c.failed = true ∧ c.Evolves g.c ∧
          256 < insnCount root + 2) := by
  obtain ⟨t, rfl⟩ := exists_treeAst hnull
  refine ⟨t, rfl, ?_⟩
  have hleaves : leaves t ≤ maxInsns := by
    have hle := leaves_le_nodes t
    have hmax : maxNodes = 256 := rfl
    have hmax' : maxInsns = 1024 := rfl
    omega
  have h := cfGenerate_spec t hok hleaves
  rw [insnCount_treeAst, ← program_length]
  exact h

def emptyProg : SockFprog := { len := 0, filter := none }

/-- The result of a compilation that succeeded: the stages, and the program of the tree. -/
structure Succeeds (expr : List Char) (errNull : Bool) (errLen : Int) (r : CompileResult) :
    Prop where
  ret : r.ret = 0
  lexed : lexError expr = none
  stages : ∃ c root p t, cfLex (Ctx.start errNull errLen) expr = some c ∧
    cfParse c = some (root, p) ∧ root = treeAst t ∧ (program t).length ≤ maxInsns ∧
    (∃ e, IsExpr (tokens expr) e ∧ (ast e).nodes ≤ maxNodes ∧ root = ast e) ∧
    r.out = some ⟨(program t).length % 65536, some (program t)⟩

/-- The result of a compilation that failed: the first error, and no program. -/
structure Fails (errNull : Bool) (errLen : Int) (r : CompileResult) : Prop where
  ret : r.ret = -1
  out : r.out = some emptyProg
  failed : r.ctx.failed = true
  firstError : r.ctx.FirstError errNull errLen

/-- capfilter_compile on a string whose tokens fit. It can only fail on an expression of
the language when that is too large or there is no memory. -/
theorem capfilterCompile_spec {expr : List Char} (hne : isEmpty expr = false)
    (hlen : (tokens expr).length ≤ 255) (o : SockFprog) (errNull : Bool) (errLen : Int)
    (mallocOk : Bool) :
    ∃ r, capfilterCompile (some expr) (some o) errNull errLen mallocOk = some r ∧
      (Succeeds expr errNull errLen r ∨ Fails errNull errLen r ∧
        (lexError expr = none → mallocOk = true → ∀ e, IsExpr (tokens expr) e →
          (ast e).nodes ≤ maxNodes → 256 < insnCount (ast e) + 2)) := by
  obtain ⟨c, hlex, hfirst, hfailed, hparse⟩ := frontEnd_spec errNull errLen hlen
  cases herr : lexError expr with
  | some msg =>
    rw [herr] at hfailed
    refine ⟨⟨-1, some emptyProg, c⟩, ?_, .inr ⟨⟨rfl, rfl, hfailed, hfirst⟩, by simp⟩⟩
    simp [capfilterCompile, hne, hlex, hfailed, emptyProg]
  | none =>
    rw [herr] at hfailed
    obtain ⟨root, p, hparse, hfirst', hcomplete, hsound⟩ := hparse herr
    by_cases hp : p.c.failed = true
    · refine ⟨⟨-1, some emptyProg, p.c⟩, ?_, .inr ⟨⟨rfl, rfl, hp, hfirst'⟩, ?_⟩⟩
      · simp [capfilterCompile, hne, hlex, hfailed, hparse, hp, emptyProg]
      · intro _ _ e he hle
        have := hcomplete e he hle
        simp [hp] at this
    · have hp : p.c.failed = false := by simpa using hp
      obtain ⟨e, he, hle, rfl⟩ := hsound hp
      obtain ⟨t, ht, ⟨hgen, hmax⟩ | ⟨g, hgen, hg, hev, hlarge⟩⟩ :=
        backEnd_spec hp (ast_noNull e) hle
      · by_cases hm : mallocOk = true
        · refine ⟨⟨0, some ⟨(program t).length % 65536, some (program t)⟩, p.c⟩, ?_,
            .inl ⟨rfl, herr, c, ast e, p, t, hlex, hparse, ht, hmax, ⟨e, he, hle, rfl⟩, rfl⟩⟩
          simp [capfilterCompile, hne, hlex, hfailed, hparse, hp, hgen, hm]
        · refine ⟨⟨-1, some emptyProg, p.c.fail "out of memory compiling filter"⟩, ?_,
            .inr ⟨⟨rfl, rfl, Ctx.fail_failed _ _, hfirst'.fail _⟩, fun _ h => absurd h hm⟩⟩
          simp [capfilterCompile, hne, hlex, hfailed, hparse, hp, hgen, hm, emptyProg]
      · refine ⟨⟨-1, some emptyProg, g.c⟩, ?_,
          .inr ⟨⟨rfl, rfl, hg, hev.firstError hfirst'⟩, ?_⟩⟩
        · simp [capfilterCompile, hne, hlex, hfailed, hparse, hp, hgen, emptyProg]
        · intro _ _ e' he' _
          rwa [he'.unique primSpec he]

theorem tokens_of_lexed {expr : List Char} {errNull : Bool} {errLen : Int} {c : Ctx Token}
    (hlex : cfLex (Ctx.start errNull errLen) expr = some c) (hok : c.failed = false) :
    (tokens expr).length ≤ 255 ∧ lexError expr = none := by
  obtain ⟨hroom, hnone⟩ := lexLoop_success (Nat.zero_le _) hlex hok
  have hmax : maxTokens = 256 := rfl
  simp only [Ctx.start, List.length_nil] at hroom
  refine ⟨?_, hnone⟩
  simp only [tokens]
  omega

theorem tokens_of_success {expr : List Char} {o : SockFprog} {errNull : Bool} {errLen : Int}
    {mallocOk : Bool} {r : CompileResult} (hne : isEmpty expr = false)
    (h : capfilterCompile (some expr) (some o) errNull errLen mallocOk = some r)
    (hret : r.ret = 0) : (tokens expr).length ≤ 255 := by
  cases hlex : cfLex (Ctx.start errNull errLen) expr with
  | none => simp [capfilterCompile, hne, hlex] at h
  | some c =>
    by_cases hf : c.failed = true
    · have hbad : (⟨-1, some { len := 0, filter := none }, c⟩ : CompileResult) = r := by
        simpa [capfilterCompile, hne, hlex, hf] using h
      rw [← hbad] at hret
      simp at hret
    · exact (tokens_of_lexed hlex (by simpa using hf)).1

theorem Succeeds.runs {expr : List Char} {errNull : Bool} {errLen : Int} {r : CompileResult}
    (h : Succeeds expr errNull errLen r) {prog : SockFprog} (hout : r.out = some prog) :
    ∃ c root p, cfLex (Ctx.start errNull errLen) expr = some c ∧ cfParse c = some (root, p) ∧
      (∃ e, IsExpr (tokens expr) e ∧ root = ast e) ∧
      ∀ pkt : List UInt8, bpfInterpRun prog pkt pkt.length =
        some (if evalAst pkt root = some true then acceptLen else 0) := by
  obtain ⟨c, root, p, t, hlex, hparse, hroot, hmax, ⟨e, he, -, hast⟩, hout'⟩ := h.stages
  obtain rfl : prog = _ := Option.some.inj (hout.symm.trans hout')
  refine ⟨c, root, p, hlex, hparse, ⟨e, he, hast⟩, fun pkt => ?_⟩
  rw [program_run t pkt hmax, hroot, evalAst_treeAst]

/-- The program of a compilation that succeeded decides the tree of its expression. -/
theorem Succeeds.decides {expr : List Char} {errNull : Bool} {errLen : Int} {r : CompileResult}
    (h : Succeeds expr errNull errLen r) {prog : SockFprog} (hout : r.out = some prog)
    {e : Expr Primitive} (he : IsExpr (tokens expr) e) (pkt : List UInt8) :
    bpfInterpRun prog pkt pkt.length =
      some (if evalAst pkt (ast e) = some true then acceptLen else 0) := by
  obtain ⟨c, root, p, -, -, ⟨e', he', rfl⟩, hrun⟩ := h.runs hout
  rw [he.unique primSpec he']
  exact hrun pkt

theorem succeeds_of_ret {expr : List Char} {o : SockFprog} {errNull : Bool} {errLen : Int}
    {mallocOk : Bool} {r : CompileResult} (hne : isEmpty expr = false)
    (h : capfilterCompile (some expr) (some o) errNull errLen mallocOk = some r)
    (hret : r.ret = 0) : Succeeds expr errNull errLen r := by
  have hlen := tokens_of_success hne h hret
  obtain ⟨r', hr', hcases⟩ := capfilterCompile_spec hne hlen o errNull errLen mallocOk
  obtain rfl : r' = r := Option.some.inj (hr'.symm.trans h)
  cases hcases with
  | inl hs => exact hs
  | inr hf => simp [hf.1.ret] at hret

theorem succeeds_of_program {expr : List Char} {o prog : SockFprog} {errNull : Bool} {errLen : Int}
    {mallocOk : Bool} {r : CompileResult}
    (h : capfilterCompile (some expr) (some o) errNull errLen mallocOk = some r)
    (hret : r.ret = 0) (hout : r.out = some prog) (hprog : prog.len ≠ 0) :
    Succeeds expr errNull errLen r := by
  by_cases hne : isEmpty expr = true
  · -- the empty string gives the empty program
    simp only [capfilterCompile, hne, if_true, Option.some.injEq] at h
    subst h
    cases hout
    exact absurd rfl hprog
  · exact succeeds_of_ret (by simpa using hne) h hret

theorem parsed_tree {expr : List Char} {errNull : Bool} {errLen : Int} {c : Ctx Token}
    {root : Ast} {p : Parser Token} (hlex : cfLex (Ctx.start errNull errLen) expr = some c)
    (hlexed : c.failed = false) (hparse : cfParse c = some (root, p))
    (hparsed : p.c.failed = false) : root.noNull = true ∧ root.nodes ≤ maxNodes := by
  obtain ⟨hlen, hnone⟩ := tokens_of_lexed hlex hlexed
  obtain ⟨c', hlex', -, -, hstage⟩ := frontEnd_spec errNull errLen hlen
  obtain rfl := Option.some.inj (hlex.symm.trans hlex')
  obtain ⟨root', p', hparse', -, -, hsound⟩ := hstage hnone
  obtain ⟨rfl, rfl⟩ := Prod.mk.inj (Option.some.inj (hparse.symm.trans hparse'))
  obtain ⟨e, -, hnodes, rfl⟩ := hsound hparsed
  exact ⟨ast_noNull e, hnodes⟩

/-- A program that capfilter_compile returns accepts exactly the packets on which the
parsed AST evaluates to true, whatever the packet's length. -/
theorem compiled_program_decides_ast {expr : List Char} {o prog : SockFprog} {errNull : Bool}
    {errLen : Int} {mallocOk : Bool} {r : CompileResult}
    (h : capfilterCompile (some expr) (some o) errNull errLen mallocOk = some r)
    (hret : r.ret = 0) (hout : r.out = some prog) (hprog : prog.len ≠ 0) :
    ∃ c root p, cfLex (Ctx.start errNull errLen) expr = some c ∧ cfParse c = some (root, p) ∧
      ∀ pkt : List UInt8, bpfInterpRun prog pkt pkt.length =
        some (if evalAst pkt root = some true then 65535 else 0) := by
  obtain ⟨c, root, p, hlex, hparse, -, hrun⟩ :=
    (succeeds_of_program h hret hout hprog).runs hout
  exact ⟨c, root, p, hlex, hparse, hrun⟩

theorem compiled_program_decides_ast_tcp :
    ∃ r prog, capfilterCompile (some "not tcp".toList) (some emptyProg) true 0 true = some r ∧
      r.out = some prog ∧ prog.len = 6 ∧
      ∃ c root p, cfLex (Ctx.start true 0) "not tcp".toList = some c ∧
        cfParse c = some (root, p) ∧
        ∀ pkt : List UInt8, bpfInterpRun prog pkt pkt.length =
          some (if evalAst pkt root = some true then 65535 else 0) := by
  have hrun : (capfilterCompile (some "not tcp".toList) (some emptyProg) true 0 true).map
      (fun r => (r.ret, r.out.map SockFprog.len)) = some (0, some 6) := by decide +kernel
  obtain ⟨r, hr, hval⟩ := Option.map_eq_some_iff.mp hrun
  obtain ⟨hret, hlen⟩ := Prod.mk.inj hval
  obtain ⟨prog, hprog, hlen⟩ := Option.map_eq_some_iff.mp hlen
  exact ⟨r, prog, hr, hprog, hlen,
    compiled_program_decides_ast hr hret hprog (by rw [hlen]; decide)⟩

/-- The front end accepts exactly the language of capfilter.h, with the tree the grammar
gives. A compilation that fails has recorded its first error and left no program; one that
succeeds was given an expression of the language. -/
theorem frontEnd_accepts_grammar {expr : List Char} (errNull : Bool) (errLen : Int)
    (hne : isEmpty expr = false) (hlen : (tokens expr).length ≤ 255) :
    (lexError expr = none → ∃ c root p, cfLex (Ctx.start errNull errLen) expr = some c ∧
      c.failed = false ∧ cfParse c = some (root, p) ∧
      (p.c.failed = false ↔ ∃ e, IsExpr (tokens expr) e ∧ (ast e).nodes ≤ 256) ∧
      (p.c.failed = false → (∃! e, IsExpr (tokens expr) e) ∧
        (∀ e, IsExpr (tokens expr) e → root = ast e) ∧ root.noNull = true)) ∧
    ∀ o mallocOk, ∃ r,
      capfilterCompile (some expr) (some o) errNull errLen mallocOk = some r ∧
      (r.ret = 0 ∨ r.ret = -1) ∧
      (r.ret = -1 → r.out = some { len := 0, filter := none } ∧
        ∃ first later, r.ctx.raised = first :: later ∧
          r.ctx.errText = shown errNull errLen first) ∧
      (r.ret = 0 → lexError expr = none ∧ ∃ e, IsExpr (tokens expr) e ∧ (ast e).nodes ≤ 256) ∧
      (mallocOk = true → lexError expr = none → ∀ e, IsExpr (tokens expr) e →
        (ast e).nodes ≤ 256 → insnCount (ast e) + 2 ≤ 256 → r.ret = 0) := by
  refine ⟨?_, ?_⟩
  · intro herr
    obtain ⟨c, hlex, -, hfailed, hparse⟩ := frontEnd_spec errNull errLen hlen
    obtain ⟨root, p, hparse, -, hcomplete, hsound⟩ := hparse herr
    refine ⟨c, root, p, hlex, by rw [hfailed, herr]; rfl, hparse, ⟨?_, ?_⟩, ?_⟩
    · intro hok
      obtain ⟨e, he, hle, -⟩ := hsound hok
      exact ⟨e, he, hle⟩
    · rintro ⟨e, he, hle⟩
      exact hcomplete e he hle
    · intro hok
      obtain ⟨e, he, -, rfl⟩ := hsound hok
      refine ⟨⟨e, he, fun e' he' => he'.unique primSpec he⟩, ?_, ast_noNull e⟩
      intro e' he'
      rw [he'.unique primSpec he]
  · intro o mallocOk
    obtain ⟨r, hr, hs | ⟨hf, hreason⟩⟩ := capfilterCompile_spec hne hlen o errNull errLen mallocOk
    · obtain ⟨-, -, -, -, -, -, -, -, ⟨e, he, hle, -⟩, -⟩ := hs.stages
      exact ⟨r, hr, .inl hs.ret, by simp [hs.ret], fun _ => ⟨hs.lexed, e, he, hle⟩,
        fun _ _ _ _ _ _ => hs.ret⟩
    · refine ⟨r, hr, .inr hf.ret, fun _ => ⟨hf.out, ?_⟩, by simp [hf.ret], ?_⟩
      · obtain ⟨first, later, hraised⟩ :=
          List.exists_cons_of_ne_nil (hf.firstError.flag.mp hf.failed)
        refine ⟨first, later, hraised, ?_⟩
        rw [hf.firstError.text, hraised]
        rfl
      · intro hm herr e he hle hsize
        have := hreason herr hm e he hle
        omega

theorem frontEnd_accepts_grammar_port :
    tokens "tcp or not src port 80".toList =
      [.protoTcp, .or, .not, .src, .port, .number 80] ∧
    ∃ c root p, cfLex (Ctx.start true 0) "tcp or not src port 80".toList = some c ∧
      c.failed = false ∧ cfParse c = some (root, p) ∧
      (p.c.failed = false ↔ ∃ e, IsExpr (tokens "tcp or not src port 80".toList) e ∧
        (ast e).nodes ≤ 256) := by
  have htok : tokens "tcp or not src port 80".toList =
      [.protoTcp, .or, .not, .src, .port, .number 80] := by decide +kernel
  have hspec := @frontEnd_accepts_grammar "tcp or not src port 80".toList true 0
    (by decide) (by rw [htok]; decide)
  obtain ⟨c, root, p, hlex, hok, hparse, hiff, -⟩ := hspec.1 (by decide +kernel)
  exact ⟨htok, c, root, p, hlex, hok, hparse, hiff⟩

end MyWireshark.CapFilter
