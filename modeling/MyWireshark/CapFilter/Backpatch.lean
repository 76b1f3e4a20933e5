import MyWireshark.CapFilter.Codegen
import MyWireshark.Filter.Follows
import MyWireshark.Lib.ShortCircuit

/-! compile_node emits the branching code of its tree with both targets open and puts the
open jumps on its two lists; capfilter_compile closes them. -/
namespace MyWireshark.CapFilter
open MyWireshark.Filter Bpf BoolGrammar ShortCircuit

def leafLoads : Leaf → List SockFilter
  | .ethertype _ => [⟨bpfLd ||| bpfH ||| bpfAbs, 0, 0, offEthertype⟩]
  | .ipproto _ => [⟨bpfLd ||| bpfB ||| bpfAbs, 0, 0, offIpProto⟩]
  | .host dir _ => [⟨bpfLd ||| bpfW ||| bpfAbs, 0, 0, if dir = .src then offIpSrc else offIpDst⟩]
  | .net dir _ prefixLen =>
    [⟨bpfLd ||| bpfW ||| bpfAbs, 0, 0, if dir = .src then offIpSrc else offIpDst⟩,
      ⟨bpfAlu ||| bpfAnd ||| bpfK, 0, 0, prefixMask prefixLen⟩]
  | .port dir _ =>
    [⟨bpfLdx ||| bpfB ||| bpfMsh, 0, 0, offIpIhlByte⟩,
      ⟨bpfLd ||| bpfH ||| bpfInd, 0, 0,
        if dir = .src then offIpIhlByte else offIpIhlByte + 2⟩]

def leafKey : Leaf → Nat
  | .ethertype k => k
  | .ipproto k => k
  | .host _ addr => addrToU32 addr
  | .net _ addr prefixLen => addrToU32 addr &&& prefixMask prefixLen
  | .port _ k => k

def jeq (k : Nat) (j : Bool → Nat) : SockFilter := ⟨bpfJmp ||| bpfJeq ||| bpfK, j true, j false, k⟩

def cfTarget : Target SockFilter Leaf where
  loads := leafLoads
  test b j := jeq (leafKey b) j
  patch := setJump
  patch_test := by
    intro b j s o
    cases s <;> simp [setJump, jeq, Function.update]

def treeAst (e : Expr Leaf) : Ast := Node.ofExpr .leaf e

def unknown : Bool → Option Nat := fun _ => none

theorem plAdd_room {pl : PatchList} (h : pl.length < maxInsns) (entry : Nat × Bool) :
    plAdd pl entry = some (pl ++ [entry]) := by
  simp [plAdd, h]

theorem plAppend_room (dst src : PatchList) (h : dst.length + src.length ≤ maxInsns) :
    plAppend dst src = some (dst ++ src) := by
  induction src generalizing dst with
  | nil => simp [plAppend]
  | cons entry src ih =>
    simp only [List.length_cons] at h
    have := ih (dst ++ [entry]) (by simp; omega)
    simp only [plAppend, List.foldlM_cons, plAdd_room (by omega : dst.length < maxInsns)] at this ⊢
    simpa using this

/-- pl_resolve patches the whole list, or fails because a target is out of range. -/
theorem plResolve_spec (t : Nat) (pl : PatchList) (g : CfGen)
    (h : ∀ r ∈ pl, r.1 < g.insns.length ∧ r.1 < t) :
    ∃ g', plResolve g pl t = some g' ∧
      (g' = { g with insns := cfTarget.patchAll t pl g.insns } ∨
        g'.c.failed = true ∧ g.c.Evolves g'.c ∧ ∃ r ∈ pl, r.1 + 256 < t) := by
  induction pl generalizing g with
  | nil => exact ⟨g, rfl, .inl rfl⟩
  | cons entry pl ih =>
    obtain ⟨idx, isJt⟩ := entry
    have hidx := h (idx, isJt) (by simp)
    simp only at hidx
    by_cases hfar : idx + 256 < t
    · have hcond : (t : Int) - (idx + 1) < 0 ∨ (t : Int) - (idx + 1) > 255 := by omega
      exact ⟨_, if_pos hcond,
        .inr ⟨Ctx.fail_failed _ _, .fail _ .refl, (idx, isJt), by simp, hfar⟩⟩
    · have hoff : ((t : Int) - (idx + 1)).toNat % 256 = t - (idx + 1) := by omega
      obtain ⟨g', hg', hcases⟩ := ih
        { g with insns := g.insns.modify idx (setJump isJt (t - (idx + 1))) }
        (fun r hr => by simpa using h r (by simp [hr]))
      refine ⟨g', ?_, ?_⟩
      · rw [plResolve, if_neg (by omega), if_pos hidx.1, hoff]
        exact hg'
      · rcases hcases with rfl | ⟨hf, hev, r, hr, hlt⟩
        · exact .inl rfl
        · exact .inr ⟨hf, hev, r, by simp [hr], hlt⟩

/-- An error, which only happens beyond `n` instructions. -/
structure Overflow (g g' : CfGen) (n size : Nat) : Prop where
  failed : g'.c.failed = true
  evolves : g.c.Evolves g'.c
  large : n < g.insns.length + size

theorem genPush_spec (g : CfGen) (insn : SockFilter) :
    (genPush g insn = (some g.insns.length, { g with insns := g.insns ++ [insn] }) ∧
        g.insns.length + 1 ≤ maxInsns) ∨
      ∃ g', genPush g insn = (none, g') ∧ Overflow g g' maxInsns 1 := by
  by_cases h : g.insns.length ≥ maxInsns
  · exact .inr ⟨_, if_pos h, Ctx.fail_failed _ _, .fail _ .refl, Nat.lt_succ_of_le h⟩
  · exact .inl ⟨if_neg h, Nat.not_le.mp h⟩

theorem pushAll_spec (code : List SockFilter) (g : CfGen) (hroom : g.insns.length ≤ maxInsns) :
    (pushAll g code = (true, { g with insns := g.insns ++ code }) ∧
        g.insns.length + code.length ≤ maxInsns) ∨
      ∃ g', pushAll g code = (false, g') ∧ Overflow g g' maxInsns code.length := by
  induction code generalizing g with
  | nil => exact .inl ⟨by simp [pushAll], by simpa using hroom⟩
  | cons insn code ih =>
    rcases genPush_spec g insn with ⟨hpush, hle⟩ | ⟨g', hpush, hbad⟩
    · have hlen : (g.insns ++ [insn]).length = g.insns.length + 1 := by simp
      rcases ih { g with insns := g.insns ++ [insn] } (by simpa using hle) with
        ⟨hall, hle'⟩ | ⟨g', hall, hbad⟩
      · refine .inl ⟨by simp [pushAll, hpush, hall], ?_⟩
        simp only [hlen, List.length_cons] at hle' ⊢
        omega
      · refine .inr ⟨g', by simp [pushAll, hpush, hall], hbad.failed, hbad.evolves, ?_⟩
        have := hbad.large
        simp only [hlen, List.length_cons] at this ⊢
        omega
    · refine .inr ⟨g', by simp [pushAll, hpush], hbad.failed, hbad.evolves, ?_⟩
      have := hbad.large
      simp only [List.length_cons]
      omega

/-- What compiling `e` leaves: its code with open targets and its open jumps on the lists,
or an error, which needs more than 256 instructions. -/
def Compiled (g : CfGen) (e : Expr Leaf) (outT outF : PatchList) (r : Emitted) : Prop :=
  (r = ⟨true, { g with insns := g.insns ++ cfTarget.asm e g.insns.length unknown },
      outT ++ cfTarget.refs e g.insns.length true,
      outF ++ cfTarget.refs e g.insns.length false⟩ ∧
    g.insns.length + cfTarget.size e ≤ maxInsns) ∨
  (r.ok = false ∧ Overflow g r.g 256 (cfTarget.size e))

theorem emitLeaf_spec (b : Leaf) {g : CfGen} {outT outF : PatchList}
    (hroom : g.insns.length ≤ maxInsns) (hT : outT.length < maxInsns)
    (hF : outF.length < maxInsns) :
    ∃ r, emitLeaf g (leafLoads b) (leafKey b) outT outF = some r ∧
      Compiled g (.prim b) outT outF r := by
  have hsize : cfTarget.size (.prim b) = (leafLoads b).length + 1 := rfl
  have hmax : maxInsns = 1024 := rfl
  have hjeq : (⟨bpfJmp ||| bpfJeq ||| bpfK, 0, 0, leafKey b⟩ : SockFilter) =
      jeq (leafKey b) fun _ => 0 := rfl
  rcases pushAll_spec (leafLoads b) g hroom with ⟨hloads, hle⟩ | ⟨g', hloads, hbad⟩
  · rcases genPush_spec { g with insns := g.insns ++ leafLoads b } (jeq (leafKey b) fun _ => 0) with
      ⟨htest, hle'⟩ | ⟨g', htest, hbad⟩
    · simp only [List.length_append] at htest hle'
      refine ⟨_, ?_, .inl ⟨rfl, by omega⟩⟩
      simp [emitLeaf, hloads, hjeq, htest, plAdd_room hT, plAdd_room hF, Target.asm, Target.refs,
        cfTarget]
      rfl
    · refine ⟨⟨false, g', outT, outF⟩, by simp [emitLeaf, hloads, hjeq, htest],
        .inr ⟨rfl, hbad.failed, hbad.evolves, ?_⟩⟩
      have := hbad.large
      simp only [List.length_append] at this
      omega
  · refine ⟨⟨false, g', outT, outF⟩, by simp [emitLeaf, hloads],
      .inr ⟨rfl, hbad.failed, hbad.evolves, ?_⟩⟩
    have := hbad.large
    omega

/-- N_PORT pushes its first load itself, as emit_leaf would have done. -/
theorem compileLeaf_eq (g : CfGen) (b : Leaf) (outT outF : PatchList) :
    compileLeaf g b outT outF = emitLeaf g (leafLoads b) (leafKey b) outT outF := by
  cases b with
  | port dir k =>
    simp only [compileLeaf, leafLoads, leafKey]
    cases hpush : genPush g ⟨bpfLdx ||| bpfB ||| bpfMsh, 0, 0, offIpIhlByte⟩ with
    | mk idx g' => cases idx <;> simp [emitLeaf, pushAll, hpush]
  | _ => rfl

/-- What the N_AND and the N_OR case do before they fill the caller's lists: compile the
left operand, resolve one of its lists, compile the right operand. -/
def operands (left : Option Emitted) (resolve : Emitted → Option CfGen)
    (right : CfGen → Option Emitted) : Option (CfGen ⊕ Emitted × Emitted) := do
  let left ← left
  if !left.ok then
    return .inl left.g
  let g ← resolve left
  if g.c.failed then
    return .inl g
  let right ← right g
  if !right.ok then
    return .inl right.g
  return .inr (left, right)

theorem operands_bind (left : Option Emitted) (resolve : Emitted → Option CfGen)
    (right : CfGen → Option Emitted) (outT outF : PatchList)
    (fill : Emitted → Emitted → Option Emitted) :
    (do
      let left ← left
      if !left.ok then
        return ⟨false, left.g, outT, outF⟩
      let g ← resolve left
      if g.c.failed then
        return ⟨false, g, outT, outF⟩
      let right ← right g
      if !right.ok then
        return ⟨false, right.g, outT, outF⟩
      fill left right : Option Emitted) =
    (operands left resolve right).bind fun
      | .inl g => some ⟨false, g, outT, outF⟩
      | .inr (left, right) => fill left right := by
  cases left with
  | none => rfl
  | some left =>
    by_cases hok : left.ok
    · cases hres : resolve left with
      | none => simp [operands, hok, hres]
      | some g =>
        by_cases hf : g.c.failed
        · simp [operands, hok, hres, hf]
        · cases hr : right g with
          | none => simp [operands, hok, hres, hf, hr]
          | some right => by_cases hok' : right.ok <;> simp [operands, hok, hres, hf, hr, hok']
    · simp [operands, hok]

/-- The operands of a connective whose left side goes on to the right side on outcome `w`. -/
def compileOperands (w : Bool) (g : CfGen) (l r : Ast) : Option (CfGen ⊕ Emitted × Emitted) :=
  operands (compileNode g l [] [])
    (fun left => plResolve left.g (if w then left.outT else left.outF) left.g.insns.length)
    (fun g => compileNode g r [] [])

theorem compileNode_and {g : CfGen} (h : g.c.failed = false) (l r : Ast) (outT outF : PatchList) :
    compileNode g (.and l r) outT outF = (compileOperands true g l r).bind fun
      | .inl g => some ⟨false, g, outT, outF⟩
      | .inr (left, right) => do
        let outT ← plAppend outT right.outT
        let outF ← plAppend outF left.outF
        let outF ← plAppend outF right.outF
        return ⟨true, right.g, outT, outF⟩ := by
  rw [compileNode, if_neg (by simp [h])]
  exact operands_bind _ _ _ outT outF _

theorem compileNode_or {g : CfGen} (h : g.c.failed = false) (l r : Ast) (outT outF : PatchList) :
    compileNode g (.or l r) outT outF = (compileOperands false g l r).bind fun
      | .inl g => some ⟨false, g, outT, outF⟩
      | .inr (left, right) => do
        let outT ← plAppend outT left.outT
        let outT ← plAppend outT right.outT
        let outF ← plAppend outF right.outF
        return ⟨true, right.g, outT, outF⟩ := by
  rw [compileNode, if_neg (by simp [h])]
  exact operands_bind _ _ _ outT outF _

theorem compileOperands_spec (w : Bool) {g : CfGen} {l r : Expr Leaf}
    (hok : g.c.failed = false)
    (hl : ∃ e, compileNode g (treeAst l) [] [] = some e ∧ Compiled g l [] [] e)
    (hr : ∀ g' : CfGen, g'.c.failed = false → g'.insns.length ≤ maxInsns →
      ∃ e, compileNode g' (treeAst r) [] [] = some e ∧ Compiled g' r [] [] e) :
    (∃ left right, compileOperands w g (treeAst l) (treeAst r) = some (.inr (left, right)) ∧
      left.outT = cfTarget.refs l g.insns.length true ∧
      left.outF = cfTarget.refs l g.insns.length false ∧
      right = ⟨true, { g with insns := g.insns ++
          (cfTarget.asm l g.insns.length
              (Function.update unknown w (some (g.insns.length + cfTarget.size l))) ++
            cfTarget.asm r (g.insns.length + cfTarget.size l) unknown) },
        cfTarget.refs r (g.insns.length + cfTarget.size l) true,
        cfTarget.refs r (g.insns.length + cfTarget.size l) false⟩ ∧
      g.insns.length + (cfTarget.size l + cfTarget.size r) ≤ maxInsns) ∨
    (∃ g', compileOperands w g (treeAst l) (treeAst r) = some (.inl g') ∧
      Overflow g g' 256 (cfTarget.size l + cfTarget.size r)) := by
  obtain ⟨left, hleft, ⟨rfl, hle⟩ | ⟨hbad, hover⟩⟩ := hl
  · have hside : (if w then cfTarget.refs l g.insns.length true
        else cfTarget.refs l g.insns.length false) = cfTarget.refs l g.insns.length w := by
      cases w <;> rfl
    have hpatch := cfTarget.patchAll_refs l (g.insns.length + cfTarget.size l) w unknown _
      g.insns [] rfl
    have hin := cfTarget.refs_range l g.insns.length w
    obtain ⟨g', hres, hcases⟩ := plResolve_spec (g.insns.length + cfTarget.size l)
      (cfTarget.refs l g.insns.length w)
      { g with insns := g.insns ++ cfTarget.asm l g.insns.length unknown }
      (fun x hx => by simpa using (hin x hx).2)
    simp only [List.append_nil] at hpatch
    simp only [hpatch] at hcases
    have hlen := cfTarget.asm_length l g.insns.length
      (Function.update unknown w (some (g.insns.length + cfTarget.size l)))
    generalize cfTarget.asm l g.insns.length
      (Function.update unknown w (some (g.insns.length + cfTarget.size l))) = closed at *
    rcases hcases with rfl | ⟨hf, hev, x, hx, hfar⟩
    · -- the code of the left operand is closed on the address at which the right one starts
      have hright := hr ⟨g.insns ++ closed, g.c⟩ hok (by simpa [hlen] using hle)
      simp only [Compiled, List.length_append, hlen, List.nil_append] at hright
      obtain ⟨right, hright, ⟨rfl, hle'⟩ | ⟨hbad, hover⟩⟩ := hright
      · left
        refine ⟨⟨true, ⟨g.insns ++ cfTarget.asm l g.insns.length unknown, g.c⟩,
          cfTarget.refs l g.insns.length true, cfTarget.refs l g.insns.length false⟩, _, ?_,
          rfl, rfl, rfl, by omega⟩
        simp [compileOperands, operands, hleft, hside, hres, hok, hright]
      · right
        refine ⟨right.g, ?_, hover.failed, hover.evolves, ?_⟩
        · simp [compileOperands, operands, hleft, hside, hres, hok, hright, hbad]
        · have := hover.large
          simp only [List.length_append, hlen] at this
          omega
    · -- a jump over the left operand does not fit into a byte
      right
      refine ⟨g', ?_, hf, hev, ?_⟩
      · simp [compileOperands, operands, hleft, hside, hres, hf]
      · have := hin x hx
        omega
  · right
    refine ⟨left.g, by simp [compileOperands, operands, hleft, hbad], hover.failed,
      hover.evolves, ?_⟩
    have := hover.large
    omega

theorem compileNode_spec (e : Expr Leaf) (g : CfGen) (outT outF : PatchList)
    (hok : g.c.failed = false) (hroom : g.insns.length ≤ maxInsns)
    (hT : outT.length + leaves e ≤ maxInsns) (hF : outF.length + leaves e ≤ maxInsns) :
    ∃ r, compileNode g (treeAst e) outT outF = some r ∧ Compiled g e outT outF r := by
  induction e generalizing g outT outF with
  | prim b =>
    obtain ⟨r, hr, hc⟩ := emitLeaf_spec b hroom hT hF
    refine ⟨r, ?_, hc⟩
    rw [treeAst, Node.ofExpr, compileNode, if_neg (by simp [hok]), compileLeaf_eq, hr]
  | neg e ih =>
    -- N_NOT emits nothing: it compiles its operand with the two lists exchanged
    obtain ⟨r, hr, hc⟩ := ih g outF outT hok hroom hF hT
    refine ⟨{ r with outT := r.outF, outF := r.outT }, ?_, ?_⟩
    · rw [treeAst, Node.ofExpr, compileNode, if_neg (by simp [hok])]
      simp only [treeAst] at hr
      simp [hr]
    · rcases hc with ⟨rfl, hle⟩ | hbad
      · exact .inl ⟨rfl, hle⟩
      · exact .inr hbad
  | conj l r ihl ihr =>
    simp only [leaves] at hT hF
    have hand := compileNode_and hok (treeAst l) (treeAst r) outT outF
    rcases compileOperands_spec true hok
        (ihl g [] [] hok hroom (by simp; omega) (by simp; omega))
        (fun g' hok' hroom' => ihr g' [] [] hok' hroom' (by simp; omega) (by simp; omega)) with
      ⟨left, right, hops, hlt, hlf, rfl, hle⟩ | ⟨g', hops, hbad⟩
    · have hlf' := cfTarget.refs_length l g.insns.length false
      have hrt := cfTarget.refs_length r (g.insns.length + cfTarget.size l) true
      have hrf := cfTarget.refs_length r (g.insns.length + cfTarget.size l) false
      refine ⟨_, ?_, .inl ⟨rfl, hle⟩⟩
      rw [hops] at hand
      simp only [Option.bind_some, hlf] at hand
      rw [plAppend_room _ _ (by omega), plAppend_room _ _ (by omega), Option.bind_eq_bind] at hand
      rw [treeAst, Node.ofExpr]
      refine hand.trans ?_
      simp [plAppend_room (outF ++ cfTarget.refs l g.insns.length false)
        (cfTarget.refs r (g.insns.length + cfTarget.size l) false)
        (by simp only [List.length_append]; omega), Target.asm, Target.refs]
    · refine ⟨⟨false, g', outT, outF⟩, ?_, .inr ⟨rfl, hbad⟩⟩
      rw [hops] at hand
      exact hand
  | disj l r ihl ihr =>
    simp only [leaves] at hT hF
    have hor := compileNode_or hok (treeAst l) (treeAst r) outT outF
    rcases compileOperands_spec false hok
        (ihl g [] [] hok hroom (by simp; omega) (by simp; omega))
        (fun g' hok' hroom' => ihr g' [] [] hok' hroom' (by simp; omega) (by simp; omega)) with
      ⟨left, right, hops, hlt, hlf, rfl, hle⟩ | ⟨g', hops, hbad⟩
    · have hlt' := cfTarget.refs_length l g.insns.length true
      have hrt := cfTarget.refs_length r (g.insns.length + cfTarget.size l) true
      have hrf := cfTarget.refs_length r (g.insns.length + cfTarget.size l) false
      refine ⟨_, ?_, .inl ⟨rfl, hle⟩⟩
      rw [hops] at hor
      simp only [Option.bind_some, hlt] at hor
      rw [plAppend_room _ _ (by omega), Option.bind_eq_bind] at hor
      rw [treeAst, Node.ofExpr]
      refine hor.trans ?_
      simp [plAppend_room (outT ++ cfTarget.refs l g.insns.length true)
        (cfTarget.refs r (g.insns.length + cfTarget.size l) true)
        (by simp only [List.length_append]; omega),
        plAppend_room outF (cfTarget.refs r (g.insns.length + cfTarget.size l) false)
        (by omega), Target.asm, Target.refs]
    · refine ⟨⟨false, g', outT, outF⟩, ?_, .inr ⟨rfl, hbad⟩⟩
      rw [hops] at hor
      exact hor

def retK (k : Nat) : SockFilter := ⟨bpfRet ||| bpfK, 0, 0, k⟩

/-- Where the body of a program leaves to: the accepting or the rejecting return. -/
def exits (e : Expr Leaf) (w : Bool) : Nat :=
  if w then cfTarget.size e else cfTarget.size e + 1

def program (e : Expr Leaf) : List SockFilter :=
  cfTarget.asm e 0 (some ∘ exits e) ++ [retK acceptLen, retK 0]

theorem program_length (e : Expr Leaf) : (program e).length = cfTarget.size e + 2 := by
  simp [program]

theorem exits_eq (e : Expr Leaf) : (some ∘ exits e) =
    Function.update (Function.update unknown true (some (cfTarget.size e))) false
      (some (cfTarget.size e + 1)) := by
  funext w
  cases w <;> rfl

theorem closeList_spec {c : Ctx Token} (hok : c.failed = false) (e : Expr Leaf) (w : Bool)
    (lab : Bool → Option Nat) (after : List SockFilter) (k : Nat) :
    (closeList ⟨cfTarget.asm e 0 lab ++ after, c⟩ (cfTarget.refs e 0 w) k =
        some (true, ⟨cfTarget.asm e 0 (Function.update lab w
          (some (cfTarget.size e + after.length))) ++ (after ++ [retK k]), c⟩) ∧
      cfTarget.size e + after.length + 1 ≤ maxInsns) ∨
    ∃ g, closeList ⟨cfTarget.asm e 0 lab ++ after, c⟩ (cfTarget.refs e 0 w) k =
        some (false, g) ∧ g.c.failed = true ∧ c.Evolves g.c ∧
      256 < cfTarget.size e + after.length + 1 := by
  have hmax : maxInsns = 1024 := rfl
  have hret : (⟨bpfRet ||| bpfK, 0, 0, k⟩ : SockFilter) = retK k := rfl
  have hin := cfTarget.refs_range e 0 w
  have hpatch := cfTarget.patchAll_refs e (cfTarget.size e + after.length) w lab 0 []
    after rfl
  have hlen : (cfTarget.asm e 0 lab ++ after).length = cfTarget.size e + after.length := by simp
  obtain ⟨g, hres, hcases⟩ := plResolve_spec (cfTarget.size e + after.length)
    (cfTarget.refs e 0 w) ⟨cfTarget.asm e 0 lab ++ after, c⟩ (fun x hx => by
      have := hin x hx
      simp only [hlen]
      omega)
  simp only [List.nil_append] at hpatch
  simp only [hpatch] at hcases
  rcases hcases with rfl | ⟨hf, hev, x, hx, hfar⟩
  · have hpush := genPush_spec ⟨cfTarget.asm e 0 (Function.update lab w
      (some (cfTarget.size e + after.length))) ++ after, c⟩ (retK k)
    simp only [List.length_append, Target.asm_length, List.append_assoc] at hpush
    rcases hpush with ⟨hpush, hle⟩ | ⟨g', hpush, hover⟩
    · exact .inl ⟨by simp [closeList, hres, hok, hret, hpush], hle⟩
    · refine .inr ⟨g', by simp [closeList, hres, hok, hret, hpush], hover.failed,
        hover.evolves, ?_⟩
      have := hover.large
      simp only [List.length_append, Target.asm_length] at this
      omega
  · exact .inr ⟨g, by simp [closeList, hres, hf], hf, hev, by omega⟩

/-- The codegen stage emits the program of the tree, or fails on a tree that needs more
than 256 instructions. -/
theorem cfGenerate_spec (e : Expr Leaf) {c : Ctx Token} (hok : c.failed = false)
    (hleaves : leaves e ≤ maxInsns) :
    (cfGenerate c (treeAst e) = some (true, ⟨program e, c⟩) ∧
        (program e).length ≤ maxInsns) ∨
      ∃ g, cfGenerate c (treeAst e) = some (false, g) ∧ g.c.failed = true ∧ c.Evolves g.c ∧
        256 < (program e).length := by
  rw [program_length]
  obtain ⟨body, hbody, ⟨rfl, -⟩ | ⟨hbad, hover⟩⟩ := compileNode_spec e ⟨[], c⟩ [] [] hok
    (by simp) (by simpa using hleaves) (by simpa using hleaves)
  · simp only [List.nil_append, List.length_nil] at hbody
    have hacc := closeList_spec hok e true unknown [] acceptLen
    simp only [List.append_nil, List.nil_append, List.length_nil, Nat.add_zero] at hacc
    rcases hacc with ⟨hacc, -⟩ | ⟨g, hacc, hf, hev, hfar⟩
    · rcases closeList_spec hok e false (Function.update unknown true (some (cfTarget.size e)))
        [retK acceptLen] 0 with ⟨hrej, hle⟩ | ⟨g, hrej, hf, hev, hfar⟩
      · left
        refine ⟨?_, hle⟩
        simp only [List.length_singleton, ← exits_eq] at hrej
        simp [cfGenerate, hbody, hacc, hrej, program]
      · exact .inr ⟨g, by simp [cfGenerate, hbody, hacc, hrej], hf, hev, hfar⟩
    · exact .inr ⟨g, by simp [cfGenerate, hbody, hacc], hf, hev, by omega⟩
  · right
    refine ⟨body.g, by simp [cfGenerate, hbody, hbad], hover.failed, hover.evolves, ?_⟩
    have := hover.large
    simp only [List.length_nil] at this
    omega

end MyWireshark.CapFilter
