import MyWireshark.CapFilter.Correct
import MyWireshark.Lib.Trace

/-! The writes of the code generator: gen_push into the instruction array and pl_add into the
patch lists. The code generator is run once more with every one of these writes recorded. -/
namespace MyWireshark.CapFilter
open MyWireshark.Filter Bpf Trace

/-- A write, with the instructions emitted before it. -/
inductive Write where
  | push (insns : List SockFilter)
  | add (insns : List SockFilter) (pl : PatchList) (entry : Nat × Bool)

namespace Recorded

def genPush (g : CfGen) (insn : SockFilter) : Traced Write (Option Nat × CfGen) := do
  event (.push g.insns)
  return CapFilter.genPush g insn

def plAdd (g : CfGen) (pl : PatchList) (entry : Nat × Bool) : Traced Write PatchList := do
  event (.add g.insns pl entry)
  CapFilter.plAdd pl entry

def plAppend (g : CfGen) (dst src : PatchList) : Traced Write PatchList :=
  src.foldlM (plAdd g) dst

def pushAll (g : CfGen) : List SockFilter → Traced Write (Bool × CfGen)
  | [] => return (true, g)
  | insn :: rest => do
    match ← genPush g insn with
    | (none, g) => return (false, g)
    | (some _, g) => pushAll g rest

def emitLeaf (g : CfGen) (loads : List SockFilter) (k : Nat) (outT outF : PatchList) :
    Traced Write Emitted := do
  match ← pushAll g loads with
  | (false, g) => return ⟨false, g, outT, outF⟩
  | (true, g) =>
    match ← genPush g ⟨bpfJmp ||| bpfJeq ||| bpfK, 0, 0, k⟩ with
    | (none, g) => return ⟨false, g, outT, outF⟩
    | (some idx, g) =>
      let outT ← plAdd g outT (idx, true)
      let outF ← plAdd g outF (idx, false)
      return ⟨true, g, outT, outF⟩

def compileLeaf (g : CfGen) (b : Leaf) (outT outF : PatchList) : Traced Write Emitted :=
  match b with
  | .ethertype k => emitLeaf g [⟨bpfLd ||| bpfH ||| bpfAbs, 0, 0, offEthertype⟩] k outT outF
  | .ipproto k => emitLeaf g [⟨bpfLd ||| bpfB ||| bpfAbs, 0, 0, offIpProto⟩] k outT outF
  | .host dir addr =>
    let off := if dir = .src then offIpSrc else offIpDst
    emitLeaf g [⟨bpfLd ||| bpfW ||| bpfAbs, 0, 0, off⟩] (addrToU32 addr) outT outF
  | .net dir addr prefixLen =>
    let off := if dir = .src then offIpSrc else offIpDst
    let mask := prefixMask prefixLen
    emitLeaf g [⟨bpfLd ||| bpfW ||| bpfAbs, 0, 0, off⟩, ⟨bpfAlu ||| bpfAnd ||| bpfK, 0, 0, mask⟩]
      (addrToU32 addr &&& mask) outT outF
  | .port dir k => do
    match ← genPush g ⟨bpfLdx ||| bpfB ||| bpfMsh, 0, 0, offIpIhlByte⟩ with
    | (none, g) => return ⟨false, g, outT, outF⟩
    | (some _, g) =>
      let indK := if dir = .src then offIpIhlByte else offIpIhlByte + 2
      emitLeaf g [⟨bpfLd ||| bpfH ||| bpfInd, 0, 0, indK⟩] k outT outF

def compileNode (g : CfGen) (n : Ast) (outT outF : PatchList) : Traced Write Emitted :=
  if g.c.failed then return ⟨false, g, outT, outF⟩
  else
    match n with
    | .null => liftM (none : Option Emitted)
    | .not l => do
      let e ← compileNode g l outF outT
      return { e with outT := e.outF, outF := e.outT }
    | .and l r => do
      let left ← compileNode g l [] []
      if !left.ok then
        return ⟨false, left.g, outT, outF⟩
      let g ← plResolve left.g left.outT left.g.insns.length
      if g.c.failed then
        return ⟨false, g, outT, outF⟩
      let right ← compileNode g r [] []
      if !right.ok then
        return ⟨false, right.g, outT, outF⟩
      let outT ← plAppend right.g outT right.outT
      let outF ← plAppend right.g outF left.outF
      let outF ← plAppend right.g outF right.outF
      return ⟨true, right.g, outT, outF⟩
    | .or l r => do
      let left ← compileNode g l [] []
      if !left.ok then
        return ⟨false, left.g, outT, outF⟩
      let g ← plResolve left.g left.outF left.g.insns.length
      if g.c.failed then
        return ⟨false, g, outT, outF⟩
      let right ← compileNode g r [] []
      if !right.ok then
        return ⟨false, right.g, outT, outF⟩
      let outT ← plAppend right.g outT left.outT
      let outT ← plAppend right.g outT right.outT
      let outF ← plAppend right.g outF right.outF
      return ⟨true, right.g, outT, outF⟩
    | .leaf b => compileLeaf g b outT outF

def closeList (g : CfGen) (pl : PatchList) (k : Nat) : Traced Write (Bool × CfGen) := do
  let g ← plResolve g pl g.insns.length
  if g.c.failed then
    return (false, g)
  match ← genPush g ⟨bpfRet ||| bpfK, 0, 0, k⟩ with
  | (none, g) => return (false, g)
  | (some _, g) => return (true, g)

def cfGenerate (c : Ctx Token) (root : Ast) : Traced Write (Bool × CfGen) := do
  let body ← compileNode { insns := [], c := c } root [] []
  if !body.ok then
    return (false, body.g)
  let (ok, g) ← closeList body.g body.outT acceptLen
  if !ok then
    return (false, g)
  closeList g body.outF 0

/-! Without the record it is the code generator. -/

@[simp] theorem erase_genPush (g : CfGen) (insn : SockFilter) :
    erase (genPush g insn) = some (CapFilter.genPush g insn) := by
  simp [genPush]

@[simp] theorem erase_plAdd (g : CfGen) (pl : PatchList) (entry : Nat × Bool) :
    erase (plAdd g pl entry) = CapFilter.plAdd pl entry := by
  simp [plAdd]

@[simp] theorem erase_plAppend (g : CfGen) (dst src : PatchList) :
    erase (plAppend g dst src) = CapFilter.plAppend dst src := by
  unfold plAppend CapFilter.plAppend
  induction src generalizing dst with
  | nil => rfl
  | cons entry src ih => simp [ih]

@[simp] theorem erase_pushAll (g : CfGen) (code : List SockFilter) :
    erase (pushAll g code) = some (CapFilter.pushAll g code) := by
  induction code generalizing g with
  | nil => rfl
  | cons insn code ih =>
    simp only [pushAll, CapFilter.pushAll, erase_bind, erase_genPush]
    cases hpush : CapFilter.genPush g insn with
    | mk idx g' => cases idx <;> simp [ih]

@[simp] theorem erase_emitLeaf (g : CfGen) (loads : List SockFilter) (k : Nat)
    (outT outF : PatchList) :
    erase (emitLeaf g loads k outT outF) = CapFilter.emitLeaf g loads k outT outF := by
  simp only [emitLeaf, CapFilter.emitLeaf, erase_bind, erase_pushAll]
  cases CapFilter.pushAll g loads with
  | mk ok g' =>
    cases ok with
    | false => simp
    | true =>
      cases hpush : CapFilter.genPush g' ⟨bpfJmp ||| bpfJeq ||| bpfK, 0, 0, k⟩ with
      | mk idx g'' => cases idx <;> simp [hpush]

@[simp] theorem erase_compileLeaf (g : CfGen) (b : Leaf) (outT outF : PatchList) :
    erase (compileLeaf g b outT outF) = CapFilter.compileLeaf g b outT outF := by
  cases b with
  | port dir k =>
    simp only [compileLeaf, CapFilter.compileLeaf, erase_bind, erase_genPush]
    cases hpush : CapFilter.genPush g ⟨bpfLdx ||| bpfB ||| bpfMsh, 0, 0, offIpIhlByte⟩ with
    | mk idx g' => cases idx <;> simp
  | _ => exact erase_emitLeaf ..

@[simp] theorem erase_compileNode (g : CfGen) (n : Ast) (outT outF : PatchList) :
    erase (compileNode g n outT outF) = CapFilter.compileNode g n outT outF := by
  induction n generalizing g outT outF with
  | null => rw [compileNode, CapFilter.compileNode]; simp
  | not l ih => rw [compileNode, CapFilter.compileNode]; simp [ih]
  | and l r ihl ihr => rw [compileNode, CapFilter.compileNode]; simp [ihl, ihr]
  | or l r ihl ihr => rw [compileNode, CapFilter.compileNode]; simp [ihl, ihr]
  | leaf b => rw [compileNode, CapFilter.compileNode]; simp

@[simp] theorem erase_closeList (g : CfGen) (pl : PatchList) (k : Nat) :
    erase (closeList g pl k) = CapFilter.closeList g pl k := by
  simp only [closeList, CapFilter.closeList, erase_bind, erase_lift, erase_ite, erase_genPush]
  cases plResolve g pl g.insns.length with
  | none => rfl
  | some g' =>
    cases hpush : CapFilter.genPush g' ⟨bpfRet ||| bpfK, 0, 0, k⟩ with
    | mk idx g'' => cases idx <;> simp [hpush]

theorem erase_cfGenerate (c : Ctx Token) (root : Ast) :
    erase (cfGenerate c root) = CapFilter.cfGenerate c root := by
  simp [cfGenerate, CapFilter.cfGenerate]

end Recorded

def cmpCode : Nat := bpfJmp ||| bpfJeq ||| bpfK

def comparisons (insns : List SockFilter) : Nat := (insns.map SockFilter.code).count cmpCode

def Names (insns : List SockFilter) (pl : PatchList) : Prop :=
  ∀ x ∈ pl, (insns.map SockFilter.code)[x.1]? = some cmpCode

/-- A list has no more entries than there are comparisons, and names only these. -/
structure Tracked (insns : List SockFilter) (pl : PatchList) : Prop where
  length : pl.length ≤ comparisons insns
  names : Names insns pl

/-- A write inside the arrays, by a code generator that has `n` leaves to compile. -/
def Write.Safe (n : Nat) : Write → Prop
  | .push insns => insns.length + 1 ≤ 3 * n + 2 ∧ insns.length < maxInsns
  | .add insns pl entry => Tracked insns (pl ++ [entry]) ∧ pl.length < maxInsns

def leafCount : Ast → Nat
  | .null => 0
  | .and l r => leafCount l + leafCount r
  | .or l r => leafCount l + leafCount r
  | .not l => leafCount l
  | .leaf _ => 1

theorem leafCount_le_nodes (n : Ast) : leafCount n ≤ n.nodes := by
  induction n with
  | null => exact Nat.le_refl 0
  | leaf b => exact Nat.le_refl 1
  | not l ih => exact Nat.le_succ_of_le ih
  | and l r ihl ihr | or l r ihl ihr => exact Nat.le_succ_of_le (Nat.add_le_add ihl ihr)

theorem comparisons_append (a b : List SockFilter) :
    comparisons (a ++ b) = comparisons a + comparisons b := by
  simp [comparisons]

theorem comparisons_test (k : Nat) : comparisons [jeq k fun _ => 0] = 1 := by
  simp [comparisons, jeq, cmpCode]

theorem Names.mono {a b : List SockFilter} {pl : PatchList} (h : Names a pl)
    (hcodes : a.map SockFilter.code <+: b.map SockFilter.code) : Names b pl := by
  intro x hx
  obtain ⟨more, hmore⟩ := hcodes
  obtain ⟨hlt, -⟩ := List.getElem?_eq_some_iff.mp (h x hx)
  rw [← hmore, List.getElem?_append_left hlt]
  exact h x hx

theorem Names.append {insns : List SockFilter} {pl pl' : PatchList} (h : Names insns pl)
    (h' : Names insns pl') : Names insns (pl ++ pl') := by
  intro x hx
  obtain hx | hx := List.mem_append.mp hx
  · exact h x hx
  · exact h' x hx

theorem Tracked.mono {a b : List SockFilter} {pl : PatchList} (h : Tracked a pl)
    (hcodes : a.map SockFilter.code <+: b.map SockFilter.code) : Tracked b pl :=
  ⟨h.length.trans (hcodes.sublist.count_le cmpCode), h.names.mono hcodes⟩

theorem codes_prefix_append (a b : List SockFilter) :
    a.map SockFilter.code <+: (a ++ b).map SockFilter.code := by
  rw [List.map_append]
  exact List.prefix_append _ _

theorem tracked_nil (insns : List SockFilter) : Tracked insns [] :=
  ⟨Nat.zero_le _, fun _ hx => absurd hx List.not_mem_nil⟩

theorem Tracked.test {insns : List SockFilter} {pl : PatchList} (h : Tracked insns pl)
    (loads : List SockFilter) (k : Nat) (isJt : Bool) :
    Tracked (insns ++ loads ++ [jeq k fun _ => 0]) (pl ++ [((insns ++ loads).length, isJt)]) where
  length := by
    have hlen := h.length
    rw [List.length_append, List.length_singleton, comparisons_append, comparisons_append,
      comparisons_test]
    omega
  names := by
    refine (h.names.mono ?_).append ?_
    · rw [List.append_assoc]
      exact codes_prefix_append _ _
    · intro x hx
      rw [List.mem_singleton.mp hx]
      simp [jeq, cmpCode]

theorem codes_modify (insns : List SockFilter) (idx : Nat) (isJt : Bool) (o : Nat) :
    (insns.modify idx (setJump isJt o)).map SockFilter.code = insns.map SockFilter.code := by
  apply List.ext_getElem?
  intro i
  rw [List.getElem?_map, List.getElem?_map, List.getElem?_modify]
  cases insns[i]? with
  | none => rfl
  | some f => cases isJt <;> by_cases hi : idx = i <;> simp [setJump, hi]

theorem length_of_codes {a b : List SockFilter}
    (h : a.map SockFilter.code = b.map SockFilter.code) : a.length = b.length := by
  simpa using congrArg List.length h

theorem plResolve_codes {g : CfGen} {pl : PatchList} (h : Names g.insns pl) (t : Nat) :
    ∃ g', plResolve g pl t = some g' ∧
      g'.insns.map SockFilter.code = g.insns.map SockFilter.code := by
  induction pl generalizing g with
  | nil => exact ⟨g, rfl, rfl⟩
  | cons entry pl ih =>
    obtain ⟨idx, isJt⟩ := entry
    have hidx : idx < g.insns.length := by
      obtain ⟨hlt, -⟩ := List.getElem?_eq_some_iff.mp (h (idx, isJt) List.mem_cons_self)
      simpa using hlt
    rw [plResolve]
    split
    · exact ⟨_, rfl, rfl⟩
    · obtain ⟨g', hg', hsame⟩ := @ih { g with insns := g.insns.modify idx (setJump isJt _) } (by
        intro x hx
        rw [codes_modify]
        exact h x (List.mem_cons_of_mem _ hx))
      exact ⟨g', hg', hsame.trans (codes_modify _ _ _ _)⟩

theorem comparisons_leafLoads (b : Leaf) : comparisons (leafLoads b) = 0 := by
  cases b <;> simp [comparisons, leafLoads] <;> decide

/-- What compiling `k` leaves comes to, where it succeeds. -/
structure Grown (k : Nat) (g : CfGen) (outT outF : PatchList) (r : Emitted) : Prop where
  running : r.g.c.failed = false
  codes : g.insns.map SockFilter.code <+: r.g.insns.map SockFilter.code
  cmps : comparisons r.g.insns = comparisons g.insns + k
  size : r.g.insns.length ≤ 3 * comparisons r.g.insns
  lenT : r.outT.length ≤ outT.length + k
  lenF : r.outF.length ≤ outF.length + k
  namesT : Names r.g.insns r.outT
  namesF : Names r.g.insns r.outF

/-- And where it may fail, in a program of `n` leaves. -/
structure Outcome (n k : Nat) (g : CfGen) (outT outF : PatchList) (r : Emitted) : Prop where
  total : r.g.insns.length ≤ 3 * n
  grown : r.ok = true → Grown k g outT outF r

namespace Recorded

section
variable {n : Nat} {g : CfGen} {outT outF : PatchList}

theorem genPush_safe (hn : n ≤ 256) (hroom : g.insns.length + 1 ≤ 3 * n + 2) (insn : SockFilter) :
    Ensures (Write.Safe n) (genPush g insn) fun r =>
      r = (some g.insns.length, { g with insns := g.insns ++ [insn] }) := by
  have hlt : g.insns.length < maxInsns := by
    have hmax : maxInsns = 1024 := rfl
    omega
  refine .bind (.event ⟨hroom, hlt⟩) fun _ _ => .pure ?_
  exact if_neg (Nat.not_le.mpr hlt)

theorem pushAll_safe (hn : n ≤ 256) (code : List SockFilter)
    (hroom : g.insns.length + code.length ≤ 3 * n + 2) :
    Ensures (Write.Safe n) (pushAll g code) fun r =>
      r = (true, { g with insns := g.insns ++ code }) := by
  induction code generalizing g with
  | nil => exact .pure (by rw [List.append_nil])
  | cons insn code ih =>
    rw [List.length_cons] at hroom
    refine .bind (genPush_safe hn (by omega) insn) ?_
    rintro _ rfl
    refine (ih ?_).mono ?_
    · simp only [List.length_append, List.length_singleton]
      omega
    · rintro _ rfl
      simp

theorem plAdd_safe (hn : n ≤ 256) (hcmps : comparisons g.insns ≤ n) {pl : PatchList}
    {entry : Nat × Bool} (h : Tracked g.insns (pl ++ [entry])) :
    Ensures (Write.Safe n) (plAdd g pl entry) fun r => r = pl ++ [entry] := by
  have hlt : pl.length < maxInsns := by
    have hlen := h.length
    have hmax : maxInsns = 1024 := rfl
    rw [List.length_append, List.length_singleton] at hlen
    omega
  exact .bind (.event ⟨h, hlt⟩) fun _ _ => .lift (plAdd_room hlt entry) rfl

theorem plAppend_safe (hn : n ≤ 256) (hcmps : comparisons g.insns ≤ n) {dst src : PatchList}
    (h : Tracked g.insns (dst ++ src)) :
    Ensures (Write.Safe n) (plAppend g dst src) fun r => r = dst ++ src := by
  unfold plAppend
  induction src generalizing dst with
  | nil => exact .pure (by rw [List.append_nil])
  | cons entry src ih =>
    rw [List.append_cons] at h
    have hone : Tracked g.insns (dst ++ [entry]) := by
      refine ⟨?_, fun x hx => h.names x (List.mem_append_left src hx)⟩
      have hlen := h.length
      rw [List.length_append] at hlen
      omega
    rw [List.foldlM_cons]
    refine .bind (plAdd_safe hn hcmps hone) ?_
    rintro _ rfl
    refine (ih h).mono ?_
    rintro _ rfl
    exact (List.append_cons dst entry src).symm

theorem emitLeaf_safe (hn : n ≤ 256) {loads : List SockFilter} (hloads : comparisons loads = 0)
    (hsize : g.insns.length + loads.length ≤ 3 * comparisons g.insns + 2)
    (hroom : comparisons g.insns + 1 ≤ n) (hT : Tracked g.insns outT) (hF : Tracked g.insns outF)
    (k : Nat) :
    Ensures (Write.Safe n) (emitLeaf g loads k outT outF) fun r =>
      r = ⟨true, { g with insns := g.insns ++ loads ++ [jeq k fun _ => 0] },
        outT ++ [((g.insns ++ loads).length, true)],
        outF ++ [((g.insns ++ loads).length, false)]⟩ := by
  refine .bind (pushAll_safe hn loads (by omega)) ?_
  rintro _ rfl
  refine .bind (genPush_safe hn ?_ (jeq k fun _ => 0)) ?_
  · rw [List.length_append]
    omega
  rintro _ rfl
  have hcmps : comparisons (g.insns ++ loads ++ [jeq k fun _ => 0]) ≤ n := by
    simpa [comparisons_append, hloads, comparisons_test] using hroom
  refine .bind (plAdd_safe hn hcmps (hT.test loads k true)) ?_
  rintro _ rfl
  refine .bind (plAdd_safe hn hcmps (hF.test loads k false)) ?_
  rintro _ rfl
  exact .pure rfl

theorem compileLeaf_safe (hn : n ≤ 256) (hsize : g.insns.length ≤ 3 * comparisons g.insns)
    (hroom : comparisons g.insns + 1 ≤ n) (hT : Tracked g.insns outT) (hF : Tracked g.insns outF)
    (b : Leaf) :
    Ensures (Write.Safe n) (compileLeaf g b outT outF) fun r =>
      r = ⟨true, { g with insns := g.insns ++ leafLoads b ++ [jeq (leafKey b) fun _ => 0] },
        outT ++ [((g.insns ++ leafLoads b).length, true)],
        outF ++ [((g.insns ++ leafLoads b).length, false)]⟩ := by
  have hnone := comparisons_leafLoads b
  cases b with
  | port dir k =>
    -- N_PORT pushes its first load itself
    have hload : comparisons [⟨bpfLdx ||| bpfB ||| bpfMsh, 0, 0, offIpIhlByte⟩] = 0 := by decide
    refine .bind (genPush_safe hn (by omega) _) ?_
    rintro _ rfl
    have hgrow := codes_prefix_append g.insns [⟨bpfLdx ||| bpfB ||| bpfMsh, 0, 0, offIpIhlByte⟩]
    refine (emitLeaf_safe hn ?_ ?_ ?_ (hT.mono hgrow) (hF.mono hgrow) k).mono ?_
    · simp [comparisons]
      decide
    · rw [comparisons_append, hload, List.length_append, List.length_singleton]
      simp only [List.length_singleton]
      omega
    · rw [comparisons_append, hload]
      exact hroom
    · rintro _ rfl
      simp [leafLoads, leafKey]
  | _ => exact emitLeaf_safe hn hnone (by simp [leafLoads]; omega) hroom hT hF _

theorem leaf_outcome (hsize : g.insns.length ≤ 3 * comparisons g.insns)
    (hrun : g.c.failed = false) (hroom : comparisons g.insns + 1 ≤ n)
    (hT : Tracked g.insns outT) (hF : Tracked g.insns outF) (b : Leaf) :
    Outcome n 1 g outT outF
      ⟨true, { g with insns := g.insns ++ leafLoads b ++ [jeq (leafKey b) fun _ => 0] },
        outT ++ [((g.insns ++ leafLoads b).length, true)],
        outF ++ [((g.insns ++ leafLoads b).length, false)]⟩ := by
  have hcmps : comparisons (g.insns ++ leafLoads b ++ [jeq (leafKey b) fun _ => 0]) =
      comparisons g.insns + 1 := by
    rw [comparisons_append, comparisons_append, comparisons_leafLoads, comparisons_test]
  have hloads : (leafLoads b).length ≤ 2 := by cases b <;> simp [leafLoads]
  have hlen : (g.insns ++ leafLoads b ++ [jeq (leafKey b) fun _ => 0]).length ≤
      3 * (comparisons g.insns + 1) := by
    simp only [List.length_append, List.length_singleton]
    omega
  refine ⟨by dsimp only; omega, fun _ => ⟨hrun, ?_, hcmps, by rw [hcmps]; exact hlen, ?_, ?_,
    (hT.test _ _ _).names, (hF.test _ _ _).names⟩⟩
  · rw [List.append_assoc]
    exact codes_prefix_append _ _
  · simp
  · simp

end

section
variable {n kl kr : Nat} {g : CfGen} {outT outF : PatchList} {l r : Ast}

structure Operands (n kl kr : Nat) (g : CfGen) (left right : Emitted) : Prop where
  running : right.g.c.failed = false
  codes : g.insns.map SockFilter.code <+: right.g.insns.map SockFilter.code
  cmps : comparisons right.g.insns = comparisons g.insns + (kl + kr)
  room : comparisons right.g.insns ≤ n
  size : right.g.insns.length ≤ 3 * comparisons right.g.insns
  lens : left.outT.length ≤ kl ∧ left.outF.length ≤ kl ∧
    right.outT.length ≤ kr ∧ right.outF.length ≤ kr
  names : Names right.g.insns left.outT ∧ Names right.g.insns left.outF ∧
    Names right.g.insns right.outT ∧ Names right.g.insns right.outF

namespace Operands
variable {left right : Emitted}

theorem of_grown {g' : CfGen} (hleft : Grown kl g [] [] left)
    (hcodes : g'.insns.map SockFilter.code = left.g.insns.map SockFilter.code)
    (hright : Grown kr g' [] [] right) (hroom : comparisons g.insns + (kl + kr) ≤ n) :
    Operands n kl kr g left right := by
  have hsame : comparisons g'.insns = comparisons left.g.insns :=
    congrArg (List.count cmpCode) hcodes
  have hcmps := hleft.cmps
  have hcmps' := hright.cmps
  have hgrow : left.g.insns.map SockFilter.code <+: right.g.insns.map SockFilter.code := by
    rw [← hcodes]
    exact hright.codes
  refine ⟨hright.running, hleft.codes.trans hgrow, by omega, by omega, hright.size, ?_,
    hleft.namesT.mono hgrow, hleft.namesF.mono hgrow, hright.namesT, hright.namesF⟩
  have hlT := hleft.lenT
  have hlF := hleft.lenF
  have hrT := hright.lenT
  have hrF := hright.lenF
  simp only [List.length_nil, Nat.zero_add] at hlT hlF hrT hrF
  exact ⟨hlT, hlF, hrT, hrF⟩

variable (h : Operands n kl kr g left right)
include h

theorem tracked {pl src : PatchList} (hpl : Tracked g.insns pl) (hlen : src.length ≤ kl + kr)
    (hsrc : Names right.g.insns src) : Tracked right.g.insns (pl ++ src) where
  length := by
    have hold := hpl.length
    rw [List.length_append, h.cmps]
    omega
  names := (hpl.names.mono h.codes).append hsrc

theorem outcome {srcT srcF : PatchList} (hT : Tracked g.insns outT) (hF : Tracked g.insns outF)
    (hlenT : srcT.length ≤ kl + kr) (hlenF : srcF.length ≤ kl + kr)
    (hsrcT : Names right.g.insns srcT) (hsrcF : Names right.g.insns srcF) :
    Outcome n (kl + kr) g outT outF ⟨true, right.g, outT ++ srcT, outF ++ srcF⟩ where
  total := by
    have hsize := h.size
    have hroom := h.room
    dsimp only
    omega
  grown _ := by
    refine ⟨h.running, h.codes, h.cmps, h.size, ?_, ?_, (h.tracked hT hlenT hsrcT).names,
      (h.tracked hF hlenF hsrcF).names⟩
    · rw [List.length_append]
      exact Nat.add_le_add_left hlenT _
    · rw [List.length_append]
      exact Nat.add_le_add_left hlenF _

theorem appendBoth_safe (hn : n ≤ 256) {pl pl' src : PatchList} (hpl : Tracked g.insns pl)
    (hlen : pl'.length ≤ kl) (hlen' : src.length ≤ kr) (hpl' : Names right.g.insns pl')
    (hsrc : Names right.g.insns src) {f : PatchList → Traced Write Emitted} {Q : Emitted → Prop}
    (hf : Ensures (Write.Safe n) (f (pl ++ (pl' ++ src))) Q) :
    Ensures (Write.Safe n) (do
      let pl ← plAppend right.g pl pl'
      let pl ← plAppend right.g pl src
      f pl) Q := by
  have hboth : (pl' ++ src).length ≤ kl + kr := by
    rw [List.length_append]
    exact Nat.add_le_add hlen hlen'
  refine .bind (plAppend_safe hn h.room (h.tracked hpl (by omega) hpl')) ?_
  rintro _ rfl
  refine .bind (plAppend_safe hn h.room ?_) ?_
  · rw [List.append_assoc]
    exact h.tracked hpl hboth (hpl'.append hsrc)
  rintro _ rfl
  rw [List.append_assoc]
  exact hf

end Operands

theorem operands_safe (pick : Emitted → PatchList) (fill : Emitted → Emitted → Traced Write Emitted)
    (hpick : ∀ e, pick e = e.outT ∨ pick e = e.outF)
    (hroom : comparisons g.insns + (kl + kr) ≤ n)
    (hl : Ensures (Write.Safe n) (compileNode g l [] []) (Outcome n kl g [] []))
    (hr : ∀ g' : CfGen, g'.c.failed = false → g'.insns.length ≤ 3 * comparisons g'.insns →
      comparisons g'.insns + kr ≤ n →
      Ensures (Write.Safe n) (compileNode g' r [] []) (Outcome n kr g' [] []))
    (hfill : ∀ left right, Operands n kl kr g left right →
      Ensures (Write.Safe n) (fill left right) (Outcome n (kl + kr) g outT outF)) :
    Ensures (Write.Safe n) (do
      let left ← compileNode g l [] []
      if !left.ok then
        return ⟨false, left.g, outT, outF⟩
      let g ← plResolve left.g (pick left) left.g.insns.length
      if g.c.failed then
        return ⟨false, g, outT, outF⟩
      let right ← compileNode g r [] []
      if !right.ok then
        return ⟨false, right.g, outT, outF⟩
      fill left right) (Outcome n (kl + kr) g outT outF) := by
  have hstop : ∀ g' : CfGen, g'.insns.length ≤ 3 * n →
      Outcome n (kl + kr) g outT outF ⟨false, g', outT, outF⟩ := fun g' hlen =>
    ⟨hlen, fun hok => by cases hok⟩
  refine .bind hl fun left hleft => ?_
  split
  · exact .pure (hstop _ hleft.total)
  next hok =>
  have hleft' := hleft.grown (by simpa using hok)
  have hpicked : Names left.g.insns (pick left) := by
    obtain hT | hF := hpick left
    · rw [hT]; exact hleft'.namesT
    · rw [hF]; exact hleft'.namesF
  obtain ⟨g', hresolve, hcodes⟩ := plResolve_codes hpicked left.g.insns.length
  have hlen := length_of_codes hcodes
  have hsame : comparisons g'.insns = comparisons left.g.insns :=
    congrArg (List.count cmpCode) hcodes
  refine .bind (.lift hresolve rfl) ?_
  rintro _ rfl
  split
  · exact .pure (hstop _ (by rw [hlen]; exact hleft.total))
  next hrun =>
  have hcmps := hleft'.cmps
  refine .bind (hr g' (by simpa using hrun) ?_ (by omega)) fun right hright => ?_
  · rw [hlen, hsame]
    exact hleft'.size
  split
  · exact .pure (hstop _ hright.total)
  next hok' =>
  exact hfill left right (.of_grown hleft' hcodes (hright.grown (by simpa using hok')) hroom)

end

theorem compileNode_safe {n : Nat} (hn : n ≤ 256) (a : Ast) (hnull : a.noNull = true) {g : CfGen}
    {outT outF : PatchList} (hrun : g.c.failed = false)
    (hsize : g.insns.length ≤ 3 * comparisons g.insns)
    (hroom : comparisons g.insns + leafCount a ≤ n) (hT : Tracked g.insns outT)
    (hF : Tracked g.insns outF) :
    Ensures (Write.Safe n) (compileNode g a outT outF) (Outcome n (leafCount a) g outT outF) := by
  induction a generalizing g outT outF with
  | null => cases hnull
  | leaf b =>
    rw [compileNode, if_neg (by simp [hrun])]
    refine (compileLeaf_safe hn hsize hroom hT hF b).mono ?_
    rintro _ rfl
    exact leaf_outcome hsize hrun hroom hT hF b
  | not l ih =>
    rw [compileNode, if_neg (by simp [hrun])]
    refine .bind (ih hnull hrun hsize hroom hF hT) fun e he => .pure ⟨he.total, fun hok => ?_⟩
    have hgrown := he.grown hok
    exact ⟨hgrown.running, hgrown.codes, hgrown.cmps, hgrown.size, hgrown.lenF, hgrown.lenT,
      hgrown.namesF, hgrown.namesT⟩
  | and l r ihl ihr =>
    obtain ⟨hnl, hnr⟩ := Bool.and_eq_true_iff.mp hnull
    rw [leafCount] at hroom
    rw [compileNode, if_neg (by simp [hrun])]
    refine operands_safe (fun e => e.outT) _ (fun _ => .inl rfl) hroom
      (ihl hnl hrun hsize (by omega) (tracked_nil _) (tracked_nil _))
      (fun g' hrun' hsize' hroom' =>
        ihr hnr hrun' hsize' hroom' (tracked_nil _) (tracked_nil _)) ?_
    intro left right h
    obtain ⟨-, hlF, hrT, hrF⟩ := h.lens
    obtain ⟨-, hnlF, hnrT, hnrF⟩ := h.names
    refine .bind (plAppend_safe hn h.room (h.tracked hT (by omega) hnrT)) ?_
    rintro _ rfl
    refine h.appendBoth_safe hn hF hlF hrF hnlF hnrF (.pure ?_)
    refine h.outcome hT hF (by omega) ?_ hnrT (hnlF.append hnrF)
    rw [List.length_append]
    exact Nat.add_le_add hlF hrF
  | or l r ihl ihr =>
    obtain ⟨hnl, hnr⟩ := Bool.and_eq_true_iff.mp hnull
    rw [leafCount] at hroom
    rw [compileNode, if_neg (by simp [hrun])]
    refine operands_safe (fun e => e.outF) _ (fun _ => .inr rfl) hroom
      (ihl hnl hrun hsize (by omega) (tracked_nil _) (tracked_nil _))
      (fun g' hrun' hsize' hroom' =>
        ihr hnr hrun' hsize' hroom' (tracked_nil _) (tracked_nil _)) ?_
    intro left right h
    obtain ⟨hlT, -, hrT, hrF⟩ := h.lens
    obtain ⟨hnlT, -, hnrT, hnrF⟩ := h.names
    refine h.appendBoth_safe hn hT hlT hrT hnlT hnrT ?_
    refine .bind (plAppend_safe hn h.room (h.tracked hF (by omega) hnrF)) ?_
    rintro _ rfl
    refine .pure (h.outcome hT hF ?_ (by omega) (hnlT.append hnrT) hnrF)
    rw [List.length_append]
    exact Nat.add_le_add hlT hrT

theorem closeList_safe {n : Nat} (hn : n ≤ 256) {g : CfGen} {pl : PatchList}
    (hnames : Names g.insns pl) (hroom : g.insns.length + 1 ≤ 3 * n + 2) (k : Nat) :
    Ensures (Write.Safe n) (closeList g pl k) fun r =>
      r.2.insns.length ≤ g.insns.length + 1 ∧
        g.insns.map SockFilter.code <+: r.2.insns.map SockFilter.code := by
  obtain ⟨g', hresolve, hcodes⟩ := plResolve_codes hnames g.insns.length
  have hlen := length_of_codes hcodes
  refine .bind (.lift hresolve rfl) ?_
  rintro _ rfl
  split
  · exact .pure ⟨by dsimp only; omega, [], by rw [List.append_nil, hcodes]⟩
  · refine .bind (genPush_safe hn (by omega) _) ?_
    rintro _ rfl
    refine .pure ⟨?_, ?_⟩
    · rw [List.length_append, hlen]
      exact Nat.le_refl _
    · rw [← hcodes]
      exact codes_prefix_append _ _

theorem cfGenerate_safe {c : Ctx Token} (hok : c.failed = false) {root : Ast}
    (hnull : root.noNull = true) (hnodes : root.nodes ≤ maxNodes) :
    Ensures (Write.Safe (leafCount root)) (cfGenerate c root) fun r =>
      r.2.insns.length ≤ 3 * leafCount root + 2 := by
  have hn : leafCount root ≤ 256 := (leafCount_le_nodes root).trans hnodes
  refine .bind (compileNode_safe hn root hnull hok (Nat.zero_le _) (Nat.le_of_eq (Nat.zero_add _))
    (tracked_nil _) (tracked_nil _)) fun body hbody => ?_
  have htotal := hbody.total
  split
  · exact .pure (by dsimp only; omega)
  next hbodyOk =>
  have hgrown := hbody.grown (by simpa using hbodyOk)
  refine .bind (closeList_safe hn hgrown.namesT (by omega) acceptLen) ?_
  rintro ⟨ok, g⟩ ⟨hlen, hcodes⟩
  dsimp only at hlen hcodes ⊢
  split
  · exact .pure (by dsimp only; omega)
  · refine (closeList_safe hn (hgrown.namesF.mono hcodes) (by omega) 0).mono ?_
    rintro ⟨ok', g'⟩ ⟨hlen', -⟩
    dsimp only at hlen' ⊢
    omega

end Recorded

/-- For every tree that the parser builds, every write of the code generator is inside its
array: a patch list never has more entries than comparisons have been emitted, its entries name
such comparisons, and the program takes at most three instructions for a leaf and two more. -/
theorem patch_lists_in_bounds {expr : List Char} {errNull : Bool} {errLen : Int} {c : Ctx Token}
    {root : Ast} {p : Parser Token} (hlex : cfLex (Ctx.start errNull errLen) expr = some c)
    (hlexed : c.failed = false) (hparse : cfParse c = some (root, p))
    (hparsed : p.c.failed = false) :
    ∃ ok g writes, (Recorded.cfGenerate p.c root).run = some ((ok, g), writes) ∧
      cfGenerate p.c root = some (ok, g) ∧ g.insns.length ≤ 3 * leafCount root + 2 ∧
      (∀ insns, .push insns ∈ writes →
        insns.length + 1 ≤ 3 * leafCount root + 2 ∧ insns.length < 1024) ∧
      ∀ insns pl entry, .add insns pl entry ∈ writes →
        pl.length < 1024 ∧ (pl ++ [entry]).length ≤ comparisons insns ∧
          Names insns (pl ++ [entry]) := by
  obtain ⟨hnull, hnodes⟩ := parsed_tree hlex hlexed hparse hparsed
  obtain ⟨⟨ok, g⟩, writes, hrun, herase, hsafe, hlen⟩ :=
    (Recorded.cfGenerate_safe hparsed hnull hnodes).erased
  rw [Recorded.erase_cfGenerate] at herase
  refine ⟨ok, g, writes, hrun, herase, hlen, fun insns hw => hsafe _ hw, ?_⟩
  intro insns pl entry hw
  obtain ⟨htracked, hlt⟩ := hsafe _ hw
  exact ⟨hlt, htracked.length, htracked.names⟩

theorem patch_lists_in_bounds_ports :
    ∃ c root p, cfLex (Ctx.start true 0) "tcp and not port 80".toList = some c ∧
      cfParse c = some (root, p) ∧ leafCount root = 7 ∧
      ∃ ok g writes, (Recorded.cfGenerate p.c root).run = some ((ok, g), writes) ∧
        g.insns.length ≤ 23 ∧
        ∀ insns pl entry, .add insns pl entry ∈ writes →
          pl.length < 1024 ∧ (pl ++ [entry]).length ≤ comparisons insns ∧
            Names insns (pl ++ [entry]) := by
  have hstages : ((cfLex (Ctx.start true 0) "tcp and not port 80".toList).bind fun c =>
      (cfParse c).map fun made => (c.failed, made.2.c.failed, leafCount made.1)) =
        some (false, false, 7) := by
    decide +kernel
  obtain ⟨c, hlex, hstages⟩ := Option.bind_eq_some_iff.mp hstages
  obtain ⟨⟨root, p⟩, hparse, hval⟩ := Option.map_eq_some_iff.mp hstages
  simp only [Prod.mk.injEq] at hval
  obtain ⟨hlexed, hparsed, hleaves⟩ := hval
  obtain ⟨ok, g, writes, hrun, -, hlen, -, hadd⟩ :=
    patch_lists_in_bounds hlex hlexed hparse hparsed
  rw [hleaves] at hlen
  exact ⟨c, root, p, hlex, hparse, hleaves, ok, g, writes, hrun, hlen, hadd⟩

end MyWireshark.CapFilter
