import MyWireshark.CapFilter.Parser
import MyWireshark.Bpf.Interp

/-! The code generator of capfilter.c and capfilter_compile. `none` is a write outside a
patch list or the instruction array, or a NULL node that is followed; the functions that
return -1 say so in their result. -/
namespace MyWireshark.CapFilter
open MyWireshark.Filter Bpf Bytes

def maxInsns : Nat := 1024

def offEthertype : Nat := 12
def offIpIhlByte : Nat := 14
def offIpProto : Nat := 23
def offIpSrc : Nat := 26
def offIpDst : Nat := 30

/-- patch_list_t: instruction indices, each with is_jt. -/
abbrev PatchList := List (Nat × Bool)

def plAdd (pl : PatchList) (entry : Nat × Bool) : Option PatchList :=
  if pl.length < maxInsns then some (pl ++ [entry]) else none

def plAppend (dst src : PatchList) : Option PatchList := src.foldlM plAdd dst

/-- cf_gen_t; n_insns is the length of `insns`. -/
structure CfGen where
  insns : List SockFilter
  c : Ctx Token

def CfGen.fail (g : CfGen) (msg : String) : CfGen := { g with c := g.c.fail msg }

/-- gen_push; the index is `none` for -1. -/
def genPush (g : CfGen) (insn : SockFilter) : Option Nat × CfGen :=
  if g.insns.length ≥ maxInsns then (none, g.fail "compiled filter is too large")
  else (some g.insns.length, { g with insns := g.insns ++ [insn] })

def setJump (isJt : Bool) (offset : Nat) (insn : SockFilter) : SockFilter :=
  if isJt then { insn with jt := offset } else { insn with jf := offset }

def plResolve (g : CfGen) (pl : PatchList) (targetPc : Nat) : Option CfGen :=
  match pl with
  | [] => some g
  | (idx, isJt) :: pl =>
    let offset : Int := targetPc - (idx + 1)
    if offset < 0 ∨ offset > 255 then
      some (g.fail "filter expression is too complex to compile to BPF (jump out of range)")
    else if idx < g.insns.length then
      plResolve { g with insns := g.insns.modify idx (setJump isJt (offset.toNat % 256)) } pl
        targetPc
    else none

/-- What a function that emits code leaves: its return value (0 or -1) as a Boolean, the
generator and the two lists. -/
structure Emitted where
  ok : Bool
  g : CfGen
  outT : PatchList
  outF : PatchList

/-- The loop of emit_leaf over its load instructions. -/
def pushAll (g : CfGen) : List SockFilter → Bool × CfGen
  | [] => (true, g)
  | insn :: rest =>
    match genPush g insn with
    | (none, g) => (false, g)
    | (some _, g) => pushAll g rest

def emitLeaf (g : CfGen) (loads : List SockFilter) (k : Nat) (outT outF : PatchList) :
    Option Emitted :=
  match pushAll g loads with
  | (false, g) => some ⟨false, g, outT, outF⟩
  | (true, g) =>
    match genPush g ⟨bpfJmp ||| bpfJeq ||| bpfK, 0, 0, k⟩ with
    | (none, g) => some ⟨false, g, outT, outF⟩
    | (some idx, g) => do
      let outT ← plAdd outT (idx, true)
      let outF ← plAdd outF (idx, false)
      return ⟨true, g, outT, outF⟩

def addrToU32 (addr : Ipv4Addr) : Nat :=
  u32 (addr[0].toNat <<< 24) ||| u32 (addr[1].toNat <<< 16) ||| u32 (addr[2].toNat <<< 8) |||
    addr[3].toNat

def prefixMask (prefixLen : Nat) : Nat :=
  if prefixLen = 0 then 0
  else if prefixLen ≥ 32 then 0xFFFFFFFF
  else u32 (0xFFFFFFFF <<< (32 - prefixLen))

/-- The leaf cases of compile_node. N_PORT pushes its first load itself. -/
def compileLeaf (g : CfGen) (b : Leaf) (outT outF : PatchList) : Option Emitted :=
  match b with
  | .ethertype k => emitLeaf g [⟨bpfLd ||| bpfH ||| bpfAbs, 0, 0, offEthertype⟩] k outT outF
  | .ipproto k => emitLeaf g [⟨bpfLd ||| bpfB ||| bpfAbs, 0, 0, offIpProto⟩] k outT outF
  | .host dir addr =>
    let off := if dir = .src then offIpSrc else offIpDst
    emitLeaf g [⟨bpfLd ||| bpfW ||| bpfAbs, 0, 0, off⟩] (addrToU32 addr) outT outF
  | .net dir addr prefixLen =>
    let off := if dir = .src then offIpSrc else offIpDst
    let mask := prefixMask prefixLen
    emitLeaf g [⟨bpfLd ||| bpfW ||| bpfAbs, 0, 0, off⟩, ⟨bpfAlu ||| bpfAnd ||| bpfK, 0, 0, mask⟩]
      (addrToU32 addr &&& mask) outT outF
  | .port dir k =>
    match genPush g ⟨bpfLdx ||| bpfB ||| bpfMsh, 0, 0, offIpIhlByte⟩ with
    | (none, g) => some ⟨false, g, outT, outF⟩
    | (some _, g) =>
      let indK := if dir = .src then offIpIhlByte else offIpIhlByte + 2
      emitLeaf g [⟨bpfLd ||| bpfH ||| bpfInd, 0, 0, indK⟩] k outT outF

def compileNode (g : CfGen) (n : Ast) (outT outF : PatchList) : Option Emitted :=
  if g.c.failed then some ⟨false, g, outT, outF⟩
  else
    match n with
    | .null => none
    | .not l => do
      let e ← compileNode g l outF outT
      return { e with outT := e.outF, outF := e.outT }
    | .and l r => do
      let left ← compileNode g l [] []
      if !left.ok then
        return ⟨false, left.g, outT, outF⟩
      let g ← plResolve left.g left.outT left.g.insns.length
      if g.c.failed then
        return ⟨false, g, outT, outF⟩
      let right ← compileNode g r [] []
      if !right.ok then
        return ⟨false, right.g, outT, outF⟩
      let outT ← plAppend outT right.outT
      let outF ← plAppend outF left.outF
      let outF ← plAppend outF right.outF
      return ⟨true, right.g, outT, outF⟩
    | .or l r => do
      let left ← compileNode g l [] []
      if !left.ok then
        return ⟨false, left.g, outT, outF⟩
      let g ← plResolve left.g left.outF left.g.insns.length
      if g.c.failed then
        return ⟨false, g, outT, outF⟩
      let right ← compileNode g r [] []
      if !right.ok then
        return ⟨false, right.g, outT, outF⟩
      let outT ← plAppend outT left.outT
      let outT ← plAppend outT right.outT
      let outF ← plAppend outF right.outF
      return ⟨true, right.g, outT, outF⟩
    | .leaf b => compileLeaf g b outT outF

def acceptLen : Nat := 65535

/-- The end of codegen, once for the accepting and once for the rejecting return: let the
list jump to the return about to be pushed, and push it. -/
def closeList (g : CfGen) (pl : PatchList) (k : Nat) : Option (Bool × CfGen) := do
  let g ← plResolve g pl g.insns.length
  if g.c.failed then
    return (false, g)
  match genPush g ⟨bpfRet ||| bpfK, 0, 0, k⟩ with
  | (none, g) => return (false, g)
  | (some _, g) => return (true, g)

/-- The codegen stage of capfilter_compile, up to the instruction array. -/
def cfGenerate (c : Ctx Token) (root : Ast) : Option (Bool × CfGen) := do
  let body ← compileNode { insns := [], c := c } root [] []
  if !body.ok then
    return (false, body.g)
  let (ok, g) ← closeList body.g body.outT acceptLen
  if !ok then
    return (false, g)
  closeList g body.outF 0

/-- What capfilter_compile leaves: its return value, `*out` (`none` for a NULL `out`) and
the context, whose `errText` is what the caller's buffer got. -/
structure CompileResult where
  ret : Int
  out : Option SockFprog
  ctx : Ctx Token

/-- capfilter_compile. The arguments `expr` and `out` are `none` for NULL; `mallocOk` says
whether the allocation of the program succeeds. -/
def capfilterCompile (expr : Option (List Char)) (out : Option SockFprog) (errNull : Bool)
    (errLen : Int) (mallocOk : Bool) : Option CompileResult :=
  let ctx := Ctx.start errNull errLen
  match out with
  | none => some ⟨-1, none, ctx⟩
  | some _ =>
    let empty : SockFprog := { len := 0, filter := none }
    match expr with
    | none => some ⟨0, some empty, ctx⟩
    | some expr =>
      if isEmpty expr then some ⟨0, some empty, ctx⟩
      else do
        let ctx ← cfLex ctx expr
        if ctx.failed then
          return ⟨-1, some empty, ctx⟩
        let (root, parser) ← cfParse ctx
        if parser.c.failed then
          return ⟨-1, some empty, parser.c⟩
        let (ok, gen) ← cfGenerate parser.c root
        if !ok then
          return ⟨-1, some empty, gen.c⟩
        if !mallocOk then
          return ⟨-1, some empty, gen.c.fail "out of memory compiling filter"⟩
        return ⟨0, some { len := gen.insns.length % 65536, filter := some gen.insns }, gen.c⟩

end MyWireshark.CapFilter
