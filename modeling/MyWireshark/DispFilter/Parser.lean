import MyWireshark.DispFilter.Lexer

/-! The comparisons of dispfilter.c, its parse_primitive, evaluator and public functions.
The parse functions above parse_primitive are the shared ones. -/
namespace MyWireshark.DispFilter
open MyWireshark.Filter

inductive FieldKind where
  | mac | ipv4 | ipv6 | port

def Field.kind : Field → FieldKind
  | .ethSrc | .ethDst | .ethAddr => .mac
  | .ipSrc | .ipDst | .ipAddr => .ipv4
  | .ipv6Src | .ipv6Dst | .ipv6Addr => .ipv6
  | .tcpSrcport | .tcpDstport | .tcpPort | .udpSrcport | .udpDstport | .udpPort => .port

/-- The member of the value union that a field of this kind uses. -/
def FieldKind.Value : FieldKind → Type
  | .mac => MacAddr
  | .ipv4 => Ipv4Addr
  | .ipv6 => Ipv6Addr
  | .port => Nat

def FieldKind.zero : (kind : FieldKind) → kind.Value
  | .mac => Vector.replicate 6 0
  | .ipv4 => Vector.replicate 4 0
  | .ipv6 => Vector.replicate 16 0
  | .port => (0 : Nat)

inductive CmpOp where
  | eq | ne
  deriving DecidableEq

/-- The N_CMP part of df_node_t. The value is of the kind the field requires. -/
structure Cmp where
  field : Field
  cmp : CmpOp
  value : field.kind.Value

abbrev Ast := Node Cmp

def maxNodes : Nat := 256

/- The cases of the switch: the value a token gives a field, or the message. -/

def macValue : Token → Except String MacAddr
  | .mac addr => .ok addr
  | _ => .error "expected a MAC address (aa:bb:cc:dd:ee:ff)"

def ipv4Value : Token → Except String Ipv4Addr
  | .ipv4 addr => .ok addr
  | _ => .error "expected an IPv4 address"

def ipv6Value : Token → Except String Ipv6Addr
  | .ipv6 addr => .ok addr
  | _ => .error "expected an IPv6 address"

def portValue : Token → Except String Nat
  | .number num =>
    if num > 65535 then .error "expected a port number (0-65535)" else .ok (num % 2 ^ 16)
  | _ => .error "expected a port number (0-65535)"

def tokenValue (t : Token) : (kind : FieldKind) → Except String kind.Value
  | .mac => macValue t
  | .ipv4 => ipv4Value t
  | .ipv6 => ipv6Value t
  | .port => portValue t

/-- The end of parse_primitive: the node is made first, then its value is checked. -/
def parseValue (field : Field) (cmp : CmpOp) (p : Parser Token) :
    Option (Ast × Parser Token) := do
  let (valTok, p) ← pAdvance p
  let (n, p) := mkNode p (.leaf (⟨field, cmp, field.kind.zero⟩ : Cmp))
  if n.isNull then
    return (.null, p)
  match tokenValue valTok field.kind with
  | .ok value => return (.leaf ⟨field, cmp, value⟩, p)
  | .error msg => return (.null, p.fail msg)

def parsePrimitive (p : Parser Token) : Option (Ast × Parser Token) := do
  let (fieldTok, p) ← pAdvance p
  match fieldTok with
  | .field field =>
    let (opTok, p) ← pAdvance p
    if opTok = .eq then parseValue field .eq p
    else if opTok = .ne then parseValue field .ne p
    else return (.null, p.fail "expected '==' or '!=' after field name")
  | _ => return (.null, p.fail "expected a field name (e.g. tcp.port, ip.src)")

def dfParse (c : Ctx Token) : Option (Ast × Parser Token) :=
  parseStage parsePrimitive true { c := c, count := 0, cap := maxNodes }

structure Fields where
  ethSrc : MacAddr
  ethDst : MacAddr
  hasIp : UInt8
  ipSrc : Ipv4Addr
  ipDst : Ipv4Addr
  hasIpv6 : UInt8
  ipv6Src : Ipv6Addr
  ipv6Dst : Ipv6Addr
  hasTcp : UInt8
  tcpSrcPort : Nat
  tcpDstPort : Nat
  hasUdp : UInt8
  udpSrcPort : Nat
  udpDstPort : Nat
  deriving DecidableEq

def evalEq (f : Fields) : (field : Field) → field.kind.Value → Bool
  | .ethSrc, v => f.ethSrc == v
  | .ethDst, v => f.ethDst == v
  | .ethAddr, v => f.ethSrc == v || f.ethDst == v
  | .ipSrc, v => f.hasIp != 0 && f.ipSrc == v
  | .ipDst, v => f.hasIp != 0 && f.ipDst == v
  | .ipAddr, v => f.hasIp != 0 && (f.ipSrc == v || f.ipDst == v)
  | .ipv6Src, v => f.hasIpv6 != 0 && f.ipv6Src == v
  | .ipv6Dst, v => f.hasIpv6 != 0 && f.ipv6Dst == v
  | .ipv6Addr, v => f.hasIpv6 != 0 && (f.ipv6Src == v || f.ipv6Dst == v)
  | .tcpSrcport, v => f.hasTcp != 0 && f.tcpSrcPort == v
  | .tcpDstport, v => f.hasTcp != 0 && f.tcpDstPort == v
  | .tcpPort, v => f.hasTcp != 0 && (f.tcpSrcPort == v || f.tcpDstPort == v)
  | .udpSrcport, v => f.hasUdp != 0 && f.udpSrcPort == v
  | .udpDstport, v => f.hasUdp != 0 && f.udpDstPort == v
  | .udpPort, v => f.hasUdp != 0 && (f.udpSrcPort == v || f.udpDstPort == v)

def evalCmp (n : Cmp) (f : Fields) : Bool :=
  let eq := evalEq f n.field n.value
  if n.cmp = .eq then eq else !eq

/-- eval_node; `none` is a NULL node that is followed. -/
def evalNode (f : Fields) : Ast → Option Bool
  | .null => none
  | .and l r => do if ← evalNode f l then evalNode f r else return false
  | .or l r => do if ← evalNode f l then return true else evalNode f r
  | .not l => do return !(← evalNode f l)
  | .leaf n => some (evalCmp n f)

/-- struct dispfilter; the pool is the tree itself. -/
structure Dispfilter where
  root : Ast
  nodeCount : Nat

/-- What dispfilter_compile leaves: the filter (`none` for NULL) and the context, whose
`errText` is what the caller's buffer got. -/
structure CompileResult where
  filter : Option Dispfilter
  ctx : Ctx Token

/-- dispfilter_compile. `mallocFilter` and `mallocNodes` say whether its two allocations
succeed; the error of a failed one is printed without the context, which is not set up
yet, so it goes into the buffer as the context's own would. -/
def dispfilterCompile (expr : Option (List Char)) (errNull : Bool) (errLen : Int)
    (mallocFilter mallocNodes : Bool) : Option CompileResult :=
  let ctx := Ctx.start errNull errLen
  if !mallocFilter || !mallocNodes then
    some ⟨none, ctx.fail "out of memory compiling filter"⟩
  else
    match expr with
    | none => some ⟨some { root := .null, nodeCount := 0 }, ctx⟩
    | some expr =>
      if isEmpty expr then
        some ⟨some { root := .null, nodeCount := 0 }, ctx⟩
      else do
        let ctx ← dfLex ctx expr
        if ctx.failed then
          return ⟨none, ctx⟩
        let (root, parser) ← dfParse ctx
        if parser.c.failed then
          return ⟨none, parser.c⟩
        return ⟨some { root := root, nodeCount := parser.count }, parser.c⟩

/-- dispfilter_matches; a NULL filter or root matches everything. -/
def dispfilterMatches (filter : Option Dispfilter) (fields : Fields) : Option Bool :=
  match filter with
  | none => some true
  | some filter => if filter.root.isNull then some true else evalNode fields filter.root

end MyWireshark.DispFilter
