import MyWireshark.CapFilter.Lexer

/-! The AST and the parser of capfilter.c. The connectives and the parse functions above
parse_primitive are the shared ones. -/
namespace MyWireshark.CapFilter
open MyWireshark.Filter

def ethertypeIpv4 : Nat := 0x0800
def ethertypeIpv6 : Nat := 0x86DD
def ethertypeArp : Nat := 0x0806

def ipprotoIcmp : Nat := 1
def ipprotoTcp : Nat := 6
def ipprotoUdp : Nat := 17

def maxNodes : Nat := 256

inductive Dir where
  | src | dst
  deriving DecidableEq

/-- The leaf kinds of node_kind_t, each with the fields of node_t it uses. -/
inductive Leaf where
  | ethertype (k : Nat)
  | ipproto (k : Nat)
  | host (dir : Dir) (addr : Ipv4Addr)
  | port (dir : Dir) (k : Nat)
  | net (dir : Dir) (addr : Ipv4Addr) (prefixLen : Nat)
  deriving DecidableEq

abbrev Ast := Node Leaf

abbrev Made := Ast × Parser Token

def mkAnd (p : Parser Token) (l r : Ast) : Made := mkNode p (.and l r)

def mkOr (p : Parser Token) (l r : Ast) : Made := mkNode p (.or l r)

def mkEthertype (p : Parser Token) (ethertype : Nat) : Made :=
  mkNode p (.leaf (.ethertype ethertype))

def mkIpproto (p : Parser Token) (proto : Nat) : Made := mkNode p (.leaf (.ipproto proto))

def mkHost (p : Parser Token) (dir : Dir) (addr : Ipv4Addr) : Made :=
  mkNode p (.leaf (.host dir addr))

def mkPort (p : Parser Token) (dir : Dir) (port : Nat) : Made :=
  mkNode p (.leaf (.port dir port))

def mkNet (p : Parser Token) (dir : Dir) (addr : Ipv4Addr) (prefixLen : Nat) : Made :=
  mkNode p (.leaf (.net dir addr prefixLen))

/- C leaves the order in which arguments are evaluated open; they are made from left to
   right here. Only arena indices could tell, and the trees do not have them. -/

def mkL4Proto (p : Parser Token) (ipProto : Nat) : Made :=
  let (ether, p) := mkEthertype p ethertypeIpv4
  let (proto, p) := mkIpproto p ipProto
  mkAnd p ether proto

/-- `has_dir ? mk(dir) : mk_or(mk(DIR_SRC), mk(DIR_DST))`, with has_dir and dir as one
value that is `none` without a direction. -/
def mkSides (mk : Parser Token → Dir → Made) (dir : Option Dir) (p : Parser Token) : Made :=
  match dir with
  | some dir => mk p dir
  | none =>
    let (src, p) := mk p .src
    let (dst, p) := mk p .dst
    mkOr p src dst

def parseHost (dir : Option Dir) (p : Parser Token) : Option Made := do
  let (_, p) ← pAdvance p
  let (addrTok, p) ← pAdvance p
  match addrTok with
  | .ipv4 addr =>
    let (ip, p) := mkEthertype p ethertypeIpv4
    let (host, p) := mkSides (fun p dir => mkHost p dir addr) dir p
    return mkAnd p ip host
  | _ => return (.null, p.fail "expected an IPv4 address after 'host'")

def mkTcpOrUdp (p : Parser Token) : Made :=
  let (tcp, p) := mkIpproto p ipprotoTcp
  let (udp, p) := mkIpproto p ipprotoUdp
  mkOr p tcp udp

def parsePort (dir : Option Dir) (p : Parser Token) : Option Made := do
  let (_, p) ← pAdvance p
  let (numTok, p) ← pAdvance p
  match numTok with
  | .number num =>
    if num > 65535 then
      return (.null, p.fail "expected a port number (0-65535) after 'port'")
    let (ip, p) := mkEthertype p ethertypeIpv4
    let (isTcpOrUdp, p) := mkTcpOrUdp p
    let (port, p) := mkSides (fun p dir => mkPort p dir num) dir p
    let (inner, p) := mkAnd p isTcpOrUdp port
    return mkAnd p ip inner
  | _ => return (.null, p.fail "expected a port number (0-65535) after 'port'")

/-- `case TOK_NET` after the address; prefix_len is a uint8_t. -/
def parsePrefixLen (dir : Option Dir) (addr : Ipv4Addr) (p : Parser Token) : Option Made := do
  let (slashTok, p) ← pAdvance p
  if slashTok ≠ .slash then
    return (.null, p.fail "expected '/' and a prefix length after 'net A.B.C.D'")
  let (lenTok, p) ← pAdvance p
  match lenTok with
  | .number num =>
    if num > 32 then
      return (.null, p.fail "expected a prefix length (0-32) after 'net A.B.C.D/'")
    let prefixLen := num % 256
    let (ip, p) := mkEthertype p ethertypeIpv4
    let (net, p) := mkSides (fun p dir => mkNet p dir addr prefixLen) dir p
    return mkAnd p ip net
  | _ => return (.null, p.fail "expected a prefix length (0-32) after 'net A.B.C.D/'")

def parseNet (dir : Option Dir) (p : Parser Token) : Option Made := do
  let (_, p) ← pAdvance p
  let (addrTok, p) ← pAdvance p
  match addrTok with
  | .ipv4 addr => parsePrefixLen dir addr p
  | _ => return (.null, p.fail "expected an IPv4 network address after 'net'")

def parseDir (p : Parser Token) : Option (Option Dir × Parser Token) := do
  let t ← pPeek p
  if t = .src then
    let (_, p) ← pAdvance p
    return (some .src, p)
  else if t = .dst then
    let (_, p) ← pAdvance p
    return (some .dst, p)
  else
    return (none, p)

def parsePrimitive (p : Parser Token) : Option Made := do
  let (dir, p) ← parseDir p
  let t ← pPeek p
  if dir.isSome ∧ t ≠ .host ∧ t ≠ .port ∧ t ≠ .net then
    return (.null, p.fail "expected 'host', 'port' or 'net' after 'src'/'dst'")
  match t with
  | .protoTcp => do
    let (_, p) ← pAdvance p
    return mkL4Proto p ipprotoTcp
  | .protoUdp => do
    let (_, p) ← pAdvance p
    return mkL4Proto p ipprotoUdp
  | .protoIcmp => do
    let (_, p) ← pAdvance p
    return mkL4Proto p ipprotoIcmp
  | .protoIp => do
    let (_, p) ← pAdvance p
    return mkEthertype p ethertypeIpv4
  | .protoIp6 => do
    let (_, p) ← pAdvance p
    return mkEthertype p ethertypeIpv6
  | .protoArp => do
    let (_, p) ← pAdvance p
    return mkEthertype p ethertypeArp
  | .host => parseHost dir p
  | .port => parsePort dir p
  | .net => parseNet dir p
  | _ =>
    return (.null,
      p.fail "expected a filter primitive (tcp/udp/icmp/ip/ip6/arp/host/port/net)")

def cfParse (c : Ctx Token) : Option Made :=
  parseStage parsePrimitive false { c := c, count := 0, cap := maxNodes }

end MyWireshark.CapFilter
