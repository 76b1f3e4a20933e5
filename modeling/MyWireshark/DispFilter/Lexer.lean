import MyWireshark.Filter.Core
import Mathlib.Data.Vector.Basic

/-! The lexer of dispfilter.c with its address literals. -/
namespace MyWireshark.DispFilter
open MyWireshark.Filter BoolGrammar

abbrev MacAddr := Vector UInt8 6
abbrev Ipv4Addr := Vector UInt8 4
abbrev Ipv6Addr := Vector UInt8 16

inductive Field where
  | ethSrc | ethDst | ethAddr
  | ipSrc | ipDst | ipAddr
  | ipv6Src | ipv6Dst | ipv6Addr
  | tcpSrcport | tcpDstport | tcpPort
  | udpSrcport | udpDstport | udpPort
  deriving DecidableEq

/-- token_t, each kind with the payload the parser reads from it. -/
inductive Token where
  | tokEnd | lparen | rparen | and | or | not | eq | ne
  | field (field : Field)
  | number (num : Nat)
  | ipv4 (addr : Ipv4Addr)
  | ipv6 (addr : Ipv6Addr)
  | mac (addr : MacAddr)
  deriving DecidableEq

def Token.shape : Token → Shape
  | .and => .conj
  | .or => .disj
  | .not => .neg
  | .lparen => .lparen
  | .rparen => .rparen
  | _ => .other

instance : Lexeme Token where
  isEnd t := t = .tokEnd
  shape := Token.shape
  shape_end t h := by
    have : t = .tokEnd := by simpa using h
    rw [this]; rfl

def keywords : List (String × Token) :=
  [("and", .and), ("or", .or), ("not", .not),
    ("eth.src", .field .ethSrc), ("eth.dst", .field .ethDst), ("eth.addr", .field .ethAddr),
    ("ip.src", .field .ipSrc), ("ip.dst", .field .ipDst), ("ip.addr", .field .ipAddr),
    ("ipv6.src", .field .ipv6Src), ("ipv6.dst", .field .ipv6Dst),
    ("ipv6.addr", .field .ipv6Addr), ("tcp.srcport", .field .tcpSrcport),
    ("tcp.dstport", .field .tcpDstport), ("tcp.port", .field .tcpPort),
    ("udp.srcport", .field .udpSrcport), ("udp.dstport", .field .udpDstport),
    ("udp.port", .field .udpPort)]

def isAlnum (ch : Char) : Bool :=
  isDigit ch || ('a' ≤ ch && ch ≤ 'z') || ('A' ≤ ch && ch ≤ 'Z')

def hexNibble (ch : Char) : Option Nat :=
  if isDigit ch then some (ch.toNat - 48)
  else if 'a' ≤ ch ∧ ch ≤ 'f' then some (ch.toNat - 97 + 10)
  else if 'A' ≤ ch ∧ ch ≤ 'F' then some (ch.toNat - 65 + 10)
  else none

/-- The locals of parse_ipv4_word; `value` is -1 before the first digit of an octet. -/
structure Ipv4Scan where
  octet : Nat
  value : Int
  digits : Nat
  out : Ipv4Addr

def ipv4Turn (s : Ipv4Scan) (ch : Char) : Option Ipv4Scan :=
  if ch = '.' then
    if h : s.digits = 0 ∨ s.value > 255 ∨ s.octet > 3 then none
    else some
      { octet := s.octet + 1
        value := -1
        digits := 0
        out := s.out.set s.octet (UInt8.ofNat s.value.toNat) (by omega) }
  else if isDigit ch then
    let value := (if s.value < 0 then 0 else s.value) * 10 + ((ch.toNat : Int) - 48)
    if value > 255 then none
    else some { s with value := value, digits := s.digits + 1 }
  else none

/-- parse_ipv4_word: the loop runs over the word and a virtual trailing dot. -/
def parseIpv4Word (word : List Char) : Option Ipv4Addr := do
  let s ← (word ++ ['.']).foldlM ipv4Turn
    { octet := 0, value := -1, digits := 0, out := Vector.replicate 4 0 }
  if s.octet = 4 then return s.out else none

/-- Octet `g` of parse_mac_word, with the colon after it. -/
def macOctet (word : List Char) (g : Nat) : Option UInt8 := do
  let hi ← hexNibble (← word[g * 3]?)
  let lo ← hexNibble (← word[g * 3 + 1]?)
  if g < 5 ∧ word[g * 3 + 2]? ≠ some ':' then none
  else return UInt8.ofNat (hi <<< 4 ||| lo)

def parseMacWord (word : List Char) : Option MacAddr :=
  if word.length ≠ 17 then none
  else do
    let o0 ← macOctet word 0
    let o1 ← macOctet word 1
    let o2 ← macOctet word 2
    let o3 ← macOctet word 3
    let o4 ← macOctet word 4
    let o5 ← macOctet word 5
    return #v[o0, o1, o2, o3, o4, o5]

def hextetValue (group : List Char) : Option Nat :=
  group.foldlM (fun val ch => (hexNibble ch).map fun nib => (val <<< 4 ||| nib) % 2 ^ 16) 0

/-- parse_hextet_list from the current character on, `out` being the groups so far. -/
def parseHextetList (maxGroups : Nat) (out : List Nat) (s : List Char) : Option (List Nat) :=
  if s = [] then some out
  else
    let group := s.takeWhile (· ≠ ':')
    if group.length = 0 ∨ group.length > 4 then none
    else
      match hextetValue group with
      | none => none
      | some val =>
        if out.length ≥ maxGroups then none
        else
          match _h : s.dropWhile (· ≠ ':') with
          | [] => some (out ++ [val])
          | _ :: rest => if rest = [] then none else parseHextetList maxGroups (out ++ [val]) rest
termination_by s.length
decreasing_by
  have hle := (List.dropWhile_sublist (l := s) (· ≠ ':')).length_le
  rw [_h] at hle
  simp only [List.length_cons] at hle
  omega

def splitDouble : List Char → Option (List Char × List Char)
  | ':' :: ':' :: rest => some ([], rest)
  | ch :: rest => (splitDouble rest).map fun (l, r) => (ch :: l, r)
  | [] => none

def groupBytes (groups : List Nat) : List UInt8 :=
  groups.flatMap fun g => [UInt8.ofNat (g >>> 8), UInt8.ofNat (g &&& 0xFF)]

/-- The output buffer of parse_ipv6_word, which has room for exactly 16 bytes. -/
def toIpv6 (bytes : List UInt8) : Option Ipv6Addr :=
  if h : bytes.length = 16 then some ⟨bytes.toArray, by simpa using h⟩ else none

def parseIpv6Word (word : List Char) : Option Ipv6Addr :=
  match splitDouble word with
  | none => do
    let left ← parseHextetList 8 [] word
    if left.length ≠ 8 then none
    else toIpv6 (groupBytes left)
  | some (leftPart, rightPart) => do
    let left ← parseHextetList 8 [] leftPart
    let right ← parseHextetList 8 [] rightPart
    let total := left.length + right.length
    if total > 7 then none
    else toIpv6 (groupBytes (left ++ List.replicate (8 - total) 0 ++ right))

def lexLiteral (word : List Char) : Except String Token :=
  match parseMacWord word with
  | some mac => .ok (.mac mac)
  | none =>
    match parseIpv6Word word with
    | some ipv6 => .ok (.ipv6 ipv6)
    | none => .error "invalid MAC or IPv6 literal"

def lexNumber (word : List Char) : Except String Token :=
  match parseIpv4Word word with
  | some addr => .ok (.ipv4 addr)
  | none =>
    if ¬word.all isDigit then .error "invalid number or IPv4 address"
    else if strtoul word > 0xFFFFFFFF then .error "number out of range"
    else .ok (.number (strtoul word))

def lexName (word : List Char) : Except String Token :=
  match keywords.find? fun kw => kw.1.toList = word with
  | some kw => .ok kw.2
  | none => .error ("unknown field or keyword '" ++ String.ofList (word.take 63) ++ "'")

def lexWord (ch : Char) (word : List Char) : Except String Token :=
  if ':' ∈ word then lexLiteral word
  else if isDigit ch then lexNumber word
  else lexName word

def isWordChar (ch : Char) : Bool := isAlnum ch || ch == '_' || ch == '.' || ch == ':'

/-- The token at the head of `ch :: rest` and the characters after it, or the error:
the branches of the loop of df_lex. -/
def lexOne (ch : Char) (rest : List Char) : Except String (Token × List Char) :=
  if ch = '(' then .ok (.lparen, rest)
  else if ch = ')' then .ok (.rparen, rest)
  else if ch = '&' ∧ rest.head? = some '&' then .ok (.and, rest.tail)
  else if ch = '|' ∧ rest.head? = some '|' then .ok (.or, rest.tail)
  else if ch = '=' ∧ rest.head? = some '=' then .ok (.eq, rest.tail)
  else if ch = '!' ∧ rest.head? = some '=' then .ok (.ne, rest.tail)
  else if ch = '!' then .ok (.not, rest)
  else if isWordChar ch then
    (lexWord ch (ch :: rest.takeWhile isWordChar)).map (·, rest.dropWhile isWordChar)
  else .error "unexpected character in filter expression"

theorem lexWord_notEnd {ch : Char} {word : List Char} {t : Token} (h : lexWord ch word = .ok t) :
    t ≠ .tokEnd := by
  have hkeys : ∀ kw ∈ keywords, kw.2 ≠ .tokEnd := by decide
  unfold lexWord at h
  split_ifs at h
  · unfold lexLiteral at h
    split at h
    · cases h; simp
    · split at h <;> cases h
      simp
  · unfold lexNumber at h
    split at h
    · cases h; simp
    · split_ifs at h
      cases h; simp
  · unfold lexName at h
    split at h
    · rename_i kw hfind
      cases h
      exact hkeys kw (List.mem_of_find?_eq_some hfind)
    · cases h

theorem lexOne_spec {ch : Char} {rest rest' : List Char} {t : Token}
    (h : lexOne ch rest = .ok (t, rest')) : t ≠ .tokEnd ∧ rest'.length ≤ rest.length := by
  unfold lexOne at h
  split_ifs at h
  case pos => cases h; simp
  case pos => cases h; simp
  case pos => cases h; simp
  case pos => cases h; simp
  case pos => cases h; simp
  case pos => cases h; simp
  case pos => cases h; simp
  case pos =>
    obtain ⟨hw, rfl⟩ := map_ok h
    exact ⟨lexWord_notEnd hw, (List.dropWhile_sublist _).length_le⟩

def dfScanner : Scanner Token where
  one := lexOne
  tokEnd := .tokEnd
  isEnd_tokEnd := rfl
  notEnd h := decide_eq_false (lexOne_spec h).1
  shrinks h := (lexOne_spec h).2

def dfLex (c : Ctx Token) (expr : List Char) : Option (Ctx Token) := lexLoop dfScanner c expr

end MyWireshark.DispFilter
