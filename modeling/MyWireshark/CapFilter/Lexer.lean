import MyWireshark.Filter.Core
import Mathlib.Data.Vector.Basic

/-! The lexer of capfilter.c. -/
namespace MyWireshark.CapFilter
open MyWireshark.Filter BoolGrammar

abbrev Ipv4Addr := Vector UInt8 4

/-- token_t, each kind with the payload the parser reads from it. -/
inductive Token where
  | tokEnd | lparen | rparen | slash | and | or | not | src | dst | host | port | net
  | protoTcp | protoUdp | protoIcmp | protoIp | protoIp6 | protoArp
  | number (num : Nat)
  | ipv4 (addr : Ipv4Addr)
  deriving DecidableEq

def Token.shape : Token → Shape
  | .and => .conj
  | .or => .disj
  | .not => .neg
  | .lparen => .lparen
  | .rparen => .rparen
  | _ => .other

instance : Lexeme Token where
  isEnd t := t = .tokEnd
  shape := Token.shape
  shape_end t h := by
    have : t = .tokEnd := by simpa using h
    rw [this]; rfl

def keywords : List (String × Token) :=
  [("and", .and), ("or", .or), ("not", .not), ("src", .src), ("dst", .dst), ("host", .host),
    ("port", .port), ("net", .net), ("tcp", .protoTcp), ("udp", .protoUdp),
    ("icmp", .protoIcmp), ("ip", .protoIp), ("ip6", .protoIp6), ("arp", .protoArp)]

/-- The locals of parse_ipv4_word; `value` is -1 before the first digit of an octet. -/
structure Ipv4Scan where
  octet : Nat
  value : Int
  digits : Nat
  out : Ipv4Addr

def isLetter (ch : Char) : Bool := ('a' ≤ ch && ch ≤ 'z') || ('A' ≤ ch && ch ≤ 'Z')

/-- One turn of the loop of parse_ipv4_word; `none` is its `return -1`. -/
def ipv4Turn (s : Ipv4Scan) (ch : Char) : Option Ipv4Scan :=
  if ch = '.' then
    if h : s.digits = 0 ∨ s.value > 255 ∨ s.octet > 3 then none
    else some
      { octet := s.octet + 1
        value := -1
        digits := 0
        out := s.out.set s.octet (UInt8.ofNat s.value.toNat) (by omega) }
  else if isDigit ch then
    let value := (if s.value < 0 then 0 else s.value) * 10 + ((ch.toNat : Int) - 48)
    if value > 255 then none
    else some { s with value := value, digits := s.digits + 1 }
  else none

/-- parse_ipv4_word: the loop runs over the word and a virtual trailing dot. -/
def parseIpv4Word (word : List Char) : Option Ipv4Addr := do
  let s ← (word ++ ['.']).foldlM ipv4Turn
    { octet := 0, value := -1, digits := 0, out := Vector.replicate 4 0 }
  if s.octet = 4 then return s.out else none

def lexNumber (word : List Char) : Except String Token :=
  match parseIpv4Word word with
  | some addr => .ok (.ipv4 addr)
  | none =>
    if '.' ∈ word then .error "invalid IPv4 address"
    else if strtoul word > 0xFFFFFFFF then .error "number out of range"
    else .ok (.number (strtoul word))

/-- The token of a word that starts with a letter, or the error it gives; the message
quotes at most 63 characters of the word. -/
def lexKeyword (word : List Char) : Except String Token :=
  match keywords.find? fun kw => kw.1.toList = word with
  | some kw => .ok kw.2
  | none => .error ("unknown keyword '" ++ String.ofList (word.take 63) ++ "'")

def isNumberChar (ch : Char) : Bool := isDigit ch || ch == '.'

def isKeywordChar (ch : Char) : Bool := isLetter ch || isDigit ch || ch == '_'

/-- The token at the head of `ch :: rest` and the characters after it, or the error:
the branches of the loop of cf_lex. -/
def lexOne (ch : Char) (rest : List Char) : Except String (Token × List Char) :=
  if ch = '(' then .ok (.lparen, rest)
  else if ch = ')' then .ok (.rparen, rest)
  else if ch = '/' then .ok (.slash, rest)
  else if ch = '!' then .ok (.not, rest)
  else if ch = '&' ∧ rest.head? = some '&' then .ok (.and, rest.tail)
  else if ch = '|' ∧ rest.head? = some '|' then .ok (.or, rest.tail)
  else if isDigit ch then
    (lexNumber (ch :: rest.takeWhile isNumberChar)).map (·, rest.dropWhile isNumberChar)
  else if isLetter ch then
    (lexKeyword (ch :: rest.takeWhile isKeywordChar)).map (·, rest.dropWhile isKeywordChar)
  else .error "unexpected character in filter expression"

theorem lexNumber_notEnd {word : List Char} {t : Token} (h : lexNumber word = .ok t) :
    t ≠ .tokEnd := by
  unfold lexNumber at h
  split at h
  · cases h; simp
  · split_ifs at h
    cases h; simp

theorem lexKeyword_notEnd {word : List Char} {t : Token} (h : lexKeyword word = .ok t) :
    t ≠ .tokEnd := by
  have hkeys : ∀ kw ∈ keywords, kw.2 ≠ .tokEnd := by decide
  unfold lexKeyword at h
  split at h
  · rename_i kw hfind
    cases h
    exact hkeys kw (List.mem_of_find?_eq_some hfind)
  · cases h

theorem lexOne_spec {ch : Char} {rest rest' : List Char} {t : Token}
    (h : lexOne ch rest = .ok (t, rest')) : t ≠ .tokEnd ∧ rest'.length ≤ rest.length := by
  unfold lexOne at h
  split_ifs at h
  case pos => cases h; simp
  case pos => cases h; simp
  case pos => cases h; simp
  case pos => cases h; simp
  case pos => cases h; simp
  case pos => cases h; simp
  case pos =>
    obtain ⟨hw, rfl⟩ := map_ok h
    exact ⟨lexNumber_notEnd hw, (List.dropWhile_sublist _).length_le⟩
  case pos =>
    obtain ⟨hw, rfl⟩ := map_ok h
    exact ⟨lexKeyword_notEnd hw, (List.dropWhile_sublist _).length_le⟩

def cfScanner : Scanner Token where
  one := lexOne
  tokEnd := .tokEnd
  isEnd_tokEnd := rfl
  notEnd h := decide_eq_false (lexOne_spec h).1
  shrinks h := (lexOne_spec h).2

def cfLex (c : Ctx Token) (expr : List Char) : Option (Ctx Token) := lexLoop cfScanner c expr

end MyWireshark.CapFilter
