import MyWireshark.Lib.BoolGrammar
import Mathlib.Algebra.Group.Nat.Defs

/-! The state and the helpers that capfilter.c and dispfilter.c both spell out, each
under its own prefix: the context with its sticky error, the token cursor, the node
arena. `none` is reserved for what C leaves undefined (an access outside an array);
an ordinary failure is a value. -/
namespace MyWireshark.Filter
open BoolGrammar

/-- CF_MAX_TOKENS and DF_MAX_TOKENS, the length of the token array. -/
def maxTokens : Nat := 256

/-- What the shared code asks of a token: is it TOK_END, and which connective is it. -/
class Lexeme (τ : Type) where
  isEnd : τ → Bool
  shape : τ → Shape
  shape_end : ∀ t, isEnd t = true → shape t = .other

/-- cf_ctx_t and df_ctx_t. `toks` is the filled part of the token array, so n_toks is
its length; `errText` is what has been printed into the caller's buffer, if anything.
`raised` is not in the source: it lists every message handed to the fail function,
also the ones it drops, so that "the first error" can be stated. -/
structure Ctx (τ : Type) where
  toks : List τ
  pos : Nat
  errNull : Bool
  errLen : Int
  errText : Option String
  failed : Bool
  raised : List String

variable {τ β : Type}

def Ctx.start (errNull : Bool) (errLen : Int) : Ctx τ where
  toks := []
  pos := 0
  errNull := errNull
  errLen := errLen
  errText := none
  failed := false
  raised := []

/-- What snprintf leaves of a message in a buffer of `n` bytes. -/
def cut (n : Int) (msg : String) : String := String.ofList (msg.toList.take (n.toNat - 1))

def Ctx.printed (c : Ctx τ) (msg : String) : Option String :=
  if c.errNull = false ∧ 0 < c.errLen then some (cut c.errLen msg) else c.errText

/-- cf_fail and df_fail: only the first error is kept. -/
def Ctx.fail (c : Ctx τ) (msg : String) : Ctx τ :=
  if c.failed then { c with raised := c.raised ++ [msg] }
  else { c with failed := true, errText := c.printed msg, raised := c.raised ++ [msg] }

/-- `c->toks[c->n_toks] = t; c->n_toks++`, undefined once the array is full. -/
def Ctx.pushTok (c : Ctx τ) (t : τ) : Option (Ctx τ) :=
  if c.toks.length < maxTokens then some { c with toks := c.toks ++ [t] } else none

/-- The part of a lexer that is a file's own: the token at the head of `ch :: rest` and
the characters after it, or the error message. It always takes `ch`, and TOK_END is
no token of any text. -/
structure Scanner (τ : Type) [Lexeme τ] where
  one : Char → List Char → Except String (τ × List Char)
  tokEnd : τ
  isEnd_tokEnd : Lexeme.isEnd tokEnd = true
  notEnd : ∀ {ch rest t rest'}, one ch rest = .ok (t, rest') → Lexeme.isEnd t = false
  shrinks : ∀ {ch rest t rest'}, one ch rest = .ok (t, rest') → rest'.length ≤ rest.length

def isBlank (ch : Char) : Bool := ch == ' ' || ch == '\t' || ch == '\n' || ch == '\r'

def isDigit (ch : Char) : Bool := '0' ≤ ch && ch ≤ '9'

theorem isDigit_toNat {ch : Char} (h : isDigit ch = true) : 48 ≤ ch.toNat ∧ ch.toNat ≤ 57 := by
  simp only [isDigit, Bool.and_eq_true, decide_eq_true_eq, Char.le_def, UInt32.le_iff_toNat_le] at h
  exact h

def isEmpty (expr : List Char) : Bool := expr.head?.getD '\x00' = '\x00'

/-- strtoul(word, NULL, 10) on a word of digits, with its 64-bit saturation. -/
def strtoul (word : List Char) : Nat :=
  min (word.foldl (fun v ch => v * 10 + (ch.toNat - 48)) 0) (2 ^ 64 - 1)

theorem map_ok {α β ε : Type} {e : Except ε α} {r r' : β} {t : α}
    (h : e.map (·, r) = .ok (t, r')) : e = .ok t ∧ r' = r := by
  cases e with
  | error _ => simp [Except.map] at h
  | ok _ =>
    simp only [Except.map, Except.ok.injEq, Prod.mk.injEq] at h
    exact ⟨congrArg _ h.1, h.2.symm⟩

/-- The loop of cf_lex and df_lex from the current character on. A C string is the list
of its characters; past its end, or at a zero character, stands the terminator. The
result is `none` only when the closing TOK_END is written outside the token array. -/
def lexLoop [Lexeme τ] (sc : Scanner τ) (c : Ctx τ) (expr : List Char) : Option (Ctx τ) :=
  match expr with
  | [] => c.pushTok sc.tokEnd
  | ch :: rest =>
    if ch = '\x00' then c.pushTok sc.tokEnd
    else if isBlank ch then lexLoop sc c rest
    else if c.toks.length ≥ maxTokens then some (c.fail "filter expression has too many tokens")
    else
      match _h : sc.one ch rest with
      | .error msg => some (c.fail msg)
      | .ok (t, rest') => (c.pushTok t).bind fun c => lexLoop sc c rest'
termination_by expr.length
decreasing_by
  · simp
  · have := sc.shrinks _h
    simp only [List.length_cons]
    omega

/-- The nodes of both parsers. The three connectives are shared, the leaves are each
file's own; `null` is the NULL pointer. -/
inductive Node (β : Type) where
  | null
  | and (left right : Node β)
  | or (left right : Node β)
  | not (left : Node β)
  | leaf (b : β)
  deriving DecidableEq

def Node.isNull : Node β → Bool
  | .null => true
  | _ => false

def Node.noNull : Node β → Bool
  | .null => false
  | .and l r => l.noNull && r.noNull
  | .or l r => l.noNull && r.noNull
  | .not l => l.noNull
  | .leaf _ => true

def Node.nodes : Node β → Nat
  | .null => 0
  | .and l r => l.nodes + r.nodes + 1
  | .or l r => l.nodes + r.nodes + 1
  | .not l => l.nodes + 1
  | .leaf _ => 1

/-- parser_t with its arena; the pool itself is the trees handed around. -/
structure Parser (τ : Type) where
  c : Ctx τ
  count : Nat
  cap : Nat

def Parser.fail (p : Parser τ) (msg : String) : Parser τ := { p with c := p.c.fail msg }

def tooComplex : String := "filter expression is too complex"

/-- mk_node, with the fields its callers set right after it already in place. -/
def mkNode (p : Parser τ) (n : Node β) : Node β × Parser τ :=
  if p.c.failed then (.null, p)
  else if p.count ≥ p.cap then (.null, p.fail tooComplex)
  else (n, { p with count := p.count + 1 })

def pPeek (p : Parser τ) : Option τ := p.c.toks[p.c.pos]?

def Parser.next (p : Parser τ) : Parser τ := { p with c := { p.c with pos := p.c.pos + 1 } }

def pAdvance [Lexeme τ] (p : Parser τ) : Option (τ × Parser τ) := do
  let t ← pPeek p
  if Lexeme.isEnd t then return (t, p)
  return (t, p.next)

section skeleton
variable [Lexeme τ] (primitive : Parser τ → Option (Node β × Parser τ)) (stopOnNull : Bool)

/- parse_not, parse_and and parse_expr. The two files differ in one place: when an
   and/or node cannot be made, dispfilter.c leaves the loop with NULL (`stopOnNull`),
   capfilter.c goes on with NULL as its left operand. The C recursion is bounded by
   the tokens left; here `fuel` bounds it, and running out is `none` like any other
   undefined result, so that a result always means the C code returned it. -/
mutual
def parseNot (fuel : Nat) (p : Parser τ) : Option (Node β × Parser τ) :=
  match fuel with
  | 0 => none
  | fuel + 1 => do
    let t ← pPeek p
    if Lexeme.shape t = .neg then
      let (_, p) ← pAdvance p
      let (operand, p) ← parseNot fuel p
      return mkNode p (.not operand)
    else if Lexeme.shape t = .lparen then
      let (_, p) ← pAdvance p
      let (inner, p) ← parseExpr fuel p
      let (t, p) ← pAdvance p
      if Lexeme.shape t ≠ .rparen then
        return (.null, p.fail "expected ')'")
      else
        return (inner, p)
    else
      primitive p

def parseAnd (fuel : Nat) (p : Parser τ) : Option (Node β × Parser τ) :=
  match fuel with
  | 0 => none
  | fuel + 1 => do
    let (left, p) ← parseNot fuel p
    parseAndLoop fuel left p

def parseAndLoop (fuel : Nat) (left : Node β) (p : Parser τ) : Option (Node β × Parser τ) :=
  match fuel with
  | 0 => none
  | fuel + 1 => do
    let t ← pPeek p
    if Lexeme.shape t = .conj then
      let (_, p) ← pAdvance p
      let (right, p) ← parseNot fuel p
      let (n, p) := mkNode p (.and left right)
      if stopOnNull && n.isNull then
        return (.null, p)
      else
        parseAndLoop fuel n p
    else
      return (left, p)

def parseExpr (fuel : Nat) (p : Parser τ) : Option (Node β × Parser τ) :=
  match fuel with
  | 0 => none
  | fuel + 1 => do
    let (left, p) ← parseAnd fuel p
    parseExprLoop fuel left p

def parseExprLoop (fuel : Nat) (left : Node β) (p : Parser τ) : Option (Node β × Parser τ) :=
  match fuel with
  | 0 => none
  | fuel + 1 => do
    let t ← pPeek p
    if Lexeme.shape t = .disj then
      let (_, p) ← pAdvance p
      let (right, p) ← parseAnd fuel p
      let (n, p) := mkNode p (.or left right)
      if stopOnNull && n.isNull then
        return (.null, p)
      else
        parseExprLoop fuel n p
    else
      return (left, p)
end

/-- Enough for any token array: every call either descends one of four levels or has
taken a token. -/
def parseFuel (p : Parser τ) : Nat := 4 * p.c.toks.length + 4

/-- The parser stage of both compile functions: parse_expr, then the check that no
token is left over. -/
def parseStage (p : Parser τ) : Option (Node β × Parser τ) := do
  let (root, p) ← parseExpr primitive stopOnNull (parseFuel p) p
  if p.c.failed then
    return (root, p)
  let t ← pPeek p
  if Lexeme.isEnd t then
    return (root, p)
  else
    return (root, p.fail "unexpected trailing tokens in filter expression")

end skeleton

end MyWireshark.Filter
