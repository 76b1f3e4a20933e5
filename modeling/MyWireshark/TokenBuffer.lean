import MyWireshark.CapFilter.Grammar
import MyWireshark.DispFilter.Grammar

/-! The 256-entry token arrays of both compilers: which strings make a lexer write
past the array, and that no parse reads past TOK_END. -/
namespace MyWireshark.TokenBuffer
open MyWireshark.Filter

variable {τ β : Type} [Lexeme τ]

/-- Every write of the lexer stays in the array, and when it succeeds the array ends in its
only TOK_END and the parse reads nothing after that. (`toks` is the filled part of the
array and `none` an access outside of it.) -/
def InBounds (tokEnd : τ) (lex : Ctx τ → List Char → Option (Ctx τ))
    (parse : Ctx τ → Option (Node β × Parser τ)) (start : Ctx τ) (expr : List Char) : Prop :=
  ∃ c, lex start expr = some c ∧ c.toks.length ≤ maxTokens ∧
    (c.failed = false →
      (∃ ts, c.toks = ts ++ [tokEnd] ∧ ∀ t ∈ ts, Lexeme.isEnd t = false) ∧ (parse c).isSome)

/-- The string is 256 tokens and no lexical error: the array is full when TOK_END comes. -/
def FillsArray (sc : Scanner τ) (expr : List Char) : Prop :=
  (tokenize sc expr).2 = none ∧ (tokenize sc expr).1.length = maxTokens

instance (sc : Scanner τ) (expr : List Char) : Decidable (FillsArray sc expr) :=
  inferInstanceAs (Decidable (_ ∧ _))

theorem inBounds_iff (sc : Scanner τ) {parse : Ctx τ → Option (Node β × Parser τ)}
    (hparse : ∀ c ts, Remaining c ts → c.failed = false → (parse c).isSome)
    (errNull : Bool) (errLen : Int) (expr : List Char) :
    InBounds sc.tokEnd (lexLoop sc) parse (Ctx.start errNull errLen) expr ↔
      ¬FillsArray sc expr := by
  have hstart : (Ctx.start errNull errLen : Ctx τ).toks.length ≤ maxTokens := Nat.zero_le _
  have hnone : lexLoop sc (Ctx.start errNull errLen) expr = none ↔ FillsArray sc expr := by
    rw [lexLoop_none_iff hstart, FillsArray, Ctx.start, List.length_nil, Nat.zero_add]
  constructor
  · rintro ⟨c, hlex, -, -⟩ hfill
    rw [hnone.mpr hfill] at hlex
    cases hlex
  · intro hfill
    obtain ⟨c, hlex⟩ := Option.ne_none_iff_exists'.mp fun h => hfill (hnone.mp h)
    refine ⟨c, hlex, lexLoop_length hstart hlex, fun hok => ?_⟩
    obtain ⟨hroom, herr⟩ := lexLoop_success hstart hlex hok
    have hrem := remaining_lexed sc errNull errLen herr
    rw [lexLoop_eq_tokenize sc expr _ hroom] at hlex
    cases hlex
    refine ⟨⟨(tokenize sc expr).1, ?_, tokenize_notEnd sc expr⟩, hparse _ _ hrem hok⟩
    rw [← Prod.eta (tokenize sc expr), herr]
    rfl

theorem token_buffer_in_bounds_iff (errNull : Bool) (errLen : Int) (expr : List Char) :
    (InBounds .tokEnd CapFilter.cfLex CapFilter.cfParse (Ctx.start errNull errLen) expr ↔
      ¬FillsArray CapFilter.cfScanner expr) ∧
    (InBounds .tokEnd DispFilter.dfLex DispFilter.dfParse (Ctx.start errNull errLen) expr ↔
      ¬FillsArray DispFilter.dfScanner expr) := by
  constructor
  · refine inBounds_iff CapFilter.cfScanner (fun c ts hrem hok => ?_) errNull errLen expr
    obtain ⟨root, q, hq, -⟩ := CapFilter.cfParse_spec hrem hok
    simp [hq]
  · refine inBounds_iff DispFilter.dfScanner (fun c ts hrem hok => ?_) errNull errLen expr
    obtain ⟨root, q, hq, -⟩ := DispFilter.dfParse_spec hrem hok
    simp [hq]

theorem brackets_overflow_token_buffer :
    ¬InBounds .tokEnd CapFilter.cfLex CapFilter.cfParse (Ctx.start true 0)
        (List.replicate 256 '(') ∧
      ¬InBounds .tokEnd DispFilter.dfLex DispFilter.dfParse (Ctx.start true 0)
        (List.replicate 256 '(') := by
  have hcf : CapFilter.cfLex (Ctx.start true 0) (List.replicate 256 '(') = none := by
    decide +kernel
  have hdf : DispFilter.dfLex (Ctx.start true 0) (List.replicate 256 '(') = none := by
    decide +kernel
  constructor
  · rintro ⟨c, hlex, -⟩
    cases hcf.symm.trans hlex
  · rintro ⟨c, hlex, -⟩
    cases hdf.symm.trans hlex

end MyWireshark.TokenBuffer
