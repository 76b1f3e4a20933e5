import MyWireshark.Filter.Cursor
import Mathlib.Data.List.TakeWhile

/-! The lexers without their array: `tokenize` is the token sequence of a string and the
lexical error that ends it, and `lexLoop` computes it as long as the array has room. -/
namespace MyWireshark.Filter
variable {τ : Type}

theorem Ctx.pushTok_room {c : Ctx τ} (h : c.toks.length < maxTokens) (t : τ) :
    c.pushTok t = some { c with toks := c.toks ++ [t] } := by
  simp [Ctx.pushTok, h]

def Ctx.lexed (c : Ctx τ) (tokEnd : τ) : List τ × Option String → Ctx τ
  | (ts, none) => { c with toks := c.toks ++ ts ++ [tokEnd] }
  | (ts, some msg) => { c with toks := c.toks ++ ts }.fail msg

theorem Ctx.lexed_cons (c : Ctx τ) (t e : τ) (r : List τ × Option String) :
    { c with toks := c.toks ++ [t] }.lexed e r = c.lexed e (t :: r.1, r.2) := by
  obtain ⟨ts, err⟩ := r
  cases err with
  | none => simp [Ctx.lexed]
  | some msg => simp [Ctx.lexed]

def Ctx.refused (c : Ctx τ) (ts : List τ) : Ctx τ :=
  { c with toks := c.toks ++ ts.take (maxTokens - c.toks.length) }.fail
    "filter expression has too many tokens"

theorem Ctx.refused_cons (c : Ctx τ) (h : c.toks.length < maxTokens) (t : τ) (ts : List τ) :
    { c with toks := c.toks ++ [t] }.refused ts = c.refused (t :: ts) := by
  have hroom : maxTokens - c.toks.length = maxTokens - (c.toks.length + 1) + 1 := by omega
  simp [Ctx.refused, hroom, List.take_succ_cons]

theorem Ctx.pushTok_tokEnd (c : Ctx τ) (tokEnd : τ) :
    c.pushTok tokEnd =
      if c.toks.length < maxTokens then some (c.lexed tokEnd ([], none)) else none := by
  simp [Ctx.pushTok, Ctx.lexed]

theorem Ctx.lexed_length {c : Ctx τ} {tokEnd : τ} {r : List τ × Option String}
    (h : c.toks.length + r.1.length < maxTokens) : (c.lexed tokEnd r).toks.length ≤ maxTokens := by
  obtain ⟨ts, _ | msg⟩ := r
  · simp only [Ctx.lexed, List.length_append, List.length_singleton]
    exact h
  · simp only [Ctx.lexed, Ctx.fail_toks, List.length_append]
    exact h.le

theorem Ctx.refused_length {c : Ctx τ} (hc : c.toks.length ≤ maxTokens) (ts : List τ) :
    (c.refused ts).toks.length ≤ maxTokens := by
  have htake := List.length_take_le (maxTokens - c.toks.length) ts
  simp only [Ctx.refused, Ctx.fail_toks, List.length_append]
  omega

theorem lexed_firstError (errNull : Bool) (errLen : Int) (tokEnd : τ)
    (r : List τ × Option String) :
    ((Ctx.start errNull errLen).lexed tokEnd r).FirstError errNull errLen := by
  have hstart : ∀ ts : List τ, Ctx.FirstError errNull errLen
      { (Ctx.start errNull errLen : Ctx τ) with toks := ts } :=
    fun ts => ⟨rfl, rfl, by simp [Ctx.start], rfl⟩
  obtain ⟨ts, _ | msg⟩ := r
  · exact hstart _
  · exact (hstart _).fail msg

theorem lexed_failed (errNull : Bool) (errLen : Int) (tokEnd : τ) (r : List τ × Option String) :
    ((Ctx.start errNull errLen).lexed tokEnd r).failed = r.2.isSome := by
  obtain ⟨ts, _ | msg⟩ := r
  · rfl
  · exact Ctx.fail_failed _ msg

variable [Lexeme τ]

/-- The tokens of a string in order, up to its end or to the first lexical error. -/
def tokenize (sc : Scanner τ) (expr : List Char) : List τ × Option String :=
  match expr with
  | [] => ([], none)
  | ch :: rest =>
    if ch = '\x00' then ([], none)
    else if isBlank ch then tokenize sc rest
    else
      match _h : sc.one ch rest with
      | .error msg => ([], some msg)
      | .ok (t, rest') => (t :: (tokenize sc rest').1, (tokenize sc rest').2)
termination_by expr.length
decreasing_by
  · simp
  all_goals
    have := sc.shrinks _h
    simp only [List.length_cons]
    omega

theorem span_word {p : Char → Bool} {word rest : List Char} (hword : ∀ c ∈ word, p c = true)
    (hrest : rest.head?.all fun c => !p c) :
    (word ++ rest).takeWhile p = word ∧ (word ++ rest).dropWhile p = rest := by
  rw [List.takeWhile_append_of_pos hword, List.dropWhile_append_of_pos hword]
  cases rest with
  | nil => exact ⟨List.append_nil word, rfl⟩
  | cons c rest =>
    have hc : p c = false := by simpa using hrest
    simp [hc]

section equations
variable {sc : Scanner τ} {ch : Char} {rest rest' : List Char} {t : τ} {msg : String}

theorem tokenize_blank : tokenize sc (' ' :: rest) = tokenize sc rest := by
  rw [tokenize, if_neg (by decide), if_pos (by decide)]

theorem tokenize_error (hz : ch ≠ '\x00') (hb : ¬isBlank ch) (h : sc.one ch rest = .error msg) :
    tokenize sc (ch :: rest) = ([], some msg) := by
  rw [tokenize, if_neg hz, if_neg hb]
  split <;> simp_all

theorem tokenize_ok (hz : ch ≠ '\x00') (hb : ¬isBlank ch) (h : sc.one ch rest = .ok (t, rest')) :
    tokenize sc (ch :: rest) = (t :: (tokenize sc rest').1, (tokenize sc rest').2) := by
  rw [tokenize, if_neg hz, if_neg hb]
  split <;> simp_all

theorem lexLoop_error {c : Ctx τ} (hz : ch ≠ '\x00') (hb : ¬isBlank ch)
    (hroom : c.toks.length < maxTokens) (h : sc.one ch rest = .error msg) :
    lexLoop sc c (ch :: rest) = some (c.fail msg) := by
  rw [lexLoop, if_neg hz, if_neg hb, if_neg (Nat.not_le.mpr hroom)]
  split <;> simp_all

theorem lexLoop_ok {c : Ctx τ} (hz : ch ≠ '\x00') (hb : ¬isBlank ch)
    (hroom : c.toks.length < maxTokens) (h : sc.one ch rest = .ok (t, rest')) :
    lexLoop sc c (ch :: rest) = lexLoop sc { c with toks := c.toks ++ [t] } rest' := by
  rw [lexLoop, if_neg hz, if_neg hb, if_neg (Nat.not_le.mpr hroom)]
  split <;> simp_all [Ctx.pushTok_room hroom]

end equations

theorem lexLoop_full {sc : Scanner τ} {ch : Char} {rest : List Char} {c : Ctx τ}
    (hz : ch ≠ '\x00') (hb : ¬isBlank ch) (h : ¬c.toks.length < maxTokens) :
    lexLoop sc c (ch :: rest) = some (c.fail "filter expression has too many tokens") := by
  rw [lexLoop, if_neg hz, if_neg hb, if_pos (Nat.not_lt.mp h)]

/-- What the lexer does with a string: everything fits, or TOK_END alone does not and is
written outside the array, or a token has no place and is refused. -/
theorem lexLoop_eq (sc : Scanner τ) (expr : List Char) (c : Ctx τ)
    (hc : c.toks.length ≤ maxTokens) :
    lexLoop sc c expr =
      if c.toks.length + (tokenize sc expr).1.length < maxTokens then
        some (c.lexed sc.tokEnd (tokenize sc expr))
      else if (tokenize sc expr).2 = none ∧
          c.toks.length + (tokenize sc expr).1.length = maxTokens then none
      else some (c.refused (tokenize sc expr).1) := by
  induction expr using tokenize.induct sc generalizing c with
  | case1 =>
    rw [lexLoop, tokenize, c.pushTok_tokEnd]
    by_cases hroom : c.toks.length < maxTokens
    · simp [hroom]
    · simp [Nat.le_antisymm hc (Nat.le_of_not_lt hroom)]
  | case2 rest =>
    rw [lexLoop, tokenize, if_pos rfl, if_pos rfl, c.pushTok_tokEnd]
    by_cases hroom : c.toks.length < maxTokens
    · simp [hroom]
    · simp [Nat.le_antisymm hc (Nat.le_of_not_lt hroom)]
  | case3 ch rest hz hb ih =>
    rw [lexLoop, tokenize, if_neg hz, if_neg hz, if_pos hb, if_pos hb]
    exact ih c hc
  | case4 ch rest hz hb msg hone =>
    rw [tokenize_error hz hb hone]
    by_cases hroom : c.toks.length < maxTokens
    · rw [lexLoop_error hz hb hroom hone]
      simp [hroom, Ctx.lexed]
    · rw [lexLoop_full hz hb hroom]
      simp [hroom, Ctx.refused]
  | case5 ch rest hz hb t rest' hone ih =>
    rw [tokenize_ok hz hb hone]
    by_cases hroom : c.toks.length < maxTokens
    · have hpush : (c.toks ++ [t]).length = c.toks.length + 1 := List.length_append
      have hsum : ∀ n, c.toks.length + 1 + n = c.toks.length + (n + 1) := fun n => by omega
      rw [lexLoop_ok hz hb hroom hone, ih _ (hpush ▸ hroom), Ctx.lexed_cons, c.refused_cons hroom]
      simp only [hpush, hsum, List.length_cons]
    · -- the array is full before this token
      rw [lexLoop_full hz hb hroom, List.length_cons, if_neg (by omega), if_neg (by omega)]
      simp [Ctx.refused, Nat.sub_eq_zero_of_le (Nat.le_of_not_lt hroom)]

section
variable {sc : Scanner τ} {expr : List Char} {c c' : Ctx τ} (hc : c.toks.length ≤ maxTokens)
include hc

theorem lexLoop_success (h : lexLoop sc c expr = some c') (hok : c'.failed = false) :
    c.toks.length + (tokenize sc expr).1.length < maxTokens ∧ (tokenize sc expr).2 = none := by
  rw [lexLoop_eq sc expr c hc] at h
  split_ifs at h with hroom
  · refine ⟨hroom, ?_⟩
    generalize tokenize sc expr = r at h ⊢
    obtain ⟨ts, _ | msg⟩ := r
    · rfl
    · cases h
      rw [Ctx.lexed, Ctx.fail_failed] at hok
      cases hok
  · cases h
    rw [Ctx.refused, Ctx.fail_failed] at hok
    cases hok

/-- The one way out of the array: all of it filled by tokens, and then the end of the
string, where TOK_END is written without a look at the count. -/
theorem lexLoop_none_iff : lexLoop sc c expr = none ↔
    (tokenize sc expr).2 = none ∧ c.toks.length + (tokenize sc expr).1.length = maxTokens := by
  rw [lexLoop_eq sc expr c hc]
  split_ifs with hroom hlast
  · simp only [false_iff, not_and]
    omega
  · exact iff_of_true rfl hlast
  · exact iff_of_false (by simp) hlast

theorem lexLoop_length (h : lexLoop sc c expr = some c') : c'.toks.length ≤ maxTokens := by
  rw [lexLoop_eq sc expr c hc] at h
  split_ifs at h with hroom
  · cases h
    exact Ctx.lexed_length hroom
  · cases h
    exact Ctx.refused_length hc _

end

theorem lexLoop_eq_tokenize (sc : Scanner τ) (expr : List Char) (c : Ctx τ)
    (h : c.toks.length + (tokenize sc expr).1.length < maxTokens) :
    lexLoop sc c expr = some (c.lexed sc.tokEnd (tokenize sc expr)) := by
  rw [lexLoop_eq sc expr c (by omega), if_pos h]

theorem tokenize_notEnd (sc : Scanner τ) (expr : List Char) :
    ∀ t ∈ (tokenize sc expr).1, Lexeme.isEnd t = false := by
  induction expr using tokenize.induct sc with
  | case1 => simp [tokenize]
  | case2 rest => simp [tokenize]
  | case3 ch rest hz hb ih =>
    rw [tokenize, if_neg hz, if_pos hb]
    exact ih
  | case4 ch rest hz hb msg hone => simp [tokenize_error hz hb hone]
  | case5 ch rest hz hb t rest' hone ih =>
    rw [tokenize_ok hz hb hone]
    intro u hu
    obtain rfl | hu := List.mem_cons.mp hu
    · exact sc.notEnd hone
    · exact ih u hu

theorem remaining_lexed (sc : Scanner τ) {expr : List Char} (errNull : Bool) (errLen : Int)
    (h : (tokenize sc expr).2 = none) :
    Remaining ((Ctx.start errNull errLen).lexed sc.tokEnd (tokenize sc expr))
      (tokenize sc expr).1 := by
  have hend := tokenize_notEnd sc expr
  generalize tokenize sc expr = r at h hend ⊢
  obtain ⟨ts, err⟩ := r
  cases h
  exact ⟨sc.tokEnd, sc.isEnd_tokEnd, rfl, hend⟩

end MyWireshark.Filter
