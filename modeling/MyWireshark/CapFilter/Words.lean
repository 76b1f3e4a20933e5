import MyWireshark.CapFilter.Ipv4Word
import MyWireshark.Filter.Lexing
import MyWireshark.Lib.Text

/-! What cf_lex makes of the words of a filter text: keywords and printed numbers. -/
namespace MyWireshark.CapFilter
open MyWireshark.Filter Digits

theorem isDigit_digitChar {d : Nat} (h : d < 10) : isDigit d.digitChar = true := by
  revert d
  decide

theorem isDigit_of_mem {n : Nat} {ch : Char} (h : ch ∈ Nat.toDigits 10 n) : isDigit ch = true := by
  obtain ⟨d, hd, rfl⟩ := mem_toDigits (by decide) h
  exact isDigit_digitChar hd

/-- strtoul reads a printed number back, or the largest number there is. -/
theorem strtoul_toDigits (n : Nat) : strtoul (Nat.toDigits 10 n) = min n (2 ^ 64 - 1) := by
  have hread := Nat.ofDigitChars_toDigits (b := 10) (n := n) (by decide) (by decide)
  rw [Nat.ofDigitChars_eq_foldl] at hread
  simp only [Nat.mul_comm 10] at hread
  exact congrArg (min · (2 ^ 64 - 1)) hread

section
variable {ch : Char} {word rest : List Char} {t : Token}

theorem word_start (hch : isDigit ch = true ∨ isLetter ch = true) :
    ch ≠ '\x00' ∧ ¬isBlank ch = true := by
  have hnot : ∀ c, isDigit c = false → isLetter c = false → ch ≠ c := by
    rintro c hd hl rfl
    rw [hd, hl] at hch
    cases hch with
    | inl h => cases h
    | inr h => cases h
  refine ⟨hnot _ rfl rfl, ?_⟩
  simp [isBlank, hnot ' ' rfl rfl, hnot '\t' rfl rfl, hnot '\n' rfl rfl, hnot '\r' rfl rfl]

theorem lexOne_digit (hch : isDigit ch = true) : lexOne ch rest =
    (lexNumber (ch :: rest.takeWhile isNumberChar)).map (·, rest.dropWhile isNumberChar) := by
  have hne : ∀ c, isDigit c = false → ch ≠ c := by
    rintro c hc rfl
    rw [hc] at hch
    cases hch
  simp [lexOne, hch, hne '(' rfl, hne ')' rfl, hne '/' rfl, hne '!' rfl, hne '&' rfl, hne '|' rfl]

theorem lexOne_letter (hch : isLetter ch = true) (hdigit : isDigit ch = false) : lexOne ch rest =
    (lexKeyword (ch :: rest.takeWhile isKeywordChar)).map (·, rest.dropWhile isKeywordChar) := by
  have hne : ∀ c, isLetter c = false → ch ≠ c := by
    rintro c hc rfl
    rw [hc] at hch
    cases hch
  simp [lexOne, hch, hdigit, hne '(' rfl, hne ')' rfl, hne '/' rfl, hne '!' rfl, hne '&' rfl,
    hne '|' rfl]

theorem tokenize_number (hch : isDigit ch = true) (hword : ∀ c ∈ word, isNumberChar c = true) :
    tokenize cfScanner (ch :: word) =
      match lexNumber (ch :: word) with
      | .ok t => ([t], none)
      | .error msg => ([], some msg) := by
  obtain ⟨hz, hb⟩ := word_start (.inl hch)
  have hspan := @span_word _ _ [] hword rfl
  rw [List.append_nil] at hspan
  have hone : cfScanner.one ch word = (lexNumber (ch :: word)).map (·, []) := by
    change lexOne ch word = _
    rw [lexOne_digit hch, hspan.1, hspan.2]
  cases hlex : lexNumber (ch :: word) with
  | ok t =>
    rw [hlex] at hone
    rw [tokenize_ok hz hb hone, tokenize]
  | error msg =>
    rw [hlex] at hone
    rw [tokenize_error hz hb hone]

theorem tokenize_keyword (hch : isLetter ch = true) (hdigit : isDigit ch = false)
    (hword : ∀ c ∈ word, isKeywordChar c = true) (h : lexKeyword (ch :: word) = .ok t) :
    tokenize cfScanner (ch :: word ++ ' ' :: rest) =
      (t :: (tokenize cfScanner rest).1, (tokenize cfScanner rest).2) := by
  obtain ⟨hz, hb⟩ := word_start (.inr hch)
  have hone : cfScanner.one ch (word ++ ' ' :: rest) = .ok (t, ' ' :: rest) := by
    have hspan := @span_word _ _ (' ' :: rest) hword rfl
    change lexOne ch (word ++ ' ' :: rest) = _
    rw [lexOne_letter hch hdigit, hspan.1, hspan.2, h]
    rfl
  rw [List.cons_append, tokenize_ok hz hb hone, tokenize_blank]

end

theorem parseIpv4Word_digits {word : List Char} (hword : ∀ c ∈ word, isDigit c = true) :
    parseIpv4Word word = none := by
  cases hparse : parseIpv4Word word with
  | none => rfl
  | some addr =>
    obtain ⟨a, b, c, d, rfl, -⟩ := (parseIpv4Word_iff word addr).mp hparse
    have hdot := hword '.' (List.mem_append_right a List.mem_cons_self)
    cases hdot

theorem lexNumber_toDigits (n : Nat) : lexNumber (Nat.toDigits 10 n) =
    if n > 0xFFFFFFFF then .error "number out of range" else .ok (.number n) := by
  have hdigits : ∀ c ∈ Nat.toDigits 10 n, isDigit c = true := fun c hc => isDigit_of_mem hc
  have hdot : '.' ∉ Nat.toDigits 10 n := fun hmem => absurd (hdigits _ hmem) (by decide)
  rw [lexNumber, parseIpv4Word_digits hdigits]
  simp only [hdot, if_false]
  rw [strtoul_toDigits]
  by_cases hlarge : n > 0xFFFFFFFF
  · rw [if_pos hlarge, if_pos (by omega)]
  · rw [if_neg hlarge, if_neg (by omega), Nat.min_eq_left (by omega)]

/-- A printed number is lexed as that number, if it is one of 32 bits. -/
theorem tokenize_toDigits (n : Nat) : tokenize cfScanner (Nat.toDigits 10 n) =
    if n > 0xFFFFFFFF then ([], some "number out of range") else ([.number n], none) := by
  have hdigits : ∀ c ∈ Nat.toDigits 10 n, isDigit c = true := fun c hc => isDigit_of_mem hc
  have hlex := lexNumber_toDigits n
  obtain ⟨ch, word, hcons⟩ := List.exists_cons_of_ne_nil (Nat.toDigits_ne_nil (n := n) (b := 10))
  rw [hcons] at hdigits hlex ⊢
  have hch := hdigits ch List.mem_cons_self
  have hword : ∀ c ∈ word, isNumberChar c = true := fun c hc => by
    rw [isNumberChar, hdigits c (List.mem_cons_of_mem ch hc)]
    rfl
  rw [tokenize_number hch hword, hlex]
  by_cases hlarge : n > 0xFFFFFFFF
  · rw [if_pos hlarge, if_pos hlarge]
  · rw [if_neg hlarge, if_neg hlarge]

end MyWireshark.CapFilter
