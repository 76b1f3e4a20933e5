import MyWireshark.DispFilter.Lexer
import MyWireshark.Filter.Lexing

/-! What df_lex makes of the words of a filter text. -/
namespace MyWireshark.DispFilter
open MyWireshark.Filter

section
variable {ch : Char} {word rest : List Char} {t : Token}

theorem word_start (hch : isWordChar ch = true) :
    ch ≠ '\x00' ∧ ¬isBlank ch = true ∧ ∀ c ∈ ['(', ')', '&', '|', '=', '!'], ch ≠ c := by
  have hnot : ∀ c, isWordChar c = false → ch ≠ c := by
    rintro c hc rfl
    rw [hc] at hch
    cases hch
  refine ⟨hnot _ rfl, ?_, ?_⟩
  · simp [isBlank, hnot ' ' rfl, hnot '\t' rfl, hnot '\n' rfl, hnot '\r' rfl]
  · simp [hnot '(' rfl, hnot ')' rfl, hnot '&' rfl, hnot '|' rfl, hnot '=' rfl, hnot '!' rfl]

theorem lexOne_word (hch : isWordChar ch = true) : lexOne ch rest =
    (lexWord ch (ch :: rest.takeWhile isWordChar)).map (·, rest.dropWhile isWordChar) := by
  obtain ⟨-, -, hop⟩ := word_start hch
  simp only [List.forall_mem_cons] at hop
  simp [lexOne, hch, hop]

theorem tokenize_word (hch : isWordChar ch = true) (hword : ∀ c ∈ word, isWordChar c = true)
    (hrest : rest.head?.all fun c => !isWordChar c) (h : lexWord ch (ch :: word) = .ok t) :
    tokenize dfScanner (ch :: (word ++ rest)) =
      (t :: (tokenize dfScanner rest).1, (tokenize dfScanner rest).2) := by
  obtain ⟨hz, hb, -⟩ := word_start hch
  have hspan := span_word hword hrest
  have hone : dfScanner.one ch (word ++ rest) = .ok (t, rest) := by
    change lexOne ch (word ++ rest) = _
    rw [lexOne_word hch, hspan.1, hspan.2, h]
    rfl
  exact tokenize_ok hz hb hone

theorem tokenize_eq :
    tokenize dfScanner (" == ".toList ++ rest) =
      (.eq :: (tokenize dfScanner rest).1, (tokenize dfScanner rest).2) := by
  have hone : dfScanner.one '=' ('=' :: ' ' :: rest) = .ok (.eq, ' ' :: rest) := by
    simp [dfScanner, lexOne]
  change tokenize dfScanner (' ' :: '=' :: '=' :: ' ' :: rest) = _
  rw [tokenize_blank, tokenize_ok (by decide) (by decide) hone, tokenize_blank]

end

def Field.name : Field → String
  | .ethSrc => "eth.src"
  | .ethDst => "eth.dst"
  | .ethAddr => "eth.addr"
  | .ipSrc => "ip.src"
  | .ipDst => "ip.dst"
  | .ipAddr => "ip.addr"
  | .ipv6Src => "ipv6.src"
  | .ipv6Dst => "ipv6.dst"
  | .ipv6Addr => "ipv6.addr"
  | .tcpSrcport => "tcp.srcport"
  | .tcpDstport => "tcp.dstport"
  | .tcpPort => "tcp.port"
  | .udpSrcport => "udp.srcport"
  | .udpDstport => "udp.dstport"
  | .udpPort => "udp.port"

theorem tokenize_name (field : Field) {rest : List Char}
    (hrest : rest.head?.all fun c => !isWordChar c) :
    tokenize dfScanner (field.name.toList ++ rest) =
      (.field field :: (tokenize dfScanner rest).1, (tokenize dfScanner rest).2) := by
  have hname : ∃ ch word, field.name.toList = ch :: word ∧ isWordChar ch = true ∧
      (∀ c ∈ word, isWordChar c = true) ∧ lexWord ch (ch :: word) = .ok (.field field) := by
    cases field <;> exact ⟨_, _, rfl, by decide, List.all_eq_true.mp rfl, by decide⟩
  obtain ⟨ch, word, hcons, hch, hword, hlex⟩ := hname
  rw [hcons]
  exact tokenize_word hch hword hrest hlex

end MyWireshark.DispFilter
