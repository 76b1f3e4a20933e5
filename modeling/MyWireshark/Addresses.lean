import MyWireshark.Literals
import MyWireshark.CapFilter.Parser
import MyWireshark.DispFilter.Words
import MyWireshark.DispFilter.Correct
import MyWireshark.Dissect.Printer

/-! Addresses from the output pasted back into a filter: the texts of ip_addr_to_str,
ipv6_addr_to_str and eth_mac_to_str as literals of the two filter languages. -/
namespace MyWireshark.Addresses
open MyWireshark.Filter BoolGrammar Digits DispFilter Dissect Literals Separated

/-! The printed texts. -/

theorem mem_hex {c : Char} {width n : Nat} (h : c ∈ (hex width n).toList) :
    ∃ d, d < 16 ∧ c = d.digitChar := by
  rw [hex, String.toList_ofList] at h
  obtain hzero | hdigit := List.mem_append.mp h
  · exact ⟨0, by decide, (List.mem_replicate.mp hzero).2⟩
  · exact mem_toDigits (by decide) hdigit

theorem notMem_hex {c : Char} (h : ∀ d, d < 16 → c ≠ d.digitChar) (width n : Nat) :
    c ∉ (hex width n).toList := by
  intro hmem
  obtain ⟨d, hd, heq⟩ := mem_hex hmem
  exact h d hd heq

theorem toList_hex_zero (n : Nat) : (hex 0 n).toList = Nat.toDigits 16 n := by
  simp [hex]

theorem toList_hex_two (b : UInt8) : (hex 2 b.toNat).toList = hexPair b := by
  have hb : b.toNat < 256 := b.toNat_lt
  have hdiv : 16 * (b.toNat / 16) + b.toNat % 16 = b.toNat := Nat.div_add_mod b.toNat 16
  rw [hex, String.toList_ofList, hexPair]
  by_cases hsmall : b.toNat < 16
  · rw [Nat.toDigits_of_lt_base hsmall, Nat.div_eq_of_lt hsmall, Nat.mod_eq_of_lt hsmall]
    rfl
  · have hlast : b.toNat % 16 < 16 := Nat.mod_lt _ (by decide)
    have hdigits := Nat.toDigits_append_toDigits (b := 16) (n := b.toNat / 16) (d := b.toNat % 16)
      (by decide) (by omega) hlast
    rw [hdiv, Nat.toDigits_of_lt_base (show b.toNat / 16 < 16 by omega),
      Nat.toDigits_of_lt_base hlast] at hdigits
    rw [← hdigits]
    rfl

theorem toList_ipAddrToStr (addr : Ipv4Addr) : (ipAddrToStr addr).toList = dotted addr := by
  have hdecimal : String.toList ∘ decimal = fun b => Nat.toDigits 10 b.toNat := by
    funext b
    exact Nat.toList_repr
  rw [ipAddrToStr, String.toList_intercalate, List.map_map, hdecimal]
  rfl

theorem toList_ethMacToStr (mac : MacAddr) : (ethMacToStr mac).toList = macText mac := by
  have hpair : (String.toList ∘ fun b : UInt8 => hex 2 b.toNat) = hexPair := by
    funext b
    exact toList_hex_two b
  rw [ethMacToStr, String.toList_intercalate, List.map_map, hpair]
  rfl

theorem toList_ipv6AddrToStr (addr : Ipv6Addr) :
    (ipv6AddrToStr addr).toList = groupsText (hextets addr) := by
  rw [ipv6AddrToStr, String.toList_intercalate, List.map_map, groupsText, hextets, List.map_map]
  simp only [Function.comp_def, toList_hex_zero]
  rfl

/-! The buffers. -/

theorem length_dotted_le (addr : Ipv4Addr) : (dotted addr).length + 1 ≤ 16 := by
  have hbound := @length_intercalate_le _ '.' (addr.toList.map fun b => Nat.toDigits 10 b.toNat) 3
    (List.ne_nil_of_length_pos (by simp)) (by
      intro w hw
      obtain ⟨b, -, rfl⟩ := List.mem_map.mp hw
      have hb : b.toNat < 256 := b.toNat_lt
      exact (Nat.length_toDigits_le_iff (by decide) (by decide)).mpr (by omega))
  simpa [dotted] using hbound

theorem length_macText_le (mac : MacAddr) : (macText mac).length + 1 ≤ 18 := by
  have hbound := @length_intercalate_le _ ':' (mac.toList.map hexPair) 2
    (List.ne_nil_of_length_pos (by simp)) (by
      intro w hw
      obtain ⟨b, -, rfl⟩ := List.mem_map.mp hw
      exact Nat.le_refl 2)
  simpa [macText] using hbound

theorem length_groupsText_le (addr : Ipv6Addr) : (groupsText (hextets addr)).length + 1 ≤ 40 := by
  have hbound := @length_intercalate_le _ ':' ((hextets addr).map (Nat.toDigits 16)) 4
    (List.ne_nil_of_length_pos (by simp)) (by
      intro w hw
      obtain ⟨g, hg, rfl⟩ := List.mem_map.mp hw
      exact (Nat.length_toDigits_le_iff (by decide) (by decide)).mpr (hextets_lt hg))
  simpa [groupsText] using hbound

/-! The texts as words. -/

theorem isWordChar_of_mem {b n : Nat} {c : Char} (hb : 1 < b) (hb' : b ≤ 16)
    (h : c ∈ Nat.toDigits b n) : isWordChar c = true := by
  have hdigit : ∀ d, d < 16 → isWordChar d.digitChar = true := by decide
  obtain ⟨d, hd, rfl⟩ := mem_toDigits hb h
  exact hdigit d (by omega)

theorem isWordChar_dotted {addr : Ipv4Addr} {c : Char} (h : c ∈ dotted addr) :
    isWordChar c = true ∧ c ≠ ':' := by
  obtain rfl | ⟨w, hw, hc⟩ := mem_intercalate h
  · decide
  · obtain ⟨b, -, rfl⟩ := List.mem_map.mp hw
    have hdigit : isDigit c = true := CapFilter.isDigit_of_mem hc
    exact ⟨isWordChar_of_mem (by decide) (by decide) hc, by rintro rfl; cases hdigit⟩

theorem isWordChar_macText {mac : MacAddr} {c : Char} (h : c ∈ macText mac) :
    isWordChar c = true := by
  have hdigit : ∀ d, d < 16 → isWordChar d.digitChar = true := by decide
  obtain rfl | ⟨w, hw, hc⟩ := mem_intercalate h
  · decide
  · obtain ⟨b, -, rfl⟩ := List.mem_map.mp hw
    have hb : b.toNat < 256 := b.toNat_lt
    obtain rfl | rfl := List.mem_pair.mp hc
    · exact hdigit _ (by omega)
    · exact hdigit _ (by omega)

theorem isWordChar_groupsText {gs : List Nat} {c : Char} (h : c ∈ groupsText gs) :
    isWordChar c = true := by
  obtain rfl | ⟨w, hw, hc⟩ := mem_intercalate h
  · decide
  · obtain ⟨g, -, rfl⟩ := List.mem_map.mp hw
    exact isWordChar_of_mem (by decide) (by decide) hc

/-- The text is a word of df_lex with the token `t`. -/
structure IsWord (text : List Char) (t : Token) : Prop where
  chars : ∀ c ∈ text, isWordChar c = true
  lex : ∃ ch word, text = ch :: word ∧ lexWord ch text = .ok t

theorem isWord_of_colon {text : List Char} {t : Token} (hchars : ∀ c ∈ text, isWordChar c = true)
    (hcolon : ':' ∈ text) (h : lexLiteral text = .ok t) : IsWord text t := by
  obtain ⟨ch, word, rfl⟩ := List.exists_cons_of_ne_nil (List.ne_nil_of_mem hcolon)
  exact ⟨hchars, ch, word, rfl, by rw [lexWord, if_pos hcolon, h]⟩

theorem isWord_mac (mac : MacAddr) : IsWord (ethMacToStr mac).toList (.mac mac) := by
  rw [toList_ethMacToStr]
  have hmac := parseMacWord_macText mac
  refine isWord_of_colon (fun c => isWordChar_macText) ?_ (by rw [lexLiteral, hmac])
  exact sep_mem_intercalate (by simp)

theorem isWord_ipv6 (addr : Ipv6Addr) : IsWord (ipv6AddrToStr addr).toList (.ipv6 addr) := by
  rw [toList_ipv6AddrToStr]
  refine isWord_of_colon (fun c => isWordChar_groupsText) ?_
    (by rw [lexLiteral, parseMacWord_hextets, parseIpv6Word_hextets])
  exact sep_mem_intercalate (by simp)

theorem isWord_of_digit {text : List Char} {t : Token} (hchars : ∀ c ∈ text, isWordChar c = true)
    (hcolon : ':' ∉ text) (hhead : ∃ ch word, text = ch :: word ∧ isDigit ch = true)
    (h : lexNumber text = .ok t) : IsWord text t := by
  obtain ⟨ch, word, rfl, hch⟩ := hhead
  exact ⟨hchars, ch, word, rfl, by rw [lexWord, if_neg hcolon, if_pos hch, h]⟩

theorem toDigits_cons (n : Nat) :
    ∃ ch word, Nat.toDigits 10 n = ch :: word ∧ isDigit ch = true := by
  obtain ⟨ch, word, hcons⟩ := List.exists_cons_of_ne_nil (@Nat.toDigits_ne_nil n 10)
  exact ⟨ch, word, hcons,
    CapFilter.isDigit_of_mem (n := n) (by rw [hcons]; exact List.mem_cons_self)⟩

theorem dotted_cons (addr : Ipv4Addr) :
    ∃ ch word, dotted addr = ch :: word ∧ isDigit ch = true := by
  obtain ⟨⟨bs⟩, hlen⟩ := addr
  match bs, hlen with
  | [a, b, c, d], hlen =>
    obtain ⟨ch, word, hcons, hch⟩ := toDigits_cons a.toNat
    have hword : dotted ⟨⟨[a, b, c, d]⟩, hlen⟩ = Nat.toDigits 10 a.toNat ++ '.' ::
        ['.'].intercalate ([b, c, d].map fun b => Nat.toDigits 10 b.toNat) := by
      simp [dotted, List.intercalate_cons_cons]
    rw [hword, hcons]
    exact ⟨ch, _, rfl, hch⟩

theorem isWord_ipv4 (addr : Ipv4Addr) : IsWord (ipAddrToStr addr).toList (.ipv4 addr) := by
  rw [toList_ipAddrToStr]
  exact isWord_of_digit (fun c hc => (isWordChar_dotted hc).1)
    (fun h => (isWordChar_dotted h).2 rfl) (dotted_cons addr)
    (by rw [lexNumber, parseIpv4Word_eq, parseIpv4Word_dotted])

theorem isWord_port {num : Nat} (h : num ≤ 65535) : IsWord (Nat.repr num).toList (.number num) := by
  rw [Nat.toList_repr]
  have hdigits : ∀ c ∈ Nat.toDigits 10 num, isDigit c = true := fun c => CapFilter.isDigit_of_mem
  refine isWord_of_digit (fun c => isWordChar_of_mem (by decide) (by decide))
    (fun hc => absurd (hdigits _ hc) (by decide)) (toDigits_cons num) ?_
  rw [lexNumber, parseIpv4Word_eq, CapFilter.parseIpv4Word_digits hdigits]
  have hall : (Nat.toDigits 10 num).all isDigit = true := List.all_eq_true.mpr hdigits
  simp only [hall, not_true, if_false]
  rw [CapFilter.strtoul_toDigits, if_neg (by omega), Nat.min_eq_left (by omega)]

def valueText : (kind : FieldKind) → kind.Value → String
  | .mac, mac => ethMacToStr mac
  | .ipv4, addr => ipAddrToStr addr
  | .ipv6, addr => ipv6AddrToStr addr
  | .port, num => Nat.repr num

theorem isWord_value (kind : FieldKind) (v : kind.Value) (hv : kind.Valid v) :
    IsWord (valueText kind v).toList (valueToken kind v) := by
  cases kind with
  | mac => exact isWord_mac v
  | ipv4 => exact isWord_ipv4 v
  | ipv6 => exact isWord_ipv6 v
  | port => exact isWord_port hv

theorem IsWord.tokenize {text : List Char} {t : Token} (h : IsWord text t) :
    Filter.tokenize dfScanner text = ([t], none) := by
  obtain ⟨ch, word, rfl, hlex⟩ := h.lex
  have hword := tokenize_word (h.chars ch List.mem_cons_self)
    (fun c hc => h.chars c (List.mem_cons_of_mem ch hc))
    (show ([] : List Char).head?.all _ from rfl) hlex
  rw [List.append_nil] at hword
  rw [hword, Filter.tokenize]

theorem lexLoop_of_tokenize {τ : Type} [Lexeme τ] {sc : Scanner τ} {text : List Char} {ts : List τ}
    (h : tokenize sc text = (ts, none)) (hlen : ts.length < maxTokens) (errNull : Bool)
    (errLen : Int) :
    ∃ c, lexLoop sc (Ctx.start errNull errLen) text = some c ∧ c.failed = false ∧
      c.toks = ts ++ [sc.tokEnd] := by
  have hroom : (Ctx.start errNull errLen : Ctx τ).toks.length + (tokenize sc text).1.length <
      maxTokens := by
    rw [h]
    simpa [Ctx.start] using hlen
  refine ⟨_, lexLoop_eq_tokenize sc text _ hroom, ?_, ?_⟩
  · rw [lexed_failed, h]
    rfl
  · rw [h]
    simp [Ctx.lexed, Ctx.start]

def comparison (field : Field) (v : field.kind.Value) : String :=
  field.name ++ " == " ++ valueText field.kind v

theorem tokenize_comparison (field : Field) (v : field.kind.Value) (hv : field.kind.Valid v) :
    tokenize dfScanner (comparison field v).toList =
      ([.field field, .eq, valueToken field.kind v], none) := by
  have hvalue := (isWord_value field.kind v hv).tokenize
  rw [comparison, String.toList_append, String.toList_append, List.append_assoc,
    tokenize_name field (by rfl), tokenize_eq, hvalue]

theorem comparison_decides (field : Field) (v : field.kind.Value) (hv : field.kind.Valid v)
    (errNull : Bool) (errLen : Int) :
    ∃ r filter, dispfilterCompile (some (comparison field v).toList) errNull errLen true true =
        some r ∧ r.filter = some filter ∧
      ∀ rec, dispfilterMatches (some filter) rec =
        some (field.present rec && decide (v ∈ field.values rec)) := by
  have htok := tokenize_comparison field v hv
  have hts : tokens (comparison field v).toList = [.field field, .eq, valueToken field.kind v] :=
    congrArg Prod.fst htok
  have he : IsExpr (tokens (comparison field v).toList) (.prim ⟨field, .eq, v⟩) := by
    rw [hts]
    exact .ofAnd (.ofNot (.prim (.cmp ⟨field, .eq, v⟩ hv)))
  have hne : isEmpty (comparison field v).toList = false := by
    rw [comparison, String.toList_append, String.toList_append]
    cases field <;> rfl
  obtain ⟨r, hr, hiff, -, hdecides⟩ := display_filter_end_to_end errNull errLen true true hne
    (by rw [hts]; exact Nat.le_of_ble_eq_true rfl) (congrArg Prod.snd htok)
  obtain ⟨filter, hfilter⟩ := Option.isSome_iff_exists.mp (hiff.mpr ⟨⟨rfl, rfl⟩, _, he⟩)
  obtain ⟨e, -, hunique, heval⟩ := hdecides filter hfilter
  refine ⟨r, filter, hr, hfilter, fun rec => ?_⟩
  rw [heval rec, ← hunique _ he]
  rfl

def dirText : CapFilter.Dir → String
  | .src => "src"
  | .dst => "dst"

def dirToken : CapFilter.Dir → CapFilter.Token
  | .src => .src
  | .dst => .dst

def hostText (dir : CapFilter.Dir) (addr : Ipv4Addr) : String :=
  dirText dir ++ " host " ++ ipAddrToStr addr

theorem tokenize_hostText (dir : CapFilter.Dir) (addr : Ipv4Addr) :
    tokenize CapFilter.cfScanner (hostText dir addr).toList =
      ([dirToken dir, .host, .ipv4 addr], none) := by
  have haddr : tokenize CapFilter.cfScanner (dotted addr) = ([.ipv4 addr], none) := by
    have hlex : CapFilter.lexNumber (dotted addr) = .ok (.ipv4 addr) := by
      rw [CapFilter.lexNumber, parseIpv4Word_dotted]
    obtain ⟨ch, word, hcons, hch⟩ := dotted_cons addr
    have hchars : ∀ c ∈ dotted addr, CapFilter.isNumberChar c = true := by
      intro c hc
      obtain rfl | ⟨w, hw, hcw⟩ := mem_intercalate hc
      · rfl
      · obtain ⟨b, -, rfl⟩ := List.mem_map.mp hw
        rw [CapFilter.isNumberChar, CapFilter.isDigit_of_mem hcw]
        rfl
    rw [hcons] at hlex hchars ⊢
    rw [CapFilter.tokenize_number hch fun c hc => hchars c (List.mem_cons_of_mem ch hc), hlex]
  have hhost := @CapFilter.tokenize_keyword 'h' "ost".toList (dotted addr) .host rfl rfl
    (List.all_eq_true.mp rfl) (by decide)
  rw [haddr] at hhost
  rw [hostText, String.toList_append, String.toList_append, toList_ipAddrToStr]
  cases dir with
  | src =>
    have hdir := @CapFilter.tokenize_keyword 's' "rc".toList ("host ".toList ++ dotted addr) .src
      rfl rfl (List.all_eq_true.mp rfl) (by decide)
    exact hdir.trans (congrArg (fun r => (CapFilter.Token.src :: r.1, r.2)) hhost)
  | dst =>
    have hdir := @CapFilter.tokenize_keyword 'd' "st".toList ("host ".toList ++ dotted addr) .dst
      rfl rfl (List.all_eq_true.mp rfl) (by decide)
    exact hdir.trans (congrArg (fun r => (CapFilter.Token.dst :: r.1, r.2)) hhost)

/-- Addresses as they are printed fit their buffers, and each can be pasted into a filter: it is
one literal with the bytes of the address, and comparing a field with it asks for that address. -/
theorem printed_address_reads_back :
    ((∀ addr, (ipAddrToStr addr).length + 1 ≤ 16) ∧ (∀ addr, (ipv6AddrToStr addr).length + 1 ≤ 40) ∧
      ∀ mac, (ethMacToStr mac).length + 1 ≤ 18) ∧
    (∀ (field : Field) (v : field.kind.Value), field.kind.Valid v → ∀ errNull errLen,
      (∃ c, dfLex (Ctx.start errNull errLen) (valueText field.kind v).toList = some c ∧
        c.failed = false ∧ c.toks = [valueToken field.kind v, .tokEnd]) ∧
      ∃ r filter, dispfilterCompile (some (comparison field v).toList) errNull errLen true true =
          some r ∧ r.filter = some filter ∧
        ∀ rec, dispfilterMatches (some filter) rec =
          some (field.present rec && decide (v ∈ field.values rec))) ∧
    ∀ dir addr errNull errLen, ∃ c,
      CapFilter.cfLex (Ctx.start errNull errLen) (hostText dir addr).toList = some c ∧
        c.failed = false ∧ c.toks = [dirToken dir, .host, .ipv4 addr, .tokEnd] := by
  refine ⟨⟨fun addr => ?_, fun addr => ?_, fun mac => ?_⟩, ?_, ?_⟩
  · rw [← String.length_toList, toList_ipAddrToStr]
    exact length_dotted_le addr
  · rw [← String.length_toList, toList_ipv6AddrToStr]
    exact length_groupsText_le addr
  · rw [← String.length_toList, toList_ethMacToStr]
    exact length_macText_le mac
  · intro field v hv errNull errLen
    have hword := (isWord_value field.kind v hv).tokenize
    exact ⟨lexLoop_of_tokenize hword (by simp [maxTokens]) errNull errLen,
      comparison_decides field v hv errNull errLen⟩
  · intro dir addr errNull errLen
    exact lexLoop_of_tokenize (tokenize_hostText dir addr) (by simp [maxTokens]) errNull errLen

def loopback : Field.ipv6Addr.kind.Value := #v[0, 0, 0, 0, 0, 0, 0, 0, 0, 0, 0, 0, 0, 0, 0, 1]

theorem printed_address_reads_back_loopback :
    comparison .ipv6Addr loopback = "ipv6.addr == 0:0:0:0:0:0:0:1" ∧
      ∃ r filter, dispfilterCompile (some (comparison .ipv6Addr loopback).toList) true 0 true true =
          some r ∧ r.filter = some filter ∧
        ∀ rec, dispfilterMatches (some filter) rec =
          some (Field.ipv6Addr.present rec && decide (loopback ∈ Field.ipv6Addr.values rec)) :=
  ⟨by decide +kernel, (printed_address_reads_back.2.1 .ipv6Addr loopback trivial true 0).2⟩

end MyWireshark.Addresses
