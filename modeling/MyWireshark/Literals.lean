import MyWireshark.CapFilter.Words
import MyWireshark.DispFilter.Ipv6Word
import MyWireshark.Dissect.Printer

/-! Address literals of the two filters: the functions that read them, on the texts that the
printing functions give. -/
namespace MyWireshark.Literals
open MyWireshark.Filter Digits DispFilter
open Dissect (hextets)

/-! IPv4. parse_ipv4_word stands in both files. -/

abbrev toCap (s : Ipv4Scan) : CapFilter.Ipv4Scan := ⟨s.octet, s.value, s.digits, s.out⟩

theorem ipv4Turn_toCap (s : Ipv4Scan) (ch : Char) :
    (ipv4Turn s ch).map toCap = CapFilter.ipv4Turn (toCap s) ch := by
  simp only [ipv4Turn, CapFilter.ipv4Turn]
  split_ifs <;> rfl

theorem foldlM_toCap (word : List Char) (s : Ipv4Scan) :
    (word.foldlM ipv4Turn s).map toCap = word.foldlM CapFilter.ipv4Turn (toCap s) := by
  induction word generalizing s with
  | nil => rfl
  | cons ch word ih =>
    rw [List.foldlM_cons, List.foldlM_cons, ← ipv4Turn_toCap]
    cases ipv4Turn s ch with
    | none => rfl
    | some s' => exact ih s'

theorem parseIpv4Word_eq (word : List Char) :
    parseIpv4Word word = CapFilter.parseIpv4Word word := by
  have hscan := foldlM_toCap (word ++ ['.'])
    { octet := 0, value := -1, digits := 0, out := Vector.replicate 4 0 }
  rw [parseIpv4Word, CapFilter.parseIpv4Word]
  change _ = ((word ++ ['.']).foldlM CapFilter.ipv4Turn
    (toCap { octet := 0, value := -1, digits := 0, out := Vector.replicate 4 0 })).bind _
  rw [← hscan]
  cases (word ++ ['.']).foldlM ipv4Turn
    { octet := 0, value := -1, digits := 0, out := Vector.replicate 4 0 } <;> rfl

/-- A turn of the loop on the character `ch`, which leaves `o`: what `value` is before and in it,
and that it stores at most one byte, which is one of the four. -/
structure TurnInside (s : CapFilter.Ipv4Scan) (ch : Char) (o : Option CapFilter.Ipv4Scan) :
    Prop where
  held : s.value ≤ 255
  computed : isDigit ch = true → s.next ch ≤ 2559
  stored : ∀ t, o = some t → t.out = s.out ∨ ∃ (h : s.octet < 4) (b : UInt8),
    t.out = s.out.set s.octet b h

theorem turnInside_of_bounded {s : CapFilter.Ipv4Scan} (h : s.Bounded) (ch : Char) :
    TurnInside s ch (CapFilter.ipv4Turn s ch) where
  held := h.high
  computed := fun hdigit => (h.next_le hdigit).2
  stored := by
    intro t hturn
    by_cases hdot : ch = '.'
    · rw [hdot] at hturn
      obtain ⟨-, -, hoctet, rfl⟩ := CapFilter.ipv4Turn_dot_iff.mp hturn
      exact .inr ⟨hoctet, _, rfl⟩
    · obtain ⟨-, -, rfl⟩ := (CapFilter.ipv4Turn_digit_iff hdot).mp hturn
      exact .inl rfl

theorem bounded_start : CapFilter.Ipv4Scan.start.Bounded := ⟨by decide, by decide⟩

/-- Both copies of parse_ipv4_word take the same words, the dotted quads, and store their four
values; in no turn of either loop is there a byte stored past the fourth or a value above
2559. -/
theorem ipv4_words_read_exactly (word : List Char) :
    (∀ addr, CapFilter.parseIpv4Word word = some addr ↔ CapFilter.DottedQuad word addr) ∧
    (∀ addr, parseIpv4Word word = some addr ↔ CapFilter.DottedQuad word addr) ∧
    parseIpv4Word word = CapFilter.parseIpv4Word word ∧
    (∀ pre ch post s, word ++ ['.'] = pre ++ ch :: post →
      pre.foldlM CapFilter.ipv4Turn .start = some s →
        TurnInside s ch (CapFilter.ipv4Turn s ch)) ∧
    ∀ pre ch post s, word ++ ['.'] = pre ++ ch :: post →
      pre.foldlM ipv4Turn ⟨0, -1, 0, Vector.replicate 4 0⟩ = some s →
        TurnInside (toCap s) ch ((ipv4Turn s ch).map toCap) := by
  have heq := parseIpv4Word_eq word
  refine ⟨CapFilter.parseIpv4Word_iff word, ?_, heq, ?_, ?_⟩
  · intro addr
    rw [heq]
    exact CapFilter.parseIpv4Word_iff word addr
  · intro pre ch post s _ hscan
    exact turnInside_of_bounded (bounded_start.run hscan) ch
  · intro pre ch post s _ hscan
    have hcap := foldlM_toCap pre ⟨0, -1, 0, Vector.replicate 4 0⟩
    rw [hscan] at hcap
    rw [ipv4Turn_toCap]
    exact turnInside_of_bounded (bounded_start.run hcap.symm) ch

theorem ipv4_words_read_exactly_zeros :
    parseIpv4Word "010.0.00.255".toList = some #v[10, 0, 0, 255] ∧
      CapFilter.DottedQuad "010.0.00.255".toList #v[10, 0, 0, 255] := by
  have hread : parseIpv4Word "010.0.00.255".toList = some #v[10, 0, 0, 255] := by decide
  exact ⟨hread, ((ipv4_words_read_exactly _).2.1 _).mp hread⟩

def dotted (addr : Vector UInt8 4) : List Char :=
  ['.'].intercalate (addr.toList.map fun b => Nat.toDigits 10 b.toNat)

theorem decimal_toDigits (n : Nat) : CapFilter.decimal (Nat.toDigits 10 n) = n :=
  Nat.ofDigitChars_toDigits (by decide) (by decide)

theorem isOctet_toDigits (b : UInt8) : CapFilter.IsOctet (Nat.toDigits 10 b.toNat) where
  nonempty := Nat.toDigits_ne_nil
  digits := fun _ hch => CapFilter.isDigit_of_mem hch
  small := by
    rw [decimal_toDigits]
    exact Nat.le_of_lt_succ b.toNat_lt

theorem parseIpv4Word_dotted (addr : Vector UInt8 4) :
    CapFilter.parseIpv4Word (dotted addr) = some addr := by
  obtain ⟨⟨bs⟩, hlen⟩ := addr
  match bs, hlen with
  | [a, b, c, d], hlen =>
    refine (CapFilter.parseIpv4Word_iff _ _).mpr ⟨_, _, _, _, CapFilter.intercalate_quad _ _ _ _,
      isOctet_toDigits a, isOctet_toDigits b, isOctet_toDigits c, isOctet_toDigits d, ?_⟩
    simp only [decimal_toDigits, UInt8.ofNat_toNat]

/-! MAC -/

theorem hexNibble_digitChar {d : Nat} (h : d < 16) : hexNibble d.digitChar = some d := by
  revert d
  decide

def hexPair (b : UInt8) : List Char := [(b.toNat / 16).digitChar, (b.toNat % 16).digitChar]

def macText (mac : MacAddr) : List Char := [':'].intercalate (mac.toList.map hexPair)

theorem hexNibble_hi (b : UInt8) : hexNibble (b.toNat / 16).digitChar = some (b.toNat / 16) := by
  have hb : b.toNat < 256 := b.toNat_lt
  exact hexNibble_digitChar (by omega)

theorem hexNibble_lo (b : UInt8) : hexNibble (b.toNat % 16).digitChar = some (b.toNat % 16) :=
  hexNibble_digitChar (Nat.mod_lt _ (by decide))

theorem ofNat_nibbles (b : UInt8) :
    UInt8.ofNat ((b.toNat / 16) <<< 4 ||| b.toNat % 16) = b := by
  have hlo : b.toNat % 16 < 2 ^ 4 := Nat.mod_lt _ (by decide)
  rw [← Nat.shiftLeft_add_eq_or_of_lt hlo, Nat.shiftLeft_eq]
  have hvalue : b.toNat / 16 * 2 ^ 4 + b.toNat % 16 = b.toNat := by omega
  rw [hvalue, UInt8.ofNat_toNat]

theorem macOctet_hexPair {word : List Char} {g : Nat} {b : UInt8}
    (hhi : word[g * 3]? = some (b.toNat / 16).digitChar)
    (hlo : word[g * 3 + 1]? = some (b.toNat % 16).digitChar)
    (hcolon : g < 5 → word[g * 3 + 2]? = some ':') : macOctet word g = some b := by
  have hnot : ¬(g < 5 ∧ word[g * 3 + 2]? ≠ some ':') := fun h => h.2 (hcolon h.1)
  simp only [macOctet, hhi, hlo, Option.bind_eq_bind, Option.bind_some, hexNibble_hi, hexNibble_lo,
    if_neg hnot, ofNat_nibbles]
  rfl

theorem parseMacWord_macText (mac : MacAddr) : parseMacWord (macText mac) = some mac := by
  obtain ⟨⟨bs⟩, hlen⟩ := mac
  match bs, hlen with
  | [a, b, c, d, e, f], hlen =>
    simp only [parseMacWord]
    rw [if_neg (by simp [macText, hexPair, List.intercalate_cons_cons]),
      macOctet_hexPair (b := a) rfl rfl fun _ => rfl,
      macOctet_hexPair (b := b) rfl rfl fun _ => rfl,
      macOctet_hexPair (b := c) rfl rfl fun _ => rfl,
      macOctet_hexPair (b := d) rfl rfl fun _ => rfl,
      macOctet_hexPair (b := e) rfl rfl fun _ => rfl,
      macOctet_hexPair (b := f) rfl rfl fun h => absurd h (by decide)]
    rfl

/-! IPv6 -/

def groupsText (gs : List Nat) : List Char := [':'].intercalate (gs.map (Nat.toDigits 16))

theorem hextetValue_toDigits {g : Nat} (h : g < 65536) :
    hextetValue (Nat.toDigits 16 g) = some g := by
  refine @foldlM_toDigits 16 g (by decide) _ 65535 ?_ (by omega)
  intro v d hd hle
  have hshift : v <<< 4 ||| d = 16 * v + d := by
    rw [← Nat.shiftLeft_add_eq_or_of_lt hd, Nat.shiftLeft_eq, Nat.mul_comm]
  rw [hexNibble_digitChar hd, Option.map_some, hshift, Nat.mod_eq_of_lt (by omega)]

theorem isGroup_toDigits {g : Nat} (h : g < 65536) :
    IsGroup (Nat.toDigits 16 g) ∧ groupValue (Nat.toDigits 16 g) = g := by
  have hlen : (Nat.toDigits 16 g).length ≤ 4 :=
    (Nat.length_toDigits_le_iff (by decide) (by decide)).mpr h
  obtain ⟨hdigits, hvalue⟩ := (hextetValue_iff hlen).mp (hextetValue_toDigits h)
  exact ⟨⟨Nat.toDigits_ne_nil, hlen, hdigits⟩, hvalue.symm⟩

theorem hextet_bytes (hi lo : UInt8) :
    [UInt8.ofNat ((hi.toNat <<< 8 ||| lo.toNat) >>> 8),
      UInt8.ofNat ((hi.toNat <<< 8 ||| lo.toNat) &&& 0xFF)] = [hi, lo] := by
  have hlo : lo.toNat < 2 ^ 8 := lo.toNat_lt
  have hmask : (0xFF : Nat) = 2 ^ 8 - 1 := rfl
  rw [← Nat.shiftLeft_add_eq_or_of_lt hlo, Nat.shiftLeft_eq, Nat.shiftRight_eq_div_pow, hmask,
    Nat.and_two_pow_sub_one_eq_mod]
  have hdiv : (hi.toNat * 2 ^ 8 + lo.toNat) / 2 ^ 8 = hi.toNat := by omega
  have hmod : (hi.toNat * 2 ^ 8 + lo.toNat) % 2 ^ 8 = lo.toNat := by omega
  rw [hdiv, hmod, UInt8.ofNat_toNat, UInt8.ofNat_toNat]

theorem groupBytes_hextets (addr : Ipv6Addr) : groupBytes (hextets addr) = addr.toList := by
  have hindices : List.finRange 16 = (List.finRange 8).flatMap fun k =>
      [⟨2 * k.val, by omega⟩, ⟨2 * k.val + 1, by omega⟩] := by
    decide
  have hbytes : addr.toList = (List.finRange 16).map fun i => addr[i.val] :=
    List.ext_getElem (by simp) (by simp)
  rw [hbytes, hindices, List.map_flatMap]
  simp only [groupBytes, hextets, List.flatMap_map, hextet_bytes, List.map_cons, List.map_nil]

theorem hextets_lt {addr : Ipv6Addr} {g : Nat} (h : g ∈ hextets addr) : g < 65536 := by
  obtain ⟨k, -, rfl⟩ := List.mem_map.mp h
  have hhi : addr[2 * k.val].toNat < 256 := addr[2 * k.val].toNat_lt
  have hlo : addr[2 * k.val + 1].toNat < 2 ^ 8 := addr[2 * k.val + 1].toNat_lt
  rw [← Nat.shiftLeft_add_eq_or_of_lt hlo, Nat.shiftLeft_eq]
  omega

@[simp] theorem length_hextets (addr : Ipv6Addr) : (hextets addr).length = 8 := by
  simp [hextets]

theorem ipv6Literal_hextets (addr : Ipv6Addr) :
    Ipv6Literal (groupsText (hextets addr)) (hextets addr) := by
  have hvalues : ((hextets addr).map (Nat.toDigits 16)).map groupValue = hextets addr := by
    rw [List.map_map]
    refine (List.map_congr_left fun g hg => ?_).trans (List.map_id _)
    exact (isGroup_toDigits (hextets_lt hg)).2
  have hfull := Ipv6Literal.full ((hextets addr).map (Nat.toDigits 16)) (by
    intro group hgroup
    obtain ⟨g, hg, rfl⟩ := List.mem_map.mp hgroup
    exact (isGroup_toDigits (hextets_lt hg)).1) (by simp)
  rwa [hvalues] at hfull

theorem parseIpv6Word_hextets (addr : Ipv6Addr) :
    parseIpv6Word (groupsText (hextets addr)) = some addr := by
  refine (parseIpv6Word_iff _ _).mpr ⟨hextets addr, ipv6Literal_hextets addr, ?_⟩
  rw [← groupBytes_eq, groupBytes_hextets]

theorem parseMacWord_hextets (addr : Ipv6Addr) :
    parseMacWord (groupsText (hextets addr)) = none := by
  cases hmac : parseMacWord (groupsText (hextets addr)) with
  | none => rfl
  | some mac => exact absurd (ipv6Literal_hextets addr) (not_ipv6Literal_of_mac hmac _)

end MyWireshark.Literals
