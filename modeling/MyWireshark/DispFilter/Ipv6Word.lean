import MyWireshark.DispFilter.Lexer
import MyWireshark.Lib.Text
import MyWireshark.Lib.Trace
import Mathlib.Data.List.Induction

/-! The words that parse_ipv6_word takes: the first two text forms of RFC 4291, section 2.2. -/
namespace MyWireshark.DispFilter
open MyWireshark.Filter Separated Trace

def groupValue (group : List Char) : Nat :=
  group.foldl (fun v ch => 16 * v + (hexNibble ch).getD 0) 0

structure IsGroup (group : List Char) : Prop where
  nonempty : group ≠ []
  short : group.length ≤ 4
  digits : ∀ ch ∈ group, (hexNibble ch).isSome

/-- The literals, with the values of their groups: eight groups, or fewer with "::" for the zeros
between them. -/
inductive Ipv6Literal : List Char → List Nat → Prop where
  | full (groups : List (List Char)) (hgroups : ∀ g ∈ groups, IsGroup g)
    (hcount : groups.length = 8) :
    Ipv6Literal ([':'].intercalate groups) (groups.map groupValue)
  | compressed (left right : List (List Char)) (hleft : ∀ g ∈ left, IsGroup g)
    (hright : ∀ g ∈ right, IsGroup g) (hcount : left.length + right.length ≤ 7) :
    Ipv6Literal ([':'].intercalate left ++ ':' :: ':' :: [':'].intercalate right)
      (left.map groupValue ++ List.replicate (8 - (left.length + right.length)) 0 ++
        right.map groupValue)

def addressBytes (groups : List Nat) : List UInt8 :=
  groups.flatMap fun v => [UInt8.ofNat (v / 256), UInt8.ofNat (v % 256)]

/-! The value of a group. -/

theorem hexNibble_lt {ch : Char} {d : Nat} (h : hexNibble ch = some d) : d < 16 := by
  have hrange : ∀ {lo hi : Char}, lo ≤ ch ∧ ch ≤ hi →
      lo.toNat ≤ ch.toNat ∧ ch.toNat ≤ hi.toNat := by
    intro lo hi hch
    simp only [Char.le_def, UInt32.le_iff_toNat_le] at hch
    exact hch
  rw [hexNibble] at h
  split_ifs at h with hdigit hlower hupper
  · have hch := isDigit_toNat hdigit
    obtain rfl := Option.some.inj h
    omega
  · have hch : 97 ≤ ch.toNat ∧ ch.toNat ≤ 102 := hrange hlower
    obtain rfl := Option.some.inj h
    omega
  · have hch : 65 ≤ ch.toNat ∧ ch.toNat ≤ 70 := hrange hupper
    obtain rfl := Option.some.inj h
    omega

theorem groupValue_concat (group : List Char) (ch : Char) :
    groupValue (group ++ [ch]) = 16 * groupValue group + (hexNibble ch).getD 0 := by
  simp [groupValue]

theorem groupValue_lt (group : List Char) : groupValue group < 16 ^ group.length := by
  induction group using List.reverseRecOn with
  | nil => decide
  | append_singleton group ch ih =>
    have hch : (hexNibble ch).getD 0 < 16 := by
      cases hnib : hexNibble ch with
      | none => decide
      | some d => exact hexNibble_lt hnib
    rw [groupValue_concat, List.length_append, List.length_singleton, Nat.pow_succ]
    omega

/-- Four digits fit into a uint16_t. -/
theorem hextetValue_iff {group : List Char} (hshort : group.length ≤ 4) {val : Nat} :
    hextetValue group = some val ↔
      (∀ ch ∈ group, (hexNibble ch).isSome) ∧ val = groupValue group := by
  induction group using List.reverseRecOn generalizing val with
  | nil =>
    rw [hextetValue, List.foldlM_nil, Option.pure_def, Option.some_inj, eq_comm]
    exact ⟨fun h => ⟨by simp, h⟩, fun h => h.2⟩
  | append_singleton group ch ih =>
    rw [List.length_append, List.length_singleton] at hshort
    have hsmall : groupValue group < 16 ^ 3 :=
      Nat.lt_of_lt_of_le (groupValue_lt group) (Nat.pow_le_pow_right (by decide) (by omega))
    have hstep : hextetValue (group ++ [ch]) = (hextetValue group).bind fun v =>
        (hexNibble ch).map fun nib => (v <<< 4 ||| nib) % 2 ^ 16 := by
      simp [hextetValue, List.foldlM_append]
    have hval : ∀ d, hexNibble ch = some d →
        (groupValue group <<< 4 ||| d) % 2 ^ 16 = groupValue (group ++ [ch]) := by
      intro d hd
      have hlt := hexNibble_lt hd
      rw [groupValue_concat, hd, ← Nat.shiftLeft_add_eq_or_of_lt hlt, Nat.shiftLeft_eq,
        Nat.mod_eq_of_lt (by omega), Nat.mul_comm]
      rfl
    rw [hstep, Option.bind_eq_some_iff]
    simp only [ih (by omega), Option.map_eq_some_iff]
    constructor
    · rintro ⟨v, ⟨hall, rfl⟩, d, hd, rfl⟩
      refine ⟨?_, hval d hd⟩
      simpa [or_imp, forall_and, hd] using hall
    · rintro ⟨hall, rfl⟩
      obtain ⟨d, hd⟩ := Option.isSome_iff_exists.mp (hall ch (by simp))
      exact ⟨_, ⟨fun c hc => hall c (List.mem_append_left _ hc), rfl⟩, d, hd, hval d hd⟩

theorem isGroup_of_hextetValue {group : List Char}
    (hlen : ¬(group.length = 0 ∨ group.length > 4)) {val : Nat}
    (hval : hextetValue group = some val) : IsGroup group ∧ val = groupValue group := by
  obtain ⟨hdigits, hval⟩ := (hextetValue_iff (by omega)).mp hval
  have hne : group ≠ [] := fun h => hlen (.inl (by rw [h]; rfl))
  exact ⟨⟨hne, by omega, hdigits⟩, hval⟩

theorem IsGroup.no_colon {group : List Char} (h : IsGroup group) : ':' ∉ group := fun hmem =>
  absurd (h.digits ':' hmem) (by decide)

/-! parse_hextet_list -/

theorem parseHextetList_group {maxGroups : Nat} {out : List Nat} {group tail : List Char}
    (hgroup : IsGroup group) (hout : out.length < maxGroups)
    (htail : tail.head?.all (· == ':')) :
    parseHextetList maxGroups out (group ++ tail) =
      match tail with
      | [] => some (out ++ [groupValue group])
      | _ :: rest =>
        if rest = [] then none
        else parseHextetList maxGroups (out ++ [groupValue group]) rest := by
  have hpos := List.length_pos_iff.mpr hgroup.nonempty
  have hlen := hgroup.short
  have hall : ∀ c ∈ group, decide (c ≠ ':') = true := by
    intro c hc
    refine decide_eq_true ?_
    rintro rfl
    exact hgroup.no_colon hc
  have hstop : tail.takeWhile (fun c => decide (c ≠ ':')) = [] ∧
      tail.dropWhile (fun c => decide (c ≠ ':')) = tail := by
    cases tail with
    | nil => simp
    | cons c rest =>
      have hc : c = ':' := by simpa using htail
      simp [hc]
  have hdrop : (group ++ tail).dropWhile (fun c => decide (c ≠ ':')) = tail := by
    rw [List.dropWhile_append_of_pos hall, hstop.2]
  have hvalue : hextetValue group = some (groupValue group) :=
    (hextetValue_iff hlen).mpr ⟨hgroup.digits, rfl⟩
  rw [parseHextetList, if_neg (by simp [hgroup.nonempty]),
    List.takeWhile_append_of_pos hall, hstop.1, List.append_nil]
  simp only [hvalue]
  rw [if_neg (by omega), if_neg (by omega)]
  split
  · rename_i h
    obtain rfl := hdrop.symm.trans h
    rfl
  · rename_i h
    obtain rfl := hdrop.symm.trans h
    rfl

theorem intercalate_ne_nil {groups : List (List Char)} (hne : groups ≠ [])
    (hgroups : ∀ g ∈ groups, g ≠ []) : [':'].intercalate groups ≠ [] := by
  obtain ⟨g, gs, rfl⟩ := List.exists_cons_of_ne_nil hne
  have hg := hgroups g List.mem_cons_self
  cases gs <;> simp [List.intercalate_cons_cons, hg]

theorem parseHextetList_groups {maxGroups : Nat} {groups : List (List Char)}
    (hgroups : ∀ g ∈ groups, IsGroup g) {out : List Nat}
    (hout : out.length + groups.length ≤ maxGroups) :
    parseHextetList maxGroups out ([':'].intercalate groups) =
      some (out ++ groups.map groupValue) := by
  induction groups generalizing out with
  | nil => rw [List.intercalate_nil, parseHextetList, if_pos rfl, List.map_nil, List.append_nil]
  | cons g gs ih =>
    have hg := hgroups g List.mem_cons_self
    have hgs : ∀ x ∈ gs, IsGroup x := fun x hx => hgroups x (List.mem_cons_of_mem g hx)
    rw [List.length_cons] at hout
    cases gs with
    | nil =>
      have hlast := @parseHextetList_group maxGroups out g [] hg (by omega) rfl
      rw [List.append_nil] at hlast
      rw [List.intercalate_singleton]
      exact hlast
    | cons g' gs =>
      have hrest := intercalate_ne_nil (List.cons_ne_nil g' gs) fun x hx => (hgs x hx).nonempty
      rw [List.intercalate_cons_cons, List.append_assoc, List.singleton_append,
        parseHextetList_group hg (by omega) rfl]
      dsimp only
      rw [if_neg hrest, ih hgs (by rw [List.length_append, List.length_singleton]; omega),
        List.append_assoc, List.map_cons, List.map_cons, List.map_cons, List.singleton_append]

theorem groups_of_parseHextetList {maxGroups : Nat} {out vals : List Nat} {s : List Char}
    (h : parseHextetList maxGroups out s = some vals) :
    ∃ groups, (∀ g ∈ groups, IsGroup g) ∧ s = [':'].intercalate groups ∧
      vals = out ++ groups.map groupValue := by
  fun_induction parseHextetList maxGroups out s with
  | case1 out =>
    obtain rfl := Option.some.inj h
    exact ⟨[], by simp, rfl, by simp⟩
  | case2 | case3 | case4 | case6 => cases h
  | case5 out s hne group hlen val hval hroom hdrop =>
    obtain ⟨hgroup, rfl⟩ := isGroup_of_hextetValue hlen hval
    have hsplit := List.takeWhile_append_dropWhile (p := fun c => decide (c ≠ ':')) (l := s)
    rw [hdrop, List.append_nil] at hsplit
    refine ⟨[group], by simpa using hgroup, ?_, (Option.some.inj h).symm⟩
    rw [List.intercalate_singleton]
    exact hsplit.symm
  | case7 out s hne group hlen val hval hroom ch rest hdrop hrest ih =>
    obtain ⟨hgroup, rfl⟩ := isGroup_of_hextetValue hlen hval
    obtain ⟨groups, hgroups, rfl, rfl⟩ := ih h
    have hcolon : ch = ':' := by
      have hhead := List.head?_dropWhile_not (fun c => decide (c ≠ ':')) s
      rw [hdrop] at hhead
      simpa using hhead
    have hsplit := List.takeWhile_append_dropWhile (p := fun c => decide (c ≠ ':')) (l := s)
    rw [hdrop, hcolon] at hsplit
    obtain ⟨g, gs, rfl⟩ : ∃ g gs, groups = g :: gs := by
      cases groups with
      | nil => exact absurd rfl hrest
      | cons g gs => exact ⟨g, gs, rfl⟩
    refine ⟨group :: g :: gs, ?_, ?_, by simp⟩
    · intro x hx
      obtain rfl | hx := List.mem_cons.mp hx
      · exact hgroup
      · exact hgroups x hx
    · rw [List.intercalate_cons_cons, List.append_assoc]
      exact hsplit.symm

/-! The search for "::". -/

theorem splitDouble_append {word : List Char} (hword : ':' ∉ word) (s : List Char) :
    splitDouble (word ++ s) = (splitDouble s).map fun (l, r) => (word ++ l, r) := by
  induction word with
  | nil => simp
  | cons c word ih =>
    have hc : c ≠ ':' := fun h => hword (by rw [h]; exact List.mem_cons_self)
    rw [List.cons_append, splitDouble, ih fun h => hword (List.mem_cons_of_mem c h)]
    · simp [Function.comp_def]
    · rintro rest rfl
      exact absurd rfl hc

theorem splitDouble_colon {s : List Char} (hs : s.head? ≠ some ':') :
    splitDouble (':' :: s) = (splitDouble s).map fun (l, r) => (':' :: l, r) := by
  rw [splitDouble]
  rintro rest - rfl
  exact hs rfl

theorem head_groups {g : List Char} (hg : g ≠ []) (gs : List (List Char)) (s : List Char) :
    ([':'].intercalate (g :: gs) ++ s).head? = g.head? := by
  obtain ⟨c, rest, rfl⟩ := List.exists_cons_of_ne_nil hg
  cases gs <;> simp [List.intercalate_cons_cons]

theorem splitDouble_groups {groups : List (List Char)}
    (hgroups : ∀ g ∈ groups, g ≠ [] ∧ ':' ∉ g) (s : List Char) :
    splitDouble ([':'].intercalate groups ++ s) =
      (splitDouble s).map fun (l, r) => ([':'].intercalate groups ++ l, r) := by
  induction groups with
  | nil => simp
  | cons g gs ih =>
    obtain ⟨-, hg⟩ := hgroups g List.mem_cons_self
    have hgs : ∀ x ∈ gs, x ≠ [] ∧ ':' ∉ x := fun x hx => hgroups x (List.mem_cons_of_mem g hx)
    cases gs with
    | nil =>
      rw [List.intercalate_singleton]
      exact splitDouble_append hg s
    | cons g' gs =>
      obtain ⟨hne, hg'⟩ := hgs g' List.mem_cons_self
      have hhead : ([':'].intercalate (g' :: gs) ++ s).head? ≠ some ':' := by
        rw [head_groups hne]
        exact fun h => hg' (List.mem_of_mem_head? h)
      rw [List.intercalate_cons_cons, List.append_assoc, List.append_assoc,
        splitDouble_append hg, List.singleton_append, splitDouble_colon hhead, ih hgs]
      simp [Function.comp_def]

theorem splitDouble_some {word l r : List Char} (h : splitDouble word = some (l, r)) :
    word = l ++ ':' :: ':' :: r := by
  fun_induction splitDouble word generalizing l with
  | case1 rest =>
    obtain ⟨rfl, rfl⟩ := Prod.mk.inj (Option.some.inj h)
    rfl
  | case2 ch rest hnot ih =>
    obtain ⟨⟨l', r'⟩, hrest, heq⟩ := Option.map_eq_some_iff.mp h
    obtain ⟨rfl, rfl⟩ := Prod.mk.inj heq
    rw [ih hrest, List.cons_append]
  | case3 => cases h

/-! parse_ipv6_word -/

theorem groupBytes_eq (groups : List Nat) : groupBytes groups = addressBytes groups := by
  have hmask : (0xFF : Nat) = 2 ^ 8 - 1 := rfl
  simp only [groupBytes, addressBytes, hmask, Nat.and_two_pow_sub_one_eq_mod,
    Nat.shiftRight_eq_div_pow]

theorem toIpv6_iff {bytes : List UInt8} {addr : Ipv6Addr} :
    toIpv6 bytes = some addr ↔ addr.toList = bytes := by
  rw [toIpv6]
  by_cases h : bytes.length = 16
  · rw [dif_pos h, Option.some_inj]
    constructor
    · rintro rfl
      rfl
    · rintro rfl
      rfl
  · rw [dif_neg h]
    refine iff_of_false (by simp) ?_
    rintro rfl
    exact h (by simp)

/-- parse_ipv6_word takes the literals, and no other word. -/
theorem parseIpv6Word_iff (word : List Char) (addr : Ipv6Addr) :
    parseIpv6Word word = some addr ↔
      ∃ groups, Ipv6Literal word groups ∧ addr.toList = addressBytes groups := by
  constructor
  · intro h
    rw [parseIpv6Word] at h
    cases hsplit : splitDouble word with
    | none =>
      rw [hsplit] at h
      obtain ⟨vals, hvals, h⟩ := Option.bind_eq_some_iff.mp h
      obtain ⟨groups, hgroups, rfl, rfl⟩ := groups_of_parseHextetList hvals
      rw [List.nil_append] at h
      obtain ⟨hcount, h⟩ := Option.ite_none_left_eq_some.mp h
      rw [toIpv6_iff, groupBytes_eq] at h
      refine ⟨_, .full groups hgroups ?_, h⟩
      simpa using hcount
    | some sides =>
      obtain ⟨l, r⟩ := sides
      rw [hsplit] at h
      obtain ⟨leftVals, hl, h⟩ := Option.bind_eq_some_iff.mp h
      obtain ⟨rightVals, hr, h⟩ := Option.bind_eq_some_iff.mp h
      obtain ⟨left, hleft, rfl, rfl⟩ := groups_of_parseHextetList hl
      obtain ⟨right, hright, rfl, rfl⟩ := groups_of_parseHextetList hr
      obtain ⟨hcount, h⟩ := Option.ite_none_left_eq_some.mp h
      simp only [List.nil_append, List.length_map] at hcount h
      rw [toIpv6_iff, groupBytes_eq] at h
      rw [splitDouble_some hsplit]
      exact ⟨_, .compressed left right hleft hright (by omega), h⟩
  · rintro ⟨groups, hlit, haddr⟩
    -- no group has a colon in it, so that the word is split where the literal says
    have hfields : ∀ gs : List (List Char), (∀ g ∈ gs, IsGroup g) → ∀ g ∈ gs, g ≠ [] ∧ ':' ∉ g :=
      fun gs hgs g hg => ⟨(hgs g hg).nonempty, (hgs g hg).no_colon⟩
    rw [parseIpv6Word]
    cases hlit with
    | full gs hgs hcount =>
      have hnone := splitDouble_groups (hfields gs hgs) []
      rw [List.append_nil] at hnone
      rw [hnone]
      simp only [splitDouble, Option.map_none,
        parseHextetList_groups hgs (show [].length + gs.length ≤ 8 by simp [hcount])]
      simp [hcount, toIpv6_iff, groupBytes_eq, haddr]
    | compressed left right hleft hright hcount =>
      have hsome := splitDouble_groups (hfields left hleft) (':' :: ':' :: [':'].intercalate right)
      rw [hsome]
      simp only [splitDouble, Option.map_some, List.append_nil,
        parseHextetList_groups hleft (show [].length + left.length ≤ 8 by simp; omega),
        parseHextetList_groups hright (show [].length + right.length ≤ 8 by simp; omega)]
      simp [hcount, toIpv6_iff, groupBytes_eq, haddr]

/-! No word is an address of both kinds. -/

theorem drop_of_getElem? {word : List Char} {i : Nat} {ch : Char} (h : word[i]? = some ch) :
    word.drop i = ch :: word.drop (i + 1) := by
  obtain ⟨hi, rfl⟩ := List.getElem?_eq_some_iff.mp h
  exact List.drop_eq_getElem_cons hi

theorem of_macOctet {word : List Char} {g : Nat} {o : UInt8} (h : macOctet word g = some o) :
    ∃ f, (f ≠ [] ∧ ':' ∉ f) ∧ word.drop (g * 3) = f ++ word.drop (g * 3 + 2) ∧
      (g < 5 → word.drop (g * 3 + 2) = ':' :: word.drop ((g + 1) * 3)) := by
  have hcolon : ∀ {ch : Char} {n : Nat}, hexNibble ch = some n → ':' ≠ ch := by
    rintro ch n hch rfl
    cases hch
  obtain ⟨a, ha, h⟩ := Option.bind_eq_some_iff.mp h
  obtain ⟨hi, hhi, h⟩ := Option.bind_eq_some_iff.mp h
  obtain ⟨b, hb, h⟩ := Option.bind_eq_some_iff.mp h
  obtain ⟨lo, hlo, h⟩ := Option.bind_eq_some_iff.mp h
  refine ⟨[a, b], by simp [hcolon hhi, hcolon hlo], ?_, fun hg => ?_⟩
  · rw [drop_of_getElem? ha, drop_of_getElem? hb]
    rfl
  · by_cases hsep : word[g * 3 + 2]? = some ':'
    · rw [drop_of_getElem? hsep, Nat.succ_mul]
    · rw [if_pos ⟨hg, hsep⟩] at h
      cases h

theorem fields_of_macOctets {word : List Char} (hlen : word.length = 17)
    (h : ∀ g < 6, (macOctet word g).isSome) {n : Nat} (hn : n < 6) :
    ∃ fields : List (List Char), fields.length = n + 1 ∧ (∀ f ∈ fields, f ≠ [] ∧ ':' ∉ f) ∧
      word.drop ((5 - n) * 3) = [':'].intercalate fields := by
  induction n with
  | zero =>
    obtain ⟨o, ho⟩ := Option.isSome_iff_exists.mp (h 5 (by decide))
    obtain ⟨f, hf, hdrop, -⟩ := of_macOctet ho
    refine ⟨[f], rfl, by simpa using hf, ?_⟩
    rw [hdrop, List.drop_of_length_le (by omega), List.append_nil, List.intercalate_singleton]
  | succ n ih =>
    obtain ⟨o, ho⟩ := Option.isSome_iff_exists.mp (h (5 - (n + 1)) (by omega))
    obtain ⟨f, hf, hdrop, hsep⟩ := of_macOctet ho
    obtain ⟨fields, hcount, hfields, hrest⟩ := ih (by omega)
    obtain ⟨g, gs, rfl⟩ := List.exists_cons_of_length_eq_add_one hcount
    refine ⟨f :: g :: gs, by rw [List.length_cons, hcount],
      List.forall_mem_cons.mpr ⟨hf, hfields⟩, ?_⟩
    have hnext : 5 - (n + 1) + 1 = 5 - n := by omega
    rw [hdrop, hsep (by omega), hnext, hrest, List.intercalate_cons_cons]
    simp

theorem fields_of_parseMacWord {word : List Char} {mac : MacAddr}
    (h : parseMacWord word = some mac) :
    ∃ fields : List (List Char), fields.length = 6 ∧ (∀ f ∈ fields, f ≠ [] ∧ ':' ∉ f) ∧
      word = [':'].intercalate fields := by
  unfold parseMacWord at h
  split_ifs at h with hlen
  obtain ⟨o₀, h₀, h⟩ := Option.bind_eq_some_iff.mp h
  obtain ⟨o₁, h₁, h⟩ := Option.bind_eq_some_iff.mp h
  obtain ⟨o₂, h₂, h⟩ := Option.bind_eq_some_iff.mp h
  obtain ⟨o₃, h₃, h⟩ := Option.bind_eq_some_iff.mp h
  obtain ⟨o₄, h₄, h⟩ := Option.bind_eq_some_iff.mp h
  obtain ⟨o₅, h₅, -⟩ := Option.bind_eq_some_iff.mp h
  have hoctets : ∀ g < 6, (macOctet word g).isSome := by
    intro g hg
    obtain rfl | rfl | rfl | rfl | rfl | rfl : g = 0 ∨ g = 1 ∨ g = 2 ∨ g = 3 ∨ g = 4 ∨ g = 5 := by
      omega
    all_goals simp only [h₀, h₁, h₂, h₃, h₄, h₅, Option.isSome_some]
  exact fields_of_macOctets (not_not.mp hlen) hoctets (show 5 < 6 by decide)

/-- A word of six fields is no literal: it has no "::", and not eight groups. -/
theorem not_ipv6Literal_of_mac {word : List Char} {mac : MacAddr}
    (hmac : parseMacWord word = some mac) (groups : List Nat) : ¬Ipv6Literal word groups := by
  obtain ⟨fields, hsix, hfields, rfl⟩ := fields_of_parseMacWord hmac
  intro hlit
  generalize hword : [':'].intercalate fields = word at hlit
  cases hlit with
  | full gs hgs hcount =>
    have hleft := List.splitOn_intercalate ':' (fun f hf => (hfields f hf).2)
      (List.ne_nil_of_length_pos (by omega))
    have hright := List.splitOn_intercalate ':' (fun g hg => (hgs g hg).no_colon)
      (List.ne_nil_of_length_pos (by omega))
    rw [← hword, hleft] at hright
    rw [hright] at hsix
    omega
  | compressed left right hl hr hcount =>
    have hnone := splitDouble_groups hfields []
    have hsome := splitDouble_groups (fun g hg => ⟨(hl g hg).nonempty, (hl g hg).no_colon⟩)
      (':' :: ':' :: [':'].intercalate right)
    rw [List.append_nil, hword, hsome] at hnone
    cases hnone

/-! The writes of parse_ipv6_word, which is run once more with every one of them recorded; a word
that is refused leaves its record as well. -/

/-- A write into `left` or `right`, or into the bytes of the address. -/
inductive Store where
  | group (i : Nat)
  | byte (i : Nat)

def Store.Inside : Store → Prop
  | .group i => i < 8
  | .byte i => i < 16

namespace Recorded

def parseHextetList (maxGroups : Nat) (out : List Nat) (s : List Char) :
    Traced Store (Option (List Nat)) :=
  if s = [] then return some out
  else
    let group := s.takeWhile (· ≠ ':')
    if group.length = 0 ∨ group.length > 4 then return none
    else
      match hextetValue group with
      | none => return none
      | some val =>
        if out.length ≥ maxGroups then return none
        else do
          event (.group out.length)
          match _h : s.dropWhile (· ≠ ':') with
          | [] => return some (out ++ [val])
          | _ :: rest =>
            if rest = [] then return none else parseHextetList maxGroups (out ++ [val]) rest
termination_by s.length
decreasing_by
  have hle := (List.dropWhile_sublist (l := s) (· ≠ ':')).length_le
  rw [_h] at hle
  simp only [List.length_cons] at hle
  omega

/-- One of the three loops that fill `out`, from the group `idx` on. -/
def storeGroups (idx : Nat) : List Nat → Traced Store Unit
  | [] => return ()
  | _ :: groups => do
    event (.byte (idx * 2))
    event (.byte (idx * 2 + 1))
    storeGroups (idx + 1) groups

def parseIpv6Word (word : List Char) : Traced Store (Option Ipv6Addr) :=
  match splitDouble word with
  | none => do
    match ← parseHextetList 8 [] word with
    | none => return none
    | some left =>
      if left.length ≠ 8 then return none
      else
        storeGroups 0 left
        return toIpv6 (groupBytes left)
  | some (leftPart, rightPart) => do
    match ← parseHextetList 8 [] leftPart with
    | none => return none
    | some left =>
      match ← parseHextetList 8 [] rightPart with
      | none => return none
      | some right =>
        let total := left.length + right.length
        if total > 7 then return none
        else
          let zeros := List.replicate (8 - total) 0
          storeGroups 0 left
          storeGroups left.length zeros
          storeGroups (left.length + zeros.length) right
          return toIpv6 (groupBytes (left ++ zeros ++ right))

theorem parseHextetList_inside (out : List Nat) (s : List Char) :
    Ensures Store.Inside (parseHextetList 8 out s) fun r =>
      r = DispFilter.parseHextetList 8 out s := by
  -- both functions make the same tests, up to the call on what is behind the next colon
  induction hn : s.length using Nat.strong_induction_on generalizing out s with
  | h n ih =>
    rw [parseHextetList, DispFilter.parseHextetList]
    by_cases hempty : s = []
    · rw [if_pos hempty, if_pos hempty]
      exact .pure rfl
    rw [if_neg hempty, if_neg hempty]
    dsimp only
    by_cases hlen : (s.takeWhile (· ≠ ':')).length = 0 ∨ (s.takeWhile (· ≠ ':')).length > 4
    · rw [if_pos hlen, if_pos hlen]
      exact .pure rfl
    rw [if_neg hlen, if_neg hlen]
    cases hextetValue (s.takeWhile (· ≠ ':')) with
    | none => exact .pure rfl
    | some val =>
      dsimp only
      by_cases hfull : out.length ≥ 8
      · rw [if_pos hfull, if_pos hfull]
        exact .pure rfl
      rw [if_neg hfull, if_neg hfull]
      refine .bind (.event (Nat.not_le.mp hfull)) fun _ _ => ?_
      have hshort := (List.dropWhile_sublist (l := s) (· ≠ ':')).length_le
      generalize s.dropWhile (· ≠ ':') = tail at hshort ⊢
      cases tail with
      | nil => exact .pure rfl
      | cons ch rest =>
        rw [List.length_cons] at hshort
        dsimp only
        by_cases hlast : rest = []
        · rw [if_pos hlast, if_pos hlast]
          exact .pure rfl
        · rw [if_neg hlast, if_neg hlast]
          exact ih rest.length (by omega) _ rest rfl

theorem storeGroups_inside {idx : Nat} {groups : List Nat} (h : idx + groups.length ≤ 8) :
    Ensures Store.Inside (storeGroups idx groups) fun _ => True := by
  induction groups generalizing idx with
  | nil => exact .pure trivial
  | cons g groups ih =>
    rw [List.length_cons] at h
    refine .bind (.event (show idx * 2 < 16 by omega)) fun _ _ => ?_
    refine .bind (.event (show idx * 2 + 1 < 16 by omega)) fun _ _ => ?_
    exact ih (by omega)

theorem parseIpv6Word_inside (word : List Char) :
    Ensures Store.Inside (parseIpv6Word word) fun r => r = DispFilter.parseIpv6Word word := by
  rw [parseIpv6Word, DispFilter.parseIpv6Word]
  cases splitDouble word with
  | none =>
    refine .bind (parseHextetList_inside [] word) ?_
    rintro _ rfl
    cases DispFilter.parseHextetList 8 [] word with
    | none => exact .pure rfl
    | some left =>
      simp only [Option.bind_eq_bind, Option.bind_some]
      by_cases hcount : left.length ≠ 8
      · rw [if_pos hcount, if_pos hcount]
        exact .pure rfl
      · rw [if_neg hcount, if_neg hcount]
        exact .bind (storeGroups_inside (by omega)) fun _ _ => .pure rfl
  | some sides =>
    obtain ⟨leftPart, rightPart⟩ := sides
    have hleft := parseHextetList_inside [] leftPart
    have hright := parseHextetList_inside [] rightPart
    dsimp only
    generalize DispFilter.parseHextetList 8 [] leftPart = l at hleft ⊢
    generalize DispFilter.parseHextetList 8 [] rightPart = r at hright ⊢
    refine .bind hleft ?_
    rintro l rfl
    cases l with
    | none => exact .pure rfl
    | some left =>
      refine .bind hright ?_
      rintro r rfl
      cases r with
      | none => exact .pure rfl
      | some right =>
        simp only [Option.bind_eq_bind, Option.bind_some]
        by_cases hcount : left.length + right.length > 7
        · rw [if_pos hcount, if_pos hcount]
          exact .pure rfl
        · rw [if_neg hcount, if_neg hcount]
          refine .bind (storeGroups_inside (by omega)) fun _ _ => ?_
          refine .bind (storeGroups_inside (by rw [List.length_replicate]; omega)) fun _ _ => ?_
          refine .bind (storeGroups_inside (by rw [List.length_replicate]; omega)) fun _ _ => ?_
          exact .pure rfl

end Recorded

/-- parse_ipv6_word takes exactly the literals, gives the bytes of the address that a literal
denotes, and writes inside its arrays on every word; parse_mac_word takes none of its words. -/
theorem ipv6_words_read_exactly (word : List Char) :
    (∀ addr, parseIpv6Word word = some addr ↔
      ∃ groups, Ipv6Literal word groups ∧ addr.toList = addressBytes groups) ∧
    (∃ stores, (Recorded.parseIpv6Word word).run = some (parseIpv6Word word, stores) ∧
      ∀ st ∈ stores, st.Inside) ∧
    ¬((parseMacWord word).isSome ∧ (parseIpv6Word word).isSome) := by
  refine ⟨parseIpv6Word_iff word, ?_, ?_⟩
  · obtain ⟨_, stores, hrun, hinside, rfl⟩ := Recorded.parseIpv6Word_inside word
    exact ⟨stores, hrun, hinside⟩
  · rintro ⟨hmac, hipv6⟩
    obtain ⟨mac, hmac⟩ := Option.isSome_iff_exists.mp hmac
    obtain ⟨addr, hipv6⟩ := Option.isSome_iff_exists.mp hipv6
    obtain ⟨groups, hlit, -⟩ := (parseIpv6Word_iff word addr).mp hipv6
    exact not_ipv6Literal_of_mac hmac groups hlit

theorem ipv6_words_read_exactly_corners :
    (∃ groups, Ipv6Literal "1:2:3:4:5:6:7::".toList groups ∧
      addressBytes groups = [0, 1, 0, 2, 0, 3, 0, 4, 0, 5, 0, 6, 0, 7, 0, 0]) ∧
    ∀ word ∈ [":::", "1::2::3", ":1::", "1:2:3:4:5:6:7:8::"], parseIpv6Word word.toList = none := by
  have hread : parseIpv6Word "1:2:3:4:5:6:7::".toList =
      some #v[0, 1, 0, 2, 0, 3, 0, 4, 0, 5, 0, 6, 0, 7, 0, 0] := by decide +kernel
  obtain ⟨groups, hlit, hbytes⟩ := ((ipv6_words_read_exactly _).1 _).mp hread
  exact ⟨⟨groups, hlit, hbytes.symm⟩, by decide +kernel⟩

end MyWireshark.DispFilter
