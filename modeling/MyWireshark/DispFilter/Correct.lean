import MyWireshark.DispFilter.Grammar
import MyWireshark.Filter.Slack

/-! dispfilter_compile and dispfilter_matches as a whole: which strings give a filter, and
what the filter decides. -/
namespace MyWireshark.DispFilter
open MyWireshark.Filter BoolGrammar

/-! The arena is as large as the token array, so it never runs out. -/

theorem tokenValue_error {t : Token} {kind : FieldKind} {msg : String}
    (h : tokenValue t kind = .error msg) : msg ≠ tooComplex := by
  cases kind with
  | port =>
    cases t with
    | number num =>
      have h : portValue (.number num) = .error msg := h
      by_cases hnum : num > 65535
      · rw [portValue, if_pos hnum] at h
        cases h
        decide
      · rw [portValue, if_neg hnum] at h
        cases h
    | _ => cases h; decide
  | mac | ipv4 | ipv6 => cases t <;> cases h <;> decide

theorem parseValue_slack {field : Field} {cmp : CmpOp} {k : Nat} {p q : Parser Token} {n : Ast}
    (hp : Slack (k + 1) p) (h : parseValue field cmp p = some (n, q)) : Slack k q := by
  simp only [parseValue, Option.bind_eq_bind, Option.bind_eq_some_iff] at h
  obtain ⟨⟨valTok, p₁⟩, hadv, h⟩ := h
  have h₁ := (hp.advance hadv).1.mkNode (.leaf (⟨field, cmp, field.kind.zero⟩ : Cmp))
  simp only at h
  split_ifs at h with hnull
  · obtain rfl := congrArg Prod.snd (Option.some.inj h)
    exact h₁
  · cases hval : tokenValue valTok field.kind with
    | ok v =>
      rw [hval] at h
      obtain rfl := congrArg Prod.snd (Option.some.inj h)
      exact h₁
    | error msg =>
      rw [hval] at h
      obtain rfl := congrArg Prod.snd (Option.some.inj h)
      exact h₁.fail (tokenValue_error hval)

theorem parsePrimitive_thrifty : Thrifty parsePrimitive := by
  intro k p n q hp h
  simp only [parsePrimitive, Option.bind_eq_bind, Option.bind_eq_some_iff] at h
  obtain ⟨⟨t, p₁⟩, hadv, h⟩ := h
  obtain ⟨h₁, h₁'⟩ := hp.advance hadv
  cases t with
  | field field =>
    obtain ⟨⟨op, p₂⟩, hadv', h⟩ := Option.bind_eq_some_iff.mp h
    have h₂ := (h₁' (by rfl)).advance hadv' |>.1
    simp only at h
    split_ifs at h
    · exact parseValue_slack h₂ h
    · exact parseValue_slack h₂ h
    · obtain rfl := congrArg Prod.snd (Option.some.inj h)
      exact (h₂.mono (Nat.le_succ k)).fail (by decide)
  | _ =>
    obtain rfl := congrArg Prod.snd (Option.some.inj h)
    exact h₁.fail (by decide)

/-! What a filter means. -/

instance (kind : FieldKind) : DecidableEq kind.Value :=
  match kind with
  | .mac => inferInstanceAs (DecidableEq MacAddr)
  | .ipv4 => inferInstanceAs (DecidableEq Ipv4Addr)
  | .ipv6 => inferInstanceAs (DecidableEq Ipv6Addr)
  | .port => inferInstanceAs (DecidableEq Nat)

/-- The packet has the layer of the field; the Ethernet header is always there. -/
def Field.present (f : Fields) : Field → Bool
  | .ethSrc | .ethDst | .ethAddr => true
  | .ipSrc | .ipDst | .ipAddr => f.hasIp != 0
  | .ipv6Src | .ipv6Dst | .ipv6Addr => f.hasIpv6 != 0
  | .tcpSrcport | .tcpDstport | .tcpPort => f.hasTcp != 0
  | .udpSrcport | .udpDstport | .udpPort => f.hasUdp != 0

/-- The values a field name stands for: one side of the packet, or either. -/
def Field.values (f : Fields) : (field : Field) → List field.kind.Value
  | .ethSrc => [f.ethSrc]
  | .ethDst => [f.ethDst]
  | .ethAddr => [f.ethSrc, f.ethDst]
  | .ipSrc => [f.ipSrc]
  | .ipDst => [f.ipDst]
  | .ipAddr => [f.ipSrc, f.ipDst]
  | .ipv6Src => [f.ipv6Src]
  | .ipv6Dst => [f.ipv6Dst]
  | .ipv6Addr => [f.ipv6Src, f.ipv6Dst]
  | .tcpSrcport => [f.tcpSrcPort]
  | .tcpDstport => [f.tcpDstPort]
  | .tcpPort => [f.tcpSrcPort, f.tcpDstPort]
  | .udpSrcport => [f.udpSrcPort]
  | .udpDstport => [f.udpDstPort]
  | .udpPort => [f.udpSrcPort, f.udpDstPort]

/-- The meaning of a comparison; '!=' is the negation of '=='. -/
def Cmp.holds (f : Fields) (n : Cmp) : Bool :=
  let eq := n.field.present f && decide (n.value ∈ n.field.values f)
  match n.cmp with
  | .eq => eq
  | .ne => !eq

section sides
variable {α : Type} [BEq α] [LawfulBEq α]

theorem one_side (a v : α) {_ : Decidable (v ∈ [a])} : (a == v) = decide (v ∈ [a]) := by
  rw [Bool.eq_iff_iff, beq_iff_eq, decide_eq_true_iff, List.mem_singleton, eq_comm]

theorem either_side (a b v : α) {_ : Decidable (v ∈ [a, b])} :
    (a == v || b == v) = decide (v ∈ [a, b]) := by
  rw [Bool.eq_iff_iff, Bool.or_eq_true, beq_iff_eq, beq_iff_eq, decide_eq_true_iff, List.mem_cons,
    List.mem_singleton, eq_comm, eq_comm (a := b)]

end sides

/-- The fifteen cases of eval_cmp follow one rule. -/
theorem evalEq_eq_mem (f : Fields) (field : Field) (value : field.kind.Value) :
    evalEq f field value = (field.present f && decide (value ∈ field.values f)) := by
  cases field with
  | ethSrc => exact one_side (α := MacAddr) f.ethSrc value
  | ethDst => exact one_side (α := MacAddr) f.ethDst value
  | ethAddr => exact either_side (α := MacAddr) f.ethSrc f.ethDst value
  | ipSrc => exact congrArg (f.hasIp != 0 && ·) (one_side (α := Ipv4Addr) f.ipSrc value)
  | ipDst => exact congrArg (f.hasIp != 0 && ·) (one_side (α := Ipv4Addr) f.ipDst value)
  | ipAddr =>
    exact congrArg (f.hasIp != 0 && ·) (either_side (α := Ipv4Addr) f.ipSrc f.ipDst value)
  | ipv6Src => exact congrArg (f.hasIpv6 != 0 && ·) (one_side (α := Ipv6Addr) f.ipv6Src value)
  | ipv6Dst => exact congrArg (f.hasIpv6 != 0 && ·) (one_side (α := Ipv6Addr) f.ipv6Dst value)
  | ipv6Addr =>
    exact congrArg (f.hasIpv6 != 0 && ·) (either_side (α := Ipv6Addr) f.ipv6Src f.ipv6Dst value)
  | tcpSrcport => exact congrArg (f.hasTcp != 0 && ·) (one_side (α := Nat) f.tcpSrcPort value)
  | tcpDstport => exact congrArg (f.hasTcp != 0 && ·) (one_side (α := Nat) f.tcpDstPort value)
  | tcpPort =>
    exact congrArg (f.hasTcp != 0 && ·) (either_side (α := Nat) f.tcpSrcPort f.tcpDstPort value)
  | udpSrcport => exact congrArg (f.hasUdp != 0 && ·) (one_side (α := Nat) f.udpSrcPort value)
  | udpDstport => exact congrArg (f.hasUdp != 0 && ·) (one_side (α := Nat) f.udpDstPort value)
  | udpPort =>
    exact congrArg (f.hasUdp != 0 && ·) (either_side (α := Nat) f.udpSrcPort f.udpDstPort value)

theorem evalCmp_eq_holds (n : Cmp) (f : Fields) : evalCmp n f = n.holds f := by
  obtain ⟨field, cmp, value⟩ := n
  cases cmp <;> simp [evalCmp, Cmp.holds, evalEq_eq_mem]

theorem evalNode_ast (f : Fields) (e : Expr Cmp) :
    evalNode f (ast e) = some (e.eval (Cmp.holds f)) := by
  induction e with
  | prim n => exact congrArg some (evalCmp_eq_holds n f)
  | neg e ih =>
    simp only [ast, Node.ofExpr, evalNode] at ih ⊢
    simp [ih, Expr.eval]
  | conj l r ihl ihr =>
    simp only [ast, Node.ofExpr, evalNode] at ihl ihr ⊢
    cases hl : l.eval (Cmp.holds f) <;> simp [ihl, ihr, Expr.eval, hl]
  | disj l r ihl ihr =>
    simp only [ast, Node.ofExpr, evalNode] at ihl ihr ⊢
    cases hl : l.eval (Cmp.holds f) <;> simp [ihl, ihr, Expr.eval, hl]

theorem ast_isNull (e : Expr Cmp) : (ast e).isNull = false := by
  cases e <;> rfl

theorem matches_tree {filter : Dispfilter} {e : Expr Cmp} (h : filter.root = ast e) (f : Fields) :
    dispfilterMatches (some filter) f = some (e.eval (Cmp.holds f)) := by
  simp [dispfilterMatches, h, ast_isNull, evalNode_ast]

def tokens (expr : List Char) : List Token := (tokenize dfScanner expr).1

def lexError (expr : List Char) : Option String := (tokenize dfScanner expr).2

theorem stages_spec {expr : List Char} (errNull : Bool) (errLen : Int)
    (hlen : (tokens expr).length ≤ 255) (herr : lexError expr = none) :
    ∃ c root p, dfLex (Ctx.start errNull errLen) expr = some c ∧ c.failed = false ∧
      dfParse c = some (root, p) ∧ tooComplex ∉ p.c.raised ∧
      (p.c.failed = false ↔ ∃ e, IsExpr (tokens expr) e) ∧
      (p.c.failed = false → ∃ e, IsExpr (tokens expr) e ∧ root = ast e) := by
  have hmax : maxTokens = 256 := rfl
  have herr' : (tokenize dfScanner expr).2 = none := herr
  simp only [tokens] at hlen
  have hlex := lexLoop_eq_tokenize dfScanner expr (Ctx.start errNull errLen)
    (by simp only [Ctx.start, List.length_nil]; omega)
  have hfailed : ((Ctx.start errNull errLen).lexed dfScanner.tokEnd
      (tokenize dfScanner expr)).failed = false := by rw [lexed_failed, herr']; rfl
  have hleft := remaining_lexed dfScanner errNull errLen herr'
  obtain ⟨root, p, hparse, -, hcomplete, hsound⟩ := dfParse_spec hleft hfailed
  have hslack : Slack 0 ⟨(Ctx.start errNull errLen).lexed dfScanner.tokEnd
      (tokenize dfScanner expr), 0, maxNodes⟩ := by
    generalize tokenize dfScanner expr = r at herr' hlen ⊢
    obtain ⟨ts, err⟩ := r
    cases herr'
    refine ⟨.inr (Nat.le_refl 0), Nat.zero_le _, ?_, by simp [Ctx.lexed, Ctx.start]⟩
    simp only [Ctx.lexed, Ctx.start, List.nil_append, List.length_append, List.length_singleton,
      maxNodes] at hlen ⊢
    omega
  refine ⟨_, root, p, hlex, hfailed, hparse,
    parseStage_clean parsePrimitive_thrifty hslack hparse, ⟨?_, ?_⟩, ?_⟩
  · intro hok
    obtain ⟨e, he, -⟩ := hsound hok
    exact ⟨e, he⟩
  · rintro ⟨e, he⟩
    have hnodes := nodes_le_tokens he
    have hcap : maxNodes = 256 := rfl
    exact hcomplete e he (by simp only [tokens] at hnodes; omega)
  · intro hok
    obtain ⟨e, he, -, hroot⟩ := hsound hok
    exact ⟨e, he, hroot⟩

theorem compiled_tree {expr : List Char} {errNull : Bool} {errLen : Int}
    {mallocFilter mallocNodes : Bool} {r : CompileResult} {filter : Dispfilter}
    (hne : isEmpty expr = false)
    (h : dispfilterCompile (some expr) errNull errLen mallocFilter mallocNodes = some r)
    (hr : r.filter = some filter) : ∃ e, IsExpr (tokens expr) e ∧ filter.root = ast e := by
  unfold dispfilterCompile at h
  by_cases hmalloc : (!mallocFilter || !mallocNodes) = true
  · rw [if_pos hmalloc] at h
    cases h
    cases hr
  · rw [if_neg hmalloc] at h
    cases hlex : dfLex (Ctx.start errNull errLen) expr with
    | none => simp [hne, hlex] at h
    | some c =>
      by_cases hf : c.failed = true
      · simp [hne, hlex, hf] at h
        cases h
        cases hr
      · have hf : c.failed = false := by simpa using hf
        obtain ⟨hroom, herr⟩ := lexLoop_success (Nat.zero_le _) hlex hf
        have hmax : maxTokens = 256 := rfl
        simp only [Ctx.start, List.length_nil] at hroom
        obtain ⟨c', root, p, hlex', -, hparse, -, -, hroot⟩ := stages_spec errNull errLen
          (show (tokens expr).length ≤ 255 by simp only [tokens]; omega) herr
        obtain rfl : c = c' := Option.some.inj (hlex.symm.trans hlex')
        by_cases hp : p.c.failed = true
        · simp [hne, hlex, hf, hparse, hp] at h
          cases h
          cases hr
        · simp [hne, hlex, hf, hparse, hp] at h
          cases h
          cases hr
          exact hroot (by simpa using hp)

theorem compiled_root {expr : Option (List Char)} {errNull : Bool} {errLen : Int}
    {mallocFilter mallocNodes : Bool} {r : CompileResult} {filter : Dispfilter}
    (h : dispfilterCompile expr errNull errLen mallocFilter mallocNodes = some r)
    (hr : r.filter = some filter) : filter.root.isNull = true ∨ ∃ e, filter.root = ast e := by
  by_cases hempty : ∀ text, expr = some text → isEmpty text = true
  · -- no text: the filter has no node, if there is a filter
    left
    unfold dispfilterCompile at h
    split at h
    · cases h
      cases hr
    · cases expr with
      | none =>
        cases h
        cases hr
        rfl
      | some text =>
        simp only [hempty text rfl, if_true] at h
        cases h
        cases hr
        rfl
  · push Not at hempty
    obtain ⟨text, rfl, hne⟩ := hempty
    obtain ⟨e, -, he⟩ := compiled_tree (by simpa using hne) h hr
    exact .inr ⟨e, he⟩

theorem compiled_decides {expr : Option (List Char)} {errNull : Bool} {errLen : Int}
    {mallocFilter mallocNodes : Bool} {r : CompileResult} {filter : Dispfilter}
    (h : dispfilterCompile expr errNull errLen mallocFilter mallocNodes = some r)
    (hr : r.filter = some filter) (f : Fields) :
    ∃ verdict, dispfilterMatches (some filter) f = some verdict := by
  cases compiled_root h hr with
  | inl hnull => exact ⟨true, by simp [dispfilterMatches, hnull]⟩
  | inr htree =>
    obtain ⟨e, he⟩ := htree
    exact ⟨e.eval (Cmp.holds f), matches_tree he f⟩

/-- dispfilter_compile gives a filter exactly for the expressions of the language, never
complains about their size, and the filter decides their Boolean meaning. -/
theorem display_filter_end_to_end {expr : List Char} (errNull : Bool) (errLen : Int)
    (mallocFilter mallocNodes : Bool) (hne : isEmpty expr = false)
    (hlen : (tokens expr).length ≤ 255) (herr : lexError expr = none) :
    ∃ r, dispfilterCompile (some expr) errNull errLen mallocFilter mallocNodes = some r ∧
      (r.filter.isSome = true ↔
        (mallocFilter = true ∧ mallocNodes = true) ∧ ∃ e, IsExpr (tokens expr) e) ∧
      tooComplex ∉ r.ctx.raised ∧
      ∀ filter, r.filter = some filter → ∃ e, IsExpr (tokens expr) e ∧
        (∀ e', IsExpr (tokens expr) e' → e' = e) ∧
        ∀ f, dispfilterMatches (some filter) f = some (e.eval (Cmp.holds f)) := by
  obtain ⟨c, root, p, hlex, hok, hparse, hclean, hiff, hroot⟩ :=
    stages_spec errNull errLen hlen herr
  by_cases hmalloc : mallocFilter = true ∧ mallocNodes = true
  · obtain ⟨rfl, rfl⟩ := hmalloc
    by_cases hp : p.c.failed = true
    · refine ⟨⟨none, p.c⟩, ?_, ?_, hclean, by simp⟩
      · simp [dispfilterCompile, hne, hlex, hok, hparse, hp]
      · rw [← hiff]
        simp [hp]
    · have hp : p.c.failed = false := by simpa using hp
      refine ⟨⟨some ⟨root, p.count⟩, p.c⟩, ?_, ?_, hclean, ?_⟩
      · simp [dispfilterCompile, hne, hlex, hok, hparse, hp]
      · rw [← hiff]
        simp [hp]
      · rintro filter ⟨⟩
        obtain ⟨e, he, rfl⟩ := hroot hp
        exact ⟨e, he, fun e' he' => he'.unique primSpec he, matches_tree rfl⟩
  · have hbad : (!mallocFilter || !mallocNodes) = true := by
      cases mallocFilter <;> cases mallocNodes <;> simp_all
    refine ⟨⟨none, (Ctx.start errNull errLen).fail "out of memory compiling filter"⟩, ?_, ?_, ?_,
      by simp⟩
    · simp only [dispfilterCompile, hbad, if_true]
    · simp [hmalloc]
    · simp [Ctx.start, tooComplex]

theorem display_filter_end_to_end_port :
    tokens "not tcp.port == 443".toList =
      [.not, .field .tcpPort, .eq, .number 443] ∧
    ∃ r, dispfilterCompile (some "not tcp.port == 443".toList) true 0 true true = some r ∧
      (r.filter.isSome = true ↔
        (true = true ∧ true = true) ∧ ∃ e, IsExpr (tokens "not tcp.port == 443".toList) e) ∧
      tooComplex ∉ r.ctx.raised := by
  have htok : tokens "not tcp.port == 443".toList =
      [.not, .field .tcpPort, .eq, .number 443] := by decide +kernel
  obtain ⟨r, hr, hiff, hclean, -⟩ := @display_filter_end_to_end "not tcp.port == 443".toList
    true 0 true true (by decide) (by rw [htok]; decide) (by decide +kernel)
  exact ⟨htok, r, hr, hiff, hclean⟩

end MyWireshark.DispFilter
