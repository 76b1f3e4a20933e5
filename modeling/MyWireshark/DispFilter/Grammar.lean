import MyWireshark.DispFilter.Parser
import MyWireshark.Filter.Descent
import MyWireshark.Filter.Lexing

/-! The language of dispfilter.h and parse_primitive as a reader of its primitives. -/
namespace MyWireshark.DispFilter
open MyWireshark.Filter BoolGrammar

def cmpToken : CmpOp → Token
  | .eq => .eq
  | .ne => .ne

def valueToken : (kind : FieldKind) → kind.Value → Token
  | .mac, addr => .mac addr
  | .ipv4, addr => .ipv4 addr
  | .ipv6, addr => .ipv6 addr
  | .port, num => .number num

def isPort (num : Nat) : Prop := num ≤ 65535

def FieldKind.Valid : (kind : FieldKind) → kind.Value → Prop
  | .port, num => isPort num
  | _, _ => True

/-- The words of the nonterminal 'primitive': a field, an operator and a value of the kind
the field requires. -/
inductive PrimitiveWord : List Token → Cmp → Prop where
  | cmp (n : Cmp) : n.field.kind.Valid n.value →
      PrimitiveWord [.field n.field, cmpToken n.cmp, valueToken n.field.kind n.value] n

def IsExpr (ts : List Token) (e : Expr Cmp) : Prop :=
  Derives Token.shape PrimitiveWord .or ts e

theorem portValue_ok {t : Token} {num : Nat} :
    portValue t = .ok num ↔ t = .number num ∧ num ≤ 65535 := by
  cases t with
  | number k =>
    by_cases hk : k > 65535
    · simp only [portValue, if_pos hk, Token.number.injEq]
      constructor
      · simp
      · rintro ⟨rfl, hle⟩
        omega
    · have hmod : k % 2 ^ 16 = k := Nat.mod_eq_of_lt (by omega)
      simp only [portValue, if_neg hk, hmod, Except.ok.injEq, Token.number.injEq]
      constructor
      · rintro rfl
        exact ⟨rfl, by omega⟩
      · exact fun h => h.1
  | _ => simp [portValue]

theorem tokenValue_ok {t : Token} {kind : FieldKind} {v : kind.Value} :
    tokenValue t kind = .ok v ↔ t = valueToken kind v ∧ kind.Valid v := by
  cases kind with
  | port => exact @portValue_ok t v
  | mac | ipv4 | ipv6 =>
    constructor
    · intro h
      cases t <;> cases h
      exact ⟨rfl, trivial⟩
    · rintro ⟨rfl, -⟩
      rfl

def cmpOf : Token → Option CmpOp
  | .eq => some .eq
  | .ne => some .ne
  | _ => none

def readPrimitive : List Token → Option (Cmp × List Token)
  | .field field :: op :: val :: r =>
    match cmpOf op, tokenValue val field.kind with
    | some cmp, .ok value => some (⟨field, cmp, value⟩, r)
    | _, _ => none
  | _ => none

theorem cmpOf_some {t : Token} {cmp : CmpOp} : cmpOf t = some cmp ↔ t = cmpToken cmp := by
  cases cmp <;> cases t <;> simp [cmpOf, cmpToken]

theorem primSpec : PrimSpec Token.shape PrimitiveWord readPrimitive where
  sound := by
    intro ts n r h
    unfold readPrimitive at h
    split at h
    · rename_i field op val rest
      split at h
      · rename_i cmp value hop hval
        cases h
        obtain ⟨rfl, hvalid⟩ := tokenValue_ok.mp hval
        rw [cmpOf_some.mp hop]
        exact ⟨_, rfl, .cmp ⟨field, cmp, value⟩ hvalid⟩
      · cases h
    · cases h
  complete := by
    intro used n h r
    cases h with
    | cmp n hvalid =>
      have hval := tokenValue_ok.mpr ⟨rfl, hvalid⟩
      have hop := cmpOf_some.mpr (rfl : cmpToken n.cmp = cmpToken n.cmp)
      simp only [List.cons_append, List.nil_append, readPrimitive, hop, hval]
  head := by
    intro used n h
    cases h with
    | cmp n hvalid => exact ⟨_, _, rfl, by simp [Token.shape], by simp [Token.shape]⟩

/-! parse_primitive is the reader. -/

/-- Filling in the value after mk_node is making the filled node. -/
theorem mkNode_fill (p : Parser Token) (a b : Cmp) :
    (if (mkNode p (.leaf a)).1.isNull then (.null, (mkNode p (.leaf a)).2)
      else (.leaf b, (mkNode p (.leaf a)).2)) = mkNode p (.leaf b) := by
  unfold mkNode
  split_ifs <;> simp_all [Node.isNull]

theorem parseValue_ok {field : Field} {cmp : CmpOp} {q q' : Parser Token} {t : Token}
    {v : field.kind.Value} (hadv : pAdvance q = some (t, q'))
    (hval : tokenValue t field.kind = .ok v) :
    parseValue field cmp q = some (mkNode q' (.leaf ⟨field, cmp, v⟩)) := by
  rw [← mkNode_fill q' ⟨field, cmp, field.kind.zero⟩]
  by_cases hn : (mkNode q' (.leaf (⟨field, cmp, field.kind.zero⟩ : Cmp))).1.isNull = true
  · simp [parseValue, hadv, hn]
  · simp [parseValue, hadv, hn, hval]

theorem parseValue_error {field : Field} (cmp : CmpOp) {p q q' : Parser Token} {n : Nat}
    {t : Token} {msg : String} (hadv : pAdvance q = some (t, q')) (ha : Advances p n q')
    (hval : tokenValue t field.kind = .error msg) :
    ∃ r, parseValue field cmp q = some (.null, r) ∧ Advances p n r ∧ r.c.failed = true := by
  by_cases hn : (mkNode q' (.leaf (⟨field, cmp, field.kind.zero⟩ : Cmp))).1.isNull = true
  · exact ⟨_, by simp [parseValue, hadv, hn], ha.mkNode _, mkNode_null rfl hn⟩
  · exact ⟨_, by simp [parseValue, hadv, hn, hval]; rfl, (ha.mkNode _).fail msg,
      Ctx.fail_failed _ msg⟩

theorem parseValue_simulates {field : Field} {cmp : CmpOp} {p q : Parser Token} {op : Token}
    {us : List Token} {f : Parser Token → Option (Ast × Parser Token)}
    (hop : cmpOf op = some cmp) (ha : Advances p (.field field :: op :: us).length q)
    (hleft : Remaining q.c us) (hcount : q.count = p.count) (hfailed : q.c.failed = p.c.failed)
    (hf : f p = parseValue field cmp q) :
    Simulates .leaf f (readPrim readPrimitive) p (.field field :: op :: us) := by
  obtain ⟨rfl, e, he, hadv⟩ | ⟨t, vs, rfl, hadv, hleft', -, ha'⟩ :=
    ha.advance hleft (by simp only [List.length_cons]; omega)
  · obtain rfl : e = .tokEnd := of_decide_eq_true he
    have hval : ∃ msg, tokenValue .tokEnd field.kind = .error msg := by
      cases field.kind <;> exact ⟨_, rfl⟩
    obtain ⟨msg, hval⟩ := hval
    obtain ⟨r, hr, har, hbad⟩ := parseValue_error cmp hadv ha hval
    exact .of_failed (hf.trans hr) har hbad rfl
  · cases hval : tokenValue t field.kind with
    | ok v =>
      refine .of_builds (a := (⟨field, cmp, v⟩ : Cmp)) (hf.trans (parseValue_ok hadv hval))
        (Builds.leaf _) ha' hcount hfailed ?_ hleft'
      simp [readPrim, readPrimitive, hop, hval]
    | error msg =>
      obtain ⟨r, hr, har, hbad⟩ := parseValue_error cmp hadv ha' hval
      refine .of_failed (hf.trans hr) har hbad ?_
      simp [readPrim, readPrimitive, hop, hval]

theorem parsePrimitive_simulates (p : Parser Token) (ts : List Token) (h : Remaining p.c ts) :
    Simulates .leaf parsePrimitive (readPrim readPrimitive) p ts := by
  obtain ⟨rfl, e, he, hadv⟩ | ⟨t, us, rfl, hadv, hleft, hle, ha⟩ :=
    (Advances.self h).advance h (Nat.le_refl _)
  · obtain rfl : e = .tokEnd := of_decide_eq_true he
    exact .of_fail (by simp [parsePrimitive, hadv]; rfl) (Advances.self h) rfl
  cases t with
  | field field =>
    obtain ⟨rfl, e, he, hadv'⟩ | ⟨op, vs, rfl, hadv', hleft', -, ha'⟩ := ha.advance hleft hle
    · obtain rfl : e = .tokEnd := of_decide_eq_true he
      exact .of_fail (by simp [parsePrimitive, hadv, hadv']; rfl) ha rfl
    cases op with
    | eq =>
      exact parseValue_simulates rfl ha' hleft' rfl rfl (by simp [parsePrimitive, hadv, hadv'])
    | ne =>
      exact parseValue_simulates rfl ha' hleft' rfl rfl (by simp [parsePrimitive, hadv, hadv'])
    | _ =>
      refine .of_fail (by simp [parsePrimitive, hadv, hadv']; rfl) ha' ?_
      cases vs <;> rfl
  | _ => exact .of_fail (by simp [parsePrimitive, hadv]; rfl) ha rfl

def ast (e : Expr Cmp) : Ast := Node.ofExpr .leaf e

/-- Every node of the AST has a token of its own. -/
theorem nodes_le_tokens {lvl : Level} {ts : List Token} {e : Expr Cmp}
    (h : Derives Token.shape PrimitiveWord lvl ts e) : (ast e).nodes ≤ ts.length := by
  induction h with
  | prim hw =>
    cases hw
    simp [ast, Node.ofExpr, Node.nodes]
  | neg _ _ ih =>
    simp only [ast, Node.ofExpr, Node.nodes, List.length_cons] at *
    omega
  | paren _ _ _ ih =>
    simp only [List.length_cons, List.length_append]
    omega
  | ofNot _ ih => exact ih
  | ofAnd _ ih => exact ih
  | andSnoc _ _ _ ihl ihr | orSnoc _ _ _ ihl ihr =>
    simp only [ast, Node.ofExpr, Node.nodes, List.length_append, List.length_cons] at *
    omega

/-- The parser stage returns on every token sequence, and succeeds exactly on the
expressions whose AST the arena can hold. -/
theorem dfParse_spec {c : Ctx Token} {ts : List Token} (h : Remaining c ts)
    (hok : c.failed = false) :
    ∃ root q, dfParse c = some (root, q) ∧ c.Evolves q.c ∧
      (∀ e, IsExpr ts e → (ast e).nodes ≤ maxNodes → q.c.failed = false) ∧
      (q.c.failed = false → ∃ e, IsExpr ts e ∧ (ast e).nodes ≤ maxNodes ∧ root = ast e) :=
  parseStage_spec primSpec parsePrimitive_simulates { c := c, count := 0, cap := maxNodes } ts
    h hok rfl

end MyWireshark.DispFilter
