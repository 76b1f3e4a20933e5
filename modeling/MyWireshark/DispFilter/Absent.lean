import MyWireshark.Dissect.Printer
import MyWireshark.DispFilter.Correct

/-! Filters whose layers the packet does not carry. A comparison with '==' is false there,
but '!=' is computed as the negation of '==' and is true. -/
namespace MyWireshark.DispFilter
open MyWireshark.Filter BoolGrammar

def Absent (e : Expr Cmp) (f : Fields) : Prop := ∀ n ∈ e.prims, n.field.present f = false

instance (e : Expr Cmp) (f : Fields) : Decidable (Absent e f) :=
  inferInstanceAs (Decidable (∀ n ∈ e.prims, _))

/-- The expression with false for each '==' and true for each '!='. -/
def blindVerdict (e : Expr Cmp) : Bool := e.eval fun n => decide (n.cmp = .ne)

theorem holds_absent {n : Cmp} {f : Fields} (h : n.field.present f = false) :
    n.holds f = decide (n.cmp = .ne) := by
  obtain ⟨field, cmp, value⟩ := n
  cases cmp <;> simp [Cmp.holds, h]

theorem eval_absent {e : Expr Cmp} {f : Fields} (h : Absent e f) :
    e.eval (Cmp.holds f) = blindVerdict e :=
  e.eval_congr fun n hn => holds_absent (h n hn)

theorem blindVerdict_eq {e : Expr Cmp} (hfree : e.negFree = true)
    (heq : ∀ n ∈ e.prims, n.cmp = .eq) : blindVerdict e = false :=
  Expr.eval_eq_false hfree fun n hn => by simp [heq n hn]

theorem isEmpty_of_isExpr {expr : List Char} {e : Expr Cmp} (he : IsExpr (tokens expr) e) :
    isEmpty expr = false := by
  cases expr with
  | nil => exact absurd (by simp [tokens, tokenize]) (he.ne_nil primSpec)
  | cons ch rest =>
    refine decide_eq_false fun hz : ch = '\x00' => he.ne_nil primSpec ?_
    simp [tokens, tokenize, hz]

/-- On a record without any layer it mentions, a filter without 'not' matches nothing
exactly when it is false with every '!=' taken for true; so it does when all of its
comparisons are '=='. -/
theorem absent_layers_never_match_iff {expr : List Char} {errNull : Bool} {errLen : Int}
    {mallocFilter mallocNodes : Bool} {r : CompileResult} {filter : Dispfilter} {e : Expr Cmp}
    {f : Fields}
    (h : dispfilterCompile (some expr) errNull errLen mallocFilter mallocNodes = some r)
    (hr : r.filter = some filter) (he : IsExpr (tokens expr) e) (hfree : e.negFree = true)
    (habsent : Absent e f) :
    (dispfilterMatches (some filter) f = some false ↔ blindVerdict e = false) ∧
      ((∀ n ∈ e.prims, n.cmp = .eq) → dispfilterMatches (some filter) f = some false) := by
  obtain ⟨e', he', hroot⟩ := compiled_tree (isEmpty_of_isExpr he) h hr
  obtain rfl : e' = e := he'.unique primSpec he
  have hverdict : dispfilterMatches (some filter) f = some (blindVerdict e') := by
    rw [matches_tree hroot, eval_absent habsent]
  refine ⟨by rw [hverdict, Option.some.injEq], fun heq => ?_⟩
  rw [hverdict, blindVerdict_eq hfree heq]

theorem absent_layers_never_match_iff_both :
    let text := "tcp.port == 80 and ip.src != 10.0.0.1".toList
    ∃ r filter, dispfilterCompile (some text) true 0 true true = some r ∧ r.filter = some filter ∧
      dispfilterMatches (some filter) Dissect.zeroFields = some false := by
  intro text
  have hcompiled :
      (dispfilterCompile (some text) true 0 true true).any (·.filter.isSome) = true := by
    decide +kernel
  obtain ⟨r, hr, hfilter⟩ := (Option.any_eq_true _ _).mp hcompiled
  obtain ⟨filter, hfilter⟩ := Option.isSome_iff_exists.mp hfilter
  let port : Cmp := ⟨.tcpPort, .eq, (80 : Nat)⟩
  let src : Cmp := ⟨.ipSrc, .ne, #v[10, 0, 0, 1]⟩
  have htok : tokens text = [.field .tcpPort, .eq, .number 80] ++
      .and :: [.field .ipSrc, .ne, .ipv4 #v[10, 0, 0, 1]] := by
    decide +kernel
  have he : IsExpr (tokens text) (.conj (.prim port) (.prim src)) := by
    rw [htok]
    exact .ofAnd (.andSnoc (.ofNot (.prim (.cmp port (by decide : 80 ≤ 65535)))) rfl
      (.prim (.cmp src trivial)))
  exact ⟨r, filter, hr, hfilter,
    (absent_layers_never_match_iff hr hfilter he rfl (by decide)).1.mpr rfl⟩

theorem absent_layer_matches_ne :
    Dissect.zeroFields.hasTcp = 0 ∧
      (dispfilterCompile (some "tcp.port != 80".toList) true 0 true true).bind
        (fun r => dispfilterMatches r.filter Dissect.zeroFields) = some true := by
  decide +kernel

end MyWireshark.DispFilter
