import MyWireshark.CapFilter.Parser
import MyWireshark.Filter.Descent
import MyWireshark.Filter.Lexing

/-! The language of capfilter.h: its primitives as words, the tree each of them stands
for, and parse_primitive as a reader of those words. -/
namespace MyWireshark.CapFilter
open MyWireshark.Filter BoolGrammar

/-- The primitives as the header lists them; `none` is a missing 'src'/'dst'. -/
inductive Primitive where
  | tcp | udp | icmp | ip | ip6 | arp
  | host (dir : Option Dir) (addr : Ipv4Addr)
  | port (dir : Option Dir) (num : Nat)
  | net (dir : Option Dir) (addr : Ipv4Addr) (prefixLen : Nat)
  deriving DecidableEq

def dirWord : Option Dir → List Token
  | none => []
  | some .src => [.src]
  | some .dst => [.dst]

inductive PrimitiveWord : List Token → Primitive → Prop where
  | tcp : PrimitiveWord [.protoTcp] .tcp
  | udp : PrimitiveWord [.protoUdp] .udp
  | icmp : PrimitiveWord [.protoIcmp] .icmp
  | ip : PrimitiveWord [.protoIp] .ip
  | ip6 : PrimitiveWord [.protoIp6] .ip6
  | arp : PrimitiveWord [.protoArp] .arp
  | host (dir a) : PrimitiveWord (dirWord dir ++ [.host, .ipv4 a]) (.host dir a)
  | port (dir n) : n ≤ 65535 → PrimitiveWord (dirWord dir ++ [.port, .number n]) (.port dir n)
  | net (dir a n) : n ≤ 32 →
      PrimitiveWord (dirWord dir ++ [.net, .ipv4 a, .slash, .number n]) (.net dir a n)

def IsExpr (ts : List Token) (e : Expr Primitive) : Prop :=
  Derives Token.shape PrimitiveWord .or ts e

def onSides (f : Dir → Leaf) : Option Dir → Ast
  | some dir => .leaf (f dir)
  | none => .or (.leaf (f .src)) (.leaf (f .dst))

/-- Every primitive but 'ip', 'ip6' and 'arp' also asks for the IPv4 ethertype. -/
def underIpv4 (n : Ast) : Ast := .and (.leaf (.ethertype ethertypeIpv4)) n

def desugar : Primitive → Ast
  | .tcp => underIpv4 (.leaf (.ipproto ipprotoTcp))
  | .udp => underIpv4 (.leaf (.ipproto ipprotoUdp))
  | .icmp => underIpv4 (.leaf (.ipproto ipprotoIcmp))
  | .ip => .leaf (.ethertype ethertypeIpv4)
  | .ip6 => .leaf (.ethertype ethertypeIpv6)
  | .arp => .leaf (.ethertype ethertypeArp)
  | .host dir addr => underIpv4 (onSides (.host · addr) dir)
  | .port dir num => underIpv4
      (.and (.or (.leaf (.ipproto ipprotoTcp)) (.leaf (.ipproto ipprotoUdp)))
        (onSides (.port · num) dir))
  | .net dir addr prefixLen => underIpv4 (onSides (.net · addr prefixLen) dir)

def ast (e : Expr Primitive) : Ast := Node.ofExpr desugar e

/-! A reader for the primitives. -/

def readSided (dir : Option Dir) : List Token → Option (Primitive × List Token)
  | .host :: .ipv4 a :: r => some (.host dir a, r)
  | .port :: .number n :: r => if n ≤ 65535 then some (.port dir n, r) else none
  | .net :: .ipv4 a :: .slash :: .number n :: r =>
    if n ≤ 32 then some (.net dir a n, r) else none
  | _ => none

def readPrimitive : List Token → Option (Primitive × List Token)
  | .src :: r => readSided (some .src) r
  | .dst :: r => readSided (some .dst) r
  | .protoTcp :: r => some (.tcp, r)
  | .protoUdp :: r => some (.udp, r)
  | .protoIcmp :: r => some (.icmp, r)
  | .protoIp :: r => some (.ip, r)
  | .protoIp6 :: r => some (.ip6, r)
  | .protoArp :: r => some (.arp, r)
  | ts => readSided none ts

theorem readSided_sound {dir : Option Dir} {ts r : List Token} {a : Primitive}
    (h : readSided dir ts = some (a, r)) :
    ∃ used, ts = used ++ r ∧ PrimitiveWord (dirWord dir ++ used) a := by
  unfold readSided at h
  split at h
  · rename_i addr r'
    cases h
    exact ⟨[.host, .ipv4 addr], rfl, .host dir addr⟩
  · rename_i n r'
    split_ifs at h with hn
    cases h
    exact ⟨[.port, .number n], rfl, .port dir n hn⟩
  · rename_i addr n r'
    split_ifs at h with hn
    cases h
    exact ⟨[.net, .ipv4 addr, .slash, .number n], rfl, .net dir addr n hn⟩
  · cases h

theorem readPrimitive_sided (dir : Option Dir) {t : Token} (us : List Token)
    (h : t = .host ∨ t = .port ∨ t = .net) :
    readPrimitive (dirWord dir ++ t :: us) = readSided dir (t :: us) := by
  rcases h with rfl | rfl | rfl <;> rcases dir with _ | _ | _ <;> rfl

theorem primSpec : PrimSpec Token.shape PrimitiveWord readPrimitive where
  sound := by
    intro ts a r h
    unfold readPrimitive at h
    split at h
    · rename_i us
      obtain ⟨used, rfl, hw⟩ := readSided_sound h
      exact ⟨.src :: used, rfl, hw⟩
    · rename_i us
      obtain ⟨used, rfl, hw⟩ := readSided_sound h
      exact ⟨.dst :: used, rfl, hw⟩
    · cases h; exact ⟨_, rfl, .tcp⟩
    · cases h; exact ⟨_, rfl, .udp⟩
    · cases h; exact ⟨_, rfl, .icmp⟩
    · cases h; exact ⟨_, rfl, .ip⟩
    · cases h; exact ⟨_, rfl, .ip6⟩
    · cases h; exact ⟨_, rfl, .arp⟩
    · exact readSided_sound h
  complete := by
    intro used a h r
    cases h with
    | tcp | udp | icmp | ip | ip6 | arp => rfl
    | host dir a =>
      rw [List.append_assoc, List.cons_append, readPrimitive_sided dir _ (by simp)]
      rfl
    | port dir n hn =>
      rw [List.append_assoc, List.cons_append, readPrimitive_sided dir _ (by simp)]
      simp [readSided, hn]
    | net dir a n hn =>
      rw [List.append_assoc, List.cons_append, readPrimitive_sided dir _ (by simp)]
      simp [readSided, hn]
  head := by
    intro used a h
    cases h with
    | tcp | udp | icmp | ip | ip6 | arp => exact ⟨_, [], rfl, by decide, by decide⟩
    | host dir | port dir | net dir =>
      rcases dir with _ | _ | _ <;> exact ⟨_, _, rfl, by decide, by decide⟩

/-! What the mk functions build. -/

theorem builds_leaf (b : Leaf) : Builds (fun p : Parser Token => mkNode p (.leaf b)) (.leaf b) :=
  Builds.leaf b

theorem builds_sides (f : Dir → Leaf) (dir : Option Dir) :
    Builds (mkSides (fun p dir => mkNode p (.leaf (f dir))) dir) (onSides f dir) := by
  cases dir with
  | some dir => exact builds_leaf (f dir)
  | none => exact Builds.pair .or rfl (builds_leaf (f .src)) (builds_leaf (f .dst))

theorem builds_underIpv4 {f : Parser Token → Made} {n : Ast} (h : Builds f n) :
    Builds (fun p =>
      mkAnd (f (mkEthertype p ethertypeIpv4).2).2 (mkEthertype p ethertypeIpv4).1
        (f (mkEthertype p ethertypeIpv4).2).1) (underIpv4 n) :=
  Builds.pair .and rfl (builds_leaf (.ethertype ethertypeIpv4)) h

theorem builds_tcpOrUdp : Builds mkTcpOrUdp
    (.or (.leaf (.ipproto ipprotoTcp)) (.leaf (.ipproto ipprotoUdp))) :=
  Builds.pair .or rfl (builds_leaf _) (builds_leaf _)

/-! parse_primitive is the reader. -/

theorem pAdvance_cases {p q : Parser Token} {n : Nat} {us : List Token} (h : Advances p n q)
    (hleft : Remaining q.c us) (hle : us.length ≤ n) :
    (us = [] ∧ pAdvance q = some (.tokEnd, q)) ∨
      ∃ t vs, us = t :: vs ∧ pAdvance q = some (t, q.next) ∧ Remaining q.next.c vs ∧
        vs.length ≤ n ∧ Advances p n q.next := by
  obtain ⟨hnil, e, he, hadv⟩ | hcons := h.advance hleft hle
  · obtain rfl : e = .tokEnd := of_decide_eq_true he
    exact Or.inl ⟨hnil, hadv⟩
  · exact Or.inr hcons

structure AtKeyword (p : Parser Token) (dir : Option Dir) (q : Parser Token) (t : Token)
    (us : List Token) : Prop where
  advances : Advances p (dirWord dir ++ t :: us).length q
  left : Remaining q.c (t :: us)
  count : q.count = p.count
  failed : q.c.failed = p.c.failed

theorem AtKeyword.next {p q : Parser Token} {dir : Option Dir} {t : Token} {us : List Token}
    (h : AtKeyword p dir q t us) :
    pAdvance q = some (t, q.next) ∧ Remaining q.next.c us ∧
      us.length ≤ (dirWord dir ++ t :: us).length ∧
      Advances p (dirWord dir ++ t :: us).length q.next := by
  obtain ⟨hadv, hleft⟩ := pAdvance_cons h.left
  have hle : us.length ≤ (dirWord dir ++ t :: us).length := by
    simp only [List.length_append, List.length_cons]
    omega
  exact ⟨hadv, hleft, hle, h.advances.trans (Advances.step h.left) hle⟩

variable {p q : Parser Token} {dir : Option Dir} {us : List Token}
  {f : Parser Token → Option Made}

theorem parseHost_simulates (h : AtKeyword p dir q .host us) (hf : f p = parseHost dir q) :
    Simulates desugar f (readPrim readPrimitive) p (dirWord dir ++ .host :: us) := by
  have hread := readPrimitive_sided dir us (t := .host) (by simp)
  obtain ⟨hadv, hleft, hle, ha⟩ := h.next
  obtain ⟨rfl, hadv'⟩ | ⟨t, vs, rfl, hadv', hleft', -, ha'⟩ := pAdvance_cases ha hleft hle
  · exact .of_fail (by rw [hf]; simp [parseHost, hadv, hadv']; rfl) ha
      (by simp [readPrim, hread, readSided])
  · cases t with
    | ipv4 addr =>
      refine .of_builds (a := .host dir addr) (hf.trans ?_)
        (builds_underIpv4 (builds_sides (.host · addr) dir)) ha' h.count h.failed
        (by simp [readPrim, hread, readSided]) hleft'
      simp [parseHost, hadv, hadv']
      rfl
    | _ =>
      exact .of_fail (by rw [hf]; simp [parseHost, hadv, hadv']; rfl) ha'
        (by simp [readPrim, hread, readSided])

theorem parsePort_simulates (h : AtKeyword p dir q .port us) (hf : f p = parsePort dir q) :
    Simulates desugar f (readPrim readPrimitive) p (dirWord dir ++ .port :: us) := by
  have hread := readPrimitive_sided dir us (t := .port) (by simp)
  obtain ⟨hadv, hleft, hle, ha⟩ := h.next
  obtain ⟨rfl, hadv'⟩ | ⟨t, vs, rfl, hadv', hleft', -, ha'⟩ := pAdvance_cases ha hleft hle
  · exact .of_fail (by rw [hf]; simp [parsePort, hadv, hadv']; rfl) ha
      (by simp [readPrim, hread, readSided])
  · cases t with
    | number num =>
      by_cases hn : num ≤ 65535
      · refine .of_builds (a := .port dir num) (hf.trans ?_)
          (builds_underIpv4
            (Builds.pair .and rfl builds_tcpOrUdp (builds_sides (.port · num) dir)))
          ha' h.count h.failed (by simp [readPrim, hread, readSided, hn]) hleft'
        simp [parsePort, hadv, hadv', Nat.not_lt.mpr hn]
        rfl
      · exact .of_fail (by rw [hf]; simp [parsePort, hadv, hadv', Nat.not_le.mp hn]; rfl) ha'
          (by simp [readPrim, hread, readSided, hn])
    | _ =>
      exact .of_fail (by rw [hf]; simp [parsePort, hadv, hadv']; rfl) ha'
        (by simp [readPrim, hread, readSided])

theorem parsePrefixLen_simulates {n : Nat} {addr : Ipv4Addr} (ha : Advances p n q)
    (hn : n = (dirWord dir ++ .net :: .ipv4 addr :: us).length) (hleft : Remaining q.c us)
    (hcount : q.count = p.count) (hfailed : q.c.failed = p.c.failed)
    (hf : f p = parsePrefixLen dir addr q) :
    Simulates desugar f (readPrim readPrimitive) p (dirWord dir ++ .net :: .ipv4 addr :: us) := by
  have hread := readPrimitive_sided dir (.ipv4 addr :: us) (t := .net) (by simp)
  have hle : us.length ≤ n := by
    rw [hn, List.length_append, List.length_cons, List.length_cons]
    omega
  subst hn
  obtain ⟨rfl, hadv⟩ | ⟨t, vs, rfl, hadv, hleft', hle', ha'⟩ := pAdvance_cases ha hleft hle
  · exact .of_fail (by rw [hf]; simp [parsePrefixLen, hadv]; rfl) ha
      (by simp [readPrim, hread, readSided])
  by_cases ht : t = .slash
  · subst ht
    obtain ⟨rfl, hadv'⟩ | ⟨t, ws, rfl, hadv', hleft'', -, ha''⟩ := pAdvance_cases ha' hleft' hle'
    · exact .of_fail (by rw [hf]; simp [parsePrefixLen, hadv, hadv']; rfl) ha'
        (by simp [readPrim, hread, readSided])
    cases t with
    | number num =>
      by_cases hnum : num ≤ 32
      · have hmod : num % 256 = num := Nat.mod_eq_of_lt (by omega)
        refine .of_builds (a := .net dir addr num) (hf.trans ?_)
          (builds_underIpv4 (builds_sides (.net · addr num) dir)) ha'' hcount hfailed
          (by simp [readPrim, hread, readSided, hnum]) hleft''
        simp [parsePrefixLen, hadv, hadv', Nat.not_lt.mpr hnum, hmod]
        rfl
      · exact .of_fail
          (by rw [hf]; simp [parsePrefixLen, hadv, hadv', Nat.not_le.mp hnum]; rfl) ha''
          (by simp [readPrim, hread, readSided, hnum])
    | _ =>
      exact .of_fail (by rw [hf]; simp [parsePrefixLen, hadv, hadv']; rfl) ha''
        (by simp [readPrim, hread, readSided])
  · refine .of_fail (by rw [hf]; simp [parsePrefixLen, hadv, ht]; rfl) ha' ?_
    rw [readPrim, hread, readSided.eq_4]
    · rfl
    all_goals simp [ht]

theorem parseNet_simulates (h : AtKeyword p dir q .net us) (hf : f p = parseNet dir q) :
    Simulates desugar f (readPrim readPrimitive) p (dirWord dir ++ .net :: us) := by
  have hread := readPrimitive_sided dir us (t := .net) (by simp)
  obtain ⟨hadv, hleft, hle, ha⟩ := h.next
  obtain ⟨rfl, hadv'⟩ | ⟨t, vs, rfl, hadv', hleft', -, ha'⟩ := pAdvance_cases ha hleft hle
  · exact .of_fail (by rw [hf]; simp [parseNet, hadv, hadv']; rfl) ha
      (by simp [readPrim, hread, readSided])
  · cases t with
    | ipv4 addr =>
      exact parsePrefixLen_simulates ha' rfl hleft' h.count h.failed
        (by rw [hf]; simp [parseNet, hadv, hadv'])
    | _ =>
      exact .of_fail (by rw [hf]; simp [parseNet, hadv, hadv']; rfl) ha'
        (by simp [readPrim, hread, readSided])

theorem proto_simulates {t : Token} {a : Primitive} {build : Parser Token → Made}
    (h : AtKeyword p none q t us) (hread : readPrimitive (t :: us) = some (a, us))
    (hb : Builds build (desugar a)) (hf : f p = (pAdvance q).bind fun r => some (build r.2)) :
    Simulates desugar f (readPrim readPrimitive) p (t :: us) := by
  obtain ⟨hadv, hleft, -, ha⟩ := h.next
  refine .of_builds (by rw [hf, hadv]; rfl) hb ha h.count h.failed ?_ hleft
  rw [readPrim, hread]
  rfl

theorem keyword_simulates {t : Token} (h : AtKeyword p none q t us)
    (hdir : parseDir p = some (none, q)) (hsrc : t ≠ .src) (hdst : t ≠ .dst) :
    Simulates desugar parsePrimitive (readPrim readPrimitive) p (t :: us) := by
  have hpk := (pPeek_cons h.left).1
  have hl4 : ∀ k, Builds (mkL4Proto · k) (underIpv4 (.leaf (.ipproto k))) :=
    fun k => builds_underIpv4 (builds_leaf _)
  cases t with
  | host => exact parseHost_simulates h (by simp [parsePrimitive, hdir, hpk])
  | port => exact parsePort_simulates h (by simp [parsePrimitive, hdir, hpk])
  | net => exact parseNet_simulates h (by simp [parsePrimitive, hdir, hpk])
  | protoTcp =>
    exact proto_simulates (a := .tcp) h rfl (hl4 _) (by simp [parsePrimitive, hdir, hpk])
  | protoUdp =>
    exact proto_simulates (a := .udp) h rfl (hl4 _) (by simp [parsePrimitive, hdir, hpk])
  | protoIcmp =>
    exact proto_simulates (a := .icmp) h rfl (hl4 _) (by simp [parsePrimitive, hdir, hpk])
  | protoIp =>
    exact proto_simulates (a := .ip) h rfl (builds_leaf _)
      (by simp [parsePrimitive, hdir, hpk, mkEthertype])
  | protoIp6 =>
    exact proto_simulates (a := .ip6) h rfl (builds_leaf _)
      (by simp [parsePrimitive, hdir, hpk, mkEthertype])
  | protoArp =>
    exact proto_simulates (a := .arp) h rfl (builds_leaf _)
      (by simp [parsePrimitive, hdir, hpk, mkEthertype])
  | src => exact absurd rfl hsrc
  | dst => exact absurd rfl hdst
  | _ =>
    exact .of_fail (by simp [parsePrimitive, hdir, hpk]; rfl) h.advances
      (by simp [readPrim, readPrimitive, readSided])

/-- After a direction only 'host', 'port' and 'net' go on. -/
theorem sided_simulates {d : Dir} (hdir : parseDir p = some (some d, q))
    (ha : Advances p (dirWord (some d) ++ us).length q) (hleft : Remaining q.c us)
    (hcount : q.count = p.count) (hfailed : q.c.failed = p.c.failed)
    (hread : ∀ us, readPrimitive (dirWord (some d) ++ us) = readSided (some d) us) :
    Simulates desugar parsePrimitive (readPrim readPrimitive) p (dirWord (some d) ++ us) := by
  cases us with
  | nil =>
    obtain ⟨e, hpk, he⟩ := pPeek_end hleft
    obtain rfl : e = .tokEnd := of_decide_eq_true he
    exact .of_fail (by simp [parsePrimitive, hdir, hpk]; rfl) ha
      (by rw [readPrim, hread]; rfl)
  | cons t us =>
    have hpk := (pPeek_cons hleft).1
    have hat : AtKeyword p (some d) q t us := ⟨ha, hleft, hcount, hfailed⟩
    cases t with
    | host => exact parseHost_simulates hat (by simp [parsePrimitive, hdir, hpk])
    | port => exact parsePort_simulates hat (by simp [parsePrimitive, hdir, hpk])
    | net => exact parseNet_simulates hat (by simp [parsePrimitive, hdir, hpk])
    | _ =>
      exact .of_fail (by simp [parsePrimitive, hdir, hpk]; rfl) ha
        (by rw [readPrim, hread]; rfl)

theorem parsePrimitive_simulates (p : Parser Token) (ts : List Token) (h : Remaining p.c ts) :
    Simulates desugar parsePrimitive (readPrim readPrimitive) p ts := by
  cases ts with
  | nil =>
    obtain ⟨e, hpk, he⟩ := pPeek_end h
    obtain rfl : e = .tokEnd := of_decide_eq_true he
    have hdir : parseDir p = some (none, p) := by simp [parseDir, hpk]
    exact .of_fail (by simp [parsePrimitive, hdir, hpk]; rfl) (Advances.self h) rfl
  | cons t us =>
    have hpk := (pPeek_cons h).1
    obtain ⟨hadv, hleft⟩ := pAdvance_cons h
    have hstep := (Advances.step h).mono (m := us.length + 1) (by omega)
    by_cases hsrc : t = .src
    · subst hsrc
      exact sided_simulates (d := .src) (by simp [parseDir, hpk, hadv]) hstep hleft rfl rfl
        fun _ => rfl
    by_cases hdst : t = .dst
    · subst hdst
      exact sided_simulates (d := .dst) (by simp [parseDir, hpk, hadv]) hstep hleft rfl rfl
        fun _ => rfl
    · exact keyword_simulates ⟨Advances.self h, h, rfl, rfl⟩
        (by simp [parseDir, hpk, hsrc, hdst]) hsrc hdst

/-! The parser stage. -/

theorem desugar_noNull (a : Primitive) : (desugar a).noNull = true := by
  cases a with
  | host dir | port dir | net dir => cases dir <;> rfl
  | _ => rfl

theorem ast_noNull (e : Expr Primitive) : (ast e).noNull = true := by
  induction e with
  | prim a => exact desugar_noNull a
  | neg e ih => exact ih
  | conj l r ihl ihr => exact Bool.and_eq_true_iff.mpr ⟨ihl, ihr⟩
  | disj l r ihl ihr => exact Bool.and_eq_true_iff.mpr ⟨ihl, ihr⟩

/-- The parser stage returns on every token sequence, and succeeds exactly on the
expressions whose AST the arena can hold. -/
theorem cfParse_spec {c : Ctx Token} {ts : List Token} (h : Remaining c ts)
    (hok : c.failed = false) :
    ∃ root q, cfParse c = some (root, q) ∧ c.Evolves q.c ∧
      (∀ e, IsExpr ts e → (ast e).nodes ≤ maxNodes → q.c.failed = false) ∧
      (q.c.failed = false → ∃ e, IsExpr ts e ∧ (ast e).nodes ≤ maxNodes ∧ root = ast e) :=
  parseStage_spec primSpec parsePrimitive_simulates { c := c, count := 0, cap := maxNodes } ts
    h hok rfl

end MyWireshark.CapFilter
