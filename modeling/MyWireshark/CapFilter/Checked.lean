import MyWireshark.CapFilter.Correct

/-! What the kernel checks of a classic BPF program before it attaches it, for the programs that
capfilter_compile returns, and that these programs stop on every packet. -/
namespace MyWireshark.CapFilter
open MyWireshark.Filter Bpf BoolGrammar ShortCircuit Machine

def Narrow (insns : List SockFilter) : Prop := ∀ f ∈ insns, f.jt ≤ 255 ∧ f.jf ≤ 255

/-! The code generator only ever writes bytes into the jump fields. -/

section
variable {g g' : CfGen} {outT outF : PatchList}

theorem Narrow.push (h : Narrow g.insns) {insn : SockFilter} {idx : Option Nat}
    (hinsn : insn.jt ≤ 255 ∧ insn.jf ≤ 255) (hpush : genPush g insn = (idx, g')) :
    Narrow g'.insns := by
  rw [genPush] at hpush
  split_ifs at hpush
  · obtain ⟨-, rfl⟩ := Prod.mk.inj hpush
    exact h
  · obtain ⟨-, rfl⟩ := Prod.mk.inj hpush
    intro f hf
    cases List.mem_append.mp hf with
    | inl hold => exact h f hold
    | inr hnew => rwa [List.mem_singleton.mp hnew]

theorem Narrow.pushAll {code : List SockFilter} (h : Narrow g.insns) (hcode : Narrow code)
    {ok : Bool} (hpush : pushAll g code = (ok, g')) : Narrow g'.insns := by
  induction code generalizing g with
  | nil =>
    obtain ⟨-, rfl⟩ := Prod.mk.inj hpush
    exact h
  | cons insn code ih =>
    have hinsn := hcode insn List.mem_cons_self
    rw [CapFilter.pushAll] at hpush
    cases hfirst : genPush g insn with
    | mk idx g₁ =>
      have hnarrow := h.push hinsn hfirst
      rw [hfirst] at hpush
      cases idx with
      | none =>
        obtain ⟨-, rfl⟩ := Prod.mk.inj hpush
        exact hnarrow
      | some idx => exact ih hnarrow (fun f hf => hcode f (List.mem_cons_of_mem insn hf)) hpush

theorem Narrow.modify {insns : List SockFilter} (h : Narrow insns) (idx : Nat) (isJt : Bool)
    {offset : Nat} (hoffset : offset ≤ 255) : Narrow (insns.modify idx (setJump isJt offset)) := by
  intro f hf
  obtain ⟨i, hi⟩ := List.mem_iff_getElem?.mp hf
  rw [List.getElem?_modify] at hi
  obtain ⟨old, hold, rfl⟩ := Option.map_eq_some_iff.mp hi
  have hnarrow := h old (List.mem_of_getElem? hold)
  cases isJt <;> by_cases hidx : idx = i <;> simp [setJump, hidx, hnarrow, hoffset]

theorem Narrow.resolve (h : Narrow g.insns) {pl : PatchList} {t : Nat}
    (hres : plResolve g pl t = some g') : Narrow g'.insns := by
  induction pl generalizing g with
  | nil =>
    obtain rfl := Option.some.inj hres
    exact h
  | cons entry pl ih =>
    obtain ⟨idx, isJt⟩ := entry
    rw [plResolve] at hres
    split_ifs at hres with hrange hidx
    · obtain rfl := Option.some.inj hres
      exact h
    · exact ih (h.modify idx isJt (Nat.le_of_lt_succ (Nat.mod_lt _ (by decide)))) hres

theorem narrow_leafLoads (b : Leaf) : Narrow (leafLoads b) := by
  cases b <;> simp [Narrow, leafLoads]

theorem Narrow.emitLeaf (h : Narrow g.insns) {b : Leaf} {e : Emitted}
    (hemit : emitLeaf g (leafLoads b) (leafKey b) outT outF = some e) : Narrow e.g.insns := by
  rw [CapFilter.emitLeaf] at hemit
  cases hloads : CapFilter.pushAll g (leafLoads b) with
  | mk ok g₁ =>
    have h₁ := h.pushAll (narrow_leafLoads b) hloads
    rw [hloads] at hemit
    cases ok with
    | false =>
      obtain rfl := Option.some.inj hemit
      exact h₁
    | true =>
      cases htest : genPush g₁ ⟨bpfJmp ||| bpfJeq ||| bpfK, 0, 0, leafKey b⟩ with
      | mk idx g₂ =>
        have h₂ := h₁.push (by simp) htest
        simp only [htest] at hemit
        cases idx with
        | none =>
          obtain rfl := Option.some.inj hemit
          exact h₂
        | some idx =>
          obtain ⟨pl, -, hrest⟩ := Option.bind_eq_some_iff.mp hemit
          obtain ⟨pl', -, hlast⟩ := Option.bind_eq_some_iff.mp hrest
          obtain rfl := Option.some.inj hlast
          exact h₂

def operandsGen : CfGen ⊕ Emitted × Emitted → CfGen
  | .inl g => g
  | .inr (_, right) => right.g

theorem Narrow.operands {w : Bool} {l r : Ast} {x : CfGen ⊕ Emitted × Emitted}
    (hl : ∀ e, compileNode g l [] [] = some e → Narrow e.g.insns)
    (hr : ∀ g' : CfGen, Narrow g'.insns → ∀ e, compileNode g' r [] [] = some e →
      Narrow e.g.insns)
    (hx : compileOperands w g l r = some x) : Narrow (operandsGen x).insns := by
  obtain ⟨left, hleft, hx⟩ := Option.bind_eq_some_iff.mp hx
  by_cases hok : (!left.ok) = true
  · rw [if_pos hok] at hx
    obtain rfl := Option.some.inj hx
    exact hl left hleft
  · rw [if_neg hok] at hx
    obtain ⟨mid, hmid, hx⟩ := Option.bind_eq_some_iff.mp hx
    have hnarrow : Narrow mid.insns := (hl left hleft).resolve hmid
    by_cases hfailed : mid.c.failed = true
    · rw [if_pos hfailed] at hx
      obtain rfl := Option.some.inj hx
      exact hnarrow
    · rw [if_neg hfailed] at hx
      obtain ⟨right, hright, hx⟩ := Option.bind_eq_some_iff.mp hx
      have hlast := hr mid hnarrow right hright
      split_ifs at hx with hok'
      · obtain rfl := Option.some.inj hx
        exact hlast
      · obtain rfl := Option.some.inj hx
        exact hlast

theorem Narrow.running {n : Ast} {e : Emitted} (h : Narrow g.insns)
    (hrun : g.c.failed = false → compileNode g n outT outF = some e → Narrow e.g.insns)
    (hnode : compileNode g n outT outF = some e) : Narrow e.g.insns := by
  cases hfailed : g.c.failed with
  | false => exact hrun hfailed hnode
  | true =>
    have hstop : compileNode g n outT outF = some ⟨false, g, outT, outF⟩ := by
      cases n <;> simp [compileNode, hfailed]
    obtain rfl := Option.some.inj (hstop.symm.trans hnode)
    exact h

theorem Narrow.compileNode {n : Ast} {e : Emitted} (h : Narrow g.insns)
    (hnode : compileNode g n outT outF = some e) : Narrow e.g.insns := by
  induction n generalizing g outT outF e with
  | null =>
    refine h.running (fun hok hnode => ?_) hnode
    simp [CapFilter.compileNode, hok] at hnode
  | leaf b =>
    refine h.running (fun hok hnode => ?_) hnode
    rw [CapFilter.compileNode, if_neg (by simp [hok]), compileLeaf_eq] at hnode
    exact h.emitLeaf hnode
  | not l ih =>
    refine h.running (fun hok hnode => ?_) hnode
    rw [CapFilter.compileNode, if_neg (by simp [hok])] at hnode
    obtain ⟨e', he', hlast⟩ := Option.bind_eq_some_iff.mp hnode
    obtain rfl := Option.some.inj hlast
    have hkept : Narrow e'.g.insns := ih h he'
    exact hkept
  | and l r ihl ihr =>
    refine h.running (fun hok hnode => ?_) hnode
    rw [compileNode_and hok] at hnode
    obtain ⟨x, hx, hlast⟩ := Option.bind_eq_some_iff.mp hnode
    have hops := Narrow.operands (fun _ => ihl h) (fun _ h' _ => ihr h') hx
    cases x with
    | inl g' =>
      obtain rfl := Option.some.inj hlast
      exact hops
    | inr lr =>
      -- filling the caller's lists leaves the instructions as they are
      obtain ⟨pl₁, -, hlast⟩ := Option.bind_eq_some_iff.mp hlast
      obtain ⟨pl₂, -, hlast⟩ := Option.bind_eq_some_iff.mp hlast
      obtain ⟨pl₃, -, hlast⟩ := Option.bind_eq_some_iff.mp hlast
      obtain rfl := Option.some.inj hlast
      exact hops
  | or l r ihl ihr =>
    refine h.running (fun hok hnode => ?_) hnode
    rw [compileNode_or hok] at hnode
    obtain ⟨x, hx, hlast⟩ := Option.bind_eq_some_iff.mp hnode
    have hops := Narrow.operands (fun _ => ihl h) (fun _ h' _ => ihr h') hx
    cases x with
    | inl g' =>
      obtain rfl := Option.some.inj hlast
      exact hops
    | inr lr =>
      -- filling the caller's lists leaves the instructions as they are
      obtain ⟨pl₁, -, hlast⟩ := Option.bind_eq_some_iff.mp hlast
      obtain ⟨pl₂, -, hlast⟩ := Option.bind_eq_some_iff.mp hlast
      obtain ⟨pl₃, -, hlast⟩ := Option.bind_eq_some_iff.mp hlast
      obtain rfl := Option.some.inj hlast
      exact hops

theorem Narrow.closeList (h : Narrow g.insns) {pl : PatchList} {k : Nat} {ok : Bool}
    (hclose : closeList g pl k = some (ok, g')) : Narrow g'.insns := by
  obtain ⟨mid, hmid, hclose⟩ := Option.bind_eq_some_iff.mp hclose
  have hnarrow := h.resolve hmid
  split_ifs at hclose with hfailed
  · obtain ⟨-, rfl⟩ := Prod.mk.inj (Option.some.inj hclose)
    exact hnarrow
  · cases hpush : genPush mid ⟨bpfRet ||| bpfK, 0, 0, k⟩ with
    | mk idx g₁ =>
      have hlast := hnarrow.push (by simp) hpush
      rw [hpush] at hclose
      cases idx with
      | none =>
        obtain ⟨-, rfl⟩ := Prod.mk.inj (Option.some.inj hclose)
        exact hlast
      | some idx =>
        obtain ⟨-, rfl⟩ := Prod.mk.inj (Option.some.inj hclose)
        exact hlast

theorem narrow_of_cfGenerate {c : Ctx Token} {root : Ast} {ok : Bool}
    (hgen : cfGenerate c root = some (ok, g)) : Narrow g.insns := by
  obtain ⟨body, hbody, hgen⟩ := Option.bind_eq_some_iff.mp hgen
  have hnarrow : Narrow body.g.insns :=
    Narrow.compileNode (g := ⟨[], c⟩) (fun f hf => absurd hf List.not_mem_nil) hbody
  split_ifs at hgen with hok
  · obtain ⟨-, rfl⟩ := Prod.mk.inj (Option.some.inj hgen)
    exact hnarrow
  · obtain ⟨⟨ok₁, g₁⟩, haccept, hgen⟩ := Option.bind_eq_some_iff.mp hgen
    have hmid := hnarrow.closeList haccept
    dsimp only at hgen
    split_ifs at hgen with hok₁
    · obtain ⟨-, rfl⟩ := Prod.mk.inj (Option.some.inj hgen)
      exact hmid
    · exact hmid.closeList hgen

end

/-! The checks. -/

def IsLoad (f : SockFilter) : Prop := bpfClass f.code = bpfLd ∨ bpfClass f.code = bpfLdx

/-- The instruction works on the registers, or is a comparison whose two jumps are bytes and lead
into the `n` instructions of the program, if it stands at `i`. -/
def Allowed (n i : Nat) (f : SockFilter) : Prop :=
  IsLoad f ∨ bpfClass f.code = bpfAlu ∨
    bpfClass f.code = bpfJmp ∧ bpfOp f.code = bpfJeq ∧
      (f.jt ≤ 255 ∧ i + 1 + f.jt < n) ∧ f.jf ≤ 255 ∧ i + 1 + f.jf < n

/-- A program that the kernel takes: it is neither too short nor too long, it ends in the accepting
and the rejecting return, and all the instructions before are allowed ones. -/
structure Checked (insns : List SockFilter) : Prop where
  short : 4 ≤ insns.length
  long : insns.length ≤ 1024
  returns : ∃ body, insns = body ++ [retK 65535, retK 0] ∧
    ∀ i f, body[i]? = some f → Allowed insns.length i f

theorem loads_class {b : Leaf} {f : SockFilter} (h : f ∈ leafLoads b) :
    IsLoad f ∨ bpfClass f.code = bpfAlu := by
  have hld : ∀ size ∈ [bpfW, bpfH, bpfB], ∀ mode ∈ [bpfAbs, bpfInd],
      bpfClass (bpfLd ||| size ||| mode) = bpfLd := by decide
  have hldx : bpfClass (bpfLdx ||| bpfB ||| bpfMsh) = bpfLdx := by decide
  have halu : bpfClass (bpfAlu ||| bpfAnd ||| bpfK) = bpfAlu := by decide
  cases b with
  | ethertype | ipproto | host =>
    rw [List.mem_singleton.mp h]
    exact .inl (.inl (hld _ (by decide) _ (by decide)))
  | net dir addr p =>
    obtain rfl | rfl := List.mem_pair.mp h
    · exact .inl (.inl (hld _ (by decide) _ (by decide)))
    · exact .inr halu
  | port dir k =>
    obtain rfl | rfl := List.mem_pair.mp h
    · exact .inl (.inr hldx)
    · exact .inl (.inl (hld _ (by decide) _ (by decide)))

theorem two_le_size (t : Expr Leaf) : 2 ≤ cfTarget.size t := by
  induction t with
  | prim b => cases b <;> simp [Target.size, cfTarget, leafLoads]
  | neg e ih => exact ih
  | conj l r ihl ihr | disj l r ihl ihr =>
    simp only [Target.size]
    omega

theorem program_checked {t : Expr Leaf} (hlen : (program t).length ≤ maxInsns)
    (hnarrow : Narrow (program t)) : Checked (program t) := by
  have hsize := program_length t
  have htwo := two_le_size t
  refine ⟨by omega, hlen, cfTarget.asm t 0 (some ∘ exits t), rfl, fun i f hi => ?_⟩
  have hclosed : ∀ w, 0 + cfTarget.size t ≤ exits t w := by
    intro w
    cases w <;> simp [exits]
  have hahead := cfTarget.asm_forward t 0 (exits t) i f hclosed hi
  rw [Nat.zero_add] at hahead
  obtain ⟨b, hb⟩ | ⟨b, target, hf, htarget⟩ := hahead
  · obtain hload | halu := loads_class hb
    · exact .inl hload
    · exact .inr (.inl halu)
  · have hbytes := hnarrow f (List.mem_append_left _ (List.mem_of_getElem? hi))
    have hin : ∀ w, i + 1 + (target w - (i + 1)) < (program t).length := by
      intro w
      obtain ⟨hlt, w', hle⟩ := htarget w
      have hexit : exits t w' ≤ cfTarget.size t + 1 := by cases w' <;> simp [exits]
      omega
    have hcode : f.code = bpfJmp ||| bpfJeq ||| bpfK := congrArg SockFilter.code hf
    have hkind : bpfClass f.code = bpfJmp ∧ bpfOp f.code = bpfJeq := by
      rw [hcode]
      decide
    subst hf
    exact .inr (.inr ⟨hkind.1, hkind.2, ⟨hbytes.1, hin true⟩, hbytes.2, hin false⟩)

/-! Running a program that passes the checks. -/

section
variable {pkt : List UInt8} {pktLen n : Nat} {f : SockFilter} {r r' : Regs} {v : Nat}

theorem loaded_next {o : Option (Option Nat)} {next : Nat → Regs} (h : loaded o next = .inr r') :
    ∃ x, next x = r' := by
  match o, h with
  | some (some x), h => exact ⟨x, Sum.inr.inj h⟩

theorem loaded_stop {o : Option (Option Nat)} {next : Nat → Regs}
    (h : loaded o next = .inl (some v)) : v = 0 := by
  match o, h with
  | some none, h => exact (Option.some.inj (Sum.inl.inj h)).symm

theorem interpLoad_next (h : interpLoad pkt pktLen f r = .inr r') : r'.pc = r.pc + 1 := by
  simp only [interpLoad] at h
  split_ifs at h
  all_goals
    obtain ⟨x, rfl⟩ := loaded_next h
    rfl

theorem interpLoad_stop (h : interpLoad pkt pktLen f r = .inl (some v)) : v = 0 := by
  simp only [interpLoad] at h
  split_ifs at h
  all_goals first
    | exact loaded_stop h
    | exact (Option.some.inj (Sum.inl.inj h)).symm

theorem interpInsn_load (hf : IsLoad f) : interpInsn pkt pktLen f r = interpLoad pkt pktLen f r :=
  if_pos hf

theorem interpInsn_alu (hf : bpfClass f.code = bpfAlu) :
    ∃ a, interpInsn pkt pktLen f r = .inr { r with a := a, pc := r.pc + 1 } := by
  simp [interpInsn, hf, bpfAlu, bpfLd, bpfLdx]

theorem interpInsn_jmp (hf : bpfClass f.code = bpfJmp) (hop : bpfOp f.code = bpfJeq) :
    interpInsn pkt pktLen f r =
      .inr { r with pc := r.pc + 1 + if r.a = f.k then f.jt else f.jf } := by
  simp [interpInsn, hf, hop, bpfAlu, bpfLd, bpfLdx, bpfJmp]

theorem Allowed.next (hf : Allowed n r.pc f) (hn : r.pc + 1 < n)
    (h : interpInsn pkt pktLen f r = .inr r') : r.pc < r'.pc ∧ r'.pc < n := by
  obtain hload | halu | ⟨hjmp, hop, ⟨-, htrue⟩, -, hfalse⟩ := hf
  · rw [interpInsn_load hload] at h
    have hpc := interpLoad_next h
    omega
  · obtain ⟨a, hnext⟩ := @interpInsn_alu pkt pktLen f r halu
    obtain rfl := Sum.inr.inj (hnext.symm.trans h)
    exact ⟨Nat.lt_succ_self _, hn⟩
  · rw [interpInsn_jmp hjmp hop] at h
    obtain rfl := Sum.inr.inj h
    dsimp only
    split <;> omega

/-- An allowed instruction stops the interpreter only as a load that fails. -/
theorem Allowed.stop (hf : Allowed n r.pc f) (h : interpInsn pkt pktLen f r = .inl (some v)) :
    IsLoad f ∧ v = 0 := by
  obtain hload | halu | ⟨hjmp, hop, -⟩ := hf
  · rw [interpInsn_load hload] at h
    exact ⟨hload, interpLoad_stop h⟩
  · obtain ⟨a, hnext⟩ := @interpInsn_alu pkt pktLen f r halu
    cases hnext.symm.trans h
  · rw [interpInsn_jmp hjmp hop] at h
    cases h

end

theorem Checked.insn {insns : List SockFilter} (h : Checked insns) {i : Nat} {f : SockFilter}
    (hi : insns[i]? = some f) :
    i + 1 < insns.length ∧ Allowed insns.length i f ∨ ∃ k, f = retK k := by
  obtain ⟨body, hinsns, hbody⟩ := h.returns
  have hlen : insns.length = body.length + 2 := by simp [hinsns]
  by_cases hin : i < body.length
  · have hf : body[i]? = some f := by
      rwa [hinsns, List.getElem?_append_left hin] at hi
    exact .inl ⟨by omega, hbody i f hf⟩
  · rw [hinsns, List.getElem?_append_right (Nat.le_of_not_lt hin)] at hi
    obtain rfl | rfl := List.mem_pair.mp (List.mem_of_getElem? hi)
    · exact .inr ⟨_, rfl⟩
    · exact .inr ⟨_, rfl⟩

/-- The interpreter stops after at most as many instructions as the program has, at a return or
at a load that fails. -/
def Halts (insns : List SockFilter) (pkt : List UInt8) : Prop :=
  ∃ k r f v, Steps (stepOn pkt insns) k ⟨0, 0, 0⟩ r ∧ k + 1 ≤ insns.length ∧
    insns[r.pc]? = some f ∧ stepOn pkt insns r = .inl (some v) ∧ (f = retK v ∨ IsLoad f ∧ v = 0) ∧
    bpfInterpRun ⟨insns.length, some insns⟩ pkt pkt.length = some v

section
variable {insns : List SockFilter} {pkt : List UInt8}

theorem Checked.halts (h : Checked insns)
    (hinside : (bpfInterpRun ⟨insns.length, some insns⟩ pkt pkt.length).isSome) :
    Halts insns pkt := by
  have hforward : ∀ s t : Regs, s.pc < insns.length → stepOn pkt insns s = .inr t →
      s.pc < t.pc ∧ t.pc < insns.length := by
    intro s t hs hstep
    have hf := List.getElem?_eq_getElem hs
    obtain ⟨hn, hallowed⟩ | ⟨k, hret⟩ := h.insn hf
    · rw [stepOn_getElem pkt hf] at hstep
      exact hallowed.next hn hstep
    · rw [hret] at hf
      rw [stepOn_retK pkt hf] at hstep
      cases hstep
  have hshort := h.short
  have hlong := h.long
  obtain ⟨k, r, o, hsteps, hk, hr, hstop⟩ :=
    exists_stop hforward ⟨0, 0, 0⟩ (show 0 < insns.length by omega)
  have hrun : bpfInterpRun ⟨insns.length, some insns⟩ pkt pkt.length = o := by
    simp only [bpfInterpRun, if_neg (show insns.length ≠ 0 by omega)]
    exact run_of_steps hsteps hstop (by dsimp only at hk; omega)
  obtain ⟨v, hv⟩ := Option.isSome_iff_exists.mp hinside
  obtain rfl := hrun.symm.trans hv
  have hf := List.getElem?_eq_getElem hr
  refine ⟨k, r, _, v, hsteps, by dsimp only at hk; omega, hf, hstop, ?_, hrun⟩
  obtain ⟨-, hallowed⟩ | ⟨k', hret⟩ := h.insn hf
  · rw [stepOn_getElem pkt hf] at hstop
    exact .inr (hallowed.stop hstop)
  · rw [hret] at hf ⊢
    rw [stepOn_retK pkt hf] at hstop
    exact .inl (congrArg retK (Option.some.inj (Sum.inl.inj hstop)))

end

theorem narrow_of_success {expr : List Char} {o : SockFprog} {errNull : Bool} {errLen : Int}
    {mallocOk : Bool} {r : CompileResult} {insns : List SockFilter} {len : Nat}
    (h : capfilterCompile (some expr) (some o) errNull errLen mallocOk = some r)
    (hout : r.out = some ⟨len, some insns⟩) : Narrow insns := by
  simp only [capfilterCompile] at h
  by_cases hempty : isEmpty expr = true
  · rw [if_pos hempty] at h
    obtain rfl := Option.some.inj h
    cases hout
  · rw [if_neg hempty] at h
    obtain ⟨c, -, h⟩ := Option.bind_eq_some_iff.mp h
    by_cases hlexed : c.failed = true
    · rw [if_pos hlexed] at h
      obtain rfl := Option.some.inj h
      cases hout
    · rw [if_neg hlexed] at h
      obtain ⟨⟨root, p⟩, -, h⟩ := Option.bind_eq_some_iff.mp h
      by_cases hparsed : p.c.failed = true
      · rw [if_pos hparsed] at h
        obtain rfl := Option.some.inj h
        cases hout
      · rw [if_neg hparsed] at h
        obtain ⟨⟨ok, gen⟩, hgen, h⟩ := Option.bind_eq_some_iff.mp h
        dsimp only at h
        split_ifs at h
        · obtain rfl := Option.some.inj h
          cases hout
        · obtain rfl := Option.some.inj h
          cases hout
        · obtain rfl := Option.some.inj h
          cases hout
          exact narrow_of_cfGenerate hgen

/-- Every program that capfilter_compile returns is the one of the parsed tree with no jump left
open, passes the checks and stops on every packet. -/
theorem compiled_program_checked {expr : List Char} {o prog : SockFprog} {errNull : Bool}
    {errLen : Int} {mallocOk : Bool} {r : CompileResult}
    (h : capfilterCompile (some expr) (some o) errNull errLen mallocOk = some r)
    (hret : r.ret = 0) (hout : r.out = some prog) (hprog : prog.len ≠ 0) :
    ∃ t insns, prog = ⟨insns.length, some insns⟩ ∧ insns = program t ∧ Checked insns ∧
      (∃ c p, cfLex (Ctx.start errNull errLen) expr = some c ∧ cfParse c = some (treeAst t, p)) ∧
      ∀ pkt, Halts insns pkt := by
  obtain ⟨c, root, p, t, hlex, hparse, rfl, hmax, -, hout'⟩ :=
    (succeeds_of_program h hret hout hprog).stages
  have hmod : (program t).length % 65536 = (program t).length :=
    Nat.mod_eq_of_lt (Nat.lt_of_le_of_lt hmax (by decide))
  have hnarrow : Narrow (program t) := narrow_of_success h hout'
  have hchecked := program_checked hmax hnarrow
  refine ⟨t, program t, ?_, rfl, hchecked, ⟨c, p, hlex, hparse⟩, fun pkt => ?_⟩
  · rw [hout', hmod] at hout
    exact (Option.some.inj hout).symm
  · have hrun := program_run t pkt hmax
    rw [hmod] at hrun
    exact hchecked.halts (by rw [hrun]; rfl)

theorem compiled_program_checked_ports :
    ∃ r prog, capfilterCompile (some "tcp and not port 80".toList) (some emptyProg) true 0 true =
        some r ∧ r.out = some prog ∧ prog.len = 18 ∧
      ∃ t insns, prog = ⟨insns.length, some insns⟩ ∧ insns = program t ∧ Checked insns ∧
        (∃ c p, cfLex (Ctx.start true 0) "tcp and not port 80".toList = some c ∧
          cfParse c = some (treeAst t, p)) ∧
        ∀ pkt, Halts insns pkt := by
  have hrun : (capfilterCompile (some "tcp and not port 80".toList) (some emptyProg) true 0
      true).map (fun r => (r.ret, r.out.map SockFprog.len)) = some (0, some 18) := by
    decide +kernel
  obtain ⟨r, hr, hval⟩ := Option.map_eq_some_iff.mp hrun
  obtain ⟨hret, hlen⟩ := Prod.mk.inj hval
  obtain ⟨prog, hprog, hlen⟩ := Option.map_eq_some_iff.mp hlen
  exact ⟨r, prog, hr, hprog, hlen,
    compiled_program_checked hr hret hprog (by rw [hlen]; decide)⟩

end MyWireshark.CapFilter
