import MyWireshark.CapFilter.Backpatch

/-! What a capture filter means: the tests of its leaves on the bytes of a frame, and the
evaluation of an AST over them. The reference interpreter runs the code of a leaf as the
leaf's test says. -/
namespace MyWireshark.CapFilter
open MyWireshark.Filter Bpf BoolGrammar ShortCircuit Bytes Machine

def Dir.addrOff : Dir → Nat
  | .src => 26
  | .dst => 30

/-- Offset of a port, short of the length of the IP header. -/
def Dir.portOff : Dir → Nat
  | .src => 14
  | .dst => 16

def netPart (p w : Nat) : Nat := w / 2 ^ (32 - p)

/-- The test of a leaf; `none` when it looks at bytes the frame does not have. -/
def Leaf.test (pkt : List UInt8) : Leaf → Option Bool
  | .ethertype k => (field pkt 12 2).bind fun v => some (v == k)
  | .ipproto k => (field pkt 23 1).bind fun v => some (v == k)
  | .host dir addr => (field pkt dir.addrOff 4).bind fun v => some (v == be addr.toList)
  | .net dir addr p => (field pkt dir.addrOff 4).bind fun v =>
      some (netPart p v == netPart p (be addr.toList))
  | .port dir k => (field pkt 14 1).bind fun b =>
      (field pkt (dir.portOff + 4 * (b % 16)) 2).bind fun v => some (v == k)

/-- Evaluation of an AST from left to right with short circuit. A leaf that cannot be
tested decides the verdict, whatever surrounds it. -/
def evalAst (pkt : List UInt8) : Ast → Option Bool
  | .null => none
  | .and l r =>
    match evalAst pkt l with
    | some true => evalAst pkt r
    | v => v
  | .or l r =>
    match evalAst pkt l with
    | some false => evalAst pkt r
    | v => v
  | .not l => (evalAst pkt l).map (!·)
  | .leaf b => b.test pkt

theorem evalAst_treeAst (pkt : List UInt8) (e : Expr Leaf) :
    evalAst pkt (treeAst e) = e.evalAbort (Leaf.test pkt) := by
  induction e with
  | prim b => rfl
  | neg e ih => exact congrArg (Option.map (!·)) ih
  | conj l r ihl ihr =>
    simp only [treeAst] at ihl ihr
    simp only [treeAst, Node.ofExpr, evalAst, Expr.evalAbort, ihl, ihr]
    rcases l.evalAbort (Leaf.test pkt) with _ | _ | _ <;> simp
  | disj l r ihl ihr =>
    simp only [treeAst] at ihl ihr
    simp only [treeAst, Node.ofExpr, evalAst, Expr.evalAbort, ihl, ihr]
    rcases l.evalAbort (Leaf.test pkt) with _ | _ | _ <;> simp

/-! Loads of the interpreter. -/

theorem loadLoop_eq (pkt : List UInt8) (width v off : Nat) (hin : off + width ≤ pkt.length)
    (hv : (v + 1) * 256 ^ width ≤ 2 ^ 32) :
    loadLoop pkt v off width = some (beFrom v ((pkt.drop off).take width)) := by
  induction width generalizing v off with
  | zero => simp [loadLoop, beFrom]
  | succ width ih =>
    have hoff : off < pkt.length := by omega
    have hb : pkt[off].toNat < 256 := pkt[off].toNat_lt
    have hpos : 0 < 256 ^ width := Nat.pow_pos (by decide)
    have hstep : (v * 256 + pkt[off].toNat + 1) * 256 ^ width ≤ 2 ^ 32 := by
      calc (v * 256 + pkt[off].toNat + 1) * 256 ^ width
          ≤ ((v + 1) * 256) * 256 ^ width := Nat.mul_le_mul_right _ (by omega)
        _ = (v + 1) * 256 ^ (width + 1) := by rw [Nat.pow_succ', Nat.mul_assoc]
        _ ≤ 2 ^ 32 := hv
    have hlt : v * 256 + pkt[off].toNat < 2 ^ 32 := by
      have := Nat.le_mul_of_pos_right (v * 256 + pkt[off].toNat + 1) hpos
      omega
    rw [loadLoop, List.getElem?_eq_getElem hoff, List.drop_eq_getElem_cons hoff,
      List.take_succ_cons, beFrom_cons, Option.bind_eq_bind, Option.bind_some,
      shiftLeft_or_byte, u32,
      Nat.mod_eq_of_lt hlt]
    exact ih _ _ (by omega) hstep

theorem loadU_eq (pkt : List UInt8) {off width : Nat} (hw : width ≤ 4) (hoff : off < 2 ^ 16) :
    loadU pkt pkt.length off width = some (field pkt off width) := by
  have hu : u32 (off + width) = off + width := Nat.mod_eq_of_lt (by omega)
  rw [loadU, hu]
  by_cases hin : off + width ≤ pkt.length
  · have hpow : (0 + 1) * 256 ^ width ≤ 2 ^ 32 := by
      have := Nat.pow_le_pow_right (n := 256) (by decide) hw
      omega
    rw [if_neg (by omega), loadLoop_eq pkt width 0 off hin hpow]
    simp [field, slice, hin, be]
  · rw [if_pos (by omega)]
    simp [field, slice, hin]

def stepOn (pkt : List UInt8) (prog : List SockFilter) : Regs → Outcome :=
  interpStep prog.length pkt pkt.length prog

theorem stepOn_getElem (pkt : List UInt8) {prog : List SockFilter} {f : SockFilter} {r : Regs}
    (h : prog[r.pc]? = some f) : stepOn pkt prog r = interpInsn pkt pkt.length f r := by
  rw [stepOn, interpStep, if_pos (List.getElem?_eq_some_iff.mp h).1, h]

theorem stepOn_at (pkt : List UInt8) {prog rest : List SockFilter} {f : SockFilter} {r : Regs}
    (h : CodeAt prog r.pc (f :: rest)) : stepOn pkt prog r = interpInsn pkt pkt.length f r :=
  stepOn_getElem pkt h.head

theorem stepOn_retK (pkt : List UInt8) {prog : List SockFilter} {r : Regs} {k : Nat}
    (h : prog[r.pc]? = some (retK k)) : stepOn pkt prog r = .inl (some k) := by
  rw [stepOn_getElem pkt h]
  simp [interpInsn, retK, bpfClass, bpfLd, bpfLdx, bpfAlu, bpfJmp, bpfRet, bpfK]

/- The five instructions of the leaves. -/

theorem interpInsn_ldAbs (pkt : List UInt8) (r : Regs) (width : Nat) {size off : Nat}
    (hsize : size = bpfW ∧ width = 4 ∨ size = bpfH ∧ width = 2 ∨ size = bpfB ∧ width = 1)
    (hoff : off < 2 ^ 16) :
    interpInsn pkt pkt.length ⟨bpfLd ||| size ||| bpfAbs, 0, 0, off⟩ r =
      (field pkt off width).elim (.inl (some 0))
        fun v => .inr { r with a := v, pc := r.pc + 1 } := by
  rcases hsize with ⟨rfl, rfl⟩ | ⟨rfl, rfl⟩ | ⟨rfl, rfl⟩ <;>
    · simp [interpInsn, interpLoad, bpfClass, bpfLd, bpfLdx, bpfAbs, bpfMode, bpfSize, bpfW, bpfH,
        bpfB, loadU_eq pkt _ hoff]
      cases field pkt off _ <;> rfl

theorem interpInsn_ldInd (pkt : List UInt8) (r : Regs) {k : Nat} (hoff : k + r.x < 2 ^ 16) :
    interpInsn pkt pkt.length ⟨bpfLd ||| bpfH ||| bpfInd, 0, 0, k⟩ r =
      (field pkt (k + r.x) 2).elim (.inl (some 0)) fun v =>
        .inr { r with a := v, pc := r.pc + 1 } := by
  have hu : u32 (k + r.x) = k + r.x := Nat.mod_eq_of_lt (by omega)
  simp [interpInsn, interpLoad, bpfClass, bpfLd, bpfLdx, bpfAbs, bpfInd, bpfMode, bpfSize, bpfW,
    bpfH, hu, loadU_eq pkt _ hoff]
  cases field pkt (k + r.x) 2 <;> rfl

theorem interpInsn_ldMsh (pkt : List UInt8) (r : Regs) {off : Nat} (hoff : off < 2 ^ 16) :
    interpInsn pkt pkt.length ⟨bpfLdx ||| bpfB ||| bpfMsh, 0, 0, off⟩ r =
      (field pkt off 1).elim (.inl (some 0)) fun v =>
        .inr { r with x := (v &&& 0x0f) * 4, pc := r.pc + 1 } := by
  simp [interpInsn, interpLoad, bpfClass, bpfLd, bpfLdx, bpfAbs, bpfInd, bpfMsh, bpfMode,
    bpfB, loadU_eq pkt _ hoff]
  cases field pkt off 1 <;> rfl

theorem interpInsn_and (pkt : List UInt8) (r : Regs) (k : Nat) :
    interpInsn pkt pkt.length ⟨bpfAlu ||| bpfAnd ||| bpfK, 0, 0, k⟩ r =
      .inr { r with a := r.a &&& k, pc := r.pc + 1 } := by
  simp [interpInsn, bpfClass, bpfLd, bpfLdx, bpfAlu, bpfAnd, bpfOp, bpfK]

theorem interpInsn_jeq (pkt : List UInt8) (r : Regs) (k : Nat) (j : Bool → Nat) :
    interpInsn pkt pkt.length (jeq k j) r = .inr { r with pc := r.pc + 1 + j (r.a == k) } := by
  have hj : (if r.a = k then j true else j false) = j (r.a == k) := by
    by_cases h : r.a = k
    · rw [if_pos h, beq_iff_eq.mpr h]
    · rw [if_neg h, beq_eq_false_iff_ne.mpr h]
  simp [interpInsn, jeq, bpfClass, bpfLd, bpfLdx, bpfAlu, bpfJmp, bpfOp, bpfJeq, bpfK, hj]

theorem jeq_lands {pkt : List UInt8} {prog : List SockFilter} {r : Regs} {k : Nat}
    {j lab : Bool → Nat} (hcode : CodeAt prog r.pc [jeq k j])
    (hlab : ∀ w, r.pc + 1 + j w = lab w) :
    Lands (stepOn pkt prog) Regs.pc (some 0) 1 lab r (some (r.a == k)) := by
  have hstep := (stepOn_at pkt hcode).trans (interpInsn_jeq pkt r k j)
  exact Lands.jump hstep (hlab _)

/-! Addresses and masks as numbers. -/

theorem addrToU32_eq (addr : Ipv4Addr) : addrToU32 addr = be addr.toList := by
  have hbytes : addr.toList = [addr[0], addr[1], addr[2], addr[3]] := by
    rcases addr with ⟨⟨_ | ⟨a, _ | ⟨b, _ | ⟨c, _ | ⟨d, _ | ⟨e, l⟩⟩⟩⟩⟩⟩, h⟩ <;> simp at h ⊢
  rw [hbytes, addrToU32, or_bytes]
  simp [be, beFrom]

theorem and_prefixMask (p : Nat) {w : Nat} (hw : w < 2 ^ 32) :
    w &&& prefixMask p = netPart p w * 2 ^ (32 - p) := by
  unfold prefixMask
  split_ifs with h0 h32
  · rw [h0, netPart, Nat.div_eq_of_lt hw]
    simp
  · have hs : 32 - p = 0 := by omega
    have hmask := Nat.and_two_pow_sub_one_eq_mod w 32
    rw [Nat.mod_eq_of_lt hw] at hmask
    simpa [netPart, hs] using hmask
  · rw [netPart, ← Nat.shiftRight_eq_div_pow, ← Nat.shiftLeft_eq]
    apply Nat.eq_of_testBit_eq
    intro i
    have hmask : (0xFFFFFFFF : Nat) = 2 ^ 32 - 1 := by decide
    simp only [u32, hmask, Nat.testBit_and, Nat.testBit_mod_two_pow, Nat.testBit_shiftLeft,
      Nat.testBit_two_pow_sub_one, Nat.testBit_shiftRight]
    by_cases hi : i < 32
    · by_cases hs : 32 - p ≤ i
      · simp [hi, hs, show i - (32 - p) < 32 by omega]
      · simp [hs]
    · have hbit : w.testBit i = false :=
        Nat.testBit_lt_two_pow (Nat.lt_of_lt_of_le hw (Nat.pow_le_pow_right (by decide) (by omega)))
      simp [hbit, hi, show 32 - p + (i - (32 - p)) = i by omega]

/-- A masked comparison compares the network parts. -/
theorem masked_beq (p : Nat) {v w : Nat} (hv : v < 2 ^ 32) (hw : w < 2 ^ 32) :
    (v &&& prefixMask p == w &&& prefixMask p) = (netPart p v == netPart p w) := by
  have hpos : 0 < 2 ^ (32 - p) := Nat.pow_pos (by decide)
  rw [and_prefixMask p hv, and_prefixMask p hw, Bool.eq_iff_iff, beq_iff_eq, beq_iff_eq]
  exact ⟨Nat.eq_of_mul_eq_mul_right hpos, congrArg (· * 2 ^ (32 - p))⟩

theorem addr_lt (addr : Ipv4Addr) : be addr.toList < 2 ^ 32 := by
  have h := be_lt addr.toList
  rwa [Vector.length_toList] at h

theorem addrOff_eq (dir : Dir) : (if dir = .src then offIpSrc else offIpDst) = dir.addrOff := by
  cases dir <;> rfl

theorem addrOff_lt (dir : Dir) : (if dir = .src then offIpSrc else offIpDst) < 2 ^ 16 := by
  cases dir <;> decide

theorem portOff_eq (dir : Dir) (v : Nat) :
    (if dir = .src then offIpIhlByte else offIpIhlByte + 2) + (v &&& 0x0f) * 4 =
      dir.portOff + 4 * (v % 16) := by
  have hand : v &&& 0x0f = v % 16 := Nat.and_two_pow_sub_one_eq_mod v 4
  rw [hand, Nat.mul_comm]
  cases dir <;> rfl

theorem cfTarget_sound (pkt : List UInt8) :
    cfTarget.Sound (stepOn pkt) Regs.pc (some 0) (Leaf.test pkt) where
  leaf := by
    intro b j prog r hcode
    cases b with
    | ethertype k =>
      have hstep := (stepOn_at pkt hcode.left).trans
        (interpInsn_ldAbs pkt r 2 (by simp) (by decide))
      refine Lands.load hstep fun v _ => ?_
      exact jeq_lands (r := { r with a := v, pc := r.pc + 1 }) hcode.right fun _ => rfl
    | ipproto k =>
      have hstep := (stepOn_at pkt hcode.left).trans
        (interpInsn_ldAbs pkt r 1 (by simp) (by decide))
      refine Lands.load hstep fun v _ => ?_
      exact jeq_lands (r := { r with a := v, pc := r.pc + 1 }) hcode.right fun _ => rfl
    | host dir addr =>
      have hstep := (stepOn_at pkt hcode.left).trans
        (interpInsn_ldAbs pkt r 4 (by simp) (addrOff_lt dir))
      rw [addrOff_eq] at hstep
      refine Lands.load hstep fun v _ => ?_
      rw [← addrToU32_eq]
      exact jeq_lands (r := { r with a := v, pc := r.pc + 1 }) hcode.right fun _ => rfl
    | net dir addr p =>
      have hload : CodeAt prog r.pc ([_] ++ [_, _]) := hcode
      have hstep := (stepOn_at pkt hload.left).trans
        (interpInsn_ldAbs pkt r 4 (by simp) (addrOff_lt dir))
      rw [addrOff_eq] at hstep
      refine Lands.load hstep fun v hv => ?_
      have hmask := (stepOn_at pkt (r := { r with a := v, pc := r.pc + 1 })
        hload.right).trans (interpInsn_and pkt _ _)
      refine Lands.load (o := some ()) (g := fun _ => _) (f := fun _ => _) hmask fun _ _ => ?_
      rw [← masked_beq p (field_lt hv) (addr_lt addr), ← addrToU32_eq]
      exact jeq_lands (r := ⟨v &&& prefixMask p, r.x, r.pc + 1 + 1⟩) hcode.right fun _ => rfl
    | port dir k =>
      -- the length of the IP header goes into X first, and the port is loaded relative to it
      have hload : CodeAt prog r.pc ([_] ++ [_, _]) := hcode
      have hstep := (stepOn_at pkt hload.left).trans
        (interpInsn_ldMsh pkt r (by decide))
      refine Lands.load hstep fun v _ => ?_
      have hoff := portOff_eq dir v
      have hlt : (if dir = .src then offIpIhlByte else offIpIhlByte + 2) + (v &&& 0x0f) * 4 <
          2 ^ 16 := by
        have hport : dir.portOff ≤ 16 := by cases dir <;> decide
        omega
      have hind := (stepOn_at pkt (r := ⟨r.a, (v &&& 0x0f) * 4, r.pc + 1⟩)
        hload.right).trans (interpInsn_ldInd pkt _ hlt)
      simp only [hoff] at hind
      refine Lands.load hind fun u _ => ?_
      exact jeq_lands (r := ⟨u, (v &&& 0x0f) * 4, r.pc + 1 + 1⟩) hcode.right fun _ => rfl

end MyWireshark.CapFilter
