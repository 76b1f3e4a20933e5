import MyWireshark.Capture.Cursor
import MyWireshark.Lib.RingBuffer

/-! The invariant of the ring: the blocks from the reader to the kernel are a queue, of which
the reader has copied out a part of the first block. -/
namespace MyWireshark.Capture
open Transition RingBuffer

def Pc.inHand : Pc → List Recv
  | .count got | .release got | .next got => [got]
  | _ => []

/-- The calls of raw_socket_recv that returned a frame. -/
def framesOf (recvs : List Recv) : List Recv := recvs.filter fun r => 0 ≤ r.ret

theorem framesOf_append (before after : List Recv) :
    framesOf (before ++ after) = framesOf before ++ framesOf after := List.filter_append ..

namespace RingState
variable (s : RingState)

def received : List Recv := framesOf s.recvs

def copied : List Recv := s.received ++ s.pc.inHand

/-- The first block the reader has not given back. -/
def base : Nat := if s.pc.between then s.nextBlock.toNat else s.ctx.curBlock.toNat

end RingState

inductive Moved (s : RingState) : RingState → Prop where
  | outside (hpc : s.pc = .idle) : Moved s s
  | stopped {args : RecvArgs} (hpc : s.pc = .top args) :
    Moved s (s.finish ⟨args, rawSocketStopped, [], none, none⟩)
  | entered {args : RecvArgs} (hpc : s.pc = .top args) : Moved s (s.goto (.look args))
  | newBlock {args : RecvArgs} (hpc : s.pc = .look args) (hidx : s.ctx.curPktIdx = 0)
    (huser : s.bd.user = true) : Moved s (s.goto (.load args))
  | noBlock {args : RecvArgs} (hpc : s.pc = .look args) (hidx : s.ctx.curPktIdx = 0) :
    Moved s (s.goto (.poll args))
  | sameBlock {args : RecvArgs} (hpc : s.pc = .look args) (hidx : s.ctx.curPktIdx ≠ 0) :
    Moved s (s.goto (.copy args))
  | pollError {args : RecvArgs} (hpc : s.pc = .poll args) :
    Moved s (s.finish ⟨args, -1, [], none, none⟩)
  | polled {args : RecvArgs} (hpc : s.pc = .poll args) : Moved s (s.goto (.top args))
  | loaded {args : RecvArgs} {pc : Pc} (hpc : s.pc = .load args)
    (hnext : s.bd.numPkts = 0 ∧ pc = .skip args ∨ s.bd.numPkts ≠ 0 ∧ pc = .copy args) :
    Moved s { s with
      ctx := { s.ctx with
        curNumPkts := s.bd.numPkts
        curPktOffset := s.bd.offsetToFirstPkt }
      pc := pc }
  | skipped {args : RecvArgs} (hpc : s.pc = .skip args) : Moved s (s.giveBack.goto (.skipNext args))
  | left {args : RecvArgs} (hpc : s.pc = .skipNext args) :
    Moved s { s with ctx := { s.ctx with curBlock := s.nextBlock }, pc := .top args }
  | copied {args : RecvArgs} (hpc : s.pc = .copy args) :
    Moved s (s.goto (.count (copyPacket args s.bd s.ctx.curPktOffset)))
  | last {got : Recv} (hpc : s.pc = .count got) (hend : s.ctx.curPktIdx + 1 ≥ s.ctx.curNumPkts) :
    Moved s { s with ctx := { s.ctx with curPktIdx := s.ctx.curPktIdx + 1 }, pc := .release got }
  | counted {got : Recv} (hpc : s.pc = .count got)
    (hmore : ¬s.ctx.curPktIdx + 1 ≥ s.ctx.curNumPkts) :
    Moved s ({ s with ctx := { s.ctx with
      curPktIdx := s.ctx.curPktIdx + 1
      curPktOffset :=
        s.ctx.curPktOffset + (s.bd.hdr s.ctx.curPktOffset).tpNextOffset } }.finish got)
  | released {got : Recv} (hpc : s.pc = .release got) : Moved s (s.giveBack.goto (.next got))
  | returned {got : Recv} (hpc : s.pc = .next got) :
    Moved s ({ s with ctx := { s.ctx with curBlock := s.nextBlock, curPktIdx := 0 } }.finish got)

theorem moved_recvStep (s : RingState) (e : Bool) : Moved s (s.recvStep e) := by
  unfold RingState.recvStep
  cases hpc : s.pc with
  | idle => exact .outside hpc
  | top args =>
    dsimp only
    split
    · exact .stopped hpc
    · exact .entered hpc
  | look args =>
    dsimp only
    split_ifs with hidx huser
    · exact .newBlock hpc hidx huser
    · exact .noBlock hpc hidx
    · exact .sameBlock hpc hidx
  | poll args =>
    dsimp only
    split
    · exact .pollError hpc
    · exact .polled hpc
  | load args =>
    dsimp only
    split_ifs with hnum
    · exact .loaded hpc (.inl ⟨hnum, rfl⟩)
    · exact .loaded hpc (.inr ⟨hnum, rfl⟩)
  | skip args => exact .skipped hpc
  | skipNext args => exact .left hpc
  | copy args => exact .copied hpc
  | count got =>
    dsimp only
    split_ifs with hend
    · exact .last hpc hend
    · exact .counted hpc hend
  | release got => exact .released hpc
  | next got => exact .returned hpc

/-- `given` are the frames of the blocks given back, `pending` those of the blocks from the
reader to the kernel. -/
structure RingInv (s : RingState) (given : List Frame) (pending : List (List Frame)) (c : Nat) :
    Prop where
  nr : s.ctx.blockNr = rsRingBlockNr
  cur : s.ctx.curBlock.toNat < 8
  window : Window 8 s.blocks Holds Free s.base s.kernelAt pending
  published : s.published = given ++ pending.flatten
  copied : ∃ early late, s.copied = early ++ late ∧ List.Forall₂ Delivered given early ∧
    List.Forall₂ Delivered ((pending.headD []).take c) late
  hand : ∀ r ∈ s.pc.inHand, 0 ≤ r.ret
  place : Place s.ctx s.bd s.pc pending c

theorem nextBlock_toNat {s : RingState} (hnr : s.ctx.blockNr = rsRingBlockNr)
    (hcur : s.ctx.curBlock.toNat < 8) : s.nextBlock.toNat = (s.ctx.curBlock.toNat + 1) % 8 := by
  have hsum : (s.ctx.curBlock + 1).toNat = s.ctx.curBlock.toNat + 1 := by
    rw [UInt32.toNat_add, UInt32.toNat_one]
    omega
  rw [RingState.nextBlock, hnr, UInt32.toNat_mod, hsum]
  rfl

namespace RingInv
variable {s : RingState} {given : List Frame} {pending : List (List Frame)} {c : Nat}

theorem start (h : RingStart s) : RingInv s [] [] 0 := by
  obtain ⟨hblocks, hctx, hpc, hrecvs, hkernel, hpub⟩ := h
  have hbase : s.base = 0 := by simp [RingState.base, hpc, Pc.between, hctx, openCtx]
  refine ⟨by rw [hctx]; rfl, by simp [hctx, openCtx], ?_, hpub, ⟨[], [], ?_, .nil, .nil⟩, ?_, ?_⟩
  · rw [hbase, hkernel]
    exact Window.start (by decide) hblocks
  · simp [RingState.copied, RingState.received, framesOf, hrecvs, hpc, Pc.inHand]
  · simp [hpc, Pc.inHand]
  · rw [hpc]
    exact .inl ⟨rfl, by rw [hctx]; rfl⟩

theorem holds {fs : List Frame} {rest : List (List Frame)} (h : RingInv s given (fs :: rest) c)
    (hpc : s.pc.between = false) : Holds fs s.bd := by
  have hhead := h.window.head
  rw [RingState.base, hpc] at hhead
  exact hhead

/-- The block the reader is at is none the kernel may write to. -/
theorem bd_write (h : RingInv s given pending c) {k : Nat} (hk : (s.blocks k).user = false)
    (b : Block) (hpc : s.pc.between = false) (hne : pending ≠ []) : (s.write k b).bd = s.bd := by
  obtain ⟨fs, rest, rfl⟩ := List.exists_cons_of_ne_nil hne
  have huser := (h.holds hpc).published.user
  have hcur : s.ctx.curBlock.toNat ≠ k := by
    rintro rfl
    rw [RingState.bd, hk] at huser
    cases huser
  exact Function.update_of_ne hcur _ _

theorem fill (h : RingInv s given pending c) {k : Nat} {b : Block}
    (hk : (s.blocks k).user = false) (hb : b.user = false) :
    RingInv (s.write k b) given pending c where
  nr := h.nr
  cur := h.cur
  window := h.window.scribble Holds.not_free hk hb
  published := h.published
  copied := h.copied
  hand := h.hand
  place := by
    have hplace := h.place.append (h.bd_write hk b) []
    rw [List.append_nil] at hplace
    exact hplace

theorem publish (h : RingInv s given pending c) {b : Block}
    (hk : (s.blocks s.kernelAt).user = false) (hb : b.Published) :
    RingInv (s.publish b) given (pending ++ [b.frames]) c where
  nr := h.nr
  cur := h.cur
  window := by
    have hwin := h.window.push Holds.not_free hk (Holds.mk hb rfl)
    have hnr : s.ctx.blockNr.toNat = 8 := by rw [h.nr]; rfl
    rw [← hnr] at hwin ⊢
    exact hwin
  published := by
    show s.published ++ b.frames = _
    rw [h.published, List.flatten_append, List.flatten_singleton, List.append_assoc]
  copied := by
    obtain ⟨early, late, hcopied, hgiven, hlate⟩ := h.copied
    refine ⟨early, late, hcopied, hgiven, ?_⟩
    cases hp : pending with
    | nil =>
      -- nothing was pending, so nothing was copied out of the first pending block
      have hplace := h.place
      rw [hp] at hplace hlate
      rw [hplace.nothing, List.take_zero] at hlate ⊢
      exact hlate
    | cons fs rest =>
      rw [hp] at hlate
      exact hlate
  hand := h.hand
  place := h.place.append (h.bd_write hk b) [b.frames]

theorem stop (h : RingInv s given pending c) :
    RingInv s.rawSocketRequestStop given pending c := by
  obtain ⟨hnr, hcur, hwin, hpub, hcopied, hhand, hplace⟩ := h
  refine ⟨hnr, hcur, hwin, hpub, hcopied, hhand, ?_⟩
  have hbd : s.rawSocketRequestStop.bd = s.bd := rfl
  have hpc : s.rawSocketRequestStop.pc = s.pc := rfl
  rw [hbd, hpc]
  cases hpc : s.pc <;> rw [hpc] at hplace <;> exact hplace

theorem goto {pc : Pc} (h : RingInv s given pending c) (hhand : pc.inHand = s.pc.inHand)
    (hbetween : pc.between = s.pc.between) (hplace : Place s.ctx s.bd pc pending c) :
    RingInv (s.goto pc) given pending c where
  nr := h.nr
  cur := h.cur
  window := by
    have hbase : (s.goto pc).base = s.base := by
      unfold RingState.base RingState.goto
      rw [hbetween]
      rfl
    rw [hbase]
    exact h.window
  published := h.published
  copied := by
    have hcopied : (s.goto pc).copied = s.copied := by
      unfold RingState.copied RingState.goto
      rw [hhand]
      rfl
    rw [hcopied]
    exact h.copied
  hand := by
    show ∀ r ∈ pc.inHand, 0 ≤ r.ret
    rw [hhand]
    exact h.hand
  place := hplace

theorem fail {r : Recv} (h : RingInv s given pending c) (hhand : s.pc.inHand = [])
    (hbetween : s.pc.between = false) (hr : r.ret < 0)
    (hplace : Place s.ctx s.bd .idle pending c) : RingInv (s.finish r) given pending c where
  nr := h.nr
  cur := h.cur
  window := by
    have hwin := h.window
    rw [RingState.base, hbetween] at hwin
    exact hwin
  published := h.published
  copied := by
    have hcopied : (s.finish r).copied = s.copied := by
      have hneg : ¬0 ≤ r.ret := by omega
      rw [RingState.copied, RingState.copied, hhand]
      simp [RingState.received, framesOf, RingState.finish, hneg, Pc.inHand]
    rw [hcopied]
    exact h.copied
  hand r hr := absurd hr List.not_mem_nil
  place := hplace

theorem call (h : RingInv s given pending c) (args : RecvArgs) (hpc : s.pc = .idle) :
    RingInv (s.rawSocketRecv args) given pending c := by
  have hplace := h.place
  rw [hpc] at hplace
  unfold RingState.rawSocketRecv
  split
  · exact h.fail (by rw [hpc]; rfl) (by rw [hpc]; rfl) (Int.negSucc_lt_zero 0) hplace
  · exact h.goto (by rw [hpc]; rfl) (by rw [hpc]; rfl) hplace

theorem copyStep {args : RecvArgs} (h : RingInv s given pending c) (hpc : s.pc = .copy args) :
    RingInv (s.goto (.count (copyPacket args s.bd s.ctx.curPktOffset))) given pending (c + 1) := by
  have hplace := h.place
  rw [hpc] at hplace
  obtain ⟨fs, rest, rfl, hat⟩ := hplace
  have hgot := copyPacket_delivered args hat.unfold_chain.1
  obtain ⟨early, late, hcopied, hgiven, hlate⟩ := h.copied
  have hwin := h.window
  rw [RingState.base, hpc] at hwin
  refine ⟨h.nr, h.cur, hwin, h.published,
    ⟨early, late ++ [copyPacket args s.bd s.ctx.curPktOffset], ?_, hgiven, ?_⟩, ?_, ?_⟩
  · rw [← List.append_assoc, ← hcopied]
    simp [RingState.copied, RingState.goto, RingState.received, framesOf, hpc, Pc.inHand]
  · show List.Forall₂ Delivered (fs.take (c + 1)) _
    rw [hat.take_succ]
    exact List.rel_append hlate (.cons hgot .nil)
  · intro r hr
    rw [List.mem_singleton.mp hr, hgot.ret]
    exact Int.natCast_nonneg _
  · exact ⟨fs, rest, c, rfl, rfl, hat⟩

/-- A block that is given back has been copied out as a whole. -/
theorem giveBack {pc : Pc} {fs : List Frame} {rest : List (List Frame)}
    (h : RingInv s given (fs :: rest) c) (hall : fs.length ≤ c) (hat : s.pc.between = false)
    (hbetween : pc.between = true) (hhand : pc.inHand = s.pc.inHand)
    (hplace : Place s.ctx s.bd.release pc rest 0) :
    RingInv (s.giveBack.goto pc) (given ++ fs) rest 0 := by
  have hbase : s.base = s.ctx.curBlock.toNat := by rw [RingState.base, hat]; rfl
  have hbase' : (s.giveBack.goto pc).base = (s.ctx.curBlock.toNat + 1) % 8 := by
    rw [← nextBlock_toNat h.nr h.cur]
    unfold RingState.base
    exact if_pos hbetween
  have hbd : (s.giveBack.goto pc).bd = s.bd.release := Function.update_self _ _ _
  obtain ⟨early, late, hcopied, hgiven, hlate⟩ := h.copied
  have hlate : List.Forall₂ Delivered fs late := by
    rw [List.headD_cons, List.take_of_length_le hall] at hlate
    exact hlate
  refine ⟨h.nr, h.cur, ?_, ?_, ⟨early ++ late, [], ?_, List.rel_append hgiven hlate, .nil⟩, ?_, ?_⟩
  · have hwin := h.window.pop (free_release s.bd)
    rw [hbase] at hwin
    rw [hbase']
    exact hwin
  · show s.published = _
    rw [h.published, List.flatten_cons, List.append_assoc]
  · rw [List.append_nil, ← hcopied]
    unfold RingState.copied RingState.goto
    rw [hhand]
    rfl
  · show ∀ r ∈ pc.inHand, 0 ≤ r.ret
    rw [hhand]
    exact h.hand
  · rw [hbd]
    exact hplace

/-- The return of a frame. The cursor has moved on, in the block or to the next one. -/
theorem deliver {ctx : RawSocketCtx} {got : Recv} (h : RingInv s given pending c)
    (hhand : s.pc.inHand = [got]) (hnr : ctx.blockNr = s.ctx.blockNr)
    (hcur : ctx.curBlock.toNat = s.base)
    (hplace : Place ctx (s.blocks ctx.curBlock.toNat) .idle pending c) :
    RingInv ({ s with ctx := ctx }.finish got) given pending c where
  nr := hnr.trans h.nr
  cur := by
    have hlt := h.window.base_lt
    rw [← hcur] at hlt
    exact hlt
  window := by
    have hwin := h.window
    rw [← hcur] at hwin
    exact hwin
  published := h.published
  copied := by
    have hpos : 0 ≤ got.ret := h.hand got (by rw [hhand]; exact List.mem_singleton_self got)
    have hcopied : ({ s with ctx := ctx }.finish got).copied = s.copied := by
      rw [RingState.copied, RingState.copied, hhand]
      simp [RingState.received, framesOf, RingState.finish, hpos, Pc.inHand]
    rw [hcopied]
    exact h.copied
  hand r hr := absurd hr List.not_mem_nil
  place := hplace

theorem countLast {got : Recv} (h : RingInv s given pending c) (hpc : s.pc = .count got)
    (hend : s.ctx.curPktIdx + 1 ≥ s.ctx.curNumPkts) :
    RingInv { s with ctx := { s.ctx with curPktIdx := s.ctx.curPktIdx + 1 }, pc := .release got }
      given pending c := by
  have hplace := h.place
  rw [hpc] at hplace
  obtain ⟨fs, rest, i, rfl, rfl, hat⟩ := hplace
  have hidx : (s.ctx.curPktIdx + 1).toNat = i + 1 := hat.succ_idx
  have hlt : i < fs.length := hat.lt
  have hwin := h.window
  rw [RingState.base, hpc] at hwin
  have hle := UInt32.le_iff_toNat_le.mp hend
  rw [hidx, hat.num] at hle
  have hcopied := h.copied
  rw [RingState.copied, hpc] at hcopied
  have hhand := h.hand
  rw [hpc] at hhand
  exact ⟨h.nr, h.cur, hwin, h.published, hcopied, hhand, fs, rest, rfl, by omega⟩

theorem countMore {got : Recv} (h : RingInv s given pending c) (hpc : s.pc = .count got)
    (hmore : ¬s.ctx.curPktIdx + 1 ≥ s.ctx.curNumPkts) :
    RingInv ({ s with ctx := { s.ctx with
      curPktIdx := s.ctx.curPktIdx + 1
      curPktOffset :=
        s.ctx.curPktOffset + (s.bd.hdr s.ctx.curPktOffset).tpNextOffset } }.finish got)
      given pending c := by
  have hplace := h.place
  rw [hpc] at hplace
  obtain ⟨fs, rest, i, rfl, rfl, hat⟩ := hplace
  have hidx : (s.ctx.curPktIdx + 1).toNat = i + 1 := hat.succ_idx
  have hlt := mt UInt32.le_iff_toNat_le.mpr hmore
  rw [hidx, hat.num] at hlt
  refine h.deliver (by rw [hpc]; rfl) rfl ?_ ?_
  · rw [RingState.base, hpc]
    rfl
  · exact .inr ⟨fs, rest, rfl, Nat.succ_pos i, hat.advance (by omega)⟩

theorem pending_of_user {args : RecvArgs} (h : RingInv s given pending c)
    (hpc : s.pc = .look args) (huser : s.bd.user = true) : ∃ fs rest, pending = fs :: rest := by
  cases hp : pending with
  | cons fs rest => exact ⟨fs, rest, rfl⟩
  | nil =>
    have hwin := h.window
    rw [hp, RingState.base, hpc] at hwin
    have hfree := hwin.free 0 (Nat.zero_le _) (by decide)
    rw [offset_zero hwin.base_lt] at hfree
    exact absurd (huser.symm.trans hfree) (by decide)

theorem nothing_copied {args : RecvArgs} (h : RingInv s given pending c)
    (hpc : s.pc = .look args) (hidx : s.ctx.curPktIdx = 0) : c = 0 := by
  have hplace := h.place
  rw [hpc] at hplace
  cases hplace with
  | inl hnew => exact hnew.1
  | inr hold =>
    obtain ⟨fs, rest, -, -, hat⟩ := hold
    have hzero : s.ctx.curPktIdx.toNat = c := hat.idx
    rw [hidx] at hzero
    exact hzero.symm

theorem loadStep {args : RecvArgs} {pc : Pc} (h : RingInv s given pending c)
    (hpc : s.pc = .load args)
    (hnext : s.bd.numPkts = 0 ∧ pc = .skip args ∨ s.bd.numPkts ≠ 0 ∧ pc = .copy args) :
    RingInv { s with
      ctx := { s.ctx with
        curNumPkts := s.bd.numPkts
        curPktOffset := s.bd.offsetToFirstPkt }
      pc := pc } given pending c := by
  have hplace := h.place
  rw [hpc] at hplace
  obtain ⟨rfl, hidx, fs, rest, rfl⟩ := hplace
  have hholds := h.holds (by rw [hpc]; rfl)
  have hwin := h.window
  rw [RingState.base, hpc] at hwin
  have hcopied := h.copied
  rw [RingState.copied, hpc] at hcopied
  obtain ⟨hnum, rfl⟩ | ⟨hnum, rfl⟩ := hnext
  · refine ⟨h.nr, h.cur, hwin, h.published, hcopied, fun r hr => absurd hr List.not_mem_nil, ?_⟩
    have hnil : fs = [] := by
      rw [← hholds.frames, Block.frames, hnum]
      rfl
    exact ⟨rfl, hidx, rest, by rw [hnil]⟩
  · refine ⟨h.nr, h.cur, hwin, h.published, hcopied, fun r hr => absurd hr List.not_mem_nil, ?_⟩
    have hat := At.first hholds hnum
    rw [← hidx] at hat
    exact ⟨fs, rest, rfl, hat⟩

theorem moved {t : RingState} (h : RingInv s given pending c) (hmoved : Moved s t) :
    ∃ given pending c, RingInv t given pending c := by
  have hplace := h.place
  cases hmoved with
  | outside => exact ⟨given, pending, c, h⟩
  | stopped hpc =>
    rw [hpc] at hplace
    exact ⟨given, pending, c,
      h.fail (by rw [hpc]; rfl) (by rw [hpc]; rfl) (Int.negSucc_lt_zero 1) hplace⟩
  | entered hpc =>
    rw [hpc] at hplace
    exact ⟨given, pending, c, h.goto (by rw [hpc]; rfl) (by rw [hpc]; rfl) hplace⟩
  | newBlock hpc hidx huser =>
    exact ⟨given, pending, c, h.goto (by rw [hpc]; rfl) (by rw [hpc]; rfl)
      ⟨h.nothing_copied hpc hidx, hidx, h.pending_of_user hpc huser⟩⟩
  | noBlock hpc hidx =>
    exact ⟨given, pending, c, h.goto (by rw [hpc]; rfl) (by rw [hpc]; rfl)
      ⟨h.nothing_copied hpc hidx, hidx⟩⟩
  | sameBlock hpc hidx =>
    rw [hpc] at hplace
    obtain hnew | ⟨fs, rest, hp, -, hat⟩ := hplace
    · exact absurd hnew.2 hidx
    · exact ⟨given, pending, c, h.goto (by rw [hpc]; rfl) (by rw [hpc]; rfl) ⟨fs, rest, hp, hat⟩⟩
  | pollError hpc =>
    rw [hpc] at hplace
    exact ⟨given, pending, c,
      h.fail (by rw [hpc]; rfl) (by rw [hpc]; rfl) (Int.negSucc_lt_zero 0) (.inl hplace)⟩
  | polled hpc =>
    rw [hpc] at hplace
    exact ⟨given, pending, c, h.goto (by rw [hpc]; rfl) (by rw [hpc]; rfl) (.inl hplace)⟩
  | loaded hpc hnext => exact ⟨given, pending, c, h.loadStep hpc hnext⟩
  | skipped hpc =>
    -- a block without packets: nothing is added to the frames given back
    rw [hpc] at hplace
    obtain ⟨rfl, hidx, rest, rfl⟩ := hplace
    exact ⟨given ++ [], rest, 0,
      h.giveBack (Nat.le_refl 0) (by rw [hpc]; rfl) rfl (by rw [hpc]; rfl) ⟨rfl, hidx⟩⟩
  | left hpc =>
    rw [hpc] at hplace
    have hwin := h.window
    rw [RingState.base, hpc] at hwin
    have hcopied := h.copied
    rw [RingState.copied, hpc] at hcopied
    exact ⟨given, pending, c, h.nr, hwin.base_lt, hwin, h.published, hcopied,
      fun r hr => absurd hr List.not_mem_nil, .inl hplace⟩
  | copied hpc => exact ⟨given, pending, c + 1, h.copyStep hpc⟩
  | last hpc hend => exact ⟨given, pending, c, h.countLast hpc hend⟩
  | counted hpc hmore => exact ⟨given, pending, c, h.countMore hpc hmore⟩
  | released hpc =>
    -- the first pending block becomes the last one given back
    rw [hpc] at hplace
    obtain ⟨fs, rest, rfl, hc⟩ := hplace
    exact ⟨given ++ fs, rest, 0,
      h.giveBack (Nat.le_of_eq hc.symm) (by rw [hpc]; rfl) rfl (by rw [hpc]; rfl) rfl⟩
  | returned hpc =>
    rw [hpc] at hplace
    exact ⟨given, pending, c, h.deliver (by rw [hpc]; rfl) rfl (by rw [RingState.base, hpc]; rfl)
      (.inl ⟨hplace, rfl⟩)⟩

end RingInv

theorem ringInv_of_reachable {s : RingState} (h : ringSystem.Reachable s) :
    ∃ given pending c, RingInv s given pending c := by
  apply h.invariant
  · intro s hs
    exact ⟨[], [], 0, .start hs⟩
  · intro s t _ hinv hstep
    obtain ⟨given, pending, c, hinv⟩ := hinv
    cases hstep with
    | call args hpc => exact ⟨given, pending, c, hinv.call args hpc⟩
    | recv e => exact hinv.moved (moved_recvStep s e)
    | stop => exact ⟨given, pending, c, hinv.stop⟩
    | fill k b hk hb => exact ⟨given, pending, c, hinv.fill hk hb⟩
    | publish b hk hb => exact ⟨given, pending ++ [b.frames], c, hinv.publish hk hb⟩

end MyWireshark.Capture
