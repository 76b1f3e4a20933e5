import MyWireshark.Capture.RawSocket
import Mathlib.Data.List.Forall2

/-! The read cursor: what a copy of the packet under it hands out, and where in the chain of a
block it stands. -/
namespace MyWireshark.Capture

/-- A call returned the frame `f`: cut to buf_len, with the time stamp of `f` where one was
asked for. -/
structure Delivered (f : Frame) (r : Recv) : Prop where
  ret : r.ret = min f.bytes.length r.args.bufLen.toNat
  buf : r.buf = f.bytes.take r.args.bufLen.toNat
  seconds : r.tsSeconds = if r.args.outTsSeconds then some f.sec else none
  microseconds : r.tsMicroseconds = if r.args.outTsMicroseconds then some (f.nsec / 1000) else none

theorem toInt_of_lt {x : UInt32} (h : x.toNat < 2 ^ 31) : toInt x = x.toNat := if_pos h

theorem Block.bytes_take (b : Block) (start len k : Nat) :
    (b.bytes start len).take k = b.bytes start (min k len) := by
  rw [Block.bytes, ← List.map_take, List.take_range]
  rfl

theorem Block.length_chain (b : Block) (o : UInt32) (n : Nat) : (b.chain o n).length = n := by
  induction n generalizing o with
  | zero => rfl
  | succ n ih => rw [Block.chain, List.length_cons, ih]

theorem copyLen_toNat (x y : UInt32) : (if x < y then x else y).toNat = min y.toNat x.toNat := by
  by_cases h : x < y
  · rw [if_pos h]
    have := UInt32.lt_iff_toNat_lt.mp h
    omega
  · rw [if_neg h]
    have := mt UInt32.lt_iff_toNat_lt.mpr h
    omega

/-- Frames fit the block, so that their length is never negative as an int. -/
theorem copyPacket_delivered {b : Block} {o : UInt32} (args : RecvArgs) (h : b.PacketFits o) :
    Delivered (b.frameAt o) (copyPacket args b o) := by
  have hsnap : (b.hdr o).tpSnaplen.toNat ≤ rsRingBlockSize :=
    Nat.le_trans (Nat.le_add_left _ _) h.2
  have hsize : rsRingBlockSize = 2 ^ 20 := rfl
  have hlen : (b.frameAt o).bytes.length = (b.hdr o).tpSnaplen.toNat := by
    simp [Block.frameAt, Block.bytes]
  refine ⟨?_, ?_, rfl, rfl⟩
  · have hcopy := copyLen_toNat (b.hdr o).tpSnaplen args.bufLen
    show toInt (if (b.hdr o).tpSnaplen < args.bufLen then _ else _) = _
    rw [toInt_of_lt (by omega), hcopy, hlen, Nat.min_comm]
    rfl
  · show b.bytes _ (UInt32.toNat (if _ then _ else _)) = _
    rw [copyLen_toNat, ← Block.bytes_take]
    rfl

structure Holds (fs : List Frame) (b : Block) : Prop where
  published : b.Published
  frames : b.frames = fs

def Free (b : Block) : Prop := b.user = false

theorem Holds.not_free (fs : List Frame) (b : Block) (h : Holds fs b) : ¬Free b := by
  intro hfree
  rw [Free, h.published.user] at hfree
  cases hfree

theorem free_release (b : Block) : Free b.release := by
  simp [Free, Block.user, Block.release, tpStatusKernel]

/-- A cursor, its three fields that is, at the packet `i` of the block `b`, which carries the
frames `fs`. -/
structure At (idx offset num : UInt32) (b : Block) (fs : List Frame) (i : Nat) : Prop where
  lt : i < fs.length
  idx : idx.toNat = i
  num : num.toNat = fs.length
  chain : b.chain offset (fs.length - i) = fs.drop i
  fits : b.ChainFits offset (fs.length - i)

def Inside (ctx : RawSocketCtx) (b : Block) (fs : List Frame) (i : Nat) : Prop :=
  At ctx.curPktIdx ctx.curPktOffset ctx.curNumPkts b fs i

/-- The reader is in the first block of `pending` and has copied `c` packets out of it. -/
def Place (ctx : RawSocketCtx) (b : Block) (pc : Pc) (pending : List (List Frame)) (c : Nat) :
    Prop :=
  match pc with
  | .idle | .top _ | .look _ =>
    (c = 0 ∧ ctx.curPktIdx = 0) ∨ ∃ fs rest, pending = fs :: rest ∧ 0 < c ∧ Inside ctx b fs c
  | .poll _ | .skipNext _ => c = 0 ∧ ctx.curPktIdx = 0
  | .load _ => c = 0 ∧ ctx.curPktIdx = 0 ∧ ∃ fs rest, pending = fs :: rest
  | .skip _ => c = 0 ∧ ctx.curPktIdx = 0 ∧ ∃ rest, pending = [] :: rest
  | .copy _ => ∃ fs rest, pending = fs :: rest ∧ Inside ctx b fs c
  | .count _ => ∃ fs rest i, pending = fs :: rest ∧ c = i + 1 ∧ Inside ctx b fs i
  | .release _ => ∃ fs rest, pending = fs :: rest ∧ c = fs.length
  | .next _ => c = 0

namespace At
variable {idx offset num : UInt32} {b : Block} {fs : List Frame} {i : Nat}

theorem first (h : Holds fs b) (hnum : b.numPkts ≠ 0) :
    At 0 b.offsetToFirstPkt b.numPkts b fs 0 := by
  have hlen : b.numPkts.toNat = fs.length := by rw [← h.frames, Block.frames, Block.length_chain]
  refine ⟨?_, rfl, hlen, ?_, ?_⟩
  · rw [← hlen]
    exact Nat.pos_of_ne_zero fun hz => hnum (UInt32.toNat_inj.mp hz)
  · rw [← hlen]
    exact h.frames
  · rw [← hlen]
    exact h.published.fits

theorem succ_idx (h : At idx offset num b fs i) : (idx + 1).toNat = i + 1 := by
  have hbound := num.toNat_lt
  have hlt := h.lt
  rw [h.num] at hbound
  rw [UInt32.toNat_add, UInt32.toNat_one, h.idx]
  omega

theorem unfold_chain (h : At idx offset num b fs i) :
    b.PacketFits offset ∧
    b.ChainFits (offset + (b.hdr offset).tpNextOffset) (fs.length - (i + 1)) ∧
    fs.drop i = b.frameAt offset ::
      b.chain (offset + (b.hdr offset).tpNextOffset) (fs.length - (i + 1)) := by
  have hlt := h.lt
  have hsucc : fs.length - i = fs.length - (i + 1) + 1 := by omega
  have hfits := h.fits
  have hchain := h.chain
  rw [hsucc] at hfits hchain
  exact ⟨hfits.1, hfits.2, hchain.symm⟩

theorem take_succ (h : At idx offset num b fs i) :
    fs.take (i + 1) = fs.take i ++ [b.frameAt offset] := by
  have hhead := h.unfold_chain.2.2
  rw [List.drop_eq_getElem_cons h.lt, List.cons.injEq] at hhead
  rw [List.take_succ_eq_append_getElem h.lt, hhead.1]

theorem advance (h : At idx offset num b fs i) (hlt : i + 1 < fs.length) :
    At (idx + 1) (offset + (b.hdr offset).tpNextOffset) num b fs (i + 1) := by
  obtain ⟨-, hfits, htail⟩ := h.unfold_chain
  rw [List.drop_eq_getElem_cons h.lt, List.cons.injEq] at htail
  exact ⟨hlt, h.succ_idx, h.num, htail.2.symm, hfits⟩

end At

/-- The block under the cursor has been given back already. -/
def Pc.between : Pc → Bool
  | .skipNext _ | .next _ => true
  | _ => false

theorem Place.append {ctx : RawSocketCtx} {b b' : Block} {pc : Pc}
    {pending : List (List Frame)} {c : Nat} (h : Place ctx b pc pending c)
    (hb : pc.between = false → pending ≠ [] → b' = b) (more : List (List Frame)) :
    Place ctx b' pc (pending ++ more) c := by
  have hcons : ∀ fs rest, pending = fs :: rest → pending ++ more = fs :: (rest ++ more) := by
    rintro fs rest rfl
    rfl
  have hsame : ∀ fs rest, pc.between = false → pending = fs :: rest → b' = b := by
    rintro fs rest hpc rfl
    exact hb hpc (List.cons_ne_nil fs rest)
  cases pc with
  | idle | top | look =>
    cases h with
    | inl h => exact .inl h
    | inr h =>
      obtain ⟨fs, rest, hp, hc, hin⟩ := h
      obtain rfl := hsame fs rest rfl hp
      exact .inr ⟨fs, rest ++ more, hcons fs rest hp, hc, hin⟩
  | poll | skipNext | next => exact h
  | load =>
    obtain ⟨hc, hidx, fs, rest, hp⟩ := h
    exact ⟨hc, hidx, fs, rest ++ more, hcons fs rest hp⟩
  | skip =>
    obtain ⟨hc, hidx, rest, hp⟩ := h
    exact ⟨hc, hidx, rest ++ more, hcons [] rest hp⟩
  | copy =>
    obtain ⟨fs, rest, hp, hin⟩ := h
    obtain rfl := hsame fs rest rfl hp
    exact ⟨fs, rest ++ more, hcons fs rest hp, hin⟩
  | count =>
    obtain ⟨fs, rest, i, hp, hc, hin⟩ := h
    obtain rfl := hsame fs rest rfl hp
    exact ⟨fs, rest ++ more, i, hcons fs rest hp, hc, hin⟩
  | release =>
    obtain ⟨fs, rest, hp, hc⟩ := h
    exact ⟨fs, rest ++ more, hcons fs rest hp, hc⟩

theorem Place.nothing {ctx : RawSocketCtx} {b : Block} {pc : Pc} {c : Nat}
    (h : Place ctx b pc [] c) : c = 0 := by
  cases pc <;> simp_all [Place]

end MyWireshark.Capture
