import MyWireshark.Lib.Transition
import Mathlib.Algebra.Group.Int.Defs
import Mathlib.Algebra.Group.Nat.Defs
import Mathlib.Logic.Function.Basic

/-! The ring reader of raw_socket.c: the blocks shared with the kernel, the read cursor of
raw_socket_ctx, and raw_socket_recv as the steps of its loop, so that the kernel and a
stop request may come between any two of them. -/
namespace MyWireshark.Capture
open Transition

def rsRingBlockSize : Nat := 2 ^ 20
def rsRingBlockNr : UInt32 := 8
def rawSocketStopped : Int := -2
def tpStatusKernel : UInt32 := 0
def tpStatusUser : UInt32 := 1

def tpacket3HdrSize : Nat := 48

/-- The fields of struct tpacket3_hdr that the reader uses. -/
structure Tpacket3Hdr where
  tpNextOffset : UInt32
  tpSec : UInt32
  tpNsec : UInt32
  tpSnaplen : UInt32
  tpMac : UInt16

/-- A block of the ring: the fields bh1 of its descriptor, the packet header that stands at
each offset, and its bytes. -/
structure Block where
  blockStatus : UInt32
  numPkts : UInt32
  offsetToFirstPkt : UInt32
  hdr : UInt32 → Tpacket3Hdr
  byte : Nat → UInt8

structure Frame where
  bytes : List UInt8
  sec : UInt32
  nsec : UInt32
  deriving DecidableEq

namespace Block
variable (b : Block)

def user : Bool := b.blockStatus &&& tpStatusUser != 0

def release : Block := { b with blockStatus := tpStatusKernel }

def bytes (start len : Nat) : List UInt8 := (List.range len).map fun i => b.byte (start + i)

/-- hdr + tp_mac, for the header at the offset `o`. -/
def frameStart (o : UInt32) : Nat := o.toNat + (b.hdr o).tpMac.toNat

def frameAt (o : UInt32) : Frame :=
  ⟨b.bytes (b.frameStart o) (b.hdr o).tpSnaplen.toNat, (b.hdr o).tpSec, (b.hdr o).tpNsec⟩

def chain (o : UInt32) : Nat → List Frame
  | 0 => []
  | n + 1 => b.frameAt o :: chain (o + (b.hdr o).tpNextOffset) n

def PacketFits (o : UInt32) : Prop :=
  o.toNat + tpacket3HdrSize ≤ rsRingBlockSize ∧
  b.frameStart o + (b.hdr o).tpSnaplen.toNat ≤ rsRingBlockSize

def ChainFits (o : UInt32) : Nat → Prop
  | 0 => True
  | n + 1 => b.PacketFits o ∧ ChainFits (o + (b.hdr o).tpNextOffset) n

instance (o : UInt32) : Decidable (b.PacketFits o) := inferInstanceAs (Decidable (_ ∧ _))

instance decidableChainFits : (o : UInt32) → (n : Nat) → Decidable (b.ChainFits o n)
  | _, 0 => .isTrue trivial
  | o, n + 1 =>
    have := decidableChainFits (o + (b.hdr o).tpNextOffset) n
    inferInstanceAs (Decidable (_ ∧ _))

def frames : List Frame := b.chain b.offsetToFirstPkt b.numPkts.toNat

structure Published : Prop where
  user : b.user = true
  fits : b.ChainFits b.offsetToFirstPkt b.numPkts.toNat

end Block

/-- struct raw_socket_ctx, without the file descriptor and the fields for closing it. -/
structure RawSocketCtx where
  stopRequested : Bool
  blockNr : UInt32
  curBlock : UInt32
  curPktIdx : UInt32
  curPktOffset : UInt32
  curNumPkts : UInt32

/-- The arguments of raw_socket_recv: which of the pointers are not NULL, and buf_len. -/
structure RecvArgs where
  ctx : Bool
  buf : Bool
  bufLen : UInt32
  outTsSeconds : Bool
  outTsMicroseconds : Bool

/-- A call of raw_socket_recv that has come to its return: the value returned, the bytes put
into buf, and what was stored through the two time stamp pointers. -/
structure Recv where
  args : RecvArgs
  ret : Int
  buf : List UInt8
  tsSeconds : Option UInt32
  tsMicroseconds : Option UInt32

/-- Where in raw_socket_recv the reader is: outside, at the test of stop_requested, at those of
cur_pkt_idx and block_status, in poll, in front of num_pkts, about to give back a block without
packets and to leave it, about to copy a packet, to count it, and to give back a drained block
and to leave it. -/
inductive Pc where
  | idle
  | top (args : RecvArgs)
  | look (args : RecvArgs)
  | poll (args : RecvArgs)
  | load (args : RecvArgs)
  | skip (args : RecvArgs)
  | skipNext (args : RecvArgs)
  | copy (args : RecvArgs)
  | count (got : Recv)
  | release (got : Recv)
  | next (got : Recv)

/-- The ring, the reader, the calls that have returned, the block that the kernel fills next and
the frames of the blocks published so far. -/
structure RingState where
  blocks : Nat → Block
  ctx : RawSocketCtx
  pc : Pc
  recvs : List Recv
  kernelAt : Nat
  published : List Frame

def toInt (x : UInt32) : Int := if x.toNat < 2 ^ 31 then x.toNat else (x.toNat : Int) - 2 ^ 32

def copyPacket (args : RecvArgs) (bd : Block) (offset : UInt32) : Recv :=
  let hdr := bd.hdr offset
  let frameLen := hdr.tpSnaplen
  let copyLen := if frameLen < args.bufLen then frameLen else args.bufLen
  { args := args
    ret := toInt copyLen
    buf := bd.bytes (bd.frameStart offset) copyLen.toNat
    tsSeconds := if args.outTsSeconds then some hdr.tpSec else none
    tsMicroseconds := if args.outTsMicroseconds then some (hdr.tpNsec / 1000) else none }

namespace RingState
variable (s : RingState)

def bd : Block := s.blocks s.ctx.curBlock.toNat

def goto (pc : Pc) : RingState := { s with pc := pc }

def finish (r : Recv) : RingState := { s with pc := .idle, recvs := s.recvs ++ [r] }

def giveBack : RingState :=
  { s with blocks := Function.update s.blocks s.ctx.curBlock.toNat s.bd.release }

def nextBlock : UInt32 := (s.ctx.curBlock + 1) % s.ctx.blockNr

def rawSocketRecv (args : RecvArgs) : RingState :=
  if args.ctx = false ∨ args.buf = false then s.finish ⟨args, -1, [], none, none⟩
  else s.goto (.top args)

/-- The next step of the call under way. `pollError` says how the system call poll ends: with
an error other than EINTR, or in any other way. -/
def recvStep (pollError : Bool) : RingState :=
  match s.pc with
  | .idle => s
  | .top args =>
    if s.ctx.stopRequested then s.finish ⟨args, rawSocketStopped, [], none, none⟩
    else s.goto (.look args)
  | .look args =>
    if s.ctx.curPktIdx = 0 then
      if s.bd.user then s.goto (.load args) else s.goto (.poll args)
    else s.goto (.copy args)
  | .poll args =>
    if pollError then s.finish ⟨args, -1, [], none, none⟩ else s.goto (.top args)
  | .load args =>
    { s with
      ctx := { s.ctx with
        curNumPkts := s.bd.numPkts
        curPktOffset := s.bd.offsetToFirstPkt }
      pc := if s.bd.numPkts = 0 then .skip args else .copy args }
  | .skip args => s.giveBack.goto (.skipNext args)
  | .skipNext args => { s with ctx := { s.ctx with curBlock := s.nextBlock }, pc := .top args }
  | .copy args => s.goto (.count (copyPacket args s.bd s.ctx.curPktOffset))
  | .count got =>
    let idx := s.ctx.curPktIdx + 1
    if idx ≥ s.ctx.curNumPkts then
      { s with ctx := { s.ctx with curPktIdx := idx }, pc := .release got }
    else
      let offset := s.ctx.curPktOffset + (s.bd.hdr s.ctx.curPktOffset).tpNextOffset
      let ctx := { s.ctx with curPktIdx := idx, curPktOffset := offset }
      { s with ctx := ctx }.finish got
  | .release got => s.giveBack.goto (.next got)
  | .next got =>
    { s with ctx := { s.ctx with curBlock := s.nextBlock, curPktIdx := 0 } }.finish got

def rawSocketRequestStop : RingState := { s with ctx := { s.ctx with stopRequested := true } }

def write (k : Nat) (b : Block) : RingState := { s with blocks := Function.update s.blocks k b }

def publish (b : Block) : RingState :=
  { s with
    blocks := Function.update s.blocks s.kernelAt b
    kernelAt := (s.kernelAt + 1) % s.ctx.blockNr.toNat
    published := s.published ++ b.frames }

end RingState

/-- The steps of the reader, of the thread that asks it to stop, and of the kernel, which
keeps its hands off the blocks that carry TP_STATUS_USER. -/
inductive RingStep (s : RingState) : RingState → Prop where
  | call (args : RecvArgs) (h : s.pc = .idle) : RingStep s (s.rawSocketRecv args)
  | recv (pollError : Bool) : RingStep s (s.recvStep pollError)
  | stop : RingStep s s.rawSocketRequestStop
  | fill (k : Nat) (b : Block) (h : (s.blocks k).user = false) (hb : b.user = false) :
    RingStep s (s.write k b)
  | publish (b : Block) (h : (s.blocks s.kernelAt).user = false) (hb : b.Published) :
    RingStep s (s.publish b)

def openCtx : RawSocketCtx := ⟨false, rsRingBlockNr, 0, 0, 0, 0⟩

/-- A ring as raw_socket_open leaves it: all its blocks are the kernel's. -/
structure RingStart (s : RingState) : Prop where
  blocks : ∀ k, (s.blocks k).user = false
  ctx : s.ctx = openCtx
  pc : s.pc = .idle
  recvs : s.recvs = []
  kernelAt : s.kernelAt = 0
  published : s.published = []

def ringSystem : System RingState := ⟨RingStart, RingStep⟩

end MyWireshark.Capture
