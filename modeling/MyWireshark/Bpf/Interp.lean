import MyWireshark.Lib.Bytes
import MyWireshark.Lib.Machine

/-! Classic BPF programs and the reference interpreter of bpf_interp.c. Registers, offsets
and operands are 32-bit, kept as numbers below 2^32. `none` is an access outside the
packet buffer or the program. -/
namespace MyWireshark.Bpf
open Bytes (u32)

structure SockFilter where
  code : Nat
  jt : Nat
  jf : Nat
  k : Nat
  deriving DecidableEq

/-- struct sock_fprog; `filter` is `none` for the NULL pointer. -/
structure SockFprog where
  len : Nat
  filter : Option (List SockFilter)
  deriving DecidableEq

/- The encoding of linux/bpf_common.h. -/

def bpfLd : Nat := 0x00
def bpfLdx : Nat := 0x01
def bpfAlu : Nat := 0x04
def bpfJmp : Nat := 0x05
def bpfRet : Nat := 0x06
def bpfW : Nat := 0x00
def bpfH : Nat := 0x08
def bpfB : Nat := 0x10
def bpfAbs : Nat := 0x20
def bpfInd : Nat := 0x40
def bpfMsh : Nat := 0xa0
def bpfAnd : Nat := 0x50
def bpfJeq : Nat := 0x10
def bpfK : Nat := 0x00

def bpfClass (code : Nat) : Nat := code &&& 0x07
def bpfSize (code : Nat) : Nat := code &&& 0x18
def bpfMode (code : Nat) : Nat := code &&& 0xe0
def bpfOp (code : Nat) : Nat := code &&& 0xf0

/-- The loop of load_u: `width` more bytes from `off` on, most significant first. -/
def loadLoop (pkt : List UInt8) (v off : Nat) : (width : Nat) → Option Nat
  | 0 => some v
  | width + 1 => do
    let b ← pkt[off]?
    loadLoop pkt (u32 (v <<< 8 ||| b.toNat)) (off + 1) width

/-- load_u; the inner `none` is its `return -1`. -/
def loadU (pkt : List UInt8) (pktLen off width : Nat) : Option (Option Nat) :=
  if u32 (off + width) > pktLen then some none
  else (loadLoop pkt 0 off width).map some

structure Regs where
  a : Nat
  x : Nat
  pc : Nat

/-- What an instruction leads to: the interpreter returns, or goes on. -/
abbrev Outcome := Option Nat ⊕ Regs

/-- A register load, rejecting the packet when the bytes are not there. -/
def loaded (v : Option (Option Nat)) (next : Nat → Regs) : Outcome :=
  match v with
  | none => .inl none
  | some none => .inl (some 0)
  | some (some v) => .inr (next v)

def interpLoad (pkt : List UInt8) (pktLen : Nat) (f : SockFilter) (r : Regs) : Outcome :=
  let width := if bpfSize f.code = bpfW then 4 else if bpfSize f.code = bpfH then 2 else 1
  let store (v : Nat) : Regs :=
    if bpfClass f.code = bpfLd then { r with a := v, pc := r.pc + 1 }
    else { r with x := v, pc := r.pc + 1 }
  if bpfMode f.code = bpfAbs then loaded (loadU pkt pktLen f.k width) store
  else if bpfMode f.code = bpfInd then loaded (loadU pkt pktLen (u32 (f.k + r.x)) width) store
  else if bpfMode f.code = bpfMsh then
    loaded (loadU pkt pktLen f.k 1) fun v => { r with x := (v &&& 0x0f) * 4, pc := r.pc + 1 }
  else .inl (some 0)

def interpInsn (pkt : List UInt8) (pktLen : Nat) (f : SockFilter) (r : Regs) : Outcome :=
  if bpfClass f.code = bpfLd ∨ bpfClass f.code = bpfLdx then interpLoad pkt pktLen f r
  else if bpfClass f.code = bpfAlu then
    .inr { r with a := if bpfOp f.code = bpfAnd then r.a &&& f.k else r.a, pc := r.pc + 1 }
  else if bpfClass f.code = bpfJmp then
    if bpfOp f.code = bpfJeq then
      .inr { r with pc := r.pc + 1 + if r.a = f.k then f.jt else f.jf }
    else .inl (some 0)
  else if bpfClass f.code = bpfRet then .inl (some f.k)
  else .inl (some 0)

def interpStep (len : Nat) (pkt : List UInt8) (pktLen : Nat) (insns : List SockFilter)
    (r : Regs) : Outcome :=
  if r.pc < len then
    match insns[r.pc]? with
    | none => .inl none
    | some f => interpInsn pkt pktLen f r
  else .inl (some 0)

/-- bpf_interp_run. Its guard stops after 10000 instructions with 0, which is also what
leaving the loop returns. -/
def bpfInterpRun (prog : SockFprog) (pkt : List UInt8) (pktLen : Nat) : Option Nat :=
  match prog.filter with
  | none => some 0xFFFF
  | some insns =>
    if prog.len = 0 then some 0xFFFF
    else Machine.run (interpStep prog.len pkt pktLen insns) (some 0) 10000 ⟨0, 0, 0⟩

end MyWireshark.Bpf
