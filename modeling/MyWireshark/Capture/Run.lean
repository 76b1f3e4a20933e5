import MyWireshark.Capture.RawSocket
import MyWireshark.CapFilter.Codegen

/-! run_impl of capture_backend_linux.c, from the compilation of the capture filter to the end
of the receive loop, while frames arrive at the interface. -/
namespace MyWireshark.Capture
open Transition Bpf CapFilter MyWireshark.Filter

def rawSocketMaxFrame : UInt32 := 65536

def recvArgs : RecvArgs := ⟨true, true, rawSocketMaxFrame, true, true⟩

/-- The arguments of run_impl, and whether the allocation of the compiled program succeeds. -/
structure RunArgs where
  bpfFilter : Option (List Char)
  pcapOutputPath : Option (List Char)
  mallocOk : Bool

/-- Where in run_impl the capture thread is. raw_socket_open has three places: up to
PACKET_VERSION, PACKET_RX_RING, and the rest of it. -/
inductive RunPc where
  | compile
  | openSocket
  | rxRing
  | mapRing
  | attach
  | openPcap
  | pcapHeader
  | activate
  | loop
  | receive
  | writeRecord (r : Recv)
  | callback (r : Recv)
  | closePcap (result : Int)
  | closeSocket (result : Int)
  | done (result : Int)

/-- A frame on the wire that got into the ring, and what was stored of it. -/
structure Entered where
  wire : List UInt8
  frame : Frame
  deriving DecidableEq

/-- The variables of run_impl and g_active_ctx, the ring, whether the socket has it yet, the
program attached to the socket, and the frames: those of the block that the kernel is filling,
all that got into the ring, those written to the .pcap file and those passed to the callback. -/
structure RunState where
  pc : RunPc
  filterProg : SockFprog
  pcapFile : Bool
  activeCtx : Bool
  ring : RingState
  ringUp : Bool
  attached : Option SockFprog
  filling : List Frame
  entered : List Entered
  written : List Recv
  handed : List Recv

def capfilterFree (_ : SockFprog) : SockFprog := ⟨0, none⟩

/-- How many bytes of a frame a program keeps, `none` for a frame that it rejects. -/
def keeps (prog : SockFprog) (wire : List UInt8) : Option Nat :=
  (bpfInterpRun prog wire wire.length).filter (· ≠ 0)

def accepts (prog : SockFprog) (wire : List UInt8) : Bool := (keeps prog wire).isSome

/-- How many bytes of an arriving frame the socket keeps: all of them where no program is
attached. -/
def verdict (attached : Option SockFprog) (wire : List UInt8) : Option Nat :=
  match attached with
  | none => some wire.length
  | some prog => keeps prog wire

namespace RunState
variable (s : RunState)

/-- The exit of run_impl before the loop: raw_socket_close and return -1. -/
def abort : RunState :=
  { s with filterProg := capfilterFree s.filterProg, ringUp := false, pc := .done (-1) }

/-- The next step of run_impl. `ok` says how the system call of the step ends. The step is
`none` where capfilter_compile leaves its arrays. -/
def runStep (args : RunArgs) (ok : Bool) : Option RunState :=
  match s.pc with
  | .compile =>
    match args.bpfFilter with
    | none => some { s with pc := .openSocket }
    | some expr =>
      if isEmpty expr then some { s with pc := .openSocket }
      else do
        let r ← capfilterCompile (some expr) (some s.filterProg) false 128 args.mallocOk
        if r.ret ≠ 0 then some { s with pc := .done (-1) }
        else some { s with filterProg := r.out.getD s.filterProg, pc := .openSocket }
  | .openSocket => some (if ok then { s with pc := .rxRing } else s.abort)
  | .rxRing => some (if ok then { s with ringUp := true, pc := .mapRing } else s.abort)
  | .mapRing => some (if ok then { s with pc := .attach } else s.abort)
  | .attach =>
    let freed := capfilterFree s.filterProg
    if s.filterProg.filter.isSome then
      some (if ok then
        { s with attached := some s.filterProg, filterProg := freed, pc := .openPcap }
      else s.abort)
    else some { s with filterProg := freed, pc := .openPcap }
  | .openPcap =>
    match args.pcapOutputPath with
    | none => some { s with pc := .activate }
    | some path =>
      if isEmpty path then some { s with pc := .activate }
      else some (if ok then { s with pcapFile := true, pc := .pcapHeader } else s.abort)
  | .pcapHeader => some (if ok then { s with pc := .activate } else s.abort)
  | .activate => some { s with activeCtx := true, pc := .loop }
  | .loop =>
    some { s with ring := s.ring.rawSocketRecv recvArgs, pc := .receive }
  | .receive =>
    match s.ring.pc with
    | .idle => do
      let r ← s.ring.recvs.getLast?
      if r.ret = rawSocketStopped then some { s with pc := .closePcap 0 }
      else if r.ret < 0 then some { s with pc := .closePcap (-1) }
      else some { s with pc := .writeRecord r }
    | _ => some { s with ring := s.ring.recvStep !ok }
  | .writeRecord r =>
    if s.pcapFile then
      -- a write that fails may have written a part of the record
      some { s with
        written := s.written ++ [r]
        pc := if ok then .callback r else .closePcap (-1) }
    else some { s with pc := .callback r }
  | .callback r => some { s with handed := s.handed ++ [r], pc := .loop }
  | .closePcap result =>
    let result := if s.pcapFile && !ok then -1 else result
    some { s with activeCtx := false, pc := .closeSocket result }
  | .closeSocket result => some { s with ringUp := false, pc := .done result }
  | .done _ => none

/-- A frame arrives: it gets into the ring unless the program attached now rejects it. -/
def arrive (wire : List UInt8) (sec nsec : UInt32) : RunState :=
  match verdict s.attached wire with
  | none => s
  | some n =>
    let frame := ⟨wire.take n, sec, nsec⟩
    { s with filling := s.filling ++ [frame], entered := s.entered ++ [⟨wire, frame⟩] }

def requestStopImpl : RunState :=
  if s.activeCtx then { s with ring := s.ring.rawSocketRequestStop } else s

end RunState

/-- The steps of run_impl, of a thread or signal that asks for a stop, and of the kernel: a
frame arrives, a block is written to, the block being filled is published. -/
inductive RunStep (args : RunArgs) (s : RunState) : RunState → Prop where
  | run (ok : Bool) {t : RunState} (h : s.runStep args ok = some t) : RunStep args s t
  | stop : RunStep args s s.requestStopImpl
  | arrive (wire : List UInt8) (sec nsec : UInt32) (h : s.ringUp = true) :
    RunStep args s (s.arrive wire sec nsec)
  | fill (k : Nat) (b : Block) (hup : s.ringUp = true) (h : (s.ring.blocks k).user = false)
    (hb : b.user = false) : RunStep args s { s with ring := s.ring.write k b }
  | publish (b : Block) (hup : s.ringUp = true)
    (h : (s.ring.blocks s.ring.kernelAt).user = false) (hb : b.Published)
    (hfilling : b.frames = s.filling) :
    RunStep args s { s with ring := s.ring.publish b, filling := [] }

structure RunStart (s : RunState) : Prop where
  pc : s.pc = .compile
  filterProg : s.filterProg = ⟨0, none⟩
  pcapFile : s.pcapFile = false
  activeCtx : s.activeCtx = false
  ring : RingStart s.ring
  ringUp : s.ringUp = false
  attached : s.attached = none
  filling : s.filling = []
  entered : s.entered = []
  written : s.written = []
  handed : s.handed = []

def runSystem (args : RunArgs) : System RunState := ⟨RunStart, RunStep args⟩

/-- The compilation of the filter at the start of run_impl: the program, or the line printed. -/
def compileFilter (args : RunArgs) : Option (Except String SockFprog) :=
  match args.bpfFilter with
  | none => some (.ok ⟨0, none⟩)
  | some expr =>
    if isEmpty expr then some (.ok ⟨0, none⟩)
    else do
      let r ← capfilterCompile (some expr) (some ⟨0, none⟩) false 128 args.mallocOk
      if r.ret ≠ 0 then
        some (.error ("error: invalid filter expression \"" ++
          String.ofList (expr.takeWhile (· != '\x00')) ++ "\": " ++ r.ctx.errText.getD ""))
      else some (.ok (r.out.getD ⟨0, none⟩))

/-- The program that the filter of a run compiles to, the empty one for no filter at all. -/
def RunArgs.program (args : RunArgs) : Option SockFprog :=
  match compileFilter args with
  | some (.ok prog) => some prog
  | _ => none

theorem RunArgs.program_eq {args : RunArgs} {prog : SockFprog} :
    args.program = some prog ↔ compileFilter args = some (.ok prog) := by
  unfold RunArgs.program
  split <;> simp_all

end MyWireshark.Capture
