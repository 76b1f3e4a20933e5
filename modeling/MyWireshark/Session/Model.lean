import MyWireshark.Capture.Outcome
import MyWireshark.Queue.Progress
import MyWireshark.Session.Printer

/-! The capture of main.cpp as one system: the capture thread, which runs run_impl with a callback
that pushes each frame and then closes the queue; the main thread, which pops and prints, joins the
other one and exits; and around them the kernel and stop requests. -/
namespace MyWireshark.Session
open Transition Queue Capture

def recvFrame (r : Recv) : CapturedFrame :=
  ⟨r.buf, (r.tsSeconds.getD 0).toNat, (r.tsMicroseconds.getD 0).toNat⟩

/-- The exit code of main for a result of capture_backend_run. -/
def exitCode (result : Int) : Int := if result ≠ 0 then 1 else 0

/-- Where the main thread is, from its first call of pop on. -/
inductive MainAt where
  | pop
  /-- in pop, or back from it -/
  | popping
  | join
  | exited (code : Int)
  deriving DecidableEq

structure Process where
  run : RunState
  /-- the callback of run_impl has called push -/
  pushing : Bool
  mon : QueueState
  /-- the capture thread has called close -/
  closing : Bool
  main : MainAt
  printer : PacketPrinterContext
  /-- the frames that the main thread has passed to packet_printer_callback -/
  shown : List CapturedFrame

inductive ThreadStep (args : RunArgs) (s : Process) : Process → Prop where
  | capture (ok : Bool) {run : RunState} (hpc : ∀ r, s.run.pc ≠ .callback r)
    (h : s.run.runStep args ok = some run) : ThreadStep args s { s with run := run }
  | push {r : Recv} {m : QueueState} (hpc : s.run.pc = .callback r) (hnew : s.pushing = false)
    (h : Monitor.Call .capture (.push (recvFrame r)) s.mon m) :
    ThreadStep args s { s with pushing := true, mon := m }
  | pushed {r : Recv} {last : Option Result} {run : RunState} (hpc : s.run.pc = .callback r)
    (hcalled : s.pushing = true) (hret : s.mon.pc .capture = .out last)
    (h : s.run.runStep args true = some run) :
    ThreadStep args s { s with pushing := false, run := run }
  | close {result : Int} {m : QueueState} (hpc : s.run.pc = .done result)
    (honce : s.closing = false) (h : Monitor.Call .capture .close s.mon m) :
    ThreadStep args s { s with closing := true, mon := m }
  | pop {m : QueueState} (hat : s.main = .pop) (h : Monitor.Call .main .pop s.mon m) :
    ThreadStep args s { s with main := .popping, mon := m }
  | print {frame : CapturedFrame} {printer : PacketPrinterContext} (hat : s.main = .popping)
    (hret : s.mon.pc .main = .out (some (.popped (some frame))))
    (h : packetPrinterCallback s.printer frame = some printer) :
    ThreadStep args s { s with main := .pop, printer := printer, shown := s.shown ++ [frame] }
  | leave (hat : s.main = .popping) (hret : s.mon.pc .main = .out (some (.popped none))) :
    ThreadStep args s { s with main := .join }
  | join {result : Int} (hat : s.main = .join) (hpc : s.run.pc = .done result)
    (hret : s.mon.pc .capture = .out (some .closed)) :
    ThreadStep args s { s with main := .exited (exitCode result) }
  | queue (i : Thread) {m : QueueState} (h : Monitor.Run enter i s.mon m) :
    ThreadStep args s { s with mon := m }

/-- What the kernel does to the capture, and a stop request. -/
inductive Outside (s : RunState) : RunState → Prop where
  | stop : Outside s s.requestStopImpl
  | arrive (wire : List UInt8) (sec nsec : UInt32) (h : s.ringUp = true) :
    Outside s (s.arrive wire sec nsec)
  | fill (k : Nat) (b : Block) (hup : s.ringUp = true) (h : (s.ring.blocks k).user = false)
    (hb : b.user = false) : Outside s { s with ring := s.ring.write k b }
  | publish (b : Block) (hup : s.ringUp = true)
    (h : (s.ring.blocks s.ring.kernelAt).user = false) (hb : b.Published)
    (hfilling : b.frames = s.filling) :
    Outside s { s with ring := s.ring.publish b, filling := [] }

theorem Outside.runStep {args : RunArgs} {s t : RunState} (h : Outside s t) : RunStep args s t := by
  cases h with
  | stop => exact .stop
  | arrive wire sec nsec h => exact .arrive wire sec nsec h
  | fill k b hup h hb => exact .fill k b hup h hb
  | publish b hup h hb hfilling => exact .publish b hup h hb hfilling

inductive OutsideStep (s : Process) : Process → Prop where
  | mk {run : RunState} (h : Outside s.run run) : OutsideStep s { s with run := run }

inductive WakeStep (s : Process) : Process → Prop where
  | mk {m : QueueState} (h : Monitor.Spurious s.mon m) : WakeStep s { s with mon := m }

/-- The main thread at its first pop, the capture thread at the start of run_impl. -/
structure ProcessStart (filter : Option DispFilter.Dispfilter) (maxSize : Nat) (s : Process) :
    Prop where
  run : RunStart s.run
  pushing : s.pushing = false
  mon : s.mon = Monitor.initial (emptyQueue maxSize)
  closing : s.closing = false
  main : s.main = .pop
  printer : s.printer = ⟨"", 0, filter⟩
  shown : s.shown = []

def session (args : RunArgs) (filter : Option DispFilter.Dispfilter) (maxSize : Nat) :
    System Process where
  init := ProcessStart filter maxSize
  step s t := ThreadStep args s t ∨ OutsideStep s t ∨ WakeStep s t

def Process.inCallback (s : Process) : List Recv :=
  match s.pushing, s.run.pc with
  | true, .callback r => [r]
  | _, _ => []

/-- The frames pushed so far, with the one that is being pushed. -/
def Process.pushes (s : Process) : List CapturedFrame :=
  (s.run.handed ++ s.inCallback).map recvFrame

/-- The frame of a pop that has come to its critical section. -/
def fresh (pc : Monitor.Pc Op Cond Result) : List CapturedFrame :=
  match pc.result with
  | some (.popped (some frame)) => [frame]
  | _ => []

/-- Where the main thread is in the queue, and how the frames shown follow those handed out. -/
def MainAt.Follows (pc : Monitor.Pc Op Cond Result) (shown out : List CapturedFrame) :
    MainAt → Prop
  | .pop => (∃ last, pc = .out last ∧ last ≠ some (.popped none)) ∧ out = shown
  | .popping => pc ≠ .out none ∧ out = shown ++ fresh pc
  | .join | .exited _ => pc = .out (some (.popped none)) ∧ out = shown

end MyWireshark.Session
