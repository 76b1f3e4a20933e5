import MyWireshark.Session.Invariant

/-! What the user of the process sees: the output follows the frames that got into the ring, and
when the main thread exits, everything that was captured has come to the printer. -/
namespace MyWireshark.Session
open Transition Queue Capture

/-- What a frame of the ring comes to when it is printed: cut to the buffer of the receive loop,
with the time in microseconds. -/
def ringFrame (f : Frame) : CapturedFrame :=
  ⟨f.bytes.take rawSocketMaxFrame.toNat, f.sec.toNat, (f.nsec / 1000).toNat⟩

def capturedFrame (p : Captured) : CapturedFrame :=
  ⟨p.data, p.tsSeconds.toNat, p.tsMicroseconds.toNat⟩

section
variable {args : RunArgs} {filter : Option DispFilter.Dispfilter} {maxSize : Nat} {s t : Process}

theorem recvFrame_of_delivered {f : Frame} {r : Recv} (h : Delivered f r)
    (hargs : r.args = recvArgs) : recvFrame r = ringFrame f := by
  rw [recvFrame, ringFrame, h.buf, h.seconds, h.microseconds, hargs]
  rfl

theorem map_recvFrame_of_delivered {src : List Entered} {rs : List Recv}
    (h : List.Forall₂ (fun e r => Delivered e.frame r) src rs)
    (hargs : ∀ r ∈ rs, r.args = recvArgs) :
    rs.map recvFrame = src.map fun e => ringFrame e.frame := by
  induction h with
  | nil => rfl
  | @cons e r src rs hhead _ ih =>
    rw [List.map_cons, List.map_cons, ih fun r' hr' => hargs r' (List.mem_cons_of_mem r hr'),
      recvFrame_of_delivered hhead (hargs r List.mem_cons_self)]

namespace ProcessInv

theorem received_entered (h : ProcessInv args filter maxSize s) :
    ∃ src, src <+: s.run.entered ∧
      (framesOf s.run.ring.recvs).map recvFrame = src.map fun e => ringFrame e.frame := by
  obtain ⟨src, hsrc, hdelivered⟩ :=
    (carried_of_reachable h.run).comesFrom (List.prefix_refl (framesOf s.run.ring.recvs))
  refine ⟨src, hsrc, map_recvFrame_of_delivered hdelivered fun r hr => ?_⟩
  exact (fromLoop_of_reachable h.run).before r (List.mem_of_mem_filter hr)

theorem inHand_idle (h : ProcessInv args filter maxSize s) (hpushing : s.pushing = false) :
    inHand (s.mon.pc .capture) = [] := by
  cases hclosing : s.closing with
  | false =>
    obtain ⟨last, hpc⟩ := h.outside hpushing hclosing
    rw [hpc]
    rfl
  | true =>
    have hc := h.pipe.capture
    dsimp only at hc
    rw [hclosing] at hc
    exact hc.inHand_closing

/-- The frames on their way from the callback to the printer. -/
theorem pushes_eq (h : ProcessInv args filter maxSize s) :
    ∃ waiting, s.pushes = s.shown ++ waiting ∧
      waiting.length ≤ maxSize + 1 + (inHand (s.mon.pc .capture)).length := by
  have hqueue := queueInv_of_reachable h.mon
  have hscript := h.pipe.script
  obtain ⟨out, hout, hlen⟩ : ∃ out, handedOut s.mon.log = s.shown ++ out ∧ out.length ≤ 1 := by
    have hmain := h.main
    have hfresh : (fresh (s.mon.pc .main)).length ≤ 1 := by
      unfold fresh
      split <;> simp
    cases hat : s.main with
    | popping =>
      rw [hat] at hmain
      exact ⟨_, hmain.2, hfresh⟩
    | pop | join | exited =>
      rw [hat] at hmain
      exact ⟨[], by rw [hmain.2, List.append_nil], Nat.zero_le _⟩
  have hbound := hqueue.bound
  refine ⟨out ++ (s.mon.data.queue ++ inHand (s.mon.pc .capture)), ?_, ?_⟩
  · rw [← hscript, List.append_nil, ← hqueue.fifo, hout]
    simp
  · simp only [List.length_append]
    omega

/-- The frames on their way from raw_socket_recv to the printer: in the queue, in the hands of the
main thread, and one in the hands of the capture thread, either way it holds it. -/
theorem received_eq (h : ProcessInv args filter maxSize s) :
    ∃ waiting, (framesOf s.run.ring.recvs).map recvFrame = s.shown ++ waiting ∧
      waiting.length ≤ maxSize + 2 := by
  obtain ⟨waiting, hwaiting, hlen⟩ := h.pushes_eq
  have hflow := (carried_of_reachable h.run).flow
  cases hpushing : s.pushing with
  | true =>
    -- the frame received last is the one being pushed
    obtain ⟨r, hpc⟩ := h.pushing hpushing
    have hhand : (inHand (s.mon.pc .capture)).length ≤ 1 := by
      unfold inHand
      split <;> simp
    rw [hpc] at hflow
    rw [pushes_callback hpushing hpc] at hwaiting
    refine ⟨waiting, ?_, by omega⟩
    rw [hflow.2.1, List.map_append]
    exact hwaiting
  | false =>
    -- no push is under way, and at most one frame has not come to the callback yet
    obtain ⟨more, hmore⟩ := hflow.prefixes.1
    have hone := hflow.length_le
    rw [← hmore, List.length_append] at hone
    rw [pushes_idle hpushing] at hwaiting
    rw [h.inHand_idle hpushing, List.length_nil] at hlen
    refine ⟨waiting ++ more.map recvFrame, ?_, ?_⟩
    · rw [← hmore, List.map_append, hwaiting, List.append_assoc]
    · rw [List.length_append, List.length_map]
      omega

theorem os_eq (h : ProcessInv args filter maxSize s) (hfilter : FromCompiler filter) :
    s.printer.os = sessionText (filterShows filter) 0 s.shown := by
  have hprinter := h.printer
  rw [printFrames_eq hfilter] at hprinter
  rw [← Option.some.inj hprinter]
  exact String.empty_append

theorem shown_of_drained (h : ProcessInv args filter maxSize s)
    (hpc : s.mon.pc .main = .out (some (.popped none))) (hout : handedOut s.mon.log = s.shown) :
    s.closing = true ∧ s.pushes = s.shown := by
  obtain ⟨op, hop⟩ := Monitor.Reachable.logged h.mon .main (.popped none) (by rw [hpc]; rfl)
  have hqueue := queueInv_of_reachable h.mon
  obtain ⟨hclosed, hempty⟩ := hqueue.drained _ hop rfl
  have hc := h.pipe.capture
  dsimp only at hc
  rw [hclosed] at hc
  obtain ⟨hclosing, hhand⟩ := hc.closing_of_closed
  have hscript := h.pipe.script
  have hfifo := hqueue.fifo
  dsimp only at hscript
  rw [hhand, List.append_nil, List.append_nil] at hscript
  rw [hempty, List.append_nil, hout] at hfifo
  exact ⟨hclosing, hscript.symm.trans hfifo.symm⟩

end ProcessInv

/-- In every state that the process can come to, whatever order its threads, the kernel and stop
requests take their steps in, the frames received from the ring are those that got into it first, in
their order and each of them once; they have come to the printer in that order, all but as many of
the last ones as the queue and the two threads can hold; and what the process has printed is the
text of those that came to the printer and that the display filter shows. -/
theorem session_prints_in_order (hfilter : FromCompiler filter)
    (h : (session args filter maxSize).Reachable s) :
    ∃ src waiting, src <+: s.run.entered ∧
      ((framesOf s.run.ring.recvs).map recvFrame = src.map fun e => ringFrame e.frame) ∧
      (framesOf s.run.ring.recvs).map recvFrame = s.shown ++ waiting ∧
      waiting.length ≤ maxSize + 2 ∧
      s.printer.os = sessionText (filterShows filter) 0 s.shown := by
  have hinv := processInv_of_reachable h
  obtain ⟨src, hsrc, hreceived⟩ := hinv.received_entered
  obtain ⟨waiting, hwaiting, hlen⟩ := hinv.received_eq
  exact ⟨src, waiting, hsrc, hreceived, hwaiting, hlen, hinv.os_eq hfilter⟩

/-! A run with one frame -/

abbrev ThreadRun (args : RunArgs) (s : Process) (n : Nat) (t : Process) : Prop :=
  Counted (ThreadStep args) (fun _ _ => False) (fun _ _ => False) s n 0 t

theorem ThreadRun.counted {n : Nat} (h : ThreadRun args s n t) :
    Counted (ThreadStep args) WakeStep OutsideStep s n 0 t :=
  h.map id (fun _ _ hst => hst) (fun _ _ => False.elim) fun _ _ => False.elim

theorem threadStep_entered (h : ThreadStep args s t) : t.run.entered = s.run.entered := by
  cases h with
  | capture _ _ hrun | pushed _ _ _ hrun => exact runStep_entered hrun
  | _ => rfl

section
variable {Allowed : Process → Process → Prop}
  (hallowed : ∀ s t : Process, t.run.entered = s.run.entered → Allowed s t)
include hallowed

theorem ThreadRun.reachable {n : Nat} (h : ThreadRun args s n t)
    (hs : ((session args filter maxSize).restrict Allowed).Reachable s) :
    ((session args filter maxSize).restrict Allowed).Reachable t :=
  h.invariant hs (fun _ _ hs hst => hs.step ⟨.inl hst, hallowed _ _ (threadStep_entered hst)⟩)
    (fun _ _ _ => False.elim) fun _ _ _ => False.elim

theorem frame_arrives (h : ((session args filter maxSize).restrict Allowed).Reachable s)
    (hup : s.run.ringUp = true) (hattached : s.run.attached = none) (hfilling : s.run.filling = [])
    (hfree : (s.run.ring.blocks s.run.ring.kernelAt).user = false)
    (harrive : Allowed s { s with run := s.run.arrive zeroFrame 0 0 }) :
    ((session args filter maxSize).restrict Allowed).Reachable
      { s with run := withFrame s.run } := by
  have harrived : s.run.arrive zeroFrame 0 0 =
      { s.run with
        filling := [⟨zeroFrame, 0, 0⟩]
        entered := s.run.entered ++ [⟨zeroFrame, ⟨zeroFrame, 0, 0⟩⟩] } := by
    simp [RunState.arrive, hattached, hfilling, verdict, zeroFrame]
  have hframe := h.step ⟨.inr (.inl (.mk (.arrive zeroFrame 0 0 hup))), harrive⟩
  refine hframe.step ⟨.inr (.inl (.mk (.publish zeroBlock ?_ ?_ ⟨rfl, by decide⟩ ?_))),
    hallowed _ _ rfl⟩
  · rw [harrived]
    exact hup
  · rw [harrived]
    exact hfree
  · rw [harrived]
    rfl

end

/-- Steps of run_impl without a failure and without a call of the callback. -/
def quietFor (args : RunArgs) : Nat → RunState → Option RunState
  | 0, s => some s
  | n + 1, s =>
    match s.pc with
    | .callback _ => none
    | _ => (s.runStep args true).bind (quietFor args n)

theorem threadRun_quietFor {n : Nat} {run : RunState} (hrun : quietFor args n s.run = some run) :
    ThreadRun args s n { s with run := run } := by
  induction n generalizing s with
  | zero =>
    obtain rfl := Option.some.inj hrun
    exact .refl
  | succ n ih =>
    rw [quietFor] at hrun
    split at hrun
    · cases hrun
    · next hpc =>
      obtain ⟨u, hstep, hrest⟩ := Option.bind_eq_some_iff.mp hrun
      have hfirst : ThreadRun args s 1 { s with run := u } :=
        Counted.refl.own (.capture true hpc hstep)
      have hall := hfirst.trans (ih (s := { s with run := u }) hrest)
      rwa [Nat.add_comm] at hall

theorem threadRun_alone {i : Thread} {n : Nat} {m : QueueState}
    (h : Monitor.Alone enter i s.mon n m) : ThreadRun args s n { s with mon := m } :=
  h.map (fun m => { s with mon := m }) (fun _ _ hrun => .queue i hrun) (fun _ _ => id)
    fun _ _ => id

structure Resting (maxSize : Nat) (s : Process) : Prop where
  pushing : s.pushing = false
  closing : s.closing = false
  main : s.main = .pop
  mon : s.mon.Idle
  data : s.mon.data = emptyQueue maxSize

theorem Resting.show_frame {r : Recv} {printer : PacketPrinterContext} {run : RunState}
    (h : Resting maxSize s) (hmax : 1 ≤ maxSize) (hpc : s.run.pc = .callback r)
    (hprint : packetPrinterCallback s.printer (recvFrame r) = some printer)
    (hstep : s.run.runStep args true = some run) :
    ∃ t, ThreadRun args s 14 t ∧ Resting maxSize t ∧ t.run = run ∧
      t.shown = s.shown ++ [recvFrame r] := by
  have henqueue : enter (.push (recvFrame r)) s.mon.data =
      .done ⟨[recvFrame r], maxSize, false⟩ [.one .notEmpty] (.pushed true) := by
    rw [h.data]
    simp [enter, PacketQueue.push, emptyQueue, Nat.lt_of_lt_of_le Nat.zero_lt_one hmax]
  obtain ⟨m, hpush, hrun, hidle, hdata, hret, -⟩ := h.mon.call .capture henqueue
  have hdequeue : enter .pop m.data =
      .done (emptyQueue maxSize) [.one .notFull] (.popped (some (recvFrame r))) := by
    rw [hdata]
    rfl
  obtain ⟨m', hpop, hrun', hidle', hdata', hret', -⟩ := hidle.call .main hdequeue
  have hcalled : ThreadRun args s 1 _ := Counted.refl.own (.push hpc h.pushing hpush)
  have hpushed := (hcalled.trans (threadRun_alone hrun)).own (.pushed hpc rfl hret hstep)
  have hpopped := (hpushed.own (.pop h.main hpop)).trans (threadRun_alone hrun')
  exact ⟨_, hpopped.own (.print rfl hret' hprint), ⟨rfl, h.closing, rfl, hidle', hdata'⟩, rfl, rfl⟩

theorem Resting.exit {result : Int} (h : Resting maxSize s) (hpc : s.run.pc = .done result) :
    ∃ t, ThreadRun args s 14 t ∧ t.main = .exited (exitCode result) ∧ t.shown = s.shown := by
  obtain ⟨m, hclose, hrun, hidle, hdata, hret, -⟩ :=
    h.mon.call .capture (show enter .close s.mon.data = .done _ _ _ from rfl)
  have hdrained : enter .pop m.data = .done m.data [] (.popped none) := by
    rw [hdata, h.data]
    rfl
  obtain ⟨m', hpop, hrun', hidle', hdata', hret', hother⟩ := hidle.call .main hdrained
  have hcalled : ThreadRun args s 1 _ := Counted.refl.own (.close hpc h.closing hclose)
  have hclosed := hcalled.trans (threadRun_alone hrun)
  have hpopped := (hclosed.own (.pop h.main hpop)).trans (threadRun_alone hrun')
  have hleft := hpopped.own (.leave rfl hret')
  exact ⟨_, hleft.own (.join rfl hpc ((hother .capture (by decide)).trans hret)), rfl, rfl⟩

end

def processStart (filter : Option DispFilter.Dispfilter) : Process :=
  ⟨captureStart, false, Monitor.initial (emptyQueue 1), false, .pop, ⟨"", 0, filter⟩, []⟩

/-- run_impl when it has its ring, and before and after it passes on a frame that arrives then. -/
structure FrameRun where
  ready : RunState
  before : RunState
  after : RunState

def frameRun (args : RunArgs) : Option FrameRun := do
  let ready ← quietFor args 3 captureStart
  let before ← quietFor args 15 (withFrame ready)
  let after ← before.runStep args true
  some ⟨ready, before, after⟩

def passes : RunPc → Bool
  | .callback _ => true
  | _ => false

/-- What the runs below come to: the frame is passed on, and a stop request then makes run_impl
return 0. -/
structure FrameRun.Passes (args : RunArgs) (r : FrameRun) : Prop where
  run : frameRun args = some r
  ringUp : r.ready.ringUp = true
  attached : r.ready.attached = none
  filling : r.ready.filling = []
  free : (r.ready.ring.blocks r.ready.ring.kernelAt).user = false
  callback : passes r.before.pc = true
  entered : r.after.entered = [⟨zeroFrame, ⟨zeroFrame, 0, 0⟩⟩]
  stopped : r.after.requestStopImpl.ring.ctx.stopRequested = true
  returns : (quietFor args 5 r.after.requestStopImpl).map (fun run => run.pc.result) = some (some 0)

theorem passes_of_eval {args : RunArgs}
    (hready : (frameRun args).map (fun r => (r.ready.ringUp, r.ready.attached, r.ready.filling,
      (r.ready.ring.blocks r.ready.ring.kernelAt).user)) = some (true, none, [], false))
    (hafter : (frameRun args).map (fun r => (passes r.before.pc, r.after.entered,
      r.after.requestStopImpl.ring.ctx.stopRequested,
      (quietFor args 5 r.after.requestStopImpl).map fun run => run.pc.result)) =
        some (true, [⟨zeroFrame, ⟨zeroFrame, 0, 0⟩⟩], true, some (some 0))) :
    ∃ r, FrameRun.Passes args r := by
  obtain ⟨r, hrun, hval⟩ := Option.map_eq_some_iff.mp hready
  simp only [Prod.mk.injEq] at hval
  obtain ⟨hup, hattached, hfilling, hfree⟩ := hval
  rw [hrun] at hafter
  simp only [Option.map_some, Option.some.injEq, Prod.mk.injEq] at hafter
  obtain ⟨hpasses, hentered, hstopped, hreturns⟩ := hafter
  exact ⟨r, hrun, hup, hattached, hfilling, hfree, hpasses, hentered, hstopped, hreturns⟩

theorem FrameRun.Passes.shown_eq {args : RunArgs} {filter : Option DispFilter.Dispfilter}
    {maxSize : Nat} {s : Process} {r : FrameRun} (h : r.Passes args)
    (hreach : (session args filter maxSize).Reachable s) (hrun : s.run = r.after)
    (hone : s.shown.length = 1) : s.shown = [⟨zeroFrame, 0, 0⟩] := by
  have hinv := processInv_of_reachable hreach
  obtain ⟨src, ⟨more, hsrc⟩, hreceived⟩ := hinv.received_entered
  obtain ⟨waiting, hwaiting, -⟩ := hinv.received_eq
  rw [hrun, h.entered] at hsrc
  have hall := hreceived.symm.trans hwaiting
  have hcount := congrArg List.length hall
  rw [List.length_map, List.length_append, hone] at hcount
  obtain ⟨e, rest, rfl⟩ := List.exists_cons_of_length_pos (by omega : 0 < src.length)
  obtain ⟨frame, hframe⟩ := List.length_eq_one_iff.mp hone
  rw [hframe] at hall ⊢
  rw [← (List.cons.inj hall).1, (List.cons.inj hsrc).1]
  rfl

theorem FrameRun.Passes.shown {args : RunArgs} {filter : Option DispFilter.Dispfilter}
    {Allowed : Process → Process → Prop} {r : FrameRun} (h : r.Passes args)
    (hfilter : FromCompiler filter)
    (hallowed : ∀ s t : Process, t.run.entered = s.run.entered → Allowed s t)
    (harrive : ∀ s : Process, s.run.attached = none →
      Allowed s { s with run := s.run.arrive zeroFrame 0 0 }) :
    ∃ s, ((session args filter 1).restrict Allowed).Reachable s ∧ Resting 1 s ∧
      s.shown = [⟨zeroFrame, 0, 0⟩] ∧ s.run = r.after := by
  obtain ⟨ready, hready, hrun⟩ := Option.bind_eq_some_iff.mp h.run
  obtain ⟨before, hbefore, hrun⟩ := Option.bind_eq_some_iff.mp hrun
  obtain ⟨after, hstep, hrun⟩ := Option.bind_eq_some_iff.mp hrun
  obtain rfl := Option.some.inj hrun
  obtain ⟨r, hpc⟩ : ∃ r, before.pc = .callback r := by
    have hpasses := h.callback
    cases hpc : before.pc with
    | callback r => exact ⟨r, rfl⟩
    | _ =>
      rw [hpc] at hpasses
      cases hpasses
  have hstart : ((session args filter 1).restrict Allowed).Reachable (processStart filter) :=
    .init ⟨captureStart_start, rfl, rfl, rfl, rfl, rfl, rfl⟩
  have hring := (threadRun_quietFor (s := processStart filter) hready).reachable hallowed hstart
  have hframe := frame_arrives hallowed hring h.ringUp h.attached h.filling h.free
    (harrive _ h.attached)
  have hcallback := (threadRun_quietFor (s := { processStart filter with run := _ })
    hbefore).reachable hallowed hframe
  have hresting : Resting 1 { processStart filter with run := before } :=
    ⟨rfl, rfl, rfl, ⟨rfl, fun _ => ⟨none, rfl⟩⟩, rfl⟩
  obtain ⟨s, hshown, hresting, hafter, hframes⟩ := hresting.show_frame (Nat.le_refl 1) hpc
    (packetPrinterCallback_eq hfilter _ _ _) hstep
  have hreach := hshown.reachable hallowed hcallback
  have hone : s.shown.length = 1 := by rw [hframes]; rfl
  exact ⟨s, hreach, hresting, h.shown_eq hreach.of_restrict hafter hone, hafter⟩

theorem plainArgs_passes : ∃ r, FrameRun.Passes plainArgs r :=
  passes_of_eval (by decide +kernel) (by decide +kernel)

theorem plainArgs_shown : ∃ s, (session plainArgs none 1).Reachable s ∧
    s.shown = [⟨zeroFrame, 0, 0⟩] ∧ s.run.entered = [⟨zeroFrame, ⟨zeroFrame, 0, 0⟩⟩] := by
  obtain ⟨r, hr⟩ := plainArgs_passes
  obtain ⟨s, hreach, -, hshown, hrun⟩ := @FrameRun.Passes.shown _ _ (fun _ _ => True) _ hr .null
    (fun _ _ _ => trivial) fun _ _ => trivial
  exact ⟨s, hreach.of_restrict, hshown, by rw [hrun]; exact hr.entered⟩

theorem session_prints_in_order_shown : ∃ s, (session plainArgs none 1).Reachable s ∧
    s.shown = [⟨zeroFrame, 0, 0⟩] ∧ s.run.entered = [⟨zeroFrame, ⟨zeroFrame, 0, 0⟩⟩] ∧
    ∃ src waiting, src <+: s.run.entered ∧
      ((framesOf s.run.ring.recvs).map recvFrame = src.map fun e => ringFrame e.frame) ∧
      (framesOf s.run.ring.recvs).map recvFrame = s.shown ++ waiting ∧ waiting.length ≤ 3 ∧
      s.printer.os = sessionText (filterShows none) 0 s.shown := by
  obtain ⟨s, hreach, hshown, hentered⟩ := plainArgs_shown
  exact ⟨s, hreach, hshown, hentered, session_prints_in_order .null hreach⟩

section
variable {args : RunArgs} {filter : Option DispFilter.Dispfilter} {maxSize : Nat} {s t : Process}

/-! The exit -/

theorem done_stable {result : Int} (hpc : s.run.pc = .done result) (hstep : ThreadStep args s t) :
    t.run.pc = .done result := by
  cases hstep with
  | capture ok _ hrun =>
    rw [RunState.runStep, hpc] at hrun
    cases hrun
  | pushed hcall _ _ hrun =>
    rw [hpc] at hcall
    cases hcall
  | _ => exact hpc

theorem closed_stable (h : ProcessInv args filter maxSize s)
    (hpc : s.mon.pc .capture = .out (some .closed)) (hstep : ThreadStep args s t) :
    t.mon.pc .capture = .out (some .closed) := by
  have hclosing : s.closing = true := by
    have hc := h.pipe.capture
    dsimp only at hc
    rw [hpc] at hc
    cases hc with
    | done hp => exact hp.1
  obtain ⟨result, hdone⟩ := h.closing hclosing
  cases hstep with
  | push hcall => rw [hdone] at hcall; cases hcall
  | close _ honce => rw [hclosing] at honce; cases honce
  | pop _ hcall =>
    obtain ⟨hout⟩ := hcall
    exact (Monitor.State.goto_other _ _ (by decide)).trans hpc
  | queue i hrun => exact hrun.stays_out hpc
  | _ => exact hpc

theorem exitCode_of_reachable (h : (session args filter maxSize).Reachable s) {code : Int}
    (hexit : s.main = .exited code) : ∃ result, s.run.pc = .done result ∧ code = exitCode result ∧
      s.mon.pc .capture = .out (some .closed) := by
  refine h.invariant (P := fun s => ∀ code, s.main = .exited code →
    ∃ result, s.run.pc = .done result ∧ code = exitCode result ∧
      s.mon.pc .capture = .out (some .closed)) ?_ ?_ code hexit
  · intro s hs code hcode
    rw [hs.main] at hcode
    cases hcode
  · intro s t hs hinv hstep code hcode
    obtain hthread | hout | hwake := hstep
    · have hkeep : s.main = .exited code → ∃ result, t.run.pc = .done result ∧
          code = exitCode result ∧ t.mon.pc .capture = .out (some .closed) := by
        intro hold
        obtain ⟨result, hpc, hresult, hclosed⟩ := hinv code hold
        exact ⟨result, done_stable hpc hthread, hresult,
          closed_stable (processInv_of_reachable hs) hclosed hthread⟩
      cases hthread with
      | pop | print | leave => cases hcode
      | join _ hpc hret =>
        cases hcode
        exact ⟨_, hpc, rfl, hret⟩
      | capture | push | pushed | close | queue => exact hkeep hcode
    · obtain ⟨hout⟩ := hout
      obtain ⟨result, hpc, hresult, hclosed⟩ := hinv code hcode
      exact ⟨result, hout.keeps.1.trans hpc, hresult, hclosed⟩
    · obtain ⟨hwake⟩ := hwake
      obtain ⟨result, hpc, hresult, hclosed⟩ := hinv code hcode
      obtain @⟨j, op, c, hwait⟩ := hwake
      cases j with
      | capture => rw [hclosed] at hwait; cases hwait
      | main => exact ⟨result, hpc, hresult, by simpa using hclosed⟩

/-- When the main thread has exited, every frame that run_impl passed on has come to the printer, in
order, and those that the display filter shows are printed. The code is 0 exactly if run_impl
returned 0; then all the frames received were passed on, and the .pcap file, if one was asked for,
has the frames that came to the printer as its records and nothing else. -/
theorem session_exit (hfilter : FromCompiler filter) (h : (session args filter maxSize).Reachable s)
    {code : Int} (hexit : s.main = .exited code) :
    ∃ result, s.run.pc = .done result ∧ (code = 0 ↔ result = 0) ∧
      s.shown = s.run.handed.map recvFrame ∧
      s.printer.os = sessionText (filterShows filter) 0 s.shown ∧
      (code = 0 → framesOf s.run.ring.recvs = s.run.handed ∧ s.run.pcapFile = args.saves ∧
        (args.saves = true → s.run.written.map recvFrame = s.shown ∧
          ∀ order, ∃ pcap, readPcap (pcapBytes order s.run.written) = some pcap ∧
            pcap.records.map capturedFrame = s.shown ∧ pcap.tail = [])) := by
  have hinv := processInv_of_reachable h
  obtain ⟨result, hpc, rfl, -⟩ := exitCode_of_reachable h hexit
  have hmain := hinv.main
  rw [hexit] at hmain
  have hpushes := (hinv.shown_of_drained hmain.1 hmain.2).2
  have hpushing : s.pushing = false := by
    rw [Bool.eq_false_iff]
    intro hpushing
    obtain ⟨r, hr⟩ := hinv.pushing hpushing
    rw [hpc] at hr
    cases hr
  rw [pushes_idle hpushing] at hpushes
  have hzero : exitCode result = 0 ↔ result = 0 := by
    unfold exitCode
    split <;> simp_all
  have hexplained := explained_of_reachable hinv.run
  unfold Explained at hexplained
  rw [hpc] at hexplained
  refine ⟨result, hpc, hzero, hpushes.symm, hinv.os_eq hfilter, fun hcode => ?_⟩
  obtain ⟨hall, hfile, hwritten⟩ := hexplained.2 (hzero.mp hcode)
  refine ⟨hall, hfile, fun hsaves => ?_⟩
  rw [hfile, hsaves] at hwritten
  have hsame : s.run.written = s.run.handed := hwritten
  refine ⟨by rw [hsame]; exact hpushes, fun order => ?_⟩
  have hread := @readPcap_pcapBytes order s.run.written (fun r hr =>
    length_received_le hinv.run (by rw [hall, ← hsame]; exact hr)) []
  rw [List.append_nil, Framing.Format.read_nil, List.append_nil] at hread
  refine ⟨_, hread, ?_, rfl⟩
  rw [List.map_map, hsame]
  exact hpushes

end

/-- The capture is stopped when its one frame has been printed. -/
theorem stopped_exit : ∃ s t, (session plainArgs none 1).Reachable s ∧
    s.run.ring.ctx.stopRequested = true ∧ ThreadRun plainArgs s 19 t ∧
    (session plainArgs none 1).Reachable t ∧ t.main = .exited 0 ∧
    t.shown = [⟨zeroFrame, 0, 0⟩] := by
  obtain ⟨r, hr⟩ := plainArgs_passes
  obtain ⟨s, hreach, hresting, hshown, hrun⟩ := @FrameRun.Passes.shown _ _ (fun _ _ => True) _ hr
    .null (fun _ _ _ => trivial) fun _ _ => trivial
  have hstopped := hr.stopped
  have hreturns := hr.returns
  rw [← hrun] at hstopped hreturns
  obtain ⟨run, hquiet, hresult⟩ := Option.map_eq_some_iff.mp hreturns
  have hstop := hreach.step (t := { s with run := s.run.requestStopImpl })
    ⟨.inr (.inl (.mk .stop)), trivial⟩
  have hdone := threadRun_quietFor (s := { s with run := s.run.requestStopImpl }) hquiet
  have hrest : Resting 1 { s with run := run } :=
    ⟨hresting.pushing, hresting.closing, hresting.main, hresting.mon, hresting.data⟩
  obtain ⟨t, hexit, hmain, hframes⟩ := @Resting.exit plainArgs _ _ _ hrest (RunPc.eq_done hresult)
  have hall : ThreadRun plainArgs _ 19 t := hdone.trans hexit
  exact ⟨_, t, hstop.of_restrict, hstopped, hall,
    (ThreadRun.reachable (fun _ _ _ => trivial) hall hstop).of_restrict, hmain,
    by rw [hframes]; exact hshown⟩

theorem session_exit_stopped : ∃ s, (session plainArgs none 1).Reachable s ∧
    s.main = .exited 0 ∧ s.run.pc = .done 0 ∧ s.run.handed.map recvFrame = [⟨zeroFrame, 0, 0⟩] ∧
    s.printer.os = sessionText (filterShows none) 0 [⟨zeroFrame, 0, 0⟩] ∧
    framesOf s.run.ring.recvs = s.run.handed ∧ s.run.pcapFile = true ∧
    ∀ order, ∃ pcap, readPcap (pcapBytes order s.run.written) = some pcap ∧
      pcap.records.map capturedFrame = [⟨zeroFrame, 0, 0⟩] ∧ pcap.tail = [] := by
  obtain ⟨-, s, -, -, -, hreach, hexit, hshown⟩ := stopped_exit
  obtain ⟨result, hpc, hzero, hhanded, hos, hall⟩ := session_exit .null hreach hexit
  obtain ⟨hreceived, hfile, hsaved⟩ := hall rfl
  have hpcap := (hsaved rfl).2
  rw [hzero.mp rfl] at hpc
  rw [hshown] at hhanded hos hpcap
  exact ⟨s, hreach, hexit, hpc, hhanded.symm, hos, hreceived, hfile, hpcap⟩

end MyWireshark.Session
