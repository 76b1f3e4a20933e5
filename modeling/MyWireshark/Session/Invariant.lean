import MyWireshark.Queue.Termination
import MyWireshark.Session.Model

/-! The invariant of the process: both of its halves are in states that they reach on their own,
and the frames pushed, popped and printed follow one another. -/
namespace MyWireshark.Session
open Transition Queue Capture

section
variable {frames : List CapturedFrame} {p : Pipeline} {m m' : QueueState} {closing closed : Bool}

theorem pipelineInv_grow (h : PipelineInv frames p) (hopen : p.closing = false)
    (more : List CapturedFrame) :
    PipelineInv (frames ++ more) { p with todo := p.todo ++ more } where
  capture := h.capture
  main := h.main
  script := by rw [← h.script, List.append_assoc, List.append_assoc]
  todo hclosing := by rw [hopen] at hclosing; cases hclosing
  poppers := h.poppers
  mainWake := h.mainWake
  captureWake := h.captureWake

theorem fresh_woken (pc : Monitor.Pc Op Cond Result) (c : Cond) :
    fresh (pc.woken c) = fresh pc := by
  unfold fresh
  rw [Monitor.Pc.result_woken]

theorem captureRun_handedOut (h : Monitor.Run enter .capture m m')
    (hc : CapturePc closing closed (m.pc .capture)) : handedOut m'.log = handedOut m.log := by
  cases h with
  | act h hsec =>
    rw [h] at hc
    cases hc <;> simp [handedOut]
  | _ => rfl

theorem mainRun_fresh (h : Monitor.Run enter .main m m') (hm : MainPc (m.pc .main)) :
    m'.pc .main ≠ .out none ∧ (handedOut m'.log = handedOut m.log ∧
      fresh (m'.pc .main) = fresh (m.pc .main) ∨
      handedOut m'.log = handedOut m.log ++ fresh (m'.pc .main) ∧ fresh (m.pc .main) = []) := by
  cases h with
  | acquire h | wait h => exact ⟨by simp, .inl ⟨rfl, by simp [h, fresh, Monitor.Pc.result]⟩⟩
  | act h hsec =>
    refine ⟨by simp, .inr ?_⟩
    rw [h] at hm ⊢
    cases hm with
    | held =>
      rw [handedOut_append]
      cases does_of_enter hsec <;> simp [handedOut, fresh, Monitor.Pc.result]
  | unlock h | wakeNone h | ret h =>
    exact ⟨by simp, .inl ⟨rfl, by simp [h, fresh, Monitor.Pc.result]⟩⟩
  | wakeOne h hj =>
    rename_i c wakes result j op
    cases j with
    | main => simp [h] at hj
    | capture => exact ⟨by simp, .inl ⟨rfl, by simp [h, fresh, Monitor.Pc.result]⟩⟩
  | wakeAll h => exact ⟨by simp, .inl ⟨rfl, by simp [h, fresh, Monitor.Pc.result]⟩⟩

/-- The main thread goes on following the queue while the threads work in it. -/
theorem follows_run {place : MainAt} {shown : List CapturedFrame} {i : Thread}
    (hfollows : place.Follows (m.pc .main) shown (handedOut m.log)) (h : Monitor.Run enter i m m')
    (hc : CapturePc closing closed (m.pc .capture)) (hm : MainPc (m.pc .main)) :
    place.Follows (m'.pc .main) shown (handedOut m'.log) := by
  -- outside the queue the main thread does not move, and only it hands frames out
  have houtside : ∀ {last}, m.pc .main = .out last →
      m'.pc .main = .out last ∧ handedOut m'.log = handedOut m.log := by
    intro last hpc
    refine ⟨h.stays_out hpc, ?_⟩
    cases i with
    | capture => exact captureRun_handedOut h hc
    | main =>
      cases h with
      | act h => rw [hpc] at h; cases h
      | _ => rfl
  cases place with
  | pop =>
    obtain ⟨⟨last, hpc, hlast⟩, hout⟩ := hfollows
    obtain ⟨hpc', hout'⟩ := houtside hpc
    exact ⟨⟨last, hpc', hlast⟩, hout'.trans hout⟩
  | join | exited =>
    obtain ⟨hpc, hout⟩ := hfollows
    obtain ⟨hpc', hout'⟩ := houtside hpc
    exact ⟨hpc', hout'.trans hout⟩
  | popping =>
    obtain ⟨hpc, hout⟩ := hfollows
    cases i with
    | main =>
      obtain ⟨hpc', ⟨hlog, hfresh⟩ | ⟨hlog, hnone⟩⟩ := mainRun_fresh h hm
      · exact ⟨hpc', by rw [hlog, hfresh, hout]⟩
      · exact ⟨hpc', by rw [hlog, hout, hnone, List.append_nil]⟩
    | capture =>
      have hlog := captureRun_handedOut h hc
      obtain hsame | ⟨c, hwoken⟩ := captureRun_main h
      · exact ⟨hsame ▸ hpc, by rw [hlog, hsame, hout]⟩
      · refine ⟨fun hnone => hpc (Monitor.Pc.out_of_woken (hwoken ▸ hnone)), ?_⟩
        rw [hlog, hwoken, fresh_woken, hout]

theorem follows_spurious {place : MainAt} {shown : List CapturedFrame}
    (hfollows : place.Follows (m.pc .main) shown (handedOut m.log)) (h : Monitor.Spurious m m') :
    place.Follows (m'.pc .main) shown (handedOut m'.log) := by
  obtain @⟨j, op, c, hpc⟩ := h
  cases j with
  | capture => simpa using hfollows
  | main =>
    rw [hpc] at hfollows
    cases place with
    | pop =>
      obtain ⟨⟨last, hout, -⟩, -⟩ := hfollows
      cases hout
    | join | exited =>
      cases hfollows.1
    | popping => exact ⟨by simp, by simpa [fresh, Monitor.Pc.result] using hfollows.2⟩

end

theorem runStep_handed {args : RunArgs} {s t : RunState} {ok : Bool}
    (hstep : s.runStep args ok = some t) (hpc : ∀ r, s.pc ≠ .callback r) : t.handed = s.handed := by
  cases ran_of_runStep hstep with
  | setup _ _ _ _ _ hhanded => exact hhanded
  | callback h => exact absurd h (hpc _)
  | _ => rfl

theorem Outside.keeps {s t : RunState} (h : Outside s t) : t.pc = s.pc ∧ t.handed = s.handed := by
  cases h with
  | stop =>
    unfold RunState.requestStopImpl
    split <;> exact ⟨rfl, rfl⟩
  | arrive wire sec nsec =>
    unfold RunState.arrive
    split <;> exact ⟨rfl, rfl⟩
  | fill | publish => exact ⟨rfl, rfl⟩

structure ProcessInv (args : RunArgs) (filter : Option DispFilter.Dispfilter) (maxSize : Nat)
    (s : Process) : Prop where
  run : (runSystem args).Reachable s.run
  mon : (queueSystem Thread maxSize).Reachable s.mon
  pipe : PipelineInv s.pushes ⟨s.mon, [], s.closing⟩
  pushing : s.pushing = true → ∃ r, s.run.pc = .callback r
  closing : s.closing = true → ∃ result, s.run.pc = .done result
  outside : s.pushing = false → s.closing = false → ∃ last, s.mon.pc .capture = .out last
  main : s.main.Follows (s.mon.pc .main) s.shown (handedOut s.mon.log)
  printer : printFrames ⟨"", 0, filter⟩ s.shown = some s.printer

section
variable {args : RunArgs} {filter : Option DispFilter.Dispfilter} {maxSize : Nat} {s t : Process}

theorem inCallback_nil (h : s.pushing = false) : s.inCallback = [] := by
  unfold Process.inCallback
  rw [h]

theorem pushes_idle (h : s.pushing = false) : s.pushes = s.run.handed.map recvFrame := by
  rw [Process.pushes, inCallback_nil h, List.append_nil]

theorem pushes_callback {r : Recv} (h : s.pushing = true) (hpc : s.run.pc = .callback r) :
    s.pushes = s.run.handed.map recvFrame ++ [recvFrame r] := by
  rw [Process.pushes, Process.inCallback, h, hpc, List.map_append]
  rfl

theorem ProcessInv.start (h : ProcessStart filter maxSize s) :
    ProcessInv args filter maxSize s where
  run := .init h.run
  mon := by rw [h.mon]; exact .init rfl
  pipe := by
    rw [pushes_idle h.pushing, h.run.handed, h.mon, h.closing]
    exact ⟨.start ⟨rfl, rfl⟩, .start, by simp [Monitor.initial, enqueued, inHand], by simp,
      by simp [Monitor.initial], by simp [Monitor.initial], by simp [Monitor.initial]⟩
  pushing hpushing := by rw [h.pushing] at hpushing; cases hpushing
  closing hclosing := by rw [h.closing] at hclosing; cases hclosing
  outside _ _ := ⟨none, by rw [h.mon]; rfl⟩
  main := by
    rw [h.main, h.mon, h.shown]
    exact ⟨⟨none, rfl, fun hnone => by cases hnone⟩, rfl⟩
  printer := by rw [h.shown, h.printer]; rfl

namespace ProcessInv

theorem capture (h : ProcessInv args filter maxSize s) {ok : Bool} {run : RunState}
    (hpc : ∀ r, s.run.pc ≠ .callback r) (hstep : s.run.runStep args ok = some run) :
    ProcessInv args filter maxSize { s with run := run } := by
  have hpushing : s.pushing = false := by
    rw [Bool.eq_false_iff]
    intro hpushing
    obtain ⟨r, hr⟩ := h.pushing hpushing
    exact hpc r hr
  have hclosing : s.closing = false := by
    rw [Bool.eq_false_iff]
    intro hclosing
    obtain ⟨result, hresult⟩ := h.closing hclosing
    rw [RunState.runStep, hresult] at hstep
    cases hstep
  have hpushes : Process.pushes { s with run := run } = s.pushes := by
    rw [pushes_idle hpushing]
    exact (pushes_idle (s := { s with run := run }) hpushing).trans
      (congrArg _ (runStep_handed hstep hpc))
  exact {
    run := h.run.step (.run ok hstep)
    mon := h.mon
    pipe := by rw [hpushes]; exact h.pipe
    pushing := fun hp => by rw [hpushing] at hp; cases hp
    closing := fun hc => by rw [hclosing] at hc; cases hc
    outside := h.outside
    main := h.main
    printer := h.printer }

theorem push (h : ProcessInv args filter maxSize s) {r : Recv} {m : QueueState}
    (hpc : s.run.pc = .callback r) (hnew : s.pushing = false)
    (hcall : Monitor.Call .capture (.push (recvFrame r)) s.mon m) :
    ProcessInv args filter maxSize { s with pushing := true, mon := m } := by
  have hclosing : s.closing = false := by
    rw [Bool.eq_false_iff]
    intro hclosing
    obtain ⟨result, hresult⟩ := h.closing hclosing
    rw [hpc] at hresult
    cases hresult
  have hpushes : Process.pushes { s with pushing := true, mon := m } =
      s.pushes ++ [recvFrame r] := by
    rw [pushes_idle hnew]
    exact pushes_callback (s := { s with pushing := true, mon := m }) rfl hpc
  have hpipe := (pipelineInv_grow h.pipe hclosing [recvFrame r]).step (.push rfl hcall)
  have hmain := h.main
  obtain ⟨hout⟩ := hcall
  exact {
    run := h.run
    mon := h.mon.step (.call _ _ (.call hout))
    pipe := by rw [hpushes]; exact hpipe
    pushing := fun _ => ⟨r, hpc⟩
    closing := h.closing
    outside := fun hp => by cases hp
    main := by simpa using hmain
    printer := h.printer }

theorem pushed (h : ProcessInv args filter maxSize s) {r : Recv} {last : Option Result}
    {run : RunState} (hpc : s.run.pc = .callback r) (hcalled : s.pushing = true)
    (hret : s.mon.pc .capture = .out last) (hstep : s.run.runStep args true = some run) :
    ProcessInv args filter maxSize { s with pushing := false, run := run } := by
  have hrun := h.run.step (.run true hstep)
  have hpushes := pushes_callback hcalled hpc
  rw [RunState.runStep, hpc] at hstep
  obtain rfl := Option.some.inj hstep
  refine {
    run := hrun
    mon := h.mon
    pipe := ?_
    pushing := fun hp => by cases hp
    closing := fun hc => ?_
    outside := fun _ _ => ⟨last, hret⟩
    main := h.main
    printer := h.printer }
  · have hpipe := h.pipe
    rw [hpushes] at hpipe
    rw [pushes_idle rfl, List.map_append]
    exact hpipe
  · obtain ⟨result, hresult⟩ := h.closing hc
    rw [hpc] at hresult
    cases hresult

theorem close (h : ProcessInv args filter maxSize s) {result : Int} {m : QueueState}
    (hpc : s.run.pc = .done result) (honce : s.closing = false)
    (hcall : Monitor.Call .capture .close s.mon m) :
    ProcessInv args filter maxSize { s with closing := true, mon := m } := by
  have hpipe := h.pipe.step (.close rfl honce hcall)
  have hmain := h.main
  obtain ⟨hout⟩ := hcall
  exact {
    run := h.run
    mon := h.mon.step (.call _ _ (.call hout))
    pipe := hpipe
    pushing := h.pushing
    closing := fun _ => ⟨result, hpc⟩
    outside := fun _ hc => by cases hc
    main := by simpa using hmain
    printer := h.printer }

theorem pop (h : ProcessInv args filter maxSize s) {m : QueueState} (hat : s.main = .pop)
    (hcall : Monitor.Call .main .pop s.mon m) :
    ProcessInv args filter maxSize { s with main := .popping, mon := m } := by
  have hmain := h.main
  rw [hat] at hmain
  obtain ⟨⟨last, hpc, hlast⟩, hout⟩ := hmain
  have hpipe := h.pipe.step (.pop (by rw [hpc]; simpa using hlast) hcall)
  obtain ⟨hpc'⟩ := hcall
  exact {
    run := h.run
    mon := h.mon.step (.call _ _ (.call hpc'))
    pipe := hpipe
    pushing := h.pushing
    closing := h.closing
    outside := fun hp hc => by simpa using h.outside hp hc
    main := ⟨by simp, by simpa [fresh, Monitor.Pc.result] using hout⟩
    printer := h.printer }

theorem print (h : ProcessInv args filter maxSize s) {frame : CapturedFrame}
    {printer : PacketPrinterContext} (hat : s.main = .popping)
    (hret : s.mon.pc .main = .out (some (.popped (some frame))))
    (hprint : packetPrinterCallback s.printer frame = some printer) :
    ProcessInv args filter maxSize
      { s with main := .pop, printer := printer, shown := s.shown ++ [frame] } := by
  have hmain := h.main
  rw [hat] at hmain
  obtain ⟨-, hout⟩ := hmain
  rw [hret] at hout
  exact {
    run := h.run
    mon := h.mon
    pipe := h.pipe
    pushing := h.pushing
    closing := h.closing
    outside := h.outside
    main := ⟨⟨_, hret, by simp⟩, hout⟩
    printer := by
      rw [printFrames_append, h.printer, Option.bind_some, printFrames_cons, hprint]
      rfl }

theorem leave (h : ProcessInv args filter maxSize s) (hat : s.main = .popping)
    (hret : s.mon.pc .main = .out (some (.popped none))) :
    ProcessInv args filter maxSize { s with main := .join } := by
  have hmain := h.main
  rw [hat] at hmain
  obtain ⟨-, hout⟩ := hmain
  rw [hret] at hout
  exact { h with main := ⟨hret, by simpa [fresh, Monitor.Pc.result] using hout⟩ }

theorem queue (h : ProcessInv args filter maxSize s) {i : Thread} {m : QueueState}
    (hrun : Monitor.Run enter i s.mon m) : ProcessInv args filter maxSize { s with mon := m } where
  run := h.run
  mon := h.mon.step (.run i hrun)
  pipe := h.pipe.step (.run i hrun)
  pushing := h.pushing
  closing := h.closing
  outside hp hc := by
    obtain ⟨last, hpc⟩ := h.outside hp hc
    exact ⟨last, hrun.stays_out hpc⟩
  main := follows_run h.main hrun h.pipe.capture h.pipe.main
  printer := h.printer

theorem thread (h : ProcessInv args filter maxSize s) (hstep : ThreadStep args s t) :
    ProcessInv args filter maxSize t := by
  cases hstep with
  | capture ok hpc hrun => exact h.capture hpc hrun
  | push hpc hnew hcall => exact h.push hpc hnew hcall
  | pushed hpc hcalled hret hrun => exact h.pushed hpc hcalled hret hrun
  | close hpc honce hcall => exact h.close hpc honce hcall
  | pop hat hcall => exact h.pop hat hcall
  | print hat hret hprint => exact h.print hat hret hprint
  | leave hat hret => exact h.leave hat hret
  | join hat hpc hret =>
    have hmain := h.main
    rw [hat] at hmain
    exact { h with main := hmain }
  | queue i hrun => exact h.queue hrun

theorem outsideStep (h : ProcessInv args filter maxSize s) (hstep : OutsideStep s t) :
    ProcessInv args filter maxSize t := by
  obtain ⟨hout⟩ := hstep
  obtain ⟨hpc, hhanded⟩ := hout.keeps
  rename_i run
  have hpushes : Process.pushes { s with run := run } = s.pushes := by
    unfold Process.pushes Process.inCallback
    dsimp only
    rw [hpc, hhanded]
  exact {
    run := h.run.step hout.runStep
    mon := h.mon
    pipe := by rw [hpushes]; exact h.pipe
    pushing := fun hp => by simpa [hpc] using h.pushing hp
    closing := fun hc => by simpa [hpc] using h.closing hc
    outside := h.outside
    main := h.main
    printer := h.printer }

theorem wakeStep (h : ProcessInv args filter maxSize s) (hstep : WakeStep s t) :
    ProcessInv args filter maxSize t := by
  obtain ⟨hwake⟩ := hstep
  exact {
    run := h.run
    mon := h.mon.step (.spurious hwake)
    pipe := h.pipe.spurious hwake
    pushing := h.pushing
    closing := h.closing
    outside := fun hp hc => by
      obtain ⟨last, hpc⟩ := h.outside hp hc
      obtain @⟨j, op, c, hwait⟩ := hwake
      cases j with
      | capture => rw [hpc] at hwait; cases hwait
      | main => exact ⟨last, by simpa using hpc⟩
    main := follows_spurious h.main hwake
    printer := h.printer }

end ProcessInv

theorem processInv_of_reachable (h : (session args filter maxSize).Reachable s) :
    ProcessInv args filter maxSize s := by
  apply h.invariant
  · intro s hs
    exact .start hs
  · intro s t _ hinv hstep
    obtain hthread | hout | hwake := hstep
    · exact hinv.thread hthread
    · exact hinv.outsideStep hout
    · exact hinv.wakeStep hwake

end
end MyWireshark.Session
