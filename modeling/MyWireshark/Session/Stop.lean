import MyWireshark.Capture.Stopping
import MyWireshark.Session.Exit

/-! A stop request ends the process: its threads never get stuck, and once the reader has been asked
to stop they have a bounded number of steps left. -/
namespace MyWireshark.Session
open Transition Queue Capture

section
variable {args : RunArgs} {filter : Option DispFilter.Dispfilter} {maxSize n k : Nat}
  {s t : Process}

/-! Nobody gets stuck -/

namespace ProcessInv

theorem closed_of_stuck (h : ProcessInv args filter maxSize s)
    (hcompile : s.run.pc = .compile → compileFilter args ≠ none)
    (hstuck : ∀ t, ¬ThreadStep args s t) {last : Option Result}
    (hpc : s.mon.pc .capture = .out last) : s.closing = true := by
  by_contra hopen
  have hclosing : s.closing = false := Bool.eq_false_iff.mpr hopen
  by_cases hdone : ∃ result, s.run.pc = .done result
  · obtain ⟨result, hdone⟩ := hdone
    exact hstuck _ (.close hdone hclosing (.call hpc))
  · obtain ⟨run, hrun⟩ := runStep_progress h.run hcompile fun result hr => hdone ⟨result, hr⟩
    by_cases hcallback : ∃ r, s.run.pc = .callback r
    · obtain ⟨r, hr⟩ := hcallback
      cases hpushing : s.pushing with
      | false => exact hstuck _ (.push hr hpushing (.call hpc))
      | true => exact hstuck _ (.pushed hr hpushing hpc hrun)
    · exact hstuck _ (.capture true (fun r hr => hcallback ⟨r, hr⟩) hrun)

theorem main_out_of_stuck (h : ProcessInv args filter maxSize s) (hmax : 1 ≤ maxSize)
    (hcompile : s.run.pc = .compile → compileFilter args ≠ none)
    (hstuck : ∀ t, ¬ThreadStep args s t) : ∃ last, s.mon.pc .main = .out last := by
  have hrun := (Monitor.Reachable.exclusive h.mon).stuck fun i m hm => hstuck _ (.queue i hm)
  have hc := h.pipe.capture
  have hm := h.pipe.main
  have hmw := h.pipe.mainWake
  have hcw := h.pipe.captureWake
  dsimp only at hc hm hmw hcw
  obtain hout | ⟨op, c, hmpc⟩ := hrun .main
  · exact hout
  · rw [hmpc] at hm
    cases hm
    obtain ⟨last, hcpc⟩ | ⟨op', c', hcpc⟩ := hrun .capture
    · -- close has notified all the waiters
      have hclosing := h.closed_of_stuck hcompile hstuck hcpc
      rw [hcpc] at hmw hc
      rw [hclosing] at hc
      cases hc with
      | done hp => simpa [pending, hp.2] using hmw hmpc
      | start hp | next hp => cases hp.1
    · -- the queue would have to be empty and full
      rw [hcpc] at hc
      cases hc with
      | wait hp f =>
        have hempty := hmw hmpc
        have hfull := hcw f hcpc
        rw [hcpc] at hempty
        rw [hmpc] at hfull
        have hsize := (queueInv_of_reachable h.mon).size
        simp only [pending, or_false] at hempty hfull
        rw [hempty.1, List.length_nil] at hfull
        omega

theorem exited_of_stuck (h : ProcessInv args filter maxSize s) (hmax : 1 ≤ maxSize)
    (hfilter : FromCompiler filter) (hcompile : s.run.pc = .compile → compileFilter args ≠ none)
    (hstuck : ∀ t, ¬ThreadStep args s t) : ∃ code, s.main = .exited code := by
  obtain ⟨last, hpc⟩ := h.main_out_of_stuck hmax hcompile hstuck
  have hmain := h.main
  have hm := h.pipe.main
  dsimp only at hm
  rw [hpc] at hm
  cases hat : s.main with
  | exited code => exact ⟨code, rfl⟩
  | pop => exact absurd (.pop hat (.call hpc)) (hstuck _)
  | popping =>
    rw [hat] at hmain
    cases hm with
    | start => exact absurd hpc hmain.1
    | done => exact absurd (.leave hat hpc) (hstuck _)
    | next frame =>
      have hprinter := h.printer
      rw [printFrames_eq hfilter] at hprinter
      obtain ⟨printer, hprint⟩ : ∃ printer, packetPrinterCallback s.printer frame = some printer :=
        ⟨_, by rw [← Option.some.inj hprinter, packetPrinterCallback_eq hfilter]⟩
      exact absurd (.print hat hpc hprint) (hstuck _)
  | join =>
    -- pop returned false, so the capture thread is in its call of close or back from it
    rw [hat] at hmain
    have hclosing := (h.shown_of_drained hmain.1 hmain.2).1
    obtain ⟨result, hdone⟩ := h.closing hclosing
    have hc := h.pipe.capture
    dsimp only at hc
    rw [hclosing] at hc
    have hrun := (Monitor.Reachable.exclusive h.mon).stuck fun i m hm => hstuck _ (.queue i hm)
    obtain ⟨last', hcpc⟩ | ⟨op, c, hcpc⟩ := hrun .capture
    · rw [hcpc] at hc
      cases hc with
      | done => exact absurd (.join hat hdone hcpc) (hstuck _)
      | start hp | next hp => cases hp.1
    · rw [hcpc] at hc
      cases hc with
      | wait hp => cases hp.1

end ProcessInv

/-! What is left to do after a stop request -/

def framesLeft (left : Nat) : Nat := if 22 ≤ left then 1 else 0

/-- The steps that the main thread has left, at a place from which it calls pop `pops` times. -/
def MainAt.left (pops : Nat) : MainAt → Nat
  | .pop => 17 * pops + 2
  | .popping => 17 * pops + 3
  | .join => 1
  | .exited _ => 0

def Process.left (s : Process) : Nat :=
  s.mon.work wakesBound + runLeft s.pushing s.run + (if s.closing then 0 else callCost) +
    s.main.left (popsLeft (s.mon.pc .main)
      (later s.mon + framesLeft (runLeft s.pushing s.run)))

theorem Outside.left {s t : RunState} (h : Outside s t) (pushing : Bool) :
    runLeft pushing t = runLeft pushing s ∧
      (s.ring.ctx.stopRequested = true → t.ring.ctx.stopRequested = true) := by
  cases h with
  | stop =>
    unfold RunState.requestStopImpl
    split_ifs
    · exact ⟨rfl, fun _ => rfl⟩
    · exact ⟨rfl, fun h => h⟩
  | arrive wire sec nsec =>
    unfold RunState.arrive
    split <;> exact ⟨rfl, fun h => h⟩
  | fill | publish => exact ⟨rfl, fun h => h⟩

theorem framesLeft_mono {n n' : Nat} (h : n ≤ n') : framesLeft n ≤ framesLeft n' := by
  unfold framesLeft
  split_ifs <;> omega

theorem MainAt.left_mono {p p' : Nat} (h : p ≤ p') (place : MainAt) :
    place.left p ≤ place.left p' := by
  cases place <;> simp only [MainAt.left] <;> omega

theorem ProcessInv.thread_left (h : ProcessInv args filter maxSize s)
    (hstop : s.run.ring.ctx.stopRequested = true) (hstep : ThreadStep args s t) :
    t.left < s.left := by
  have hsetup := stop_past_setup h.run hstop
  have hbound : wakesBound = 10 := rfl
  have hcost : callCost = 16 := rfl
  unfold Process.left
  cases hstep with
  | @capture ok run hpc hrun =>
    have hpushing : s.pushing = false := by
      rw [Bool.eq_false_iff]
      intro hpushing
      obtain ⟨r, hr⟩ := h.pushing hpushing
      exact hpc r hr
    have hlt : runLeft false run < runLeft false s.run :=
      runStep_left hstop hsetup (fun _ => hpc) hrun
    have hmain := MainAt.left_mono (@popsLeft_mono (s.mon.pc .main) _ _
      (Nat.add_le_add_left (framesLeft_mono (Nat.le_of_lt hlt)) (later s.mon))) s.main
    simp only [hpushing]
    omega
  | @push r _ hpc hnew hcall =>
    have hwork := hcall.work wakesBound
    obtain ⟨hout⟩ := hcall
    -- the frame that was going to come is now in the hands of push
    have hlater : later (s.mon.goto .capture (.lock (.push (recvFrame r)))) = later s.mon + 1 := by
      simp [later, hout, inHand]
    have hbefore : runLeft false s.run = 22 := by simp [runLeft, hpc]
    have hafter : runLeft true s.run = 6 := by simp [runLeft, hpc]
    dsimp only
    rw [hwork, hlater, hnew, hbefore, hafter, Monitor.State.goto_other _ _ (by decide)]
    simp only [framesLeft, Nat.reduceLeDiff, Nat.le_refl, if_true, if_false, Nat.add_zero]
    omega
  | pushed hpc hcalled hret hrun =>
    rw [RunState.runStep, hpc] at hrun
    obtain rfl := Option.some.inj hrun
    simp only [runLeft, hpc, hcalled, framesLeft, if_true, Nat.reduceLeDiff, if_false]
    omega
  | close hpc honce hcall =>
    have hwork := hcall.work wakesBound
    obtain ⟨hout⟩ := hcall
    have hlater : later (s.mon.goto .capture (.lock .close)) = later s.mon := by
      simp [later, hout, inHand]
    dsimp only
    rw [hwork, hlater, honce, Monitor.State.goto_other _ _ (by decide)]
    simp only [if_true, if_false, Bool.false_eq_true]
    omega
  | pop hat hcall =>
    have hwork := hcall.work wakesBound
    obtain ⟨hout⟩ := hcall
    have hlater : later (s.mon.goto .main (.lock .pop)) = later s.mon := by simp [later]
    have hmain := h.main
    rw [hat] at hmain
    obtain ⟨⟨last, hpc, hlast⟩, -⟩ := hmain
    have hm := h.pipe.main
    dsimp only at hm ⊢
    rw [hpc] at hm
    rw [hwork, hlater, hat, hpc, Monitor.State.goto_self]
    cases hm with
    | done => exact absurd rfl hlast
    | start | next =>
      simp only [popsLeft, MainAt.left]
      omega
  | print hat hret hprint =>
    simp only [hat, hret, MainAt.left]
    omega
  | leave hat hret =>
    simp only [hat, hret, MainAt.left, popsLeft]
    omega
  | join hat hpc hret =>
    simp only [hat, MainAt.left]
    omega
  | queue i hrun =>
    have hwork := Monitor.Run.work_lt (fun _ _ _ _ _ => wakes_le) hrun
    have hpops := run_popsLeft hrun h.pipe.capture h.pipe.main
      (framesLeft (runLeft s.pushing s.run))
    have hmain := MainAt.left_mono hpops s.main
    dsimp only
    omega

/-- A wake-up that nobody caused makes a thread look at its condition once more. -/
theorem wake_left (hstep : WakeStep s t) : t.left = s.left + 2 := by
  obtain ⟨hwake⟩ := hstep
  unfold Process.left
  dsimp only
  rw [hwake.work wakesBound, popsLeft_spurious hwake]
  omega

theorem outside_left (hstep : OutsideStep s t) : t.left = s.left ∧
    (s.run.ring.ctx.stopRequested = true → t.run.ring.ctx.stopRequested = true) := by
  obtain ⟨hout⟩ := hstep
  obtain ⟨hleft, hstop⟩ := hout.left s.pushing
  refine ⟨?_, hstop⟩
  unfold Process.left
  dsimp only
  rw [hleft]

theorem thread_stopped (hstep : ThreadStep args s t) :
    t.run.ring.ctx.stopRequested = s.run.ring.ctx.stopRequested := by
  cases hstep with
  | capture _ _ hrun => exact runStep_stopped hrun
  | pushed _ _ _ hrun => exact runStep_stopped hrun
  | _ => rfl

/-! How much there can be left -/

theorem work_le {m : QueueState} {closing closed : Bool}
    (hc : CapturePc closing closed (m.pc .capture)) (hm : MainPc (m.pc .main)) :
    m.work wakesBound ≤ 30 := by
  have hsum : m.work wakesBound = (m.pc .capture).weight 2 wakesBound +
      (m.pc .main).weight 2 wakesBound := Finset.sum_pair (by decide)
  have hcapture : (m.pc .capture).weight 2 wakesBound ≤ 15 := by
    generalize m.pc .capture = pc at hc
    cases hc <;> simp [Monitor.Pc.weight, wakesBound, Monitor.Wake.weight]
  have hmain : (m.pc .main).weight 2 wakesBound ≤ 15 := by
    generalize m.pc .main = pc at hm
    cases hm <;> simp [Monitor.Pc.weight, wakesBound, Monitor.Wake.weight]
  omega

theorem ProcessInv.left_le (h : ProcessInv args filter maxSize s) :
    s.left ≤ 17 * maxSize + 130 := by
  have hwork := work_le h.pipe.capture h.pipe.main
  have hrun := runLeft_le s.pushing s.run
  have hcost : callCost = 16 := rfl
  have hframes : framesLeft (runLeft s.pushing s.run) ≤ 1 := by
    unfold framesLeft
    split_ifs <;> omega
  have hlater : later s.mon ≤ maxSize + 1 := by
    have hbound := (queueInv_of_reachable h.mon).bound
    unfold later inHand
    split <;> simp only [List.length_cons, List.length_nil] <;> omega
  have hpops : ∀ left, popsLeft (s.mon.pc .main) left ≤ left + 1 := by
    intro left
    unfold popsLeft
    split <;> omega
  have hmain := hpops (later s.mon + framesLeft (runLeft s.pushing s.run))
  have hplace : ∀ pops, s.main.left pops ≤ 17 * pops + 3 := by
    intro pops
    cases s.main <;> simp only [MainAt.left] <;> omega
  have hlast := hplace (popsLeft (s.mon.pc .main)
    (later s.mon + framesLeft (runLeft s.pushing s.run)))
  unfold Process.left
  dsimp only at hwork
  split_ifs <;> omega

/-- The threads of the process can take no step exactly when the main thread has exited, whatever
order they ran in before. -/
theorem session_never_stuck (hmax : 1 ≤ maxSize) (hfilter : FromCompiler filter)
    (hcompile : compileFilter args ≠ none) (h : (session args filter maxSize).Reachable s) :
    (∀ t, ¬ThreadStep args s t) ↔ ∃ code, s.main = .exited code := by
  have hinv := processInv_of_reachable h
  refine ⟨hinv.exited_of_stuck hmax hfilter fun _ => hcompile, ?_⟩
  rintro ⟨code, hexit⟩ t hstep
  obtain ⟨result, hpc, -, hclosed⟩ := exitCode_of_reachable h hexit
  have hmain := hinv.main
  rw [hexit] at hmain
  have hclosing := (hinv.shown_of_drained hmain.1 hmain.2).1
  cases hstep with
  | capture ok _ hrun => rw [RunState.runStep, hpc] at hrun; cases hrun
  | push hcall | pushed hcall => rw [hpc] at hcall; cases hcall
  | close _ honce => rw [hclosing] at honce; cases honce
  | pop hat | print hat | leave hat | join hat => rw [hexit] at hat; cases hat
  | queue i hrun =>
    cases i with
    | capture => exact hrun.inside _ hclosed
    | main => exact hrun.inside _ hmain.1

end

theorem session_never_stuck_exited : ∃ s, (session plainArgs none 1).Reachable s ∧
    s.main = .exited 0 ∧ ∀ t, ¬ThreadStep plainArgs s t := by
  obtain ⟨-, s, -, -, -, hreach, hexit, -⟩ := stopped_exit
  have hcompile : compileFilter plainArgs ≠ none := fun h => by cases h
  exact ⟨s, hreach, hexit,
    (session_never_stuck (Nat.le_refl 1) .null hcompile hreach).mpr ⟨0, hexit⟩⟩

section
variable {args : RunArgs} {filter : Option DispFilter.Dispfilter} {maxSize n k : Nat}
  {s t : Process}

/-- Ctrl+C ends the program: when the reader has been asked to stop, the threads of the process take
at most a number of steps that the size of the queue bounds, and two more for each wake-up that
nobody caused, whatever the kernel does meanwhile; and when they can take no other one, the main
thread has exited. -/
theorem session_stops (hmax : 1 ≤ maxSize) (hfilter : FromCompiler filter)
    (h : (session args filter maxSize).Reachable s) (hstop : s.run.ring.ctx.stopRequested = true)
    (hrun : Counted (ThreadStep args) WakeStep OutsideStep s n k t) :
    n ≤ 17 * maxSize + 130 + 2 * k ∧
    ((∀ u, ¬ThreadStep args t u) → ∃ code, t.main = .exited code) := by
  let Stopping := fun s => (session args filter maxSize).Reachable s ∧
    s.run.ring.ctx.stopRequested = true
  have hown : ∀ s t, Stopping s → ThreadStep args s t → Stopping t ∧ t.left < s.left := by
    rintro s t ⟨hs, hstop⟩ hst
    exact ⟨⟨hs.step (.inl hst), (thread_stopped hst).trans hstop⟩,
      (processInv_of_reachable hs).thread_left hstop hst⟩
  have hundo : ∀ s t, Stopping s → WakeStep s t → Stopping t ∧ t.left ≤ s.left + 2 := by
    rintro s t ⟨hs, hstop⟩ hst
    refine ⟨⟨hs.step (.inr (.inr hst)), ?_⟩, Nat.le_of_eq (wake_left hst)⟩
    obtain ⟨hwake⟩ := hst
    exact hstop
  have hfree : ∀ s t, Stopping s → OutsideStep s t → Stopping t ∧ t.left ≤ s.left := by
    rintro s t ⟨hs, hstop⟩ hst
    obtain ⟨hleft, hstopped⟩ := outside_left hst
    exact ⟨⟨hs.step (.inr (.inl hst)), hstopped hstop⟩, Nat.le_of_eq hleft⟩
  constructor
  · have hbound := hrun.bound (P := Stopping) ⟨h, hstop⟩ hown hundo hfree
    have hleft := (processInv_of_reachable h).left_le
    omega
  · obtain ⟨ht, hstopped⟩ := hrun.invariant (P := Stopping) ⟨h, hstop⟩
      (fun s t hs hst => (hown s t hs hst).1) (fun s t hs hst => (hundo s t hs hst).1)
      fun s t hs hst => (hfree s t hs hst).1
    have hinv := processInv_of_reachable ht
    refine hinv.exited_of_stuck hmax hfilter fun hpc => ?_
    have hsetup := stop_past_setup hinv.run hstopped
    rw [hpc] at hsetup
    cases hsetup

end

theorem session_stops_shown : ∃ s t, (session plainArgs none 1).Reachable s ∧
    s.run.ring.ctx.stopRequested = true ∧
    Counted (ThreadStep plainArgs) WakeStep OutsideStep s 19 0 t ∧ 19 ≤ 17 * 1 + 130 + 2 * 0 ∧
    t.main = .exited 0 ∧ ((∀ u, ¬ThreadStep plainArgs t u) → ∃ code, t.main = .exited code) := by
  obtain ⟨s, t, hreach, hstop, hrun, -, hexit, -⟩ := stopped_exit
  obtain ⟨hsteps, hstuck⟩ := session_stops (Nat.le_refl 1) .null hreach hstop hrun.counted
  exact ⟨s, t, hreach, hstop, hrun.counted, hsteps, hexit, hstuck⟩

end MyWireshark.Session
