import MyWireshark.Lib.Work
import MyWireshark.Queue.Progress

/-! The pipeline comes to its end: whatever order its threads run in, they take a bounded number
of steps, with a few more for each spurious wake-up, and those that cannot take another one have
printed everything. -/
namespace MyWireshark.Queue
open Transition Monitor

instance : Fintype Thread where
  elems := {.capture, .main}
  complete i := by cases i <;> simp

/-- What the notifications of one critical section weigh, at most: those of close. -/
def wakesBound : Nat := 10

/-- What a call adds to the work of the threads, and one step more. -/
def callCost : Nat := wakesBound + 6

theorem call_lt {work c c' : Nat} (h : c' + 1 ≤ c) :
    work + (wakesBound + 5) + callCost * c' < work + callCost * c := by
  unfold callCost wakesBound
  omega

theorem wakes_le {op : Op} {q q' : PacketQueue} {wakes : List (Wake Cond)} {result : Result}
    (h : enter op q = .done q' wakes result) :
    wakesWeight (Fintype.card Thread) wakes ≤ wakesBound := by
  cases does_of_enter h <;> decide

/-- How often the main thread at `pc` still calls pop, when `left` frames are going to come out of
the queue and one more call ends the loop. -/
def popsLeft (pc : Pc Op Cond Result) (left : Nat) : Nat :=
  match pc with
  | .out (some (.popped none)) | .leave _ (.popped none) | .notify _ (.popped none) => 0
  | .lock _ | .held _ | .wait .. => left
  | _ => left + 1

def later (m : QueueState) : Nat := m.data.queue.length + (inHand (m.pc .capture)).length

section
variable {m m' : QueueState} {pc : Pc Op Cond Result} {closing closed : Bool}

theorem popsLeft_mono {n n' : Nat} (h : n ≤ n') : popsLeft pc n ≤ popsLeft pc n' := by
  unfold popsLeft
  split <;> omega

theorem popsLeft_woken (c : Cond) (n : Nat) : popsLeft (pc.woken c) n = popsLeft pc n := by
  cases pc with
  | wait op c' => by_cases h : c' = c <;> simp [Pc.woken, popsLeft, h]
  | _ => rfl

theorem captureRun_main (h : Run enter .capture m m') :
    m'.pc .main = m.pc .main ∨ ∃ c, m'.pc .main = (m.pc .main).woken c := by
  cases h with
  | acquire | wait | act | unlock | wakeNone | ret => exact .inl (by simp)
  | wakeOne h hj =>
    rename_i c wakes result j op
    cases j with
    | capture => simp [h] at hj
    | main => exact .inr ⟨c, by simp [hj, Pc.woken]⟩
  | @wakeAll c wakes result h => exact .inr ⟨c, by simp⟩

theorem captureRun_later (h : Run enter .capture m m')
    (hc : CapturePc closing closed (m.pc .capture)) : later m' ≤ later m := by
  unfold later
  cases h with
  | @acquire op h hfree =>
    rw [h]
    cases op <;> simp [inHand]
  | wait h hsec =>
    rw [h]
    cases waits_of_enter hsec <;> simp [inHand]
  | act h hsec =>
    rw [h] at hc ⊢
    cases does_of_enter hsec with
    | drained | dequeue => cases hc
    | refuse | enqueue | close => simp [inHand]
  | wakeOne h hj =>
    rename_i c wakes result j op
    cases j with
    | capture => simp [h] at hj
    | main => simp [h, inHand]
  | unlock h | wakeNone h | wakeAll h | ret h => simp [h, inHand]

theorem mainRun_popsLeft (h : Run enter .main m m') (hm : MainPc (m.pc .main)) (k : Nat) :
    popsLeft (m'.pc .main) (later m' + k) ≤ popsLeft (m.pc .main) (later m + k) := by
  unfold later
  cases h with
  | acquire h hfree => simp [h, popsLeft]
  | wait h hsec => simp [h, popsLeft]
  | act h hsec =>
    rw [h] at hm ⊢
    cases hm with
    | held =>
      cases does_of_enter hsec with
      | drained => simp [popsLeft]
      | dequeue hqueue =>
        simp only [popsLeft, hqueue, List.length_cons, State.goto_self, State.goto_other, ne_eq,
          reduceCtorEq, not_false_eq_true]
        omega
  | unlock h =>
    rw [h] at hm ⊢
    cases hm <;> simp [popsLeft]
  | wakeOne h hj =>
    rename_i c wakes result j op
    rw [h] at hm
    cases j with
    | main => simp [h] at hj
    | capture =>
      have hhand : inHand (.lock op : Pc Op Cond Result) = inHand (.wait op c) := by
        cases op <;> rfl
      cases hm
      simp [h, hj, hhand, popsLeft]
  | wakeNone h hnone =>
    rw [h] at hm
    cases hm
    simp [h, popsLeft]
  | wakeAll h =>
    rw [h] at hm
    cases hm
  | ret h =>
    rw [h] at hm ⊢
    cases hm <;> simp [popsLeft]

theorem run_popsLeft {i : Thread} (h : Run enter i m m')
    (hc : CapturePc closing closed (m.pc .capture)) (hm : MainPc (m.pc .main)) (k : Nat) :
    popsLeft (m'.pc .main) (later m' + k) ≤ popsLeft (m.pc .main) (later m + k) := by
  cases i with
  | main => exact mainRun_popsLeft h hm k
  | capture =>
    have hlater := captureRun_later h hc
    obtain hsame | ⟨c, hwoken⟩ := captureRun_main h
    · rw [hsame]
      exact popsLeft_mono (by omega)
    · rw [hwoken, popsLeft_woken]
      exact popsLeft_mono (by omega)

theorem popsLeft_spurious (h : Spurious m m') (k : Nat) :
    popsLeft (m'.pc .main) (later m' + k) = popsLeft (m.pc .main) (later m + k) := by
  obtain @⟨j, op, c, hpc⟩ := h
  unfold later
  cases j with
  | main => simp [hpc, popsLeft]
  | capture => cases op <;> simp [hpc, inHand]

end

/-- The work of the threads, and what the calls they have not made yet are going to add. -/
def Pipeline.work (p : Pipeline) : Nat :=
  p.mon.work wakesBound + callCost * (p.todo.length + (if p.closing then 0 else 1) +
    popsLeft (p.mon.pc .main) (later p.mon + p.todo.length))

section
variable {frames : List CapturedFrame} {maxSize n : Nat} {p p' : Pipeline}

theorem PipelineInv.work_lt (hinv : PipelineInv frames p) (h : PipelineStep p p') :
    p'.work < p.work := by
  unfold Pipeline.work
  cases h with
  | @push frame rest m htodo h =>
    have hcall := h.work wakesBound
    obtain ⟨hpc⟩ := h
    have hlater : later (p.mon.goto .capture (.lock (.push frame))) + rest.length =
        later p.mon + p.todo.length := by
      simp only [later, htodo, hpc, State.goto_data, State.goto_self, inHand, List.length_cons,
        List.length_nil]
      omega
    rw [hcall, hlater, htodo, State.goto_other _ _ (by simp)]
    exact call_lt (by simp only [List.length_cons]; omega)
  | close htodo honce h =>
    have hcall := h.work wakesBound
    obtain ⟨hpc⟩ := h
    have hlater : later (p.mon.goto .capture (.lock .close)) = later p.mon := by
      simp [later, hpc, inHand]
    rw [hcall, hlater, honce, State.goto_other _ _ (by simp)]
    exact call_lt (by simp only [if_true, Bool.false_eq_true, if_false]; omega)
  | pop hmore h =>
    have hcall := h.work wakesBound
    obtain ⟨hpc⟩ := h
    have hlater : later (p.mon.goto .main (.lock .pop)) = later p.mon := by simp [later]
    have hm := hinv.main
    rw [hcall, hlater, State.goto_self, hpc]
    rw [hpc] at hm hmore
    cases hm with
    | done => exact absurd rfl hmore
    | start | next => exact call_lt (by simp only [popsLeft]; omega)
  | run i h =>
    have hwork := Run.work_lt (fun _ _ _ _ _ => wakes_le) h
    have hpops := run_popsLeft h hinv.capture hinv.main p.todo.length
    exact Nat.add_lt_add_of_lt_of_le hwork
      (Nat.mul_le_mul_left _ (Nat.add_le_add_left hpops _))

theorem work_spurious (h : SpuriousStep p p') : p'.work = p.work + 2 := by
  obtain ⟨hwake⟩ := h
  unfold Pipeline.work
  dsimp only
  rw [hwake.work wakesBound, popsLeft_spurious hwake]
  omega

structure RunInv (frames : List CapturedFrame) (maxSize : Nat) (p : Pipeline) : Prop where
  inv : PipelineInv frames p
  mon : (queueSystem Thread maxSize).Reachable p.mon

theorem RunInv.start (h : (pipeline frames maxSize).init p) : RunInv frames maxSize p :=
  ⟨pipelineInv_of_reachable (.init h), pipeline_reachable (.init h)⟩

theorem RunInv.step (h : RunInv frames maxSize p) (hstep : PipelineStep p p') :
    RunInv frames maxSize p' :=
  ⟨h.inv.step hstep, h.mon.step hstep.queueStep⟩

theorem RunInv.spurious (h : RunInv frames maxSize p) (hstep : SpuriousStep p p') :
    RunInv frames maxSize p' := by
  obtain ⟨hwake⟩ := hstep
  exact ⟨h.inv.spurious hwake, h.mon.step (.spurious hwake)⟩

/-- Whatever order its threads run in, and whatever spurious wake-ups come between, the pipeline
takes at most 32 steps for each frame, 32 more, and 2 for each spurious wake-up; when its threads
can take no other step, both are done and the main thread has got all the frames in order. -/
theorem pipeline_terminates (hmax : 1 ≤ maxSize) {start : Pipeline} {k : Nat}
    (hstart : (pipeline frames maxSize).init start)
    (h : Counted PipelineStep SpuriousStep (fun _ _ => False) start n k p) :
    n ≤ 32 * (frames.length + 1) + 2 * k ∧
    ((∀ p', ¬PipelineStep p p') → CaptureDone p ∧ MainDone p ∧ received p = frames) := by
  have hinv : RunInv frames maxSize p :=
    h.invariant (.start hstart) (fun _ _ hs hst => hs.step hst) (fun _ _ hs hst => hs.spurious hst)
      fun _ _ _ => False.elim
  constructor
  · have hbound := h.bound (P := RunInv frames maxSize) (m := Pipeline.work) (c := 2)
      (.start hstart) (fun s t hs hst => ⟨hs.step hst, hs.inv.work_lt hst⟩)
      (fun s t hs hst => ⟨hs.spurious hst, (work_spurious hst).le⟩) fun _ _ _ => False.elim
    have hwork : start.work = 32 * (frames.length + 1) := by
      obtain rfl := hstart
      simp [Pipeline.work, initial, State.work, Pc.weight, callCost, wakesBound, popsLeft, later,
        emptyQueue, inHand]
      omega
    omega
  · intro hstuck
    obtain ⟨hcapture, hmain⟩ := hinv.inv.done_of_stuck hinv.mon hmax hstuck
    exact ⟨hcapture, hmain, hinv.inv.received_of_popFalse hinv.mon (by rw [hmain]; rfl)⟩

end

theorem fullState_spurious :
    Counted PipelineStep SpuriousStep (fun _ _ => False) fullState 2 1 fullState := by
  have hfull : Counted PipelineStep SpuriousStep (fun _ _ => False) fullState 0 0 fullState := .refl
  have hwoken := hfull.undo (.wake (.spurious (j := .capture) rfl))
  have hwaits := (hwoken.own (.run .capture (.acquire rfl rfl))).own (.run .capture (.wait rfl rfl))
  exact ends_at hwaits rfl rfl rfl

theorem pipeline_terminates_drained :
    Counted PipelineStep SpuriousStep (fun _ _ => False)
      ⟨initial (emptyQueue 1), twoFrames, false⟩ 42 1 drainedState ∧
    42 ≤ 32 * (twoFrames.length + 1) + 2 * 1 ∧ CaptureDone drainedState ∧ MainDone drainedState ∧
      received drainedState = twoFrames := by
  have hrun : Counted PipelineStep SpuriousStep (fun _ _ => False)
      ⟨initial (emptyQueue 1), twoFrames, false⟩ 42 1 drainedState :=
    (twoFrames_full.trans fullState_spurious).trans twoFrames_drained
  obtain ⟨hsteps, hdone⟩ := @pipeline_terminates twoFrames 1 _ _ (Nat.le_refl 1) _ _ rfl hrun
  exact ⟨hrun, hsteps, hdone drainedState_stuck⟩

end MyWireshark.Queue
