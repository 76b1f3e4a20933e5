import MyWireshark.Queue.Safety

/-! The pipeline of main.cpp: a capture thread that pushes its frames and closes the queue,
and the main thread that pops until it gets false. The steps of the pipeline leave spurious
wake-ups out, so a thread that waits goes on only if it is notified; a spurious wake-up is a step
of its own. -/
namespace MyWireshark.Queue
open Transition Monitor

inductive Thread where
  | capture | main
  deriving DecidableEq

abbrev QueueState := State Thread Op PacketQueue Cond Result

/-- The queue with its two threads, the frames still to be pushed, and whether the capture
thread has called close. -/
structure Pipeline where
  mon : QueueState
  todo : List CapturedFrame
  closing : Bool

inductive PipelineStep (p : Pipeline) : Pipeline → Prop where
  | push {frame : CapturedFrame} {rest : List CapturedFrame} {m : QueueState}
      (htodo : p.todo = frame :: rest) (h : Call .capture (.push frame) p.mon m) :
      PipelineStep p { p with mon := m, todo := rest }
  | close {m : QueueState} (htodo : p.todo = []) (honce : p.closing = false)
      (h : Call .capture .close p.mon m) : PipelineStep p { p with mon := m, closing := true }
  | pop {m : QueueState} (hmore : p.mon.pc .main ≠ .out (some (.popped none)))
      (h : Call .main .pop p.mon m) : PipelineStep p { p with mon := m }
  | run (i : Thread) {m : QueueState} (h : Run enter i p.mon m) :
      PipelineStep p { p with mon := m }

inductive SpuriousStep (p : Pipeline) : Pipeline → Prop where
  | wake {m : QueueState} (h : Spurious p.mon m) : SpuriousStep p { p with mon := m }

def pipeline (frames : List CapturedFrame) (maxSize : Nat) : System Pipeline where
  init p := p = ⟨initial (emptyQueue maxSize), frames, false⟩
  step := PipelineStep

def CaptureDone (p : Pipeline) : Prop := p.mon.pc .capture = .out (some .closed)

def MainDone (p : Pipeline) : Prop := p.mon.pc .main = .out (some (.popped none))

def received (p : Pipeline) : List CapturedFrame :=
  handedOut (p.mon.log.filter fun e => e.1 = .main)

theorem PipelineStep.queueStep {p p' : Pipeline} (h : PipelineStep p p') :
    Step enter p.mon p'.mon := by
  cases h with
  | push _ h => exact .call _ _ h
  | close _ _ h => exact .call _ _ h
  | pop _ h => exact .call _ _ h
  | run i h => exact .run i h

theorem pipeline_reachable {frames : List CapturedFrame} {maxSize : Nat} {p : Pipeline}
    (h : (pipeline frames maxSize).Reachable p) :
    (queueSystem Thread maxSize).Reachable p.mon := by
  refine h.map Pipeline.mon ?_ fun _ _ hst => hst.queueStep
  rintro _ rfl
  rfl

/-! Where the two threads can be -/

/-- The places of the capture thread: before it called close, until it has closed the queue,
and after that. -/
inductive CapturePc (closing closed : Bool) : Pc Op Cond Result → Prop where
  | start (h : closing = false ∧ closed = false) : CapturePc closing closed (.out none)
  | next (h : closing = false ∧ closed = false) :
      CapturePc closing closed (.out (some (.pushed true)))
  | lock (h : closing = false ∧ closed = false) (f) : CapturePc closing closed (.lock (.push f))
  | held (h : closing = false ∧ closed = false) (f) : CapturePc closing closed (.held (.push f))
  | wait (h : closing = false ∧ closed = false) (f) :
      CapturePc closing closed (.wait (.push f) .notFull)
  | leave (h : closing = false ∧ closed = false) :
      CapturePc closing closed (.leave [.one .notEmpty] (.pushed true))
  | notify (h : closing = false ∧ closed = false) :
      CapturePc closing closed (.notify [.one .notEmpty] (.pushed true))
  | ret (h : closing = false ∧ closed = false) :
      CapturePc closing closed (.notify [] (.pushed true))
  | lockClose (h : closing = true ∧ closed = false) : CapturePc closing closed (.lock .close)
  | heldClose (h : closing = true ∧ closed = false) : CapturePc closing closed (.held .close)
  | leaveClose (h : closing = true ∧ closed = true) :
      CapturePc closing closed (.leave [.all .notEmpty, .all .notFull] .closed)
  | notifyBoth (h : closing = true ∧ closed = true) :
      CapturePc closing closed (.notify [.all .notEmpty, .all .notFull] .closed)
  | notifyFull (h : closing = true ∧ closed = true) :
      CapturePc closing closed (.notify [.all .notFull] .closed)
  | retClose (h : closing = true ∧ closed = true) :
      CapturePc closing closed (.notify [] .closed)
  | done (h : closing = true ∧ closed = true) : CapturePc closing closed (.out (some .closed))

inductive MainPc : Pc Op Cond Result → Prop where
  | start : MainPc (.out none)
  | next (f) : MainPc (.out (some (.popped (some f))))
  | lock : MainPc (.lock .pop)
  | held : MainPc (.held .pop)
  | wait : MainPc (.wait .pop .notEmpty)
  | leave (f) : MainPc (.leave [.one .notFull] (.popped (some f)))
  | notify (f) : MainPc (.notify [.one .notFull] (.popped (some f)))
  | ret (f) : MainPc (.notify [] (.popped (some f)))
  | leaveFalse : MainPc (.leave [] (.popped none))
  | retFalse : MainPc (.notify [] (.popped none))
  | done : MainPc (.out (some (.popped none)))

def inHand : Pc Op Cond Result → List CapturedFrame
  | .lock (.push f) | .held (.push f) | .wait (.push f) _ => [f]
  | _ => []

def pending (c : Cond) : Pc Op Cond Result → Prop
  | .leave wakes _ | .notify wakes _ => .one c ∈ wakes ∨ .all c ∈ wakes
  | _ => False

/-- The invariant. Its last two fields are why no wake-up is lost: who waits although its
predicate is true is going to be notified. -/
structure PipelineInv (frames : List CapturedFrame) (p : Pipeline) : Prop where
  capture : CapturePc p.closing p.mon.data.closed (p.mon.pc .capture)
  main : MainPc (p.mon.pc .main)
  script : enqueued p.mon.log ++ (inHand (p.mon.pc .capture) ++ p.todo) = frames
  todo : p.closing = true → p.todo = []
  poppers : ∀ e ∈ p.mon.log, e.2.1 = .pop → e.1 = .main
  mainWake : p.mon.pc .main = .wait .pop .notEmpty →
    (p.mon.data.queue = [] ∧ p.mon.data.closed = false) ∨ pending .notEmpty (p.mon.pc .capture)
  captureWake : ∀ f, p.mon.pc .capture = .wait (.push f) .notFull →
    p.mon.data.maxSize ≤ p.mon.data.queue.length ∨ pending .notFull (p.mon.pc .main)

section
variable {frames : List CapturedFrame} {p : Pipeline} {m : QueueState}

theorem MainPc.woken {pc : Pc Op Cond Result} (h : MainPc pc) (c : Cond) : MainPc (pc.woken c) := by
  cases h with
  | wait =>
    cases c with
    | notEmpty => exact .lock
    | notFull => exact .wait
  | start => exact .start
  | next f => exact .next f
  | lock => exact .lock
  | held => exact .held
  | leave f => exact .leave f
  | notify f => exact .notify f
  | ret f => exact .ret f
  | leaveFalse => exact .leaveFalse
  | retFalse => exact .retFalse
  | done => exact .done

/-- What a step that is no critical section has to respect. -/
theorem PipelineInv.move (hinv : PipelineInv frames p) (hdata : m.data = p.mon.data)
    (hlog : m.log = p.mon.log)
    (hcap : CapturePc p.closing p.mon.data.closed (m.pc .capture)) (hmain : MainPc (m.pc .main))
    (hhand : inHand (m.pc .capture) = inHand (p.mon.pc .capture))
    (hmw : m.pc .main = .wait .pop .notEmpty →
      (p.mon.data.queue = [] ∧ p.mon.data.closed = false) ∨ pending .notEmpty (m.pc .capture))
    (hcw : ∀ f, m.pc .capture = .wait (.push f) .notFull →
      p.mon.data.maxSize ≤ p.mon.data.queue.length ∨ pending .notFull (m.pc .main)) :
    PipelineInv frames { p with mon := m } where
  capture := by rw [hdata]; exact hcap
  main := hmain
  script := by rw [hlog, hhand]; exact hinv.script
  todo := hinv.todo
  poppers := by rw [hlog]; exact hinv.poppers
  mainWake := by rw [hdata]; exact hmw
  captureWake := by rw [hdata]; exact hcw

theorem PipelineInv.poppers_snoc (hinv : PipelineInv frames p) {x : Thread × Op × Result}
    (hx : x.2.1 = .pop → x.1 = .main) : ∀ e ∈ p.mon.log ++ [x], e.2.1 = .pop → e.1 = .main := by
  intro e he hpop
  cases List.mem_append.mp he with
  | inl hold => exact hinv.poppers e hold hpop
  | inr hnew => exact List.mem_singleton.mp hnew ▸ hx (List.mem_singleton.mp hnew ▸ hpop)

theorem PipelineInv.captureSection (hinv : PipelineInv frames p) {op : Op} {q : PacketQueue}
    {wakes : List (Wake Cond)} {result : Result} (h : p.mon.pc .capture = .held op)
    (hpc : CapturePc p.closing q.closed (.leave wakes result))
    (hhand : enqueued [(Thread.capture, op, result)] = inHand (.held op)) (hop : op ≠ .pop)
    (hwake : pending .notEmpty (.leave wakes result)) :
    PipelineInv frames { p with mon :=
      { p.mon.goto .capture (.leave wakes result) with
        data := q, log := p.mon.log ++ [(.capture, op, result)] } } where
  capture := by simpa using hpc
  main := by simpa using hinv.main
  script := by
    have hscript := hinv.script
    rw [h, ← hhand] at hscript
    simpa [enqueued_append, inHand] using hscript
  todo := hinv.todo
  poppers := hinv.poppers_snoc fun hpop => absurd hpop hop
  mainWake _ := .inr (by simpa using hwake)
  captureWake := by simp

theorem PipelineInv.captureRun (hinv : PipelineInv frames p) (h : Run enter .capture p.mon m) :
    PipelineInv frames { p with mon := m } := by
  have hc := hinv.capture
  have hm := hinv.main
  have hmw := hinv.mainWake
  cases h with
  | acquire h hfree =>
    rw [h] at hc hmw
    refine hinv.move rfl rfl ?_ (by simpa using hm) ?_ (by simpa [pending] using hmw) (by simp)
    · simp only [State.goto_self]
      cases hc with
      | lock hp f => exact .held hp f
      | lockClose hp => exact .heldClose hp
    · cases hc <;> simp [h, inHand]
  | wait h hsec =>
    rw [h] at hc hmw
    cases hc with
    | held hp f =>
      cases waits_of_enter hsec with
      | full hfull =>
        exact hinv.move rfl rfl (by simpa using .wait hp f) (by simpa using hm)
          (by simp [h, inHand]) (by simpa [pending] using hmw) fun _ _ => .inl hfull
    | heldClose hp => cases waits_of_enter hsec
  | act h hsec =>
    rw [h] at hc
    cases hc with
    | held hp f =>
      cases does_of_enter hsec with
      | refuse hclosed =>
        -- only the capture thread closes the queue, and it still pushes
        rw [hp.2] at hclosed
        cases hclosed
      | enqueue =>
        exact hinv.captureSection h (.leave hp) rfl (by simp) (by simp [pending])
    | heldClose hp =>
      cases does_of_enter hsec with
      | close =>
        exact hinv.captureSection h (.leaveClose ⟨hp.1, rfl⟩) rfl (by simp) (by simp [pending])
  | unlock h =>
    rw [h] at hc hmw
    refine hinv.move rfl rfl ?_ (by simpa using hm) (by simp [h, inHand])
      (by simpa [pending] using hmw) (by simp)
    simp only [State.goto_self]
    cases hc with
    | leave hp => exact .notify hp
    | leaveClose hp => exact .notifyBoth hp
  | wakeOne h hj =>
    rename_i j op
    rw [h] at hc
    cases hc with
    | notify hp =>
      cases j with
      | capture => simp [h] at hj
      | main =>
        rw [hj] at hm
        cases hm with
        | wait =>
          exact hinv.move rfl rfl (by simpa using .ret hp) (by simpa using .lock)
            (by simp [h, inHand]) (by simp) (by simp)
  | wakeNone h hnone =>
    rw [h] at hc
    cases hc with
    | notify hp =>
      refine hinv.move rfl rfl (by simpa using .ret hp) (by simpa using hm) (by simp [h, inHand])
        ?_ (by simp)
      intro hwait
      exact absurd (by simpa using hwait) (hnone .main .pop)
  | wakeAll h =>
    rw [h] at hc hmw
    cases hc with
    | notifyBoth hp =>
      refine hinv.move rfl rfl (by simpa using .notifyFull hp) (by simpa using hm.woken _)
        (by simp [h, inHand]) (fun hwait => ?_) (by simp)
      -- who waited for notEmpty has just been woken
      exact absurd rfl (Pc.wait_of_woken hwait).2
    | notifyFull hp =>
      refine hinv.move rfl rfl (by simpa using .retClose hp) (by simpa using hm.woken _)
        (by simp [h, inHand]) (fun hwait => ?_) (by simp)
      -- nobody waits for notEmpty any more: the queue is closed, and that was notified first
      have hold := hmw (Pc.wait_of_woken hwait).1
      simp [pending, hp.2] at hold
  | ret h =>
    rw [h] at hc hmw
    refine hinv.move rfl rfl ?_ (by simpa using hm) (by simp [h, inHand])
      (by simpa [pending] using hmw) (by simp)
    simp only [State.goto_self]
    cases hc with
    | ret hp => exact .next hp
    | retClose hp => exact .done hp

theorem PipelineInv.mainRun (hinv : PipelineInv frames p) (h : Run enter .main p.mon m) :
    PipelineInv frames { p with mon := m } := by
  have hc := hinv.capture
  have hm := hinv.main
  have hcw := hinv.captureWake
  cases h with
  | acquire h hfree =>
    rw [h] at hm hcw
    cases hm with
    | lock =>
      exact hinv.move rfl rfl (by simpa using hc) (by simpa using .held) (by simp) (by simp)
        (by simpa [pending] using hcw)
  | wait h hsec =>
    rw [h] at hm hcw
    cases hm with
    | held =>
      cases waits_of_enter hsec with
      | empty hempty hopen =>
        exact hinv.move rfl rfl (by simpa using hc) (by simpa using .wait) (by simp)
          (fun _ => .inl ⟨hempty, hopen⟩) (by simpa [pending] using hcw)
  | act h hsec =>
    rw [h] at hm hcw
    cases hm with
    | held =>
      cases does_of_enter hsec with
      | drained =>
        refine ⟨by simpa using hc, by simpa using .leaveFalse, ?_, hinv.todo,
          hinv.poppers_snoc (by simp), by simp, by simpa [pending] using hcw⟩
        simpa [enqueued_append, enqueued] using hinv.script
      | @dequeue f rest hqueue =>
        refine ⟨by simpa using hc, by simpa using .leave f, ?_, hinv.todo,
          hinv.poppers_snoc (by simp), by simp, fun _ _ => .inr (by simp [pending])⟩
        simpa [enqueued_append, enqueued] using hinv.script
  | unlock h =>
    rw [h] at hm hcw
    refine hinv.move rfl rfl (by simpa using hc) ?_ (by simp) (by simp)
      (by simpa [pending] using hcw)
    simp only [State.goto_self]
    cases hm with
    | leave f => exact .notify f
    | leaveFalse => exact .retFalse
  | wakeOne h hj =>
    rename_i j op
    rw [h] at hm
    cases hm with
    | notify f =>
      cases j with
      | main => simp [h] at hj
      | capture =>
        rw [hj] at hc
        cases hc with
        | wait hp f' =>
          exact hinv.move rfl rfl (by simpa using .lock hp f') (by simpa using .ret f)
            (by simp [hj, inHand]) (by simp) (by simp)
  | wakeNone h hnone =>
    rw [h] at hm
    cases hm with
    | notify f =>
      refine hinv.move rfl rfl (by simpa using hc) (by simpa using .ret f) (by simp) (by simp) ?_
      intro f' hwait
      exact absurd (by simpa using hwait) (hnone .capture (.push f'))
  | wakeAll h =>
    rw [h] at hm
    cases hm
  | ret h =>
    rw [h] at hm hcw
    refine hinv.move rfl rfl (by simpa using hc) ?_ (by simp) (by simp)
      (by simpa [pending] using hcw)
    simp only [State.goto_self]
    cases hm with
    | ret f => exact .next f
    | retFalse => exact .done

theorem PipelineInv.spurious (hinv : PipelineInv frames p) (h : Spurious p.mon m) :
    PipelineInv frames { p with mon := m } := by
  obtain @⟨j, op, c, hpc⟩ := h
  have hc := hinv.capture
  have hm := hinv.main
  have hmw := hinv.mainWake
  have hcw := hinv.captureWake
  cases j with
  | capture =>
    rw [hpc] at hc hmw
    cases hc with
    | wait hp f =>
      exact hinv.move rfl rfl (by simpa using .lock hp f) (by simpa using hm)
        (by simp [hpc, inHand]) (by simpa [pending] using hmw) (by simp)
  | main =>
    rw [hpc] at hm hcw
    cases hm with
    | wait =>
      exact hinv.move rfl rfl (by simpa using hc) (by simpa using .lock) (by simp) (by simp)
        (by simpa [pending] using hcw)

end
end MyWireshark.Queue
