import MyWireshark.Queue.Pipeline

/-! The pipeline over whole runs: its invariant holds in every state it reaches, so it never
gets stuck and the main thread gets every frame. -/
namespace MyWireshark.Queue
open Transition Monitor

section
variable {frames : List CapturedFrame} {p : Pipeline}

theorem CapturePc.open_outside {closed : Bool} {last : Option Result}
    (h : CapturePc false closed (.out last)) : closed = false := by
  cases h with
  | start hp => exact hp.2
  | next hp => exact hp.2
  | done hp => cases hp.1

theorem PipelineInv.step {p' : Pipeline} (hinv : PipelineInv frames p) (h : PipelineStep p p') :
    PipelineInv frames p' := by
  have hc := hinv.capture
  have hm := hinv.main
  have hmw := hinv.mainWake
  have hcw := hinv.captureWake
  cases h with
  | push htodo h =>
    obtain ⟨hpc⟩ := h
    have hopen : p.closing = false := by
      cases hcl : p.closing with
      | false => rfl
      | true => simp [hinv.todo hcl] at htodo
    rw [hpc] at hmw
    rw [hpc, hopen] at hc
    refine ⟨by simpa using .lock ⟨hopen, hc.open_outside⟩ _, by simpa using hm, ?_, by simp [hopen],
      hinv.poppers, by simpa [pending] using hmw, by simp⟩
    have hscript := hinv.script
    rw [hpc, htodo] at hscript
    simpa [inHand] using hscript
  | close htodo honce h =>
    obtain ⟨hpc⟩ := h
    rw [hpc] at hmw
    rw [hpc, honce] at hc
    refine ⟨by simpa using .lockClose ⟨rfl, hc.open_outside⟩, by simpa using hm, ?_, fun _ => htodo,
      hinv.poppers, by simpa [pending] using hmw, by simp⟩
    have hscript := hinv.script
    rw [hpc] at hscript
    simpa [inHand] using hscript
  | pop hmore h =>
    obtain ⟨hpc⟩ := h
    rw [hpc] at hcw
    exact hinv.move rfl rfl (by simpa using hc) (by simpa using .lock) (by simp) (by simp)
      (by simpa [pending] using hcw)
  | run i h =>
    cases i with
    | capture => exact hinv.captureRun h
    | main => exact hinv.mainRun h

theorem pipelineInv_of_reachable {maxSize : Nat} (h : (pipeline frames maxSize).Reachable p) :
    PipelineInv frames p := by
  refine h.invariant ?_ fun p p' _ hinv hst => hinv.step hst
  rintro _ rfl
  exact ⟨.start ⟨rfl, rfl⟩, .start, by simp [initial, enqueued, inHand], by simp, by simp [initial],
    by simp [initial], by simp [initial]⟩

theorem PipelineInv.received (hinv : PipelineInv frames p) :
    received p = handedOut p.mon.log := by
  have hall : ∀ log : List (Thread × Op × Result), (∀ e ∈ log, e.2.1 = .pop → e.1 = .main) →
      handedOut (log.filter fun e => e.1 = .main) = handedOut log := by
    intro log hlog
    induction log with
    | nil => rfl
    | cons e log ih =>
      have htail := ih fun e' he' => hlog e' (by simp [he'])
      obtain ⟨i, op, result⟩ := e
      cases i with
      | main =>
        have hcons : ∀ l, handedOut ((Thread.main, op, result) :: l) =
            handedOut [(Thread.main, op, result)] ++ handedOut l := handedOut_append [_]
        rw [List.filter_cons_of_pos (by simp), hcons, hcons log, htail]
      | capture =>
        have hop : op ≠ .pop := by
          intro hpop
          simpa using hlog (.capture, op, result) (by simp) hpop
        cases op with
        | pop => exact absurd rfl hop
        | push f => simpa [handedOut] using htail
        | close => simpa [handedOut] using htail
  exact hall _ hinv.poppers

theorem CapturePc.closing_of_closed {closing : Bool} {pc : Pc Op Cond Result}
    (h : CapturePc closing true pc) : closing = true ∧ inHand pc = [] := by
  cases h with
  | leaveClose hp => exact ⟨hp.1, rfl⟩
  | notifyBoth hp => exact ⟨hp.1, rfl⟩
  | notifyFull hp => exact ⟨hp.1, rfl⟩
  | retClose hp => exact ⟨hp.1, rfl⟩
  | done hp => exact ⟨hp.1, rfl⟩
  | start hp | next hp | lock hp f | held hp f | wait hp f | leave hp | notify hp | ret hp
  | lockClose hp | heldClose hp => cases hp.2

theorem CapturePc.inHand_closing {closed : Bool} {pc : Pc Op Cond Result}
    (h : CapturePc true closed pc) : inHand pc = [] := by
  cases h with
  | lockClose | heldClose | leaveClose | notifyBoth | notifyFull | retClose | done => rfl
  | start hp | next hp | lock hp f | held hp f | wait hp f | leave hp | notify hp | ret hp =>
    cases hp.1

theorem captureDone_of_stuck (hinv : PipelineInv frames p) (hstuck : ∀ p', ¬ PipelineStep p p')
    {last : Option Result} (hpc : p.mon.pc .capture = .out last) : CaptureDone p := by
  have hclosing : p.closing = true := by
    cases hcl : p.closing with
    | true => rfl
    | false =>
      cases htodo : p.todo with
      | nil => exact absurd (.close htodo hcl (.call hpc)) (hstuck _)
      | cons f rest => exact absurd (.push htodo (.call hpc)) (hstuck _)
  have hc := hinv.capture
  rw [hpc] at hc
  unfold CaptureDone
  rw [hpc]
  cases hc with
  | start hp => simp [hclosing] at hp
  | next hp => simp [hclosing] at hp
  | done hp => rfl

theorem mainDone_of_stuck (hstuck : ∀ p', ¬ PipelineStep p p') {last : Option Result}
    (hpc : p.mon.pc .main = .out last) : MainDone p := by
  by_contra hmore
  exact hstuck _ (.pop hmore (.call hpc))

section
variable {maxSize : Nat} (hreach : (queueSystem Thread maxSize).Reachable p.mon)
include hreach

theorem drained_of_popFalse (hres : (p.mon.pc .main).result = some (.popped none)) :
    p.mon.data.closed = true ∧ p.mon.data.queue = [] := by
  obtain ⟨op, hop⟩ := Reachable.logged hreach .main _ hres
  exact (queueInv_of_reachable hreach).drained _ hop rfl

theorem PipelineInv.done_of_stuck (hinv : PipelineInv frames p) (hmax : 1 ≤ maxSize)
    (hstuck : ∀ p', ¬ PipelineStep p p') : CaptureDone p ∧ MainDone p := by
  have hrun := (Reachable.exclusive hreach).stuck fun i m hm => hstuck _ (.run i hm)
  have hc := hinv.capture
  have hm := hinv.main
  have hmw := hinv.mainWake
  cases hrun .capture with
  | inl hcout =>
    obtain ⟨last, hcpc⟩ := hcout
    have hcdone := captureDone_of_stuck hinv hstuck hcpc
    cases hrun .main with
    | inl hmout =>
      obtain ⟨last', hmpc⟩ := hmout
      exact ⟨hcdone, mainDone_of_stuck hstuck hmpc⟩
    | inr hmwait =>
      -- the notification of close reached every waiter
      obtain ⟨op, c, hmpc⟩ := hmwait
      rw [hmpc] at hm
      cases hm
      rw [hcdone] at hc hmw
      cases hc with
      | done hp => simpa [pending, hp.2] using hmw hmpc
  | inr hcwait =>
    obtain ⟨op, c, hcpc⟩ := hcwait
    rw [hcpc] at hc hmw
    cases hc with
    | wait hp f =>
      cases hrun .main with
      | inl hmout =>
        obtain ⟨last', hmpc⟩ := hmout
        have hmdone := mainDone_of_stuck hstuck hmpc
        have hclosed := (drained_of_popFalse hreach (by rw [hmdone]; rfl)).1
        simp [hp.2] at hclosed
      | inr hmwait =>
        -- the queue would have to be empty and full
        obtain ⟨op', c', hmpc⟩ := hmwait
        have hfull := hinv.captureWake f hcpc
        rw [hmpc] at hm hfull
        cases hm
        have hempty := hmw hmpc
        have hsize := (queueInv_of_reachable hreach).size
        simp only [pending, or_false] at hempty hfull
        rw [hempty.1, List.length_nil] at hfull
        omega

theorem PipelineInv.received_of_popFalse (hinv : PipelineInv frames p)
    (hres : (p.mon.pc .main).result = some (.popped none)) : Queue.received p = frames := by
  obtain ⟨hclosed, hempty⟩ := drained_of_popFalse hreach hres
  have hc := hinv.capture
  rw [hclosed] at hc
  obtain ⟨hclosing, hhand⟩ := hc.closing_of_closed
  have hscript := hinv.script
  have hfifo := (queueInv_of_reachable hreach).fifo
  rw [hhand, hinv.todo hclosing] at hscript
  rw [hempty] at hfifo
  rw [hinv.received]
  simpa using hfifo.trans (by simpa using hscript)

end

/-- The pipeline is never stuck before both threads are done, and when the main thread has
seen false it has got all the frames in order. -/
theorem pipeline_never_stuck {maxSize : Nat} (hmax : 1 ≤ maxSize)
    (h : (pipeline frames maxSize).Reachable p) :
    ((∀ p', ¬ PipelineStep p p') → CaptureDone p ∧ MainDone p) ∧
    ((p.mon.pc .main).result = some (.popped none) → received p = frames) :=
  ⟨(pipelineInv_of_reachable h).done_of_stuck (pipeline_reachable h) hmax,
    (pipelineInv_of_reachable h).received_of_popFalse (pipeline_reachable h)⟩

end

/-! Two frames through a queue for one -/

def twoFrames : List CapturedFrame := [⟨[1], 7, 8⟩, ⟨[2], 7, 9⟩]

/-- The first frame is in the queue, the main thread was woken to take it, and the capture thread
waits with the second one. -/
def fullState : Pipeline where
  mon :=
    { data := ⟨[⟨[1], 7, 8⟩], 1, false⟩
      owner := none
      pc := fun
        | .capture => .wait (.push ⟨[2], 7, 9⟩) .notFull
        | .main => .lock .pop
      log := [(.capture, .push ⟨[1], 7, 8⟩, .pushed true)] }
  todo := []
  closing := false

def drainedState : Pipeline where
  mon :=
    { data := ⟨[], 1, true⟩
      owner := none
      pc := fun
        | .capture => .out (some .closed)
        | .main => .out (some (.popped none))
      log := [(.capture, .push ⟨[1], 7, 8⟩, .pushed true),
        (.main, .pop, .popped (some ⟨[1], 7, 8⟩)),
        (.capture, .push ⟨[2], 7, 9⟩, .pushed true),
        (.main, .pop, .popped (some ⟨[2], 7, 9⟩)),
        (.capture, .close, .closed), (.main, .pop, .popped none)] }
  todo := []
  closing := true

section
variable {undo free : Pipeline → Pipeline → Prop}

theorem ends_at {n k : Nat} {start p q : Pipeline} (h : Counted PipelineStep undo free start n k p)
    (hcapture : p.mon.pc .capture = q.mon.pc .capture) (hmain : p.mon.pc .main = q.mon.pc .main)
    (hrest : (p.mon.data, p.mon.owner, p.mon.log, p.todo, p.closing) =
      (q.mon.data, q.mon.owner, q.mon.log, q.todo, q.closing)) :
    Counted PipelineStep undo free start n k q := by
  obtain ⟨⟨data, owner, pc, log⟩, todo, closing⟩ := p
  obtain ⟨⟨data', owner', pc', log'⟩, todo', closing'⟩ := q
  obtain rfl : pc = pc' := by
    funext i
    cases i with
    | capture => exact hcapture
    | main => exact hmain
  simp only [Prod.mk.injEq] at hrest
  obtain ⟨rfl, rfl, rfl, rfl, rfl⟩ := hrest
  exact h

theorem twoFrames_full : Counted PipelineStep undo free
    ⟨initial (emptyQueue 1), twoFrames, false⟩ 12 0 fullState := by
  have hstart : Counted PipelineStep undo free ⟨initial (emptyQueue 1), twoFrames, false⟩ 0 0
    ⟨initial (emptyQueue 1), twoFrames, false⟩ := .refl
  -- the main thread finds the queue empty and waits
  have hwaits := ((hstart.own (.pop (fun h => by cases h) (.call rfl))).own
    (.run .main (.acquire rfl rfl))).own (.run .main (.wait rfl rfl))
  -- the first push wakes it
  have hpushed := (((((hwaits.own (.push rfl (.call rfl))).own
    (.run .capture (.acquire rfl rfl))).own (.run .capture (.act rfl rfl))).own
    (.run .capture (.unlock rfl))).own (.run .capture (.wakeOne (j := .main) rfl rfl))).own
    (.run .capture (.ret rfl))
  -- the second one finds the queue full and waits
  have hfull := ((hpushed.own (.push rfl (.call rfl))).own
    (.run .capture (.acquire rfl rfl))).own (.run .capture (.wait rfl rfl))
  exact ends_at hfull rfl rfl rfl

theorem twoFrames_drained : Counted PipelineStep undo free fullState 28 0 drainedState := by
  have hfull : Counted PipelineStep undo free fullState 0 0 fullState := .refl
  -- the main thread takes the first frame and wakes the capture thread
  have hpopped := ((((hfull.own (.run .main (.acquire rfl rfl))).own
    (.run .main (.act rfl rfl))).own (.run .main (.unlock rfl))).own
    (.run .main (.wakeOne (j := .capture) rfl rfl))).own (.run .main (.ret rfl))
  have hpushed := ((((hpopped.own (.run .capture (.acquire rfl rfl))).own
    (.run .capture (.act rfl rfl))).own (.run .capture (.unlock rfl))).own
    (.run .capture (.wakeNone rfl fun j op => by cases j <;> intro h <;> cases h))).own
    (.run .capture (.ret rfl))
  have hpopped := (((((hpushed.own (.pop (fun h => by cases h) (.call rfl))).own
    (.run .main (.acquire rfl rfl))).own (.run .main (.act rfl rfl))).own
    (.run .main (.unlock rfl))).own
    (.run .main (.wakeNone rfl fun j op => by cases j <;> intro h <;> cases h))).own
    (.run .main (.ret rfl))
  -- the capture thread closes the queue, and the main thread finds it empty
  have hclosed := ((((((hpopped.own (.close rfl rfl (.call rfl))).own
    (.run .capture (.acquire rfl rfl))).own (.run .capture (.act rfl rfl))).own
    (.run .capture (.unlock rfl))).own (.run .capture (.wakeAll rfl))).own
    (.run .capture (.wakeAll rfl))).own (.run .capture (.ret rfl))
  have hdrained := ((((hclosed.own (.pop (fun h => by cases h) (.call rfl))).own
    (.run .main (.acquire rfl rfl))).own (.run .main (.act rfl rfl))).own
    (.run .main (.unlock rfl))).own (.run .main (.ret rfl))
  exact ends_at hdrained rfl rfl rfl

end

theorem drainedState_stuck (p : Pipeline) : ¬PipelineStep drainedState p := by
  intro h
  cases h with
  | push htodo => cases htodo
  | close _ honce => cases honce
  | pop hmore => exact hmore rfl
  | run i h =>
    cases i with
    | capture => cases h with | _ h => cases h
    | main => cases h with | _ h => cases h

theorem pipeline_never_stuck_drained : ∃ q p, (pipeline twoFrames 1).Reachable q ∧
    q.mon.pc .capture = .wait (.push ⟨[2], 7, 9⟩) .notFull ∧ (pipeline twoFrames 1).Reaches q p ∧
    (∀ p', ¬PipelineStep p p') ∧ CaptureDone p ∧ MainDone p ∧ received p = twoFrames := by
  have hfull : (pipeline twoFrames 1).Reachable fullState :=
    System.Reachable.reaches (.init rfl) (Counted.reaches twoFrames_full)
  have hrest : (pipeline twoFrames 1).Reaches fullState drainedState :=
    Counted.reaches twoFrames_drained
  obtain ⟨hdone, hreceived⟩ := pipeline_never_stuck (by decide) (hfull.reaches hrest)
  exact ⟨fullState, drainedState, hfull, rfl, hrest, drainedState_stuck,
    (hdone drainedState_stuck).1, (hdone drainedState_stuck).2, hreceived rfl⟩

end MyWireshark.Queue
