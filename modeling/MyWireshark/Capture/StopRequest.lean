import MyWireshark.Capture.Stopping

/-! request_stop_impl reads g_active_ctx and writes to the context in two steps, in a signal handler
or another thread, while run_impl goes on. The two steps come to the same as one as long as the
context lives; raw_socket_close frees it at the end of run_impl, and a write may still come. -/
namespace MyWireshark.Capture
open Transition

/-- A capture with calls of request_stop_impl under way. -/
structure Requested where
  run : RunState
  /-- raw_socket_close has come to its free(ctx) -/
  freed : Bool
  /-- how many of the calls have read g_active_ctx, found it set, and not written yet -/
  holding : Nat
  /-- one of them has written to the freed context -/
  late : Bool

/-- The places behind g_active_ctx = NULL, and those of the early returns. -/
def RunPc.over : RunPc → Bool
  | .closeSocket _ | .done _ => true
  | _ => false

/-- raw_socket_request_stop, on the context of the capture. -/
def RunState.stopAnyway (s : RunState) : RunState :=
  { s with ring := s.ring.rawSocketRequestStop }

/-- The steps of a capture, those of calls of request_stop_impl that nothing comes between
included, the last step of raw_socket_close, and the two steps of the other calls. -/
inductive RequestedStep (args : RunArgs) (s : Requested) : Requested → Prop where
  | capture {run : RunState} (h : RunStep args s.run run) :
    RequestedStep args s { s with run := run }
  -- at `done` the socket is closed: the context is freed next, and run_impl returns after that
  | free {result : Int} (h : s.run.pc = .done result) :
    RequestedStep args s { s with freed := true }
  | read (h : s.run.activeCtx = true) : RequestedStep args s { s with holding := s.holding + 1 }
  | write (h : 0 < s.holding) :
    RequestedStep args s
      { s with run := s.run.stopAnyway, holding := s.holding - 1, late := s.late || s.freed }

structure RequestedStart (s : Requested) : Prop where
  run : RunStart s.run
  freed : s.freed = false
  holding : s.holding = 0
  late : s.late = false

def requestedSystem (args : RunArgs) : System Requested := ⟨RequestedStart, RequestedStep args⟩

/-- `s` is what an uninterrupted run comes to, but for a stop request that nobody looks at any
more. -/
def Alike (r s : RunState) : Prop := s = r ∨ r.pc.over = true ∧ s = r.stopAnyway

section
variable {args : RunArgs} {r s t : RunState}

theorem runStep_active {ok : Bool} (hstep : s.runStep args ok = some t)
    (h : s.activeCtx = true ↔ s.pc.setup = false ∧ s.pc.over = false) :
    t.activeCtx = true ↔ t.pc.setup = false ∧ t.pc.over = false := by
  unfold RunState.runStep at hstep
  cases hpc : s.pc with
  | compile =>
    rw [hpc] at hstep h
    dsimp only at hstep
    split at hstep
    · obtain rfl := Option.some.inj hstep
      simpa [RunPc.setup] using h
    · split at hstep
      · obtain rfl := Option.some.inj hstep
        simpa [RunPc.setup] using h
      · obtain ⟨r, -, hstep⟩ := Option.bind_eq_some_iff.mp hstep
        split at hstep <;> obtain rfl := Option.some.inj hstep <;>
          simpa [RunPc.setup, RunPc.over] using h
  | receive =>
    rw [hpc] at hstep h
    dsimp only at hstep
    split at hstep
    · obtain ⟨r, -, hstep⟩ := Option.bind_eq_some_iff.mp hstep
      split_ifs at hstep <;> obtain rfl := Option.some.inj hstep <;>
        simpa [RunPc.setup, RunPc.over] using h
    · obtain rfl := Option.some.inj hstep
      simpa [RunPc.setup, RunPc.over] using h
  | done => rw [hpc] at hstep; cases hstep
  | activate | closePcap =>
    rw [hpc] at hstep
    obtain rfl := Option.some.inj hstep
    simp [RunPc.setup, RunPc.over]
  | _ =>
    rw [hpc] at hstep h
    dsimp only at hstep
    repeat' split at hstep
    all_goals
      obtain rfl := Option.some.inj hstep
      simpa [RunPc.setup, RunPc.over, RunState.abort] using h

theorem active_iff (h : (runSystem args).Reachable s) :
    s.activeCtx = true ↔ s.pc.setup = false ∧ s.pc.over = false := by
  refine h.invariant (P := fun s => s.activeCtx = true ↔ s.pc.setup = false ∧ s.pc.over = false)
    ?_ ?_
  · intro s hs
    simp [hs.activeCtx, hs.pc, RunPc.setup]
  · intro s t _ hinv hstep
    cases hstep with
    | run ok hrun => exact runStep_active hrun hinv
    | stop =>
      unfold RunState.requestStopImpl
      split_ifs <;> exact hinv
    | arrive wire sec nsec =>
      unfold RunState.arrive
      split <;> exact hinv
    | fill | publish => exact hinv

theorem Alike.step (h : Alike r s) (hstep : RunStep args s t) :
    ∃ r', (r' = r ∨ RunStep args r r') ∧ Alike r' t := by
  obtain rfl | ⟨hover, rfl⟩ := h
  · exact ⟨t, .inr hstep, .inl rfl⟩
  · cases hstep with
    | run ok hrun =>
      cases hpc : r.pc with
      | closeSocket result =>
        -- the one step that is left of run_impl does not look at the flag
        have hr : r.runStep args ok = some { r with ringUp := false, pc := .done result } := by
          rw [RunState.runStep, hpc]
        have hs : r.stopAnyway.runStep args ok =
            some (RunState.stopAnyway { r with ringUp := false, pc := .done result }) := by
          rw [RunState.runStep, RunState.stopAnyway, hpc]
          rfl
        obtain rfl := Option.some.inj (hs.symm.trans hrun)
        exact ⟨_, .inr (.run ok hr), .inr ⟨rfl, rfl⟩⟩
      | done result =>
        rw [RunState.runStep, RunState.stopAnyway, hpc] at hrun
        cases hrun
      | _ =>
        rw [hpc] at hover
        cases hover
    | stop =>
      refine ⟨r, .inl rfl, .inr ⟨hover, ?_⟩⟩
      unfold RunState.requestStopImpl
      split_ifs <;> rfl
    | arrive wire sec nsec hup =>
      refine ⟨r.arrive wire sec nsec, .inr (.arrive wire sec nsec hup), .inr ?_⟩
      unfold RunState.arrive RunState.stopAnyway
      dsimp only
      split <;> exact ⟨hover, rfl⟩
    | fill k b hup hk hb => exact ⟨_, .inr (.fill k b hup hk hb), .inr ⟨hover, rfl⟩⟩
    | publish b hup hk hb hfilling =>
      exact ⟨_, .inr (.publish b hup hk hb hfilling), .inr ⟨hover, rfl⟩⟩

structure RequestedInv (args : RunArgs) (s : Requested) : Prop where
  alike : ∃ r, (runSystem args).Reachable r ∧ Alike r s.run
  holding : 0 < s.holding → s.run.pc.setup = false
  freed : s.freed = true → s.run.pc.over = true
  late : s.late = true → s.freed = true

theorem Alike.pc (h : Alike r s) : s.pc = r.pc ∧ s.activeCtx = r.activeCtx := by
  obtain rfl | ⟨-, rfl⟩ := h <;> exact ⟨rfl, rfl⟩

theorem Alike.write (h : (runSystem args).Reachable r) (halike : Alike r s)
    (hsetup : s.pc.setup = false) :
    ∃ r', (runSystem args).Reachable r' ∧ Alike r' s.stopAnyway := by
  obtain rfl | ⟨hover, rfl⟩ := halike
  · cases hover : s.pc.over with
    | true => exact ⟨s, h, .inr ⟨hover, rfl⟩⟩
    | false =>
      -- the context is still the active one, so the write is that of an uninterrupted call
      have hactive := (active_iff h).mpr ⟨hsetup, hover⟩
      refine ⟨s.requestStopImpl, h.step .stop, .inl ?_⟩
      rw [RunState.requestStopImpl, if_pos hactive]
      rfl
  · exact ⟨r, h, .inr ⟨hover, rfl⟩⟩

/-- run_impl neither goes back to its start nor comes back into its loop. -/
theorem runStep_onward (hstep : RunStep args s t) :
    (s.pc.setup = false → t.pc.setup = false) ∧ (s.pc.over = true → t.pc.over = true) := by
  cases hstep with
  | run ok hrun =>
    constructor
    · intro hs
      cases ht : t.pc.setup with
      | false => rfl
      | true =>
        rw [(runStep_inactive hrun ht).1] at hs
        cases hs
    · intro hs
      cases hpc : s.pc with
      | closeSocket result =>
        rw [RunState.runStep, hpc] at hrun
        obtain rfl := Option.some.inj hrun
        rfl
      | done => rw [RunState.runStep, hpc] at hrun; cases hrun
      | _ => rw [hpc] at hs; cases hs
  | stop =>
    unfold RunState.requestStopImpl
    split_ifs <;> exact ⟨id, id⟩
  | arrive wire sec nsec =>
    unfold RunState.arrive
    split <;> exact ⟨id, id⟩
  | fill | publish => exact ⟨id, id⟩

theorem requestedInv_of_reachable {s : Requested} (h : (requestedSystem args).Reachable s) :
    RequestedInv args s := by
  apply h.invariant
  · intro s hs
    refine ⟨⟨s.run, .init hs.run, .inl rfl⟩, fun hpos => ?_, fun hf => ?_, fun hl => ?_⟩
    · rw [hs.holding] at hpos
      cases hpos
    · rw [hs.freed] at hf
      cases hf
    · rw [hs.late] at hl
      cases hl
  · intro s t _ hinv hstep
    obtain ⟨r, hr, halike⟩ := hinv.alike
    cases hstep with
    | capture hrun =>
      obtain ⟨hsetup, hover⟩ := runStep_onward hrun
      obtain ⟨r', hr', halike'⟩ := halike.step hrun
      have hreach : (runSystem args).Reachable r' := by
        obtain rfl | hmove := hr'
        · exact hr
        · exact hr.step hmove
      exact ⟨⟨r', hreach, halike'⟩, fun hpos => hsetup (hinv.holding hpos),
        fun hf => hover (hinv.freed hf), hinv.late⟩
    | free hdone =>
      refine ⟨⟨r, hr, halike⟩, hinv.holding, fun _ => ?_, fun _ => rfl⟩
      rw [hdone]
      rfl
    | read hactive =>
      rw [halike.pc.2] at hactive
      refine ⟨⟨r, hr, halike⟩, fun _ => ?_, hinv.freed, hinv.late⟩
      rw [halike.pc.1]
      exact ((active_iff hr).mp hactive).1
    | write hpos =>
      refine ⟨halike.write hr (hinv.holding hpos), fun _ => hinv.holding hpos, hinv.freed,
        fun hl => ?_⟩
      obtain hold | hnow := Bool.or_eq_true_iff.mp hl
      · exact hinv.late hold
      · exact hnow

theorem RequestedInv.inactive {s : Requested} (h : RequestedInv args s)
    (hover : s.run.pc.over = true) : s.run.activeCtx = false := by
  obtain ⟨r, hr, halike⟩ := h.alike
  rw [Bool.eq_false_iff]
  intro hactive
  rw [halike.pc.2] at hactive
  rw [halike.pc.1, ((active_iff hr).mp hactive).2] at hover
  cases hover

theorem RequestedInv.reachable {s : Requested} (h : RequestedInv args s)
    (hactive : s.run.activeCtx = true) : (runSystem args).Reachable s.run := by
  obtain ⟨r, hr, halike⟩ := h.alike
  have hpc := halike.pc.1
  obtain hsame | ⟨hover, -⟩ := halike
  · rwa [hsame]
  · rw [← hpc] at hover
    rw [h.inactive hover] at hactive
    cases hactive

structure Settled (args : RunArgs) (s : Requested) : Prop where
  reachable : (requestedSystem args).Reachable s
  ended : s.run.pc.over = true
  holding : s.holding = 0
  late : s.late = false

theorem Settled.step {s t : Requested} (h : Settled args s) (hstep : RequestedStep args s t) :
    Settled args t := by
  have hreach := h.reachable.step hstep
  cases hstep with
  | capture hrun => exact ⟨hreach, (runStep_onward hrun).2 h.ended, h.holding, h.late⟩
  | free => exact ⟨hreach, h.ended, h.holding, h.late⟩
  | read hactive =>
    rw [(requestedInv_of_reachable h.reachable).inactive h.ended] at hactive
    cases hactive
  | write hpos =>
    rw [h.holding] at hpos
    cases hpos

theorem reaches_runFor {n : Nat} {s : Requested} {run : RunState}
    (hrun : runFor args n s.run = some run) :
    (requestedSystem args).Reaches s { s with run := run } := by
  induction n generalizing s with
  | zero =>
    obtain rfl := Option.some.inj hrun
    exact .refl
  | succ n ih =>
    obtain ⟨u, hstep, hrest⟩ := Option.bind_eq_some_iff.mp hrun
    exact .head (.capture (.run true hstep)) (ih (s := { s with run := u }) hrest)

/-- The two steps of request_stop_impl come to the same as one: a capture with calls of it under way
is at every moment one in which nothing came between the steps of a call, but for a flag that nobody
looks at any more. No call has written to a freed context as long as g_active_ctx is not cleared;
and none ever will if, at some moment after that, no call holds the context. -/
theorem stop_requests_atomic {s : Requested} (h : (requestedSystem args).Reachable s) :
    (∃ r, (runSystem args).Reachable r ∧ Alike r s.run) ∧
      (s.run.pc.over = false → s.late = false) ∧
      (s.run.pc.over = true → s.holding = 0 → s.late = false →
        ∀ t, (requestedSystem args).Reaches s t → t.late = false) := by
  have hinv := requestedInv_of_reachable h
  refine ⟨hinv.alike, fun hrunning => ?_, fun hover hholding hlate t ht => ?_⟩
  · rw [Bool.eq_false_iff]
    intro hlate
    rw [hinv.freed (hinv.late hlate)] at hrunning
    cases hrunning
  · have hsettled : Settled args s := ⟨h, hover, hholding, hlate⟩
    exact (ht.stable hsettled fun _ _ hs hst => hs.step hst).late

end

def requestedStart : Requested := ⟨captureStart, false, 0, false⟩

theorem requestedStart_start : RequestedStart requestedStart := ⟨captureStart_start, rfl, rfl, rfl⟩

theorem reachable_active : ∃ s, (requestedSystem plainArgs).Reachable s ∧
    s.run.activeCtx = true ∧ s.holding = 0 ∧ s.run.pc.over = false := by
  have heval : (runFor plainArgs 8 captureStart).map (fun s => (s.activeCtx, s.pc.over)) =
      some (true, false) := by
    decide +kernel
  obtain ⟨run, hrun, hval⟩ := Option.map_eq_some_iff.mp heval
  obtain ⟨hactive, hrunning⟩ := Prod.mk.inj hval
  have hreach := (System.Reachable.init requestedStart_start).reaches
    (@reaches_runFor plainArgs 8 requestedStart run hrun)
  exact ⟨_, hreach, hactive, rfl, hrunning⟩

theorem reaches_freed {args : RunArgs} {s : Requested} (h : (runSystem args).Reachable s.run)
    (hactive : s.run.activeCtx = true) :
    ∃ run result, run.pc = .done result ∧
      (requestedSystem args).Reaches s { s with run := run, freed := true } := by
  have hstop : s.run.requestStopImpl.ring.ctx.stopRequested = true := by
    rw [RunState.requestStopImpl, if_pos hactive]
    rfl
  obtain ⟨n, run, result, hrun, hdone⟩ := returns_when_stopped (h.step .stop) hstop
  have hstopped : (requestedSystem args).Reaches s { s with run := s.run.requestStopImpl } :=
    .single (.capture .stop)
  have hended := hstopped.trans (reaches_runFor (s := { s with run := s.run.requestStopImpl }) hrun)
  exact ⟨run, result, hdone, hended.tail (.free hdone)⟩

/-- Before the end one call holds the context; at the end of a capture whose calls came one after
another, none does. -/
theorem stop_requests_atomic_held :
    (∃ s, (requestedSystem plainArgs).Reachable s ∧ s.holding = 1 ∧
      (∃ r, (runSystem plainArgs).Reachable r ∧ Alike r s.run) ∧ s.late = false) ∧
    ∃ s, (requestedSystem plainArgs).Reachable s ∧ s.freed = true ∧
      ∀ t, (requestedSystem plainArgs).Reaches s t → t.late = false := by
  obtain ⟨s, hreach, hactive, hholding, hrunning⟩ := reachable_active
  have hlate := (stop_requests_atomic hreach).2.1 hrunning
  constructor
  · have hheld := hreach.step (.read hactive)
    obtain ⟨halike, hkept, -⟩ := stop_requests_atomic hheld
    exact ⟨_, hheld, by rw [hholding], halike, hkept hrunning⟩
  · obtain ⟨run, result, hdone, hfreed⟩ :=
      reaches_freed ((requestedInv_of_reachable hreach).reachable hactive) hactive
    have hend := hreach.reaches hfreed
    refine ⟨_, hend, rfl, (stop_requests_atomic hend).2.2 ?_ hholding hlate⟩
    rw [hdone]
    rfl

section
variable {args : RunArgs}

/-- Whenever a capture can be stopped, a call of request_stop_impl can come too late: there is a
schedule in which it writes to the context after raw_socket_close has freed it. -/
theorem stop_request_can_be_late {s : Requested} (h : (requestedSystem args).Reachable s)
    (hactive : s.run.activeCtx = true) :
    ∃ t, (requestedSystem args).Reaches s t ∧ t.late = true := by
  -- one call has read g_active_ctx when another one stops the capture
  let held : Requested := { s with holding := s.holding + 1 }
  have hheld : (requestedSystem args).Reaches s held := .single (.read hactive)
  obtain ⟨run, result, -, hfreed⟩ :=
    reaches_freed (s := held) ((requestedInv_of_reachable h).reachable hactive) hactive
  refine ⟨_, (hheld.trans hfreed).tail (.write (Nat.succ_pos _)), ?_⟩
  exact Bool.or_true _

end

theorem stop_request_can_be_late_plain : ∃ s t, (requestedSystem plainArgs).Reachable s ∧
    s.late = false ∧ (requestedSystem plainArgs).Reaches s t ∧ t.late = true := by
  obtain ⟨s, hreach, hactive, -, hrunning⟩ := reachable_active
  obtain ⟨t, hreaches, hlate⟩ := stop_request_can_be_late hreach hactive
  refine ⟨s, t, hreach, ?_, hreaches, hlate⟩
  rw [Bool.eq_false_iff]
  intro hold
  have hinv := requestedInv_of_reachable hreach
  rw [hinv.freed (hinv.late hold)] at hrunning
  cases hrunning

end MyWireshark.Capture
