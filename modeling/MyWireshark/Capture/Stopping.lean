import MyWireshark.Capture.Outcome

/-! How run_impl comes to its end: it can always go on, and once raw_socket_recv has been asked to
stop it has only a few steps left. -/
namespace MyWireshark.Capture
open Transition

section
variable {args : RunArgs}

/-- run_impl can go on until it returns, but for a filter with which capfilter_compile leaves its
arrays. -/
theorem runStep_progress {s : RunState} (h : (runSystem args).Reachable s)
    (hcompile : s.pc = .compile → compileFilter args ≠ none)
    (hdone : ∀ result, s.pc ≠ .done result) :
    ∃ t, s.runStep args true = some t := by
  have hflow := (carried_of_reachable h).flow
  have hexplained := explained_of_reachable h
  unfold Explained at hexplained
  unfold RunState.runStep
  cases hpc : s.pc with
  | done result => exact absurd hpc (hdone result)
  | compile =>
    rw [hpc] at hexplained
    have hsome := hcompile hpc
    unfold compileFilter at hsome
    dsimp only
    cases hexpr : args.bpfFilter with
    | none => exact ⟨_, rfl⟩
    | some expr =>
      rw [hexpr] at hsome
      dsimp only at hsome ⊢
      split_ifs at hsome ⊢ with hempty
      · exact ⟨_, rfl⟩
      · rw [hexplained.1]
        cases hr : CapFilter.capfilterCompile (some expr) (some ⟨0, none⟩) false 128
            args.mallocOk with
        | none => exact absurd (by rw [hr]; rfl) hsome
        | some r =>
          simp only [Option.bind_eq_bind, Option.bind_some]
          split_ifs <;> exact ⟨_, rfl⟩
  | receive =>
    rw [hpc] at hflow
    dsimp only
    cases hring : s.ring.pc with
    | idle =>
      obtain ⟨-, ⟨hbusy, -⟩ | ⟨-, before, r, hrecvs, -⟩⟩ := hflow
      · exact absurd hring hbusy
      · rw [hrecvs, List.getLast?_concat]
        simp only [Option.bind_eq_bind, Option.bind_some]
        split_ifs <;> exact ⟨_, rfl⟩
    | _ => exact ⟨_, rfl⟩
  | _ =>
    dsimp only
    repeat' split
    all_goals exact ⟨_, rfl⟩

/-! What is left to do after a stop request -/

/-- The steps that raw_socket_recv, once asked to stop, has left at a place, and those of the
receive loop after it. It looks at stop_requested before each block, so it brings at most one more
frame. -/
def recvLeft (ring : RingState) : Nat :=
  match ring.pc with
  | .idle =>
    match ring.recvs.getLast? with
    | some r => if r.ret < 0 then 3 else 24
    | none => 24
  | .top _ => 4
  | .poll _ | .skipNext _ => 5
  | .skip _ => 6
  | .next _ => 25
  | .release _ => 26
  | .count _ => 27
  | .copy _ => 28
  | .load _ => 29
  | .look _ => 30

/-- The steps that run_impl has left; `pushing` says that the callback has nothing left to do but to
return. -/
def runLeft (pushing : Bool) (s : RunState) : Nat :=
  match s.pc with
  | .closeSocket _ => 1
  | .closePcap _ => 2
  | .loop => 5
  | .receive => recvLeft s.ring
  | .callback _ => if pushing then 6 else 22
  | .writeRecord _ => 23
  | _ => 0

theorem recvLeft_idle {s : RingState} (hidle : s.pc = .idle) :
    recvLeft s = 3 ∨ recvLeft s = 24 := by
  unfold recvLeft
  rw [hidle]
  dsimp only
  split
  · split_ifs <;> simp
  · simp

theorem recvLeft_finish (s : RingState) (r : Recv) : recvLeft (s.finish r) ≤ 24 := by
  obtain h | h := recvLeft_idle (s := s.finish r) rfl <;> omega

theorem recvStep_left {s : RingState} (hstop : s.ctx.stopRequested = true) (hbusy : s.pc ≠ .idle)
    (pollError : Bool) : recvLeft (s.recvStep pollError) < recvLeft s := by
  unfold RingState.recvStep
  cases hpc : s.pc with
  | idle => exact absurd hpc hbusy
  | top args => simp [hstop, recvLeft, hpc, RingState.finish, rawSocketStopped]
  | poll args =>
    cases pollError <;> simp [recvLeft, hpc, RingState.finish, RingState.goto]
  | look args =>
    dsimp only
    split_ifs <;> simp [recvLeft, hpc, RingState.goto]
  | load args =>
    dsimp only
    split_ifs <;> simp [recvLeft, hpc]
  | skip args | skipNext args | copy args | release got =>
    simp [recvLeft, hpc, RingState.goto]
  | count got =>
    have hcount : recvLeft s = 27 := by simp [recvLeft, hpc]
    dsimp only
    split_ifs
    · simp [recvLeft, hpc]
    · rw [hcount]
      exact Nat.lt_of_le_of_lt (recvLeft_finish _ got) (by decide)
  | next got =>
    have hnext : recvLeft s = 25 := by simp [recvLeft, hpc]
    rw [hnext]
    exact Nat.lt_of_le_of_lt (recvLeft_finish _ got) (by decide)

theorem runStep_left {s t : RunState} {ok pushing : Bool} (hstop : s.ring.ctx.stopRequested = true)
    (hsetup : s.pc.setup = false) (hpc : pushing = false → ∀ r, s.pc ≠ .callback r)
    (hstep : s.runStep args ok = some t) : runLeft pushing t < runLeft pushing s := by
  cases ran_of_runStep hstep with
  | setup h =>
    rw [hsetup] at h
    cases h
  | call h =>
    have hcall : s.ring.rawSocketRecv recvArgs = s.ring.goto (.top recvArgs) := rfl
    simp [runLeft, h, hcall, recvLeft, RingState.goto]
  | receive h hbusy =>
    simp only [runLeft, h]
    exact recvStep_left hstop hbusy _
  | leave h hidle =>
    simp only [runLeft, h]
    obtain hrecv | hrecv := recvLeft_idle hidle <;> omega
  | frame h hidle hlast hret =>
    have hrecv : recvLeft s.ring = 24 := by
      simp only [recvLeft, hidle, hlast]
      exact if_neg (by omega)
    simp only [runLeft, h, hrecv]
    decide
  | record h =>
    simp only [runLeft, h]
    split_ifs <;> cases pushing <;> simp
  | noRecord h => cases pushing <;> simp [runLeft, h]
  | callback h =>
    cases hp : pushing with
    | false => exact absurd h (hpc hp _)
    | true => simp [runLeft, h]
  | closePcap _ h | closeSocket h => simp [runLeft, h]

theorem runStep_inactive {s t : RunState} {ok : Bool} (hstep : s.runStep args ok = some t)
    (hsetup : t.pc.setup = true) : s.pc.setup = true ∧ t.activeCtx = s.activeCtx := by
  unfold RunState.runStep at hstep
  cases hpc : s.pc with
  | compile =>
    rw [hpc] at hstep
    dsimp only at hstep
    split at hstep
    · obtain rfl := Option.some.inj hstep
      exact ⟨rfl, rfl⟩
    · split at hstep
      · obtain rfl := Option.some.inj hstep
        exact ⟨rfl, rfl⟩
      · obtain ⟨r, -, hstep⟩ := Option.bind_eq_some_iff.mp hstep
        split at hstep <;> obtain rfl := Option.some.inj hstep <;> exact ⟨rfl, rfl⟩
  | openSocket | rxRing | mapRing | attach | openPcap | pcapHeader =>
    rw [hpc] at hstep
    dsimp only at hstep
    repeat' split at hstep
    all_goals obtain rfl := Option.some.inj hstep; exact ⟨rfl, rfl⟩
  | done => rw [hpc] at hstep; cases hstep
  | receive =>
    rw [hpc] at hstep
    dsimp only at hstep
    split at hstep
    · obtain ⟨r, -, hstep⟩ := Option.bind_eq_some_iff.mp hstep
      split_ifs at hstep <;> obtain rfl := Option.some.inj hstep <;> cases hsetup
    · obtain rfl := Option.some.inj hstep
      cases hsetup
  | _ =>
    rw [hpc] at hstep
    dsimp only at hstep
    repeat' split at hstep
    all_goals obtain rfl := Option.some.inj hstep; cases hsetup

/-- A capture that has not come to its loop cannot be asked to stop. -/
theorem setup_inactive {s : RunState} (h : (runSystem args).Reachable s)
    (hsetup : s.pc.setup = true) :
    s.activeCtx = false ∧ s.ring.ctx.stopRequested = false := by
  refine h.invariant (P := fun s => s.pc.setup = true → s.activeCtx = false ∧
    s.ring.ctx.stopRequested = false) ?_ ?_ hsetup
  · intro s hs _
    exact ⟨hs.activeCtx, by rw [hs.ring.ctx]; rfl⟩
  · intro s t _ hinv hstep ht
    cases hstep with
    | run ok hrun =>
      obtain ⟨hs, hactive⟩ := runStep_inactive hrun ht
      obtain ⟨-, hring, -⟩ := runStep_setup hs hrun
      rw [hactive, hring]
      exact hinv hs
    | stop =>
      unfold RunState.requestStopImpl at ht ⊢
      split_ifs at ht ⊢ with hactive
      · rw [(hinv ht).1] at hactive
        cases hactive
      · exact hinv ht
    | arrive wire sec nsec =>
      unfold RunState.arrive at ht ⊢
      split at ht <;> exact hinv ht
    | fill | publish => exact hinv ht

theorem stop_past_setup {s : RunState} (h : (runSystem args).Reachable s)
    (hstop : s.ring.ctx.stopRequested = true) : s.pc.setup = false := by
  cases hsetup : s.pc.setup with
  | false => rfl
  | true =>
    rw [(setup_inactive h hsetup).2] at hstop
    cases hstop

theorem moved_stopRequested {s t : RingState} (h : Moved s t) :
    t.ctx.stopRequested = s.ctx.stopRequested := by
  cases h <;> rfl

theorem runStep_stopped {s t : RunState} {ok : Bool} (hstep : s.runStep args ok = some t) :
    t.ring.ctx.stopRequested = s.ring.ctx.stopRequested := by
  cases ran_of_runStep hstep with
  | setup _ _ hring => rw [hring]
  | receive => exact moved_stopRequested (moved_recvStep s.ring !ok)
  | _ => rfl

theorem runLeft_le (pushing : Bool) (s : RunState) : runLeft pushing s ≤ 30 := by
  unfold runLeft recvLeft
  repeat' split
  all_goals decide

theorem returns_when_stopped {s : RunState} (h : (runSystem args).Reachable s)
    (hstop : s.ring.ctx.stopRequested = true) :
    ∃ n t result, runFor args n s = some t ∧ t.pc = .done result := by
  by_cases hdone : ∃ result, s.pc = .done result
  · obtain ⟨result, hdone⟩ := hdone
    exact ⟨0, s, result, rfl, hdone⟩
  · have hsetup := stop_past_setup h hstop
    obtain ⟨t, hstep⟩ := runStep_progress h (fun hpc => by rw [hpc] at hsetup; cases hsetup)
      fun result hpc => hdone ⟨result, hpc⟩
    have hless : runLeft true t < runLeft true s :=
      runStep_left hstop hsetup (fun hp => by cases hp) hstep
    obtain ⟨n, u, result, hrun, hu⟩ := returns_when_stopped (h.step (.run true hstep))
      ((runStep_stopped hstep).trans hstop)
    exact ⟨n + 1, u, result, by rw [runFor, hstep]; exact hrun, hu⟩
termination_by runLeft true s

end
end MyWireshark.Capture
