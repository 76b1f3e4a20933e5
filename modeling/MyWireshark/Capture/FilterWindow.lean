import MyWireshark.Capture.RunFlow
import MyWireshark.Capture.Delivery

/-! What the capture filter decides: everything, but for the frames that get into the ring
before the filter is attached to the socket. -/
namespace MyWireshark.Capture
open Transition Bpf CapFilter MyWireshark.Filter

/-- The frames `rs` are what was stored of the frames `src` from the wire, the first ones that
got into the ring. -/
def ComesFrom (s : RunState) (rs : List Recv) (src : List Entered) : Prop :=
  src <+: s.entered ∧ List.Forall₂ (fun e r => Delivered e.frame r) src rs

theorem Carried.comesFrom {s : RunState} (h : Carried s) {rs : List Recv}
    (hrs : rs <+: framesOf s.ring.recvs) : ∃ src, ComesFrom s rs src := by
  obtain ⟨given, pending, c, hring⟩ := ringInv_of_reachable h.ring
  obtain ⟨taken, rest, hpub, hdelivered⟩ := hring.received_first
  obtain ⟨more, hmore⟩ := hrs
  have hdelivered : List.Forall₂ Delivered taken (rs ++ more) := by
    rw [hmore]
    exact hdelivered
  have hlen : rs.length ≤ taken.length := by
    rw [hdelivered.length_eq, List.length_append]
    exact Nat.le_add_right _ _
  refine ⟨s.entered.take rs.length, List.take_prefix _ _, ?_⟩
  have hframes : (s.entered.take rs.length).map Entered.frame = taken.take rs.length := by
    rw [List.map_take, h.entered, hpub, List.append_assoc, List.take_append_of_le_length hlen]
  rw [← List.forall₂_map_left_iff, hframes]
  exact List.forall₂_take_append _ _ _ hdelivered

def FilterDecides (prog : SockFprog) (s : RunState) : Prop :=
  ∀ rs, rs = s.handed ∨ rs = s.written →
    ∃ src, ComesFrom s rs src ∧ ∀ e ∈ src, accepts prog e.wire = true

/-- No frame that the program rejects arrives while the socket has its ring and not yet its
filter. -/
def Quiet (prog : SockFprog) (s t : RunState) : Prop :=
  ∀ wire sec nsec, t = s.arrive wire sec nsec → s.ringUp = true → s.attached = none →
    accepts prog wire = true

theorem runInv_of_reachable {args : RunArgs} {prog : SockFprog} {s : RunState}
    (hprog : args.program = some prog)
    (h : ((runSystem args).restrict (Quiet prog)).Reachable s) : RunInv prog s := by
  apply h.invariant
  · intro s hs
    exact .start hs
  · intro s t _ hinv hstep
    obtain ⟨hstep, hquiet⟩ := hstep
    cases hstep with
    | run ok hrun => exact hinv.run hprog hrun
    | stop =>
      refine hinv.keep hinv.toCarried.requestStop ?_
      unfold RunState.requestStopImpl
      split <;> exact ⟨rfl, rfl, rfl, rfl⟩
    | arrive wire sec nsec hup =>
      exact hinv.arrive wire sec nsec (hquiet wire sec nsec rfl hup)
    | fill k b hup hk hb =>
      exact hinv.keep (hinv.toCarried.ringStep (.fill k b hk hb) rfl rfl rfl) ⟨rfl, rfl, rfl, rfl⟩
    | publish b hup hk hb hfilling =>
      exact hinv.keep (hinv.toCarried.publish hk hb hfilling) ⟨rfl, rfl, rfl, rfl⟩

/-- In every run in which no rejected frame arrives between PACKET_RX_RING and
SO_ATTACH_FILTER, the filter decides everything that is captured. -/
theorem filter_decides_quiet_runs {args : RunArgs} {prog : SockFprog} {s : RunState}
    (hprog : args.program = some prog)
    (h : ((runSystem args).restrict (Quiet prog)).Reachable s) : FilterDecides prog s := by
  have hinv := runInv_of_reachable hprog h
  have hprefixes := hinv.flow.prefixes
  intro rs hrs
  have hpre : rs <+: framesOf s.ring.recvs := by
    cases hrs with
    | inl hhanded => rw [hhanded]; exact hprefixes.1
    | inr hwritten => rw [hwritten]; exact hprefixes.2
  obtain ⟨src, hsrc⟩ := hinv.toCarried.comesFrom hpre
  refine ⟨src, hsrc, ?_⟩
  intro e he
  exact hinv.accepted e (hsrc.1.subset he)

/- A run with one frame of fourteen zero bytes, which arrives as soon as there is a ring. -/

def zeroFrame : List UInt8 := List.replicate 14 0

def zeroBlock : Block where
  blockStatus := tpStatusUser
  numPkts := 1
  offsetToFirstPkt := 48
  hdr := fun _ => ⟨0, 0, 0, 14, 48⟩
  byte := fun _ => 0

def captureStart : RunState where
  pc := .compile
  filterProg := ⟨0, none⟩
  pcapFile := false
  activeCtx := false
  ring := emptyRing
  ringUp := false
  attached := none
  filling := []
  entered := []
  written := []
  handed := []

theorem captureStart_start : RunStart captureStart :=
  ⟨rfl, rfl, rfl, rfl, emptyRing_start, rfl, rfl, rfl, rfl, rfl, rfl⟩

def captureArgs (expr : String) : RunArgs := ⟨some expr.toList, some "out.pcap".toList, true⟩

def runFor (args : RunArgs) : Nat → RunState → Option RunState
  | 0, s => some s
  | n + 1, s => (s.runStep args true).bind (runFor args n)

def withFrame (s : RunState) : RunState :=
  let s := s.arrive zeroFrame 0 0
  { s with ring := s.ring.publish zeroBlock, filling := [] }

/-- The frame arrives between PACKET_RX_RING and SO_ATTACH_FILTER: the states before it does,
and when it has been passed on. -/
def zeroRun (expr : String) : Option (RunState × RunState) := do
  let s ← runFor (captureArgs expr) 3 captureStart
  let t ← runFor (captureArgs expr) 16 (withFrame s)
  some (s, t)

section
variable {args : RunArgs} {Allowed : RunState → RunState → Prop} {s t : RunState}

theorem reachable_runFor (hallowed : ∀ s t : RunState, t.entered = s.entered → Allowed s t)
    {n : Nat} (h : ((runSystem args).restrict Allowed).Reachable s)
    (hrun : runFor args n s = some t) : ((runSystem args).restrict Allowed).Reachable t := by
  induction n generalizing s with
  | zero =>
    obtain rfl := Option.some.inj hrun
    exact h
  | succ n ih =>
    obtain ⟨u, hstep, hrest⟩ := Option.bind_eq_some_iff.mp hrun
    exact ih (h.step ⟨.run true hstep, hallowed s u (runStep_entered hstep)⟩) hrest

theorem reachable_oneFrame (hallowed : ∀ s t : RunState, t.entered = s.entered → Allowed s t)
    (h : ((runSystem args).restrict Allowed).Reachable s) (hup : s.ringUp = true)
    (hattached : s.attached = none) (hfilling : s.filling = [])
    (hfree : (s.ring.blocks s.ring.kernelAt).user = false)
    {wire : List UInt8} {sec nsec : UInt32} (harrive : Allowed s (s.arrive wire sec nsec))
    {b : Block} (hb : b.Published) (hframes : b.frames = [⟨wire, sec, nsec⟩]) :
    ((runSystem args).restrict Allowed).Reachable
      { s.arrive wire sec nsec with
        ring := (s.arrive wire sec nsec).ring.publish b, filling := [] } := by
  have harrived : s.arrive wire sec nsec =
      { s with
        filling := [⟨wire, sec, nsec⟩]
        entered := s.entered ++ [⟨wire, ⟨wire, sec, nsec⟩⟩] } := by
    simp [RunState.arrive, hattached, hfilling, verdict]
  have hframe := h.step ⟨.arrive wire sec nsec hup, harrive⟩
  refine hframe.step ⟨.publish b ?_ ?_ hb ?_, hallowed _ _ rfl⟩
  · rw [harrived]
    exact hup
  · rw [harrived]
    exact hfree
  · rw [harrived]
    exact hframes

theorem zeroRun_reachable {expr : String} (hrun : zeroRun expr = some (s, t))
    (hup : s.ringUp = true) (hattached : s.attached = none) (hfilling : s.filling = [])
    (hfree : (s.ring.blocks s.ring.kernelAt).user = false)
    (hallowed : ∀ s t : RunState, t.entered = s.entered → Allowed s t)
    (harrive : Allowed s (s.arrive zeroFrame 0 0)) :
    ((runSystem (captureArgs expr)).restrict Allowed).Reachable t := by
  obtain ⟨s', hring, hrest⟩ := Option.bind_eq_some_iff.mp hrun
  obtain ⟨t', hloop, heq⟩ := Option.bind_eq_some_iff.mp hrest
  obtain ⟨rfl, rfl⟩ := Prod.mk.inj (Option.some.inj heq)
  have hstart : ((runSystem (captureArgs expr)).restrict Allowed).Reachable captureStart :=
    .init captureStart_start
  have hframe := reachable_oneFrame hallowed (reachable_runFor hallowed hstart hring) hup
    hattached hfilling hfree harrive (b := zeroBlock) ⟨rfl, by decide⟩ rfl
  exact reachable_runFor hallowed hframe hloop

end

theorem quiet_of_entered {prog : SockFprog} {s t : RunState} (h : t.entered = s.entered) :
    Quiet prog s t := by
  intro wire sec nsec heq _ hattached
  -- without a program every frame that arrives gets in
  rw [heq, RunState.arrive, hattached] at h
  simp [verdict] at h

structure ZeroRun (expr : String) (verdict : Bool) (prog : SockFprog) (s t : RunState) : Prop where
  run : zeroRun expr = some (s, t)
  program : (captureArgs expr).program = some prog
  accepts : accepts prog zeroFrame = verdict
  ringUp : s.ringUp = true
  attached : s.attached = none
  filling : s.filling = []
  free : (s.ring.blocks s.ring.kernelAt).user = false
  entered : t.entered.map Entered.wire = [zeroFrame]
  handed : t.handed.map Recv.buf = [zeroFrame]
  written : t.written.map Recv.buf = [zeroFrame]

theorem zeroRun_of_eval {expr : String} {verdict : Bool}
    (hprog : (captureArgs expr).program.map (fun prog => accepts prog zeroFrame) = some verdict)
    (hbefore : (zeroRun expr).map (fun run => (run.1.ringUp, run.1.attached, run.1.filling,
      (run.1.ring.blocks run.1.ring.kernelAt).user)) = some (true, none, [], false))
    (hafter : (zeroRun expr).map (fun run => (run.2.entered.map Entered.wire,
      run.2.handed.map Recv.buf, run.2.written.map Recv.buf)) =
        some ([zeroFrame], [zeroFrame], [zeroFrame])) :
    ∃ prog s t, ZeroRun expr verdict prog s t := by
  obtain ⟨prog, hprog, haccepts⟩ := Option.map_eq_some_iff.mp hprog
  obtain ⟨⟨s, t⟩, hrun, hval⟩ := Option.map_eq_some_iff.mp hbefore
  simp only [Prod.mk.injEq] at hval
  obtain ⟨hup, hattached, hfilling, hfree⟩ := hval
  rw [hrun] at hafter
  simp only [Option.map_some, Option.some.injEq, Prod.mk.injEq] at hafter
  obtain ⟨hentered, hhanded, hwritten⟩ := hafter
  exact ⟨prog, s, t, hrun, hprog, haccepts, hup, hattached, hfilling, hfree, hentered, hhanded,
    hwritten⟩

theorem filter_decides_quiet_runs_zero :
    ∃ prog s, (captureArgs "not tcp").program = some prog ∧
      ((runSystem (captureArgs "not tcp")).restrict (Quiet prog)).Reachable s ∧
      s.handed.map Recv.buf = [zeroFrame] ∧ FilterDecides prog s := by
  obtain ⟨prog, s, t, h⟩ := @zeroRun_of_eval "not tcp" true (by decide +kernel)
    (by decide +kernel) (by decide +kernel)
  have harrive : Quiet prog s (s.arrive zeroFrame 0 0) := by
    intro wire sec nsec heq _ hattached
    have hwire : zeroFrame = wire := by
      have hentered := congrArg (fun t => t.entered.map Entered.wire) heq
      simpa [RunState.arrive, hattached, verdict] using hentered
    rw [← hwire]
    exact h.accepts
  have hreach := zeroRun_reachable h.run h.ringUp h.attached h.filling h.free
    (fun _ _ => quiet_of_entered) harrive
  have hdecides := filter_decides_quiet_runs h.program hreach
  exact ⟨prog, t, h.program, hreach, h.handed, hdecides⟩

/-- The filter "tcp" rejects the frame, which is written and passed on all the same. -/
theorem rejected_frame_is_captured :
    ∃ prog s, (captureArgs "tcp").program = some prog ∧
      (runSystem (captureArgs "tcp")).Reachable s ∧
      accepts prog zeroFrame = false ∧ s.handed.map Recv.buf = [zeroFrame] ∧
      s.written.map Recv.buf = [zeroFrame] ∧ ¬FilterDecides prog s := by
  obtain ⟨prog, s, t, h⟩ := @zeroRun_of_eval "tcp" false (by decide +kernel)
    (by decide +kernel) (by decide +kernel)
  have hreach := @zeroRun_reachable (fun _ _ => True) s t "tcp" h.run h.ringUp h.attached h.filling
    h.free (fun _ _ _ => trivial) trivial
  refine ⟨prog, t, h.program, hreach.of_restrict, h.accepts, h.handed, h.written, ?_⟩
  intro hdecides
  obtain ⟨src, hsrc, haccepted⟩ := hdecides t.handed (.inl rfl)
  -- one frame got into the ring and one was passed on, so it is that one
  have hlen : src.length = 1 := by
    rw [hsrc.2.length_eq, ← List.length_map Recv.buf, h.handed]
    rfl
  have hall : src = t.entered := by
    refine hsrc.1.eq_of_length ?_
    rw [hlen, ← List.length_map Entered.wire, h.entered]
    rfl
  have hmem : zeroFrame ∈ src.map Entered.wire := by
    rw [hall, h.entered]
    exact List.mem_singleton_self _
  obtain ⟨e, he, hwire⟩ := List.mem_map.mp hmem
  have hyes := haccepted e he
  rw [hwire, h.accepts] at hyes
  cases hyes

end MyWireshark.Capture
