import MyWireshark.Capture.Run
import MyWireshark.Capture.Reader

/-! The invariant of a capture: which program its socket has, and how the frames written and
passed on follow those received. -/
namespace MyWireshark.Capture
open Transition Bpf CapFilter MyWireshark.Filter

def kept (pcapFile : Bool) (rs : List Recv) : List Recv := if pcapFile then rs else []

def FilterAt (prog : SockFprog) (pc : RunPc) (filterProg : SockFprog) : Prop :=
  match pc with
  | .compile => filterProg = ⟨0, none⟩
  | .openSocket | .rxRing | .mapRing | .attach => filterProg = prog
  | _ => True

/-- How the frames written and passed on follow those received. -/
def Flow (pc : RunPc) (pcapFile : Bool) (ringPc : Pc) (recvs handed written : List Recv) : Prop :=
  match pc with
  | .compile | .openSocket | .rxRing | .mapRing | .attach | .openPcap | .pcapHeader | .activate =>
    ringPc = .idle ∧ recvs = [] ∧ handed = [] ∧ written = []
  | .loop => ringPc = .idle ∧ framesOf recvs = handed ∧ written = kept pcapFile handed
  | .receive => written = kept pcapFile handed ∧
    ((ringPc ≠ .idle ∧ framesOf recvs = handed) ∨
      ringPc = .idle ∧ ∃ before r, recvs = before ++ [r] ∧ framesOf before = handed)
  | .writeRecord r => ringPc = .idle ∧ framesOf recvs = handed ++ [r] ∧
    written = kept pcapFile handed
  | .callback r => ringPc = .idle ∧ framesOf recvs = handed ++ [r] ∧
    written = kept pcapFile (handed ++ [r])
  | .closePcap _ | .closeSocket _ | .done _ => handed <+: framesOf recvs ∧
    written <+: framesOf recvs ∧ (framesOf recvs).length ≤ handed.length + 1

structure Carried (s : RunState) : Prop where
  ring : ringSystem.Reachable s.ring
  entered : s.entered.map Entered.frame = s.ring.published ++ s.filling
  flow : Flow s.pc s.pcapFile s.ring.pc s.ring.recvs s.handed s.written

/-- The invariant of a capture into whose ring only frames get that the program accepts. -/
structure RunInv (prog : SockFprog) (s : RunState) : Prop extends Carried s where
  accepted : ∀ e ∈ s.entered, accepts prog e.wire = true
  attached : s.attached = none ∨ s.attached = some prog
  filter : FilterAt prog s.pc s.filterProg

theorem kept_prefix_self (pcapFile : Bool) (rs : List Recv) : kept pcapFile rs <+: rs := by
  cases pcapFile with
  | true => exact List.prefix_refl rs
  | false => exact List.nil_prefix

/-- Nothing is written or passed on that was not received, and nothing is left out. -/
theorem Flow.prefixes {pc : RunPc} {pcapFile : Bool} {ringPc : Pc}
    {recvs handed written : List Recv} (h : Flow pc pcapFile ringPc recvs handed written) :
    handed <+: framesOf recvs ∧ written <+: framesOf recvs := by
  cases pc with
  | compile | openSocket | rxRing | mapRing | attach | openPcap | pcapHeader | activate =>
    obtain ⟨-, -, rfl, rfl⟩ := h
    exact ⟨List.nil_prefix, List.nil_prefix⟩
  | loop =>
    obtain ⟨-, rfl, rfl⟩ := h
    exact ⟨List.prefix_refl _, kept_prefix_self _ _⟩
  | receive =>
    obtain ⟨rfl, hcases⟩ := h
    have hhanded : handed <+: framesOf recvs := by
      cases hcases with
      | inl hbusy =>
        obtain ⟨-, rfl⟩ := hbusy
        exact List.prefix_refl _
      | inr hback =>
        obtain ⟨-, before, r, rfl, rfl⟩ := hback
        rw [framesOf_append]
        exact List.prefix_append _ _
    exact ⟨hhanded, (kept_prefix_self _ _).trans hhanded⟩
  | writeRecord r =>
    obtain ⟨-, hframes, rfl⟩ := h
    rw [hframes]
    exact ⟨List.prefix_append _ _, (kept_prefix_self _ _).trans (List.prefix_append _ _)⟩
  | callback r =>
    obtain ⟨-, hframes, rfl⟩ := h
    rw [hframes]
    exact ⟨List.prefix_append _ _, kept_prefix_self _ _⟩
  | closePcap | closeSocket | done => exact ⟨h.1, h.2.1⟩

theorem Flow.length_le {pc : RunPc} {pcapFile : Bool} {ringPc : Pc}
    {recvs handed written : List Recv} (h : Flow pc pcapFile ringPc recvs handed written) :
    (framesOf recvs).length ≤ handed.length + 1 := by
  cases pc with
  | compile | openSocket | rxRing | mapRing | attach | openPcap | pcapHeader | activate =>
    obtain ⟨-, rfl, -, -⟩ := h
    exact Nat.zero_le _
  | loop =>
    obtain ⟨-, rfl, -⟩ := h
    exact Nat.le_succ _
  | receive =>
    obtain ⟨-, ⟨-, rfl⟩ | ⟨-, before, r, rfl, rfl⟩⟩ := h
    · exact Nat.le_succ _
    · rw [framesOf_append, List.length_append]
      exact Nat.add_le_add_left (List.length_filter_le _ [r]) _
  | writeRecord r | callback r =>
    obtain ⟨-, hframes, -⟩ := h
    rw [hframes, List.length_append, List.length_singleton]
  | closePcap | closeSocket | done => exact h.2.2

theorem Moved.inside_or_back {s t : RingState} (h : Moved s t) (hbusy : s.pc ≠ .idle) :
    (t.pc ≠ .idle ∧ t.recvs = s.recvs) ∨ t.pc = .idle ∧ ∃ r, t.recvs = s.recvs ++ [r] := by
  cases h with
  | outside hpc => exact absurd hpc hbusy
  | stopped | pollError | counted | returned => exact .inr ⟨rfl, _, rfl⟩
  | loaded _ hnext =>
    obtain ⟨-, rfl⟩ | ⟨-, rfl⟩ := hnext <;> exact .inl ⟨fun h => (by cases h), rfl⟩
  | _ => exact .inl ⟨fun h => (by cases h), rfl⟩

theorem Moved.published {s t : RingState} (h : Moved s t) : t.published = s.published := by
  cases h <;> rfl

def RunPc.setup : RunPc → Bool
  | .compile | .openSocket | .rxRing | .mapRing | .attach | .openPcap | .pcapHeader | .activate =>
    true
  | _ => false

def RunPc.blank : RunPc → Bool
  | .receive | .writeRecord _ | .callback _ => false
  | _ => true

theorem Flow.of_setup {pc : RunPc} {pcapFile : Bool} {ringPc : Pc}
    {recvs handed written : List Recv} (h : Flow pc pcapFile ringPc recvs handed written)
    (hpc : pc.setup = true) : ringPc = .idle ∧ recvs = [] ∧ handed = [] ∧ written = [] := by
  cases pc with
  | compile | openSocket | rxRing | mapRing | attach | openPcap | pcapHeader | activate => exact h
  | _ => cases hpc

theorem Flow.of_blank {pc : RunPc} (pcapFile : Bool) (hpc : pc.blank = true) :
    Flow pc pcapFile .idle [] [] [] := by
  cases pc with
  | receive | writeRecord | callback => cases hpc
  | loop => cases pcapFile <;> exact ⟨rfl, rfl, rfl⟩
  | closePcap | closeSocket | done =>
    exact ⟨List.prefix_refl _, List.prefix_refl _, Nat.zero_le _⟩
  | _ => exact ⟨rfl, rfl, rfl, rfl⟩

/-- The steps before the first call of raw_socket_recv touch neither the ring nor what came out
of it. -/
theorem runStep_setup {args : RunArgs} {s t : RunState} {ok : Bool} (hpc : s.pc.setup = true)
    (hstep : s.runStep args ok = some t) :
    t.pc.blank = true ∧ t.ring = s.ring ∧ t.filling = s.filling ∧ t.entered = s.entered ∧
      t.handed = s.handed ∧ t.written = s.written := by
  unfold RunState.runStep at hstep
  cases hp : s.pc with
  | compile =>
    rw [hp] at hstep
    dsimp only at hstep
    split at hstep
    · obtain rfl := Option.some.inj hstep
      exact ⟨rfl, rfl, rfl, rfl, rfl, rfl⟩
    · split at hstep
      · obtain rfl := Option.some.inj hstep
        exact ⟨rfl, rfl, rfl, rfl, rfl, rfl⟩
      · obtain ⟨r, -, hstep⟩ := Option.bind_eq_some_iff.mp hstep
        split at hstep <;> obtain rfl := Option.some.inj hstep <;>
          exact ⟨rfl, rfl, rfl, rfl, rfl, rfl⟩
  | openSocket | rxRing | mapRing | attach | openPcap | pcapHeader | activate =>
    rw [hp] at hstep
    dsimp only at hstep
    repeat' split at hstep
    all_goals obtain rfl := Option.some.inj hstep; exact ⟨rfl, rfl, rfl, rfl, rfl, rfl⟩
  | _ =>
    rw [hp] at hpc
    cases hpc

inductive Ran (ok : Bool) (s : RunState) : RunState → Prop where
  | setup {t : RunState} (hpc : s.pc.setup = true) (hblank : t.pc.blank = true)
    (hring : t.ring = s.ring) (hfilling : t.filling = s.filling) (hentered : t.entered = s.entered)
    (hhanded : t.handed = s.handed) (hwritten : t.written = s.written) : Ran ok s t
  | call (hpc : s.pc = .loop) :
    Ran ok s { s with ring := s.ring.rawSocketRecv recvArgs, pc := .receive }
  | receive (hpc : s.pc = .receive) (hbusy : s.ring.pc ≠ .idle) :
    Ran ok s { s with ring := s.ring.recvStep !ok }
  | leave {r : Recv} {result : Int} (hpc : s.pc = .receive) (hidle : s.ring.pc = .idle)
    (hlast : s.ring.recvs.getLast? = some r) : Ran ok s { s with pc := .closePcap result }
  | frame {r : Recv} (hpc : s.pc = .receive) (hidle : s.ring.pc = .idle)
    (hlast : s.ring.recvs.getLast? = some r) (hret : 0 ≤ r.ret) :
    Ran ok s { s with pc := .writeRecord r }
  | record {r : Recv} (hpc : s.pc = .writeRecord r) (hfile : s.pcapFile = true) :
    Ran ok s { s with
      written := s.written ++ [r]
      pc := if ok then .callback r else .closePcap (-1) }
  | noRecord {r : Recv} (hpc : s.pc = .writeRecord r) (hfile : s.pcapFile = false) :
    Ran ok s { s with pc := .callback r }
  | callback {r : Recv} (hpc : s.pc = .callback r) :
    Ran ok s { s with handed := s.handed ++ [r], pc := .loop }
  | closePcap {result : Int} (result' : Int) (hpc : s.pc = .closePcap result) :
    Ran ok s { s with activeCtx := false, pc := .closeSocket result' }
  | closeSocket {result : Int} (hpc : s.pc = .closeSocket result) :
    Ran ok s { s with ringUp := false, pc := .done result }

theorem ran_of_runStep {args : RunArgs} {s t : RunState} {ok : Bool}
    (hstep : s.runStep args ok = some t) : Ran ok s t := by
  by_cases hsetup : s.pc.setup = true
  · obtain ⟨hblank, hring, hfilling, hentered, hhanded, hwritten⟩ := runStep_setup hsetup hstep
    exact .setup hsetup hblank hring hfilling hentered hhanded hwritten
  · unfold RunState.runStep at hstep
    cases hpc : s.pc with
    | compile | openSocket | rxRing | mapRing | attach | openPcap | pcapHeader | activate =>
      exact absurd (by rw [hpc]; rfl) hsetup
    | loop =>
      rw [hpc] at hstep
      obtain rfl := Option.some.inj hstep
      exact .call hpc
    | receive =>
      rw [hpc] at hstep
      dsimp only at hstep
      split at hstep
      · next hidle =>
        obtain ⟨r, hlast, hstep⟩ := Option.bind_eq_some_iff.mp hstep
        split_ifs at hstep with hstop hneg
        · obtain rfl := Option.some.inj hstep
          exact .leave hpc hidle hlast
        · obtain rfl := Option.some.inj hstep
          exact .leave hpc hidle hlast
        · obtain rfl := Option.some.inj hstep
          exact .frame hpc hidle hlast (Int.not_lt.mp hneg)
      · next hbusy =>
        obtain rfl := Option.some.inj hstep
        rw [← hpc]
        exact .receive hpc hbusy
    | writeRecord r =>
      rw [hpc] at hstep
      dsimp only at hstep
      by_cases hfile : s.pcapFile = true
      · rw [if_pos hfile] at hstep
        obtain rfl := Option.some.inj hstep
        exact .record hpc hfile
      · rw [if_neg hfile] at hstep
        obtain rfl := Option.some.inj hstep
        exact .noRecord hpc (Bool.eq_false_iff.mpr hfile)
    | callback r =>
      rw [hpc] at hstep
      obtain rfl := Option.some.inj hstep
      exact .callback hpc
    | closePcap result =>
      rw [hpc] at hstep
      obtain rfl := Option.some.inj hstep
      exact .closePcap _ hpc
    | closeSocket result =>
      rw [hpc] at hstep
      obtain rfl := Option.some.inj hstep
      exact .closeSocket hpc
    | done =>
      rw [hpc] at hstep
      cases hstep

theorem runStep_entered {args : RunArgs} {s t : RunState} {ok : Bool}
    (hstep : s.runStep args ok = some t) : t.entered = s.entered := by
  cases ran_of_runStep hstep with
  | setup _ _ _ _ hentered => exact hentered
  | _ => rfl

namespace Carried
variable {args : RunArgs} {s t : RunState}

theorem start (h : RunStart s) : Carried s where
  ring := .init h.ring
  entered := by rw [h.entered, h.filling, h.ring.published]; rfl
  flow := by
    rw [h.pc]
    exact ⟨h.ring.pc, h.ring.recvs, h.handed, h.written⟩

theorem ringStep {ring : RingState} (h : Carried s) (hring : RingStep s.ring ring)
    (hpc : ring.pc = s.ring.pc) (hrecvs : ring.recvs = s.ring.recvs)
    (hpub : ring.published = s.ring.published) : Carried { s with ring := ring } where
  ring := h.ring.step hring
  entered := by rw [hpub]; exact h.entered
  flow := by rw [hpc, hrecvs]; exact h.flow

theorem publish (h : Carried s) {b : Block}
    (hfree : (s.ring.blocks s.ring.kernelAt).user = false) (hb : b.Published)
    (hfilling : b.frames = s.filling) :
    Carried { s with ring := s.ring.publish b, filling := [] } where
  ring := h.ring.step (.publish b hfree hb)
  entered := by
    show _ = (s.ring.published ++ b.frames) ++ []
    rw [hfilling, List.append_nil]
    exact h.entered
  flow := h.flow

theorem arrive (h : Carried s) (wire : List UInt8) (sec nsec : UInt32) :
    Carried (s.arrive wire sec nsec) := by
  unfold RunState.arrive
  cases verdict s.attached wire with
  | none => exact h
  | some n =>
    refine ⟨h.ring, ?_, h.flow⟩
    rw [List.map_append, h.entered, List.append_assoc]
    rfl

theorem requestStop (h : Carried s) : Carried s.requestStopImpl := by
  unfold RunState.requestStopImpl
  split
  · exact h.ringStep .stop rfl rfl rfl
  · exact h

theorem after (h : Carried s) (hring : ringSystem.Reachable t.ring)
    (hsame : t.ring.published = s.ring.published ∧ t.filling = s.filling ∧
      t.entered = s.entered)
    (hflow : Flow t.pc t.pcapFile t.ring.pc t.ring.recvs t.handed t.written) : Carried t := by
  obtain ⟨hpub, hfilling, hentered⟩ := hsame
  refine ⟨hring, ?_, hflow⟩
  rw [hentered, hpub, hfilling]
  exact h.entered

theorem back (h : Carried s) {r : Recv} (hpc : s.pc = .receive) (hidle : s.ring.pc = .idle)
    (hlast : s.ring.recvs.getLast? = some r) :
    s.written = kept s.pcapFile s.handed ∧
      framesOf s.ring.recvs = s.handed ++ framesOf [r] := by
  have hflow := h.flow
  rw [hpc] at hflow
  obtain ⟨hwritten, hbusy | ⟨-, before, r', hrecvs, hhanded⟩⟩ := hflow
  · exact absurd hidle hbusy.1
  · rw [hrecvs, List.getLast?_concat] at hlast
    obtain rfl := Option.some.inj hlast
    refine ⟨hwritten, ?_⟩
    rw [← hhanded, hrecvs, framesOf_append]

theorem run (h : Carried s) {ok : Bool}
    (hstep : s.runStep args ok = some t) : Carried t := by
  have hflow := h.flow
  cases ran_of_runStep hstep with
  | setup hpc hblank hring hfilling hentered hhanded hwritten =>
    obtain ⟨hidle, hrecvs, hnone, hempty⟩ := hflow.of_setup hpc
    refine ⟨?_, ?_, ?_⟩
    · rw [hring]
      exact h.ring
    · rw [hentered, hring, hfilling]
      exact h.entered
    · rw [hring, hhanded, hwritten, hidle, hrecvs, hnone, hempty]
      exact .of_blank t.pcapFile hblank
  | call hpc =>
    rw [hpc] at hflow
    obtain ⟨hidle, hframes, hwritten⟩ := hflow
    exact h.after (h.ring.step (.call recvArgs hidle)) ⟨rfl, rfl, rfl⟩
      ⟨hwritten, .inl ⟨fun hpc' => (by cases hpc'), hframes⟩⟩
  | receive hpc hbusy =>
    refine h.after (h.ring.step (.recv !ok)) ⟨(moved_recvStep s.ring !ok).published, rfl, rfl⟩ ?_
    rw [hpc] at hflow ⊢
    obtain ⟨hwritten, ⟨-, hframes⟩ | ⟨hidle, -⟩⟩ := hflow
    · -- what was received changes only when the call returns
      refine ⟨hwritten, ?_⟩
      cases (moved_recvStep s.ring !ok).inside_or_back hbusy with
      | inl hstay => exact .inl ⟨hstay.1, by rw [hstay.2]; exact hframes⟩
      | inr hback =>
        obtain ⟨hidle, r, hrecvs⟩ := hback
        exact .inr ⟨hidle, s.ring.recvs, r, hrecvs, hframes⟩
    · exact absurd hidle hbusy
  | leave hpc hidle hlast =>
    obtain ⟨hwritten, hframes⟩ := h.back hpc hidle hlast
    have hpre : s.handed <+: framesOf s.ring.recvs := by
      rw [hframes]
      exact List.prefix_append _ _
    refine h.after h.ring ⟨rfl, rfl, rfl⟩ ⟨hpre, ?_, ?_⟩
    · show s.written <+: _
      rw [hwritten]
      exact (kept_prefix_self _ _).trans hpre
    · exact hflow.length_le
  | @frame r hpc hidle hlast hret =>
    obtain ⟨hwritten, hframes⟩ := h.back hpc hidle hlast
    have hone : framesOf [r] = [r] := by simp [framesOf, hret]
    rw [hone] at hframes
    exact h.after h.ring ⟨rfl, rfl, rfl⟩ ⟨hidle, hframes, hwritten⟩
  | @record r hpc hfile =>
    rw [hpc] at hflow
    obtain ⟨hidle, hframes, hwritten⟩ := hflow
    have hmore : s.written ++ [r] = s.handed ++ [r] := by
      rw [hwritten, hfile]
      rfl
    cases ok with
    | true =>
      refine h.after h.ring ⟨rfl, rfl, rfl⟩ ⟨hidle, hframes, ?_⟩
      show s.written ++ [r] = kept s.pcapFile _
      rw [hmore, hfile]
      rfl
    | false =>
      -- the loop ends at a frame that was received and is not passed on
      refine h.after h.ring ⟨rfl, rfl, rfl⟩ ⟨?_, ?_, h.flow.length_le⟩
      · show s.handed <+: framesOf s.ring.recvs
        rw [hframes]
        exact List.prefix_append _ _
      · show s.written ++ [r] <+: framesOf s.ring.recvs
        exact ⟨[], by rw [List.append_nil, hmore, hframes]⟩
  | noRecord hpc hfile =>
    rw [hpc] at hflow
    obtain ⟨hidle, hframes, hwritten⟩ := hflow
    refine h.after h.ring ⟨rfl, rfl, rfl⟩ ⟨hidle, hframes, ?_⟩
    show s.written = kept s.pcapFile _
    rw [hwritten, hfile]
    rfl
  | callback hpc =>
    rw [hpc] at hflow
    obtain ⟨hidle, hframes, hwritten⟩ := hflow
    exact h.after h.ring ⟨rfl, rfl, rfl⟩ ⟨hidle, hframes, hwritten⟩
  | closePcap result' hpc =>
    rw [hpc] at hflow
    exact h.after h.ring ⟨rfl, rfl, rfl⟩ hflow
  | closeSocket hpc =>
    rw [hpc] at hflow
    exact h.after h.ring ⟨rfl, rfl, rfl⟩ hflow

end Carried

theorem runStep_compile {args : RunArgs} {prog : SockFprog} {s t : RunState} {ok : Bool}
    (hprog : args.program = some prog) (hpc : s.pc = .compile) (hempty : s.filterProg = ⟨0, none⟩)
    (hstep : s.runStep args ok = some t) :
    t = { s with filterProg := prog, pc := .openSocket } := by
  rw [RunArgs.program_eq] at hprog
  unfold compileFilter at hprog
  unfold RunState.runStep at hstep
  rw [hpc] at hstep
  -- a filter that is missing or the empty string leaves filter_prog as it was
  have hskip : some (.ok ⟨0, none⟩) = some (Except.ok (ε := String) prog) →
      { s with pc := .openSocket } = { s with filterProg := prog, pc := .openSocket } := by
    intro hnull
    cases hnull
    rw [← hempty]
  cases hexpr : args.bpfFilter with
  | none =>
    rw [hexpr] at hprog hstep
    obtain rfl := Option.some.inj hstep
    exact hskip hprog
  | some expr =>
    rw [hexpr] at hprog hstep
    dsimp only at hprog hstep
    by_cases hnul : isEmpty expr = true
    · rw [if_pos hnul] at hprog hstep
      obtain rfl := Option.some.inj hstep
      exact hskip hprog
    · rw [if_neg hnul] at hprog hstep
      rw [hempty] at hstep
      obtain ⟨r, hr, hprog⟩ := Option.bind_eq_some_iff.mp hprog
      rw [hr, Option.bind_eq_bind, Option.bind_some] at hstep
      by_cases hret : r.ret ≠ 0
      · rw [if_pos hret] at hprog
        cases hprog
      · rw [if_neg hret] at hprog hstep
        cases hprog
        exact (Option.some.inj hstep).symm

theorem setup_filter {args : RunArgs} {prog : SockFprog} {s t : RunState} {ok : Bool}
    (hprog : args.program = some prog) (hfilter : FilterAt prog s.pc s.filterProg)
    (hsetup : s.pc.setup = true) (hstep : s.runStep args ok = some t) :
    FilterAt prog t.pc t.filterProg ∧ (t.attached = s.attached ∨ t.attached = some prog) := by
  cases hpc : s.pc with
  | compile =>
    rw [hpc] at hfilter
    rw [runStep_compile hprog hpc hfilter hstep]
    exact ⟨rfl, .inl rfl⟩
  | attach =>
    unfold RunState.runStep at hstep
    rw [hpc] at hfilter hstep
    have hfilter : s.filterProg = prog := hfilter
    dsimp only at hstep
    repeat' split at hstep
    all_goals obtain rfl := Option.some.inj hstep
    · exact ⟨trivial, .inr (congrArg some hfilter)⟩
    · exact ⟨trivial, .inl rfl⟩
    · exact ⟨trivial, .inl rfl⟩
  | openSocket | rxRing | mapRing =>
    unfold RunState.runStep at hstep
    rw [hpc] at hfilter hstep
    obtain rfl := Option.some.inj hstep
    cases ok with
    | true => exact ⟨hfilter, .inl rfl⟩
    | false => exact ⟨trivial, .inl rfl⟩
  | openPcap | pcapHeader | activate =>
    unfold RunState.runStep at hstep
    rw [hpc] at hstep
    dsimp only at hstep
    repeat' split at hstep
    all_goals obtain rfl := Option.some.inj hstep; exact ⟨trivial, .inl rfl⟩
  | _ =>
    rw [hpc] at hsetup
    cases hsetup

/-- filter_prog stays what it is up to SO_ATTACH_FILTER, and is attached there if anything. -/
theorem runStep_filter {args : RunArgs} {prog : SockFprog} {s t : RunState} {ok : Bool}
    (hprog : args.program = some prog) (hfilter : FilterAt prog s.pc s.filterProg)
    (hstep : s.runStep args ok = some t) :
    FilterAt prog t.pc t.filterProg ∧ (t.attached = s.attached ∨ t.attached = some prog) := by
  cases ran_of_runStep hstep with
  | setup hsetup => exact setup_filter hprog hfilter hsetup hstep
  | receive hpc =>
    dsimp only
    rw [hpc]
    exact ⟨trivial, .inl rfl⟩
  | record => cases ok <;> exact ⟨trivial, .inl rfl⟩
  | _ => exact ⟨trivial, .inl rfl⟩

namespace RunInv
variable {prog : SockFprog} {args : RunArgs} {s t : RunState}

theorem start (h : RunStart s) : RunInv prog s where
  toCarried := .start h
  accepted e he := by
    rw [h.entered] at he
    exact absurd he List.not_mem_nil
  attached := .inl h.attached
  filter := by
    rw [h.pc]
    exact h.filterProg

theorem keep (h : RunInv prog s) (hcarried : Carried t)
    (hsame : t.entered = s.entered ∧ t.attached = s.attached ∧ t.pc = s.pc ∧
      t.filterProg = s.filterProg) : RunInv prog t := by
  obtain ⟨hentered, hattached, hpc, hfilter⟩ := hsame
  refine ⟨hcarried, ?_, ?_, ?_⟩
  · rw [hentered]
    exact h.accepted
  · rw [hattached]
    exact h.attached
  · rw [hpc, hfilter]
    exact h.filter

/-- An arrival. Once the program is attached, it decides by itself what gets in. -/
theorem arrive (h : RunInv prog s) (wire : List UInt8) (sec nsec : UInt32)
    (hearly : s.attached = none → accepts prog wire = true) :
    RunInv prog (s.arrive wire sec nsec) := by
  have hcarried := h.toCarried.arrive wire sec nsec
  unfold RunState.arrive at hcarried ⊢
  cases hverdict : verdict s.attached wire with
  | none => exact h
  | some n =>
    have hwire : accepts prog wire = true := by
      cases h.attached with
      | inl hnone => exact hearly hnone
      | inr hprog =>
        rw [hprog] at hverdict
        have hkeeps : keeps prog wire = some n := hverdict
        rw [accepts, hkeeps]
        rfl
    rw [hverdict] at hcarried
    refine ⟨hcarried, ?_, h.attached, h.filter⟩
    intro e he
    cases List.mem_append.mp he with
    | inl hold => exact h.accepted e hold
    | inr hnew =>
      rw [List.mem_singleton.mp hnew]
      exact hwire

theorem run (h : RunInv prog s) (hprog : args.program = some prog) {ok : Bool}
    (hstep : s.runStep args ok = some t) : RunInv prog t := by
  obtain ⟨hfilter, hattached⟩ := runStep_filter hprog h.filter hstep
  refine ⟨h.toCarried.run hstep, ?_, ?_, hfilter⟩
  · rw [runStep_entered hstep]
    exact h.accepted
  · cases hattached with
    | inl hsame => rw [hsame]; exact h.attached
    | inr hnew => exact .inr hnew

end RunInv

end MyWireshark.Capture
