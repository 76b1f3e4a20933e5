import MyWireshark.CapFilter.Correct
import MyWireshark.Session.Exit

/-! The two filters of the command line, end to end: what the process prints of the frames that
come over the wire. -/
namespace MyWireshark.Session
open Transition Queue Capture MyWireshark.Filter
open CapFilter (evalAst)

section
variable {args : RunArgs} {filter : Option DispFilter.Dispfilter} {maxSize : Nat} {s t : Process}
  {prog : Bpf.SockFprog} {expr : List Char}

theorem reachable_run (h : ((session args filter maxSize).restrict fun s t =>
      Quiet prog s.run t.run).Reachable s) :
    ((runSystem args).restrict (Quiet prog)).Reachable s.run := by
  refine h.project Process.run (fun s hs => hs.run) fun s t hstep => ?_
  obtain ⟨hthread | hout | hwake, hquiet⟩ := hstep
  · cases hthread with
    | capture ok _ hrun => exact .inr ⟨.run ok hrun, hquiet⟩
    | pushed _ _ _ hrun => exact .inr ⟨.run true hrun, hquiet⟩
    | _ => exact .inl rfl
  · obtain ⟨hout⟩ := hout
    exact .inr ⟨hout.runStep, hquiet⟩
  · obtain ⟨hwake⟩ := hwake
    exact .inl rfl

/-- The program of a capture filter accepts the frames that its expression is true of. -/
theorem accepts_iff (hexpr : args.bpfFilter = some expr) (hne : isEmpty expr = false)
    (hprog : args.program = some prog) : ∃ e, CapFilter.IsExpr (CapFilter.tokens expr) e ∧
      ∀ wire, accepts prog wire = true ↔ evalAst wire (CapFilter.ast e) = some true := by
  rw [RunArgs.program_eq, compileFilter, hexpr] at hprog
  dsimp only at hprog
  rw [if_neg (Bool.eq_false_iff.mp hne)] at hprog
  obtain ⟨r, hr, hprog⟩ := Option.bind_eq_some_iff.mp hprog
  split_ifs at hprog with hret
  · cases hprog
  · have hs := CapFilter.succeeds_of_ret hne hr (not_not.mp hret)
    have hout : r.out = some prog := by
      obtain ⟨_, _, _, _, _, _, _, _, _, hout⟩ := hs.stages
      rw [hout] at hprog ⊢
      exact congrArg some (Except.ok.inj (Option.some.inj hprog))
    obtain ⟨-, -, -, -, -, ⟨e, he, -⟩, -⟩ := hs.runs hout
    refine ⟨e, he, fun wire => ?_⟩
    rw [accepts, keeps, hs.decides hout he wire]
    split_ifs with htrue
    · exact iff_of_true rfl htrue
    · exact iff_of_false (fun h => by cases h) htrue

/-- What the process prints is decided by the two filters of its command line: in every run in which
no frame that the capture filter rejects arrives before that filter is attached, each frame printed
comes from one on the wire that the capture filter expression is true of, and of the frames that
were looked at those are printed, in their order, that the display filter expression is true of. -/
theorem session_shows_selected {display : List Char} {errNull : Bool} {errLen : Int}
    {mallocFilter mallocNodes : Bool} {r : DispFilter.CompileResult} {root : DispFilter.Dispfilter}
    (hexpr : args.bpfFilter = some expr) (hne : isEmpty expr = false)
    (hprog : args.program = some prog) (hdisplay : isEmpty display = false)
    (hcompile : DispFilter.dispfilterCompile (some display) errNull errLen mallocFilter
      mallocNodes = some r) (hroot : r.filter = some root)
    (h : ((session args (some root) maxSize).restrict fun s t =>
      Quiet prog s.run t.run).Reachable s) :
    ∃ e d src, CapFilter.IsExpr (CapFilter.tokens expr) e ∧
      DispFilter.IsExpr (DispFilter.tokens display) d ∧ src <+: s.run.entered ∧
      (s.shown = src.map fun frame => ringFrame frame.frame) ∧
      (∀ frame ∈ src, evalAst frame.wire (CapFilter.ast e) = some true) ∧
      s.printer.os = sessionText (fun frame => d.eval (DispFilter.Cmp.holds (frameFields frame))) 0
        s.shown := by
  have hinv := processInv_of_reachable h.of_restrict
  obtain ⟨e, he, haccepts⟩ := accepts_iff hexpr hne hprog
  obtain ⟨d, hd, hast⟩ := DispFilter.compiled_tree hdisplay hcompile hroot
  have haccepted := (runInv_of_reachable hprog (reachable_run h)).accepted
  obtain ⟨src, hsrc, hreceived⟩ := hinv.received_entered
  obtain ⟨waiting, hwaiting, -⟩ := hinv.received_eq
  refine ⟨e, d, src.take s.shown.length, he, hd, (List.take_prefix _ _).trans hsrc, ?_, ?_, ?_⟩
  · rw [List.map_take, ← hreceived, hwaiting, List.take_left]
  · intro frame hframe
    exact (haccepts frame.wire).mp
      (haccepted frame (hsrc.subset (List.mem_of_mem_take hframe)))
  · rw [hinv.os_eq (.compiled hcompile hroot)]
    congr 1
    funext frame
    rw [filterShows, Dissect.passesFilter, DispFilter.matches_tree hast]
    rfl

end

theorem session_shows_selected_zero : ∃ prog root s e d src,
    (captureArgs "not tcp").program = some prog ∧
    ((session (captureArgs "not tcp") (some root) 1).restrict fun s t =>
      Quiet prog s.run t.run).Reachable s ∧
    CapFilter.IsExpr (CapFilter.tokens "not tcp".toList) e ∧
    DispFilter.IsExpr (DispFilter.tokens "not tcp.port == 443".toList) d ∧
    src <+: s.run.entered ∧ s.shown = [⟨zeroFrame, 0, 0⟩] ∧
    (s.shown = src.map fun frame => ringFrame frame.frame) ∧
    (∀ frame ∈ src, evalAst frame.wire (CapFilter.ast e) = some true) ∧
    s.printer.os = sessionText (fun frame => d.eval (DispFilter.Cmp.holds (frameFields frame))) 0
      s.shown := by
  obtain ⟨r, hr⟩ := @passes_of_eval (captureArgs "not tcp") (by decide +kernel) (by decide +kernel)
  have hprog : (captureArgs "not tcp").program.map (fun prog => accepts prog zeroFrame) =
      some true := by
    decide +kernel
  obtain ⟨prog, hprog, haccepts⟩ := Option.map_eq_some_iff.mp hprog
  have hcompile : (DispFilter.dispfilterCompile (some "not tcp.port == 443".toList) true 0 true
      true).map (fun r => r.filter.isSome) = some true := by
    decide +kernel
  obtain ⟨compiled, hcompile, hroot⟩ := Option.map_eq_some_iff.mp hcompile
  obtain ⟨root, hroot⟩ := Option.isSome_iff_exists.mp hroot
  have harrive : ∀ s : Process, s.run.attached = none →
      Quiet prog s.run (s.run.arrive zeroFrame 0 0) := by
    intro s hattached wire sec nsec heq _ _
    have hwire : zeroFrame = wire := by
      have hentered := congrArg (fun t => t.entered.map Entered.wire) heq
      simpa [RunState.arrive, hattached, verdict] using hentered
    rw [← hwire]
    exact haccepts
  obtain ⟨s, hreach, -, hshown, -⟩ := @FrameRun.Passes.shown _ (some root)
    (fun s t => Quiet prog s.run t.run) _ hr (.compiled hcompile hroot)
    (fun _ _ => quiet_of_entered) harrive
  obtain ⟨e, d, src, he, hd, hsrc, hframes, hselected, hos⟩ := session_shows_selected rfl rfl hprog
    rfl hcompile hroot hreach
  exact ⟨prog, root, s, e, d, src, hprog, hreach, he, hd, hsrc, hshown, hframes, hselected, hos⟩

end MyWireshark.Session
