import MyWireshark.Dissect.Shown
import MyWireshark.Session.Exit

/-! The output of the process, read back: about every frame that was shown it gives the number, what
the headers in the frame say, and all its bytes. -/
namespace MyWireshark.Session
open Transition Queue Capture Dissect Separated

/-- The number and the bytes of the frames after `count` ones that `shows` selects. -/
def shownFrames (shows : CapturedFrame → Bool) (count : UInt64) :
    List CapturedFrame → List (Nat × List UInt8)
  | [] => []
  | frame :: frames =>
    (if shows frame then [((count + 1).toNat, frame.data)] else []) ++
      shownFrames shows (count + 1) frames

/-- The report about the frames after `count` ones: for each of them that `shows` selects its
number, what its headers say, and its bytes. -/
inductive Report (shows : CapturedFrame → Bool) :
    UInt64 → List CapturedFrame → List ((Nat × Summary) × List UInt8) → Prop where
  | nil {count : UInt64} : Report shows count [] []
  | shown {count : UInt64} {frame : CapturedFrame} {frames : List CapturedFrame} {summary : Summary}
    {rest : List ((Nat × Summary) × List UInt8)} (hshows : shows frame = true)
    (hsummary : Shown (frameJob frame (count + 1).toNat) summary)
    (hrest : Report shows (count + 1) frames rest) :
    Report shows count (frame :: frames) ((((count + 1).toNat, summary), frame.data) :: rest)
  | hidden {count : UInt64} {frame : CapturedFrame} {frames : List CapturedFrame}
    {rest : List ((Nat × Summary) × List UInt8)} (hshows : shows frame = false)
    (hrest : Report shows (count + 1) frames rest) : Report shows count (frame :: frames) rest

section
variable {shows : CapturedFrame → Bool} {count : UInt64} {frames : List CapturedFrame}
  {entries entries' : List ((Nat × Summary) × List UInt8)}

theorem Report.unique (h : Report shows count frames entries)
    (h' : Report shows count frames entries') : entries = entries' := by
  induction h generalizing entries' with
  | nil =>
    cases h'
    rfl
  | shown hshows hsummary hrest ih =>
    cases h' with
    | shown hshows' hsummary' hrest' => rw [hsummary.unique hsummary', ih hrest']
    | hidden hshows' hrest' => exact absurd (hshows.symm.trans hshows') (by decide)
  | hidden hshows hrest ih =>
    cases h' with
    | shown hshows' hsummary' hrest' => exact absurd (hshows'.symm.trans hshows) (by decide)
    | hidden hshows' hrest' => exact ih hrest'

theorem Report.shownFrames (h : Report shows count frames entries) :
    (entries.map fun entry => (entry.1.1, entry.2)) = Session.shownFrames shows count frames := by
  induction h with
  | nil => rfl
  | shown hshows hsummary hrest ih =>
    rw [List.map_cons, ih, Session.shownFrames, if_pos hshows]
    rfl
  | hidden hshows hrest ih =>
    rw [ih, Session.shownFrames, hshows]
    rfl

theorem packet_frameJob {frame : CapturedFrame} (number : Nat)
    (hsmall : frame.data.length ≤ rawSocketMaxFrame.toNat) :
    (frameJob frame number).packet = frame.data := by
  have hmax : rawSocketMaxFrame.toNat = 65536 := rfl
  have hmod : frame.data.length % 2 ^ 32 = frame.data.length := Nat.mod_eq_of_lt (by omega)
  exact (congrArg frame.data.take hmod).trans List.take_length

theorem reads_frameText {lines : List (List Char)} (h : Reads readHead lines entries)
    {frame : CapturedFrame} (number : Nat)
    (hsmall : frame.data.length ≤ rawSocketMaxFrame.toNat) :
    ∃ summary text, Shown (frameJob frame number) summary ∧
      (frameText frame number).toList = terminated '\n' text ∧
      Reads readHead (text ++ lines) (((number, summary), frame.data) :: entries) := by
  have hmax : rawSocketMaxFrame.toNat = 65536 := rfl
  have hpacket := packet_frameJob number hsmall
  obtain ⟨summary, line, hshown, htells, hprint⟩ := @printPacket_tells (frameJob frame number)
    (by rw [Job.length, hpacket]; omega)
  have hall : frame.data.take (16 * dumpTurns frame) = frame.data :=
    List.take_of_length_le (by rw [dumpTurns]; omega)
  have hreads := h.frame htells.newline (readHead_tells number htells) frame.data (dumpTurns frame)
  rw [hall] at hreads
  refine ⟨summary, _, hshown, ?_, hreads⟩
  rw [frameText, hprint none (dumpTurns frame) true rfl, hpacket]
  exact String.toList_ofList

theorem report_sessionText (shows : CapturedFrame → Bool) (count : UInt64)
    (hsmall : ∀ frame ∈ frames, frame.data.length ≤ rawSocketMaxFrame.toNat) :
    ∃ lines entries, (sessionText shows count frames).toList = terminated '\n' lines ∧
      Reads readHead lines entries ∧ Report shows count frames entries := by
  induction frames generalizing count with
  | nil => exact ⟨[], [], rfl, .nil, .nil⟩
  | cons frame frames ih =>
    obtain ⟨lines, entries, hlines, hreads, hreport⟩ :=
      ih (count + 1) fun f hf => hsmall f (List.mem_cons_of_mem _ hf)
    rw [sessionText, String.toList_append, hlines]
    cases hshows : shows frame with
    | true =>
      obtain ⟨summary, text, hsummary, htext, hboth⟩ :=
        reads_frameText hreads (count + 1).toNat (hsmall frame List.mem_cons_self)
      exact ⟨text ++ lines, _, by rw [if_pos rfl, htext, terminated_append], hboth,
        .shown hshows hsummary hreport⟩
    | false => exact ⟨lines, entries, rfl, hreads, .hidden hshows hreport⟩

theorem shownFrames_eq (shows : CapturedFrame → Bool) (n : Nat) (captured : List CapturedFrame) :
    shownFrames shows (.ofNat n) captured =
      ((captured.zipIdx (n + 1)).filter fun p => shows p.1).map fun p =>
        (p.2 % UInt64.size, p.1.data) := by
  induction captured generalizing n with
  | nil => rfl
  | cons frame captured ih =>
    have hcount : UInt64.ofNat n + 1 = .ofNat (n + 1) := by
      rw [UInt64.ofNat_add]
      rfl
    rw [shownFrames, hcount, ih, List.zipIdx_cons, List.filter_cons]
    cases shows frame <;> simp

end

section
variable {args : RunArgs} {filter : Option DispFilter.Dispfilter} {maxSize : Nat} {s : Process}

theorem ProcessInv.length_shown_le (h : ProcessInv args filter maxSize s) {frame : CapturedFrame}
    (hframe : frame ∈ s.shown) : frame.data.length ≤ rawSocketMaxFrame.toNat := by
  obtain ⟨src, -, hreceived⟩ := h.received_entered
  obtain ⟨waiting, hwaiting, -⟩ := h.received_eq
  have hmem : frame ∈ src.map fun e => ringFrame e.frame := by
    rw [← hreceived, hwaiting]
    exact List.mem_append_left _ hframe
  obtain ⟨e, -, rfl⟩ := List.mem_map.mp hmem
  exact List.length_take_le _ _

theorem reads_output (hfilter : FromCompiler filter)
    (h : (session args filter maxSize).Reachable s) :
    ∃ lines entries, s.printer.os.toList = terminated '\n' lines ∧ Reads readHead lines entries ∧
      Report (filterShows filter) 0 s.shown entries := by
  have hinv := processInv_of_reachable h
  rw [hinv.os_eq hfilter]
  exact report_sessionText (filterShows filter) 0 fun _ => hinv.length_shown_le

/-- In every state that the process can come to, its output can be read back: it gives, in their
order, the number and all the bytes of each frame that was passed to the printer and that the
display filter shows, and of no other frame. -/
theorem session_output_reads_back (hfilter : FromCompiler filter)
    (h : (session args filter maxSize).Reachable s) :
    readOutput s.printer.os =
      some (((s.shown.zipIdx 1).filter fun p => filterShows filter p.1).map fun p =>
        (p.2 % UInt64.size, p.1.data)) := by
  obtain ⟨lines, entries, hlines, hreads, hreport⟩ := reads_output hfilter h
  have hnumbers := hreads.map fun _ _ => readNumber_of_readHead
  rw [hreport.shownFrames] at hnumbers
  exact (hnumbers.readFrames hlines).trans (congrArg some (shownFrames_eq _ 0 s.shown))

end

theorem session_output_reads_back_one : ∃ s, (session plainArgs none 1).Reachable s ∧
    s.shown = [⟨zeroFrame, 0, 0⟩] ∧ readOutput s.printer.os = some [(1, zeroFrame)] := by
  obtain ⟨s, hreach, hshown, -⟩ := plainArgs_shown
  have hread := session_output_reads_back .null hreach
  rw [hshown] at hread
  exact ⟨s, hreach, hshown, hread⟩

section
variable {args : RunArgs} {filter : Option DispFilter.Dispfilter} {maxSize : Nat} {s : Process}

/-- In every state that the process can come to, its output is read as the report about the frames
that were passed to the printer: what it says about a frame is what the headers in the frame say. -/
theorem session_output_reports_headers (hfilter : FromCompiler filter)
    (h : (session args filter maxSize).Reachable s) :
    ∃ entries, readReport s.printer.os = some entries ∧
      ∀ entries', Report (filterShows filter) 0 s.shown entries' ↔ entries' = entries := by
  obtain ⟨lines, entries, hlines, hreads, hreport⟩ := reads_output hfilter h
  refine ⟨entries, hreads.readFrames hlines, fun entries' => ⟨fun h' => h'.unique hreport, ?_⟩⟩
  rintro rfl
  exact hreport

end

theorem session_output_reports_headers_one : ∃ s, (session plainArgs none 1).Reachable s ∧
    s.shown = [⟨zeroFrame, 0, 0⟩] ∧
    readReport s.printer.os = some [((1, .frame ⟨0, 0, 14, .replicate 6 0, .replicate 6 0, none⟩
      .eth .nothing), zeroFrame)] := by
  obtain ⟨s, hreach, hshown, -⟩ := plainArgs_shown
  obtain ⟨entries, hread, honly⟩ := session_output_reports_headers .null hreach
  have heth : EthWire _ _ := EthWire.plain (.replicate 6 0) (.replicate 6 0) 0 (by decide)
  have hreport : Report (filterShows none) 0 s.shown [((1, .frame ⟨0, 0, 14, .replicate 6 0,
      .replicate 6 0, none⟩ .eth .nothing), zeroFrame)] := by
    rw [hshown]
    exact .shown rfl (Layers.Layer.header heth rfl) .nil
  exact ⟨s, hreach, hshown, by rw [hread, (honly _).mp hreport]⟩

end MyWireshark.Session
