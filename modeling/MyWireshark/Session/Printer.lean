import MyWireshark.Dissect.Correct
import MyWireshark.Queue.Model

/-! packet_printer_callback over the frames of a capture: what ends up on the output, and what the
display filter changes about it. -/
namespace MyWireshark.Session
open Queue Dissect DispFilter

/-- PacketPrinterContext: what has been written to os, count and filter. -/
structure PacketPrinterContext where
  os : String
  count : UInt64
  filter : Option Dispfilter

/-- The arguments that main.cpp passes on for a frame: of its size, the low 32 bits. -/
def frameJob (frame : CapturedFrame) (packetNumber : Nat) : Job where
  packet := frame.data.take (frame.data.length % 2 ^ 32)
  tsSeconds := frame.tsSeconds
  tsMicroseconds := frame.tsMicroseconds
  packetNumber := packetNumber
  small := by
    rw [List.length_take]
    exact Nat.lt_of_le_of_lt (Nat.min_le_left _ _) (Nat.mod_lt _ (by decide))

/-- A turn of the hex dump for each of its lines. The frames of a capture are too short for the
dump to need more. -/
def dumpTurns (frame : CapturedFrame) : Nat := frame.data.length / 16 + 1

def packetPrinterCallback (ctx : PacketPrinterContext) (frame : CapturedFrame) :
    Option PacketPrinterContext := do
  let count := ctx.count + 1
  let printed ← printPacket (frameJob frame count.toNat) ctx.filter (dumpTurns frame)
  return { ctx with os := ctx.os ++ printed.text, count := count }

def printFrames (ctx : PacketPrinterContext) (frames : List CapturedFrame) :
    Option PacketPrinterContext := frames.foldlM packetPrinterCallback ctx

def frameFields (frame : CapturedFrame) : Fields := refFields (frameJob frame 0).packet

def frameText (frame : CapturedFrame) (packetNumber : Nat) : String :=
  match printPacket (frameJob frame packetNumber) none (dumpTurns frame) with
  | some printed => printed.text
  | none => ""

/-- The text for the frames after `count` ones, for those of them that `shows` selects. -/
def sessionText (shows : CapturedFrame → Bool) (count : UInt64) : List CapturedFrame → String
  | [] => ""
  | frame :: frames =>
    (if shows frame then frameText frame (count + 1).toNat else "") ++
      sessionText shows (count + 1) frames

def filterShows (filter : Option Dispfilter) (frame : CapturedFrame) : Bool :=
  (passesFilter filter (frameFields frame)).getD false

inductive FromCompiler : Option Dispfilter → Prop where
  | null : FromCompiler none
  | compiled {expr : Option (List Char)} {errNull : Bool} {errLen : Int}
    {mallocFilter mallocNodes : Bool} {r : CompileResult} {filter : Dispfilter}
    (h : dispfilterCompile expr errNull errLen mallocFilter mallocNodes = some r)
    (hr : r.filter = some filter) : FromCompiler (some filter)

section
variable {filter : Option Dispfilter}

theorem FromCompiler.decides (h : FromCompiler filter) (fields : Fields) :
    ∃ verdict, passesFilter filter fields = some verdict := by
  cases h with
  | null => exact ⟨true, rfl⟩
  | compiled h hr => exact compiled_decides h hr fields

theorem packetPrinterCallback_eq (h : FromCompiler filter) (os : String) (count : UInt64)
    (frame : CapturedFrame) :
    packetPrinterCallback ⟨os, count, filter⟩ frame =
      some ⟨os ++ if filterShows filter frame then frameText frame (count + 1).toNat else "",
        count + 1, filter⟩ := by
  obtain ⟨line, hline⟩ := printPacket_settles (frameJob frame (count + 1).toNat)
  obtain ⟨dump, hdump⟩ := hexDump_total (frameJob frame (count + 1).toNat).packet
    (dumpTurns frame) 0
  obtain ⟨verdict, hverdict⟩ := h.decides (frameFields frame)
  have hshows : filterShows filter frame = verdict := by rw [filterShows, hverdict]; rfl
  have hplain := (hline none (dumpTurns frame)).trans (finishLine_eq rfl hdump)
  have hfiltered := (hline filter (dumpTurns frame)).trans (finishLine_eq hverdict hdump)
  dsimp only at hplain hfiltered
  rw [packetPrinterCallback, hshows, frameText, hplain, hfiltered]
  rfl

theorem printFrames_nil (ctx : PacketPrinterContext) : printFrames ctx [] = some ctx := rfl

theorem printFrames_cons (ctx : PacketPrinterContext) (frame : CapturedFrame)
    (frames : List CapturedFrame) :
    printFrames ctx (frame :: frames) =
      (packetPrinterCallback ctx frame).bind fun ctx => printFrames ctx frames :=
  List.foldlM_cons

theorem printFrames_append (ctx : PacketPrinterContext) (frames frames' : List CapturedFrame) :
    printFrames ctx (frames ++ frames') =
      (printFrames ctx frames).bind fun ctx => printFrames ctx frames' :=
  List.foldlM_append

/-- The output of a whole capture: for every frame that the display filter shows, the text that is
printed for it without a filter. Its number counts all the frames, also those not shown. -/
theorem printFrames_eq (h : FromCompiler filter) (os : String) (count : UInt64)
    (frames : List CapturedFrame) :
    printFrames ⟨os, count, filter⟩ frames =
      some ⟨os ++ sessionText (filterShows filter) count frames,
        count + .ofNat frames.length, filter⟩ := by
  induction frames generalizing os count with
  | nil => simp [printFrames_nil, sessionText]
  | cons frame frames ih =>
    rw [printFrames_cons, packetPrinterCallback_eq h, Option.bind_some, ih, sessionText,
      String.append_assoc, List.length_cons, Nat.add_comm, UInt64.ofNat_add, UInt64.add_assoc]
    rfl

end
end MyWireshark.Session
