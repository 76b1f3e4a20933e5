import MyWireshark.Capture.Promisc
import MyWireshark.Lib.Resource
import MyWireshark.Lib.Trace

/-! What run_impl and the functions below it take from the system and give back: run_impl is run
once more with each of these acts recorded. -/
namespace MyWireshark.Capture
open Framing CapFilter Bpf MyWireshark.Filter Trace Resource

/-- What is taken: the instructions of the filter, the socket, the mapping of its ring, its
context, the .pcap file, the handler of SIGINT, and g_active_ctx while it points to the context. -/
inductive Res where
  | program
  | socket
  | ring
  | ctx
  | file
  | handler
  | active
  deriving DecidableEq

/-- The ring is mapped through the socket, and g_active_ctx needs something to point to. -/
def Res.restsOn : Res → List Res
  | .ring => [.socket]
  | .active => [.ctx]
  | _ => []

namespace Recorded

/-- The returns of raw_socket_open behind socket. -/
def closeFd (text : String) (h : Host) : Traced (Act Res) (Host × Option OpenedCtx) := do
  event (.release .socket)
  return (h.perror text, none)

def rawSocketOpen (deviceName : Option (List Char)) (c : OpenCalls) (h : Host) :
    Traced (Act Res) (Host × Option OpenedCtx) :=
  if deviceName.isNone then return (h, none)
  else if !c.socket then return (h.perror "socket(AF_PACKET, SOCK_RAW)", none)
  else do
    event (.acquire .socket)
    event (.use .socket)
    if !c.bindToDevice then closeFd "setsockopt(SO_BINDTODEVICE)" h
    else do
      event (.use .socket)
      if !c.getFlags then closeFd "ioctl(SIOCGIFFLAGS)" h
      else do
        eventIf (!h.promisc) (.use .socket)
        let (h, promiscSetByUs) := setPromisc c h
        event (.use .socket)
        if !c.packetVersion then closeFd "setsockopt(PACKET_VERSION, TPACKET_V3)" h
        else do
          event (.use .socket)
          if !c.rxRing then closeFd "setsockopt(PACKET_RX_RING)" h
          else do
            event (.use .socket)
            if !c.mmap then closeFd "mmap(PACKET_RX_RING)" h
            else do
              event (.acquire .ring)
              if !c.malloc then
                event (.release .ring)
                closeFd "malloc" h
              else
                event (.acquire .ctx)
                return (h, some ⟨openCtx, promiscSetByUs⟩)

def rawSocketClose (ctx : OpenedCtx) (c : CloseCalls) (h : Host) : Traced (Act Res) Host := do
  event (.use .ctx)
  eventIf ctx.promiscSetByUs (.use .socket)
  event (.release .ring)
  event (.release .socket)
  event (.release .ctx)
  return Capture.rawSocketClose (some ctx) c h

/-- A call of raw_socket_recv, as if it always came to poll. -/
def rawSocketRecv : Traced (Act Res) Unit := do
  event (.use .ctx)
  event (.use .ring)
  event (.use .socket)

def receiveLoop (order : ByteOrder) (last : Int) (h : Host) (file : Option File) :
    List Turn → Traced (Act Res) RunOut
  | [] => do
    rawSocketRecv
    return loopEnd last h file
  | t :: ts => do
    rawSocketRecv
    eventIf file.isSome (.use .file)
    let wrote := t.write order file
    if wrote.2 ≠ 0 then return ⟨h.perror "fwrite", wrote.1, [], -1⟩
    else
      let out ← receiveLoop order last h wrote.1 ts
      return { out with passed := t.packet :: out.passed }

/-- A signal call that fails installs nothing, and there is nothing of ours to take back. -/
def capture (order : ByteOrder) (ctx : OpenedCtx) (c : RunCalls) (h : Host) (file : Option File) :
    Traced (Act Res) RunOut := do
  eventIf c.signal (.acquire .handler)
  event (.acquire .active)
  let h := if c.signal then h else h.perror "signal(SIGINT)"
  let out ← receiveLoop order c.last h file c.turns
  eventIf c.signal (.release .handler)
  event (.release .active)
  eventIf out.file.isSome (.release .file)
  let out := closePcap c.fclose out
  event (.use .ctx)
  event (.use .socket)
  let h ← rawSocketClose ctx c.closing (readStats c.stats out.host)
  return { out with host := h }

def openPcap (order : ByteOrder) (ctx : OpenedCtx) (path : Option (List Char)) (c : RunCalls)
    (h : Host) : Traced (Act Res) RunOut :=
  if (path.map isEmpty).getD true then capture order ctx c h none
  else if !c.fopen then do
    let h ← rawSocketClose ctx c.closing (h.perror "fopen")
    return ⟨h, none, [], -1⟩
  else do
    event (.acquire .file)
    event (.use .file)
    let (f, ret) := writePcapGlobalHeader order [] c.headerRoom
    if ret ≠ 0 then
      event (.release .file)
      let h ← rawSocketClose ctx c.closing (h.perror "fwrite")
      return ⟨h, some f, [], -1⟩
    else capture order ctx c h (some f)

def runImpl (order : ByteOrder) (deviceName : Option (List Char)) (args : RunArgs) (c : RunCalls)
    (h : Host) : Traced (Act Res) RunOut := do
  match ← liftM (compileFilter args) with
  | .error text => return ⟨h.perror text, none, [], -1⟩
  | .ok filterProg =>
    eventIf filterProg.filter.isSome (.acquire .program)
    match ← rawSocketOpen deviceName c.opening h with
    | (h, none) =>
      eventIf filterProg.filter.isSome (.release .program)
      return ⟨h, none, [], -1⟩
    | (h, some ctx) =>
      eventIf filterProg.filter.isSome (.use .ctx)
      eventIf filterProg.filter.isSome (.use .program)
      eventIf filterProg.filter.isSome (.use .socket)
      eventIf filterProg.filter.isSome (.release .program)
      if filterProg.filter.isSome && !c.attach then
        let h ← rawSocketClose ctx c.closing (h.perror "setsockopt(SO_ATTACH_FILTER)")
        return ⟨h, none, [], -1⟩
      else openPcap order ctx args.pcapOutputPath c h

end Recorded

/-! The records do not change what the functions do -/

section
variable (order : ByteOrder) (c : RunCalls) (h : Host)

@[simp] theorem erase_rawSocketOpen (deviceName : Option (List Char)) (c : OpenCalls) (h : Host) :
    erase (Recorded.rawSocketOpen deviceName c h) = some (rawSocketOpen deviceName c h) := by
  unfold Recorded.rawSocketOpen rawSocketOpen
  cases setPromisc c h
  simp only [Recorded.closeFd, erase_ite, erase_bind, erase_event, erase_eventIf, erase_pure,
    Option.bind_eq_bind, Option.bind_some, apply_ite some]

@[simp] theorem erase_rawSocketClose (ctx : OpenedCtx) (c : CloseCalls) (h : Host) :
    erase (Recorded.rawSocketClose ctx c h) = some (rawSocketClose (some ctx) c h) := by
  simp [Recorded.rawSocketClose]

@[simp] theorem erase_receiveLoop (last : Int) (file : Option File) (ts : List Turn) :
    erase (Recorded.receiveLoop order last h file ts) =
      some (receiveLoop order last h file ts) := by
  induction ts generalizing file with
  | nil => simp [Recorded.receiveLoop, Recorded.rawSocketRecv, receiveLoop]
  | cons t ts ih =>
    by_cases hwrote : (t.write order file).2 ≠ 0 <;>
      simp [Recorded.receiveLoop, Recorded.rawSocketRecv, receiveLoop, hwrote, ih]

@[simp] theorem erase_capture (ctx : OpenedCtx) (file : Option File) :
    erase (Recorded.capture order ctx c h file) = some (capture order ctx c h file) := by
  simp [Recorded.capture, capture]

@[simp] theorem erase_openPcap (ctx : OpenedCtx) (path : Option (List Char)) :
    erase (Recorded.openPcap order ctx path c h) = some (openPcap order ctx path c h) := by
  unfold Recorded.openPcap openPcap
  cases writePcapGlobalHeader order [] c.headerRoom
  simp only [erase_ite, erase_bind, erase_event, erase_pure, erase_rawSocketClose, erase_capture,
    Option.bind_eq_bind, Option.bind_some, apply_ite some]

theorem erase_runImpl (deviceName : Option (List Char)) (args : RunArgs) :
    erase (Recorded.runImpl order deviceName args c h) = runImpl order deviceName args c h := by
  unfold Recorded.runImpl runImpl
  rw [erase_bind, erase_lift]
  congr 1
  funext compiled
  cases compiled with
  | error text => rfl
  | ok prog =>
    simp only [erase_bind, erase_eventIf, erase_rawSocketOpen, Option.bind_eq_bind,
      Option.bind_some]
    cases rawSocketOpen deviceName c.opening h with
    | mk g ctx =>
      cases ctx with
      | none => simp
      | some ctx => simp

end

/-! What is held on the way -/

abbrev Handles {α : Type} (held : List Res) (x : Traced (Act Res) α) (Q : α → List Res → Prop) :
    Prop :=
  Leads (hold Res.restsOn) held x Q

def Opened (held : List Res) (r : Host × Option OpenedCtx) (after : List Res) : Prop :=
  after = if r.2.isSome then .ctx :: .ring :: .socket :: held else held

section
variable {held : List Res}

theorem closeFd_holds (hheld : held = [] ∨ held = [.program]) (text : String) (h : Host) :
    Handles (.socket :: held) (Recorded.closeFd text h) (Opened held) := by
  obtain rfl | rfl := hheld <;> exact .step_then rfl (.pure rfl)

theorem rawSocketOpen_holds (hheld : held = [] ∨ held = [.program])
    (deviceName : Option (List Char)) (c : OpenCalls) (h : Host) :
    Handles held (Recorded.rawSocketOpen deviceName c h) (Opened held) := by
  have hclose := fun text h => closeFd_holds hheld text h
  have hopen : hold Res.restsOn held (.acquire .socket) = some (.socket :: held) := by
    obtain rfl | rfl := hheld <;> rfl
  have huse : hold Res.restsOn (.socket :: held) (.use .socket) = some (.socket :: held) :=
    hold_use List.mem_cons_self
  -- one case for each return of the source, in its order
  unfold Recorded.rawSocketOpen
  split
  · exact .pure rfl
  split
  · exact .pure rfl
  refine .step_then hopen (.step_then huse ?_)
  split
  · exact hclose _ _
  refine .step_then huse ?_
  split
  · exact hclose _ _
  refine .step_if (fun _ => huse) ?_
  rw [ite_self]
  refine .step_then huse ?_
  split
  · exact hclose _ _
  refine .step_then huse ?_
  split
  · exact hclose _ _
  refine .step_then huse ?_
  split
  · exact hclose _ _
  obtain rfl | rfl := hheld
  · refine .step_then rfl ?_
    split
    · exact .step_then rfl (hclose _ _)
    · exact .step_then rfl (.pure rfl)
  · refine .step_then rfl ?_
    split
    · exact .step_then rfl (hclose _ _)
    · exact .step_then rfl (.pure rfl)

theorem rawSocketClose_holds (ctx : OpenedCtx) (c : CloseCalls) (h : Host) :
    Handles [.ctx, .ring, .socket] (Recorded.rawSocketClose ctx c h) fun _ after => after = [] := by
  refine .step_then rfl (.step_if (fun _ => rfl) ?_)
  rw [ite_self]
  exact .step_then rfl (.step_then rfl (.step_then rfl (.pure rfl)))

section
variable (hctx : .ctx ∈ held) (hring : .ring ∈ held) (hsocket : .socket ∈ held)
include hctx hring hsocket

theorem rawSocketRecv_holds : Handles held Recorded.rawSocketRecv fun _ after => after = held :=
  .step_then (hold_use hctx) (.step_then (hold_use hring) (.event (hold_use hsocket)))

theorem receiveLoop_holds (order : ByteOrder) (last : Int) (h : Host) {file : Option File}
    (hfile : file.isSome = true → .file ∈ held) (ts : List Turn) :
    Handles held (Recorded.receiveLoop order last h file ts) fun out after =>
      after = held ∧ out.file.isSome = file.isSome := by
  have hrecv := rawSocketRecv_holds hctx hring hsocket
  induction ts generalizing file with
  | nil =>
    refine hrecv.bind ?_
    rintro _ _ rfl
    exact .pure ⟨rfl, by rw [loopEnd_file]⟩
  | cons t ts ih =>
    have hwrote : (t.write order file).1.isSome = file.isSome := by
      cases file <;> rfl
    refine hrecv.bind ?_
    rintro _ _ rfl
    refine .step_if (fun hsome => hold_use (hfile hsome)) ?_
    rw [ite_self]
    dsimp only
    split
    · exact .pure ⟨rfl, hwrote⟩
    · refine (ih (hwrote ▸ hfile)).bind ?_
      rintro out _ ⟨rfl, hout⟩
      exact .pure ⟨rfl, hout.trans hwrote⟩

end

def ready (file : Bool) : List Res :=
  if file then [.file, .ctx, .ring, .socket] else [.ctx, .ring, .socket]

def listening (signal file : Bool) : List Res :=
  if signal then .handler :: ready file else ready file

theorem capture_holds (order : ByteOrder) (ctx : OpenedCtx) (c : RunCalls) (h : Host)
    (file : Option File) :
    Handles (ready file.isSome) (Recorded.capture order ctx c h file)
      fun _ after => after = [] := by
  have hin : ∀ {signal b}, ∀ r ∈ [Res.ctx, .ring, .socket], r ∈ .active :: listening signal b := by
    decide
  have hfile : ∀ {signal b}, b = true → Res.file ∈ .active :: listening signal b := by decide
  refine .step_if (t := .handler :: ready file.isSome) (fun _ => ?_) ?_
  · cases file <;> rfl
  refine .step_then (t := .active :: listening c.signal file.isSome) ?_ ?_
  · cases c.signal <;> cases file <;> rfl
  refine (receiveLoop_holds (hin _ (by decide)) (hin _ (by decide)) (hin _ (by decide)) order _ _
    hfile _).bind ?_
  rintro out _ ⟨rfl, hout⟩
  refine .step_if (t := .active :: ready file.isSome) (fun hsignal => ?_) ?_
  · rw [hsignal]
    cases file <;> rfl
  have hrestored : (if c.signal then .active :: ready file.isSome
      else .active :: listening c.signal file.isSome) = .active :: ready file.isSome := by
    cases c.signal <;> rfl
  rw [hrestored]
  refine .step_then (t := ready file.isSome) ?_ ?_
  · cases file <;> rfl
  rw [hout]
  refine .step_if (t := ready false) (fun hsome => ?_) ?_
  · rw [hsome]
    rfl
  have hclosed : (if file.isSome then ready false else ready file.isSome) = ready false := by
    cases file <;> rfl
  rw [hclosed]
  refine .step_then rfl (.step_then rfl ((rawSocketClose_holds ctx _ _).bind ?_))
  rintro _ _ rfl
  exact .pure rfl

theorem openPcap_holds (order : ByteOrder) (ctx : OpenedCtx) (path : Option (List Char))
    (c : RunCalls) (h : Host) :
    Handles [.ctx, .ring, .socket] (Recorded.openPcap order ctx path c h)
      fun _ after => after = [] := by
  unfold Recorded.openPcap
  split
  · exact capture_holds order ctx c h none
  split
  · refine (rawSocketClose_holds ctx _ _).bind ?_
    rintro _ _ rfl
    exact .pure rfl
  refine .step_then rfl (.step_then rfl ?_)
  cases writePcapGlobalHeader order [] c.headerRoom
  dsimp only
  split
  · refine .step_then rfl ((rawSocketClose_holds ctx _ _).bind ?_)
    rintro _ _ rfl
    exact .pure rfl
  · exact capture_holds order ctx c h (some _)

theorem runImpl_holds (order : ByteOrder) (deviceName : Option (List Char)) {args : RunArgs}
    (c : RunCalls) (h : Host) {compiled : Except String SockFprog}
    (hcompiled : compileFilter args = some compiled) :
    Handles [] (Recorded.runImpl order deviceName args c h) fun _ after => after = [] := by
  unfold Recorded.runImpl
  rw [hcompiled]
  cases compiled with
  | error text => exact .pure rfl
  | ok prog =>
    generalize hb : prog.filter.isSome = b
    have hheld : (if b then [Res.program] else []) = [] ∨
        (if b then [Res.program] else []) = [.program] := by
      cases b <;> simp
    refine .bind (Q := fun r after => r = .ok prog ∧ after = []) (.pure ⟨rfl, rfl⟩) ?_
    rintro _ _ ⟨rfl, rfl⟩
    dsimp only
    rw [hb]
    refine .step_if (t := [.program]) (fun _ => rfl)
      ((rawSocketOpen_holds hheld deviceName c.opening h).bind ?_)
    rintro ⟨g, ctx⟩ _ rfl
    cases ctx with
    | none =>
      refine .step_if (t := []) (fun hyes => by rw [hyes]; rfl) ?_
      cases b <;> exact .pure rfl
    | some ctx =>
      have hfreed : Handles [.ctx, .ring, .socket] (if (b && !c.attach) = true then do
          let h ← Recorded.rawSocketClose ctx c.closing (g.perror "setsockopt(SO_ATTACH_FILTER)")
          return ⟨h, none, [], -1⟩
        else Recorded.openPcap order ctx args.pcapOutputPath c g) fun _ after => after = [] := by
        split
        · refine (rawSocketClose_holds ctx _ _).bind ?_
          rintro _ _ rfl
          exact .pure rfl
        · exact openPcap_holds order ctx _ c g
      cases b
      · exact .step_if (t := []) nofun (.step_if (t := []) nofun (.step_if (t := []) nofun
          (.step_if (t := []) nofun hfreed)))
      · exact .step_if (fun _ => rfl) (.step_if (fun _ => rfl) (.step_if (fun _ => rfl)
          (.step_if (fun _ => rfl) hfreed)))

end
end MyWireshark.Capture
