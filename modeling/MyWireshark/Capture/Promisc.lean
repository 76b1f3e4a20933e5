import MyWireshark.Capture.Backend

/-! Promiscuous mode across calls of run_impl: which calls leave the interface as they found it. -/
namespace MyWireshark.Capture
open Framing Bpf MyWireshark.Filter

structure Call where
  deviceName : Option (List Char)
  args : RunArgs
  calls : RunCalls

def runCalls (order : ByteOrder) : List Call → Host → Option (List Host)
  | [], _ => some []
  | i :: is, h => do
    let out ← runImpl order i.deviceName i.args i.calls h
    let rest ← runCalls order is out.host
    return out.host :: rest

/-- The .pcap file, if one is asked for, is open and has its header. -/
def Call.pcapReady (i : Call) : Bool :=
  (i.args.pcapOutputPath.map isEmpty).getD true || i.calls.fopen && decide (24 ≤ i.calls.headerRoom)

inductive Returned (order : ByteOrder) (i : Call) (h : Host) : RunOut → Prop
  | invalidFilter {text : String} (hfilter : compileFilter i.args = some (.error text)) :
      Returned order i h ⟨h.perror text, none, [], -1⟩
  | notOpened {prog : SockFprog} {g : Host} (hfilter : compileFilter i.args = some (.ok prog))
      (hopen : rawSocketOpen i.deviceName i.calls.opening h = (g, none)) :
      Returned order i h ⟨g, none, [], -1⟩
  | notReady {prog : SockFprog} {g : Host} {ctx : OpenedCtx} {text : String} {file : Option File}
      (hfilter : compileFilter i.args = some (.ok prog))
      (hopen : rawSocketOpen i.deviceName i.calls.opening h = (g, some ctx))
      (hready : (!(prog.filter.isSome && !i.calls.attach) && i.pcapReady) = false) :
      Returned order i h
        ⟨rawSocketClose (some ctx) i.calls.closing (g.perror text), file, [], -1⟩
  | captured {prog : SockFprog} {g : Host} {ctx : OpenedCtx} {file : Option File}
      (hfilter : compileFilter i.args = some (.ok prog))
      (hopen : rawSocketOpen i.deviceName i.calls.opening h = (g, some ctx))
      (hready : (!(prog.filter.isSome && !i.calls.attach) && i.pcapReady) = true) :
      Returned order i h (capture order ctx i.calls g file)

section
variable {order : ByteOrder} {i : Call} {h : Host}

theorem returned_openPcap {prog : SockFprog} {g : Host} {ctx : OpenedCtx}
    (hfilter : compileFilter i.args = some (.ok prog))
    (hopen : rawSocketOpen i.deviceName i.calls.opening h = (g, some ctx))
    (hattach : (prog.filter.isSome && !i.calls.attach) = false) :
    Returned order i h (openPcap order ctx i.args.pcapOutputPath i.calls g) := by
  have hready : (!(prog.filter.isSome && !i.calls.attach) && i.pcapReady) = i.pcapReady := by
    rw [hattach]
    rfl
  simp only [openPcap, writePcapGlobalHeader_fails]
  -- one case for each return of the source, in its order
  split_ifs with hpath hfopen hroom
  · exact .captured hfilter hopen (hready.trans (by simp [Call.pcapReady, hpath]))
  · exact .notReady hfilter hopen (hready.trans (by simp_all [Call.pcapReady]))
  · exact .notReady hfilter hopen (hready.trans (by simp_all [Call.pcapReady]))
  · exact .captured hfilter hopen (hready.trans (by simp_all [Call.pcapReady]))

theorem returned_of_runImpl {out : RunOut}
    (hrun : runImpl order i.deviceName i.args i.calls h = some out) : Returned order i h out := by
  obtain ⟨compiled, hfilter, hrest⟩ := Option.bind_eq_some_iff.mp hrun
  cases compiled with
  | error text =>
    obtain rfl := Option.some.inj hrest
    exact .invalidFilter hfilter
  | ok prog =>
    cases hopen : rawSocketOpen i.deviceName i.calls.opening h with
    | mk g ctx =>
      simp only [hopen] at hrest
      cases ctx with
      | none =>
        obtain rfl := Option.some.inj hrest
        exact .notOpened hfilter hopen
      | some ctx =>
        dsimp only at hrest
        by_cases hattach : (prog.filter.isSome && !i.calls.attach) = true
        · rw [if_pos hattach] at hrest
          obtain rfl := Option.some.inj hrest
          exact .notReady hfilter hopen (by rw [hattach]; rfl)
        · rw [if_neg hattach] at hrest
          obtain rfl := Option.some.inj hrest
          exact returned_openPcap hfilter hopen (Bool.eq_false_iff.mpr hattach)

end

/-- raw_socket_open gets as far as turning the mode on, and one of the four calls after that
fails. -/
def OpenCalls.strands (c : OpenCalls) : Bool :=
  c.socket && c.bindToDevice && c.getFlags && c.setFlags &&
    !(c.packetVersion && c.rxRing && c.mmap && c.malloc)

/-- The filter compiles, and raw_socket_open fails behind the switch to promiscuous mode. -/
def Call.strands (i : Call) : Bool :=
  (match compileFilter i.args with
  | some (.ok _) => true
  | _ => false) && i.deviceName.isSome && i.calls.opening.strands

def Call.ClosesCleanly (i : Call) : Prop :=
  i.calls.closing.getFlags = true ∧ i.calls.closing.setFlags = true

section
variable (h : Host) (order : ByteOrder)

theorem promisc_set : ({ h with ifrFlags := h.ifrFlags ||| iffPromisc } : Host).promisc = true := by
  have hset : (h.ifrFlags ||| iffPromisc) &&& iffPromisc = iffPromisc := by
    apply UInt16.eq_of_toBitVec_eq
    ext i
    simp only [UInt16.toBitVec_and, UInt16.toBitVec_or, BitVec.getElem_and, BitVec.getElem_or]
    cases h.ifrFlags.toBitVec[i] <;> cases iffPromisc.toBitVec[i] <;> rfl
  rw [Host.promisc, hset]
  rfl

theorem promisc_clear :
    ({ h with ifrFlags := h.ifrFlags &&& ~~~iffPromisc } : Host).promisc = false := by
  rw [Host.promisc, UInt16.and_assoc, UInt16.not_and_self, UInt16.and_zero]
  rfl

@[simp] theorem promisc_perror (text : String) : (h.perror text).promisc = h.promisc := rfl

@[simp] theorem promisc_readStats (stats : Option CaptureStats) :
    (readStats stats h).promisc = h.promisc := by
  cases stats <;> rfl

@[simp] theorem promisc_receiveLoop (last : Int) (file : Option File) (ts : List Turn) :
    (receiveLoop order last h file ts).host.promisc = h.promisc := by
  induction ts generalizing file with
  | nil =>
    rw [receiveLoop, loopEnd]
    split <;> rfl
  | cons t ts ih =>
    by_cases hwrote : (t.write order file).2 ≠ 0
    · simp [receiveLoop, hwrote]
    · simp [receiveLoop, hwrote, ih]

@[simp] theorem promisc_closePcap (fclose : Bool) (out : RunOut) :
    (closePcap fclose out).host.promisc = out.host.promisc := by
  unfold closePcap
  split <;> rfl

end

section
variable {h : Host} {c : CloseCalls} {ctx : OpenedCtx}

/-- raw_socket_close turns the mode off exactly if raw_socket_open turned it on. -/
theorem promisc_rawSocketClose (hget : c.getFlags = true) (hset : c.setFlags = true) :
    (rawSocketClose (some ctx) c h).promisc = (h.promisc && !ctx.promiscSetByUs) := by
  cases hours : ctx.promiscSetByUs with
  | false => simp [rawSocketClose, hours]
  | true => simp [rawSocketClose, hours, hget, hset, promisc_clear]

end

theorem setPromisc_promisc (c : OpenCalls) (h : Host) :
    (setPromisc c h).1.promisc = (h.promisc || c.setFlags) := by
  cases hon : h.promisc <;> cases hset : c.setFlags <;>
    simp [setPromisc, hon, hset, promisc_set]

theorem setPromisc_byUs (c : OpenCalls) (h : Host) :
    (setPromisc c h).2 = (!h.promisc && c.setFlags) := by
  cases hon : h.promisc <;> cases hset : c.setFlags <;> simp [setPromisc, hon, hset]

/-- What raw_socket_open does to the mode: where it fails, the mode is on if it was on before or if
the failure comes behind the switch; where it succeeds, it was on before or the context says
that the call turned it on. -/
structure OpenSpec (deviceName : Option (List Char)) (c : OpenCalls) (h : Host)
    (opened : Host × Option OpenedCtx) : Prop where
  failed : opened.2 = none →
    opened.1.promisc = (h.promisc || (deviceName.isSome && c.strands))
  succeeded : ∀ ctx, opened.2 = some ctx →
    (opened.1.promisc && !ctx.promiscSetByUs) = h.promisc ∧ (deviceName.isSome && c.strands) = false

theorem rawSocketOpen_spec (deviceName : Option (List Char)) (c : OpenCalls) (h : Host) :
    OpenSpec deviceName c h (rawSocketOpen deviceName c h) := by
  cases deviceName with
  | none => exact ⟨fun _ => by simp [rawSocketOpen], fun ctx hctx => by cases hctx⟩
  | some name =>
    have hswitch : ((h.promisc || c.setFlags) && !(!h.promisc && c.setFlags)) = h.promisc := by
      cases h.promisc <;> cases c.setFlags <;> rfl
    unfold rawSocketOpen
    -- one case for each return of the source, in its order
    split_ifs with hname hsocket hbind hget hversion hring hmap halloc
    all_goals
      constructor
      · simp_all [OpenCalls.strands, setPromisc_promisc]
      · simp_all [OpenCalls.strands, setPromisc_promisc, setPromisc_byUs]

section
variable (order : ByteOrder) {c : RunCalls} (ctx : OpenedCtx) (h : Host)

theorem promisc_capture (hget : c.closing.getFlags = true) (hset : c.closing.setFlags = true)
    (file : Option File) :
    (capture order ctx c h file).host.promisc = (h.promisc && !ctx.promiscSetByUs) := by
  have hsignal : (if c.signal then h else h.perror "signal(SIGINT)").promisc = h.promisc := by
    split <;> rfl
  rw [capture, promisc_rawSocketClose hget hset, promisc_readStats, promisc_closePcap,
    promisc_receiveLoop, hsignal]

end

section
variable {order : ByteOrder} {h : Host}

theorem promisc_runImpl {i : Call} {out : RunOut} (hclose : i.ClosesCleanly)
    (hrun : runImpl order i.deviceName i.args i.calls h = some out) :
    out.host.promisc = (h.promisc || i.strands) := by
  have hspec := rawSocketOpen_spec i.deviceName i.calls.opening h
  cases returned_of_runImpl hrun with
  | invalidFilter hfilter => simp [Call.strands, hfilter]
  | notOpened hfilter hopen =>
    rw [hopen] at hspec
    simp [Call.strands, hfilter, hspec.failed rfl]
  | notReady hfilter hopen hready =>
    rw [hopen] at hspec
    obtain ⟨hkept, hnot⟩ := hspec.succeeded _ rfl
    simp [Call.strands, hfilter, hnot, promisc_rawSocketClose hclose.1 hclose.2, hkept]
  | captured hfilter hopen hready =>
    rw [hopen] at hspec
    obtain ⟨hkept, hnot⟩ := hspec.succeeded _ rfl
    simp [Call.strands, hfilter, hnot, promisc_capture order _ _ hclose.1 hclose.2, hkept]

/-- Promiscuous mode is as it was before the first call, after every one of them, exactly if it
was on, or if no call fails between the switch to it and the end of raw_socket_open. -/
theorem promisc_restored_iff {is : List Call} {after : List Host}
    (hclose : ∀ i ∈ is, i.ClosesCleanly) (hrun : runCalls order is h = some after) :
    (∀ g ∈ after, g.promisc = h.promisc) ↔ h.promisc = true ∨ ∀ i ∈ is, i.strands = false := by
  induction is generalizing h after with
  | nil =>
    obtain rfl := Option.some.inj hrun
    simp
  | cons i is ih =>
    obtain ⟨out, hout, hrest⟩ := Option.bind_eq_some_iff.mp hrun
    obtain ⟨rest, htail, hafter⟩ := Option.bind_eq_some_iff.mp hrest
    obtain rfl := Option.some.inj hafter
    have hfirst := promisc_runImpl (hclose i List.mem_cons_self) hout
    have hlater := ih (fun j hj => hclose j (List.mem_cons_of_mem i hj)) htail
    rw [List.forall_mem_cons, List.forall_mem_cons]
    cases hon : h.promisc with
    | true =>
      rw [hon, Bool.true_or] at hfirst
      rw [hfirst] at hlater ⊢
      exact iff_of_true ⟨rfl, hlater.mpr (.inl rfl)⟩ (.inl rfl)
    | false =>
      rw [hon, Bool.false_or] at hfirst
      cases hstrands : i.strands with
      | true => simp [hfirst, hstrands]
      | false =>
        rw [hfirst, hstrands] at hlater ⊢
        rw [hlater]
        simp

end

/-- An interface that is up and not in promiscuous mode. -/
def quietHost : Host := ⟨0x1043, ⟨0, 0⟩, false, []⟩

/-- A capture without a filter and a file that is stopped before the first frame, with the set-up
ending as given. -/
def shortCall (opening : OpenCalls) : Call where
  deviceName := some "eth0".toList
  args := ⟨none, none, true⟩
  calls :=
    { opening := opening, attach := true, fopen := true, headerRoom := 24, signal := true,
      turns := [], last := rawSocketStopped, last_neg := rawSocketStopped_neg, fclose := true,
      stats := some ⟨0, 0⟩, closing := ⟨true, true⟩ }

def openSucceeds : OpenCalls := ⟨true, true, true, true, true, true, true, true⟩

def versionRefused : OpenCalls := { openSucceeds with packetVersion := false }

theorem promisc_restored_iff_twice :
    runCalls .little [shortCall openSucceeds, shortCall openSucceeds] quietHost =
        some [{ quietHost with lastStatsValid := true },
          { quietHost with lastStatsValid := true }] ∧
      ((∀ g ∈ [{ quietHost with lastStatsValid := true },
          { quietHost with lastStatsValid := true }],
          g.promisc = quietHost.promisc) ↔
        quietHost.promisc = true ∨
          ∀ i ∈ [shortCall openSucceeds, shortCall openSucceeds], i.strands = false) := by
  have hrun : runCalls .little [shortCall openSucceeds, shortCall openSucceeds] quietHost =
      some [{ quietHost with lastStatsValid := true },
        { quietHost with lastStatsValid := true }] := by
    decide +kernel
  have hclose : ∀ i ∈ [shortCall openSucceeds, shortCall openSucceeds], i.ClosesCleanly := by
    simp [shortCall, Call.ClosesCleanly]
  exact ⟨hrun, promisc_restored_iff hclose hrun⟩

/-- A capture that fails because TPACKET_V3 is refused leaves the interface in promiscuous mode. -/
theorem refused_version_leaves_promisc :
    (shortCall versionRefused).ClosesCleanly ∧ quietHost.promisc = false ∧
      (rawSocketOpen (shortCall versionRefused).deviceName versionRefused quietHost).2 = none ∧
      ∃ g, runCalls .little [shortCall versionRefused] quietHost = some [g] ∧
        g.promisc = true := by
  refine ⟨⟨rfl, rfl⟩, by decide, rfl, ?_⟩
  exact ⟨⟨0x1143, ⟨0, 0⟩, false, ["setsockopt(PACKET_VERSION, TPACKET_V3)"]⟩, by decide +kernel,
    by decide⟩

end MyWireshark.Capture
