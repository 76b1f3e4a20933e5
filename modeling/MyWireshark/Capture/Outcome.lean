import MyWireshark.Capture.WireLength

/-! The two models of run_impl against each other. However the kernel and a stop request come
between the steps of a run, a run that has returned returned what `runImpl` returns for some
answers of the operating system. -/
namespace MyWireshark.Capture
open Transition Framing CapFilter Bpf MyWireshark.Filter

def RunArgs.saves (args : RunArgs) : Bool := !(args.pcapOutputPath.map isEmpty).getD true

/-- How the receive loop ends with `result`: behind a frame that was handled, or at a record that
could not be written. -/
inductive Ending (s : RunState) : Int → Prop where
  | handled {result : Int} (hframes : framesOf s.ring.recvs = s.handed)
    (hwritten : s.written = kept s.pcapFile s.handed) (hresult : result = 0 ∨ result = -1) :
    Ending s result
  | torn {r : Recv} (hfile : s.pcapFile = true) (hframes : framesOf s.ring.recvs = s.handed ++ [r])
    (hwritten : s.written = s.handed ++ [r]) : Ending s (-1)

def pcapBytes (order : ByteOrder) (rs : List Recv) : File :=
  pcapGlobalHeader.bytes order ++ rs.flatMap fun r => recordBytes order r.captured

/-- The .pcap file of the run `s`, `none` for none at all. A write that failed has got `cut` bytes
through, or all but one. -/
inductive Leaves (order : ByteOrder) (cut : Nat) (s : RunState) (result : Int) :
    Option File → Prop where
  | unsaved (hfile : s.pcapFile = false) (hwritten : s.written = []) :
    Leaves order cut s result none
  | noHeader (hfile : s.pcapFile = true) (hwritten : s.written = []) (hhanded : s.handed = [])
    (hresult : result = -1) :
    Leaves order cut s result (some ((pcapGlobalHeader.bytes order).take (min cut 23)))
  | whole (hfile : s.pcapFile = true) (hwritten : s.written = s.handed) :
    Leaves order cut s result (some (pcapBytes order s.written))
  | torn {r : Recv} (hfile : s.pcapFile = true) (hwritten : s.written = s.handed ++ [r])
    (hresult : result = -1) :
    Leaves order cut s result (some (pcapBytes order s.handed ++
      (recordBytes order r.captured).take (min cut (15 + r.buf.length))))

/-- For some answers of the operating system, `runImpl` returns `result`, passes on the frames that
the run `s` has passed on, and leaves the file that `s` leaves. The answers to the calls at the very
end are free, and so is how much of a write that fails gets through. -/
def Returns (args : RunArgs) (s : RunState) (result : Int) : Prop :=
  ∀ (order : ByteOrder) (deviceName : List Char) (h : Host) (stats : Option CaptureStats)
    (closing : CloseCalls) (cut : Nat), ∃ c out, c.stats = stats ∧ c.closing = closing ∧
      runImpl order (some deviceName) args c h = some out ∧ out.result = result ∧
      out.passed = s.handed.map Recv.captured ∧ Leaves order cut s result out.file

def Explained (args : RunArgs) (s : RunState) : Prop :=
  match s.pc with
  | .compile => s.filterProg = ⟨0, none⟩ ∧ s.pcapFile = false
  | .openSocket | .rxRing | .mapRing | .attach =>
    compileFilter args = some (.ok s.filterProg) ∧ s.pcapFile = false
  | .openPcap => (∃ prog, compileFilter args = some (.ok prog)) ∧ s.pcapFile = false
  | .pcapHeader =>
    (∃ prog, compileFilter args = some (.ok prog)) ∧ s.pcapFile = args.saves ∧ args.saves = true
  | .activate | .loop | .receive | .writeRecord _ | .callback _ =>
    (∃ prog, compileFilter args = some (.ok prog)) ∧ s.pcapFile = args.saves
  | .closePcap result =>
    (∃ prog, compileFilter args = some (.ok prog)) ∧ s.pcapFile = args.saves ∧ Ending s result
  | .closeSocket result =>
    (∃ prog, compileFilter args = some (.ok prog)) ∧ s.pcapFile = args.saves ∧
      ∃ fclose looped, Ending s looped ∧ result = if s.pcapFile && !fclose then -1 else looped
  | .done result =>
    Returns args s result ∧
      (result = 0 → framesOf s.ring.recvs = s.handed ∧ s.pcapFile = args.saves ∧
        s.written = kept s.pcapFile s.handed)

def goodCalls (turns : List Turn) (stats : Option CaptureStats) (closing : CloseCalls) :
    RunCalls where
  opening := ⟨true, true, true, true, true, true, true, true⟩
  attach := true
  fopen := true
  headerRoom := 24
  signal := true
  turns := turns
  last := rawSocketStopped
  last_neg := rawSocketStopped_neg
  fclose := true
  stats := stats
  closing := closing

section
variable {order : ByteOrder} {args : RunArgs} {s t : RunState} {ok : Bool} {result : Int}

theorem receiveLoop_unsaved (last : Int) (h : Host) (ts : List Turn) :
    receiveLoop order last h none ts =
      { loopEnd last h none with passed := ts.map Turn.packet } := by
  induction ts with
  | nil =>
    rw [receiveLoop, loopEnd]
    split <;> rfl
  | cons t ts ih => simp [receiveLoop, Turn.write, ih]

/-- Frames of the receive loop as turns in which every write succeeds. -/
theorem written_turns {rs : List Recv} (h : ∀ r ∈ rs, r.buf.length ≤ rawSocketMaxFrame.toNat) :
    ∃ ts : List Turn, ts.map Turn.packet = rs.map Recv.captured ∧ ∀ t ∈ ts, t.Written := by
  induction rs with
  | nil => exact ⟨[], rfl, by simp⟩
  | cons r rs ih =>
    obtain ⟨ts, hpackets, hwritten⟩ := ih fun r' hr' => h r' (List.mem_cons_of_mem r hr')
    refine ⟨⟨r.captured, ⟨16, r.buf.length⟩, h r List.mem_cons_self⟩ :: ts, ?_, ?_⟩
    · rw [List.map_cons, List.map_cons, hpackets]
    · intro t ht
      obtain rfl | htail := List.mem_cons.mp ht
      · exact ⟨Nat.le_refl 16, Nat.le_refl r.buf.length⟩
      · exact hwritten t htail

theorem length_received_le (h : (runSystem args).Reachable s) {r : Recv}
    (hr : r ∈ framesOf s.ring.recvs) : r.buf.length ≤ rawSocketMaxFrame.toNat := by
  obtain ⟨given, pending, c, hring⟩ := ringInv_of_reachable (carried_of_reachable h).ring
  obtain ⟨taken, rest, -, hdelivered⟩ := hring.received_first
  obtain ⟨k, hk, rfl⟩ := List.getElem_of_mem hr
  have hframe := hdelivered.get (hdelivered.length_eq ▸ hk) hk
  have hlen := hframe.length_buf ((fromLoop_of_reachable h).before _ (List.mem_of_mem_filter hr))
  exact hlen.le.trans (Nat.min_le_right _ _)

theorem readPcap_pcapBytes {rs : List Recv}
    (h : ∀ r ∈ rs, r.buf.length ≤ rawSocketMaxFrame.toNat) (rest : List UInt8) :
    readPcap (pcapBytes order rs ++ rest) =
      some ⟨rawSocketMaxFrame.toNat, rs.map Recv.captured ++ ((recordFormat order).read rest).1,
        ((recordFormat order).read rest).2⟩ := by
  obtain ⟨ts, hpackets, -⟩ := written_turns h
  have hbytes : (ts.flatMap fun t => recordBytes order t.packet) =
      rs.flatMap fun r => recordBytes order r.captured := by
    rw [← List.flatMap_map Turn.packet, hpackets, List.flatMap_map]
  have hread := @readPcap_turns order ts rest
  rwa [hbytes, hpackets] at hread

/-- What a reader finds in a file with a whole header: the frames passed on, and nothing behind them
if nothing went wrong. -/
theorem Leaves.reads {cut : Nat} {bytes : File} (h : Leaves order cut s result (some bytes))
    (hsmall : ∀ r ∈ s.written, r.buf.length ≤ rawSocketMaxFrame.toNat) (hlen : 24 ≤ bytes.length) :
    ∃ tail, readPcap bytes =
      some ⟨rawSocketMaxFrame.toNat, s.handed.map Recv.captured, tail⟩ ∧
      (result = 0 → tail = []) := by
  generalize hfile : some bytes = file at h
  cases h with
  | unsaved => cases hfile
  | noHeader =>
    cases hfile
    rw [List.length_take] at hlen
    omega
  | whole _ hwritten =>
    cases hfile
    have hread := @readPcap_pcapBytes order s.written hsmall []
    rw [List.append_nil, Format.read_nil, List.append_nil, hwritten] at hread
    exact ⟨[], by rw [hwritten]; exact hread, fun _ => rfl⟩
  | @torn r _ hwritten hresult =>
    cases hfile
    rw [hwritten] at hsmall
    have hlast := hsmall r (List.mem_append_right _ (List.mem_singleton_self r))
    have hencodes : (recordFormat order).Encodes (recordBytes order r.captured) r.captured :=
      recordBytes_encodes order (Nat.lt_of_le_of_lt hlast (by decide))
    have hcut : min cut (15 + r.buf.length) < (recordBytes order r.captured).length := by
      rw [length_recordBytes, Recv.captured]
      dsimp only
      omega
    have hread := @readPcap_pcapBytes order s.handed
      (fun r' hr' => hsmall r' (List.mem_append_left _ hr'))
      ((recordBytes order r.captured).take (min cut (15 + r.buf.length)))
    rw [hencodes.read_take hcut, List.append_nil] at hread
    exact ⟨_, hread, fun hzero => by rw [hzero] at hresult; cases hresult⟩

/-! The exits -/

section
variable (hnone : s.handed = [] ∧ s.written = [])
include hnone

theorem returns_invalidFilter {text : String} (hfilter : compileFilter args = some (.error text))
    (hfile : s.pcapFile = false) : Returns args s (-1) := by
  intro order deviceName h stats closing cut
  refine ⟨goodCalls [] stats closing, ⟨h.perror text, none, [], -1⟩, rfl, rfl, ?_, rfl, ?_,
    .unsaved hfile hnone.2⟩
  · rw [runImpl, hfilter]
    rfl
  · rw [hnone.1]
    rfl

theorem returns_notOpened {prog : SockFprog} (hfilter : compileFilter args = some (.ok prog))
    (opening : OpenCalls)
    (hfails : ∀ deviceName h, (rawSocketOpen (some deviceName) opening h).2 = none)
    (hfile : s.pcapFile = false) : Returns args s (-1) := by
  intro order deviceName h stats closing cut
  have hopen := hfails deviceName h
  cases hopened : rawSocketOpen (some deviceName) opening h with
  | mk g ctx =>
    rw [hopened] at hopen
    obtain rfl := hopen
    refine ⟨{ goodCalls [] stats closing with opening := opening }, ⟨g, none, [], -1⟩, rfl, rfl, ?_,
      rfl, ?_, .unsaved hfile hnone.2⟩
    · rw [runImpl, hfilter]
      simp [hopened]
    · rw [hnone.1]
      rfl

omit hnone in
theorem runImpl_opened {prog : SockFprog} {c : RunCalls} {deviceName : List Char} {h : Host}
    (hfilter : compileFilter args = some (.ok prog))
    (hopening : c.opening = ⟨true, true, true, true, true, true, true, true⟩) :
    ∃ ctx g, runImpl order (some deviceName) args c h =
      some (if prog.filter.isSome && !c.attach then
        ⟨rawSocketClose (some ctx) c.closing (g.perror "setsockopt(SO_ATTACH_FILTER)"), none, [],
          -1⟩
      else openPcap order ctx args.pcapOutputPath c g) := by
  refine ⟨⟨openCtx, (setPromisc c.opening h).2⟩,
    (setPromisc c.opening h).1, ?_⟩
  have hopen : rawSocketOpen (some deviceName) c.opening h =
      ((setPromisc c.opening h).1,
        some ⟨openCtx, (setPromisc c.opening h).2⟩) := by
    rw [hopening]
    rfl
  rw [runImpl, hfilter]
  simp only [Option.bind_eq_bind, Option.bind_some, hopen]
  split_ifs <;> rfl

theorem returns_notAttached {prog : SockFprog} (hfilter : compileFilter args = some (.ok prog))
    (hsome : prog.filter.isSome = true) (hfile : s.pcapFile = false) : Returns args s (-1) := by
  intro order deviceName h stats closing cut
  obtain ⟨ctx, g, hrun⟩ := @runImpl_opened order args prog
    { goodCalls [] stats closing with attach := false } deviceName h hfilter rfl
  rw [hsome] at hrun
  refine ⟨_, _, rfl, rfl, hrun, rfl, ?_, .unsaved hfile hnone.2⟩
  rw [hnone.1]
  rfl

theorem returns_notSaved {prog : SockFprog} (hfilter : compileFilter args = some (.ok prog))
    (hsaves : args.saves = true) : Returns args s (-1) := by
  intro order deviceName h stats closing cut
  have hpath : (args.pcapOutputPath.map isEmpty).getD true = false := by
    simpa [RunArgs.saves] using hsaves
  cases hfile : s.pcapFile with
  | false =>
    obtain ⟨ctx, g, hrun⟩ := @runImpl_opened order args prog
      { goodCalls [] stats closing with fopen := false } deviceName h hfilter rfl
    rw [goodCalls, Bool.not_true, Bool.and_false, if_neg Bool.false_ne_true, openPcap, hpath,
      if_neg Bool.false_ne_true, Bool.not_false, if_pos rfl] at hrun
    exact ⟨_, _, rfl, rfl, hrun, rfl, by rw [hnone.1]; rfl, .unsaved hfile hnone.2⟩
  | true =>
    obtain ⟨ctx, g, hrun⟩ := @runImpl_opened order args prog
      { goodCalls [] stats closing with headerRoom := min cut 23 } deviceName h hfilter rfl
    have hfails : (writePcapGlobalHeader order [] (min cut 23)).2 ≠ 0 :=
      (writePcapGlobalHeader_fails order []).mpr (by omega)
    rw [goodCalls, Bool.not_true, Bool.and_false, if_neg Bool.false_ne_true, openPcap, hpath,
      if_neg Bool.false_ne_true, Bool.not_true, if_neg Bool.false_ne_true] at hrun
    dsimp only at hrun
    rw [if_pos hfails] at hrun
    exact ⟨_, _, rfl, rfl, hrun, rfl, by rw [hnone.1]; rfl, .noHeader hfile hnone.2 hnone.1 rfl⟩

end

def lastRecv (result : Int) : Int := if result = 0 then rawSocketStopped else -1

theorem lastRecv_neg (result : Int) : lastRecv result < 0 := by
  unfold lastRecv
  split <;> decide

theorem Ending.result_eq {looped : Int} (h : Ending s looped) :
    (if lastRecv looped = rawSocketStopped then 0 else -1) = looped := by
  cases h with
  | handled _ _ hresult => obtain rfl | rfl := hresult <;> decide
  | torn => decide

def roomFor (k : Nat) : Room := if k < 16 then ⟨k, 0⟩ else ⟨16, k - 16⟩

theorem accepted_roomFor (k : Nat) : (roomFor k).accepted = k := by
  unfold roomFor Room.accepted
  split
  · rw [if_neg (by dsimp only; omega)]
  · rw [if_pos (Nat.le_refl 16)]
    dsimp only
    omega

theorem not_written_roomFor {p : Captured} {k : Nat}
    (hsmall : p.data.length ≤ rawSocketMaxFrame.toNat) (hk : k < 16 + p.data.length) :
    ¬Turn.Written ⟨p, roomFor k, hsmall⟩ := by
  unfold Turn.Written roomFor
  dsimp only
  split <;> dsimp only <;> omega

theorem Ending.loop {looped : Int} (h : Ending s looped)
    (hsmall : ∀ r ∈ framesOf s.ring.recvs, r.buf.length ≤ rawSocketMaxFrame.toNat) (cut : Nat) :
    ∃ ts : List Turn, ∀ (order : ByteOrder) (g : Host),
      let out := receiveLoop order (lastRecv looped) g
        (if s.pcapFile then some (pcapGlobalHeader.bytes order) else none) ts
      out.result = looped ∧ out.passed = s.handed.map Recv.captured ∧
        Leaves order cut s looped out.file := by
  have hresult := h.result_eq
  have hbytes : ∀ {order : ByteOrder} {rs : List Recv} {ts : List Turn},
      ts.map Turn.packet = rs.map Recv.captured →
      pcapGlobalHeader.bytes order ++ (ts.flatMap fun t => recordBytes order t.packet) =
        pcapBytes order rs := by
    intro order rs ts hpackets
    rw [← List.flatMap_map Turn.packet, hpackets, List.flatMap_map]
    rfl
  cases h with
  | handled hframes hwritten _ =>
    obtain ⟨ts, hpackets, hall⟩ := written_turns (hframes ▸ hsmall)
    refine ⟨ts, fun order g => ?_⟩
    cases hfile : s.pcapFile with
    | false =>
      rw [hfile] at hwritten
      rw [if_neg Bool.false_ne_true, receiveLoop_unsaved]
      refine ⟨(loopEnd_result ..).trans hresult, hpackets, ?_⟩
      dsimp only
      rw [loopEnd_file]
      exact .unsaved hfile hwritten
    | true =>
      rw [hfile] at hwritten
      have hsame : s.written = s.handed := hwritten
      rw [if_pos rfl, receiveLoop_written hall]
      refine ⟨(loopEnd_result ..).trans hresult, hpackets, ?_⟩
      dsimp only
      rw [loopEnd_file, hbytes hpackets, ← hsame]
      exact .whole hfile hsame
  | @torn r hsaved hframes hwritten =>
    -- one turn more than frames were passed on, and less room in it than its record takes
    obtain ⟨ts, hpackets, hall⟩ := written_turns fun r' hr' =>
      hsmall r' (hframes ▸ List.mem_append_left [r] hr')
    have hlast := hsmall r (hframes ▸ List.mem_append_right s.handed (List.mem_singleton_self r))
    refine ⟨ts ++ [⟨r.captured, roomFor (min cut (15 + r.buf.length)), hlast⟩], fun order g => ?_⟩
    have hshort : min cut (15 + r.buf.length) < 16 + r.buf.length := by omega
    rw [hsaved, if_pos rfl, receiveLoop_torn hall (not_written_roomFor hlast hshort)]
    dsimp only
    rw [accepted_roomFor, hbytes hpackets]
    exact ⟨rfl, hpackets, .torn hsaved hwritten rfl⟩

/-- An fclose that fails changes nothing about the file. -/
theorem Leaves.closed {cut : Nat} {file : Option File} {looped : Int} (fclose : Bool)
    (h : Leaves order cut s looped file) :
    Leaves order cut s (if file.isSome && !fclose then -1 else looped) file := by
  cases h with
  | unsaved hfile hwritten => exact .unsaved hfile hwritten
  | noHeader hfile hwritten hhanded hresult =>
    exact .noHeader hfile hwritten hhanded (by rw [hresult, ite_self])
  | whole hfile hwritten => exact .whole hfile hwritten
  | torn hfile hwritten hresult => exact .torn hfile hwritten (by rw [hresult, ite_self])

theorem Leaves.isSome {cut : Nat} {file : Option File} (h : Leaves order cut s result file) :
    file.isSome = s.pcapFile := by
  cases h with
  | unsaved hfile => exact hfile.symm
  | noHeader hfile | whole hfile | torn hfile => exact hfile.symm

theorem returns_captured {prog : SockFprog} (fclose : Bool) {looped : Int}
    (hreach : (runSystem args).Reachable s) (hfilter : compileFilter args = some (.ok prog))
    (hfile : s.pcapFile = args.saves) (hending : Ending s looped) :
    Returns args s (if s.pcapFile && !fclose then -1 else looped) := by
  intro order deviceName h stats closing cut
  obtain ⟨ts, hloop⟩ := hending.loop (fun r hr => length_received_le hreach hr) cut
  let c : RunCalls := { goodCalls ts stats closing with
    last := lastRecv looped
    last_neg := lastRecv_neg looped
    fclose := fclose }
  obtain ⟨ctx, g, hrun⟩ := @runImpl_opened order args prog c deviceName h hfilter rfl
  have hopened : openPcap order ctx args.pcapOutputPath c g = capture order ctx c g
      (if s.pcapFile then some (pcapGlobalHeader.bytes order) else none) := by
    rw [hfile, RunArgs.saves]
    unfold openPcap
    cases hpath : (args.pcapOutputPath.map isEmpty).getD true with
    | true => rfl
    | false => simp [c, goodCalls, writePcapGlobalHeader, fwrite, List.take_of_length_le]
  obtain ⟨g', hcapture⟩ := capture_eq order ctx c g
    (if s.pcapFile then some (pcapGlobalHeader.bytes order) else none)
  obtain ⟨out, hout⟩ : ∃ out, out = receiveLoop order c.last g'
    (if s.pcapFile then some (pcapGlobalHeader.bytes order) else none) c.turns := ⟨_, rfl⟩
  obtain ⟨hresult, hpassed, hleaves⟩ : out.result = looped ∧
      out.passed = s.handed.map Recv.captured ∧ Leaves order cut s looped out.file := by
    rw [hout]
    exact hloop order g'
  rw [← hout] at hcapture
  have hattach : (prog.filter.isSome && !c.attach) = false := Bool.and_false _
  rw [hattach, if_neg Bool.false_ne_true, hopened, hcapture] at hrun
  refine ⟨c, _, rfl, rfl, hrun, ?_, ?_, ?_⟩
  · exact (closePcap_result ..).trans (by rw [hresult, hleaves.isSome])
  · exact (closePcap_passed ..).trans hpassed
  · have hclosed := hleaves.closed fclose
    rw [hleaves.isSome] at hclosed
    dsimp only
    rw [closePcap_file]
    exact hclosed

/-! Every step -/

theorem Ending.congr (h : Ending s result) (hfile : t.pcapFile = s.pcapFile)
    (hrecvs : t.ring.recvs = s.ring.recvs) (hhanded : t.handed = s.handed)
    (hwritten : t.written = s.written) : Ending t result := by
  cases h with
  | handled hframes hkept hresult =>
    exact .handled (by rw [hrecvs, hhanded, hframes]) (by rw [hwritten, hhanded, hfile, hkept])
      hresult
  | torn hsaved hframes hkept =>
    exact .torn (hfile.trans hsaved) (by rw [hrecvs, hhanded, hframes])
      (by rw [hwritten, hhanded, hkept])

theorem Leaves.congr {cut : Nat} {file : Option File} (h : Leaves order cut s result file)
    (hfile : t.pcapFile = s.pcapFile) (hhanded : t.handed = s.handed)
    (hwritten : t.written = s.written) : Leaves order cut t result file := by
  cases h with
  | unsaved hunsaved hnone => exact .unsaved (hfile.trans hunsaved) (hwritten.trans hnone)
  | noHeader hsaved hnone hpassed hresult =>
    exact .noHeader (hfile.trans hsaved) (hwritten.trans hnone) (hhanded.trans hpassed) hresult
  | whole hsaved hsame =>
    rw [← hwritten]
    exact .whole (hfile.trans hsaved) (by rw [hwritten, hhanded, hsame])
  | torn hsaved hsame hresult =>
    rw [← hhanded]
    exact .torn (hfile.trans hsaved) (by rw [hwritten, hhanded, hsame]) hresult

theorem Returns.congr (h : Returns args s result) (hfile : t.pcapFile = s.pcapFile)
    (hhanded : t.handed = s.handed) (hwritten : t.written = s.written) : Returns args t result := by
  intro order deviceName host stats closing cut
  obtain ⟨c, out, hstats, hclosing, hrun, hresult, hpassed, hleaves⟩ :=
    h order deviceName host stats closing cut
  exact ⟨c, out, hstats, hclosing, hrun, hresult, by rw [hpassed, hhanded],
    hleaves.congr hfile hhanded hwritten⟩

theorem Explained.congr (h : Explained args s) (hpc : t.pc = s.pc)
    (hprog : t.filterProg = s.filterProg) (hfile : t.pcapFile = s.pcapFile)
    (hrecvs : t.ring.recvs = s.ring.recvs) (hhanded : t.handed = s.handed)
    (hwritten : t.written = s.written) : Explained args t := by
  have hending : ∀ {result}, Ending s result → Ending t result := fun hend =>
    hend.congr hfile hrecvs hhanded hwritten
  unfold Explained at h ⊢
  rw [hpc]
  cases hp : s.pc with
  | closePcap result =>
    rw [hp] at h
    exact ⟨h.1, hfile.trans h.2.1, hending h.2.2⟩
  | closeSocket result =>
    rw [hp] at h
    obtain ⟨hok, hsaves, fclose, looped, hend, hresult⟩ := h
    exact ⟨hok, hfile.trans hsaves, fclose, looped, hending hend, by rw [hfile, hresult]⟩
  | done result =>
    rw [hp] at h
    obtain ⟨hreturns, hall⟩ := h
    refine ⟨hreturns.congr hfile hhanded hwritten, ?_⟩
    rw [hrecvs, hhanded, hfile, hwritten]
    exact hall
  | compile | openSocket | rxRing | mapRing | attach =>
    rw [hp] at h
    dsimp only at h ⊢
    rw [hfile, hprog]
    exact h
  | _ =>
    rw [hp] at h
    dsimp only at h ⊢
    rw [hfile]
    exact h

theorem Explained.compile (h : Explained args s) (hpc : s.pc = .compile)
    (hnone : s.handed = [] ∧ s.written = []) (hstep : s.runStep args ok = some t) :
    Explained args t := by
  unfold Explained at h
  rw [hpc] at h
  obtain ⟨hprog, hfile⟩ := h
  unfold RunState.runStep at hstep
  rw [hpc] at hstep
  cases hexpr : args.bpfFilter with
  | none =>
    rw [hexpr] at hstep
    obtain rfl := Option.some.inj hstep
    refine ⟨?_, hfile⟩
    rw [compileFilter, hexpr, hprog]
  | some expr =>
    rw [hexpr] at hstep
    dsimp only at hstep
    by_cases hnul : isEmpty expr = true
    · rw [if_pos hnul] at hstep
      obtain rfl := Option.some.inj hstep
      refine ⟨?_, hfile⟩
      rw [compileFilter, hexpr, hprog]
      exact if_pos hnul
    · rw [if_neg hnul, hprog] at hstep
      obtain ⟨r, hr, hstep⟩ := Option.bind_eq_some_iff.mp hstep
      have hfilter : compileFilter args = if r.ret ≠ 0 then
          some (.error ("error: invalid filter expression \"" ++
            String.ofList (expr.takeWhile (· != '\x00')) ++ "\": " ++ r.ctx.errText.getD ""))
          else some (.ok (r.out.getD ⟨0, none⟩)) := by
        rw [compileFilter, hexpr]
        dsimp only
        rw [if_neg hnul, hr]
        rfl
      by_cases hret : r.ret ≠ 0
      · rw [if_pos hret] at hstep hfilter
        obtain rfl := Option.some.inj hstep
        exact ⟨returns_invalidFilter hnone hfilter hfile, fun hzero => by cases hzero⟩
      · rw [if_neg hret] at hstep hfilter
        obtain rfl := Option.some.inj hstep
        exact ⟨hfilter, hfile⟩

theorem Explained.opening (h : Explained args s)
    (hpc : s.pc = .openSocket ∨ s.pc = .rxRing ∨ s.pc = .mapRing)
    (hnone : s.handed = [] ∧ s.written = []) (hstep : s.runStep args ok = some t) :
    Explained args t := by
  unfold Explained at h
  unfold RunState.runStep at hstep
  obtain hpc | hpc | hpc := hpc <;> rw [hpc] at h hstep <;> obtain ⟨hfilter, hfile⟩ := h <;>
    obtain rfl := Option.some.inj hstep <;> cases ok
  · exact ⟨returns_notOpened hnone hfilter ⟨false, true, true, true, true, true, true, true⟩
      (fun _ _ => rfl) hfile, fun hzero => by cases hzero⟩
  · exact ⟨hfilter, hfile⟩
  · exact ⟨returns_notOpened hnone hfilter ⟨true, true, true, true, true, false, true, true⟩
      (fun _ _ => rfl) hfile, fun hzero => by cases hzero⟩
  · exact ⟨hfilter, hfile⟩
  · exact ⟨returns_notOpened hnone hfilter ⟨true, true, true, true, true, true, false, true⟩
      (fun _ _ => rfl) hfile, fun hzero => by cases hzero⟩
  · exact ⟨hfilter, hfile⟩

theorem Explained.attach (h : Explained args s) (hpc : s.pc = .attach)
    (hnone : s.handed = [] ∧ s.written = []) (hstep : s.runStep args ok = some t) :
    Explained args t := by
  unfold Explained at h
  unfold RunState.runStep at hstep
  rw [hpc] at h hstep
  obtain ⟨hfilter, hfile⟩ := h
  dsimp only at hstep
  by_cases hsome : s.filterProg.filter.isSome = true
  · rw [if_pos hsome] at hstep
    obtain rfl := Option.some.inj hstep
    cases ok with
    | false =>
      exact ⟨returns_notAttached hnone hfilter hsome hfile, fun hzero => by cases hzero⟩
    | true => exact ⟨⟨_, hfilter⟩, hfile⟩
  · rw [if_neg hsome] at hstep
    obtain rfl := Option.some.inj hstep
    exact ⟨⟨_, hfilter⟩, hfile⟩

theorem Explained.openPcap (h : Explained args s) (hpc : s.pc = .openPcap)
    (hnone : s.handed = [] ∧ s.written = []) (hstep : s.runStep args ok = some t) :
    Explained args t := by
  unfold Explained at h
  unfold RunState.runStep at hstep
  rw [hpc] at h hstep
  obtain ⟨⟨prog, hfilter⟩, hfile⟩ := h
  cases hpath : args.pcapOutputPath with
  | none =>
    have hsaves : args.saves = false := by rw [RunArgs.saves, hpath]; rfl
    rw [hpath] at hstep
    obtain rfl := Option.some.inj hstep
    exact ⟨⟨prog, hfilter⟩, hfile.trans hsaves.symm⟩
  | some path =>
    have hsaves : args.saves = !isEmpty path := by rw [RunArgs.saves, hpath]; rfl
    rw [hpath] at hstep
    dsimp only at hstep
    cases hempty : isEmpty path with
    | true =>
      rw [hempty, if_pos rfl] at hstep
      obtain rfl := Option.some.inj hstep
      rw [hempty] at hsaves
      exact ⟨⟨prog, hfilter⟩, hfile.trans hsaves.symm⟩
    | false =>
      rw [hempty, if_neg Bool.false_ne_true] at hstep
      obtain rfl := Option.some.inj hstep
      rw [hempty] at hsaves
      cases ok with
      | true => exact ⟨⟨prog, hfilter⟩, hsaves.symm, hsaves⟩
      | false => exact ⟨returns_notSaved hnone hfilter hsaves, fun hzero => by cases hzero⟩

theorem Explained.pcapHeader (h : Explained args s) (hpc : s.pc = .pcapHeader)
    (hnone : s.handed = [] ∧ s.written = []) (hstep : s.runStep args ok = some t) :
    Explained args t := by
  unfold Explained at h
  unfold RunState.runStep at hstep
  rw [hpc] at h hstep
  obtain ⟨⟨prog, hfilter⟩, hfile, hsaves⟩ := h
  obtain rfl := Option.some.inj hstep
  cases ok with
  | true => exact ⟨⟨prog, hfilter⟩, hfile⟩
  | false => exact ⟨returns_notSaved hnone hfilter hsaves, fun hzero => by cases hzero⟩

theorem Explained.receive (h : Explained args s) (hcarried : Carried s) (hpc : s.pc = .receive)
    (hidle : s.ring.pc = .idle) (hstep : s.runStep args ok = some t) : Explained args t := by
  unfold Explained at h
  unfold RunState.runStep at hstep
  rw [hpc] at h hstep
  rw [hidle] at hstep
  obtain ⟨hfilter, hfile⟩ := h
  obtain ⟨r, hlast, hstep⟩ := Option.bind_eq_some_iff.mp hstep
  obtain ⟨hwritten, hframes⟩ := hcarried.back hpc hidle hlast
  have hending : ∀ {result : Int}, r.ret < 0 → result = 0 ∨ result = -1 →
      Ending { s with pc := .closePcap result } result := by
    intro result hneg hresult
    have hnone : framesOf [r] = [] := by simp [framesOf, hneg]
    rw [hnone, List.append_nil] at hframes
    exact .handled hframes hwritten hresult
  by_cases hstop : r.ret = rawSocketStopped
  · rw [if_pos hstop] at hstep
    obtain rfl := Option.some.inj hstep
    exact ⟨hfilter, hfile, hending (hstop ▸ rawSocketStopped_neg) (.inl rfl)⟩
  · rw [if_neg hstop] at hstep
    by_cases hneg : r.ret < 0
    · rw [if_pos hneg] at hstep
      obtain rfl := Option.some.inj hstep
      exact ⟨hfilter, hfile, hending hneg (.inr rfl)⟩
    · rw [if_neg hneg] at hstep
      obtain rfl := Option.some.inj hstep
      exact ⟨hfilter, hfile⟩

theorem Explained.writeRecord {r : Recv} (h : Explained args s) (hcarried : Carried s)
    (hpc : s.pc = .writeRecord r) (hstep : s.runStep args ok = some t) : Explained args t := by
  have hflow := hcarried.flow
  unfold Explained at h
  unfold RunState.runStep at hstep
  rw [hpc] at h hstep hflow
  obtain ⟨hfilter, hfile⟩ := h
  obtain ⟨-, hframes, hwritten⟩ := hflow
  dsimp only at hstep
  by_cases hsaved : s.pcapFile = true
  · rw [if_pos hsaved] at hstep
    obtain rfl := Option.some.inj hstep
    cases ok with
    | true => exact ⟨hfilter, hfile⟩
    | false =>
      refine ⟨hfilter, hfile, .torn hsaved hframes ?_⟩
      show s.written ++ [r] = s.handed ++ [r]
      rw [hwritten, hsaved]
      rfl
  · rw [if_neg hsaved] at hstep
    obtain rfl := Option.some.inj hstep
    exact ⟨hfilter, hfile⟩

theorem Explained.closeSocket (hreach : (runSystem args).Reachable s) (h : Explained args s)
    (hpc : s.pc = .closeSocket result) (hstep : s.runStep args ok = some t) :
    Explained args t := by
  unfold Explained at h
  unfold RunState.runStep at hstep
  rw [hpc] at h hstep
  obtain ⟨⟨prog, hfilter⟩, hfile, fclose, looped, hending, rfl⟩ := h
  obtain rfl := Option.some.inj hstep
  have hreturns := returns_captured fclose hreach hfilter hfile hending
  refine ⟨hreturns.congr rfl rfl rfl, fun hzero => ?_⟩
  cases hending with
  | handled hframes hwritten _ => exact ⟨hframes, hfile, hwritten⟩
  | torn => split at hzero <;> cases hzero

theorem Explained.run (hreach : (runSystem args).Reachable s) (h : Explained args s)
    (hstep : s.runStep args ok = some t) : Explained args t := by
  have hcarried := carried_of_reachable hreach
  have hsetup : s.pc.setup = true → s.handed = [] ∧ s.written = [] := fun hpc =>
    (hcarried.flow.of_setup hpc).2.2
  cases hpc : s.pc with
  | compile => exact h.compile hpc (hsetup (by rw [hpc]; rfl)) hstep
  | openSocket => exact h.opening (.inl hpc) (hsetup (by rw [hpc]; rfl)) hstep
  | rxRing => exact h.opening (.inr (.inl hpc)) (hsetup (by rw [hpc]; rfl)) hstep
  | mapRing => exact h.opening (.inr (.inr hpc)) (hsetup (by rw [hpc]; rfl)) hstep
  | attach => exact h.attach hpc (hsetup (by rw [hpc]; rfl)) hstep
  | openPcap => exact h.openPcap hpc (hsetup (by rw [hpc]; rfl)) hstep
  | pcapHeader => exact h.pcapHeader hpc (hsetup (by rw [hpc]; rfl)) hstep
  | activate | loop | callback =>
    unfold Explained at h
    unfold RunState.runStep at hstep
    rw [hpc] at h hstep
    obtain rfl := Option.some.inj hstep
    exact h
  | receive =>
    by_cases hidle : s.ring.pc = .idle
    · exact h.receive hcarried hpc hidle hstep
    · cases ran_of_runStep hstep with
      | receive =>
        unfold Explained at h ⊢
        dsimp only
        rw [hpc] at h ⊢
        exact h
      | setup hpc' => rw [hpc] at hpc'; cases hpc'
      | call hpc' | record hpc' | noRecord hpc' | callback hpc' | closeSocket hpc' =>
        rw [hpc] at hpc'
        cases hpc'
      | closePcap _ hpc' => rw [hpc] at hpc'; cases hpc'
      | leave _ hidle' | frame _ hidle' => exact absurd hidle' hidle
  | writeRecord r => exact h.writeRecord hcarried hpc hstep
  | closePcap looped =>
    unfold Explained at h
    unfold RunState.runStep at hstep
    rw [hpc] at h hstep
    obtain ⟨hfilter, hfile, hending⟩ := h
    obtain rfl := Option.some.inj hstep
    exact ⟨hfilter, hfile, ok, looped, hending.congr rfl rfl rfl rfl, rfl⟩
  | closeSocket result => exact h.closeSocket hreach hpc hstep
  | done result =>
    unfold RunState.runStep at hstep
    rw [hpc] at hstep
    cases hstep

theorem explained_of_reachable (h : (runSystem args).Reachable s) : Explained args s := by
  apply h.invariant
  · intro s hs
    unfold Explained
    rw [hs.pc]
    exact ⟨hs.filterProg, hs.pcapFile⟩
  · intro s t hreach hinv hstep
    cases hstep with
    | run ok hrun => exact hinv.run hreach hrun
    | stop =>
      unfold RunState.requestStopImpl
      split
      · exact hinv.congr rfl rfl rfl rfl rfl rfl
      · exact hinv
    | arrive wire sec nsec hup =>
      unfold RunState.arrive
      split
      · exact hinv
      · exact hinv.congr rfl rfl rfl rfl rfl rfl
    | fill k b hup hk hb => exact hinv.congr rfl rfl rfl rfl rfl rfl
    | publish b hup hk hb hfilling => exact hinv.congr rfl rfl rfl rfl rfl rfl

end

def RunPc.result : RunPc → Option Int
  | .done result => some result
  | _ => none

theorem RunPc.eq_done {pc : RunPc} {result : Int} (h : pc.result = some result) :
    pc = .done result := by
  cases pc with
  | done r => rw [Option.some.inj h]
  | _ => cases h

/-- The run with one frame, stopped when its record is written. -/
def stoppedRun : Option RunState :=
  (blankRun 14).bind fun s => runFor plainArgs 6 s.requestStopImpl

/-- The run with one frame, of whose record 20 bytes can be written. -/
def tornRun : Option RunState :=
  (blankFor 14 14).bind fun s => (s.runStep plainArgs false).bind (runFor plainArgs 2)

theorem reachable_afterwards {s t : RunState} {n : Nat} (h : (runSystem plainArgs).Reachable s)
    (hrun : runFor plainArgs n s = some t) : (runSystem plainArgs).Reachable t := by
  rw [← @System.restrict_true _ (runSystem plainArgs)] at h ⊢
  exact reachable_runFor (fun _ _ _ => trivial) h hrun

theorem stoppedRun_reachable {s : RunState} (hrun : stoppedRun = some s) :
    (runSystem plainArgs).Reachable s := by
  obtain ⟨u, hblank, hrest⟩ := Option.bind_eq_some_iff.mp hrun
  exact reachable_afterwards ((blankFor_reachable (by decide) hblank).step .stop) hrest

theorem tornRun_reachable {s : RunState} (hrun : tornRun = some s) :
    (runSystem plainArgs).Reachable s := by
  obtain ⟨u, hblank, hrest⟩ := Option.bind_eq_some_iff.mp hrun
  obtain ⟨v, hfails, hrest⟩ := Option.bind_eq_some_iff.mp hrest
  have hreach := (blankFor_reachable (by decide) hblank).step (.run false hfails)
  exact reachable_afterwards hreach hrest

end MyWireshark.Capture
