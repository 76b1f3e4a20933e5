import MyWireshark.Capture.Backend

/-! The .pcap file that run_impl writes, read back as a pcap file, against what the callback
got. -/
namespace MyWireshark.Capture
open Framing MyWireshark.Filter

def recordFormat (order : ByteOrder) : Format UInt8 Captured where
  headLen := 16
  headLen_pos := by decide
  bodyLen head := order.value ((head.drop 8).take 4)
  make head body :=
    ⟨body, .ofNat (order.value (head.take 4)), .ofNat (order.value ((head.drop 4).take 4))⟩

/-- What is in a pcap file: the snaplen of its header, its records, and the bytes behind the last
complete one. -/
structure PcapContents where
  snaplen : Nat
  records : List Captured
  tail : List UInt8
  deriving DecidableEq

def fileOrder (bs : List UInt8) : Option ByteOrder :=
  if ByteOrder.little.value (bs.take 4) = pcapMagicMicroseconds then some .little
  else if ByteOrder.big.value (bs.take 4) = pcapMagicMicroseconds then some .big
  else none

/-- A pcap file, `none` for one without a complete header. -/
def readPcap (bs : List UInt8) : Option PcapContents :=
  if bs.length < 24 then none
  else do
    let order ← fileOrder bs
    let (records, tail) := (recordFormat order).read (bs.drop 24)
    return ⟨order.value ((bs.drop 16).take 4), records, tail⟩

def recordBytes (order : ByteOrder) (p : Captured) : List UInt8 :=
  (recordHeader p).bytes order ++ p.data

def Turn.Written (t : Turn) : Prop := 16 ≤ t.room.header ∧ t.packet.data.length ≤ t.room.data

instance (t : Turn) : Decidable t.Written := inferInstanceAs (Decidable (_ ∧ _))

def Room.accepted (room : Room) : Nat := if 16 ≤ room.header then 16 + room.data else room.header

section
variable (order : ByteOrder)

@[simp] theorem length_recordBytes (p : Captured) :
    (recordBytes order p).length = 16 + p.data.length := by
  simp [recordBytes]

theorem recordBytes_encodes {p : Captured} (h : p.data.length < 2 ^ 32) :
    (recordFormat order).Encodes (recordBytes order p) p := by
  have hlen : (UInt32.ofNat p.data.length).toNat = p.data.length := by
    rw [UInt32.toNat_ofNat', Nat.mod_eq_of_lt h]
  have hincl : order.value (order.bytes p.data.length 4) = p.data.length := order.value_bytes h
  refine ⟨?_, ?_, ?_⟩
  · simp [recordFormat]
  · simp only [Format.size, recordFormat, recordBytes, recordHeader, PcapRecordHeader.bytes, hlen]
    simp [List.take_append, List.drop_append, List.take_of_length_le, List.drop_of_length_le,
      hincl]
    omega
  · simp only [recordFormat, recordBytes, recordHeader, PcapRecordHeader.bytes]
    simp [List.take_append, List.drop_append, List.take_of_length_le, List.drop_of_length_le]

theorem readPcap_globalHeader (rest : List UInt8) :
    readPcap (pcapGlobalHeader.bytes order ++ rest) =
      some ⟨rawSocketMaxFrame.toNat, ((recordFormat order).read rest).1,
        ((recordFormat order).read rest).2⟩ := by
  have hlen : ¬(pcapGlobalHeader.bytes order ++ rest).length < 24 := by simp
  have horder : fileOrder (pcapGlobalHeader.bytes order ++ rest) = some order := by
    rw [fileOrder, List.take_append_of_le_length (by simp)]
    cases order <;> decide
  have hsnaplen : ((pcapGlobalHeader.bytes order ++ rest).drop 16).take 4 =
      ((pcapGlobalHeader.bytes order).drop 16).take 4 := by
    rw [List.drop_append_of_le_length (by simp), List.take_append_of_le_length (by simp)]
  have hvalue : order.value (((pcapGlobalHeader.bytes order).drop 16).take 4) =
      rawSocketMaxFrame.toNat := by
    cases order <;> decide
  rw [readPcap, if_neg hlen, horder, hsnaplen]
  simp [hvalue]

theorem writePcapRecord_eq (f : File) (t : Turn) :
    writePcapRecord order f t.packet t.room =
      (f ++ (recordBytes order t.packet).take t.room.accepted, if t.Written then 0 else -1) := by
  have hempty : (recordHeader t.packet).inclLen > 0 ↔ 0 < t.packet.data.length := by
    have hsmall : t.packet.data.length < 2 ^ 32 := Nat.lt_of_le_of_lt t.small (by decide)
    rw [recordHeader, gt_iff_lt, UInt32.lt_iff_toNat_lt, UInt32.toNat_ofNat',
      Nat.mod_eq_of_lt hsmall]
    rfl
  simp only [writePcapRecord, fwrite, hempty, length_recordHeader, Turn.Written, recordBytes]
  by_cases hhead : 16 ≤ t.room.header
  · have haccepted : t.room.accepted = 16 + t.room.data := if_pos hhead
    rw [haccepted]
    by_cases hdata : 0 < t.packet.data.length
    · by_cases hfit : t.packet.data.length ≤ t.room.data <;>
        simp [hhead, hdata, hfit, List.take_append, List.take_of_length_le]
    · have hnil : t.packet.data = [] := List.length_eq_zero_iff.mp (by omega)
      simp [hhead, hnil, List.take_of_length_le]
  · have haccepted : t.room.accepted = t.room.header := if_neg hhead
    rw [haccepted, List.take_append_of_le_length (by simp; omega)]
    simp [hhead]

theorem accepted_lt {t : Turn} (h : ¬t.Written) :
    t.room.accepted < (recordBytes order t.packet).length := by
  rw [Turn.Written] at h
  rw [Room.accepted, length_recordBytes]
  split <;> omega

theorem recordBytes_of_written {t : Turn} (h : t.Written) :
    (recordBytes order t.packet).take t.room.accepted = recordBytes order t.packet := by
  apply List.take_of_length_le
  rw [Room.accepted, if_pos h.1, length_recordBytes]
  exact Nat.add_le_add_left h.2 16

variable {order} {last : Int} {h : Host} {f : File} {ts : List Turn}

theorem Turn.write_of_written {t : Turn} (ht : t.Written) :
    t.write order (some f) = (some (f ++ recordBytes order t.packet), 0) := by
  rw [Turn.write, writePcapRecord_eq, recordBytes_of_written order ht, if_pos ht]
  rfl

theorem receiveLoop_written (hts : ∀ t ∈ ts, t.Written) :
    receiveLoop order last h (some f) ts =
      { loopEnd last h (some (f ++ ts.flatMap fun t => recordBytes order t.packet)) with
        passed := ts.map Turn.packet } := by
  induction ts generalizing f with
  | nil =>
    rw [List.flatMap_nil, List.append_nil, receiveLoop, loopEnd]
    split <;> rfl
  | cons t ts ih =>
    have hlater := @ih (f ++ recordBytes order t.packet) fun s hs =>
      hts s (List.mem_cons_of_mem t hs)
    simp [receiveLoop, Turn.write_of_written (hts t List.mem_cons_self), hlater]

theorem receiveLoop_torn {pre post : List Turn} {t : Turn} (hpre : ∀ s ∈ pre, s.Written)
    (ht : ¬t.Written) :
    receiveLoop order last h (some f) (pre ++ t :: post) =
      ⟨h.perror "fwrite",
        some (f ++ (pre.flatMap fun s => recordBytes order s.packet) ++
          (recordBytes order t.packet).take t.room.accepted),
        pre.map Turn.packet, -1⟩ := by
  induction pre generalizing f with
  | nil => simp [receiveLoop, Turn.write, writePcapRecord_eq, ht]
  | cons s pre ih =>
    have hlater := @ih (f ++ recordBytes order s.packet) fun r hr =>
      hpre r (List.mem_cons_of_mem s hr)
    simp [receiveLoop, Turn.write_of_written (hpre s List.mem_cons_self), hlater]

theorem Turn.encodes (t : Turn) :
    (recordFormat order).Encodes (recordBytes order t.packet) t.packet :=
  recordBytes_encodes order (Nat.lt_of_le_of_lt t.small (by decide))

end

structure PcapAgrees (order : ByteOrder) (passed : List Captured) (pcap : PcapContents) : Prop where
  records : pcap.records = passed
  snaplen : ∀ p ∈ pcap.records, p.data.length ≤ pcap.snaplen
  /-- what is left is a part of one record, which does not announce more than snaplen either -/
  tail : pcap.tail = [] ∨ ∃ p k, p.data.length ≤ pcap.snaplen ∧
    k < (recordBytes order p).length ∧ pcap.tail = (recordBytes order p).take k

section
variable {order : ByteOrder} {ts : List Turn}

theorem small_of_mem {p : Captured} (h : p ∈ ts.map Turn.packet) :
    p.data.length ≤ rawSocketMaxFrame.toNat := by
  obtain ⟨t, -, rfl⟩ := List.mem_map.mp h
  exact t.small

theorem readPcap_turns (rest : List UInt8) :
    readPcap (pcapGlobalHeader.bytes order ++ (ts.flatMap fun t => recordBytes order t.packet) ++
        rest) =
      some ⟨rawSocketMaxFrame.toNat, ts.map Turn.packet ++ ((recordFormat order).read rest).1,
        ((recordFormat order).read rest).2⟩ := by
  have hts : ∀ t ∈ ts, (recordFormat order).Encodes (recordBytes order t.packet) t.packet :=
    fun t _ => t.encodes
  rw [List.append_assoc, readPcap_globalHeader, Format.read_flatMap hts]

/-- A loop is ended by the first write that fails, if there is one. -/
theorem written_or_torn (ts : List Turn) :
    (∀ t ∈ ts, t.Written) ∨
      ∃ pre t post, ts = pre ++ t :: post ∧ (∀ s ∈ pre, s.Written) ∧ ¬t.Written := by
  cases hfind : ts.find? fun t => !decide t.Written with
  | none =>
    left
    simpa using hfind
  | some t =>
    right
    obtain ⟨ht, pre, post, hts, hpre⟩ := List.find?_eq_some_iff_append.mp hfind
    exact ⟨pre, t, post, hts, by simpa using hpre, by simpa using ht⟩

theorem receiveLoop_agrees (order : ByteOrder) (last : Int) (h : Host) (ts : List Turn) :
    ∃ bytes pcap,
      (receiveLoop order last h (some (pcapGlobalHeader.bytes order)) ts).file = some bytes ∧
      readPcap bytes = some pcap ∧
      PcapAgrees order
        (receiveLoop order last h (some (pcapGlobalHeader.bytes order)) ts).passed pcap := by
  obtain hts | ⟨pre, t, post, rfl, hpre, ht⟩ := written_or_torn ts
  · have hread := @readPcap_turns order ts []
    rw [receiveLoop_written hts]
    rw [List.append_nil, Format.read_nil, List.append_nil] at hread
    exact ⟨_, _, loopEnd_file .., hread, rfl, fun p hp => small_of_mem hp, .inl rfl⟩
  · have hread := @readPcap_turns order pre ((recordBytes order t.packet).take t.room.accepted)
    rw [receiveLoop_torn hpre ht]
    rw [t.encodes.read_take (accepted_lt order ht), List.append_nil] at hread
    exact ⟨_, _, rfl, hread, rfl, fun p hp => small_of_mem hp,
      .inr ⟨t.packet, t.room.accepted, t.small, accepted_lt order ht, rfl⟩⟩

end

section
variable (fclose : Bool) (out : RunOut)

@[simp] theorem closePcap_file : (closePcap fclose out).file = out.file := by
  unfold closePcap
  split <;> rfl

@[simp] theorem closePcap_passed : (closePcap fclose out).passed = out.passed := by
  unfold closePcap
  split <;> rfl

theorem closePcap_result :
    (closePcap fclose out).result = if out.file.isSome && !fclose then -1 else out.result := by
  unfold closePcap
  split <;> rfl

end

structure Records (deviceName : Option (List Char)) (args : RunArgs) (c : RunCalls) (h : Host) :
    Prop where
  filter : ∃ prog, compileFilter args = some (.ok prog) ∧ (prog.filter.isSome → c.attach = true)
  opened : (rawSocketOpen deviceName c.opening h).2.isSome
  path : ∃ path, args.pcapOutputPath = some path ∧ isEmpty path = false
  fopen : c.fopen = true

section
variable {order : ByteOrder} {deviceName : Option (List Char)} {args : RunArgs} {c : RunCalls}
  {h : Host}

theorem capture_eq (order : ByteOrder) (ctx : OpenedCtx) (c : RunCalls) (h : Host)
    (file : Option File) :
    ∃ g, capture order ctx c h file =
      let out := closePcap c.fclose (receiveLoop order c.last g file c.turns)
      { out with host := rawSocketClose (some ctx) c.closing (readStats c.stats out.host) } :=
  ⟨_, rfl⟩

theorem runImpl_of_records (hrec : Records deviceName args c h) :
    ∃ ctx g, runImpl order deviceName args c h =
      some (if 24 ≤ c.headerRoom then capture order ctx c g (some (pcapGlobalHeader.bytes order))
        else ⟨rawSocketClose (some ctx) c.closing (g.perror "fwrite"),
          some ((pcapGlobalHeader.bytes order).take c.headerRoom), [], -1⟩) := by
  obtain ⟨prog, hprog, hattach⟩ := hrec.filter
  obtain ⟨path, hpath, hne⟩ := hrec.path
  obtain ⟨ctx, hctx⟩ := Option.isSome_iff_exists.mp hrec.opened
  have hskip : (prog.filter.isSome && !c.attach) = false := by
    cases hsome : prog.filter.isSome with
    | false => rfl
    | true => simp [hattach hsome]
  refine ⟨ctx, (rawSocketOpen deviceName c.opening h).1, ?_⟩
  rw [runImpl, hprog]
  generalize rawSocketOpen deviceName c.opening h = opened at hctx
  obtain ⟨g, opened⟩ := opened
  obtain rfl := hctx
  change (if (prog.filter.isSome && !c.attach) = true then _ else _) = _
  rw [hskip, if_neg Bool.false_ne_true]
  by_cases hroom : 24 ≤ c.headerRoom <;>
    simp [openPcap, hpath, hne, hrec.fopen, writePcapGlobalHeader, fwrite, hroom,
      List.take_of_length_le]

/-- The .pcap file and the callback see the same frames: all of them up to the first write that
fails. -/
theorem pcap_agrees_with_callback (hrec : Records deviceName args c h) :
    ∃ out bytes, runImpl order deviceName args c h = some out ∧ out.file = some bytes ∧
      (c.headerRoom < 24 → readPcap bytes = none ∧ out.passed = [] ∧ out.result = -1) ∧
      (24 ≤ c.headerRoom →
        (∃ pcap, readPcap bytes = some pcap ∧ PcapAgrees order out.passed pcap) ∧
        (∀ pre t post, c.turns = pre ++ t :: post → (∀ s ∈ pre, s.Written) → ¬t.Written →
          out.passed = pre.map Turn.packet ∧ out.result = -1) ∧
        ((∀ t ∈ c.turns, t.Written) → out.passed = c.turns.map Turn.packet ∧
          (out.result = 0 ↔ c.last = rawSocketStopped ∧ c.fclose = true))) := by
  obtain ⟨ctx, g, hrun⟩ := @runImpl_of_records order _ _ _ _ hrec
  by_cases hroom : 24 ≤ c.headerRoom
  · rw [if_pos hroom] at hrun
    obtain ⟨g', hcapture⟩ := capture_eq order ctx c g (some (pcapGlobalHeader.bytes order))
    obtain ⟨bytes, pcap, hfile, hread, hagrees⟩ := receiveLoop_agrees order c.last g' c.turns
    have hresult := closePcap_result c.fclose
      (receiveLoop order c.last g' (some (pcapGlobalHeader.bytes order)) c.turns)
    rw [hfile] at hresult
    rw [hcapture] at hrun
    refine ⟨_, bytes, hrun, by simp [hfile], fun h => absurd hroom (by omega),
      fun _ => ⟨?_, ?_, ?_⟩⟩
    · exact ⟨pcap, hread, by simpa using hagrees⟩
    · intro pre t post hturns hpre ht
      rw [hturns, receiveLoop_torn hpre ht] at hresult ⊢
      exact ⟨by simp, by simpa using hresult⟩
    · intro hwritten
      rw [receiveLoop_written hwritten] at hresult ⊢
      refine ⟨by simp, ?_⟩
      dsimp only at hresult ⊢
      rw [hresult]
      split_ifs <;> simp_all
  · rw [if_neg hroom] at hrun
    refine ⟨_, _, hrun, rfl, fun _ => ⟨?_, rfl, rfl⟩, fun h => absurd h hroom⟩
    rw [readPcap, if_pos]
    simp
    omega

end

/-- Two frames, of which the second is cut off behind its record header. -/
def fullDisk : RunCalls where
  opening := ⟨true, true, true, true, true, true, true, true⟩
  attach := true
  fopen := true
  headerRoom := 24
  signal := true
  turns := [⟨⟨[1, 2, 3], 7, 8⟩, ⟨16, 3⟩, by decide⟩, ⟨⟨[4, 5], 9, 10⟩, ⟨16, 1⟩, by decide⟩]
  last := rawSocketStopped
  last_neg := rawSocketStopped_neg
  fclose := true
  stats := none
  closing := ⟨true, true⟩

theorem pcap_agrees_with_callback_fullDisk :
    ∃ out bytes, runImpl .little (some "eth0".toList) ⟨none, some "out.pcap".toList, true⟩ fullDisk
        ⟨0, ⟨0, 0⟩, false, []⟩ = some out ∧ out.file = some bytes ∧
      (∃ pcap, readPcap bytes = some pcap ∧ PcapAgrees .little out.passed pcap) ∧
      out.passed = [⟨[1, 2, 3], 7, 8⟩] ∧ out.result = -1 := by
  have hrec : Records (some "eth0".toList) ⟨none, some "out.pcap".toList, true⟩ fullDisk
      ⟨0, ⟨0, 0⟩, false, []⟩ :=
    ⟨⟨_, rfl, by decide⟩, rfl, ⟨_, rfl, by decide⟩, rfl⟩
  obtain ⟨out, bytes, hrun, hfile, -, hloop⟩ := @pcap_agrees_with_callback .little _ _ _ _ hrec
  obtain ⟨hagrees, htorn, -⟩ := hloop (by decide)
  have hcut := htorn [⟨⟨[1, 2, 3], 7, 8⟩, ⟨16, 3⟩, by decide⟩] ⟨⟨[4, 5], 9, 10⟩, ⟨16, 1⟩, by decide⟩
    [] rfl (by decide) (by decide)
  exact ⟨out, bytes, hrun, hfile, hagrees, hcut⟩

end MyWireshark.Capture
