import MyWireshark.Capture.FilterWindow
import MyWireshark.Capture.PcapFile

/-! The two lengths of a .pcap record, against the frame that the record is of. The length on
the wire, tp_len, stands in the packet header of the ring; nothing reads it. -/
namespace MyWireshark.Capture
open Transition Framing MyWireshark.Filter

def Recv.captured (r : Recv) : Captured :=
  ⟨r.buf, r.tsSeconds.getD 0, r.tsMicroseconds.getD 0⟩

def Pc.args : Pc → Option RecvArgs
  | .idle => none
  | .top a | .look a | .poll a | .load a | .skip a | .skipNext a | .copy a => some a
  | .count got | .release got | .next got => some got.args

structure FromLoop (s : RingState) : Prop where
  now : ∀ a ∈ s.pc.args, a = recvArgs
  before : ∀ r ∈ s.recvs, r.args = recvArgs

namespace FromLoop
variable {s : RingState}

theorem goto (h : FromLoop s) {pc : Pc} (hpc : ∀ a ∈ pc.args, a = recvArgs) :
    FromLoop (s.goto pc) := ⟨hpc, h.before⟩

theorem finish (h : FromLoop s) {r : Recv} (hr : r.args = recvArgs) : FromLoop (s.finish r) where
  now := fun _ ha => by cases ha
  before := by
    intro r' hr'
    obtain hold | hnew := List.mem_append.mp hr'
    · exact h.before r' hold
    · rw [List.mem_singleton.mp hnew]
      exact hr

theorem change (h : FromLoop s) (blocks : Nat → Block) (ctx : RawSocketCtx) :
    FromLoop { s with blocks := blocks, ctx := ctx } := ⟨h.now, h.before⟩

theorem moved {t : RingState} (h : FromLoop s) (hmoved : Moved s t) : FromLoop t := by
  have hnow := h.now
  cases hmoved with
  | outside => exact h
  | entered hpc | newBlock hpc | noBlock hpc | sameBlock hpc | polled hpc | skipped hpc | left hpc
  | copied hpc | last hpc | released hpc =>
    rw [hpc] at hnow
    exact ⟨hnow, h.before⟩
  | loaded hpc hnext =>
    rw [hpc] at hnow
    obtain ⟨-, rfl⟩ | ⟨-, rfl⟩ := hnext <;> exact ⟨hnow, h.before⟩
  | stopped hpc | pollError hpc =>
    rw [hpc] at hnow
    exact h.finish (hnow _ rfl)
  | counted hpc | returned hpc =>
    rw [hpc] at hnow
    exact (h.change s.blocks _).finish (hnow _ rfl)

end FromLoop

theorem runStep_ring {args : RunArgs} {s t : RunState} {ok : Bool}
    (hstep : s.runStep args ok = some t) :
    t.ring = s.ring ∨ t.ring = s.ring.rawSocketRecv recvArgs ∨ t.ring = s.ring.recvStep !ok := by
  cases ran_of_runStep hstep with
  | setup _ _ hring => exact .inl hring
  | call => exact .inr (.inl rfl)
  | receive => exact .inr (.inr rfl)
  | _ => exact .inl rfl

section
variable {args : RunArgs} {s : RunState}

theorem carried_of_reachable (h : (runSystem args).Reachable s) : Carried s := by
  apply h.invariant
  · intro s hs
    exact .start hs
  · intro s t _ hinv hstep
    cases hstep with
    | run ok hrun => exact hinv.run hrun
    | stop => exact hinv.requestStop
    | arrive wire sec nsec hup => exact hinv.arrive wire sec nsec
    | fill k b hup hk hb => exact hinv.ringStep (.fill k b hk hb) rfl rfl rfl
    | publish b hup hk hb hfilling => exact hinv.publish hk hb hfilling

theorem fromLoop_of_reachable (h : (runSystem args).Reachable s) : FromLoop s.ring := by
  apply h.invariant
  · intro s hs
    refine ⟨?_, ?_⟩
    · rw [hs.ring.pc]
      exact fun _ ha => by cases ha
    · rw [hs.ring.recvs]
      exact fun _ hr => by cases hr
  · intro s t _ hinv hstep
    cases hstep with
    | run ok hrun =>
      obtain hsame | hcall | hrecv := runStep_ring hrun
      · rw [hsame]
        exact hinv
      · rw [hcall]
        exact hinv.goto fun a ha => (Option.some.inj ha).symm
      · rw [hrecv]
        exact hinv.moved (moved_recvStep _ _)
    | stop =>
      unfold RunState.requestStopImpl
      split
      · exact hinv.change _ _
      · exact hinv
    | arrive wire sec nsec hup =>
      unfold RunState.arrive
      split <;> exact hinv
    | fill k b hup hk hb => exact hinv.change _ _
    | publish b hup hk hb hfilling => exact ⟨hinv.now, hinv.before⟩

theorem Carried.received_le (h : Carried s) :
    (framesOf s.ring.recvs).length ≤ s.ring.published.length := by
  obtain ⟨given, pending, c, hring⟩ := ringInv_of_reachable h.ring
  obtain ⟨taken, rest, hpub, hdelivered⟩ := hring.received_first
  calc (framesOf s.ring.recvs).length
      = taken.length := hdelivered.length_eq.symm
    _ ≤ (taken ++ rest).length := by rw [List.length_append]; exact Nat.le_add_right _ _
    _ = s.ring.published.length := by rw [hpub]

theorem Carried.record_frame (h : Carried s) {k : Nat} {r : Recv} (hr : s.written[k]? = some r) :
    ∃ e, s.entered[k]? = some e ∧ s.ring.published[k]? = some e.frame ∧ Delivered e.frame r ∧
      r ∈ s.ring.recvs := by
  have hpre := h.flow.prefixes.2
  obtain ⟨src, ⟨more, hmore⟩, hdelivered⟩ := h.comesFrom hpre
  obtain ⟨hk, rfl⟩ := List.getElem?_eq_some_iff.mp hr
  have hsrc : k < src.length := by
    rw [hdelivered.length_eq]
    exact hk
  have hpub : k < s.ring.published.length :=
    Nat.lt_of_lt_of_le hk (hpre.length_le.trans h.received_le)
  have hentered : s.entered[k]? = some src[k] := by
    rw [← hmore, List.getElem?_append_left hsrc, List.getElem?_eq_getElem hsrc]
  refine ⟨src[k], hentered, ?_, hdelivered.get hsrc hk, ?_⟩
  · rw [← List.getElem?_append_left hpub, ← h.entered, List.getElem?_map, hentered]
    rfl
  · exact List.mem_of_mem_filter (hpre.subset (List.getElem_mem hk))

end

theorem Delivered.length_buf {f : Frame} {r : Recv} (h : Delivered f r)
    (hargs : r.args = recvArgs) :
    r.buf.length = min f.bytes.length rawSocketMaxFrame.toNat := by
  rw [h.buf, hargs, List.length_take, Nat.min_comm]
  rfl

theorem writePcapRecord_full {order : ByteOrder} {file : File} {p : Captured} {room : Room}
    (hsmall : p.data.length ≤ rawSocketMaxFrame.toNat)
    (hdone : (writePcapRecord order file p room).2 = 0) :
    (writePcapRecord order file p room).1 = file ++ ((recordHeader p).bytes order ++ p.data) := by
  have heq := writePcapRecord_eq order file ⟨p, room, hsmall⟩
  by_cases hwritten : Turn.Written ⟨p, room, hsmall⟩
  · rw [heq, recordBytes_of_written order hwritten]
    rfl
  · rw [heq, if_neg hwritten] at hdone
    cases hdone

theorem recordHeader_lengths {p : Captured} (hsmall : p.data.length ≤ rawSocketMaxFrame.toNat) :
    (recordHeader p).inclLen.toNat = p.data.length ∧
      (recordHeader p).origLen.toNat = p.data.length := by
  have hfits : (UInt32.ofNat p.data.length).toNat = p.data.length := by
    rw [UInt32.toNat_ofNat', Nat.mod_eq_of_lt (Nat.lt_of_le_of_lt hsmall (by decide))]
  exact ⟨hfits, hfits⟩

structure RecordOf (f : Frame) (r : Recv) : Prop where
  written : ∀ order file room, (writePcapRecord order file r.captured room).2 = 0 →
    (writePcapRecord order file r.captured room).1 =
      file ++ ((recordHeader r.captured).bytes order ++ r.buf)
  follow : r.buf.length = (recordHeader r.captured).inclLen.toNat
  inclLen : (recordHeader r.captured).inclLen.toNat = min f.bytes.length rawSocketMaxFrame.toNat
  origLen : (recordHeader r.captured).origLen.toNat = min f.bytes.length rawSocketMaxFrame.toNat

theorem Delivered.recordOf {f : Frame} {r : Recv} (h : Delivered f r) (hargs : r.args = recvArgs) :
    RecordOf f r := by
  have hlen := h.length_buf hargs
  have hsmall : r.captured.data.length ≤ rawSocketMaxFrame.toNat := by
    rw [Recv.captured, hlen]
    exact Nat.min_le_right _ _
  obtain ⟨hincl, horig⟩ := recordHeader_lengths hsmall
  exact ⟨fun _ _ _ => writePcapRecord_full hsmall, hincl.symm, hincl.trans hlen, horig.trans hlen⟩

theorem recordOf_of_reachable {args : RunArgs} {s : RunState} (h : (runSystem args).Reachable s)
    {k : Nat} {r : Recv} (hr : s.written[k]? = some r) :
    ∃ e, s.entered[k]? = some e ∧ s.ring.published[k]? = some e.frame ∧ RecordOf e.frame r := by
  obtain ⟨e, hentered, hpub, hdelivered, hmem⟩ := (carried_of_reachable h).record_frame hr
  exact ⟨e, hentered, hpub, hdelivered.recordOf ((fromLoop_of_reachable h).before r hmem)⟩

/-- In every run, the record of a frame has incl_len = min(tp_snaplen, 65536), the number of the
data bytes that follow. Its orig_len is the same number: the length on the wire, tp_len, of a
frame of which nothing was cut off, and of no other. -/
theorem record_lengths_iff {args : RunArgs} {s : RunState} (h : (runSystem args).Reachable s)
    {k : Nat} {r : Recv} (hr : s.written[k]? = some r) :
    ∃ e, s.entered[k]? = some e ∧ s.ring.published[k]? = some e.frame ∧
      (∀ order file room, (writePcapRecord order file r.captured room).2 = 0 →
        (writePcapRecord order file r.captured room).1 =
          file ++ ((recordHeader r.captured).bytes order ++ r.buf)) ∧
      r.buf.length = (recordHeader r.captured).inclLen.toNat ∧
      (recordHeader r.captured).inclLen.toNat =
        min e.frame.bytes.length rawSocketMaxFrame.toNat ∧
      ∀ tpLen : UInt32, e.frame.bytes.length ≤ tpLen.toNat →
        ((recordHeader r.captured).origLen = tpLen ↔
          tpLen.toNat = min e.frame.bytes.length rawSocketMaxFrame.toNat) := by
  obtain ⟨e, hentered, hpub, hrec⟩ := recordOf_of_reachable h hr
  refine ⟨e, hentered, hpub, hrec.written, hrec.follow, hrec.inclLen, ?_⟩
  intro tpLen _
  rw [← UInt32.toNat_inj, hrec.origLen, eq_comm]

/- A run without a filter, with one frame of zero bytes. -/

def blankBlock (n : UInt32) : Block where
  blockStatus := tpStatusUser
  numPkts := 1
  offsetToFirstPkt := 48
  hdr := fun _ => ⟨0, 0, 0, n, 48⟩
  byte := fun _ => 0

def plainArgs : RunArgs := ⟨none, some "out.pcap".toList, true⟩

def ringReady : RunState := { captureStart with pc := .mapRing, ringUp := true }

/-- The frame arrives as soon as there is a ring, and run_impl goes on for `steps` steps. -/
def blankFor (n : UInt32) (steps : Nat) : Option RunState :=
  let s := ringReady.arrive (List.replicate n.toNat 0) 0 0
  runFor plainArgs steps { s with ring := s.ring.publish (blankBlock n), filling := [] }

/-- The record of the frame is the last thing that happens. -/
def blankRun (n : UInt32) : Option RunState := blankFor n 15

theorem blankBlock_frames (n : UInt32) :
    (blankBlock n).frames = [⟨List.replicate n.toNat 0, 0, 0⟩] := by
  have hbytes : ∀ start, (blankBlock n).bytes start n.toNat = List.replicate n.toNat 0 := by
    intro start
    simp [Block.bytes, blankBlock]
  show [(⟨(blankBlock n).bytes _ n.toNat, 0, 0⟩ : Frame)] = _
  rw [hbytes]

theorem runFor_entered {args : RunArgs} {n : Nat} {s t : RunState}
    (hrun : runFor args n s = some t) : t.entered = s.entered := by
  induction n generalizing s with
  | zero =>
    obtain rfl := Option.some.inj hrun
    rfl
  | succ n ih =>
    obtain ⟨u, hstep, hrest⟩ := Option.bind_eq_some_iff.mp hrun
    exact (ih hrest).trans (runStep_entered hstep)

theorem blankBlock_published {n : UInt32} (hn : (blankBlock n).PacketFits 48) :
    (blankBlock n).Published where
  user := (by decide : (tpStatusUser &&& tpStatusUser != 0) = true)
  fits := ⟨hn, trivial⟩

theorem blankFor_reachable {n : UInt32} {steps : Nat} {t : RunState}
    (hn : (blankBlock n).PacketFits 48) (hrun : blankFor n steps = some t) :
    (runSystem plainArgs).Reachable t := by
  have hstart : ((runSystem plainArgs).restrict fun _ _ => True).Reachable captureStart :=
    .init captureStart_start
  have hready := @reachable_runFor _ _ _ ringReady (fun _ _ _ => trivial) 3 hstart rfl
  have hframe := reachable_oneFrame (fun _ _ _ => trivial) hready rfl rfl rfl rfl trivial
    (blankBlock_published hn) (blankBlock_frames n)
  exact (reachable_runFor (fun _ _ _ => trivial) hframe hrun).of_restrict

theorem blankRun_entered {n : UInt32} {t : RunState} (hrun : blankRun n = some t) {e : Entered}
    (he : t.entered[0]? = some e) : e.wire.length = n.toNat ∧ e.frame.bytes.length = n.toNat := by
  rw [runFor_entered hrun] at he
  obtain rfl : _ = e := Option.some.inj he
  simp

theorem blankRun_record {n : UInt32} (hn : (blankBlock n).PacketFits 48)
    (hone : (blankRun n).map (fun t => t.written.length) = some 1) :
    ∃ t r, (runSystem plainArgs).Reachable t ∧ t.written[0]? = some r ∧
      ∀ e, t.entered[0]? = some e → e.wire.length = n.toNat ∧ e.frame.bytes.length = n.toNat := by
  obtain ⟨t, hrun, hlen⟩ := Option.map_eq_some_iff.mp hone
  obtain ⟨r, hr⟩ := List.length_eq_one_iff.mp hlen
  exact ⟨t, r, blankFor_reachable hn hrun, by rw [hr]; rfl, fun e => blankRun_entered hrun⟩

theorem record_lengths_iff_blank :
    ∃ t r, (runSystem plainArgs).Reachable t ∧ t.written[0]? = some r ∧
      (recordHeader r.captured).inclLen = 14 ∧ (recordHeader r.captured).origLen = 14 := by
  obtain ⟨t, r, hreach, hr, hentered⟩ := @blankRun_record 14 (by decide) (by decide +kernel)
  obtain ⟨e, he, -, -, -, hincl, horig⟩ := record_lengths_iff hreach hr
  rw [(hentered e he).2] at hincl horig
  exact ⟨t, r, hreach, hr, UInt32.toNat_inj.mp hincl, (horig 14 (by decide)).mpr rfl⟩

/-- Of 65550 bytes on the wire, as many as the loopback interface sends in one frame, the buffer
takes 65536, and these are what the record gives for the length on the wire. -/
theorem cut_frame_keeps_no_wire_length :
    ∃ t r e, (runSystem plainArgs).Reachable t ∧ t.written[0]? = some r ∧
      t.entered[0]? = some e ∧ t.ring.published[0]? = some e.frame ∧
      e.wire.length = 65550 ∧ e.frame.bytes.length = 65550 ∧
      (recordHeader r.captured).inclLen = 65536 ∧ (recordHeader r.captured).origLen = 65536 := by
  obtain ⟨t, r, hreach, hr, hentered⟩ := @blankRun_record 65550 (by decide) (by decide +kernel)
  obtain ⟨e, he, hpub, hrec⟩ := recordOf_of_reachable hreach hr
  obtain ⟨hwire, hframe⟩ := hentered e he
  have hincl := hrec.inclLen
  have horig := hrec.origLen
  rw [hframe] at hincl horig
  exact ⟨t, r, e, hreach, hr, he, hpub, hwire, hframe, UInt32.toNat_inj.mp hincl,
    UInt32.toNat_inj.mp horig⟩

end MyWireshark.Capture
