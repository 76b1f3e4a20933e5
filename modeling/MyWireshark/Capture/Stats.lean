import MyWireshark.Capture.Promisc
import MyWireshark.Capture.PcapFile
import Mathlib.Data.List.Chain

/-! The statistics kept between calls of run_impl. The flag that says they are there is only
written at the end of a capture: the returns before it leave what an earlier call has put
there. -/
namespace MyWireshark.Capture
open Framing MyWireshark.Filter

def Host.stats (h : Host) : Option CaptureStats :=
  if h.lastStatsValid then some h.lastStats else none

/-- What get_last_stats should answer: the counters, or -1 and `out` as it was. -/
def statsAnswer (out : CaptureStats) : Option CaptureStats → Int × Option CaptureStats
  | some st => (0, some st)
  | none => (-1, some out)

theorem getLastStatsImpl_eq (out : CaptureStats) (h : Host) :
    getLastStatsImpl (some out) h = statsAnswer out h.stats := by
  cases hvalid : h.lastStatsValid <;> simp [getLastStatsImpl, Host.stats, statsAnswer, hvalid]

theorem statsAnswer_inj {out : CaptureStats} {a b : Option CaptureStats}
    (h : statsAnswer out a = statsAnswer out b) : a = b := by
  cases a <;> cases b <;> simp_all [statsAnswer]

/-- raw_socket_open succeeds; a failed switch to promiscuous mode is no failure. -/
def OpenCalls.succeeds (c : OpenCalls) : Bool :=
  c.socket && c.bindToDevice && c.getFlags && c.packetVersion && c.rxRing && c.mmap && c.malloc

def Call.captures (i : Call) : Bool :=
  match compileFilter i.args with
  | some (.ok prog) => i.deviceName.isSome && i.calls.opening.succeeds &&
      !(prog.filter.isSome && !i.calls.attach) && i.pcapReady
  | _ => false

def Call.counters (i : Call) : Option CaptureStats := if i.captures then i.calls.stats else none

section
variable (h : Host) (order : ByteOrder)

@[simp] theorem stats_perror (text : String) : (h.perror text).stats = h.stats := rfl

@[simp] theorem stats_readStats (stats : Option CaptureStats) :
    (readStats stats h).stats = stats := by
  cases stats <;> rfl

@[simp] theorem stats_rawSocketClose (ctx : OpenedCtx) (c : CloseCalls) :
    (rawSocketClose (some ctx) c h).stats = h.stats := by
  unfold rawSocketClose
  simp only
  split_ifs <;> rfl

theorem stats_rawSocketOpen (deviceName : Option (List Char)) (c : OpenCalls) :
    (rawSocketOpen deviceName c h).1.stats = h.stats ∧
      (rawSocketOpen deviceName c h).2.isSome = (deviceName.isSome && c.succeeds) := by
  have hswitch : (setPromisc c h).1.stats = h.stats := by
    unfold setPromisc
    split_ifs <;> rfl
  cases deviceName with
  | none => exact ⟨rfl, rfl⟩
  | some name =>
    unfold rawSocketOpen
    -- one case for each return of the source, in its order
    split_ifs <;> simp_all [OpenCalls.succeeds]

theorem stats_capture (ctx : OpenedCtx) (c : RunCalls) (file : Option File) :
    (capture order ctx c h file).host.stats = c.stats := by
  rw [capture, stats_rawSocketClose, stats_readStats]

end

theorem stats_runImpl {order : ByteOrder} {h : Host} {i : Call} {out : RunOut}
    (hrun : runImpl order i.deviceName i.args i.calls h = some out) :
    out.host.stats = if i.captures then i.calls.stats else h.stats := by
  have hspec := stats_rawSocketOpen h i.deviceName i.calls.opening
  cases returned_of_runImpl hrun with
  | invalidFilter hfilter => simp [Call.captures, hfilter]
  | notOpened hfilter hopen =>
    rw [hopen] at hspec
    simp [Call.captures, hfilter, ← hspec.2, hspec.1]
  | notReady hfilter hopen hready =>
    rw [hopen] at hspec
    have hcaptures : i.captures = false := by
      simp only [Call.captures, hfilter, Bool.and_assoc, hready, Bool.and_false]
    simp [hcaptures, hspec.1]
  | captured hfilter hopen hready =>
    rw [hopen] at hspec
    have hcaptures : i.captures = true := by
      simp only [Call.captures, hfilter, ← hspec.2, Bool.and_assoc, hready]
      rfl
    simp [hcaptures, stats_capture]

/-- Whether a call leaves its own counters: it captures, or there were none before it. -/
theorem stats_eq_counters_iff {order : ByteOrder} {h : Host} {i : Call} {out : RunOut}
    (hrun : runImpl order i.deviceName i.args i.calls h = some out) :
    out.host.stats = i.counters ↔ (h.stats.isSome → i.captures = true) := by
  rw [stats_runImpl hrun, Call.counters]
  cases i.captures <;> simp [Option.isSome_iff_ne_none]

theorem runCalls_stats {order : ByteOrder} {h : Host} {is : List Call} {after : List Host}
    (hrun : runCalls order is h = some after) :
    List.Forall₂ (fun i g => g.stats = i.counters) is after ↔
      (∀ i ∈ is.head?, h.stats.isSome → i.captures = true) ∧
        is.IsChain fun i j => i.counters.isSome → j.captures = true := by
  induction is generalizing h after with
  | nil =>
    obtain rfl := Option.some.inj hrun
    simp
  | cons i is ih =>
    obtain ⟨out, hout, hrest⟩ := Option.bind_eq_some_iff.mp hrun
    obtain ⟨rest, htail, hafter⟩ := Option.bind_eq_some_iff.mp hrest
    obtain rfl := Option.some.inj hafter
    rw [List.forall₂_cons, ih htail, List.isChain_cons, stats_eq_counters_iff hout]
    simp only [List.head?_cons, Option.mem_def, Option.some.injEq, forall_eq']
    refine and_congr_right fun hfirst => ?_
    rw [(stats_eq_counters_iff hout).mpr hfirst]

/-- From a fresh process on, get_last_stats answers after every call of run with the counters that
call read, or -1 if it read none, exactly if no call that returns before its capture comes
right after a call that read its counters. Before the first call it answers -1. -/
theorem stats_of_last_run_iff {order : ByteOrder} {h : Host} {is : List Call} {after : List Host}
    (hfresh : h.lastStatsValid = false) (hrun : runCalls order is h = some after) :
    (∀ out, getLastStatsImpl (some out) h = statsAnswer out none) ∧
      (List.Forall₂ (fun i g => ∀ out, getLastStatsImpl (some out) g = statsAnswer out i.counters)
          is after ↔
        is.IsChain fun i j => i.counters.isSome → j.captures = true) := by
  have hnone : h.stats = none := by simp [Host.stats, hfresh]
  refine ⟨fun out => by rw [getLastStatsImpl_eq, hnone], ?_⟩
  have hanswers : (fun (i : Call) g =>
      ∀ out, getLastStatsImpl (some out) g = statsAnswer out i.counters) =
      fun i g => g.stats = i.counters := by
    funext i g
    simp only [getLastStatsImpl_eq, eq_iff_iff]
    exact ⟨fun h => statsAnswer_inj (h ⟨0, 0⟩), fun h out => by rw [h]⟩
  rw [hanswers, runCalls_stats hrun]
  simp [hnone]

/-- A capture of five packets with one drop, or what is left of it if the set-up fails. -/
def countedCall (opening : OpenCalls) : Call :=
  { shortCall opening with
    calls := { (shortCall opening).calls with stats := some ⟨5, 1⟩ } }

theorem stats_of_last_run_iff_failed_first :
    ∃ g, runCalls .little [countedCall versionRefused, countedCall openSucceeds] quietHost =
        some [g, ⟨0x1143, ⟨5, 1⟩, true, g.stderr⟩] ∧
      getLastStatsImpl (some ⟨0, 0⟩) g = (-1, some ⟨0, 0⟩) := by
  have hrun : runCalls .little [countedCall versionRefused, countedCall openSucceeds] quietHost =
      some [⟨0x1143, ⟨0, 0⟩, false, ["setsockopt(PACKET_VERSION, TPACKET_V3)"]⟩,
        ⟨0x1143, ⟨5, 1⟩, true, ["setsockopt(PACKET_VERSION, TPACKET_V3)"]⟩] := by
    decide +kernel
  have hchain : [countedCall versionRefused, countedCall openSucceeds].IsChain
      fun i j => i.counters.isSome → j.captures = true := by
    simp only [List.isChain_cons_cons, List.isChain_singleton, and_true]
    decide
  obtain ⟨hfirst, -⟩ := List.forall₂_cons.mp ((stats_of_last_run_iff rfl hrun).2.mpr hchain)
  exact ⟨_, hrun, hfirst ⟨0, 0⟩⟩

/-- A call that fails because TPACKET_V3 is refused leaves the counters of the call before it. -/
theorem failed_run_keeps_old_stats :
    (countedCall versionRefused).counters = none ∧
      ∃ g g', runCalls .little [countedCall openSucceeds, countedCall versionRefused] quietHost =
          some [g, g'] ∧
        getLastStatsImpl (some ⟨0, 0⟩) g' = (0, some ⟨5, 1⟩) := by
  refine ⟨by decide, ⟨0x1043, ⟨5, 1⟩, true, []⟩,
    ⟨0x1143, ⟨5, 1⟩, true, ["setsockopt(PACKET_VERSION, TPACKET_V3)"]⟩, ?_, rfl⟩
  decide +kernel

end MyWireshark.Capture
