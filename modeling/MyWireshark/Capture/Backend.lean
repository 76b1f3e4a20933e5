import MyWireshark.Lib.Framing
import MyWireshark.Capture.Run

/-! raw_socket_open, raw_socket_close and run_impl as one call after the other, with the flags
of the interface, the bytes of the .pcap file, the callback and the statistics. What the
operating system answers to each call is an argument. -/
namespace MyWireshark.Capture
open Framing CapFilter Bpf MyWireshark.Filter

def iffPromisc : UInt16 := 0x100

structure CaptureStats where
  packetsCaptured : UInt32
  packetsDropped : UInt32
  deriving DecidableEq

/-- What outlives a call: the flags of the interface, g_last_stats, g_last_stats_valid and the
lines sent to stderr (for perror, without the text of errno). -/
structure Host where
  ifrFlags : UInt16
  lastStats : CaptureStats
  lastStatsValid : Bool
  stderr : List String
  deriving DecidableEq

namespace Host
variable (h : Host)

def perror (text : String) : Host := { h with stderr := h.stderr ++ [text] }

def promisc : Bool := h.ifrFlags &&& iffPromisc != 0

end Host

/-- How the calls of raw_socket_open end: true is success. -/
structure OpenCalls where
  socket : Bool
  bindToDevice : Bool
  getFlags : Bool
  setFlags : Bool
  packetVersion : Bool
  rxRing : Bool
  mmap : Bool
  malloc : Bool

/-- struct raw_socket_ctx as raw_socket_open leaves it: the read cursor, and promisc_set_by_us. -/
structure OpenedCtx where
  reader : RawSocketCtx
  promiscSetByUs : Bool

/-- The part of raw_socket_open that turns promiscuous mode on; the result is
promisc_set_by_us. -/
def setPromisc (c : OpenCalls) (h : Host) : Host × Bool :=
  if h.promisc then (h, false)
  else if c.setFlags then ({ h with ifrFlags := h.ifrFlags ||| iffPromisc }, true)
  else (h.perror "ioctl(SIOCSIFFLAGS) - promiscuous mode unavailable", false)

def rawSocketOpen (deviceName : Option (List Char)) (c : OpenCalls) (h : Host) :
    Host × Option OpenedCtx :=
  if deviceName.isNone then (h, none)
  else if !c.socket then (h.perror "socket(AF_PACKET, SOCK_RAW)", none)
  else if !c.bindToDevice then (h.perror "setsockopt(SO_BINDTODEVICE)", none)
  else if !c.getFlags then (h.perror "ioctl(SIOCGIFFLAGS)", none)
  else
    let (h, promiscSetByUs) := setPromisc c h
    if !c.packetVersion then (h.perror "setsockopt(PACKET_VERSION, TPACKET_V3)", none)
    else if !c.rxRing then (h.perror "setsockopt(PACKET_RX_RING)", none)
    else if !c.mmap then (h.perror "mmap(PACKET_RX_RING)", none)
    else if !c.malloc then (h.perror "malloc", none)
    else (h, some ⟨openCtx, promiscSetByUs⟩)

structure CloseCalls where
  getFlags : Bool
  setFlags : Bool

def rawSocketClose (ctx : Option OpenedCtx) (c : CloseCalls) (h : Host) : Host :=
  match ctx with
  | none => h
  | some ctx =>
    if !ctx.promiscSetByUs then h
    else if !c.getFlags then
      h.perror
        "ioctl(SIOCGIFFLAGS) - failed to read flags while disabling promiscuous mode"
    else if !c.setFlags then
      h.perror "ioctl(SIOCSIFFLAGS) - failed to disable promiscuous mode"
    else { h with ifrFlags := h.ifrFlags &&& ~~~iffPromisc }

structure Captured where
  data : List UInt8
  tsSeconds : UInt32
  tsMicroseconds : UInt32
  deriving DecidableEq

/-- An open FILE: the bytes that fwrite has accepted. -/
abbrev File := List UInt8

/-- One call of fwrite, which accepts at most `room` bytes. It succeeds if it accepts them all. -/
def fwrite (file : File) (data : List UInt8) (room : Nat) : File × Bool :=
  (file ++ data.take room, decide (data.length ≤ room))

def pcapMagicMicroseconds : Nat := 0xa1b2c3d4
def pcapLinktypeEthernet : Nat := 1

structure PcapGlobalHeader where
  magicNumber : Nat
  versionMajor : Nat
  versionMinor : Nat
  thiszone : Nat
  sigfigs : Nat
  snaplen : Nat
  network : Nat

structure PcapRecordHeader where
  tsSec : UInt32
  tsUsec : UInt32
  inclLen : UInt32
  origLen : UInt32

section
variable (order : ByteOrder)

def PcapGlobalHeader.bytes (hdr : PcapGlobalHeader) : List UInt8 :=
  order.bytes hdr.magicNumber 4 ++ order.bytes hdr.versionMajor 2 ++
    order.bytes hdr.versionMinor 2 ++ order.bytes hdr.thiszone 4 ++ order.bytes hdr.sigfigs 4 ++
    order.bytes hdr.snaplen 4 ++ order.bytes hdr.network 4

def PcapRecordHeader.bytes (hdr : PcapRecordHeader) : List UInt8 :=
  order.bytes hdr.tsSec.toNat 4 ++ order.bytes hdr.tsUsec.toNat 4 ++
    order.bytes hdr.inclLen.toNat 4 ++ order.bytes hdr.origLen.toNat 4

def pcapGlobalHeader : PcapGlobalHeader :=
  ⟨pcapMagicMicroseconds, 2, 4, 0, 0, rawSocketMaxFrame.toNat, pcapLinktypeEthernet⟩

def writePcapGlobalHeader (f : File) (room : Nat) : File × Int :=
  let (f, ok) := fwrite f (pcapGlobalHeader.bytes order) room
  (f, if ok then 0 else -1)

/-- How many bytes the two calls of fwrite for one record accept. -/
structure Room where
  header : Nat
  data : Nat

def recordHeader (p : Captured) : PcapRecordHeader :=
  let len := UInt32.ofNat p.data.length
  ⟨p.tsSeconds, p.tsMicroseconds, len, len⟩

def writePcapRecord (f : File) (p : Captured) (room : Room) : File × Int :=
  let hdr := recordHeader p
  let (f, ok) := fwrite f (hdr.bytes order) room.header
  if !ok then (f, -1)
  else if hdr.inclLen > 0 then
    let (f, ok) := fwrite f p.data room.data
    if !ok then (f, -1) else (f, 0)
  else (f, 0)

@[simp] theorem length_globalHeader : (pcapGlobalHeader.bytes order).length = 24 := by
  simp [PcapGlobalHeader.bytes]

@[simp] theorem length_recordHeader (hdr : PcapRecordHeader) : (hdr.bytes order).length = 16 := by
  simp [PcapRecordHeader.bytes]

theorem writePcapGlobalHeader_fails (f : File) {room : Nat} :
    (writePcapGlobalHeader order f room).2 ≠ 0 ↔ room < 24 := by
  simp [writePcapGlobalHeader, fwrite]

end

structure Turn where
  packet : Captured
  room : Room
  small : packet.data.length ≤ rawSocketMaxFrame.toNat

/-- How the calls that run_impl makes end, and what raw_socket_recv returns: the frames, and the
negative value that ends the loop if no write fails before. -/
structure RunCalls where
  opening : OpenCalls
  attach : Bool
  fopen : Bool
  headerRoom : Nat
  signal : Bool
  turns : List Turn
  last : Int
  last_neg : last < 0
  fclose : Bool
  /-- what PACKET_STATISTICS gives, `none` if it fails -/
  stats : Option CaptureStats
  closing : CloseCalls

theorem rawSocketStopped_neg : rawSocketStopped < 0 := by decide

/-- What a call of run_impl leaves: the host, the .pcap file if it was opened, the frames passed to
the callback and the value returned. -/
structure RunOut where
  host : Host
  file : Option File
  passed : List Captured
  result : Int
  deriving DecidableEq

def Turn.write (order : ByteOrder) (file : Option File) (t : Turn) : Option File × Int :=
  match file with
  | none => (none, 0)
  | some f => (writePcapRecord order f t.packet t.room).map some id

/-- The end of the loop of run_impl with `last` from raw_socket_recv. Apart from a stop request it
is poll that makes it negative. -/
def loopEnd (last : Int) (h : Host) (file : Option File) : RunOut :=
  if last = rawSocketStopped then ⟨h, file, [], 0⟩ else ⟨h.perror "poll", file, [], -1⟩

@[simp] theorem loopEnd_file (last : Int) (h : Host) (file : Option File) :
    (loopEnd last h file).file = file := by
  unfold loopEnd
  split <;> rfl

@[simp] theorem loopEnd_result (last : Int) (h : Host) (file : Option File) :
    (loopEnd last h file).result = if last = rawSocketStopped then 0 else -1 := by
  unfold loopEnd
  split <;> rfl

def receiveLoop (order : ByteOrder) (last : Int) (h : Host) (file : Option File) :
    List Turn → RunOut
  | [] => loopEnd last h file
  | t :: ts =>
    let wrote := t.write order file
    if wrote.2 ≠ 0 then ⟨h.perror "fwrite", wrote.1, [], -1⟩
    else
      let out := receiveLoop order last h wrote.1 ts
      { out with passed := t.packet :: out.passed }

def readStats (stats : Option CaptureStats) (h : Host) : Host :=
  match stats with
  | some st => { h with lastStats := st, lastStatsValid := true }
  | none => { h.perror "getsockopt(PACKET_STATISTICS)" with lastStatsValid := false }

def closePcap (fclose : Bool) (out : RunOut) : RunOut :=
  if out.file.isSome && !fclose then
    { out with host := out.host.perror "fclose", result := -1 }
  else out

/-- run_impl from the signal handler on, with the socket open and the file ready. -/
def capture (order : ByteOrder) (ctx : OpenedCtx) (c : RunCalls) (h : Host) (file : Option File) :
    RunOut :=
  let h := if c.signal then h else h.perror "signal(SIGINT)"
  let out := closePcap c.fclose (receiveLoop order c.last h file c.turns)
  { out with host := rawSocketClose (some ctx) c.closing (readStats c.stats out.host) }

/-- run_impl once the socket is open, up to the signal handler. -/
def openPcap (order : ByteOrder) (ctx : OpenedCtx) (path : Option (List Char)) (c : RunCalls)
    (h : Host) : RunOut :=
  if (path.map isEmpty).getD true then capture order ctx c h none
  else if !c.fopen then ⟨rawSocketClose (some ctx) c.closing (h.perror "fopen"), none, [], -1⟩
  else
    let (f, ret) := writePcapGlobalHeader order [] c.headerRoom
    if ret ≠ 0 then
      ⟨rawSocketClose (some ctx) c.closing (h.perror "fwrite"), some f, [], -1⟩
    else capture order ctx c h (some f)

/-- run_impl. It is `none` where capfilter_compile leaves its arrays. -/
def runImpl (order : ByteOrder) (deviceName : Option (List Char)) (args : RunArgs) (c : RunCalls)
    (h : Host) : Option RunOut := do
  match ← compileFilter args with
  | .error text => some ⟨h.perror text, none, [], -1⟩
  | .ok filterProg =>
    match rawSocketOpen deviceName c.opening h with
    | (h, none) => some ⟨h, none, [], -1⟩
    | (h, some ctx) =>
      if filterProg.filter.isSome && !c.attach then
        let h := h.perror "setsockopt(SO_ATTACH_FILTER)"
        some ⟨rawSocketClose (some ctx) c.closing h, none, [], -1⟩
      else some (openPcap order ctx args.pcapOutputPath c h)

/-- get_last_stats_impl, with what `out` points to (`none` for NULL): the value returned, and
what is there afterwards. -/
def getLastStatsImpl (out : Option CaptureStats) (h : Host) : Int × Option CaptureStats :=
  if out.isNone || !h.lastStatsValid then (-1, out) else (0, some h.lastStats)

end MyWireshark.Capture
