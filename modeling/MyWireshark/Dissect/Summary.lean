import MyWireshark.Dissect.Words

/-! What a summary line says, and a reader that finds it out from the text of the line alone. The
lines of the packet classes are read back as what the headers in them say. -/
namespace MyWireshark.Dissect
open DispFilter MyWireshark.Filter Digits Literals Addresses Separated

/-! What a line says -/

inductive Protocol where
  | eth | ip | ipv6 | arp | tcp | udp | icmp | icmpv6
  deriving DecidableEq

def Protocol.name : Protocol → String
  | .eth => "ETH"
  | .ip => "IP"
  | .ipv6 => "IPv6"
  | .arp => "ARP"
  | .tcp => "TCP"
  | .udp => "UDP"
  | .icmp => "ICMP"
  | .icmpv6 => "ICMPv6"

inductive IcmpKind where
  | destUnreachable
  | timeExceeded
  | packetTooBig
  | other (type : Nat)
  deriving DecidableEq

inductive ArpMessage where
  | request (targetIp senderIp : Ipv4Addr)
  | reply (senderIp : Ipv4Addr) (senderMac : MacAddr)
  | other (opcode : Nat)
  deriving DecidableEq

/-- What a packet of IPv4 or IPv6 carries. `ok` is the verdict on the checksum, `cut` stands for a
header that is not all there. -/
inductive Segment where
  | tcp (srcPort dstPort seqNum ackNum : Nat) (flags : UInt8) (ok : Bool)
  | udp (srcPort dstPort length : Nat) (ok : Bool)
  | echo (request : Bool) (id seq : Nat) (ok : Bool)
  | icmp (kind : IcmpKind) (code : Nat) (ok : Bool)
  | cut (protocol : Protocol)
  | other (number : Nat)
  deriving DecidableEq

inductive Body where
  | nothing
  | cut (protocol : Protocol)
  | arp (message : ArpMessage)
  | ipv4 (srcAddr dstAddr : Ipv4Addr) (ttl : Nat) (ok : Bool) (segment : Segment)
  | ipv6 (srcAddr dstAddr : Ipv6Addr) (hopLimit : Nat) (segment : Segment)
  deriving DecidableEq

/-- What every line says that is about a whole Ethernet header. -/
structure Head where
  tsSeconds : Nat
  tsMicroseconds : Nat
  captureLength : Nat
  srcMac : MacAddr
  dstMac : MacAddr
  vlanId : Option Nat
  deriving DecidableEq

inductive Summary where
  | noEthernet
  | noIpv4
  | frame (head : Head) (protocol : Protocol) (body : Body)
  deriving DecidableEq

/-! The reader -/

def keyed (key word : String) : Option Nat := do
  readDigits 10 (← key.toList.isPrefixOf? word.toList)

def readOctets (n : Nat) (values : List Nat) : Option (Vector UInt8 n) :=
  if h : values.length = n ∧ ∀ v ∈ values, v < 256 then
    some ⟨(values.map UInt8.ofNat).toArray, by simpa using h.1⟩
  else none

def readMac (word : String) : Option MacAddr := do
  readOctets 6 (← readFields ':' 16 word.toList)

def readIpv4 (word : String) : Option Ipv4Addr := do
  readOctets 4 (← readFields '.' 10 word.toList)

def readIpv6 (word : String) : Option Ipv6Addr := do
  let groups ← readFields ':' 16 word.toList
  readOctets 16 (groups.flatMap fun g => [g / 256, g % 256])

/-- Seconds and microseconds: six digits, or more. -/
def readTime (word : String) : Option (Nat × Nat) :=
  match word.toList.splitOn '.' with
  | [seconds, micros] => do
    if micros.length < 6 then none
    else return (← readDigits 10 seconds, ← readDigits 10 micros)
  | _ => none

def readProtocol (word : String) : Option Protocol :=
  [.eth, .ip, .ipv6, .arp, .tcp, .udp, .icmp, .icmpv6].find? fun p => p.name = word

def readTag (word : String) : Option Protocol :=
  [.eth, .ip, .ipv6, .arp, .tcp, .udp, .icmp, .icmpv6].find? fun p => "[" ++ p.name ++ "]" = word

def readOk (bad : String) : List String → Option Bool
  | [] => some true
  | [word] => if word = bad then some false else none
  | _ => none

def flagBit (name : String) : Option UInt8 :=
  if name = "FIN" then some 1
  else if name = "SYN" then some 2
  else if name = "RST" then some 4
  else if name = "PSH" then some 8
  else if name = "ACK" then some 16
  else if name = "URG" then some 32
  else none

/-- Flags of TCP, with three letters for each of them. -/
def readFlags : List Char → Option UInt8
  | [] => some 0
  | a :: b :: c :: text => do return (← flagBit (String.ofList [a, b, c])) ||| (← readFlags text)
  | _ => none

def readFlagWord (word : String) : Option UInt8 := do
  let text ← "flags=[".toList.isPrefixOf? word.toList
  if text.getLast? = some ']' then readFlags text.dropLast else none

def readTcp : List String → Option Segment
  | src :: arrow :: dst :: seq :: ack :: flags :: bad => do
    if arrow ≠ ">" then none
    else
      return .tcp (← keyed "" src) (← keyed "" dst) (← keyed "seq=" seq) (← keyed "ack=" ack)
        (← readFlagWord flags) (← readOk "tcp_csum=BAD" bad)
  | _ => none

def readUdp : List String → Option Segment
  | src :: arrow :: dst :: len :: bad => do
    if arrow ≠ ">" then none
    else
      return .udp (← keyed "" src) (← keyed "" dst) (← keyed "len=" len)
        (← readOk "udp_csum=BAD" bad)
  | _ => none

def readIcmpKind (word : String) : Option IcmpKind :=
  match keyed "type=" word with
  | some type => some (.other type)
  | none =>
    if word = "dest-unreachable" then some .destUnreachable
    else if word = "time-exceeded" then some .timeExceeded
    else if word = "packet-too-big" then some .packetTooBig
    else none

def readEcho (request : Bool) : List String → Option Segment
  | id :: seq :: bad => do
    return .echo request (← keyed "id=" id) (← keyed "seq=" seq) (← readOk "icmp_csum=BAD" bad)
  | _ => none

def readIcmp : List String → Option Segment
  | kind :: words =>
    if kind = "echo-request" then readEcho true words
    else if kind = "echo-reply" then readEcho false words
    else match words with
      | code :: bad => do
        return .icmp (← readIcmpKind kind) (← keyed "code=" code) (← readOk "icmp_csum=BAD" bad)
      | [] => none
  | [] => none

def readCut (name mark : String) : Option Protocol :=
  if mark = "(truncated)" then readProtocol name else none

/-- What stands behind the addresses in a line with the name `protocol`. -/
def readSegment (protocol : Protocol) (words : List String) : Option Segment :=
  match protocol, words with
  | .tcp, words => readTcp words
  | .udp, words => readUdp words
  | .icmp, words | .icmpv6, words => readIcmp words
  | .ip, [number] => (keyed "proto=" number).map .other
  | .ip, [name, mark] => (readCut name mark).map .cut
  | .ipv6, [number] => (keyed "next=" number).map .other
  | .ipv6, [next, name, mark] =>
    if next = "next=" ++ name then (readCut name mark).map .cut else none
  | _, _ => none

def readArp : List String → Option ArpMessage
  | [opcode] => (keyed "op=" opcode).map .other
  | [sender, verb, mac] => do
    if verb = "is-at" then return .reply (← readIpv4 sender) (← readMac mac) else none
  | [verb, target, tell, sender] => do
    if verb = "who-has" ∧ tell = "tell" then
      return .request (← readIpv4 target) (← readIpv4 sender)
    else none
  | _ => none

/-- Two addresses, of IPv4 in front of a ttl and of IPv6 in front of a hop limit, and the rest. -/
def readNetwork (protocol : Protocol) : List String → Option Body
  | src :: arrow :: dst :: limit :: words => do
    if arrow ≠ ">" then none
    else match keyed "ttl=" limit with
      | some ttl =>
        let ok := words.head? ≠ some "ip_csum=BAD"
        return .ipv4 (← readIpv4 src) (← readIpv4 dst) ttl ok
          (← readSegment protocol (if ok then words else words.tail))
      | none =>
        return .ipv6 (← readIpv6 src) (← readIpv6 dst) (← keyed "hop=" limit)
          (← readSegment protocol words)
  | _ => none

def readBody (protocol : Protocol) (words : List String) : Option Body :=
  match protocol, words with
  | .eth, [] => some .nothing
  | .eth, [name, mark] => (readCut name mark).map .cut
  | .eth, _ => none
  | .arp, words => (readArp words).map .arp
  | protocol, words => readNetwork protocol words

/-- The name of the protocol in brackets, behind a VLAN if there is one. -/
def readTagged (head : Option Nat → Head) : List String → Option Summary
  | word :: words =>
    match keyed "vlan=" word, words with
    | some vlanId, tag :: words => do
      let protocol ← readTag tag
      return .frame (head (some vlanId)) protocol (← readBody protocol words)
    | some _, [] => none
    | none, words => do
      let protocol ← readTag word
      return .frame (head none) protocol (← readBody protocol words)
  | [] => none

def readWords (words : List String) : Option Summary :=
  if words = ["(truncated", "Ethernet", "frame)"] then some .noEthernet
  else if words = ["(truncated", "IPv4", "header)"] then some .noIpv4
  else match words with
  | time :: len :: src :: arrow :: dst :: words => do
    if arrow ≠ ">" then none
    else
      let (tsSeconds, tsMicroseconds) ← readTime time
      let captureLength ← keyed "len=" len
      let srcMac ← readMac src
      let dstMac ← readMac dst
      readTagged (⟨tsSeconds, tsMicroseconds, captureLength, srcMac, dstMac, ·⟩) words
  | _ => none

def readSummary (text : List Char) : Option Summary :=
  readWords ((text.splitOn ' ').map String.ofList)

/-! The fields, read back -/

theorem keyed_append (key : String) (n : Nat) : keyed key (key ++ toString n) = some n := by
  have hkey : key.toList.isPrefixOf? (key ++ toString n).toList = some (toString n).toList := by
    rw [List.isPrefixOf?_eq_some_iff_append_eq, String.toList_append]
  have hread : readDigits 10 (toString n).toList = some n :=
    (congrArg (readDigits 10) Nat.toList_repr).trans
      (readDigits_toDigits (by decide) (by decide) n)
  rw [keyed, hkey]
  exact hread

theorem keyed_toString (n : Nat) : keyed "" (toString n) = some n := by
  have h := keyed_append "" n
  rwa [String.empty_append] at h

theorem keyed_decimal (key : String) (b : UInt8) : keyed key (key ++ decimal b) = some b.toNat :=
  keyed_append key b.toNat

theorem readOctets_toList {n : Nat} (v : Vector UInt8 n) :
    readOctets n (v.toList.map UInt8.toNat) = some v := by
  have hlen : (v.toList.map UInt8.toNat).length = n := by simp
  have hsmall : ∀ x ∈ v.toList.map UInt8.toNat, x < 256 := by
    intro x hx
    obtain ⟨b, -, rfl⟩ := List.mem_map.mp hx
    exact b.toNat_lt
  rw [readOctets, dif_pos ⟨hlen, hsmall⟩, Option.some.injEq, ← Vector.toList_inj]
  simp [Function.comp_def]

theorem readFields_hex (width : Nat) {ns : List Nat} (hne : ns ≠ []) :
    readFields ':' 16 (":".intercalate (ns.map (hex width))).toList = some ns := by
  rw [String.toList_intercalate, List.map_map]
  refine readFields_intercalate hne (fun n _ => notMem_hex (by decide) width n) fun n _ => ?_
  rw [Function.comp_apply, hex, String.toList_ofList]
  exact readDigits_padded (by decide) (by decide) _ n

theorem readMac_ethMacToStr (mac : MacAddr) : readMac (ethMacToStr mac) = some mac := by
  have htext : ethMacToStr mac = ":".intercalate ((mac.toList.map UInt8.toNat).map (hex 2)) := by
    rw [ethMacToStr, List.map_map]
    rfl
  have hne : mac.toList.map UInt8.toNat ≠ [] := List.ne_nil_of_length_pos (by simp)
  rw [readMac, htext, readFields_hex 2 hne]
  exact readOctets_toList mac

theorem readIpv4_ipAddrToStr (addr : Ipv4Addr) : readIpv4 (ipAddrToStr addr) = some addr := by
  have hne : addr.toList.map UInt8.toNat ≠ [] := List.ne_nil_of_length_pos (by simp)
  have hfields := @readFields_intercalate '.' 10 (Nat.toDigits 10) _ hne
    (fun n _ => notMem_toDigits (by decide) (by decide) n)
    fun n _ => readDigits_toDigits (by decide) (by decide) n
  rw [List.map_map] at hfields
  rw [readIpv4, toList_ipAddrToStr]
  exact (congrArg (Option.bind · _) hfields).trans (readOctets_toList addr)

theorem readIpv6_ipv6AddrToStr (addr : Ipv6Addr) : readIpv6 (ipv6AddrToStr addr) = some addr := by
  have htext : ipv6AddrToStr addr = ":".intercalate ((hextets addr).map (hex 0)) := by
    rw [ipv6AddrToStr, hextets, List.map_map]
    rfl
  have hne : hextets addr ≠ [] := List.ne_nil_of_length_pos (by simp)
  have hbytes : ((hextets addr).flatMap fun g => [g / 256, g % 256]) =
      addr.toList.map UInt8.toNat := by
    rw [← groupBytes_hextets, groupBytes, List.map_flatMap]
    refine List.flatMap_congr fun g hg => ?_
    have hlt := hextets_lt hg
    have hhigh : g / 2 ^ 8 % 2 ^ 8 = g / 256 := Nat.mod_eq_of_lt (by omega)
    have hlow : g &&& 0xFF = g % 256 := Nat.and_two_pow_sub_one_eq_mod g 8
    rw [Nat.shiftRight_eq_div_pow, hlow, List.map_cons, List.map_cons, List.map_nil,
      UInt8.toNat_ofNat', UInt8.toNat_ofNat', Nat.mod_mod, hhigh]
  rw [readIpv6, htext, readFields_hex 0 hne]
  exact (congrArg (readOctets 16) hbytes).trans (readOctets_toList addr)

theorem readTime_timeWord (base : PacketBase) :
    readTime (timeWord base) = some (base.tsSeconds, base.tsMicroseconds) := by
  have hdigits : ∀ n, '.' ∉ Nat.toDigits 10 n := notMem_toDigits (by decide) (by decide)
  have hpadded : '.' ∉ (padded6 base.tsMicroseconds).toList := by
    rw [padded6, String.toList_ofList, List.mem_append, not_or]
    exact ⟨fun hc => absurd (List.mem_replicate.mp hc).2 (by decide), hdigits _⟩
  have hlen : ¬(padded6 base.tsMicroseconds).toList.length < 6 := by
    rw [padded6, String.toList_ofList, List.length_append, List.length_replicate]
    omega
  have hmicros : readDigits 10 (padded6 base.tsMicroseconds).toList =
      some base.tsMicroseconds := by
    rw [padded6, String.toList_ofList]
    exact readDigits_padded (by decide) (by decide) _ _
  have htext : (timeWord base).toList = ['.'].intercalate
      [Nat.toDigits 10 base.tsSeconds, (padded6 base.tsMicroseconds).toList] := by
    simp [timeWord, List.intercalate_cons_cons]
  rw [readTime, htext, List.splitOn_intercalate '.' (by simp [hdigits, hpadded]) (by simp)]
  simp only [if_neg hlen, hmicros, readDigits_toDigits (show 1 < 10 by decide) (by decide)]
  rfl

theorem readTag_name (p : Protocol) : readTag ("[" ++ p.name ++ "]") = some p := by
  cases p <;> decide

theorem readOk_badWords (ok : Bool) (bad : String) : readOk bad (badWords ok bad) = some ok := by
  cases ok <;> simp [badWords, readOk]

theorem readFlagWord_printFlags {flags : UInt8} (h : flags < 64) :
    readFlagWord ("flags=[" ++ printFlags flags ++ "]") = some flags := by
  -- six bits leave 64 cases
  have hall : ∀ n, n < 64 → readFlags (printFlags (.ofNat n)).toList = some (.ofNat n) := by
    decide +kernel
  have hread := hall flags.toNat h
  rw [UInt8.ofNat_toNat] at hread
  have hprefix : "flags=[".toList.isPrefixOf? ("flags=[" ++ printFlags flags ++ "]").toList =
      some ((printFlags flags).toList ++ [']']) := by
    rw [List.isPrefixOf?_eq_some_iff_append_eq, String.toList_append, String.toList_append,
      List.append_assoc]
    rfl
  rw [readFlagWord, hprefix, Option.bind_eq_bind, Option.bind_some, List.getLast?_concat,
    List.dropLast_concat, if_pos rfl, hread]

/-! The summaries, read back -/

def tcpSays (tcp : TcpHeader) : Segment :=
  .tcp tcp.srcPort tcp.dstPort tcp.seqNum tcp.ackNum tcp.flags tcp.checksumValid

def udpSays (udp : UdpHeader) (ok : Bool) : Segment := .udp udp.srcPort udp.dstPort udp.length ok

def icmpKind (type : UInt8) : IcmpFamily → IcmpKind
  | .v4 =>
    if type = 3 then .destUnreachable
    else if type = 11 then .timeExceeded
    else .other type.toNat
  | .v6 =>
    if type = 1 then .destUnreachable
    else if type = 2 then .packetTooBig
    else if type = 3 then .timeExceeded
    else .other type.toNat

def icmpSays (icmp : IcmpHeader) (family : IcmpFamily) : Segment :=
  if icmp.isEcho then
    .echo (icmp.type = if family = .v6 then 128 else 8) icmp.echoId icmp.echoSeq icmp.checksumValid
  else .icmp (icmpKind icmp.type family) icmp.code.toNat icmp.checksumValid

def arpSays (arp : ArpHeader) : ArpMessage :=
  if arp.opcode = 1 then .request arp.targetIp arp.senderIp
  else if arp.opcode = 2 then .reply arp.senderIp arp.senderMac
  else .other arp.opcode

def headOf (base : PacketBase) : Head where
  tsSeconds := base.tsSeconds
  tsMicroseconds := base.tsMicroseconds
  captureLength := base.captureLength
  srcMac := base.eth.srcMac
  dstMac := base.eth.dstMac
  vlanId := if base.eth.hasVlan then some (base.eth.vlanTci % 4096) else none

theorem readTcp_tcpWords {tcp : TcpHeader} (h : tcp.flags < 64) :
    readTcp (tcpWords tcp) = some (tcpSays tcp) := by
  simp only [tcpWords, List.cons_append, List.nil_append, readTcp, keyed_toString, keyed_append,
    readFlagWord_printFlags h, readOk_badWords]
  rfl

theorem readUdp_udpWords (udp : UdpHeader) (ok : Bool) :
    readUdp (udpWords udp ok) = some (udpSays udp ok) := by
  simp only [udpWords, List.cons_append, List.nil_append, readUdp, keyed_toString, keyed_append,
    readOk_badWords]
  rfl

theorem readIcmpKind_icmpTypeName (type : UInt8) (family : IcmpFamily) :
    readIcmpKind ((icmpTypeName type family).getD ("type=" ++ decimal type)) =
      some (icmpKind type family) := by
  have hother : readIcmpKind ("type=" ++ decimal type) = some (.other type.toNat) := by
    rw [readIcmpKind, keyed_decimal]
  have hdest : readIcmpKind "dest-unreachable" = some .destUnreachable := by decide
  have htime : readIcmpKind "time-exceeded" = some .timeExceeded := by decide
  have hbig : readIcmpKind "packet-too-big" = some .packetTooBig := by decide
  cases family with
  | v4 =>
    unfold icmpTypeName icmpKind icmpv4TypeDestUnreachable icmpv4TypeTimeExceeded
    dsimp only
    split_ifs
    · exact hdest
    · exact htime
    · exact hother
  | v6 =>
    unfold icmpTypeName icmpKind icmpv6TypeDestUnreachable icmpv6TypePacketTooBig
      icmpv6TypeTimeExceeded
    dsimp only
    split_ifs
    · exact hdest
    · exact hbig
    · exact htime
    · exact hother

theorem icmpTypeName_ne_echo (type : UInt8) (family : IcmpFamily) :
    (icmpTypeName type family).getD ("type=" ++ decimal type) ≠ "echo-request" ∧
      (icmpTypeName type family).getD ("type=" ++ decimal type) ≠ "echo-reply" := by
  have hread := readIcmpKind_icmpTypeName type family
  have hnone : readIcmpKind "echo-request" = none ∧ readIcmpKind "echo-reply" = none := by decide
  constructor
  · intro heq
    rw [heq, hnone.1] at hread
    cases hread
  · intro heq
    rw [heq, hnone.2] at hread
    cases hread

theorem readIcmp_icmpWords (icmp : IcmpHeader) (family : IcmpFamily) :
    readIcmp (icmpWords icmp family) = some (icmpSays icmp family) := by
  unfold icmpWords icmpSays
  by_cases hecho : icmp.isEcho = true
  · rw [if_pos hecho, if_pos hecho]
    have hrequest : (icmp.type =
        if family = .v6 then icmpv6TypeEchoRequest else icmpv4TypeEchoRequest) ↔
        icmp.type = if family = .v6 then 128 else 8 := Iff.rfl
    by_cases htype : icmp.type = if family = .v6 then 128 else 8
    · rw [if_pos (hrequest.mpr htype), decide_eq_true htype]
      simp only [List.cons_append, List.nil_append, readIcmp, readEcho, if_pos, keyed_append,
        readOk_badWords]
      rfl
    · rw [if_neg (fun h => htype (hrequest.mp h)), decide_eq_false htype]
      simp only [List.cons_append, List.nil_append, readIcmp, readEcho, keyed_append,
        readOk_badWords]
      rfl
  · rw [if_neg hecho, if_neg hecho]
    obtain ⟨hrequest, hreply⟩ := icmpTypeName_ne_echo icmp.type family
    simp only [List.cons_append, List.nil_append, readIcmp, if_neg hrequest, if_neg hreply,
      readIcmpKind_icmpTypeName, keyed_decimal, readOk_badWords]
    rfl

theorem readArp_arpWords (arp : ArpHeader) : readArp (arpWords arp) = some (arpSays arp) := by
  unfold arpWords arpSays arpOpRequest arpOpReply
  split_ifs
  · simp [readArp, readIpv4_ipAddrToStr]
  · simp [readArp, readIpv4_ipAddrToStr, readMac_ethMacToStr]
  · simp only [readArp, keyed_append]
    rfl

/-- The flag of a wrong header checksum starts nothing that is read behind the addresses. -/
theorem readSegment_bad (protocol : Protocol) (words : List String) :
    readSegment protocol ("ip_csum=BAD" :: words) = none := by
  have hnumber : keyed "" "ip_csum=BAD" = none := by decide
  have hproto : keyed "proto=" "ip_csum=BAD" = none := by decide
  have hnext : keyed "next=" "ip_csum=BAD" = none := by decide
  have hcut : ∀ mark, readCut "ip_csum=BAD" mark = none := by
    intro mark
    unfold readCut
    split
    · decide
    · rfl
  have hkind : readIcmpKind "ip_csum=BAD" = none := by decide
  have hicmp : readIcmp ("ip_csum=BAD" :: words) = none := by
    cases words with
    | nil => decide
    | cons code bad => simp [readIcmp, hkind]
  cases protocol with
  | eth | arp => rfl
  | icmp | icmpv6 => exact hicmp
  | tcp =>
    match words with
    | arrow :: dst :: seq :: ack :: flags :: bad => simp [readSegment, readTcp, hnumber]
    | [] | [_] | [_, _] | [_, _, _] | [_, _, _, _] => rfl
  | udp =>
    match words with
    | arrow :: dst :: len :: bad => simp [readSegment, readUdp, hnumber]
    | [] | [_] | [_, _] => rfl
  | ip =>
    match words with
    | [] => simp [readSegment, hproto]
    | [mark] => simp [readSegment, hcut]
    | _ :: _ :: _ => rfl
  | ipv6 =>
    match words with
    | [] => simp [readSegment, hnext]
    | [_] => rfl
    | [name, mark] =>
      have hne : "ip_csum=BAD" ≠ "next=" ++ name := by
        intro heq
        have hlist := congrArg String.toList heq
        simp at hlist
      simp [readSegment, hne]
    | _ :: _ :: _ :: _ => rfl

theorem readNetwork_ipWords {protocol : Protocol} {words : List String} {segment : Segment}
    (ip : IpHeader) (h : readSegment protocol words = some segment) :
    readNetwork protocol (ipWords ip ++ words) =
      some (.ipv4 ip.srcAddr ip.dstAddr ip.ttl.toNat ip.checksumValid segment) := by
  -- without the flag, no other word is taken for it
  have hhead : words.head? ≠ some "ip_csum=BAD" := by
    intro hbad
    obtain ⟨rest, rfl⟩ := List.head?_eq_some_iff.mp hbad
    rw [readSegment_bad] at h
    cases h
  unfold ipWords badWords
  cases ip.checksumValid with
  | true =>
    simp [readNetwork, keyed_decimal, readIpv4_ipAddrToStr, hhead, h]
  | false =>
    simp [readNetwork, keyed_decimal, readIpv4_ipAddrToStr, h]

theorem readNetwork_ipv6Words {protocol : Protocol} {words : List String} {segment : Segment}
    (ipv6 : Ipv6Header) (h : readSegment protocol words = some segment) :
    readNetwork protocol (ipv6Words ipv6 ++ words) =
      some (.ipv6 ipv6.srcAddr ipv6.dstAddr ipv6.hopLimit.toNat segment) := by
  have hlimit : keyed "ttl=" ("hop=" ++ decimal ipv6.hopLimit) = none := by
    simp [keyed, List.isPrefixOf?]
  simp [readNetwork, ipv6Words, hlimit, keyed_decimal, readIpv6_ipv6AddrToStr, h]

theorem keyed_vlan_name (p : Protocol) : keyed "vlan=" ("[" ++ p.name ++ "]") = none := by
  cases p <;> decide

theorem readTagged_headWords {base : PacketBase} {protocol : Protocol} {words : List String}
    {body : Body} (h : readBody protocol words = some body) (head : Option Nat → Head) :
    readTagged head ((if base.eth.hasVlan then ["vlan=" ++ toString (ethVlanId base.eth.vlanTci)]
        else []) ++ ("[" ++ protocol.name ++ "]") :: words) =
      some (.frame (head (headOf base).vlanId) protocol body) := by
  have hvlan : ethVlanId base.eth.vlanTci = base.eth.vlanTci % 4096 :=
    Nat.and_two_pow_sub_one_eq_mod _ 12
  unfold headOf
  split
  · simp only [List.cons_append, List.nil_append, readTagged, keyed_append, readTag_name,
      Option.bind_eq_bind, Option.bind_some, h, hvlan]
    rfl
  · simp only [List.nil_append, readTagged, keyed_vlan_name, readTag_name, Option.bind_eq_bind,
      Option.bind_some, h]
    rfl

theorem readWords_head {base : PacketBase} {protocol : Protocol} {words : List String} {body : Body}
    (h : readBody protocol words = some body) :
    readWords (timeWord base :: (headWords base ++ ("[" ++ protocol.name ++ "]") :: words)) =
      some (.frame (headOf base) protocol body) := by
  have htime := readTime_timeWord base
  -- a line with a time is none of the two messages about a frame that is cut off
  have hfirst : timeWord base ≠ "(truncated" := by
    intro heq
    have hnone : readTime "(truncated" = none := by decide
    rw [heq, hnone] at htime
    cases htime
  have hmessage : ∀ {rest} a b, timeWord base :: rest ≠ ["(truncated", a, b] :=
    fun _ _ heq => hfirst (List.cons.inj heq).1
  rw [headWords, List.append_assoc]
  simp only [List.cons_append, List.nil_append]
  rw [readWords, if_neg (hmessage _ _), if_neg (hmessage _ _)]
  simp only [ne_eq, not_true, if_false, htime, keyed_append, readMac_ethMacToStr,
    Option.bind_eq_bind, Option.bind_some]
  exact readTagged_headWords h
    (⟨base.tsSeconds, base.tsMicroseconds, base.captureLength, base.eth.srcMac, base.eth.dstMac, ·⟩)

/-! The lines -/

inductive Tells : String → Summary → Prop where
  | mk {first : String} {words : List String} {summary : Summary}
    (hplain : ∀ w ∈ first :: words, Plain w) (hread : readWords (first :: words) = some summary) :
    Tells (first ++ spaced words) summary

section
variable {line : String} {summary : Summary}

theorem Tells.read (h : Tells line summary) : readSummary line.toList = some summary := by
  obtain @⟨first, words, _, hplain, hread⟩ := h
  have hblank : ∀ w ∈ (first :: words).map String.toList, ' ' ∉ w := by
    intro w hw
    obtain ⟨word, hword, rfl⟩ := List.mem_map.mp hw
    exact (hplain word hword).blank
  rw [readSummary, toList_append_spaced, List.splitOn_intercalate ' ' hblank (by simp),
    List.map_map]
  simpa [Function.comp_def] using hread

theorem Tells.newline (h : Tells line summary) : '\n' ∉ line.toList := by
  obtain @⟨first, words, _, hplain, -⟩ := h
  intro hc
  rw [toList_append_spaced] at hc
  obtain hblank | ⟨w, hw, hc⟩ := mem_intercalate hc
  · exact absurd hblank (by decide)
  · obtain ⟨word, hword, rfl⟩ := List.mem_map.mp hw
    exact (hplain word hword).newline hc

end

/-! The lines of the packet classes -/

def networkWords (base : PacketBase) : List String := (base.ip.map ipWords).getD []

section
variable {pkt : Packet} {suffix : String} {protocol : Protocol} {words : List String}

theorem printBase_spaced (base : PacketBase) (name : String) (words : List String) :
    printBase base name ++ spaced words = timeWord base ++
      spaced (headWords base ++ ("[" ++ name ++ "]") :: (networkWords base ++ words)) := by
  rw [printBase_eq, networkWords, ← String.toList_inj]
  cases base.ip with
  | none => simp [printIp]
  | some ip => simp [printIp_eq]

theorem tells_packet {body : Body} (hprint : pkt.print ++ suffix =
      printBase pkt.base protocol.name ++ spaced words) (hplain : ∀ w ∈ words, Plain w)
    (hread : readBody protocol (networkWords pkt.base ++ words) = some body) :
    Tells (pkt.print ++ suffix) (.frame (headOf pkt.base) protocol body) := by
  rw [hprint, printBase_spaced]
  refine .mk ?_ (readWords_head hread)
  have hname : Plain ("[" ++ protocol.name ++ "]") := by cases protocol <;> decide
  have hnetwork : ∀ w ∈ networkWords pkt.base, Plain w := by
    unfold networkWords
    cases pkt.base.ip with
    | none => exact fun _ hw => absurd hw List.not_mem_nil
    | some ip => exact plain_ipWords ip
  simp only [List.forall_mem_cons, List.forall_mem_append]
  exact ⟨plain_timeWord _, plain_headWords _, hname, hnetwork, hplain⟩

theorem readBody_network (heth : protocol ≠ .eth) (harp : protocol ≠ .arp) (words : List String) :
    readBody protocol words = readNetwork protocol words := by
  cases protocol with
  | eth => exact absurd rfl heth
  | arp => exact absurd rfl harp
  | _ => rfl

/-- What a line says about a packet of IPv4 or IPv6 that carries a segment. -/
def ipv4Line (head : Head) (ip : IpHeader) (said : Protocol × Segment) : Summary :=
  .frame head said.1 (.ipv4 ip.srcAddr ip.dstAddr ip.ttl.toNat ip.checksumValid said.2)

@[inherit_doc ipv4Line]
def ipv6Line (head : Head) (ipv6 : Ipv6Header) (said : Protocol × Segment) : Summary :=
  .frame head said.1 (.ipv6 ipv6.srcAddr ipv6.dstAddr ipv6.hopLimit.toNat said.2)

theorem tells_ipv4 {ip : IpHeader} {segment : Segment} (hip : pkt.base.ip = some ip)
    (hprint : pkt.print ++ suffix = printBase pkt.base protocol.name ++ spaced words)
    (hplain : ∀ w ∈ words, Plain w) (heth : protocol ≠ .eth) (harp : protocol ≠ .arp)
    (hread : readSegment protocol words = some segment) :
    Tells (pkt.print ++ suffix) (ipv4Line (headOf pkt.base) ip (protocol, segment)) := by
  refine tells_packet hprint hplain ?_
  rw [readBody_network heth harp, networkWords, hip]
  exact readNetwork_ipWords ip hread

theorem tells_ipv6 {ipv6 : Ipv6Header} {segment : Segment} (hip : pkt.base.ip = none)
    (hprint : pkt.print ++ suffix = printBase pkt.base protocol.name ++
      spaced (ipv6Words ipv6 ++ words))
    (hplain : ∀ w ∈ words, Plain w) (heth : protocol ≠ .eth) (harp : protocol ≠ .arp)
    (hread : readSegment protocol words = some segment) :
    Tells (pkt.print ++ suffix) (ipv6Line (headOf pkt.base) ipv6 (protocol, segment)) := by
  refine tells_packet hprint (List.forall_mem_append.mpr ⟨plain_ipv6Words ipv6, hplain⟩) ?_
  rw [readBody_network heth harp, networkWords, hip]
  exact readNetwork_ipv6Words ipv6 hread

end

section
variable {base : PacketBase}

def cutSuffix (protocol : Protocol) : String := spaced [protocol.name, "(truncated)"]

theorem readCut_name (protocol : Protocol) :
    readCut protocol.name "(truncated)" = some protocol := by
  cases protocol <;> decide

theorem plain_cut (protocol : Protocol) : ∀ w ∈ [protocol.name, "(truncated)"], Plain w := by
  cases protocol <;> decide

theorem tells_eth (hip : base.ip = none) :
    Tells ((Packet.packet base).print ++ "") (.frame (headOf base) .eth .nothing) := by
  refine @tells_packet (.packet base) _ .eth [] _ ?_ (by simp) ?_
  · simp [Packet.print, Packet.protocolName, Packet.base, hip, Protocol.name]
  · simp [Packet.base, networkWords, hip, readBody]

theorem tells_eth_cut (hip : base.ip = none) (protocol : Protocol) :
    Tells ((Packet.packet base).print ++ cutSuffix protocol)
      (.frame (headOf base) .eth (.cut protocol)) := by
  refine @tells_packet (.packet base) _ .eth _ _ ?_ (plain_cut protocol) ?_
  · simp [Packet.print, Packet.protocolName, Packet.base, hip, Protocol.name, cutSuffix]
  · simp [Packet.base, networkWords, hip, readBody, readCut_name]

theorem tells_arp (hip : base.ip = none) (arp : ArpHeader) :
    Tells ((Packet.arp base arp).print ++ "") (.frame (headOf base) .arp (.arp (arpSays arp))) := by
  refine @tells_packet (.arp base arp) _ .arp (arpWords arp) _ ?_ (plain_arpWords arp) ?_
  · simp [Packet.print, Packet.protocolName, Packet.base, Protocol.name, printArpSummary_eq]
  · simp [Packet.base, networkWords, hip, readBody, readArp_arpWords]

variable {ip : IpHeader} (hip : base.ip = some ip)
include hip

theorem tells_tcp {tcp : TcpHeader} (hflags : tcp.flags < 64) :
    Tells ((Packet.tcp base tcp).print ++ "") (ipv4Line (headOf base) ip (.tcp, tcpSays tcp)) := by
  refine @tells_ipv4 (.tcp base tcp) _ .tcp _ ip _ hip ?_ (plain_tcpWords tcp) (by decide)
    (by decide) (readTcp_tcpWords hflags)
  simp [Packet.print, Packet.protocolName, Packet.base, Protocol.name, printTcpSummary_eq]

theorem tells_udp (udp : UdpHeader) :
    Tells ((Packet.udp base udp).print ++ "") (ipv4Line (headOf base) ip
      (.udp, udpSays udp (!udp.checksumPresent || udp.checksumValid))) := by
  refine @tells_ipv4 (.udp base udp) _ .udp _ ip _ hip ?_ (plain_udpWords udp _) (by decide)
    (by decide) (readUdp_udpWords udp _)
  simp [Packet.print, Packet.protocolName, Packet.base, Protocol.name, printUdpSummary_eq]

theorem tells_icmp (icmp : IcmpHeader) :
    Tells ((Packet.icmp base icmp).print ++ "")
      (ipv4Line (headOf base) ip (.icmp, icmpSays icmp .v4)) := by
  refine @tells_ipv4 (.icmp base icmp) _ .icmp _ ip _ hip ?_ (plain_icmpWords icmp .v4) (by decide)
    (by decide) (readIcmp_icmpWords icmp .v4)
  simp [Packet.print, Packet.protocolName, Packet.base, Protocol.name, printIcmpSummary_eq]

theorem tells_ip_cut (protocol : Protocol) :
    Tells ((Packet.packet base).print ++ cutSuffix protocol)
      (ipv4Line (headOf base) ip (.ip, .cut protocol)) := by
  refine @tells_ipv4 (.packet base) _ .ip _ ip _ hip ?_ (plain_cut protocol) (by decide) (by decide)
    ?_
  · simp [Packet.print, Packet.protocolName, Packet.base, hip, Protocol.name, cutSuffix]
  · simp [readSegment, readCut_name]

theorem tells_ip_other (protocol : UInt8) :
    Tells ((Packet.packet base).print ++ (" proto=" ++ decimal protocol))
      (ipv4Line (headOf base) ip (.ip, .other protocol.toNat)) := by
  refine @tells_ipv4 (.packet base) _ .ip ["proto=" ++ decimal protocol] ip _ hip ?_ ?_ (by decide)
    (by decide) ?_
  · rw [← String.toList_inj]
    simp [Packet.print, Packet.protocolName, Packet.base, hip, Protocol.name]
  · simp only [List.forall_mem_cons, plain_append, plain_decimal]
    decide
  · simp only [readSegment, keyed_decimal]
    rfl

end

section
variable {base : PacketBase} (hip : base.ip = none) (ipv6 : Ipv6Header)
include hip

theorem tells_ipv6_tcp {tcp : TcpHeader} (hflags : tcp.flags < 64) :
    Tells ((Packet.ipv6 base ipv6 (some tcp) none none).print ++ "")
      (ipv6Line (headOf base) ipv6 (.tcp, tcpSays tcp)) := by
  refine @tells_ipv6 (.ipv6 base ipv6 (some tcp) none none) _ .tcp (tcpWords tcp) ipv6 _ hip ?_
    (plain_tcpWords tcp) (by decide) (by decide) (readTcp_tcpWords hflags)
  simp [Packet.print, Packet.protocolName, Packet.base, Protocol.name, printIpv6Summary_eq,
    printTcpSummary_eq]

theorem tells_ipv6_udp (udp : UdpHeader) :
    Tells ((Packet.ipv6 base ipv6 none (some udp) none).print ++ "")
      (ipv6Line (headOf base) ipv6 (.udp, udpSays udp udp.checksumValid)) := by
  refine @tells_ipv6 (.ipv6 base ipv6 none (some udp) none) _ .udp _ ipv6 _ hip ?_
    (plain_udpWords udp _) (by decide) (by decide) (readUdp_udpWords udp _)
  simp [Packet.print, Packet.protocolName, Packet.base, Protocol.name, printIpv6Summary_eq,
    printUdpSummary_eq]

theorem tells_ipv6_icmp (icmp : IcmpHeader) :
    Tells ((Packet.ipv6 base ipv6 none none (some icmp)).print ++ "")
      (ipv6Line (headOf base) ipv6 (.icmpv6, icmpSays icmp .v6)) := by
  refine @tells_ipv6 (.ipv6 base ipv6 none none (some icmp)) _ .icmpv6 _ ipv6 _ hip ?_
    (plain_icmpWords icmp .v6) (by decide) (by decide) (readIcmp_icmpWords icmp .v6)
  simp [Packet.print, Packet.protocolName, Packet.base, Protocol.name, printIpv6Summary_eq,
    printIcmpSummary_eq]

/-- The next header has a name of its own if print_packet looks into it. -/
theorem tells_ipv6_cut {protocol : Protocol}
    (hname : nextHeaderName ipv6.nextHeader = protocol.name) :
    Tells ((Packet.ipv6 base ipv6 none none none).print ++ cutSuffix protocol)
      (ipv6Line (headOf base) ipv6 (.ipv6, .cut protocol)) := by
  refine @tells_ipv6 (.ipv6 base ipv6 none none none) _ .ipv6
    ["next=" ++ protocol.name, protocol.name, "(truncated)"] ipv6 _ hip ?_ ?_ (by decide)
    (by decide) ?_
  · rw [← String.toList_inj]
    simp [Packet.print, Packet.protocolName, Packet.base, Protocol.name, printIpv6Summary_eq, hname,
      cutSuffix]
  · cases protocol <;> decide
  · simp [readSegment, readCut_name]

theorem tells_ipv6_other (hname : nextHeaderName ipv6.nextHeader = decimal ipv6.nextHeader) :
    Tells ((Packet.ipv6 base ipv6 none none none).print ++ "")
      (ipv6Line (headOf base) ipv6 (.ipv6, .other ipv6.nextHeader.toNat)) := by
  refine @tells_ipv6 (.ipv6 base ipv6 none none none) _ .ipv6 ["next=" ++ decimal ipv6.nextHeader]
    ipv6 _ hip ?_ ?_ (by decide) (by decide) ?_
  · simp [Packet.print, Packet.protocolName, Packet.base, Protocol.name, printIpv6Summary_eq, hname]
  · simp only [List.forall_mem_cons, plain_append, plain_decimal]
    decide
  · simp only [readSegment, keyed_decimal]
    rfl

end
end MyWireshark.Dissect
