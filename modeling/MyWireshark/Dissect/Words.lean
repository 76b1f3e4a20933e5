import MyWireshark.Addresses

/-! The summaries of the packet classes as words with blanks between them. -/
namespace MyWireshark.Dissect
open DispFilter MyWireshark.Filter Literals Addresses

/-- Words with a blank in front of each of them. -/
def spaced (words : List String) : String := String.join (words.map (" " ++ ·))

@[simp] theorem spaced_nil : spaced [] = "" := rfl

@[simp] theorem toList_spaced_cons (word : String) (words : List String) :
    (spaced (word :: words)).toList = ' ' :: (word.toList ++ (spaced words).toList) := by
  simp [spaced]

@[simp] theorem spaced_append (words words' : List String) :
    spaced (words ++ words') = spaced words ++ spaced words' := by
  rw [← String.toList_inj]
  simp [spaced]

theorem toList_append_spaced (first : String) (words : List String) :
    (first ++ spaced words).toList = [' '].intercalate ((first :: words).map String.toList) := by
  induction words generalizing first with
  | nil => simp
  | cons word words ih =>
    rw [List.map_cons, List.map_cons, List.intercalate_cons_cons, ← List.map_cons, ← ih]
    simp

/-- A text without blanks and line breaks. -/
structure Plain (word : String) : Prop where
  blank : ' ' ∉ word.toList
  newline : '\n' ∉ word.toList

section
variable {a b : String}

instance (word : String) : Decidable (Plain word) :=
  decidable_of_iff (' ' ∉ word.toList ∧ '\n' ∉ word.toList)
    ⟨fun h => ⟨h.1, h.2⟩, fun h => ⟨h.blank, h.newline⟩⟩

theorem plain_append : Plain (a ++ b) ↔ Plain a ∧ Plain b := by
  constructor
  · rintro ⟨hblank, hnewline⟩
    rw [String.toList_append, List.mem_append, not_or] at hblank hnewline
    exact ⟨⟨hblank.1, hnewline.1⟩, hblank.2, hnewline.2⟩
  · rintro ⟨ha, hb⟩
    refine ⟨?_, ?_⟩ <;> rw [String.toList_append, List.mem_append, not_or]
    · exact ⟨ha.blank, hb.blank⟩
    · exact ⟨ha.newline, hb.newline⟩

theorem plain_of_word (h : ∀ c ∈ a.toList, isWordChar c = true) : Plain a :=
  ⟨fun hc => absurd (h ' ' hc) (by decide), fun hc => absurd (h '\n' hc) (by decide)⟩

theorem plain_toString (n : Nat) : Plain (toString n) :=
  plain_of_word fun _ hc => isWordChar_of_mem (by decide) (by decide) (Nat.toList_repr ▸ hc)

theorem plain_decimal (b : UInt8) : Plain (decimal b) := plain_toString _

theorem plain_padded6 (n : Nat) : Plain (padded6 n) := by
  refine plain_of_word fun c hc => ?_
  rw [padded6, String.toList_ofList] at hc
  obtain hzero | hdigit := List.mem_append.mp hc
  · rw [(List.mem_replicate.mp hzero).2]
    decide
  · exact isWordChar_of_mem (by decide) (by decide) hdigit

theorem plain_ethMacToStr (mac : MacAddr) : Plain (ethMacToStr mac) :=
  plain_of_word fun _ hc => isWordChar_macText (toList_ethMacToStr mac ▸ hc)

theorem plain_ipAddrToStr (addr : Ipv4Addr) : Plain (ipAddrToStr addr) :=
  plain_of_word fun _ hc => (isWordChar_dotted (toList_ipAddrToStr addr ▸ hc)).1

theorem plain_ipv6AddrToStr (addr : Ipv6Addr) : Plain (ipv6AddrToStr addr) :=
  plain_of_word fun _ hc => isWordChar_groupsText (toList_ipv6AddrToStr addr ▸ hc)

theorem plain_printFlags (flags : UInt8) : Plain (printFlags flags) := by
  have hnames : tcpFlagNames.all (fun flag => flag.2.toList.all isWordChar) = true := by decide
  refine plain_of_word fun c hc => ?_
  rw [printFlags, String.toList_join, List.flatMap_map, List.mem_flatMap] at hc
  obtain ⟨⟨flag, name⟩, hflag, hc⟩ := hc
  dsimp only at hc
  split at hc
  · exact List.all_eq_true.mp (List.all_eq_true.mp hnames (flag, name) hflag) c hc
  · cases hc

end

/-! The words -/

def badWords (ok : Bool) (word : String) : List String := if ok then [] else [word]

def timeWord (base : PacketBase) : String :=
  toString base.tsSeconds ++ "." ++ padded6 base.tsMicroseconds

def headWords (base : PacketBase) : List String :=
  ["len=" ++ toString base.captureLength, ethMacToStr base.eth.srcMac, ">",
    ethMacToStr base.eth.dstMac] ++
  if base.eth.hasVlan then ["vlan=" ++ toString (ethVlanId base.eth.vlanTci)] else []

def ipWords (ip : IpHeader) : List String :=
  [ipAddrToStr ip.srcAddr, ">", ipAddrToStr ip.dstAddr, "ttl=" ++ decimal ip.ttl] ++
    badWords ip.checksumValid "ip_csum=BAD"

def tcpWords (tcp : TcpHeader) : List String :=
  [toString tcp.srcPort, ">", toString tcp.dstPort, "seq=" ++ toString tcp.seqNum,
    "ack=" ++ toString tcp.ackNum, "flags=[" ++ printFlags tcp.flags ++ "]"] ++
  badWords tcp.checksumValid "tcp_csum=BAD"

def udpWords (udp : UdpHeader) (ok : Bool) : List String :=
  [toString udp.srcPort, ">", toString udp.dstPort, "len=" ++ toString udp.length] ++
    badWords ok "udp_csum=BAD"

def icmpWords (icmp : IcmpHeader) (family : IcmpFamily) : List String :=
  (if icmp.isEcho then
    [if icmp.type = if family = .v6 then icmpv6TypeEchoRequest else icmpv4TypeEchoRequest
      then "echo-request" else "echo-reply",
      "id=" ++ toString icmp.echoId, "seq=" ++ toString icmp.echoSeq]
  else
    [(icmpTypeName icmp.type family).getD ("type=" ++ decimal icmp.type),
      "code=" ++ decimal icmp.code]) ++
  badWords icmp.checksumValid "icmp_csum=BAD"

def arpWords (arp : ArpHeader) : List String :=
  if arp.opcode = arpOpRequest then
    ["who-has", ipAddrToStr arp.targetIp, "tell", ipAddrToStr arp.senderIp]
  else if arp.opcode = arpOpReply then
    [ipAddrToStr arp.senderIp, "is-at", ethMacToStr arp.senderMac]
  else ["op=" ++ toString arp.opcode]

def ipv6Words (ipv6 : Ipv6Header) : List String :=
  [ipv6AddrToStr ipv6.srcAddr, ">", ipv6AddrToStr ipv6.dstAddr, "hop=" ++ decimal ipv6.hopLimit]

theorem printIp_eq (ip : IpHeader) : printIp (some ip) = spaced (ipWords ip) := by
  rw [← String.toList_inj]
  unfold printIp ipWords badWords
  cases hok : ip.checksumValid <;> simp [hok]

theorem printBase_eq (base : PacketBase) (protocolName : String) :
    printBase base protocolName = timeWord base ++
      spaced (headWords base ++ ["[" ++ protocolName ++ "]"]) ++ printIp base.ip := by
  rw [← String.toList_inj]
  unfold printBase timeWord headWords
  cases base.eth.hasVlan <;> simp

theorem printTcpSummary_eq (tcp : TcpHeader) : printTcpSummary tcp = spaced (tcpWords tcp) := by
  rw [← String.toList_inj]
  unfold printTcpSummary tcpWords badWords
  cases tcp.checksumValid <;> simp

theorem printUdpSummary_eq (udp : UdpHeader) (checksumMandatory : Bool) :
    printUdpSummary udp checksumMandatory = spaced (udpWords udp
      (if checksumMandatory then udp.checksumValid
      else !udp.checksumPresent || udp.checksumValid)) := by
  rw [← String.toList_inj]
  unfold printUdpSummary udpWords badWords
  cases checksumMandatory <;> cases udp.checksumPresent <;> cases udp.checksumValid <;> simp

theorem printIcmpSummary_eq (icmp : IcmpHeader) (family : IcmpFamily) :
    printIcmpSummary icmp family = spaced (icmpWords icmp family) := by
  rw [← String.toList_inj]
  unfold printIcmpSummary icmpWords badWords
  cases icmp.isEcho <;> cases icmp.checksumValid <;> cases icmpTypeName icmp.type family <;> simp

theorem printArpSummary_eq (arp : ArpHeader) : printArpSummary arp = spaced (arpWords arp) := by
  rw [← String.toList_inj]
  unfold printArpSummary arpWords
  split_ifs <;> simp

theorem printIpv6Summary_eq (ipv6 : Ipv6Header) (tcp : Option TcpHeader) (udp : Option UdpHeader)
    (icmp : Option IcmpHeader) :
    printIpv6Summary ipv6 tcp udp icmp = spaced (ipv6Words ipv6) ++
      match tcp, udp, icmp with
      | some tcp, _, _ => printTcpSummary tcp
      | none, some udp, _ => printUdpSummary udp true
      | none, none, some icmp => printIcmpSummary icmp .v6
      | none, none, none => spaced ["next=" ++ nextHeaderName ipv6.nextHeader] := by
  unfold printIpv6Summary ipv6Words
  rw [← String.toList_inj]
  cases tcp <;> cases udp <;> cases icmp <;> simp

/-! They are words. -/

theorem plain_timeWord (base : PacketBase) : Plain (timeWord base) := by
  simp only [timeWord, plain_append, plain_toString, plain_padded6]
  decide

theorem plain_badWords {ok : Bool} {word : String} (h : Plain word) :
    ∀ w ∈ badWords ok word, Plain w := by
  cases ok with
  | true => exact fun _ hw => absurd hw List.not_mem_nil
  | false => exact fun _ hw => List.mem_singleton.mp hw ▸ h

theorem plain_headWords (base : PacketBase) : ∀ w ∈ headWords base, Plain w := by
  refine List.forall_mem_append.mpr ⟨?_, ?_⟩
  · simp only [List.forall_mem_cons, plain_append, plain_toString, plain_ethMacToStr]
    decide
  · split
    · simp only [List.forall_mem_cons, plain_append, plain_toString]
      decide
    · exact fun _ hw => absurd hw List.not_mem_nil

theorem plain_ipWords (ip : IpHeader) : ∀ w ∈ ipWords ip, Plain w := by
  refine List.forall_mem_append.mpr ⟨?_, plain_badWords (by decide)⟩
  simp only [List.forall_mem_cons, plain_append, plain_decimal, plain_ipAddrToStr]
  decide

theorem plain_tcpWords (tcp : TcpHeader) : ∀ w ∈ tcpWords tcp, Plain w := by
  refine List.forall_mem_append.mpr ⟨?_, plain_badWords (by decide)⟩
  simp only [List.forall_mem_cons, plain_append, plain_toString, plain_printFlags]
  decide

theorem plain_udpWords (udp : UdpHeader) (ok : Bool) : ∀ w ∈ udpWords udp ok, Plain w := by
  refine List.forall_mem_append.mpr ⟨?_, plain_badWords (by decide)⟩
  simp only [List.forall_mem_cons, plain_append, plain_toString]
  decide

theorem plain_icmpTypeName {type : UInt8} {family : IcmpFamily} {name : String}
    (h : icmpTypeName type family = some name) : Plain name := by
  unfold icmpTypeName at h
  cases family <;> split_ifs at h <;> cases h <;> decide

theorem plain_icmpWords (icmp : IcmpHeader) (family : IcmpFamily) :
    ∀ w ∈ icmpWords icmp family, Plain w := by
  refine List.forall_mem_append.mpr ⟨?_, plain_badWords (by decide)⟩
  by_cases hecho : icmp.isEcho = true
  · rw [if_pos hecho]
    simp only [List.forall_mem_cons, plain_append, plain_toString]
    refine ⟨?_, by decide⟩
    split_ifs <;> decide
  · rw [if_neg hecho]
    simp only [List.forall_mem_cons, plain_append, plain_decimal]
    refine ⟨?_, by decide⟩
    cases h : icmpTypeName icmp.type family with
    | some name => exact plain_icmpTypeName h
    | none => exact plain_append.mpr ⟨by decide, plain_decimal _⟩

theorem plain_arpWords (arp : ArpHeader) : ∀ w ∈ arpWords arp, Plain w := by
  unfold arpWords
  split_ifs <;> simp only [List.forall_mem_cons, plain_append, plain_toString, plain_ipAddrToStr,
    plain_ethMacToStr] <;> decide

theorem plain_ipv6Words (ipv6 : Ipv6Header) : ∀ w ∈ ipv6Words ipv6, Plain w := by
  simp only [ipv6Words, List.forall_mem_cons, plain_append, plain_decimal, plain_ipv6AddrToStr]
  decide

end MyWireshark.Dissect
