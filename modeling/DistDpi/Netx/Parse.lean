import DistDpi.Netx.Lookups

/-!
# Netx — parsing and filtering

`ParsePacket` fills a `filterPktInfo` from the headers that `PktDirectRef` finds, and `FilterPacket`
decides by it.  A header that is not in one fragment is not found, so that what is filled in depends
on where the packet is divided (`fragmentation_independent_iff`).  Two divisions that leave the
headers whole are parsed alike (`parsePacket_whole`).  The ports are the only field that may be read
outside of the packet (`parsePacket_isSome_iff`).
-/

namespace DistDpi

/-- `filterPktInfo`, zeroed. -/
structure FilterPktInfo where
  ethtype : UInt16 := 0
  protocol : UInt8 := 0
  srcPort : UInt16 := 0
  dstPort : UInt16 := 0
  vlanID : UInt16 := 0
  priority : UInt16 := 0
  deriving DecidableEq, Repr

def ETH_TYPE_ARP_NBO : UInt16 := 0x0608

def IPPROTO_ICMP : UInt8 := 1

def IPPROTO_ICMPV6 : UInt8 := 58

/-- `EthVlanTagGetVlanID`, of the tag at byte 12: `vidHi` is the low half of byte 14. -/
def ethVlanTagGetVlanID (eh : List UInt8) : UInt16 :=
  (byteAt eh 14 &&& 0xf).toUInt16 <<< 8 ||| (byteAt eh 15).toUInt16

/-- `tag.priority`, the high three bits of byte 14. -/
def tagPriority (eh : List UInt8) : UInt16 := (byteAt eh 14 >>> 5).toUInt16

/-- What `ParsePacket` takes from the Ethernet header. -/
def ethInfo (eh : List UInt8) (info : FilterPktInfo) : FilterPktInfo :=
  let info :=
    if ethHeaderType eh = .e802_1pq then
      { info with vlanID := ethVlanTagGetVlanID eh, priority := tagPriority eh }
    else info
  { info with ethtype := (ethEncapsulatedPktType eh).1 }

/-- The ports of a UDP or a TCP header of `length` bytes, unless it is not found. -/
def parsePorts (lib : DVFilterLib) (pkt : PktHandle) (offset length : UInt32)
    (direct : FilterDirectContext) (info : FilterPktInfo) : Option FilterPktInfo := do
  let (hdr, direct) ← pktDirectRef lib pkt offset length direct
  match hdr with
  | none => some info
  | some p => do
      let m : Memory := ⟨pkt, direct.backingBuffer⟩
      let srcPort ← m.read16 p
      let dstPort ← m.read16 (p.add 2)
      some { info with srcPort, dstPort }

/-- `ParsePacket`, from the protocol on. -/
def parseTransport (lib : DVFilterLib) (pkt : PktHandle) (protocol : UInt8) (offset : UInt32)
    (direct : FilterDirectContext) (info : FilterPktInfo) : Option FilterPktInfo :=
  if protocol = IPPROTO_ICMP ∨ protocol = IPPROTO_ICMPV6 then some info
  else if protocol = IPPROTO_UDP then parsePorts lib pkt offset sizeofUDPHdr direct info
  else if protocol = IPPROTO_TCP then parsePorts lib pkt offset sizeofTCPHdr direct info
  else some info

/-- `ParsePacket`, from the IP header on: the two cases of the `switch`. -/
def parseIp (lib : DVFilterLib) (pkt : PktHandle) (ethtype : UInt16) (offset : UInt32)
    (direct : FilterDirectContext) (info : FilterPktInfo) : Option FilterPktInfo :=
  if ethtype = ETH_TYPE_IPV6_NBO then do
    let (ipv6Header, direct) ← pktDirectRef lib pkt offset sizeofIPv6Hdr direct
    match ipv6Header with
    | none => some info
    | some p => do
        let hdr ← bytesAt pkt direct.backingBuffer p sizeofIPv6Hdr.toNat
        let protocol := byteAt hdr 6
        let nextHeaderOffset := sizeofIPv6Hdr
        parseTransport lib pkt protocol (offset + nextHeaderOffset) direct { info with protocol }
  else do
    let (ipHeader, direct) ← pktDirectRef lib pkt offset sizeofIPHdr direct
    match ipHeader with
    | none => some info
    | some p => do
        let hdr ← bytesAt pkt direct.backingBuffer p sizeofIPHdr.toNat
        let protocol := byteAt hdr 9
        let nextHeaderOffset := (ihl (byteAt hdr 0)).toUInt32 * 4
        parseTransport lib pkt protocol (offset + nextHeaderOffset) direct { info with protocol }

/-- `ParsePacket`. -/
def parsePacket (lib : DVFilterLib) (pkt : PktHandle) (smallBuffer : List UInt8)
    (info : FilterPktInfo) : Option FilterPktInfo := do
  let (buf, direct) ← pktDirectRef lib pkt 0 sizeofEthHeader (directContextInit smallBuffer 128)
  match buf with
  | none => some info
  | some buf => do
      let ethHdr ← bytesAt pkt direct.backingBuffer buf sizeofEthHeader.toNat
      let info := ethInfo ethHdr info
      let (ethtype, offset) := ethEncapsulatedPktType ethHdr
      if ethtype = ETH_TYPE_ARP_NBO then some info
      else if ethtype = ETH_TYPE_IPV4_NBO ∨ ethtype = ETH_TYPE_IPV6_NBO then
        parseIp lib pkt ethtype offset direct info
      else some info

/-- `filterAction`. -/
inductive FilterAction where
  | NO_MATCH | MATCH
  deriving DecidableEq, Repr

/-- `filterState`: what is filtered. -/
structure FilterState where
  filterICMP : UInt8
  filterUDPPortNBO : UInt16
  filterTCPPortNBO : UInt16
  deriving DecidableEq, Repr

/-- `FilterPacket`. -/
def filterPacket (info : FilterPktInfo) (state : FilterState) : FilterAction :=
  let protocol := info.protocol
  if info.ethtype = ETH_TYPE_ARP_NBO then .NO_MATCH
  else if info.ethtype = ETH_TYPE_IPV4_NBO ∨ info.ethtype = ETH_TYPE_IPV6_NBO then
    if (protocol = IPPROTO_ICMP ∨ protocol = IPPROTO_ICMPV6) ∧ state.filterICMP ≠ 0 then .MATCH
    else if protocol = IPPROTO_UDP ∧ state.filterUDPPortNBO ≠ 0 then
      if info.srcPort = state.filterUDPPortNBO ∨ info.dstPort = state.filterUDPPortNBO then .MATCH
      else .NO_MATCH
    else if protocol = IPPROTO_TCP ∧ state.filterTCPPortNBO ≠ 0 then
      if info.srcPort = state.filterTCPPortNBO ∨ info.dstPort = state.filterTCPPortNBO then .MATCH
      else .NO_MATCH
    else .NO_MATCH
  else .NO_MATCH

/-- What the filter decides of a packet. -/
def filterDecision (lib : DVFilterLib) (pkt : PktHandle) (smallBuffer : List UInt8)
    (state : FilterState) : Option FilterAction :=
  (parsePacket lib pkt smallBuffer {}).map fun info => filterPacket info state

/-! ### What a frame says -/

/-- The length of the header that `ParsePacket` takes the ports from. -/
def transportLen (protocol : UInt8) : Option UInt32 :=
  if protocol = IPPROTO_UDP then some sizeofUDPHdr
  else if protocol = IPPROTO_TCP then some sizeofTCPHdr
  else none

/-- What the headers of a frame say, wherever it is divided. -/
def frameInfo (frame : List UInt8) (info : FilterPktInfo) : FilterPktInfo :=
  let info := ethInfo frame info
  if IsIp (etherType frame) then
    let info := { info with protocol := ipProtocol frame }
    let off := (transportOffset frame).toNat
    if transportLen (ipProtocol frame) = none then info
    else { info with srcPort := loadAt frame off, dstPort := loadAt frame (off + 2) }
  else info

/-- The packet is the frame, in fragments that are not empty. -/
def Division (frame : List UInt8) (pkt : PktHandle) : Prop :=
  pkt.flatten = frame ∧ ∀ f ∈ pkt, f ≠ []

/-- **The condition on a division.**  Each header is in one fragment, and the fragment of the IP
header is the first and goes on, or ends with the header behind it at the latest. -/
def HeadersWhole (pkt : PktHandle) : Prop :=
  let frame := pkt.flatten
  let ethtype := etherType frame
  let ip := (ipOffset frame).toNat
  let off := (transportOffset frame).toNat
  ∃ j k f, Fragments.Region pkt 0 26 j k f ∧ (IsIp ethtype →
    ∃ j' k' f', Fragments.Region pkt ip (ipHdrLen ethtype).toNat j' k' f' ∧
      ∀ length, transportLen (ipProtocol frame) = some length →
        (∃ j k f, Fragments.Region pkt off length.toNat j k f) ∧
          (ip + (ipHdrLen ethtype).toNat < f.length - k ∨
            ip + (f'.length - k') ≤ off + length.toNat))

/-- The ports are looked up in `f`: the `j`th fragment, which has the IP header from its byte `k` on
and goes on past the ports, where that of the Ethernet header does not go on past the IP header. -/
structure PortsHeld (pkt : PktHandle) (j k : Nat) (f : List UInt8) : Prop where
  eth : ∃ j k f, Fragments.Region pkt 0 26 j k f ∧
    f.length - k ≤ (ipOffset pkt.flatten).toNat + (ipHdrLen (etherType pkt.flatten)).toNat
  ip : IsIp (etherType pkt.flatten)
  hdr : Fragments.Region pkt (ipOffset pkt.flatten).toNat
    (ipHdrLen (etherType pkt.flatten)).toNat j k f
  ports : ∃ length, transportLen (ipProtocol pkt.flatten) = some length ∧
    (transportOffset pkt.flatten).toNat + length.toNat <
      (ipOffset pkt.flatten).toNat + (f.length - k)

/-- Where the ports are looked up so, they are read from `f` at the offset they have in the packet
(`nextRef_stale`): this is inside. -/
def PortsInside (pkt : PktHandle) : Prop :=
  ∀ j k f, PortsHeld pkt j k f → k + (transportOffset pkt.flatten).toNat + 4 ≤ f.length

/-- **The property** of two divisions. -/
def ParsedAlike (lib : DVFilterLib) (pkt₁ pkt₂ : PktHandle) (buf₁ buf₂ : List UInt8) : Prop :=
  (∃ info, parsePacket lib pkt₁ buf₁ {} = some info ∧ parsePacket lib pkt₂ buf₂ {} = some info) ∧
    ∀ state, filterDecision lib pkt₁ buf₁ state = filterDecision lib pkt₂ buf₂ state

section
variable {lib : DVFilterLib} {pkt : PktHandle} {smallBuffer : List UInt8} {protocol : UInt8}
  {ethtype : UInt16} {offset length : UInt32} {d d' : FilterDirectContext}
  {info r : FilterPktInfo} {base j k j' k' : Nat} {f f' : List UInt8}

theorem parseTransport_eq : parseTransport lib pkt protocol offset d info =
    match transportLen protocol with
    | none => some info
    | some length => parsePorts lib pkt offset length d info := by
  unfold parseTransport transportLen
  by_cases hicmp : protocol = IPPROTO_ICMP ∨ protocol = IPPROTO_ICMPV6
  · rw [if_pos hicmp]
    rcases hicmp with rfl | rfl <;> rfl
  · rw [if_neg hicmp]
    split
    · rfl
    · split <;> rfl

/-- The two cases of the `switch`. -/
theorem parseIp_eq (h : IsIp ethtype) : parseIp lib pkt ethtype offset d info =
    (pktDirectRef lib pkt offset (ipHdrLen ethtype) d).bind fun (ipHeader, d) =>
      match ipHeader with
      | none => some info
      | some p => (bytesAt pkt d.backingBuffer p (ipHdrLen ethtype).toNat).bind fun hdr =>
          parseTransport lib pkt (ipNext ethtype hdr).1 (offset + (ipNext ethtype hdr).2) d
            { info with protocol := (ipNext ethtype hdr).1 } := by
  unfold parseIp ipHdrLen ipNext
  rcases h with rfl | rfl <;> rfl

theorem ethInfo_take {frame : List UInt8} : ethInfo (frame.take 26) info = ethInfo frame info := by
  rw [ethInfo, ethInfo, ethHeaderType_take, ethEncapsulatedPktType_take, ethVlanTagGetVlanID,
    ethVlanTagGetVlanID, tagPriority, tagPriority, byteAt_take (by decide), byteAt_take (by decide)]

/-! ### Headers that are found -/

/-- No Ethernet header: nothing is filled in. -/
theorem parsePacket_apart (hlib : lib.Documented) (hlen : pkt.flatten.length < 2 ^ 32)
    (hno : ∀ j k f, ¬ Fragments.Region pkt 0 26 j k f) :
    parsePacket lib pkt smallBuffer info = some info := by
  obtain ⟨d, href⟩ := ethRef_apart hlib hlen hno
  rw [parsePacket, href]
  rfl

theorem parsePacket_found (hlib : lib.Documented) (hlen : pkt.flatten.length < 2 ^ 32)
    (hreg : Fragments.Region pkt 0 26 j k f) :
    ∃ d, Holds d pkt 0 j k f ∧ parsePacket lib pkt smallBuffer info =
      if IsIp (etherType pkt.flatten) then
        parseIp lib pkt (etherType pkt.flatten) (ipOffset pkt.flatten) d (ethInfo pkt.flatten info)
      else some (ethInfo pkt.flatten info) := by
  obtain ⟨d, href, hd, hbytes⟩ := ethRef_found hlib hlen hreg
  refine ⟨d, hd, ?_⟩
  rw [parsePacket, href]
  simp only [Option.bind_eq_bind, Option.bind_some, hbytes, ethEncapsulatedPktType_take, ethInfo_take]
  change (if etherType pkt.flatten = ETH_TYPE_ARP_NBO then _ else
    if IsIp (etherType pkt.flatten) then _ else _) = _
  split
  · rename_i harp
    rw [harp]
    rfl
  · rfl

/-- The IP header is found, too. -/
theorem parsePacket_ip (hlib : lib.Documented) (hlen : pkt.flatten.length < 2 ^ 32)
    (heth : Fragments.Region pkt 0 26 j k f) (hip : IsIp (etherType pkt.flatten))
    (hreg : Fragments.Region pkt (ipOffset pkt.flatten).toNat
      (ipHdrLen (etherType pkt.flatten)).toNat j' k' f') :
    let ip := (ipOffset pkt.flatten).toNat
    let hdr := (ipHdrLen (etherType pkt.flatten)).toNat
    ∃ d d', Holds d pkt 0 j k f ∧
      ((ip + hdr < f.length - k ∧ d' = d) ∨ (f.length - k ≤ ip + hdr ∧ Holds d' pkt ip j' k' f')) ∧
      parsePacket lib pkt smallBuffer info =
        parseTransport lib pkt (ipProtocol pkt.flatten) (transportOffset pkt.flatten) d'
          { ethInfo pkt.flatten info with protocol := ipProtocol pkt.flatten } := by
  obtain ⟨d, hd, hrun⟩ : ∃ d, Holds d pkt 0 j k f ∧
      parsePacket lib pkt smallBuffer info = _ := parsePacket_found hlib hlen heth
  obtain ⟨d', href, hd'⟩ := ipRef_found hlib hlen hd hreg
  refine ⟨d, d', hd, hd', ?_⟩
  rw [hrun, if_pos hip, parseIp_eq hip, href]
  simp only [Option.bind_some, bytesAt_region hreg, ipNext_take]
  rfl

/-- The ports, at the place they are read from. -/
theorem parsePorts_found
    (href : pktDirectRef lib pkt offset length d = some (some (.frag j k), d')) {off : Nat}
    (hreg : Fragments.Region pkt off 4 j k f) : parsePorts lib pkt offset length d info =
      some { info with
        srcPort := loadAt pkt.flatten off, dstPort := loadAt pkt.flatten (off + 2) } := by
  have hsrc : Memory.read16 ⟨pkt, d'.backingBuffer⟩ (.frag j k) = some (loadAt pkt.flatten off) :=
    Memory.read16_region (hreg.sub (d := 0) (n := 2) (by decide))
  have hdst : Memory.read16 ⟨pkt, d'.backingBuffer⟩ (.frag j (k + 2)) =
      some (loadAt pkt.flatten (off + 2)) :=
    Memory.read16_region (hreg.sub (d := 2) (n := 2) (by decide))
  rw [parsePorts, href]
  simp only [Option.bind_eq_bind, Option.bind_some, DataPtr.add, hsrc, hdst]

theorem transportLen_le (h : transportLen protocol = some length) :
    4 ≤ length.toNat ∧ length.toNat ≤ 20 := by
  unfold transportLen at h
  split at h
  · cases h
    decide
  · split at h
    · cases h
      decide
    · cases h

/-- **Whole headers** are all seen. -/
theorem parsePacket_whole (hlib : lib.Documented) (hlen : pkt.flatten.length < 2 ^ 32)
    (h : HeadersWhole pkt) : parsePacket lib pkt smallBuffer info =
      some (frameInfo pkt.flatten info) := by
  obtain ⟨j, k, f, heth, h⟩ := h
  rw [frameInfo]
  split
  · rename_i hip
    obtain ⟨j', k', f', hreg, h⟩ := h hip
    have hoff := ipOffset_le pkt.flatten
    obtain ⟨d, d', hd, hd', hrun⟩ : ∃ d d', Holds d pkt 0 j k f ∧ _ ∧
        parsePacket lib pkt smallBuffer info = _ := parsePacket_ip hlib hlen heth hip hreg
    rw [hrun, parseTransport_eq]
    cases hl : transportLen (ipProtocol pkt.flatten) with
    | none => rfl
    | some length =>
        obtain ⟨hlo, hhi⟩ := transportLen_le hl
        have hle := transportOffset_le pkt.flatten
        obtain ⟨⟨j'', k'', f'', hport⟩, hends⟩ := h length hl
        have hpos' : 0 < length := UInt32.lt_iff_toNat_lt.2 (show 0 < length.toNat by omega)
        obtain ⟨d'', href'⟩ : ∃ d'', pktDirectRef lib pkt (transportOffset pkt.flatten) length d' =
            some (some (.frag j'' k''), d'') := by
          rcases hd' with ⟨-, rfl⟩ | ⟨hend, hd'⟩
          · obtain ⟨d'', hr, -⟩ := nextRef_found hlib hlen hd hpos' (by omega) hport (.inl rfl)
            exact ⟨d'', hr⟩
          · obtain ⟨d'', hr, -⟩ := nextRef_found hlib hlen hd' hpos' (by omega) hport (by omega)
            exact ⟨d'', hr⟩
        exact parsePorts_found href' (hport.sub (d := 0) (n := 4) (by omega))
  · rename_i hip
    obtain ⟨d, -, hrun⟩ : ∃ d, Holds d pkt 0 j k f ∧
        parsePacket lib pkt smallBuffer info = _ := parsePacket_found hlib hlen heth
    rw [hrun, if_neg hip]

/-! ### Headers that are not -/

theorem parsePorts_keeps (h : parsePorts lib pkt offset length d info = some r) :
    ∃ srcPort dstPort, r = { info with srcPort, dstPort } := by
  obtain ⟨⟨hdr, d'⟩, -, h⟩ := Option.bind_eq_some_iff.mp h
  cases hdr with
  | none =>
      cases h
      exact ⟨_, _, rfl⟩
  | some p =>
      obtain ⟨srcPort, -, h⟩ := Option.bind_eq_some_iff.mp h
      obtain ⟨dstPort, -, h⟩ := Option.bind_eq_some_iff.mp h
      cases h
      exact ⟨srcPort, dstPort, rfl⟩

/-- What was filled in from the Ethernet header stays. -/
theorem parseIp_keeps (hip : IsIp ethtype) (h : parseIp lib pkt ethtype offset d info = some r) :
    ∃ protocol srcPort dstPort, r = { info with protocol, srcPort, dstPort } := by
  rw [parseIp_eq hip] at h
  obtain ⟨⟨hdr, d'⟩, -, h⟩ := Option.bind_eq_some_iff.mp h
  cases hdr with
  | none =>
      cases h
      exact ⟨_, _, _, rfl⟩
  | some p =>
      obtain ⟨bytes, -, h⟩ := Option.bind_eq_some_iff.mp h
      rw [parseTransport_eq] at h
      split at h
      · cases h
        exact ⟨_, _, _, rfl⟩
      · obtain ⟨srcPort, dstPort, rfl⟩ := parsePorts_keeps h
        exact ⟨_, _, _, rfl⟩

theorem parsePacket_keeps (hlib : lib.Documented) (hlen : pkt.flatten.length < 2 ^ 32)
    (hreg : Fragments.Region pkt 0 26 j k f) (h : parsePacket lib pkt smallBuffer info = some r) :
    ∃ protocol srcPort dstPort,
      r = { ethInfo pkt.flatten info with protocol, srcPort, dstPort } := by
  obtain ⟨d, -, hrun⟩ : ∃ d, Holds d pkt 0 j k f ∧
      parsePacket lib pkt smallBuffer info = _ := parsePacket_found hlib hlen hreg
  rw [hrun] at h
  split at h
  · exact parseIp_keeps ‹_› h
  · cases h
    exact ⟨_, _, _, rfl⟩

/-- Where the Ethernet header says nothing, nothing is filled in. -/
theorem parsePacket_blank (hlib : lib.Documented) (hlen : pkt.flatten.length < 2 ^ 32)
    (h : ethInfo pkt.flatten {} = {}) : parsePacket lib pkt smallBuffer {} = some {} := by
  by_cases hreg : ∃ j k f, Fragments.Region pkt 0 26 j k f
  · obtain ⟨j, k, f, hreg⟩ := hreg
    obtain ⟨d, -, hrun⟩ : ∃ d, Holds d pkt 0 j k f ∧
        parsePacket lib pkt smallBuffer {} = _ := parsePacket_found hlib hlen hreg
    have htype : etherType pkt.flatten = 0 := congrArg FilterPktInfo.ethtype h
    rw [hrun, htype, if_neg (by decide), h]
  · exact parsePacket_apart hlib hlen fun j k f h => hreg ⟨j, k, f, h⟩

/-! ### Where the ports are read -/

theorem parsePorts_isSome_iff {i : Nat}
    (href : pktDirectRef lib pkt offset length d = some (some (.frag j i), d'))
    (hf : pkt[j]? = some f) :
    (parsePorts lib pkt offset length d info).isSome ↔ i + 4 ≤ f.length := by
  have hread : ∀ n, (Memory.read16 ⟨pkt, d'.backingBuffer⟩ (.frag j n)).isSome ↔
      n + 2 ≤ f.length := by
    intro n
    rw [Memory.read16, Option.isSome_map, Memory.read, bytesAt, pointee, hf]
    simp only [Option.map_some, Option.bind_eq_bind, Option.bind_some]
    split
    · exact iff_of_true rfl ‹_›
    · exact iff_of_false Bool.false_ne_true ‹_›
  rw [parsePorts, href]
  simp only [Option.bind_eq_bind, Option.bind_some, DataPtr.add]
  constructor
  · intro h
    obtain ⟨r, h⟩ := Option.isSome_iff_exists.1 h
    obtain ⟨srcPort, -, h⟩ := Option.bind_eq_some_iff.mp h
    obtain ⟨dstPort, hdst, -⟩ := Option.bind_eq_some_iff.mp h
    exact (hread (i + 2)).1 (Option.isSome_of_eq_some hdst)
  · intro h
    obtain ⟨srcPort, hsrc⟩ := Option.isSome_iff_exists.1 ((hread i).2 (by omega))
    obtain ⟨dstPort, hdst⟩ := Option.isSome_iff_exists.1 ((hread (i + 2)).2 h)
    rw [hsrc, hdst]
    rfl

/-- A header that is looked up in the packet, or in its first fragment, is found whole, or not at
all. -/
theorem parsePorts_fresh (hlib : lib.Documented) (hlen : pkt.flatten.length < 2 ^ 32)
    (hd : Holds d pkt base j k f) (hl : transportLen protocol = some length)
    (hin : offset.toNat + length.toNat < 2 ^ 32)
    (hbase : base = 0 ∨ base + (f.length - k) ≤ offset.toNat + length.toNat) :
    (parsePorts lib pkt offset length d info).isSome := by
  obtain ⟨hlo, hhi⟩ := transportLen_le hl
  by_cases hreg : ∃ j k f, Fragments.Region pkt offset.toNat length.toNat j k f
  · obtain ⟨j', k', f', hreg⟩ := hreg
    obtain ⟨d', href, -⟩ := nextRef_found hlib hlen hd
      (UInt32.lt_iff_toNat_lt.2 (show 0 < length.toNat by omega)) hin hreg hbase
    have hfits := hreg.fits
    exact (parsePorts_isSome_iff href hreg.frag).2 (by omega)
  · have href := nextRef_apart hlib hlen hd
      (UInt32.lt_iff_toNat_lt.2 (show length.toNat < 128 by omega)) hin
      fun j k f h => hreg ⟨j, k, f, h⟩
    rw [parsePorts, href]
    rfl

/-- The ports of a frame end inside a `uint32_t`. -/
theorem transport_in (hl : transportLen protocol = some length) (frame : List UInt8) :
    (transportOffset frame).toNat + length.toNat < 2 ^ 32 := by
  have hle := transportOffset_le frame
  have hhi := (transportLen_le hl).2
  omega

/-- Where the ports are looked up in the fragment of the IP header, the pointer is past them. -/
theorem parsePacket_held (hlib : lib.Documented) (hlen : pkt.flatten.length < 2 ^ 32)
    (h : PortsHeld pkt j k f) : (parsePacket lib pkt smallBuffer info).isSome ↔
      k + (transportOffset pkt.flatten).toNat + 4 ≤ f.length := by
  obtain ⟨j', k', f', heth, hend⟩ := h.eth
  obtain ⟨length, hl, hlt⟩ := h.ports
  obtain ⟨d, d', -, hd', hrun⟩ : ∃ d d', Holds d pkt 0 j' k' f' ∧ _ ∧
      parsePacket lib pkt smallBuffer info = _ := parsePacket_ip hlib hlen heth h.ip h.hdr
  obtain ⟨-, hd'⟩ := hd'.resolve_left fun k => absurd k.1 (Nat.not_lt.2 hend)
  have hle : (ipOffset pkt.flatten).toNat ≤ (transportOffset pkt.flatten).toNat := by
    rw [transportOffset_toNat]
    exact Nat.le_add_right _ _
  have href : pktDirectRef lib pkt (transportOffset pkt.flatten) length d' = _ :=
    nextRef_stale hlen hd' (transport_in hl pkt.flatten) hle hlt
  rw [hrun, parseTransport_eq, hl]
  exact parsePorts_isSome_iff href h.hdr.frag

/-- Where they are not, the headers are found whole, or not at all. -/
theorem parsePacket_fresh (hlib : lib.Documented) (hlen : pkt.flatten.length < 2 ^ 32)
    (h : ∀ j k f, ¬ PortsHeld pkt j k f) : (parsePacket lib pkt smallBuffer info).isSome := by
  by_cases heth : ∃ j k f, Fragments.Region pkt 0 26 j k f
  swap
  · rw [parsePacket_apart hlib hlen fun j k f h => heth ⟨j, k, f, h⟩]
    rfl
  obtain ⟨j, k, f, heth⟩ := heth
  obtain ⟨d, hd, hrun⟩ : ∃ d, Holds d pkt 0 j k f ∧
      parsePacket lib pkt smallBuffer info = _ := parsePacket_found hlib hlen heth
  by_cases hip : IsIp (etherType pkt.flatten)
  swap
  · rw [hrun, if_neg hip]
    rfl
  by_cases hreg : ∃ j k f, Fragments.Region pkt (ipOffset pkt.flatten).toNat
      (ipHdrLen (etherType pkt.flatten)).toNat j k f
  swap
  · rw [hrun, if_pos hip, parseIp_eq hip,
      ipRef_apart hlib hlen hd fun j k f h => hreg ⟨j, k, f, h⟩]
    rfl
  obtain ⟨j', k', f', hreg⟩ := hreg
  obtain ⟨d, d', hd, hd', hrun⟩ : ∃ d d', Holds d pkt 0 j k f ∧ _ ∧
      parsePacket lib pkt smallBuffer info = _ := parsePacket_ip hlib hlen heth hip hreg
  rw [hrun, parseTransport_eq]
  cases hl : transportLen (ipProtocol pkt.flatten) with
  | none => rfl
  | some length =>
      have hin := transport_in hl pkt.flatten
      rcases hd' with ⟨-, rfl⟩ | ⟨hend, hd'⟩
      · exact parsePorts_fresh hlib hlen hd hl hin (.inl rfl)
      · refine parsePorts_fresh hlib hlen hd' hl hin (.inr ?_)
        by_contra hlt
        exact h j' k' f' ⟨⟨j, k, f, heth, hend⟩, hip, hreg, length, hl, Nat.not_le.1 hlt⟩

/-- **`ParsePacket` reads inside** exactly where the ports are. -/
theorem parsePacket_isSome_iff (hlib : lib.Documented) (hlen : pkt.flatten.length < 2 ^ 32)
    (smallBuffer : List UInt8) (info : FilterPktInfo) :
    (parsePacket lib pkt smallBuffer info).isSome ↔ PortsInside pkt := by
  constructor
  · exact fun h j k f hheld => (parsePacket_held hlib hlen hheld).1 h
  · intro h
    by_cases hheld : ∃ j k f, PortsHeld pkt j k f
    · obtain ⟨j, k, f, hheld⟩ := hheld
      exact (parsePacket_held hlib hlen hheld).2 (h j k f hheld)
    · exact parsePacket_fresh hlib hlen fun j k f k' => hheld ⟨j, k, f, k'⟩

theorem parsedAlike_of {buf₁ buf₂ : List UInt8} {pkt₁ pkt₂ : PktHandle}
    (h₁ : parsePacket lib pkt₁ buf₁ {} = some info) (h₂ : parsePacket lib pkt₂ buf₂ {} = some info) :
    ParsedAlike lib pkt₁ pkt₂ buf₁ buf₂ :=
  ⟨⟨info, h₁, h₂⟩, fun state => by rw [filterDecision, filterDecision, h₁, h₂]⟩

/-- In fragments of one byte each there is no header. -/
theorem division_bytes (frame : List UInt8) : Division frame (frame.map ([·])) ∧
    ∀ j k f, ¬ Fragments.Region (frame.map ([·])) 0 26 j k f := by
  refine ⟨⟨?_, ?_⟩, ?_⟩
  · rw [← List.flatMap_def]
    exact List.flatMap_singleton' frame
  · intro f hf
    obtain ⟨b, -, rfl⟩ := List.mem_map.1 hf
    exact List.cons_ne_nil b []
  · intro j k f hreg
    obtain ⟨b, -, rfl⟩ := List.mem_map.1 hreg.mem
    exact absurd hreg.fits (by simp)

end

/-- **Fragmentation independence**: the frames whose divisions are all parsed alike are those that
have no Ethernet header, or one that says nothing; of the others, the divisions that leave the
headers whole are. -/
theorem parsedAlike_iff {lib : DVFilterLib} (hlib : lib.Documented) (frame : List UInt8)
    (hlen : frame.length < 2 ^ 32) :
    ((∀ pkt₁ pkt₂ buf₁ buf₂, Division frame pkt₁ → Division frame pkt₂ →
        ParsedAlike lib pkt₁ pkt₂ buf₁ buf₂) ↔ frame.length < 26 ∨ ethInfo frame {} = {}) ∧
      ∀ pkt₁ pkt₂ buf₁ buf₂, Division frame pkt₁ → Division frame pkt₂ → HeadersWhole pkt₁ →
        HeadersWhole pkt₂ → ParsedAlike lib pkt₁ pkt₂ buf₁ buf₂ := by
  refine ⟨⟨fun h => ?_, ?_⟩, ?_⟩
  · -- one fragment, and one for each byte
    by_contra hne
    rw [not_or, Nat.not_lt] at hne
    obtain ⟨hbytes, hapart⟩ := division_bytes frame
    have hone : [frame].flatten = frame := List.flatten_singleton
    have hreg : Fragments.Region [frame] 0 26 0 0 frame := ⟨rfl, rfl, by omega⟩
    obtain ⟨⟨info, h₁, h₂⟩, -⟩ := h [frame] (frame.map ([·])) [] [] ⟨hone, fun f hf => by
      rw [List.mem_singleton.1 hf]
      exact List.ne_nil_of_length_pos (by omega)⟩ hbytes
    rw [parsePacket_apart hlib (by rw [hbytes.1]; exact hlen) hapart] at h₂
    cases h₂
    obtain ⟨protocol, srcPort, dstPort, he⟩ :=
      parsePacket_keeps hlib (by rw [hone]; exact hlen) hreg h₁
    rw [hone] at he
    have hfields : ethInfo frame {} = { { ethInfo frame {} with protocol, srcPort, dstPort } with
        protocol := 0, srcPort := 0, dstPort := 0 } := by
      unfold ethInfo
      split <;> rfl
    rw [← he] at hfields
    exact hne.2 hfields
  · intro hor pkt₁ pkt₂ buf₁ buf₂ h₁ h₂
    have blank : ∀ {pkt buf}, Division frame pkt → parsePacket lib pkt buf {} = some {} := by
      rintro pkt buf ⟨rfl, -⟩
      rcases hor with hshort | hblank
      · exact parsePacket_apart hlib hlen fun j k f hreg => by
          have := hreg.le
          omega
      · exact parsePacket_blank hlib hlen hblank
    exact parsedAlike_of (blank h₁) (blank h₂)
  · intro pkt₁ pkt₂ buf₁ buf₂ h₁ h₂ hw₁ hw₂
    have whole : ∀ {pkt buf}, Division frame pkt → HeadersWhole pkt →
        parsePacket lib pkt buf {} = some (frameInfo frame {}) := by
      rintro pkt buf ⟨rfl, -⟩ hw
      exact parsePacket_whole hlib hlen hw
    exact parsedAlike_of (whole h₁ hw₁) (whole h₂ hw₂)

/-- A UDP datagram to port 53, of 42 bytes: in one fragment it matches a filter for the port, and
with the Ethernet header in a fragment of its own it does not. -/
def udpFrame : List UInt8 :=
  List.replicate 12 0 ++ [0x08, 0x00] ++
    [0x45, 0, 0, 28, 0, 0, 0, 0, 64, 17, 0, 0, 10, 0, 0, 1, 10, 0, 0, 2] ++
    [0x12, 0x34, 0, 53, 0, 8, 0, 0]

theorem not_parsedAlike : ¬ ∀ (lib : DVFilterLib) (frame : List UInt8) (pkt₁ pkt₂ : PktHandle)
    (buf₁ buf₂ : List UInt8), lib.Documented → frame.length < 2 ^ 32 → Division frame pkt₁ →
    Division frame pkt₂ → ParsedAlike lib pkt₁ pkt₂ buf₁ buf₂ := by
  intro h
  obtain ⟨-, hdec⟩ := h fragLib udpFrame [udpFrame] [udpFrame.take 14, udpFrame.drop 14] [] []
    fragLib_documented (by decide) ⟨by decide, by decide⟩ ⟨by decide, by decide⟩
  have := hdec { filterICMP := 0, filterUDPPortNBO := 0x3500, filterTCPPortNBO := 0 }
  revert this
  decide

theorem parsedAlike_udpFrame :
    ParsedAlike fragLib [udpFrame] [udpFrame.take 34, udpFrame.drop 34] [] [] :=
  (parsedAlike_iff fragLib_documented udpFrame (by decide)).2 _ _ [] [] ⟨by decide, by decide⟩
    ⟨by decide, by decide⟩
    ⟨0, 0, _, ⟨rfl, by decide, by decide⟩, fun _ => ⟨0, 14, _, ⟨rfl, by decide, by decide⟩,
      fun length h => by
        obtain rfl : 8 = length := Option.some.inj h
        exact ⟨⟨0, 34, _, rfl, by decide, by decide⟩, .inl (by decide)⟩⟩⟩
    ⟨0, 0, _, ⟨rfl, by decide, by decide⟩, fun _ => ⟨0, 14, _, ⟨rfl, by decide, by decide⟩,
      fun length h => by
        obtain rfl : 8 = length := Option.some.inj h
        exact ⟨⟨1, 0, _, rfl, by decide, by decide⟩, .inr (by decide)⟩⟩⟩

end DistDpi
