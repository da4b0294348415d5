import DistDpi.Flow.Definitions
import DistDpi.Netx.Parse

/-!
# Netx — the two parsers

`classifyFlows` of the controller and `ParsePacket` of the agent, on the same frame.  Where
`classifyFlows` passes a TCP or UDP packet on, `ParsePacket` has the same protocol and ports, unless
there are two VLAN tags (`parsers_agree_iff`): the one skips any number of them, the other one.
-/

namespace DistDpi

/-- A chain of `tags` VLAN tags, and an ether type behind it. -/
structure TagChain (frame : List UInt8) (tags : Nat) : Prop where
  le : 14 + 4 * tags ≤ frame.length
  tag : ∀ i < tags, wordAt frame (12 + 4 * i) = ETH_P_8021Q
  last : wordAt frame (12 + 4 * tags) ≠ ETH_P_8021Q

/-- All the headers, behind any number of tags, are inside the frame. -/
def HeadersInside (frame : List UInt8) (protocol : UInt8) : Prop :=
  ∀ tags length, TagChain frame tags → transportLen protocol = some length →
    14 + 4 * tags + 4 * (ihl (byteAt frame (14 + 4 * tags))).toNat + length.toNat ≤ frame.length

/-- **The property.**  `ParsePacket` reports what is in the flow key. -/
def ParsersAgree (lib : DVFilterLib) (frame smallBuffer : List UInt8) (key : ConnKey) : Prop :=
  ∃ info, parsePacket lib [frame] smallBuffer {} = some info ∧
    info.ethtype = ETH_TYPE_IPV4_NBO ∧ info.protocol = key.ipproto ∧
      info.srcPort = htons key.srcport ∧ info.dstPort = htons key.dstport

/-- Two VLAN tags, or more. -/
def DoubleTagged (frame : List UInt8) : Prop :=
  wordAt frame 12 = ETH_P_8021Q ∧ wordAt frame 16 = ETH_P_8021Q

instance (frame : List UInt8) : Decidable (DoubleTagged frame) :=
  inferInstanceAs (Decidable (_ ∧ _))

/-! ### What `classifyFlows` passes on -/

namespace Parse
open Access

section
variable {pkt : List UInt8} {off ethType iph fuel : Nat} {len : UInt32}

theorem reads_byteAt {Q : UInt8 → Prop} :
    Reads (Access.get pkt off : Parse UInt8) Q ↔ off < pkt.length ∧ Q (byteAt pkt off) := by
  rw [reads_get]
  constructor
  · rintro ⟨h, hQ⟩
    rw [byteAt_of_lt h]
    exact ⟨h, hQ⟩
  · rintro ⟨h, hQ⟩
    rw [byteAt_of_lt h] at hQ
    exact ⟨h, hQ⟩

theorem reads_ntohsAt {Q : UInt16 → Prop} :
    Reads (ntohsAt pkt off) Q ↔ off + 2 ≤ pkt.length ∧ Q (wordAt pkt off) := by
  simp only [ntohsAt, reads_bind, reads_byteAt, reads_pure, wordAt]
  constructor
  · rintro ⟨-, h, hQ⟩
    exact ⟨h, hQ⟩
  · rintro ⟨h, hQ⟩
    exact ⟨by omega, h, hQ⟩

/-- The loop ends behind a chain of tags. -/
theorem reads_stripVlans {Q : Nat × UInt32 → Prop} (h : Reads (stripVlans pkt fuel ethType len) Q) :
    ∃ tags len', ethType + 4 * tags + 2 ≤ pkt.length ∧
      (∀ i < tags, wordAt pkt (ethType + 4 * i) = ETH_P_8021Q) ∧
      wordAt pkt (ethType + 4 * tags) ≠ ETH_P_8021Q ∧ Q (ethType + 4 * tags, len') := by
  induction fuel generalizing ethType len with
  | zero => exact h.elim
  | succ fuel ih =>
      simp only [stripVlans, reads_bind, reads_ntohsAt, reads_ite, reads_sub, reads_pure] at h
      obtain ⟨hin, htag, hend⟩ := h
      by_cases hw : wordAt pkt ethType = ETH_P_8021Q
      · obtain ⟨tags, len', hin', htags, hlast, hQ⟩ := ih (htag hw)
        have hoff : ∀ i, ethType + 4 * (i + 1) = ethType + 4 + 4 * i := fun i => by omega
        refine ⟨tags + 1, len', by omega, ?_, by rwa [hoff], by rwa [hoff]⟩
        rintro (_ | i) hi
        · exact hw
        · rw [hoff]
          exact htags i (by omega)
      · exact ⟨0, len, by omega, fun i hi => by omega, hw, hend hw⟩

/-- The ports of a key. -/
theorem reads_populateFlowTable {key : ConnKey} {filter : Nat} {dir : UInt8} {call : InsertCall}
    (h : (populateFlowTable pkt off len key filter dir).Reads (· = call))
    (hproto : call.key.ipproto = IPPROTO_TCP ∨ call.key.ipproto = IPPROTO_UDP) :
    call.key = { key with srcport := wordAt pkt off, dstport := wordAt pkt (off + 2) } := by
  simp only [populateFlowTable, ports, reads_bind, reads_ite, reads_ntohsAt, reads_byteAt, reads_sub,
    reads_pure] at h
  obtain ⟨htcp, h⟩ := h
  by_cases ht : key.ipproto = IPPROTO_TCP
  · obtain ⟨-, -, -, h⟩ := htcp ht
    obtain ⟨_, rfl⟩ := h.exists
    rfl
  · by_cases hu : key.ipproto = IPPROTO_UDP
    · obtain ⟨-, -, h⟩ := (h ht).1 hu
      obtain ⟨_, rfl⟩ := h.exists
      rfl
    · obtain ⟨_, rfl⟩ := ((h ht).2 hu).exists
      exact absurd hproto (not_or.2 ⟨ht, hu⟩)

theorem reads_ipHeader {mdata : PktMdata} {call : InsertCall}
    (h : (ipHeader mdata iph len).Reads (· = some call))
    (hproto : call.key.ipproto = IPPROTO_TCP ∨ call.key.ipproto = IPPROTO_UDP) :
    let hdr := iph + 4 * (ihl (byteAt mdata.pkt iph)).toNat
    5 ≤ (ihl (byteAt mdata.pkt iph)).toNat ∧ call.key.ipproto = byteAt mdata.pkt (iph + 9) ∧
      call.key.srcport = wordAt mdata.pkt hdr ∧ call.key.dstport = wordAt mdata.pkt (hdr + 2) := by
  simp only [ipHeader, reads_bind, reads_byteAt, reads_ntohsAt, reads_ite, reads_pure, reads_sub,
    reduceCtorEq, imp_false] at h
  obtain ⟨-, hsane, h⟩ := h
  obtain ⟨-, hfit, h⟩ := h hsane
  obtain ⟨-, h⟩ := h hfit
  obtain ⟨srcaddr, h⟩ := h.exists
  obtain ⟨dstaddr, h⟩ := h.exists
  simp only [Option.some.injEq] at h
  have hkey := reads_populateFlowTable h hproto
  rw [not_or, UInt8.lt_iff_toNat_lt] at hsane
  exact ⟨Nat.le_of_not_lt hsane.1, by rw [hkey], by rw [hkey], by rw [hkey]⟩

/-- **The key of a TCP or UDP packet**, and what was checked before. -/
theorem reads_classifyFlows {mdata : PktMdata} {call : InsertCall}
    (h : (classifyFlows mdata).Reads (· = some call))
    (hproto : call.key.ipproto = IPPROTO_TCP ∨ call.key.ipproto = IPPROTO_UDP) :
    ∃ tags, TagChain mdata.pkt tags ∧ wordAt mdata.pkt (12 + 4 * tags) = ETH_P_IP ∧
      let iph := 14 + 4 * tags
      let hdr := iph + 4 * (ihl (byteAt mdata.pkt iph)).toNat
      5 ≤ (ihl (byteAt mdata.pkt iph)).toNat ∧ call.key.ipproto = byteAt mdata.pkt (iph + 9) ∧
        call.key.srcport = wordAt mdata.pkt hdr ∧ call.key.dstport = wordAt mdata.pkt (hdr + 2) := by
  rw [classifyFlows, reads_bind, reads_sub, reads_bind] at h
  obtain ⟨tags, len, hin, htags, hlast, h⟩ := reads_stripVlans h
  simp only [reads_bind, reads_ntohsAt, reads_ite, reads_pure, reads_sub, reduceCtorEq,
    Decidable.not_not, imp_false] at h
  obtain ⟨-, htype, h⟩ := h
  refine ⟨tags, ⟨by omega, htags, hlast⟩, htype, ?_⟩
  have hip := h htype
  rw [show 12 + 4 * tags + 2 = 14 + 4 * tags by omega] at hip
  exact reads_ipHeader hip hproto

end
end Parse

/-! ### What `ParsePacket` reports -/

section
variable {frame : List UInt8} {off tags : Nat}

theorem TagChain.unique {tags' : Nat} (h : TagChain frame tags) (h' : TagChain frame tags') :
    tags = tags' := by
  rcases Nat.lt_trichotomy tags tags' with hlt | heq | hlt
  · exact absurd (h'.tag tags hlt) h.last
  · exact heq
  · exact absurd (h.tag tags' hlt) h'.last

/-- Of the chain there is, and of the one length there is. -/
theorem headersInside_of {protocol : UInt8} {length : UInt32} (h : TagChain frame tags)
    (hl : transportLen protocol = some length)
    (hin : 14 + 4 * tags + 4 * (ihl (byteAt frame (14 + 4 * tags))).toNat + length.toNat ≤
      frame.length) : HeadersInside frame protocol := by
  intro tags' length' h' hl'
  obtain rfl := h.unique h'
  cases hl.symm.trans hl'
  exact hin

/-- The bytes of a word. -/
theorem bytes_ntohs {b₀ b₁ : UInt8} :
    (ntohs b₀ b₁ >>> 8).toUInt8 = b₀ ∧ (ntohs b₀ b₁).toUInt8 = b₁ := by
  have h₀ := b₀.toNat_lt
  have h₁ := b₁.toNat_lt
  rw [← UInt8.toNat_inj, ← UInt8.toNat_inj, UInt16.toNat_toUInt8, UInt16.toNat_toUInt8,
    UInt16.toNat_shiftRight, Nat.shiftRight_eq_div_pow, ntohs_toNat]
  simp only [UInt16.reduceToNat, Nat.reduceMod]
  omega

theorem htons_eq (x : UInt16) : htons x = load16 (x >>> 8).toUInt8 x.toUInt8 := by
  have hx := x.toNat_lt
  rw [← UInt16.toNat_inj, load16, ntohs_toNat, htons, UInt16.toNat_or, UInt16.toNat_shiftLeft,
    UInt16.toNat_shiftRight, UInt16.toNat_toUInt8, UInt16.toNat_toUInt8, UInt16.toNat_shiftRight,
    Nat.shiftLeft_eq, Nat.shiftRight_eq_div_pow]
  simp only [UInt16.reduceToNat, Nat.reduceMod]
  rw [show x.toNat * 2 ^ 8 % 2 ^ 16 = 2 ^ 8 * (x.toNat % 2 ^ 8) by omega,
    ← Nat.two_pow_add_eq_or_of_lt (by omega)]
  omega

/-- A field as it is loaded is the one in network order. -/
theorem loadAt_eq_htons : loadAt frame off = htons (wordAt frame off) := by
  rw [htons_eq, wordAt, bytes_ntohs.1, bytes_ntohs.2]
  rfl

/-- One tag at most: the header that `ParsePacket` knows. -/
theorem ethEncapsulatedPktType_of_chain (h : TagChain frame tags) (htags : tags ≤ 1)
    (hip : wordAt frame (12 + 4 * tags) = ETH_P_IP) :
    ethEncapsulatedPktType frame = (ETH_TYPE_IPV4_NBO, .ofNat (14 + 4 * tags)) := by
  have hload : loadAt frame (12 + 4 * tags) = ETH_TYPE_IPV4_NBO := by
    rw [loadAt_eq_htons, hip]
    rfl
  obtain rfl | rfl : tags = 0 ∨ tags = 1 := by omega
  · have hdix : ethHeaderType frame = .dix := by
      rw [ethHeaderType, show wordAt frame 12 = _ from hip]
      rfl
    rw [ethEncapsulatedPktType, hdix]
    exact congrArg (·, _) hload
  · have htag : ethHeaderType frame = .e802_1pq := by
      rw [ethHeaderType, show wordAt frame 12 = _ from h.tag 0 Nat.zero_lt_one,
        show wordAt frame 16 = _ from hip]
      rfl
    rw [ethEncapsulatedPktType, htag]
    exact congrArg (·, _) hload

/-- One tag at most: the offsets that `ParsePacket` has. -/
theorem offsets_of_chain (h : TagChain frame tags) (htags : tags ≤ 1)
    (hip : wordAt frame (12 + 4 * tags) = ETH_P_IP) :
    etherType frame = ETH_TYPE_IPV4_NBO ∧ (ipOffset frame).toNat = 14 + 4 * tags ∧
      ipProtocol frame = byteAt frame (14 + 4 * tags + 9) ∧
      (transportOffset frame).toNat =
        14 + 4 * tags + 4 * (ihl (byteAt frame (14 + 4 * tags))).toNat := by
  have heth := ethEncapsulatedPktType_of_chain h htags hip
  have htype : etherType frame = ETH_TYPE_IPV4_NBO := congrArg Prod.fst heth
  have hoff : (ipOffset frame).toNat = 14 + 4 * tags := by
    rw [ipOffset, heth]
    exact UInt32.toNat_ofNat_of_lt' (show _ < 2 ^ 32 by omega)
  refine ⟨htype, hoff, ?_, ?_⟩
  · rw [ipProtocol, htype, hoff]
    exact byteAt_drop 9
  · rw [transportOffset_toNat, htype, hoff]
    change _ + ((ihl (byteAt (frame.drop (14 + 4 * tags)) 0)).toUInt32 * 4).toNat = _
    rw [ihl_mul_toNat, byteAt_drop, Nat.add_zero]

/-- Two tags or more: the ether type that `ParsePacket` knows is that of a tag. -/
theorem etherType_of_doubleTagged (h : DoubleTagged frame) : etherType frame = 0x0081 := by
  have htag : ethHeaderType frame = .e802_1pq := by
    rw [ethHeaderType, h.1, h.2]
    rfl
  rw [etherType, ethEncapsulatedPktType, htag]
  change loadAt frame 16 = _
  rw [loadAt_eq_htons, h.2]
  rfl

/-- A frame in one fragment has its headers whole. -/
theorem headersWhole_single (hlen : 26 ≤ frame.length)
    (hip : (ipOffset frame).toNat + (ipHdrLen (etherType frame)).toNat < frame.length)
    (hport : ∀ length, transportLen (ipProtocol frame) = some length →
      (transportOffset frame).toNat + length.toNat ≤ frame.length) : HeadersWhole [frame] := by
  have hone : [frame].flatten = frame := List.flatten_singleton
  have region : ∀ {off n : Nat}, off + n ≤ frame.length →
      Fragments.Region [frame] off n 0 off frame := fun h => ⟨rfl, Nat.zero_add _, h⟩
  unfold HeadersWhole
  rw [hone]
  exact ⟨0, 0, frame, region hlen, fun _ => ⟨0, _, frame, region (Nat.le_of_lt hip),
    fun length hl => ⟨⟨0, _, frame, region (hport length hl)⟩, .inl hip⟩⟩⟩

end

/-- **The two parsers agree** on a frame with one VLAN tag at most. -/
theorem parsers_agree_iff {lib : DVFilterLib} (hlib : lib.Documented) (mdata : PktMdata)
    (call : InsertCall) (smallBuffer : List UInt8)
    (h : (Parse.classifyFlows mdata).Reads (· = some call))
    (hproto : call.key.ipproto = IPPROTO_TCP ∨ call.key.ipproto = IPPROTO_UDP)
    (hin : HeadersInside mdata.pkt call.key.ipproto) :
    ParsersAgree lib mdata.pkt smallBuffer call.key ↔ ¬ DoubleTagged mdata.pkt := by
  obtain ⟨tags, hchain, htype, hihl, hkey, hsrc, hdst⟩ := Parse.reads_classifyFlows h hproto
  have hone : [mdata.pkt].flatten = mdata.pkt := List.flatten_singleton
  have hlen : [mdata.pkt].flatten.length < 2 ^ 32 := by rw [hone]; exact mdata.lt
  obtain ⟨length, hl⟩ : ∃ length, transportLen call.key.ipproto = some length := by
    rcases hproto with hp | hp <;> rw [hp] <;> exact ⟨_, rfl⟩
  have hfit := hin tags length hchain hl
  obtain ⟨hlo, -⟩ := transportLen_le hl
  constructor
  · rintro ⟨info, hparse, heth, -⟩ hdouble
    have hreg : Fragments.Region [mdata.pkt] 0 26 0 0 mdata.pkt := ⟨rfl, rfl, by omega⟩
    obtain ⟨_, _, _, rfl⟩ := parsePacket_keeps hlib hlen hreg hparse
    rw [hone] at heth
    change etherType mdata.pkt = _ at heth
    rw [etherType_of_doubleTagged hdouble] at heth
    exact absurd heth (by decide)
  · intro hsingle
    have htags : tags ≤ 1 := by
      by_contra hlt
      exact hsingle ⟨hchain.tag 0 (by omega), hchain.tag 1 (by omega)⟩
    obtain ⟨htypeEq, hoff, hprotoEq, hnext⟩ := offsets_of_chain hchain htags htype
    rw [← hkey] at hprotoEq
    have hhdr : (ipHdrLen (etherType mdata.pkt)).toNat = 20 := by rw [htypeEq]; rfl
    have hwhole : HeadersWhole [mdata.pkt] := by
      refine headersWhole_single (by omega) (by omega) fun length' hl' => ?_
      rw [hprotoEq, hl] at hl'
      cases hl'
      omega
    refine ⟨_, parsePacket_whole hlib hlen hwhole, ?_⟩
    have hsome : transportLen call.key.ipproto ≠ none := by
      rw [hl]
      exact Option.some_ne_none length
    rw [hone, frameInfo, if_pos (.inl htypeEq), hprotoEq, if_neg hsome, hnext]
    exact ⟨htypeEq, rfl, by rw [hsrc]; exact loadAt_eq_htons, by rw [hdst]; exact loadAt_eq_htons⟩

/-- The datagram of `udpFrame`, as it is passed on. -/
def udpCall : InsertCall where
  key := ⟨0x0a000001, 0x0a000002, 0x1234, 53, IPPROTO_UDP⟩
  pktString := []
  filter := 0
  dir := 0

theorem parsers_agree_udpFrame : ParsersAgree fragLib udpFrame [] udpCall.key :=
  (parsers_agree_iff fragLib_documented ⟨0, udpFrame, 0, by decide⟩ udpCall [] (by decide)
    (.inr rfl) (headersInside_of (show TagChain udpFrame 0 from ⟨by decide, by decide, by decide⟩)
      rfl (by decide))).2 (by decide)

/-- The same behind two VLAN tags. -/
def doubleTaggedFrame : List UInt8 :=
  udpFrame.take 12 ++ [0x81, 0x00, 0x00, 0x05, 0x81, 0x00, 0x00, 0x07] ++ udpFrame.drop 12

theorem not_parsers_agree : ¬ ∀ (lib : DVFilterLib) (mdata : PktMdata) (call : InsertCall)
    (smallBuffer : List UInt8), lib.Documented → (Parse.classifyFlows mdata).Reads (· = some call) →
    call.key.ipproto = IPPROTO_TCP ∨ call.key.ipproto = IPPROTO_UDP →
    HeadersInside mdata.pkt call.key.ipproto →
    ParsersAgree lib mdata.pkt smallBuffer call.key := by
  intro h
  obtain ⟨info, hparse, heth, -⟩ := h fragLib ⟨0, doubleTaggedFrame, 0, by decide⟩ udpCall []
    fragLib_documented (by decide) (.inr rfl) (headersInside_of
      (show TagChain doubleTaggedFrame 2 from ⟨by decide, by decide, by decide⟩) rfl (by decide))
  rw [show parsePacket fragLib [doubleTaggedFrame] [] {} =
    some { ethtype := 0x0081, vlanID := 5 } by decide] at hparse
  cases hparse
  exact absurd heth (by decide)

end DistDpi
