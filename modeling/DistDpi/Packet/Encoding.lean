import DistDpi.Packet.Bounds
import DistDpi.Support.Slices

/-!
# Packet — encoding

Frames as they are put on the wire, and that `classifyFlows` finds in them what was put there:
behind any number of tags, an IPv4 header with any options, a TCP or UDP header or none, and in
front of any padding.
-/

namespace DistDpi
open Slices

/-! ### Frames -/

/-- Two bytes in network order. -/
def be16 (v : UInt16) : List UInt8 := [(v >>> 8).toUInt8, v.toUInt8]

/-- Four. -/
def be32 (v : UInt32) : List UInt8 :=
  [(v >>> 24).toUInt8, (v >>> 16).toUInt8, (v >>> 8).toUInt8, v.toUInt8]

/-- `tcphdr`, with its options. -/
structure TcpHeader where
  source : UInt16
  dest : UInt16
  seq : UInt32
  ackSeq : UInt32
  doff : Nat
  res1 : Fin 16
  flags : UInt8
  window : UInt16
  check : UInt16
  urgPtr : UInt16
  doff_ge : 5 ≤ doff
  doff_le : doff ≤ 15
  options : Vector UInt8 (4 * (doff - 5))

/-- `udphdr`. -/
structure UdpHeader where
  source : UInt16
  dest : UInt16
  len : UInt16
  check : UInt16

/-- What is behind the IP header. -/
inductive Transport where
  | tcp (th : TcpHeader)
  | udp (uh : UdpHeader)
  /-- Any other protocol: there is no header to skip. -/
  | other (ipproto : UInt8) (tcp : ipproto ≠ IPPROTO_TCP) (udp : ipproto ≠ IPPROTO_UDP)

/-- `iphdr`, with its options; `tot_len` and `protocol` come from the frame. -/
structure IpHeader where
  ihl : Nat
  tos : UInt8
  id : UInt16
  fragOff : UInt16
  ttl : UInt8
  check : UInt16
  saddr : UInt32
  daddr : UInt32
  ihl_ge : 5 ≤ ihl
  ihl_le : ihl ≤ 15
  options : Vector UInt8 (4 * (ihl - 5))

def TcpHeader.encode (th : TcpHeader) : List UInt8 :=
  be16 th.source ++ be16 th.dest ++ be32 th.seq ++ be32 th.ackSeq ++
    [UInt8.ofNat (16 * th.doff + th.res1), th.flags] ++ be16 th.window ++ be16 th.check ++
    be16 th.urgPtr ++ th.options.toList

def UdpHeader.encode (uh : UdpHeader) : List UInt8 :=
  be16 uh.source ++ be16 uh.dest ++ be16 uh.len ++ be16 uh.check

namespace Transport

def encode : Transport → List UInt8
  | tcp th => th.encode
  | udp uh => uh.encode
  | other _ _ _ => []

def ipproto : Transport → UInt8
  | tcp _ => IPPROTO_TCP
  | udp _ => IPPROTO_UDP
  | other ipproto _ _ => ipproto

def srcport : Transport → UInt16
  | tcp th => th.source
  | udp uh => uh.source
  | other _ _ _ => 0

def dstport : Transport → UInt16
  | tcp th => th.dest
  | udp uh => uh.dest
  | other _ _ _ => 0

end Transport

def IpHeader.encode (iph : IpHeader) (totLen : UInt16) (ipproto : UInt8) : List UInt8 :=
  [UInt8.ofNat (16 * 4 + iph.ihl), iph.tos] ++ be16 totLen ++ be16 iph.id ++ be16 iph.fragOff ++
    [iph.ttl, ipproto] ++ be16 iph.check ++ be32 iph.saddr ++ be32 iph.daddr ++ iph.options.toList

/-- One 0x8100 tag. -/
def encodeTag (tci : UInt16) : List UInt8 := be16 ETH_P_8021Q ++ be16 tci

/-- An IPv4 frame. -/
structure Frame where
  dest : Vector UInt8 6
  source : Vector UInt8 6
  tags : List UInt16
  iph : IpHeader
  transport : Transport
  payload : List UInt8
  padding : List UInt8
  totLen_le : 4 * iph.ihl + transport.encode.length + payload.length ≤ 65535

namespace Frame

/-- `tot_len`: the IP header, what is behind it and the payload. -/
def totLen (frame : Frame) : Nat :=
  4 * frame.iph.ihl + frame.transport.encode.length + frame.payload.length

def encode (frame : Frame) : List UInt8 :=
  frame.dest.toList ++ frame.source.toList ++ frame.tags.flatMap encodeTag ++ be16 ETH_P_IP ++
    frame.iph.encode (UInt16.ofNat frame.totLen) frame.transport.ipproto ++
    frame.transport.encode ++ frame.payload ++ frame.padding

/-- The key of the flow, in host order. -/
def key (frame : Frame) : ConnKey :=
  { srcaddr := frame.iph.saddr, dstaddr := frame.iph.daddr, srcport := frame.transport.srcport,
    dstport := frame.transport.dstport, ipproto := frame.transport.ipproto }

end Frame

/-! ### Words -/

theorem ntohs_toNat (b₀ b₁ : UInt8) : (ntohs b₀ b₁).toNat = 256 * b₀.toNat + b₁.toNat := by
  have h₀ := b₀.toNat_lt
  have h₁ := b₁.toNat_lt
  rw [ntohs, UInt16.toNat_or, UInt16.toNat_shiftLeft, UInt8.toNat_toUInt16, UInt8.toNat_toUInt16,
    Nat.shiftLeft_eq]
  simp only [UInt16.reduceToNat, Nat.reduceMod]
  rw [show b₀.toNat * 2 ^ 8 % 2 ^ 16 = 2 ^ 8 * b₀.toNat by omega,
    ← Nat.two_pow_add_eq_or_of_lt h₁]

theorem ntohs_be16 (v : UInt16) : ntohs (v >>> 8).toUInt8 v.toUInt8 = v := by
  have hv := v.toNat_lt
  rw [← UInt16.toNat_inj, ntohs_toNat, UInt16.toNat_toUInt8, UInt16.toNat_toUInt8,
    UInt16.toNat_shiftRight, Nat.shiftRight_eq_div_pow]
  simp only [UInt16.reduceToNat, Nat.reduceMod]
  omega

theorem ntohl_toNat (b₀ b₁ b₂ b₃ : UInt8) : (ntohl b₀ b₁ b₂ b₃).toNat =
    2 ^ 24 * b₀.toNat + 2 ^ 16 * b₁.toNat + 2 ^ 8 * b₂.toNat + b₃.toNat := by
  have h₀ := b₀.toNat_lt
  have h₁ := b₁.toNat_lt
  have h₂ := b₂.toNat_lt
  have h₃ := b₃.toNat_lt
  simp only [ntohl, UInt32.toNat_or, UInt32.toNat_shiftLeft, UInt8.toNat_toUInt32,
    Nat.shiftLeft_eq, UInt32.reduceToNat, Nat.reduceMod]
  rw [show b₀.toNat * 2 ^ 24 % 2 ^ 32 = 2 ^ 24 * b₀.toNat by omega,
    show b₁.toNat * 2 ^ 16 % 2 ^ 32 = 2 ^ 16 * b₁.toNat by omega,
    show b₂.toNat * 2 ^ 8 % 2 ^ 32 = 2 ^ 8 * b₂.toNat by omega,
    ← Nat.two_pow_add_eq_or_of_lt (by omega),
    show 2 ^ 24 * b₀.toNat + 2 ^ 16 * b₁.toNat = 2 ^ 16 * (2 ^ 8 * b₀.toNat + b₁.toNat) by omega,
    ← Nat.two_pow_add_eq_or_of_lt (by omega),
    show 2 ^ 16 * (2 ^ 8 * b₀.toNat + b₁.toNat) + 2 ^ 8 * b₂.toNat =
      2 ^ 8 * (2 ^ 16 * b₀.toNat + 2 ^ 8 * b₁.toNat + b₂.toNat) by omega,
    ← Nat.two_pow_add_eq_or_of_lt h₃]

theorem ntohl_be32 (v : UInt32) :
    ntohl (v >>> 24).toUInt8 (v >>> 16).toUInt8 (v >>> 8).toUInt8 v.toUInt8 = v := by
  have hv := v.toNat_lt
  rw [← UInt32.toNat_inj, ntohl_toNat]
  simp only [UInt32.toNat_toUInt8, UInt32.toNat_shiftRight, Nat.shiftRight_eq_div_pow,
    UInt32.reduceToNat, Nat.reduceMod]
  omega

theorem ihl_encode {n : Nat} (h : n ≤ 15) : ihl (UInt8.ofNat (16 * 4 + n)) = UInt8.ofNat n ∧
    ipVersion (UInt8.ofNat (16 * 4 + n)) = 4 := by
  have : ∀ n : Fin 16, ihl (UInt8.ofNat (16 * 4 + n)) = UInt8.ofNat n ∧
      ipVersion (UInt8.ofNat (16 * 4 + n)) = 4 := by decide
  exact this ⟨n, by omega⟩

theorem doff_encode {n : Nat} {res1 : Fin 16} (h : n ≤ 15) :
    doff (UInt8.ofNat (16 * n + res1)) = UInt8.ofNat n := by
  have hr := res1.isLt
  rw [← UInt8.toNat_inj, doff, UInt8.toNat_shiftRight, Nat.shiftRight_eq_div_pow,
    UInt8.toNat_ofNat_of_lt' (show 16 * n + res1 < 2 ^ 8 by omega),
    UInt8.toNat_ofNat_of_lt' (show n < 2 ^ 8 by omega)]
  simp only [UInt8.reduceToNat, Nat.reduceMod]
  omega

/-! ### What stands in the packet -/

section
variable {pkt ys : List UInt8} {off ptr : Nat}

theorem byteAt_of_at {i : Nat} {b : UInt8} (h : At pkt off ys) (hb : ys[i]? = some b) :
    byteAt pkt (off + i) = b := by
  rw [byteAt, List.getD_eq_getElem?_getD, h.getElem? hb, Option.getD_some]

theorem wordAt_of_at {v : UInt16} (h : At pkt off (be16 v)) :
    off + 2 ≤ pkt.length ∧ wordAt pkt off = v := by
  have h₀ : byteAt pkt off = _ := byteAt_of_at (i := 0) h rfl
  have h₁ := byteAt_of_at (i := 1) h rfl
  refine ⟨h.le Nat.zero_lt_two, ?_⟩
  rw [wordAt, h₀, h₁]
  exact ntohs_be16 v

theorem longAt_of_at {v : UInt32} (h : At pkt off (be32 v)) : off + 4 ≤ pkt.length ∧
    ntohl (byteAt pkt off) (byteAt pkt (off + 1)) (byteAt pkt (off + 2)) (byteAt pkt (off + 3)) =
      v := by
  have h₀ : byteAt pkt off = _ := byteAt_of_at (i := 0) h rfl
  have h₁ := byteAt_of_at (i := 1) h rfl
  have h₂ := byteAt_of_at (i := 2) h rfl
  have h₃ := byteAt_of_at (i := 3) h rfl
  refine ⟨h.le (Nat.zero_lt_succ 3), ?_⟩
  rw [h₀, h₁, h₂, h₃]
  exact ntohl_be32 v

@[simp] theorem length_be16 (v : UInt16) : (be16 v).length = 2 := rfl

@[simp] theorem length_be32 (v : UInt32) : (be32 v).length = 4 := rfl

theorem length_tags (tags : List UInt16) : (tags.flatMap encodeTag).length = 4 * tags.length := by
  induction tags with
  | nil => rfl
  | cons tci tags ih =>
      rw [List.flatMap_cons, List.length_append, ih, List.length_cons]
      simp only [encodeTag, List.length_append, length_be16]
      omega

/-- The tags, one behind the other. -/
theorem tags_of_at {tags : List UInt16} (h : At pkt off (tags.flatMap encodeTag)) :
    ∀ i < tags.length, wordAt pkt (off + 4 * i) = ETH_P_8021Q := by
  induction tags generalizing off with
  | nil => exact fun i hi => absurd hi (Nat.not_lt_zero i)
  | cons tci tags ih =>
      rintro (_ | i) hi
      · exact (wordAt_of_at h.left.left).2
      · have := ih h.right i (Nat.lt_of_succ_lt_succ hi)
        rwa [show off + (encodeTag tci).length + 4 * i = off + 4 * (i + 1) by
          simp only [encodeTag, List.length_append, length_be16]; omega] at this

@[simp] theorem IpHeader.length_encode (iph : IpHeader) (totLen : UInt16) (ipproto : UInt8) :
    (iph.encode totLen ipproto).length = 4 * iph.ihl := by
  have := iph.ihl_ge
  simp only [encode, List.length_append, List.length_cons, List.length_nil, length_be16,
    length_be32, Vector.length_toList]
  omega

/-- The fields of an IP header that are read. -/
theorem IpHeader.fields_of_at {iph : IpHeader} {totLen : UInt16} {ipproto : UInt8}
    (h : At pkt off (iph.encode totLen ipproto)) :
    byteAt pkt off = UInt8.ofNat (16 * 4 + iph.ihl) ∧ wordAt pkt (off + 2) = totLen ∧
      byteAt pkt (off + 9) = ipproto ∧
      ntohl (byteAt pkt (off + 12)) (byteAt pkt (off + 13)) (byteAt pkt (off + 14))
        (byteAt pkt (off + 15)) = iph.saddr ∧
      ntohl (byteAt pkt (off + 16)) (byteAt pkt (off + 17)) (byteAt pkt (off + 18))
        (byteAt pkt (off + 19)) = iph.daddr := by
  simp only [encode, at_append, List.length_append, List.length_cons, List.length_nil, length_be16,
    length_be32] at h
  obtain ⟨⟨⟨⟨⟨⟨⟨⟨hfirst, htot⟩, -⟩, -⟩, hproto⟩, -⟩, hsaddr⟩, hdaddr⟩, -⟩ := h
  exact ⟨byteAt_of_at (i := 0) hfirst rfl, (wordAt_of_at htot).2,
    byteAt_of_at (i := 1) hproto rfl, (longAt_of_at hsaddr).2, (longAt_of_at hdaddr).2⟩

theorem TcpHeader.length_encode (th : TcpHeader) : th.encode.length = 4 * th.doff := by
  have := th.doff_ge
  simp only [encode, List.length_append, List.length_cons, List.length_nil, length_be16,
    length_be32, Vector.length_toList]
  omega

/-- The fields of a TCP header that are read. -/
theorem TcpHeader.fields_of_at {th : TcpHeader} (h : At pkt off th.encode) :
    wordAt pkt off = th.source ∧ wordAt pkt (off + 2) = th.dest ∧
      byteAt pkt (off + 12) = UInt8.ofNat (16 * th.doff + th.res1) := by
  simp only [encode, at_append, List.length_append, length_be16, length_be32] at h
  obtain ⟨⟨⟨⟨⟨⟨⟨⟨hsource, hdest⟩, -⟩, -⟩, hdoff⟩, -⟩, -⟩, -⟩, -⟩ := h
  exact ⟨(wordAt_of_at hsource).2, (wordAt_of_at hdest).2, byteAt_of_at (i := 0) hdoff rfl⟩

theorem UdpHeader.fields_of_at {uh : UdpHeader} (h : At pkt off uh.encode) :
    wordAt pkt off = uh.source ∧ wordAt pkt (off + 2) = uh.dest := by
  simp only [encode, at_append, List.length_append, length_be16] at h
  obtain ⟨⟨⟨hsource, hdest⟩, -⟩, -⟩ := h
  exact ⟨(wordAt_of_at hsource).2, (wordAt_of_at hdest).2⟩

/-! ### The parser -/

namespace Parse
open Access

/-- The payload, where it stands. -/
theorem safe_slice_of_at {payload : List UInt8} (h : At pkt off payload) {len : Nat}
    (hlen : len = payload.length) {Q : List UInt8 → Prop} (hQ : Q payload) :
    Safe (Access.slice pkt off len : Parse (List UInt8)) Q := by
  rw [safe_slice, hlen, h.take]
  refine ⟨?_, hQ⟩
  rcases Nat.eq_zero_or_pos payload.length with hz | hpos
  · exact .inl hz
  · exact .inr (h.le hpos)

/-- **`populateFlowTable`** on a header with its payload behind. -/
theorem safe_populateFlowTable_encode {transport : Transport} {payload : List UInt8}
    {srcaddr dstaddr len : UInt32} {filter : Nat} {dir : UInt8}
    (h : At pkt ptr (transport.encode ++ payload))
    (hlen : len.toNat = transport.encode.length + payload.length) :
    Safe (populateFlowTable pkt ptr len
      { srcaddr, dstaddr, srcport := 0, dstport := 0, ipproto := transport.ipproto } filter dir)
      (· = { key := { srcaddr, dstaddr, srcport := transport.srcport,
                      dstport := transport.dstport, ipproto := transport.ipproto }
             pktString := payload, filter, dir }) := by
  have hpay := h.right
  rw [populateFlowTable, ports, safe_bind]
  cases transport with
  | tcp th =>
      have hle := th.doff_le
      have hge := th.doff_ge
      have hl := th.length_encode
      have hin := At.le h.left (by rw [Transport.encode, hl]; omega)
      obtain ⟨hsource, hdest, hdoff⟩ := th.fields_of_at h.left
      have hof : (UInt8.ofNat th.doff).toNat = th.doff :=
        UInt8.toNat_ofNat_of_lt' (Nat.lt_of_le_of_lt hle (by decide))
      have hwords := toNat_shiftLeft_two (b := UInt8.ofNat th.doff) (by omega)
      rw [Transport.encode, hl] at hin hlen hpay
      have hsub : (UInt8.ofNat th.doff).toUInt32 <<< 2 ≤ len := by
        rw [UInt32.le_iff_toNat_le]
        omega
      have hleft := UInt32.toNat_sub_of_le _ _ hsub
      simp only [Transport.ipproto, ↓reduceIte, safe_bind, safe_ntohsAt, safe_byteAt, safe_sub,
        safe_pure, hsource, hdest, hdoff, doff_encode hle, hof]
      exact ⟨by omega, by omega, by omega, hsub, safe_slice_of_at hpay (by omega) rfl⟩
  | udp uh =>
      have htcp : IPPROTO_UDP ≠ IPPROTO_TCP := by decide
      have hl : uh.encode.length = 8 := rfl
      have hin := At.le h.left (by rw [Transport.encode, hl]; omega)
      obtain ⟨hsource, hdest⟩ := uh.fields_of_at h.left
      rw [Transport.encode, hl] at hin hlen hpay
      have hsub : (8 : UInt32) ≤ len := by
        rw [UInt32.le_iff_toNat_le]
        exact hlen ▸ Nat.le_add_right 8 _
      have hleft := UInt32.toNat_sub_of_le _ _ hsub
      change _ = _ - 8 at hleft
      simp only [Transport.ipproto, htcp, ↓reduceIte, safe_bind, safe_ntohsAt, safe_sub, safe_pure,
        hsource, hdest]
      exact ⟨by omega, by omega, hsub, safe_slice_of_at hpay (by omega) rfl⟩
  | other ipproto tcp udp =>
      simp only [Transport.ipproto, tcp, udp, ↓reduceIte, safe_bind, safe_pure]
      exact safe_slice_of_at hpay (by rw [hlen, Transport.encode]; simp) rfl

/-- **The IP header**, with what it carries behind. -/
theorem safe_ipHeader_encode {mdata : PktMdata} {iph : Nat} {header : IpHeader}
    {transport : Transport} {payload : List UInt8} {totLen : UInt16} {len : UInt32}
    (h : At mdata.pkt iph
      (header.encode totLen transport.ipproto ++ (transport.encode ++ payload)))
    (htot : totLen.toNat = 4 * header.ihl + transport.encode.length + payload.length)
    (hlen : totLen.toNat ≤ len.toNat) :
    Safe (ipHeader mdata iph len)
      (· = some
        { key := { srcaddr := header.saddr, dstaddr := header.daddr, srcport := transport.srcport,
                   dstport := transport.dstport, ipproto := transport.ipproto }
          pktString := payload, filter := mdata.filter, dir := mdata.dir }) := by
  have hge := header.ihl_ge
  have hle := header.ihl_le
  have hin := At.le h.left (by rw [header.length_encode]; omega)
  obtain ⟨hfirst, htotLen, hproto, hsaddr, hdaddr⟩ := header.fields_of_at h.left
  obtain ⟨hihl, hversion⟩ := ihl_encode hle
  have hof : (UInt8.ofNat header.ihl).toNat = header.ihl :=
    UInt8.toNat_ofNat_of_lt' (Nat.lt_of_le_of_lt hle (by decide))
  have hwords := toNat_shiftLeft_two (b := UInt8.ofNat header.ihl) (by omega)
  have hsane : ¬ (UInt8.ofNat header.ihl < 5 ∨ (4 : UInt8) ≠ 4) := by
    rw [UInt8.lt_iff_toNat_lt, hof]
    exact fun h => h.elim (Nat.not_lt_of_le hge) (absurd rfl)
  have hfit : ¬ len < totLen.toUInt32 := by
    rw [UInt32.lt_iff_toNat_lt]
    exact Nat.not_lt_of_le hlen
  have hsub : (UInt8.ofNat header.ihl).toUInt32 <<< 2 ≤ totLen.toUInt32 := by
    rw [UInt32.le_iff_toNat_le, hwords, hof, UInt16.toNat_toUInt32, htot]
    omega
  have hleft := UInt32.toNat_sub_of_le _ _ hsub
  rw [header.length_encode] at hin
  have hnext := h.right
  rw [header.length_encode] at hnext
  rw [hwords, hof, UInt16.toNat_toUInt32, htot] at hleft
  simp only [ipHeader, safe_bind, safe_byteAt, safe_ntohsAt, safe_ntohlAt, safe_sub, safe_ite,
    safe_pure, hfirst, htotLen, hproto, hsaddr, hdaddr, hihl, hversion, hof]
  refine ⟨by omega, fun h => absurd h hsane, fun _ => ⟨by omega, fun h => absurd h hfit, fun _ =>
    ⟨by omega, by omega, by omega, hsub, ?_⟩⟩⟩
  refine (safe_populateFlowTable_encode hnext (by omega)).mono ?_
  rintro call rfl
  rfl

end Parse

/-- The parts of a frame, where they stand. -/
theorem Frame.at_encode {frame : Frame} (h : At pkt 0 frame.encode) :
    At pkt 12 (frame.tags.flatMap encodeTag) ∧
      At pkt (12 + 4 * frame.tags.length) (be16 ETH_P_IP) ∧
      At pkt (14 + 4 * frame.tags.length)
        (frame.iph.encode (UInt16.ofNat frame.totLen) frame.transport.ipproto ++
          (frame.transport.encode ++ frame.payload)) := by
  have hnext : 12 + 4 * frame.tags.length + 2 = 14 + 4 * frame.tags.length := by omega
  simp only [encode, List.append_assoc] at h
  have htags := h.right.right
  have htype := htags.right
  have hip := htype.right
  simp only [Vector.length_toList, length_tags, length_be16, hnext, Nat.zero_add,
    Nat.reduceAdd] at htags htype hip
  refine ⟨htags.left, htype.left, ?_⟩
  rw [← List.append_assoc (frame.transport.encode), ← List.append_assoc] at hip
  exact hip.left

end

/-- **Parsing undoes encoding.** -/
theorem classifyFlows_encode (mdata : PktMdata) (frame : Frame) (h : mdata.pkt = frame.encode) :
    (Parse.classifyFlows mdata).Safe
      (· = some { key := frame.key, pktString := frame.payload, filter := mdata.filter,
                  dir := mdata.dir }) := by
  have htotLen : (UInt16.ofNat frame.totLen).toNat = frame.totLen :=
    UInt16.toNat_ofNat_of_lt' (Nat.lt_succ_of_le frame.totLen_le)
  have hge := frame.iph.ihl_ge
  obtain ⟨htags, htype, hip⟩ := frame.at_encode (show At mdata.pkt 0 _ from h ▸ at_zero)
  obtain ⟨hin, htype⟩ := wordAt_of_at htype
  have hfit := hip.le (by rw [List.length_append, IpHeader.length_encode]; omega)
  simp only [List.length_append, IpHeader.length_encode] at hfit
  have hnot : ETH_P_IP ≠ ETH_P_8021Q := by decide
  refine Parse.safe_classifyFlows.2
    ⟨frame.tags.length, by omega, tags_of_at htags, htype ▸ hnot, fun h => absurd htype h, ?_⟩
  intro _ len hlen
  exact Parse.safe_ipHeader_encode hip htotLen (by rw [htotLen, Frame.totLen]; omega)

/-- A frame with two tags, options in both headers and two bytes of padding. -/
def taggedFrame : Frame where
  dest := .replicate 6 0xaa
  source := .replicate 6 0xbb
  tags := [0x2007, 0x0009]
  iph := { ihl := 6, tos := 0, id := 1, fragOff := 0, ttl := 64, check := 0, saddr := 0x0a000001
           daddr := 0x0a000002, ihl_ge := by decide, ihl_le := by decide
           options := .replicate 4 1 }
  transport := .tcp
    { source := 4000, dest := 80, seq := 7, ackSeq := 0, doff := 6, res1 := 3, flags := 2
      window := 0, check := 0, urgPtr := 0, doff_ge := by decide, doff_le := by decide
      options := .replicate 4 2 }
  payload := [1, 2, 3]
  padding := [0, 0]
  totLen_le := by decide

theorem classifyFlows_encode_taggedFrame :
    (Parse.classifyFlows
      { filter := 5, pkt := taggedFrame.encode, dir := 1, lt := by decide }).Safe
      (· = some { key := ⟨0x0a000001, 0x0a000002, 4000, 80, 6⟩, pktString := [1, 2, 3], filter := 5
                  dir := 1 }) :=
  classifyFlows_encode _ taggedFrame rfl

end DistDpi
