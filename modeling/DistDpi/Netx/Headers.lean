import DistDpi.Netx.DirectRef
import DistDpi.Packet.Encoding

/-!
# Netx — headers

`net-protos.h`, as `netx_sample_service.c` reads it: the four layouts of an Ethernet header, and
16-bit fields as a little-endian machine loads and stores them.
-/

namespace DistDpi
open Slices

/-- A `uint16_t` at two bytes. -/
def load16 (b₀ b₁ : UInt8) : UInt16 := ntohs b₁ b₀

/-- The two bytes of a `uint16_t`. -/
def store16 (v : UInt16) : List UInt8 := [v.toUInt8, (v >>> 8).toUInt8]

/-- The `uint16_t` at an offset, as it is loaded. -/
def loadAt (pkt : List UInt8) (off : Nat) : UInt16 := load16 (byteAt pkt off) (byteAt pkt (off + 1))

/-- `Eth_HdrType`. -/
inductive EthHdrType where
  | dix | e802_1pq | e802_3 | e802_1pq_802_3
  deriving DecidableEq, Repr

/-- `EthHeaderType`. -/
def ethHeaderType (eh : List UInt8) : EthHdrType :=
  let type := wordAt eh 12
  if type > 1500 then
    if type ≠ ETH_P_8021Q then .dix
    else
      let type := wordAt eh 16
      if type > 1500 then .e802_1pq else .e802_1pq_802_3
  else .e802_3

/-- `ETH_HEADER_LEN_DIX` and the like. -/
def EthHdrType.len : EthHdrType → UInt32
  | .dix => 14
  | .e802_1pq => 18
  | .e802_3 => 22
  | .e802_1pq_802_3 => 26

/-- `EthEncapsulatedPktType`: the type, as it is loaded, and `offset`. -/
def ethEncapsulatedPktType (eh : List UInt8) : UInt16 × UInt32 :=
  match ethHeaderType eh with
  | .dix => (loadAt eh 12, EthHdrType.dix.len)
  | .e802_1pq => (loadAt eh 16, EthHdrType.e802_1pq.len)
  | .e802_3 => (loadAt eh 20, EthHdrType.e802_3.len)
  | .e802_1pq_802_3 => (loadAt eh 24, EthHdrType.e802_1pq_802_3.len)

def ETH_TYPE_IPV4_NBO : UInt16 := 0x0008

def ETH_TYPE_IPV6_NBO : UInt16 := 0xDD86

/-- `sizeof(struct IPHdr)`. -/
def sizeofIPHdr : UInt32 := 20

/-- `sizeof(struct IPv6Hdr)`. -/
def sizeofIPv6Hdr : UInt32 := 40

/-- `sizeof(struct TCPHdr)`. -/
def sizeofTCPHdr : UInt32 := 20

/-- `sizeof(struct UDPHdr)`. -/
def sizeofUDPHdr : UInt32 := 8

/-- `ETH_TYPE_IPV4_NBO` or `ETH_TYPE_IPV6_NBO`. -/
def IsIp (ethtype : UInt16) : Prop := ethtype = ETH_TYPE_IPV4_NBO ∨ ethtype = ETH_TYPE_IPV6_NBO

instance (ethtype : UInt16) : Decidable (IsIp ethtype) := inferInstanceAs (Decidable (_ ∨ _))

/-! ### The headers of a frame -/

/-- The length of the IP header, less its options. -/
def ipHdrLen (ethtype : UInt16) : UInt32 :=
  if ethtype = ETH_TYPE_IPV6_NBO then sizeofIPv6Hdr else sizeofIPHdr

/-- The `protocol` and the `nextHeaderOffset` of an IP header. -/
def ipNext (ethtype : UInt16) (hdr : List UInt8) : UInt8 × UInt32 :=
  if ethtype = ETH_TYPE_IPV6_NBO then (byteAt hdr 6, sizeofIPv6Hdr)
  else (byteAt hdr 9, (ihl (byteAt hdr 0)).toUInt32 * 4)

/-- The type that the frame's Ethernet header says. -/
def etherType (frame : List UInt8) : UInt16 := (ethEncapsulatedPktType frame).1

/-- Where the header behind it starts. -/
def ipOffset (frame : List UInt8) : UInt32 := (ethEncapsulatedPktType frame).2

/-- The protocol that the frame's IP header says. -/
def ipProtocol (frame : List UInt8) : UInt8 :=
  (ipNext (etherType frame) (frame.drop (ipOffset frame).toNat)).1

/-- Where the header behind it starts. -/
def transportOffset (frame : List UInt8) : UInt32 :=
  ipOffset frame + (ipNext (etherType frame) (frame.drop (ipOffset frame).toNat)).2

/-- What pointers point to: the packet, and the backing buffer. -/
structure Memory where
  pkt : PktHandle
  buffer : List UInt8
  deriving DecidableEq, Repr

namespace Memory

/-- `n` bytes at `p`. -/
def read (m : Memory) (p : DataPtr) (n : Nat) : Option (List UInt8) := bytesAt m.pkt m.buffer p n

/-- A `uint16_t` at `p`. -/
def read16 (m : Memory) (p : DataPtr) : Option UInt16 := (m.read p 2).map fun bytes => loadAt bytes 0

/-- The bytes are written at `p`. -/
def write (m : Memory) (p : DataPtr) (bytes : List UInt8) : Option Memory :=
  match p with
  | .frag ndx offset => do
      let f ← m.pkt[ndx]?
      let f ← copyBytes f offset bytes
      some { m with pkt := m.pkt.set ndx f }
  | .backing offset => do
      let buffer ← copyBytes m.buffer offset bytes
      some { m with buffer }

end Memory

section
variable {frame : List UInt8} {offset j k : Nat} {f : List UInt8} {m : Memory}

/-! ### Reads and writes -/

theorem byteAt_take {n i : Nat} (hi : i < n) : byteAt (frame.take n) i = byteAt frame i := by
  rw [byteAt, byteAt, List.getD_eq_getElem?_getD, List.getD_eq_getElem?_getD,
    List.getElem?_take_of_lt hi]

theorem byteAt_drop (i : Nat) : byteAt (frame.drop offset) i = byteAt frame (offset + i) := by
  rw [byteAt, byteAt, List.getD_eq_getElem?_getD, List.getD_eq_getElem?_getD, List.getElem?_drop]

theorem loadAt_take {n i : Nat} (hi : i + 2 ≤ n) : loadAt (frame.take n) i = loadAt frame i := by
  rw [loadAt, loadAt, byteAt_take (by omega), byteAt_take (by omega)]

theorem wordAt_take {n i : Nat} (hi : i + 2 ≤ n) : wordAt (frame.take n) i = wordAt frame i := by
  rw [wordAt, wordAt, byteAt_take (by omega), byteAt_take (by omega)]

theorem loadAt_drop (i : Nat) : loadAt (frame.drop offset) i = loadAt frame (offset + i) := by
  rw [loadAt, loadAt, byteAt_drop, byteAt_drop, Nat.add_assoc]

/-- The Ethernet header has all that is read of it. -/
theorem ethHeaderType_take : ethHeaderType (frame.take 26) = ethHeaderType frame := by
  have hw : ∀ i, i + 2 ≤ 26 → wordAt (frame.take 26) i = wordAt frame i := fun _ => wordAt_take
  rw [ethHeaderType, ethHeaderType, hw 12 (by omega), hw 16 (by omega)]

theorem ethEncapsulatedPktType_take :
    ethEncapsulatedPktType (frame.take 26) = ethEncapsulatedPktType frame := by
  have hl : ∀ i, i + 2 ≤ 26 → loadAt (frame.take 26) i = loadAt frame i := fun _ => loadAt_take
  rw [ethEncapsulatedPktType, ethEncapsulatedPktType, ethHeaderType_take, hl 12 (by omega),
    hl 16 (by omega), hl 20 (by omega), hl 24 (by omega)]

theorem ipNext_take {ethtype : UInt16} :
    ipNext ethtype (frame.take (ipHdrLen ethtype).toNat) = ipNext ethtype frame := by
  unfold ipNext ipHdrLen
  split
  · rw [byteAt_take (by decide)]
  · rw [byteAt_take (by decide), byteAt_take (by decide)]

theorem ipHdrLen_le (ethtype : UInt16) :
    20 ≤ (ipHdrLen ethtype).toNat ∧ (ipHdrLen ethtype).toNat ≤ 40 := by
  unfold ipHdrLen
  split <;> decide

theorem ethHdrType_len_le (t : EthHdrType) : 14 ≤ t.len.toNat ∧ t.len.toNat ≤ 26 := by
  cases t <;> decide

theorem ihl_mul_toNat (b : UInt8) : ((ihl b).toUInt32 * 4).toNat = 4 * (ihl b).toNat := by
  have hle := Parse.ihl_toNat_le b
  rw [UInt32.toNat_mul, UInt8.toNat_toUInt32]
  change (ihl b).toNat * 4 % 2 ^ 32 = _
  omega

theorem ipNext_le (ethtype : UInt16) (hdr : List UInt8) : (ipNext ethtype hdr).2.toNat ≤ 60 := by
  unfold ipNext
  split
  · exact (by decide : sizeofIPv6Hdr.toNat ≤ 60)
  · have hle := Parse.ihl_toNat_le (byteAt hdr 0)
    rw [ihl_mul_toNat]
    omega

theorem ipOffset_le (frame : List UInt8) :
    14 ≤ (ipOffset frame).toNat ∧ (ipOffset frame).toNat ≤ 26 := by
  unfold ipOffset ethEncapsulatedPktType
  split <;> exact ethHdrType_len_le _

theorem transportOffset_toNat (frame : List UInt8) :
    (transportOffset frame).toNat = (ipOffset frame).toNat +
      (ipNext (etherType frame) (frame.drop (ipOffset frame).toNat)).2.toNat := by
  have h := ipOffset_le frame
  have h' := ipNext_le (etherType frame) (frame.drop (ipOffset frame).toNat)
  exact toNat_add_of_le (by omega)

theorem transportOffset_le (frame : List UInt8) : (transportOffset frame).toNat ≤ 86 := by
  have h := ipOffset_le frame
  have h' := ipNext_le (etherType frame) (frame.drop (ipOffset frame).toNat)
  rw [transportOffset_toNat]
  omega

/-- A read of a region. -/
theorem Memory.read_region {n : Nat} (h : Fragments.Region m.pkt offset n j k f) :
    m.read (.frag j k) n = some ((m.pkt.flatten.drop offset).take n) := bytesAt_region h

theorem Memory.read16_region (h : Fragments.Region m.pkt offset 2 j k f) :
    m.read16 (.frag j k) = some (loadAt m.pkt.flatten offset) := by
  rw [read16, read_region h, Option.map_some, loadAt_take (Nat.le_refl 2), loadAt_drop, Nat.add_zero]

/-- **A write to a region** is one to the packet, and leaves the fragments as long as they are. -/
theorem Memory.write_region {bytes : List UInt8}
    (h : Fragments.Region m.pkt offset bytes.length j k f) :
    ∃ pkt', m.write (.frag j k) bytes = some { m with pkt := pkt' } ∧
      pkt'.flatten = patch m.pkt.flatten offset bytes ∧
      pkt'.map List.length = m.pkt.map List.length ∧
      (∀ {off n k' : Nat}, Fragments.Region m.pkt off n j k' f →
        Fragments.Region pkt' off n j k' (patch f k bytes)) := by
  have hj := (List.getElem?_eq_some_iff.mp h.frag).1
  have hl : (patch f k bytes).length = f.length := length_patch h.fits
  refine ⟨m.pkt.set j (patch f k bytes), ?_, h.set, ?_, ?_⟩
  · simp only [write, h.frag, copyBytes, h.fits, if_true, Option.bind_eq_bind, Option.bind_some]
    rfl
  · rw [List.map_set, hl]
    refine List.ext_getElem? fun i => ?_
    rw [List.getElem?_set, List.length_map]
    split
    · rename_i hi
      rw [← hi, List.getElem?_map, h.frag, Option.map_some]
    · rfl
  · intro off n k' hreg
    refine ⟨List.getElem?_set_self hj, ?_, by rw [hl]; exact hreg.fits⟩
    rw [List.take_set_of_le (Nat.le_refl j)]
    exact hreg.offset_eq

end
end DistDpi
