import DistDpi.Packet.Definitions
import DistDpi.Support.Fragments
import DistDpi.Netx.Filters
import Mathlib.Algebra.Order.Group.Nat

/-!
# Netx — capture

From a packet of DVFilter to `PktMdata`: `ProcessPacket`, `PktDirectRef` and `CopyPacketData` of
`netx_sample_service.c`, and `PacketHandler::PacketProducer`.

A packet is a list of fragments, and a pointer the place of what it points to, in a fragment or in
the backing buffer.  DVFilterLib is a parameter (`DVFilterLib`), with what its header says of it
(`Documented`).  A read or a write outside of what a pointer points into, and a failed `ASSERT`,
are undefined: the computation has no result.
-/

namespace DistDpi

/-- `PktHandle`: the fragments of the packet. -/
abbrev PktHandle := List (List UInt8)

/-- A pointer: into a fragment of the packet, or into the backing buffer. -/
inductive DataPtr where
  | frag (ndx offset : Nat)
  | backing (offset : Nat)
  deriving DecidableEq, Repr

/-- `direct + n`. -/
def DataPtr.add (n : Nat) : DataPtr → DataPtr
  | .frag ndx offset => .frag ndx (offset + n)
  | .backing offset => .backing (offset + n)

/-- The functions of DVFilterLib that look at a packet. -/
structure DVFilterLib where
  getPktLen : PktHandle → UInt32
  /-- The reference, with `lengthLeft`. -/
  getPktFragDirectRange : PktHandle → UInt32 → UInt32 → Option (DataPtr × UInt32)

/-- `dvfilterlib.h`, on packets whose length is a `uint32_t`. -/
structure DVFilterLib.Documented (lib : DVFilterLib) : Prop where
  len : ∀ pkt : PktHandle, pkt.flatten.length < 2 ^ 32 →
    (lib.getPktLen pkt).toNat = pkt.flatten.length
  range_some : ∀ (pkt : PktHandle) (offset length : UInt32) (p : DataPtr) (left : UInt32),
    pkt.flatten.length < 2 ^ 32 → lib.getPktFragDirectRange pkt offset length = some (p, left) →
      ∃ j k f, p = .frag j k ∧ Fragments.Region pkt offset.toNat length.toNat j k f ∧
        left.toNat = f.length - k
  range_none : ∀ (pkt : PktHandle) (offset length : UInt32), pkt.flatten.length < 2 ^ 32 →
    lib.getPktFragDirectRange pkt offset length = none → 0 < length →
      ∀ j k f, ¬ Fragments.Region pkt offset.toNat length.toNat j k f

/-- `filterDirectContext`. -/
structure FilterDirectContext where
  direct : Option DataPtr
  dirOffset : UInt32
  dirLen : UInt32
  backingBuffer : List UInt8
  bbLen : UInt32
  bbAvailable : UInt32
  bbOffset : UInt32
  deriving DecidableEq, Repr

/-- `DirectContextInit`. -/
def directContextInit (buffer : List UInt8) (bbLen : UInt32) : FilterDirectContext where
  direct := none
  dirOffset := 0
  dirLen := 0
  backingBuffer := buffer
  bbLen
  bbAvailable := 0
  bbOffset := 0

/-- What `p` points into, and where. -/
def pointee (pkt : PktHandle) (buffer : List UInt8) : DataPtr → Option (List UInt8 × Nat)
  | .frag ndx offset => pkt[ndx]?.map fun f => (f, offset)
  | .backing offset => some (buffer, offset)

/-- The `n` bytes at `p`. -/
def bytesAt (pkt : PktHandle) (buffer : List UInt8) (p : DataPtr) (n : Nat) :
    Option (List UInt8) := do
  let (data, offset) ← pointee pkt buffer p
  if offset + n ≤ data.length then some ((data.drop offset).take n) else none

/-- The loop of `CopyPacketData`; each turn copies a byte at least, so that `copyLen` turns are
enough. -/
def copyLoop (lib : DVFilterLib) (src : PktHandle) : Nat → List UInt8 → Nat → UInt32 → UInt32 →
    Option (DVFilterStatus × List UInt8)
  | 0, dst, _, _, _ => some (.ok, dst)
  | fuel + 1, dst, at_, offset, copyLen =>
      if copyLen = 0 then some (.ok, dst)
      else match lib.getPktFragDirectRange src offset 0 with
        | none => some (.error, dst)
        | some (srcData, moveLen) => do
            let moveLen := if moveLen > copyLen then copyLen else moveLen
            if moveLen = 0 then none
            else
              let data ← bytesAt src dst srcData moveLen.toNat
              let dst ← copyBytes dst at_ data
              copyLoop lib src fuel dst (at_ + moveLen.toNat) (offset + moveLen)
                (copyLen - moveLen)

/-- `CopyPacketData`. -/
def copyPacketData (lib : DVFilterLib) (dst : List UInt8) (src : PktHandle)
    (offset copyLen : UInt32) : Option (DVFilterStatus × List UInt8) :=
  let copyLen := if copyLen = 0 then lib.getPktLen src - offset else copyLen
  copyLoop lib src copyLen.toNat dst 0 offset copyLen

/-- The end of `PktDirectRef`: the region is copied to the backing buffer. -/
def backingRef (lib : DVFilterLib) (pkt : PktHandle) (offset copyLen : UInt32)
    (direct : FilterDirectContext) : Option (Option DataPtr × FilterDirectContext) := do
  let (status, backingBuffer) ← copyPacketData lib direct.backingBuffer pkt offset copyLen
  let direct := { direct with backingBuffer }
  if status = .ok then
    some (some (.backing 0), { direct with bbOffset := offset, bbAvailable := copyLen })
  else some (none, direct)

/-- `PktDirectRef`.  `copyLen` is `sizeof(direct->bbLen)`. -/
def pktDirectRef (lib : DVFilterLib) (pkt : PktHandle) (offset length : UInt32)
    (direct : FilterDirectContext) : Option (Option DataPtr × FilterDirectContext) :=
  if direct.direct ≠ none ∧ offset ≥ direct.dirOffset ∧
      offset + length < direct.dirOffset + direct.dirLen then
    some (direct.direct.map (DataPtr.add offset.toNat), direct)
  else match lib.getPktFragDirectRange pkt offset length with
    | some (result, fragLen) =>
        some (some result,
          { direct with direct := some result, dirOffset := offset, dirLen := fragLen })
    | none =>
        if offset ≥ direct.bbOffset ∧ offset + length < direct.bbAvailable + direct.bbOffset then
          some (some (.backing offset.toNat), direct)
        else if direct.bbLen ≤ length then
          if 4 + offset > lib.getPktLen pkt then
            let copyLen := lib.getPktLen pkt - offset
            if copyLen < length then some (none, direct)
            else backingRef lib pkt offset copyLen direct
          else backingRef lib pkt offset 4 direct
        else some (none, direct)

/-- `sizeof(Eth_Header)`: two addresses, and the longest of the headers that follow them. -/
def sizeofEthHeader : UInt32 := 6 + 6 + (4 + (2 + 8))

/-- `PktMetadata`: a pointer of the packet, or `NULL`. -/
structure PktMetadata where
  filterPtr : FilterPtr
  pktPtr : Option DataPtr
  dir : UInt8
  deriving DecidableEq, Repr

/-- `mdata.pkt.assign(pktPtr, len)`: `len` bytes, wherever they are. -/
def assign (pkt : PktHandle) (buffer : List UInt8) (pktPtr : Option DataPtr) (len : UInt32) :
    Option (List UInt8) :=
  match pktPtr with
  | none => if len = 0 then some [] else none
  | some p => bytesAt pkt buffer p len.toNat

theorem bytesAt_length {pkt : PktHandle} {buffer bytes : List UInt8} {p : DataPtr} {n : Nat}
    (h : bytesAt pkt buffer p n = some bytes) : bytes.length = n := by
  unfold bytesAt at h
  obtain ⟨⟨data, offset⟩, -, h⟩ := Option.bind_eq_some_iff.mp h
  dsimp only at h
  split at h
  · cases h
    rw [List.length_take, List.length_drop]
    omega
  · cases h

theorem assign_length {pkt : PktHandle} {buffer bytes : List UInt8} {pktPtr : Option DataPtr}
    {len : UInt32} (h : assign pkt buffer pktPtr len = some bytes) : bytes.length = len.toNat := by
  unfold assign at h
  split at h
  · split at h
    · rename_i hlen
      cases h
      rw [hlen]
      rfl
    · cases h
  · exact bytesAt_length h

/-- `PacketHandler::PacketProducer`, up to the write to the queue. -/
def packetProducer (pkt : PktHandle) (buffer : List UInt8) (pktmdata : PktMetadata)
    (len : UInt32) : Option PktMdata :=
  match h : assign pkt buffer pktmdata.pktPtr len with
  | none => none
  | some bytes => some
      { filter := pktmdata.filterPtr
        pkt := bytes
        dir := pktmdata.dir
        lt := assign_length h ▸ len.toNat_lt }

/-- `ProcessPacket` for a filter that is live, up to the call of `ptrcb`.  `frameLen` is a
`uint16_t`. -/
def processPacket (lib : DVFilterLib) (f : FilterPtr) (pkt : PktHandle) (direction : UInt8)
    (smallBuffer : List UInt8) : Option PktMdata := do
  let direct := directContextInit smallBuffer 128
  let frameLen := (lib.getPktLen pkt).toUInt16
  let (buf, direct) ← pktDirectRef lib pkt 0 sizeofEthHeader direct
  packetProducer pkt direct.backingBuffer ⟨f, buf, direction⟩ frameLen.toUInt32

section
variable {lib : DVFilterLib} {pkt : PktHandle} {buffer smallBuffer : List UInt8} {f : FilterPtr}
  {direction : UInt8} {offset length bbLen : UInt32}

/-! ### The reference -/

/-- A fresh context has nothing to offer: what the buffer could hold is not copied. -/
theorem pktDirectRef_fresh (lib : DVFilterLib) (pkt : PktHandle) (offset : UInt32)
    (buffer : List UInt8) (h : length < bbLen) :
    (pktDirectRef lib pkt offset length (directContextInit buffer bbLen)).map Prod.fst =
      some ((lib.getPktFragDirectRange pkt offset length).map Prod.fst) := by
  have hd : ¬ ((directContextInit buffer bbLen).direct ≠ none ∧
      offset ≥ (directContextInit buffer bbLen).dirOffset ∧
      offset + length < (directContextInit buffer bbLen).dirOffset +
        (directContextInit buffer bbLen).dirLen) := fun k => k.1 rfl
  rw [pktDirectRef, if_neg hd]
  cases lib.getPktFragDirectRange pkt offset length with
  | some r => rfl
  | none =>
      have hb : ¬ (offset ≥ (directContextInit buffer bbLen).bbOffset ∧
          offset + length < (directContextInit buffer bbLen).bbAvailable +
            (directContextInit buffer bbLen).bbOffset) := by
        rintro ⟨-, k⟩
        exact Nat.not_lt_zero _ k
      have hl : ¬ (directContextInit buffer bbLen).bbLen ≤ length := by
        intro k
        exact Nat.lt_irrefl _ (Nat.lt_of_lt_of_le h k)
      dsimp only
      rw [if_neg hb, if_neg hl]
      rfl

/-! ### What is captured -/

theorem packetProducer_pkt (pktmdata : PktMetadata) {len : UInt32} :
    (packetProducer pkt buffer pktmdata len).map PktMdata.pkt =
      assign pkt buffer pktmdata.pktPtr len := by
  unfold packetProducer
  split
  · rename_i h
    exact h.symm
  · rename_i h
    exact h.symm

/-- What is captured: as many bytes as `frameLen` says, from where the header is. -/
theorem processPacket_pkt (lib : DVFilterLib) (f : FilterPtr) (pkt : PktHandle) (direction : UInt8)
    (smallBuffer : List UInt8) :
    ∃ buffer, (processPacket lib f pkt direction smallBuffer).map PktMdata.pkt =
      assign pkt buffer ((lib.getPktFragDirectRange pkt 0 sizeofEthHeader).map Prod.fst)
      (lib.getPktLen pkt).toUInt16.toUInt32 := by
  have hr := pktDirectRef_fresh lib pkt 0 smallBuffer (show sizeofEthHeader < 128 by decide)
  obtain ⟨⟨buf, direct⟩, hd, hb⟩ := Option.map_eq_some_iff.mp hr
  refine ⟨direct.backingBuffer, ?_⟩
  rw [← hb, ← packetProducer_pkt ⟨f, buf, direction⟩]
  simp only [processPacket, hd, Option.bind_eq_bind, Option.bind_some]

/-- A read at the start of a fragment. -/
theorem bytesAt_frag {j n : Nat} {data : List UInt8} (h : pkt[j]? = some data) :
    bytesAt pkt buffer (.frag j 0) n = if n ≤ data.length then some (data.take n) else none := by
  simp [bytesAt, pointee, h]

/-- `frameLen`. -/
theorem frameLen_toNat (hlib : lib.Documented) (hlen : pkt.flatten.length < 2 ^ 32) :
    (lib.getPktLen pkt).toUInt16.toUInt32.toNat = pkt.flatten.length % 2 ^ 16 := by
  rw [UInt16.toNat_toUInt32, UInt32.toNat_toUInt16, hlib.len pkt hlen]

/-- As many bytes of the first fragment as `frameLen` says are the frame where the fragment has
them all, and `frameLen` does not truncate. -/
theorem assign_frag {j n : Nat} {data : List UInt8} (h : pkt[j]? = some data)
    (hdata : data <+: pkt.flatten) {len : UInt32} (hn : len.toNat = pkt.flatten.length % n) :
    assign pkt buffer (some (.frag j 0)) len = some pkt.flatten ↔
      data = pkt.flatten ∧ pkt.flatten.length % n = pkt.flatten.length := by
  rw [assign, bytesAt_frag h, hn]
  constructor
  · intro k
    split at k
    · have hl := congrArg List.length (Option.some.inj k)
      rw [List.length_take, Nat.min_eq_left ‹_›] at hl
      refine ⟨hdata.eq_of_length_le ?_, hl⟩
      rw [← hl]
      assumption
    · cases k
  · rintro ⟨rfl, hl⟩
    rw [hl, if_pos (Nat.le_refl _), List.take_length]

/-- Without a pointer there is nothing to read. -/
theorem assign_null {len : UInt32} :
    assign pkt buffer none len = some pkt.flatten ↔ len = 0 ∧ pkt.flatten = [] := by
  rw [assign]
  split
  · simp [eq_comm, *]
  · simp [*]

/-- A header is found at the start of a fragment, which is the start of the frame. -/
theorem header_some (hlib : lib.Documented) (hlen : pkt.flatten.length < 2 ^ 32)
    {r : DataPtr × UInt32} (h : lib.getPktFragDirectRange pkt 0 sizeofEthHeader = some r) :
    ∃ j data, r.1 = .frag j 0 ∧ pkt[j]? = some data ∧ data <+: pkt.flatten ∧
      sizeofEthHeader.toNat ≤ data.length := by
  obtain ⟨j, k, data, hp, hreg, -⟩ := hlib.range_some pkt 0 sizeofEthHeader r.1 r.2 hlen h
  obtain ⟨rfl, hpre⟩ := Fragments.Region.at_start hreg
  refine ⟨j, data, hp, hreg.frag, hpre, ?_⟩
  have hfits := hreg.fits
  rwa [Nat.zero_add] at hfits

/-- As many bytes as `frameLen` says are in the fragment of the headers, or none are asked for. -/
def CaptureInside (pkt : PktHandle) : Prop :=
  pkt.flatten.length % 2 ^ 16 = 0 ∨
    ∃ j k f, Fragments.Region pkt 0 26 j k f ∧ pkt.flatten.length % 2 ^ 16 ≤ f.length

/-- **What is captured is inside** exactly where that fragment has it. -/
theorem processPacket_isSome_iff (hlib : lib.Documented) (hlen : pkt.flatten.length < 2 ^ 32)
    (f : FilterPtr) (direction : UInt8) (smallBuffer : List UInt8) :
    (processPacket lib f pkt direction smallBuffer).isSome ↔ CaptureInside pkt := by
  obtain ⟨buffer, hcap⟩ := processPacket_pkt lib f pkt direction smallBuffer
  have hframe := frameLen_toNat hlib hlen
  rw [← Option.isSome_map, hcap]
  cases hr : lib.getPktFragDirectRange pkt 0 sizeofEthHeader with
  | none =>
      have hno : ¬ ∃ j k f, Fragments.Region pkt 0 26 j k f ∧
          pkt.flatten.length % 2 ^ 16 ≤ f.length :=
        fun ⟨j, k, f, hreg, _⟩ =>
          hlib.range_none pkt 0 sizeofEthHeader hlen hr (by decide) j k f hreg
      rw [Option.map_none, assign, CaptureInside, or_iff_left hno, ← hframe]
      split
      · rename_i hz
        exact iff_of_true rfl (congrArg UInt32.toNat hz)
      · rename_i hne
        exact iff_of_false nofun fun hz => hne (UInt32.toNat_inj.mp hz)
  | some r =>
      obtain ⟨j, data, hp, hj, -⟩ := header_some hlib hlen hr
      obtain ⟨j', k', f', hp', hreg, -⟩ := hlib.range_some pkt 0 sizeofEthHeader r.1 r.2 hlen hr
      rw [hp] at hp'
      cases hp'
      obtain rfl : data = f' := Option.some.inj (hj.symm.trans hreg.frag)
      rw [Option.map_some, hp, assign, bytesAt_frag hj, hframe]
      constructor
      · intro h
        split at h
        · exact .inr ⟨j, 0, data, hreg, ‹_›⟩
        · cases h
      · rintro (hz | ⟨j', k', f', hreg', hle⟩)
        · rw [hz, if_pos (Nat.zero_le _)]
          rfl
        · obtain ⟨-, -, rfl⟩ := hreg.unique hreg' (by decide) (by decide)
          rw [if_pos hle]
          rfl

/-- **Capture fidelity.**  What is captured is the frame exactly where it is empty, or one fragment
has it whole, with room for the headers, and its length is a `uint16_t`. -/
theorem capture_fidelity (hlib : lib.Documented) (hlen : pkt.flatten.length < 2 ^ 32) :
    (processPacket lib f pkt direction smallBuffer).map PktMdata.pkt = some pkt.flatten ↔
      pkt.flatten = [] ∨ (pkt.flatten ∈ pkt ∧ sizeofEthHeader.toNat ≤ pkt.flatten.length ∧
        pkt.flatten.length < 2 ^ 16) := by
  obtain ⟨buffer, hcap⟩ := processPacket_pkt lib f pkt direction smallBuffer
  have hframe := frameLen_toNat hlib hlen
  rw [hcap]
  cases hr : lib.getPktFragDirectRange pkt 0 sizeofEthHeader with
  | none =>
      rw [Option.map_none, assign_null]
      constructor
      · rintro ⟨-, hnil⟩
        exact Or.inl hnil
      · rintro (hnil | ⟨hmem, hroom, -⟩)
        · refine ⟨UInt32.toNat_inj.mp ?_, hnil⟩
          rw [hframe, hnil]
          rfl
        · -- a fragment that is the frame has the headers
          obtain ⟨j, hreg⟩ := Fragments.region_of_whole hmem hroom
          exact absurd hreg (hlib.range_none pkt 0 sizeofEthHeader hlen hr (by decide) j 0 _)
  | some r =>
      -- what is assigned is read from fragment `j` on, up to `frameLen`
      obtain ⟨j, data, hp, hj, hpre, hroom⟩ := header_some hlib hlen hr
      rw [Option.map_some, hp, assign_frag hj hpre hframe]
      constructor
      · rintro ⟨rfl, hl⟩
        refine Or.inr ⟨List.mem_of_getElem? hj, hroom, ?_⟩
        rw [← hl]
        exact Nat.mod_lt _ (by decide)
      · rintro (hnil | ⟨hmem, -, hlt⟩)
        · rw [hnil, List.prefix_nil] at hpre
          rw [hpre] at hroom
          exact absurd hroom (by decide)
        · refine ⟨?_, Nat.mod_eq_of_lt hlt⟩
          apply Fragments.eq_of_whole hmem (List.mem_of_getElem? hj)
          rintro rfl
          exact absurd hroom (by decide)

end

/-! ### A library -/

/-- A library that does what the header says. -/
def fragLib : DVFilterLib where
  getPktLen pkt := UInt32.ofNat pkt.flatten.length
  getPktFragDirectRange pkt offset length :=
    (Fragments.find length.toNat pkt offset.toNat).map fun (ndx, at_, left) =>
      (.frag ndx at_, UInt32.ofNat left)

theorem fragLib_documented : fragLib.Documented where
  len pkt h := UInt32.toNat_ofNat_of_lt h
  range_some pkt offset length p left h hr := by
    obtain ⟨⟨j, k, left⟩, hfind, he⟩ := Option.map_eq_some_iff.mp hr
    cases he
    obtain ⟨f, hreg, rfl⟩ := Fragments.find_some hfind
    refine ⟨j, k, f, rfl, hreg, UInt32.toNat_ofNat_of_lt ?_⟩
    exact Nat.lt_of_le_of_lt (Nat.sub_le _ _)
      (Nat.lt_of_le_of_lt (Fragments.length_le_of_mem hreg.mem) h)
  range_none pkt offset length h hr hl j k f :=
    Fragments.find_none (Option.map_eq_none_iff.mp hr) (UInt32.lt_iff_toNat_lt.mp hl)

/-- The headers are in one fragment, the byte that follows them in another. -/
def headerApart : PktHandle := [List.replicate 26 0, [1]]

set_option maxRecDepth 2000 in
theorem not_capture_fidelity : ¬ ∀ (lib : DVFilterLib) (pkt : PktHandle) (f : FilterPtr)
    (direction : UInt8) (smallBuffer : List UInt8), lib.Documented →
    pkt.flatten.length < 2 ^ 32 → smallBuffer.length = 128 →
      (processPacket lib f pkt direction smallBuffer).map PktMdata.pkt = some pkt.flatten := by
  intro h
  have hc := h fragLib headerApart 0 0 (List.replicate 128 0) fragLib_documented (by decide)
    (by decide)
  revert hc
  decide

theorem capture_fidelity_whole :
    (processPacket fragLib 0 [List.replicate 26 0] 0 []).map PktMdata.pkt =
      some (List.replicate 26 0) :=
  (capture_fidelity fragLib_documented (by decide)).mpr (Or.inr (by decide))

end DistDpi
