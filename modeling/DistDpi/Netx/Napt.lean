import DistDpi.Netx.Headers
import DistDpi.Support.OnesComplement

/-!
# Netx — NAPT

`PerformNAPT` rewrites one port of a TCP packet and updates the checksum from the old one.
Where it has written the port, the segment verifies as before (`performNAPT_checksum`).
-/

namespace DistDpi
open Slices

/-- `DVFILTER_FROM_SWITCH`. -/
def DVFILTER_FROM_SWITCH : UInt8 := 1

/-- `(DVFilterStatus) NO_MATCH`: the first enumerator of `filterAction` has the value of the first of
`DVFilterStatus`. -/
def noMatchStatus : DVFilterStatus := .ok

/-- What `PerformNAPT` returns, the packet as it leaves it, and the TCP header whose port it has
written. -/
structure NaptResult where
  status : DVFilterStatus
  pkt : PktHandle
  wrote : Option DataPtr
  deriving DecidableEq, Repr

/-- The checksum after the update: `HC' = ~(~HC + ~m + m')`, with two folds of a `uint32_t`. -/
def updateCsum (check oldport newport : UInt16) : UInt16 :=
  let csum : UInt32 := (~~~check).toUInt32
  let csum := csum + (newport.toUInt32 + (~~~oldport).toUInt32)
  let csum : UInt32 := (csum &&& (0xffff : UInt32)) + (csum >>> 16)
  let csum : UInt32 := (csum &&& (0xffff : UInt32)) + (csum >>> 16)
  (~~~csum).toUInt16

/-- `&tcpHdr->dest` or `&tcpHdr->source`, from the start of the header. -/
def portOffset (direction : UInt8) : Nat := if direction = DVFILTER_FROM_SWITCH then 2 else 0

/-- The rewrite of the port at the header `tcpHdr`, and of `check`. -/
def rewritePort (isMustCsum : Bool) (m : Memory) (tcpHdr : DataPtr) (newport : UInt16)
    (direction : UInt8) : Option Memory := do
  let oldport ← m.read16 (tcpHdr.add (portOffset direction))
  let m ← m.write (tcpHdr.add (portOffset direction)) (store16 newport)
  if isMustCsum then some m
  else
    let check ← m.read16 (tcpHdr.add 16)
    m.write (tcpHdr.add 16) (store16 (updateCsum check oldport newport))

/-- The `switch` of `PerformNAPT`: the protocol and the length of the header, or the status it
returns. -/
def naptHeader (lib : DVFilterLib) (pkt : PktHandle) (frameLen ethtype : UInt16) (offset : UInt32)
    (direct : FilterDirectContext) :
    Option (Except DVFilterStatus (UInt8 × UInt32 × FilterDirectContext)) :=
  if ethtype = ETH_TYPE_IPV6_NBO then do
    let (ipv6Header, direct) ← pktDirectRef lib pkt offset sizeofIPv6Hdr direct
    match ipv6Header with
    | none => some (.error noMatchStatus)
    | some p => do
        let hdr ← bytesAt pkt direct.backingBuffer p sizeofIPv6Hdr.toNat
        if frameLen.toUInt32 < offset + sizeofIPv6Hdr then some (.error .error)
        else some (.ok (byteAt hdr 6, sizeofIPv6Hdr, direct))
  else do
    let (ipHeader, direct) ← pktDirectRef lib pkt offset sizeofIPHdr direct
    match ipHeader with
    | none => some (.error noMatchStatus)
    | some p => do
        let hdr ← bytesAt pkt direct.backingBuffer p sizeofIPHdr.toNat
        if frameLen.toUInt32 < offset + sizeofIPHdr then some (.error .error)
        else some (.ok (byteAt hdr 9, (ihl (byteAt hdr 0)).toUInt32 * 4, direct))

/-- The branch of `PerformNAPT` for TCP.  A header that is not found fails the `ASSERT`. -/
def naptTcp (lib : DVFilterLib) (isMustCsum : Bool) (pkt : PktHandle) (newport : UInt16)
    (direction : UInt8) (frameLen : UInt16) (offset : UInt32) (direct : FilterDirectContext) :
    Option NaptResult :=
  if frameLen.toUInt32 < offset + sizeofTCPHdr then some ⟨.error, pkt, none⟩
  else do
    let (tcpHdr, direct) ← pktDirectRef lib pkt offset sizeofTCPHdr direct
    let tcpHdr ← tcpHdr
    let m ← rewritePort isMustCsum ⟨pkt, direct.backingBuffer⟩ tcpHdr newport direction
    some ⟨.ok, m.pkt, some tcpHdr⟩

/-- `PerformNAPT`; `isMustCsum` is what `DVFilter_IsMustCsum` says of the packet. -/
def performNAPT (lib : DVFilterLib) (isMustCsum : Bool) (pkt : PktHandle) (newport : UInt16)
    (direction : UInt8) (lclBuf : List UInt8) : Option NaptResult := do
  let frameLen := (lib.getPktLen pkt).toUInt16
  let (buf, direct) ← pktDirectRef lib pkt 0 sizeofEthHeader (directContextInit lclBuf 128)
  match buf with
  | none => some ⟨noMatchStatus, pkt, none⟩
  | some buf => do
      let eh ← bytesAt pkt direct.backingBuffer buf sizeofEthHeader.toNat
      let (ethtype, offset) := ethEncapsulatedPktType eh
      if ethtype = ETH_TYPE_IPV4_NBO ∨ ethtype = ETH_TYPE_IPV6_NBO then
        match ← naptHeader lib pkt frameLen ethtype offset direct with
        | .error status => some ⟨status, pkt, none⟩
        | .ok (protocol, nextHeaderOffset, direct) =>
            if protocol = IPPROTO_TCP then
              naptTcp lib isMustCsum pkt newport direction frameLen (offset + nextHeaderOffset) direct
            else some ⟨.error, pkt, none⟩
      else some ⟨.error, pkt, none⟩

/-! ### The checksum -/

/-- A pseudo-header, less the length of the segment. -/
inductive PseudoHeader where
  | ipv4 (saddr daddr : UInt32)
  | ipv6 (saddr daddr : Vector UInt8 16)

/-- Its bytes, for a segment of `n`. -/
def PseudoHeader.bytes (n : Nat) : PseudoHeader → List UInt8
  | .ipv4 saddr daddr => be32 saddr ++ be32 daddr ++ [0, IPPROTO_TCP] ++ be16 (.ofNat n)
  | .ipv6 saddr daddr =>
      saddr.toList ++ daddr.toList ++ be32 (.ofNat n) ++ [0, 0] ++ [0, IPPROTO_TCP]

/-- The words that are summed: of the pseudo-header, and of the segment. -/
def sumWords (ph : PseudoHeader) (seg : List UInt8) : List UInt16 :=
  OnesComplement.words ntohs 0 (ph.bytes seg.length ++ seg)

/-- The segment verifies. -/
def Verified (ph : PseudoHeader) (seg : List UInt8) : Prop :=
  OnesComplement.sum (sumWords ph seg) = 0xffff

/-- Its checksum is the one computed from scratch, over a checksum field of 0. -/
def FromScratch (ph : PseudoHeader) (seg : List UInt8) : Prop :=
  wordAt seg 16 = OnesComplement.checksum (sumWords ph (patch seg 16 [0, 0]))

instance (ph : PseudoHeader) (seg : List UInt8) : Decidable (Verified ph seg) :=
  inferInstanceAs (Decidable (_ = _))

/-- A fold of the accumulator. -/
theorem toNat_fold (c : UInt32) :
    ((c &&& (0xffff : UInt32)) + (c >>> 16)).toNat = OnesComplement.fold c.toNat := by
  have hc := c.toNat_lt
  have hlow : (c &&& (0xffff : UInt32)).toNat = c.toNat % 2 ^ 16 := by
    rw [UInt32.toNat_and]
    exact Nat.and_two_pow_sub_one_eq_mod c.toNat 16
  have hhigh : (c >>> 16).toNat = c.toNat / 2 ^ 16 := by
    rw [UInt32.toNat_shiftRight, Nat.shiftRight_eq_div_pow]
    rfl
  rw [toNat_add_of_le (by omega), hlow, hhigh, OnesComplement.fold]

theorem updateCsum_eq (check oldport newport : UInt16) :
    updateCsum check oldport newport = OnesComplement.update check oldport newport := by
  have hc := check.toNat_lt
  have ho := oldport.toNat_lt
  have hn := newport.toNat_lt
  have hnot : ∀ v : UInt16, (~~~v).toUInt32.toNat = 65535 - v.toNat := fun v => by
    rw [UInt16.toNat_toUInt32, UInt16.toNat_not]
    rfl
  have hport : (newport.toUInt32 + (~~~oldport).toUInt32).toNat =
      newport.toNat + (65535 - oldport.toNat) := by
    rw [toNat_add_of_le (by rw [hnot, UInt16.toNat_toUInt32]; omega), hnot, UInt16.toNat_toUInt32]
  have hacc : ((~~~check).toUInt32 + (newport.toUInt32 + (~~~oldport).toUInt32)).toNat =
      65535 - check.toNat + newport.toNat + (65535 - oldport.toNat) := by
    rw [toNat_add_of_le (by rw [hnot, hport]; omega), hnot, hport]
    omega
  have hle := OnesComplement.norm_le
    (65535 - check.toNat + newport.toNat + (65535 - oldport.toNat))
  rw [← UInt16.toNat_inj, OnesComplement.toNat_update, updateCsum]
  rw [UInt32.toNat_toUInt16, UInt32.toNat_not, toNat_fold, toNat_fold,
    OnesComplement.fold_fold (UInt32.toNat_lt _), hacc]
  change (4294967296 - 1 - _) % 65536 = _
  omega

/-! ### What is written -/

section
variable {lib : DVFilterLib} {isMustCsum : Bool} {pkt : PktHandle} {newport : UInt16}
  {direction : UInt8} {frame buffer lclBuf seg f : List UInt8} {r : NaptResult} {j k : Nat}

/-- The frame after the rewrite of the port of the segment at `off`. -/
def rewritten (isMustCsum : Bool) (frame : List UInt8) (off : Nat) (newport : UInt16)
    (direction : UInt8) : List UInt8 :=
  let ported := patch frame (off + portOffset direction) (store16 newport)
  if isMustCsum then ported
  else patch ported (off + 16) (store16
    (updateCsum (loadAt frame (off + 16)) (loadAt frame (off + portOffset direction)) newport))

theorem portOffset_cases (direction : UInt8) :
    portOffset direction = 2 * 0 ∨ portOffset direction = 2 * 1 := by
  unfold portOffset
  split
  · exact .inr rfl
  · exact .inl rfl

theorem loadAt_patch {off i : Nat} {ys : List UInt8} (h : off + ys.length ≤ frame.length)
    (hi : i + 2 ≤ off ∨ off + ys.length ≤ i) : loadAt (patch frame off ys) i = loadAt frame i := by
  have hb : ∀ i, i < off ∨ off + ys.length ≤ i → byteAt (patch frame off ys) i = byteAt frame i :=
    fun i hi => by
      rw [byteAt, byteAt, List.getD_eq_getElem?_getD, List.getD_eq_getElem?_getD,
        getElem?_patch h hi]
  rw [loadAt, loadAt, hb i (by omega), hb (i + 1) (by omega)]

/-- **The rewrite**, at a header that is in one fragment. -/
theorem rewritePort_spec {off : Nat} (h : Fragments.Region pkt off 20 j k f) :
    ∃ pkt', rewritePort isMustCsum ⟨pkt, buffer⟩ (.frag j k) newport direction =
        some ⟨pkt', buffer⟩ ∧
      pkt'.flatten = rewritten isMustCsum pkt.flatten off newport direction ∧
      pkt'.map List.length = pkt.map List.length := by
  have hp := portOffset_cases direction
  have hle := h.le
  have hport : Fragments.Region pkt (off + portOffset direction) (store16 newport).length j
      (k + portOffset direction) f := h.sub (show portOffset direction + 2 ≤ 20 by omega)
  obtain ⟨pkt₁, hw₁, hf₁, hl₁, hr₁⟩ := Memory.write_region (m := ⟨pkt, buffer⟩) hport
  have hcheck := (hr₁ h).sub (d := 16) (n := 2) (by omega)
  have hread : Memory.read16 ⟨pkt₁, buffer⟩ (.frag j (k + 16)) =
      some (loadAt pkt.flatten (off + 16)) := by
    rw [Memory.read16_region hcheck, hf₁, loadAt_patch]
    · change off + portOffset direction + 2 ≤ pkt.flatten.length
      omega
    · right
      change off + portOffset direction + 2 ≤ off + 16
      omega
  simp only [rewritePort, DataPtr.add, Memory.read16_region (m := ⟨pkt, buffer⟩) hport, hw₁, hread,
    Option.bind_eq_bind, Option.bind_some]
  cases isMustCsum with
  | true => exact ⟨pkt₁, rfl, hf₁, hl₁⟩
  | false =>
      obtain ⟨pkt₂, hw₂, hf₂, hl₂, -⟩ := Memory.write_region (m := ⟨pkt₁, buffer⟩)
        (show Fragments.Region pkt₁ (off + 16) (store16 (updateCsum (loadAt pkt.flatten (off + 16))
          (loadAt pkt.flatten (off + portOffset direction)) newport)).length j (k + 16) _ from hcheck)
      exact ⟨pkt₂, hw₂, by rw [hf₂, hf₁]; rfl, hl₂.trans hl₁⟩

/-- A run that has written a port is one rewrite. -/
theorem naptTcp_wrote {frameLen : UInt16} {offset : UInt32} {d : FilterDirectContext}
    (h : naptTcp lib isMustCsum pkt newport direction frameLen offset d = some r) {p : DataPtr}
    (hw : r.wrote = some p) :
    ∃ buffer m,
      rewritePort isMustCsum ⟨pkt, buffer⟩ p newport direction = some m ∧ r.pkt = m.pkt := by
  unfold naptTcp at h
  split at h
  · cases h
    cases hw
  · obtain ⟨⟨tcpHdr, direct⟩, -, h⟩ := Option.bind_eq_some_iff.mp h
    obtain ⟨p', hp, h⟩ := Option.bind_eq_some_iff.mp h
    obtain ⟨m, hm, h⟩ := Option.bind_eq_some_iff.mp h
    cases h
    cases hw
    exact ⟨_, m, hm, rfl⟩

theorem performNAPT_wrote (h : performNAPT lib isMustCsum pkt newport direction lclBuf = some r)
    {p : DataPtr} (hw : r.wrote = some p) :
    ∃ buffer m,
      rewritePort isMustCsum ⟨pkt, buffer⟩ p newport direction = some m ∧ r.pkt = m.pkt := by
  obtain ⟨⟨buf, direct⟩, -, h⟩ := Option.bind_eq_some_iff.mp h
  cases buf with
  | none =>
      cases h
      cases hw
  | some buf =>
      obtain ⟨eh, -, h⟩ := Option.bind_eq_some_iff.mp h
      dsimp only at h
      split at h
      · obtain ⟨hdr, -, h⟩ := Option.bind_eq_some_iff.mp h
        cases hdr with
        | error status =>
            cases h
            cases hw
        | ok hdr =>
            dsimp only at h
            split at h
            · exact naptTcp_wrote h hw
            · cases h
              cases hw
      · cases h
        cases hw

/-! ### The segment -/

theorem length_rewritten {off : Nat} (h : off + 20 ≤ frame.length) :
    (rewritten isMustCsum frame off newport direction).length = frame.length := by
  have hp := portOffset_cases direction
  have h₁ : (patch frame (off + portOffset direction) (store16 newport)).length = frame.length :=
    length_patch (show off + portOffset direction + 2 ≤ _ by omega)
  rw [rewritten]
  split
  · exact h₁
  · rw [length_patch (show off + 16 + 2 ≤ _ by omega), h₁]

/-- The rewrite of the frame, seen from the segment. -/
theorem rewritten_segment {off n : Nat} (hn : 20 ≤ n) (h : off + n ≤ frame.length) :
    ((rewritten isMustCsum frame off newport direction).drop off).take n =
      rewritten isMustCsum ((frame.drop off).take n) 0 newport direction := by
  have hp := portOffset_cases direction
  have hl : ((frame.drop off).take n).length = n := length_slice (by omega)
  have hload : ∀ i, i + 2 ≤ 20 →
      loadAt ((frame.drop off).take n) (0 + i) = loadAt frame (off + i) :=
    fun i hi => by rw [Nat.zero_add, loadAt_take (by omega), loadAt_drop]
  -- one write
  have hwrite : ∀ (l : List UInt8) (i : Nat) (v : UInt16), i + 2 ≤ 20 → l.length = frame.length →
      ((patch l (off + i) (store16 v)).drop off).take n =
        patch ((l.drop off).take n) (0 + i) (store16 v) := by
    intro l i v hi hl
    rw [drop_patch (by omega) (by omega), Nat.add_sub_cancel_left, Nat.zero_add,
      take_patch (show i + 2 ≤ n by omega) (by rw [List.length_drop]; omega)]
  have h₁ := hwrite frame (portOffset direction) newport (by omega) rfl
  rw [rewritten, rewritten, hload 16 (by omega), hload (portOffset direction) (by omega)]
  split
  · exact h₁
  · rw [hwrite _ 16 _ (by omega)
      (length_patch (show off + portOffset direction + 2 ≤ _ by omega)), h₁]

/-- Two bytes of the segment, where they stand. -/
theorem at_bytes {i : Nat} (h : i + 2 ≤ seg.length) :
    At seg i [byteAt seg i, byteAt seg (i + 1)] := by
  refine ⟨seg.drop (i + 2), ?_⟩
  rw [byteAt, byteAt, List.getD_eq_getElem?_getD, List.getD_eq_getElem?_getD,
    List.getElem?_eq_getElem (by omega), List.getElem?_eq_getElem (by omega)]
  simp only [Option.getD_some, List.cons_append, List.nil_append]
  rw [List.getElem_cons_drop, List.getElem_cons_drop]

theorem load16_store16 (v : UInt16) : load16 v.toUInt8 (v >>> 8).toUInt8 = v := ntohs_be16 v

/-- A word in network order is 256 times the word as it is loaded, modulo 65535, and the same
where it is all ones. -/
theorem word_mod (a b : UInt8) : (ntohs a b).toNat % 65535 = 256 * (load16 a b).toNat % 65535 ∧
    ((ntohs a b).toNat = 65535 ↔ (load16 a b).toNat = 65535) := by
  have ha := a.toNat_lt
  have hb := b.toNat_lt
  rw [load16, ntohs_toNat, ntohs_toNat]
  omega

/-- The words of a segment, added up. -/
def segTotal (seg : List UInt8) : Nat := OnesComplement.total (OnesComplement.words ntohs 0 seg)

/-- Those of the pseudo-header are not all 0. -/
theorem total_sumWords (ph : PseudoHeader) (n : Nat) : ∃ c, 0 < c ∧ ∀ seg : List UInt8,
    seg.length = n → OnesComplement.total (sumWords ph seg) = c + segTotal seg := by
  have hproto : OnesComplement.total (OnesComplement.words ntohs 0 [0, IPPROTO_TCP]) = 6 := by decide
  cases ph with
  | ipv4 saddr daddr =>
      refine ⟨OnesComplement.total (OnesComplement.words ntohs 0
        ((PseudoHeader.ipv4 saddr daddr).bytes n)), ?_, ?_⟩
      · rw [PseudoHeader.bytes, List.append_assoc, OnesComplement.words_append (n := 4) rfl,
          OnesComplement.words_append (l := [0, IPPROTO_TCP]) (n := 1) rfl,
          OnesComplement.total_append,
          OnesComplement.total_append, hproto]
        omega
      · rintro seg rfl
        rw [sumWords, OnesComplement.words_append (n := 6) rfl, OnesComplement.total_append, segTotal]
  | ipv6 saddr daddr =>
      have hl : ((PseudoHeader.ipv6 saddr daddr).bytes n).length = 2 * 20 := by
        simp only [PseudoHeader.bytes, List.length_append, Vector.length_toList, length_be32,
          List.length_cons, List.length_nil]
      refine ⟨OnesComplement.total (OnesComplement.words ntohs 0
        ((PseudoHeader.ipv6 saddr daddr).bytes n)), ?_, ?_⟩
      · rw [PseudoHeader.bytes, OnesComplement.words_append (n := 19), OnesComplement.total_append,
          hproto]
        · omega
        · simp only [List.length_append, Vector.length_toList, length_be32, List.length_cons,
            List.length_nil]
      · rintro seg rfl
        rw [sumWords, OnesComplement.words_append hl, OnesComplement.total_append, segTotal]

/-- A word of the segment is replaced. -/
theorem segTotal_patch {i : Nat} {v : UInt16} (h : 2 * i + 2 ≤ seg.length) :
    (segTotal (patch seg (2 * i) (store16 v)) + 256 * (loadAt seg (2 * i)).toNat) % 65535 =
      (segTotal seg + 256 * v.toNat) % 65535 := by
  have htotal : segTotal (patch seg (2 * i) (store16 v)) +
      (ntohs (byteAt seg (2 * i)) (byteAt seg (2 * i + 1))).toNat =
      segTotal seg + (ntohs v.toUInt8 (v >>> 8).toUInt8).toNat :=
    OnesComplement.total_patch (at_bytes h)
  have hold := (word_mod (byteAt seg (2 * i)) (byteAt seg (2 * i + 1))).1
  have hnew := (word_mod v.toUInt8 (v >>> 8).toUInt8).1
  rw [load16_store16] at hnew
  rw [loadAt]
  omega

/-- The bytes of a word that was written. -/
theorem byteAt_patch_word {off : Nat} {v : UInt16} (h : off ≤ seg.length) :
    byteAt (patch seg off (store16 v)) off = v.toUInt8 ∧
      byteAt (patch seg off (store16 v)) (off + 1) = (v >>> 8).toUInt8 := by
  have hat : At (patch seg off (store16 v)) off (store16 v) := at_patch h
  exact ⟨byteAt_of_at (i := 0) hat rfl, byteAt_of_at (i := 1) hat rfl⟩

theorem wordAt_patch_word {off : Nat} {v : UInt16} (h : off ≤ seg.length) :
    wordAt (patch seg off (store16 v)) off = ntohs v.toUInt8 (v >>> 8).toUInt8 := by
  obtain ⟨h₀, h₁⟩ := byteAt_patch_word (v := v) h
  rw [wordAt, h₀, h₁]

theorem loadAt_patch_word {off : Nat} {v : UInt16} (h : off ≤ seg.length) :
    loadAt (patch seg off (store16 v)) off = v := by
  obtain ⟨h₀, h₁⟩ := byteAt_patch_word (v := v) h
  rw [loadAt, h₀, h₁, load16_store16]

/-- **The rewrite keeps the sum** of the segment modulo 65535, and brings no checksum of all ones. -/
theorem segTotal_rewritten (h : 20 ≤ seg.length) :
    segTotal (rewritten false seg 0 newport direction) % 65535 = segTotal seg % 65535 ∧
      ((wordAt (rewritten false seg 0 newport direction) 16).toNat = 65535 →
        (wordAt seg 16).toNat = 65535) := by
  obtain ⟨i, hi, hp⟩ : ∃ i, i < 8 ∧ portOffset direction = 2 * i := by
    rcases portOffset_cases direction with hp | hp
    · exact ⟨0, by omega, hp⟩
    · exact ⟨1, by omega, hp⟩
  have hin : 2 * i + (store16 newport).length ≤ seg.length := show 2 * i + 2 ≤ _ by omega
  have hl := length_patch hin
  have hsame : loadAt (patch seg (2 * i) (store16 newport)) (2 * 8) = loadAt seg (2 * 8) :=
    loadAt_patch hin (.inr (show 2 * i + 2 ≤ 2 * 8 by omega))
  have hrew : rewritten false seg 0 newport direction =
      patch (patch seg (2 * i) (store16 newport)) (2 * 8)
        (store16 (OnesComplement.update (loadAt seg (2 * 8)) (loadAt seg (2 * i)) newport)) := by
    rw [rewritten, hp, Nat.zero_add, Nat.zero_add, updateCsum_eq]
    rfl
  rw [hrew]
  constructor
  · -- the port, then the checksum
    have hport := segTotal_patch (v := newport) hin
    have hcheck := segTotal_patch
      (v := OnesComplement.update (loadAt seg (2 * 8)) (loadAt seg (2 * i)) newport)
      (show 2 * 8 + 2 ≤ (patch seg (2 * i) (store16 newport)).length by omega)
    have hmod := OnesComplement.update_mod (loadAt seg (2 * 8)) (loadAt seg (2 * i)) newport
    rw [hsame] at hcheck
    omega
  · intro hmax
    have hword := wordAt_patch_word (v := OnesComplement.update (loadAt seg (2 * 8))
      (loadAt seg (2 * i)) newport)
      (show 2 * 8 ≤ (patch seg (2 * i) (store16 newport)).length by omega)
    rw [← show (16 : Nat) = 2 * 8 from rfl] at hword hmax
    rw [hword, (word_mod _ _).2, load16_store16] at hmax
    exact (word_mod _ _).2.2 (OnesComplement.eq_max_of_update hmax)

/-- **The checksum of the segment** after the rewrite. -/
theorem segment_checksum (ph : PseudoHeader) (h : 20 ≤ seg.length) :
    (Verified ph seg → Verified ph (rewritten false seg 0 newport direction)) ∧
      (FromScratch ph seg → FromScratch ph (rewritten false seg 0 newport direction)) := by
  have hlen : (rewritten false seg 0 newport direction).length = seg.length :=
    length_rewritten (by omega)
  have hrew : segTotal (rewritten false seg 0 newport direction) % 65535 = segTotal seg % 65535 ∧
      ((wordAt (rewritten false seg 0 newport direction) 16).toNat = 65535 →
        (wordAt seg 16).toNat = 65535) := segTotal_rewritten h
  generalize rewritten false seg 0 newport direction = seg' at *
  obtain ⟨hmod, hmax⟩ := hrew
  obtain ⟨c, hc, htotal⟩ := total_sumWords ph seg.length
  constructor
  · intro hv
    refine OnesComplement.sum_eq_max_of_mod ?_ ?_ hv
    · rw [htotal seg rfl, htotal seg' hlen]
      omega
    · rw [htotal seg' hlen]
      omega
  · intro hs
    -- the checksum field, and the rest of the segment
    have split : ∀ l : List UInt8, l.length = seg.length →
        (OnesComplement.total (sumWords ph (patch l 16 [0, 0])) + (wordAt l 16).toNat =
          c + segTotal l) ∧ 0 < OnesComplement.total (sumWords ph (patch l 16 [0, 0])) := by
      intro l hl
      have hz : (patch l 16 [0, 0]).length = l.length := length_patch (show 16 + 2 ≤ _ by omega)
      have hp : segTotal (patch l (2 * 8) [0, 0]) + (wordAt l 16).toNat = segTotal l + 0 :=
        OnesComplement.total_patch (at_bytes (by omega))
      rw [← show (16 : Nat) = 2 * 8 from rfl] at hp
      rw [htotal _ (hz.trans hl)]
      omega
    obtain ⟨hsum, hpos⟩ := split seg rfl
    obtain ⟨hsum', hpos'⟩ := split seg' hlen
    obtain ⟨hzero, hne⟩ := OnesComplement.checksum_mod hpos
    rw [← show wordAt seg 16 = _ from hs] at hzero hne
    refine OnesComplement.eq_checksum_of_mod hpos' (fun k => hne (hmax k)) ?_
    omega

/-- The port is the new one, and nothing but it and the checksum is another. -/
theorem rewritten_bytes {off : Nat} (h : off + 20 ≤ frame.length) :
    loadAt (rewritten isMustCsum frame off newport direction) (off + portOffset direction) =
        newport ∧
      ∀ i, (i < off + portOffset direction ∨ off + portOffset direction + 2 ≤ i) →
        (i < off + 16 ∨ off + 16 + 2 ≤ i) →
        (rewritten isMustCsum frame off newport direction)[i]? = frame[i]? := by
  have hp := portOffset_cases direction
  have hin : off + portOffset direction + (store16 newport).length ≤ frame.length :=
    show off + portOffset direction + 2 ≤ _ by omega
  have hl := length_patch hin
  have hport : loadAt (patch frame (off + portOffset direction) (store16 newport))
      (off + portOffset direction) = newport := loadAt_patch_word (by omega)
  rw [rewritten]
  split
  · exact ⟨hport, fun i hi _ => getElem?_patch hin hi⟩
  · generalize updateCsum (loadAt frame (off + 16)) (loadAt frame (off + portOffset direction))
      newport = c
    have hin' : off + 16 + (store16 c).length ≤
        (patch frame (off + portOffset direction) (store16 newport)).length :=
      show off + 16 + 2 ≤ _ by omega
    refine ⟨?_, fun i hi hi' => ?_⟩
    · rw [loadAt_patch hin' (.inl (by omega)), hport]
    · rw [getElem?_patch hin' hi', getElem?_patch hin hi]

end

/-- The port of the packet's TCP header was written. -/
def NaptResult.RewrotePort (r : NaptResult) (pkt : PktHandle) : Prop :=
  ∃ j k f, r.wrote = some (.frag j k) ∧
    Fragments.Region pkt (transportOffset pkt.flatten).toNat 20 j k f

/-- **The checksum after `PerformNAPT`**, for the segment of any length that the TCP header starts:
a segment that verifies verifies again, and a checksum from scratch stays one.  The port is the new
one, and no other byte changes. -/
theorem performNAPT_checksum (lib : DVFilterLib) (pkt : PktHandle) (newport : UInt16)
    (direction : UInt8) (lclBuf : List UInt8) (r : NaptResult)
    (h : performNAPT lib false pkt newport direction lclBuf = some r) (hw : r.RewrotePort pkt)
    (ph : PseudoHeader) (n : Nat) (hn : 20 ≤ n)
    (hin : (transportOffset pkt.flatten).toNat + n ≤ pkt.flatten.length) :
    let off := (transportOffset pkt.flatten).toNat
    let seg := (pkt.flatten.drop off).take n
    let seg' := (r.pkt.flatten.drop off).take n
    (Verified ph seg → Verified ph seg') ∧ (FromScratch ph seg → FromScratch ph seg') ∧
      loadAt seg' (portOffset direction) = newport ∧
      r.pkt.map List.length = pkt.map List.length ∧
      ∀ i, (i < off + portOffset direction ∨ off + portOffset direction + 2 ≤ i) →
        (i < off + 16 ∨ off + 16 + 2 ≤ i) → r.pkt.flatten[i]? = pkt.flatten[i]? := by
  intro off seg seg'
  obtain ⟨j, k, f, hwrote, hreg⟩ := hw
  obtain ⟨buffer, m, hm, hpkt⟩ := performNAPT_wrote h hwrote
  obtain ⟨pkt', hrew, hflat, hfrags⟩ : ∃ pkt',
      rewritePort false ⟨pkt, buffer⟩ (.frag j k) newport direction = some ⟨pkt', buffer⟩ ∧
        pkt'.flatten = rewritten false pkt.flatten off newport direction ∧
        pkt'.map List.length = pkt.map List.length := rewritePort_spec hreg
  obtain rfl : m = ⟨pkt', buffer⟩ := Option.some.inj (hm.symm.trans hrew)
  change r.pkt = pkt' at hpkt
  have hseg : seg' = rewritten false seg 0 newport direction := by
    rw [← rewritten_segment hn hin, ← hflat, ← hpkt]
  have hl : 20 ≤ seg.length := by
    rw [List.length_take, List.length_drop]
    omega
  have hport : loadAt (rewritten false seg 0 newport direction) (0 + portOffset direction) =
      newport := (rewritten_bytes (by omega)).1
  rw [Nat.zero_add] at hport
  rw [hseg, hpkt, hflat]
  exact ⟨(segment_checksum ph hl).1, (segment_checksum ph hl).2, hport, hfrags,
    (rewritten_bytes (by omega)).2⟩

/-- A TCP segment in IPv4, apart from the headers before it. -/
def tcpPacket : PktHandle :=
  [List.replicate 12 0 ++ [0x08, 0x00] ++
      [0x45, 0, 0, 41, 0, 0, 0, 0, 64, 6, 0, 0, 10, 0, 0, 1, 10, 0, 0, 2],
    [0x12, 0x34, 0, 80, 0, 0, 0, 1, 0, 0, 0, 0, 0x50, 0x10, 0x20, 0, 0x08, 0x4c, 0, 0, 0x61]]

theorem performNAPT_checksum_tcpPacket :
    ∃ r, performNAPT fragLib false tcpPacket 0x901f DVFILTER_FROM_SWITCH [] = some r ∧
      Verified (.ipv4 0x0a000001 0x0a000002) ((r.pkt.flatten.drop 34).take 21) := by
  have hrun : (performNAPT fragLib false tcpPacket 0x901f DVFILTER_FROM_SWITCH []).isSome := by
    decide
  refine ⟨_, (Option.some_get hrun).symm, ?_⟩
  exact (performNAPT_checksum fragLib tcpPacket 0x901f DVFILTER_FROM_SWITCH [] _
    (Option.some_get hrun).symm ⟨1, 0, _, rfl, rfl, by decide, by decide⟩
    (.ipv4 0x0a000001 0x0a000002) 21 (by decide) (by decide)).1 (by decide)

end DistDpi
