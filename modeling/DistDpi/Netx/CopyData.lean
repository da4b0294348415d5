import DistDpi.Netx.Capture

/-!
# Netx — copying data out of a packet

`CopyPacketData` copies a slice of a packet that is in fragments.  A turn asks for the fragment of
the next byte and copies what that has left, or what is left to copy (`copyLoop_some`); what was
written before and what is written then join (`patch_take_drop`).

A loop that has ended has copied the slice (`copyLoop_spec`).  Where the answer to a lookup is a
pointer to a byte of the packet (`FindsByte`) every turn copies something, so that the loop ends
(`copyPacketData_exact`).
-/

namespace DistDpi
open Slices

/-- `dvfilterlib.h`, on an empty region: inside the packet it is in a fragment. -/
def DVFilterLib.FindsEmpty (lib : DVFilterLib) : Prop :=
  ∀ (pkt : PktHandle) (offset : UInt32), pkt.flatten.length < 2 ^ 32 →
    offset.toNat < pkt.flatten.length → lib.getPktFragDirectRange pkt offset 0 ≠ none

/-- `dvfilterlib.h`, on the same: 'Pointer within a fragment identified by the offset'. -/
def DVFilterLib.FindsByte (lib : DVFilterLib) : Prop :=
  ∀ (pkt : PktHandle) (offset : UInt32), pkt.flatten.length < 2 ^ 32 →
    offset.toNat < pkt.flatten.length → ∃ j k f left,
      lib.getPktFragDirectRange pkt offset 0 = some (.frag j k, left) ∧ pkt[j]? = some f ∧
        k < f.length

/-- At the end of the packet, and behind it, there is no region. -/
def DVFilterLib.EndsAtLen (lib : DVFilterLib) : Prop :=
  ∀ (pkt : PktHandle) (offset length : UInt32), pkt.flatten.length < 2 ^ 32 →
    pkt.flatten.length ≤ offset.toNat → lib.getPktFragDirectRange pkt offset length = none

section
variable {lib : DVFilterLib} {pkt : PktHandle} {buffer : List UInt8} {offset length : UInt32}

theorem DVFilterLib.FindsByte.findsEmpty (h : lib.FindsByte) : lib.FindsEmpty := by
  intro pkt offset hlen hlt
  obtain ⟨j, k, f, left, hr, -⟩ := h pkt offset hlen hlt
  rw [hr]
  exact Option.some_ne_none _

/-- The bytes of a region are those of the packet. -/
theorem bytesAt_region {j k n : Nat} {f : List UInt8} {off : Nat}
    (h : Fragments.Region pkt off n j k f) :
    bytesAt pkt buffer (.frag j k) n = some ((pkt.flatten.drop off).take n) := by
  simp only [bytesAt, pointee, h.frag, Option.map_some, Option.bind_eq_bind, Option.bind_some,
    h.fits, if_true, h.slice]

/-- The smaller of two lengths, as the loops have it. -/
theorem moveLen_le (a b : UInt32) :
    (if a > b then b else a).toNat ≤ a.toNat ∧ (if a > b then b else a).toNat ≤ b.toNat := by
  split
  · rename_i h
    exact ⟨Nat.le_of_lt (UInt32.lt_iff_toNat_lt.1 h), Nat.le_refl _⟩
  · rename_i h
    exact ⟨Nat.le_refl _, UInt32.le_iff_toNat_le.1 (UInt32.not_lt.1 h)⟩

section
variable {fuel at_ : Nat} {dst dst' : List UInt8} {copyLen : UInt32} {status : DVFilterStatus}

theorem copyLoop_zero : copyLoop lib pkt fuel dst at_ offset 0 = some (.ok, dst) := by
  cases fuel with
  | zero => rfl
  | succ fuel => exact if_pos rfl

/-- A turn whose lookup fails. -/
theorem copyLoop_none (hpos : 0 < copyLen.toNat)
    (hr : lib.getPktFragDirectRange pkt offset 0 = none) :
    copyLoop lib pkt (fuel + 1) dst at_ offset copyLen = some (.error, dst) := by
  have hne : copyLen ≠ 0 := fun hz => by
    rw [hz] at hpos
    exact absurd hpos (Nat.lt_irrefl 0)
  rw [copyLoop, if_neg hne, hr]

/-- **A turn** whose lookup finds the rest of a fragment. -/
theorem copyLoop_some {j k : Nat} {f : List UInt8} {left : UInt32} (hpos : 0 < copyLen.toNat)
    (hr : lib.getPktFragDirectRange pkt offset 0 = some (.frag j k, left))
    (hreg : Fragments.Region pkt offset.toNat 0 j k f) (hleft : left.toNat = f.length - k)
    {m : UInt32} (hm : (if left > copyLen then copyLen else left) = m) :
    copyLoop lib pkt (fuel + 1) dst at_ offset copyLen =
      if m = 0 then none
      else if at_ + m.toNat ≤ dst.length then
        copyLoop lib pkt fuel (patch dst at_ ((pkt.flatten.drop offset.toNat).take m.toNat))
          (at_ + m.toNat) (offset + m) (copyLen - m)
      else none := by
  have hne : copyLen ≠ 0 := fun hz => by
    rw [hz] at hpos
    exact absurd hpos (Nat.lt_irrefl 0)
  have hk := hreg.fits
  have hle := (moveLen_le left copyLen).1
  rw [hm] at hle
  have hsub : Fragments.Region pkt offset.toNat m.toNat j k f :=
    ⟨hreg.frag, hreg.offset_eq, by omega⟩
  have hin := hsub.le
  have hl : ((pkt.flatten.drop offset.toNat).take m.toNat).length = m.toNat := length_slice hin
  rw [copyLoop, if_neg hne, hr]
  dsimp only
  rw [hm, bytesAt_region hsub]
  split
  · rfl
  · change (copyBytes dst at_ ((pkt.flatten.drop offset.toNat).take m.toNat)).bind _ = _
    rw [copyBytes, patch, hl]
    split
    · rfl
    · rfl

/-- A turn that does not fail copies some of the bytes; the others are left to the rest of the
loop. -/
theorem copyLoop_turn (hlib : lib.Documented) (hempty : lib.FindsEmpty)
    (hlen : pkt.flatten.length < 2 ^ 32) (hpos : 0 < copyLen.toNat)
    (hin : offset.toNat + copyLen.toNat ≤ pkt.flatten.length)
    (h : copyLoop lib pkt (fuel + 1) dst at_ offset copyLen = some (status, dst')) :
    ∃ m : UInt32, 0 < m.toNat ∧ m.toNat ≤ copyLen.toNat ∧ at_ + m.toNat ≤ dst.length ∧
      copyLoop lib pkt fuel (patch dst at_ ((pkt.flatten.drop offset.toNat).take m.toNat))
        (at_ + m.toNat) (offset + m) (copyLen - m) = some (status, dst') := by
  obtain ⟨⟨p, left⟩, hr⟩ :=
    Option.ne_none_iff_exists'.1 (hempty pkt offset hlen (by omega))
  obtain ⟨j, k, f, rfl, hreg, hleft⟩ := hlib.range_some pkt offset 0 _ _ hlen hr
  rw [copyLoop_some hpos hr hreg hleft rfl] at h
  have hmle := (moveLen_le left copyLen).2
  generalize (if left > copyLen then copyLen else left) = m at h hmle
  split at h
  · cases h
  · rename_i hne
    split at h
    · exact ⟨m, Nat.pos_of_ne_zero fun hz => hne (UInt32.toNat_inj.1 hz), hmle, ‹_›, h⟩
    · cases h

/-- **The loop of `CopyPacketData`**, inside the packet, where it has ended. -/
theorem copyLoop_spec (hlib : lib.Documented) (hempty : lib.FindsEmpty)
    (hlen : pkt.flatten.length < 2 ^ 32) (hfuel : copyLen.toNat ≤ fuel)
    (hin : offset.toNat + copyLen.toNat ≤ pkt.flatten.length)
    (h : copyLoop lib pkt fuel dst at_ offset copyLen = some (status, dst')) :
    status = .ok ∧
      dst' = patch dst at_ ((pkt.flatten.drop offset.toNat).take copyLen.toNat) ∧
      (0 < copyLen.toNat → at_ + copyLen.toNat ≤ dst.length) := by
  induction fuel generalizing dst at_ offset copyLen with
  | zero =>
      have hz : copyLen.toNat = 0 := by omega
      cases h
      rw [hz, List.take_zero, patch_nil]
      exact ⟨rfl, rfl, fun k => absurd k (Nat.lt_irrefl 0)⟩
  | succ fuel ih =>
      rcases Nat.eq_zero_or_pos copyLen.toNat with hz | hpos
      · rw [copyLoop, if_pos (UInt32.toNat_inj.1 hz)] at h
        cases h
        rw [hz, List.take_zero, patch_nil]
        exact ⟨rfl, rfl, fun k => absurd k (Nat.lt_irrefl 0)⟩
      · obtain ⟨m, hmpos, hmle, hroom, h⟩ := copyLoop_turn hlib hempty hlen hpos hin h
        have hoff : (offset + m).toNat = offset.toNat + m.toNat := by
          rw [UInt32.toNat_add]
          omega
        have hsub : (copyLen - m).toNat = copyLen.toNat - m.toNat :=
          UInt32.toNat_sub_of_le _ _ (UInt32.le_iff_toNat_le.2 hmle)
        obtain ⟨hstatus, hdst, hend⟩ := ih (by omega) (by omega) h
        have hl : ((pkt.flatten.drop offset.toNat).take copyLen.toNat).length = copyLen.toNat :=
          length_slice hin
        -- the bytes of this turn, and those of the others
        have hjoin := patch_take_drop (hl.symm ▸ hmle) hroom
        rw [List.take_take, Nat.min_eq_left hmle, List.drop_take, List.drop_drop, ← hoff,
          ← hsub] at hjoin
        rw [length_patch (by rw [length_slice (by omega)]; exact hroom)] at hend
        refine ⟨hstatus, hdst.trans hjoin, fun _ => ?_⟩
        rcases Nat.eq_zero_or_pos (copyLen - m).toNat with hz | hpos'
        · omega
        · have := hend hpos'
          omega

/-- **The loop ends**: with `DVFILTER_STATUS_OK` where the packet has the bytes, and with
`DVFILTER_STATUS_ERROR` where it ends before. -/
theorem copyLoop_returns (hlib : lib.Documented) (hbyte : lib.FindsByte) (hend : lib.EndsAtLen)
    (hlen : pkt.flatten.length < 2 ^ 32) (hfuel : copyLen.toNat ≤ fuel)
    (hoff : offset.toNat ≤ pkt.flatten.length ∨ 0 < copyLen.toNat)
    (hroom : at_ + min copyLen.toNat (pkt.flatten.length - offset.toNat) ≤ dst.length) :
    ∃ dst', copyLoop lib pkt fuel dst at_ offset copyLen =
      some (if offset.toNat + copyLen.toNat ≤ pkt.flatten.length then .ok else .error, dst') := by
  induction fuel generalizing dst at_ offset copyLen with
  | zero =>
      have hz : copyLen.toNat = 0 := Nat.le_zero.1 hfuel
      rw [if_pos (by omega)]
      exact ⟨dst, rfl⟩
  | succ fuel ih =>
      rcases Nat.eq_zero_or_pos copyLen.toNat with hz | hpos
      · obtain rfl : copyLen = 0 := UInt32.toNat_inj.1 hz
        rw [if_pos (by omega)]
        exact ⟨dst, copyLoop_zero⟩
      · rcases Nat.lt_or_ge offset.toNat pkt.flatten.length with hlt | hge
        · -- the rest of a fragment, with one byte at least
          obtain ⟨j, k, f, left, hr, hf, hk⟩ := hbyte pkt offset hlen hlt
          obtain ⟨_, _, f', ⟨⟩, hreg, hleft⟩ := hlib.range_some pkt offset 0 _ _ hlen hr
          cases hf.symm.trans hreg.frag
          rw [copyLoop_some hpos hr hreg hleft rfl]
          obtain ⟨hml, hmle⟩ := moveLen_le left copyLen
          have hmpos : 0 < (if left > copyLen then copyLen else left).toNat := by
            split
            · exact hpos
            · omega
          generalize (if left > copyLen then copyLen else left) = m at hml hmle hmpos ⊢
          have hsub : Fragments.Region pkt offset.toNat m.toNat j k f :=
            ⟨hreg.frag, hreg.offset_eq, by omega⟩
          have hin := hsub.le
          have hoff' : (offset + m).toNat = offset.toNat + m.toNat := by
            rw [UInt32.toNat_add]
            omega
          have hleft' : (copyLen - m).toNat = copyLen.toNat - m.toNat :=
            UInt32.toNat_sub_of_le _ _ (UInt32.le_iff_toNat_le.2 hmle)
          have hl : ((pkt.flatten.drop offset.toNat).take m.toNat).length = m.toNat :=
            length_slice hin
          have hfits : at_ + m.toNat ≤ dst.length := by omega
          rw [if_neg fun hz => absurd hmpos (by rw [hz]; exact Nat.lt_irrefl 0), if_pos hfits]
          have hpatch : (patch dst at_ ((pkt.flatten.drop offset.toNat).take m.toNat)).length =
              dst.length := length_patch (by rw [hl]; exact hfits)
          have hrun := ih (show (copyLen - m).toNat ≤ fuel by omega)
            (show (offset + m).toNat ≤ pkt.flatten.length ∨ 0 < (copyLen - m).toNat by omega)
            (show at_ + m.toNat + min (copyLen - m).toNat
              (pkt.flatten.length - (offset + m).toNat) ≤ _ by rw [hpatch]; omega)
          rwa [hoff', hleft', show offset.toNat + m.toNat + (copyLen.toNat - m.toNat) =
            offset.toNat + copyLen.toNat by omega] at hrun
        · rw [copyLoop_none hpos (hend pkt offset 0 hlen hge), if_neg (by omega)]
          exact ⟨dst, rfl⟩

end

/-- `CopyPacketData`, inside the packet, where it has ended: what is asked for, or the rest of the
packet for 0. -/
theorem copyPacketData_spec (hlib : lib.Documented) (hempty : lib.FindsEmpty)
    (hlen : pkt.flatten.length < 2 ^ 32) {dst dst' : List UInt8} {copyLen : UInt32} {n : Nat}
    {status : DVFilterStatus}
    (hn : n = if copyLen = 0 then pkt.flatten.length - offset.toNat else copyLen.toNat)
    (hin : offset.toNat + n ≤ pkt.flatten.length)
    (h : copyPacketData lib dst pkt offset copyLen = some (status, dst')) :
    status = .ok ∧ dst' = patch dst 0 ((pkt.flatten.drop offset.toNat).take n) ∧
      n ≤ dst.length := by
  have hpkt := hlib.len pkt hlen
  have hrest : (if copyLen = 0 then lib.getPktLen pkt - offset else copyLen).toNat = n := by
    rw [hn]
    split
    · rw [UInt32.toNat_sub_of_le _ _ (UInt32.le_iff_toNat_le.2 (by omega)), hpkt]
    · rfl
  obtain ⟨hstatus, hdst, hend⟩ :=
    copyLoop_spec hlib hempty hlen (Nat.le_refl _) (by rw [hrest]; exact hin) h
  rw [hrest] at hdst hend
  refine ⟨hstatus, hdst, ?_⟩
  rcases Nat.eq_zero_or_pos n with hz | hpos
  · omega
  · have := hend hpos
    omega

/-- `CopyPacketData` ends, into a buffer that has room for what is copied. -/
theorem copyPacketData_returns (hlib : lib.Documented) (hbyte : lib.FindsByte)
    (hend : lib.EndsAtLen) (hlen : pkt.flatten.length < 2 ^ 32) {dst : List UInt8}
    {copyLen : UInt32} {n : Nat}
    (hn : n = if copyLen = 0 then pkt.flatten.length - offset.toNat else copyLen.toNat)
    (hroom : n ≤ dst.length) :
    ∃ dst', copyPacketData lib dst pkt offset copyLen =
      some (if offset.toNat + copyLen.toNat ≤ pkt.flatten.length then .ok else .error, dst') := by
  have hpkt := hlib.len pkt hlen
  by_cases hz : copyLen = 0
  · rw [if_pos hz] at hn
    have hsub : (lib.getPktLen pkt - offset).toNat =
        (2 ^ 32 - offset.toNat + pkt.flatten.length) % 2 ^ 32 := by
      rw [UInt32.toNat_sub, hpkt]
    have hoff := offset.toNat_lt
    obtain ⟨dst', hrun⟩ := copyLoop_returns hlib hbyte hend hlen (Nat.le_refl _)
      (show offset.toNat ≤ pkt.flatten.length ∨ 0 < (lib.getPktLen pkt - offset).toNat by omega)
      (show 0 + min (lib.getPktLen pkt - offset).toNat _ ≤ dst.length by omega)
    refine ⟨dst', ?_⟩
    rw [copyPacketData, if_pos hz, hrun, hz, UInt32.toNat_zero, Nat.add_zero]
    -- what is left is inside the packet if the offset is
    by_cases hin : offset.toNat ≤ pkt.flatten.length
    · rw [if_pos (by omega), if_pos hin]
    · rw [if_neg (by omega), if_neg hin]
  · rw [if_neg hz] at hn
    have hpos : 0 < copyLen.toNat := Nat.pos_of_ne_zero fun k => hz (UInt32.toNat_inj.1 k)
    obtain ⟨dst', hrun⟩ := copyLoop_returns hlib hbyte hend hlen (Nat.le_refl _)
      (show offset.toNat ≤ pkt.flatten.length ∨ _ from .inr hpos)
      (show 0 + min copyLen.toNat _ ≤ dst.length by omega)
    refine ⟨dst', ?_⟩
    rw [copyPacketData, if_neg hz, hrun]

end

/-- How many bytes are asked for: 0 stands for the rest of the packet. -/
def askedFor (pkt : PktHandle) (offset copyLen : UInt32) : Nat :=
  if copyLen = 0 then pkt.flatten.length - offset.toNat else copyLen.toNat

/-- **`CopyPacketData` copies the slice** that is asked for, and says where the packet does not have
it.  As the function's comment has it, the buffer has room for what is asked for. -/
theorem copyPacketData_exact {lib : DVFilterLib} (hlib : lib.Documented) (hbyte : lib.FindsByte)
    (hend : lib.EndsAtLen) (pkt : PktHandle) (hlen : pkt.flatten.length < 2 ^ 32)
    (dst : List UInt8) (offset copyLen : UInt32)
    (hroom : askedFor pkt offset copyLen ≤ dst.length) :
    (offset.toNat + copyLen.toNat ≤ pkt.flatten.length →
      copyPacketData lib dst pkt offset copyLen = some (.ok,
        (pkt.flatten.drop offset.toNat).take (askedFor pkt offset copyLen) ++
          dst.drop (askedFor pkt offset copyLen))) ∧
    (pkt.flatten.length < offset.toNat + copyLen.toNat →
      ∃ dst', copyPacketData lib dst pkt offset copyLen = some (.error, dst')) := by
  obtain ⟨dst', hrun⟩ := copyPacketData_returns hlib hbyte hend hlen rfl hroom
  constructor
  · intro hin
    have hslice : offset.toNat + askedFor pkt offset copyLen ≤ pkt.flatten.length := by
      rw [askedFor]
      split
      · omega
      · exact hin
    rw [if_pos hin] at hrun
    obtain ⟨-, rfl, -⟩ := copyPacketData_spec hlib hbyte.findsEmpty hlen rfl hslice hrun
    rw [hrun]
    change some (_, patch dst 0 ((pkt.flatten.drop offset.toNat).take
      (askedFor pkt offset copyLen))) = _
    rw [patch, List.take_zero, List.nil_append, length_slice hslice, Nat.zero_add]
  · intro hlt
    rw [if_neg (Nat.not_le.2 hlt)] at hrun
    exact ⟨dst', hrun⟩

theorem fragLib_findsByte : fragLib.FindsByte := fun pkt offset _ h => by
  obtain ⟨j, k, f, hfind, hf, hk⟩ := Fragments.find_zero h
  refine ⟨j, k, f, .ofNat (f.length - k), ?_, hf, hk⟩
  simp only [fragLib, UInt32.toNat_zero, hfind, Option.map_some]

theorem fragLib_endsAtLen : fragLib.EndsAtLen := fun pkt offset length _ h => by
  simp only [fragLib, Fragments.find_end h, Option.map_none]

/-- Six bytes in three fragments. -/
def threeFragments : PktHandle := [[1, 2], [3, 4, 5], [6]]

theorem copyPacketData_exact_threeFragments :
    copyPacketData fragLib [0, 0, 0, 0, 7] threeFragments 1 4 = some (.ok, [2, 3, 4, 5, 7]) :=
  (copyPacketData_exact fragLib_documented fragLib_findsByte fragLib_endsAtLen threeFragments
    (by decide) [0, 0, 0, 0, 7] 1 4 (by decide)).1 (by decide)

end DistDpi
