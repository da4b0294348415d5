import DistDpi.Netx.Headers

/-!
# Netx — lookups of headers

`PktDirectRef` as `ParsePacket` and `PerformNAPT` call it: on a context whose backing buffer stays
empty, for regions shorter than the buffer.  A header is then found in one fragment, or taken from
the fragment found last, or not found.

A context that holds the fragment of an earlier region (`Holds`) answers as a lookup does, unless
that region starts behind the packet's first byte and its fragment goes on past the end of what is
asked for (`nextRef_stale`).
-/

namespace DistDpi

/-- The backing buffer is empty. -/
structure FilterDirectContext.Unfilled (d : FilterDirectContext) : Prop where
  available : d.bbAvailable = 0
  offset : d.bbOffset = 0
  len : d.bbLen = 128

/-- The context has the rest of the fragment `f`, the `j`th, from its byte `k` on. -/
structure Holds (d : FilterDirectContext) (pkt : PktHandle) (base j k : Nat) (f : List UInt8) :
    Prop where
  unfilled : d.Unfilled
  direct : d.direct = some (.frag j k)
  offset : d.dirOffset.toNat = base
  len : d.dirLen.toNat = f.length - k
  region : Fragments.Region pkt base (f.length - k) j k f

section
variable {lib : DVFilterLib} {pkt : PktHandle} {lclBuf : List UInt8} {offset length : UInt32}
  {d : FilterDirectContext} {base j k j' k' : Nat} {f f' : List UInt8}

theorem directContextInit_unfilled : (directContextInit lclBuf 128).Unfilled := ⟨rfl, rfl, rfl⟩

theorem directContextInit_inDirect : ¬ (directContextInit lclBuf 128).InDirect offset length :=
  fun h => h.1 rfl

/-- The fragment that is held has the region. -/
theorem holds_inDirect (hd : Holds d pkt base j k f) (hlen : pkt.flatten.length < 2 ^ 32)
    (hin : offset.toNat + length.toNat < 2 ^ 32) : d.InDirect offset length ↔
      base ≤ offset.toNat ∧ offset.toNat + length.toNat < base + (f.length - k) := by
  have hle := hd.region.le
  have hoff := hd.offset
  have hl := hd.len
  have hend : (d.dirOffset + d.dirLen).toNat = base + (f.length - k) := by
    rw [toNat_add_of_le (by omega), hoff, hl]
  rw [FilterDirectContext.InDirect, ge_iff_le, UInt32.le_iff_toNat_le, UInt32.lt_iff_toNat_lt,
    toNat_add_of_le hin, hoff, hend]
  refine and_iff_right ?_
  rw [hd.direct]
  exact nofun

/-- What is in the fragment that is held. -/
theorem Holds.region_of_le (hd : Holds d pkt base j k f) {off n : Nat} (hle : base ≤ off)
    (hin : off + n ≤ base + (f.length - k)) : Fragments.Region pkt off n j (k + (off - base)) f := by
  have hsub := hd.region.sub (d := off - base) (n := n) (by omega)
  rwa [Nat.add_sub_cancel' hle] at hsub

/-- **A fresh lookup** of a region. -/
theorem lookup_found (hlib : lib.Documented) (hlen : pkt.flatten.length < 2 ^ 32)
    (hd : d.Unfilled) (hpos : 0 < length) (hc : ¬ d.InDirect offset length)
    (hreg : Fragments.Region pkt offset.toNat length.toNat j k f) :
    ∃ d', pktDirectRef lib pkt offset length d = some (some (.frag j k), d') ∧
      Holds d' pkt offset.toNat j k f := by
  have hfits := hreg.fits
  have hle := hreg.le
  have hf := Fragments.length_le_of_mem hreg.mem
  have hfind := hreg.find_eq (UInt32.lt_iff_toNat_lt.1 hpos)
  have hr : lib.getPktFragDirectRange pkt offset length =
      some (.frag j k, UInt32.ofNat (f.length - k)) := by
    rw [hlib.range_eq hlen hpos]
    simp only [fragLib, hfind, Option.map_some]
  refine ⟨_, pktDirectRef_found hc hr, ⟨hd.available, hd.offset, hd.len⟩, rfl, rfl, ?_, ?_⟩
  · exact UInt32.toNat_ofNat_of_lt' (by rw [UInt32.size]; omega)
  · exact ⟨hreg.frag, hreg.offset_eq, by omega⟩

/-- A lookup that fails. -/
theorem lookup_apart (hlib : lib.Documented) (hlen : pkt.flatten.length < 2 ^ 32) (hd : d.Unfilled)
    (hlt : length < 128) (hc : ¬ d.InDirect offset length)
    (hno : ∀ j k f, ¬ Fragments.Region pkt offset.toNat length.toNat j k f) :
    pktDirectRef lib pkt offset length d = some (none, d) := by
  have hb : ¬ d.InBacking offset length := by
    rintro ⟨-, h⟩
    rw [hd.available, hd.offset, UInt32.lt_iff_toNat_lt] at h
    exact absurd h (Nat.not_lt_zero _)
  have hr : lib.getPktFragDirectRange pkt offset length = none := by
    by_contra hne
    obtain ⟨r, hr⟩ := Option.ne_none_iff_exists'.1 hne
    obtain ⟨j, k, f, -, hreg, -⟩ := hlib.range_some pkt offset length _ _ hlen hr
    exact hno j k f hreg
  rw [pktDirectRef_apart hc hr, if_neg hb, if_neg]
  rw [hd.len, UInt32.not_le]
  exact hlt

/-! ### The Ethernet header -/

theorem ethRef_found (hlib : lib.Documented) (hlen : pkt.flatten.length < 2 ^ 32)
    (hreg : Fragments.Region pkt 0 26 j k f) :
    ∃ d, pktDirectRef lib pkt 0 sizeofEthHeader (directContextInit lclBuf 128) =
        some (some (.frag j k), d) ∧
      Holds d pkt 0 j k f ∧
      bytesAt pkt d.backingBuffer (.frag j k) sizeofEthHeader.toNat =
        some (pkt.flatten.take 26) := by
  obtain ⟨d, href, hd⟩ : ∃ d,
      pktDirectRef lib pkt 0 sizeofEthHeader (directContextInit lclBuf 128) =
        some (some (.frag j k), d) ∧ Holds d pkt (0 : UInt32).toNat j k f :=
    lookup_found hlib hlen directContextInit_unfilled (by decide) directContextInit_inDirect hreg
  exact ⟨d, href, hd, bytesAt_region hreg⟩

theorem ethRef_apart (hlib : lib.Documented) (hlen : pkt.flatten.length < 2 ^ 32)
    (hno : ∀ j k f, ¬ Fragments.Region pkt 0 26 j k f) :
    ∃ d, pktDirectRef lib pkt 0 sizeofEthHeader (directContextInit lclBuf 128) = some (none, d) :=
  ⟨_, lookup_apart hlib hlen directContextInit_unfilled (by decide) directContextInit_inDirect hno⟩

/-! ### The headers behind it -/

/-- A region in one fragment is found, where the context does not take it from a fragment that it
holds from the middle of the packet on. -/
theorem nextRef_found (hlib : lib.Documented) (hlen : pkt.flatten.length < 2 ^ 32)
    (hd : Holds d pkt base j k f) (hpos : 0 < length) (hin : offset.toNat + length.toNat < 2 ^ 32)
    (hreg : Fragments.Region pkt offset.toNat length.toNat j' k' f')
    (hbase : base = 0 ∨ base + (f.length - k) ≤ offset.toNat + length.toNat) :
    ∃ d', pktDirectRef lib pkt offset length d = some (some (.frag j' k'), d') ∧
      ((offset.toNat + length.toNat < base + (f.length - k) ∧ d' = d) ∨
        (base + (f.length - k) ≤ offset.toNat + length.toNat ∧
          Holds d' pkt offset.toNat j' k' f')) := by
  by_cases hc : d.InDirect offset length
  · obtain ⟨hle, hlt⟩ := (holds_inDirect hd hlen hin).1 hc
    obtain rfl : base = 0 := by omega
    have hheld := hd.region_of_le hle (Nat.le_of_lt hlt)
    have hpos' : 0 < length.toNat := UInt32.lt_iff_toNat_lt.1 hpos
    obtain ⟨rfl, rfl, -⟩ := hheld.unique hreg hpos' hpos'
    refine ⟨d, ?_, .inl ⟨hlt, rfl⟩⟩
    rw [pktDirectRef_cached hc, hd.direct, Option.map_some, DataPtr.add, Nat.sub_zero]
  · obtain ⟨d', hr, hd'⟩ := lookup_found hlib hlen hd.unfilled hpos hc hreg
    rw [holds_inDirect hd hlen hin] at hc
    exact ⟨d', hr, .inr ⟨by omega, hd'⟩⟩

/-- Where there is no region, nothing is found. -/
theorem nextRef_apart (hlib : lib.Documented) (hlen : pkt.flatten.length < 2 ^ 32)
    (hd : Holds d pkt base j k f) (hlt : length < 128)
    (hin : offset.toNat + length.toNat < 2 ^ 32)
    (hno : ∀ j k f, ¬ Fragments.Region pkt offset.toNat length.toNat j k f) :
    pktDirectRef lib pkt offset length d = some (none, d) := by
  refine lookup_apart hlib hlen hd.unfilled hlt (fun hc => ?_) hno
  obtain ⟨hle, hend⟩ := (holds_inDirect hd hlen hin).1 hc
  exact hno _ _ _ (hd.region_of_le hle (Nat.le_of_lt hend))

/-- **A stale answer**: a pointer past the region, by as much as the fragment that is held starts
behind the packet's first byte. -/
theorem nextRef_stale (hlen : pkt.flatten.length < 2 ^ 32) (hd : Holds d pkt base j k f)
    (hin : offset.toNat + length.toNat < 2 ^ 32) (hle : base ≤ offset.toNat)
    (hlt : offset.toNat + length.toNat < base + (f.length - k)) :
    pktDirectRef lib pkt offset length d = some (some (.frag j (k + offset.toNat)), d) := by
  rw [pktDirectRef_cached ((holds_inDirect hd hlen hin).2 ⟨hle, hlt⟩), hd.direct]
  rfl

/-- The IP header, on a context that holds the first fragment. -/
theorem ipRef_found (hlib : lib.Documented) (hlen : pkt.flatten.length < 2 ^ 32)
    (hd : Holds d pkt 0 j k f) (hreg : Fragments.Region pkt (ipOffset pkt.flatten).toNat
      (ipHdrLen (etherType pkt.flatten)).toNat j' k' f') :
    let ip := (ipOffset pkt.flatten).toNat
    let hdr := (ipHdrLen (etherType pkt.flatten)).toNat
    ∃ d', pktDirectRef lib pkt (ipOffset pkt.flatten) (ipHdrLen (etherType pkt.flatten)) d =
        some (some (.frag j' k'), d') ∧
      ((ip + hdr < f.length - k ∧ d' = d) ∨
        (f.length - k ≤ ip + hdr ∧ Holds d' pkt ip j' k' f')) := by
  have hoff := ipOffset_le pkt.flatten
  have hhdr := ipHdrLen_le (etherType pkt.flatten)
  have hpos : 0 < ipHdrLen (etherType pkt.flatten) :=
    UInt32.lt_iff_toNat_lt.2 (show 0 < (ipHdrLen (etherType pkt.flatten)).toNat by omega)
  have href := nextRef_found hlib hlen hd hpos (by omega) hreg (.inl rfl)
  rwa [Nat.zero_add] at href

theorem ipRef_apart (hlib : lib.Documented) (hlen : pkt.flatten.length < 2 ^ 32)
    (hd : Holds d pkt 0 j k f) (hno : ∀ j k f, ¬ Fragments.Region pkt (ipOffset pkt.flatten).toNat
      (ipHdrLen (etherType pkt.flatten)).toNat j k f) :
    pktDirectRef lib pkt (ipOffset pkt.flatten) (ipHdrLen (etherType pkt.flatten)) d =
      some (none, d) := by
  have hoff := ipOffset_le pkt.flatten
  have hhdr := ipHdrLen_le (etherType pkt.flatten)
  have hlt : ipHdrLen (etherType pkt.flatten) < 128 :=
    UInt32.lt_iff_toNat_lt.2 (show (ipHdrLen (etherType pkt.flatten)).toNat < 128 by omega)
  exact nextRef_apart hlib hlen hd hlt (by omega) hno

end

end DistDpi
