import DistDpi.Netx.CopyData
import DistDpi.Support.Machine

/-!
# Netx — direct references

`PktDirectRef` over a run of calls on one context.  A reference comes from the fragment found last
(the cache), from a lookup, or from the backing buffer.  `direct` and `backingBuffer` point to the
bytes from `dirOffset` and `bbOffset` on, and `PktDirectRef` adds the offset in the packet to them:
what it returns is where it says as long as these are 0, and as long as the four bytes it copies
are enough.
-/

namespace DistDpi
open Slices

section
variable {lib : DVFilterLib} {pkt : PktHandle} {buffer : List UInt8} {offset length : UInt32}
  {d d' : FilterDirectContext}

/-! ### Lookups -/

/-- What the documentation determines of a lookup: all of it, unless the region is empty. -/
theorem DVFilterLib.Documented.range_eq (hlib : lib.Documented) (hlen : pkt.flatten.length < 2 ^ 32)
    (hpos : 0 < length) :
    lib.getPktFragDirectRange pkt offset length =
      fragLib.getPktFragDirectRange pkt offset length := by
  have hpos' : 0 < length.toNat := UInt32.lt_iff_toNat_lt.1 hpos
  cases hr : lib.getPktFragDirectRange pkt offset length with
  | none =>
      cases hf : fragLib.getPktFragDirectRange pkt offset length with
      | none => rfl
      | some r =>
          obtain ⟨j, k, f, -, hreg, -⟩ :=
            fragLib_documented.range_some pkt offset length _ _ hlen hf
          exact absurd hreg (hlib.range_none pkt offset length hlen hr hpos j k f)
  | some r =>
      obtain ⟨j, k, f, hp, hreg, hleft⟩ := hlib.range_some pkt offset length _ _ hlen hr
      have hle := Fragments.length_le_of_mem hreg.mem
      obtain ⟨p, left⟩ := r
      have hleft' : left = UInt32.ofNat (f.length - k) := by
        rw [← hleft, UInt32.ofNat_toNat]
      simp only [fragLib, hreg.find_eq hpos', Option.map_some]
      rw [← hleft', ← hp]

/-! ### One call -/

/-- The first test of `PktDirectRef`: the fragment found last has the region. -/
def FilterDirectContext.InDirect (d : FilterDirectContext) (offset length : UInt32) : Prop :=
  d.direct ≠ none ∧ offset ≥ d.dirOffset ∧ offset + length < d.dirOffset + d.dirLen

/-- The third: the backing buffer has it. -/
def FilterDirectContext.InBacking (d : FilterDirectContext) (offset length : UInt32) : Prop :=
  offset ≥ d.bbOffset ∧ offset + length < d.bbAvailable + d.bbOffset

instance (d : FilterDirectContext) (offset length : UInt32) : Decidable (d.InDirect offset length) :=
  inferInstanceAs (Decidable (_ ∧ _))

instance (d : FilterDirectContext) (offset length : UInt32) : Decidable (d.InBacking offset length) :=
  inferInstanceAs (Decidable (_ ∧ _))

theorem pktDirectRef_cached (h : d.InDirect offset length) :
    pktDirectRef lib pkt offset length d = some (d.direct.map (DataPtr.add offset.toNat), d) :=
  if_pos h

theorem pktDirectRef_found (h : ¬ d.InDirect offset length) {p : DataPtr} {left : UInt32}
    (hr : lib.getPktFragDirectRange pkt offset length = some (p, left)) :
    pktDirectRef lib pkt offset length d =
      some (some p, { d with direct := some p, dirOffset := offset, dirLen := left }) := by
  refine (if_neg h).trans ?_
  rw [hr]

theorem pktDirectRef_apart (h : ¬ d.InDirect offset length)
    (hr : lib.getPktFragDirectRange pkt offset length = none) :
    pktDirectRef lib pkt offset length d =
      if d.InBacking offset length then some (some (.backing offset.toNat), d)
      else if d.bbLen ≤ length then
        if 4 + offset > lib.getPktLen pkt then
          if lib.getPktLen pkt - offset < length then some (none, d)
          else backingRef lib pkt offset (lib.getPktLen pkt - offset) d
        else backingRef lib pkt offset 4 d
      else some (none, d) := by
  refine (if_neg h).trans ?_
  rw [hr]
  rfl

/-- What a context says of its packet. -/
structure FilterDirectContext.Ok (d : FilterDirectContext) (pkt : PktHandle) : Prop where
  /-- `direct` points to the bytes from `dirOffset` on. -/
  direct : ∀ p, d.direct = some p → ∃ j k f, p = .frag j k ∧
    Fragments.Region pkt d.dirOffset.toNat d.dirLen.toNat j k f ∧ d.dirLen.toNat = f.length - k
  /-- The buffer begins with the bytes from `bbOffset` on. -/
  backing_le : d.bbOffset.toNat + d.bbAvailable.toNat ≤ pkt.flatten.length
  backing : At d.backingBuffer 0 ((pkt.flatten.drop d.bbOffset.toNat).take d.bbAvailable.toNat)

theorem directContextInit_ok (pkt : PktHandle) (buffer : List UInt8) (bbLen : UInt32) :
    (directContextInit buffer bbLen).Ok pkt where
  direct _ h := by cases h
  backing_le := Nat.zero_le _
  backing := List.nil_prefix

/-- What a reference to the bytes `offset` to `offset + length - 1` must point to. -/
def RefersTo (pkt : PktHandle) (buffer : List UInt8) (p : DataPtr) (offset length : UInt32) : Prop :=
  length = 0 ∨
    bytesAt pkt buffer p length.toNat =
      some ((pkt.flatten.drop offset.toNat).take length.toNat)

/-- Neither the cache nor a lookup has the region. -/
def Apart (lib : DVFilterLib) (pkt : PktHandle) (d : FilterDirectContext) (offset length : UInt32) :
    Prop :=
  ¬ d.InDirect offset length ∧ lib.getPktFragDirectRange pkt offset length = none

instance (lib : DVFilterLib) (pkt : PktHandle) (d : FilterDirectContext) (offset length : UInt32) :
    Decidable (Apart lib pkt d offset length) := inferInstanceAs (Decidable (_ ∧ _))

/-- **The condition on a call.**  What is not looked up comes from a region that starts with the
packet; what is copied is within the four bytes. -/
structure RefOk (lib : DVFilterLib) (pkt : PktHandle) (d : FilterDirectContext)
    (offset length : UInt32) : Prop where
  cached : d.InDirect offset length → length = 0 ∨ d.dirOffset = 0
  backed : Apart lib pkt d offset length → d.InBacking offset length →
    length = 0 ∨ d.bbOffset = 0
  copied : Apart lib pkt d offset length → ¬ d.InBacking offset length → d.bbLen ≤ length →
    offset.toNat + 4 < 2 ^ 32 ∧ (length.toNat ≤ 4 ∨ pkt.flatten.length < offset.toNat + 4)

instance (pkt : PktHandle) (buffer : List UInt8) (p : DataPtr) (offset length : UInt32) :
    Decidable (RefersTo pkt buffer p offset length) := inferInstanceAs (Decidable (_ ∨ _))

instance (lib : DVFilterLib) (pkt : PktHandle) (d : FilterDirectContext) (offset length : UInt32) :
    Decidable (RefOk lib pkt d offset length) :=
  decidable_of_iff (_ ∧ _ ∧ _) ⟨fun ⟨h₁, h₂, h₃⟩ => ⟨h₁, h₂, h₃⟩, fun ⟨h₁, h₂, h₃⟩ => ⟨h₁, h₂, h₃⟩⟩

theorem toNat_add_of_le {a b : UInt32} (h : a.toNat + b.toNat < 2 ^ 32) :
    (a + b).toNat = a.toNat + b.toNat := by
  rw [UInt32.toNat_add, Nat.mod_eq_of_lt h]

/-- The cache, from the start of the packet. -/
theorem FilterDirectContext.Ok.cached (hd : d.Ok pkt) (hlen : pkt.flatten.length < 2 ^ 32)
    (hin : offset.toNat + length.toNat ≤ pkt.flatten.length) (hc : d.InDirect offset length)
    (h0 : d.dirOffset = 0) :
    ∃ j f, d.direct = some (.frag j 0) ∧
      Fragments.Region pkt offset.toNat length.toNat j offset.toNat f := by
  obtain ⟨hne, -, hlt⟩ := hc
  obtain ⟨p, hp⟩ := Option.ne_none_iff_exists'.1 hne
  obtain ⟨j, k, f, rfl, hreg, hleft⟩ := hd.direct p hp
  rw [h0, UInt32.toNat_zero] at hreg
  obtain ⟨rfl, -⟩ := hreg.at_start
  rw [h0, UInt32.zero_add, UInt32.lt_iff_toNat_lt, toNat_add_of_le (by omega)] at hlt
  refine ⟨j, f, hp, ?_⟩
  have hsub := hreg.sub (d := offset.toNat) (n := length.toNat) (by omega)
  rwa [Nat.zero_add] at hsub

/-- The buffer, from its start. -/
theorem FilterDirectContext.Ok.backed (hd : d.Ok pkt) (hlen : pkt.flatten.length < 2 ^ 32)
    (hin : offset.toNat + length.toNat ≤ pkt.flatten.length) (hc : d.InBacking offset length)
    (h0 : d.bbOffset = 0) :
    bytesAt pkt d.backingBuffer (.backing offset.toNat) length.toNat =
      some ((pkt.flatten.drop offset.toNat).take length.toNat) := by
  have hle := hd.backing_le
  have hat := hd.backing
  have hlt := hc.2
  rw [h0, UInt32.toNat_zero] at hle
  rw [h0, UInt32.toNat_zero, List.drop_zero] at hat
  rw [h0, UInt32.add_zero, UInt32.lt_iff_toNat_lt, toNat_add_of_le (by omega)] at hlt
  have hl : (pkt.flatten.take d.bbAvailable.toNat).length = d.bbAvailable.toNat :=
    List.length_take_of_le (by omega)
  have hbuf := hat.le (by omega)
  have hslice := hat.slice (i := offset.toNat) (n := length.toNat) (by omega)
  rw [Nat.zero_add, List.drop_take, List.take_take, Nat.min_eq_left (by omega)] at hslice
  rw [hl] at hbuf
  simp only [bytesAt, pointee, Option.bind_eq_bind, Option.bind_some,
    show offset.toNat + length.toNat ≤ d.backingBuffer.length by omega, if_true, hslice]

/-- The bytes that were copied. -/
theorem backingRef_ok (hlib : lib.Documented) (hempty : lib.FindsEmpty)
    (hlen : pkt.flatten.length < 2 ^ 32) (hd : d.Ok pkt) {copyLen : UInt32}
    (hin : offset.toNat + copyLen.toNat ≤ pkt.flatten.length)
    (hz : copyLen = 0 → offset.toNat = pkt.flatten.length) (hlength : length.toNat ≤ copyLen.toNat)
    {ref : Option DataPtr} (h : backingRef lib pkt offset copyLen d = some (ref, d')) :
    d'.Ok pkt ∧ ∀ p, ref = some p → RefersTo pkt d'.backingBuffer p offset length := by
  obtain ⟨⟨status, buffer⟩, hcopy, h⟩ := Option.bind_eq_some_iff.mp h
  have hn : copyLen.toNat =
      if copyLen = 0 then pkt.flatten.length - offset.toNat else copyLen.toNat := by
    split
    · rename_i hc
      rw [hc, hz hc, UInt32.toNat_zero, Nat.sub_self]
    · rfl
  obtain ⟨rfl, hbuf, hroom⟩ := copyPacketData_spec hlib hempty hlen hn hin hcopy
  cases h
  have hat : At buffer 0 ((pkt.flatten.drop offset.toNat).take copyLen.toNat) :=
    hbuf ▸ at_patch (Nat.zero_le _)
  refine ⟨⟨hd.direct, hin, hat⟩, ?_⟩
  rintro p ⟨⟩
  right
  have hl : ((pkt.flatten.drop offset.toNat).take copyLen.toNat).length = copyLen.toNat :=
    length_slice hin
  have hslice := hat.slice (i := 0) (n := length.toNat) (by omega)
  rw [List.drop_zero, List.drop_zero, List.take_take, Nat.min_eq_left hlength] at hslice
  have hbl : buffer.length = d.backingBuffer.length := by
    rw [hbuf, length_patch (by omega)]
  simp only [bytesAt, pointee, Option.bind_eq_bind, Option.bind_some,
    show 0 + length.toNat ≤ buffer.length by omega, if_true]
  exact congrArg some hslice

/-- What is copied: four bytes, or the rest of the packet. -/
theorem copied_ok (hlib : lib.Documented) (hempty : lib.FindsEmpty)
    (hlen : pkt.flatten.length < 2 ^ 32) (hd : d.Ok pkt)
    (hin : offset.toNat + length.toNat ≤ pkt.flatten.length) (hwrap : offset.toNat + 4 < 2 ^ 32)
    (hshort : length.toNat ≤ 4 ∨ pkt.flatten.length < offset.toNat + 4) {ref : Option DataPtr}
    (h : (if 4 + offset > lib.getPktLen pkt then
        if lib.getPktLen pkt - offset < length then some (none, d)
        else backingRef lib pkt offset (lib.getPktLen pkt - offset) d
      else backingRef lib pkt offset 4 d) = some (ref, d')) :
    d'.Ok pkt ∧ ∀ p, ref = some p → RefersTo pkt d'.backingBuffer p offset length := by
  have hpkt := hlib.len pkt hlen
  have h4 : (4 + offset).toNat = 4 + offset.toNat :=
    toNat_add_of_le (show 4 + offset.toNat < 2 ^ 32 by omega)
  split at h
  · -- the rest of the packet
    have hsub : (lib.getPktLen pkt - offset).toNat = pkt.flatten.length - offset.toNat := by
      rw [UInt32.toNat_sub_of_le _ _ (UInt32.le_iff_toNat_le.2 (by omega)), hpkt]
    split at h
    · cases h
      exact ⟨hd, nofun⟩
    · refine backingRef_ok hlib hempty hlen hd (by omega) (fun hz => ?_) (by omega) h
      rw [hz, UInt32.toNat_zero] at hsub
      omega
  · -- four bytes
    rename_i htrunc
    rw [gt_iff_lt, UInt32.lt_iff_toNat_lt, hpkt, h4] at htrunc
    refine backingRef_ok hlib hempty hlen hd ?_ (fun hz => by cases hz) ?_ h
    · change offset.toNat + 4 ≤ _
      omega
    · change _ ≤ 4
      omega

/-- **One call** that meets the condition. -/
theorem pktDirectRef_spec (hlib : lib.Documented) (hempty : lib.FindsEmpty)
    (hlen : pkt.flatten.length < 2 ^ 32) (hd : d.Ok pkt)
    (hin : offset.toNat + length.toNat ≤ pkt.flatten.length) (hok : RefOk lib pkt d offset length)
    {ref : Option DataPtr} (h : pktDirectRef lib pkt offset length d = some (ref, d')) :
    d'.Ok pkt ∧ ∀ p, ref = some p → RefersTo pkt d'.backingBuffer p offset length := by
  by_cases hc : d.InDirect offset length
  · -- the cache
    rw [pktDirectRef_cached hc] at h
    cases h
    refine ⟨hd, fun p hp => ?_⟩
    rcases hok.cached hc with hz | h0
    · exact .inl hz
    · obtain ⟨j, f, hj, hreg⟩ := hd.cached hlen hin hc h0
      rw [hj] at hp
      cases hp
      rw [DataPtr.add, Nat.zero_add]
      exact .inr (bytesAt_region hreg)
  · cases hr : lib.getPktFragDirectRange pkt offset length with
    | some r =>
        -- a fragment
        rw [pktDirectRef_found hc hr] at h
        cases h
        obtain ⟨j, k, f, hp, hreg, hleft⟩ := hlib.range_some pkt offset length _ _ hlen hr
        refine ⟨⟨fun p k' => ?_, hd.backing_le, hd.backing⟩, fun p k' => ?_⟩
        · cases k'
          refine ⟨j, k, f, hp, ⟨hreg.frag, hreg.offset_eq, ?_⟩, hleft⟩
          have := hreg.fits
          dsimp only
          omega
        · cases k'
          rw [hp]
          exact .inr (bytesAt_region hreg)
    | none =>
        rw [pktDirectRef_apart hc hr] at h
        by_cases hb : d.InBacking offset length
        · -- the buffer
          rw [if_pos hb] at h
          cases h
          refine ⟨hd, ?_⟩
          rintro p ⟨⟩
          exact (hok.backed ⟨hc, hr⟩ hb).imp id fun h0 => hd.backed hlen hin hb h0
        · rw [if_neg hb] at h
          split at h
          · rename_i hbig
            obtain ⟨hwrap, hshort⟩ := hok.copied ⟨hc, hr⟩ hb hbig
            exact copied_ok hlib hempty hlen hd hin hwrap hshort h
          · cases h
            exact ⟨hd, nofun⟩

end

/-! ### Every sequence of calls -/

/-- A context, and the last call on it with what it returned. -/
structure Refs where
  direct : FilterDirectContext
  last : Option (UInt32 × UInt32 × Option DataPtr)
  deriving DecidableEq, Repr

/-- A context started by `DirectContextInit`. -/
def Refs.init (buffer : List UInt8) (bbLen : UInt32) : Refs := ⟨directContextInit buffer bbLen, none⟩

/-- Calls of `PktDirectRef` for regions of the packet. -/
def refs (lib : DVFilterLib) (pkt : PktHandle) : Machine Refs (UInt32 × UInt32) where
  step s c :=
    if c.1.toNat + c.2.toNat ≤ pkt.flatten.length then
      (pktDirectRef lib pkt c.1 c.2 s.direct).map fun r => ⟨r.2, some (c.1, c.2, r.1)⟩
    else none

/-- **The property.**  A reference that was returned refers to the bytes that were asked for. -/
def Refs.Sound (pkt : PktHandle) (s : Refs) : Prop :=
  ∀ offset length p, s.last = some (offset, length, some p) →
    RefersTo pkt s.direct.backingBuffer p offset length

/-- **`PktDirectRef` is sound** along the calls that meet the condition. -/
theorem refs_sound {lib : DVFilterLib} (hlib : lib.Documented) (hempty : lib.FindsEmpty)
    (pkt : PktHandle) (hlen : pkt.flatten.length < 2 ^ 32) (buffer : List UInt8) (bbLen : UInt32)
    (calls : List (UInt32 × UInt32)) (s : Refs)
    (h : (refs lib pkt).Run (Refs.init buffer bbLen) calls s)
    (hC : (refs lib pkt).Along (fun s c => RefOk lib pkt s.direct c.1 c.2)
      (Refs.init buffer bbLen) calls) :
    (refs lib pkt).Throughout (Refs.Sound pkt) (Refs.init buffer bbLen) calls := by
  refine h.throughout_of_along (I := fun s => s.direct.Ok pkt ∧ s.Sound pkt) ?_ (fun _ h => h.2) hC
    ⟨directContextInit_ok pkt buffer bbLen, nofun⟩
  rintro s ⟨offset, length⟩ s' ⟨hd, -⟩ hok hs
  simp only [refs] at hs
  split at hs
  · rename_i hin
    obtain ⟨⟨ref, d⟩, hr, rfl⟩ := Option.map_eq_some_iff.mp hs
    obtain ⟨hd', href⟩ := pktDirectRef_spec hlib hempty hlen hd hin hok hr
    refine ⟨hd', ?_⟩
    rintro offset length p ⟨⟩
    exact href p rfl
  · cases hs

theorem fragLib_findsEmpty : fragLib.FindsEmpty := fragLib_findsByte.findsEmpty

/-- Two fragments. -/
def twoFragments : PktHandle := [[1, 2], [3, 4, 5, 6]]

/-- The second call is served from the fragment the first has found, past the byte it asks for. -/
theorem not_refs_sound : ¬ ∀ (lib : DVFilterLib) (pkt : PktHandle) (buffer : List UInt8)
    (bbLen : UInt32) (calls : List (UInt32 × UInt32)) (s : Refs), lib.Documented →
    lib.FindsEmpty → pkt.flatten.length < 2 ^ 32 →
    (refs lib pkt).Run (Refs.init buffer bbLen) calls s →
    (refs lib pkt).Throughout (Refs.Sound pkt) (Refs.init buffer bbLen) calls := by
  intro h
  have hr := Machine.run_of_exec (show
    ((refs fragLib twoFragments).exec (Refs.init [] 128) [(2, 1), (3, 1)]).isSome by decide)
  have hs := (h fragLib twoFragments [] 128 _ _ fragLib_documented fragLib_findsEmpty (by decide)
    hr).last hr 3 1 (.frag 1 3) (by decide)
  revert hs
  decide

theorem refs_sound_twoFragments :
    (refs fragLib twoFragments).Throughout (Refs.Sound twoFragments) (Refs.init [] 128)
      [(0, 2), (0, 1), (2, 3), (1, 2)] :=
  refs_sound fragLib_documented fragLib_findsEmpty twoFragments (by decide) [] 128 _ _
    (Machine.run_of_exec (by decide)) (by decide)

end DistDpi
