import Mathlib.Algebra.GroupWithZero.Nat
import DistDpi.Netx.Headers

/-!
# Netx — copying a packet

`CopyPacket` copies from one packet to another, each in fragments of its own.  Two cursors go through
the fragments; a turn copies as much as both have left of the one they are in, so that one of the two
comes to the end of it.  Both cursors are at the same place of their packets all the time
(`CursorAt`), and what is before it has been copied (`copyPacketLoop_spec`); an empty fragment on the
way fails the `ASSERT` (`copyTurn_stuck`).
-/

namespace DistDpi
open Slices

/-- The functions of DVFilterLib that `CopyPacket` calls. -/
structure DVFilterCopyLib where
  getPktLen : PktHandle → UInt32
  /-- The address and the length, or the status. -/
  getPktFragAddressAndLength : PktHandle → UInt32 → Except DVFilterStatus (DataPtr × UInt32)

/-- `dvfilterlib.h`, on packets whose length is a `uint32_t`. -/
structure DVFilterCopyLib.Documented (lib : DVFilterCopyLib) : Prop where
  len : ∀ pkt : PktHandle, pkt.flatten.length < 2 ^ 32 →
    (lib.getPktLen pkt).toNat = pkt.flatten.length
  frag : ∀ (pkt : PktHandle) (ndx : UInt32) (f : List UInt8), pkt.flatten.length < 2 ^ 32 →
    pkt[ndx.toNat]? = some f →
      lib.getPktFragAddressAndLength pkt ndx = .ok (.frag ndx.toNat 0, .ofNat f.length)
  outOfBounds : ∀ (pkt : PktHandle) (ndx : UInt32), pkt.flatten.length < 2 ^ 32 →
    pkt[ndx.toNat]? = none → lib.getPktFragAddressAndLength pkt ndx = .error .error

/-- `sNdx`, `sData` and `sLen`, or `dNdx`, `dData` and `dLen`; `data` is not set at first. -/
structure Cursor where
  ndx : UInt32
  data : Option DataPtr
  len : UInt32
  deriving DecidableEq, Repr

namespace Cursor

def start : Cursor := ⟨0, none, 0⟩

/-- The next fragment, at the end of one. -/
def next (lib : DVFilterCopyLib) (pkt : PktHandle) (c : Cursor) : Except DVFilterStatus Cursor :=
  if c.len = 0 then
    match lib.getPktFragAddressAndLength pkt c.ndx with
    | .error status => .error status
    | .ok (data, len) => .ok ⟨c.ndx + 1, some data, len⟩
  else .ok c

def advance (moveLen : UInt32) (c : Cursor) : Cursor :=
  { c with data := c.data.map (.add moveLen.toNat), len := c.len - moveLen }

end Cursor

/-- A turn of the loop of `CopyPacket`: what it moves, and `dst` and the cursors behind it, or the
status it returns.  A failed `ASSERT` has no result. -/
def copyTurn (lib : DVFilterCopyLib) (src dst : PktHandle) (s d : Cursor) :
    Option (Except DVFilterStatus (UInt32 × PktHandle × Cursor × Cursor)) :=
  match s.next lib src with
  | .error status => some (.error status)
  | .ok s =>
      match d.next lib dst with
      | .error status => some (.error status)
      | .ok d => do
          let moveLen := if s.len > d.len then d.len else s.len
          let sData ← s.data
          let dData ← d.data
          if moveLen > 0 then
            let bytes ← bytesAt src [] sData moveLen.toNat
            let m ← Memory.write ⟨dst, []⟩ dData bytes
            let s := s.advance moveLen
            let d := d.advance moveLen
            if s.len = 0 ∨ d.len = 0 then some (.ok (moveLen, m.pkt, s, d)) else none
          else none

/-- The loop: the status, and `dst` as it is then.  A loop that does not end has no result; each turn
moves a byte at least, so that `copyLen` turns are enough. -/
def copyPacketLoop (lib : DVFilterCopyLib) (src : PktHandle) : Nat → PktHandle → UInt32 → Cursor →
    Cursor → Option (DVFilterStatus × PktHandle)
  | 0, dst, copyLen, _, _ => if copyLen = 0 then some (.ok, dst) else none
  | fuel + 1, dst, copyLen, s, d =>
      if copyLen = 0 then some (.ok, dst)
      else (copyTurn lib src dst s d).bind fun
        | .error status => some (status, dst)
        | .ok (moveLen, dst, s, d) => copyPacketLoop lib src fuel dst (copyLen - moveLen) s d

/-- `CopyPacket`. -/
def copyPacket (lib : DVFilterCopyLib) (dst src : PktHandle) (copyLen : UInt32) :
    Option (DVFilterStatus × PktHandle) :=
  let srcLen := lib.getPktLen src
  let dstLen := lib.getPktLen dst
  if copyLen ≠ 0 ∧ copyLen < srcLen then some (.error, dst)
  else
    let copyLen := if copyLen = 0 then srcLen else copyLen
    if dstLen < srcLen then some (.error, dst)
    else copyPacketLoop lib src copyLen.toNat dst copyLen .start .start

/-! ### Cursors -/

/-- The lengths of the fragments, up to the `n`th. -/
def lenBefore (pkt : PktHandle) (n : Nat) : Nat := ((pkt.map List.length).take n).sum

/-- The cursor is at the byte `pos`: the fragment it is in, if any, ends with the bytes it has left. -/
structure CursorAt (c : Cursor) (pkt : PktHandle) (pos : Nat) : Prop where
  ends : lenBefore pkt c.ndx.toNat = pos + c.len.toNat
  data : 0 < c.len.toNat → ∃ j k, c.data = some (.frag j k) ∧ c.ndx.toNat = j + 1 ∧
    (pkt.map List.length)[j]? = some (k + c.len.toNat)

/-- No fragment that starts before the byte `n` is empty. -/
def Unbroken (n : Nat) (pkt : PktHandle) : Prop :=
  ∀ i f, pkt[i]? = some f → lenBefore pkt i < n → f ≠ []

/-- The fragments that the cursor has come through are not empty. -/
def Cursor.Passed (c : Cursor) (pkt : PktHandle) : Prop :=
  ∀ i f, pkt[i]? = some f → i < c.ndx.toNat → f ≠ []

section
variable {lib : DVFilterCopyLib} {pkt pkt' src dst : PktHandle} {c c' s d : Cursor} {pos n : Nat}

theorem lenBefore_succ {f : List UInt8} (h : pkt[n]? = some f) :
    lenBefore pkt (n + 1) = lenBefore pkt n + f.length := by
  rw [lenBefore, List.take_add_one, List.getElem?_map, h]
  simp [lenBefore]

theorem lenBefore_eq (pkt : PktHandle) (n : Nat) :
    lenBefore pkt n = (pkt.take n).flatten.length := by
  rw [lenBefore, ← List.map_take, List.length_flatten]

theorem lenBefore_mono {i j : Nat} (h : i ≤ j) : lenBefore pkt i ≤ lenBefore pkt j := by
  obtain ⟨k, rfl⟩ := Nat.exists_eq_add_of_le h
  rw [lenBefore_eq, lenBefore_eq, List.take_add, List.flatten_append, List.length_append]
  exact Nat.le_add_right _ _

/-- Where fragments are as long as others, they are not empty where those are not. -/
theorem getElem?_of_lengths {i : Nat} {f : List UInt8}
    (hl : pkt'.map List.length = pkt.map List.length) (h : pkt'[i]? = some f) :
    ∃ g, pkt[i]? = some g ∧ (g ≠ [] → f ≠ []) := by
  have hi : (pkt.map List.length)[i]? = some f.length := by
    rw [← hl, List.getElem?_map, h, Option.map_some]
  rw [List.getElem?_map, Option.map_eq_some_iff] at hi
  obtain ⟨g, hg, he⟩ := hi
  refine ⟨g, hg, fun hne => List.length_pos_iff.1 ?_⟩
  rw [← he]
  exact List.length_pos_iff.2 hne

theorem unbroken_of_ne (h : ∀ f ∈ pkt, f ≠ []) : Unbroken n pkt :=
  fun _ f hf _ => h f (List.mem_of_getElem? hf)

theorem Unbroken.congr (h : Unbroken n pkt) (hl : pkt'.map List.length = pkt.map List.length) :
    Unbroken n pkt' := by
  intro i f hf hi
  obtain ⟨g, hg, hne⟩ := getElem?_of_lengths hl hf
  rw [lenBefore, hl] at hi
  exact hne (h i g hg hi)

theorem Cursor.Passed.congr (h : c.Passed pkt) (hl : pkt'.map List.length = pkt.map List.length) :
    c.Passed pkt' := by
  intro i f hf hi
  obtain ⟨g, hg, hne⟩ := getElem?_of_lengths hl hf
  exact hne (h i g hg hi)

/-- Each fragment that was passed has a byte at least. -/
theorem Cursor.Passed.le (h : c.Passed pkt) (hndx : c.ndx.toNat ≤ pkt.length) :
    c.ndx.toNat ≤ lenBefore pkt c.ndx.toNat := by
  rw [lenBefore_eq]
  have hne : ∀ f ∈ pkt.take c.ndx.toNat, f ≠ [] := by
    intro f hf
    obtain ⟨i, hi⟩ := List.mem_iff_getElem?.1 hf
    rw [List.getElem?_take] at hi
    split at hi
    · exact h i f hi ‹_›
    · cases hi
  have hle := Fragments.length_le_flatten hne
  rwa [List.length_take_of_le hndx] at hle

theorem passed_start (pkt : PktHandle) : Cursor.start.Passed pkt :=
  fun i _ _ hi => absurd hi (Nat.not_lt_zero i)

theorem cursorAt_start (pkt : PktHandle) : CursorAt .start pkt 0 :=
  ⟨rfl, fun h => absurd h (Nat.lt_irrefl 0)⟩

/-- The contents of the fragments make no difference. -/
theorem CursorAt.congr (h : CursorAt c pkt pos) (hl : pkt'.map List.length = pkt.map List.length) :
    CursorAt c pkt' pos where
  ends := by rw [lenBefore, hl]; exact h.ends
  data hpos := by rw [hl]; exact h.data hpos

/-- The bytes that are left of the fragment. -/
theorem CursorAt.region (h : CursorAt c pkt pos) (hpos : 0 < c.len.toNat) :
    ∃ j k f, c.data = some (.frag j k) ∧ Fragments.Region pkt pos c.len.toNat j k f := by
  obtain ⟨j, k, hdata, hndx, hl⟩ := h.data hpos
  rw [List.getElem?_map, Option.map_eq_some_iff] at hl
  obtain ⟨f, hf, hl⟩ := hl
  have hends := h.ends
  rw [hndx, lenBefore_succ hf, lenBefore_eq] at hends
  exact ⟨j, k, f, hdata, hf, by omega, by omega⟩

/-- A cursor that comes to the end of a packet without empty fragments on the way. -/
theorem CursorAt.unbroken (h : CursorAt c pkt n) (hp : c.Passed pkt) : Unbroken n pkt := by
  intro i f hf hi
  refine hp i f hf ?_
  by_contra hge
  have hends := h.ends
  have hmono : lenBefore pkt c.ndx.toNat ≤ lenBefore pkt i := lenBefore_mono (Nat.not_lt.1 hge)
  omega

/-- A cursor that is not at the end of its packet is in a fragment after `next`; it has no byte left
only where that is empty. -/
theorem CursorAt.next (hlib : lib.Documented) (hlen : pkt.flatten.length < 2 ^ 32)
    (hp : c.Passed pkt) (h : CursorAt c pkt pos) (hpos : pos < pkt.flatten.length) :
    ∃ c', c.next lib pkt = .ok c' ∧ CursorAt c' pkt pos ∧
      ((0 < c'.len.toNat ∧ c'.Passed pkt) ∨ (c'.len = 0 ∧ ∀ n, pos < n → ¬ Unbroken n pkt)) := by
  rcases Nat.eq_zero_or_pos c.len.toNat with hz | hleft
  · -- at the end of a fragment that is not the last
    have hends := h.ends
    have hndx : c.ndx.toNat < pkt.length := by
      by_contra hge
      rw [lenBefore_eq, List.take_of_length_le (Nat.le_of_not_lt hge)] at hends
      omega
    have hf := List.getElem?_eq_getElem hndx
    have hmem := List.getElem_mem hndx
    generalize pkt[c.ndx.toNat] = f at hf hmem
    have hle := Fragments.length_le_of_mem hmem
    have hcount := hp.le (Nat.le_of_lt hndx)
    have hnext : (c.ndx + 1).toNat = c.ndx.toNat + 1 :=
      toNat_add_of_le (show c.ndx.toNat + 1 < 2 ^ 32 by omega)
    have hlenf : (UInt32.ofNat f.length).toNat = f.length :=
      UInt32.toNat_ofNat_of_lt' (show f.length < 2 ^ 32 by omega)
    refine ⟨⟨c.ndx + 1, some (.frag c.ndx.toNat 0), .ofNat f.length⟩, ?_, ⟨?_, fun _ => ?_⟩, ?_⟩
    · rw [Cursor.next, if_pos (UInt32.toNat_inj.1 hz), hlib.frag pkt c.ndx f hlen hf]
    · rw [hnext, lenBefore_succ hf, hlenf]
      omega
    · refine ⟨_, 0, rfl, hnext, ?_⟩
      rw [List.getElem?_map, hf, hlenf, Nat.zero_add, Option.map_some]
    · by_cases hnil : f = []
      · refine .inr ⟨?_, fun n hn hunb => hunb _ f hf (by omega) hnil⟩
        rw [hnil]
        rfl
      · refine .inl ⟨?_, fun i g hg hi => ?_⟩
        · rw [hlenf]
          exact List.length_pos_iff.2 hnil
        · rcases Nat.lt_succ_iff_lt_or_eq.1 (hnext ▸ hi) with hi | rfl
          · exact hp i g hg hi
          · cases hf.symm.trans hg
            exact hnil
  · refine ⟨c, if_neg fun hz => ?_, h, .inl ⟨hleft, hp⟩⟩
    rw [hz] at hleft
    exact absurd hleft (Nat.lt_irrefl 0)

theorem CursorAt.advance {moveLen : UInt32} (h : CursorAt c pkt pos) (hle : moveLen ≤ c.len) :
    CursorAt (c.advance moveLen) pkt (pos + moveLen.toNat) := by
  have hends := h.ends
  have hsub : (c.len - moveLen).toNat = c.len.toNat - moveLen.toNat :=
    UInt32.toNat_sub_of_le _ _ hle
  rw [UInt32.le_iff_toNat_le] at hle
  refine ⟨?_, fun hpos => ?_⟩
  · change lenBefore pkt c.ndx.toNat = pos + moveLen.toNat + (c.len - moveLen).toNat
    omega
  · change 0 < (c.len - moveLen).toNat at hpos
    obtain ⟨j, k, hdata, hndx, hl⟩ := h.data (by omega)
    refine ⟨j, k + moveLen.toNat, ?_, hndx, ?_⟩
    · rw [Cursor.advance, hdata]
      rfl
    · change _ = some (k + moveLen.toNat + (c.len - moveLen).toNat)
      rw [hl, hsub]
      congr 1
      omega

/-! ### The loop -/

/-- What one turn moves: all that one of the two has left. -/
theorem moveLen_eq (a b : UInt32) :
    (if a > b then b else a) = a ∨ (if a > b then b else a) = b := by
  split
  · exact .inr rfl
  · exact .inl rfl

/-- A turn that has nothing to move fails the `ASSERT`. -/
theorem copyTurn_stuck {s' d' : Cursor} (hs : s.next lib src = .ok s')
    (hd : d.next lib dst = .ok d') (hz : s'.len = 0 ∨ d'.len = 0) :
    copyTurn lib src dst s d = none := by
  obtain ⟨hms, hmd⟩ := moveLen_le s'.len d'.len
  simp only [copyTurn, hs, hd]
  generalize (if s'.len > d'.len then d'.len else s'.len) = m at hms hmd
  have hm : ¬ m > 0 := by
    intro hpos
    have hpos' : 0 < m.toNat := UInt32.lt_iff_toNat_lt.1 hpos
    rcases hz with hz | hz
    · rw [hz, UInt32.toNat_zero] at hms
      omega
    · rw [hz, UInt32.toNat_zero] at hmd
      omega
  cases s'.data with
  | none => rfl
  | some sData =>
      cases d'.data with
      | none => rfl
      | some dData => exact if_neg hm

/-- **One turn** moves both cursors, and copies what is between; it fails where a fragment that it
comes to is empty. -/
theorem copyTurn_spec (hlib : lib.Documented) (hsrc : src.flatten.length < 2 ^ 32)
    (hdst : dst.flatten.length < 2 ^ 32) (hsp : s.Passed src) (hdp : d.Passed dst)
    (hroom : src.flatten.length ≤ dst.flatten.length) (hs : CursorAt s src pos)
    (hd : CursorAt d dst pos) (hpos : pos < src.flatten.length) :
    (copyTurn lib src dst s d = none ∧
        ¬ (Unbroken src.flatten.length src ∧ Unbroken src.flatten.length dst)) ∨
      ∃ m dst' s' d', copyTurn lib src dst s d = some (.ok (m, dst', s', d')) ∧
        0 < m.toNat ∧ pos + m.toNat ≤ src.flatten.length ∧
        dst'.flatten = patch dst.flatten pos ((src.flatten.drop pos).take m.toNat) ∧
        dst'.map List.length = dst.map List.length ∧
        (CursorAt s' src (pos + m.toNat) ∧ s'.Passed src) ∧
        (CursorAt d' dst' (pos + m.toNat) ∧ d'.Passed dst') := by
  obtain ⟨s', hsnext, hs', hsleft⟩ := hs.next hlib hsrc hsp hpos
  obtain ⟨d', hdnext, hd', hdleft⟩ := hd.next hlib hdst hdp (by omega)
  rcases hsleft with ⟨hsleft, hsp'⟩ | ⟨hz, hbroken⟩
  swap
  · exact .inl ⟨copyTurn_stuck hsnext hdnext (.inl hz), fun h => hbroken _ hpos h.1⟩
  rcases hdleft with ⟨hdleft, hdp'⟩ | ⟨hz, hbroken⟩
  swap
  · exact .inl ⟨copyTurn_stuck hsnext hdnext (.inr hz), fun h => hbroken _ hpos h.2⟩
  right
  obtain ⟨js, ks, fs, hsdata, hsreg⟩ := hs'.region hsleft
  obtain ⟨jd, kd, fd, hddata, hdreg⟩ := hd'.region hdleft
  have hsle := hsreg.le
  obtain ⟨hms, hmd⟩ := moveLen_le s'.len d'.len
  have hend := moveLen_eq s'.len d'.len
  generalize hm : (if s'.len > d'.len then d'.len else s'.len) = m at hms hmd hend
  have hmpos : 0 < m.toNat := by
    rcases hend with rfl | rfl
    · exact hsleft
    · exact hdleft
  have hbytes : bytesAt src [] (.frag js ks) m.toNat =
      some ((src.flatten.drop pos).take m.toNat) :=
    bytesAt_region (hsreg.sub (d := 0) (n := m.toNat) (by omega))
  have hl : ((src.flatten.drop pos).take m.toNat).length = m.toNat := length_slice (by omega)
  have hto : Fragments.Region dst pos ((src.flatten.drop pos).take m.toNat).length jd kd fd := by
    rw [hl]
    exact hdreg.sub (d := 0) (n := m.toNat) (by omega)
  obtain ⟨dst', hwrite, hflat, hfrags, -⟩ := Memory.write_region (m := ⟨dst, []⟩) hto
  have hdp'' : (d'.advance m).Passed dst := hdp'
  refine ⟨m, dst', s'.advance m, d'.advance m, ?_, hmpos, by omega, hflat, hfrags,
    ⟨hs'.advance (UInt32.le_iff_toNat_le.2 hms), hsp'⟩,
    ⟨(hd'.advance (UInt32.le_iff_toNat_le.2 hmd)).congr hfrags, hdp''.congr hfrags⟩⟩
  simp only [copyTurn, hsnext, hdnext, hm, hsdata, hddata, hbytes, hwrite, Option.bind_eq_bind,
    Option.bind_some]
  rw [if_pos (show m > 0 from UInt32.lt_iff_toNat_lt.2 hmpos), if_pos]
  -- one of the two is used up
  rcases hend with rfl | rfl
  · exact .inl (UInt32.sub_self _)
  · exact .inr (UInt32.sub_self _)

/-- Nothing is left to copy. -/
theorem copied_all (hsp : s.Passed src) (hdp : d.Passed dst) (hs : CursorAt s src pos)
    (hd : CursorAt d dst pos) (h : pos = src.flatten.length) :
    (Unbroken src.flatten.length src ∧ Unbroken src.flatten.length dst) ∧
      dst.flatten = patch dst.flatten pos (src.flatten.drop pos) := by
  subst h
  rw [List.drop_of_length_le (Nat.le_refl _), patch_nil]
  exact ⟨⟨hs.unbroken hsp, hd.unbroken hdp⟩, rfl⟩

/-- **The loop of `CopyPacket`**, from a state in which both cursors are at `pos`: it copies what is
left, exactly where no fragment on the way is empty. -/
theorem copyPacketLoop_spec (hlib : lib.Documented) (hsrc : src.flatten.length < 2 ^ 32)
    (hdst : dst.flatten.length < 2 ^ 32) (hsp : s.Passed src) (hdp : d.Passed dst)
    (hroom : src.flatten.length ≤ dst.flatten.length) {fuel : Nat} {copyLen : UInt32}
    (hfuel : copyLen.toNat ≤ fuel) (hcopy : pos + copyLen.toNat = src.flatten.length)
    (hs : CursorAt s src pos) (hd : CursorAt d dst pos) :
    (copyPacketLoop lib src fuel dst copyLen s d = none ∧
        ¬ (Unbroken src.flatten.length src ∧ Unbroken src.flatten.length dst)) ∨
      (Unbroken src.flatten.length src ∧ Unbroken src.flatten.length dst) ∧
        ∃ dst', copyPacketLoop lib src fuel dst copyLen s d = some (.ok, dst') ∧
          dst'.flatten = patch dst.flatten pos (src.flatten.drop pos) ∧
          dst'.map List.length = dst.map List.length := by
  induction fuel generalizing dst copyLen s d pos with
  | zero =>
      have hz : copyLen = 0 := UInt32.toNat_inj.1 (Nat.le_zero.1 hfuel)
      rw [hz, UInt32.toNat_zero] at hcopy
      obtain ⟨hunb, hflat⟩ := copied_all hsp hdp hs hd hcopy
      exact .inr ⟨hunb, dst, if_pos hz, hflat, rfl⟩
  | succ fuel ih =>
      rw [copyPacketLoop]
      split
      · rename_i hz
        rw [hz, UInt32.toNat_zero] at hcopy
        obtain ⟨hunb, hflat⟩ := copied_all hsp hdp hs hd hcopy
        exact .inr ⟨hunb, dst, rfl, hflat, rfl⟩
      · rename_i hne
        have hpos : 0 < copyLen.toNat := Nat.pos_of_ne_zero fun k => hne (UInt32.toNat_inj.1 k)
        rcases copyTurn_spec hlib hsrc hdst hsp hdp hroom hs hd (by omega) with
          ⟨hturn, hbroken⟩ | ⟨m, dst₁, s₁, d₁, hturn, hmpos, hmle, hflat, hfrags, hs₁, hd₁⟩
        · rw [hturn]
          exact .inl ⟨rfl, hbroken⟩
        have hl : ((src.flatten.drop pos).take m.toNat).length = m.toNat := length_slice hmle
        have hin : pos + ((src.flatten.drop pos).take m.toNat).length ≤ dst.flatten.length := by
          omega
        have hlen₁ : dst₁.flatten.length = dst.flatten.length := by rw [hflat, length_patch hin]
        have hsub : (copyLen - m).toNat = copyLen.toNat - m.toNat :=
          UInt32.toNat_sub_of_le _ _ (UInt32.le_iff_toNat_le.2 (by omega))
        have hfuel' : (copyLen - m).toNat ≤ fuel := by omega
        have hcopy' : pos + m.toNat + (copyLen - m).toNat = src.flatten.length := by omega
        rw [hturn]
        rcases ih (by omega) hs₁.2 hd₁.2 (by omega) hfuel' hcopy' hs₁.1 hd₁.1 with
          ⟨hrun, hbroken⟩ | ⟨⟨hsu, hdu⟩, dst', hrun, hflat', hfrags'⟩
        · exact .inl ⟨hrun, fun h => hbroken ⟨h.1, h.2.congr hfrags⟩⟩
        · refine .inr ⟨⟨hsu, hdu.congr hfrags.symm⟩, dst', hrun, ?_, hfrags'.trans hfrags⟩
          -- the bytes of this turn, and those of the others
          rw [hflat', hflat, ← List.drop_drop]
          exact patch_take_drop (by rw [List.length_drop]; omega) (by rwa [hl] at hin)

/-! ### The function -/

/-- A packet that is copied whole, to one that has room for it. -/
theorem copyPacket_eq (hlib : lib.Documented) (hsrc : src.flatten.length < 2 ^ 32)
    (hdst : dst.flatten.length < 2 ^ 32) (hroom : src.flatten.length ≤ dst.flatten.length)
    {copyLen : UInt32} (hcopy : copyLen = 0 ∨ copyLen.toNat = src.flatten.length) :
    ∃ n : UInt32, n.toNat = src.flatten.length ∧
      copyPacket lib dst src copyLen = copyPacketLoop lib src n.toNat dst n .start .start := by
  have hslen := hlib.len src hsrc
  have hdlen := hlib.len dst hdst
  have hlong : copyLen < lib.getPktLen src ↔ copyLen.toNat < src.flatten.length := by
    rw [UInt32.lt_iff_toNat_lt, hslen]
  have hshort : lib.getPktLen dst < lib.getPktLen src ↔
      dst.flatten.length < src.flatten.length := by
    rw [UInt32.lt_iff_toNat_lt, hslen, hdlen]
  have hno : ¬ (copyLen ≠ 0 ∧ copyLen < lib.getPktLen src) := by
    rintro ⟨hne, hlt⟩
    rw [hlong, hcopy.resolve_left hne] at hlt
    exact absurd hlt (Nat.lt_irrefl _)
  refine ⟨if copyLen = 0 then lib.getPktLen src else copyLen, ?_, ?_⟩
  · split
    · exact hslen
    · rename_i hne
      exact hcopy.resolve_left hne
  · rw [copyPacket, if_neg hno, if_neg (mt hshort.1 (Nat.not_lt.2 hroom))]

/-- **`CopyPacket` succeeds**, where the copy has room for the packet, exactly where no fragment on
the way is empty. -/
theorem copyPacket_ok_iff (hlib : lib.Documented) (hsrc : src.flatten.length < 2 ^ 32)
    (hdst : dst.flatten.length < 2 ^ 32) (hroom : src.flatten.length ≤ dst.flatten.length)
    {copyLen : UInt32} (hcopy : copyLen = 0 ∨ copyLen.toNat = src.flatten.length) :
    (∃ dst', copyPacket lib dst src copyLen = some (.ok, dst')) ↔
      Unbroken src.flatten.length src ∧ Unbroken src.flatten.length dst := by
  obtain ⟨n, hn, hrun⟩ := copyPacket_eq hlib hsrc hdst hroom hcopy
  rw [hrun]
  rcases copyPacketLoop_spec hlib hsrc hdst (passed_start src) (passed_start dst) hroom
    (Nat.le_refl _) (by rw [hn, Nat.zero_add]) (cursorAt_start src) (cursorAt_start dst) with
    ⟨hloop, hbroken⟩ | ⟨hunb, dst', hloop, -⟩
  · refine iff_of_false ?_ hbroken
    rintro ⟨dst', h⟩
    rw [hloop] at h
    cases h
  · exact iff_of_true ⟨dst', hloop⟩ hunb

/-- **`CopyPacket` copies exactly.** -/
theorem copyPacket_exact (hlib : lib.Documented) (hsrc : src.flatten.length < 2 ^ 32)
    (hdst : dst.flatten.length < 2 ^ 32) (hsne : ∀ f ∈ src, f ≠ []) (hdne : ∀ f ∈ dst, f ≠ [])
    (copyLen : UInt32) :
    (src.flatten.length ≤ dst.flatten.length →
      (copyLen = 0 ∨ copyLen.toNat = src.flatten.length) →
      ∃ dst', copyPacket lib dst src copyLen = some (.ok, dst') ∧
        dst'.flatten = src.flatten ++ dst.flatten.drop src.flatten.length ∧
        dst'.map List.length = dst.map List.length) ∧
    (dst.flatten.length < src.flatten.length ∨
      (copyLen ≠ 0 ∧ copyLen.toNat < src.flatten.length) →
      copyPacket lib dst src copyLen = some (.error, dst)) := by
  constructor
  · intro hroom hcopy
    obtain ⟨n, hn, hrun⟩ := copyPacket_eq hlib hsrc hdst hroom hcopy
    rcases copyPacketLoop_spec hlib hsrc hdst (passed_start src) (passed_start dst) hroom
      (Nat.le_refl _) (by rw [hn, Nat.zero_add]) (cursorAt_start src) (cursorAt_start dst) with
      ⟨-, hbroken⟩ | ⟨-, dst', hloop, hflat, hfrags⟩
    · exact absurd ⟨unbroken_of_ne hsne, unbroken_of_ne hdne⟩ hbroken
    · refine ⟨dst', hrun.trans hloop, ?_, hfrags⟩
      rw [hflat, patch, List.drop_zero, List.take_zero, List.nil_append, Nat.zero_add]
  · intro h
    have hslen := hlib.len src hsrc
    have hdlen := hlib.len dst hdst
    rw [copyPacket]
    split
    · rfl
    · rename_i hno
      rw [UInt32.lt_iff_toNat_lt, hslen] at hno
      refine if_pos (UInt32.lt_iff_toNat_lt.2 ?_)
      rw [hslen, hdlen]
      exact h.resolve_right hno

end

/-- A DVFilterLib that does what the documentation says. -/
def fragCopyLib : DVFilterCopyLib where
  getPktLen pkt := .ofNat pkt.flatten.length
  getPktFragAddressAndLength pkt ndx :=
    match pkt[ndx.toNat]? with
    | some f => .ok (.frag ndx.toNat 0, .ofNat f.length)
    | none => .error .error

theorem fragCopyLib_documented : fragCopyLib.Documented where
  len _ h := UInt32.toNat_ofNat_of_lt' h
  frag pkt ndx f _ h := by simp only [fragCopyLib, h]
  outOfBounds pkt ndx _ h := by simp only [fragCopyLib, h]

/-- Fragments of 2 and 3 bytes, to fragments of 1, 3 and 2. -/
theorem copyPacket_exact_fragments :
    ∃ dst', copyPacket fragCopyLib [[0], [0, 0, 0], [0, 9]] [[1, 2], [3, 4, 5]] 0 =
        some (.ok, dst') ∧
      dst'.flatten = [[1, 2], [3, 4, 5]].flatten ++
        [[0], [0, 0, 0], [0, 9]].flatten.drop [[1, 2], [3, 4, 5]].flatten.length ∧
      dst'.map List.length = [[0], [0, 0, 0], [0, 9]].map List.length :=
  (copyPacket_exact fragCopyLib_documented (by decide) (by decide) (by decide) (by decide) 0).1
    (by decide) (.inl rfl)

end DistDpi
