import DistDpi.Netx.Lookups
import DistDpi.Netx.Napt

/-!
# Netx — the status of NAPT

`PerformNAPT` returns `NO_MATCH`, which is `DVFILTER_STATUS_OK`, where it finds no Ethernet or IP
header in one fragment; it has an `ASSERT` for the TCP header; and the fragment of the IP header, if
that goes on behind the TCP header, is taken for one that starts with the packet.  In all other
cases the status says whether the port was rewritten (`performNAPT_truthful_iff`).  The `ASSERT` does
not fail where one fragment has as much of the packet as `frameLen` says (`performNAPT_returns`).
-/

namespace DistDpi

/-- **The property.**  `DVFILTER_STATUS_OK` says that the TCP port was rewritten, and everything
else that the packet is as it was. -/
def NaptResult.Truthful (r : NaptResult) (pkt : PktHandle) : Prop :=
  (r.status = .ok ↔ r.RewrotePort pkt) ∧ (r.status ≠ .ok → r.pkt = pkt)

/-- **The condition.**  The first 26 bytes are in one fragment; if they say IP, the IP header is in
one; and if that says TCP, and the TCP header is not cut off, then this is in one, and the fragment
of the IP header is the first and goes on, or ends with the TCP header at the latest. -/
def NaptInReach (pkt : PktHandle) : Prop :=
  let frame := pkt.flatten
  let ethtype := etherType frame
  let ip := (ipOffset frame).toNat
  let tcp := (transportOffset frame).toNat
  let frameLen := frame.length % 2 ^ 16
  ∃ j k f, Fragments.Region pkt 0 26 j k f ∧ (IsIp ethtype →
    ∃ j' k' f', Fragments.Region pkt ip (ipHdrLen ethtype).toNat j' k' f' ∧
      (ip + (ipHdrLen ethtype).toNat ≤ frameLen → ipProtocol frame = IPPROTO_TCP →
        tcp + 20 ≤ frameLen → (∃ j k f, Fragments.Region pkt tcp 20 j k f) ∧
          (ip + (ipHdrLen ethtype).toNat < f.length - k ∨ ip + (f'.length - k') ≤ tcp + 20)))

section
variable {lib : DVFilterLib} {isMustCsum : Bool} {pkt : PktHandle} {newport frameLen ethtype : UInt16}
  {direction : UInt8} {lclBuf : List UInt8} {offset : UInt32} {d d' : FilterDirectContext}
  {base j k j' k' : Nat} {f f' : List UInt8}

/-- The two cases of the `switch`. -/
theorem naptHeader_eq (h : IsIp ethtype) : naptHeader lib pkt frameLen ethtype offset d =
    (pktDirectRef lib pkt offset (ipHdrLen ethtype) d).bind fun (ipHeader, d) =>
      match ipHeader with
      | none => some (.error noMatchStatus)
      | some p => (bytesAt pkt d.backingBuffer p (ipHdrLen ethtype).toNat).bind fun hdr =>
          if frameLen.toUInt32 < offset + ipHdrLen ethtype then some (.error .error)
          else some (.ok ((ipNext ethtype hdr).1, (ipNext ethtype hdr).2, d)) := by
  unfold naptHeader ipHdrLen ipNext
  rcases h with rfl | rfl <;> rfl

/-- The IP header was found. -/
theorem naptHeader_found (h : IsIp ethtype)
    (href : pktDirectRef lib pkt offset (ipHdrLen ethtype) d = some (some (.frag j k), d'))
    (hreg : Fragments.Region pkt offset.toNat (ipHdrLen ethtype).toNat j k f) :
    naptHeader lib pkt frameLen ethtype offset d =
      if frameLen.toUInt32 < offset + ipHdrLen ethtype then some (.error .error)
      else some (.ok ((ipNext ethtype (pkt.flatten.drop offset.toNat)).1,
        (ipNext ethtype (pkt.flatten.drop offset.toNat)).2, d')) := by
  rw [naptHeader_eq h, href]
  simp only [Option.bind_some, bytesAt_region hreg, ipNext_take]

/-- A pointer into the packet, where there is a result. -/
theorem naptTcp_of_ref (hframe : ¬ frameLen.toUInt32 < offset + sizeofTCPHdr) {p : DataPtr}
    (href : pktDirectRef lib pkt offset sizeofTCPHdr d = some (some p, d')) :
    naptTcp lib isMustCsum pkt newport direction frameLen offset d =
      (rewritePort isMustCsum ⟨pkt, d'.backingBuffer⟩ p newport direction).map fun m =>
        ⟨.ok, m.pkt, some p⟩ := by
  rw [naptTcp, if_neg hframe, href]
  exact (Option.map_eq_bind ..).symm

/-- A TCP header ends inside a `uint32_t`. -/
theorem tcpHdr_in (frame : List UInt8) :
    (transportOffset frame).toNat + sizeofTCPHdr.toNat < 2 ^ 32 := by
  have hle := transportOffset_le frame
  rw [show sizeofTCPHdr.toNat = 20 from rfl]
  omega

/-- The test for a header that is cut off. -/
theorem frameLen_lt_iff (hlib : lib.Documented) (hlen : pkt.flatten.length < 2 ^ 32) :
    (lib.getPktLen pkt).toUInt16.toUInt32 < transportOffset pkt.flatten + sizeofTCPHdr ↔
      pkt.flatten.length % 2 ^ 16 < (transportOffset pkt.flatten).toNat + 20 := by
  rw [UInt32.lt_iff_toNat_lt, toNat_add_of_le (tcpHdr_in pkt.flatten), frameLen_toNat hlib hlen]
  rfl

/-- **The branch for TCP**, of a packet whose TCP header is at `offset`. -/
theorem naptTcp_truthful_iff (hlib : lib.Documented) (hlen : pkt.flatten.length < 2 ^ 32)
    (hd : Holds d pkt base j k f) (hoff : offset = transportOffset pkt.flatten)
    (hbase : base ≤ offset.toNat) (hframe : ¬ frameLen.toUInt32 < offset + sizeofTCPHdr) :
    (∃ r, naptTcp lib isMustCsum pkt newport direction frameLen offset d = some r ∧
        r.Truthful pkt) ↔
      (∃ j k f, Fragments.Region pkt offset.toNat 20 j k f) ∧
        (base = 0 ∨ base + (f.length - k) ≤ offset.toNat + 20) := by
  have hin : offset.toNat + sizeofTCPHdr.toNat < 2 ^ 32 := hoff ▸ tcpHdr_in pkt.flatten
  by_cases hreg : ∃ j k f, Fragments.Region pkt offset.toNat 20 j k f
  · rw [and_iff_right hreg]
    obtain ⟨j', k', f', hreg⟩ := hreg
    by_cases hfresh : base = 0 ∨ base + (f.length - k) ≤ offset.toNat + 20
    · -- found
      obtain ⟨d', href, -⟩ := nextRef_found hlib hlen hd (by decide) hin hreg hfresh
      obtain ⟨pkt', hrew, -⟩ : ∃ pkt',
          rewritePort isMustCsum ⟨pkt, d'.backingBuffer⟩ (.frag j' k') newport direction =
            some ⟨pkt', d'.backingBuffer⟩ ∧ _ := rewritePort_spec hreg
      refine iff_of_true ⟨⟨.ok, pkt', some (.frag j' k')⟩, ?_, ?_, ?_⟩ hfresh
      · rw [naptTcp_of_ref hframe href, hrew]
        rfl
      · exact iff_of_true rfl ⟨j', k', f', rfl, hoff ▸ hreg⟩
      · exact fun h => absurd rfl h
    · -- a pointer past the header
      rw [not_or, Nat.not_le] at hfresh
      have href : pktDirectRef lib pkt offset sizeofTCPHdr d =
          some (some (.frag j (k + offset.toNat)), d) := nextRef_stale hlen hd hin hbase hfresh.2
      refine iff_of_false ?_ (fun h => ?_)
      · rintro ⟨r, hr, hstatus, -⟩
        rw [naptTcp_of_ref hframe href] at hr
        obtain ⟨m, -, rfl⟩ := Option.map_eq_some_iff.mp hr
        obtain ⟨j'', k'', f'', hw, hreg'⟩ := hstatus.1 rfl
        cases hw
        rw [← hoff] at hreg'
        have hheld := hd.region_of_le hbase (Nat.le_of_lt hfresh.2)
        have := (hheld.unique hreg' (by decide) (by decide)).2.1
        omega
      · omega
  · -- the header is not in one fragment
    refine iff_of_false ?_ (fun h => hreg h.1)
    rintro ⟨r, hr, -⟩
    rw [naptTcp, if_neg hframe, nextRef_apart hlib hlen hd (by decide) hin
      (fun j k f h => hreg ⟨j, k, f, h⟩)] at hr
    cases hr

/-- No Ethernet header: `NO_MATCH`. -/
theorem performNAPT_apart (hlib : lib.Documented) (hlen : pkt.flatten.length < 2 ^ 32)
    (hno : ∀ j k f, ¬ Fragments.Region pkt 0 26 j k f) :
    performNAPT lib isMustCsum pkt newport direction lclBuf = some ⟨.ok, pkt, none⟩ := by
  obtain ⟨d, href⟩ := ethRef_apart hlib hlen hno
  rw [performNAPT, href]
  rfl

/-- What follows the `switch`. -/
def afterSwitch (lib : DVFilterLib) (isMustCsum : Bool) (pkt : PktHandle) (newport : UInt16)
    (direction : UInt8) (frameLen : UInt16) (offset : UInt32) :
    Except DVFilterStatus (UInt8 × UInt32 × FilterDirectContext) → Option NaptResult
  | .error status => some ⟨status, pkt, none⟩
  | .ok (protocol, nextHeaderOffset, direct) =>
      if protocol = IPPROTO_TCP then
        naptTcp lib isMustCsum pkt newport direction frameLen (offset + nextHeaderOffset) direct
      else some ⟨.error, pkt, none⟩

/-- An Ethernet header. -/
theorem performNAPT_found (hlib : lib.Documented) (hlen : pkt.flatten.length < 2 ^ 32)
    (hreg : Fragments.Region pkt 0 26 j k f) (isMustCsum : Bool) (newport : UInt16)
    (direction : UInt8) (lclBuf : List UInt8) :
    ∃ d, Holds d pkt 0 j k f ∧ performNAPT lib isMustCsum pkt newport direction lclBuf =
      if IsIp (etherType pkt.flatten) then
        (naptHeader lib pkt (lib.getPktLen pkt).toUInt16 (etherType pkt.flatten)
          (ipOffset pkt.flatten) d).bind (afterSwitch lib isMustCsum pkt newport direction
            (lib.getPktLen pkt).toUInt16 (ipOffset pkt.flatten))
      else some ⟨.error, pkt, none⟩ := by
  obtain ⟨d, href, hd, hbytes⟩ := ethRef_found hlib hlen hreg
  refine ⟨d, hd, ?_⟩
  rw [performNAPT, href]
  simp only [Option.bind_eq_bind, Option.bind_some, hbytes, ethEncapsulatedPktType_take]
  rfl

/-- An IP header is no longer than it says, less a TCP header. -/
theorem ipHdrLen_le_next (ethtype : UInt16) (hdr : List UInt8) :
    (ipHdrLen ethtype).toNat ≤ 20 + (ipNext ethtype hdr).2.toNat := by
  unfold ipHdrLen ipNext
  split
  · exact Nat.le_add_left 40 20
  · exact Nat.le_add_right 20 _

/-- The branch for TCP returns, where the first fragment has what `frameLen` says. -/
theorem naptTcp_returns (hlib : lib.Documented) (hlen : pkt.flatten.length < 2 ^ 32)
    (hd : Holds d pkt 0 j 0 f) (hinside : pkt.flatten.length % 2 ^ 16 ≤ f.length)
    (hreg : Fragments.Region pkt (ipOffset pkt.flatten).toNat
      (ipHdrLen (etherType pkt.flatten)).toNat j' k' f')
    (hd' : ((ipOffset pkt.flatten).toNat + (ipHdrLen (etherType pkt.flatten)).toNat < f.length - 0 ∧
        d' = d) ∨
      (f.length - 0 ≤ (ipOffset pkt.flatten).toNat + (ipHdrLen (etherType pkt.flatten)).toNat ∧
        Holds d' pkt (ipOffset pkt.flatten).toNat j' k' f')) :
    (naptTcp lib isMustCsum pkt newport direction (lib.getPktLen pkt).toUInt16
      (transportOffset pkt.flatten) d').isSome := by
  by_cases hcut : (lib.getPktLen pkt).toUInt16.toUInt32 < transportOffset pkt.flatten + sizeofTCPHdr
  · rw [naptTcp, if_pos hcut]
    rfl
  -- the fragment has the TCP header
  have hin := tcpHdr_in pkt.flatten
  have hwhole := hcut
  rw [frameLen_lt_iff hlib hlen, Nat.not_lt] at hwhole
  have htcp : Fragments.Region pkt (transportOffset pkt.flatten).toNat 20 j
      (0 + ((transportOffset pkt.flatten).toNat - 0)) f :=
    hd.region_of_le (Nat.zero_le _) (by omega)
  obtain ⟨d'', href⟩ : ∃ d'', pktDirectRef lib pkt (transportOffset pkt.flatten) sizeofTCPHdr d' =
      some (some (.frag j (0 + ((transportOffset pkt.flatten).toNat - 0))), d'') := by
    rcases hd' with ⟨-, rfl⟩ | ⟨hend, hd'⟩
    · obtain ⟨d'', hr, -⟩ := nextRef_found hlib hlen hd (by decide) hin htcp (.inl rfl)
      exact ⟨d'', hr⟩
    · -- the IP header ends with the fragment
      have hpos := (ipHdrLen_le (etherType pkt.flatten)).1
      have hoff := transportOffset_toNat pkt.flatten
      have hnext := ipHdrLen_le_next (etherType pkt.flatten)
        (pkt.flatten.drop (ipOffset pkt.flatten).toNat)
      have hheld : Fragments.Region pkt (ipOffset pkt.flatten).toNat 1 j
          (0 + ((ipOffset pkt.flatten).toNat - 0)) f :=
        hd.region_of_le (Nat.zero_le _) (by omega)
      obtain ⟨-, rfl, rfl⟩ := hheld.unique hreg (by decide) (by omega)
      obtain ⟨d'', hr, -⟩ := nextRef_found hlib hlen hd' (by decide) hin htcp
        (.inr (by rw [show sizeofTCPHdr.toNat = 20 from rfl]; omega))
      exact ⟨d'', hr⟩
  obtain ⟨pkt', hrew, -⟩ : ∃ pkt', rewritePort isMustCsum ⟨pkt, d''.backingBuffer⟩
      (.frag j (0 + ((transportOffset pkt.flatten).toNat - 0))) newport direction =
        some ⟨pkt', d''.backingBuffer⟩ ∧ _ := rewritePort_spec htcp
  rw [naptTcp_of_ref hcut href, hrew]
  rfl

/-- **`PerformNAPT` returns**, and no `ASSERT` of it fails, where as much of the packet as
`frameLen` says is in one fragment. -/
theorem performNAPT_returns (hlib : lib.Documented) (hlen : pkt.flatten.length < 2 ^ 32)
    (h : CaptureInside pkt) (isMustCsum : Bool) (newport : UInt16) (direction : UInt8)
    (lclBuf : List UInt8) :
    (performNAPT lib isMustCsum pkt newport direction lclBuf).isSome := by
  by_cases heth : ∃ j k f, Fragments.Region pkt 0 26 j k f
  swap
  · rw [performNAPT_apart hlib hlen fun j k f h => heth ⟨j, k, f, h⟩]
    rfl
  obtain ⟨j, k, f, heth⟩ := heth
  have hinside : pkt.flatten.length % 2 ^ 16 ≤ f.length := by
    rcases h with hz | ⟨j', k', f', heth', hle⟩
    · rw [hz]
      exact Nat.zero_le _
    · obtain ⟨-, -, rfl⟩ := heth.unique heth' (by decide) (by decide)
      exact hle
  obtain ⟨rfl, -⟩ := heth.at_start
  obtain ⟨d, hd, hrun⟩ := performNAPT_found hlib hlen heth isMustCsum newport direction lclBuf
  rw [hrun]
  split
  swap
  · rfl
  rename_i hip
  by_cases hreg : ∃ j k f, Fragments.Region pkt (ipOffset pkt.flatten).toNat
      (ipHdrLen (etherType pkt.flatten)).toNat j k f
  swap
  · rw [naptHeader_eq hip, ipRef_apart hlib hlen hd fun j k f h => hreg ⟨j, k, f, h⟩]
    rfl
  obtain ⟨j', k', f', hreg⟩ := hreg
  obtain ⟨d', href, hd'⟩ := ipRef_found hlib hlen hd hreg
  rw [naptHeader_found hip href hreg]
  split
  · rfl
  rw [Option.bind_some, afterSwitch]
  split
  · exact naptTcp_returns hlib hlen hd hinside hreg hd'
  · rfl

theorem truthful_error : (⟨.error, pkt, none⟩ : NaptResult).Truthful pkt :=
  ⟨iff_of_false nofun (fun ⟨_, _, _, hw, _⟩ => nomatch hw), fun _ => rfl⟩

/-- A status without a rewrite. -/
theorem not_truthful_ok : ¬ ∃ r, some (⟨.ok, pkt, none⟩ : NaptResult) = some r ∧ r.Truthful pkt := by
  rintro ⟨r, ⟨⟩, hr, -⟩
  obtain ⟨_, _, _, hw, -⟩ := hr.1 rfl
  cases hw

/-- An IP header that was found. -/
theorem afterSwitch_truthful_iff (hlib : lib.Documented) (hlen : pkt.flatten.length < 2 ^ 32)
    (hd : Holds d pkt 0 j k f) {n : Nat}
    (hd' : ((ipOffset pkt.flatten).toNat + n < f.length - k ∧ d' = d) ∨
      (f.length - k ≤ (ipOffset pkt.flatten).toNat + n ∧
        Holds d' pkt (ipOffset pkt.flatten).toNat j' k' f')) :
    (∃ r, afterSwitch lib isMustCsum pkt newport direction (lib.getPktLen pkt).toUInt16
        (ipOffset pkt.flatten) (.ok ((ipNext (etherType pkt.flatten)
          (pkt.flatten.drop (ipOffset pkt.flatten).toNat)).1, (ipNext (etherType pkt.flatten)
            (pkt.flatten.drop (ipOffset pkt.flatten).toNat)).2, d')) = some r ∧ r.Truthful pkt) ↔
      (ipProtocol pkt.flatten = IPPROTO_TCP →
        (transportOffset pkt.flatten).toNat + 20 ≤ pkt.flatten.length % 2 ^ 16 →
        (∃ j k f, Fragments.Region pkt (transportOffset pkt.flatten).toNat 20 j k f) ∧
          ((ipOffset pkt.flatten).toNat + n < f.length - k ∨
            (ipOffset pkt.flatten).toNat + (f'.length - k') ≤
              (transportOffset pkt.flatten).toNat + 20)) := by
  have hoff := transportOffset_toNat pkt.flatten
  rw [afterSwitch]
  change (∃ r, (if ipProtocol pkt.flatten = IPPROTO_TCP then naptTcp lib isMustCsum pkt newport
    direction (lib.getPktLen pkt).toUInt16 (transportOffset pkt.flatten) d'
    else some ⟨.error, pkt, none⟩) = some r ∧ r.Truthful pkt) ↔ _
  by_cases htcp : ipProtocol pkt.flatten = IPPROTO_TCP
  · rw [if_pos htcp, imp_iff_right htcp]
    by_cases hcut : (lib.getPktLen pkt).toUInt16.toUInt32 <
        transportOffset pkt.flatten + sizeofTCPHdr
    · rw [naptTcp, if_pos hcut]
      rw [frameLen_lt_iff hlib hlen] at hcut
      exact iff_of_true ⟨_, rfl, truthful_error⟩ fun h => absurd h (Nat.not_le.2 hcut)
    · have hwhole := hcut
      rw [frameLen_lt_iff hlib hlen, Nat.not_lt] at hwhole
      rw [imp_iff_right hwhole]
      rcases hd' with ⟨hlt, rfl⟩ | ⟨hle, hd'⟩
      · rw [naptTcp_truthful_iff hlib hlen hd rfl (Nat.zero_le _) hcut]
        exact and_congr_right fun _ => iff_of_true (.inl rfl) (.inl (by omega))
      · rw [naptTcp_truthful_iff hlib hlen hd' rfl (by omega) hcut]
        have hpos := ipOffset_le pkt.flatten
        exact and_congr_right fun _ => by omega
  · rw [if_neg htcp]
    exact iff_of_true ⟨_, rfl, truthful_error⟩ fun h => absurd h htcp

/-- **When the status tells the truth.** -/
theorem performNAPT_truthful_iff (hlib : lib.Documented) (hlen : pkt.flatten.length < 2 ^ 32)
    (isMustCsum : Bool) (newport : UInt16) (direction : UInt8) (lclBuf : List UInt8) :
    (∃ r, performNAPT lib isMustCsum pkt newport direction lclBuf = some r ∧ r.Truthful pkt) ↔
      NaptInReach pkt := by
  have hoff := ipOffset_le pkt.flatten
  have hhdr := ipHdrLen_le (etherType pkt.flatten)
  have hin : (ipOffset pkt.flatten).toNat + (ipHdrLen (etherType pkt.flatten)).toNat < 2 ^ 32 := by
    omega
  unfold NaptInReach
  dsimp only
  by_cases heth : ∃ j k f, Fragments.Region pkt 0 26 j k f
  · obtain ⟨j, k, f, heth⟩ := heth
    obtain ⟨d, hd, hrun⟩ :=
      performNAPT_found hlib hlen heth isMustCsum newport direction lclBuf
    rw [heth.exists_iff (by decide), hrun]
    by_cases hip : IsIp (etherType pkt.flatten)
    · rw [if_pos hip, imp_iff_right hip]
      by_cases hreg : ∃ j k f, Fragments.Region pkt (ipOffset pkt.flatten).toNat
          (ipHdrLen (etherType pkt.flatten)).toNat j k f
      · obtain ⟨j', k', f', hreg⟩ := hreg
        obtain ⟨d', href, hd'⟩ := ipRef_found hlib hlen hd hreg
        rw [hreg.exists_iff (by omega), naptHeader_found hip href hreg]
        by_cases hcut : (lib.getPktLen pkt).toUInt16.toUInt32 <
            ipOffset pkt.flatten + ipHdrLen (etherType pkt.flatten)
        · rw [if_pos hcut]
          rw [UInt32.lt_iff_toNat_lt, toNat_add_of_le hin, frameLen_toNat hlib hlen] at hcut
          exact iff_of_true ⟨_, rfl, truthful_error⟩ fun h => absurd h (Nat.not_le.2 hcut)
        · rw [if_neg hcut]
          rw [UInt32.lt_iff_toNat_lt, toNat_add_of_le hin, frameLen_toNat hlib hlen,
            Nat.not_lt] at hcut
          rw [imp_iff_right hcut]
          exact afterSwitch_truthful_iff hlib hlen hd hd'
      · rw [naptHeader_eq hip, ipRef_apart hlib hlen hd fun j k f h => hreg ⟨j, k, f, h⟩]
        exact iff_of_false not_truthful_ok fun ⟨j, k, f, h, _⟩ => hreg ⟨j, k, f, h⟩
    · rw [if_neg hip]
      exact iff_of_true ⟨_, rfl, truthful_error⟩ fun h => absurd h hip
  · rw [performNAPT_apart hlib hlen fun j k f h => heth ⟨j, k, f, h⟩]
    exact iff_of_false not_truthful_ok fun ⟨j, k, f, hreg, _⟩ => heth ⟨j, k, f, hreg⟩

end

theorem performNAPT_truthful_tcpPacket :
    ∃ r, performNAPT fragLib false tcpPacket 0x901f DVFILTER_FROM_SWITCH [] = some r ∧
      r.Truthful tcpPacket :=
  (performNAPT_truthful_iff fragLib_documented (by decide) false 0x901f DVFILTER_FROM_SWITCH []).2
    ⟨0, 0, _, ⟨rfl, by decide, by decide⟩, fun _ => ⟨0, 14, _, ⟨rfl, by decide, by decide⟩,
      fun _ _ _ => ⟨⟨1, 0, _, rfl, by decide, by decide⟩, .inr (by decide)⟩⟩⟩

/-- The same packet with the Ethernet header in a fragment of its own. -/
def tcpPacketApart : PktHandle := [tcpPacket.flatten.take 14, tcpPacket.flatten.drop 14]

/-- Its port is not rewritten, and the status is `DVFILTER_STATUS_OK`. -/
theorem not_performNAPT_truthful : ¬ ∀ (lib : DVFilterLib) (isMustCsum : Bool) (pkt : PktHandle)
    (newport : UInt16) (direction : UInt8) (lclBuf : List UInt8), lib.Documented →
    pkt.flatten.length < 2 ^ 32 →
    ∃ r, performNAPT lib isMustCsum pkt newport direction lclBuf = some r ∧ r.Truthful pkt := by
  intro h
  obtain ⟨r, hr, htrue, -⟩ := h fragLib false tcpPacketApart 0x901f DVFILTER_FROM_SWITCH []
    fragLib_documented (by decide)
  rw [show performNAPT fragLib false tcpPacketApart 0x901f DVFILTER_FROM_SWITCH [] =
    some ⟨.ok, tcpPacketApart, none⟩ by decide] at hr
  cases hr
  obtain ⟨_, _, _, hw, -⟩ := htrue.1 rfl
  cases hw

end DistDpi
