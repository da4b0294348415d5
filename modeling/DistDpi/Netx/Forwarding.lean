import DistDpi.Netx.Ownership

/-!
# Netx — what is sent on

The purpose of `ProcessPacket`, on frames: which is sent on, which is dropped, and which leaves with
another port (`policy`).  It says nothing of fragments, of lookups, of the copy and of the calls.

`ProcessPacket` keeps to it wherever it returns (`processPacket_policy`), on packets whose length is
a `uint16_t`, as `frameLen` is.  Such a packet is in one fragment, or it would not return
(`undivided_of_captured`).
-/

namespace DistDpi
open Traced Slices

/-- Where the IP header ends, less its options. -/
def ipEnd (frame : List UInt8) : Nat := (ipOffset frame).toNat + (ipHdrLen (etherType frame)).toNat

/-- What the headers of a frame say that is in one piece: of one that is cut off, nothing is taken. -/
def seenInfo (frame : List UInt8) : FilterPktInfo :=
  if frame.length < 26 then {}
  else
    let info := ethInfo frame {}
    if IsIp (etherType frame) ∧ ipEnd frame ≤ frame.length then
      let info := { info with protocol := ipProtocol frame }
      let off := (transportOffset frame).toNat
      match transportLen (ipProtocol frame) with
      | none => info
      | some length =>
          if off + length.toNat ≤ frame.length then
            { info with srcPort := loadAt frame off, dstPort := loadAt frame (off + 2) }
          else info
    else info

/-- The frame has a TCP header. -/
def HasTcp (frame : List UInt8) : Prop :=
  IsIp (etherType frame) ∧ ipEnd frame ≤ frame.length ∧ ipProtocol frame = IPPROTO_TCP ∧
    (transportOffset frame).toNat + 20 ≤ frame.length

instance (frame : List UInt8) : Decidable (HasTcp frame) := inferInstanceAs (Decidable (_ ∧ _))

/-- The frame behind NAPT. -/
def naptFrame (isMustCsum : Bool) (frame : List UInt8) (newport : UInt16) (direction : UInt8) :
    List UInt8 :=
  if HasTcp frame then
    rewritten isMustCsum frame (transportOffset frame).toNat newport direction
  else frame

/-- The frame is one that the filter is for. -/
def FilterKernConfig.Matches (state : FilterKernConfig) (direction : UInt8) (frame : List UInt8) :
    Prop :=
  state.Filters direction ∧ filterPacket (seenInfo frame) state.toFilterState = .MATCH

instance (state : FilterKernConfig) (direction : UInt8) (frame : List UInt8) :
    Decidable (state.Matches direction frame) := inferInstanceAs (Decidable (_ ∧ _))

/-- A frame that the filter is for: it goes on, itself or a copy, or with another port, or not. -/
def disposal (state : FilterKernConfig) (direction : UInt8) (isMustCsum : Bool)
    (frame : List UInt8) : Option (List UInt8) :=
  if state.copyPackets ≠ 0 ∨ state.reorderPackets ≠ 0 ∨ state.delayPacketsMs ≠ 0 then some frame
  else if state.dnaptPortNBO ≠ 0 then
    some (naptFrame isMustCsum frame state.dnaptPortNBO direction)
  else none

/-- **The policy**: the frame that is sent on, or `none` where it is dropped.  `canCopy` says whether
there is memory for a copy. -/
def policy (g_action : SAction) (state : FilterKernConfig) (direction : UInt8)
    (isMustCsum canCopy : Bool) (frame : List UInt8) : Option (List UInt8) :=
  if g_action = .ACTION_COPY then none
  else if state.Matches direction frame then
    if state.copyPackets ≠ 0 ∧ ¬ canCopy then none
    else disposal state direction isMustCsum frame
  else some frame

/-- An IP header that ends the frame is as long as it says, at least.  Of one that says less, the
ports are looked for inside the header itself, and not at their offset (`nextRef_stale`). -/
def IhlSane (frame : List UInt8) : Prop :=
  ipEnd frame = frame.length → ipEnd frame ≤ (transportOffset frame).toNat

instance (frame : List UInt8) : Decidable (IhlSane frame) := inferInstanceAs (Decidable (_ → _))

/-- What is left to be done for a packet is left to be done for the other. -/
structure Packet.Keeps (pkt pkt' : Packet) : Prop where
  tso : pkt.mustTso → pkt'.mustTso ∧ pkt'.tsoMss = pkt.tsoMss
  csum : pkt.mustCsum → pkt'.mustCsum

theorem Packet.Keeps.refl (pkt : Packet) : pkt.Keeps pkt := ⟨fun h => ⟨h, rfl⟩, id⟩

theorem Packet.Keeps.trans {pkt pkt' pkt'' : Packet} (h : pkt.Keeps pkt')
    (h' : pkt'.Keeps pkt'') : pkt.Keeps pkt'' where
  tso hm := ⟨(h'.tso (h.tso hm).1).1, (h'.tso (h.tso hm).1).2.trans (h.tso hm).2⟩
  csum hm := h'.csum (h.csum hm)

namespace Forwarding
open Ownership

/-- What is sent by a call: the handle of the filter, the packet, and the direction. -/
def sent : PktCall → Option (Nat × Packet × UInt8)
  | .sendPkt handle pkt direction => some (handle, pkt, direction)
  | _ => none

/-- Of the packet, the frame `out` is sent, once, by its filter and the way it went; or nothing. -/
def Sends (f : LiveFilter) (pkt : Packet) (direction : UInt8)
    (out : List (Nat × Packet × UInt8)) : Option (List UInt8) → Prop
  | none => out = []
  | some frame => ∃ pkt' : Packet, out = [(f.handle, pkt', direction)] ∧
      pkt'.frags.flatten = frame ∧ pkt.Keeps pkt'

/-! ### Packets in one fragment -/

/-- All bytes are in one fragment, the `j`th. -/
structure Undivided (pkt : PktHandle) (j : Nat) : Prop where
  frag : pkt[j]? = some pkt.flatten
  before : (pkt.take j).flatten = []

section
variable {lib : DVFilterLib} {pkt : PktHandle} {j off n : Nat} {smallBuffer lclBuf : List UInt8}

theorem Undivided.region (h : Undivided pkt j) (hin : off + n ≤ pkt.flatten.length) :
    Fragments.Region pkt off n j off pkt.flatten :=
  ⟨h.frag, by rw [h.before, List.length_nil, Nat.zero_add], hin⟩

/-- What is captured inside of one fragment is all there is. -/
theorem undivided_of_captured (h : CaptureInside pkt) (hlen : pkt.flatten.length < 2 ^ 16) :
    pkt.flatten = [] ∨ 26 ≤ pkt.flatten.length ∧ ∃ j, Undivided pkt j := by
  rw [CaptureInside, Nat.mod_eq_of_lt hlen] at h
  rcases h with hz | ⟨j, k, f, hreg, hle⟩
  · exact .inl (List.eq_nil_of_length_eq_zero hz)
  · obtain ⟨rfl, hpre⟩ := hreg.at_start
    obtain rfl := hpre.eq_of_length_le hle
    have hoff := hreg.offset_eq
    refine .inr ⟨?_, j, hreg.frag, List.eq_nil_of_length_eq_zero hoff⟩
    have hfits := hreg.fits
    rwa [Nat.zero_add] at hfits

/-- **`ParsePacket`** sees what the frame says. -/
theorem parsePacket_undivided (hlib : lib.Documented) (hlen : pkt.flatten.length < 2 ^ 32)
    (hu : Undivided pkt j) (heth : 26 ≤ pkt.flatten.length) (hihl : IhlSane pkt.flatten) :
    parsePacket lib pkt smallBuffer {} = some (seenInfo pkt.flatten) := by
  have hreg := hu.region (show 0 + 26 ≤ pkt.flatten.length from heth)
  have hshort : ¬ pkt.flatten.length < 26 := Nat.not_lt.2 heth
  rw [seenInfo, if_neg hshort]
  dsimp only
  by_cases hip : IsIp (etherType pkt.flatten)
  swap
  · obtain ⟨d, -, hrun⟩ : ∃ d, Holds d pkt 0 j 0 pkt.flatten ∧
        parsePacket lib pkt smallBuffer {} = _ := parsePacket_found hlib hlen hreg
    rw [hrun, if_neg hip, if_neg fun h => hip h.1]
  by_cases hin : ipEnd pkt.flatten ≤ pkt.flatten.length
  swap
  · obtain ⟨d, hd, hrun⟩ : ∃ d, Holds d pkt 0 j 0 pkt.flatten ∧
        parsePacket lib pkt smallBuffer {} = _ := parsePacket_found hlib hlen hreg
    rw [hrun, if_pos hip, if_neg fun h => hin h.2, parseIp_eq hip,
      ipRef_apart hlib hlen hd fun _ _ _ h => hin h.le]
    rfl
  obtain ⟨d, d', hd, hd', hrun⟩ : ∃ d d', Holds d pkt 0 j 0 pkt.flatten ∧ _ ∧
      parsePacket lib pkt smallBuffer {} = _ := parsePacket_ip hlib hlen hreg hip (hu.region hin)
  rw [hrun, if_pos ⟨hip, hin⟩, parseTransport_eq]
  cases hl : transportLen (ipProtocol pkt.flatten) with
  | none => rfl
  | some length =>
      obtain ⟨hlo, hhi⟩ := transportLen_le hl
      have hle := transportOffset_le pkt.flatten
      have hpos : 0 < length := UInt32.lt_iff_toNat_lt.2 (show 0 < length.toNat by omega)
      dsimp only
      by_cases hfit : (transportOffset pkt.flatten).toNat + length.toNat ≤ pkt.flatten.length
      · obtain ⟨d'', href⟩ : ∃ d'', pktDirectRef lib pkt (transportOffset pkt.flatten) length d' =
            some (some (.frag j (transportOffset pkt.flatten).toNat), d'') := by
          rcases hd' with ⟨-, rfl⟩ | ⟨hend, -⟩
          · obtain ⟨d'', hr, -⟩ :=
              nextRef_found hlib hlen hd hpos (by omega) (hu.region hfit) (.inl rfl)
            exact ⟨d'', hr⟩
          · -- the frame ends with the IP header
            have hsane := hihl (Nat.le_antisymm hin hend)
            unfold ipEnd at hsane
            omega
        rw [if_pos hfit]
        exact parsePorts_found href ((hu.region hfit).sub (d := 0) (n := 4) (by omega))
      · have hno : ∀ j k f, ¬ Fragments.Region pkt (transportOffset pkt.flatten).toNat
            length.toNat j k f := fun _ _ _ h => hfit h.le
        have hlt : length < 128 :=
          UInt32.lt_iff_toNat_lt.2 (show length.toNat < 128 by omega)
        have href : ∃ d'', pktDirectRef lib pkt (transportOffset pkt.flatten) length d' =
            some (none, d'') := by
          rcases hd' with ⟨-, rfl⟩ | ⟨-, hd'⟩
          · exact ⟨_, nextRef_apart hlib hlen hd hlt (by omega) hno⟩
          · exact ⟨_, nextRef_apart hlib hlen hd' hlt (by omega) hno⟩
        obtain ⟨d'', href⟩ := href
        rw [if_neg hfit, parsePorts, href]
        rfl

/-- **`PerformNAPT`** leaves the frame as NAPT says. -/
theorem performNAPT_undivided (hlib : lib.Documented) (hlen : pkt.flatten.length < 2 ^ 16)
    (hu : Undivided pkt j) (heth : 26 ≤ pkt.flatten.length) (isMustCsum : Bool) (newport : UInt16)
    (direction : UInt8) {r : NaptResult}
    (h : performNAPT lib isMustCsum pkt newport direction lclBuf = some r) :
    r.pkt.flatten = naptFrame isMustCsum pkt.flatten newport direction := by
  have hlen' : pkt.flatten.length < 2 ^ 32 := by omega
  have hmod : pkt.flatten.length % 2 ^ 16 = pkt.flatten.length := Nat.mod_eq_of_lt hlen
  obtain ⟨d, hd, hrun⟩ := performNAPT_found hlib hlen'
    (hu.region (show 0 + 26 ≤ pkt.flatten.length from heth)) isMustCsum newport direction lclBuf
  rw [hrun] at h
  rw [naptFrame]
  by_cases hip : IsIp (etherType pkt.flatten)
  swap
  · rw [if_neg hip] at h
    cases h
    rw [if_neg fun k => hip k.1]
  by_cases hin : ipEnd pkt.flatten ≤ pkt.flatten.length
  swap
  · rw [if_pos hip, naptHeader_eq hip, ipRef_apart hlib hlen' hd fun _ _ _ k => hin k.le] at h
    cases h
    rw [if_neg fun k => hin k.2.1]
  have hoff := ipOffset_le pkt.flatten
  have hhdr := ipHdrLen_le (etherType pkt.flatten)
  have hcut : ¬ (lib.getPktLen pkt).toUInt16.toUInt32 <
      ipOffset pkt.flatten + ipHdrLen (etherType pkt.flatten) := by
    rw [UInt32.lt_iff_toNat_lt, toNat_add_of_le (by omega), frameLen_toNat hlib hlen', hmod]
    exact Nat.not_lt.2 hin
  obtain ⟨d', href, hd'⟩ := ipRef_found hlib hlen' hd (hu.region hin)
  rw [if_pos hip, naptHeader_found hip href (hu.region hin), if_neg hcut, Option.bind_some,
    afterSwitch] at h
  change (if ipProtocol pkt.flatten = IPPROTO_TCP then naptTcp lib isMustCsum pkt newport
    direction (lib.getPktLen pkt).toUInt16 (transportOffset pkt.flatten) d'
    else some ⟨.error, pkt, none⟩) = some r at h
  by_cases htcp : ipProtocol pkt.flatten = IPPROTO_TCP
  swap
  · rw [if_neg htcp] at h
    cases h
    rw [if_neg fun k => htcp k.2.2.1]
  rw [if_pos htcp] at h
  by_cases hfit : (transportOffset pkt.flatten).toNat + 20 ≤ pkt.flatten.length
  swap
  · rw [naptTcp, if_pos (by rw [frameLen_lt_iff hlib hlen', hmod]; exact Nat.not_le.1 hfit)] at h
    cases h
    rw [if_neg fun k => hfit k.2.2.2]
  have hwhole : ¬ (lib.getPktLen pkt).toUInt16.toUInt32 <
      transportOffset pkt.flatten + sizeofTCPHdr := by
    rw [frameLen_lt_iff hlib hlen', hmod]
    exact Nat.not_lt.2 hfit
  have hreg := hu.region hfit
  have hnext := tcpHdr_in pkt.flatten
  obtain ⟨d'', href'⟩ : ∃ d'', pktDirectRef lib pkt (transportOffset pkt.flatten) sizeofTCPHdr d' =
      some (some (.frag j (transportOffset pkt.flatten).toNat), d'') := by
    rcases hd' with ⟨-, rfl⟩ | ⟨hend, hd'⟩
    · obtain ⟨d'', hr, -⟩ := nextRef_found hlib hlen' hd (by decide) hnext hreg (.inl rfl)
      exact ⟨d'', hr⟩
    · -- the frame ends with the IP header, and so with the TCP header
      have hsub := ipHdrLen_le_next (etherType pkt.flatten)
        (pkt.flatten.drop (ipOffset pkt.flatten).toNat)
      have htrans := transportOffset_toNat pkt.flatten
      obtain ⟨d'', hr, -⟩ := nextRef_found hlib hlen' hd' (by decide) hnext hreg (.inr (by
        rw [show sizeofTCPHdr.toNat = 20 from rfl]
        omega))
      exact ⟨d'', hr⟩
  rw [naptTcp_of_ref hwhole href'] at h
  obtain ⟨pkt', hrew, hflat, -⟩ : ∃ pkt', rewritePort isMustCsum ⟨pkt, d''.backingBuffer⟩
      (.frag j (transportOffset pkt.flatten).toNat) newport direction =
        some ⟨pkt', d''.backingBuffer⟩ ∧ _ := rewritePort_spec hreg
  rw [hrew] at h
  cases h
  rw [if_pos ⟨hip, hin, htcp, hfit⟩]
  exact hflat

/-- A frame that is too short for an Ethernet header is not one for the filter. -/
theorem filterPacket_short {frame : List UInt8} (h : frame.length < 26) (state : FilterState) :
    filterPacket (seenInfo frame) state = .NO_MATCH := by
  rw [seenInfo, if_pos h]
  rfl

end

/-! ### What is sent -/

section
variable {lib : DVFilterPktLib} {g_action : SAction} {f : LiveFilter} {pkt copy : Packet}
  {direction : UInt8} {stack : StackBuffers} {lclBuf : List UInt8}
  {l : List (Nat × Packet × UInt8)}

theorem records_use {Q : Unit → List (Nat × Packet × UInt8) → Prop} (hQ : Q () l) :
    Follows (recorder sent) l (use pkt) Q := follows_unrecorded rfl hQ

theorem records_freePkt {Q : Unit → List (Nat × Packet × UInt8) → Prop} (hQ : Q () l) :
    Follows (recorder sent) l (freePkt pkt) Q := follows_unrecorded rfl hQ

theorem records_sendPkt {Q : Unit → List (Nat × Packet × UInt8) → Prop}
    (hQ : Q () (l ++ [(f.handle, pkt, direction)])) :
    Follows (recorder sent) l (sendPkt f pkt direction) Q := follows_recorded rfl hQ

/-- The packet itself is sent. -/
theorem sends_self {frame : List UInt8} (h : pkt.frags.flatten = frame) :
    Sends f pkt direction [(f.handle, pkt, direction)] (some frame) :=
  ⟨pkt, rfl, h, .refl pkt⟩

theorem records_setSizes (sizes : List PktSize) :
    Follows (recorder sent) l (setSizes lib sizes copy)
      fun copy' l' => l' = l ∧ copy' = sizes.foldl lib.resize copy := by
  induction sizes generalizing copy with
  | nil => exact follows_pure.2 ⟨rfl, rfl⟩
  | cons size sizes ih => exact Follows.bind (follows_unrecorded rfl ih)

theorem records_copyTso : Follows (recorder sent) l (copyTso pkt copy) fun copy' l' =>
    l' = l ∧ copy'.frags = copy.frags ∧
      (pkt.mustTso → copy'.mustTso ∧ copy'.tsoMss = pkt.tsoMss) := by
  refine Follows.bind (records_use (Follows.ite (fun _ => ?_) fun hno => ?_))
  · refine Follows.bind (records_use (Follows.bind (records_use (follows_pure.2 ?_))))
    exact ⟨rfl, rfl, fun _ => ⟨rfl, rfl⟩⟩
  · exact follows_pure.2 ⟨rfl, rfl, fun h => absurd h hno⟩

theorem records_copyCsum : Follows (recorder sent) l (copyCsum pkt copy) fun copy' l' =>
    l' = l ∧ copy'.frags = copy.frags ∧ copy'.mustTso = copy.mustTso ∧
      copy'.tsoMss = copy.tsoMss ∧ (pkt.mustCsum → copy'.mustCsum) := by
  refine Follows.bind (records_use (Follows.ite (fun _ => ?_) fun hno => ?_))
  · exact Follows.bind (records_use (follows_pure.2 ⟨rfl, rfl, rfl, rfl, fun _ => rfl⟩))
  · exact follows_pure.2 ⟨rfl, rfl, rfl, rfl, fun h => absurd h hno⟩

/-- A copy of the same length, where `CopyPacket` succeeds, has the same bytes. -/
theorem copyPacket_copied {lib : DVFilterCopyLib} (hlib : lib.Documented) {src dst dst' : PktHandle}
    (hlen : src.flatten.length < 2 ^ 32) (hdst : dst.flatten.length = src.flatten.length)
    {copyLen : UInt32} (hcopy : copyLen.toNat = src.flatten.length)
    (h : copyPacket lib dst src copyLen = some (.ok, dst')) : dst'.flatten = src.flatten := by
  have hroom : src.flatten.length ≤ dst.flatten.length := Nat.le_of_eq hdst.symm
  have hdst' : dst.flatten.length < 2 ^ 32 := by rwa [hdst]
  obtain ⟨n, hn, hrun⟩ := copyPacket_eq hlib hlen hdst' hroom (.inr hcopy)
  rw [hrun] at h
  rcases copyPacketLoop_spec hlib hlen hdst' (passed_start src) (passed_start dst) hroom
    (Nat.le_refl _) (by rw [hn, Nat.zero_add]) (cursorAt_start src) (cursorAt_start dst) with
    ⟨hloop, -⟩ | ⟨-, dst₁, hloop, hflat, -⟩
  · rw [hloop] at h
    cases h
  · rw [hloop] at h
    cases h
    rw [hflat, patch, List.drop_zero, List.take_zero, List.nil_append, Nat.zero_add,
      List.drop_of_length_le (Nat.le_of_eq hdst), List.append_nil]

/-- The copy has the bytes of the packet, and nothing is sent yet. -/
theorem records_copyOf (hlib : lib.Documented) (hlen : pkt.frags.flatten.length < 2 ^ 32) :
    Follows (recorder sent) [] (copyOf lib pkt) fun copy out =>
      out = [] ∧ copy.isSome = (lib.allocPkt (lib.getPktLen pkt.frags + 8000)).isSome ∧
        ∀ c ∈ copy, c.frags.flatten = pkt.frags.flatten ∧ pkt.Keeps c := by
  refine Follows.bind (records_use ?_)
  dsimp only
  cases lib.allocPkt (lib.getPktLen pkt.frags + 8000) with
  | none => exact Follows.bind (records_freePkt (follows_pure.2 ⟨rfl, rfl, nofun⟩))
  | some copy =>
      refine Follows.bind (follows_unrecorded rfl (Follows.bind ((records_setSizes _).mono ?_)))
      rintro copy₁ _ ⟨rfl, hcopy₁⟩
      refine Follows.bind (records_copyTso.mono ?_)
      rintro copy₂ _ ⟨rfl, hfrags₂, htso⟩
      refine Follows.bind (records_copyCsum.mono ?_)
      rintro copy₃ _ ⟨rfl, hfrags₃, htso₃, hmss₃, hcsum⟩
      refine Follows.bind (records_use (Follows.bind (records_use
        (Follows.bind (follows_lift.2 ?_)))))
      rintro ⟨status, frags⟩ hcopied
      refine Follows.ite (fun hok => ?_) fun _ => follows_lift.2 nofun
      refine Follows.bind (records_freePkt (follows_pure.2 ⟨rfl, rfl, ?_⟩))
      rintro _ ⟨⟩
      have hframe : (lib.getPktLen pkt.frags).toNat = pkt.frags.flatten.length :=
        hlib.range.len pkt.frags hlen
      have hsize := copySizes_length hlib copy (lib.getPktLen pkt.frags)
      rw [← hcopy₁, ← hfrags₂, ← hfrags₃, hframe] at hsize
      obtain rfl : status = .ok := hok
      refine ⟨copyPacket_copied hlib.frag hlen hsize hframe hcopied, fun h => ?_, hcsum⟩
      exact ⟨htso₃.trans (htso h).1, hmss₃.trans (htso h).2⟩

/-- The branches behind the copy. -/
theorem records_disposeOf (hlib : lib.Documented) (hlen : pkt.frags.flatten.length < 2 ^ 16)
    (hwhole : f.state.copyPackets = 0 → 26 ≤ pkt.frags.flatten.length ∧ ∃ j, Undivided pkt.frags j) :
    Follows (recorder sent) [] (disposeOf lib f pkt direction lclBuf) fun _ out =>
      Sends f pkt direction out
        (disposal f.state direction pkt.mustCsum pkt.frags.flatten) := by
  rw [disposal]
  refine Follows.ite (fun hr => records_sendPkt ?_) fun hr => ?_
  · rw [if_pos (.inr (.inl hr))]
    exact sends_self rfl
  refine Follows.ite (fun hd => records_sendPkt ?_) fun hd => ?_
  · rw [if_pos (.inr (.inr hd))]
    exact sends_self rfl
  refine Follows.ite (fun hc => records_sendPkt ?_) fun hc => ?_
  · rw [if_pos (.inl hc)]
    exact sends_self rfl
  have hkept : ¬ (f.state.copyPackets ≠ 0 ∨ f.state.reorderPackets ≠ 0 ∨
      f.state.delayPacketsMs ≠ 0) := fun h => h.elim hc fun h => h.elim hr hd
  refine Follows.ite (fun hn => ?_) fun hn => records_freePkt ?_
  · obtain ⟨heth, j, hu⟩ := hwhole (Decidable.not_not.1 hc)
    refine Follows.bind (records_use (Follows.bind (follows_lift.2 fun r hr => records_sendPkt ?_)))
    rw [if_neg hkept, if_pos hn]
    exact ⟨{ pkt with frags := r.pkt }, rfl,
      performNAPT_undivided hlib.range hlen hu heth pkt.mustCsum f.state.dnaptPortNBO direction hr,
      ⟨fun h => ⟨h, rfl⟩, id⟩⟩
  · rw [if_neg hkept, if_neg hn]
    rfl

/-- **`ProcessPacket` keeps to the policy**, as far as it comes. -/
theorem records_processPacket (hlib : lib.Documented) (hlen : pkt.frags.flatten.length < 2 ^ 16)
    (hihl : IhlSane pkt.frags.flatten) :
    Follows (recorder sent) [] (Ownership.processPacket lib g_action f pkt direction stack)
      fun _ out => Sends f pkt direction out (policy g_action f.state direction pkt.mustCsum
        (lib.allocPkt (lib.getPktLen pkt.frags + 8000)).isSome pkt.frags.flatten) := by
  have hlen' : pkt.frags.flatten.length < 2 ^ 32 := by omega
  rw [policy]
  refine Follows.bind (records_use (Follows.bind (follows_lift.2 fun mdata hmdata => ?_)))
  have hwhole := undivided_of_captured ((processPacket_isSome_iff hlib.range hlen' f.ptr direction
    stack.processPacket).1 (Option.isSome_of_eq_some hmdata)) hlen
  refine Follows.ite (fun hcopy => records_freePkt ?_) fun hcopy => ?_
  · rw [if_pos hcopy]
    rfl
  rw [if_neg hcopy]
  refine Follows.ite (fun hdir => ?_) fun hdir => records_sendPkt ?_
  swap
  · rw [if_neg fun h => hdir h.1]
    exact sends_self rfl
  refine Follows.bind (records_use (Follows.bind (follows_lift.2 fun pktInfo hinfo => ?_)))
  -- what was parsed is what the frame says
  obtain rfl : pktInfo = seenInfo pkt.frags.flatten := by
    rcases hwhole with hnil | ⟨heth, j, hu⟩
    · have hno : ∀ j k f, ¬ Fragments.Region pkt.frags 0 26 j k f := fun _ _ _ h => by
        have hle := h.le
        rw [hnil] at hle
        exact absurd hle (by decide)
      rw [parsePacket_apart hlib.range hlen' hno] at hinfo
      rw [hnil]
      exact (Option.some.inj hinfo).symm
    · rw [parsePacket_undivided hlib.range hlen' hu heth hihl] at hinfo
      exact (Option.some.inj hinfo).symm
  refine Follows.ite (fun hno => records_sendPkt ?_) fun hmatch => ?_
  · rw [if_neg fun h => FilterAction.noConfusion (hno.symm.trans h.2)]
    exact sends_self rfl
  have hmatches : f.state.Matches direction pkt.frags.flatten := by
    refine ⟨hdir, ?_⟩
    cases h : filterPacket (seenInfo pkt.frags.flatten) f.state.toFilterState with
    | NO_MATCH => exact absurd h hmatch
    | MATCH => rfl
  rw [if_pos hmatches]
  refine Follows.ite (fun hc => ?_) fun hc => ?_
  · refine Follows.bind ((records_copyOf hlib hlen').mono ?_)
    rintro copy out ⟨rfl, hcan, hcopied⟩
    rw [← hcan]
    cases copy with
    | none =>
        rw [if_pos ⟨hc, nofun⟩]
        exact follows_pure.2 rfl
    | some copy =>
        obtain ⟨hflat, hkeeps⟩ := hcopied copy rfl
        rw [if_neg fun h => h.2 rfl]
        refine (records_disposeOf hlib (by rwa [hflat]) fun h => absurd h hc).mono ?_
        intro _ out hout
        rw [disposal, if_pos (.inl hc), hflat] at hout
        rw [disposal, if_pos (.inl hc)]
        obtain ⟨pkt', rfl, hframe, hkeeps'⟩ := hout
        exact ⟨pkt', rfl, hframe, hkeeps.trans hkeeps'⟩
  · have hlong : 26 ≤ pkt.frags.flatten.length := by
      by_contra hshort
      exact hmatch (filterPacket_short (Nat.not_le.1 hshort) _)
    have hu : ∃ j, Undivided pkt.frags j := by
      rcases hwhole with hnil | ⟨-, hu⟩
      · rw [hnil] at hlong
        exact absurd hlong (by decide)
      · exact hu
    rw [if_neg fun h => hc h.1]
    exact records_disposeOf hlib hlen fun _ => ⟨hlong, hu⟩

end

/-- A filter for TCP packets to port 80 that sends them to port 8080. -/
def naptFilter : LiveFilter where
  ptr := 0
  handle := 7
  state :=
    { filterICMP := 0, filterUDPPortNBO := 0, filterTCPPortNBO := 0x5000, filterToSwitch := 0,
      filterFromSwitch := 1, copyPackets := 0, delayPacketsMs := 0, reorderPackets := 0,
      dnaptPortNBO := 0x901f }

end Forwarding

end DistDpi
