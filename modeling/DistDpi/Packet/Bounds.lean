import DistDpi.Packet.Definitions

/-!
# Packet — bounds

When `classifyFlows` stays inside the packet.  The lengths it goes by come from the frame, and only
`tot_len` is compared with what is left of it.  The exact condition is `WellFormed`: the chain of
tags ends inside the frame, the fixed fields that are read are inside, and neither the IP header
nor the TCP or UDP header is longer than what contains it.
-/

namespace DistDpi

/-- The byte at an offset. -/
def byteAt (pkt : List UInt8) (off : Nat) : UInt8 := pkt.getD off 0

/-- The 16 bits at an offset, in host order. -/
def wordAt (pkt : List UInt8) (off : Nat) : UInt16 :=
  ntohs (byteAt pkt off) (byteAt pkt (off + 1))

/-- What there must be of a TCP or UDP header at `ptr`, of a datagram with `len` bytes left. -/
def PortsOk (pkt : List UInt8) (ptr len : Nat) (ipproto : UInt8) : Prop :=
  (ipproto = IPPROTO_TCP →
    ptr + 13 ≤ pkt.length ∧ 4 * (doff (byteAt pkt (ptr + 12))).toNat ≤ len) ∧
  (ipproto = IPPROTO_UDP → 8 ≤ len)

/-- What there must be of an IP header at `iph`. -/
def IpOk (pkt : List UInt8) (iph : Nat) : Prop :=
  let b := byteAt pkt iph
  let hdr := 4 * (ihl b).toNat
  let totLen := (wordAt pkt (iph + 2)).toNat
  iph < pkt.length ∧ (¬ (ihl b < 5 ∨ ipVersion b ≠ 4) → iph + 4 ≤ pkt.length ∧
    (iph + totLen ≤ pkt.length → hdr ≤ totLen ∧
      PortsOk pkt (iph + hdr) (totLen - hdr) (byteAt pkt (iph + 9))))

/-- **The condition on the frame.** -/
def WellFormed (pkt : List UInt8) : Prop :=
  ∃ tags < pkt.length, 14 + 4 * tags ≤ pkt.length ∧
    (∀ i < tags, wordAt pkt (12 + 4 * i) = ETH_P_8021Q) ∧
    wordAt pkt (12 + 4 * tags) ≠ ETH_P_8021Q ∧
    (wordAt pkt (12 + 4 * tags) = ETH_P_IP → IpOk pkt (14 + 4 * tags))

instance (pkt : List UInt8) (ptr len : Nat) (ipproto : UInt8) :
    Decidable (PortsOk pkt ptr len ipproto) := inferInstanceAs (Decidable (_ ∧ _))

instance (pkt : List UInt8) (iph : Nat) : Decidable (IpOk pkt iph) :=
  inferInstanceAs (Decidable (_ ∧ _))

instance (pkt : List UInt8) : Decidable (WellFormed pkt) :=
  inferInstanceAs (Decidable (∃ tags < pkt.length, _))

/-- The bytes are a slice of the packet. -/
def SliceOf (pkt bytes : List UInt8) : Prop :=
  ∃ off, off + bytes.length ≤ pkt.length ∧ bytes = (pkt.drop off).take bytes.length

/-- **The property.**  `classifyFlows` reads inside the packet only, none of its subtractions wraps,
and the payload it hands over is a slice of the packet. -/
def InBounds (mdata : PktMdata) : Prop :=
  (Parse.classifyFlows mdata).Safe fun r => ∀ call, r = some call → SliceOf mdata.pkt call.pktString

namespace Parse
open Access

variable {pkt : List UInt8} {off ptr ethType iph fuel : Nat} {len : UInt32}

/-! ### Reads -/

theorem byteAt_of_lt (h : off < pkt.length) : byteAt pkt off = pkt[off] := by
  rw [byteAt, List.getD_eq_getElem?_getD, List.getElem?_eq_getElem h, Option.getD_some]

theorem safe_byteAt {Q : UInt8 → Prop} :
    Safe (Access.get pkt off : Parse UInt8) Q ↔ off < pkt.length ∧ Q (byteAt pkt off) := by
  rw [safe_get]
  constructor
  · rintro ⟨h, hQ⟩
    rw [byteAt_of_lt h]
    exact ⟨h, hQ⟩
  · rintro ⟨h, hQ⟩
    rw [byteAt_of_lt h] at hQ
    exact ⟨h, hQ⟩

theorem safe_ntohsAt {Q : UInt16 → Prop} :
    Safe (ntohsAt pkt off) Q ↔ off + 2 ≤ pkt.length ∧ Q (wordAt pkt off) := by
  simp only [ntohsAt, safe_bind, safe_byteAt, safe_pure, wordAt]
  constructor
  · rintro ⟨-, h, hQ⟩
    exact ⟨h, hQ⟩
  · rintro ⟨h, hQ⟩
    exact ⟨by omega, h, hQ⟩

theorem safe_ntohlAt {Q : UInt32 → Prop} :
    Safe (ntohlAt pkt off) Q ↔ off + 4 ≤ pkt.length ∧
      Q (ntohl (byteAt pkt off) (byteAt pkt (off + 1)) (byteAt pkt (off + 2))
        (byteAt pkt (off + 3))) := by
  simp only [ntohlAt, safe_bind, safe_byteAt, safe_pure]
  constructor
  · rintro ⟨-, -, -, h, hQ⟩
    exact ⟨h, hQ⟩
  · rintro ⟨h, hQ⟩
    exact ⟨by omega, by omega, by omega, h, hQ⟩

/-! ### Lengths -/

theorem ihl_toNat_le (b : UInt8) : (ihl b).toNat ≤ 15 := by
  rw [ihl, UInt8.toNat_and]
  exact Nat.and_le_right

theorem doff_toNat_le (b : UInt8) : (doff b).toNat ≤ 15 := by
  have := b.toNat_lt
  rw [doff, UInt8.toNat_shiftRight, Nat.shiftRight_eq_div_pow]
  simp only [UInt8.reduceToNat, Nat.reduceMod, Nat.reducePow]
  omega

/-- A count of 32-bit words, in bytes. -/
theorem toNat_shiftLeft_two {b : UInt8} (h : b.toNat ≤ 15) :
    (b.toUInt32 <<< 2).toNat = 4 * b.toNat := by
  rw [UInt32.toNat_shiftLeft, UInt8.toNat_toUInt32, Nat.shiftLeft_eq]
  simp only [UInt32.reduceToNat, Nat.reduceMod, Nat.reducePow]
  omega

/-! ### The loop -/

/-- More fuel than the packet is long makes no difference. -/
theorem stripVlans_succ (h : pkt.length < ethType + fuel) :
    stripVlans pkt fuel ethType len = stripVlans pkt (fuel + 1) ethType len := by
  induction fuel generalizing ethType len with
  | zero =>
      have : pkt[ethType]? = none := List.getElem?_eq_none (by omega)
      simp only [stripVlans, ntohsAt, Access.get, this]
      rfl
  | succ fuel ih =>
      rw [stripVlans, stripVlans]
      simp only [ih (show pkt.length < ethType + 4 + fuel by omega)]

/-- **The loop**, as the source has it. -/
theorem stripVlans_eq : stripVlans pkt (pkt.length + 1) ethType len = do
    if (← ntohsAt pkt ethType) = ETH_P_8021Q then
      stripVlans pkt (pkt.length + 1) (ethType + 4) (← Access.sub len 4)
    else return (ethType, len) := by
  rw [stripVlans]
  simp only [stripVlans_succ (show pkt.length < ethType + 4 + pkt.length by omega)]

/-- **What the loop needs**: a chain of tags that ends inside the packet, as `len` counts the bytes
from `ethType` on. -/
theorem safe_stripVlans {Q : Nat × UInt32 → Prop} (hf : pkt.length < ethType + fuel)
    (hlen : ethType + len.toNat = pkt.length) :
    Safe (stripVlans pkt fuel ethType len) Q ↔ ∃ tags len', ethType + 4 * tags + 2 ≤ pkt.length ∧
      (∀ i < tags, wordAt pkt (ethType + 4 * i) = ETH_P_8021Q) ∧
      wordAt pkt (ethType + 4 * tags) ≠ ETH_P_8021Q ∧
      ethType + 4 * tags + len'.toNat = pkt.length ∧ Q (ethType + 4 * tags, len') := by
  induction fuel generalizing ethType len with
  | zero => omega
  | succ fuel ih =>
      simp only [stripVlans, safe_bind, safe_ntohsAt, safe_ite, safe_sub, safe_pure]
      constructor
      · rintro ⟨hin, htag, hend⟩
        by_cases h : wordAt pkt ethType = ETH_P_8021Q
        · obtain ⟨hsub, hrest⟩ := htag h
          have hlen' := UInt32.toNat_sub_of_le _ _ hsub
          rw [UInt32.le_iff_toNat_le] at hsub
          simp only [UInt32.reduceToNat] at hsub hlen'
          rw [ih (by omega) (by omega)] at hrest
          obtain ⟨tags, len', hin', htags, hlast, hle, hQ⟩ := hrest
          have hoff : ∀ i, ethType + 4 * (i + 1) = ethType + 4 + 4 * i := fun i => by omega
          refine ⟨tags + 1, len', by omega, ?_, by rwa [hoff], by omega, by rwa [hoff]⟩
          rintro (_ | i) hi
          · exact h
          · rw [hoff]
            exact htags i (by omega)
        · exact ⟨0, len, by omega, fun i hi => by omega, h, by omega, hend h⟩
      · rintro ⟨tags, len', hin, htags, hlast, hle, hQ⟩
        refine ⟨by omega, fun h => ?_, fun h => ?_⟩
        · cases tags with
          | zero => exact absurd h hlast
          | succ tags =>
              have hsub : (4 : UInt32) ≤ len := by
                rw [UInt32.le_iff_toNat_le]
                change 4 ≤ len.toNat
                omega
              have hlen' := UInt32.toNat_sub_of_le _ _ hsub
              simp only [UInt32.reduceToNat] at hlen'
              have hoff : ∀ i, ethType + 4 * (i + 1) = ethType + 4 + 4 * i := fun i => by omega
              refine ⟨hsub, (ih (by omega) (by omega)).2 ⟨tags, len', by omega, ?_, ?_, by omega, ?_⟩⟩
              · intro i hi
                rw [← hoff]
                exact htags (i + 1) (by omega)
              · rwa [← hoff]
              · rwa [← hoff]
        · cases tags with
          | zero =>
              have : len = len' := UInt32.toNat_inj.1 (by omega)
              exact this ▸ hQ
          | succ tags => exact absurd (htags 0 (by omega)) h

/-! ### The headers -/

theorem sliceOf_take {pkt : List UInt8} {off len : Nat} (h : off + len ≤ pkt.length) :
    SliceOf pkt ((pkt.drop off).take len) := by
  have hl : ((pkt.drop off).take len).length = len := by
    rw [List.length_take, List.length_drop]
    omega
  exact ⟨off, by omega, by rw [hl]⟩

/-- The payload: what is left of the datagram behind a header of `n` bytes. -/
theorem safe_payload {n : UInt32} {next : Nat} (hin : ptr + len.toNat ≤ pkt.length)
    (hnext : next = ptr + n.toNat) (hle : n ≤ len) :
    Safe (Access.slice pkt next (len - n).toNat : Parse (List UInt8)) (SliceOf pkt) := by
  have hsub := UInt32.toNat_sub_of_le _ _ hle
  rw [UInt32.le_iff_toNat_le] at hle
  rw [safe_slice]
  exact ⟨.inr (by omega), sliceOf_take (by omega)⟩

/-- **What `populateFlowTable` needs** of a datagram that is inside the packet. -/
theorem safe_populateFlowTable {key : ConnKey} {filter : Nat} {dir : UInt8}
    (hin : ptr + len.toNat ≤ pkt.length) :
    Safe (populateFlowTable pkt ptr len key filter dir) (fun call => SliceOf pkt call.pktString) ↔
      PortsOk pkt ptr len.toNat key.ipproto := by
  have htcp : IPPROTO_TCP ≠ IPPROTO_UDP := by decide
  rw [populateFlowTable, ports, PortsOk, safe_bind]
  by_cases ht : key.ipproto = IPPROTO_TCP
  · have hd := toNat_shiftLeft_two (doff_toNat_le (byteAt pkt (ptr + 12)))
    simp only [ht, htcp, ↓reduceIte, safe_bind, safe_ntohsAt, safe_byteAt, safe_sub, safe_pure]
    constructor
    · rintro ⟨-, -, hoff, hle, -⟩
      rw [UInt32.le_iff_toNat_le] at hle
      exact ⟨fun _ => ⟨hoff, by omega⟩, fun h => h.elim⟩
    · rintro ⟨h, -⟩
      obtain ⟨hoff, hle⟩ := h trivial
      have hle' : (doff (byteAt pkt (ptr + 12))).toUInt32 <<< 2 ≤ len := by
        rw [UInt32.le_iff_toNat_le]
        omega
      exact ⟨by omega, by omega, hoff, hle', safe_payload hin (by rw [hd]) hle'⟩
  · by_cases hu : key.ipproto = IPPROTO_UDP
    · simp only [hu, htcp.symm, ↓reduceIte, safe_bind, safe_ntohsAt, safe_sub, safe_pure]
      constructor
      · rintro ⟨-, -, hle, -⟩
        exact ⟨fun h => h.elim, fun _ => hle⟩
      · rintro ⟨-, h⟩
        have hle : 8 ≤ len.toNat := h trivial
        exact ⟨by omega, by omega, hle, safe_payload hin rfl hle⟩
    · simp only [ht, hu, ↓reduceIte, safe_bind, safe_pure, safe_slice]
      exact ⟨fun _ => ⟨fun h => h.elim, fun h => h.elim⟩, fun _ => ⟨.inr hin, sliceOf_take hin⟩⟩

/-- **What the rest of `classifyFlows` needs** of the bytes from the IP header on. -/
theorem safe_ipHeader {mdata : PktMdata} (hlen : iph + len.toNat = mdata.pkt.length) :
    Safe (ipHeader mdata iph len)
      (fun r => ∀ call, r = some call → SliceOf mdata.pkt call.pktString) ↔
      IpOk mdata.pkt iph := by
  have hwords := toNat_shiftLeft_two (ihl_toNat_le (byteAt mdata.pkt iph))
  have htot : (wordAt mdata.pkt (iph + 2)).toUInt32.toNat = (wordAt mdata.pkt (iph + 2)).toNat := rfl
  simp only [ipHeader, IpOk, safe_bind, safe_byteAt, safe_ntohsAt, safe_ntohlAt, safe_sub, safe_ite,
    safe_pure, reduceCtorEq, false_implies, implies_true, true_and, Option.some.injEq, forall_eq']
  refine and_congr_right fun _ => imp_congr_right fun hsane => and_congr_right fun _ => ?_
  rw [UInt32.lt_iff_toNat_lt, htot]
  refine imp_congr_ctx (by omega) fun hfit => ?_
  -- the datagram is inside the packet, and so is a header that is inside the datagram
  have hfive : 5 ≤ (ihl (byteAt mdata.pkt iph)).toNat := by
    rw [not_or, UInt8.lt_iff_toNat_lt] at hsane
    exact Nat.le_of_not_lt hsane.1
  have hle : (ihl (byteAt mdata.pkt iph)).toUInt32 <<< 2 ≤ (wordAt mdata.pkt (iph + 2)).toUInt32 ↔
      4 * (ihl (byteAt mdata.pkt iph)).toNat ≤ (wordAt mdata.pkt (iph + 2)).toNat := by
    rw [UInt32.le_iff_toNat_le, hwords, htot]
  constructor
  · rintro ⟨-, -, -, hsub, hpop⟩
    have hlen' := UInt32.toNat_sub_of_le _ _ hsub
    rw [hwords, htot] at hlen'
    have hhdr := hle.1 hsub
    rw [safe_populateFlowTable (by omega), hlen'] at hpop
    exact ⟨hhdr, hpop⟩
  · rintro ⟨hhdr, hports⟩
    have hsub := hle.2 hhdr
    have hlen' := UInt32.toNat_sub_of_le _ _ hsub
    rw [hwords, htot] at hlen'
    refine ⟨by omega, by omega, by omega, hsub, ?_⟩
    rw [safe_populateFlowTable (by omega), hlen']
    exact hports

/-- **What `classifyFlows` comes to**: it skips the tags, and goes on with the bytes behind the ether
type if that is the one of IP. -/
theorem safe_classifyFlows {mdata : PktMdata} {Q : Option InsertCall → Prop} :
    Safe (classifyFlows mdata) Q ↔ ∃ tags, 14 + 4 * tags ≤ mdata.pkt.length ∧
      (∀ i < tags, wordAt mdata.pkt (12 + 4 * i) = ETH_P_8021Q) ∧
      wordAt mdata.pkt (12 + 4 * tags) ≠ ETH_P_8021Q ∧
      (wordAt mdata.pkt (12 + 4 * tags) ≠ ETH_P_IP → Q none) ∧
      (wordAt mdata.pkt (12 + 4 * tags) = ETH_P_IP →
        ∀ len : UInt32, 14 + 4 * tags + len.toNat = mdata.pkt.length →
          Safe (ipHeader mdata (14 + 4 * tags) len) Q) := by
  have hof : (UInt32.ofNat mdata.pkt.length).toNat = mdata.pkt.length :=
    UInt32.toNat_ofNat_of_lt' mdata.lt
  have htwelve : (12 : UInt32) ≤ UInt32.ofNat mdata.pkt.length ↔ 12 ≤ mdata.pkt.length := by
    rw [UInt32.le_iff_toNat_le, hof]
    rfl
  -- the two bytes of the ether type are inside, so that they can be subtracted
  have htwo : ∀ (off : Nat) (len : UInt32), off + 2 ≤ mdata.pkt.length →
      off + len.toNat = mdata.pkt.length → 2 ≤ len ∧ (len - 2).toNat = len.toNat - 2 := by
    intro off len hin hlen
    have hsub : (2 : UInt32) ≤ len := by
      rw [UInt32.le_iff_toNat_le]
      change 2 ≤ len.toNat
      omega
    exact ⟨hsub, UInt32.toNat_sub_of_le _ _ hsub⟩
  have hoff : ∀ tags : Nat, 12 + 4 * tags + 2 = 14 + 4 * tags := fun tags => by omega
  rw [classifyFlows, safe_bind, safe_sub, htwelve]
  constructor
  · rintro ⟨hsub, h⟩
    have hlen := UInt32.toNat_sub_of_le _ _ (htwelve.2 hsub)
    rw [hof] at hlen
    change _ = _ - 12 at hlen
    rw [safe_bind, safe_stripVlans (by omega) (by omega)] at h
    obtain ⟨tags, len, hin, htags, hlast, hlen, hrest⟩ := h
    simp only [safe_bind, safe_ntohsAt, safe_ite, safe_pure, safe_sub, Decidable.not_not,
      hoff] at hrest
    refine ⟨tags, by omega, htags, hlast, hrest.2.1, fun hip len' hlen' => ?_⟩
    have hleft := (htwo _ _ hin hlen).2
    rw [show len' = len - 2 from UInt32.toNat_inj.1 (by omega)]
    exact (hrest.2.2 hip).2
  · rintro ⟨tags, hin, htags, hlast, hnone, hip⟩
    have hsub : 12 ≤ mdata.pkt.length := by omega
    have hlen := UInt32.toNat_sub_of_le _ _ (htwelve.2 hsub)
    rw [hof] at hlen
    change _ = _ - 12 at hlen
    have hlt := mdata.lt
    have hleft : (UInt32.ofNat (mdata.pkt.length - (12 + 4 * tags))).toNat =
        mdata.pkt.length - (12 + 4 * tags) :=
      UInt32.toNat_ofNat_of_lt' (Nat.lt_of_le_of_lt (Nat.sub_le _ _) hlt)
    obtain ⟨hle, hsub'⟩ := htwo (12 + 4 * tags) (.ofNat (mdata.pkt.length - (12 + 4 * tags)))
      (by omega) (by omega)
    rw [safe_bind, safe_stripVlans (by omega) (by omega)]
    refine ⟨hsub, tags, .ofNat (mdata.pkt.length - (12 + 4 * tags)), by omega, htags, hlast,
      by omega, ?_⟩
    simp only [safe_bind, safe_ntohsAt, safe_ite, safe_pure, safe_sub, Decidable.not_not, hoff]
    exact ⟨by omega, hnone, fun h => ⟨hle, hip h _ (by omega)⟩⟩

end Parse

/-- **`classifyFlows` stays inside its packet exactly on the well-formed frames.** -/
theorem inBounds_iff_wellFormed (mdata : PktMdata) :
    InBounds mdata ↔ WellFormed mdata.pkt := by
  rw [InBounds, Parse.safe_classifyFlows]
  constructor
  · rintro ⟨tags, hin, htags, hlast, -, hip⟩
    refine ⟨tags, by omega, hin, htags, hlast, fun h => ?_⟩
    have hlen : 14 + 4 * tags + (UInt32.ofNat (mdata.pkt.length - (14 + 4 * tags))).toNat =
        mdata.pkt.length := by
      rw [UInt32.toNat_ofNat_of_lt' (Nat.lt_of_le_of_lt (Nat.sub_le _ _) mdata.lt)]
      omega
    exact (Parse.safe_ipHeader hlen).1 (hip h _ hlen)
  · rintro ⟨tags, -, hin, htags, hlast, hip⟩
    exact ⟨tags, hin, htags, hlast, fun _ => nofun, fun h len hlen =>
      (Parse.safe_ipHeader hlen).2 (hip h)⟩

/-- An empty frame: `len` wraps, and the ether type is read behind it. -/
theorem not_inBounds_empty : ¬ ∀ mdata, InBounds mdata := fun h =>
  absurd (h { filter := 0, pkt := [], dir := 0, lt := by decide }) id

end DistDpi
