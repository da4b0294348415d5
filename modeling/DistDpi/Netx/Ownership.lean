import DistDpi.Netx.Copy
import DistDpi.Netx.NaptStatus
import DistDpi.Netx.Parse
import DistDpi.Support.Traced

/-!
# Netx — who has a packet

`ProcessPacket` is given a packet, may allocate a copy of it, and has to send or free both.  It is
modelled with the calls it makes of DVFilterLib (`Traced`); `contract` is what these calls may be:
each is of a packet that is held at that time, and a disposal gives it up.

`ProcessPacket` keeps the contract in every case (`processPacket_follows`), and holds nothing when it
returns.  It does not return where it is cut off before: by a read outside of the packet, or a failed
`ASSERT` (`processPacket_disposes_iff`).
-/

namespace DistDpi
open Traced

/-- `DVFILTER_TO_SWITCH`. -/
def DVFILTER_TO_SWITCH : UInt8 := 2

/-- `sAction`. -/
inductive SAction where
  | ACTION_PUNT | ACTION_COPY
  deriving DecidableEq, Repr

/-- `filter_kern_config`, less `fakeProcessingUsecs`. -/
structure FilterKernConfig extends FilterState where
  filterToSwitch : UInt8
  filterFromSwitch : UInt8
  copyPackets : UInt8
  delayPacketsMs : UInt32
  reorderPackets : UInt8
  dnaptPortNBO : UInt16
  deriving DecidableEq, Repr

/-- The packets of the direction are filtered. -/
def FilterKernConfig.Filters (state : FilterKernConfig) (direction : UInt8) : Prop :=
  (direction = DVFILTER_TO_SWITCH ∧ state.filterToSwitch ≠ 0) ∨
    (direction = DVFILTER_FROM_SWITCH ∧ state.filterFromSwitch ≠ 0)

instance (state : FilterKernConfig) (direction : UInt8) : Decidable (state.Filters direction) :=
  inferInstanceAs (Decidable (_ ∨ _))

/-- A filter that is live: where it is, and what `ProcessPacket` reads of it. -/
structure LiveFilter where
  ptr : FilterPtr
  handle : Nat
  state : FilterKernConfig
  deriving DecidableEq, Repr

/-- A packet: its handle, and what DVFilterLib has for it. -/
structure Packet where
  handle : Nat
  frags : PktHandle
  mustTso : Bool
  tsoMss : UInt32
  mustCsum : Bool
  deriving DecidableEq, Repr

/-- The functions of DVFilterLib that `ProcessPacket` calls, or has called. -/
structure DVFilterPktLib extends DVFilterLib, DVFilterCopyLib where
  allocPkt : UInt32 → Option Packet
  /-- The packet as it is then, which may have another handle. -/
  setPktLen : Packet → UInt32 → Packet
  setPktMetadataLen : Packet → UInt32 → Packet

/-- `dvfilterlib.h`, where `DVFilter_SetPktLen` and `DVFilter_SetPktMetadataLen` succeed. -/
structure DVFilterPktLib.Documented (lib : DVFilterPktLib) : Prop where
  range : lib.toDVFilterLib.Documented
  frag : lib.toDVFilterCopyLib.Documented
  setPktLen : ∀ pkt len, (lib.setPktLen pkt len).frags.flatten.length = len.toNat
  setPktMetadataLen : ∀ pkt len,
    (lib.setPktMetadataLen pkt len).frags.flatten = pkt.frags.flatten

/-- What is set of the copy: the length of the frame, or of the metadata. -/
inductive PktSize where
  | frame (len : UInt32)
  | metadata (len : UInt32)
  deriving DecidableEq, Repr

def DVFilterPktLib.resize (lib : DVFilterPktLib) (pkt : Packet) : PktSize → Packet
  | .frame len => lib.setPktLen pkt len
  | .metadata len => lib.setPktMetadataLen pkt len

/-- The arrays on the stack of `ProcessPacket`, `ParsePacket` and `PerformNAPT`, not set. -/
structure StackBuffers where
  processPacket : List UInt8
  parsePacket : List UInt8
  performNAPT : List UInt8
  deriving DecidableEq, Repr

namespace Ownership

/-- A call.  `DVFilter_SetPktLen` and `DVFilter_SetPktMetadataLen` are `setPkt`, with the packet
before and after; all others that dispose of nothing are `use`. -/
inductive PktCall where
  | allocPkt (pkt : Packet)
  | setPkt (pkt pkt' : Packet)
  | use (pkt : Packet)
  | sendPkt (handle : Nat) (pkt : Packet) (direction : UInt8)
  | freePkt (pkt : Packet)
  deriving DecidableEq, Repr

def PktCall.allocates : PktCall → Bool
  | .allocPkt _ => true
  | _ => false

def PktCall.disposes : PktCall → Bool
  | .sendPkt .. => true
  | .freePkt _ => true
  | _ => false

def use (pkt : Packet) : Traced PktCall Unit := call (.use pkt) ()

def sendPkt (f : LiveFilter) (pkt : Packet) (direction : UInt8) : Traced PktCall Unit :=
  call (.sendPkt f.handle pkt direction) ()

def freePkt (pkt : Packet) : Traced PktCall Unit := call (.freePkt pkt) ()

/-- The calls of `DVFilter_SetPktLen` and `DVFilter_SetPktMetadataLen`, in their order. -/
def copySizes (frameLen : UInt32) : List PktSize :=
  [.frame (frameLen + 16000), .frame frameLen, .metadata 200, .frame (frameLen + 16000),
    .metadata 0, .metadata 100, .metadata 400, .frame frameLen, .metadata 0]

def setSizes (lib : DVFilterPktLib) : List PktSize → Packet → Traced PktCall Packet
  | [], pkt => pure pkt
  | size :: sizes, pkt => do
      let pkt ← call (.setPkt pkt (lib.resize pkt size)) (lib.resize pkt size)
      setSizes lib sizes pkt

/-- `DVFilter_SetMustTso` of the copy, where the packet says so. -/
def copyTso (pkt copyPacket : Packet) : Traced PktCall Packet := do
  use pkt
  if pkt.mustTso then do
    use pkt
    use copyPacket
    pure { copyPacket with mustTso := true, tsoMss := pkt.tsoMss }
  else pure copyPacket

/-- `DVFilter_SetMustCsum`. -/
def copyCsum (pkt copyPacket : Packet) : Traced PktCall Packet := do
  use pkt
  if pkt.mustCsum then do
    use copyPacket
    pure { copyPacket with mustCsum := true }
  else pure copyPacket

/-- `ProcessPacket`, where `copyPackets` is set: the copy, or nothing where it is not allocated.  The
packet itself is freed. -/
def copyOf (lib : DVFilterPktLib) (pkt : Packet) : Traced PktCall (Option Packet) := do
  use pkt
  let frameLen := lib.getPktLen pkt.frags
  match lib.allocPkt (frameLen + 8000) with
  | none => do
      freePkt pkt
      pure none
  | some copy => do
      let copy ← call (.allocPkt copy) copy
      let copy ← setSizes lib (copySizes frameLen) copy
      let copy ← copyTso pkt copy
      let copy ← copyCsum pkt copy
      use copy
      use pkt
      let (status, frags) ← lift (copyPacket lib.toDVFilterCopyLib copy.frags pkt.frags frameLen)
      if status = .ok then do
        freePkt pkt
        pure (some { copy with frags })
      else lift none

/-- `ProcessPacket`, from the branch for `reorderPackets` on. -/
def disposeOf (lib : DVFilterPktLib) (f : LiveFilter) (pkt : Packet) (direction : UInt8)
    (lclBuf : List UInt8) : Traced PktCall Unit :=
  if f.state.reorderPackets ≠ 0 then sendPkt f pkt direction
  else if f.state.delayPacketsMs ≠ 0 then sendPkt f pkt direction
  else if f.state.copyPackets ≠ 0 then sendPkt f pkt direction
  else if f.state.dnaptPortNBO ≠ 0 then do
    use pkt
    let r ← lift (performNAPT lib.toDVFilterLib pkt.mustCsum pkt.frags f.state.dnaptPortNBO
      direction lclBuf)
    sendPkt f { pkt with frags := r.pkt } direction
  else freePkt pkt

/-- `ProcessPacket`, with its calls.  `ptrcb` is `PacketHandler::PacketProducer`. -/
def processPacket (lib : DVFilterPktLib) (g_action : SAction) (f : LiveFilter) (pkt : Packet)
    (direction : UInt8) (stack : StackBuffers) : Traced PktCall Unit := do
  use pkt
  let _ ← lift (DistDpi.processPacket lib.toDVFilterLib f.ptr pkt.frags direction
    stack.processPacket)
  if g_action = .ACTION_COPY then freePkt pkt
  else if f.state.Filters direction then do
    use pkt
    let pktInfo ← lift (parsePacket lib.toDVFilterLib pkt.frags stack.parsePacket {})
    if filterPacket pktInfo f.state.toFilterState = .NO_MATCH then sendPkt f pkt direction
    else if f.state.copyPackets ≠ 0 then do
      match ← copyOf lib pkt with
      | none => pure ()
      | some copyPacket => disposeOf lib f copyPacket direction stack.performNAPT
    else disposeOf lib f pkt direction stack.performNAPT
  else sendPkt f pkt direction

/-- **The contract**, on the handles that are held.  They are counted, so that nothing is assumed of
those that DVFilterLib gives out. -/
def contract : Machine (List Nat) PktCall where
  step held
    | .allocPkt pkt => some (pkt.handle :: held)
    | .setPkt pkt pkt' =>
        if pkt.handle ∈ held then some (pkt'.handle :: held.erase pkt.handle) else none
    | .use pkt => if pkt.handle ∈ held then some held else none
    | .sendPkt _ pkt _ => if pkt.handle ∈ held then some (held.erase pkt.handle) else none
    | .freePkt pkt => if pkt.handle ∈ held then some (held.erase pkt.handle) else none

/-- **The property.**  `ProcessPacket` returns; no call of it is of a handle that it does not hold,
or holds no more; it holds none at the end; and there is one disposal for the packet that it was
given, and for each that it has allocated. -/
structure Disposes (pkt : Packet) (x : Traced PktCall Unit) : Prop where
  returns : x.result = some ()
  keeps : contract.Run [pkt.handle] x.calls []
  once : x.calls.countP PktCall.disposes = x.calls.countP PktCall.allocates + 1

/-- If a copy of the packet is allocated, no fragment of the two that starts before the end is
empty. -/
def CopyInReach (lib : DVFilterPktLib) (pkt : Packet) : Prop :=
  ∀ copy, lib.allocPkt (lib.getPktLen pkt.frags + 8000) = some copy →
    Unbroken pkt.frags.flatten.length pkt.frags ∧
      Unbroken pkt.frags.flatten.length
        ((copySizes (lib.getPktLen pkt.frags)).foldl lib.resize copy).frags

/-- **The condition.**  What is captured is inside; where the packet is parsed, what is read of the
ports is inside; and where it is copied, `CopyPacket` does not come to an empty fragment. -/
structure PktInReach (lib : DVFilterPktLib) (g_action : SAction) (f : LiveFilter) (pkt : Packet)
    (direction : UInt8) (stack : StackBuffers) : Prop where
  captured : CaptureInside pkt.frags
  parsed : g_action ≠ .ACTION_COPY → f.state.Filters direction → PortsInside pkt.frags
  copied : g_action ≠ .ACTION_COPY → f.state.Filters direction →
    filterDecision lib.toDVFilterLib pkt.frags stack.parsePacket f.state.toFilterState =
      some .MATCH →
    f.state.copyPackets ≠ 0 → CopyInReach lib pkt

/-! ### The contract is kept -/

section
variable {lib : DVFilterPktLib} {g_action : SAction} {f : LiveFilter} {pkt copy : Packet}
  {direction : UInt8} {stack : StackBuffers} {lclBuf : List UInt8} {held held' : List Nat}
  {calls : List PktCall}

theorem follows_use {Q : Unit → List Nat → Prop} (h : pkt.handle ∈ held) (hQ : Q () held) :
    Follows contract held (use pkt) Q :=
  follows_call.2 ⟨held, if_pos h, hQ⟩

theorem follows_sendPkt (pkt : Packet) : Follows contract [pkt.handle] (sendPkt f pkt direction)
    fun _ held => held = [] :=
  follows_call.2 ⟨[], by simp [contract], rfl⟩

theorem follows_freePkt {Q : Unit → List Nat → Prop} (h : pkt.handle ∈ held)
    (hQ : Q () (held.erase pkt.handle)) : Follows contract held (freePkt pkt) Q :=
  follows_call.2 ⟨_, if_pos h, hQ⟩

/-- The copy may have another handle each time. -/
theorem follows_setSizes (sizes : List PktSize) :
    Follows contract (copy.handle :: held) (setSizes lib sizes copy)
      fun copy' held' => held' = copy'.handle :: held := by
  induction sizes generalizing copy with
  | nil => exact follows_pure.2 rfl
  | cons size sizes ih =>
      refine Follows.bind (follows_call.2 ⟨(lib.resize copy size).handle :: held, ?_, ih⟩)
      simp [contract]

theorem follows_copyTso : Follows contract [copy.handle, pkt.handle] (copyTso pkt copy)
    fun copy' held => held = [copy'.handle, pkt.handle] := by
  have hpkt : pkt.handle ∈ [copy.handle, pkt.handle] := by simp
  refine Follows.bind (follows_use hpkt (Follows.ite (fun _ => ?_) fun _ => follows_pure.2 rfl))
  refine Follows.bind (follows_use hpkt (Follows.bind (follows_use (by simp) ?_)))
  exact follows_pure.2 rfl

theorem follows_copyCsum : Follows contract [copy.handle, pkt.handle] (copyCsum pkt copy)
    fun copy' held => held = [copy'.handle, pkt.handle] := by
  have hpkt : pkt.handle ∈ [copy.handle, pkt.handle] := by simp
  refine Follows.bind (follows_use hpkt (Follows.ite (fun _ => ?_) fun _ => follows_pure.2 rfl))
  exact Follows.bind (follows_use (by simp) (follows_pure.2 rfl))

/-- The packet is freed; the copy is held in its place. -/
theorem follows_copyOf : Follows contract [pkt.handle] (copyOf lib pkt)
    fun copy held => held = (copy.map Packet.handle).toList := by
  have hpkt : pkt.handle ∈ [pkt.handle] := List.mem_singleton_self _
  refine Follows.bind (follows_use hpkt ?_)
  dsimp only
  cases lib.allocPkt (lib.getPktLen pkt.frags + 8000) with
  | none =>
      refine Follows.bind (follows_freePkt hpkt (follows_pure.2 ?_))
      simp
  | some copy =>
      refine Follows.bind (follows_call.2 ⟨[copy.handle, pkt.handle], rfl, ?_⟩)
      refine Follows.bind ((follows_setSizes _).mono ?_)
      rintro copy held rfl
      refine Follows.bind (follows_copyTso.mono ?_)
      rintro copy held rfl
      refine Follows.bind (follows_copyCsum.mono ?_)
      rintro copy held rfl
      refine Follows.bind (follows_use (by simp) (Follows.bind (follows_use (by simp)
        (Follows.bind (follows_lift.2 ?_)))))
      rintro ⟨status, frags⟩ -
      refine Follows.ite (fun _ => ?_) fun _ => follows_lift.2 nofun
      refine Follows.bind (follows_freePkt (by simp) (follows_pure.2 ?_))
      -- what is left is the handle of the copy
      by_cases he : copy.handle = pkt.handle
      · simp [he]
      · simp [he]

theorem follows_disposeOf : Follows contract [pkt.handle] (disposeOf lib f pkt direction lclBuf)
    fun _ held => held = [] := by
  have hpkt : pkt.handle ∈ [pkt.handle] := List.mem_singleton_self _
  refine Follows.ite (fun _ => follows_sendPkt pkt) fun _ => ?_
  refine Follows.ite (fun _ => follows_sendPkt pkt) fun _ => ?_
  refine Follows.ite (fun _ => follows_sendPkt pkt) fun _ => ?_
  refine Follows.ite (fun _ => ?_) fun _ => follows_freePkt hpkt (by simp)
  refine Follows.bind (follows_use hpkt (Follows.bind (follows_lift.2 fun r _ => ?_)))
  exact follows_sendPkt { pkt with frags := r.pkt }

/-- **The contract is kept in every case**, and nothing is held at the end. -/
theorem processPacket_follows (lib : DVFilterPktLib) (g_action : SAction) (f : LiveFilter)
    (pkt : Packet) (direction : UInt8) (stack : StackBuffers) : Follows contract [pkt.handle]
    (processPacket lib g_action f pkt direction stack) fun _ held => held = [] := by
  have hpkt : pkt.handle ∈ [pkt.handle] := List.mem_singleton_self _
  refine Follows.bind (follows_use hpkt (Follows.bind (follows_lift.2 fun _ _ => ?_)))
  refine Follows.ite (fun _ => follows_freePkt hpkt (by simp)) fun _ => ?_
  refine Follows.ite (fun _ => ?_) fun _ => follows_sendPkt pkt
  refine Follows.bind (follows_use hpkt (Follows.bind (follows_lift.2 fun pktInfo _ => ?_)))
  refine Follows.ite (fun _ => follows_sendPkt pkt) fun _ => ?_
  refine Follows.ite (fun _ => ?_) fun _ => follows_disposeOf
  refine Follows.bind (follows_copyOf.mono ?_)
  rintro copy held rfl
  cases copy with
  | none => exact follows_pure.2 rfl
  | some copy => exact follows_disposeOf

/-- What one call changes of the number of handles that are held. -/
theorem contract_step_length {c : PktCall} (h : contract.step held c = some held') :
    held'.length + [c].countP PktCall.disposes = held.length + [c].countP PktCall.allocates := by
  cases c with
  | allocPkt pkt =>
      cases h
      rfl
  | setPkt pkt pkt' =>
      simp only [contract] at h
      split at h
      · cases h
        exact List.length_erase_add_one ‹_›
      · cases h
  | use pkt =>
      simp only [contract] at h
      split at h
      · cases h
        rfl
      · cases h
  | sendPkt _ pkt _ | freePkt pkt =>
      simp only [contract] at h
      split at h
      · cases h
        exact List.length_erase_add_one ‹_›
      · cases h

/-- A packet that was allocated is disposed of, or held. -/
theorem contract_count (h : contract.Run held calls held') :
    held'.length + calls.countP PktCall.disposes =
      held.length + calls.countP PktCall.allocates := by
  induction h with
  | refl => rfl
  | @more held held₁ held' c calls h _ ih =>
      have hstep := contract_step_length h
      rw [← List.singleton_append, List.countP_append, List.countP_append]
      omega

/-- To dispose of all is to return. -/
theorem disposes_iff : Disposes pkt (processPacket lib g_action f pkt direction stack) ↔
    (processPacket lib g_action f pkt direction stack).result = some () := by
  constructor
  · exact Disposes.returns
  · intro h
    obtain ⟨held, hrun, hend⟩ := processPacket_follows lib g_action f pkt direction stack
    obtain rfl := hend () h
    refine ⟨h, hrun, ?_⟩
    have hcount := contract_count hrun
    rw [List.length_nil, List.length_singleton] at hcount
    omega

/-! ### Where it returns -/

theorem setSizes_result (sizes : List PktSize) :
    (setSizes lib sizes copy).result = some (sizes.foldl lib.resize copy) := by
  induction sizes generalizing copy with
  | nil => exact result_pure
  | cons size sizes ih =>
      rw [setSizes, result_bind, result_call, Option.bind_some, ih, List.foldl_cons]

theorem copyTso_result (pkt copy : Packet) :
    ∃ copy', (copyTso pkt copy).result = some copy' ∧ copy'.frags = copy.frags := by
  unfold copyTso use
  split
  · exact ⟨{ copy with mustTso := true, tsoMss := pkt.tsoMss }, rfl, rfl⟩
  · exact ⟨copy, rfl, rfl⟩

theorem copyCsum_result (pkt copy : Packet) :
    ∃ copy', (copyCsum pkt copy).result = some copy' ∧ copy'.frags = copy.frags := by
  unfold copyCsum use
  split
  · exact ⟨{ copy with mustCsum := true }, rfl, rfl⟩
  · exact ⟨copy, rfl, rfl⟩

/-- The copy is as long as the packet, at the end. -/
theorem copySizes_length (hlib : lib.Documented) (copy : Packet) (frameLen : UInt32) :
    ((copySizes frameLen).foldl lib.resize copy).frags.flatten.length = frameLen.toNat := by
  simp only [copySizes, List.foldl_cons, List.foldl_nil, DVFilterPktLib.resize]
  rw [hlib.setPktMetadataLen, hlib.setPktLen]

/-- The copy is not cut off exactly where `CopyPacket` succeeds. -/
theorem copyOf_isSome_iff (hlib : lib.Documented) (hlen : pkt.frags.flatten.length < 2 ^ 32) :
    (copyOf lib pkt).result.isSome ↔ CopyInReach lib pkt := by
  have hframe : (lib.getPktLen pkt.frags).toNat = pkt.frags.flatten.length :=
    hlib.range.len pkt.frags hlen
  rw [copyOf, CopyInReach]
  dsimp only
  cases lib.allocPkt (lib.getPktLen pkt.frags + 8000) with
  | none => exact iff_of_true rfl nofun
  | some copy =>
      have hcopy := copySizes_length hlib copy (lib.getPktLen pkt.frags)
      rw [hframe] at hcopy
      have hdst : ((copySizes (lib.getPktLen pkt.frags)).foldl lib.resize
          copy).frags.flatten.length < 2 ^ 32 := by
        rw [hcopy]
        exact hlen
      have hok := copyPacket_ok_iff hlib.frag hlen hdst (Nat.le_of_eq hcopy.symm) (.inr hframe)
      have hone : ∀ P : Packet → Prop, (∀ c, some copy = some c → P c) ↔ P copy :=
        fun P => ⟨fun h => h copy rfl, by rintro h _ ⟨⟩; exact h⟩
      obtain ⟨copy₁, hrun₁, hfrags₁⟩ := copyTso_result pkt
        ((copySizes (lib.getPktLen pkt.frags)).foldl lib.resize copy)
      obtain ⟨copy₂, hrun₂, hfrags₂⟩ := copyCsum_result pkt copy₁
      rw [hone, ← hok]
      simp only [use, result_bind, result_call, setSizes_result, hrun₁, hrun₂, Option.bind_some,
        result_lift, hfrags₂.trans hfrags₁]
      constructor
      · intro h
        obtain ⟨r, h⟩ := Option.isSome_iff_exists.1 h
        obtain ⟨⟨status, frags⟩, hcopied, h⟩ := Option.bind_eq_some_iff.mp h
        dsimp only at h
        split at h
        · rename_i hstatus
          exact ⟨frags, hstatus ▸ hcopied⟩
        · cases h
      · rintro ⟨frags, hcopied⟩
        rw [hcopied]
        rfl

theorem disposeOf_returns (hlib : lib.Documented)
    (h : f.state.copyPackets ≠ 0 ∨
      (pkt.frags.flatten.length < 2 ^ 32 ∧ CaptureInside pkt.frags)) :
    (disposeOf lib f pkt direction lclBuf).result = some () := by
  unfold disposeOf
  split
  · rfl
  split
  · rfl
  split
  · rfl
  rename_i hcopy
  obtain ⟨hlen, hcaptured⟩ := h.resolve_left hcopy
  split
  · obtain ⟨r, hr⟩ := Option.isSome_iff_exists.1 (performNAPT_returns hlib.range hlen hcaptured
      pkt.mustCsum f.state.dnaptPortNBO direction lclBuf)
    simp only [use, sendPkt, result_bind, result_call, result_lift, hr, Option.bind_some]
  · rfl

/-- Behind `FilterPacket`, where the packet matches. -/
theorem matched_returns_iff (hlib : lib.Documented) (hlen : pkt.frags.flatten.length < 2 ^ 32)
    (hcaptured : CaptureInside pkt.frags) :
    (if f.state.copyPackets ≠ 0 then do
        match ← copyOf lib pkt with
        | none => pure ()
        | some copyPacket => disposeOf lib f copyPacket direction lclBuf
      else disposeOf lib f pkt direction lclBuf : Traced PktCall Unit).result = some () ↔
      (f.state.copyPackets ≠ 0 → CopyInReach lib pkt) := by
  split
  · rename_i hcopy
    rw [imp_iff_right hcopy, ← copyOf_isSome_iff hlib hlen, result_bind]
    cases (copyOf lib pkt).result with
    | none => exact iff_of_false nofun nofun
    | some copy =>
        refine iff_of_true ?_ rfl
        cases copy with
        | none => rfl
        | some copy => exact disposeOf_returns hlib (.inl hcopy)
  · rename_i hcopy
    exact iff_of_true (disposeOf_returns hlib (.inr ⟨hlen, hcaptured⟩)) fun h => absurd h hcopy

/-- **`ProcessPacket` returns** exactly where the condition holds. -/
theorem processPacket_returns_iff (hlib : lib.Documented)
    (hlen : pkt.frags.flatten.length < 2 ^ 32) :
    (processPacket lib g_action f pkt direction stack).result = some () ↔
      PktInReach lib g_action f pkt direction stack := by
  have hcapture := processPacket_isSome_iff hlib.range hlen f.ptr direction stack.processPacket
  have hparse := parsePacket_isSome_iff hlib.range hlen stack.parsePacket {}
  rw [processPacket]
  simp only [use, result_bind, result_call, result_lift, Option.bind_some]
  cases hc : DistDpi.processPacket lib.toDVFilterLib f.ptr pkt.frags direction
      stack.processPacket with
  | none =>
      -- cut off in `PacketProducer`
      rw [hc] at hcapture
      exact iff_of_false nofun fun h => nomatch hcapture.2 h.captured
  | some mdata =>
      rw [hc] at hcapture
      have hcaptured := hcapture.1 rfl
      rw [Option.bind_some]
      by_cases hcopy : g_action = .ACTION_COPY
      · rw [if_pos hcopy]
        exact iff_of_true rfl ⟨hcaptured, fun h => absurd hcopy h, fun h => absurd hcopy h⟩
      rw [if_neg hcopy]
      by_cases hdir : f.state.Filters direction
      swap
      · rw [if_neg hdir]
        exact iff_of_true rfl ⟨hcaptured, fun _ h => absurd h hdir, fun _ h => absurd h hdir⟩
      rw [if_pos hdir]
      simp only [result_bind, result_call, result_lift, Option.bind_some]
      cases hp : parsePacket lib.toDVFilterLib pkt.frags stack.parsePacket {} with
      | none =>
          -- cut off in `ParsePacket`
          rw [hp] at hparse
          exact iff_of_false nofun fun h => nomatch hparse.2 (h.parsed hcopy hdir)
      | some pktInfo =>
          rw [hp] at hparse
          have hparsed := hparse.1 rfl
          have hdec : filterDecision lib.toDVFilterLib pkt.frags stack.parsePacket
              f.state.toFilterState = some (filterPacket pktInfo f.state.toFilterState) := by
            rw [filterDecision, hp, Option.map_some]
          rw [Option.bind_some]
          by_cases hno : filterPacket pktInfo f.state.toFilterState = .NO_MATCH
          · rw [if_pos hno]
            refine iff_of_true rfl ⟨hcaptured, fun _ _ => hparsed, fun _ _ hmatch => ?_⟩
            rw [hdec, hno] at hmatch
            cases hmatch
          · rw [if_neg hno, matched_returns_iff hlib hlen hcaptured]
            have hmatch : filterPacket pktInfo f.state.toFilterState = .MATCH := by
              cases h : filterPacket pktInfo f.state.toFilterState with
              | NO_MATCH => exact absurd h hno
              | MATCH => rfl
            constructor
            · exact fun h => ⟨hcaptured, fun _ _ => hparsed, fun _ _ _ => h⟩
            · exact fun h => h.copied hcopy hdir (hdec.trans (congrArg some hmatch))

/-- **Ownership.**  No call of `ProcessPacket` is of a handle that it does not hold, in any case; and
it disposes of all that it holds, and once of each packet, exactly where the condition holds. -/
theorem processPacket_disposes_iff (hlib : lib.Documented)
    (hlen : pkt.frags.flatten.length < 2 ^ 32) :
    (∃ held, contract.Run [pkt.handle]
        (processPacket lib g_action f pkt direction stack).calls held) ∧
      (Disposes pkt (processPacket lib g_action f pkt direction stack) ↔
        PktInReach lib g_action f pkt direction stack) := by
  obtain ⟨held, hrun, -⟩ := processPacket_follows lib g_action f pkt direction stack
  exact ⟨⟨held, hrun⟩, disposes_iff.trans (processPacket_returns_iff hlib hlen)⟩

end

/-! ### A library -/

/-- A library that does what the header says.  The packets it makes are in one fragment. -/
def fragPktLib : DVFilterPktLib where
  getPktLen := fragLib.getPktLen
  getPktFragDirectRange := fragLib.getPktFragDirectRange
  getPktFragAddressAndLength := fragCopyLib.getPktFragAddressAndLength
  allocPkt len := some
    { handle := 1, frags := [List.replicate len.toNat 0], mustTso := false, tsoMss := 0,
      mustCsum := false }
  setPktLen pkt len :=
    { pkt with
      handle := if pkt.frags.flatten.length < len.toNat then pkt.handle + 1 else pkt.handle
      frags := [(pkt.frags.flatten ++ List.replicate len.toNat 0).take len.toNat] }
  setPktMetadataLen pkt _ :=
    { pkt with handle := pkt.handle + 1, frags := [pkt.frags.flatten] }

theorem fragPktLib_documented : fragPktLib.Documented where
  range := fragLib_documented
  frag := fragCopyLib_documented
  setPktLen pkt len := by
    simp only [fragPktLib, List.flatten_singleton, List.length_take, List.length_append,
      List.length_replicate]
    omega
  setPktMetadataLen pkt len := List.flatten_singleton

/-- A filter for UDP packets to port 53 that sends a copy of each. -/
def copyingFilter : LiveFilter where
  ptr := 0
  handle := 7
  state :=
    { filterICMP := 0, filterUDPPortNBO := 0x3500, filterTCPPortNBO := 0, filterToSwitch := 0,
      filterFromSwitch := 1, copyPackets := 1, delayPacketsMs := 0, reorderPackets := 0,
      dnaptPortNBO := 0 }

/-- A packet of the fragments. -/
def packetOf (frags : PktHandle) : Packet where
  handle := 0
  frags
  mustTso := false
  tsoMss := 0
  mustCsum := false

theorem processPacket_disposes_copied :
    Disposes (packetOf [udpFrame]) (processPacket fragPktLib .ACTION_PUNT copyingFilter
      (packetOf [udpFrame]) DVFILTER_FROM_SWITCH ⟨[], [], []⟩) :=
  (processPacket_disposes_iff fragPktLib_documented (by decide)).2.2
    { captured := .inr ⟨0, 0, udpFrame, ⟨rfl, rfl, by decide⟩, by decide⟩
      parsed := fun _ _ =>
        (parsePacket_isSome_iff fragLib_documented (by decide) [] {}).1 (by decide)
      copied := fun _ _ _ _ copy _ => by
        have hl := copySizes_length fragPktLib_documented copy (fragPktLib.getPktLen [udpFrame])
        -- the last of the calls leaves one fragment
        obtain ⟨f, hf⟩ : ∃ f, ((copySizes (fragPktLib.getPktLen [udpFrame])).foldl
            fragPktLib.resize copy).frags = [f] := ⟨_, rfl⟩
        refine ⟨unbroken_of_ne (by decide), ?_⟩
        change Unbroken _ ((copySizes (fragPktLib.getPktLen [udpFrame])).foldl
          fragPktLib.resize copy).frags
        rw [hf, List.flatten_singleton] at hl
        rw [hf]
        refine unbroken_of_ne fun g hg => ?_
        obtain rfl := List.mem_singleton.1 hg
        exact List.ne_nil_of_length_pos (by rw [hl]; decide) }

/-- A frame whose Ethernet header is in a fragment of its own. -/
def ethHeaderApart : PktHandle := [List.replicate 14 0, List.replicate 46 0]

theorem not_processPacket_disposes : ¬ ∀ (lib : DVFilterPktLib) (g_action : SAction)
    (f : LiveFilter) (pkt : Packet) (direction : UInt8) (stack : StackBuffers), lib.Documented →
    pkt.frags.flatten.length < 2 ^ 32 →
      Disposes pkt (processPacket lib g_action f pkt direction stack) := by
  intro h
  have hret := (h fragPktLib .ACTION_PUNT copyingFilter (packetOf ethHeaderApart)
    DVFILTER_FROM_SWITCH ⟨[], [], []⟩ fragPktLib_documented (by decide)).returns
  revert hret
  decide

end Ownership

end DistDpi
