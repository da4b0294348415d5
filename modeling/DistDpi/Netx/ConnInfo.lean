import Mathlib.Algebra.Group.Int.Defs
import DistDpi.Netx.Headers
import DistDpi.Support.Machine

/-!
# Netx — connection information

The reply to `NETXCMD_GET_CONNTRACK_ALL_BRIEF` is copied to a buffer, `conn_set_g`, as much of it as
its header says; a command of the CLI later sets the action in as many records of the buffer.  The
header is not compared with the length of the reply, and the size is computed in an `int`.  All stays
inside as long as the replies do what their headers say (`connInfo_inBounds_iff`).
-/

namespace DistDpi
open Slices

/-- The `int` with the low 32 bits of a number. -/
def asInt (n : Nat) : Int := if n % 2 ^ 32 < 2 ^ 31 then n % 2 ^ 32 else n % 2 ^ 32 - 2 ^ 32

/-- An `int` as a `size_t`. -/
def asSize (n : Int) : Nat := (n % 2 ^ 64).toNat

/-- A `uint32_t` at an offset, as it is loaded. -/
def load32At (payload : List UInt8) (off : Nat) : UInt32 :=
  ntohl (byteAt payload (off + 3)) (byteAt payload (off + 2)) (byteAt payload (off + 1))
    (byteAt payload off)

/-- The four bytes of a `uint32_t`. -/
def store32 (v : UInt32) : List UInt8 :=
  [v.toUInt8, (v >>> 8).toUInt8, (v >>> 16).toUInt8, (v >>> 24).toUInt8]

/-- `sizeof(Netx_Msg_Hdr_t)`. -/
def sizeofMsgHdr : Nat := 12

/-- `sizeof(Netx_Conn_Data_t)`: where its `payload` starts. -/
def sizeofConnData : Nat := 24

/-- `sizeof(Netx_Conn_Info_Brief_t)`. -/
def sizeofConnInfoBrief : Nat := 178

/-- Where `action` is in a `Netx_Conn_Info_Brief_t`. -/
def actionOffset : Nat := 50

def NETXCMD_GET_CONNTRACK_ALL_BRIEF : UInt32 := 4

/-- `hdr->cmd`. -/
def hdrCmd (payload : List UInt8) : UInt32 := load32At payload 0

/-- `hdr->count`. -/
def hdrCount (payload : List UInt8) : UInt32 := load32At payload 4

/-- The globals.  A byte of the buffer is `none` if it was copied from outside of the reply;
`outside` says that something was written outside of the buffer. -/
structure ConnSet where
  conn_set_g : Option (List (Option UInt8))
  conn_set_g_size : Int
  num_conn_set_g : Int
  outside : Bool
  deriving DecidableEq, Repr

namespace ConnSet

def init : ConnSet := ⟨none, 0, 0, false⟩

/-- `memcpy` from the payload of the reply. -/
def copyPayload (payload : List UInt8) (size : Nat) : List (Option UInt8) :=
  (List.range size).map fun i => payload[sizeofConnData + i]?

/-- `Netx_LibReply_Callback`, for what it does to the globals; `mallocOk` is whether `malloc` finds
the memory. -/
def netxLibReplyCallback (s : ConnSet) (payload : List UInt8) (mallocOk : Bool) : ConnSet :=
  if payload.length < sizeofMsgHdr then s
  else if hdrCmd payload = NETXCMD_GET_CONNTRACK_ALL_BRIEF then
    let num_conn_set_g := asInt (hdrCount payload).toNat
    let conn_set_g_size := asInt (asSize num_conn_set_g * sizeofConnInfoBrief)
    let conn_set_g :=
      if mallocOk then some (copyPayload payload (asSize conn_set_g_size)) else none
    { s with conn_set_g, conn_set_g_size, num_conn_set_g }
  else s

/-- The loop of `CliChannelEvent`: the action is set in `n` records from the `i`th on, unless one is
outside of the buffer. -/
def setActions (action : UInt32) : Nat → Nat → List (Option UInt8) → Option (List (Option UInt8))
  | 0, _, buf => some buf
  | n + 1, i, buf =>
      let off := sizeofConnInfoBrief * i + actionOffset
      if off + 4 ≤ buf.length then
        setActions action n (i + 1) (patch buf off ((store32 action).map some))
      else none

/-- `NETX_CTL_SET_CONNTRACK_ACTION_BRIEF`; `setOk` is whether `Netx_SetConnInfoBrief` returns
`NETX_STATUS_OK`. -/
def setConntrackActionBrief (s : ConnSet) (action : UInt32) (setOk : Bool) : ConnSet :=
  match s.conn_set_g with
  | none => s
  | some buf =>
      match setActions action s.num_conn_set_g.toNat 0 buf with
      | none => { s with outside := true }
      | some buf => { s with conn_set_g := if setOk then none else some buf }

end ConnSet

/-- A reply, or a command of the CLI. -/
inductive ConnEvent where
  | reply (payload : List UInt8) (mallocOk : Bool)
  | setAction (action : UInt32) (setOk : Bool)
  deriving DecidableEq, Repr

/-- Replies and commands in any order. -/
def connInfo : Machine ConnSet ConnEvent where
  step s e := some <| match e with
    | .reply payload mallocOk => s.netxLibReplyCallback payload mallocOk
    | .setAction action setOk => s.setConntrackActionBrief action setOk

/-- **The property.**  The buffer has bytes of the reply only, and all the records; and nothing was
written outside. -/
structure ConnSet.InBounds (s : ConnSet) : Prop where
  inside : s.outside = false
  copied : ∀ buf, s.conn_set_g = some buf → none ∉ buf
  holds : ∀ buf, s.conn_set_g = some buf → s.num_conn_set_g * sizeofConnInfoBrief ≤ buf.length

/-- The bytes that are copied for a count: 178 times the count, an `int` of the low 32 bits, as a
`size_t`. -/
def connSetSize (count : UInt32) : Nat :=
  let size := 178 * count.toNat % 2 ^ 32
  if size < 2 ^ 31 then size else 2 ^ 64 - 2 ^ 32 + size

/-- **The condition on a reply**, if there is memory for it: the bytes that are copied are in it, and
they are no less than the records, unless the count is negative as an `int`. -/
def ReplyFits (payload : List UInt8) : Prop :=
  let count := hdrCount payload
  (connSetSize count = 0 ∨ 24 + connSetSize count ≤ payload.length) ∧
    (count.toNat < 2 ^ 31 → 178 * count.toNat ≤ connSetSize count)

/-- The condition on an event. -/
def ConnEvent.Fits : ConnEvent → Prop
  | .reply payload mallocOk =>
      sizeofMsgHdr ≤ payload.length → hdrCmd payload = NETXCMD_GET_CONNTRACK_ALL_BRIEF → mallocOk →
        ReplyFits payload
  | .setAction _ _ => True

section
variable {payload : List UInt8} {buf buf' : List (Option UInt8)} {s s' : ConnSet} {n i : Nat}

/-! ### Copies and writes -/

/-- There and back: a negative `int` is one of the largest of `size_t`. -/
theorem asSize_asInt (m : Nat) : asSize (asInt m) =
    if m % 2 ^ 32 < 2 ^ 31 then m % 2 ^ 32 else 2 ^ 64 - 2 ^ 32 + m % 2 ^ 32 := by
  unfold asSize asInt
  split <;> omega

/-- The size as the source computes it. -/
theorem connSetSize_eq (count : UInt32) :
    asSize (asInt (asSize (asInt count.toNat) * sizeofConnInfoBrief)) = connSetSize count := by
  have hmod : asSize (asInt count.toNat) * sizeofConnInfoBrief % 2 ^ 32 =
      178 * count.toNat % 2 ^ 32 := by
    rw [asSize_asInt, sizeofConnInfoBrief]
    split <;> omega
  rw [asSize_asInt, hmod, connSetSize]

theorem none_notMem_copyPayload :
    none ∉ ConnSet.copyPayload payload n ↔ n = 0 ∨ 24 + n ≤ payload.length := by
  have hmem : none ∈ ConnSet.copyPayload payload n ↔ ∃ i < n, payload.length ≤ 24 + i := by
    simp only [ConnSet.copyPayload, List.mem_map, List.mem_range, List.getElem?_eq_none_iff]
    rfl
  rw [hmem]
  constructor
  · intro h
    by_contra hne
    exact h ⟨n - 1, by omega, by omega⟩
  · rintro h ⟨i, hi, hle⟩
    omega

theorem length_copyPayload : (ConnSet.copyPayload payload n).length = n := by
  rw [ConnSet.copyPayload, List.length_map, List.length_range]

/-- Writes to records that are all in the buffer. -/
theorem setActions_spec (action : UInt32) (h : sizeofConnInfoBrief * (i + n) ≤ buf.length) :
    ∃ buf', ConnSet.setActions action n i buf = some buf' ∧ buf'.length = buf.length ∧
      (none ∉ buf → none ∉ buf') := by
  induction n generalizing i buf with
  | zero => exact ⟨buf, rfl, rfl, id⟩
  | succ n ih =>
      have hfit : sizeofConnInfoBrief * i + actionOffset + 4 ≤ buf.length := by
        unfold sizeofConnInfoBrief actionOffset at *
        omega
      have hl : (patch buf (sizeofConnInfoBrief * i + actionOffset)
          ((store32 action).map some)).length = buf.length := length_patch hfit
      have hrest : sizeofConnInfoBrief * (i + 1 + n) ≤ (patch buf
          (sizeofConnInfoBrief * i + actionOffset) ((store32 action).map some)).length := by
        rw [hl, Nat.add_right_comm]
        exact h
      obtain ⟨buf', hrun, hlen, hnone⟩ := ih hrest
      refine ⟨buf', ?_, hlen.trans hl, fun hbuf => hnone fun hmem => ?_⟩
      · rw [ConnSet.setActions, if_pos hfit]
        exact hrun
      · rw [patch, List.mem_append, List.mem_append] at hmem
        rcases hmem with (hmem | hmem) | hmem
        · exact hbuf (List.mem_of_mem_take hmem)
        · obtain ⟨b, -, hb⟩ := List.mem_map.1 hmem
          cases hb
        · exact hbuf (List.mem_of_mem_drop hmem)

/-! ### Replies and commands -/

/-- **A reply** keeps the property exactly if it fits. -/
theorem inBounds_reply_iff (hs : s.InBounds) (mallocOk : Bool) :
    (s.netxLibReplyCallback payload mallocOk).InBounds ↔
      (ConnEvent.reply payload mallocOk).Fits := by
  unfold ConnSet.netxLibReplyCallback
  rw [ConnEvent.Fits]
  split
  · rename_i hshort
    exact iff_of_true hs fun h => absurd hshort (Nat.not_lt.2 h)
  · rename_i hlong
    rw [imp_iff_right (Nat.le_of_not_lt hlong)]
    split
    · rename_i hcmd
      rw [imp_iff_right hcmd]
      cases mallocOk with
      | false => exact iff_of_true ⟨hs.inside, nofun, nofun⟩ nofun
      | true =>
          rw [imp_iff_right rfl, ReplyFits, ← none_notMem_copyPayload]
          simp only [if_true, connSetSize_eq]
          have hcount : asInt (hdrCount payload).toNat * sizeofConnInfoBrief ≤
              (ConnSet.copyPayload payload (connSetSize (hdrCount payload))).length ↔
              ((hdrCount payload).toNat < 2 ^ 31 →
                178 * (hdrCount payload).toNat ≤ connSetSize (hdrCount payload)) := by
            have hlt := (hdrCount payload).toNat_lt
            rw [length_copyPayload, asInt, sizeofConnInfoBrief]
            split <;> omega
          rw [← hcount]
          exact ⟨fun h => ⟨h.copied _ rfl, h.holds _ rfl⟩, fun h =>
            ⟨hs.inside, fun _ he => Option.some.inj he ▸ h.1, fun _ he => Option.some.inj he ▸ h.2⟩⟩
    · rename_i hcmd
      exact iff_of_true hs fun h => absurd h hcmd

/-- **A command** keeps it: the records are all in the buffer. -/
theorem inBounds_setAction (hs : s.InBounds) (action : UInt32) (setOk : Bool) :
    (s.setConntrackActionBrief action setOk).InBounds := by
  unfold ConnSet.setConntrackActionBrief
  split
  · exact hs
  · rename_i buf hbuf
    have hholds := hs.holds buf hbuf
    have hfit : sizeofConnInfoBrief * (0 + s.num_conn_set_g.toNat) ≤ buf.length := by
      unfold sizeofConnInfoBrief at *
      omega
    obtain ⟨buf', hrun, hlen, hnone⟩ := setActions_spec action hfit
    rw [hrun]
    cases setOk with
    | true => exact ⟨hs.inside, nofun, nofun⟩
    | false =>
        refine ⟨hs.inside, ?_, ?_⟩
        · rintro _ ⟨⟩
          exact hnone (hs.copied buf hbuf)
        · rintro _ ⟨⟩
          rw [hlen]
          exact hholds

/-- **Every sequence** of replies and commands stays in bounds exactly if all the replies fit. -/
theorem connInfo_inBounds_iff (events : List ConnEvent) :
    connInfo.Throughout ConnSet.InBounds ConnSet.init events ↔ ∀ e ∈ events, e.Fits := by
  obtain ⟨s, hrun⟩ := Machine.run_of_total (M := connInfo) (fun _ _ => ⟨_, rfl⟩) ConnSet.init events
  rw [← hrun.along_iff_forall]
  refine Machine.throughout_iff_along (I := fun _ => True) (fun _ _ _ _ _ _ => trivial) ?_ hrun
    trivial ⟨rfl, nofun, nofun⟩
  rintro s (⟨payload, mallocOk⟩ | ⟨action, setOk⟩) s' - hs ⟨⟩
  · exact inBounds_reply_iff hs mallocOk
  · exact iff_of_true (inBounds_setAction hs action setOk) trivial

end

/-- A header alone, with a count of 1: the 178 bytes that are copied are all behind the reply. -/
theorem not_connInfo_inBounds : ¬ ∀ events : List ConnEvent,
    (∀ payload mallocOk, ConnEvent.reply payload mallocOk ∈ events →
      sizeofMsgHdr ≤ payload.length) →
    connInfo.Throughout ConnSet.InBounds ConnSet.init events := by
  intro h
  have hT := h [.reply [4, 0, 0, 0, 1, 0, 0, 0, 0, 0, 0, 0] true] fun payload mallocOk hmem => by
    cases List.mem_singleton.1 hmem
    decide
  have hfits := (inBounds_reply_iff hT.head true).1 (hT.2 _ rfl).head
  exact absurd (hfits (by decide) (by decide) rfl).1 (by decide)

end DistDpi
