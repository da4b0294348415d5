import DistDpi.Netx.Forwarding
import DistDpi.Support.Packed

/-!
# Netx — the saved state

`GetSavedStateLen`, `SaveState` and `RestoreState`: the state of a filter as the bytes that vmkernel
keeps of it.  `filter_kern_config` is packed, so they are its fields one behind the other.

What is restored is saved again byte by byte (`toBytes_ofBytes`), and what is saved is restored
(`ofBytes_toBytes`).
-/

namespace DistDpi

/-- `filterState`, which is `filter_kern_config` with all its fields. -/
structure KernConfig extends FilterKernConfig where
  fakeProcessingUsecs : UInt16
  deriving DecidableEq, Repr

namespace KernConfig

/-- What `calloc` leaves. -/
def zero : KernConfig where
  filterToSwitch := 0
  filterFromSwitch := 0
  filterICMP := 0
  filterUDPPortNBO := 0
  filterTCPPortNBO := 0
  copyPackets := 0
  delayPacketsMs := 0
  reorderPackets := 0
  dnaptPortNBO := 0
  fakeProcessingUsecs := 0

/-- The widths of the fields, in their order. -/
def layout : List Nat := [1, 1, 1, 2, 2, 1, 4, 1, 2, 2]

/-- `sizeof(f->state)`. -/
def size : Nat := layout.sum

def fields (state : KernConfig) : List Nat :=
  [state.filterToSwitch.toNat, state.filterFromSwitch.toNat, state.filterICMP.toNat,
    state.filterUDPPortNBO.toNat, state.filterTCPPortNBO.toNat, state.copyPackets.toNat,
    state.delayPacketsMs.toNat, state.reorderPackets.toNat, state.dnaptPortNBO.toNat,
    state.fakeProcessingUsecs.toNat]

def ofFields (vs : List Nat) : KernConfig where
  filterToSwitch := .ofNat (vs.getD 0 0)
  filterFromSwitch := .ofNat (vs.getD 1 0)
  filterICMP := .ofNat (vs.getD 2 0)
  filterUDPPortNBO := .ofNat (vs.getD 3 0)
  filterTCPPortNBO := .ofNat (vs.getD 4 0)
  copyPackets := .ofNat (vs.getD 5 0)
  delayPacketsMs := .ofNat (vs.getD 6 0)
  reorderPackets := .ofNat (vs.getD 7 0)
  dnaptPortNBO := .ofNat (vs.getD 8 0)
  fakeProcessingUsecs := .ofNat (vs.getD 9 0)

/-- The bytes of `f->state`. -/
def toBytes (state : KernConfig) : List UInt8 := Packed.pack layout state.fields

/-- The state in the first bytes of a buffer. -/
def ofBytes (bytes : List UInt8) : KernConfig := ofFields (Packed.unpack layout bytes)

theorem fits_fields (state : KernConfig) : Packed.Fits layout state.fields :=
  .cons (UInt8.toNat_lt _) <| .cons (UInt8.toNat_lt _) <| .cons (UInt8.toNat_lt _) <|
    .cons (UInt16.toNat_lt _) <| .cons (UInt16.toNat_lt _) <| .cons (UInt8.toNat_lt _) <|
    .cons (UInt32.toNat_lt _) <| .cons (UInt8.toNat_lt _) <| .cons (UInt16.toNat_lt _) <|
    .cons (UInt16.toNat_lt _) .nil

theorem length_toBytes (state : KernConfig) : state.toBytes.length = size :=
  Packed.length_pack state.fits_fields

theorem ofFields_fields (state : KernConfig) : ofFields state.fields = state := by
  obtain ⟨⟨⟨icmp, udp, tcp⟩, toSwitch, fromSwitch, copy, delay, reorder, dnapt⟩, fake⟩ := state
  simp [ofFields, fields]

theorem fields_ofFields {vs : List Nat} (h : Packed.Fits layout vs) :
    (ofFields vs).fields = vs := by
  -- the ten fields
  rcases h with - | ⟨h₀, - | ⟨h₁, - | ⟨h₂, - | ⟨h₃, - | ⟨h₄, - | ⟨h₅, - | ⟨h₆, - | ⟨h₇, - |
    ⟨h₈, - | ⟨h₉, ⟨⟩⟩⟩⟩⟩⟩⟩⟩⟩⟩⟩
  simp only [fields, ofFields, List.getD_cons_zero, List.getD_cons_succ]
  rw [UInt8.toNat_ofNat_of_lt' h₀, UInt8.toNat_ofNat_of_lt' h₁, UInt8.toNat_ofNat_of_lt' h₂,
    UInt16.toNat_ofNat_of_lt' h₃, UInt16.toNat_ofNat_of_lt' h₄, UInt8.toNat_ofNat_of_lt' h₅,
    UInt32.toNat_ofNat_of_lt' h₆, UInt8.toNat_ofNat_of_lt' h₇, UInt16.toNat_ofNat_of_lt' h₈,
    UInt16.toNat_ofNat_of_lt' h₉]

/-- **What is saved is restored**, whatever is behind it in the buffer. -/
theorem ofBytes_toBytes (state : KernConfig) (rest : List UInt8) :
    ofBytes (state.toBytes ++ rest) = state := by
  rw [ofBytes, toBytes, Packed.unpack_pack state.fits_fields, ofFields_fields]

/-- **What is restored is saved again.** -/
theorem toBytes_ofBytes {bytes : List UInt8} (h : bytes.length = size) :
    (ofBytes bytes).toBytes = bytes := by
  rw [toBytes, ofBytes, fields_ofFields (Packed.fits_unpack (Nat.le_of_eq h.symm)),
    Packed.pack_unpack h]

end KernConfig

/-- `GetSavedStateLen`; `rand` is what `rand()` gives. -/
def getSavedStateLen (rand : Nat) : UInt32 := .ofNat (KernConfig.size + rand % 128)

/-- `SaveState`, into a buffer `buf` of which `len` bytes may be written: the status, the buffer, and
`*len`.  A write past the buffer has no result. -/
def saveState (state : KernConfig) (buf : List UInt8) (len : UInt32) :
    Option (DVFilterStatus × List UInt8 × UInt32) :=
  if len < .ofNat KernConfig.size then some (.error, buf, len)
  else (copyBytes buf 0 state.toBytes).map fun buf => (.ok, buf, .ofNat KernConfig.size)

/-- `RestoreState`: the status, and `f->state` behind it.  A read past the buffer has no result. -/
def restoreState (state : KernConfig) (buf : List UInt8) (len : UInt32) :
    Option (DVFilterStatus × KernConfig) :=
  if len ≠ .ofNat KernConfig.size then some (.error, state)
  else if KernConfig.size ≤ buf.length then some (.ok, .ofBytes buf)
  else none

section
variable {state : KernConfig} {buf : List UInt8} {rand : Nat}

theorem getSavedStateLen_toNat (rand : Nat) :
    (getSavedStateLen rand).toNat = KernConfig.size + rand % 128 :=
  UInt32.toNat_ofNat_of_lt' (show 17 + rand % 128 < 2 ^ 32 by omega)

/-- **The length that is announced suffices.** -/
theorem saveState_announced (state : KernConfig) (h : (getSavedStateLen rand).toNat ≤ buf.length) :
    saveState state buf (getSavedStateLen rand) =
      some (.ok, state.toBytes ++ buf.drop KernConfig.size, .ofNat KernConfig.size) := by
  rw [getSavedStateLen_toNat] at h
  have hno : ¬ getSavedStateLen rand < .ofNat KernConfig.size := by
    rw [UInt32.lt_iff_toNat_lt, getSavedStateLen_toNat]
    exact Nat.not_lt.2 (Nat.le_add_right _ _)
  have hroom : 0 + state.toBytes.length ≤ buf.length := by
    rw [state.length_toBytes]
    omega
  rw [saveState, if_neg hno, copyBytes, if_pos hroom, List.take_zero, List.nil_append, Nat.zero_add,
    state.length_toBytes, Option.map_some]

/-- The state is replaced as a whole, or left. -/
theorem restoreState_state {status : DVFilterStatus} {state' : KernConfig} {len : UInt32}
    (h : restoreState state buf len = some (status, state')) :
    state' = if len = .ofNat KernConfig.size then .ofBytes buf else state := by
  rw [restoreState] at h
  split at h
  · cases h
    rw [if_neg ‹_›]
  · rw [if_pos (Decidable.not_not.1 ‹_›)]
    split at h
    · cases h
      rfl
    · cases h

/-- What was saved is restored, in any filter. -/
theorem restoreState_saved (state state' : KernConfig) (rest : List UInt8) :
    restoreState state' (state.toBytes ++ rest) (.ofNat KernConfig.size) = some (.ok, state) := by
  have hroom : KernConfig.size ≤ (state.toBytes ++ rest).length := by
    rw [List.length_append, state.length_toBytes]
    exact Nat.le_add_right _ _
  rw [restoreState, if_neg (fun h => h rfl), if_pos hroom, KernConfig.ofBytes_toBytes]

end

end DistDpi
