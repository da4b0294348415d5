import Mathlib.Data.List.Basic
import Mathlib.Tactic.Common

/-!
# Flow — connection keys

The 5-tuple that identifies a connection, and the hash and comparison `FlowTable` gives its
`unordered_map`.  The comparison ignores the direction: it accepts two keys whose endpoints are
equal, or equal after a swap.

* `connKeyEqual_equivalence`: the comparison is an equivalence on all keys.
* `connKeyHasher_eq_of_equal`: equal keys have equal hashes, the 32-bit sum wrapping.
-/

namespace DistDpi

/-- `ConnKey`: addresses and ports in host order. -/
structure ConnKey where
  srcaddr : UInt32
  dstaddr : UInt32
  srcport : UInt16
  dstport : UInt16
  ipproto : UInt8
  deriving DecidableEq, Repr

/-- `std::hash<uint32_t>`: the value itself, as a `size_t`. -/
def stdHash (x : UInt32) : Nat := x.toNat

/-- `ConnKeyHasher`: the 32-bit sum of the five fields, hashed. -/
def connKeyHasher (key : ConnKey) : Nat :=
  stdHash (key.srcaddr + key.dstaddr + key.srcport.toUInt32 + key.dstport.toUInt32 +
    key.ipproto.toUInt32)

/-- `ConnKeyEqual::forward_lookup`. -/
def forwardLookup (k1 k2 : ConnKey) : Bool :=
  k1.srcaddr == k2.srcaddr && k1.dstaddr == k2.dstaddr &&
    k1.srcport == k2.srcport && k1.dstport == k2.dstport

/-- `ConnKeyEqual::reverse_lookup`. -/
def reverseLookup (k1 k2 : ConnKey) : Bool :=
  k1.srcaddr == k2.dstaddr && k1.dstaddr == k2.srcaddr &&
    k1.srcport == k2.dstport && k1.dstport == k2.srcport

/-- `ConnKeyEqual::operator()`. -/
def connKeyEqual (k1 k2 : ConnKey) : Bool :=
  k1.ipproto == k2.ipproto && (forwardLookup k1 k2 || reverseLookup k1 k2)

/-! ### An equivalence, and the hash respects it -/

/-- The key of the opposite direction. -/
def ConnKey.swap (k : ConnKey) : ConnKey :=
  ⟨k.dstaddr, k.srcaddr, k.dstport, k.srcport, k.ipproto⟩

@[simp] theorem ConnKey.swap_swap (k : ConnKey) : k.swap.swap = k := rfl

/-- The comparison accepts a key and the key of the opposite direction, and nothing else. -/
theorem connKeyEqual_iff {k1 k2 : ConnKey} : connKeyEqual k1 k2 ↔ k1 = k2 ∨ k1 = k2.swap := by
  obtain ⟨s₁, d₁, p₁, q₁, i₁⟩ := k1
  obtain ⟨s₂, d₂, p₂, q₂, i₂⟩ := k2
  simp only [connKeyEqual, forwardLookup, reverseLookup, ConnKey.swap, ConnKey.mk.injEq,
    Bool.and_eq_true, Bool.or_eq_true, beq_iff_eq]
  constructor
  · rintro ⟨hi, ⟨⟨⟨h₁, h₂⟩, h₃⟩, h₄⟩ | ⟨⟨⟨h₁, h₂⟩, h₃⟩, h₄⟩⟩
    · exact .inl ⟨h₁, h₂, h₃, h₄, hi⟩
    · exact .inr ⟨h₁, h₂, h₃, h₄, hi⟩
  · rintro (⟨h₁, h₂, h₃, h₄, hi⟩ | ⟨h₁, h₂, h₃, h₄, hi⟩)
    · exact ⟨hi, .inl ⟨⟨⟨h₁, h₂⟩, h₃⟩, h₄⟩⟩
    · exact ⟨hi, .inr ⟨⟨⟨h₁, h₂⟩, h₃⟩, h₄⟩⟩

theorem connKeyEqual_refl (k : ConnKey) : connKeyEqual k k :=
  connKeyEqual_iff.mpr (.inl rfl)

theorem connKeyEqual_symm {k1 k2 : ConnKey} (h : connKeyEqual k1 k2) : connKeyEqual k2 k1 := by
  rcases connKeyEqual_iff.mp h with rfl | rfl
  · exact h
  · exact connKeyEqual_iff.mpr (.inr rfl)

/-- Two swaps cancel: the mixed forward and reverse cases. -/
theorem connKeyEqual_trans {k1 k2 k3 : ConnKey} (h₁ : connKeyEqual k1 k2)
    (h₂ : connKeyEqual k2 k3) : connKeyEqual k1 k3 := by
  rcases connKeyEqual_iff.mp h₁ with rfl | rfl
  · exact h₂
  · rcases connKeyEqual_iff.mp h₂ with rfl | rfl
    · exact connKeyEqual_iff.mpr (.inr rfl)
    · exact connKeyEqual_iff.mpr (.inl rfl)

theorem connKeyEqual_equivalence : Equivalence fun k1 k2 : ConnKey => connKeyEqual k1 k2 = true :=
  ⟨connKeyEqual_refl, connKeyEqual_symm, connKeyEqual_trans⟩

/-- The sum is symmetric in the two endpoints. -/
theorem connKeyHasher_swap (k : ConnKey) : connKeyHasher k.swap = connKeyHasher k := by
  simp only [connKeyHasher, ConnKey.swap]
  congr 1
  grind

theorem connKeyHasher_eq_of_equal {k1 k2 : ConnKey} (h : connKeyEqual k1 k2) :
    connKeyHasher k1 = connKeyHasher k2 := by
  rcases connKeyEqual_iff.mp h with rfl | rfl
  · rfl
  · exact connKeyHasher_swap k2

end DistDpi
