import Mathlib.Algebra.GroupWithZero.Nat
import Mathlib.Data.List.Basic
import Mathlib.Tactic.Common

/-!
# Support — Packed

Packed records of little-endian words.  The layout is the widths of the fields, in bytes: `pack`
writes the fields one behind the other, and `unpack` reads them.

* `unpack_pack`: fields that fit are read as they were written.
* `pack_unpack`: a record of the right length is written as it was read.
-/

namespace Packed

/-- The `w` bytes of `v`, the least first.  What does not fit is left out. -/
def bytes : Nat → Nat → List UInt8
  | 0, _ => []
  | w + 1, v => .ofNat v :: bytes w (v / 256)

/-- The number that the bytes are. -/
def value : List UInt8 → Nat
  | [] => 0
  | b :: bs => b.toNat + 256 * value bs

/-- The fields, one behind the other. -/
def pack : List Nat → List Nat → List UInt8
  | w :: ws, v :: vs => bytes w v ++ pack ws vs
  | _, _ => []

/-- The fields of a record. -/
def unpack : List Nat → List UInt8 → List Nat
  | [], _ => []
  | w :: ws, l => value (l.take w) :: unpack ws (l.drop w)

/-- Each field has as many bytes as it needs. -/
def Fits (ws vs : List Nat) : Prop := List.Forall₂ (fun w v => v < 256 ^ w) ws vs

section
variable {w v : Nat} {ws vs : List Nat} {l : List UInt8}

@[simp] theorem length_bytes : (bytes w v).length = w := by
  induction w generalizing v with
  | zero => rfl
  | succ w ih => rw [bytes, List.length_cons, ih]

theorem value_bytes (h : v < 256 ^ w) : value (bytes w v) = v := by
  induction w generalizing v with
  | zero =>
      rw [Nat.pow_zero, Nat.lt_one_iff] at h
      exact h.symm
  | succ w ih =>
      rw [Nat.pow_succ] at h
      rw [bytes, value, ih (Nat.div_lt_of_lt_mul (by omega)), UInt8.toNat_ofNat']
      omega

theorem bytes_value : bytes l.length (value l) = l := by
  induction l with
  | nil => rfl
  | cons b bs ih =>
      have hb := b.toNat_lt
      have hdiv : (b.toNat + 256 * value bs) / 256 = value bs := by omega
      have hlow : UInt8.ofNat (b.toNat + 256 * value bs) = b := by
        rw [← UInt8.toNat_inj, UInt8.toNat_ofNat']
        omega
      rw [List.length_cons, bytes, value, hdiv, ih, hlow]

theorem value_lt : value l < 256 ^ l.length := by
  induction l with
  | nil => exact Nat.one_pos
  | cons b bs ih =>
      have hb := b.toNat_lt
      rw [value, List.length_cons, Nat.pow_succ]
      omega

theorem length_pack (h : Fits ws vs) : (pack ws vs).length = ws.sum := by
  induction h with
  | nil => rfl
  | cons _ _ ih => rw [pack, List.length_append, length_bytes, ih, List.sum_cons]

/-- **Fields that fit** are read as they were written, whatever is behind the record. -/
theorem unpack_pack (h : Fits ws vs) : unpack ws (pack ws vs ++ l) = vs := by
  induction h with
  | nil => rfl
  | @cons w v ws vs hv _ ih =>
      have hw : (bytes w v).length = w := length_bytes
      rw [pack, unpack, List.append_assoc, List.take_left' hw, List.drop_left' hw, value_bytes hv,
        ih]

/-- **A record of the right length** is written as it was read. -/
theorem pack_unpack (h : l.length = ws.sum) : pack ws (unpack ws l) = l := by
  induction ws generalizing l with
  | nil => exact (List.eq_nil_of_length_eq_zero h).symm
  | cons w ws ih =>
      rw [List.sum_cons] at h
      have hw : (l.take w).length = w := List.length_take_of_le (by omega)
      have hb : bytes w (value (l.take w)) = l.take w := by
        have := bytes_value (l := l.take w)
        rwa [hw] at this
      rw [unpack, pack, hb, ih (by rw [List.length_drop]; omega), List.take_append_drop]

theorem fits_unpack (h : ws.sum ≤ l.length) : Fits ws (unpack ws l) := by
  induction ws generalizing l with
  | nil => exact .nil
  | cons w ws ih =>
      rw [List.sum_cons] at h
      have hw : (l.take w).length = w := List.length_take_of_le (by omega)
      have hv := value_lt (l := l.take w)
      rw [hw] at hv
      exact .cons hv (ih (by rw [List.length_drop]; omega))

end
end Packed
