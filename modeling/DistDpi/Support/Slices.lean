import Mathlib.Data.List.Basic
import Mathlib.Tactic.Common

/-!
# Support — Slices

Where the parts of a list stand.  `At xs off ys` says that `ys` are the elements of `xs` from `off`
on, as many as `ys` has.  `patch xs off ys` writes them there.
-/

universe u

namespace Slices
variable {α : Type u} {xs ys zs : List α} {off i : Nat}

theorem length_slice {n : Nat} (h : off + n ≤ xs.length) : ((xs.drop off).take n).length = n :=
  List.length_take_of_le (by rw [List.length_drop]; omega)

/-- `ys` stand in `xs` at `off`. -/
def At (xs : List α) (off : Nat) (ys : List α) : Prop := ys <+: xs.drop off

theorem at_zero : At xs 0 xs := List.prefix_rfl

/-- What stands one after the other. -/
theorem at_append : At xs off (ys ++ zs) ↔ At xs off ys ∧ At xs (off + ys.length) zs := by
  constructor
  · rintro ⟨t, h⟩
    refine ⟨⟨zs ++ t, by rw [← List.append_assoc, h]⟩, t, ?_⟩
    rw [← List.drop_drop, ← h, List.append_assoc, List.drop_left]
  · rintro ⟨⟨t, h⟩, t', h'⟩
    rw [← List.drop_drop, ← h, List.drop_left] at h'
    exact ⟨t', by rw [← h, ← h', List.append_assoc]⟩

theorem At.left (h : At xs off (ys ++ zs)) : At xs off ys := (at_append.1 h).1

theorem At.right (h : At xs off (ys ++ zs)) : At xs (off + ys.length) zs := (at_append.1 h).2

theorem At.getElem? {y : α} (h : At xs off ys) (hy : ys[i]? = some y) : xs[off + i]? = some y := by
  obtain ⟨t, h⟩ := h
  have hi := (List.getElem?_eq_some_iff.1 hy).1
  rw [← List.getElem?_drop, ← h, List.getElem?_append_left hi, hy]

/-- What is there ends inside. -/
theorem At.le (h : At xs off ys) (hy : 0 < ys.length) : off + ys.length ≤ xs.length := by
  have := List.IsPrefix.length_le h
  rw [List.length_drop] at this
  omega

theorem At.take (h : At xs off ys) : (xs.drop off).take ys.length = ys :=
  (List.prefix_iff_eq_take.1 h).symm

/-- A part of what stands somewhere. -/
theorem At.slice {n : Nat} (h : At xs off ys) (hn : i + n ≤ ys.length) :
    (xs.drop (off + i)).take n = (ys.drop i).take n := by
  obtain ⟨t, h⟩ := h
  rw [← List.drop_drop, ← h, List.drop_append_of_le_length (by omega),
    List.take_append_of_le_length (by rw [List.length_drop]; omega)]

/-! ### Writes -/

/-- `ys`, written over what stands at `off`. -/
def patch (xs : List α) (off : Nat) (ys : List α) : List α :=
  xs.take off ++ ys ++ xs.drop (off + ys.length)

theorem length_patch (h : off + ys.length ≤ xs.length) : (patch xs off ys).length = xs.length := by
  simp only [patch, List.length_append, List.length_take, List.length_drop]
  omega

theorem at_patch (h : off ≤ xs.length) : At (patch xs off ys) off ys := by
  refine ⟨xs.drop (off + ys.length), ?_⟩
  rw [patch, List.append_assoc, List.drop_left' (List.length_take_of_le h)]

/-- The rest stays as it is. -/
theorem getElem?_patch (h : off + ys.length ≤ xs.length) (hi : i < off ∨ off + ys.length ≤ i) :
    (patch xs off ys)[i]? = xs[i]? := by
  have hl : (xs.take off).length = off := List.length_take_of_le (by omega)
  rw [patch]
  rcases hi with hi | hi
  · rw [List.append_assoc, List.getElem?_append_left (by omega), List.getElem?_take_of_lt hi]
  · rw [List.getElem?_append_right (by rw [List.length_append]; omega), List.getElem?_drop]
    congr 1
    rw [List.length_append]
    omega

theorem drop_patch {a : Nat} (h : a ≤ off) (hoff : off ≤ xs.length) :
    (patch xs off ys).drop a = patch (xs.drop a) (off - a) ys := by
  have hl : a ≤ (xs.take off).length := by
    rw [List.length_take_of_le hoff]
    exact h
  rw [patch, patch, List.append_assoc, List.drop_append_of_le_length hl, List.drop_take,
    List.append_assoc, List.drop_drop,
    show a + (off - a + ys.length) = off + ys.length by omega]

theorem take_patch {n : Nat} (h : off + ys.length ≤ n) (hn : n ≤ xs.length) :
    (patch xs off ys).take n = patch (xs.take n) off ys := by
  have hl : (xs.take off).length = off := List.length_take_of_le (by omega)
  rw [patch, patch, List.take_append, List.take_of_length_le (by rw [List.length_append]; omega),
    List.take_take, Nat.min_eq_left (by omega), List.drop_take]
  congr 2
  rw [List.length_append]
  omega

@[simp] theorem patch_nil : patch xs off [] = xs := by
  rw [patch, List.append_nil]
  exact List.take_append_drop off xs

/-- One write after the other. -/
theorem patch_append (h : off + ys.length ≤ xs.length) :
    patch (patch xs off ys) (off + ys.length) zs = patch xs off (ys ++ zs) := by
  have hl : (xs.take off ++ ys).length = off + ys.length := by
    rw [List.length_append, List.length_take_of_le (by omega)]
  rw [patch, patch, patch, List.take_left' hl, List.drop_append,
    List.drop_of_length_le (by omega), List.nil_append, List.drop_drop, hl, List.length_append]
  simp only [List.append_assoc]
  congr 4
  omega

/-- A write in two parts. -/
theorem patch_take_drop {m : Nat} (hm : m ≤ zs.length) (h : off + m ≤ xs.length) :
    patch (patch xs off (zs.take m)) (off + m) (zs.drop m) = patch xs off zs := by
  have hl : (zs.take m).length = m := List.length_take_of_le hm
  have happ : patch (patch xs off (zs.take m)) (off + (zs.take m).length) (zs.drop m) =
      patch xs off (zs.take m ++ zs.drop m) := patch_append (by rw [hl]; exact h)
  rwa [hl, List.take_append_drop] at happ

/-- What stands somewhere, and what is around it. -/
theorem At.split (h : At xs off ys) : xs = xs.take off ++ (ys ++ xs.drop (off + ys.length)) := by
  have hys := h.take
  calc xs = xs.take off ++ xs.drop off := (List.take_append_drop off xs).symm
    _ = xs.take off ++ (ys ++ xs.drop (off + ys.length)) := by
      rw [← List.drop_drop]
      conv_lhs => rw [← List.take_append_drop ys.length (xs.drop off), hys]

end Slices
