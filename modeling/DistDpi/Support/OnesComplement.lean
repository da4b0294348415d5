import Mathlib.Algebra.GroupWithZero.Nat
import Mathlib.Tactic.Common
import DistDpi.Support.Slices

/-!
# Support — one's complement

Sums of 16-bit words in one's complement, and what may change in the words summed.

* `toNat_sum`: the sum is the total of the words modulo 65535, and of the two zeros 0 only where
  all the words are 0 (`norm`).
* `sum_eq_max_iff`, `toNat_checksum`: a sum that verifies, and a checksum from scratch.
* `update`: the checksum for one word replaced by another, from the old checksum.
-/

namespace OnesComplement

/-- A number modulo 65535, from 1 to 65535; 0 stays 0. -/
def norm (n : Nat) : Nat := if n = 0 then 0 else (n - 1) % 65535 + 1

/-- A carry out of the 16 bits is added back in. -/
def fold (n : Nat) : Nat := n % 2 ^ 16 + n / 2 ^ 16

def add (a b : UInt16) : UInt16 := .ofNat (fold (a.toNat + b.toNat))

def sum (ws : List UInt16) : UInt16 := ws.foldl add 0

/-- The checksum of the words, from scratch. -/
def checksum (ws : List UInt16) : UInt16 := ~~~sum ws

/-- The words, added up as numbers. -/
def total (ws : List UInt16) : Nat := (ws.map UInt16.toNat).sum

/-! ### Normal numbers -/

theorem norm_le (n : Nat) : norm n ≤ 65535 := by
  unfold norm
  split <;> omega

theorem norm_of_le {n : Nat} (h : n ≤ 65535) : norm n = n := by
  unfold norm
  split <;> omega

theorem norm_mod (n : Nat) : norm n % 65535 = n % 65535 := by
  unfold norm
  split <;> omega

theorem norm_norm_add (a b : Nat) : norm (norm a + b) = norm (a + b) := by
  unfold norm
  split <;> split <;> split <;> omega

theorem norm_eq_zero {n : Nat} : norm n = 0 ↔ n = 0 := by
  unfold norm
  split <;> omega

theorem norm_eq_max {n : Nat} : norm n = 65535 ↔ 0 < n ∧ n % 65535 = 0 := by
  unfold norm
  split <;> omega

/-- One fold is enough for two words. -/
theorem fold_of_le {n : Nat} (h : n ≤ 2 * 65535) : fold n = norm n := by
  unfold fold norm
  split <;> omega

/-- Two are for any number of 32 bits. -/
theorem fold_fold {n : Nat} (h : n < 2 ^ 32) : fold (fold n) = norm n := by
  rw [fold_of_le (by unfold fold; omega)]
  unfold fold norm
  split <;> split <;> omega

/-! ### Sums -/

theorem toNat_add (a b : UInt16) : (add a b).toNat = norm (a.toNat + b.toNat) := by
  have ha := a.toNat_lt
  have hb := b.toNat_lt
  have hle := norm_le (a.toNat + b.toNat)
  rw [add, fold_of_le (by omega), UInt16.toNat_ofNat_of_lt' (Nat.lt_succ_of_le hle)]

@[simp] theorem total_nil : total [] = 0 := rfl

@[simp] theorem total_cons (w : UInt16) (ws : List UInt16) :
    total (w :: ws) = w.toNat + total ws := List.sum_cons

@[simp] theorem total_append (ws ws' : List UInt16) :
    total (ws ++ ws') = total ws + total ws' := by
  rw [total, List.map_append, List.sum_append]
  rfl

theorem toNat_foldl_add (a : UInt16) (ws : List UInt16) :
    (ws.foldl add a).toNat = norm (a.toNat + total ws) := by
  induction ws generalizing a with
  | nil => exact (norm_of_le (Nat.le_of_lt_succ a.toNat_lt)).symm
  | cons w ws ih => rw [List.foldl_cons, ih, toNat_add, norm_norm_add, total_cons, Nat.add_assoc]

/-- **The sum**, as a number. -/
theorem toNat_sum (ws : List UInt16) : (sum ws).toNat = norm (total ws) := by
  rw [sum, toNat_foldl_add]
  exact congrArg norm (Nat.zero_add _)

/-- A sum that verifies. -/
theorem sum_eq_max_iff (ws : List UInt16) :
    sum ws = 0xffff ↔ 0 < total ws ∧ total ws % 65535 = 0 := by
  rw [← UInt16.toNat_inj, toNat_sum]
  exact norm_eq_max

theorem toNat_checksum (ws : List UInt16) : (checksum ws).toNat = 65535 - norm (total ws) := by
  rw [checksum, UInt16.toNat_not, toNat_sum]
  rfl

/-! ### Updates -/

/-- The checksum where `old` has become `new`: `~(~check + ~old + new)`. -/
def update (check old new : UInt16) : UInt16 :=
  .ofNat (65535 - norm (65535 - check.toNat + new.toNat + (65535 - old.toNat)))

theorem toNat_update (check old new : UInt16) : (update check old new).toNat =
    65535 - norm (65535 - check.toNat + new.toNat + (65535 - old.toNat)) :=
  UInt16.toNat_ofNat_of_lt' (Nat.lt_succ_of_le (Nat.sub_le _ _))

/-- **What is lost with the old word comes back with the checksum.** -/
theorem update_mod (check old new : UInt16) :
    ((update check old new).toNat + new.toNat) % 65535 = (check.toNat + old.toNat) % 65535 := by
  have hc := check.toNat_lt
  have ho := old.toNat_lt
  have hle := norm_le (65535 - check.toNat + new.toNat + (65535 - old.toNat))
  have hmod := norm_mod (65535 - check.toNat + new.toNat + (65535 - old.toNat))
  rw [toNat_update]
  omega

/-- The update brings no zero of its own: 0xffff comes from 0xffff. -/
theorem eq_max_of_update {check old new : UInt16} (h : (update check old new).toNat = 65535) :
    check.toNat = 65535 := by
  have hc := check.toNat_lt
  have hn : norm (65535 - check.toNat + new.toNat + (65535 - old.toNat)) = 0 := by
    rw [toNat_update] at h
    omega
  have := norm_eq_zero.1 hn
  omega

/-- The update by a word that is not 0 leaves no checksum of all ones. -/
theorem update_ne_max {check old new : UInt16} (h : new.toNat ≠ 0) :
    (update check old new).toNat ≠ 65535 := by
  intro hmax
  have hn : norm (65535 - check.toNat + new.toNat + (65535 - old.toNat)) = 0 := by
    rw [toNat_update] at hmax
    omega
  have := norm_eq_zero.1 hn
  omega

/-- **There and back**: the old word again, and the old checksum, unless it was of all ones. -/
theorem update_update {check old new : UInt16} (h : check.toNat ≠ 65535) :
    update (update check old new) new old = check := by
  have hc := check.toNat_lt
  have ho := old.toNat_lt
  have hn := new.toNat_lt
  have hpos : norm (65535 - check.toNat + new.toNat + (65535 - old.toNat)) ≠ 0 := by
    rw [ne_eq, norm_eq_zero]
    omega
  have hle := norm_le (65535 - check.toNat + new.toNat + (65535 - old.toNat))
  have hmod := norm_mod (65535 - check.toNat + new.toNat + (65535 - old.toNat))
  rw [← UInt16.toNat_inj, toNat_update, toNat_update]
  generalize norm (65535 - check.toNat + new.toNat + (65535 - old.toNat)) = m at *
  have hback : norm (65535 - (65535 - m) + old.toNat + (65535 - new.toNat)) =
      65535 - check.toNat := by
    unfold norm
    split <;> omega
  rw [hback]
  omega

/-- A word that is replaced by itself. -/
theorem update_self {check w : UInt16} (h : check.toNat ≠ 65535) : update check w w = check := by
  have hc := check.toNat_lt
  have hw := w.toNat_lt
  have hsame : norm (65535 - check.toNat + w.toNat + (65535 - w.toNat)) = 65535 - check.toNat := by
    unfold norm
    split <;> omega
  rw [← UInt16.toNat_inj, toNat_update, hsame]
  omega

/-- A change that keeps the total modulo 65535 keeps a sum that verifies, unless nothing is left. -/
theorem sum_eq_max_of_mod {ws ws' : List UInt16} (h : total ws' % 65535 = total ws % 65535)
    (hpos : 0 < total ws') (hs : sum ws = 0xffff) : sum ws' = 0xffff :=
  (sum_eq_max_iff ws').2 ⟨hpos, h ▸ ((sum_eq_max_iff ws).1 hs).2⟩

/-- A word that makes the sum verify is the checksum of the others, if it is not the other zero. -/
theorem eq_checksum_of_mod {ws : List UInt16} {w : UInt16} (hpos : 0 < total ws)
    (hw : w.toNat ≠ 65535) (h : (w.toNat + total ws) % 65535 = 0) : w = checksum ws := by
  have hlt := w.toNat_lt
  have hle := norm_le (total ws)
  have hmod := norm_mod (total ws)
  have hne : norm (total ws) ≠ 0 := fun k => Nat.ne_of_gt hpos (norm_eq_zero.1 k)
  rw [← UInt16.toNat_inj, toNat_checksum]
  omega

theorem checksum_mod {ws : List UInt16} (hpos : 0 < total ws) :
    ((checksum ws).toNat + total ws) % 65535 = 0 ∧ (checksum ws).toNat ≠ 65535 := by
  have hle := norm_le (total ws)
  have hmod := norm_mod (total ws)
  have hne : norm (total ws) ≠ 0 := fun k => Nat.ne_of_gt hpos (norm_eq_zero.1 k)
  rw [toNat_checksum]
  omega

/-! ### Words of a list -/

section
variable {β : Type} {w : β → β → UInt16} {pad : β} {l l' : List β}

/-- The words that pairs of elements make; one that is left over is padded. -/
def words (w : β → β → UInt16) (pad : β) : List β → List UInt16
  | [] => []
  | [a] => [w a pad]
  | a :: b :: rest => w a b :: words w pad rest

theorem words_append {n : Nat} (h : l.length = 2 * n) :
    words w pad (l ++ l') = words w pad l ++ words w pad l' := by
  induction n generalizing l with
  | zero => rw [List.length_eq_zero_iff.1 h]; rfl
  | succ n ih =>
      match l, h with
      | a :: b :: rest, h =>
          have hrest : rest.length = 2 * n := by
            simp only [List.length_cons] at h
            omega
          simp only [List.cons_append, words, ih hrest]

/-- The total after a write of one word over another. -/
theorem total_patch {n : Nat} {a b a' b' : β} (h : Slices.At l (2 * n) [a, b]) :
    total (words w pad (Slices.patch l (2 * n) [a', b'])) + (w a b).toNat =
      total (words w pad l) + (w a' b').toNat := by
  have hin := h.le Nat.zero_lt_two
  have hl : (l.take (2 * n)).length = 2 * n := List.length_take_of_le (by
    simp only [List.length_cons, List.length_nil] at hin; omega)
  have hsplit := h.split
  simp only [List.cons_append, List.nil_append] at hsplit
  rw [Slices.patch, List.append_assoc, words_append hl]
  conv_rhs => rw [hsplit, words_append hl]
  simp only [List.cons_append, List.nil_append, words, total_append, total_cons, List.length_cons,
    List.length_nil]
  omega

end

end OnesComplement
