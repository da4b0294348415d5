import Mathlib.Algebra.Group.Nat.Defs
import Mathlib.Data.List.Basic
import Mathlib.Tactic.Common

/-!
# Support — Ring

A buffer of `n` slots used as a ring.  What has a place in it is numbered by counters that only
grow: the counter `k` has the slot `k % n`.  The counters from `lo` on for which there are slots
form a window of length `n`, in which different counters have different slots.

`Holds n buf lo f` says that the buffer holds `f k` for each `k` of the window.  It is kept by a
write (`Holds.set`) and when the window moves on (`Holds.succ`).
-/

universe u

namespace Ring
variable {α : Type u} {n lo a b k : Nat} {buf : List α} {f g : Nat → α}

/-! ### Counters and slots -/

/-- The distance of two counters of a window, from their slots. -/
theorem sub_eq (h : a ≤ b) (hb : b < a + n) :
    (a % n ≤ b % n ∧ b - a = b % n - a % n) ∨ (b % n < a % n ∧ b - a = b % n + n - a % n) := by
  have ha' := Nat.div_add_mod a n
  have hb' := Nat.div_add_mod b n
  have hlt : b % n < n := Nat.mod_lt _ (by omega)
  have hlt' : a % n < n := Nat.mod_lt _ (by omega)
  have hle : a / n ≤ b / n := Nat.div_le_div_right h
  have hle' : b / n ≤ a / n + 1 := by
    rw [← Nat.add_div_right a (by omega)]
    exact Nat.div_le_div_right (Nat.le_of_lt hb)
  rcases Nat.eq_or_lt_of_le hle with e | hlt''
  · rw [e] at ha'
    omega
  · rw [show b / n = a / n + 1 by omega, Nat.mul_add, Nat.mul_one] at hb'
    omega

theorem eq_of_mod_eq (h : a ≤ b) (hb : b < a + n) (e : a % n = b % n) : a = b := by
  have := sub_eq h hb
  omega

/-- Different counters of a window have different slots. -/
theorem mod_inj (ha : lo ≤ a) (ha' : a < lo + n) (hb : lo ≤ b) (hb' : b < lo + n)
    (e : a % n = b % n) : a = b := by
  rcases Nat.le_total a b with h | h
  · exact eq_of_mod_eq h (by omega) e
  · exact (eq_of_mod_eq h (by omega) e.symm).symm

/-- The slot after a slot. -/
theorem succ_mod (hn : 0 < n) : (k + 1) % n = if k % n + 1 = n then 0 else k % n + 1 := by
  have hlt := Nat.mod_lt k hn
  have hk := Nat.div_add_mod k n
  split
  · rename_i h
    rw [← hk, Nat.add_assoc, h, Nat.mul_add_mod, Nat.mod_self]
  · rename_i h
    rw [← hk, Nat.add_assoc, Nat.mul_add_mod, Nat.mul_add_mod, Nat.mod_mod]
    exact Nat.mod_eq_of_lt (by omega)

/-! ### A window of a buffer -/

/-- The buffer holds `f` on the window from `lo`. -/
def Holds (n : Nat) (buf : List α) (lo : Nat) (f : Nat → α) : Prop :=
  ∀ k, lo ≤ k → k < lo + n → buf[k % n]? = some (f k)

theorem Holds.congr (h : Holds n buf lo f) (hg : ∀ k, lo ≤ k → k < lo + n → g k = f k) :
    Holds n buf lo g := by
  intro k hk hk'
  rw [hg k hk hk']
  exact h k hk hk'

/-- A write at a counter of the window. -/
theorem Holds.set {x : α} (h : Holds n buf lo f) (hk : lo ≤ k) (hk' : k < lo + n) (hx : g k = x)
    (hg : ∀ j, j ≠ k → g j = f j) : Holds n (buf.set (k % n) x) lo g := by
  intro j hj hj'
  by_cases e : j = k
  · subst e
    have hlt := (List.getElem?_eq_some_iff.mp (h j hj hj')).1
    rw [List.getElem?_set_self hlt, hx]
  · have hne : k % n ≠ j % n := fun e' => e (mod_inj hj hj' hk hk' e'.symm)
    rw [List.getElem?_set_ne hne, hg j e]
    exact h j hj hj'

/-- The window moves on by one: the slot of its first counter becomes that of the next. -/
theorem Holds.succ (h : Holds n buf lo f) (hg : ∀ k, lo < k → k < lo + n → g k = f k)
    (hlast : g (lo + n) = f lo) : Holds n buf (lo + 1) g := by
  intro k hk hk'
  by_cases e : k = lo + n
  · rw [e, Nat.add_mod_right, hlast]
    exact h lo (Nat.le_refl _) (by omega)
  · rw [hg k hk (by omega)]
    exact h k (by omega) (by omega)

/-- A buffer of `n` slots holds nothing but what is in the window. -/
theorem Holds.of_mem {x : α} (h : Holds n buf lo f) (hn : buf.length = n) (hx : x ∈ buf) :
    ∃ k, lo ≤ k ∧ k < lo + n ∧ x = f k := by
  obtain ⟨i, hi, rfl⟩ := List.getElem_of_mem hx
  have hpos : 0 < n := by omega
  have key : ∃ k, lo ≤ k ∧ k < lo + n ∧ k % n = i := by
    have hlo := Nat.div_add_mod lo n
    have hlt := Nat.mod_lt lo hpos
    by_cases hle : lo % n ≤ i
    · refine ⟨n * (lo / n) + i, by omega, by omega, ?_⟩
      rw [Nat.mul_add_mod, Nat.mod_eq_of_lt (by omega)]
    · refine ⟨n * (lo / n + 1) + i, ?_, ?_, ?_⟩
      · rw [Nat.mul_add, Nat.mul_one]; omega
      · rw [Nat.mul_add, Nat.mul_one]; omega
      · rw [Nat.mul_add_mod, Nat.mod_eq_of_lt (by omega)]
  obtain ⟨k, hk, hk', e⟩ := key
  refine ⟨k, hk, hk', ?_⟩
  have := h k hk hk'
  rw [e, List.getElem?_eq_getElem hi] at this
  exact Option.some.inj this

end Ring
