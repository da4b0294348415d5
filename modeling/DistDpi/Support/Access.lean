import Mathlib.Data.List.Basic
import Mathlib.Tactic.Common

/-!
# Support — Access

Computations that read a buffer and subtract machine words.  `Access ω α` records what such a
computation does: where it first reads outside of its buffer, or its result and the subtractions
it has made, each as the pair of its operands.

`Safe x Q` says that `x` reads inside only, that none of its subtractions goes below zero, and
that its result satisfies `Q`.  The rules are equivalences, so they compute from a program the
exact condition under which it is safe.
-/

universe u v w

/-- Where a computation reads outside, or its result and its subtractions on `ω`. -/
def Access (ω : Type u) (α : Type v) : Type (max u v) := Except Nat (α × List (ω × ω))

namespace Access
variable {ω : Type u} {α β : Type v}

/-- The read at `off` is outside. -/
def fault (off : Nat) : Access ω α := .error off

/-- First `x`, then `f` of its result. -/
def andThen (x : Access ω α) (f : α → Access ω β) : Access ω β :=
  match x with
  | .error off => .error off
  | .ok (a, subs) =>
      match f a with
      | .error off => .error off
      | .ok (b, subs') => .ok (b, subs ++ subs')

instance : Monad (Access ω) where
  pure a := .ok (a, [])
  bind := andThen

/-- The byte of the buffer at `off`. -/
def get (buf : List β) (off : Nat) : Access ω β :=
  match buf[off]? with
  | some b => pure b
  | none => fault off

/-- The `len` bytes from `off` on. -/
def slice (buf : List β) (off len : Nat) : Access ω (List β) :=
  if len = 0 ∨ off + len ≤ buf.length then pure ((buf.drop off).take len) else fault buf.length

/-- `a - b`, recorded. -/
def sub [Sub ω] (a b : ω) : Access ω ω := .ok (a - b, [(a, b)])

/-- No read outside, no subtraction below zero, and a result that satisfies `Q`. -/
def Safe [LE ω] (x : Access ω α) (Q : α → Prop) : Prop :=
  match x with
  | .error _ => False
  | .ok (a, subs) => (∀ p ∈ subs, p.2 ≤ p.1) ∧ Q a

section
variable [LE ω] {x : Access ω α} {f : α → Access ω β} {Q : α → Prop} {R : β → Prop}

@[simp] theorem safe_pure {a : α} : Safe (pure a : Access ω α) Q ↔ Q a :=
  and_iff_right (by simp)

@[simp] theorem not_safe_fault {off : Nat} : ¬ Safe (fault off : Access ω α) Q := id

@[simp] theorem safe_bind : Safe (x >>= f) R ↔ Safe x fun a => Safe (f a) R := by
  cases x with
  | error off => exact Iff.rfl
  | ok p =>
      obtain ⟨a, subs⟩ := p
      change Safe (andThen (.ok (a, subs)) f) R ↔ (∀ p ∈ subs, p.2 ≤ p.1) ∧ Safe (f a) R
      cases hf : f a with
      | error off => simp [andThen, hf, Safe]
      | ok p =>
          obtain ⟨b, subs'⟩ := p
          simp [andThen, hf, Safe, or_imp, forall_and, and_assoc]

theorem safe_ite {c : Prop} [Decidable c] {y : Access ω α} :
    Safe (if c then x else y) Q ↔ (c → Safe x Q) ∧ (¬ c → Safe y Q) := by
  split <;> simp [*]

@[simp] theorem safe_sub [Sub ω] {a b : ω} {Q : ω → Prop} :
    Safe (sub a b) Q ↔ b ≤ a ∧ Q (a - b) := by
  simp [sub, Safe]

theorem Safe.mono {Q' : α → Prop} (h : Safe x Q) (hQ : ∀ a, Q a → Q' a) : Safe x Q' := by
  cases x with
  | error => exact h
  | ok p => exact ⟨h.1, hQ _ h.2⟩

end

section
variable {γ : Type v} [LE ω]

theorem safe_get {buf : List γ} {off : Nat} {Q : γ → Prop} :
    Safe (get buf off : Access ω γ) Q ↔ ∃ h : off < buf.length, Q buf[off] := by
  rw [get]
  by_cases h : off < buf.length
  · rw [List.getElem?_eq_getElem h]
    simp [h]
  · rw [List.getElem?_eq_none (Nat.le_of_not_lt h)]
    simp [h]

theorem safe_slice {buf : List γ} {off len : Nat} {Q : List γ → Prop} :
    Safe (slice buf off len : Access ω (List γ)) Q ↔
      (len = 0 ∨ off + len ≤ buf.length) ∧ Q ((buf.drop off).take len) := by
  rw [slice]
  split <;> simp [*]

end

/-! ### Results alone -/

/-- The reads are inside, and the result satisfies `Q`, wherever the subtractions go. -/
def Reads (x : Access ω α) (Q : α → Prop) : Prop :=
  match x with
  | .error _ => False
  | .ok (a, _) => Q a

section
variable {x : Access ω α} {f : α → Access ω β} {Q : α → Prop} {R : β → Prop}

instance [DecidablePred Q] : Decidable (Reads x Q) :=
  match x with
  | .error _ => isFalse id
  | .ok (a, _) => inferInstanceAs (Decidable (Q a))

theorem Reads.exists (h : Reads x Q) : ∃ a, Q a := by
  cases x with
  | error => exact h.elim
  | ok p => exact ⟨p.1, h⟩

@[simp] theorem reads_pure {a : α} : Reads (pure a : Access ω α) Q ↔ Q a := Iff.rfl

@[simp] theorem not_reads_fault {off : Nat} : ¬ Reads (fault off : Access ω α) Q := id

@[simp] theorem reads_bind : Reads (x >>= f) R ↔ Reads x fun a => Reads (f a) R := by
  cases x with
  | error off => exact Iff.rfl
  | ok p =>
      obtain ⟨a, subs⟩ := p
      change Reads (andThen (.ok (a, subs)) f) R ↔ Reads (f a) R
      simp only [andThen]
      cases f a <;> exact Iff.rfl

theorem reads_ite {c : Prop} [Decidable c] {y : Access ω α} :
    Reads (if c then x else y) Q ↔ (c → Reads x Q) ∧ (¬ c → Reads y Q) := by
  split <;> simp [*]

@[simp] theorem reads_sub [Sub ω] {a b : ω} {Q : ω → Prop} : Reads (sub a b) Q ↔ Q (a - b) := Iff.rfl

theorem reads_get {γ : Type v} {buf : List γ} {off : Nat} {Q : γ → Prop} :
    Reads (get buf off : Access ω γ) Q ↔ ∃ h : off < buf.length, Q buf[off] := by
  rw [get]
  by_cases h : off < buf.length
  · rw [List.getElem?_eq_getElem h]
    simp [h]
  · rw [List.getElem?_eq_none (Nat.le_of_not_lt h)]
    simp [h]

end

end Access
