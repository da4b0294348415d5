import Mathlib.Data.List.Basic
import Mathlib.Data.List.Count
import Mathlib.Data.List.Induction
import Mathlib.Tactic.Common

/-!
# Support — Handles

Handles that are acquired and released: descriptors, locks, blocks of memory.  `owned log` are the
handles that the uses `log` leave acquired.  A log is proper where each release is of a handle
that is owned at that point (`Proper`); there, what is released is what has been acquired and is
not owned any more (`Proper.count`).
-/

universe u

namespace Handles
variable {α : Type u} [DecidableEq α]

/-- A use of a handle. -/
inductive Use (α : Type u) where
  | acquire (a : α)
  | release (a : α)
  deriving DecidableEq, Repr

/-- What is held after a use. -/
def hold (held : List α) : Use α → List α
  | .acquire a => a :: held
  | .release a => held.erase a

/-- The handles that are acquired and not released. -/
def owned (log : List (Use α)) : List α := log.foldl hold []

/-- A handle is released where it is owned. -/
def Proper (log : List (Use α)) : Prop :=
  ∀ before a after, log = before ++ .release a :: after → a ∈ owned before

variable {log : List (Use α)} {u : Use α} {a : α}

theorem owned_concat : owned (log ++ [u]) = hold (owned log) u := by
  rw [owned, List.foldl_concat, owned]

theorem proper_nil : Proper ([] : List (Use α)) := by
  intro before a after h
  cases before <;> cases h

theorem proper_concat :
    Proper (log ++ [u]) ↔ Proper log ∧ ∀ a, u = .release a → a ∈ owned log := by
  constructor
  · intro h
    refine ⟨?_, ?_⟩
    · intro before a after hlog
      refine h before a (after ++ [u]) ?_
      rw [hlog, List.append_assoc, List.cons_append]
    · rintro a rfl
      exact h log a [] rfl
  · rintro ⟨hlog, hu⟩ before a after h
    rcases List.eq_nil_or_concat after with rfl | ⟨after, v, rfl⟩
    · obtain ⟨rfl, hv⟩ := List.append_inj' h rfl
      exact hu a (List.cons.inj hv).1
    · rw [List.concat_eq_append, ← List.cons_append, ← List.append_assoc] at h
      exact hlog before a after (List.append_inj' h rfl).1

theorem proper_acquire : Proper (log ++ [.acquire a]) ↔ Proper log := by
  rw [proper_concat]
  exact and_iff_left fun _ h => nomatch h

theorem proper_release : Proper (log ++ [.release a]) ↔ Proper log ∧ a ∈ owned log := by
  rw [proper_concat]
  refine and_congr_right fun _ => ⟨fun h => h a rfl, ?_⟩
  rintro h b hb
  cases hb
  exact h

/-- What has been acquired is released, or still owned. -/
theorem Proper.count (h : Proper log) (a : α) :
    (owned log).count a + log.count (.release a) = log.count (.acquire a) := by
  induction log using List.reverseRecOn with
  | nil => rfl
  | append_singleton log u ih =>
      obtain ⟨hlog, hu⟩ := proper_concat.mp h
      have ih := ih hlog
      rw [owned_concat, List.count_append, List.count_append]
      cases u with
      | acquire b =>
          rw [hold, List.count_cons]
          by_cases hb : b = a
          · subst hb
            simp
            omega
          · simp [hb]
            omega
      | release b =>
          rw [hold, List.count_erase]
          have hpos := List.count_pos_iff.mpr (hu b rfl)
          by_cases hb : b = a
          · subst hb
            simp
            omega
          · simp [hb]
            omega

/-- Nothing is released more often than it is acquired. -/
theorem Proper.released_le (h : Proper log) (a : α) :
    log.count (.release a) ≤ log.count (.acquire a) := by
  rw [← h.count a]
  exact Nat.le_add_left ..

end Handles
