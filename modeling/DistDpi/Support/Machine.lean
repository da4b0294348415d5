import Mathlib.Algebra.GroupWithZero.Nat
import Mathlib.Data.List.Basic
import Mathlib.Tactic.Common

/-!
# Support — Machine

A machine is a partial step function: `step s a` is the state after the action `a`, or `none`
where `a` is not enabled.  All the nondeterminism of a system (which thread moves, what its
environment answers) is in the actions, so a run is a list of them.

* `Run`: `s` goes to `s'` by the actions `as`.  `exec` computes it (`run_iff_exec`).
* `Throughout P s as`: every state of the run of `as` from `s` satisfies `P`.
* `Along C s as`: every step of the run of `as` from `s` is taken where `C` holds of the state
  and the action.
* `Run.invariant`, `Run.invariant_along`: an invariant of the steps is one of the runs.
* `collect f s as`: what `f` makes of the steps of the run of `as` from `s`, as a list.
* `Run.length_add_le`, `Run.collect_length_add_le_sum`: a run that loses some of a measure with each
  step, or with each that is collected, where actions may give to it.
* `throughout_iff_along`: where `C` says of each step exactly when it keeps `P`, a run stays
  in `P` exactly when all its steps meet `C`.
* `Run.simulate`: a machine whose steps are matched by runs of another has its runs matched.
* `Run.unwind`: the steps picked from a run are a run by themselves, if the others do not matter.
* `blocks`: the machine whose steps are whole runs of another.
-/

universe u v w

/-- A partial step function on states `σ`, labelled with actions `α`. -/
structure Machine (σ : Type u) (α : Type v) where
  step : σ → α → Option σ

namespace Machine
variable {σ : Type u} {α : Type v} {M : Machine σ α}

/-- `s` goes to `s'` by the actions `as`. -/
inductive Run (M : Machine σ α) : σ → List α → σ → Prop where
  | refl (s : σ) : Run M s [] s
  | more {s s₁ s' : σ} {a : α} {as : List α}
      (h : M.step s a = some s₁) (t : Run M s₁ as s') : Run M s (a :: as) s'

/-- The state the actions lead to, where all of them are enabled. -/
def exec (M : Machine σ α) : σ → List α → Option σ
  | s, [] => some s
  | s, a :: as => (M.step s a).bind fun s₁ => exec M s₁ as

theorem run_iff_exec {s s' : σ} {as : List α} : M.Run s as s' ↔ M.exec s as = some s' := by
  constructor
  · intro h
    induction h with
    | refl => rfl
    | more h _ ih => rw [exec, h]; exact ih
  · intro h
    induction as generalizing s with
    | nil => cases h; exact .refl _
    | cons a as ih =>
        obtain ⟨s₁, h₁, h₂⟩ := Option.bind_eq_some_iff.mp h
        exact .more h₁ (ih h₂)

/-- A computed run, whatever state it ends in. -/
theorem run_of_exec {s : σ} {as : List α} (h : (M.exec s as).isSome) :
    M.Run s as ((M.exec s as).get h) :=
  run_iff_exec.mpr (Option.some_get h).symm

theorem Run.one {s s' : σ} {a : α} (h : M.step s a = some s') : M.Run s [a] s' :=
  .more h (.refl _)

theorem Run.trans {s s₁ s' : σ} {as bs : List α} (h₁ : M.Run s as s₁) (h₂ : M.Run s₁ bs s') :
    M.Run s (as ++ bs) s' := by
  induction h₁ with
  | refl => exact h₂
  | more h _ ih => exact .more h (ih h₂)

/-! ### Invariants -/

/-- **The invariant rule**: what holds at the start and is kept by every step holds at the end
of every run. -/
theorem Run.invariant {I : σ → Prop} {s s' : σ} {as : List α}
    (step : ∀ s a s', I s → M.step s a = some s' → I s') (h : M.Run s as s') (hs : I s) :
    I s' := by
  induction h with
  | refl => exact hs
  | more h _ ih => exact ih (step _ _ _ hs h)

/-- A relation that the steps generate relates the two ends of every run. -/
theorem Run.related {I : σ → Prop} {R : σ → σ → Prop} {s s' : σ} {as : List α}
    (refl : ∀ s, R s s) (trans : ∀ s₁ s₂ s₃, R s₁ s₂ → R s₂ s₃ → R s₁ s₃)
    (keep : ∀ s a s', I s → M.step s a = some s' → I s')
    (step : ∀ s a s', I s → M.step s a = some s' → R s s') (h : M.Run s as s') (hs : I s) :
    R s s' := by
  induction h with
  | refl => exact refl _
  | more h _ ih => exact trans _ _ _ (step _ _ _ hs h) (ih (keep _ _ _ hs h))

/-- Every state of the run of `as` from `s` satisfies `P`. -/
def Throughout (M : Machine σ α) (P : σ → Prop) : σ → List α → Prop
  | s, [] => P s
  | s, a :: as => P s ∧ ∀ s₁, M.step s a = some s₁ → Throughout M P s₁ as

/-- Every step of the run of `as` from `s` is taken where `C` holds. -/
def Along (M : Machine σ α) (C : σ → α → Prop) : σ → List α → Prop
  | _, [] => True
  | s, a :: as => C s a ∧ ∀ s₁, M.step s a = some s₁ → Along M C s₁ as

instance Throughout.decidable {P : σ → Prop} [DecidablePred P] :
    ∀ s as, Decidable (M.Throughout P s as)
  | s, [] => inferInstanceAs (Decidable (P s))
  | s, a :: as =>
      match h : M.step s a with
      | none => decidable_of_iff (P s) ⟨fun hp => ⟨hp, fun _ k => by rw [h] at k; cases k⟩, And.left⟩
      | some s₁ =>
          have := Throughout.decidable (P := P) s₁ as
          decidable_of_iff (P s ∧ M.Throughout P s₁ as)
            ⟨fun hp => ⟨hp.1, fun _ k => by rw [h] at k; cases k; exact hp.2⟩,
              fun hp => ⟨hp.1, hp.2 s₁ h⟩⟩

instance Along.decidable {C : σ → α → Prop} [∀ s a, Decidable (C s a)] :
    ∀ s as, Decidable (M.Along C s as)
  | _, [] => isTrue trivial
  | s, a :: as =>
      match h : M.step s a with
      | none => decidable_of_iff (C s a) ⟨fun hc => ⟨hc, fun _ k => by rw [h] at k; cases k⟩, And.left⟩
      | some s₁ =>
          have := Along.decidable (C := C) s₁ as
          decidable_of_iff (C s a ∧ M.Along C s₁ as)
            ⟨fun hc => ⟨hc.1, fun _ k => by rw [h] at k; cases k; exact hc.2⟩,
              fun hc => ⟨hc.1, hc.2 s₁ h⟩⟩

theorem Throughout.head {P : σ → Prop} {s : σ} {as : List α} (h : M.Throughout P s as) : P s := by
  cases as with
  | nil => exact h
  | cons => exact h.1

/-- A step of a run through `P` is taken where `P` holds. -/
theorem Throughout.along {P : σ → Prop} {s : σ} {as : List α} (h : M.Throughout P s as) :
    M.Along (fun s _ => P s) s as := by
  induction as generalizing s with
  | nil => trivial
  | cons a as ih => exact ⟨h.1, fun s₁ h₁ => ih (h.2 s₁ h₁)⟩

theorem Throughout.last {P : σ → Prop} {s s' : σ} {as : List α} (h : M.Throughout P s as)
    (hr : M.Run s as s') : P s' := by
  induction hr with
  | refl => exact h.head
  | more hs _ ih => exact ih (h.2 _ hs)

/-- A condition on the actions alone. -/
theorem along_of_forall {D : α → Prop} {s : σ} {as : List α} (hD : ∀ a ∈ as, D a) :
    M.Along (fun _ a => D a) s as := by
  induction as generalizing s with
  | nil => trivial
  | cons a as ih =>
      exact ⟨hD a (List.mem_cons_self ..), fun _ _ => ih fun b hb => hD b (List.mem_cons_of_mem _ hb)⟩

/-- All runs of a machine whose steps are always enabled. -/
theorem run_of_total (total : ∀ s a, ∃ s', M.step s a = some s') (s : σ) (as : List α) :
    ∃ s', M.Run s as s' := by
  induction as generalizing s with
  | nil => exact ⟨s, .refl s⟩
  | cons a as ih =>
      obtain ⟨s₁, h₁⟩ := total s a
      obtain ⟨s', hr⟩ := ih s₁
      exact ⟨s', .more h₁ hr⟩

/-- A condition on the actions alone, of a run. -/
theorem Run.along_iff_forall {D : α → Prop} {s s' : σ} {as : List α} (h : M.Run s as s') :
    M.Along (fun _ a => D a) s as ↔ ∀ a ∈ as, D a := by
  refine ⟨fun hC => ?_, along_of_forall⟩
  induction h with
  | refl => exact nofun
  | more h _ ih => exact List.forall_mem_cons.2 ⟨hC.1, ih (hC.2 _ h)⟩

theorem Along.and {C D : σ → α → Prop} {s : σ} {as : List α} (h : M.Along C s as)
    (h' : M.Along D s as) : M.Along (fun s a => C s a ∧ D s a) s as := by
  induction as generalizing s with
  | nil => trivial
  | cons a as ih => exact ⟨⟨h.1, h'.1⟩, fun s₁ h₁ => ih (h.2 s₁ h₁) (h'.2 s₁ h₁)⟩

theorem Along.append {C : σ → α → Prop} {s s₁ : σ} {as bs : List α} (h : M.Along C s as)
    (hr : M.Run s as s₁) (h' : M.Along C s₁ bs) : M.Along C s (as ++ bs) := by
  induction hr with
  | refl => exact h'
  | more hs _ ih =>
      refine ⟨h.1, fun s₂ h₂ => ?_⟩
      cases h₂.symm.trans hs
      exact ih (h.2 _ hs) h'

/-- **The invariant rule, under a condition on the steps.** -/
theorem Run.invariant_along {I : σ → Prop} {C : σ → α → Prop} {s s' : σ} {as : List α}
    (step : ∀ s a s', I s → C s a → M.step s a = some s' → I s') (h : M.Run s as s')
    (hC : M.Along C s as) (hs : I s) : I s' := by
  induction h with
  | refl => exact hs
  | more h _ ih => exact ih (hC.2 _ h) (step _ _ _ hs hC.1 h)

/-- What an invariant under a condition on the steps implies holds throughout. -/
theorem Run.throughout_of_along {I P : σ → Prop} {C : σ → α → Prop} {s s' : σ} {as : List α}
    (step : ∀ s a s', I s → C s a → M.step s a = some s' → I s') (imp : ∀ s, I s → P s)
    (h : M.Run s as s') (hC : M.Along C s as) (hs : I s) : M.Throughout P s as := by
  induction h with
  | refl => exact imp _ hs
  | @more s s₁ _ a as h _ ih =>
      refine ⟨imp _ hs, fun s₂ h₂ => ?_⟩
      cases h₂.symm.trans h
      exact ih (hC.2 _ h) (step _ _ _ hs hC.1 h)

/-- What `f` makes of the steps of the run of `as` from `s`. -/
def collect {β : Type*} (M : Machine σ α) (f : σ → α → Option β) : σ → List α → List β
  | _, [] => []
  | s, a :: as => (f s a).toList ++ ((M.step s a).map fun s₁ => collect M f s₁ as).getD []

/-- The invariant rule, for a state and what has been collected up to it, under a condition on the
steps. -/
theorem Run.invariant_along_collect {β : Type*} {f : σ → α → Option β} {I : σ → List β → Prop}
    {C : σ → α → Prop} {s s' : σ} {as : List α}
    (step : ∀ s a s' l, I s l → C s a → M.step s a = some s' → I s' (l ++ (f s a).toList))
    (h : M.Run s as s') (hC : M.Along C s as) {l : List β} (hs : I s l) :
    I s' (l ++ M.collect f s as) := by
  induction h generalizing l with
  | refl => rwa [collect, List.append_nil]
  | more h _ ih =>
      rw [collect, h, Option.map_some, Option.getD_some, ← List.append_assoc]
      exact ih (hC.2 _ h) (step _ _ _ _ hs hC.1 h)

/-- The invariant rule, for a state and what has been collected up to it. -/
theorem Run.invariant_collect {β : Type*} {f : σ → α → Option β} {I : σ → List β → Prop}
    {s s' : σ} {as : List α} (step : ∀ s a s' l, I s l → M.step s a = some s' →
      I s' (l ++ (f s a).toList)) (h : M.Run s as s') {l : List β} (hs : I s l) :
    I s' (l ++ M.collect f s as) :=
  h.invariant_along_collect (C := fun _ _ => True) (fun s a s' l hI _ hs => step s a s' l hI hs)
    (along_of_forall fun _ _ => trivial) hs

/-- What is collected of the actions alone. -/
theorem Run.map_collect {β γ : Type*} {f : σ → α → Option β} {g : β → γ} {k : α → Option γ}
    {s s' : σ} {as : List α} (hf : ∀ s a, (f s a).map g = k a) (h : M.Run s as s') :
    (M.collect f s as).map g = as.filterMap k := by
  induction h with
  | refl => rfl
  | @more s s₁ s' a as h _ ih =>
      rw [collect, h, Option.map_some, Option.getD_some, List.map_append, ih, List.filterMap_cons,
        ← hf s a]
      cases f s a <;> rfl

/-- Nothing is collected of a run exactly if there is nothing to collect of any of its steps. -/
theorem Run.collect_eq_nil_iff {β : Type*} {f : σ → α → Option β} {s s' : σ} {as : List α}
    (h : M.Run s as s') : M.collect f s as = [] ↔ M.Along (fun s a => f s a = none) s as := by
  induction h with
  | refl => exact iff_of_true rfl trivial
  | @more s s₁ s' a as h _ ih =>
      rw [collect, h, Option.map_some, Option.getD_some, List.append_eq_nil_iff,
        Option.toList_eq_nil_iff, ih]
      exact and_congr_right fun _ => ⟨fun hC s₂ h₂ => by cases h₂.symm.trans h; exact hC,
        fun hC => hC s₁ h⟩

/-- **The amortised bound.**  What is collected takes some of a measure each time, and an action `a`
gives `c a` to it, so there is no more of it than the measure and what is given. -/
theorem Run.collect_length_add_le_sum {β : Type*} {f : σ → α → Option β} {I : σ → Prop}
    {C : σ → α → Prop} {μ : σ → Nat} {c : α → Nat} {s s' : σ} {as : List α}
    (step : ∀ s a s', I s → C s a → M.step s a = some s' →
      I s' ∧ (f s a).toList.length + μ s' ≤ μ s + c a) (h : M.Run s as s') (hC : M.Along C s as)
    (hs : I s) : (M.collect f s as).length + μ s' ≤ μ s + (as.map c).sum := by
  induction h with
  | refl => exact Nat.le_of_eq (Nat.zero_add _)
  | @more s s₁ s' a as h _ ih =>
      obtain ⟨hI, hle⟩ := step _ _ _ hs hC.1 h
      have := ih (hC.2 _ h) hI
      rw [collect, h, Option.map_some, Option.getD_some, List.length_append, List.map_cons,
        List.sum_cons]
      omega

/-- The same, where nothing is given. -/
theorem Run.collect_length_add_le {β : Type*} {f : σ → α → Option β} {I : σ → Prop} {μ : σ → Nat}
    {s s' : σ} {as : List α} (step : ∀ s a s', I s → M.step s a = some s' →
      I s' ∧ (f s a).toList.length + μ s' ≤ μ s) (h : M.Run s as s') (hs : I s) :
    (M.collect f s as).length + μ s' ≤ μ s := by
  have hle := h.collect_length_add_le_sum (C := fun _ _ => True) (c := fun _ => 0)
    (fun s a s' hI _ hs => step s a s' hI hs) (along_of_forall fun _ _ => trivial) hs
  rwa [List.map_const', List.sum_replicate_nat, Nat.mul_zero, Nat.add_zero] at hle

/-- A sum of which one part is changed. -/
theorem sum_set_add {α : Type*} (f : α → Nat) (l : List α) {i : Nat} {x : α} (h : l[i]? = some x)
    (y : α) : ((l.set i y).map f).sum + f x = (l.map f).sum + f y := by
  induction l generalizing i with
  | nil => cases h
  | cons z l ih =>
      cases i with
      | zero =>
          cases Option.some.inj h
          simp only [List.set_cons_zero, List.map_cons, List.sum_cons]
          omega
      | succ i =>
          have := ih (i := i) h
          simp only [List.set_cons_succ, List.map_cons, List.sum_cons]
          omega

/-- A run of steps that all lose some of a measure is no longer than what it loses. -/
theorem Run.length_add_le_of {I : σ → Prop} {μ : σ → Nat} {D : α → Prop} {s s' : σ} {as : List α}
    (step : ∀ s a s', I s → D a → M.step s a = some s' → I s' ∧ μ s' < μ s) (h : M.Run s as s')
    (hD : ∀ a ∈ as, D a) (hs : I s) : as.length + μ s' ≤ μ s := by
  induction h with
  | refl => exact Nat.le_of_eq (Nat.zero_add _)
  | more h _ ih =>
      obtain ⟨ha, has⟩ := List.forall_mem_cons.1 hD
      obtain ⟨hs, hlt⟩ := step _ _ _ hs ha h
      have hle := ih has hs
      rw [List.length_cons]
      omega

theorem Run.length_add_le {μ : σ → Nat} {D : α → Prop} {s s' : σ} {as : List α}
    (step : ∀ s a s', D a → M.step s a = some s' → μ s' < μ s) (h : M.Run s as s')
    (hD : ∀ a ∈ as, D a) : as.length + μ s' ≤ μ s :=
  h.length_add_le_of (I := fun _ => True) (fun s a s' _ ha hs => ⟨trivial, step s a s' ha hs⟩) hD
    trivial

/-- A condition on the steps gives another, by an invariant that holds under it. -/
theorem Run.along_mono {I : σ → Prop} {C D : σ → α → Prop} {s s' : σ} {as : List α}
    (step : ∀ s a s', I s → C s a → M.step s a = some s' → I s')
    (imp : ∀ s a, I s → C s a → D s a) (h : M.Run s as s') (hC : M.Along C s as) (hs : I s) :
    M.Along D s as := by
  induction h with
  | refl => trivial
  | @more s s₁ _ a as h _ ih =>
      refine ⟨imp _ _ hs hC.1, fun s₂ h₂ => ?_⟩
      cases h₂.symm.trans h
      exact ih (hC.2 _ h) (step _ _ _ hs hC.1 h)

/-- **The exact condition.**  Let `I` be kept by the steps from states in `P`, and let a step
from such a state end in `P` exactly when it meets `C`.  A run from a state in `P` stays in `P`
exactly when all its steps meet `C`. -/
theorem throughout_iff_along {I P : σ → Prop} {C : σ → α → Prop} {s s' : σ} {as : List α}
    (keep : ∀ s a s', I s → P s → M.step s a = some s' → I s')
    (exact_ : ∀ s a s', I s → P s → M.step s a = some s' → (P s' ↔ C s a))
    (h : M.Run s as s') (hI : I s) (hP : P s) : M.Throughout P s as ↔ M.Along C s as := by
  induction h with
  | refl => exact ⟨fun _ => trivial, fun _ => hP⟩
  | @more s s₁ _ a as h _ ih =>
      have only : ∀ {s₂}, M.step s a = some s₂ → s₂ = s₁ := fun h₂ =>
        Option.some.inj (h₂.symm.trans h)
      constructor
      · intro ht
        have hP₁ : P s₁ := (ht.2 s₁ h).head
        refine ⟨(exact_ _ _ _ hI hP h).mp hP₁, fun s₂ h₂ => ?_⟩
        rw [only h₂]
        exact (ih (keep _ _ _ hI hP h) hP₁).mp (ht.2 s₁ h)
      · intro hC
        have hP₁ : P s₁ := (exact_ _ _ _ hI hP h).mpr hC.1
        refine ⟨hP, fun s₂ h₂ => ?_⟩
        rw [only h₂]
        exact (ih (keep _ _ _ hI hP h) hP₁).mpr (hC.2 s₁ h)

/-- What no step brings back holds throughout a run exactly when it holds at the end. -/
theorem Run.throughout_iff_end {I P : σ → Prop} {s s' : σ} {as : List α}
    (keep : ∀ s a s', I s → M.step s a = some s' → I s')
    (back : ∀ s a s', I s → M.step s a = some s' → P s' → P s) (h : M.Run s as s') (hI : I s) :
    M.Throughout P s as ↔ P s' := by
  induction h with
  | refl => exact Iff.rfl
  | @more s s₁ _ a as h t ih =>
      have ih := ih (keep _ _ _ hI h)
      constructor
      · exact fun ht => ih.mp (ht.2 s₁ h)
      · intro hP
        have ht := ih.mpr hP
        refine ⟨back _ _ _ hI h ht.head, fun s₂ h₂ => ?_⟩
        cases h₂.symm.trans h
        exact ht

/-! ### Simulation -/

/-- **Simulation.**  If every step of `M` from related states is matched by a run of `N` that
ends in related states, every run of `M` is matched by one of `N`. -/
theorem Run.simulate {τ : Type w} {β : Type*} {N : Machine τ β} {R : σ → τ → Prop}
    (step : ∀ s a s' t, R s t → M.step s a = some s' → ∃ bs t', N.Run t bs t' ∧ R s' t')
    {s s' : σ} {as : List α} (h : M.Run s as s') {t : τ} (hR : R s t) :
    ∃ bs t', N.Run t bs t' ∧ R s' t' := by
  induction h generalizing t with
  | refl => exact ⟨[], t, .refl t, hR⟩
  | more h _ ih =>
      obtain ⟨bs, t₁, hr₁, hR₁⟩ := step _ _ _ _ hR h
      obtain ⟨cs, t₂, hr₂, hR₂⟩ := ih hR₁
      exact ⟨bs ++ cs, t₂, hr₁.trans hr₂, hR₂⟩

/-- **Unwinding.**  `f` picks steps, and `R` relates a state to what it is for those steps alone.
If a step that is not picked keeps `R`, and a step that is picked can be made on the other side and
keeps it, then the steps picked from a run are a run by themselves, and `R` holds at the end. -/
theorem Run.unwind {τ : Type w} {β : Type*} {N : Machine τ β} {f : σ → α → Option β}
    {P : σ → Prop} {R : σ → τ → Prop}
    (skip : ∀ s a s' t, P s → P s' → M.step s a = some s' → f s a = none → R s t → R s' t)
    (pick : ∀ s a s' b t, P s → P s' → M.step s a = some s' → f s a = some b → R s t →
      ∃ t', N.step t b = some t' ∧ R s' t')
    {s s' : σ} {as : List α} (h : M.Run s as s') (hP : M.Throughout P s as) {t : τ} (hR : R s t) :
    ∃ t', N.Run t (M.collect f s as) t' ∧ R s' t' := by
  induction h generalizing t with
  | refl => exact ⟨t, .refl t, hR⟩
  | @more s s₁ s' a as h _ ih =>
      have hP₁ := hP.2 s₁ h
      rw [collect, h, Option.map_some, Option.getD_some]
      cases hf : f s a with
      | none => exact ih hP₁ (skip s a s₁ t hP.1 hP₁.head h hf hR)
      | some b =>
          obtain ⟨t₁, ht₁, hR₁⟩ := pick s a s₁ b t hP.1 hP₁.head h hf hR
          obtain ⟨t', hr, hR'⟩ := ih hP₁ hR₁
          exact ⟨t', .more ht₁ hr, hR'⟩

/-! ### Larger steps -/

/-- The machine that takes whole runs of another as its steps, uninterrupted: `acts` lists the
actions of such a step, which is enabled where they are and end in a state that is `ok`. -/
def blocks {β : Type*} (M : Machine σ α) (acts : σ → β → List α) (ok : σ → Bool) : Machine σ β :=
  ⟨fun s b => (M.exec s (acts s b)).filter ok⟩

theorem blocks_step {β : Type*} {acts : σ → β → List α} {ok : σ → Bool} {s s' : σ} {b : β} :
    (M.blocks acts ok).step s b = some s' ↔ M.Run s (acts s b) s' ∧ ok s' := by
  rw [blocks, Option.filter_eq_some_iff, run_iff_exec]

end Machine
