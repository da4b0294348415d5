import DistDpi.Support.Machine

/-!
# Support — Traced

Computations that make calls, and may be cut off.  `Traced ε α` has the calls, in their order, and
the result, if the computation comes to its end.

`Follows M s x Q` says that the calls of `x` are a run of the machine `M` from `s`, whether `x` comes
to its end or not, and that `Q` holds of the result and the state behind it, if it does.  With
`recorder g` for the machine, it says what `g` makes of the calls (`Follows.recorded`).
-/

universe u v w

/-- The calls that a computation makes, and its result, unless it is cut off. -/
structure Traced (ε : Type u) (α : Type v) where
  calls : List ε
  result : Option α

namespace Traced
variable {ε : Type u} {α β : Type v}

/-- First `x`, then `f` of its result. -/
def andThen (x : Traced ε α) (f : α → Traced ε β) : Traced ε β :=
  match x.result with
  | none => ⟨x.calls, none⟩
  | some a => ⟨x.calls ++ (f a).calls, (f a).result⟩

instance : Monad (Traced ε) where
  pure a := ⟨[], some a⟩
  bind := andThen

/-- A call. -/
def call (e : ε) (a : α) : Traced ε α := ⟨[e], some a⟩

/-- What makes no calls. -/
def lift (o : Option α) : Traced ε α := ⟨[], o⟩

section
variable {x : Traced ε α} {f : α → Traced ε β} {e : ε} {a : α} {o : Option α}

@[simp] theorem result_pure : (pure a : Traced ε α).result = some a := rfl

@[simp] theorem result_call : (call e a).result = some a := rfl

@[simp] theorem result_lift : (lift o : Traced ε α).result = o := rfl

@[simp] theorem result_bind : (x >>= f).result = x.result.bind fun a => (f a).result := by
  change (andThen x f).result = _
  rw [andThen]
  cases x.result <;> rfl

end

/-! ### Runs of a machine -/

variable {σ : Type w} {M : Machine σ ε} {s : σ}

/-- The calls are a run of `M` from `s`; if it comes to its end, `Q` holds there. -/
def Follows (M : Machine σ ε) (s : σ) (x : Traced ε α) (Q : α → σ → Prop) : Prop :=
  ∃ s', M.Run s x.calls s' ∧ ∀ a, x.result = some a → Q a s'

section
variable {x : Traced ε α} {f : α → Traced ε β} {e : ε} {a : α} {o : Option α}
  {Q Q' : α → σ → Prop} {R : β → σ → Prop}

@[simp] theorem follows_pure : Follows M s (pure a) Q ↔ Q a s := by
  constructor
  · rintro ⟨s', hr, h⟩
    cases hr
    exact h a rfl
  · intro h
    refine ⟨s, .refl s, ?_⟩
    rintro _ ⟨⟩
    exact h

@[simp] theorem follows_call : Follows M s (call e a) Q ↔ ∃ s', M.step s e = some s' ∧ Q a s' := by
  constructor
  · rintro ⟨s', hr, h⟩
    cases hr with
    | more hs hr =>
        cases hr
        exact ⟨_, hs, h a rfl⟩
  · rintro ⟨s', hs, h⟩
    refine ⟨s', .one hs, ?_⟩
    rintro _ ⟨⟩
    exact h

@[simp] theorem follows_lift : Follows M s (lift o) Q ↔ ∀ a, o = some a → Q a s := by
  constructor
  · rintro ⟨s', hr, h⟩
    cases hr
    exact h
  · exact fun h => ⟨s, .refl s, h⟩

theorem Follows.bind (h : Follows M s x fun a s => Follows M s (f a) R) :
    Follows M s (x >>= f) R := by
  obtain ⟨s₁, hr₁, h⟩ := h
  change Follows M s (andThen x f) R
  rw [andThen]
  cases hx : x.result with
  | none => exact ⟨s₁, hr₁, nofun⟩
  | some a =>
      obtain ⟨s', hr, hR⟩ := h a hx
      exact ⟨s', hr₁.trans hr, hR⟩

theorem Follows.mono (h : Follows M s x Q) (hQ : ∀ a s, Q a s → Q' a s) : Follows M s x Q' := by
  obtain ⟨s', hr, h⟩ := h
  exact ⟨s', hr, fun a ha => hQ a s' (h a ha)⟩

theorem Follows.ite {c : Prop} [Decidable c] {y : Traced ε α} (hx : c → Follows M s x Q)
    (hy : ¬ c → Follows M s y Q) : Follows M s (if c then x else y) Q := by
  split
  · exact hx ‹_›
  · exact hy ‹_›

end

/-! ### Records -/

section
variable {g : ε → Option β} {l l' : List β} {calls : List ε} {x : Traced ε α}

/-- The machine that lets all calls pass, and keeps what `g` makes of them. -/
def recorder (g : ε → Option β) : Machine (List β) ε := ⟨fun l e => some (l ++ (g e).toList)⟩

theorem run_recorder (h : (recorder g).Run l calls l') : l' = l ++ calls.filterMap g := by
  induction h with
  | refl => exact (List.append_nil _).symm
  | @more l l₁ l' e calls h _ ih =>
      obtain rfl := Option.some.inj h
      rw [ih, List.append_assoc, List.filterMap_cons]
      cases g e <;> rfl

/-- What is recorded of a computation that comes to its end. -/
theorem Follows.recorded {Q : α → List β → Prop} (h : Follows (recorder g) l x Q) {a : α}
    (ha : x.result = some a) : Q a (l ++ x.calls.filterMap g) := by
  obtain ⟨l', hrun, hQ⟩ := h
  rw [← run_recorder hrun]
  exact hQ a ha

/-- A call of which nothing is kept. -/
theorem follows_unrecorded {e : ε} {a : α} {Q : α → List β → Prop} (he : g e = none)
    (hQ : Q a l) : Follows (recorder g) l (call e a) Q :=
  follows_call.2 ⟨l, by simp [recorder, he], hQ⟩

/-- A call that is kept. -/
theorem follows_recorded {e : ε} {a : α} {b : β} {Q : α → List β → Prop} (he : g e = some b)
    (hQ : Q a (l ++ [b])) : Follows (recorder g) l (call e a) Q :=
  follows_call.2 ⟨l ++ [b], by simp [recorder, he], hQ⟩

end

end Traced
