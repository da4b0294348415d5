import DistDpi.Support.Machine

/-!
# Support — Fifo

A first-in first-out store that holds at most `cap` records, as a machine.  `put` is enabled where
there is room, and `take`, which takes the oldest record, where there is one.  What was put in and
what was taken out is kept in order, so that a machine that refines this one can be asked about
both (`Fifo.Ok`).
-/

universe u

/-- A store, with its history. -/
structure Fifo (T : Type u) where
  contents : List T
  accepted : List T
  taken : List T

namespace Fifo
variable {T : Type u} {cap : Nat} {f f' : Fifo T} {r : T} {as : List (Option T)}

/-- A store that is new. -/
def empty : Fifo T := ⟨[], [], []⟩

/-- **The store with room for `cap` records.**  `some r` puts `r` in, and `none` takes a record
out. -/
def machine (T : Type u) (cap : Nat) : Machine (Fifo T) (Option T) where
  step f
    | some r =>
        if f.contents.length < cap then
          some { f with contents := f.contents ++ [r], accepted := f.accepted ++ [r] }
        else none
    | none =>
        match f.contents with
        | [] => none
        | r :: rest => some { f with contents := rest, taken := f.taken ++ [r] }

/-- What was put in is what was taken out followed by what is there, and that fits. -/
structure Ok (cap : Nat) (f : Fifo T) : Prop where
  order : f.accepted = f.taken ++ f.contents
  fits : f.contents.length ≤ cap

theorem put_step (h : f.contents.length < cap) : (machine T cap).step f (some r) =
    some { f with contents := f.contents ++ [r], accepted := f.accepted ++ [r] } :=
  if_pos h

theorem take_step {rest : List T} (h : f.contents = r :: rest) : (machine T cap).step f none =
    some { f with contents := rest, taken := f.taken ++ [r] } := by
  simp only [machine, h]

theorem Ok.step {a : Option T} (h : f.Ok cap) (hs : (machine T cap).step f a = some f') :
    f'.Ok cap := by
  cases a with
  | some r =>
      obtain ⟨hlt, hs⟩ := Option.ite_none_right_eq_some.mp hs
      cases hs
      refine ⟨?_, ?_⟩
      · change f.accepted ++ [r] = f.taken ++ (f.contents ++ [r])
        rw [h.order, List.append_assoc]
      · change (f.contents ++ [r]).length ≤ cap
        rw [List.length_append]
        exact hlt
  | none =>
      cases hc : f.contents with
      | nil => simp only [machine, hc] at hs; cases hs
      | cons r rest =>
          rw [take_step hc] at hs
          cases hs
          have hfits := h.fits
          refine ⟨?_, ?_⟩
          · change f.accepted = f.taken ++ [r] ++ rest
            rw [h.order, hc, List.append_assoc]
            rfl
          · rw [hc] at hfits
            exact Nat.le_of_succ_le hfits

/-- **First in, first out**, over every run. -/
theorem reachable (h : (machine T cap).Run empty as f) : f.Ok cap :=
  h.invariant (fun _ _ _ k hs => k.step hs) ⟨rfl, Nat.zero_le _⟩

end Fifo
