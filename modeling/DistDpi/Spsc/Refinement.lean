import DistDpi.Spsc.Invariants
import DistDpi.Support.Fifo

/-!
# Spsc — refinement

The queue is a first-in first-out store for `size_ - 1` records (`refines`): a record is put in
when the producer stores its index, and taken out when the consumer stores its own; every other
access leaves the store as it is.  `Correct` collects what a client sees of it.
-/

namespace DistDpi.Spsc.State

universe u
variable {T : Type u} {s s' : State T} {a : Act T} {size : Size}

/-- The store that the queue is. -/
def abs (s : State T) : Fifo T := ⟨s.stored, s.written, s.takenOut⟩

theorem stored_length : s.stored.length = s.written.length - s.takenOut.length := List.length_drop

/-! ### Simulation -/

/-- **A step of the queue is at most one of the store.** -/
theorem Change.refines (h : s.Change a s') (hI : s.Inv) :
    ∃ bs, (Fifo.machine T (s.queue.size - 1)).Run s.abs bs s'.abs := by
  cases h with
  | @wrote record i hpc =>
      have hp := hI.producer
      rw [hpc] at hp
      obtain ⟨-, hroom⟩ := hp
      have hlt : s.stored.length < s.queue.size - 1 := by
        have := hI.taken_le
        rw [stored_length]
        omega
      refine ⟨[some record], .one ((Fifo.put_step hlt).trans ?_)⟩
      rw [abs, abs, stored, stored, List.drop_append_of_le_length hI.taken_le]
  | @took record ret i hpc =>
      have hc := hI.consumer
      rw [hpc] at hc
      obtain ⟨-, hrec, -⟩ := hc
      obtain ⟨hlt, e⟩ := List.getElem?_eq_some_iff.mp hrec
      have hcons : s.abs.contents = record :: s.written.drop (s.takenOut.length + 1) := by
        rw [← e]
        exact List.drop_eq_getElem_cons hlt
      refine ⟨[none], .one ((Fifo.take_step hcons).trans ?_)⟩
      simp only [abs, stored, List.length_append, List.length_singleton]
  | _ => exact ⟨[], .refl _⟩

theorem Change.size_eq (h : s.Change a s') : s'.queue.size = s.queue.size := by
  cases h <;> rfl

/-- **Refinement**: what happens to the queue in a run happens to the store in one of its own. -/
theorem refines {as : List (Act T)} (h : (system T).Run (init size) as s) :
    s.Inv ∧ s.queue.size = size.val ∧
      ∃ bs, (Fifo.machine T (size.val - 1)).Run .empty bs s.abs := by
  obtain ⟨bs, f, hr, hI, hsize, rfl⟩ := h.simulate (N := Fifo.machine T (size.val - 1))
    (R := fun s f => s.Inv ∧ s.queue.size = size.val ∧ s.abs = f) (t := .empty)
    (fun s a s' f ⟨hI, hsize, hf⟩ hs => by
      obtain ⟨hr, h⟩ := step_change hs
      obtain ⟨bs, hrun⟩ := h.refines hI
      rw [hsize, hf] at hrun
      exact ⟨bs, _, hrun, h.inv hr hI, h.size_eq.trans hsize, rfl⟩)
    ⟨inv_init size, rfl, rfl⟩
  exact ⟨hI, hsize, bs, hr⟩

/-! ### What a client sees -/

/-- **The queue is correct.**  Every access finds what it needs; records come out as they went in;
`write` fails only where the queue is full; `sizeGuess` errs on the safe side; `frontPtr` points to
the oldest record; the destructor destroys what is left. -/
structure Correct (s : State T) : Prop where
  slots : s.phase ≠ .faulted
  order : s.takenOut <+: s.written
  writeFails : ∀ s', (system T).step s .producer = some s' → s'.producer = .returned (.write false) →
    (∃ record l, s.producer = .loading (.write record) l) ∧ s.stored.length = s.queue.size - 1
  consumerGuess : ∀ n, s.consumer = .returned (.size n) → n ≤ s.stored.length
  producerGuess : ∀ n, s.producer = .returned (.size n) → s.stored.length ≤ n
  front : ∀ i, s.consumer = .returned (.front (some i)) → s.phase = .running →
    ∃ record, s.stored.head? = some record ∧ s.queue.records[i]? = some (.live record)
  destroys : ∀ destroyed, s.phase = .destroyed destroyed →
    destroyed = s.stored ∧ ∀ slot ∈ s.queue.records, slot = .raw

/-- `write` has just failed: at its load of `readIndex_` the queue was full. -/
theorem Inv.writeFails (hI : s.Inv) (h : (system T).step s .producer = some s')
    (hf : s'.producer = .returned (.write false)) :
    (∃ record l, s.producer = .loading (.write record) l) ∧ s.stored.length = s.queue.size - 1 := by
  obtain ⟨hr, h⟩ := step_change h
  cases h with
  | @producerLoaded call l r w hp hl =>
      obtain ⟨rfl, k, hk, hlt, rfl, hnow⟩ := hI.producer_loaded hp hl
      cases call with
      | write record =>
          refine ⟨⟨record, l, hp⟩, ?_⟩
          simp only [ProducerCall.loaded] at hf
          split at hf
          · cases hf
          · rename_i hfull
            rw [ne_eq, Decidable.not_not, hI.full_iff hk hlt] at hfull
            rcases hnow with e | rfl
            · cases e
            · rw [stored_length]
              omega
      | isFull | sizeGuess => cases hf
  | producerLoads | constructed | wrote => cases hf
  | faulted hfa => exact absurd hfa (hI.not_faults hr)

theorem Inv.correct (hI : s.Inv) : s.Correct where
  slots hf := by
    have h := hI.slots
    rw [Laid, hf] at h
    exact h
  order := hI.order
  writeFails _ := hI.writeFails
  consumerGuess n hn := by
    have h := hI.consumer
    rw [hn] at h
    rw [stored_length]
    exact h
  producerGuess n hn := by
    have h := hI.producer
    rw [hn] at h
    rw [stored_length]
    exact h
  front i hi hr := by
    have h := hI.consumer
    rw [hi] at h
    obtain ⟨rfl, hlt⟩ := h
    obtain ⟨record, hw⟩ := Inv.exists_first hlt
    refine ⟨record, ?_, ?_⟩
    · rw [stored, List.head?_drop, hw]
    · rw [hI.first hr hw, hi]
      rfl
  destroys ds hd := by
    have h := hI.slots
    rw [Laid, hd] at h
    exact h

end DistDpi.Spsc.State
