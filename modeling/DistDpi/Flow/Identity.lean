import DistDpi.Flow.Log

/-!
# Flow — identity

A connection is a key up to direction.  The table has one entry for a connection, and while no
engine fails its packets go to one queue, also when the entry is erased and made again, from a
packet in either direction.
-/

namespace DistDpi
namespace Sys

variable {inst : Instances} {s s' : Sys} {a : Act}

/-- Every entry is in the queue its hash gives among `numQueues`. -/
def Placed (numQueues : Int) (s : Sys) : Prop :=
  ∀ n ∈ s.nodes, n.second.queue = queueIndex (connKeyHasher n.first) numQueues

theorem NodeChange.placed (h : NodeChange s a s') (hs : s.Placed s.numQueues) :
    s'.Placed s.numQueues := fun n' hn' => by
  rcases h.back hn' with ⟨n, hn, k⟩ | hm
  · rw [k.evolves.queue, k.evolves.first]
    exact hs n hn
  · cases hm with
    | mk => rw [newNode_queue]; rfl

theorem placed_of_run {as : List Act} (h : system.Run (init inst) as s) {numQueues : Int}
    (hn : system.Throughout (fun t => t.numQueues = numQueues) (init inst) as) :
    s.Placed numQueues := by
  refine (h.invariant_along (I := fun s => s.Inv inst ∧ s.Placed numQueues) ?_ hn.along
    ⟨inv_init inst, by simp [Placed, nodes, init]⟩).2
  rintro s a s' ⟨hI, hp⟩ rfl hs
  have hs := step_change hs
  exact ⟨hs.inv hI, (hs.nodes hI).placed hp⟩

/-- **Flow identity.** -/
theorem flow_identity {as : List Act} (h : system.Run (init inst) as s) :
    (Equivalence fun k k' => connKeyEqual k k' = true) ∧
    (∀ k k', connKeyEqual k k' → connKeyHasher k = connKeyHasher k') ∧
    (s.connTable.Pairwise fun it it' => ¬ connKeyEqual it.first it'.first) ∧
    (∀ it ∈ s.connTable, it.second.key = it.first) ∧
    (system.Throughout (fun t => t.numQueues = (init inst).numQueues) (init inst) as →
      ∀ k k' q q' m m', .enqueue k q m ∈ s.log → .enqueue k' q' m' ∈ s.log →
        connKeyEqual k k' → q = q') := by
  have hI := reachable h
  refine ⟨connKeyEqual_equivalence, fun _ _ => connKeyHasher_eq_of_equal, hI.table.keys,
    fun it hit => hI.table.key_eq it (mem_nodes.mpr (.inl hit)), ?_⟩
  intro hn k k' q q' m m' hm hm' hk
  have hp := placed_of_run h hn
  obtain ⟨n, hnd, -, hkn, rfl⟩ := reachable_log h _ hm
  obtain ⟨n', hnd', -, hkn', rfl⟩ := reachable_log h _ hm'
  have he : connKeyEqual n.first n'.first :=
    connKeyEqual_trans hkn (connKeyEqual_trans hk (connKeyEqual_symm hkn'))
  rw [hp n hnd, hp n' hnd', connKeyHasher_eq_of_equal he]

/-- The entry of a connection idles out, and is made again by a packet from the other end. -/
def backAgain : List Act :=
  [.insert tcpKey [1] 0 0 100, .cleanup 111, .insert tcpKey.swap [2] 0 1 112]

theorem flow_identity_backAgain : ∃ s q q' m m',
    system.exec (init twoEngines) backAgain = some s ∧ .enqueue tcpKey q m ∈ s.log ∧
      .enqueue tcpKey.swap q' m' ∈ s.log ∧ m.info ≠ m'.info ∧ q = q' := by
  have hm : Event.enqueue tcpKey 0 ⟨0, 0, 0, 0, [1], false⟩ ∈
      ((system.exec (init twoEngines) backAgain).get (by decide)).log := by decide
  have hm' : Event.enqueue tcpKey.swap 0 ⟨1, 1, 0, 0, [2], false⟩ ∈
      ((system.exec (init twoEngines) backAgain).get (by decide)).log := by decide
  exact ⟨_, _, _, _, _, (Option.some_get _).symm, hm, hm', by decide,
    (flow_identity (Machine.run_of_exec (by decide))).2.2.2.2 (by decide) _ _ _ _ _ _ hm hm'
      (by decide)⟩

end Sys
end DistDpi
