import DistDpi.Flow.Log

/-!
# Flow — direction

navl tells the client of a connection from the server by the `dir` of a packet: 0 for the way the
first packet went, 1 for the other.  `ConnKeyEqual` compares both endpoints in two orientations;
`InsertOrUpdateFlows` looks at the source addresses alone.  The two agree unless the endpoints
share their address (`lawful_iff_oriented`).

A direction is computed once, when the packet is queued, and reaches navl as it is (`Directed`).
-/

namespace DistDpi

/-- The law: 0 in the direction of the stored key, 1 in the other. -/
def Lawful (stored key : ConnKey) (dir : UInt32) : Prop :=
  (forwardLookup stored key → dir = 0) ∧ (¬ forwardLookup stored key → dir = 1)

/-- The source address tells the direction of the packet. -/
def Oriented (stored key : ConnKey) : Prop :=
  forwardLookup stored key ∨ stored.srcaddr ≠ stored.dstaddr

instance (stored key : ConnKey) (dir : UInt32) : Decidable (Lawful stored key dir) :=
  inferInstanceAs (Decidable (_ ∧ _))

theorem lawful_iff_oriented {stored key : ConnKey} (h : connKeyEqual stored key) :
    Lawful stored key (Sys.direction key stored) ↔ Oriented stored key := by
  have hne : (0 : UInt32) ≠ 1 := by decide
  rw [Lawful, Oriented, Sys.direction]
  by_cases hf : forwardLookup stored key
  · have hsrc : key.srcaddr = stored.srcaddr := by
      simp only [forwardLookup, Bool.and_eq_true, beq_iff_eq] at hf
      exact hf.1.1.1.symm
    simp only [hf, hsrc, if_true, not_true_eq_false, false_implies, and_self, true_or, implies_true]
  · -- the packet comes from the stored destination
    have hsrc : key.srcaddr = stored.dstaddr := by
      simp only [connKeyEqual, hf, reverseLookup, Bool.and_eq_true, Bool.or_eq_true, beq_iff_eq,
        Bool.false_eq_true, false_or] at h
      exact h.2.1.1.2.symm
    simp only [hf, hsrc, false_implies, true_and, not_false_eq_true, true_implies, false_or,
      Bool.false_eq_true]
    constructor
    · intro h hs
      rw [if_pos hs.symm] at h
      exact hne h
    · intro hs
      exact if_neg fun h => hs h.symm

namespace Sys

variable {inst : Instances} {s s' : Sys} {a : Act} {q : Nat} {m : ConnMetadata} {evs : List Event}

/-- The message has been pushed for a packet. -/
def Sent (s : Sys) (m : ConnMetadata) : Prop := ∃ key queue, .enqueue key queue m ∈ s.log

/-- **The direction law**, of all the messages there have been. -/
def DirectionLaw (s : Sys) : Prop :=
  ∀ key queue m, .enqueue key queue m ∈ s.log →
    ∃ n ∈ s.nodes, n.addr = m.info ∧ connKeyEqual n.first key ∧ Lawful n.first key m.dir

/-- Where the directions come from. -/
structure Directed (s : Sys) : Prop where
  /-- A message has the direction of its packet against the key of its entry. -/
  enqueued : ∀ key queue m, .enqueue key queue m ∈ s.log →
    ∃ n ∈ s.nodes, n.addr = m.info ∧ connKeyEqual n.first key ∧ m.dir = direction key n.first
  /-- What is on its way has been pushed for a packet. -/
  sent : ∀ q, ∀ m ∈ s.pending q, m.exitFlag = false → s.Sent m
  /-- What navl is given is a message, as it was pushed. -/
  given : ∀ queue handle data nc dir node, .classify queue handle data nc dir node ∈ s.log →
    ∃ m, s.Sent m ∧ m.info = node ∧ m.data = data ∧ m.dir = dir

theorem Sent.append (h : s.Sent m) (hlog : s'.log = s.log ++ evs) : s'.Sent m := by
  obtain ⟨key, queue, h⟩ := h
  exact ⟨key, queue, hlog ▸ List.mem_append_left _ h⟩

theorem directed_init (inst : Instances) : (init inst).Directed where
  enqueued _ _ _ h := by cases h
  sent q m hm := by
    rw [pending_init] at hm
    cases hm
  given _ _ _ _ _ _ h := by cases h

/-! ### One step -/

theorem Emits.enqueued {key : ConnKey} {queue : Int} (h : s.Emits a s' evs)
    (hc : s.NodeChange a s') (hev : .enqueue key queue m ∈ evs) :
    ∃ n ∈ s'.nodes, n.addr = m.info ∧ connKeyEqual n.first key ∧ m.dir = direction key n.first := by
  have none : ∀ t : List Node, .enqueue key queue m ∉ t.map destroyCall := by
    intro t ht
    obtain ⟨n, -, hn⟩ := List.mem_map.mp ht
    cases hn
  cases h with
  | silent => cases hev
  | ignored | create | called => cases List.mem_singleton.mp hev
  | reported => rcases List.mem_pair.mp hev with h | h <;> cases h
  | idle | final => exact absurd hev (none _)
  | inserted hn hf hm =>
      rcases List.mem_pair.mp hev with h | h
      · cases h
      · cases h
        exact ⟨_, mem_nodes.mpr (.inl hm), rfl, connKeyEqual_refl _, (if_pos rfl).symm⟩
  | queued hn hf =>
      rcases List.mem_pair.mp hev with h | h
      · cases h
      · cases h
        obtain ⟨hit, hk⟩ := ConnTable.find_some hf
        obtain ⟨n, hn, k⟩ := hc.forward (mem_nodes.mpr (.inl hit))
        exact ⟨n, hn, k.evolves.addr, k.evolves.first ▸ hk, k.evolves.first ▸ rfl⟩

theorem shown_held : s.shown EnginePc.held q = s.pending q := rfl

/-- What is new on a queue has been pushed for a packet. -/
theorem Change.sent (h : Change s a s') (hm : m ∈ s'.pending q) (hx : m.exitFlag = false) :
    m ∈ s.pending q ∨ ∃ key queue, .enqueue key queue m ∈ s'.log := by
  have k := h
  cases h with
  | dropped | ignored | stopCleanup | stopMoved => exact .inl hm
  | @inserted key data filter dir now hn hf =>
      rw [← shown_held, shown_emit, shown_push, shown_addNode, List.mem_append] at hm
      refine hm.imp id fun hm => ?_
      split at hm
      · rw [List.mem_singleton.mp hm]
        exact ⟨_, _, List.mem_append_right _ (List.mem_pair.mpr (.inr rfl))⟩
      · cases hm
  | @queued key data filter dir now it hn hf hi hd =>
      rw [← shown_held, shown_emit, shown_push, shown_update, List.mem_append] at hm
      refine hm.imp id fun hm => ?_
      split at hm
      · rw [List.mem_singleton.mp hm]
        exact ⟨_, _, List.mem_append_right _ (List.mem_pair.mpr (.inr rfl))⟩
      · cases hm
  | @stopPush i h hi =>
      have hp : Sys.pending { s.push i .exit with stopPc := .pushing (i + 1) } q =
          (s.push i .exit).pending q := rfl
      rw [hp, pending_push, List.mem_append] at hm
      refine hm.imp id fun hm => ?_
      split at hm
      · rw [List.mem_singleton.mp hm] at hx
        cases hx
      · cases hm
  | cleanup => exact .inl ((k.shown_quiet shows_held (.inr ⟨_, rfl⟩) q).subset hm)
  | popped | exits | moved | handleSet | called | createFailed | created | unfound | reported
  | noted | thrown | cleared =>
      exact .inl ((k.shown_quiet shows_held (.inl ⟨_, _, rfl⟩) q).subset hm)

theorem Emits.given {queue : Nat} {handle : Int} {data : Bytes} {nc : Option ConnId} {dir : UInt32}
    {node : NodeId} (h : s.Emits a s' evs) (hev : .classify queue handle data nc dir node ∈ evs) :
    ∃ e m, s.engines[queue]? = some e ∧ e.pc = .classify m ∧ m.info = node ∧ m.data = data ∧
      m.dir = dir := by
  have none : ∀ t : List Node, .classify queue handle data nc dir node ∉ t.map destroyCall := by
    intro t ht
    obtain ⟨n, -, hn⟩ := List.mem_map.mp ht
    cases hn
  cases h with
  | silent => cases hev
  | ignored | create => cases List.mem_singleton.mp hev
  | inserted | queued | reported => rcases List.mem_pair.mp hev with h | h <;> cases h
  | idle | final => exact absurd hev (none _)
  | called he hpc hit ha =>
      cases List.mem_singleton.mp hev
      exact ⟨_, _, he, hpc, ha.symm, rfl, rfl⟩

theorem Change.directed (h : Change s a s') (hI : s.Inv inst) (hD : s.Directed) : s'.Directed := by
  have hc := h.nodes hI
  obtain ⟨evs, hlog, hem⟩ := h.emits hI
  refine ⟨fun key queue m hev => ?_, fun q m hm hx => ?_, fun queue handle data nc dir node hev => ?_⟩
  · rw [hlog, List.mem_append] at hev
    rcases hev with hev | hev
    · obtain ⟨n, hn, ha, hk, hd⟩ := hD.enqueued key queue m hev
      obtain ⟨n', hn', k⟩ := hc.forward hn
      exact ⟨n', hn', k.evolves.addr.trans ha, k.evolves.first ▸ hk, k.evolves.first ▸ hd⟩
    · exact hem.enqueued hc hev
  · exact (h.sent hm hx).elim (fun hm => (hD.sent q m hm hx).append hlog) id
  · rw [hlog, List.mem_append] at hev
    rcases hev with hev | hev
    · obtain ⟨m, hm, rest⟩ := hD.given queue handle data nc dir node hev
      exact ⟨m, hm.append hlog, rest⟩
    · obtain ⟨e, m, he, hpc, rest⟩ := hem.given hev
      have hheld : s.held queue = some m := by rw [held_eq he, hpc]; rfl
      exact ⟨m, (hD.sent queue m (held_mem_pending hheld) (hI.held queue m hheld)).append hlog, rest⟩

/-! ### Every run -/

theorem reachable_directed {as : List Act} (h : system.Run (init inst) as s) : s.Directed := by
  refine (h.invariant (I := fun s => s.Inv inst ∧ s.Directed) ?_
    ⟨inv_init inst, directed_init inst⟩).2
  rintro s a s' ⟨hI, hD⟩ hs
  have hs := step_change hs
  exact ⟨hs.inv hI, hs.directed hI hD⟩

/-- **Which packets have their direction**: for every stored key and key that matches it, and for
every packet queued and every packet given to navl in a run. -/
theorem direction_law (stored key : ConnKey) (hk : connKeyEqual stored key) (inst : Instances)
    (as : List Act) (s : Sys) (h : system.Run (init inst) as s) :
    (Lawful stored key (direction key stored) ↔ Oriented stored key) ∧
    (∀ key queue m, .enqueue key queue m ∈ s.log → ∃ n ∈ s.nodes, n.addr = m.info ∧
      connKeyEqual n.first key ∧ (Lawful n.first key m.dir ↔ Oriented n.first key)) ∧
    ∀ queue handle data nc dir node, .classify queue handle data nc dir node ∈ s.log →
      ∃ m, s.Sent m ∧ m.info = node ∧ m.data = data ∧ m.dir = dir := by
  have hD := reachable_directed h
  refine ⟨lawful_iff_oriented hk, fun key queue m hev => ?_, hD.given⟩
  obtain ⟨n, hn, ha, hk, hd⟩ := hD.enqueued key queue m hev
  exact ⟨n, hn, ha, hk, hd ▸ lawful_iff_oriented hk⟩

/-- A connection from a host to itself. -/
def loopKey : ConnKey := ⟨0x7f000001, 0x7f000001, 40000, 443, 6⟩

/-- The answer of its server is given to navl. -/
def answered : List Act :=
  [.insert loopKey [1] 3 1 100, .engine 1 .pop, .engine 1 .testState, .engine 1 .setHandle,
    .engine 1 (.create true), .insert loopKey.swap [2] 0 0 101, .engine 1 .pop,
    .engine 1 .testState, .engine 1 .guard, .engine 1 .classify]

/-- The state it leaves. -/
def answeredState : Sys := (system.exec (init twoEngines) answered).get (by decide)

theorem run_answered : system.Run (init twoEngines) answered answeredState :=
  Machine.run_of_exec (by decide)

/-- The answer is given to navl as a packet of the client. -/
theorem not_direction_law : ¬ ∀ (inst : Instances) (as : List Act) (s : Sys),
    system.Run (init inst) as s → s.DirectionLaw := by
  intro h
  have hlaw := h _ _ _ run_answered loopKey.swap 1 ⟨0, 0, 1, 0, [2], false⟩ (by decide)
  revert hlaw
  decide

theorem direction_law_decided :
    (Lawful tcpKey tcpKey.swap (direction tcpKey.swap tcpKey) ↔ Oriented tcpKey tcpKey.swap) ∧
      ∃ m, decidedState.Sent m ∧ m.info = 0 ∧ m.data = [2] ∧ m.dir = 1 := by
  have h := direction_law tcpKey tcpKey.swap (by decide) twoEngines decided decidedState run_decided
  exact ⟨h.1, h.2.2 0 7 [2] (some 0) 1 0 (by decide)⟩

end Sys
end DistDpi
