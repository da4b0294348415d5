import DistDpi.Flow.Verdict

/-!
# Flow — messages and erased entries

A message points into `conn_table`, so no entry may be erased while a message for it waits.
`pkt_ref_cnt` is to prevent that, but the first packet is not counted, the callback sets the
count to zero whatever is still queued, the test of an idle entry leaves it out, and
`cleanupFlows(true)` erases everything.  What remains is a condition on when the cleanups are
made (`SafeOp`), and the exact one.

The steps here are whole operations (`Op`), one iteration of a thread's loop among them.
-/

namespace DistDpi

/-- The operations: `InsertOrUpdateFlows`, one iteration of `Dequeue` with what navl answers,
`cleanupFlows(false)` and `FlowTable::stop`. -/
inductive Op where
  | insert (key : ConnKey) (pktString : Bytes) (filter : Nat) (dir : UInt8) (now : Int)
  | dequeue (queue : Nat) (as : List EngineAct)
  | cleanup (now : Int)
  | stop
  deriving DecidableEq, Repr

namespace Sys

variable {inst : Instances} {s s' : Sys} {a : Act} {q : Nat} {n : Node} {m : ConnMetadata}

/-- The statements of an operation.  `stop` makes one push for each of the `numQueues_`. -/
def acts (s : Sys) : Op → List Act
  | .insert key pktString filter dir now => [.insert key pktString filter dir now]
  | .dequeue queue as => as.map (.engine queue)
  | .cleanup now => [.cleanup now]
  | .stop => List.replicate (s.numQueues.toNat + 4) .stop

/-- No thread is within an iteration, and `stop` has not begun or is done. -/
def AtRest (s : Sys) : Prop :=
  (∀ e ∈ s.engines, e.pc = .pop ∨ e.pc = .exited ∨ e.pc = .failed) ∧
    (s.stopPc = .running ∨ s.stopPc = .stopped)

instance (s : Sys) : Decidable s.AtRest := inferInstanceAs (Decidable (_ ∧ _))

end Sys

/-- The flow table and the engines, at the grain of whole operations. -/
def operations : Machine Sys Op := system.blocks Sys.acts fun s => s.AtRest

namespace Sys

variable {inst : Instances} {s s' : Sys} {a : Act} {q : Nat} {n : Node} {m : ConnMetadata}

/-- The messages waiting in the DPI queues, without the exit messages. -/
def inQueues (s : Sys) : List ConnMetadata :=
  s.dpiEngineQueueList.flatten.filter fun m => !m.exitFlag

/-- **The property.**  The pointers of the messages waiting are to entries of the table. -/
def NoDangling (s : Sys) : Prop :=
  ∀ m ∈ s.inQueues, (∃ it ∈ s.connTable, it.addr = m.key) ∧ ∃ it ∈ s.connTable, it.addr = m.info

/-- **The condition.**  `cleanupFlows(false)` finds no message waiting for an entry that is decided
or idle, and `stop` finds no message waiting. -/
def SafeOp (s : Sys) : Op → Prop
  | .cleanup now => ∀ m ∈ s.inQueues, ∀ it ∈ s.connTable, it.addr = m.info →
      ¬ it.second.classState.Decided ∧ ¬ idle (toInt now) it
  | .stop => s.inQueues = []
  | .insert .. | .dequeue .. => True

instance (s : Sys) : ∀ op, Decidable (s.SafeOp op)
  | .cleanup now => inferInstanceAs (Decidable (∀ m ∈ s.inQueues, ∀ it ∈ s.connTable,
      it.addr = m.info → ¬ it.second.classState.Decided ∧ ¬ idle (toInt now) it))
  | .stop => inferInstanceAs (Decidable (s.inQueues = []))
  | .insert .. | .dequeue .. => isTrue trivial

/-! ### Messages at rest -/

/-- The messages that have not been dealt with point to entries of the table. -/
def Linked (s : Sys) : Prop :=
  ∀ q m, m ∈ s.pending q → m.exitFlag = false → ∃ it ∈ s.connTable, it.addr = m.info

theorem mem_inQueues : m ∈ s.inQueues ↔ m.exitFlag = false ∧ ∃ q, m ∈ s.queue q := by
  simp only [inQueues, List.mem_filter, List.mem_flatten, Bool.not_eq_true', queue]
  constructor
  · rintro ⟨⟨l, hl, hm⟩, hx⟩
    obtain ⟨q, hq⟩ := List.mem_iff_getElem?.mp hl
    exact ⟨hx, q, by rw [hq]; exact hm⟩
  · rintro ⟨hx, q, hm⟩
    cases hq : s.dpiEngineQueueList[q]? with
    | none => rw [hq] at hm; cases hm
    | some l => exact ⟨⟨l, List.mem_of_getElem? hq, by rw [hq] at hm; exact hm⟩, hx⟩

theorem AtRest.pending (h : s.AtRest) (q : Nat) : s.pending q = s.queue q := by
  have : s.held q = none := by
    cases he : s.engines[q]? with
    | none => rw [held, he]; rfl
    | some e =>
        rw [held_eq he]
        rcases h.1 e (List.mem_of_getElem? he) with h | h | h <;> rw [h] <;> rfl
  rw [Sys.pending, this]
  rfl

/-- At rest the messages that wait are all there are. -/
theorem AtRest.noDangling_iff (h : s.AtRest) (hI : s.Inv inst) : s.NoDangling ↔ s.Linked := by
  constructor
  · intro hD q m hm hx
    rw [h.pending] at hm
    exact (hD m (mem_inQueues.mpr ⟨hx, q, hm⟩)).2
  · intro hL m hm
    obtain ⟨hx, q, hm⟩ := mem_inQueues.mp hm
    have hm : m ∈ s.pending q := by rw [h.pending]; exact hm
    obtain ⟨it, hit, ha⟩ := hL q m hm hx
    exact ⟨⟨it, hit, ha.trans (hI.message q m hm hx).1.symm⟩, it, hit, ha⟩

/-! ### The steps that erase nothing -/

/-- What a step leaves in the table keeps its address. -/
theorem Change.linked (h : Change s a s') (hI : s.Inv inst) (hcl : ∀ now, a ≠ .cleanup now)
    (hst : a ≠ .stop) (hL : s.Linked) : s'.Linked := by
  have stays : ∀ {x : NodeId}, (∃ it ∈ s.connTable, it.addr = x) → ∃ it ∈ s'.connTable,
      it.addr = x := by
    rintro x ⟨it, hit, rfl⟩
    rcases (h.nodes hI).forward_live hit with ⟨it', hit', k⟩ | he
    · exact ⟨it', hit', k.evolves.addr⟩
    · have same : s'.erased = s.erased := by
        cases h with
        | cleanup => exact absurd rfl (hcl _)
        | stopCleanup => exact absurd rfl hst
        | _ => rfl
      exact absurd (List.mem_map_of_mem (same ▸ he)) (hI.table.not_erased hit)
  intro q m hm hx
  rcases h.pending q with hp | ⟨m', hp, hq⟩
  · exact stays (hL q m (hp.subset hm) hx)
  · rw [hq, List.mem_append, List.mem_singleton] at hm
    rcases hm with hm | rfl
    · exact stays (hL q m hm hx)
    · rcases hp with ⟨rfl, -⟩ | ⟨it, hit, -, ha, -⟩
      · exact absurd rfl hst
      · exact ⟨it, hit, ha.symm⟩

/-! ### `cleanupFlows(false)` -/

theorem linked_cleanup (hI : s.Inv inst) (hR : s.AtRest) (hL : s.Linked) {now : Int}
    (h : Change s (.cleanup now) s') : s'.Linked ↔ s.SafeOp (.cleanup now) := by
  cases h with
  | cleanup =>
      have expired_iff : ∀ it ∈ s.connTable, (!expired (toInt now) it) = true ↔
          ¬ it.second.classState.Decided ∧ ¬ idle (toInt now) it := fun it hit => by
        rw [← finished_iff hI (mem_nodes.mpr (.inl hit)), expired]
        simp
      constructor
      · intro h m hm it hit ha
        obtain ⟨hx, q, hm⟩ := mem_inQueues.mp hm
        rw [← hR.pending] at hm
        obtain ⟨it', hit', ha'⟩ := h q m hm hx
        obtain ⟨hit', hk⟩ := List.mem_filter.mp hit'
        cases hI.table.eq_of_addr (mem_nodes.mpr (.inl hit')) (mem_nodes.mpr (.inl hit))
          (ha'.trans ha.symm)
        exact (expired_iff it hit).mp hk
      · intro h q m hm hx
        have hm : m ∈ s.pending q := hm
        obtain ⟨it, hit, ha⟩ := hL q m hm hx
        rw [hR.pending] at hm
        exact ⟨it, List.mem_filter.mpr ⟨hit, (expired_iff it hit).mpr
          (h m (mem_inQueues.mpr ⟨hx, q, hm⟩) it hit ha)⟩, ha⟩

/-! ### `stop` -/

/-- The steps of `stop` leave the messages, exit messages apart; from the first on it has begun,
and past `cleanupFlows(true)` the table is empty. -/
theorem Change.stop (h : Change s .stop s') :
    (∀ q m, m.exitFlag = false → (m ∈ s'.pending q ↔ m ∈ s.pending q)) ∧
      s'.stopPc ≠ .running ∧
      (s.stopPc = .running ∨ s.stopPc = .joined ∨ s.connTable = [] →
        s'.stopPc = .joined ∨ s'.connTable = []) := by
  cases h with
  | stopCleanup => exact ⟨fun _ _ _ => Iff.rfl, by simp, fun _ => .inr rfl⟩
  | @stopPush i hp =>
      refine ⟨fun q m hx => ?_, by simp, fun h => .inr ?_⟩
      · rw [show Sys.pending { s.push i .exit with stopPc := .pushing (i + 1) } q =
          (s.push i .exit).pending q from rfl, pending_push]
        split
        · rw [List.mem_append, List.mem_singleton, or_iff_left]
          rintro rfl
          cases hx
        · rw [List.append_nil]
      · rw [hp] at h
        exact h.resolve_left (fun h => by cases h) |>.resolve_left (fun h => by cases h)
  | stopMoved hm =>
      refine ⟨fun _ _ _ => Iff.rfl, ?_, fun h => ?_⟩
      · cases hm <;> simp
      · cases hm with
        | join => exact .inl rfl
        | tell hp | done hp =>
            rw [hp] at h
            exact .inr (h.resolve_left (fun h => by cases h) |>.resolve_left (fun h => by cases h))

theorem linked_stop (hR : s.AtRest) (hR' : s'.AtRest) {k : Nat}
    (h : system.Run s (List.replicate (k + 1) .stop) s') : s'.Linked ↔ s.SafeOp .stop := by
  cases h with
  | @more _ s₁ _ _ _ h t =>
      have first := (step_change h).stop
      have begun : s.stopPc = .running := by
        refine hR.2.resolve_right fun hp => ?_
        simp only [system, step, stop, hp] at h
        cases h
      -- the rest of `stop`: only exit messages are pushed, and the table is cleared once
      obtain ⟨same, hp, hdone⟩ := t.invariant_along (C := fun _ a => a = .stop)
        (I := fun u => (∀ q m, m.exitFlag = false → (m ∈ u.pending q ↔ m ∈ s.pending q)) ∧
          u.stopPc ≠ .running ∧ (u.stopPc = .joined ∨ u.connTable = []))
        (fun u a u' hu ha hs => by
          subst ha
          obtain ⟨same, hp, hdone⟩ := (step_change hs).stop
          exact ⟨fun q m hx => (same q m hx).trans (hu.1 q m hx), hp, hdone (.inr hu.2.2)⟩)
        (Machine.along_of_forall fun _ ha => List.eq_of_mem_replicate ha)
        ⟨first.1, first.2.1, first.2.2 (.inl begun)⟩
      -- `stop` has run to its end, and erased every entry
      have empty : s'.connTable = [] := by
        refine hdone.resolve_left fun hj => ?_
        rcases hR'.2 with h | h <;> rw [hj] at h <;> cases h
      constructor
      · intro hL
        refine List.eq_nil_iff_forall_not_mem.mpr fun m hm => ?_
        obtain ⟨hx, q, hm⟩ := mem_inQueues.mp hm
        rw [← hR.pending] at hm
        obtain ⟨it, hit, -⟩ := hL q m ((same q m hx).mpr hm) hx
        rw [empty] at hit
        cases hit
      · intro hS q m hm hx
        rw [same q m hx, hR.pending] at hm
        have : m ∈ s.inQueues := mem_inQueues.mpr ⟨hx, q, hm⟩
        rw [show s.inQueues = [] from hS] at this
        cases this

/-! ### Every operation, every run -/

theorem linked_op {op : Op} (hI : s.Inv inst) (hR : s.AtRest) (hR' : s'.AtRest) (hL : s.Linked)
    (h : system.Run s (s.acts op) s') : s'.Linked ↔ s.SafeOp op := by
  have kept : (∀ a ∈ s.acts op, (∀ now, a ≠ .cleanup now) ∧ a ≠ .stop) → s'.Linked := fun hk =>
    (h.invariant_along (I := fun s => s.Inv inst ∧ s.Linked)
      (fun _ _ _ k hC hs => ⟨(step_change hs).inv k.1, (step_change hs).linked k.1 hC.1 hC.2 k.2⟩)
      (Machine.along_of_forall hk) ⟨hI, hL⟩).2
  cases op with
  | insert =>
      refine iff_of_true (kept fun a ha => ?_) trivial
      cases List.mem_singleton.mp ha
      exact ⟨fun _ h => (by cases h), fun h => by cases h⟩
  | dequeue =>
      refine iff_of_true (kept fun a ha => ?_) trivial
      obtain ⟨act, -, rfl⟩ := List.mem_map.mp ha
      exact ⟨fun _ h => (by cases h), fun h => by cases h⟩
  | cleanup =>
      cases h with
      | more h t =>
          cases t
          exact linked_cleanup hI hR hL (step_change h)
  | stop => exact linked_stop hR hR' h

theorem atRest_init (inst : Instances) : (init inst).AtRest := by
  refine ⟨fun e he => ?_, .inl rfl⟩
  obtain ⟨x, -, rfl⟩ := List.mem_map.mp he
  exact .inl rfl

/-- **No message dangles, and the exact condition for it.**  At every moment of a run every message
waiting points to an entry of the table, exactly when the cleanups of the run meet `SafeOp`. -/
theorem noDangling_iff_safeOp {ops : List Op} (h : operations.Run (init inst) ops s) :
    operations.Throughout NoDangling (init inst) ops ↔
      operations.Along SafeOp (init inst) ops := by
  refine Machine.throughout_iff_along (I := fun s => s.Inv inst ∧ s.AtRest) ?_ ?_ h
    ⟨inv_init inst, atRest_init inst⟩ fun _ hm => ?_
  · rintro s op s' ⟨hI, -⟩ - hs
    obtain ⟨hr, hR'⟩ := Machine.blocks_step.mp hs
    exact ⟨hr.invariant (fun _ _ _ k hs => (step_change hs).inv k) hI, of_decide_eq_true hR'⟩
  · rintro s op s' ⟨hI, hR⟩ hD hs
    obtain ⟨hr, hR'⟩ := Machine.blocks_step.mp hs
    have hR' : s'.AtRest := of_decide_eq_true hR'
    have hI' : s'.Inv inst := hr.invariant (fun _ _ _ k hs => (step_change hs).inv k) hI
    rw [hR'.noDangling_iff hI']
    exact linked_op hI hR hR' ((hR.noDangling_iff hI).mp hD) hr
  · obtain ⟨-, q, hm⟩ := mem_inQueues.mp hm
    rw [← (atRest_init inst).pending, pending_init] at hm
    cases hm

/-- A connection opened, decided and cleaned up, nothing of it waiting. -/
def inTurn : List Op :=
  [.insert tcpKey [1] 3 1 100, .dequeue 0 [.pop, .testState, .setHandle, .create true],
    .insert tcpKey.swap [2] 0 0 101, .cleanup 105,
    .dequeue 0 [.pop, .testState, .guard, .classify,
      .callback ⟨.classified, 0, some (5, 90), some [72, 84]⟩ 102], .cleanup 106, .stop]

theorem noDangling_iff_safeOp_inTurn :
    operations.Throughout NoDangling (init twoEngines) inTurn :=
  (noDangling_iff_safeOp (Machine.run_of_exec (by decide))).mpr (by decide)

/-- The entry of a first packet, which nothing counts, idles out with the packet still queued. -/
theorem not_noDangling_idle : ¬ ∀ (inst : Instances) (ops : List Op) (s : Sys),
    operations.Run (init inst) ops s → s.NoDangling := by
  intro h
  have hD := h twoEngines [.insert tcpKey [1] 3 1 100, .cleanup 111] _
    (Machine.run_of_exec (by decide))
  obtain ⟨⟨it, hit, -⟩, -⟩ := hD ⟨0, 0, 0, 0, [1], false⟩ (by decide)
  have empty : ((operations.exec (init twoEngines) [.insert tcpKey [1] 3 1 100, .cleanup 111]).get
    (by decide)).connTable = [] := by decide
  rw [empty] at hit
  cases hit

end Sys
end DistDpi
