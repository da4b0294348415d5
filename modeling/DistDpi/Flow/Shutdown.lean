import DistDpi.Flow.Routing

/-!
# Flow — shutdown

`FlowTable::stop` pushes an exit message on the queues `0, 1, …` below `numQueues_`, while
`DPIEngine::stop` joins all threads.  A thread is told to exit exactly when its index is among
those the loop has passed, so all are, exactly when the threads from the index the loop ends at
have ended (`StopOk`).
-/

namespace DistDpi

/-- How many queues `stop` has pushed an exit message on, until it is done. -/
def StopPc.told : StopPc → Option Nat
  | .running | .joined | .cleaned => some 0
  | .pushing i => some i
  | .stopped => none

namespace Sys

variable {inst : Instances} {s s' : Sys} {a : Act} {q q' : Nat} {e : Engine} {m : ConnMetadata}

/-- An exit message is in queue `q`. -/
def ExitIn (s : Sys) (q : Nat) : Prop := ∃ m ∈ s.queue q, m.exitFlag = true

/-- **The property.**  Once `stop` has returned, every thread that has not ended has its exit
message: the joins of `DPIEngine::stop` will return. -/
def Told (s : Sys) : Prop :=
  s.stopPc = .stopped → ∀ (q : Nat) (e : Engine), s.engines[q]? = some e → e.pc.inLoop → s.ExitIn q

/-- **The condition on the shutdown.**  Where the loop of `stop` ends, the threads from its index
on have ended. -/
def StopOk (s : Sys) : Act → Prop
  | .stop =>
      match s.stopPc with
      | .pushing i => s.numQueues ≤ i → ∀ e ∈ s.engines.drop i, ¬ e.pc.inLoop
      | _ => True
  | _ => True

instance (s : Sys) : ∀ a, Decidable (s.StopOk a)
  | .stop =>
      match h : s.stopPc with
      | .pushing i =>
          decidable_of_iff (s.numQueues ≤ i → ∀ e ∈ s.engines.drop i, ¬ e.pc.inLoop)
            (by rw [StopOk, h])
      | .running | .joined | .cleaned | .stopped => isTrue (by rw [StopOk, h]; trivial)
  | .insert .. | .engine .. | .cleanup _ => isTrue trivial

/-- While `stop` is at work, of the threads in their loops those it has passed have an exit
message, and the others have none. -/
def StopInv (s : Sys) : Prop :=
  ∀ i, s.stopPc.told = some i → ∀ (q : Nat) (e : Engine), s.engines[q]? = some e → e.pc.inLoop →
    (s.ExitIn q ↔ q < i)

/-! ### Exit messages -/

theorem exitIn_congr (h : s'.queue q = s.queue q) : s'.ExitIn q ↔ s.ExitIn q := by
  rw [ExitIn, h, ExitIn]

theorem exitIn_emit (evs : List Event) : (s.emit evs).ExitIn q ↔ s.ExitIn q := Iff.rfl

theorem exitIn_push {i : Int} (hm : m.exitFlag = false) : (s.push i m).ExitIn q ↔ s.ExitIn q := by
  rw [ExitIn, ExitIn, queue_push]
  split
  · simp [hm]
  · simp

/-- **Exit messages and threads in their loops.**  A thread in its loop was there before the step,
and the step leaves its exit messages, unless it is the push that tells it. -/
theorem Change.exitIn (h : Change s a s') (hI : s.Inv inst) (he : s'.engines[q]? = some e)
    (hl : e.pc.inLoop) : (∃ e, s.engines[q]? = some e ∧ e.pc.inLoop) ∧
      (s'.ExitIn q ↔ s.ExitIn q ∨ a = .stop ∧ s.stopPc = .pushing q ∧ (q : Int) < s.numQueues) := by
  have same : s'.engines = s.engines → (s'.ExitIn q ↔ s.ExitIn q) →
      ¬ (a = .stop ∧ s.stopPc = .pushing q ∧ (q : Int) < s.numQueues) →
      (∃ e, s.engines[q]? = some e ∧ e.pc.inLoop) ∧
        (s'.ExitIn q ↔ s.ExitIn q ∨ a = .stop ∧ s.stopPc = .pushing q ∧ (q : Int) < s.numQueues) :=
    fun k kq hs => ⟨⟨e, k ▸ he, hl⟩, kq.trans (by rw [or_iff_left hs])⟩
  -- a thread that moves within its loop, or another one does
  have move : ∀ {s₁ : Sys} {q' : Nat} {e' : Engine} {pc : EnginePc} {act : EngineAct},
      a = .engine q' act → s' = s₁.setPc q' pc → s₁.engines = s.engines →
      s.engines[q']? = some e' → (pc.inLoop → e'.pc.inLoop) →
      (q ≠ q' ∨ pc.inLoop → (s'.ExitIn q ↔ s.ExitIn q)) →
      (∃ e, s.engines[q]? = some e ∧ e.pc.inLoop) ∧
        (s'.ExitIn q ↔ s.ExitIn q ∨ a = .stop ∧ s.stopPc = .pushing q ∧ (q : Int) < s.numQueues) := by
    rintro s₁ q' e' pc act rfl rfl k he' hpc kq
    have hs : ¬ (Act.engine q' act = .stop ∧ s.stopPc = .pushing q ∧ (q : Int) < s.numQueues) :=
      fun h => by cases h.1
    rw [or_iff_left hs]
    rcases engine_setPc_cases (s := s₁) (k ▸ he') he with ⟨rfl, rfl⟩ | ⟨hne, he⟩
    · exact ⟨⟨e', he', hpc hl⟩, kq (.inr hl)⟩
    · exact ⟨⟨e, k ▸ he, hl⟩, kq (.inl hne)⟩
  cases h with
  | dropped | ignored | cleanup => exact same rfl Iff.rfl fun h => by cases h.1
  | inserted =>
      refine same (by rw [emit_engines, push_engines, addNode_engines]) ?_ fun h => by cases h.1
      rw [exitIn_emit, exitIn_push rfl]
      rfl
  | queued =>
      refine same (by rw [emit_engines, push_engines, update_engines]) ?_ fun h => by cases h.1
      rw [exitIn_emit, exitIn_push rfl]
      rfl
  | stopCleanup hj => exact same rfl Iff.rfl fun h => by rw [hj] at h; cases h.2.1
  | stopMoved hm =>
      refine same rfl Iff.rfl fun h => ?_
      cases hm with
      | join hp | tell hp => rw [hp] at h; cases h.2.1
      | done hp hi => rw [hp] at h; cases h.2.1; exact hi h.2.2
  | @stopPush i hp hi =>
      have hq : q < s.dpiEngineQueueList.length := by
        rw [hI.queues, ← hI.engines]
        exact (List.getElem?_eq_some_iff.mp he).1
      refine ⟨⟨e, he, hl⟩, ?_⟩
      rw [show ExitIn { s.push i .exit with stopPc := .pushing (i + 1) } q ↔
        (s.push i .exit).ExitIn q from Iff.rfl, ExitIn, queue_push, hp]
      by_cases hqi : (q : Int) = i
      · cases Int.ofNat_inj.mp hqi
        rw [if_pos ⟨rfl, hq⟩]
        exact ⟨fun _ => .inr ⟨rfl, rfl, hi⟩,
          fun _ => ⟨.exit, List.mem_append_right _ (List.mem_singleton_self _), rfl⟩⟩
      · have hne : ¬ StopPc.pushing i = .pushing q := fun h => hqi (by cases h; rfl)
        rw [if_neg fun h => hqi h.1, List.append_nil]
        exact ⟨.inl, fun h => h.elim id fun h => absurd h.2.1 hne⟩
  | popped he' hpc hq' hm =>
      refine move rfl rfl rfl he' (fun _ => by rw [hpc]; rfl) fun _ => ?_
      rw [show ExitIn ((s.setQueue _ _).setPc _ _) q ↔ (s.setQueue _ _).ExitIn q from Iff.rfl, ExitIn,
        queue_setQueue (lt_of_getElem?_some hq')]
      split
      · rename_i h
        rw [ExitIn, h, queue_eq hq']
        simp [hm]
      · rfl
  | exits he' hpc hq' =>
      refine move rfl rfl rfl he' (fun h => by cases h) fun h => exitIn_congr ?_
      exact (queue_setQueue (lt_of_getElem?_some hq') q).trans
        (if_neg (h.resolve_right fun h => by cases h))
  | cleared he' hpc => exact move rfl rfl rfl he' (fun h => by cases h) fun _ => Iff.rfl
  | moved he' hm => exact move rfl rfl rfl he' (fun _ => hm.inLoop.1) fun _ => Iff.rfl
  | handleSet he' hpc | createFailed he' hpc | created he' hpc | called he' hpc
  | unfound he' hpc | reported he' hpc | noted he' hpc =>
      exact move rfl rfl rfl he' (fun _ => by rw [hpc]; rfl) fun _ => Iff.rfl
  | thrown he' hpc => exact move rfl rfl rfl he' (fun _ => hpc) fun _ => Iff.rfl

/-! ### The invariant and the property -/

theorem stopInv_init (inst : Instances) : (init inst).StopInv := by
  intro i hi q e he _
  cases hi
  refine ⟨fun ⟨m, hm, _⟩ => ?_, fun h => absurd h (Nat.not_lt_zero q)⟩
  have : m ∈ (init inst).pending q := List.mem_append_right _ hm
  rw [pending_init] at this
  cases this

theorem Change.stopPc_eq (h : Change s a s') (hs : a ≠ .stop) : s'.stopPc = s.stopPc := by
  cases h with
  | stopCleanup | stopPush | stopMoved => exact absurd rfl hs
  | _ => rfl

theorem Change.stopInv (h : Change s a s') (hI : s.Inv inst) (hS : s.StopInv) : s'.StopInv := by
  intro i hi q e' he' hl'
  obtain ⟨⟨e, he, hl⟩, hx⟩ := h.exitIn hI he' hl'
  rw [hx]
  by_cases hs : a = .stop
  · subst hs
    cases h with
    | stopCleanup hj =>
        cases hi
        rw [hS 0 (by rw [hj]; rfl) q e he hl, hj]
        exact or_iff_left fun h => by cases h.2.1
    -- the thread of queue `j` has its exit message now
    | @stopPush j hp hj =>
        cases hi
        rw [hS j (by rw [hp]; rfl) q e he hl, hp]
        constructor
        · rintro (h | ⟨-, h, -⟩)
          · exact Nat.lt_succ_of_lt h
          · cases h; exact Nat.lt_succ_self _
        · intro h
          rcases Nat.lt_succ_iff_lt_or_eq.mp h with h | rfl
          · exact .inl h
          · exact .inr ⟨rfl, rfl, hj⟩
    | stopMoved hm =>
        cases hm with
        | join hp | tell hp =>
            cases hi
            rw [hS 0 (by rw [hp]; rfl) q e he hl, hp]
            exact or_iff_left fun h => by cases h.2.1
        | done => cases hi
  · rw [or_iff_left fun h => hs h.1]
    exact hS i (h.stopPc_eq hs ▸ hi) q e he hl

/-- A step ends with all threads told, exactly when it meets the condition. -/
theorem Change.told (h : Change s a s') (hI : s.Inv inst) (hS : s.StopInv) (hT : s.Told) :
    s'.Told ↔ s.StopOk a := by
  by_cases hs : a = .stop
  · subst hs
    cases h with
    | stopCleanup hj => exact ⟨fun _ => by rw [StopOk, hj]; trivial, fun _ h => by cases h⟩
    | stopPush hp hj =>
        refine ⟨fun _ => ?_, fun _ h => by cases h⟩
        rw [StopOk, hp]
        exact fun h => absurd hj (by omega)
    | stopMoved hm =>
        cases hm with
        | join hp | tell hp => exact ⟨fun _ => by rw [StopOk, hp]; trivial, fun _ h => by cases h⟩
        -- at the end: told are the threads below `i`, the others are the condition's
        | @done i hp hi =>
            have told := hS i (by rw [hp]; rfl)
            rw [StopOk, hp]
            constructor
            · intro h _ e he hl
              obtain ⟨k, hk⟩ := List.mem_iff_getElem?.mp he
              rw [List.getElem?_drop] at hk
              have := (told _ e hk hl).mp (h rfl _ e hk hl)
              omega
            · intro h _ q e he hl
              refine (told q e he hl).mpr ?_
              by_contra hq
              have : e ∈ s.engines.drop i := by
                refine List.mem_iff_getElem?.mpr ⟨q - i, ?_⟩
                rw [List.getElem?_drop, show i + (q - i) = q by omega]
                exact he
              exact h (by omega) e this hl
  · have ok : s.StopOk a := by
      cases a with
      | stop => exact absurd rfl hs
      | insert | engine | cleanup => trivial
    refine ⟨fun _ => ok, fun _ hst q e' he' hl' => ?_⟩
    obtain ⟨⟨e, he, hl⟩, hx⟩ := h.exitIn hI he' hl'
    exact hx.mpr (.inl (hT (h.stopPc_eq hs ▸ hst) q e he hl))

/-- The condition is met where threads fail in order, each the last one counted. -/
theorem stopOk_of_inOrder {as : List Act} (h : system.Run (init inst) as s)
    (hC : system.Along (fun s a => ∀ q : Nat, a = .engine q .throw → (q : Int) + 1 = s.numQueues)
      (init inst) as) : system.Along StopOk (init inst) as := by
  refine h.along_mono (I := InOrder) (fun s a s' hR hC hs => (step_change hs).inOrder hR hC)
    (fun s a hR _ => ?_) hC (inOrder_init inst)
  cases a with
  | insert | engine | cleanup => trivial
  | stop =>
      rw [StopOk]
      split
      · intro hi e he hl
        obtain ⟨k, hk⟩ := List.mem_iff_getElem?.mp he
        rw [List.getElem?_drop] at hk
        have := (hR _ e hk).mpr (EnginePc.counted_of_inLoop hl)
        omega
      · trivial

end Sys
end DistDpi
