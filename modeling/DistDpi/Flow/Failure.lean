import DistDpi.Flow.Definitions

/-!
# Flow — failure

The exception handler of `Dequeue`, with the lock of the queue it clears.  `Queue::clear()` takes
`mutex_` and calls `pop()` for as long as the queue is not empty, and `pop()` takes `mutex_` too.
The mutex is not recursive: a thread that locks it again does not come back.

So the handler comes to its end where nothing waits when `clear()` gets the lock
(`handler_completes`), and the thread of the flow table's machine leaves its handler in the same
states (`clear_iff_handler`).
-/

namespace DistDpi

/-- Who holds `mutex_`. -/
inductive Owner (α : Type) where
  | engine
  /-- A thread in `push()`, before `queue_.push(item)`. -/
  | pushing (item : α)
  /-- A thread in `push()`, before `mlock.unlock()`. -/
  | pushed
  deriving DecidableEq, Repr

/-- Where the thread is in its handler: in `clear()`, in the `pop()` it calls, or behind it. -/
inductive HandlerPc where
  /-- Before `ftbl_->decrementNumQueues()`. -/
  | decrement
  /-- Before `mlock(mutex_)`. -/
  | clearLock
  /-- Before `while (!queue_.empty())`. -/
  | clearTest
  /-- In `pop()`, before `mlock(mutex_)`. -/
  | popLock
  /-- Before `while (queue_.empty())`. -/
  | popTest
  /-- In `cond_.wait(mlock)`. -/
  | popWait
  /-- Before `queue_.front()`. -/
  | popTake
  /-- Before `mlock.unlock()`. -/
  | clearUnlock
  /-- Before `cond_.notify_all()`. -/
  | clearNotify
  /-- Before `navl_fini`. -/
  | fini
  /-- Before `navl_close`. -/
  | close
  | ended
  /-- In `lock()` of a mutex it holds. -/
  | relocked
  deriving DecidableEq, Repr

/-- A thread in its handler, and its queue. -/
structure Handler (α : Type) where
  queue : List α
  owner : Option (Owner α)
  numQueues : Int
  pc : HandlerPc
  deriving DecidableEq, Repr

/-- The thread moves, or another one in `push()`. -/
inductive HandlerAct (α : Type) where
  | engine
  | lock (item : α)
  | push
  | unlock
  deriving DecidableEq, Repr

namespace Handler
variable {α : Type}

/-- `mlock(mutex_)`: the thread waits for the others, and for good for itself. -/
def acquire (s : Handler α) (pc : HandlerPc) : Option (Handler α) :=
  match s.owner with
  | none => some { s with owner := some .engine, pc }
  | some .engine => some { s with pc := .relocked }
  | some _ => none

/-- One statement of the thread. -/
def engineStep (s : Handler α) : Option (Handler α) :=
  match s.pc with
  | .decrement => some { s with numQueues := s.numQueues - 1, pc := .clearLock }
  | .clearLock => s.acquire .clearTest
  | .clearTest => some { s with pc := if s.queue.isEmpty then .clearUnlock else .popLock }
  | .popLock => s.acquire .popTest
  | .popTest =>
      if s.queue.isEmpty then some { s with owner := none, pc := .popWait }
      else some { s with pc := .popTake }
  -- awake again, with the lock
  | .popWait => if s.owner.isNone then some { s with owner := some .engine, pc := .popTest } else none
  -- `mlock` goes out of scope
  | .popTake => some { s with queue := s.queue.tail, owner := none, pc := .clearTest }
  | .clearUnlock => some { s with owner := none, pc := .clearNotify }
  | .clearNotify => some { s with pc := .fini }
  | .fini => some { s with pc := .close }
  | .close => some { s with pc := .ended }
  | .ended | .relocked => none

def step (s : Handler α) : HandlerAct α → Option (Handler α)
  | .engine => s.engineStep
  | .lock item => if s.owner.isNone then some { s with owner := some (.pushing item) } else none
  | .push =>
      match s.owner with
      | some (.pushing item) => some { s with queue := s.queue ++ [item], owner := some .pushed }
      | _ => none
  | .unlock =>
      match s.owner with
      | some .pushed => some { s with owner := none }
      | _ => none

end Handler

/-- The handler, and the threads that push meanwhile. -/
def handler (α : Type) : Machine (Handler α) (HandlerAct α) := ⟨Handler.step⟩

/-- It is the thread in its handler that moves. -/
def HandlerAct.own {α : Type} : HandlerAct α → Bool
  | .engine => true
  | _ => false

/-- The statements the handler has left, where nothing waits. -/
def HandlerPc.left : HandlerPc → Nat
  | .decrement => 7
  | .clearLock => 6
  | .clearTest => 5
  | .clearUnlock => 4
  | .clearNotify => 3
  | .fini => 2
  | .close => 1
  | .popLock | .popTest | .popWait | .popTake | .ended | .relocked => 0

/-- `clear()` has unlocked `mutex_`. -/
def HandlerPc.cleared : HandlerPc → Bool
  | .clearNotify | .fini | .close | .ended => true
  | _ => false

namespace Handler
variable {α : Type} {s s' s₀ : Handler α} {a : HandlerAct α} {as : List (HandlerAct α)}

/-- An exception has left the loop; the mutex is free, or another thread is in `push()`. -/
def Raised (s : Handler α) : Prop := s.pc = .decrement ∧ s.owner ≠ some .engine

/-- **The property.** -/
structure Sound (s : Handler α) : Prop where
  not_relocked : s.pc ≠ .relocked
  not_waiting : s.pc ≠ .popWait
  /-- The queue is empty when `clear()` lets go of it. -/
  emptied : s.pc = .clearUnlock → s.queue = []
  free : s.pc.cleared → s.owner ≠ some .engine
  /-- The thread goes on, or waits for another one that is in `push()`. -/
  goes : s.pc ≠ .ended →
    (s.engineStep).isSome ∨ s.pc = .clearLock ∧ s.owner ≠ none ∧ s.owner ≠ some .engine

/-- **The condition on a step**: nothing waits when `clear()` gets the lock. -/
def Clears (s : Handler α) (a : HandlerAct α) : Prop :=
  a = .engine → s.pc = .clearLock → s.owner = none → s.queue = []

instance [DecidableEq α] (s : Handler α) (a : HandlerAct α) : Decidable (s.Clears a) :=
  inferInstanceAs (Decidable (_ → _ → _ → _))

/-- Where the thread is, and what it holds there. -/
inductive Inv (s : Handler α) : Prop where
  | outside (hpc : s.pc = .decrement ∨ s.pc = .clearLock ∨ s.pc.cleared)
      (ho : s.owner ≠ some .engine)
  | inside (hpc : s.pc = .clearTest ∨ s.pc = .clearUnlock) (ho : s.owner = some .engine)
      (hq : s.queue = [])

/-! ### One step -/

theorem Inv.sound (h : s.Inv) : s.Sound := by
  cases h with
  | inside hpc ho hq =>
      rcases hpc with hpc | hpc
      · exact ⟨by simp [hpc], by simp [hpc], by simp [hpc], by simp [hpc, HandlerPc.cleared],
          fun _ => .inl (by simp [engineStep, hpc])⟩
      · exact ⟨by simp [hpc], by simp [hpc], fun _ => hq, by simp [hpc, HandlerPc.cleared],
          fun _ => .inl (by simp [engineStep, hpc])⟩
  | outside hpc ho =>
      refine ⟨?_, ?_, ?_, fun _ => ho, fun hne => ?_⟩
      · rintro k; simp [k, HandlerPc.cleared] at hpc
      · rintro k; simp [k, HandlerPc.cleared] at hpc
      · rintro k; simp [k, HandlerPc.cleared] at hpc
      · rcases hpc with hpc | hpc | hpc
        · exact .inl (by simp [engineStep, hpc])
        · cases hown : s.owner with
          | none => exact .inl (by simp [engineStep, hpc, acquire, hown])
          | some o => exact .inr ⟨hpc, by simp, hown ▸ ho⟩
        · cases hs : s.pc <;> simp_all [HandlerPc.cleared, engineStep]

/-- A statement of the thread is the next of those it has left. -/
theorem Inv.own (h : s.Inv) (hC : s.Clears .engine) (hs : s.engineStep = some s') :
    s'.Inv ∧ s'.pc.left + 1 = s.pc.left := by
  cases h with
  | outside hpc ho =>
      rcases hpc with hpc | hpc | hpc
      · simp only [engineStep, hpc, Option.some.injEq] at hs
        cases hs
        exact ⟨.outside (.inr (.inl rfl)) ho, by rw [hpc]; rfl⟩
      · -- the lock: of a queue that is empty, or it is not there yet
        simp only [engineStep, hpc, acquire] at hs
        cases hown : s.owner with
        | none =>
            rw [hown] at hs
            cases hs
            exact ⟨.inside (.inl rfl) rfl (hC rfl hpc hown), by rw [hpc]; rfl⟩
        | some o =>
            cases o with
            | engine => exact absurd hown ho
            | pushing | pushed => rw [hown] at hs; cases hs
      · cases hpc' : s.pc with
        | clearNotify | fini | close =>
            simp only [engineStep, hpc', Option.some.injEq] at hs
            cases hs
            exact ⟨.outside (.inr (.inr rfl)) ho, rfl⟩
        | ended => simp only [engineStep, hpc', reduceCtorEq] at hs
        | _ => simp [hpc', HandlerPc.cleared] at hpc
  | inside hpc ho hq =>
      rcases hpc with hpc | hpc
      · simp only [engineStep, hpc, hq, List.isEmpty_nil, if_true, Option.some.injEq] at hs
        cases hs
        exact ⟨.inside (.inr rfl) ho rfl, by rw [hpc]; rfl⟩
      · simp only [engineStep, hpc, Option.some.injEq] at hs
        cases hs
        exact ⟨.outside (.inr (.inr rfl)) nofun, by rw [hpc]; rfl⟩

/-- What the other threads do: not while the thread has the lock, and nothing to the thread. -/
theorem other_step (ha : a.own = false) (hs : s.step a = some s') :
    s.owner ≠ some .engine ∧ s'.owner ≠ some .engine ∧ s'.pc = s.pc := by
  cases a with
  | engine => cases ha
  | lock item =>
      simp only [step] at hs
      split at hs
      · rename_i hown
        cases hs
        rw [Option.isNone_iff_eq_none] at hown
        exact ⟨by simp [hown], nofun, rfl⟩
      · cases hs
  | push | unlock =>
      simp only [step] at hs
      split at hs
      · rename_i hown
        cases hs
        exact ⟨by simp [hown], nofun, rfl⟩
      · cases hs

/-- **The invariant**, and how far the thread has come. -/
theorem Inv.step (h : s.Inv) (hC : s.Clears a) (hs : s.step a = some s') :
    s'.Inv ∧ s'.pc.left + (if a.own then 1 else 0) = s.pc.left := by
  cases a with
  | engine => exact h.own hC hs
  | lock | push | unlock =>
      obtain ⟨ho, ho', hpc⟩ := other_step rfl hs
      refine ⟨?_, by rw [hpc]; rfl⟩
      cases h with
      | outside hpc' => exact .outside (hpc ▸ hpc') ho'
      | inside _ hown => exact absurd hown ho

/-! ### Where something waits -/

/-- The thread has the lock, and calls `pop()` or is about to. -/
def Caught (s : Handler α) : Prop :=
  s.owner = some .engine ∧ (s.pc = .clearTest ∧ s.queue ≠ [] ∨ s.pc = .popLock ∨ s.pc = .relocked)

theorem Caught.step (h : s.Caught) (hs : s.step a = some s') : s'.Caught := by
  obtain ⟨ho, hpc⟩ := h
  cases a with
  | engine =>
      simp only [Handler.step] at hs
      rcases hpc with ⟨hpc, hq⟩ | hpc | hpc
      · simp only [engineStep, hpc, List.isEmpty_iff, hq, if_false, Option.some.injEq] at hs
        cases hs
        exact ⟨ho, .inr (.inl rfl)⟩
      · simp only [engineStep, hpc, acquire, ho, Option.some.injEq] at hs
        cases hs
        exact ⟨rfl, .inr (.inr rfl)⟩
      · simp only [engineStep, hpc, reduceCtorEq] at hs
  | lock | push | unlock => exact absurd ho (other_step rfl hs).1

/-! ### Every run -/

theorem Raised.inv (h : s.Raised) : s.Inv := .outside (.inl h.1) h.2

theorem turns_along (h : (handler α).Run s₀ as s) (hI : s₀.Inv)
    (hC : (handler α).Along Clears s₀ as) : as.countP HandlerAct.own + s.pc.left = s₀.pc.left := by
  induction h with
  | refl => rw [List.countP_nil, Nat.zero_add]
  | @more s₀ s₁ s a as hs _ ih =>
      obtain ⟨hI₁, hleft⟩ := hI.step hC.1 hs
      have := ih hI₁ (hC.2 _ hs)
      rw [List.countP_cons]
      omega

/-- **The handler comes to its end** where nothing waits when `clear()` gets the lock: it neither
locks `mutex_` again nor waits on the condition, empties the queue, frees the mutex, and ends with
its seventh statement.  Where something waits it has `mutex_` for good. -/
theorem handler_completes (s₀ : Handler α) (h₀ : s₀.Raised) (as : List (HandlerAct α))
    (s : Handler α) (h : (handler α).Run s₀ as s) :
    ((handler α).Along Clears s₀ as →
      (handler α).Throughout Sound s₀ as ∧ as.countP HandlerAct.own + s.pc.left = 7) ∧
    (¬ s.Clears .engine → ∀ bs s', (handler α).Run s (.engine :: bs) s' →
      s'.owner = some .engine ∧ s'.pc.cleared = false) := by
  refine ⟨fun hC => ⟨?_, ?_⟩, fun hC bs s' hr => ?_⟩
  · exact h.throughout_of_along (fun s a s' hI hC hs => (Inv.step hI hC hs).1) (fun _ => Inv.sound)
      hC h₀.inv
  · have := turns_along h h₀.inv hC
    rwa [h₀.1] at this
  · obtain ⟨hpc, hown, hq⟩ : s.pc = .clearLock ∧ s.owner = none ∧ s.queue ≠ [] := by
      by_contra k
      exact hC fun _ hpc hown => by_contra fun hq => k ⟨hpc, hown, hq⟩
    cases hr with
    | more hs hr =>
        simp only [handler, Handler.step, engineStep, hpc, acquire, hown, Option.some.injEq] at hs
        cases hs
        have hc := hr.invariant (I := Caught) (fun s a s' hI hs => hI.step hs)
          ⟨rfl, .inl ⟨rfl, hq⟩⟩
        refine ⟨hc.1, ?_⟩
        rcases hc.2 with ⟨k, -⟩ | k | k <;> rw [k] <;> rfl

/-- Nothing waits when the exception comes. -/
def quiet : Handler ConnMetadata := ⟨[], none, 2, .decrement⟩

/-- A message does. -/
def busy : Handler ConnMetadata := ⟨[.exit], none, 2, .decrement⟩

/-- A message is pushed once `clear()` is done. -/
def pushedLate : List (HandlerAct ConnMetadata) :=
  [.engine, .engine, .engine, .engine, .lock .exit, .push, .unlock, .engine]

theorem handler_completes_quiet : (handler ConnMetadata).Throughout Sound quiet pushedLate :=
  ((handler_completes quiet ⟨rfl, by decide⟩ pushedLate _
    (Machine.run_of_exec (by decide))).1 (by decide)).1

/-- The fourth statement, the lock of `pop()`, is never left. -/
theorem not_handler_completes : ¬ ∀ s₀ : Handler ConnMetadata, s₀.Raised →
    ∀ as s, (handler ConnMetadata).Run s₀ as s → (handler ConnMetadata).Throughout Sound s₀ as := by
  intro h
  have hr := Machine.run_of_exec (show
    ((handler ConnMetadata).exec busy [.engine, .engine, .engine, .engine]).isSome by decide)
  exact ((h busy ⟨rfl, by decide⟩ _ _ hr).last hr).not_relocked (by decide)

end Handler

/-! ### In the flow table's machine -/

/-- **The thread leaves its handler** in the machine of the flow table exactly where the handler,
left alone, comes to its end. -/
theorem clear_iff_handler {s : Sys} {q : Nat} {e : Engine} {l : List ConnMetadata}
    (he : s.engines[q]? = some e) (hpc : e.pc = .clear) (hq : s.dpiEngineQueueList[q]? = some l) :
    (system.step s (.engine q .clear)).isSome ↔
      ∃ n s', (handler ConnMetadata).Run ⟨l, none, s.numQueues, .clearLock⟩
        (List.replicate n .engine) s' ∧ s'.pc = .ended := by
  have hstep : system.step s (.engine q .clear) =
      if l = [] then some (s.setPc q .failed) else none := by
    simp [system, Sys.step, Sys.engineStep, he, hpc, hq]
  rw [hstep]
  constructor
  · intro h
    split at h
    · rename_i hl
      subst hl
      exact ⟨6, _, Machine.run_iff_exec.mpr rfl, rfl⟩
    · cases h
  · rintro ⟨n, s', hr, hend⟩
    split
    · rfl
    · rename_i hl
      exfalso
      cases n with
      | zero => cases hr; cases hend
      | succ n =>
          cases hr with
          | more hs hr =>
              cases hs
              have hc := hr.invariant (I := Handler.Caught) (fun s a s' hI hs => hI.step hs)
                ⟨rfl, .inl ⟨rfl, hl⟩⟩
              rcases hc.2 with ⟨k, -⟩ | k | k <;> cases k.symm.trans hend

end DistDpi
