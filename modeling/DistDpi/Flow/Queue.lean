import DistDpi.Flow.Messages
import DistDpi.Support.Waiting

/-!
# Flow — queues

`Queue.h`, with its mutex and its condition variable, and any number of threads.  The queues of the
flow table's machine are these queues at the bodies of their calls (`push_body`, `popQueue_body`), and
this is an order in which the calls can be taken (`queue_linearizable`).

`push` notifies one thread, without the mutex, and `pop` none.  That is enough: no item waits in the
queue while all threads wait for one (`queue_drains`).  `clear` is the exception: on a queue that is
not empty it takes the mutex twice, and nothing moves after that (`clear_stuck`).
-/

namespace DistDpi

/-- The calls of `Queue<T>`. -/
inductive QueueOp (T : Type) where
  | push (item : T)
  | pop
  | clear
  deriving DecidableEq, Repr

/-- `Queue<T>`: `queue_` behind `mutex_`, with `cond_`. -/
def queueMonitor (T : Type) : Monitor (List T) (QueueOp T) (Option T) where
  body
    | .push item, queue_ => .done none (queue_ ++ [item])
    | .pop, [] => .wait
    | .pop, item :: queue_ => .done (some item) queue_
    | .clear, [] => .done none []
    -- the `pop()` in the loop locks `mutex_` again
    | .clear, _ :: _ => .relock
  signal
    | .push _ => .one
    | .pop => .silent
    | .clear => .all

/-- What a call puts in. -/
def QueueOp.pushed {T : Type} : QueueOp T × Option T → Option T
  | (.push item, _) => some item
  | _ => none

/-- What a call takes out. -/
def QueueOp.popped {T : Type} : QueueOp T × Option T → Option T
  | (.pop, r) => r
  | _ => none

/-- A thread waits in `pop`; a second one pushes, and wakes it. -/
def pushToWaiting : List (Monitor.Act (QueueOp Nat)) :=
  [.call 0 .pop, .run 0, .run 0, .call 1 (.push 7), .run 1, .run 1, .run 1, .run 1, .wake 1 0]

/-- Where this leads. -/
def pushedToWaiting : Monitor.State (List Nat) (QueueOp Nat) (Option Nat) :=
  ((queueMonitor Nat).machine.exec (Monitor.start [] 2) pushToWaiting).get (by decide)

theorem run_pushToWaiting :
    (queueMonitor Nat).machine.Run (Monitor.start [] 2) pushToWaiting pushedToWaiting :=
  Machine.run_of_exec (by decide)

section
variable {T : Type} {threads : Nat} {as : List (Monitor.Act (QueueOp T))}
  {s s' : Monitor.State (List T) (QueueOp T) (Option T)} {queue_ queue' : List T} {item : T}
  {l : List (QueueOp T × Option T)}

/-! ### The order of the calls -/

/-- What has been put in is what has been taken out and what is there, in this order. -/
theorem serial_fifo (h : (queueMonitor T).Serial [] l queue_) :
    l.filterMap QueueOp.pushed = l.filterMap QueueOp.popped ++ queue_ := by
  induction h with
  | nil => rfl
  | @concat res₁ res' l op r h hb ih =>
      rw [List.filterMap_append, List.filterMap_append, ih]
      cases op with
      | push item =>
          cases hb
          simp [QueueOp.pushed, QueueOp.popped]
      | pop =>
          cases res₁ <;> cases hb
          simp [QueueOp.pushed, QueueOp.popped]
      | clear =>
          cases res₁ <;> cases hb
          simp only [List.append_nil]
          rfl

/-- **A FIFO queue**, for any number of threads in any interleaving.  The bodies of the calls have a
serial order, in which what has been pushed is what has been popped followed by what is in the queue.
Each thread's calls have their body in them, with the result that they return.  And a thread that
is past the test of `pop` has an item to take. -/
theorem queue_linearizable
    (h : (queueMonitor T).machine.Run (Monitor.start [] threads) as s) :
    let history := (queueMonitor T).history (Monitor.start [] threads) as
    let calls := history.filterMap Monitor.Event.commit
    (queueMonitor T).Serial [] calls s.res ∧
    calls.filterMap QueueOp.pushed = calls.filterMap QueueOp.popped ++ s.res ∧
    (∀ t, ∃ calls : List (QueueOp T × Option T), history.filter (·.thread = t) =
      calls.flatMap (Monitor.callEvents t) ++ s.pending t) ∧
    ∀ (t : Nat) (woken : Bool), s.threads[t]? = some (.inside .pop woken) → s.res ≠ [] := by
  refine ⟨Monitor.linearizable h, serial_fifo (Monitor.linearizable h),
    Monitor.history_thread h, fun t woken ht hempty => ?_⟩
  obtain ⟨r, res, hb⟩ := (Monitor.reachable h).tested t .pop woken ht
  rw [hempty] at hb
  cases hb

theorem queue_linearizable_pushToWaiting : pushedToWaiting.res = [7] :=
  ((queue_linearizable run_pushToWaiting).2.1).symm

/-! ### The waiting threads -/

/-- The items are what `pop` waits for. -/
theorem queueMonitor_counted : (queueMonitor T).Counted List.length (· matches .pop) where
  wait op queue_ h := by
    cases op with
    | pop => cases queue_ <;> cases h; exact ⟨rfl, rfl⟩
    | push item => cases h
    | clear => cases queue_ <;> cases h
  relock op queue_ h := by
    cases op with
    | pop => cases queue_ <;> cases h
    | push item => cases h
    | clear => rfl
  done op queue_ r queue' h hall := by
    cases op with
    | push item =>
        cases h
        exact Nat.le_of_eq List.length_append
    | pop => cases queue_ <;> cases h; exact Nat.le_refl _
    | clear => exact absurd rfl hall

/-- A thread that waits, waits in `pop`. -/
theorem blocked_pop {op : QueueOp T} (hS : (queueMonitor T).Served List.length (· matches .pop) s)
    (h : Monitor.Pc.blocked op ∈ s.threads) : op = .pop := by
  have hw := hS.waiting _ h op rfl
  cases op with
  | pop => rfl
  | push | clear => cases hw

/-- **No item is left behind.**  Where threads are blocked in `pop`, there is a call that will wake all
of them, or no more items than threads that are awake for one, or are to be woken.  From there on, if
nothing else is called, all comes to rest in a bounded number of steps, however the threads are
scheduled; and at rest, where no thread has locked `mutex_` twice, each call has returned, or is a
`pop` that is blocked on the empty queue. -/
theorem queue_drains (h : (queueMonitor T).machine.Run (Monitor.start [] threads) as s) :
    ((∃ pc ∈ s.threads, pc.isBlocked) → (∃ pc ∈ s.threads, pc.notifiesAll (queueMonitor T)) ∨
      s.res.length ≤ s.threads.countP (Monitor.Pc.token (queueMonitor T))) ∧
    ∀ as' s', (queueMonitor T).machine.Run s as' s' → (∀ a ∈ as', a.internal) →
      as'.length + s'.measure ≤ s.measure ∧
      ((queueMonitor T).Settled s' → (∀ pc ∈ s'.threads, pc.isRelocked = false) →
        ∀ pc ∈ s'.threads, (∃ r, pc = .returned r) ∨ pc = .blocked .pop ∧ s'.res = []) := by
  refine ⟨(queueMonitor_counted.noLostWakeup h).served, fun as' s' h' has => ?_⟩
  have hI := Monitor.reachable (h.trans h')
  have hS := queueMonitor_counted.noLostWakeup (h.trans h')
  refine ⟨Monitor.run_length_le h' has, fun hset hre pc hpc => ?_⟩
  rcases hset.resting hI hre pc hpc with hret | ⟨op, rfl⟩
  · exact .inl hret
  · have hzero := hset.served hI hre hS ⟨_, hpc, rfl⟩
    exact .inr ⟨by rw [blocked_pop hS hpc], List.length_eq_zero_iff.1 hzero⟩

/-- The thread that was woken takes the item, and all is at rest. -/
theorem queue_drains_pushToWaiting : ∃ s, (queueMonitor Nat).machine.Run pushedToWaiting
    [.run 0, .run 0, .run 0, .run 0] s ∧ 4 + s.measure ≤ pushedToWaiting.measure :=
  have h : (queueMonitor Nat).machine.Run pushedToWaiting [.run 0, .run 0, .run 0, .run 0] _ :=
    Machine.run_of_exec (by decide)
  ⟨_, h, ((queue_drains run_pushToWaiting).2 _ _ h (by simp [Monitor.Act.internal])).1⟩

/-- A thread that tests in `clear` a queue with items locks `mutex_` twice, and has it for good: nothing
is pushed or popped any more. -/
theorem clear_stuck {t : Nat} {woken : Bool} (hI : (queueMonitor T).Inv s)
    (ht : s.threads[t]? = some (.test .clear woken)) (hitems : s.res ≠ [])
    (h : (queueMonitor T).machine.Run s (.run t :: as) s') :
    s'.threads[t]? = some (.relocked .clear) ∧ s'.res = s.res := by
  cases h with
  | @more _ s₁ _ _ _ hs h =>
      have hstep : (queueMonitor T).runStep s t = some (s.goto t (.relocked .clear)) := by
        cases hres : s.res with
        | nil => exact absurd hres hitems
        | cons item rest => simp only [Monitor.runStep, ht, hres, queueMonitor]
      cases hs.symm.trans hstep
      have hI' := hI.step (Monitor.change_of_runStep hstep)
      exact hI'.stuck ((Monitor.getElem?_goto ht).trans (if_pos rfl)) h

end

/-! ### The queues of the flow table -/

namespace Sys
variable {s s' : Sys} {q : Nat} {m : ConnMetadata}

/-- A push on a DPI queue is the body of `push`. -/
theorem push_body (hq : q < s.dpiEngineQueueList.length) (m : ConnMetadata) :
    (queueMonitor ConnMetadata).body (.push m) (s.queue q) = .done none ((s.push q m).queue q) := by
  rw [queue_push, if_pos ⟨rfl, hq⟩]
  rfl

/-- What `Dequeue` pops is the result of the body of `pop`. -/
theorem popQueue_body (h : s.popQueue q = some (m, s')) :
    (queueMonitor ConnMetadata).body .pop (s.queue q) = .done (some m) (s'.queue q) := by
  unfold popQueue at h
  split at h
  · rename_i m' rest hl
    cases h
    have hset := queue_setQueue (l := rest) (lt_of_getElem?_some hl) q
    rw [if_pos rfl] at hset
    rw [queue_eq hl]
    exact congrArg (Outcome.done (some m)) hset.symm
  · cases h

/-- Where there is nothing to pop, `pop` waits. -/
theorem popQueue_waits (hq : q < s.dpiEngineQueueList.length) (h : s.popQueue q = none) :
    (queueMonitor ConnMetadata).body .pop (s.queue q) = .wait := by
  have hl := List.getElem?_eq_getElem hq
  unfold popQueue at h
  rw [queue_eq hl]
  cases hres : s.dpiEngineQueueList[q] with
  | nil => rfl
  | cons m rest =>
      rw [hl, hres] at h
      cases h

end Sys

end DistDpi
