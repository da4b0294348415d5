import DistDpi.Flow.Dangling
import DistDpi.Flow.Shutdown

/-!
# Flow — draining

That the engine threads come to an end with what waits for them, whatever the order in which they
move, and `FlowTable::stop` with them.

* `engines_drain`: without more packets the threads stop, and then nothing waits in the queue of one
  that has not ended.
* `shutdown_completes`: with `stop` they end, all of them, so that `DPIEngine::stop` joins them.
  The conditions are that of `Told`, and that the table is cleared when nothing waits any more,
  which the source does not see to.

Both are about states where no message that waits is for an erased entry (`Backed`), since a thread
that follows a pointer to one does anything.
-/

namespace DistDpi

/-- The statements that a thread has left for its message, at most. -/
def EnginePc.rank : EnginePc → Nat
  | .testState _ => 4
  | .guard _ => 3
  | .setHandle _ | .classify _ => 2
  | .create _ | .callback _ => 1
  | .pop | .clear | .failed | .exited => 0

/-- No part of a failure. -/
def EngineAct.Ordinary : EngineAct → Prop
  | .throw | .clear => False
  | _ => True

instance : ∀ a : EngineAct, Decidable a.Ordinary
  | .throw | .clear => isFalse id
  | .pop | .testState | .setHandle | .create _ | .guard | .classify | .callback .. | .classifyFail =>
      isTrue trivial

/-- A statement of a thread that does not fail, or of `FlowTable::stop`. -/
def Act.Settles : Act → Prop
  | .engine _ act => act.Ordinary
  | .stop => True
  | .insert .. | .cleanup _ => False

instance : ∀ a : Act, Decidable a.Settles
  | .engine _ act => inferInstanceAs (Decidable act.Ordinary)
  | .stop => isTrue trivial
  | .insert .. | .cleanup _ => isFalse id

namespace Sys

variable {inst : Instances} {s s' : Sys} {a : Act} {act : EngineAct} {q : Nat} {e : Engine}
  {m : ConnMetadata} {pc : EnginePc}

/-- The statements that the threads have left, at most: five for a message that waits. -/
def work (s : Sys) : Nat :=
  5 * (s.dpiEngineQueueList.map List.length).sum + (s.engines.map fun e => e.pc.rank).sum

/-- Those that `FlowTable::stop` has left, with what its messages make for the threads. -/
def stopWork (s : Sys) : Nat :=
  match s.stopPc with
  | .running => 6 * s.numQueues.toNat + 4
  | .joined => 6 * s.numQueues.toNat + 3
  | .cleaned => 6 * s.numQueues.toNat + 2
  | .pushing i => 6 * (s.numQueues - i).toNat + 1
  | .stopped => 0

/-- The thread of queue `q` has not ended. -/
def Looping (s : Sys) (q : Nat) : Prop := ∃ e, s.engines[q]? = some e ∧ e.pc.inLoop

instance (s : Sys) (q : Nat) : Decidable (s.Looping q) :=
  match h : s.engines[q]? with
  | none => isFalse fun ⟨_, he, _⟩ => by rw [h] at he; cases he
  | some e =>
      if hl : e.pc.inLoop then isTrue ⟨e, h, hl⟩
      else isFalse fun ⟨_, he, hl'⟩ => by rw [h] at he; cases he; exact hl hl'

/-- What waits for a thread that has not ended is for entries of the table. -/
def Backed (s : Sys) : Prop :=
  ∀ q < s.engines.length, s.Looping q → ∀ m ∈ s.pending q, m.exitFlag = false →
    ∃ it ∈ s.connTable, it.addr = m.info

instance (s : Sys) : Decidable s.Backed :=
  inferInstanceAs (Decidable (∀ q < s.engines.length, s.Looping q → ∀ m ∈ s.pending q,
    m.exitFlag = false → ∃ it ∈ s.connTable, it.addr = m.info))

/-- **The condition on the shutdown.**  `cleanupFlows(true)` is called when nothing waits for a
thread that has not ended. -/
def Calm (s : Sys) (a : Act) : Prop :=
  a = .stop → s.stopPc = .joined → ∀ q < s.engines.length, s.Looping q → ∀ m ∈ s.pending q,
    m.exitFlag = true

instance (s : Sys) (a : Act) : Decidable (s.Calm a) :=
  inferInstanceAs (Decidable (a = .stop → s.stopPc = .joined → ∀ q < s.engines.length,
    s.Looping q → ∀ m ∈ s.pending q, m.exitFlag = true))

/-! ### What is left to do -/

theorem work_setPc (he : s.engines[q]? = some e) :
    (s.setPc q pc).work + e.pc.rank = s.work + pc.rank := by
  have hset : (s.setPc q pc).engines = s.engines.set q { e with pc } := by
    rw [setPc_engines, List.modify_eq_set_getElem?, he]
    rfl
  have hsum := Machine.sum_set_add (fun e : Engine => e.pc.rank) s.engines he { e with pc }
  rw [work, work, hset, setPc_dpiEngineQueueList]
  dsimp only at hsum
  omega

theorem work_setQueue {l l' : List ConnMetadata} (hq : s.dpiEngineQueueList[q]? = some l) :
    (s.setQueue q l').work + 5 * l.length = s.work + 5 * l'.length := by
  have hsum := Machine.sum_set_add List.length s.dpiEngineQueueList hq l'
  rw [work, work, setQueue_dpiEngineQueueList, setQueue_engines]
  omega

theorem work_push (i : Int) : (s.push i m).work ≤ s.work + 5 := by
  rw [work, work, push_engines, push_dpiEngineQueueList]
  split
  · rw [List.modify_eq_set_getElem?]
    cases hl : s.dpiEngineQueueList[i.toNat]? with
    | none => exact Nat.le_add_right _ 5
    | some l =>
        have hsum := Machine.sum_set_add List.length s.dpiEngineQueueList hl (l ++ [m])
        rw [List.length_append, List.length_singleton] at hsum
        change 5 * ((s.dpiEngineQueueList.set i.toNat (l ++ [m])).map List.length).sum + _ ≤ _
        omega
  · exact Nat.le_add_right _ 5

theorem Moves.rank_lt {t : List Node} {pc pc' : EnginePc} (h : Moves t pc act pc') :
    pc'.rank < pc.rank := by
  cases h <;> simp [EnginePc.rank]

/-- **A statement of a thread** leaves less to do. -/
theorem Change.work_lt (h : Change s (.engine q act) s') (ho : act.Ordinary) :
    s'.work < s.work := by
  -- a statement from a state with the same threads and queues
  have move : ∀ {s₁ : Sys} {e : Engine} {pc : EnginePc}, s₁.work = s.work →
      s₁.engines[q]? = some e → pc.rank < e.pc.rank → (s₁.setPc q pc).work < s.work := by
    intro s₁ e pc hw he hlt
    have hset : (s₁.setPc q pc).work + e.pc.rank = s₁.work + pc.rank := work_setPc he
    omega
  cases h with
  | @popped _ e m rest he hpc hq hm =>
      have hqueue : (s.setQueue q rest).work + 5 * (m :: rest).length =
          s.work + 5 * rest.length := work_setQueue hq
      have hpc' : ((s.setQueue q rest).setPc q (.testState m)).work + e.pc.rank =
          (s.setQueue q rest).work + (EnginePc.testState m).rank := work_setPc he
      rw [hpc] at hpc'
      simp only [List.length_cons, EnginePc.rank] at hqueue hpc'
      omega
  | @exits _ e m rest he hpc hq hm =>
      have hqueue : (s.setQueue q rest).work + 5 * (m :: rest).length =
          s.work + 5 * rest.length := work_setQueue hq
      have hpc' : ((s.setQueue q rest).setPc q .exited).work + e.pc.rank =
          (s.setQueue q rest).work + EnginePc.exited.rank := work_setPc he
      rw [hpc] at hpc'
      simp only [List.length_cons, EnginePc.rank] at hqueue hpc'
      omega
  | moved he hm => exact move rfl he hm.rank_lt
  | handleSet he hpc | createFailed he hpc | created he hpc | called he hpc | unfound he hpc
  | reported he hpc | noted he hpc =>
      refine move rfl he ?_
      rw [hpc]
      exact Nat.lt_succ_self _
  | thrown | cleared => exact ho.elim

/-- The number of queues that are told. -/
theorem Change.stopWork_lt (h : Change s .stop s') :
    s'.work + s'.stopWork < s.work + s.stopWork := by
  cases h with
  | stopCleanup hp =>
      rw [stopWork, stopWork, hp]
      exact Nat.add_lt_add_left (Nat.lt_succ_self _) _
  | @stopPush i hp hi =>
      have hw := work_push (s := s) (m := .exit) i
      rw [stopWork, stopWork, hp]
      change (s.push i .exit).work + (6 * (s.numQueues - (i + 1 : Nat)).toNat + 1) < _
      dsimp only
      omega
  | stopMoved hm =>
      cases hm with
      | join hp =>
          rw [stopWork, stopWork, hp]
          exact Nat.add_lt_add_left (Nat.lt_succ_self _) _
      | tell hp =>
          rw [stopWork, stopWork, hp]
          change s.work + (6 * (s.numQueues - (0 : Nat)).toNat + 1) < _
          dsimp only
          omega
      | done hp =>
          rw [stopWork, stopWork, hp]
          exact Nat.lt_add_of_pos_right (Nat.succ_pos _)

theorem Change.settles_lt (h : Change s a s') (hs : a.Settles) :
    s'.work + s'.stopWork < s.work + s.stopWork := by
  cases a with
  | engine q act =>
      have hn : s'.numQueues = s.numQueues := h.numQueues_eq fun q hq => by
        cases hq
        exact hs
      have hp : s'.stopPc = s.stopPc := h.stopPc_eq nofun
      have hw := h.work_lt hs
      rw [stopWork, stopWork, hn, hp]
      omega
  | stop => exact h.stopWork_lt
  | insert | cleanup => exact hs.elim

/-! ### Threads that can go on -/

theorem Goes.inLoop_back {pc pc' : EnginePc} (h : Goes s q pc act pc') (hl : pc'.inLoop) :
    pc.inLoop := by
  cases h with
  | popped | exits | handleSet | created | called | returned => rfl
  | moved hm => exact hm.inLoop.1
  | thrown hpc => exact hpc
  | cleared => cases hl

theorem Change.looping_back (h : Change s a s') (hl : s'.Looping q) : s.Looping q := by
  obtain ⟨e, he, hl⟩ := hl
  rcases h.engine_back he with he | ⟨act, e₀, -, he₀, hg⟩
  · exact ⟨e, he, hl⟩
  · exact ⟨e₀, he₀, hg.inLoop_back hl⟩

/-- What is settled leaves the messages that wait for entries of the table. -/
theorem Change.backed (h : Change s a s') (hI : s.Inv inst) (hs : a.Settles) (hc : s.Calm a)
    (hB : s.Backed) : s'.Backed := by
  intro q hq hl m hm hx
  have hl := h.looping_back hl
  rw [h.engines_length] at hq
  have hmem : m ∈ s.pending q := by
    cases a with
    | engine q' act => exact (h.shown_quiet shows_held (.inl ⟨q', act, rfl⟩) q).subset hm
    | stop => exact (h.stop.1 q m hx).1 hm
    | insert | cleanup => exact hs.elim
  obtain ⟨it, hit, ha⟩ := hB q hq hl m hmem hx
  rcases (h.nodes hI).forward_live hit with ⟨it', hit', k⟩ | he
  · exact ⟨it', hit', k.evolves.addr.trans ha⟩
  · have same : s'.erased = s.erased := by
      cases h with
      -- nothing has been waiting
      | stopCleanup hj => exact absurd (hc rfl hj q hq hl m hmem) (by rw [hx]; decide)
      | cleanup => exact hs.elim
      | _ => rfl
    exact absurd (List.mem_map_of_mem (same ▸ he)) (hI.table.not_erased hit)

/-- A thread that has a message goes on. -/
theorem enabled_of_held (hI : s.Inv inst) (hB : s.Backed) (he : s.engines[q]? = some e)
    (hm : e.pc.held = some m) :
    ∃ act : EngineAct, act.Ordinary ∧ system.step s (.engine q act) ≠ none := by
  have hheld : s.held q = some m := (held_eq he).trans hm
  have hx := hI.held q m hheld
  have hmem := held_mem_pending hheld
  have hkey := (hI.message q m hmem hx).1
  obtain ⟨it, hd⟩ : ∃ it, ConnTable.deref s.connTable m.info = some it := by
    obtain ⟨it, hit, ha⟩ := hB q (List.getElem?_eq_some_iff.1 he).1
      ⟨e, he, EnginePc.inLoop_of_held hm⟩ m hmem hx
    refine Option.isSome_iff_exists.1 (List.find?_isSome.2 ⟨it, hit, ?_⟩)
    exact beq_iff_eq.2 ha
  cases hpc : e.pc with
  | pop | clear | failed | exited => rw [hpc] at hm; cases hm
  | testState m' =>
      rw [hpc] at hm
      cases hm
      exact ⟨.testState, trivial, by simp [system, step, engineStep, he, hpc, hd]⟩
  | setHandle m' =>
      rw [hpc] at hm
      cases hm
      exact ⟨.setHandle, trivial, by simp [system, step, engineStep, he, hpc, hd]⟩
  | create m' =>
      rw [hpc] at hm
      cases hm
      refine ⟨.create false, trivial, ?_⟩
      simp [system, step, engineStep, he, hpc, connCreate, hkey, hd]
  | guard m' =>
      rw [hpc] at hm
      cases hm
      exact ⟨.guard, trivial, by simp [system, step, engineStep, he, hpc, hd]⟩
  | classify m' =>
      rw [hpc] at hm
      cases hm
      exact ⟨.classify, trivial, by simp [system, step, engineStep, he, hpc, hd]⟩
  | callback m' => exact ⟨.classifyFail, trivial, by simp [system, step, engineStep, he, hpc]⟩

/-- So does one for which a message waits. -/
theorem enabled_of_queue (he : s.engines[q]? = some e) (hpc : e.pc = .pop) (hq : s.queue q ≠ []) :
    system.step s (.engine q .pop) ≠ none := by
  cases hl : s.dpiEngineQueueList[q]? with
  | none => exact absurd (by rw [queue, hl]; rfl) hq
  | some l =>
      cases l with
      | nil => exact absurd (queue_eq hl) hq
      | cons m rest => simp [system, step, engineStep, he, hpc, popQueue, hl]

/-- No thread can go on by a statement that is no part of a failure. -/
def Still (s : Sys) : Prop :=
  ∀ (q : Nat) (act : EngineAct), act.Ordinary → system.step s (.engine q act) = none

/-- Where no thread can go on, those that have not ended wait for a message. -/
theorem Still.waits (h : s.Still) (hI : s.Inv inst) (hB : s.Backed) (he : s.engines[q]? = some e)
    (hl : e.pc.inLoop) : e.pc = .pop ∧ s.queue q = [] := by
  have hnone : e.pc.held = none := by
    by_contra hsome
    obtain ⟨m, hm⟩ := Option.ne_none_iff_exists'.1 hsome
    obtain ⟨act, ho, hact⟩ := enabled_of_held hI hB he hm
    exact hact (h q act ho)
  have hpc : e.pc = .pop := by
    cases hpc : e.pc with
    | pop => rfl
    | clear | failed | exited => rw [hpc] at hl; cases hl
    | _ => rw [hpc] at hnone; cases hnone
  refine ⟨hpc, ?_⟩
  by_contra hq
  exact enabled_of_queue he hpc hq (h q .pop trivial)

/-- With nothing waiting, the condition on the shutdown is met. -/
theorem calm_of_waits (hwait : ∀ (q : Nat) (e : Engine), s.engines[q]? = some e → e.pc.inLoop →
    e.pc = .pop ∧ s.queue q = []) : s.Calm .stop := by
  rintro - - q - ⟨e, he, hl⟩ m hm
  obtain ⟨hpc, hq⟩ := hwait q e he hl
  rw [pending, held_eq he, hpc, hq] at hm
  cases hm

/-- `stop` goes on until it has returned. -/
theorem stopPc_of_stop (h : s.stop = none) : s.stopPc = .stopped := by
  cases hpc : s.stopPc with
  | stopped => rfl
  | running | joined | cleaned => rw [Sys.stop, hpc] at h; cases h
  | pushing i =>
      rw [Sys.stop, hpc] at h
      dsimp only at h
      split at h <;> cases h

/-- Who has been told does not wait. -/
theorem Told.ended (hT : s.Told) (hstop : s.stopPc = .stopped) (hwait : ∀ (q : Nat) (e : Engine),
    s.engines[q]? = some e → e.pc.inLoop → e.pc = .pop ∧ s.queue q = []) :
    ∀ e ∈ s.engines, ¬ e.pc.inLoop := by
  intro e he hl
  obtain ⟨q, he⟩ := List.mem_iff_getElem?.1 he
  obtain ⟨m, hm, -⟩ := hT hstop q e he hl
  rw [(hwait q e he hl).2] at hm
  cases hm

/-- A packet waits for the first thread. -/
def oneWaiting : Sys :=
  (system.exec (init twoEngines) (opened.take 1)).get (by decide)

/-- The thread has made the connection. -/
def noneWaiting : Sys := (system.exec oneWaiting (opened.drop 1)).get (by decide)

theorem run_oneWaiting : system.Run (init twoEngines) (opened.take 1) oneWaiting :=
  Machine.run_of_exec (by decide)

theorem run_noneWaiting : system.Run oneWaiting (opened.drop 1) noneWaiting :=
  Machine.run_of_exec (by decide)

/-- `FlowTable::stop`, and the threads. -/
def closing : List Act := List.replicate 6 .stop ++ [.engine 0 .pop, .engine 1 .pop]

def closed : Sys := (system.exec noneWaiting closing).get (by decide)

theorem closed_still : closed.Still := by
  rintro (_ | _ | q) act -
  · cases act <;> rfl
  · cases act <;> rfl
  · rfl

theorem run_closed : system.Run noneWaiting closing closed :=
  Machine.run_of_exec (by decide)

end Sys
end DistDpi
