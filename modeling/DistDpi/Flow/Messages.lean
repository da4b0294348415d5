import DistDpi.Flow.Steps

/-!
# Flow — messages

What a step does to the messages (`queue`, `held`, `pending`) and to the threads.  Only three
branches push; every other step leaves a sublist of what was pending (`Change.pending`).
-/

namespace DistDpi

theorem EnginePc.inLoop_of_held {pc : EnginePc} {m : ConnMetadata} (h : pc.held = some m) :
    pc.inLoop := by
  cases pc <;> first | rfl | cases h

namespace Sys

variable {s s' : Sys} {a : Act} {q q' : Nat} {e : Engine} {m : ConnMetadata} {pc : EnginePc}

/-! ### Threads -/

theorem engines_setPc (he : s.engines[q]? = some e) (q' : Nat) :
    (s.setPc q pc).engines[q']? = if q' = q then some { e with pc } else s.engines[q']? := by
  rw [setPc_engines, List.getElem?_modify]
  by_cases h : q = q'
  · subst h; simp [he]
  · simp [h, Ne.symm h]

/-- The thread of queue `q` after it moves to `pc`: itself, or another unchanged. -/
theorem engine_setPc_cases {e' : Engine} (he : s.engines[q]? = some e)
    (h : (s.setPc q pc).engines[q']? = some e') :
    (q' = q ∧ e' = { e with pc }) ∨ (q' ≠ q ∧ s.engines[q']? = some e') := by
  rw [engines_setPc he] at h
  split at h
  · exact .inl ⟨‹_›, (Option.some.inj h).symm⟩
  · exact .inr ⟨‹_›, h⟩

theorem held_eq (he : s.engines[q]? = some e) : s.held q = e.pc.held := by
  rw [held, he, Option.bind_some]

theorem held_setPc (he : s.engines[q]? = some e) (q' : Nat) :
    (s.setPc q pc).held q' = if q' = q then pc.held else s.held q' := by
  rw [held, engines_setPc he]
  split <;> rfl

/-- Where a statement takes the thread of queue `q`. -/
inductive Goes (s : Sys) (q : Nat) : EnginePc → EngineAct → EnginePc → Prop where
  | popped {m : ConnMetadata} {rest : List ConnMetadata}
      (hq : s.dpiEngineQueueList[q]? = some (m :: rest)) (hm : m.exitFlag = false) :
      Goes s q .pop .pop (.testState m)
  | exits {m : ConnMetadata} {rest : List ConnMetadata}
      (hq : s.dpiEngineQueueList[q]? = some (m :: rest)) (hm : m.exitFlag = true) :
      Goes s q .pop .pop .exited
  | moved {pc pc' : EnginePc} {act : EngineAct} (hm : Moves s.connTable pc act pc') :
      Goes s q pc act pc'
  | handleSet {m : ConnMetadata} : Goes s q (.setHandle m) .setHandle (.create m)
  | created {m : ConnMetadata} {ok : Bool} : Goes s q (.create m) (.create ok) .pop
  | called {m : ConnMetadata} : Goes s q (.classify m) .classify (.callback m)
  | returned {m : ConnMetadata} {r : Verdict} {now : Int} :
      Goes s q (.callback m) (.callback r now) .pop
  | thrown {pc : EnginePc} (hpc : pc.inLoop) : Goes s q pc .throw .clear
  | cleared : Goes s q .clear .clear .failed

/-- **The threads of a step**: they stay where they are, or one of them goes on by a statement of
its own. -/
theorem Change.threads (h : Change s a s') :
    (s'.engines = s.engines ∧ ∀ q act, a ≠ .engine q act) ∨
    ∃ q act e pc, a = .engine q act ∧ s.engines[q]? = some e ∧ Goes s q e.pc act pc ∧
      s'.engines = (s.setPc q pc).engines := by
  cases h with
  | dropped | inserted | ignored | queued | cleanup | stopCleanup | stopPush | stopMoved =>
      exact .inl ⟨rfl, nofun⟩
  | popped he hpc hq hm => exact .inr ⟨_, _, _, _, rfl, he, hpc ▸ .popped hq hm, rfl⟩
  | exits he hpc hq hm => exact .inr ⟨_, _, _, _, rfl, he, hpc ▸ .exits hq hm, rfl⟩
  | moved he hm => exact .inr ⟨_, _, _, _, rfl, he, .moved hm, rfl⟩
  | handleSet he hpc => exact .inr ⟨_, _, _, _, rfl, he, hpc ▸ .handleSet, rfl⟩
  | createFailed he hpc | created he hpc => exact .inr ⟨_, _, _, _, rfl, he, hpc ▸ .created, rfl⟩
  | called he hpc => exact .inr ⟨_, _, _, _, rfl, he, hpc ▸ .called, rfl⟩
  | unfound he hpc | reported he hpc | noted he hpc =>
      exact .inr ⟨_, _, _, _, rfl, he, hpc ▸ .returned, rfl⟩
  | thrown he hpc => exact .inr ⟨_, _, _, _, rfl, he, .thrown hpc, rfl⟩
  | cleared he hpc => exact .inr ⟨_, _, _, _, rfl, he, hpc ▸ .cleared, rfl⟩

/-- Where a thread stands after a step it stood before, or a statement of its own took it there. -/
theorem Change.engine_back (h : Change s a s') (he : s'.engines[q]? = some e) :
    s.engines[q]? = some e ∨
      ∃ act e₀, a = .engine q act ∧ s.engines[q]? = some e₀ ∧ Goes s q e₀.pc act e.pc := by
  rcases h.threads with ⟨k, -⟩ | ⟨q', act, e', pc, rfl, he', hg, k⟩
  · exact .inl (k ▸ he)
  · rw [k] at he
    rcases engine_setPc_cases he' he with ⟨rfl, rfl⟩ | ⟨-, he⟩
    · exact .inr ⟨act, e', rfl, he', hg⟩
    · exact .inl he

/-- The steps of the others leave a thread where it is. -/
theorem Change.engine_of_ne (h : Change s a s') (hne : ∀ act, a ≠ .engine q act) :
    s'.engines[q]? = s.engines[q]? := by
  rcases h.threads with ⟨k, -⟩ | ⟨q', act, e', pc, rfl, he', -, k⟩
  · rw [k]
  · rw [k, engines_setPc he', if_neg]
    rintro rfl
    exact hne act rfl

/-- The threads stay, each with its handle. -/
theorem Change.engine (h : Change s a s') (he : s.engines[q]? = some e) :
    ∃ pc, s'.engines[q]? = some { e with pc } := by
  rcases h.threads with ⟨k, -⟩ | ⟨q', act, e', pc, rfl, he', -, k⟩
  · exact ⟨e.pc, by rw [k, he]⟩
  · rw [k, engines_setPc he']
    by_cases hq : q = q'
    · subst hq
      cases he.symm.trans he'
      exact ⟨pc, if_pos rfl⟩
    · rw [if_neg hq]
      exact ⟨e.pc, he⟩

theorem Change.engines_length (h : Change s a s') : s'.engines.length = s.engines.length := by
  cases h <;> simp

theorem throw_change (h : Change s (.engine q .throw) s') : ∃ e, s.engines[q]? = some e ∧
    e.pc.inLoop ∧ s' = { s with numQueues := s.numQueues - 1 }.setPc q .clear := by
  cases h with
  | moved _ hm => rcases hm.act with h | h | h <;> cases h
  | thrown he hpc => exact ⟨_, he, hpc, rfl⟩

theorem Change.numQueues_eq (h : Change s a s') (ha : ∀ q, a ≠ .engine q .throw) :
    s'.numQueues = s.numQueues := by
  cases h with
  | thrown => exact absurd rfl (ha _)
  | _ => rfl

/-! ### Queues -/

theorem queue_setQueue {l : List ConnMetadata} (hq : q < s.dpiEngineQueueList.length) (q' : Nat) :
    (s.setQueue q l).queue q' = if q' = q then l else s.queue q' := by
  simp only [queue, setQueue_dpiEngineQueueList, List.getElem?_set]
  by_cases h : q = q'
  · subst h; simp [hq]
  · simp [h, Ne.symm h]

theorem lt_of_getElem?_some {l : List ConnMetadata} (h : s.dpiEngineQueueList[q]? = some l) :
    q < s.dpiEngineQueueList.length :=
  (List.getElem?_eq_some_iff.mp h).1

theorem queue_eq {l : List ConnMetadata} (h : s.dpiEngineQueueList[q]? = some l) :
    s.queue q = l := by
  rw [queue, h, Option.getD_some]

theorem queue_push (i : Int) (q : Nat) :
    (s.push i m).queue q =
      s.queue q ++ if (q : Int) = i ∧ q < s.dpiEngineQueueList.length then [m] else [] := by
  simp only [queue, push_dpiEngineQueueList]
  by_cases h : (q : Int) = i
  · subst h
    by_cases hq : q < s.dpiEngineQueueList.length
    · simp [hq]
    · simp [hq]
  · have hne : ∀ hi : 0 ≤ i, i.toNat ≠ q := fun hi hq => h (by omega)
    by_cases hi : 0 ≤ i
    · simp [h, hi, hne hi]
    · simp [h, hi]

theorem held_push (i : Int) (q : Nat) : (s.push i m).held q = s.held q := rfl

theorem pending_push (i : Int) (q : Nat) :
    (s.push i m).pending q =
      s.pending q ++ if (q : Int) = i ∧ q < s.dpiEngineQueueList.length then [m] else [] := by
  rw [pending, held_push, queue_push, ← List.append_assoc, pending]

/-! ### Messages on their way

`pending` counts the message a thread holds up to its last statement; other views let go of it
earlier.  What they have in common: a `pop` shows the message, no later statement brings it back.
-/

/-- The message that `f` shows in the thread's hands, before those waiting. -/
def shown (f : EnginePc → Option ConnMetadata) (s : Sys) (q : Nat) : List ConnMetadata :=
  ((s.engines[q]?).bind fun e => f e.pc).toList ++ s.queue q

/-- `f` shows the message from the `pop` to some later statement. -/
structure Shows (f : EnginePc → Option ConnMetadata) : Prop where
  popped : ∀ m, f (.testState m) = some m
  without : ∀ pc, pc.held = none → f pc = none
  move : ∀ t a pc pc', Moves t pc a pc' → f pc' = f pc ∨ f pc' = none
  handle : ∀ m, f (.create m) = f (.setHandle m) ∨ f (.create m) = none
  called : ∀ m, f (.callback m) = f (.classify m) ∨ f (.callback m) = none

theorem Moves.held {t : List Node} {act : EngineAct} {pc pc' : EnginePc} (h : Moves t pc act pc') :
    pc'.held = pc.held ∨ pc'.held = none := by
  cases h with
  | stateNull | stateSome | guardPass => exact .inl rfl
  | guardFail | noVerdict => exact .inr rfl

theorem shows_held : Shows EnginePc.held where
  popped _ := rfl
  without _ h := h
  move _ _ _ _ h := h.held
  handle _ := .inl rfl
  called _ := .inl rfl

variable {f : EnginePc → Option ConnMetadata}

theorem shown_eq (he : s.engines[q]? = some e) : s.shown f q = (f e.pc).toList ++ s.queue q := by
  rw [shown, he, Option.bind_some]

@[simp] theorem shown_emit (evs : List Event) (q : Nat) :
    (s.emit evs).shown f q = s.shown f q := rfl

@[simp] theorem shown_addNode (n : Node) (q : Nat) : (s.addNode n).shown f q = s.shown f q := rfl

@[simp] theorem shown_update (x : NodeId) (g : ConnInfo → ConnInfo) (q : Nat) :
    (s.update x g).shown f q = s.shown f q := rfl

theorem shown_push (i : Int) (q : Nat) :
    (s.push i m).shown f q =
      s.shown f q ++ if (q : Int) = i ∧ q < s.dpiEngineQueueList.length then [m] else [] := by
  rw [shown, queue_push, ← List.append_assoc, shown, push_engines]

/-- The head of what is shown after a thread has moved. -/
theorem shown_setPc (he : s.engines[q]? = some e) (q' : Nat) :
    (s.setPc q pc).shown f q' =
      if q' = q then (f pc).toList ++ s.queue q else s.shown f q' := by
  rw [shown, engines_setPc he]
  split
  · rename_i hq
    subst hq
    rfl
  · rfl

/-- A thread that moves keeps its message or drops it. -/
theorem shown_setPc_sublist (he : s.engines[q]? = some e) (h : f pc = f e.pc ∨ f pc = none)
    (q' : Nat) : ((s.setPc q pc).shown f q').Sublist (s.shown f q') := by
  rw [shown_setPc he]
  split
  · rename_i hq
    subst hq
    rw [shown_eq he]
    rcases h with h | h
    · rw [h]
    · rw [h]
      exact List.sublist_append_right _ _
  · exact List.Sublist.refl _

/-- A `pop` moves the head of the queue into the thread's hands. -/
theorem shown_popped (hf : Shows f) {rest : List ConnMetadata}
    (he : s.engines[q]? = some e) (hpc : e.pc = .pop)
    (hq : s.dpiEngineQueueList[q]? = some (m :: rest)) (q' : Nat) :
    ((s.setQueue q rest).setPc q (.testState m)).shown f q' = s.shown f q' := by
  have hl := fun q' => queue_setQueue (s := s) (l := rest) (lt_of_getElem?_some hq) q'
  rw [shown_setPc (s := s.setQueue q rest) he, hl, if_pos rfl, hf.popped]
  split
  · rename_i h
    subst h
    rw [shown_eq he, hpc, hf.without _ rfl, queue_eq hq]
    rfl
  · rw [shown, hl, if_neg ‹_›]
    rfl

/-- A thread that ends drops what it holds, and takes at most from its own queue. -/
theorem shown_setQueue_sublist {l : List ConnMetadata} (he : s.engines[q]? = some e)
    (hl : l.Sublist (s.queue q)) (hpc : f pc = none) (hq : q < s.dpiEngineQueueList.length)
    (q' : Nat) : (((s.setQueue q l).setPc q pc).shown f q').Sublist (s.shown f q') := by
  have hs := fun q' => queue_setQueue (s := s) (l := l) hq q'
  rw [shown_setPc (s := s.setQueue q l) he, hs, if_pos rfl, hpc]
  split
  · rename_i h
    subst h
    exact hl.trans (List.sublist_append_right _ _)
  · rw [shown, hs, if_neg ‹_›]
    exact List.Sublist.refl _

/-! ### Every step -/

/-- What a step pushes on queue `q`: the exit message of `stop`, or one that points to a node of
that queue, which is either new or has its navl connection. -/
def Pushes (s : Sys) (a : Act) (s' : Sys) (q : Nat) (m : ConnMetadata) : Prop :=
  a = .stop ∧ m = .exit ∨ ∃ n ∈ s'.connTable, m.key = n.addr ∧ m.info = n.addr ∧ m.exitFlag = false ∧
    n.second.queue = q ∧ (n.addr = s.nextNode ∨ n.second.dpiState ≠ none)

/-- The threads and the cleanup thread push nothing. -/
theorem Change.shown_quiet (hf : Shows f) (h : Change s a s')
    (ha : (∃ q act, a = .engine q act) ∨ ∃ now, a = .cleanup now) (q : Nat) :
    (s'.shown f q).Sublist (s.shown f q) := by
  -- a statement of a thread, from a state `s₁` that differs from `s` neither in threads nor queues
  have move : ∀ {s₁ : Sys} {q' : Nat} {e : Engine} {pc : EnginePc}, s₁.engines = s.engines →
      s₁.dpiEngineQueueList = s.dpiEngineQueueList → s.engines[q']? = some e →
      (f pc = f e.pc ∨ f pc = none) → ((s₁.setPc q' pc).shown f q).Sublist (s.shown f q) := by
    intro s₁ q' e pc k kq he hpc
    have hs : s₁.shown f q = s.shown f q := by rw [Sys.shown, k, queue, kq]; rfl
    exact hs ▸ shown_setPc_sublist (s := s₁) (k ▸ he) hpc q
  cases h with
  | dropped | inserted | ignored | queued | stopCleanup | stopPush | stopMoved =>
      rcases ha with ⟨_, _, k⟩ | ⟨_, k⟩ <;> cases k
  | cleanup => exact List.Sublist.refl _
  | popped he hpc hq hm => exact shown_popped hf he hpc hq q ▸ List.Sublist.refl _
  | exits he hpc hq hm =>
      refine shown_setQueue_sublist he ?_ (hf.without _ rfl) (lt_of_getElem?_some hq) q
      rw [queue_eq hq]
      exact List.sublist_cons_self _ _
  | moved he hm => exact move rfl rfl he (hf.move _ _ _ _ hm)
  | @handleSet q' e m it he hpc hd => exact move rfl rfl he (hpc ▸ hf.handle m)
  | @called q' e m it he hpc hd => exact move rfl rfl he (hpc ▸ hf.called m)
  | createFailed he | created he | unfound he | reported he | noted he | thrown he | cleared he =>
      exact move rfl rfl he (.inr (hf.without _ rfl))

/-- **The messages of a step**: it pushes one message on one queue, or leaves a sublist of what
was shown. -/
theorem Change.shown (hf : Shows f) (h : Change s a s') (q : Nat) :
    (s'.shown f q).Sublist (s.shown f q) ∨
      ∃ m, s.Pushes a s' q m ∧ s'.shown f q = s.shown f q ++ [m] := by
  have k := h
  cases h with
  | dropped | ignored | stopCleanup | stopMoved => exact .inl (List.Sublist.refl _)
  -- the three steps that push: a first packet, a later one, `stop`
  | @inserted key data filter dir now hn hk =>
      rw [shown_emit, shown_push, shown_addNode]
      split
      · rename_i hq
        exact .inr ⟨_, .inr ⟨_, List.mem_append_right _ (List.mem_singleton_self _), rfl, rfl, rfl,
          hq.1.symm, .inl rfl⟩, rfl⟩
      · rw [List.append_nil]
        exact .inl (List.Sublist.refl _)
  | @queued key data filter dir now it hn hk hi hd =>
      rw [shown_emit, shown_push, shown_update]
      split
      · rename_i hq
        exact .inr ⟨_, .inr ⟨_, ConnTable.update_of_mem (ConnTable.find_some hk).1 rfl, rfl, rfl,
          rfl, hq.1.symm, .inr hd⟩, rfl⟩
      · rw [List.append_nil]
        exact .inl (List.Sublist.refl _)
  | @stopPush i h hi =>
      have hp : Sys.shown f { s.push i .exit with stopPc := .pushing (i + 1) } q =
          (s.push i .exit).shown f q := rfl
      rw [hp, shown_push]
      split
      · exact .inr ⟨.exit, .inl ⟨rfl, rfl⟩, rfl⟩
      · rw [List.append_nil]
        exact .inl (List.Sublist.refl _)
  | cleanup => exact .inl (k.shown_quiet hf (.inr ⟨_, rfl⟩) q)
  | popped | exits | moved | handleSet | called | createFailed | created | unfound | reported
  | noted | thrown | cleared => exact .inl (k.shown_quiet hf (.inl ⟨_, _, rfl⟩) q)

/-- **The messages of a step**, those at hand included. -/
theorem Change.pending (h : Change s a s') (q : Nat) :
    (s'.pending q).Sublist (s.pending q) ∨
      ∃ m, s.Pushes a s' q m ∧ s'.pending q = s.pending q ++ [m] :=
  h.shown shows_held q

theorem Change.queues_length (h : Change s a s') :
    s'.dpiEngineQueueList.length = s.dpiEngineQueueList.length := by
  have pushed : ∀ (s : Sys) (i : Int) (m : ConnMetadata),
      (s.push i m).dpiEngineQueueList.length = s.dpiEngineQueueList.length := fun s i m => by
    rw [push_dpiEngineQueueList]; split <;> simp
  cases h with
  | inserted => rw [emit_dpiEngineQueueList, pushed, addNode_dpiEngineQueueList]
  | queued => rw [emit_dpiEngineQueueList, pushed, update_dpiEngineQueueList]
  | @stopPush i h hi => exact pushed s i .exit
  | _ => simp

end Sys
end DistDpi
