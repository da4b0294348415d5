import DistDpi.Support.Machine

/-!
# Support — Monitor

A resource behind a mutex, with a condition variable for the operations that have to wait.  An
operation takes the mutex, tests whether it can be done, waits until it can, is done, gives the
mutex back, and notifies one of the waiting threads, or all, or none.  Any number of threads call
what they like; which waiting thread is notified is not said, and one may wake up unnotified.

* `Inv`: one thread at a time is inside, and what it has tested still holds (`reachable`).
* `linearizable`: the bodies are a serial run of the operations, each with the result that its call
  returns, and between the call and its return (`history_thread`).
-/

universe u v w

/-- What an operation notifies when it is done. -/
inductive Signal where
  | silent | one | all
  deriving DecidableEq, Repr

/-- What an operation meets inside: it is done, has to wait, or takes the mutex that it has. -/
inductive Outcome (σ : Type u) (Ret : Type w) where
  | done (r : Ret) (s : σ)
  | wait
  | relock

/-- The operations on a resource. -/
structure Monitor (σ : Type u) (Op : Type v) (Ret : Type w) where
  body : Op → σ → Outcome σ Ret
  signal : Op → Signal

namespace Monitor
variable {σ : Type u} {Op : Type v} {Ret : Type w}

/-- Where a thread is.  `woken` says that it has been waiting; a thread at `relocked` stays there,
with the mutex. -/
inductive Pc (Op : Type v) (Ret : Type w) where
  | returned (r : Option Ret)
  | lock (op : Op) (woken : Bool)
  | test (op : Op) (woken : Bool)
  | inside (op : Op) (woken : Bool)
  | blocked (op : Op)
  | unlock (op : Op) (r : Ret)
  | notify (op : Op) (r : Ret)
  | relocked (op : Op)
  deriving DecidableEq, Repr

namespace Pc

/-- It has the mutex. -/
def holds : Pc Op Ret → Bool
  | .test .. | .inside .. | .unlock .. | .relocked _ => true
  | .returned _ | .lock .. | .blocked _ | .notify .. => false

def isBlocked : Pc Op Ret → Bool
  | .blocked _ => true
  | _ => false

def isRelocked : Pc Op Ret → Bool
  | .relocked _ => true
  | _ => false

def wakeUp : Pc Op Ret → Pc Op Ret
  | .blocked op => .lock op true
  | pc => pc

end Pc

/-- The resource, who has the mutex, and where the threads are. -/
structure State (σ : Type u) (Op : Type v) (Ret : Type w) where
  res : σ
  owner : Option Nat
  threads : List (Pc Op Ret)
  deriving DecidableEq, Repr

/-- A call, the next statement of a thread, a notification by `t` that wakes `w`, or a thread that
wakes up by itself. -/
inductive Act (Op : Type v) where
  | call (t : Nat) (op : Op)
  | run (t : Nat)
  | wake (t w : Nat)
  | spurious (t : Nat)
  deriving DecidableEq, Repr

@[simps]
def State.goto (s : State σ Op Ret) (t : Nat) (pc : Pc Op Ret) : State σ Op Ret :=
  { s with threads := s.threads.set t pc }

variable (M : Monitor σ Op Ret)

/-- Behind the unlock. -/
def after (op : Op) (r : Ret) : Pc Op Ret :=
  if M.signal op = .silent then .returned (some r) else .notify op r

/-- The next statement of thread `t`. -/
def runStep (s : State σ Op Ret) (t : Nat) : Option (State σ Op Ret) :=
  match s.threads[t]? with
  | some (.lock op woken) =>
      if s.owner = none then some { s.goto t (.test op woken) with owner := some t } else none
  | some (.test op woken) =>
      match M.body op s.res with
      | .done _ _ => some (s.goto t (.inside op woken))
      -- the mutex is given back with it
      | .wait => some { s.goto t (.blocked op) with owner := none }
      | .relock => some (s.goto t (.relocked op))
  | some (.inside op _) =>
      match M.body op s.res with
      | .done r res => some { s.goto t (.unlock op r) with res }
      | _ => none
  | some (.unlock op r) => some { s.goto t (M.after op r) with owner := none }
  | some (.notify op r) =>
      if M.signal op = .all then
        some { s with threads := (s.threads.map Pc.wakeUp).set t (.returned (some r)) }
      -- there is no one to notify
      else if s.threads.all (!·.isBlocked) then some (s.goto t (.returned (some r)))
      else none
  | some (.returned _) | some (.blocked _) | some (.relocked _) | none => none

def step (s : State σ Op Ret) : Act Op → Option (State σ Op Ret)
  | .call t op =>
      match s.threads[t]? with
      | some (.returned _) => some (s.goto t (.lock op false))
      | _ => none
  | .run t => M.runStep s t
  | .wake t w =>
      match s.threads[t]?, s.threads[w]? with
      | some (.notify op r), some (.blocked op') =>
          if M.signal op = .all then none
          else some ((s.goto t (.returned (some r))).goto w (.lock op' true))
      | _, _ => none
  | .spurious t =>
      match s.threads[t]? with
      | some (.blocked op) => some (s.goto t (.lock op true))
      | _ => none

/-- **The monitor**, with its threads. -/
def machine : Machine (State σ Op Ret) (Act Op) := ⟨M.step⟩

/-- Nobody is in a call. -/
def start (res : σ) (threads : Nat) : State σ Op Ret :=
  ⟨res, none, List.replicate threads (.returned none)⟩

/-! ### What a step can do -/

inductive Change (s : State σ Op Ret) : Act Op → State σ Op Ret → Prop where
  | called {t : Nat} {op : Op} {r : Option Ret} (h : s.threads[t]? = some (.returned r)) :
      Change s (.call t op) (s.goto t (.lock op false))
  | locked {t : Nat} {op : Op} {woken : Bool} (h : s.threads[t]? = some (.lock op woken))
      (hfree : s.owner = none) :
      Change s (.run t) { s.goto t (.test op woken) with owner := some t }
  | passed {t : Nat} {op : Op} {woken : Bool} {r : Ret} {res : σ}
      (h : s.threads[t]? = some (.test op woken)) (hb : M.body op s.res = .done r res) :
      Change s (.run t) (s.goto t (.inside op woken))
  | waited {t : Nat} {op : Op} {woken : Bool} (h : s.threads[t]? = some (.test op woken))
      (hb : M.body op s.res = .wait) :
      Change s (.run t) { s.goto t (.blocked op) with owner := none }
  | relocked {t : Nat} {op : Op} {woken : Bool} (h : s.threads[t]? = some (.test op woken))
      (hb : M.body op s.res = .relock) : Change s (.run t) (s.goto t (.relocked op))
  | committed {t : Nat} {op : Op} {woken : Bool} {r : Ret} {res : σ}
      (h : s.threads[t]? = some (.inside op woken)) (hb : M.body op s.res = .done r res) :
      Change s (.run t) { s.goto t (.unlock op r) with res }
  | unlocked {t : Nat} {op : Op} {r : Ret} (h : s.threads[t]? = some (.unlock op r)) :
      Change s (.run t) { s.goto t (M.after op r) with owner := none }
  | notifiedAll {t : Nat} {op : Op} {r : Ret} (h : s.threads[t]? = some (.notify op r))
      (hall : M.signal op = .all) : Change s (.run t)
        { s with threads := (s.threads.map Pc.wakeUp).set t (.returned (some r)) }
  | notifiedNone {t : Nat} {op : Op} {r : Ret} (h : s.threads[t]? = some (.notify op r))
      (hall : M.signal op ≠ .all) (hno : ∀ pc ∈ s.threads, pc.isBlocked = false) :
      Change s (.run t) (s.goto t (.returned (some r)))
  | woke {t w : Nat} {op op' : Op} {r : Ret} (h : s.threads[t]? = some (.notify op r))
      (hw : s.threads[w]? = some (.blocked op')) (hall : M.signal op ≠ .all) :
      Change s (.wake t w) ((s.goto t (.returned (some r))).goto w (.lock op' true))
  | spurious {t : Nat} {op : Op} (h : s.threads[t]? = some (.blocked op)) :
      Change s (.spurious t) (s.goto t (.lock op true))

section
variable {M} {s s' : State σ Op Ret} {a : Act Op} {t t' : Nat} {pc pc' : Pc Op Ret}

theorem change_of_runStep (h : M.runStep s t = some s') : M.Change s (.run t) s' := by
  rw [runStep.eq_def] at h
  split at h
  · obtain ⟨hfree, h⟩ := Option.ite_none_right_eq_some.mp h
    cases h
    exact .locked ‹_› hfree
  · split at h <;> cases h
    · exact .passed ‹_› ‹_›
    · exact .waited ‹_› ‹_›
    · exact .relocked ‹_› ‹_›
  · split at h
    · cases h
      exact .committed ‹_› ‹_›
    · cases h
  · cases h
    exact .unlocked ‹_›
  · split at h
    · cases h
      exact .notifiedAll ‹_› ‹_›
    · obtain ⟨hno, h⟩ := Option.ite_none_right_eq_some.mp h
      cases h
      refine .notifiedNone ‹_› ‹_› fun pc hpc => ?_
      exact Bool.not_eq_true' _ ▸ List.all_eq_true.1 hno pc hpc
  all_goals cases h

theorem change_of_step (h : M.step s a = some s') : M.Change s a s' := by
  rw [step.eq_def] at h
  split at h
  · split at h
    · cases h
      exact .called ‹_›
    · cases h
  · exact change_of_runStep h
  · split at h
    · obtain ⟨hall, h⟩ := Option.ite_none_left_eq_some.mp h
      cases h
      exact .woke ‹_› ‹_› hall
    · cases h
  · split at h
    · cases h
      exact .spurious ‹_›
    · cases h

/-! ### One at a time -/

/-- Who has the mutex is inside, alone, and what it has tested still holds. -/
structure Inv (M : Monitor σ Op Ret) (s : State σ Op Ret) : Prop where
  owned : ∀ (t : Nat) (pc : Pc Op Ret), s.threads[t]? = some pc → (pc.holds ↔ s.owner = some t)
  owner : ∀ t : Nat, s.owner = some t → t < s.threads.length
  tested : ∀ (t : Nat) (op : Op) (woken : Bool), s.threads[t]? = some (.inside op woken) →
    ∃ r res, M.body op s.res = .done r res

theorem getElem?_goto (h : s.threads[t]? = some pc) :
    (s.goto t pc').threads[t']? = if t' = t then some pc' else s.threads[t']? := by
  obtain ⟨hlt, -⟩ := List.getElem?_eq_some_iff.1 h
  rw [State.goto_threads, List.getElem?_set]
  by_cases ht : t = t'
  · rw [if_pos ht, if_pos hlt, if_pos ht.symm]
  · rw [if_neg ht, if_neg (Ne.symm ht)]

theorem getElem?_wakeAll (h : s.threads[t]? = some pc) :
    (s.threads.map Pc.wakeUp)[t]? = some pc.wakeUp := by
  rw [List.getElem?_map, h]
  rfl

/-- A thread that waits does not notify. -/
theorem getElem?_woke {op op' : Op} {r : Ret} (h : s.threads[t]? = some (.notify op r))
    (h' : s.threads[t']? = some (.blocked op')) (pc : Pc Op Ret) :
    (s.goto t pc).threads[t']? = some (.blocked op') := by
  rw [getElem?_goto h, if_neg]
  · exact h'
  · rintro rfl
    cases h.symm.trans h'

theorem inv_start (res : σ) (threads : Nat) : M.Inv (start res threads) where
  owned t pc h := by
    obtain ⟨-, rfl⟩ := List.mem_replicate.1 (List.mem_of_getElem? h)
    exact iff_of_false nofun nofun
  owner := nofun
  tested t op woken h := by
    obtain ⟨-, h⟩ := List.mem_replicate.1 (List.mem_of_getElem? h)
    cases h

/-- Two threads inside are one. -/
theorem Inv.alone (hI : M.Inv s) (h : s.threads[t]? = some pc) (hpc : pc.holds)
    (h' : s.threads[t']? = some pc') (hpc' : pc'.holds) : t' = t :=
  Option.some.inj (((hI.owned t' pc' h').1 hpc').symm.trans ((hI.owned t pc h).1 hpc))

/-- A thread moves, with the mutex or without it. -/
theorem Inv.goto (hI : M.Inv s) (h : s.threads[t]? = some pc) (hh : pc'.holds = pc.holds)
    (hin : ∀ op woken, pc' = .inside op woken → ∃ r res, M.body op s.res = .done r res) :
    M.Inv (s.goto t pc') where
  owned t' q hq := by
    rw [getElem?_goto h] at hq
    split at hq
    · rename_i ht
      cases hq
      rw [hh, ht]
      exact hI.owned t pc h
    · exact hI.owned t' q hq
  owner t' ho := by
    rw [State.goto_threads, List.length_set]
    exact hI.owner t' ho
  tested t' op woken hq := by
    rw [getElem?_goto h] at hq
    split at hq
    · exact hin op woken (Option.some.inj hq)
    · exact hI.tested t' op woken hq

/-- It takes the mutex. -/
theorem Inv.acquire (hI : M.Inv s) (h : s.threads[t]? = some pc) (hfree : s.owner = none)
    (hh : pc'.holds = true) (hin : ∀ op woken, pc' ≠ .inside op woken) :
    M.Inv { s.goto t pc' with owner := some t } where
  owned t' q hq := by
    rw [getElem?_goto h] at hq
    split at hq
    · rename_i ht
      cases hq
      exact iff_of_true hh (congrArg some ht.symm)
    · rename_i ht
      rw [hI.owned t' q hq, hfree]
      exact iff_of_false nofun fun h => ht (Option.some.inj h).symm
  owner t' ho := by
    cases ho
    rw [State.goto_threads, List.length_set]
    exact (List.getElem?_eq_some_iff.1 h).1
  tested t' op woken hq := by
    rw [getElem?_goto h] at hq
    split at hq
    · exact absurd (Option.some.inj hq) (hin op woken)
    · exact hI.tested t' op woken hq

/-- It gives the mutex back, and the resource as it is then. -/
theorem Inv.release (hI : M.Inv s) (h : s.threads[t]? = some pc) (hpc : pc.holds)
    (hh : pc'.holds = false) : M.Inv { s.goto t pc' with owner := none } where
  owned t' q hq := by
    rw [getElem?_goto h] at hq
    split at hq
    · cases hq
      rw [hh]
      exact iff_of_false nofun nofun
    · rename_i ht
      exact iff_of_false (fun hq' => ht (hI.alone h hpc hq hq')) nofun
  owner := nofun
  tested t' op woken hq := by
    rw [getElem?_goto h] at hq
    split at hq
    · cases Option.some.inj hq
      cases hh
    · exact hI.tested t' op woken hq

/-- It does the operation: no other thread has tested the resource. -/
theorem Inv.commit (hI : M.Inv s) (h : s.threads[t]? = some pc) (hpc : pc.holds)
    (hh : pc'.holds = true) (hin : ∀ op woken, pc' ≠ .inside op woken) (res : σ) :
    M.Inv { s.goto t pc' with res } where
  owned := (hI.goto h (hh.trans hpc.symm) fun op woken he => absurd he (hin op woken)).owned
  owner := (hI.goto h (hh.trans hpc.symm) fun op woken he => absurd he (hin op woken)).owner
  tested t' op woken hq := by
    rw [getElem?_goto h] at hq
    split at hq
    · exact absurd (Option.some.inj hq) (hin op woken)
    · rename_i ht
      exact absurd (hI.alone h hpc hq rfl) ht

theorem Pc.holds_wakeUp : pc.wakeUp.holds = pc.holds := by
  cases pc <;> rfl

/-- All threads that wait wake up. -/
theorem Inv.wakeAll (hI : M.Inv s) : M.Inv { s with threads := s.threads.map Pc.wakeUp } where
  owned t q hq := by
    rw [List.getElem?_map] at hq
    obtain ⟨pc, hpc, rfl⟩ := Option.map_eq_some_iff.mp hq
    rw [Pc.holds_wakeUp]
    exact hI.owned t pc hpc
  owner t ho := by
    rw [List.length_map]
    exact hI.owner t ho
  tested t op woken hq := by
    rw [List.getElem?_map] at hq
    obtain ⟨pc, hpc, he⟩ := Option.map_eq_some_iff.mp hq
    cases pc <;> cases he
    exact hI.tested t op woken hpc

theorem holds_after (op : Op) (r : Ret) : (M.after op r).holds = false := by
  rw [after]
  split <;> rfl

theorem Inv.step (hI : M.Inv s) (h : M.Change s a s') : M.Inv s' := by
  cases h with
  | called h => exact hI.goto h rfl nofun
  | locked h hfree => exact hI.acquire h hfree rfl nofun
  | passed h hb =>
      refine hI.goto h rfl ?_
      rintro _ _ ⟨⟩
      exact ⟨_, _, hb⟩
  | waited h hb => exact hI.release h rfl rfl
  | relocked h hb => exact hI.goto h rfl nofun
  | committed h hb =>
      refine hI.commit h rfl rfl ?_ _
      exact nofun
  | unlocked h => exact hI.release h rfl (holds_after _ _)
  | notifiedAll h hall =>
      refine hI.wakeAll.goto (getElem?_wakeAll h) rfl nofun
  | notifiedNone h hall hno => exact hI.goto h rfl nofun
  | @woke t w op op' r h hw hall =>
      have hI' : M.Inv (s.goto t (.returned (some r))) := hI.goto h rfl nofun
      exact hI'.goto (getElem?_woke h hw _) rfl nofun
  | spurious h => exact hI.goto h rfl nofun

/-- **One at a time**, in every run. -/
theorem reachable {res : σ} {threads : Nat} {as : List (Act Op)}
    (h : M.machine.Run (start res threads) as s) : M.Inv s :=
  h.invariant (fun _ _ _ hI hs => hI.step (change_of_step hs)) (inv_start res threads)

/-- A thread that is stuck with the mutex stays so, and the resource stays as it is. -/
theorem Change.stuck {op : Op} (h : M.Change s a s') (hI : M.Inv s)
    (ht : s.threads[t]? = some (.relocked op)) :
    s'.threads[t]? = some (.relocked op) ∧ s'.res = s.res := by
  have hne : ∀ {t' : Nat} {pc : Pc Op Ret}, s.threads[t']? = some pc → pc ≠ .relocked op → t ≠ t' := by
    rintro t' pc h' hpc rfl
    exact hpc (Option.some.inj (h'.symm.trans ht))
  have halone : ∀ {t' : Nat} {pc : Pc Op Ret}, s.threads[t']? = some pc → pc.holds →
      pc = .relocked op := by
    intro t' pc h' hpc
    obtain rfl := hI.alone ht rfl h' hpc
    exact Option.some.inj (h'.symm.trans ht)
  cases h with
  | called h | spurious h | notifiedNone h =>
      exact ⟨(getElem?_goto h).trans ((if_neg (hne h nofun)).trans ht), rfl⟩
  | locked h hfree =>
      rw [(hI.owned t _ ht).1 rfl] at hfree
      cases hfree
  | passed h | waited h | relocked h | committed h | unlocked h =>
      cases halone h rfl
  | notifiedAll h =>
      refine ⟨(getElem?_goto (s := { s with threads := s.threads.map Pc.wakeUp })
        (getElem?_wakeAll h)).trans ((if_neg (hne h nofun)).trans ?_), rfl⟩
      exact getElem?_wakeAll ht
  | woke h hw =>
      refine ⟨(getElem?_goto (getElem?_woke h hw _)).trans ((if_neg (hne hw nofun)).trans ?_), rfl⟩
      exact (getElem?_goto h).trans ((if_neg (hne h nofun)).trans ht)

/-- **Stuck for good.** -/
theorem Inv.stuck {as : List (Act Op)} {op : Op} (hI : M.Inv s)
    (ht : s.threads[t]? = some (.relocked op)) (h : M.machine.Run s as s') :
    s'.threads[t]? = some (.relocked op) ∧ s'.res = s.res := by
  have hend := h.invariant (I := fun s₁ => M.Inv s₁ ∧ s₁.threads[t]? = some (.relocked op) ∧
    s₁.res = s.res) (fun s₁ a s₂ hI hs => ?_) ⟨hI, ht, rfl⟩
  · exact hend.2
  · obtain ⟨hI, ht, hres⟩ := hI
    have hc := change_of_step hs
    obtain ⟨ht', hres'⟩ := hc.stuck hI ht
    exact ⟨hI.step hc, ht', hres'.trans hres⟩

/-! ### In which order -/

/-- What happens to a call: it is made, its body is done, it returns. -/
inductive Event (Op : Type v) (Ret : Type w) where
  | called (t : Nat) (op : Op)
  | committed (t : Nat) (op : Op) (r : Ret)
  | returned (t : Nat) (op : Op) (r : Ret)
  deriving DecidableEq, Repr

def Event.thread : Event Op Ret → Nat
  | .called t _ | .committed t .. | .returned t .. => t

def Event.commit : Event Op Ret → Option (Op × Ret)
  | .committed _ op r => some (op, r)
  | _ => none

/-- What a step is of the call of its thread. -/
def event (M : Monitor σ Op Ret) (s : State σ Op Ret) : Act Op → Option (Event Op Ret)
  | .call t op => some (.called t op)
  | .run t =>
      match s.threads[t]? with
      | some (.inside op _) =>
          match M.body op s.res with
          | .done r _ => some (.committed t op r)
          | _ => none
      | some (.unlock op r) => if M.signal op = .silent then some (.returned t op r) else none
      | some (.notify op r) => some (.returned t op r)
      | _ => none
  | .wake t _ =>
      match s.threads[t]? with
      | some (.notify op r) => some (.returned t op r)
      | _ => none
  | .spurious _ => none

/-- The operations `l`, one after the other, with their results. -/
inductive Serial (M : Monitor σ Op Ret) : σ → List (Op × Ret) → σ → Prop where
  | nil (res : σ) : Serial M res [] res
  | concat {res res₁ res' : σ} {l : List (Op × Ret)} {op : Op} {r : Ret}
      (h : Serial M res l res₁) (hb : M.body op res₁ = .done r res') :
      Serial M res (l ++ [(op, r)]) res'

/-- The call that a thread is in. -/
def Pc.events (t : Nat) : Pc Op Ret → List (Event Op Ret)
  | .returned _ => []
  | .lock op _ | .test op _ | .inside op _ | .blocked op | .relocked op => [.called t op]
  | .unlock op r | .notify op r => [.called t op, .committed t op r]

/-- A call that is over. -/
def callEvents (t : Nat) (c : Op × Ret) : List (Event Op Ret) :=
  [.called t c.1, .committed t c.1 c.2, .returned t c.1 c.2]

/-- What has happened in the call that thread `t` is in. -/
def State.pending (s : State σ Op Ret) (t : Nat) : List (Event Op Ret) :=
  s.threads[t]?.elim [] (Pc.events t)

/-- The thread that moves. -/
def Act.thread : Act Op → Nat
  | .call t _ | .run t | .wake t _ | .spurious t => t

theorem pending_eq (h : s.threads[t]? = some pc) : s.pending t = pc.events t := by
  rw [State.pending, h]
  rfl

theorem pending_goto (h : s.threads[t]? = some pc) :
    (s.goto t pc').pending t' = if t' = t then pc'.events t else s.pending t' := by
  rw [State.pending, getElem?_goto h]
  split
  · rename_i ht
    rw [ht]
    rfl
  · rfl

theorem Pc.events_wakeUp : pc.wakeUp.events t = pc.events t := by
  cases pc <;> rfl

theorem pending_wakeAll (t : Nat) :
    ({ s with threads := s.threads.map Pc.wakeUp } : State σ Op Ret).pending t = s.pending t := by
  rw [State.pending, State.pending, List.getElem?_map]
  cases s.threads[t]? with
  | none => rfl
  | some pc => exact Pc.events_wakeUp

theorem event_thread {e : Event Op Ret} (h : M.event s a = some e) : e.thread = a.thread := by
  unfold event at h
  split at h
  · cases h
    rfl
  · split at h
    · split at h <;> cases h
      rfl
    · obtain ⟨-, h⟩ := Option.ite_none_right_eq_some.mp h
      cases h
      rfl
    · cases h
      rfl
    · cases h
  · split at h <;> cases h
    rfl
  · cases h

/-- The other threads are in the calls that they were in. -/
theorem Change.others (h : M.Change s a s') (ht : t ≠ a.thread) : s'.pending t = s.pending t := by
  cases h with
  | called h | passed h | relocked h | notifiedNone h | spurious h =>
      exact (pending_goto h).trans (if_neg ht)
  | locked h | waited h | committed h | unlocked h => exact (pending_goto h).trans (if_neg ht)
  | notifiedAll h =>
      refine (pending_goto (s := { s with threads := s.threads.map Pc.wakeUp })
        (getElem?_wakeAll h)).trans ?_
      exact (if_neg ht).trans (pending_wakeAll t)
  | woke h hw =>
      rw [pending_goto (getElem?_woke h hw _)]
      split
      · rename_i he
        rw [he, pending_eq hw]
        rfl
      · exact (pending_goto h).trans (if_neg ht)

theorem pending_goto_self (h : s.threads[t]? = some pc) : (s.goto t pc').pending t = pc'.events t :=
  (pending_goto h).trans (if_pos rfl)

/-- The thread that moves goes on in its call, or ends it. -/
theorem Change.own (h : M.Change s a s') :
    s'.pending a.thread = s.pending a.thread ++ (M.event s a).toList ∨
      s'.pending a.thread = [] ∧ ∃ c, s.pending a.thread ++ (M.event s a).toList =
        callEvents a.thread c := by
  cases h with
  | called h | spurious h =>
      refine .inl ((pending_goto_self h).trans ?_)
      rw [Act.thread, pending_eq h]
      rfl
  | locked h | passed h | waited h | relocked h =>
      refine .inl ((pending_goto_self h).trans ?_)
      rw [Act.thread, pending_eq h, event, h]
      rfl
  | committed h hb =>
      refine .inl ((pending_goto_self h).trans ?_)
      rw [Act.thread, pending_eq h, event]
      simp only [h, hb]
      rfl
  | @unlocked t op r h =>
      have hp : ({ s.goto t (M.after op r) with owner := none } : State σ Op Ret).pending t =
          (M.after op r).events t := pending_goto_self h
      rw [Act.thread, hp, pending_eq h, event, after]
      simp only [h]
      by_cases hs : M.signal op = .silent
      · rw [if_pos hs, if_pos hs]
        exact .inr ⟨rfl, (op, r), rfl⟩
      · rw [if_neg hs, if_neg hs]
        exact .inl rfl
  | @notifiedAll t op r h hall =>
      refine .inr ⟨pending_goto_self (s := { s with threads := s.threads.map Pc.wakeUp })
        (getElem?_wakeAll h), (op, r), ?_⟩
      rw [Act.thread, pending_eq h, event, h]
      rfl
  | @notifiedNone t op r h hall hno =>
      refine .inr ⟨pending_goto_self h, (op, r), ?_⟩
      rw [Act.thread, pending_eq h, event, h]
      rfl
  | @woke t w op op' r h hw hall =>
      refine .inr ⟨?_, (op, r), ?_⟩
      · rw [Act.thread, pending_goto (getElem?_woke h hw _), if_neg, pending_goto_self h]
        · rfl
        · rintro rfl
          cases h.symm.trans hw
      · rw [Act.thread, pending_eq h, event, h]
        rfl

/-- A body is a step of the serial run; nothing else touches the resource. -/
theorem Change.commit (h : M.Change s a s') :
    (M.event s a).toList.filterMap Event.commit = [] ∧ s'.res = s.res ∨
      ∃ op r, (M.event s a).toList.filterMap Event.commit = [(op, r)] ∧
        M.body op s.res = .done r s'.res := by
  cases h with
  | called | spurious => exact .inl ⟨rfl, rfl⟩
  | committed h hb =>
      refine .inr ⟨_, _, ?_, hb⟩
      rw [event]
      simp only [h, hb]
      rfl
  | unlocked h =>
      refine .inl ⟨?_, rfl⟩
      rw [event, h]
      dsimp only
      split <;> rfl
  | locked h | passed h | waited h | relocked h | notifiedAll h | notifiedNone h | woke h =>
      refine .inl ⟨?_, rfl⟩
      rw [event, h]
      rfl

/-- The history of a run. -/
def history (M : Monitor σ Op Ret) (s : State σ Op Ret) (as : List (Act Op)) :
    List (Event Op Ret) :=
  M.machine.collect M.event s as

/-- **Linearizable.**  What the bodies have done is a serial run of the operations, with the results
that they have given. -/
theorem linearizable {as : List (Act Op)} (h : M.machine.Run s as s') :
    M.Serial s.res ((M.history s as).filterMap Event.commit) s'.res := by
  refine h.invariant_collect (I := fun s₁ l => M.Serial s.res (l.filterMap Event.commit) s₁.res)
    (l := []) (fun s₁ a s₂ l hI hs => ?_) (.nil s.res)
  rw [List.filterMap_append]
  rcases (change_of_step hs).commit with ⟨hno, hres⟩ | ⟨op, r, hone, hb⟩
  · rwa [hno, List.append_nil, hres]
  · rw [hone]
    exact .concat hI hb

/-- The history of a thread: its calls, each with its body inside and with the result of that, and
what has happened in the call that it is in. -/
theorem history_thread {res : σ} {threads : Nat} {as : List (Act Op)}
    (h : M.machine.Run (start res threads) as s) (t : Nat) : ∃ calls : List (Op × Ret),
      (M.history (start res threads) as).filter (·.thread = t) =
        calls.flatMap (callEvents t) ++ s.pending t := by
  refine h.invariant_collect (I := fun s₁ l => ∃ calls : List (Op × Ret),
    l.filter (·.thread = t) = calls.flatMap (callEvents t) ++ s₁.pending t) (l := [])
    (fun s₁ a s₂ l hI hs => ?_) ⟨[], ?_⟩
  · obtain ⟨calls, hI⟩ := hI
    have hc := change_of_step hs
    rw [List.filter_append, hI]
    by_cases ht : t = a.thread
    · have hev : (M.event s₁ a).toList.filter (·.thread = t) = (M.event s₁ a).toList := by
        refine List.filter_eq_self.2 fun e he => ?_
        exact decide_eq_true ((event_thread (Option.mem_toList.1 he)).trans ht.symm)
      rw [hev, List.append_assoc, ht]
      rcases hc.own with hown | ⟨hown, c, hc⟩
      · exact ⟨calls, by rw [hown]⟩
      · refine ⟨calls ++ [c], ?_⟩
        rw [hc, hown, List.flatMap_append, List.flatMap_singleton, List.append_nil]
    · have hev : (M.event s₁ a).toList.filter (·.thread = t) = [] := by
        refine List.filter_eq_nil_iff.2 fun e he => ?_
        rw [event_thread (Option.mem_toList.1 he)]
        simpa using Ne.symm ht
      exact ⟨calls, by rw [hev, List.append_nil, hc.others ht]⟩
  · rw [State.pending, start, List.getElem?_replicate]
    split <;> rfl

end

end Monitor
