import DistDpi.Flow.Shutdown

/-!
# Flow — the cleanup thread

`FlowTableCleanup` and `FlowTable::stop`, around `cleanupThreadMutex_`, `cleanupThreadcv_` and
`running_`: every statement of the two is a step, in any order with one another and with the packets
and the engine threads.  The wait has a timeout, so that it may end whenever it likes.

* `handshake_refines`: what they do is a run of `system`, where the first step of `stop` is that the
  cleanup thread has been joined; there is no `cleanupFlows(false)` behind it.
* `join_returns`: once `running_` is false the thread makes one more pass at most, and the join
  returns after a bounded number of statements of the two.  The notification may be lost, but none
  is needed.
-/

namespace DistDpi.CleanupThread

/-- Where `FlowTableCleanup` is.  `waiting` is within `wait_for`, and `woken` where it takes the
mutex again; `unlock` is the end of the scope, by `break` or not. -/
inductive CleanerPc where
  | lock | waitFor | waiting | woken | testRunning
  | unlock (breaks : Bool)
  | testSize | cleanup | ended
  deriving DecidableEq, Repr

/-- Where `FlowTable::stop` is.  Its statements behind the join are those of `Sys.stop`. -/
inductive StopPc where
  | notCalled | lock | clearRunning | notifyOne | unlock | join | joined
  deriving DecidableEq, Repr

/-- Who has `cleanupThreadMutex_`. -/
inductive Owner where
  | cleaner | stop
  deriving DecidableEq, Repr

structure State where
  sys : Sys
  mutex : Option Owner := none
  running : Bool := true
  cleaner : CleanerPc := .lock
  stop : StopPc := .notCalled
  deriving DecidableEq, Repr

inductive Act where
  /-- The next statement of `FlowTableCleanup`, at `time(0) = now`. -/
  | cleaner (now : Int)
  /-- The wait ends without a notification. -/
  | wake
  /-- The call of `stop`, or its next statement. -/
  | stop
  /-- A packet, or a statement of an engine thread. -/
  | others (a : DistDpi.Act)
  deriving DecidableEq, Repr

namespace State

def cleanerStep (s : State) (now : Int) : Option State :=
  match s.cleaner with
  | .lock =>
      if s.mutex = none then some { s with mutex := some .cleaner, cleaner := .waitFor } else none
  | .waitFor => some { s with mutex := none, cleaner := .waiting }
  | .waiting => none
  | .woken =>
      if s.mutex = none then some { s with mutex := some .cleaner, cleaner := .testRunning }
      else none
  | .testRunning => some { s with cleaner := .unlock !s.running }
  | .unlock breaks => some { s with mutex := none, cleaner := if breaks then .ended else .testSize }
  -- the size is read without `ftbl_mutex`
  | .testSize => some { s with cleaner := if 0 < s.sys.connTable.length then .cleanup else .lock }
  | .cleanup => some { s with sys := s.sys.cleanupFlows false now, cleaner := .lock }
  | .ended => none

def stopStep (s : State) : Option State :=
  match s.stop with
  | .notCalled => some { s with stop := .lock }
  | .lock =>
      if s.mutex = none then some { s with mutex := some .stop, stop := .clearRunning } else none
  | .clearRunning => some { s with running := false, stop := .notifyOne }
  | .notifyOne =>
      some { s with cleaner := if s.cleaner = .waiting then .woken else s.cleaner, stop := .unlock }
  | .unlock => some { s with mutex := none, stop := .join }
  | .join =>
      if s.cleaner = .ended then s.sys.stop.map fun sys => { s with sys, stop := .joined } else none
  | .joined => s.sys.stop.map fun sys => { s with sys }

def step (s : State) : Act → Option State
  | .cleaner now => s.cleanerStep now
  | .wake => if s.cleaner = .waiting then some { s with cleaner := .woken } else none
  | .stop => s.stopStep
  | .others (.cleanup _) | .others .stop => none
  | .others a => (s.sys.step a).map fun sys => { s with sys }

end State

/-- **The two threads around `cleanupThreadMutex_`**, with the others. -/
def machine : Machine State Act := ⟨State.step⟩

/-- `FlowTable::start`. -/
def start (inst : Instances) : State := { sys := init inst }

/-- What a statement is in `system`. -/
def coarse (s : State) : Act → Option DistDpi.Act
  | .cleaner now => if s.cleaner = .cleanup then some (.cleanup now) else none
  | .wake => none
  | .stop => if s.stop = .join ∨ s.stop = .joined then some .stop else none
  | .others a => some a

/-- The pass of `cleanupFlows(false)` that a statement is. -/
def pass (s : State) : Act → Option Int
  | .cleaner now => if s.cleaner = .cleanup then some now else none
  | _ => none

/-- A statement of the cleanup thread, or of `stop` up to the join. -/
def handshake (s : State) : Act → Option Act
  | .cleaner now => some (.cleaner now)
  | .wake => some .wake
  | .stop => if s.stop = .joined then none else some .stop
  | .others _ => none

/-- `running_` is cleared while the thread is about to make a pass. -/
def closing : List Act :=
  [.others (.insert tcpKey [1] 3 1 100), .cleaner 0, .cleaner 0, .wake, .cleaner 0, .cleaner 0,
    .cleaner 0, .stop, .stop, .stop]

/-- The notification is lost.  The thread makes its pass, waits once more, and is joined. -/
def closed : List Act :=
  [.stop, .stop, .cleaner 0, .cleaner 101, .cleaner 0, .cleaner 0, .wake, .cleaner 0, .cleaner 0,
    .cleaner 0, .stop]

def closingState : State := (machine.exec (start twoEngines) closing).get (by decide)

theorem run_closing : machine.Run (start twoEngines) closing closingState :=
  Machine.run_of_exec (by decide)

def closedState : State := (machine.exec closingState closed).get (by decide)

theorem run_closed : machine.Run closingState closed closedState := Machine.run_of_exec (by decide)

/-! ### The mutex -/

def CleanerPc.holds : CleanerPc → Bool
  | .waitFor | .testRunning | .unlock _ => true
  | _ => false

def StopPc.holds : StopPc → Bool
  | .clearRunning | .notifyOne | .unlock => true
  | _ => false

/-- `running_` has been cleared. -/
def StopPc.cleared : StopPc → Bool
  | .notifyOne | .unlock | .join | .joined => true
  | _ => false

namespace State
variable {inst : Instances} {s s' : State} {a : Act}

structure Inv (s : State) : Prop where
  cleaner : s.cleaner.holds ↔ s.mutex = some .cleaner
  stop : s.stop.holds ↔ s.mutex = some .stop
  running : s.running = !s.stop.cleared
  /-- The scope is left as `running_` says: nobody writes it meanwhile. -/
  breaks : ∀ b, s.cleaner = .unlock b → s.running = !b
  ended : s.cleaner = .ended → s.running = false
  joined : s.stop = .joined → s.cleaner = .ended
  sys : s.sys.stopPc = .running ∨ s.stop = .joined

theorem inv_start (inst : Instances) : (start inst).Inv where
  cleaner := by simp [start, CleanerPc.holds]
  stop := by simp [start, StopPc.holds]
  running := rfl
  breaks _ h := by cases h
  ended h := by cases h
  joined h := by cases h
  sys := .inl rfl

theorem Inv.not_cleaner (hI : s.Inv) (h : s.cleaner.holds = false) : s.mutex ≠ some .cleaner :=
  fun hm => Bool.false_ne_true (h.symm.trans (hI.cleaner.2 hm))

theorem Inv.not_stop (hI : s.Inv) (h : s.stop.holds = false) : s.mutex ≠ some .stop :=
  fun hm => Bool.false_ne_true (h.symm.trans (hI.stop.2 hm))

/-- The cleanup thread moves, and takes the mutex or gives it back. -/
theorem Inv.moves {sys : Sys} {mutex : Option Owner} {pc : CleanerPc} (hI : s.Inv)
    (hne : s.cleaner ≠ .ended) (hc : pc.holds ↔ mutex = some .cleaner)
    (hs : mutex = some .stop ↔ s.mutex = some .stop) (hb : ∀ b, pc = .unlock b → s.running = !b)
    (he : pc = .ended → s.running = false) (hsys : sys.stopPc = s.sys.stopPc) :
    Inv { s with sys, mutex, cleaner := pc } where
  cleaner := hc
  stop := hI.stop.trans hs.symm
  running := hI.running
  breaks := hb
  ended := he
  joined hj := absurd (hI.joined hj) hne
  sys := hsys ▸ hI.sys

theorem Inv.cleanerStep {now : Int} (hI : s.Inv) (h : s.cleanerStep now = some s') : s'.Inv := by
  rw [State.cleanerStep.eq_def] at h
  split at h
  case h_1 hc =>
    obtain ⟨hm, h⟩ := Option.ite_none_right_eq_some.1 h
    cases h
    exact hI.moves (by rw [hc]; nofun) (by decide) (by rw [hm]; decide) nofun nofun rfl
  case h_2 hc =>
    cases h
    have hm := hI.cleaner.1 (by rw [hc]; rfl)
    exact hI.moves (by rw [hc]; nofun) (by decide) (by rw [hm]; decide) nofun nofun rfl
  case h_3 => cases h
  case h_4 hc =>
    obtain ⟨hm, h⟩ := Option.ite_none_right_eq_some.1 h
    cases h
    exact hI.moves (by rw [hc]; nofun) (by decide) (by rw [hm]; decide) nofun nofun rfl
  case h_5 hc =>
    cases h
    have hm := hI.cleaner.1 (by rw [hc]; rfl)
    refine hI.moves (by rw [hc]; nofun) (iff_of_true rfl hm) Iff.rfl (fun b hb => ?_) nofun rfl
    cases hb
    exact (Bool.not_not _).symm
  case h_6 b hc =>
    cases h
    have hm := hI.cleaner.1 (by rw [hc]; rfl)
    refine hI.moves (by rw [hc]; nofun) ?_ (by rw [hm]; decide) ?_ (fun he => ?_) rfl
    · cases b <;> decide
    · cases b <;> exact nofun
    · cases b with
      | true => exact hI.breaks true hc
      | false => cases he
  case h_7 hc =>
    cases h
    have hm := hI.not_cleaner (by rw [hc]; rfl)
    split
    all_goals exact hI.moves (by rw [hc]; nofun) (iff_of_false nofun hm) Iff.rfl nofun nofun rfl
  case h_8 hc =>
    cases h
    have hm := hI.not_cleaner (by rw [hc]; rfl)
    exact hI.moves (by rw [hc]; nofun) (iff_of_false nofun hm) Iff.rfl nofun nofun rfl
  case h_9 => cases h

/-- `stop` moves, and takes the mutex or gives it back. -/
theorem Inv.stops {mutex : Option Owner} {pc : StopPc} (hI : s.Inv) (hne : s.stop ≠ .joined)
    (hs : pc.holds ↔ mutex = some .stop) (hc : mutex = some .cleaner ↔ s.mutex = some .cleaner)
    (hr : pc.cleared = s.stop.cleared) (hpc : pc ≠ .joined) :
    Inv { s with mutex, stop := pc } where
  cleaner := hI.cleaner.trans hc.symm
  stop := hs
  running := hI.running.trans (by rw [hr])
  breaks := hI.breaks
  ended := hI.ended
  joined hj := absurd hj hpc
  sys := .inl (hI.sys.resolve_right hne)

theorem Inv.stopStep (hI : s.Inv) (h : s.stopStep = some s') : s'.Inv := by
  rw [State.stopStep.eq_def] at h
  split at h
  case h_1 hs =>
    cases h
    have hm := hI.not_stop (by rw [hs]; rfl)
    exact hI.stops (by rw [hs]; nofun) (iff_of_false nofun hm) Iff.rfl (by rw [hs]; rfl) nofun
  case h_2 hs =>
    obtain ⟨hm, h⟩ := Option.ite_none_right_eq_some.1 h
    cases h
    exact hI.stops (by rw [hs]; nofun) (by decide) (by rw [hm]; decide) (by rw [hs]; rfl) nofun
  case h_3 hs =>
    cases h
    have hm := hI.stop.1 (by rw [hs]; rfl)
    have hc : s.cleaner.holds = false := by
      rw [Bool.eq_false_iff, ne_eq, hI.cleaner, hm]
      nofun
    exact {
      cleaner := hI.cleaner
      stop := iff_of_true rfl hm
      running := rfl
      -- the cleanup thread is not between its test and the end of the scope
      breaks := fun b hb => by
        rw [show s.cleaner = .unlock b from hb] at hc
        cases hc
      ended := fun _ => rfl
      joined := nofun
      sys := .inl (hI.sys.resolve_right (by rw [hs]; nofun)) }
  case h_4 hs =>
    cases h
    have hm := hI.stop.1 (by rw [hs]; rfl)
    have hr : s.running = false := by
      rw [hI.running, hs]
      rfl
    have hc : ∀ b, s.cleaner ≠ .unlock b := fun b hb => by
      have := hI.cleaner.1 (by rw [hb]; rfl)
      rw [hm] at this
      cases this
    exact {
      cleaner := by
        dsimp only
        split
        · exact iff_of_false nofun (by rw [hm]; nofun)
        · exact hI.cleaner
      stop := iff_of_true rfl hm
      running := hr
      breaks := fun b hb => by
        dsimp only at hb
        split at hb
        · cases hb
        · exact absurd hb (hc b)
      ended := fun _ => hr
      joined := nofun
      sys := .inl (hI.sys.resolve_right (by rw [hs]; nofun)) }
  case h_5 hs =>
    cases h
    have hm := hI.stop.1 (by rw [hs]; rfl)
    exact hI.stops (by rw [hs]; nofun) (by decide) (by rw [hm]; decide) (by rw [hs]; rfl) nofun
  case h_6 hs =>
    obtain ⟨he, h⟩ := Option.ite_none_right_eq_some.1 h
    obtain ⟨sys, -, rfl⟩ := Option.map_eq_some_iff.1 h
    have hm := hI.not_stop (by rw [hs]; rfl)
    exact { hI with
      stop := iff_of_false nofun hm
      running := hI.ended he
      joined := fun _ => he
      sys := .inr rfl }
  case h_7 hs =>
    obtain ⟨sys, -, rfl⟩ := Option.map_eq_some_iff.1 h
    exact { hI with sys := .inr hs }

/-- A step of the others. -/
theorem others_step {b : DistDpi.Act} (h : machine.step s (.others b) = some s') :
    b ≠ .stop ∧ ∃ sys, system.step s.sys b = some sys ∧ s' = { s with sys } := by
  cases b with
  | cleanup | stop => cases h
  | insert key data filter dir now => exact ⟨nofun, _, rfl, (Option.some.inj h).symm⟩
  | engine q act =>
      obtain ⟨sys, hs, hs'⟩ := Option.map_eq_some_iff.1
        (show (s.sys.engineStep q act).map (fun sys => { s with sys }) = some s' from h)
      exact ⟨nofun, sys, hs, hs'.symm⟩

theorem Inv.step (hI : s.Inv) (h : machine.step s a = some s') : s'.Inv := by
  cases a with
  | cleaner now => exact hI.cleanerStep h
  | wake =>
      obtain ⟨hc, h⟩ := Option.ite_none_right_eq_some.1 h
      cases h
      have hm := hI.not_cleaner (by rw [hc]; rfl)
      exact hI.moves (by rw [hc]; nofun) (iff_of_false nofun hm) Iff.rfl nofun nofun rfl
  | stop => exact hI.stopStep h
  | others b =>
      obtain ⟨hb, sys, hs, rfl⟩ := others_step h
      have hp : sys.stopPc = s.sys.stopPc := (Sys.step_change hs).stopPc_eq hb
      exact { hI with sys := show sys.stopPc = _ ∨ _ from hp ▸ hI.sys }

theorem reachable {as : List Act} (h : machine.Run (start inst) as s) : s.Inv :=
  h.invariant (fun _ _ _ hI hs => hI.step hs) (inv_start inst)

/-! ### What it is in `system` -/

/-- A statement is its step of `system`, or leaves that alone. -/
theorem Inv.coarse_step (hI : s.Inv) (h : machine.step s a = some s') :
    system.Run s.sys (coarse s a).toList s'.sys := by
  have still : ∀ {b : Option DistDpi.Act}, b = none → s'.sys = s.sys →
      system.Run s.sys b.toList s'.sys := by
    rintro b rfl hs
    rw [hs]
    exact .refl _
  cases a with
  | cleaner now =>
      change s.cleanerStep now = some s' at h
      rw [State.cleanerStep.eq_def] at h
      by_cases hc : s.cleaner = .cleanup
      · rw [hc] at h
        cases h
        have hj : s.sys.stopPc = .running := hI.sys.resolve_right fun hj => by
          have := hI.joined hj
          rw [hc] at this
          cases this
        rw [coarse, if_pos hc]
        refine .one ?_
        change (if s.sys.stopPc = .running then _ else _) = _
        rw [if_pos hj]
      · refine still (if_neg hc) ?_
        split at h
        case h_8 hc' => exact absurd hc' hc
        case h_1 | h_4 =>
          obtain ⟨-, h⟩ := Option.ite_none_right_eq_some.1 h
          cases h
          rfl
        all_goals cases h
        all_goals rfl
  | wake =>
      obtain ⟨-, h⟩ := Option.ite_none_right_eq_some.1 h
      cases h
      exact still rfl rfl
  | stop =>
      change s.stopStep = some s' at h
      rw [State.stopStep.eq_def] at h
      have joins : ∀ {pc : StopPc}, s.stop = .join ∨ s.stop = .joined →
          s.sys.stop.map (fun sys => { s with sys, stop := pc }) = some s' →
          system.Run s.sys (coarse s .stop).toList s'.sys := by
        intro pc hs h
        obtain ⟨sys, hstop, rfl⟩ := Option.map_eq_some_iff.1 h
        rw [coarse, if_pos hs]
        exact .one hstop
      split at h
      case h_6 hs =>
        obtain ⟨-, h⟩ := Option.ite_none_right_eq_some.1 h
        exact joins (.inl hs) h
      case h_7 hs => exact joins (.inr hs) h
      all_goals rename_i hs
      case h_2 =>
        obtain ⟨-, h⟩ := Option.ite_none_right_eq_some.1 h
        cases h
        exact still (by rw [coarse, hs]; rfl) rfl
      all_goals cases h
      all_goals exact still (by rw [coarse, hs]; rfl) rfl
  | others b =>
      obtain ⟨-, sys, hs, rfl⟩ := others_step h
      exact .one hs

/-- **The two levels.**  Every run of the two threads is, statement by statement, a run of `system`;
and they are never both within the mutex. -/
theorem handshake_refines {as : List Act} (h : machine.Run (start inst) as s) :
    system.Run (init inst) (machine.collect coarse (start inst) as) s.sys ∧
      ¬ (s.cleaner.holds ∧ s.stop.holds) := by
  refine ⟨(h.invariant_collect (I := fun s l => s.Inv ∧ system.Run (init inst) l s.sys) ?_
    ⟨inv_start inst, .refl _⟩).2, ?_⟩
  · rintro s a s' l ⟨hI, hr⟩ hs
    exact ⟨hI.step hs, hr.trans (hI.coarse_step hs)⟩
  · rintro ⟨hc, hs⟩
    have hI := reachable h
    cases (hI.cleaner.1 hc).symm.trans (hI.stop.1 hs)

theorem handshake_refines_closed : system.Run (init twoEngines)
    (machine.collect coarse (start twoEngines) (closing ++ closed)) closedState.sys ∧
      ¬ (closedState.cleaner.holds ∧ closedState.stop.holds) :=
  handshake_refines (run_closing.trans run_closed)

end State

/-! ### The join -/

/-- The statements that the cleanup thread has left once `running_` is false, at most. -/
def CleanerPc.left : CleanerPc → Nat
  | .unlock false => 9
  | .testSize => 8
  | .cleanup => 7
  | .lock => 6
  | .waitFor => 5
  | .waiting => 4
  | .woken => 3
  | .testRunning => 2
  | .unlock true => 1
  | .ended => 0

/-- Those that `stop` has left up to the join. -/
def StopPc.left : StopPc → Nat
  | .notCalled => 6
  | .lock => 5
  | .clearRunning => 4
  | .notifyOne => 3
  | .unlock => 2
  | .join => 1
  | .joined => 0

/-- The passes that the cleanup thread has left. -/
def CleanerPc.passes : CleanerPc → Nat
  | .unlock false | .testSize | .cleanup => 1
  | _ => 0

namespace State
variable {inst : Instances} {s s' : State} {a : Act}

def left (s : State) : Nat := s.cleaner.left + s.stop.left

/-- What a step loses, once `running_` is false. -/
def Loses (s : State) (a : Act) (s' : State) : Prop :=
  s'.running = false ∧ (handshake s a).toList.length + s'.left ≤ s.left ∧
    (pass s a).toList.length + s'.cleaner.passes ≤ s.cleaner.passes

/-- The cleanup thread moves. -/
theorem loses_of_cleaner {now : Int} {sys : Sys} {mutex : Option Owner} {pc : CleanerPc}
    (hr : s.running = false) (hlt : pc.left < s.cleaner.left)
    (hp : (pass s (.cleaner now)).toList.length + pc.passes ≤ s.cleaner.passes) :
    Loses s (.cleaner now) { s with sys, mutex, cleaner := pc } := by
  refine ⟨hr, ?_, hp⟩
  rw [handshake, left, left, Option.toList_some, List.length_singleton]
  dsimp only
  omega

theorem Inv.cleaner_loses {now : Int} (hI : s.Inv) (hr : s.running = false)
    (h : s.cleanerStep now = some s') : Loses s (.cleaner now) s' := by
  rw [State.cleanerStep.eq_def] at h
  split at h
  case h_1 hc | h_4 hc =>
    obtain ⟨-, h⟩ := Option.ite_none_right_eq_some.1 h
    cases h
    exact loses_of_cleaner hr (by rw [hc]; decide) (by simp [pass, hc, CleanerPc.passes])
  case h_3 | h_9 => cases h
  case h_5 hc =>
    cases h
    exact loses_of_cleaner hr (by rw [hc, hr]; decide) (by simp [pass, hc, hr, CleanerPc.passes])
  case h_6 b hc =>
    cases h
    have hb : b = true := by
      rw [← Bool.not_eq_false', ← hI.breaks b hc, hr]
    subst hb
    exact loses_of_cleaner hr (by rw [hc]; decide) (by simp [pass, hc, CleanerPc.passes])
  case h_7 hc =>
    cases h
    split
    all_goals exact loses_of_cleaner hr (by rw [hc]; decide) (by simp [pass, hc, CleanerPc.passes])
  case h_2 hc | h_8 hc =>
    cases h
    exact loses_of_cleaner hr (by rw [hc]; decide) (by simp [pass, hc, CleanerPc.passes])

theorem Inv.stop_loses (hI : s.Inv) (hr : s.running = false) (h : s.stopStep = some s') :
    Loses s .stop s' := by
  have hcl : s.stop.cleared = true := by
    rw [← Bool.not_eq_false', ← hI.running, hr]
  -- the cleanup thread is where it was, or has been notified
  have loses : ∀ {sys : Sys} {mutex : Option Owner} {cl : CleanerPc} {pc : StopPc},
      s.stop ≠ .joined → pc.left < s.stop.left → cl.left ≤ s.cleaner.left →
      cl.passes = s.cleaner.passes →
      Loses s .stop { s with sys, mutex, cleaner := cl, stop := pc } := by
    intro sys mutex cl pc hne hlt hle hp
    refine ⟨hr, ?_, ?_⟩
    · rw [handshake, if_neg hne, left, left, Option.toList_some, List.length_singleton]
      dsimp only
      omega
    · exact Nat.le_of_eq ((Nat.zero_add _).trans hp)
  rw [State.stopStep.eq_def] at h
  split at h
  case h_1 hs | h_2 hs | h_3 hs => rw [hs] at hcl; cases hcl
  case h_4 hs =>
    cases h
    refine loses (by rw [hs]; nofun) (by rw [hs]; decide) ?_ ?_
    · split <;> simp [*, CleanerPc.left]
    · split <;> simp [*, CleanerPc.passes]
  case h_5 hs =>
    cases h
    exact loses (by rw [hs]; nofun) (by rw [hs]; decide) (Nat.le_refl _) rfl
  case h_6 hs =>
    obtain ⟨-, h⟩ := Option.ite_none_right_eq_some.1 h
    obtain ⟨sys, -, rfl⟩ := Option.map_eq_some_iff.1 h
    exact loses (by rw [hs]; nofun) (by rw [hs]; decide) (Nat.le_refl _) rfl
  case h_7 hs =>
    obtain ⟨sys, -, rfl⟩ := Option.map_eq_some_iff.1 h
    refine ⟨hr, ?_, Nat.le_of_eq (Nat.zero_add _)⟩
    rw [handshake, if_pos hs]
    exact Nat.le_of_eq (Nat.zero_add _)

theorem Inv.loses (hI : s.Inv) (hr : s.running = false) (h : machine.step s a = some s') :
    Loses s a s' := by
  cases a with
  | cleaner now => exact hI.cleaner_loses hr h
  | wake =>
      obtain ⟨hc, h⟩ := Option.ite_none_right_eq_some.1 h
      cases h
      refine ⟨hr, ?_, ?_⟩
      · rw [handshake, left, left, hc, Option.toList_some, List.length_singleton]
        simp only [CleanerPc.left]
        omega
      · rw [hc]
        exact Nat.le_refl 0
  | stop => exact hI.stop_loses hr h
  | others b =>
      obtain ⟨-, sys, -, rfl⟩ := others_step h
      exact ⟨hr, Nat.le_of_eq (Nat.zero_add _), Nat.le_of_eq (Nat.zero_add _)⟩

/-- Who has the mutex can go on. -/
theorem cleaner_enabled (h : s.cleaner.holds = true) : s.cleanerStep 0 ≠ none := by
  rw [State.cleanerStep.eq_def]
  cases hc : s.cleaner with
  | waitFor | testRunning | unlock => exact Option.some_ne_none _
  | _ =>
      rw [hc] at h
      cases h

/-- One of the two can go on, until `stop` has joined the thread. -/
theorem Inv.enabled (hI : s.Inv) (hn : s.stop ≠ .notCalled) (hj : s.stop ≠ .joined) :
    ∃ a b, handshake s a = some b ∧ machine.step s a ≠ none := by
  have stops : s.stopStep ≠ none → ∃ a b, handshake s a = some b ∧ machine.step s a ≠ none :=
    fun h => ⟨.stop, .stop, if_neg hj, h⟩
  have cleans : s.cleanerStep 0 ≠ none → ∃ a b, handshake s a = some b ∧ machine.step s a ≠ none :=
    fun h => ⟨.cleaner 0, .cleaner 0, rfl, h⟩
  cases hs : s.stop with
  | notCalled => exact absurd hs hn
  | joined => exact absurd hs hj
  | clearRunning | notifyOne | unlock =>
      refine stops ?_
      rw [State.stopStep, hs]
      exact Option.some_ne_none _
  | lock =>
      by_cases hm : s.mutex = none
      · refine stops ?_
        rw [State.stopStep, hs]
        dsimp only
        rw [if_pos hm]
        exact Option.some_ne_none _
      · have hc : s.cleaner.holds = true := by
          rw [hI.cleaner]
          obtain ⟨o, ho⟩ := Option.ne_none_iff_exists'.1 hm
          cases o with
          | cleaner => exact ho
          | stop => exact absurd ho (hI.not_stop (by rw [hs]; rfl))
        exact cleans (cleaner_enabled hc)
  | join =>
      by_cases hh : s.cleaner.holds = true
      · exact cleans (cleaner_enabled hh)
      have hm : s.mutex = none := by
        by_contra hm
        obtain ⟨o, ho⟩ := Option.ne_none_iff_exists'.1 hm
        cases o with
        | cleaner => exact hh (hI.cleaner.2 ho)
        | stop => exact hI.not_stop (by rw [hs]; rfl) ho
      cases hc : s.cleaner with
      | waitFor | testRunning | unlock => rw [hc] at hh; exact absurd rfl hh
      | lock | woken =>
          refine cleans ?_
          rw [State.cleanerStep, hc]
          dsimp only
          rw [if_pos hm]
          exact Option.some_ne_none _
      | waiting =>
          refine ⟨.wake, .wake, rfl, ?_⟩
          change (if s.cleaner = .waiting then _ else _) ≠ none
          rw [if_pos hc]
          exact Option.some_ne_none _
      | testSize | cleanup =>
          refine cleans ?_
          rw [State.cleanerStep, hc]
          exact Option.some_ne_none _
      | ended =>
          refine stops ?_
          rw [State.stopStep, hs]
          dsimp only
          rw [if_pos hc, Sys.stop, hI.sys.resolve_right hj]
          exact Option.some_ne_none _

theorem Inv.left_le (hI : s.Inv) (hr : s.running = false) :
    s.left ≤ 11 ∧ s.cleaner.passes ≤ 1 := by
  have hcl : s.stop.cleared = true := by
    rw [← Bool.not_eq_false', ← hI.running, hr]
  have hs : s.stop.left ≤ 3 := by
    cases hs : s.stop with
    | notCalled | lock | clearRunning => rw [hs] at hcl; cases hcl
    | notifyOne | unlock | join | joined => decide
  have hc : s.cleaner.left ≤ 8 ∧ s.cleaner.passes ≤ 1 := by
    cases hc : s.cleaner with
    | unlock b =>
        have hb := hI.breaks b hc
        rw [hr] at hb
        cases b with
        | true => decide
        | false => cases hb
    | _ => decide
  exact ⟨Nat.le_trans (Nat.add_le_add hc.1 hs) (by decide), hc.2⟩

/-- The bounds are reached. -/
example : (machine.collect handshake closingState closed).length = 11 ∧
    (machine.collect pass closingState closed).length = 1 ∧ closedState.stop = .joined := by
  decide

end State
end DistDpi.CleanupThread
