import DistDpi.Packet.Delivery

/-!
# Packet — wakeup

How `PacketProducer` and `PacketHandler::stop` wake `PacketConsumer`: the accesses of the three to
`queue_`, `notify`, `running_` and `m_cv`, in any order.  `queue_` is the store that it refines
(`queue_refines_fifo`).  `m_mutex` is taken by the consumer alone, so it orders nothing.

A thread that is notified may be late twice.  The consumer clears `notify` after it has found the
queue empty, and with it what was set in between; and it may test `notify` before it is set, and
enter `wait` after the notification.  Either leaves it blocked with packets in the queue, or with
`running_` false (`not_notStranded_clear`).  Where neither happens it is not (`notStranded`), and
a step where either does strands it, unless another call comes first (`lost`).
-/

namespace DistDpi.Wakeup

/-- Where `stop` is. -/
inductive StopPc where
  | notCalled | clearRunning | setNotify | notifyOne | joining | returned
  deriving DecidableEq, Repr

/-- Where `PacketProducer` is. -/
inductive ProducerPc where
  | idle
  | write (mdata : PktMdata)
  | setNotify
  | notifyOne
  deriving DecidableEq, Repr

/-- Where `PacketConsumer` is.  `wait` is before the call of `m_cv.wait`, and `blocked` in it;
`stops` is in its exception handler. -/
inductive ConsumerPc where
  | testNotify | wait | blocked | testRunning | testEmpty | read | classify | clear | ended
  | stops (pc : StopPc)
  deriving DecidableEq, Repr

/-- The queue, the variables the three threads share, and where each thread is. -/
structure State where
  queue : Fifo PktMdata := .empty
  notify : Bool := false
  running : Bool := true
  producer : ProducerPc := .idle
  consumer : ConsumerPc := .testNotify
  stop : StopPc := .notCalled

inductive Act where
  | packet (mdata : PktMdata)
  | producer
  | stop
  | stopping
  | consumer
  | throws
  | spurious

/-- The queue, as its two threads see it. -/
def fifo : Machine (Fifo PktMdata) (Option PktMdata) :=
  Fifo.machine PktMdata (Delivery.queueSize.val - 1)

namespace State

/-- `m_cv.notify_one()`. -/
def notifyOne (s : State) : State :=
  { s with consumer := if s.consumer = .blocked then .testNotify else s.consumer }

/-- The next access of a thread that is in `stop`.  The consumer, which joins itself when it calls
`stop`, gets no further than that. -/
def stopAccess (s : State) : StopPc → Option (State × StopPc)
  | .notCalled | .returned => none
  | .clearRunning => some ({ s with running := false }, .setNotify)
  | .setNotify => some ({ s with notify := true }, .notifyOne)
  | .notifyOne => some (s.notifyOne, .joining)
  | .joining => if s.consumer = .ended then some (s, .returned) else none

def producerStep (s : State) : Option State :=
  match s.producer with
  | .idle => none
  | .write mdata =>
      match fifo.step s.queue (some mdata) with
      | some queue => some { s with queue, producer := .setNotify }
      | none => some s
  | .setNotify => some { s with notify := true, producer := .notifyOne }
  | .notifyOne => some { s.notifyOne with producer := .idle }

def consumerStep (s : State) : Option State :=
  match s.consumer with
  | .testNotify => some { s with consumer := if s.notify then .testRunning else .wait }
  | .wait => some { s with consumer := .blocked }
  | .blocked | .ended => none
  | .testRunning => some { s with consumer := if s.running then .testEmpty else .ended }
  | .testEmpty =>
      some { s with consumer := if s.queue.contents.isEmpty then .clear else .read }
  | .read => some { s with queue := (fifo.step s.queue none).getD s.queue, consumer := .classify }
  | .classify => some { s with consumer := .testEmpty }
  | .clear => some { s with notify := false, consumer := .testNotify }
  | .stops pc => (s.stopAccess pc).map fun (s, pc) => { s with consumer := .stops pc }

def step (s : State) : Act → Option State
  | .packet mdata =>
      match s.producer with
      | .idle => some { s with producer := .write mdata }
      | _ => none
  | .producer => s.producerStep
  | .stop => if s.stop = .notCalled then some { s with stop := .clearRunning } else none
  | .stopping => (s.stopAccess s.stop).map fun (s, pc) => { s with stop := pc }
  | .consumer => s.consumerStep
  | .throws =>
      if s.consumer = .classify then some { s with consumer := .stops .clearRunning } else none
  | .spurious =>
      if s.consumer = .blocked then some { s with consumer := .testNotify } else none

/-! ### The property and the condition -/

/-- There is something to wake the consumer for. -/
def Work (s : State) : Prop := s.queue.contents ≠ [] ∨ s.running = false

/-- A call of `PacketProducer` that has not notified the consumer yet. -/
def Producing (s : State) : Prop := s.producer ≠ .idle

/-- A call of `stop` that has not. -/
def Stopping (s : State) : Prop :=
  s.stop = .clearRunning ∨ s.stop = .setNotify ∨ s.stop = .notifyOne

/-- **The property.**  A consumer that is blocked while no call is in progress has no work. -/
def NotStranded (s : State) : Prop :=
  s.consumer = .blocked → ¬ s.Producing → ¬ s.Stopping →
    s.queue.contents = [] ∧ s.running = true

/-- A call will set `notify`. -/
def WillSet (s : State) : Prop :=
  (s.Producing ∧ s.producer ≠ .notifyOne) ∨ s.stop = .clearRunning ∨ s.stop = .setNotify

/-- **The condition on a step.**  `notify` is cleared only where there is no work, or a call will
set it; and a consumer that is about to wait is notified only where there is no work, or another
call has not notified it yet. -/
def WakeOk (s : State) : Act → Prop
  | .consumer => s.consumer = .clear → s.Work → s.WillSet
  | .producer => s.producer = .notifyOne → s.consumer = .wait → s.Work → s.Stopping
  | .stopping => s.stop = .notifyOne → s.consumer = .wait → s.Work → s.Producing
  | _ => True

instance (s : State) : Decidable s.Work := inferInstanceAs (Decidable (_ ∨ _))

instance (s : State) : Decidable s.Producing := inferInstanceAs (Decidable (¬ _))

instance (s : State) : Decidable s.Stopping := inferInstanceAs (Decidable (_ ∨ _))

instance (s : State) : Decidable s.WillSet := inferInstanceAs (Decidable (_ ∨ _))

instance (s : State) : ∀ a, Decidable (s.WakeOk a)
  | .consumer | .producer | .stopping => inferInstanceAs (Decidable (_ → _))
  | .packet _ | .stop | .throws | .spurious => inferInstanceAs (Decidable True)

end State

/-- **The three threads around `m_cv`.** -/
def system : Machine State Act := ⟨State.step⟩

namespace State
variable {s s' : State} {a : Act}

/-! ### The invariant -/

/-- Where there is work, a consumer that is to test `notify` will find it set, and one that is to
wait or waiting will be notified. -/
structure Inv (s : State) : Prop where
  test : s.consumer = .testNotify → s.Work → s.notify = true ∨ s.WillSet
  wait : s.consumer = .wait ∨ s.consumer = .blocked → s.Work →
    s.WillSet ∨ s.notify = true ∧ (s.Producing ∨ s.Stopping)

theorem inv_init : Inv {} where
  test _ hw := hw.elim (fun h => absurd rfl h) nofun
  wait h := h.elim nofun nofun

/-- The consumer is elsewhere. -/
theorem Inv.of_elsewhere (ht : s.consumer ≠ .testNotify) (hw : s.consumer ≠ .wait)
    (hb : s.consumer ≠ .blocked) : s.Inv :=
  ⟨fun h => absurd h ht, fun h => h.elim (fun h => absurd h hw) fun h => absurd h hb⟩

/-- A call that is going to set `notify` is good for everything. -/
theorem Inv.of_willSet (h : s.WillSet) : s.Inv := ⟨fun _ _ => .inr h, fun _ _ => .inl h⟩

/-- A call that has set `notify`, and has not notified yet. -/
theorem Inv.of_notify (hn : s.notify = true) (h : s.Producing ∨ s.Stopping) : s.Inv :=
  ⟨fun _ _ => .inl hn, fun _ _ => .inr ⟨hn, h⟩⟩

/-- A call notifies the consumer, and is done. -/
theorem Inv.notified (hI : s.Inv) (hw : s'.Work → s.Work) (hn : s'.notify = s.notify)
    (hc : s'.consumer = s.notifyOne.consumer) (hset : s.WillSet → s'.WillSet)
    (hlate : s.consumer = .wait → s.Work → s'.Producing ∨ s'.Stopping) : s'.Inv := by
  simp only [notifyOne] at hc
  split at hc
  · rename_i hb
    -- it wakes up, and will test what the call has set
    refine ⟨fun _ h => ?_, fun h => ?_⟩
    · rcases hI.wait (.inr hb) (hw h) with h | ⟨h, -⟩
      · exact .inr (hset h)
      · exact .inl (hn.trans h)
    · rw [hc] at h
      exact h.elim nofun nofun
  · rename_i hb
    refine ⟨fun ht h => ?_, fun h hwork => ?_⟩
    · rw [hn]
      exact (hI.test (hc ▸ ht) (hw h)).imp id hset
    · rw [hc] at h
      have hwait := h.resolve_right hb
      rw [hn]
      exact (hI.wait h (hw hwork)).imp hset fun k => ⟨k.1, hlate hwait (hw hwork)⟩

theorem Inv.producer (hI : s.Inv) (hC : s.WakeOk .producer) (h : s.producerStep = some s') :
    s'.Inv := by
  rw [producerStep.eq_def] at h
  split at h
  · cases h
  · rename_i m hp
    split at h <;> cases h
    · exact .of_willSet (.inl ⟨nofun, nofun⟩)
    · exact hI
  · cases h
    exact .of_notify rfl (.inl nofun)
  · rename_i hp
    cases h
    refine hI.notified id rfl rfl ?_ fun hc hw => .inr (hC hp hc hw)
    rintro (⟨-, h⟩ | h)
    · exact absurd hp h
    · exact .inr h

/-- The next access in a call of `stop` that is not the consumer's own. -/
theorem Inv.stopping (hI : s.Inv) (hC : s.WakeOk .stopping)
    (h : (s.stopAccess s.stop).map (fun (s, pc) => { s with stop := pc }) = some s') : s'.Inv := by
  obtain ⟨⟨s₁, pc⟩, ha, rfl⟩ := Option.map_eq_some_iff.mp h
  rw [stopAccess.eq_def] at ha
  split at ha
  · cases ha
  · cases ha
  · cases ha
    exact .of_willSet (.inr (.inr rfl))
  · cases ha
    exact .of_notify rfl (.inr (.inr (.inr rfl)))
  · rename_i hs
    cases ha
    refine hI.notified id rfl rfl ?_ fun hc hw => .inl (hC hs hc hw)
    rintro (h | h | h)
    · exact .inl h
    · cases hs.symm.trans h
    · cases hs.symm.trans h
  · obtain ⟨he, ha⟩ := Option.ite_none_right_eq_some.mp ha
    cases ha
    refine .of_elsewhere ?_ ?_ ?_ <;> (intro h; cases he.symm.trans h)

theorem Inv.consumer (hI : s.Inv) (hC : s.WakeOk .consumer) (h : s.consumerStep = some s') :
    s'.Inv := by
  rw [consumerStep.eq_def] at h
  split at h
  · rename_i hc
    cases h
    cases hn : s.notify
    · refine ⟨nofun, fun _ hw => ?_⟩
      rcases hI.test hc hw with h | h
      · cases hn.symm.trans h
      · exact .inl h
    · exact .of_elsewhere nofun nofun nofun
  · rename_i hc
    cases h
    exact ⟨nofun, fun _ => hI.wait (.inl hc)⟩
  · cases h
  · cases h
  · cases h
    cases hr : s.running <;> exact .of_elsewhere nofun nofun nofun
  · cases h
    cases he : s.queue.contents.isEmpty <;> exact .of_elsewhere nofun nofun nofun
  · cases h
    exact .of_elsewhere nofun nofun nofun
  · cases h
    exact .of_elsewhere nofun nofun nofun
  · rename_i hc
    cases h
    exact ⟨fun _ hw => .inr (hC hc hw), fun h => h.elim nofun nofun⟩
  · obtain ⟨⟨s₁, pc⟩, ha, rfl⟩ := Option.map_eq_some_iff.mp h
    exact .of_elsewhere nofun nofun nofun

theorem Inv.step (hI : s.Inv) (hC : s.WakeOk a) (h : system.step s a = some s') : s'.Inv := by
  change s.step a = some s' at h
  cases a with
  | packet mdata =>
      rw [State.step] at h
      split at h <;> cases h
      exact .of_willSet (.inl ⟨nofun, nofun⟩)
  | producer => exact hI.producer hC h
  | stop =>
      obtain ⟨-, h⟩ := Option.ite_none_right_eq_some.mp h
      cases h
      exact .of_willSet (.inr (.inl rfl))
  | stopping => exact hI.stopping hC h
  | consumer => exact hI.consumer hC h
  | throws =>
      obtain ⟨-, h⟩ := Option.ite_none_right_eq_some.mp h
      cases h
      exact .of_elsewhere nofun nofun nofun
  | spurious =>
      obtain ⟨hb, h⟩ := Option.ite_none_right_eq_some.mp h
      cases h
      refine ⟨fun _ hw => ?_, fun h => h.elim nofun nofun⟩
      exact (hI.wait (.inr hb) hw).elim .inr fun k => .inl k.1

theorem Inv.not_stranded (hI : s.Inv) : s.NotStranded := by
  intro hb hp hs
  have idle : ¬ s.Work := fun hw => by
    rcases hI.wait (.inr hb) hw with (h | h | h) | ⟨-, h⟩
    · exact hp h.1
    · exact hs (.inl h)
    · exact hs (.inr (.inl h))
    · exact h.elim hp hs
  rw [Work, not_or, ne_eq, not_not] at idle
  exact ⟨idle.1, by simpa using idle.2⟩

/-! ### A notification that is lost -/

/-- The consumer can go on to be blocked with work to do, with no other call than those that are
in progress. -/
def CanStrand (s : State) : Prop :=
  ∃ as ⊆ [.producer, .stopping, .consumer], ∃ s', system.Run s as s' ∧ ¬ s'.NotStranded

theorem CanStrand.before (h : s'.CanStrand) (hs : system.step s a = some s')
    (ha : a ∈ [.producer, .stopping, .consumer]) : s.CanStrand := by
  obtain ⟨as, has, s'', hr, hn⟩ := h
  exact ⟨a :: as, List.cons_subset.mpr ⟨ha, has⟩, s'', .more hs hr, hn⟩

/-- It is about to wait. -/
theorem canStrand_wait (hc : s.consumer = .wait) (hw : s.Work) (hp : ¬ s.Producing)
    (hs : ¬ s.Stopping) : s.CanStrand := by
  refine ⟨[.consumer], by simp, { s with consumer := .blocked }, .one ?_, fun h => ?_⟩
  · change s.consumerStep = _
    rw [consumerStep, hc]
  · obtain ⟨hq, hr⟩ := h rfl hp hs
    exact hw.elim (fun h => h hq) fun h => Bool.false_ne_true (h.symm.trans hr)

/-- It is about to find `notify` cleared. -/
theorem canStrand_testNotify (hc : s.consumer = .testNotify) (hn : s.notify = false) (hw : s.Work)
    (hp : ¬ s.Producing) (hs : ¬ s.Stopping) : s.CanStrand := by
  have h : system.step s .consumer = some { s with consumer := .wait } := by
    change s.consumerStep = _
    rw [consumerStep, hc, hn]
    rfl
  have hwait : CanStrand { s with consumer := .wait } := canStrand_wait rfl hw hp hs
  exact hwait.before h (by simp)

/-- A consumer that is not blocked is not woken. -/
theorem notifyOne_of_ne (hc : s.consumer ≠ .blocked) : s.notifyOne = s := by
  rw [notifyOne, if_neg hc]

/-- It is, and `stop` may be about to notify it. -/
theorem canStrand_stopping (hc : s.consumer = .testNotify) (hn : s.notify = false) (hw : s.Work)
    (hp : ¬ s.Producing) (h₁ : s.stop ≠ .clearRunning) (h₂ : s.stop ≠ .setNotify) :
    s.CanStrand := by
  by_cases h₃ : s.stop = .notifyOne
  · have h : system.step s .stopping = some { s with stop := .joining } := by
      change (s.stopAccess s.stop).map _ = _
      rw [h₃, stopAccess, notifyOne_of_ne (hc ▸ nofun)]
      rfl
    have hj : CanStrand { s with stop := .joining } :=
      canStrand_testNotify hc hn hw hp (by rintro (h | h | h) <;> cases h)
    exact hj.before h (by simp)
  · exact canStrand_testNotify hc hn hw hp (by rintro (h | h | h) <;> contradiction)

/-- It is, and the calls in progress have set `notify` before it was cleared. -/
theorem canStrand_cleared (hc : s.consumer = .testNotify) (hn : s.notify = false) (hw : s.Work)
    (hset : ¬ s.WillSet) : s.CanStrand := by
  obtain ⟨hp, hs⟩ := not_or.mp hset
  obtain ⟨h₁, h₂⟩ := not_or.mp hs
  by_cases hi : s.Producing
  · have hone : s.producer = .notifyOne := not_not.mp fun h => hp ⟨hi, h⟩
    have h : system.step s .producer = some { s with producer := .idle } := by
      change s.producerStep = _
      rw [producerStep, hone]
      dsimp only
      rw [notifyOne_of_ne (hc ▸ nofun)]
    have hidle : CanStrand { s with producer := .idle } :=
      canStrand_stopping hc hn hw (fun h => h rfl) h₁ h₂
    exact hidle.before h (by simp)
  · exact canStrand_stopping hc hn hw hi h₁ h₂

/-- **The condition is exact**: a step that does not meet it strands the consumer, unless another
call comes first. -/
theorem lost (hC : ¬ s.WakeOk a) (h : system.step s a = some s') : s'.CanStrand := by
  change s.step a = some s' at h
  cases a with
  | consumer =>
      simp only [WakeOk, Classical.not_imp] at hC
      obtain ⟨hc, hw, hset⟩ := hC
      rw [State.step, consumerStep, hc] at h
      cases h
      exact canStrand_cleared rfl rfl hw hset
  | producer =>
      simp only [WakeOk, Classical.not_imp] at hC
      obtain ⟨hp, hc, hw, hs⟩ := hC
      rw [State.step, producerStep, hp] at h
      dsimp only at h
      rw [notifyOne_of_ne (hc ▸ nofun)] at h
      cases h
      exact canStrand_wait hc hw (fun h => h rfl) hs
  | stopping =>
      simp only [WakeOk, Classical.not_imp] at hC
      obtain ⟨hs, hc, hw, hp⟩ := hC
      rw [State.step, hs, stopAccess, notifyOne_of_ne (hc ▸ nofun)] at h
      cases h
      exact canStrand_wait hc hw hp (by rintro (h | h | h) <;> cases h)
  | packet | stop | throws | spurious => exact absurd trivial hC

end State

/-- **No stranded work**, in every run whose steps meet the condition. -/
theorem notStranded {as : List Act} {s : State} (h : system.Run {} as s)
    (hC : system.Along State.WakeOk {} as) : s.NotStranded :=
  (h.invariant_along (fun _ _ _ hI hC hs => hI.step hC hs) hC State.inv_init).not_stranded

/-- The consumer is blocked, is woken for a packet, and is blocked again. -/
theorem notStranded_woken : ∃ s, system.Run {} ([.consumer, .consumer, .packet default, .producer,
    .producer, .producer] ++ List.replicate 9 .consumer) s ∧ s.consumer = .blocked ∧
    s.NotStranded := by
  have h : system.Run {} ([.consumer, .consumer, .packet default, .producer, .producer,
    .producer] ++ List.replicate 9 .consumer) _ := Machine.run_of_exec (by decide)
  exact ⟨_, h, rfl, notStranded h (by decide)⟩

/-- A packet comes, and its call returns, after the consumer has found the queue empty and before
it clears `notify`. -/
theorem not_notStranded_clear : ¬ ∀ (as : List Act) (s : State),
    system.Run {} as s → s.NotStranded := by
  intro h
  have hr : system.Run {} ([.packet default, .producer, .producer, .producer] ++
      List.replicate 6 .consumer ++ [.packet default, .producer, .producer, .producer] ++
      List.replicate 3 .consumer) _ := Machine.run_of_exec (by decide)
  obtain ⟨hq, -⟩ := h _ _ hr rfl (by decide) (by decide)
  cases hq

end DistDpi.Wakeup
