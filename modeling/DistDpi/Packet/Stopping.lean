import DistDpi.Packet.Handler

/-!
# Packet — stopping

`PacketHandler::stop` returns, after no more steps than what is in the queue allows for
(`handler_stops`), with two exceptions.  `selectEventLoop` may be entered after `stop_netx_service`,
and is then never told to end (`State.Deaf`); and the last callbacks may wait for room in a queue
from which the consumer takes nothing any more (`Jam`).  From there it does not return
(`handler_hangs`), and both are reached (`deaf_of_entered`, `exists_jam`).
-/

namespace DistDpi.PacketHandler
open Wakeup (ConsumerPc ProducerPc)

section
variable {t t' : Wakeup.State} {b : Wakeup.Act}

/-! ### What is left -/

/-- What the thread of `start_netx_service` has left, and what `stop` has left with it, once it has
been told to end. -/
def NetxPc.left : NetxPc → Nat
  | .ended => 0
  | .starting | .selecting => 1
  | .processing => 2

def NetxStop.left : NetxStop → Nat
  | .stopNetx => 2
  | .join => 1
  | .joined => 0

/-- What the producer has left, and what it gives the consumer to do. -/
def producerLeft : ProducerPc → Nat
  | .idle => 0
  | .notifyOne => 3
  | .setNotify => 4
  | .write _ => 8

/-- What the consumer has left once `running_` is false, apart from what is in the queue. -/
def consumerLeft : ConsumerPc → Nat
  | .ended | .blocked | .stops _ => 0
  | .wait | .testRunning => 1
  | .testNotify => 2
  | .clear | .read => 3
  | .testEmpty => 4
  | .classify => 5

/-- What the threads around `m_cv` have left. -/
def left (t : Wakeup.State) : Nat :=
  3 * t.queue.contents.length + producerLeft t.producer + consumerLeft t.consumer +
    if t.stop = .returned then 0 else 1

/-- What a callback adds, and a wake-up that nobody has sent. -/
def cost : Wakeup.Act → Nat
  | .packet _ => 9
  | .spurious => 3
  | _ => 0

def Act.cost : Act → Nat
  | .packet mdata => PacketHandler.cost (.packet mdata)
  | .spurious => PacketHandler.cost .spurious
  | _ => 0

def writes : ProducerPc → Bool
  | .write _ => true
  | _ => false

/-- The producer finds no room. -/
def Waits (t : Wakeup.State) : Prop := writes t.producer = true ∧ ¬ HasRoom t

instance (t : Wakeup.State) : Decidable (Waits t) := inferInstanceAs (Decidable (_ ∧ _))

theorem left_notifyOne : left t.notifyOne ≤ left t + 2 := by
  rw [Wakeup.State.notifyOne, left, left]
  dsimp only
  split
  case isTrue hb =>
    rw [hb, consumerLeft, consumerLeft]
    omega
  case isFalse => omega

theorem Access.waits_eq (h : Access t .producer t') (hw : Waits t) : t' = t := by
  cases h with
  | wrote hp hroom => exact absurd hroom hw.2
  | full => rfl
  | produced hp | notified hp => rw [Waits, hp] at hw; cases hw.1

/-- `stop` is joining, so that `running_` is false. -/
theorem Access.left_lt (h : Access t b t') (hc : Calm t) (hb : b ≠ .throws)
    (hs : t.stop = .joining ∨ t.stop = .returned) (hw : b = .producer → ¬ Waits t) :
    left t' < left t + cost b := by
  have hr := hc.stopped hs
  cases h with
  | packet hp => simp only [left, hp, producerLeft, cost]; omega
  | wrote hp hroom hq =>
      simp only [left, hp, hq, producerLeft, cost, List.length_append, List.length_singleton]
      omega
  | full hp hroom =>
      refine absurd ⟨?_, hroom⟩ (hw rfl)
      rw [hp]
      rfl
  | produced hp => simp only [left, hp, producerLeft, cost]; omega
  | notified hp =>
      have hn := left_notifyOne (t := t)
      have hp' : t.notifyOne.producer = .notifyOne := hp
      simp only [left, hp', producerLeft, cost] at hn ⊢
      omega
  | called h | cleared h | told h | woke h => rcases hs with hs | hs <;> cases h.symm.trans hs
  | joined h =>
      simp only [left, h, cost]
      exact Nat.add_lt_add_left Nat.zero_lt_one _
  | waits h | classifies h | clears h => simp only [left, h, consumerLeft, cost]; omega
  | testsNotify h =>
      have hlt : consumerLeft (if t.notify then .testRunning else .wait) <
          consumerLeft t.consumer := by
        rw [h]
        split <;> decide
      simp only [left, cost]
      omega
  | testsRunning h =>
      simp only [left, h, hr, cost]
      exact Nat.add_lt_add_right (Nat.add_lt_add_left Nat.zero_lt_one _) _
  | testsEmpty h =>
      have hlt : consumerLeft (if t.queue.contents.isEmpty then .clear else .read) <
          consumerLeft t.consumer := by
        rw [h]
        split <;> decide
      simp only [left, cost]
      omega
  | reads h hq =>
      have hpos := List.length_pos_of_ne_nil (hc.reads h)
      simp only [left, h, hq, consumerLeft, cost, List.length_tail]
      omega
  | own h => exact absurd h (hc.consumer _)
  | throws => exact absurd rfl hb
  | wakes h => simp only [left, h, consumerLeft, cost]; omega

/-- A consumer that has ended stays so. -/
theorem Access.ended (h : Access t b t') (hc : t.consumer = .ended) : t'.consumer = .ended := by
  have notified : t.notifyOne.consumer = .ended := by
    have hb : t.consumer ≠ .blocked := fun h => by cases hc.symm.trans h
    rw [Wakeup.State.notifyOne, if_neg hb, hc]
  cases h with
  | notified | woke => exact notified
  | testsNotify h | waits h | testsRunning h | testsEmpty h | reads h | classifies h | clears h
  | own h | throws h | wakes h => cases hc.symm.trans h
  | _ => exact hc

/-! ### The jam -/

/-- The consumer is outside of its inner loop, or at its end. -/
def outside : ConsumerPc → Bool
  | .testNotify | .wait | .blocked | .testRunning | .ended => true
  | .testEmpty | .read | .classify | .clear | .stops _ => false

/-- **The jam.**  The producer waits for room, and the consumer takes nothing any more. -/
structure Jam (t : Wakeup.State) : Prop where
  waits : Waits t
  running : t.running = false
  consumer : outside t.consumer = true

theorem jam_iff : Jam t ↔ Waits t ∧ t.running = false ∧ outside t.consumer = true :=
  ⟨fun h => ⟨h.1, h.2, h.3⟩, fun h => ⟨h.1, h.2.1, h.2.2⟩⟩

instance (t : Wakeup.State) : Decidable (Jam t) := decidable_of_iff' _ jam_iff

theorem Jam.consumer_ne (hj : Jam t) {pc : ConsumerPc} (hp : outside pc = false) :
    t.consumer ≠ pc := by
  rintro rfl
  cases hp.symm.trans hj.consumer

/-- Nobody leaves it. -/
theorem Access.jam (h : Access t b t') (hj : Jam t) : Jam t' := by
  have hw := hj.waits
  have hr := hj.running
  have ho := hj.consumer
  have notified : outside t.notifyOne.consumer = true := by
    rw [Wakeup.State.notifyOne]
    dsimp only
    split
    · rfl
    · exact ho
  cases h with
  | packet hp | produced hp | notified hp => rw [Waits, hp] at hw; cases hw.1
  | wrote hp hroom => exact absurd hroom hw.2
  | full => exact ⟨hw, hr, ho⟩
  | called | told | joined => exact ⟨hw, hr, ho⟩
  | cleared => exact ⟨hw, rfl, ho⟩
  | woke => exact ⟨hw, hr, notified⟩
  | testsNotify =>
      refine ⟨hw, hr, ?_⟩
      dsimp only
      split <;> rfl
  | testsRunning => exact ⟨hw, hr, by rw [hr]; rfl⟩
  | waits | wakes => exact ⟨hw, hr, rfl⟩
  | testsEmpty hc | reads hc | classifies hc | clears hc | own hc | throws hc =>
      exact absurd hc (hj.consumer_ne rfl)

end

namespace State
variable {s s' : State} {a : Act} {as bs : List Act}

/-! ### The conditions -/

/-- **The condition on a step.**  `selectEventLoop` is not entered after `stop_netx_service`, no
wake-up is lost, and nothing is thrown. -/
def StepOk (s : State) : Act → Prop
  | .start true => s.stop = .stopNetx
  | .producer => s.threads.WakeOk .producer
  | .stopping => s.threads.WakeOk .stopping
  | .consumer => s.threads.WakeOk .consumer
  | .throws => False
  | .start false | .select | .packet _ | .turn _ | .stop | .spurious => True

/-- The loop has been told to end. -/
def Told (s : State) : Prop := s.stop ≠ .stopNetx → s.netxRunning = false

instance (s : State) : ∀ a, Decidable (s.StepOk a)
  | .start true => inferInstanceAs (Decidable (_ = _))
  | .producer => inferInstanceAs (Decidable (s.threads.WakeOk .producer))
  | .stopping => inferInstanceAs (Decidable (s.threads.WakeOk .stopping))
  | .consumer => inferInstanceAs (Decidable (s.threads.WakeOk .consumer))
  | .throws => inferInstanceAs (Decidable False)
  | .start false | .select | .packet _ | .turn _ | .stop | .spurious =>
      inferInstanceAs (Decidable True)

theorem Change.told (h : Change s a s') (hok : s.StepOk a) (hT : s.Told) (hI : s.Inv) :
    s'.Told := by
  cases h with
  | stopsNetx => exact fun _ => rfl
  | joins hj hs hn => exact fun _ => hT (by rw [hs]; nofun)
  | own hs => exact absurd hs (hI.calm.consumer _)
  | entered hn => exact fun hs => absurd hok hs
  | _ => exact hT

/-- `stop_netx_service` is called once. -/
theorem Change.stop_ne (h : Change s a s') (hI : s.Inv) (hs : s.stop ≠ .stopNetx) :
    s'.stop ≠ .stopNetx := by
  cases h with
  | stopsNetx | joins => nofun
  | own h => exact absurd h (hI.calm.consumer _)
  | _ => exact hs

/-- The threads around `m_cv` are as in `Wakeup`. -/
theorem Change.waking (h : Change s a s') (hok : s.StepOk a) (hW : s.threads.Inv) (hI : s.Inv) :
    s'.threads.Inv := by
  cases h with
  | packet hn h => exact hW.step (a := .packet _) trivial h
  | stop h => exact hW.step (a := .stop) trivial h
  | spurious h => exact hW.step (a := .spurious) trivial h
  | producer h => exact hW.step (a := .producer) hok h
  | consumer h => exact hW.step (a := .consumer) hok h
  | stopping hj h => exact hW.step (a := .stopping) hok h
  | own hs => exact absurd hs (hI.calm.consumer _)
  | throws => exact hok.elim
  | _ => exact hW

/-! ### The bound -/

/-- A step that gets a thread on.  A write that finds no room does not. -/
def moves (s : State) : Act → Option Act
  | .producer => if Waits s.threads then none else some .producer
  | a => some a

/-- What the threads and `stop` have left once `stop_netx_service` has been called. -/
def work (s : State) : Nat := left s.threads + s.netx.left + s.stop.left

theorem Change.work_le (h : Change s a s') (hI : s.Inv) (hok : s.StepOk a) (hT : s.Told)
    (hs : s.stop ≠ .stopNetx) : (s.moves a).toList.length + s'.work ≤ s.work + a.cost := by
  have hj := hI.joining hs
  have access : ∀ {b : Wakeup.Act} {t}, s.threads.step b = some t → b ≠ .throws →
      (b = .producer → ¬ Waits s.threads) →
      1 + (left t + s.netx.left + s.stop.left) ≤ s.work + cost b := fun ht hb hw => by
    have := (step_access ht).left_lt hI.calm hb hj hw
    rw [work]
    omega
  cases h with
  | packet hn h => exact access h nofun nofun
  | producer h =>
      rw [moves]
      split
      case isTrue hw =>
        rw [(step_access h).waits_eq hw]
        exact Nat.le_of_eq (Nat.zero_add _)
      case isFalse hw => exact access h nofun fun _ => hw
  | stop h | stopping hj h | consumer h | spurious h => exact access h nofun nofun
  | stopsNetx hj h => exact absurd h hs
  | joins hj h hn =>
      rw [work, work, h]
      exact Nat.le_of_eq (Nat.add_comm _ _)
  | own h => exact absurd h (hI.calm.consumer _)
  | throws => exact hok.elim
  | entered => exact absurd hok hs
  | failed hn =>
      rw [work, work, hn]
      simp only [moves, Option.toList_some, List.length_singleton, NetxPc.left, Act.cost]
      omega
  | selected hn =>
      rw [work, work, hn, hT hs]
      simp only [moves, Option.toList_some, List.length_singleton, NetxPc.left, Act.cost,
        Bool.false_eq_true, if_false]
      omega
  | @turned disconnect hn hp =>
      rw [work, work, hn]
      cases disconnect <;>
        simp only [moves, Option.toList_some, List.length_singleton, NetxPc.left, Act.cost,
          Bool.false_eq_true, if_false, if_true] <;>
        omega

/-! ### Where nothing moves -/

/-- What the threads and the caller of `stop` do by themselves. -/
def own : List Act := [.start false, .select, .producer, .turn false, .stopping, .consumer]

/-- None of them gets on. -/
def Still (s : State) : Prop := ∀ a ∈ own, s.moves a ≠ none → machine.step s a = none

instance (s : State) : Decidable s.Still :=
  inferInstanceAs (Decidable (∀ a ∈ own, s.moves a ≠ none → machine.step s a = none))

theorem Still.producer (h : s.Still) : s.threads.producer = .idle ∨ Waits s.threads := by
  by_cases hw : Waits s.threads
  · exact .inr hw
  have hm : s.moves .producer ≠ none := by
    rw [moves, if_neg hw]
    exact Option.some_ne_none _
  have hs : s.threads.producerStep = none :=
    Option.map_eq_none_iff.1 (h .producer (by simp [own]) hm)
  rw [Wakeup.State.producerStep.eq_def] at hs
  split at hs
  case h_1 hp => exact .inl hp
  case h_2 => split at hs <;> cases hs
  case h_3 | h_4 => cases hs

theorem Still.consumer (h : s.Still) (hc : Calm s.threads) :
    s.threads.consumer = .blocked ∨ s.threads.consumer = .ended := by
  have hs : s.consumerStep = none := h .consumer (by simp [own]) (Option.some_ne_none _)
  rw [consumerStep, if_neg (hc.consumer _)] at hs
  have hs : s.threads.consumerStep = none := Option.map_eq_none_iff.1 hs
  rw [Wakeup.State.consumerStep.eq_def] at hs
  split at hs
  case h_3 hb => exact .inl hb
  case h_4 he => exact .inr he
  case h_10 ho => exact absurd ho (hc.consumer _)
  all_goals cases hs

theorem Still.netx (h : s.Still) (hn : s.netx ≠ .ended) :
    s.netx = .processing ∧ s.threads.producer ≠ .idle := by
  cases hs : s.netx with
  | starting =>
      have hm := h (.start false) (by simp [own]) (Option.some_ne_none _)
      cases (if_pos hs).symm.trans hm
  | selecting =>
      have hm := h .select (by simp [own]) (Option.some_ne_none _)
      cases (if_pos hs).symm.trans hm
  | processing =>
      refine ⟨rfl, fun hp => ?_⟩
      have hm := h (.turn false) (by simp [own]) (Option.some_ne_none _)
      cases (if_pos ⟨hs, hp⟩).symm.trans hm
  | ended => exact absurd hs hn

/-- A call of `stop` that gets no further is in one of its joins. -/
theorem Still.stop (h : s.Still) (hn : s.threads.stop ≠ .notCalled) :
    s.threads.stop = .returned ∨ s.threads.stop = .joining ∧
      (s.netx ≠ .ended ∨ s.stop = .joined ∧ s.threads.consumer ≠ .ended) := by
  have hs : s.stopStep = none := h .stopping (by simp [own]) (Option.some_ne_none _)
  rw [stopStep] at hs
  split at hs
  case isTrue hj =>
    refine .inr ⟨hj.1, .inl fun he => ?_⟩
    have hs := Option.map_eq_none_iff.1 hs
    cases hk : s.stop with
    | stopNetx => rw [hk] at hs; cases hs
    | join => rw [hk, netxAccess, if_pos he] at hs; cases hs
    | joined => exact hj.2 hk
  case isFalse hj =>
    have hs := Option.map_eq_none_iff.1 (Option.map_eq_none_iff.1 hs)
    rw [Wakeup.State.stopAccess.eq_def] at hs
    split at hs
    case h_1 hk => exact absurd hk hn
    case h_2 hk => exact .inl hk
    case h_3 | h_4 | h_5 => cases hs
    case h_6 hk =>
      refine .inr ⟨hk, .inr ⟨not_not.1 fun hne => hj ⟨hk, hne⟩, fun he => ?_⟩⟩
      cases (if_pos he).symm.trans hs

/-- `stop` has returned, or the threads are in the jam. -/
theorem Still.returned_iff (h : s.Still) (hI : s.Inv) (hW : s.threads.Inv)
    (hn : s.threads.stop ≠ .notCalled) : s.threads.stop = .returned ↔ ¬ Jam s.threads := by
  have ended : s.netx = .ended → s.threads.producer = .idle := fun he =>
    not_not.1 fun hp => by cases he.symm.trans (hI.producing hp)
  constructor
  · intro hr hj
    have hw := hj.waits.1
    rw [ended (hI.joined (hI.returned hr))] at hw
    cases hw
  · intro hj
    refine (h.stop hn).resolve_right fun ⟨hs, hk⟩ => ?_
    have hrun := hI.calm.stopped (.inl hs)
    rcases hk with hne | ⟨hjoined, hne⟩
    · -- the first join: its thread waits for room
      have hw := h.producer.resolve_left (h.netx hne).2
      have ho : outside s.threads.consumer = true := by
        rcases h.consumer hI.calm with hc | hc <;> rw [hc] <;> rfl
      exact hj ⟨hw, hrun, ho⟩
    · -- the second join: the consumer is blocked, though `running_` is false
      have hb := (h.consumer hI.calm).resolve_right hne
      have hp := ended (hI.joined hjoined)
      obtain ⟨-, hr⟩ := hW.not_stranded hb (fun h => h hp)
        (by rintro (h | h | h) <;> cases hs.symm.trans h)
      cases hrun.symm.trans hr

theorem work_le (hs : s.stop ≠ .stopNetx) :
    s.work ≤ 3 * s.threads.queue.contents.length + 17 := by
  have hp : producerLeft s.threads.producer ≤ 8 := by
    cases s.threads.producer <;> simp [producerLeft]
  have hc : consumerLeft s.threads.consumer ≤ 5 := by
    cases s.threads.consumer <;> simp [consumerLeft]
  have hn : s.netx.left ≤ 2 := by cases s.netx <;> decide
  have hj : s.stop.left ≤ 1 := by
    cases hk : s.stop with
    | stopNetx => exact absurd hk hs
    | join | joined => decide
  have hr : (if s.threads.stop = .returned then 0 else 1) ≤ 1 := by split <;> decide
  rw [work, left]
  omega

/-- What holds in a run whose steps meet the condition. -/
theorem reachable_along (h : machine.Run {} as s) (hC : machine.Along StepOk {} as) :
    s.Inv ∧ s.Told ∧ s.threads.Inv :=
  h.invariant_along (I := fun s => s.Inv ∧ s.Told ∧ s.threads.Inv)
    (fun _ a _ ⟨hI, hT, hW⟩ hok hs => ⟨(step_change hs).inv hI fun ha => by subst ha; exact hok,
      (step_change hs).told hok hT hI, (step_change hs).waking hok hW hI⟩)
    hC ⟨inv_start, fun h => absurd rfl h, Wakeup.State.inv_init⟩

/-- **`stop` returns.**  Let the steps of a run meet the condition.  Once `stop_netx_service` has
been called, the threads and `stop` get on by three steps a packet in the queue and 17 more at most,
and by a few for each callback that is still made and each wake-up that nobody has sent, in any
order.  And where they get no further, `stop` has returned exactly if the threads are not in the
jam. -/
theorem handler_stops (h : machine.Run {} as s) (hC : machine.Along StepOk {} as)
    (hr : machine.Run s bs s') (hC' : machine.Along StepOk s bs) :
    (s.stop ≠ .stopNetx → (machine.collect moves s bs).length ≤
      3 * s.threads.queue.contents.length + 17 + (bs.map Act.cost).sum) ∧
    (s'.threads.stop ≠ .notCalled → s'.Still →
      (s'.threads.stop = .returned ↔ ¬ Jam s'.threads)) := by
  obtain ⟨hI, hT, -⟩ := reachable_along h hC
  refine ⟨fun hs => ?_, fun hn hst => ?_⟩
  · have hle : (machine.collect moves s bs).length + s'.work ≤ s.work + (bs.map Act.cost).sum := by
      refine hr.collect_length_add_le_sum (I := fun s => s.Inv ∧ s.Told ∧ s.stop ≠ .stopNetx)
        (fun s a s' ⟨hI, hT, hs⟩ hok hstep => ?_) hC' ⟨hI, hT, hs⟩
      have k := step_change hstep
      refine ⟨⟨k.inv hI ?_, k.told hok hT hI, k.stop_ne hI hs⟩, k.work_le hI hok hT hs⟩
      rintro rfl
      exact hok
    have := work_le hs
    omega
  · obtain ⟨hI, -, hW⟩ := reachable_along (h.trans hr) (hC.append h hC')
    exact hst.returned_iff hI hW hn

/-- A packet is classified, another comes, and `stop` is called. -/
def stopped : List Act :=
  [.start true, .select, .packet default, .producer, .producer, .producer] ++
    List.replicate 9 .consumer ++
    [.packet default, .producer, .producer, .producer, .turn false, .stop, .stopping, .stopping,
      .stopping, .stopping]

def stoppedState : State := (machine.exec {} stopped).get (by decide)

theorem run_stopped : machine.Run {} stopped stoppedState := Machine.run_of_exec (by decide)

/-- The threads end, and `stop` joins them. -/
def ending : List Act := [.consumer, .select, .consumer, .stopping, .stopping]

def endedState : State := (machine.exec stoppedState ending).get (by decide)

theorem run_ending : machine.Run stoppedState ending endedState := Machine.run_of_exec (by decide)

theorem handler_stops_ending : (machine.collect moves stoppedState ending).length ≤ 20 ∧
    endedState.threads.stop = .returned := by
  obtain ⟨hle, hret⟩ := handler_stops run_stopped (by decide) run_ending (by decide)
  exact ⟨hle (by decide), (hret (by decide) (by decide)).2 (by decide)⟩

/-! ### Where `stop` does not return -/

/-- The loop goes on after `stop_netx_service`. -/
structure Deaf (s : State) : Prop where
  stop : s.stop ≠ .stopNetx
  running : s.netxRunning = true
  netx : s.netx = .selecting ∨ s.netx = .processing

/-- As it does where it is entered after that. -/
theorem deaf_of_entered (h : machine.step s (.start true) = some s')
    (hok : ¬ s.StepOk (.start true)) : s'.Deaf := by
  cases step_change h with
  | entered => exact ⟨hok, rfl, .inl rfl⟩

theorem Change.deaf (h : Change s a s') (hd : s.Deaf) (hI : s.Inv) (ha : a ≠ .turn true) :
    s'.Deaf := by
  obtain ⟨hs, hr, hn⟩ := hd
  cases h with
  | stopsNetx hj h => exact absurd h hs
  | joins => exact ⟨nofun, hr, hn⟩
  | own h => exact absurd h (hI.calm.consumer _)
  | entered h | failed h => rcases hn with hn | hn <;> cases h.symm.trans hn
  | selected => exact ⟨hs, hr, .inr (if_pos hr)⟩
  | @turned disconnect =>
      cases disconnect with
      | true => exact absurd rfl ha
      | false => exact ⟨hs, hr, .inl rfl⟩
  | _ => exact ⟨hs, hr, hn⟩

theorem Change.jam (h : Change s a s') (hj : Jam s.threads) : Jam s'.threads := by
  cases h with
  | packet _ h | producer h | stop h | stopping _ h | consumer h | throws h | spurious h =>
      exact (step_access h).jam hj
  | own hc => exact absurd hc (hj.consumer_ne rfl)
  | _ => exact hj

theorem not_throws_of_jam (hj : Jam s.threads) (h : machine.step s a = some s') : a ≠ .throws := by
  rintro rfl
  cases step_change h with
  | throws ht => exact hj.consumer_ne rfl (Option.ite_none_right_eq_some.1 ht).1

/-- **`stop` hangs.**  From a state in which the threads are in the jam, `stop` returns in no run;
and from one in which the loop goes on after `stop_netx_service`, in none in which DVFilterLib stays
connected and nothing is thrown. -/
theorem handler_hangs (h : machine.Run {} as s) (hT : .throws ∉ as) (hr : machine.Run s bs s')
    (hs : Jam s.threads ∨ s.Deaf ∧ .turn true ∉ bs ∧ .throws ∉ bs) :
    s'.threads.stop ≠ .returned := by
  have hI := reachable h hT
  rcases hs with hj | ⟨hd, ht, hT'⟩
  · obtain ⟨hI, hj⟩ := hr.invariant (I := fun s => s.Inv ∧ Jam s.threads)
      (fun s a s' ⟨hI, hj⟩ hs =>
        ⟨(step_change hs).inv hI (not_throws_of_jam hj hs), (step_change hs).jam hj⟩) ⟨hI, hj⟩
    intro hret
    have hw := hj.waits.1
    have hp : s'.threads.producer ≠ .idle := by
      intro hp
      rw [hp] at hw
      cases hw
    cases (hI.joined (hI.returned hret)).symm.trans (hI.producing hp)
  · obtain ⟨hI, hd⟩ := hr.invariant_along (I := fun s => s.Inv ∧ s.Deaf)
      (fun s a s' ⟨hI, hd⟩ ha hs =>
        ⟨(step_change hs).inv hI ha.2, (step_change hs).deaf hd hI ha.1⟩)
      (Machine.along_of_forall (D := fun a => a ≠ .turn true ∧ a ≠ .throws) fun a ha =>
        ⟨fun he => ht (he ▸ ha), fun he => hT' (he ▸ ha)⟩) ⟨hI, hd⟩
    intro hret
    have he := hI.joined (hI.returned hret)
    rcases hd.netx with hn | hn <;> cases he.symm.trans hn

/-! ### The jam is reached -/

/-- A callback of the turn in which the consumer has ended. -/
structure Filling (s : State) : Prop where
  netx : s.netx = .processing
  producer : s.threads.producer = .idle
  consumer : s.threads.consumer = .ended
  running : s.threads.running = false
  called : s.threads.stop ≠ .notCalled

def fills : Act → Bool
  | .packet _ | .producer => true
  | _ => false

/-- A packet that finds room. -/
theorem Filling.packet (h : s.Filling) (hroom : HasRoom s.threads) (mdata : PktMdata) :
    ∃ s', machine.Run s [.packet mdata, .producer, .producer, .producer] s' ∧ s'.Filling ∧
      s'.threads.queue.contents.length = s.threads.queue.contents.length + 1 := by
  obtain ⟨⟨queue, notify, running, producer, consumer, stop⟩, netx, netxRunning, stop', own'⟩ := s
  obtain ⟨rfl, rfl, rfl, rfl, hcalled⟩ := h
  have hput : Wakeup.fifo.step queue (some mdata) = some
      ⟨queue.contents ++ [mdata], queue.accepted ++ [mdata], queue.taken⟩ := Fifo.put_step hroom
  have hwrite : machine.step ⟨⟨queue, notify, false, .write mdata, .ended, stop⟩, .processing,
      netxRunning, stop', own'⟩ .producer =
      some ⟨⟨⟨queue.contents ++ [mdata], queue.accepted ++ [mdata], queue.taken⟩, notify, false,
        .setNotify, .ended, stop⟩, .processing, netxRunning, stop', own'⟩ := by
    change State.access _ .producer = _
    simp only [access, Wakeup.State.step, Wakeup.State.producerStep, hput, Option.map_some]
  exact ⟨_, .more rfl (.more hwrite (.more rfl (.one rfl))), ⟨rfl, rfl, rfl, rfl, hcalled⟩,
    List.length_append⟩

/-- The callbacks of one turn fill the queue. -/
theorem Filling.fill (h : s.Filling) {n : Nat}
    (hn : s.threads.queue.contents.length + n ≤ Delivery.queueSize.val - 1) :
    ∃ as s', machine.Run s as s' ∧ (∀ a ∈ as, fills a = true) ∧ s'.Filling ∧
      s'.threads.queue.contents.length = s.threads.queue.contents.length + n := by
  induction n with
  | zero => exact ⟨[], s, .refl s, nofun, h, rfl⟩
  | succ n ih =>
      obtain ⟨as, s₁, hr, has, h₁, hl⟩ := ih (Nat.le_of_succ_le hn)
      obtain ⟨s', hr', h', hl'⟩ := h₁.packet (by rw [HasRoom, hl]; exact hn) default
      refine ⟨_, s', hr.trans hr', ?_, h', by rw [hl', hl, Nat.add_assoc]⟩
      intro a ha
      rcases List.mem_append.1 ha with ha | ha
      · exact has a ha
      · have hall : ∀ a ∈ [Act.packet default, .producer, .producer, .producer],
            fills a = true := by
          decide
        exact hall a ha

theorem stepOk_of_fills (hc : s.threads.consumer = .ended) (ha : fills a = true) :
    s.StepOk a := by
  cases a with
  | packet => exact trivial
  | producer => exact fun _ hw => by cases hc.symm.trans hw
  | _ => cases ha

/-- The consumer ends with a packet in the queue, in the turn of the callback that wrote it. -/
def ended : List Act := [.start true, .select, .packet default, .producer, .producer, .producer,
  .stop, .stopping, .consumer, .consumer]

def endedEarly : State := (machine.exec {} ended).get (by decide)

theorem run_ended : machine.Run {} ended endedEarly := Machine.run_of_exec (by decide)

/-- Filling the queue meets the condition. -/
theorem along_of_fills (hr : machine.Run s as s') (hc : s.threads.consumer = .ended)
    (ha : ∀ a ∈ as, fills a = true) : machine.Along StepOk s as := by
  refine hr.along_mono (C := fun _ a => fills a = true) (fun s a s' hc ha hs => ?_)
    (fun _ _ hc ha => stepOk_of_fills hc ha) (Machine.along_of_forall ha) hc
  cases step_change hs with
  | packet _ h | producer h => exact (step_access h).ended hc
  | _ => cases ha

/-- The jam is reached in a run whose steps meet the condition. -/
theorem exists_jam : ∃ as s, machine.Run {} as s ∧ machine.Along StepOk {} as ∧
    .throws ∉ as ∧ Jam s.threads := by
  have hf : endedEarly.Filling := ⟨rfl, rfl, rfl, rfl, by decide⟩
  obtain ⟨as, s, hr, has, hfs, hl⟩ := hf.fill (n := Delivery.queueSize.val - 2) (by decide)
  have hlast : machine.step s (.packet default) =
      some { s with threads := { s.threads with producer := .write default } } := by
    change (if s.netx = .processing then s.access (.packet default) else none) = _
    rw [if_pos hfs.netx, access, Wakeup.State.step, hfs.producer]
    rfl
  have hfills : ∀ a ∈ as ++ [.packet default], fills a = true := by
    intro a ha
    rcases List.mem_append.1 ha with ha | ha
    · exact has a ha
    · rw [List.mem_singleton.1 ha]
      rfl
  have hr' := hr.trans (.one hlast)
  refine ⟨_, _, run_ended.trans hr', ?_, ?_, ⟨⟨rfl, ?_⟩, hfs.running, ?_⟩⟩
  · exact Machine.Along.append (by decide) run_ended (along_of_fills hr' hf.consumer hfills)
  · intro hm
    rcases List.mem_append.1 hm with hm | hm
    · simp [ended] at hm
    · cases hfills _ hm
  · change ¬ s.threads.queue.contents.length < Delivery.queueSize.val - 1
    rw [hl]
    decide
  · change outside s.threads.consumer = true
    rw [hfs.consumer]
    rfl

/-- It hangs in spite of the condition. -/
theorem handler_hangs_jam : ∃ as s, machine.Run {} as s ∧ machine.Along StepOk {} as ∧
    ∀ bs s', machine.Run s bs s' → s'.threads.stop ≠ .returned := by
  obtain ⟨as, s, h, hC, hT, hj⟩ := exists_jam
  exact ⟨as, s, h, hC, fun bs s' hr => handler_hangs h hT hr (.inl hj)⟩

end State
end DistDpi.PacketHandler
