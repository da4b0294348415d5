import DistDpi.Packet.Wakeup

/-!
# Packet — handler

The threads of `PacketHandler` from the end of its `start` on: the one in `start_netx_service`,
which makes the callbacks, the consumer, and the caller of `stop`, which tells the two to end and
joins them.  Around `m_cv` they are those of `Wakeup`.  `running_` of `netx_sample_service.c` is
another variable than the one of the handler: `selectEventLoop` sets it as it is entered, and
`stop_netx_service` clears it.
-/

namespace DistDpi.PacketHandler

/-- Where the thread in `start_netx_service` is: before `selectEventLoop`, in `select`, in the
callbacks that follow it, or at its end. -/
inductive NetxPc where
  | starting | selecting | processing | ended
  deriving DecidableEq, Repr

/-- What a call of `stop` does between its notification and the join of the consumer. -/
inductive NetxStop where
  | stopNetx | join | joined
  deriving DecidableEq, Repr

/-- The threads, and `running_` of `netx_sample_service.c`.  `stop` is where the owner's call is,
and `consumerStop` where that of the consumer's exception handler is. -/
structure State where
  threads : Wakeup.State := {}
  netx : NetxPc := .starting
  netxRunning : Bool := false
  stop : NetxStop := .stopNetx
  consumerStop : NetxStop := .stopNetx

inductive Act where
  /-- `start_netx_service` enters `selectEventLoop`, or fails before. -/
  | start (entered : Bool)
  /-- `select` returns, and `running_` is tested. -/
  | select
  | packet (mdata : PktMdata)
  | producer
  /-- `DVFilter_ProcessSelectEvent` returns, maybe with `DVFILTER_STATUS_DISCONNECT`. -/
  | turn (disconnect : Bool)
  | stop
  | stopping
  | consumer
  | throws
  | spurious

namespace State

/-- An access of the threads around `m_cv`. -/
def access (s : State) (a : Wakeup.Act) : Option State :=
  (s.threads.step a).map fun threads => { s with threads }

/-- `stop_netx_service()`, and the join of the thread. -/
def netxAccess (s : State) : NetxStop → Option (State × NetxStop)
  | .stopNetx => some ({ s with netxRunning := false }, .join)
  | .join => if s.netx = .ended then some (s, .joined) else none
  | .joined => none

def stopStep (s : State) : Option State :=
  if s.threads.stop = .joining ∧ s.stop ≠ .joined then
    (s.netxAccess s.stop).map fun (s, pc) => { s with stop := pc }
  else s.access .stopping

def consumerStep (s : State) : Option State :=
  if s.threads.consumer = .stops .joining then
    -- once it has joined the other thread it joins itself
    (s.netxAccess s.consumerStop).map fun (s, pc) => { s with consumerStop := pc }
  else s.access .consumer

def step (s : State) : Act → Option State
  | .start entered =>
      if s.netx = .starting then
        some (if entered then { s with netx := .selecting, netxRunning := true }
          else { s with netx := .ended })
      else none
  | .select =>
      if s.netx = .selecting then
        some { s with netx := if s.netxRunning then .processing else .ended }
      else none
  | .packet mdata => if s.netx = .processing then s.access (.packet mdata) else none
  | .producer => s.access .producer
  | .turn disconnect =>
      if s.netx = .processing ∧ s.threads.producer = .idle then
        some { s with netx := if disconnect then .ended else .selecting }
      else none
  | .stop => s.access .stop
  | .stopping => s.stopStep
  | .consumer => s.consumerStep
  | .throws => s.access .throws
  | .spurious => s.access .spurious

end State

/-- **The packet handler.** -/
def machine : Machine State Act := ⟨State.step⟩

/-! ### What an access can do -/

/-- `queue_` takes another packet. -/
def HasRoom (t : Wakeup.State) : Prop := t.queue.contents.length < Delivery.queueSize.val - 1

instance (t : Wakeup.State) : Decidable (HasRoom t) := inferInstanceAs (Decidable (_ < _))


/-- What an access of the threads around `m_cv` can do.  `own` is in the consumer's own call of
`stop`. -/
inductive Access (t : Wakeup.State) : Wakeup.Act → Wakeup.State → Prop where
  | packet {mdata : PktMdata} (hp : t.producer = .idle) :
      Access t (.packet mdata) { t with producer := .write mdata }
  | wrote {mdata : PktMdata} (hp : t.producer = .write mdata) (hroom : HasRoom t)
      {queue : Fifo PktMdata} (hq : queue.contents = t.queue.contents ++ [mdata]) :
      Access t .producer { t with queue, producer := .setNotify }
  | full {mdata : PktMdata} (hp : t.producer = .write mdata) (hroom : ¬ HasRoom t) :
      Access t .producer t
  | produced (hp : t.producer = .setNotify) :
      Access t .producer { t with notify := true, producer := .notifyOne }
  | notified (hp : t.producer = .notifyOne) :
      Access t .producer { t.notifyOne with producer := .idle }
  | called (hs : t.stop = .notCalled) : Access t .stop { t with stop := .clearRunning }
  | cleared (hs : t.stop = .clearRunning) :
      Access t .stopping { t with running := false, stop := .setNotify }
  | told (hs : t.stop = .setNotify) :
      Access t .stopping { t with notify := true, stop := .notifyOne }
  | woke (hs : t.stop = .notifyOne) : Access t .stopping { t.notifyOne with stop := .joining }
  | joined (hs : t.stop = .joining) (hc : t.consumer = .ended) :
      Access t .stopping { t with stop := .returned }
  | testsNotify (hc : t.consumer = .testNotify) :
      Access t .consumer { t with consumer := if t.notify then .testRunning else .wait }
  | waits (hc : t.consumer = .wait) : Access t .consumer { t with consumer := .blocked }
  | testsRunning (hc : t.consumer = .testRunning) :
      Access t .consumer { t with consumer := if t.running then .testEmpty else .ended }
  | testsEmpty (hc : t.consumer = .testEmpty) :
      Access t .consumer
        { t with consumer := if t.queue.contents.isEmpty then .clear else .read }
  | reads (hc : t.consumer = .read) {queue : Fifo PktMdata}
      (hq : queue.contents = t.queue.contents.tail) :
      Access t .consumer { t with queue, consumer := .classify }
  | classifies (hc : t.consumer = .classify) :
      Access t .consumer { t with consumer := .testEmpty }
  | clears (hc : t.consumer = .clear) :
      Access t .consumer { t with notify := false, consumer := .testNotify }
  | own {pc : Wakeup.StopPc} (hc : t.consumer = .stops pc) (t' : Wakeup.State) :
      Access t .consumer t'
  | throws (hc : t.consumer = .classify) :
      Access t .throws { t with consumer := .stops .clearRunning }
  | wakes (hc : t.consumer = .blocked) : Access t .spurious { t with consumer := .testNotify }

theorem producerStep_access {t t' : Wakeup.State} (h : t.producerStep = some t') :
    Access t .producer t' := by
  rw [Wakeup.State.producerStep.eq_def] at h
  split at h
  case h_1 => cases h
  case h_2 mdata hp =>
    split at h <;> cases h
    case h_1 queue hq =>
      obtain ⟨hlt, hq⟩ := Option.ite_none_right_eq_some.1 hq
      cases hq
      exact .wrote hp hlt rfl
    case h_2 hq =>
      refine .full hp fun hlt => ?_
      cases (Fifo.put_step hlt).symm.trans hq
  case h_3 hp => cases h; exact .produced hp
  case h_4 hp => cases h; exact .notified hp

theorem stopping_access {t t' : Wakeup.State} (h : t.step .stopping = some t') :
    Access t .stopping t' := by
  obtain ⟨⟨t₁, pc⟩, ha, rfl⟩ := Option.map_eq_some_iff.1 h
  rw [Wakeup.State.stopAccess.eq_def] at ha
  split at ha
  case h_1 | h_2 => cases ha
  case h_3 hs => cases ha; exact .cleared hs
  case h_4 hs => cases ha; exact .told hs
  case h_5 hs => cases ha; exact .woke hs
  case h_6 hs =>
    obtain ⟨hc, ha⟩ := Option.ite_none_right_eq_some.1 ha
    cases ha
    exact .joined hs hc

theorem consumerStep_access {t t' : Wakeup.State} (h : t.consumerStep = some t') :
    Access t .consumer t' := by
  rw [Wakeup.State.consumerStep.eq_def] at h
  split at h
  case h_1 hc => cases h; exact .testsNotify hc
  case h_2 hc => cases h; exact .waits hc
  case h_3 | h_4 => cases h
  case h_5 hc => cases h; exact .testsRunning hc
  case h_6 hc => cases h; exact .testsEmpty hc
  case h_7 hc =>
    cases h
    refine .reads hc ?_
    cases hq : t.queue.contents with
    | nil =>
        have hn : Wakeup.fifo.step t.queue none = none := by
          simp only [Wakeup.fifo, Fifo.machine, hq]
        rw [hn, Option.getD_none, hq]
        rfl
    | cons mdata rest =>
        have hs : Wakeup.fifo.step t.queue none = _ := Fifo.take_step hq
        rw [hs]
        rfl
  case h_8 hc => cases h; exact .classifies hc
  case h_9 hc => cases h; exact .clears hc
  case h_10 pc hc => exact .own hc _

theorem step_access {t t' : Wakeup.State} {a : Wakeup.Act} (h : t.step a = some t') :
    Access t a t' := by
  cases a with
  | packet mdata =>
      rw [Wakeup.State.step] at h
      split at h
      case h_1 hp => cases h; exact .packet hp
      case h_2 => cases h
  | producer => exact producerStep_access h
  | stop =>
      obtain ⟨hs, h⟩ := Option.ite_none_right_eq_some.1 h
      cases h
      exact .called hs
  | stopping => exact stopping_access h
  | consumer => exact consumerStep_access h
  | throws =>
      obtain ⟨hc, h⟩ := Option.ite_none_right_eq_some.1 h
      cases h
      exact .throws hc
  | spurious =>
      obtain ⟨hc, h⟩ := Option.ite_none_right_eq_some.1 h
      cases h
      exact .wakes hc

/-- The consumer is not in a call of `stop`, it reads only what there is, and `running_` is false
once `stop` has cleared it. -/
structure Calm (t : Wakeup.State) : Prop where
  consumer : ∀ pc, t.consumer ≠ .stops pc
  reads : t.consumer = .read → t.queue.contents ≠ []
  running : t.running = true → t.stop = .notCalled ∨ t.stop = .clearRunning

section
variable {t t' : Wakeup.State} {b : Wakeup.Act}

/-- A `stop` that joins has cleared `running_`. -/
theorem Calm.stopped (hc : Calm t) (hs : t.stop = .joining ∨ t.stop = .returned) :
    t.running = false := by
  rw [← Bool.not_eq_true]
  intro hr
  rcases hc.running hr with h | h <;> rcases hs with hs | hs <;> cases h.symm.trans hs

/-- The consumer goes elsewhere than to a read. -/
theorem Calm.goto (hc : Calm t) (hs : ∀ pc, t'.consumer ≠ .stops pc) (hr : t'.consumer ≠ .read)
    (hrun : t'.running = t.running) (hstop : t'.stop = t.stop) : Calm t' where
  consumer := hs
  reads h := absurd h hr
  running h := by
    rw [hstop]
    exact hc.running (hrun.symm.trans h)

theorem Calm.notifyOne (hc : Calm t) : Calm t.notifyOne := by
  rw [Wakeup.State.notifyOne]
  split
  · exact hc.goto (fun pc h => by cases h) (fun h => by cases h) rfl rfl
  · exact hc

theorem Access.calm (h : Access t b t') (hb : b ≠ .throws) (hc : Calm t) : Calm t' := by
  have notified := hc.notifyOne
  cases h with
  | packet | full | produced => exact ⟨hc.consumer, hc.reads, hc.running⟩
  | wrote hp hroom hq =>
      refine ⟨hc.consumer, fun _ => ?_, hc.running⟩
      rw [hq]
      exact List.append_ne_nil_of_right_ne_nil _ (List.cons_ne_nil _ _)
  | notified => exact ⟨notified.consumer, notified.reads, notified.running⟩
  | called => exact ⟨hc.consumer, hc.reads, fun _ => .inr rfl⟩
  | cleared => exact ⟨hc.consumer, hc.reads, fun h => by cases h⟩
  | told hs | joined hs =>
      refine ⟨hc.consumer, hc.reads, fun hr => ?_⟩
      rcases hc.running hr with h | h <;> cases hs.symm.trans h
  | woke hs =>
      refine ⟨notified.consumer, notified.reads, fun hr => ?_⟩
      rcases notified.running hr with h | h <;> cases hs.symm.trans h
  | testsNotify | testsRunning =>
      refine hc.goto (fun pc h => ?_) (fun h => ?_) rfl rfl
      all_goals
        dsimp only at h
        split at h <;> cases h
  | testsEmpty =>
      refine ⟨fun pc h => ?_, fun h he => ?_, hc.running⟩
      · dsimp only at h
        split at h <;> cases h
      · rw [he] at h
        cases h
  | waits | reads | classifies | clears | wakes =>
      exact hc.goto (fun pc h => by cases h) (fun h => by cases h) rfl rfl
  | own hs => exact absurd hs (hc.consumer _)
  | throws => exact absurd rfl hb

/-- No other act than a callback begins to produce. -/
theorem Access.producing (h : Access t b t') (hb : ∀ mdata, b ≠ .packet mdata)
    (hc : ∀ pc, t.consumer ≠ .stops pc) (hp : t'.producer ≠ .idle) : t.producer ≠ .idle := by
  cases h with
  | packet => exact absurd rfl (hb _)
  | wrote hw | full hw | produced hw => rw [hw]; nofun
  | notified => exact absurd rfl hp
  | own hs => exact absurd hs (hc _)
  | _ => exact hp

/-- `stop` is in its second join until it returns. -/
theorem Access.joining (h : Access t b t') (hc : ∀ pc, t.consumer ≠ .stops pc)
    (hs : t.stop = .joining ∨ t.stop = .returned) : t'.stop = .joining ∨ t'.stop = .returned := by
  cases h with
  | called h | cleared h | told h | woke h => rcases hs with hs | hs <;> cases h.symm.trans hs
  | joined => exact .inr rfl
  | own h => exact absurd h (hc _)
  | _ => exact hs

theorem Access.returned (h : Access t b t') (hc : ∀ pc, t.consumer ≠ .stops pc)
    (hr : t'.stop = .returned) : t.stop = .returned ∨ b = .stopping ∧ t.stop = .joining := by
  cases h with
  | called | cleared | told | woke => cases hr
  | joined h => exact .inr ⟨rfl, h⟩
  | own h => exact absurd h (hc _)
  | _ => exact .inl hr

end

namespace State
variable {s s' : State} {a : Act} {as bs : List Act}

/-- What a step can do. -/
inductive Change (s : State) : Act → State → Prop where
  | packet {mdata : PktMdata} {t : Wakeup.State} (hn : s.netx = .processing)
      (h : s.threads.step (.packet mdata) = some t) :
      Change s (.packet mdata) { s with threads := t }
  | producer {t : Wakeup.State} (h : s.threads.step .producer = some t) :
      Change s .producer { s with threads := t }
  | stop {t : Wakeup.State} (h : s.threads.step .stop = some t) :
      Change s .stop { s with threads := t }
  | stopping {t : Wakeup.State} (hj : s.threads.stop = .joining → s.stop = .joined)
      (h : s.threads.step .stopping = some t) : Change s .stopping { s with threads := t }
  | stopsNetx (hj : s.threads.stop = .joining) (hs : s.stop = .stopNetx) :
      Change s .stopping { s with netxRunning := false, stop := .join }
  | joins (hj : s.threads.stop = .joining) (hs : s.stop = .join) (hn : s.netx = .ended) :
      Change s .stopping { s with stop := .joined }
  | consumer {t : Wakeup.State} (h : s.threads.step .consumer = some t) :
      Change s .consumer { s with threads := t }
  | own {pc : Wakeup.StopPc} (hc : s.threads.consumer = .stops pc) (s' : State) :
      Change s .consumer s'
  | throws {t : Wakeup.State} (h : s.threads.step .throws = some t) :
      Change s .throws { s with threads := t }
  | spurious {t : Wakeup.State} (h : s.threads.step .spurious = some t) :
      Change s .spurious { s with threads := t }
  | entered (hn : s.netx = .starting) :
      Change s (.start true) { s with netx := .selecting, netxRunning := true }
  | failed (hn : s.netx = .starting) : Change s (.start false) { s with netx := .ended }
  | selected (hn : s.netx = .selecting) :
      Change s .select { s with netx := if s.netxRunning then .processing else .ended }
  | turned {disconnect : Bool} (hn : s.netx = .processing) (hp : s.threads.producer = .idle) :
      Change s (.turn disconnect) { s with netx := if disconnect then .ended else .selecting }

theorem access_eq {b : Wakeup.Act} (h : s.access b = some s') :
    ∃ t, s.threads.step b = some t ∧ s' = { s with threads := t } := by
  obtain ⟨t, ht, rfl⟩ := Option.map_eq_some_iff.1 h
  exact ⟨t, ht, rfl⟩

theorem stopStep_change (h : s.stopStep = some s') : Change s .stopping s' := by
  rw [stopStep] at h
  split at h
  case isTrue hj =>
    obtain ⟨⟨s₁, pc⟩, ha, rfl⟩ := Option.map_eq_some_iff.1 h
    rw [netxAccess.eq_def] at ha
    split at ha
    case h_1 hs => cases ha; exact .stopsNetx hj.1 hs
    case h_2 hs =>
      obtain ⟨hn, ha⟩ := Option.ite_none_right_eq_some.1 ha
      cases ha
      exact .joins hj.1 hs hn
    case h_3 => cases ha
  case isFalse hj =>
    obtain ⟨t, ht, rfl⟩ := access_eq h
    exact .stopping (fun hs => not_not.1 fun hn => hj ⟨hs, hn⟩) ht

theorem step_change (h : machine.step s a = some s') : Change s a s' := by
  change s.step a = some s' at h
  cases a with
  | start entered =>
      obtain ⟨hn, h⟩ := Option.ite_none_right_eq_some.1 h
      cases h
      cases entered with
      | true => exact .entered hn
      | false => exact .failed hn
  | select =>
      obtain ⟨hn, h⟩ := Option.ite_none_right_eq_some.1 h
      cases h
      exact .selected hn
  | packet mdata =>
      obtain ⟨hn, h⟩ := Option.ite_none_right_eq_some.1 h
      obtain ⟨t, ht, rfl⟩ := access_eq h
      exact .packet hn ht
  | turn disconnect =>
      obtain ⟨⟨hn, hp⟩, h⟩ := Option.ite_none_right_eq_some.1 h
      cases h
      exact .turned hn hp
  | producer => obtain ⟨t, ht, rfl⟩ := access_eq h; exact .producer ht
  | stop => obtain ⟨t, ht, rfl⟩ := access_eq h; exact .stop ht
  | stopping => exact stopStep_change h
  | consumer =>
      change s.consumerStep = some s' at h
      rw [consumerStep] at h
      split at h
      case isTrue hc => exact .own hc s'
      case isFalse => obtain ⟨t, ht, rfl⟩ := access_eq h; exact .consumer ht
  | throws => obtain ⟨t, ht, rfl⟩ := access_eq h; exact .throws ht
  | spurious => obtain ⟨t, ht, rfl⟩ := access_eq h; exact .spurious ht

/-! ### The invariant -/

/-- What holds while nothing is thrown. -/
structure Inv (s : State) : Prop where
  calm : Calm s.threads
  producing : s.threads.producer ≠ .idle → s.netx = .processing
  joining : s.stop ≠ .stopNetx → s.threads.stop = .joining ∨ s.threads.stop = .returned
  joined : s.stop = .joined → s.netx = .ended
  returned : s.threads.stop = .returned → s.stop = .joined

theorem inv_start : Inv {} where
  calm := ⟨nofun, nofun, fun _ => .inl rfl⟩
  producing h := absurd rfl h
  joining h := absurd rfl h
  joined := nofun
  returned := nofun

theorem Inv.access {t : Wakeup.State} {b : Wakeup.Act} (hI : s.Inv) (h : s.threads.step b = some t)
    (hb : b ≠ .throws) (hp : t.producer ≠ .idle → s.netx = .processing)
    (hs : b = .stopping → s.threads.stop = .joining → s.stop = .joined) :
    Inv { s with threads := t } where
  calm := (step_access h).calm hb hI.calm
  producing := hp
  joining hn := (step_access h).joining hI.calm.consumer (hI.joining hn)
  joined := hI.joined
  returned hr :=
    ((step_access h).returned hI.calm.consumer hr).elim hI.returned fun k => hs k.1 k.2

theorem Change.inv (h : Change s a s') (hI : s.Inv) (ha : a ≠ .throws) : s'.Inv := by
  have hc := hI.calm.consumer
  cases h with
  | packet hn h => exact hI.access h nofun (fun _ => hn) nofun
  | producer h | stop h | consumer h | spurious h =>
      exact hI.access h nofun (fun hp => hI.producing ((step_access h).producing nofun hc hp)) nofun
  | stopping hj h =>
      exact hI.access h nofun (fun hp => hI.producing ((step_access h).producing nofun hc hp))
        fun _ => hj
  | stopsNetx hj hs =>
      exact ⟨hI.calm, hI.producing, fun _ => .inl hj, nofun, fun hr => by cases hj.symm.trans hr⟩
  | joins hj hs hn => exact ⟨hI.calm, hI.producing, fun _ => .inl hj, fun _ => hn, fun _ => rfl⟩
  | own hs => exact absurd hs (hc _)
  | throws => exact absurd rfl ha
  | entered hn | failed hn | selected hn =>
      refine ⟨hI.calm, fun hp => ?_, hI.joining, fun hs => ?_, hI.returned⟩
      · cases hn.symm.trans (hI.producing hp)
      · cases hn.symm.trans (hI.joined hs)
  | turned hn hp =>
      refine ⟨hI.calm, fun h => absurd hp h, hI.joining, fun hs => ?_, hI.returned⟩
      cases hn.symm.trans (hI.joined hs)

/-- In a run in which nothing is thrown. -/
theorem reachable (h : machine.Run {} as s) (hT : .throws ∉ as) : s.Inv :=
  h.invariant_along (fun _ _ _ hI ha hs => (step_change hs).inv hI ha)
    (Machine.along_of_forall fun _ ha he => hT (he ▸ ha)) inv_start

end State
end DistDpi.PacketHandler
