import DistDpi.Packet.Definitions
import DistDpi.Spsc.Refinement

/-!
# Packet — delivery

`PacketProducer` and `PacketConsumer` of `PacketHandler.cpp` around their queue.  The producer
writes the packet it was called with until the queue takes it; the consumer, each time it is
woken, reads packets until the queue is empty and classifies each.  When it is woken, and that it
finds `running_` false or that `classifyFlows` throws, is left to the actions.

`produced` and `classified` are not the program's: the packets that `PacketProducer` was called
with, and those that `classifyFlows` was.
-/

namespace DistDpi

open Spsc (State Size)

/-- What a `PktMdata` is before `read` has assigned to it. -/
instance : Inhabited PktMdata := ⟨{ filter := 0, pkt := [], dir := 0, lt := by decide }⟩

/-- Where `PacketConsumer` is: outside its inner loop, in it, or at its end. -/
inductive ConsumerLoop where
  | waiting | draining | exited
  deriving DecidableEq, Repr

structure Delivery where
  spsc : State PktMdata
  producing : Option PktMdata := none
  loop : ConsumerLoop := .waiting
  mdata : PktMdata := default
  produced : List PktMdata := []
  classified : List PktMdata := []

namespace Delivery

/-- `queue_(500000)`. -/
def queueSize : Size := ⟨500000, by decide, by decide⟩

def init : Delivery := { spsc := Spsc.init queueSize }

inductive Act where
  | packet (mdata : PktMdata)
  | producer
  | consumer (readFirst : Bool)
  | throws
  | stopped

/-- The queue takes a step. -/
def spscStep (s : Delivery) (a : Spsc.Act PktMdata) : Option Delivery :=
  ((Spsc.system PktMdata).step s.spsc a).map fun q => { s with spsc := q }

/-- `while(!queue_.write(mdata))`. -/
def producerStep (s : Delivery) : Option Delivery :=
  match s.producing, s.spsc.producer with
  | none, _ => none
  | some mdata, .returned (.write false) => s.spscStep (.producerCalls (.write mdata))
  | some _, .returned (.write true) => some { s with producing := none }
  | some _, .returned _ => none
  | some _, _ => s.spscStep .producer

/-- `classifyFlows(&mdata)`, after a `read` that has returned `record`. -/
def classify (s : Delivery) (record : Option PktMdata) : Delivery :=
  let mdata := record.getD s.mdata
  { s with mdata, classified := s.classified ++ [mdata] }

/-- `while(!queue_.isEmpty())`, and what is around it and in it. -/
def consumerStep (s : Delivery) (readFirst : Bool) : Option Delivery :=
  match s.loop, s.spsc.consumer with
  | .exited, _ => none
  | .waiting, _ =>
      { s with mdata := default, loop := .draining }.spscStep (.consumerCalls (.isEmpty readFirst))
  | .draining, .returned (.isEmpty true) => some { s with loop := .waiting }
  | .draining, .returned (.isEmpty false) => s.spscStep (.consumerCalls .read)
  | .draining, .returned (.read record) =>
      (s.classify record).spscStep (.consumerCalls (.isEmpty readFirst))
  | .draining, .returned _ => none
  | .draining, _ => s.spscStep .consumer

def step (s : Delivery) : Act → Option Delivery
  | .packet mdata =>
      match s.producing with
      | some _ => none
      | none => { s with producing := some mdata, produced := s.produced ++ [mdata] }.spscStep
          (.producerCalls (.write mdata))
  | .producer => s.producerStep
  | .consumer readFirst => s.consumerStep readFirst
  | .throws =>
      match s.loop, s.spsc.consumer with
      | .draining, .returned (.read record) => some { s.classify record with loop := .exited }
      | _, _ => none
  | .stopped => if s.loop = .waiting then some { s with loop := .exited } else none

end Delivery

/-- **The packet handler's two threads and their queue.** -/
def delivery : Machine Delivery Delivery.Act := ⟨Delivery.step⟩

namespace Spsc.State

universe u
variable {T : Type u} {q q' : State T}

/-- What the producer does leaves the consumer where it is. -/
theorem Change.producer_frame {a : Act T} (h : q.Change a q')
    (ha : a = .producer ∨ ∃ call, a = .producerCalls call) :
    q'.consumer = q.consumer ∧ q'.takenOut = q.takenOut ∧ q.written.length ≤ q'.written.length := by
  cases h with
  | wrote => exact ⟨rfl, rfl, by rw [List.length_append]; omega⟩
  | producerCalled | producerLoads | producerLoaded | constructed | faulted =>
      exact ⟨rfl, rfl, Nat.le_refl _⟩
  | _ => obtain e | ⟨_, e⟩ := ha <;> cases e

/-- What the consumer does leaves the producer where it is. -/
theorem Change.consumer_frame {a : Act T} (h : q.Change a q')
    (ha : a = .consumer ∨ ∃ call, a = .consumerCalls call) :
    q'.producer = q.producer ∧ q'.written = q.written := by
  cases h with
  | consumerCalled | consumerLoads | consumerLoaded | moved | destroyedMoved | destroyedLive | took
  | faulted => exact ⟨rfl, rfl⟩
  | _ => obtain e | ⟨_, e⟩ := ha <;> cases e

/-- No thread stops the queue. -/
theorem Inv.running (hI : q.Inv) {a : Act T} (hr : q.phase = .running) (h : q.Change a q')
    (ha : a ≠ .destructor) : q'.phase = .running := by
  cases h with
  | destructed => exact absurd rfl ha
  | faulted hf => exact absurd hf (hI.not_faults hr)
  | _ => exact hr

end Spsc.State

namespace Delivery
variable {s s' : Delivery} {q q' : State PktMdata} {m : PktMdata} {packets : List PktMdata}

/-- What `PacketProducer` was called with has been written, except for the packet it is at. -/
def ProducerOk (packets : List PktMdata) (q : State PktMdata) : Option PktMdata → Prop
  | none => packets = q.written ∧ ∃ ret, q.producer = .returned ret
  | some m =>
      match q.producer with
      | .loading (.write m') _ | .construct m' _ | .store m' _ => m' = m ∧ packets = q.written ++ [m]
      | .returned (.write false) => packets = q.written ++ [m]
      | .returned (.write true) => packets = q.written
      | _ => False

/-- What was taken out has been classified, except for the packet that was just read. -/
def ConsumerOk (packets : List PktMdata) (q : State PktMdata) : ConsumerLoop → Prop
  | .waiting | .exited =>
      packets = q.takenOut ∧ ∃ ret, q.consumer = .returned ret ∧ ret ≠ .read none
  | .draining =>
      match q.consumer with
      | .loading (.isEmpty _) _ | .returned (.isEmpty _) | .move _ | .destroyMoved .. =>
          packets = q.takenOut
      | .loading .read _ => packets = q.takenOut ∧ q.takenOut.length < q.written.length
      | .store m ret _ => packets = q.takenOut ∧ ret = .read (some m)
      | .returned (.read record) => ∃ m, record = some m ∧ q.takenOut = packets ++ [m]
      | _ => False

structure Inv (s : Delivery) : Prop where
  spsc : s.spsc.Inv
  running : s.spsc.phase = .running
  producer : ProducerOk s.produced s.spsc s.producing
  consumer : ConsumerOk s.classified s.spsc s.loop

theorem ProducerOk.congr {p : Option PktMdata} (h : ProducerOk packets q p)
    (hp : q'.producer = q.producer) (hw : q'.written = q.written) : ProducerOk packets q' p := by
  cases p with
  | none => rwa [ProducerOk, hp, hw]
  | some m => rwa [ProducerOk, hp, hw]

theorem ConsumerOk.congr {l : ConsumerLoop} (h : ConsumerOk packets q l)
    (hc : q'.consumer = q.consumer) (ht : q'.takenOut = q.takenOut)
    (hw : q.written.length ≤ q'.written.length) : ConsumerOk packets q' l := by
  cases l with
  | waiting | exited => rwa [ConsumerOk, hc, ht]
  | draining =>
      simp only [ConsumerOk, hc, ht] at h ⊢
      split at h
      · exact h
      · exact h
      · exact h
      · exact h
      · exact ⟨h.1, Nat.lt_of_lt_of_le h.2 hw⟩
      · exact h
      · exact h
      · exact h

/-! ### Steps of the queue -/

theorem ProducerOk.step (h : ProducerOk packets q (some m)) (hI : q.Inv) (hr : q.phase = .running)
    (hc : q.Change .producer q') : ProducerOk packets q' (some m) := by
  rw [ProducerOk] at h ⊢
  cases hc with
  | @producerLoads call l l' hp hl =>
      rw [hp] at h
      cases call with
      | write record => exact h
      | isFull | sizeGuess => exact h.elim
  | @producerLoaded call l r w hp hl =>
      rw [hp] at h
      cases call with
      | write record =>
          by_cases hn : Spsc.nextRecord q.queue.size w ≠ r
          · rw [Spsc.ProducerCall.loaded, if_pos hn]
            exact h
          · rw [Spsc.ProducerCall.loaded, if_neg hn]
            exact h.2
      | isFull | sizeGuess => exact h.elim
  | constructed hp =>
      rw [hp] at h
      exact h
  | wrote hp =>
      rw [hp] at h
      obtain ⟨rfl, e⟩ := h
      exact e
  | faulted hf => exact absurd hf (hI.not_faults hr)

theorem ConsumerOk.step (h : ConsumerOk packets q .draining) (hI : q.Inv)
    (hr : q.phase = .running) (hc : q.Change .consumer q') : ConsumerOk packets q' .draining := by
  rw [ConsumerOk] at h ⊢
  cases hc with
  | @consumerLoads call l l' hp hl =>
      rw [hp] at h
      cases call with
      | isEmpty | read => exact h
      | frontPtr | popFront | sizeGuess => exact h.elim
  | @consumerLoaded call l r w hp hl =>
      rw [hp] at h
      cases call with
      | isEmpty => exact h
      | read =>
          -- only the consumer takes a record out: the queue is as little empty as it was
          obtain ⟨rfl, k, hk, hk', rfl, hnow⟩ := hI.consumer_loaded hp hl
          obtain ⟨e, hlt⟩ := h
          rcases hnow with e | rfl
          · cases e
          · have hne : q.takenOut.length % q.queue.size ≠ q.written.length % q.queue.size :=
              fun e => Nat.ne_of_lt hlt ((hI.empty_iff hk hk').mp e)
            rw [Spsc.ConsumerCall.loaded, if_neg hne]
            exact e
      | frontPtr | popFront | sizeGuess => exact h.elim
  | moved hp =>
      rw [hp] at h
      exact h
  | destroyedMoved hp =>
      rw [hp] at h
      exact ⟨h, rfl⟩
  | destroyedLive hp =>
      rw [hp] at h
      exact h.elim
  | took hp =>
      rw [hp] at h
      obtain ⟨rfl, rfl⟩ := h
      exact ⟨_, rfl, rfl⟩
  | faulted hf => exact absurd hf (hI.not_faults hr)

theorem spscStep_change {a : Spsc.Act PktMdata} (h : s.spscStep a = some s') (hI : s.spsc.Inv)
    (hr : s.spsc.phase = .running) (ha : a ≠ .destructor) :
    ∃ q, s' = { s with spsc := q } ∧ s.spsc.Change a q ∧ q.Inv ∧ q.phase = .running := by
  obtain ⟨q, hs, rfl⟩ := Option.map_eq_some_iff.mp h
  obtain ⟨-, hc⟩ := State.step_change hs
  exact ⟨q, rfl, hc, hc.inv hr hI, hI.running hr hc ha⟩

/-! ### Steps of the threads -/

/-- `PacketProducer` calls `write`. -/
theorem write_inv (h : s.spscStep (.producerCalls (.write m)) = some s') (hI : s.spsc.Inv)
    (hr : s.spsc.phase = .running) (hm : s.producing = some m)
    (hp : s.produced = s.spsc.written ++ [m]) (hc : ConsumerOk s.classified s.spsc s.loop) :
    s'.Inv := by
  obtain ⟨q, rfl, hq, hI', hr'⟩ := spscStep_change h hI hr nofun
  obtain ⟨hcc, ht, hw⟩ := hq.producer_frame (.inr ⟨_, rfl⟩)
  refine ⟨hI', hr', ?_, hc.congr hcc ht hw⟩
  change ProducerOk s.produced q s.producing
  rw [hm]
  cases hq with
  | producerCalled => exact ⟨rfl, hp⟩
  | faulted hf => exact hf.elim

theorem Inv.producerStep (hI : s.Inv) (h : s.producerStep = some s') : s'.Inv := by
  have hp := hI.producer
  rw [Delivery.producerStep.eq_def] at h
  split at h
  · cases h
  · rename_i m hm hpc
    rw [hm, ProducerOk, hpc] at hp
    exact write_inv h hI.spsc hI.running hm hp hI.consumer
  · rename_i m hm hpc
    rw [hm, ProducerOk, hpc] at hp
    cases h
    exact { hI with producer := ⟨hp, _, hpc⟩ }
  · cases h
  · rename_i m hm _ _ _
    rw [hm] at hp
    obtain ⟨q, rfl, hq, hI', hr'⟩ := spscStep_change h hI.spsc hI.running nofun
    obtain ⟨hcc, ht, hw⟩ := hq.producer_frame (.inl rfl)
    refine ⟨hI', hr', ?_, hI.consumer.congr hcc ht hw⟩
    change ProducerOk s.produced q s.producing
    rw [hm]
    exact hp.step hI.spsc hI.running hq

/-- `PacketConsumer` calls `isEmpty`, having classified what it has taken out. -/
theorem isEmpty_inv {readFirst : Bool} (h : s.spscStep (.consumerCalls (.isEmpty readFirst)) = some s')
    (hI : s.spsc.Inv) (hr : s.spsc.phase = .running) (hl : s.loop = .draining)
    (hp : ProducerOk s.produced s.spsc s.producing) (hc : s.classified = s.spsc.takenOut) :
    s'.Inv := by
  obtain ⟨q, rfl, hq, hI', hr'⟩ := spscStep_change h hI hr nofun
  obtain ⟨hpp, hw⟩ := hq.consumer_frame (.inr ⟨_, rfl⟩)
  refine ⟨hI', hr', hp.congr hpp hw, ?_⟩
  change ConsumerOk s.classified q s.loop
  rw [hl]
  cases hq with
  | consumerCalled => exact hc
  | faulted hf => exact hf.elim

/-- A packet that was read is classified. -/
theorem Inv.classify {record : Option PktMdata} (hI : s.Inv) (hl : s.loop = .draining)
    (hr : s.spsc.consumer = .returned (.read record)) :
    (s.classify record).classified = s.spsc.takenOut ∧ record ≠ none := by
  have hc := hI.consumer
  rw [hl, ConsumerOk, hr] at hc
  obtain ⟨m, rfl, e⟩ := hc
  exact ⟨e.symm, nofun⟩

theorem Inv.consumerStep {readFirst : Bool} (hI : s.Inv) (h : s.consumerStep readFirst = some s') :
    s'.Inv := by
  have hc := hI.consumer
  rw [Delivery.consumerStep.eq_def] at h
  split at h
  · cases h
  · rename_i hl
    rw [hl] at hc
    exact isEmpty_inv h hI.spsc hI.running rfl hI.producer hc.1
  · rename_i hl hr
    rw [hl, ConsumerOk, hr] at hc
    cases h
    exact { hI with consumer := ⟨hc, _, hr, nofun⟩ }
  · rename_i hl hr
    rw [hl, ConsumerOk, hr] at hc
    have hlt := hI.spsc.consumer
    rw [hr] at hlt
    obtain ⟨q, rfl, hq, hI', hr'⟩ := spscStep_change h hI.spsc hI.running nofun
    obtain ⟨hpp, hw⟩ := hq.consumer_frame (.inr ⟨_, rfl⟩)
    refine ⟨hI', hr', hI.producer.congr hpp hw, ?_⟩
    change ConsumerOk s.classified q s.loop
    rw [hl]
    cases hq with
    | consumerCalled => exact ⟨hc, hlt⟩
    | faulted hf => exact hf.elim
  · rename_i record hl hr
    exact isEmpty_inv h hI.spsc hI.running hl hI.producer (hI.classify hl hr).1
  · cases h
  · rename_i hl _ _ _ _
    rw [hl] at hc
    obtain ⟨q, rfl, hq, hI', hr'⟩ := spscStep_change h hI.spsc hI.running nofun
    obtain ⟨hpp, hw⟩ := hq.consumer_frame (.inl rfl)
    refine ⟨hI', hr', hI.producer.congr hpp hw, ?_⟩
    change ConsumerOk s.classified q s.loop
    rw [hl]
    exact hc.step hI.spsc hI.running hq

theorem Inv.step {a : Act} (hI : s.Inv) (h : delivery.step s a = some s') : s'.Inv := by
  change s.step a = some s' at h
  cases a with
  | packet mdata =>
      rw [Delivery.step] at h
      split at h
      · cases h
      · rename_i hp
        have hprod := hI.producer
        rw [hp, ProducerOk] at hprod
        exact write_inv h hI.spsc hI.running rfl (congrArg (· ++ [mdata]) hprod.1) hI.consumer
  | producer => exact hI.producerStep h
  | consumer readFirst => exact hI.consumerStep h
  | throws =>
      rw [Delivery.step] at h
      split at h <;> cases h
      rename_i record hl hr
      obtain ⟨hc, hn⟩ := hI.classify hl hr
      exact ⟨hI.spsc, hI.running, hI.producer, hc, _, hr, fun e => hn (Spsc.ConsumerRet.read.inj e)⟩
  | stopped =>
      obtain ⟨hl, h⟩ := Option.ite_none_right_eq_some.mp h
      cases h
      have hc := hI.consumer
      rw [hl] at hc
      exact ⟨hI.spsc, hI.running, hI.producer, hc⟩

theorem inv_init : init.Inv where
  spsc := Spsc.State.inv_init queueSize
  running := rfl
  producer := ⟨rfl, _, rfl⟩
  consumer := ⟨rfl, _, rfl, nofun⟩

/-! ### Delivery -/

/-- **Packets are delivered in order.**  The `read` after an `isEmpty` that has returned false does
not fail; what was classified is an initial part of what was written, and that one of what
`PacketProducer` was called with. -/
structure Delivered (s : Delivery) : Prop where
  reads : s.spsc.consumer ≠ .returned (.read none)
  classified : s.classified <+: s.spsc.written
  written : s.spsc.written <+: s.produced

theorem Inv.delivered (hI : s.Inv) : s.Delivered := by
  have hp := hI.producer
  have hc := hI.consumer
  refine ⟨fun hn => ?_, List.IsPrefix.trans ?_ hI.spsc.order, ?_⟩
  · cases hl : s.loop <;> rw [hl, ConsumerOk, hn] at hc
    · obtain ⟨-, ret, e, h⟩ := hc
      cases e
      exact h rfl
    · obtain ⟨m, e, -⟩ := hc
      cases e
    · obtain ⟨-, ret, e, h⟩ := hc
      cases e
      exact h rfl
  · cases hl : s.loop <;> rw [hl, ConsumerOk] at hc
    · exact hc.1 ▸ List.prefix_rfl
    · split at hc
      · exact hc ▸ List.prefix_rfl
      · exact hc ▸ List.prefix_rfl
      · exact hc ▸ List.prefix_rfl
      · exact hc ▸ List.prefix_rfl
      · exact hc.1 ▸ List.prefix_rfl
      · exact hc.1 ▸ List.prefix_rfl
      · obtain ⟨m, -, e⟩ := hc
        exact e ▸ List.prefix_append ..
      · exact hc.elim
    · exact hc.1 ▸ List.prefix_rfl
  · cases hm : s.producing <;> rw [hm, ProducerOk] at hp
    · exact hp.1 ▸ List.prefix_rfl
    · split at hp
      · exact hp.2 ▸ List.prefix_append ..
      · exact hp.2 ▸ List.prefix_append ..
      · exact hp.2 ▸ List.prefix_append ..
      · exact hp ▸ List.prefix_append ..
      · exact hp ▸ List.prefix_rfl
      · exact hp.elim

end Delivery

/-- **The queue is a first-in first-out store, and delivers the packets.**  Whatever its size, what
its records are, and what the two threads call: what happens to it happens to the store in a run
of the store's own, and it is correct in every state.  `PacketConsumer` classifies the packets of
`PacketProducer` in their order. -/
theorem queue_refines_fifo {T : Type*} :
    (∀ (size : Size) (as : List (Spsc.Act T)) (s : State T),
      (Spsc.system T).Run (Spsc.init size) as s →
        (∃ bs, (Fifo.machine T (size.val - 1)).Run .empty bs s.abs) ∧ s.Correct) ∧
    ∀ (as : List Delivery.Act) (s : Delivery), delivery.Run Delivery.init as s → s.Delivered := by
  constructor
  · intro size as s h
    obtain ⟨hI, -, hr⟩ := State.refines h
    exact ⟨hr, hI.correct⟩
  · intro as s h
    exact (h.invariant (fun _ _ _ hI hs => hI.step hs) Delivery.inv_init).delivered

/-- Two slots have room for one record: the second of two calls of `write` fails. -/
theorem queue_refines_fifo_full : ∃ s, (Spsc.system Nat).Run (Spsc.init ⟨2, by decide, by decide⟩)
    [.producerCalls (.write 7), .producer, .producer, .producer, .producer,
      .producerCalls (.write 8), .producer, .producer] s ∧
    s.producer = .returned (.write false) ∧ s.stored = [7] ∧ s.Correct := by
  have h := Machine.run_of_exec (M := Spsc.system Nat) (s := Spsc.init ⟨2, by decide, by decide⟩)
    (show (Machine.exec _ _ [.producerCalls (.write 7), .producer, .producer, .producer, .producer,
      .producerCalls (.write 8), .producer, .producer]).isSome from rfl)
  exact ⟨_, h, rfl, rfl, (queue_refines_fifo.1 _ _ _ h).2⟩

end DistDpi
