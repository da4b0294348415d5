import DistDpi.Netx.Capture
import DistDpi.Packet.Arrivals
import DistDpi.Packet.Delivery
import DistDpi.Packet.Encoding

/-!
# Packet — pipeline

The way of a packet through the program: `ProcessPacket` captures it, `PacketProducer` writes it to
the queue, `PacketConsumer` reads it and classifies it, `InsertOrUpdateFlows` finds its entry, and
an engine gives its payload to navl.  The queue's two threads, the engines, the cleanup and
`FlowTable::stop` interleave in any way.

`classifyFlows` makes its call in the step of the consumer that has read the packet.  That it reads
outside the packet is undefined, and that it throws, memory running out, is not modelled.

* `packets_in_order`: the table gets the packets captured, in order, but for the few on their way.
* `fed_from_captured`: what navl is given of an entry, and what is reported of it, comes from
  packets of its connection.
-/

namespace DistDpi

open Spsc (State)

structure Pipeline where
  delivery : Delivery
  sys : Sys

namespace Pipeline

inductive Act where
  /-- `ProcessPacket`, up to the first access of `write`. -/
  | capture (f : FilterPtr) (pkt : PktHandle) (direction : UInt8) (smallBuffer : List UInt8)
  | producer
  | consumer (readFirst : Bool) (now : Int)
  | stopped
  /-- An engine, the cleanup thread or `FlowTable::stop`. -/
  | table (a : DistDpi.Act)

/-- The call that `classifyFlows` makes, if any. -/
def callOf (mdata : PktMdata) : Option InsertCall :=
  match Parse.classifyFlows mdata with
  | .error _ => none
  | .ok (call, _) => call

/-- `classifyFlows`, at `time(0) = now`. -/
def classifyFlows (sys : Sys) (mdata : PktMdata) (now : Int) : Option Sys :=
  match Parse.classifyFlows mdata with
  | .error _ => none
  | .ok (none, _) => some sys
  | .ok (some call, _) =>
      some (sys.insertOrUpdateFlows call.key call.pktString call.filter call.dir now)

def consumerStep (s : Pipeline) (readFirst : Bool) (now : Int) : Option Pipeline := do
  let delivery ← s.delivery.step (.consumer readFirst)
  match s.delivery.loop, s.delivery.spsc.consumer with
  | .draining, .returned (.read record) => do
      let sys ← classifyFlows s.sys (record.getD s.delivery.mdata) now
      some { delivery, sys }
  | _, _ => some { s with delivery }

def step (lib : DVFilterLib) (s : Pipeline) : Act → Option Pipeline
  | .capture f pkt direction smallBuffer => do
      let mdata ← processPacket lib f pkt direction smallBuffer
      let delivery ← s.delivery.step (.packet mdata)
      some { s with delivery }
  | .producer => (s.delivery.step .producer).map fun delivery => { s with delivery }
  | .consumer readFirst now => s.consumerStep readFirst now
  | .stopped => (s.delivery.step .stopped).map fun delivery => { s with delivery }
  | .table a =>
      if a.call = none then (system.step s.sys a).map fun sys => { s with sys } else none

def start (inst : Instances) : Pipeline := { delivery := .init, sys := init inst }

/-- What is captured in a step. -/
def Act.captured (lib : DVFilterLib) : Act → Option PktMdata
  | .capture f pkt direction smallBuffer => processPacket lib f pkt direction smallBuffer
  | _ => none

/-- Nothing of a packet is on its way to the table. -/
def Idle (s : Pipeline) : Prop :=
  s.delivery.producing = none ∧ s.delivery.loop = .waiting ∧ s.delivery.spsc.stored = []

end Pipeline

/-- **From the frame to navl**, every interleaving. -/
def pipeline (lib : DVFilterLib) : Machine Pipeline Pipeline.Act := ⟨Pipeline.step lib⟩

namespace Delivery
variable {s s' : Delivery}

/-! ### What a step of the queue's threads adds -/

theorem Inv.kept {a : Act} (hI : s.Inv) (h : s.step a = some s') : s'.Inv := hI.step (a := a) h

/-- A step leaves these packets produced and classified, and the queue of its size. -/
structure Leaves (s s' : Delivery) (produced classified : List PktMdata) : Prop where
  produced : s'.produced = produced
  classified : s'.classified = classified
  size : s'.spsc.queue.size = s.spsc.queue.size

theorem spscStep_leaves {a : Spsc.Act PktMdata} (h : s.spscStep a = some s') :
    Leaves s s' s.produced s.classified := by
  obtain ⟨q, hq, rfl⟩ := Option.map_eq_some_iff.mp h
  exact ⟨rfl, rfl, (State.step_change hq).2.size_eq⟩

theorem packet_leaves {mdata : PktMdata} (h : s.step (.packet mdata) = some s') :
    Leaves s s' (s.produced ++ [mdata]) s.classified := by
  rw [step] at h
  split at h
  · cases h
  · have hl := spscStep_leaves h
    exact ⟨hl.produced, hl.classified, hl.size⟩

theorem producer_leaves (h : s.step .producer = some s') :
    Leaves s s' s.produced s.classified := by
  rw [step, producerStep.eq_def] at h
  split at h
  · cases h
  · exact spscStep_leaves h
  · cases h
    exact ⟨rfl, rfl, rfl⟩
  · cases h
  · exact spscStep_leaves h

theorem stopped_leaves (h : s.step .stopped = some s') :
    Leaves s s' s.produced s.classified := by
  obtain ⟨-, h⟩ := Option.ite_none_right_eq_some.mp h
  cases h
  exact ⟨rfl, rfl, rfl⟩

/-- The packet that a step of the consumer classifies. -/
def reading (s : Delivery) : Option PktMdata :=
  match s.loop, s.spsc.consumer with
  | .draining, .returned (.read record) => some (record.getD s.mdata)
  | _, _ => none

theorem consumer_leaves {readFirst : Bool} (h : s.step (.consumer readFirst) = some s') :
    Leaves s s' s.produced (s.classified ++ s.reading.toList) := by
  have quiet : s.reading = none → Leaves s s' s.produced s.classified →
      Leaves s s' s.produced (s.classified ++ s.reading.toList) := by
    intro hr hl
    rwa [hr, Option.toList_none, List.append_nil]
  rw [step, consumerStep.eq_def] at h
  split at h
  · cases h
  · rename_i hl
    have hq := spscStep_leaves h
    exact quiet (by rw [reading, hl]) ⟨hq.produced, hq.classified, hq.size⟩
  · rename_i hl hc
    cases h
    exact quiet (by rw [reading, hl, hc]) ⟨rfl, rfl, rfl⟩
  · rename_i hl hc
    exact quiet (by rw [reading, hl, hc]) (spscStep_leaves h)
  · rename_i record hl hc
    have hq := spscStep_leaves h
    rw [reading, hl, hc]
    exact ⟨hq.produced, hq.classified, hq.size⟩
  · cases h
  · rename_i hl _ _ hread _
    refine quiet ?_ (spscStep_leaves h)
    rw [reading, hl]
    split
    · rename_i hc
      exact absurd hc (hread _)
    · rfl

/-- The producer is at one packet at most. -/
theorem ProducerOk.length_le {packets : List PktMdata} {q : State PktMdata} {p : Option PktMdata}
    (h : ProducerOk packets q p) : packets.length ≤ q.written.length + 1 := by
  have hone : ∀ m, (q.written ++ [m]).length ≤ q.written.length + 1 := fun m =>
    Nat.le_of_eq List.length_append
  cases p with
  | none => exact h.1 ▸ Nat.le_succ _
  | some m =>
      rw [ProducerOk] at h
      split at h
      · exact h.2 ▸ hone m
      · exact h.2 ▸ hone m
      · exact h.2 ▸ hone m
      · exact h ▸ hone m
      · exact h ▸ Nat.le_succ _
      · exact h.elim

/-- So is the consumer. -/
theorem ConsumerOk.length_le {packets : List PktMdata} {q : State PktMdata} {l : ConsumerLoop}
    (h : ConsumerOk packets q l) : q.takenOut.length ≤ packets.length + 1 := by
  have hsame : packets = q.takenOut → q.takenOut.length ≤ packets.length + 1 := fun e =>
    e ▸ Nat.le_succ _
  cases l with
  | waiting | exited => exact hsame h.1
  | draining =>
      rw [ConsumerOk] at h
      split at h
      · exact hsame h
      · exact hsame h
      · exact hsame h
      · exact hsame h
      · exact hsame h.1
      · exact hsame h.1
      · obtain ⟨m, -, e⟩ := h
        exact e ▸ Nat.le_of_eq List.length_append
      · exact h.elim

/-- Few packets are on their way: those in the queue, and one at each end of it. -/
theorem Inv.lag (hI : s.Inv) :
    s.produced.length ≤ s.classified.length + s.spsc.queue.size + 1 := by
  have hroom := hI.spsc.room
  have hp := hI.producer.length_le
  have hc := hI.consumer.length_le
  omega

/-- Where nothing is on its way, everything has been classified. -/
theorem Inv.caught_up (hI : s.Inv) (hp : s.producing = none) (hl : s.loop = .waiting)
    (hq : s.spsc.stored = []) : s.classified = s.produced := by
  have hproduced := hI.producer
  have hclassified := hI.consumer
  rw [hp, ProducerOk] at hproduced
  rw [hl, ConsumerOk] at hclassified
  rw [hproduced.1, hclassified.1]
  refine hI.spsc.order.eq_of_length_le ?_
  rw [State.stored, List.drop_eq_nil_iff] at hq
  exact hq

end Delivery

namespace Pipeline
variable {lib : DVFilterLib} {inst : Instances} {s s' : Pipeline} {a : Act} {as : List Act}
  {captured : List PktMdata}

/-! ### The invariant -/

/-- The packets written so far are those captured, and the table is where the calls for the packets
classified have brought it. -/
structure Inv (inst : Instances) (captured : List PktMdata) (s : Pipeline) : Prop where
  delivery : s.delivery.Inv
  size : s.delivery.spsc.queue.size = 500000
  produced : s.delivery.produced = captured
  table : ∃ as, system.Run (init inst) as s.sys ∧
    as.filterMap DistDpi.Act.call = s.delivery.classified.filterMap callOf

theorem inv_start (inst : Instances) : Inv inst [] (start inst) where
  delivery := Delivery.inv_init
  size := rfl
  produced := rfl
  table := ⟨[], .refl _, rfl⟩

/-- Where the calls have brought the table, a step that makes no call leaves it so. -/
theorem table_step {calls : List InsertCall} {sys sys' : Sys} {a : DistDpi.Act}
    (h : ∃ as, system.Run (init inst) as sys ∧ as.filterMap DistDpi.Act.call = calls)
    (hs : system.step sys a = some sys') : ∃ as, system.Run (init inst) as sys' ∧
      as.filterMap DistDpi.Act.call = calls ++ a.call.toList := by
  obtain ⟨as, hr, hc⟩ := h
  refine ⟨as ++ [a], hr.trans (.one hs), ?_⟩
  rw [List.filterMap_append, hc, List.filterMap_cons]
  cases a.call <;> rfl

/-- `classifyFlows` makes its call. -/
theorem table_classify {packets : List PktMdata} {mdata : PktMdata} {sys sys' : Sys} {now : Int}
    (h : ∃ as, system.Run (init inst) as sys ∧
      as.filterMap DistDpi.Act.call = packets.filterMap callOf)
    (hs : classifyFlows sys mdata now = some sys') : ∃ as, system.Run (init inst) as sys' ∧
      as.filterMap DistDpi.Act.call = (packets ++ [mdata]).filterMap callOf := by
  have hcall : (packets ++ [mdata]).filterMap callOf =
      packets.filterMap callOf ++ (callOf mdata).toList := by
    rw [List.filterMap_append, List.filterMap_cons]
    cases callOf mdata <;> rfl
  rw [classifyFlows] at hs
  rw [hcall, callOf]
  split at hs
  · cases hs
  · rename_i hparse
    cases hs
    rw [hparse, Option.toList_none, List.append_nil]
    exact h
  · rename_i call _ hparse
    cases hs
    rw [hparse]
    exact table_step (a := .insert call.key call.pktString call.filter call.dir now) h rfl

theorem consumerStep_frame {readFirst : Bool} {now : Int}
    (h : s.consumerStep readFirst now = some s') :
    s.delivery.step (.consumer readFirst) = some s'.delivery ∧
      (s.delivery.reading = none ∧ s'.sys = s.sys ∨ ∃ mdata, s.delivery.reading = some mdata ∧
        classifyFlows s.sys mdata now = some s'.sys) := by
  obtain ⟨delivery, hd, h⟩ := Option.bind_eq_some_iff.mp h
  rw [Delivery.reading]
  split at h
  · obtain ⟨sys, hs, h⟩ := Option.bind_eq_some_iff.mp h
    cases h
    exact ⟨hd, .inr ⟨_, rfl, hs⟩⟩
  · cases h
    exact ⟨hd, .inl ⟨rfl, rfl⟩⟩

/-- **One step.** -/
theorem Inv.step (hI : Inv inst captured s) (h : (pipeline lib).step s a = some s') :
    Inv inst (captured ++ (a.captured lib).toList) s' := by
  have quiet : a.captured lib = none → Inv inst captured s' →
      Inv inst (captured ++ (a.captured lib).toList) s' := by
    intro ha hI'
    rwa [ha, Option.toList_none, List.append_nil]
  cases a with
  | capture f pkt direction smallBuffer =>
      obtain ⟨mdata, hm, h⟩ := Option.bind_eq_some_iff.mp h
      obtain ⟨delivery, hd, h⟩ := Option.bind_eq_some_iff.mp h
      cases h
      have hl := Delivery.packet_leaves hd
      refine ⟨hI.delivery.kept hd, hl.size.trans hI.size, ?_, hl.classified ▸ hI.table⟩
      rw [Act.captured, hm, hl.produced, hI.produced]
      rfl
  | producer =>
      obtain ⟨delivery, hd, rfl⟩ := Option.map_eq_some_iff.mp h
      have hl := Delivery.producer_leaves hd
      exact quiet rfl ⟨hI.delivery.kept hd, hl.size.trans hI.size, hl.produced.trans hI.produced,
        hl.classified ▸ hI.table⟩
  | consumer readFirst now =>
      obtain ⟨hd, htable⟩ := consumerStep_frame h
      have hl := Delivery.consumer_leaves hd
      refine quiet rfl ⟨hI.delivery.kept hd, hl.size.trans hI.size, hl.produced.trans hI.produced, ?_⟩
      rcases htable with ⟨hr, hsys⟩ | ⟨mdata, hr, hsys⟩
      · rw [hl.classified, hr, Option.toList_none, List.append_nil, hsys]
        exact hI.table
      · rw [hl.classified, hr]
        exact table_classify hI.table hsys
  | stopped =>
      obtain ⟨delivery, hd, rfl⟩ := Option.map_eq_some_iff.mp h
      have hl := Delivery.stopped_leaves hd
      exact quiet rfl ⟨hI.delivery.kept hd, hl.size.trans hI.size, hl.produced.trans hI.produced,
        hl.classified ▸ hI.table⟩
  | table b =>
      obtain ⟨hb, h⟩ := Option.ite_none_right_eq_some.mp h
      obtain ⟨sys, hs, rfl⟩ := Option.map_eq_some_iff.mp h
      have ht := table_step hI.table hs
      rw [hb, Option.toList_none, List.append_nil] at ht
      exact quiet rfl ⟨hI.delivery, hI.size, hI.produced, ht⟩

theorem reachable (h : (pipeline lib).Run (start inst) as s) :
    Inv inst (as.filterMap (Act.captured lib)) s := by
  have hrun := h.invariant_collect (I := fun t l => Inv inst l t) (l := [])
    (f := fun _ a => a.captured lib) (fun _ _ _ _ hI hs => hI.step hs) (inv_start inst)
  have hmap := h.map_collect (f := fun _ a => a.captured lib) (g := id) (k := Act.captured lib)
    fun _ _ => Option.map_id'
  rw [List.map_id] at hmap
  exact hmap ▸ hrun

/-! ### A run -/

/-- A datagram between ports 5000 of two hosts, with one byte of payload. -/
def udpFrame (source payload : UInt8) : List UInt8 :=
  List.replicate 12 0 ++ [8, 0] ++ [0x45, 0, 0, 29, 0, 0, 0, 0, 64, 17, 0, 0, 10, 0, 0, source,
    10, 0, 0, 3 - source, 0x13, 0x88, 0x13, 0x88, 0, 9, 0, 0, payload]

/-- A packet is captured, and the consumer takes it to the table. -/
def arrives (source payload : UInt8) (now : Int) : List Act :=
  .capture 3 [udpFrame source payload] source [] :: List.replicate 5 .producer ++
    List.replicate 13 (.consumer false now)

/-- A packet from each end, the second of which is given to navl. -/
def served : List Act :=
  arrives 1 7 100 ++
    [.table (.engine 0 .pop), .table (.engine 0 .testState), .table (.engine 0 .setHandle),
      .table (.engine 0 (.create true))] ++
    arrives 2 9 101 ++
    [.table (.engine 0 .pop), .table (.engine 0 .testState), .table (.engine 0 .guard),
      .table (.engine 0 .classify)]

theorem run_served : ∃ s n, (pipeline fragLib).Run (start twoEngines) served s ∧
    s.delivery.classified.length = 2 ∧ s.sys.nodes = [n] ∧ s.sys.fed n.addr = [([9], 1)] :=
  ⟨_, _, Machine.run_of_exec (M := pipeline fragLib) (s := start twoEngines)
    (show (Machine.exec _ _ served).isSome from rfl), rfl, rfl, rfl⟩

/-! ### In order -/

/-- The packets captured and the packets of the table: what was classified is what was captured,
but for the few on their way, and the table has taken the call that was made for each, as long as
`numQueues_` was not zero. -/
structure Passed (captured : List PktMdata) (s : Pipeline) : Prop where
  classified : s.delivery.classified <+: captured
  lag : captured.length ≤ s.delivery.classified.length + 500001
  settled : s.Idle → s.delivery.classified = captured
  came : s.sys.came <+: (s.delivery.classified.filterMap callOf).map InsertCall.packet
  all : s.sys.numQueues ≠ 0 →
    s.sys.came = (s.delivery.classified.filterMap callOf).map InsertCall.packet

/-- **Packets reach the table in the order in which they were captured.** -/
theorem packets_in_order (h : (pipeline lib).Run (start inst) as s) :
    Passed (as.filterMap (Act.captured lib)) s := by
  have hI := reachable h
  obtain ⟨bs, hrun, hcalls⟩ := hI.table
  have harrived := Sys.reachable_arrived hrun
  have hlag := hI.delivery.lag
  have hpre := hI.delivery.delivered
  rw [hcalls] at harrived
  rw [hI.produced, hI.size] at hlag
  refine ⟨?_, hlag, ?_, harrived.came, harrived.all⟩
  · exact hI.produced ▸ hpre.classified.trans hpre.written
  · rintro ⟨hp, hl, hq⟩
    exact (hI.delivery.caught_up hp hl hq).trans hI.produced

theorem packets_in_order_served : ∃ s, s.delivery.classified.length = 2 ∧
    Passed (served.filterMap (Act.captured fragLib)) s := by
  obtain ⟨s, n, hr, hc, -⟩ := run_served
  exact ⟨s, hc, packets_in_order hr⟩

/-! ### To navl -/

/-- The entry `n` was made for the packet `c`: what navl is given of it is part of what came of its
connection `after` that packet, and what is reported has the filter and the direction of `c`. -/
structure Serves (c : InsertCall) (after : List InsertCall) (sys : Sys) (n : Node) : Prop where
  key : n.first = c.key
  fed : (sys.fed n.addr).Sublist (Sys.ofConnection c.key after)
  report : ∀ data : DPIFlowData, .report n.addr data ∈ sys.log →
    data.key = c.key ∧ data.filter = c.filter ∧ data.dir = c.dir.toNat

theorem serves_of_began {c : InsertCall} {after rest : List InsertCall} {sys : Sys} {n : Node}
    (hI : sys.Inv inst) (hL : ∀ ev ∈ sys.log, ev.Ok sys) (hO : sys.Ordered) (hn : n ∈ sys.nodes)
    (hb : Sys.Began c after sys n) : Serves c (after ++ rest) sys n := by
  refine ⟨hb.key, ?_, fun data hdata => ?_⟩
  · have hfed : (sys.fed n.addr).Sublist (sys.arrivals n.addr) := by
      by_cases hd : n.second.dpiState = none
      · exact hO.before n hn hd ▸ List.nil_sublist _
      · exact (List.sublist_append_left _ _).trans (hO.after n hn hd)
    rw [← hb.key, Sys.ofConnection_append]
    exact (hfed.trans hb.arrivals.sublist).trans (List.sublist_append_left _ _)
  · obtain ⟨n', hn', ha, hkey, hdir, hfilter, -⟩ := hL _ hdata
    obtain rfl := hI.table.eq_of_addr hn' hn ha
    exact ⟨hkey.trans hb.key, hfilter.trans hb.filter, hdir.trans hb.dir⟩

/-- **What navl is given was captured.**  Every entry there has been was made for a packet that was
captured, and serves those captured after it. -/
theorem fed_from_captured (h : (pipeline lib).Run (start inst) as s) :
    ∀ n ∈ s.sys.nodes, ∃ before c after,
      (as.filterMap (Act.captured lib)).filterMap callOf = before ++ c :: after ∧
        Serves c after s.sys n := by
  have hI := reachable h
  obtain ⟨bs, hrun, hcalls⟩ := hI.table
  have hpre := hI.delivery.delivered
  obtain ⟨rest, hrest⟩ := hpre.classified.trans hpre.written
  rw [hI.produced] at hrest
  intro n hn
  obtain ⟨before, c, after, hsplit, hb⟩ := (Sys.reachable_arrived hrun).entries n hn
  refine ⟨before, c, after ++ rest.filterMap callOf, ?_, ?_⟩
  · rw [← hrest, List.filterMap_append, ← hcalls, hsplit, List.append_assoc, List.cons_append]
  · exact serves_of_began (Sys.reachable hrun) (Sys.reachable_log hrun)
      (Sys.reachable_ordered hrun) hn hb

theorem fed_from_captured_served : ∃ (s : Pipeline) (n : Node) (c : InsertCall)
    (after : List InsertCall), s.sys.fed n.addr = [([9], 1)] ∧ Serves c after s.sys n := by
  obtain ⟨s, n, hr, -, hn, hfed⟩ := run_served
  obtain ⟨-, c, after, -, hs⟩ := fed_from_captured hr n (hn ▸ List.mem_singleton_self n)
  exact ⟨s, n, c, after, hfed, hs⟩

end Pipeline
end DistDpi
