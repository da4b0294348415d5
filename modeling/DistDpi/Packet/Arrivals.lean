import DistDpi.Flow.Feed
import DistDpi.Packet.Definitions

/-!
# Packet — arrivals

The calls of `InsertOrUpdateFlows`, and what the table makes of them.  While `numQueues_` is above
zero each of them is of an entry; from the call on that has made it until it is erased, an entry
gets every packet of its connection (`Began`, `arrived`).
-/

namespace DistDpi

/-- The call of `InsertOrUpdateFlows` that a step is. -/
def Act.call : Act → Option InsertCall
  | .insert key pktString filter dir _ => some { key, pktString, filter, dir }
  | _ => none

/-- The connection of the packet, and its payload. -/
def InsertCall.packet (c : InsertCall) : ConnKey × Bytes := (c.key, c.pktString)

/-- The payload and the direction, if the packet is of the connection of `first`. -/
def InsertCall.towards (first : ConnKey) (c : InsertCall) : Option (Bytes × UInt32) :=
  if connKeyEqual first c.key then some (c.pktString, Sys.direction c.key first) else none

/-- The packet that came to the table. -/
def Event.came : Event → Option (ConnKey × Bytes)
  | .inserted _ key data _ _ _ | .matched _ key data _ _ => some (key, data)
  | _ => none

/-- An event without a packet is none for an entry. -/
theorem Event.packet_of_came {ev : Event} {x : NodeId} (h : ev.came = none) : ev.packet x = none := by
  cases ev <;> first | rfl | cases h

theorem Event.arrival_of_came {ev : Event} {x : NodeId} (h : ev.came = none) :
    ev.arrival x = none := by
  cases ev <;> first | rfl | cases h

namespace Sys

variable {inst : Instances} {s s' : Sys} {a : Act} {as : List Act} {n n' : Node}
  {c : InsertCall} {calls after : List InsertCall} {evs : List Event}

/-- The packets that came to the table. -/
def came (s : Sys) : List (ConnKey × Bytes) := s.log.filterMap Event.came

/-- The packets of a connection among some calls. -/
def ofConnection (first : ConnKey) (calls : List InsertCall) : List (Bytes × UInt32) :=
  calls.filterMap (InsertCall.towards first)

/-- The entry `n` began with the call `c`, and since then got what came of its connection `after`
it; all of that, while it is in a table that takes packets. -/
structure Began (c : InsertCall) (after : List InsertCall) (s : Sys) (n : Node) : Prop where
  key : n.first = c.key
  filter : n.second.filter = c.filter
  dir : n.second.dir = c.dir.toNat
  packets : s.packets n.addr = (c.pktString, 0) :: s.arrivals n.addr
  arrivals : s.arrivals n.addr <+: ofConnection n.first after
  all : n ∈ s.connTable → s.numQueues ≠ 0 → s.arrivals n.addr = ofConnection n.first after

/-- What holds of the calls up to a state. -/
structure Arrived (calls : List InsertCall) (s : Sys) : Prop where
  came : s.came <+: calls.map InsertCall.packet
  all : s.numQueues ≠ 0 → s.came = calls.map InsertCall.packet
  entries : ∀ n ∈ s.nodes, ∃ before c after, calls = before ++ c :: after ∧ Began c after s n

/-! ### One step -/

/-- Once `numQueues_` is zero, it stays. -/
theorem Change.numQueues_ne (h : Change s a s') (hI : s.Inv inst) (hn : s'.numQueues ≠ 0) :
    s.numQueues ≠ 0 := by
  by_cases ht : ∃ q, a = .engine q .throw
  · obtain ⟨q, rfl⟩ := ht
    have hlt := (h.inv hI).numQueues_range.1
    cases h with
    | moved _ hm => rcases hm.act with k | k | k <;> cases k
    | thrown he hpc =>
        rw [setPc_numQueues] at hlt hn
        change 0 ≤ s.numQueues - 1 at hlt
        omega
  · rwa [h.numQueues_eq fun q k => ht ⟨q, k⟩] at hn

/-- What a step has to say of its packet. -/
def packetEvent (s : Sys) : Act → Option Event
  | .insert key data filter dir now =>
      if s.numQueues = 0 then none
      else match ConnTable.find s.connTable key with
        | none => some (.inserted s.nextNode key data filter dir now)
        | some it => some (.matched it.addr key data (direction key it.first) now)
  | _ => none

section
variable {key : ConnKey} {data : Bytes} {filter : Nat} {dir : UInt8} {now : Int} {it : Node}

theorem packetEvent_zero (h : s.numQueues = 0) :
    s.packetEvent (.insert key data filter dir now) = none := if_pos h

theorem packetEvent_new (h : s.numQueues ≠ 0) (hf : ConnTable.find s.connTable key = none) :
    s.packetEvent (.insert key data filter dir now) =
      some (.inserted s.nextNode key data filter dir now) := by
  rw [packetEvent, if_neg h, hf]

theorem packetEvent_known (h : s.numQueues ≠ 0) (hf : ConnTable.find s.connTable key = some it) :
    s.packetEvent (.insert key data filter dir now) =
      some (.matched it.addr key data (direction key it.first) now) := by
  rw [packetEvent, if_neg h, hf]

end

/-- A view of the log that only packets have a part in grows by what the step says of its packet. -/
theorem Change.packet_log {α : Type} {f : Event → Option α} (h : Change s a s')
    (hf : ∀ ev, ev.came = none → f ev = none) :
    s'.log.filterMap f = s.log.filterMap f ++ (s.packetEvent a).toList.filterMap f := by
  have adds : ∀ evs, s'.log = s.log ++ evs →
      evs.filterMap f = (s.packetEvent a).toList.filterMap f →
      s'.log.filterMap f = s.log.filterMap f ++ (s.packetEvent a).toList.filterMap f := by
    intro evs hlog hev
    rw [hlog, List.filterMap_append, hev]
  have silent : ∀ evs : List Event, (∀ ev ∈ evs, ev.came = none) → evs.filterMap f = [] :=
    fun evs hev => List.filterMap_eq_nil_iff.mpr fun ev h => hf ev (hev ev h)
  -- a packet and the message for it
  have pair : ∀ ev key queue m, [ev, .enqueue key queue m].filterMap f = [ev].filterMap f := by
    intro ev key queue m
    rw [← List.singleton_append, List.filterMap_append, silent [.enqueue ..] (by simp [Event.came]),
      List.append_nil]
  cases h with
  | dropped h => exact adds [] (List.append_nil _).symm (by rw [packetEvent_zero h]; rfl)
  | inserted hn hfind =>
      exact adds _ rfl ((pair _ _ _ _).trans (by rw [packetEvent_new hn hfind]; rfl))
  | ignored hn hfind => exact adds _ rfl (by rw [packetEvent_known hn hfind]; rfl)
  | queued hn hfind =>
      exact adds _ rfl ((pair _ _ _ _).trans (by rw [packetEvent_known hn hfind]; rfl))
  | popped | exits | moved | handleSet | unfound | noted | thrown | cleared | stopPush
  | stopMoved => exact adds [] (List.append_nil _).symm rfl
  | createFailed | created | called | reported =>
      exact adds _ rfl (silent _ (by simp [Event.came]))
  | cleanup | stopCleanup =>
      exact adds _ rfl (filterMap_destroyCall (fun _ _ => hf _ rfl) _)

/-- What comes in a step is the packet of the call, unless `numQueues_` is zero. -/
theorem Change.came_eq (h : Change s a s') :
    s'.came = s.came ++ if s.numQueues = 0 then [] else a.call.toList.map InsertCall.packet := by
  rw [came, h.packet_log fun _ h => h, came]
  congr 1
  cases a with
  | insert key data filter dir now =>
      by_cases hn : s.numQueues = 0
      · rw [packetEvent_zero hn, if_pos hn]
        rfl
      rw [if_neg hn]
      cases hf : ConnTable.find s.connTable key with
      | none => rw [packetEvent_new hn hf]; rfl
      | some it => rw [packetEvent_known hn hf]; rfl
  | engine | cleanup | stop => exact (ite_self _).symm

/-- **What a step adds to an entry**: the packet of the call, if the entry is in a table that takes
packets, and the packet is of its connection. -/
theorem Change.arrivals_eq (h : Change s a s') (hI : s.Inv inst) (hn : n ∈ s.nodes) :
    s'.arrivals n.addr = s.arrivals n.addr ++
      if n ∈ s.connTable ∧ s.numQueues ≠ 0 then ofConnection n.first a.call.toList else [] := by
  rw [arrivals, h.packet_log fun _ => Event.arrival_of_came, arrivals]
  congr 1
  cases a with
  | insert key data filter dir now =>
      by_cases hq : s.numQueues = 0
      · rw [packetEvent_zero hq, if_neg fun k => k.2 hq]
        rfl
      have hcall : ofConnection n.first (Act.insert key data filter dir now).call.toList =
          if connKeyEqual n.first key then [(data, direction key n.first)] else [] := by
        simp only [ofConnection, Act.call, Option.toList_some, List.filterMap_cons,
          InsertCall.towards, List.filterMap_nil]
        cases connKeyEqual n.first key <;> rfl
      rw [hcall]
      cases hf : ConnTable.find s.connTable key with
      | none =>
          -- no entry of the table is of the connection
          rw [packetEvent_new hq hf, ite_eq_right_iff.mpr]
          · rfl
          · exact fun hlive => if_neg (ConnTable.find_none.mp hf n hlive.1)
      | some it =>
          obtain ⟨hit, hk⟩ := ConnTable.find_some hf
          rw [packetEvent_known hq hf]
          by_cases e : it.addr = n.addr
          · obtain rfl := hI.table.eq_of_addr (mem_nodes.mpr (.inl hit)) hn e
            rw [if_pos ⟨hit, hq⟩, if_pos hk]
            simp [Event.arrival]
          · -- there is one entry of a connection in the table
            rw [ite_eq_right_iff.mpr]
            · simp [Event.arrival, e]
            · refine fun hlive => if_neg fun k => e ?_
              rw [hI.table.keys.find_of_mem hlive.1 k] at hf
              exact (congrArg Node.addr (Option.some.inj hf)).symm
  | engine | cleanup | stop => exact (ite_self _).symm

/-! ### The invariant -/

theorem ofConnection_append (first : ConnKey) (l l' : List InsertCall) :
    ofConnection first (l ++ l') = ofConnection first l ++ ofConnection first l' :=
  List.filterMap_append

/-- An entry that is live after a step was live before. -/
theorem Change.live_back (h : Change s a s') (hI : s.Inv inst) (hn : n ∈ s.nodes)
    (ha : n'.addr = n.addr) (hn' : n' ∈ s'.connTable) : n ∈ s.connTable := by
  rcases (h.nodes hI).back_live hn' with ⟨n₀, hn₀, k⟩ | hm
  · have e : n₀.addr = n.addr := k.evolves.addr.symm.trans ha
    exact hI.table.eq_of_addr (mem_nodes.mpr (.inl hn₀)) hn e ▸ hn₀
  · have hlt := hI.table.addr_lt n hn
    rw [← ha, hm.addr] at hlt
    exact absurd hlt (Nat.lt_irrefl _)

/-- An entry there has been. -/
theorem Began.step (hb : Began c after s n) (h : Change s a s') (hI : s.Inv inst) (hn : n ∈ s.nodes)
    (k : s.Next n a n') : Began c (after ++ a.call.toList) s' n' := by
  have k := k.evolves
  have hadd := h.arrivals_eq hI hn
  refine ⟨k.first.trans hb.key, k.filter.trans hb.filter, k.dir.trans hb.dir, ?_, ?_,
    fun hlive hq => ?_⟩
  · obtain ⟨evs, hlog, hem⟩ := h.emits hI
    obtain ⟨hp, ha, -⟩ := log_parts hlog n.addr
    rw [k.addr, hp, ha, hb.packets, hem.packet (Nat.ne_of_gt (hI.table.addr_lt n hn))]
    rfl
  · rw [k.addr, k.first, hadd, ofConnection_append]
    split
    · rename_i hlive
      exact hb.all hlive.1 hlive.2 ▸ List.prefix_rfl
    · rw [List.append_nil]
      exact hb.arrivals.trans (List.prefix_append _ _)
  · have hlive := h.live_back hI hn k.addr hlive
    have hq := h.numQueues_ne hI hq
    rw [k.addr, k.first, hadd, if_pos ⟨hlive, hq⟩, ofConnection_append, hb.all hlive hq]

/-- The entry of a first packet. -/
theorem Began.make (h : Change s a s') (hI : s.Inv inst) (hL : ∀ ev ∈ s.log, ev.Ok s)
    (hm : s.Makes a n) : ∃ c, a.call = some c ∧ Began c [] s' n := by
  obtain ⟨noArrivals, noPackets, -⟩ := parts_fresh hI hL
  cases hm with
  | @mk key data filter dir now hq hf =>
      have hev : s.packetEvent (.insert key data filter dir now) = _ := packetEvent_new hq hf
      have hpackets : s'.packets s.nextNode = [(data, 0)] := by
        rw [Sys.packets, h.packet_log fun _ => Event.packet_of_came, ← Sys.packets, noPackets, hev]
        simp [Event.packet]
      have harrivals : s'.arrivals s.nextNode = [] := by
        rw [Sys.arrivals, h.packet_log fun _ => Event.arrival_of_came, ← Sys.arrivals, noArrivals,
          hev]
        rfl
      refine ⟨_, rfl, rfl, rfl, rfl, ?_, ?_, fun _ _ => harrivals⟩
      · rw [show (s.newNode key filter dir now).addr = s.nextNode from rfl, hpackets, harrivals]
      · rw [show (s.newNode key filter dir now).addr = s.nextNode from rfl, harrivals]
        exact List.nil_prefix

theorem Change.arrived (h : Change s a s') (hI : s.Inv inst) (hL : ∀ ev ∈ s.log, ev.Ok s)
    (hA : Arrived calls s) : Arrived (calls ++ a.call.toList) s' := by
  have hcame := h.came_eq
  refine ⟨?_, fun hq => ?_, fun n' hn' => ?_⟩
  · rw [hcame, List.map_append]
    by_cases hq : s.numQueues = 0
    · rw [if_pos hq, List.append_nil]
      exact hA.came.trans (List.prefix_append _ _)
    · rw [if_neg hq]
      exact hA.all hq ▸ List.prefix_rfl
  · have hq := h.numQueues_ne hI hq
    rw [hcame, if_neg hq, hA.all hq, List.map_append]
  · rcases (h.nodes hI).back hn' with ⟨n, hn, k⟩ | hm
    · obtain ⟨before, c, after, rfl, hb⟩ := hA.entries n hn
      refine ⟨before, c, after ++ a.call.toList, ?_, hb.step h hI hn k⟩
      rw [List.append_assoc, List.cons_append]
    · obtain ⟨c, hc, hb⟩ := Began.make h hI hL hm
      exact ⟨calls, c, [], by rw [hc]; rfl, hb⟩

theorem arrived_init (inst : Instances) : Arrived [] (init inst) where
  came := List.nil_prefix
  all _ := rfl
  entries _ hn := by simp [init, nodes] at hn

/-- **The packets of a run**, and the entries they are of. -/
theorem reachable_arrived (h : system.Run (init inst) as s) : Arrived (as.filterMap Act.call) s := by
  have step : ∀ t a t' l, (t.Inv inst ∧ (∀ ev ∈ t.log, ev.Ok t) ∧ Arrived l t) →
      system.step t a = some t' →
      t'.Inv inst ∧ (∀ ev ∈ t'.log, ev.Ok t') ∧ Arrived (l ++ a.call.toList) t' := by
    rintro t a t' l ⟨hI, hL, hA⟩ hs
    have hs := step_change hs
    exact ⟨hs.inv hI, hs.log_ok hI hL, hs.arrived hI hL hA⟩
  have log : ∀ ev ∈ (init inst).log, ev.Ok (init inst) := fun _ h => by cases h
  have hrun := h.invariant_collect (I := fun t l => t.Inv inst ∧ (∀ ev ∈ t.log, ev.Ok t) ∧
    Arrived l t) (l := []) step ⟨inv_init inst, log, arrived_init inst⟩
  have hmap := h.map_collect (f := fun _ a => a.call) (g := id) (k := Act.call)
    fun _ _ => Option.map_id'
  rw [List.map_id] at hmap
  exact hmap ▸ hrun.2.2

end Sys
end DistDpi
