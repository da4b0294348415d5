import DistDpi.Flow.Invariants

/-!
# Flow — the log

The calls and pushes of a step (`Emits`, `Change.emits`), and what each of them is about: a node,
which the event says the truth of from then on (`Event.Ok`, `reachable_log`).
-/

namespace DistDpi

/-- What an event says of the nodes there have been. -/
def Event.Ok (s : Sys) : Event → Prop
  | .inserted node key _ filter dir _ => ∃ n ∈ s.nodes, n.addr = node ∧ n.first = key ∧
      n.second.filter = filter ∧ n.second.dir = dir.toNat
  | .matched node key _ _ _ => ∃ n ∈ s.nodes, n.addr = node ∧ connKeyEqual n.first key
  | .enqueue key queue m => ∃ n ∈ s.nodes, n.addr = m.info ∧ connKeyEqual n.first key ∧
      n.second.queue = queue
  | .connCreate queue _ src dst ipproto node _ => ∃ n ∈ s.nodes, n.addr = node ∧
      n.second.queue = queue ∧ src = srcHost n.first ∧ dst = dstHost n.first ∧
      ipproto = n.first.ipproto
  | .connDestroy handle nc => ∃ n ∈ s.nodes, nc ≠ none → n.second.dpiState = nc ∧
      n.second.handle = handle
  | .classify queue handle _ nc _ node => ∃ n ∈ s.nodes, n.addr = node ∧
      n.second.queue = queue ∧ n.second.dpiState = nc ∧ nc ≠ none ∧ n.second.handle = handle
  | .report node data => ∃ n ∈ s.nodes, n.addr = node ∧ data.key = n.first ∧
      data.dir = n.second.dir ∧ data.filter = n.second.filter ∧ data.exitFlag = false

/-- The node an event is about. -/
def Event.node : Event → Option NodeId
  | .inserted node .. | .matched node .. | .connCreate _ _ _ _ _ node _ | .classify _ _ _ _ _ node
  | .report node _ => some node
  | .enqueue _ _ m => some m.info
  | .connDestroy .. => none

namespace Sys

variable {inst : Instances} {s s' : Sys} {a : Act} {n n' : Node} {ev : Event} {evs : List Event}

/-- What a step from `s` to `s'` adds to the log. -/
inductive Emits (s : Sys) : Act → Sys → List Event → Prop where
  | silent {a : Act} {s' : Sys} : Emits s a s' []
  | inserted {key : ConnKey} {data : Bytes} {filter : Nat} {dir : UInt8} {now : Int} {s' : Sys}
      (hn : s.numQueues ≠ 0) (hf : ConnTable.find s.connTable key = none)
      (hm : s.newNode key filter dir now ∈ s'.connTable) :
      Emits s (.insert key data filter dir now) s'
        [.inserted (s.newNode key filter dir now).addr key data filter dir now,
         .enqueue key (s.newNode key filter dir now).second.queue
           (metadata (s.newNode key filter dir now) 0 data)]
  | ignored {key : ConnKey} {data : Bytes} {filter : Nat} {dir : UInt8} {now : Int} {s' : Sys}
      {it : Node} (hf : ConnTable.find s.connTable key = some it) :
      Emits s (.insert key data filter dir now) s'
        [.matched it.addr key data (direction key it.first) now]
  | queued {key : ConnKey} {data : Bytes} {filter : Nat} {dir : UInt8} {now : Int} {s' : Sys}
      {it : Node} (hn : s.numQueues ≠ 0) (hf : ConnTable.find s.connTable key = some it)
      (hi : it.second.classState = .inspecting) (hd : it.second.dpiState ≠ none) :
      Emits s (.insert key data filter dir now) s'
        [.matched it.addr key data (direction key it.first) now,
         .enqueue key it.second.queue (nextMetadata it key data)]
  | create {q : Nat} {e : Engine} {m : ConnMetadata} {it : Node} {ok : Bool} {s' : Sys}
      (he : s.engines[q]? = some e) (hpc : e.pc = .create m) (hit : it ∈ s.connTable)
      (ha : it.addr = m.info)
      (hm : ok = true →
        { it with second := { it.second with dpiState := some s.nextConn } } ∈ s'.connTable) :
      Emits s (.engine q (.create ok)) s'
        [.connCreate q e.navlhandle (srcHost it.first) (dstHost it.first) it.first.ipproto it.addr
          (if ok then some s.nextConn else none)]
  | called {q : Nat} {e : Engine} {m : ConnMetadata} {it : Node} {s' : Sys}
      (he : s.engines[q]? = some e) (hpc : e.pc = .classify m) (hit : it ∈ s.connTable)
      (ha : it.addr = m.info) :
      Emits s (.engine q .classify) s'
        [.classify q e.navlhandle m.data it.second.dpiState m.dir it.addr]
  | reported {q : Nat} {e : Engine} {m : ConnMetadata} {it : Node} {r : Verdict} {now : Int}
      {s' : Sys} (he : s.engines[q]? = some e) (hpc : e.pc = .callback m) (hit : it ∈ s.connTable)
      (ha : it.addr = m.info) (hr : r.state = .classified ∨ r.state = .terminated)
      (hm : { it with second := classifiedInfo r now it.second } ∈ s'.connTable) :
      Emits s (.engine q (.callback r now)) s'
        [.connDestroy it.second.handle it.second.dpiState,
         .report it.addr (flowData it s.name r)]
  | idle {now : Int} {s' : Sys} :
      Emits s (.cleanup now) s' ((s.connTable.filter (idle (toInt now))).map destroyCall)
  | final {s' : Sys} (h : s.stopPc = .joined) : Emits s .stop s' (s.connTable.map destroyCall)

theorem Change.emits (h : Change s a s') (hI : s.Inv inst) :
    ∃ evs, s'.log = s.log ++ evs ∧ s.Emits a s' evs := by
  -- `navl_conn_create` gets its addresses through `key` and the entry through `info`
  have same : ∀ {q : Nat} {e : Engine} {m : ConnMetadata}, s.engines[q]? = some e →
      e.pc.held = some m → m.key = m.info :=
    fun {q e m} he hm => (hI.for_held ((held_eq he).trans hm)).1
  cases h with
  | dropped | popped | exits | moved | handleSet | unfound | noted | thrown | cleared
  | stopPush | stopMoved => exact ⟨[], (List.append_nil _).symm, .silent⟩
  | inserted hn hf =>
      exact ⟨_, rfl, .inserted hn hf (List.mem_append_right _ (List.mem_singleton_self _))⟩
  | ignored hn hf => exact ⟨_, rfl, .ignored hf⟩
  | queued hn hf hi hd => exact ⟨_, rfl, .queued hn hf hi hd⟩
  | @createFailed q e m it he hpc hd =>
      obtain ⟨hit, ha⟩ := ConnTable.deref_some hd
      have ha := ha.trans (same he (by rw [hpc]; rfl))
      exact ⟨_, by rw [← ha]; rfl, .create he hpc hit ha fun k => by cases k⟩
  | @created q e m it he hpc hd =>
      obtain ⟨hit, ha⟩ := ConnTable.deref_some hd
      have ha := ha.trans (same he (by rw [hpc]; rfl))
      have hm := ConnTable.update_of_mem (f := fun i => { i with dpiState := some s.nextConn }) hit ha
      exact ⟨_, by rw [← ha]; rfl, .create he hpc hit ha fun _ => hm⟩
  | @called q e m it he hpc hd =>
      obtain ⟨hit, ha⟩ := ConnTable.deref_some hd
      exact ⟨_, by rw [← ha]; rfl, .called he hpc hit ha⟩
  | @reported q e m i it r now he hpc hd hf hr =>
      obtain ⟨hi, ha⟩ := ConnTable.deref_some hd
      rw [hI.table.find_key hi] at hf
      cases hf
      exact ⟨_, rfl, .reported he hpc hi ha hr (ConnTable.update_of_mem hi rfl)⟩
  | cleanup => exact ⟨_, rfl, .idle⟩
  | stopCleanup h => exact ⟨_, rfl, .final h⟩

end Sys

/-! ### What the events are about -/

/-- What an event says stays true: nodes keep their identity, and their connection. -/
theorem Event.Ok.step {s s' : Sys} {a : Act} {ev : Event} (h : ev.Ok s) (hc : s.NodeChange a s') :
    ev.Ok s' := by
  cases ev with
  | inserted =>
      obtain ⟨n, hn, ha, hk, hf, hd⟩ := h
      obtain ⟨n', hn', k⟩ := hc.forward hn
      have k := k.evolves
      exact ⟨n', hn', k.addr.trans ha, k.first.trans hk, k.filter.trans hf, k.dir.trans hd⟩
  | matched =>
      obtain ⟨n, hn, ha, hk⟩ := h
      obtain ⟨n', hn', k⟩ := hc.forward hn
      exact ⟨n', hn', k.evolves.addr.trans ha, k.evolves.first ▸ hk⟩
  | enqueue =>
      obtain ⟨n, hn, ha, hk, hq⟩ := h
      obtain ⟨n', hn', k⟩ := hc.forward hn
      exact ⟨n', hn', k.evolves.addr.trans ha, k.evolves.first ▸ hk, k.evolves.queue.trans hq⟩
  | connCreate =>
      obtain ⟨n, hn, ha, hq, hs, hd, hp⟩ := h
      obtain ⟨n', hn', k⟩ := hc.forward hn
      have k := k.evolves
      exact ⟨n', hn', k.addr.trans ha, k.queue.trans hq, k.first ▸ hs, k.first ▸ hd, k.first ▸ hp⟩
  | connDestroy =>
      obtain ⟨n, hn, hd⟩ := h
      obtain ⟨n', hn', k⟩ := hc.forward hn
      refine ⟨n', hn', fun hnc => ?_⟩
      obtain ⟨hd, hh⟩ := hd hnc
      obtain ⟨kd, kh⟩ := k.evolves.conn (hd ▸ hnc)
      exact ⟨kd.trans hd, kh.trans hh⟩
  | classify =>
      obtain ⟨n, hn, ha, hq, hd, hnc, hh⟩ := h
      obtain ⟨n', hn', k⟩ := hc.forward hn
      obtain ⟨kd, kh⟩ := k.evolves.conn (hd ▸ hnc)
      exact ⟨n', hn', k.evolves.addr.trans ha, k.evolves.queue.trans hq, kd.trans hd, hnc,
        kh.trans hh⟩
  | report =>
      obtain ⟨n, hn, ha, hk, hd, hf, hx⟩ := h
      obtain ⟨n', hn', k⟩ := hc.forward hn
      have k := k.evolves
      exact ⟨n', hn', k.addr.trans ha, k.first ▸ hk, k.dir ▸ hd, k.filter ▸ hf, hx⟩

namespace Sys

variable {inst : Instances} {s s' : Sys} {a : Act} {n : Node} {ev : Event} {evs : List Event}

/-- How many events of a kind the log holds. -/
def count (s : Sys) (p : Event → Bool) : Nat := s.log.countP p

theorem count_append {p : Event → Bool} (h : s'.log = s.log ++ evs) :
    s'.count p = s.count p + evs.countP p := by
  rw [count, h, List.countP_append, count]

theorem countP_map_destroyCall {p : Event → Bool}
    (hp : ∀ handle nc, p (.connDestroy handle nc) = false) (t : List Node) :
    (t.map destroyCall).countP p = 0 := by
  refine List.countP_eq_zero.mpr fun ev hev => ?_
  obtain ⟨n, -, rfl⟩ := List.mem_map.mp hev
  rw [destroyCall, hp]
  exact Bool.false_ne_true

theorem filterMap_destroyCall {α : Type} {f : Event → Option α}
    (hf : ∀ handle nc, f (.connDestroy handle nc) = none) (t : List Node) :
    (t.map destroyCall).filterMap f = [] := by
  rw [List.filterMap_map]
  exact List.filterMap_eq_nil_iff.mpr fun _ _ => hf _ _

/-- What an event is about has an address that was given out. -/
theorem Inv.node_lt (hI : s.Inv inst) {x : NodeId} (h : ev.Ok s) (hx : ev.node = some x) :
    x < s.nextNode := by
  have lt : ∀ {n : Node}, n ∈ s.nodes → n.addr = x → x < s.nextNode := by
    intro n hn ha
    exact ha ▸ hI.table.addr_lt n hn
  cases ev with
  | inserted | matched | enqueue | connCreate | classify | report =>
      cases hx
      obtain ⟨n, hn, ha, -⟩ := h
      exact lt hn ha
  | connDestroy => cases hx

theorem ok_destroyCall (hn : n ∈ s.connTable) : (destroyCall n).Ok s :=
  ⟨n, mem_nodes.mpr (.inl hn), fun _ => ⟨rfl, rfl⟩⟩

theorem Emits.ok (h : s.Emits a s' evs) (hI : s.Inv inst) (hc : NodeChange s a s')
    (hev : ev ∈ evs) : ev.Ok s' := by
  have live : ∀ {n}, n ∈ s.connTable → n ∈ s.nodes := fun h => mem_nodes.mpr (.inl h)
  cases h with
  | silent => cases hev
  | inserted hn hf hm =>
      have hm := mem_nodes.mpr (.inl hm)
      rcases List.mem_pair.mp hev with rfl | rfl
      · exact ⟨_, hm, rfl, rfl, rfl, rfl⟩
      · exact ⟨_, hm, rfl, connKeyEqual_refl _, rfl⟩
  | ignored hf =>
      obtain ⟨hit, hk⟩ := ConnTable.find_some hf
      rw [List.mem_singleton.mp hev]
      exact Event.Ok.step ⟨_, live hit, rfl, hk⟩ hc
  | queued hn hf hi hd =>
      obtain ⟨hit, hk⟩ := ConnTable.find_some hf
      rcases List.mem_pair.mp hev with rfl | rfl
      · exact Event.Ok.step ⟨_, live hit, rfl, hk⟩ hc
      · exact Event.Ok.step ⟨_, live hit, rfl, hk, rfl⟩ hc
  | create he hpc hit ha =>
      have hw : s.Works _ _ := ⟨_, (held_eq he).trans (by rw [hpc]; rfl), ha.symm⟩
      rw [List.mem_singleton.mp hev]
      exact Event.Ok.step ⟨_, live hit, rfl, hI.queue_of_works (live hit) hw, rfl, rfl, rfl⟩ hc
  | @called q e m it _ he hpc hit ha =>
      have hm : e.pc.held = some m := by rw [hpc]; rfl
      have hq : it.second.queue = q :=
        hI.queue_of_works (live hit) ⟨m, (held_eq he).trans hm, ha.symm⟩
      -- the thread has passed the guard: the entry has its connection and the thread's handle
      have hx := hI.expects_live he hm hit ha
      rw [hpc] at hx
      obtain ⟨e', he', hh⟩ := hI.handle it (live hit) hx.1
      rw [hq, Int.toNat_natCast, he] at he'
      cases he'
      rw [List.mem_singleton.mp hev]
      exact Event.Ok.step ⟨it, live hit, rfl, hq, rfl, hx.1, hh⟩ hc
  | reported he hpc hit ha hr =>
      rcases List.mem_pair.mp hev with rfl | rfl
      · exact Event.Ok.step (ok_destroyCall hit) hc
      · exact Event.Ok.step ⟨_, live hit, rfl, rfl, rfl, rfl, rfl⟩ hc
  | idle =>
      obtain ⟨n, hn, rfl⟩ := List.mem_map.mp hev
      exact Event.Ok.step (ok_destroyCall (List.mem_of_mem_filter hn)) hc
  | final =>
      obtain ⟨n, hn, rfl⟩ := List.mem_map.mp hev
      exact Event.Ok.step (ok_destroyCall hn) hc

theorem Change.log_ok (h : Change s a s') (hI : s.Inv inst) (hL : ∀ ev ∈ s.log, ev.Ok s) :
    ∀ ev ∈ s'.log, ev.Ok s' := fun ev hev => by
  have hc := h.nodes hI
  obtain ⟨evs, hlog, hem⟩ := h.emits hI
  rw [hlog, List.mem_append] at hev
  exact hev.elim (fun k => (hL ev k).step hc) fun k => hem.ok hI hc k

/-- **Every event of a run is about the node it says.** -/
theorem reachable_log {as : List Act} (h : system.Run (init inst) as s) :
    ∀ ev ∈ s.log, ev.Ok s := by
  refine (h.invariant (I := fun s => s.Inv inst ∧ ∀ ev ∈ s.log, ev.Ok s) ?_
    ⟨inv_init inst, fun _ h => by cases h⟩).2
  rintro s a s' ⟨hI, hL⟩ hs
  have hs := step_change hs
  exact ⟨hs.inv hI, hs.log_ok hI hL⟩

end Sys
end DistDpi
