import DistDpi.Flow.Alone

/-!
# Flow — the view of a step

What a step of the system is for the connection `K`: a step that concerns `K` is a step of `K` on its
own (`Change.view`), any other leaves what is seen of `K` (`Change.view_other`).
-/

namespace DistDpi
namespace Sys

variable {inst : Instances} {s s' : Sys} {a : Act} {q : Nat} {n : Node} {m : ConnMetadata}
  {e : Engine} {act : EngineAct} {K : ConnKey} {pc : EnginePc}

/-! ### Whose message it is -/

/-- A message of `K` is in the queue of `K`. -/
theorem Inv.home_of_keyed (hI : s.Inv inst) (hP : s.Placed s.numQueues) (hm : m ∈ s.pending q)
    (hx : m.exitFlag = false) (hk : keyed K s m = true) : q = Alone.home K s.numQueues := by
  obtain ⟨-, n, hn, ha, hq⟩ := hI.message q m hm hx
  rw [hI.table.keyed_iff hx hn ha] at hk
  have hqi := hP n hn
  rw [hq, connKeyHasher_eq_of_equal hk] at hqi
  rw [Alone.home, ← hqi, Int.toNat_natCast]

theorem atHand_held (hm : s.held q = some m) : s.atHand q = some m := by
  rw [atHand, hm]
  rfl

theorem atHand_queue {rest : List ConnMetadata} (he : s.engines[q]? = some e) (hpc : e.pc = .pop)
    (hq : s.dpiEngineQueueList[q]? = some (m :: rest)) : s.atHand q = some m := by
  have hm : s.held q = none := by rw [held_eq he, hpc]; rfl
  rw [atHand, hm, queue_eq hq]
  rfl

theorem concerning_engine (hc : concerning K s (.engine q act) = some a) (hm : s.atHand q = some m) :
    q = Alone.home K s.numQueues ∧ keyed K s m = true := by
  simp only [concerning, hm, Option.any_some] at hc
  split at hc
  · assumption
  · cases hc

/-- The message at hand in a step that does not concern `K`. -/
theorem Inv.not_keyed (hI : s.Inv inst) (hP : s.Placed s.numQueues)
    (hc : concerning K s (.engine q act) = none) (hm : s.atHand q = some m) (hp : m ∈ s.pending q)
    (hx : m.exitFlag = false) : keyed K s m = false := by
  cases hk : keyed K s m with
  | false => rfl
  | true =>
      have hq := hI.home_of_keyed hP hp hx hk
      rw [concerning, if_pos ⟨hq, by rw [hm]; exact hk⟩] at hc
      cases hc

theorem Inv.not_keyed_held (hI : s.Inv inst) (hP : s.Placed s.numQueues)
    (hc : concerning K s (.engine q act) = none) (he : s.engines[q]? = some e)
    (hm : e.pc.held = some m) : keyed K s m = false := by
  have hh := (held_eq he).trans hm
  exact hI.not_keyed hP hc (atHand_held hh) (held_mem_pending hh) (hI.held q m hh)

/-- The address of a message is not the next one. -/
theorem Inv.not_next (hI : s.Inv inst) (hm : m ∈ s.pending q) :
    m.exitFlag = true ∨ m.info ≠ s.nextNode := by
  cases hx : m.exitFlag with
  | true => exact .inl rfl
  | false =>
      obtain ⟨-, n, hn, ha, -⟩ := hI.message q m hm hx
      have hlt := hI.table.addr_lt n hn
      exact .inr (ha ▸ Nat.ne_of_lt hlt)

/-! ### The steps that do not concern `K` -/

theorem Moves.seenPc_other {t : List Node} {pc pc' : EnginePc} (h : Moves t pc act pc')
    (hk : ∀ m, pc.held = some m → keyed K s m = false) : seenPc K s pc' = seenPc K s pc := by
  cases h <;> simp [seenPc, EnginePc.held, EnginePc.map, hk _ rfl]

/-- A packet of another connection writes to its own entry. -/
theorem Inv.not_at_of_find {it : Node} {key : ConnKey} (hI : s.Inv inst)
    (hf : ConnTable.find s.connTable key = some it) (hK : ¬ connKeyEqual key K = true) :
    (ConnTable.find s.connTable K).any (fun n => n.addr == it.addr) = false := by
  cases hfK : ConnTable.find s.connTable K with
  | none => rfl
  | some n =>
      obtain ⟨hn, he⟩ := ConnTable.find_some hfK
      obtain ⟨hit, heit⟩ := ConnTable.find_some hf
      rw [Option.any_some, beq_eq_false_iff_ne]
      intro ha
      cases hI.table.eq_of_addr (mem_nodes.mpr (.inl hn)) (mem_nodes.mpr (.inl hit)) ha
      exact hK (connKeyEqual_trans (connKeyEqual_symm heit) he)

/-- A message for the entry of another connection. -/
theorem TableOk.not_keyed {it : Node} {key : ConnKey} (hT : s.TableOk) (hit : it ∈ s.nodes)
    (he : connKeyEqual it.first key) (hK : ¬ connKeyEqual key K = true) (hx : m.exitFlag = false)
    (ha : it.addr = m.info) : keyed K s m = false := by
  rw [hT.keyed_iff hx hit ha, Bool.eq_false_iff]
  exact fun k => hK (connKeyEqual_trans (connKeyEqual_symm he) k)

theorem seenQueue_other (hk : keyed K s m = false) : seenQueue K s [m] = [] := by
  simp [seenQueue, hk]

/-- While `numQueues_` is what it was, no thread has left the loop by an exception. -/
theorem Inv.not_clear (hI : s.Inv inst) (hn : s.numQueues = inst.handles.length)
    (he : s.engines[q]? = some e) : e.pc.counted = true := by
  have hall : (s.engines.countP fun e => e.pc.counted) = s.engines.length := by
    have hc := hI.numQueues
    rw [hn, ← hI.engines] at hc
    exact (Int.ofNat_inj.mp hc).symm
  exact List.countP_eq_length.mp hall e (List.mem_of_getElem? he)

/-- The callback finds the entry its argument points to. -/
theorem Inv.found {i it : Node} {x : NodeId} (hI : s.Inv inst)
    (hd : ConnTable.deref s.connTable x = some i)
    (hf : ConnTable.find s.connTable i.second.key = some it) : it.addr = x := by
  obtain ⟨hi, hx⟩ := ConnTable.deref_some hd
  rw [hI.table.find_key hi] at hf
  cases hf
  exact hx

/-- A thread at a message that is not of `K`: what it does to the rest of the state does not show,
nor where it goes. -/
theorem view_act_other {s₁ : Sys} (he : s.engines[q]? = some e) (hm : e.pc.held = some m)
    (hk : keyed K s m = false) (hpc : seenPc K s pc = .pop) (ht : s₁.engines = s.engines)
    (hs : seenPc K s₁ = seenPc K s) (hv : view K s₁ = view K s) :
    view K (s₁.setPc q pc) = view K s := by
  rw [view_thread (s := s₁) (ht ▸ he) ?_, hv]
  rw [hs, hpc, seenPc_other hm hk]

/-- A `pop` of a message that is not of `K`. -/
theorem view_popped_other {rest : List ConnMetadata} (he : s.engines[q]? = some e)
    (hpc : e.pc = .pop) (hq : s.dpiEngineQueueList[q]? = some (m :: rest))
    (hk : keyed K s m = false) : view K ((s.setQueue q rest).setPc q (.testState m)) = view K s := by
  have hs : seenPc K (s.setQueue q rest) = seenPc K s := rfl
  rw [view_thread (s := s.setQueue q rest) he ?_, view_setQueue (lt_of_getElem?_some hq)]
  · split
    · rename_i hh
      have hv : (view K s).queue = seenQueue K s (s.queue (Alone.home K s.numQueues)) := rfl
      have hrest : seenQueue K s rest = (view K s).queue := by
        rw [hv, ← hh, queue_eq hq, seenQueue, seenQueue, List.filter_cons_of_neg]
        rw [hk]
        exact Bool.false_ne_true
      rw [hrest]
    · rfl
  · rw [hs, seenPc_other rfl hk, hpc]
    rfl

theorem not_equal_of_not_concerning {key : ConnKey} {data : Bytes} {filter : Nat} {dir : UInt8}
    {now : Int} (hc : concerning K s (.insert key data filter dir now) = none) :
    ¬ connKeyEqual key K = true := by
  intro k
  rw [concerning, if_pos k] at hc
  cases hc

/-- The message for a new node. -/
theorem Inv.keyed_addNode (hI : s.Inv inst) (ha : n.addr = s.nextNode) (hx : m.exitFlag = false)
    (hm : m.info = n.addr) : keyed K (s.addNode n) m = connKeyEqual n.first K := by
  have hold : (s.nodes.any fun n' => n'.addr == m.info && connKeyEqual n'.first K) = false := by
    rw [List.any_eq_false]
    intro n' hn' k
    rw [Bool.and_eq_true, beq_iff_eq, hm, ha] at k
    exact Nat.lt_irrefl _ (k.1 ▸ hI.table.addr_lt n' hn')
  rw [nodes, List.any_append, Bool.or_eq_false_iff, hm] at hold
  simp only [keyed, hx, nodes, addNode_connTable, addNode_erased, List.any_append, hold.1, hold.2,
    List.any_cons, List.any_nil, hm, beq_self_eq_true, Bool.true_and, Bool.false_or, Bool.or_false]

theorem view_new_other {i : Int} {evs : List Event} (hI : s.Inv inst)
    (hf : ConnTable.find s.connTable n.first = none) (ha : n.addr = s.nextNode)
    (hx : m.exitFlag = false) (hm : m.info = n.addr) (hK : ¬ connKeyEqual n.first K = true)
    (hevs : evs.filterMap (Event.pushed K) = []) :
    view K (((s.addNode n).push i m).emit evs) = view K s := by
  have hk : keyed K (s.addNode n) m = false := by
    rw [hI.keyed_addNode ha hx hm]
    exact Bool.eq_false_iff.mpr hK
  rw [view_emit_quiet hevs, view_push, seenQueue_other hk,
    view_addNode hf fun q m hm => ha ▸ hI.not_next hm, if_neg hK]
  simp only [ite_self, List.append_nil]

/-- **A step that does not concern `K`** leaves what is seen of it. -/
theorem Change.view_other (h : Change s a s') (hI : s.Inv inst) (hP : s.Placed s.numQueues)
    (hn : s.numQueues = inst.handles.length) (hn' : s'.numQueues = s.numQueues)
    (hc : concerning K s a = none) : view K s' = view K s := by
  cases h with
  | dropped => rfl
  | @inserted key data filter dir now h0 hf =>
      have hK := not_equal_of_not_concerning hc
      exact view_new_other hI hf rfl rfl rfl hK (by simp [Event.pushed, hK])
  | @ignored key data filter dir now it h0 hf hi =>
      have hK := not_equal_of_not_concerning hc
      rw [view_emit_quiet rfl, view_update_other (hI.not_at_of_find hf hK)]
  | @queued key data filter dir now it h0 hf hi hd =>
      have hK := not_equal_of_not_concerning hc
      obtain ⟨hit, he⟩ := ConnTable.find_some hf
      have hk : keyed K s (nextMetadata it key data) = false :=
        hI.table.not_keyed (mem_nodes.mpr (.inl hit)) he hK rfl rfl
      have hk : keyed K (s.update it.addr (countQueued now)) (nextMetadata it key data) = false := by
        rw [keyed_update]
        exact hk
      rw [view_emit_quiet, view_push, seenQueue_other hk,
        view_update_other (hI.not_at_of_find hf hK)]
      · simp only [ite_self, List.append_nil]
      · simp [Event.pushed, hK]
  | @popped q e m rest he hpc hq hm =>
      have hp : m ∈ s.pending q := by
        rw [Sys.pending, queue_eq hq]
        exact List.mem_append_right _ (List.mem_cons_self ..)
      exact view_popped_other he hpc hq (hI.not_keyed hP hc (atHand_queue he hpc hq) hp hm)
  | @exits q e m rest he hpc hq hm =>
      -- the exit message concerns whose queue it is in
      have hh : ¬ q = Alone.home K s.numQueues := by
        intro hh
        rw [concerning, if_pos] at hc
        · cases hc
        · refine ⟨hh, ?_⟩
          rw [atHand_queue he hpc hq]
          exact keyed_exit hm
      rw [view_setPc, setQueue_numQueues, if_neg hh, view_setQueue (lt_of_getElem?_some hq),
        if_neg hh]
  | @moved q e act pc he hv =>
      exact view_thread he (hv.seenPc_other fun m hm => hI.not_keyed_held hP hc he hm)
  | @handleSet q e m it he hpc hd =>
      have hm : e.pc.held = some m := by rw [hpc]; rfl
      have hk := hI.not_keyed_held hP hc he hm
      exact view_act_other he hm hk (seenPc_other rfl hk) rfl seenPc_update
        (view_update_other (not_at_of_not_keyed hk))
  | @createFailed q e m it he hpc hd =>
      have hm : e.pc.held = some m := by rw [hpc]; rfl
      exact view_act_other he hm (hI.not_keyed_held hP hc he hm) rfl rfl rfl (view_emit_quiet rfl)
  | @created q e m it he hpc hd =>
      have hm : e.pc.held = some m := by rw [hpc]; rfl
      have hk := hI.not_keyed_held hP hc he hm
      refine view_act_other he hm hk rfl rfl ?_ ?_
      · rw [seenPc_emit, seenPc_nextConn, seenPc_update]
      · rw [view_emit_quiet rfl, view_nextConn, view_update_other (not_at_of_not_keyed hk)]
  | @called q e m it he hpc hd =>
      have hm : e.pc.held = some m := by rw [hpc]; rfl
      have hk := hI.not_keyed_held hP hc he hm
      exact view_act_other he hm hk (seenPc_other rfl hk) rfl rfl (view_emit_quiet rfl)
  | @unfound q e m i r now he hpc hd hf =>
      have hm : e.pc.held = some m := by rw [hpc]; rfl
      exact view_act_other he hm (hI.not_keyed_held hP hc he hm) rfl rfl rfl rfl
  | @reported q e m i it r now he hpc hd hf hr =>
      have hm : e.pc.held = some m := by rw [hpc]; rfl
      have hk := hI.not_keyed_held hP hc he hm
      have ha := hI.found hd hf
      refine view_act_other he hm hk rfl rfl ?_ ?_
      · rw [seenPc_emit, seenPc_name, seenPc_update]
      · rw [view_emit_quiet rfl, view_name, view_update_other (ha ▸ not_at_of_not_keyed hk)]
  | @noted q e m i it r now he hpc hd hf hr =>
      have hm : e.pc.held = some m := by rw [hpc]; rfl
      have hk := hI.not_keyed_held hP hc he hm
      have ha := hI.found hd hf
      exact view_act_other he hm hk rfl rfl seenPc_update
        (view_update_other (ha ▸ not_at_of_not_keyed hk))
  -- no exception has left a loop where `numQueues_` is what it was
  | @thrown q e he hpc =>
      rw [setPc_numQueues] at hn'
      dsimp only at hn'
      omega
  | @cleared q e he hpc =>
      have hcl := hI.not_clear hn he
      rw [hpc] at hcl
      cases hcl
  | cleanup | stopCleanup | stopPush | stopMoved => cases hc

/-! ### The steps that concern `K` -/

/-- The queue of `K`. -/
theorem Inv.home_eq (hI : s.Inv inst) (h0 : s.numQueues ≠ 0) {key : ConnKey}
    (hK : connKeyEqual key K = true) :
    (Alone.home K s.numQueues : Int) = queueIndex (connKeyHasher key) s.numQueues ∧
      Alone.home K s.numQueues < s.dpiEngineQueueList.length := by
  obtain ⟨h₀, h₁⟩ := hI.numQueues_range
  have hlt : s.numQueues < 2 ^ 31 := Int.lt_of_le_of_lt h₁ (by exact_mod_cast inst.lt)
  obtain ⟨k₀, k₁⟩ := queueIndex_lt (connKeyHasher K) (by omega) hlt
  rw [connKeyHasher_eq_of_equal hK, hI.queues, Alone.home]
  exact ⟨Int.toNat_of_nonneg k₀, by omega⟩

theorem hide_dpiState {i : ConnInfo} : (i.hide.dpiState ≠ none) = (i.dpiState ≠ none) := by
  cases h : i.dpiState <;> simp [ConnInfo.hide, h]

theorem view_entry : (view K s).entry =
    (ConnTable.find s.connTable K).map fun n => (n.first, n.second.hide) := rfl

/-- What `K` sees of a message that points to its entry. -/
theorem seenQueue_entry (hf : ConnTable.find s.connTable K = some n) (ha : n.addr = m.info) :
    seenQueue K s [m] = [m.point 0] := by
  have hk := keyed_of_find hf ha
  simp [seenQueue, hk, seen, pointer, hf, ha]

/-- A push of a message for the entry of `K`. -/
theorem view_pushed {i : Int} {evs : List Event}
    (hf : ConnTable.find s.connTable K = some n) (ha : n.addr = m.info) (hx : m.exitFlag = false)
    (hi : (Alone.home K s.numQueues : Int) = i ∧
      Alone.home K s.numQueues < s.dpiEngineQueueList.length)
    (hevs : evs.filterMap (Event.pushed K) = [⟨i, m.pktnum, m.dir, m.data⟩]) :
    view K ((s.push i m).emit evs) =
      (view K s).push i ⟨0, 0, m.pktnum, m.dir, m.data, false⟩ := by
  have hp : m.point 0 = ⟨0, 0, m.pktnum, m.dir, m.data, false⟩ := by
    rw [ConnMetadata.point, hx, if_neg Bool.false_ne_true]
  rw [view_emit, view_push, if_pos hi, seenQueue_entry hf ha, hevs, hp]
  rfl

/-- The push for a packet of `K`. -/
theorem pushed_enqueue {key : ConnKey} {i : Int} {ev : Event} (hK : connKeyEqual key K = true)
    (hev : ev.pushed K = none) : [ev, .enqueue key i m].filterMap (Event.pushed K) =
      [⟨i, m.pktnum, m.dir, m.data⟩] := by
  rw [List.filterMap_cons_none hev, List.filterMap_cons_some (b := ⟨i, m.pktnum, m.dir, m.data⟩)]
  · rfl
  · exact if_pos hK

/-- A packet of `K`, where it has no entry. -/
theorem view_inserted {i : Int} (ev : Event) (hI : s.Inv inst)
    (hf : ConnTable.find s.connTable n.first = none) (ha : n.addr = s.nextNode)
    (hm : m.info = n.addr) (hx : m.exitFlag = false) (hK : connKeyEqual n.first K = true)
    (hi : (Alone.home K s.numQueues : Int) = i ∧
      Alone.home K s.numQueues < s.dpiEngineQueueList.length) (hev : ev.pushed K = none) :
    view K (((s.addNode n).push i m).emit [ev, .enqueue n.first i m]) =
      { view K s with entry := some (n.first, n.second.hide) }.push i
        ⟨0, 0, m.pktnum, m.dir, m.data, false⟩ := by
  have hfind : ConnTable.find (s.addNode n).connTable K = some n := by
    rw [addNode_connTable, ConnTable.find_append, ← ConnTable.find_eq_of_equal hK, hf,
      Option.none_or, if_pos hK]
  rw [view_pushed (s := s.addNode n) hfind hm.symm hx hi (pushed_enqueue hK hev),
    view_addNode hf fun q m hm => ha ▸ hI.not_next hm, if_pos hK]

/-- **A packet of `K`.** -/
theorem Change.view_insert {key : ConnKey} {data : Bytes} {filter : Nat} {dir : UInt8} {now : Int}
    (h : Change s (.insert key data filter dir now) s') (hI : s.Inv inst)
    (hP : s.Placed s.numQueues) (hK : connKeyEqual key K = true) :
    view K s' = (view K s).insert key data filter dir now := by
  cases h with
  | dropped h0 =>
      rw [Alone.insert, if_pos]
      exact h0
  | inserted h0 hf =>
      have hent : (view K s).entry = none := by
        rw [view_entry, ← ConnTable.find_eq_of_equal hK, hf]
        rfl
      rw [Alone.insert, if_neg (show ¬ (view K s).numQueues = 0 from h0), hent]
      have hi := hI.home_eq h0 hK
      rw [← newNode_queue key filter dir now] at hi
      have hn : (s.newNode key filter dir now).first = key := rfl
      have hv := view_inserted (n := s.newNode key filter dir now)
        (m := metadata (s.newNode key filter dir now) 0 data)
        (.inserted (s.newNode key filter dir now).addr key data filter dir now)
        hI hf rfl rfl rfl hK hi rfl
      rw [hn] at hv
      rw [hv]
      simp only [newNode, metadata, ConnInfo.hide, Option.map_none, view_numQueues]
  | @ignored _ _ _ _ _ it h0 hf hi =>
      rw [ConnTable.find_eq_of_equal hK] at hf
      have hent : (view K s).entry = some (it.first, it.second.hide) := by
        rw [view_entry, hf]
        rfl
      have hnot : ¬ (it.second.hide.classState = .inspecting ∧ it.second.hide.dpiState ≠ none) := by
        rw [hide_dpiState, not_and_or, not_not]
        exact hi
      rw [Alone.insert, if_neg (show ¬ (view K s).numQueues = 0 from h0), hent]
      dsimp only
      rw [if_neg hnot, view_emit_quiet rfl]
      exact view_update_entry hf rfl rfl
  | @queued _ _ _ _ _ it h0 hf hi hd =>
      rw [ConnTable.find_eq_of_equal hK] at hf
      obtain ⟨hit, he⟩ := ConnTable.find_some hf
      have hent : (view K s).entry = some (it.first, it.second.hide) := by
        rw [view_entry, hf]
        rfl
      have hyes : it.second.hide.classState = .inspecting ∧ it.second.hide.dpiState ≠ none := by
        rw [hide_dpiState]
        exact ⟨hi, hd⟩
      -- the entry's queue is that of `K`, where `K` sees the message arrive
      have hq := hI.home_eq h0 he
      rw [← hP it (mem_nodes.mpr (.inl hit))] at hq
      have hfind : ConnTable.find (s.update it.addr (countQueued now)).connTable K =
          some { it with second := countQueued now it.second } := by
        rw [update_connTable, ConnTable.find_update, hf, Option.map_some, if_pos rfl]
      rw [Alone.insert, if_neg (show ¬ (view K s).numQueues = 0 from h0), hent]
      dsimp only
      rw [if_pos hyes, view_pushed (s := s.update it.addr (countQueued now)) hfind rfl rfl hq
        (pushed_enqueue hK rfl), view_update_entry (g := countQueued now) hf rfl rfl]
      rfl

/-- The entry that a message of `K` points to. -/
theorem Inv.deref_view {it : Node} (hI : s.Inv inst) (hx : m.exitFlag = false)
    (hk : keyed K s m = true) (hd : ConnTable.deref s.connTable m.info = some it) :
    (view K s).deref (seen K s m) = some (it.first, it.second.hide) := by
  rw [hI.deref_seen hx hk, hd]
  rfl

/-- The thread of the queue of `K`, at a message of `K`. -/
theorem view_engine_held (he : s.engines[q]? = some e) (hq : q = Alone.home K s.numQueues)
    (hm : e.pc.held = some m) (hk : keyed K s m = true) :
    (view K s).engine = some { e with pc := e.pc.map (seen K s) } := by
  rw [hq] at he
  rw [view_engine he, seenPc_of_held hm hk]

theorem view_setPc_home (hq : q = Alone.home K s.numQueues) :
    view K (s.setPc q pc) = (view K s).setPc (seenPc K s pc) := by
  rw [view_setPc, if_pos hq]

theorem classifiable_seen {i : ConnInfo} : classifiable (seen K s m) i.hide = classifiable m i := by
  simp [classifiable, ConnInfo.hide]

theorem view_queue_cons {rest : List ConnMetadata} (hh : q = Alone.home K s.numQueues)
    (hq : s.queue q = m :: rest) (hk : keyed K s m = true) :
    (view K s).queue = seen K s m :: seenQueue K s rest := by
  have hv : (view K s).queue = seenQueue K s (s.queue (Alone.home K s.numQueues)) := rfl
  rw [hv, ← hh, hq, seenQueue, List.filter_cons_of_pos hk, List.map_cons, seenQueue]

/-- A thread at a message of `K`: its queue is that of `K`, and `K` sees it there. -/
theorem Inv.atHand (hI : s.Inv inst) (hc : concerning K s (.engine q act) = some a)
    (he : s.engines[q]? = some e) (hpc : e.pc = pc) (hm : pc.held = some m) :
    q = Alone.home K s.numQueues ∧ keyed K s m = true ∧ m.exitFlag = false ∧
      (view K s).engine = some { e with pc := pc.map (seen K s) } := by
  subst hpc
  have hh := (held_eq he).trans hm
  obtain ⟨hq, hk⟩ := concerning_engine hc (atHand_held hh)
  exact ⟨hq, hk, hI.held q m hh, view_engine_held he hq hm hk⟩

/-- A thread of `K` that is to pop: the message is the first that `K` sees waiting. -/
theorem Inv.next (hc : concerning K s (.engine q act) = some a) (he : s.engines[q]? = some e)
    (hpc : e.pc = .pop) {rest : List ConnMetadata}
    (hq : s.dpiEngineQueueList[q]? = some (m :: rest)) :
    q = Alone.home K s.numQueues ∧ keyed K s m = true ∧ (view K s).engine = some e ∧
      (view K s).queue = seen K s m :: seenQueue K s rest := by
  obtain ⟨hh, hk⟩ := concerning_engine hc (atHand_queue he hpc hq)
  refine ⟨hh, hk, ?_, view_queue_cons hh (queue_eq hq) hk⟩
  rw [view_engine (hh ▸ he), hpc, seenPc_none rfl, ← hpc]

/-- A thread at a message of `K` that only moves. -/
theorem Moves.view_thread (h : Moves s.connTable e.pc act pc) (hI : s.Inv inst)
    (he : s.engines[q]? = some e) (hc : concerning K s (.engine q act) = some a) :
    (view K s).engineStep act = some (view K (s.setPc q pc)) := by
  obtain ⟨handle, pc₀⟩ := e
  dsimp only at h
  cases h with
  | @stateNull m it hd hnone =>
      obtain ⟨hq, hk, hx, hv⟩ := hI.atHand hc he rfl rfl
      have ht := Alone.Thread.testState rfl (hI.deref_view hx hk hd) |>.engineStep hv
      rw [if_pos (by simp [ConnInfo.hide, hnone])] at ht
      rw [ht, view_setPc_home hq, seenPc_of_held rfl hk]
      rfl
  | @stateSome m it hd hsome =>
      obtain ⟨hq, hk, hx, hv⟩ := hI.atHand hc he rfl rfl
      have ht := Alone.Thread.testState rfl (hI.deref_view hx hk hd) |>.engineStep hv
      rw [if_neg (by rw [← ne_eq, hide_dpiState]; exact hsome)] at ht
      rw [ht, view_setPc_home hq, seenPc_of_held rfl hk]
      rfl
  | @guardPass m it hd hcl =>
      obtain ⟨hq, hk, hx, hv⟩ := hI.atHand hc he rfl rfl
      have ht := Alone.Thread.guard rfl (hI.deref_view hx hk hd) |>.engineStep hv
      rw [if_pos (classifiable_seen.trans hcl)] at ht
      rw [ht, view_setPc_home hq, seenPc_of_held rfl hk]
      rfl
  | @guardFail m it hd hcl =>
      obtain ⟨hq, hk, hx, hv⟩ := hI.atHand hc he rfl rfl
      have ht := Alone.Thread.guard rfl (hI.deref_view hx hk hd) |>.engineStep hv
      rw [if_neg (by rw [classifiable_seen]; exact hcl)] at ht
      rw [ht, view_setPc_home hq, seenPc_none rfl]
  | @noVerdict m =>
      obtain ⟨hq, hk, hx, hv⟩ := hI.atHand hc he rfl rfl
      rw [view_setPc_home hq, seenPc_none rfl]
      exact (Alone.Thread.classifyFail rfl).engineStep hv

/-- **A statement of the thread, on a message of `K`.** -/
theorem Change.view_thread (h : Change s (.engine q act) s') (hI : s.Inv inst)
    (hn : s.numQueues = inst.handles.length) (hn' : s'.numQueues = s.numQueues)
    (hc : concerning K s (.engine q act) = some a) :
    (view K s).engineStep act = some (view K s') := by
  cases h with
  | @popped q e m rest he hpc hq hm =>
      obtain ⟨hh, hk, hv, hvq⟩ := Inv.next hc he hpc hq
      have ht := (Alone.Thread.pop hpc hvq).engineStep hv
      rw [if_neg (by rw [seen_exitFlag, hm]; exact Bool.false_ne_true)] at ht
      have hs : seenPc K (s.setQueue q rest) (.testState m) = .testState (seen K s m) :=
        seenPc_of_held rfl hk
      rw [ht, view_setPc_home (s := s.setQueue q rest) hh, view_setQueue (lt_of_getElem?_some hq),
        if_pos hh, hs]
  | @exits q e m rest he hpc hq hm =>
      obtain ⟨hh, hk, hv, hvq⟩ := Inv.next hc he hpc hq
      have ht := (Alone.Thread.pop hpc hvq).engineStep hv
      rw [if_pos (seen_exitFlag.trans hm)] at ht
      rw [ht, view_setPc_home (s := s.setQueue q rest) hh, view_setQueue (lt_of_getElem?_some hq),
        if_pos hh, seenPc_none rfl]
  | @moved q e act pc he hv => exact hv.view_thread hI he hc
  | @handleSet q e m it he hpc hd =>
      obtain ⟨hq, hk, hx, hv⟩ := hI.atHand hc he hpc rfl
      have hf := hI.find_of_keyed hx hk hd
      rw [view_setPc_home (s := s.update m.info _) hq,
        view_update_entry (g := fun i => { i with handle := e.navlhandle }) hf
          (ConnTable.deref_some hd).2 rfl, seenPc_update, seenPc_of_held rfl hk]
      exact (Alone.Thread.setHandle (e := { e with pc := .setHandle (seen K s m) }) rfl
        (hI.deref_view hx hk hd)).engineStep hv
  | @createFailed q e m it he hpc hd =>
      obtain ⟨hq, hk, hx, hv⟩ := hI.atHand hc he hpc rfl
      rw [(hI.for_held ((held_eq he).trans (by rw [hpc]; rfl))).1] at hd
      rw [view_setPc_home (s := s.emit _) hq, seenPc_none rfl, view_emit_quiet rfl]
      have ht : (view K s).engineStep (.create false) = _ :=
        (Alone.Thread.create rfl (hI.deref_view hx hk hd)).engineStep hv
      exact ht
  | @created q e m it he hpc hd =>
      obtain ⟨hq, hk, hx, hv⟩ := hI.atHand hc he hpc rfl
      rw [(hI.for_held ((held_eq he).trans (by rw [hpc]; rfl))).1] at hd
      have hf := hI.find_of_keyed hx hk hd
      rw [view_setPc_home, seenPc_none rfl, view_emit_quiet rfl,
        view_nextConn (s := s.update m.info fun i => { i with dpiState := some s.nextConn }),
        view_update_entry (g := fun i => { i with dpiState := some 0 }) hf
          (ConnTable.deref_some hd).2 rfl]
      · have ht : (view K s).engineStep (.create true) = _ :=
          (Alone.Thread.create rfl (hI.deref_view hx hk hd)).engineStep hv
        exact ht
      · exact hq
  | @called q e m it he hpc hd =>
      obtain ⟨hq, hk, hx, hv⟩ := hI.atHand hc he hpc rfl
      have hs : seenPc K (s.emit [.classify q e.navlhandle m.data it.second.dpiState m.dir m.info])
          (.callback m) = .callback (seen K s m) := seenPc_of_held rfl hk
      rw [view_setPc_home (s := s.emit _) hq, hs, view_emit_quiet rfl]
      exact (Alone.Thread.classify rfl (hI.deref_view hx hk hd)).engineStep hv
  | @unfound q e m i r now he hpc hd hf =>
      rw [hI.table.find_key (ConnTable.deref_some hd).1] at hf
      cases hf
  | @reported q e m i it r now he hpc hd hf hr =>
      obtain ⟨hq, hk, hx, hv⟩ := hI.atHand hc he hpc rfl
      rw [hI.table.find_key (ConnTable.deref_some hd).1] at hf
      cases hf
      rw [view_setPc_home, seenPc_none rfl, view_emit_quiet rfl,
        view_name (s := s.update i.addr (classifiedInfo r now)),
        view_update_entry (g := classifiedInfo r now) (hI.find_of_keyed hx hk hd) rfl rfl]
      · exact (Alone.Thread.callback rfl (hI.deref_view hx hk hd)).engineStep hv
      · exact hq
  | @noted q e m i it r now he hpc hd hf hr =>
      obtain ⟨hq, hk, hx, hv⟩ := hI.atHand hc he hpc rfl
      rw [hI.table.find_key (ConnTable.deref_some hd).1] at hf
      cases hf
      rw [view_setPc_home, seenPc_none rfl,
        view_update_entry (g := classifiedInfo r now) (hI.find_of_keyed hx hk hd) rfl rfl]
      · exact (Alone.Thread.callback rfl (hI.deref_view hx hk hd)).engineStep hv
      · exact hq
  | @thrown q e he hpc =>
      rw [setPc_numQueues] at hn'
      dsimp only at hn'
      omega
  | @cleared q e he hpc =>
      have hcl := hI.not_clear hn he
      rw [hpc] at hcl
      cases hcl

theorem pushed_destroyCalls (l : List Node) :
    (l.map destroyCall).filterMap (Event.pushed K) = [] := by
  rw [List.filterMap_map, List.filterMap_eq_nil_iff]
  intro n _
  rfl

/-- **A cleanup.** -/
theorem Inv.view_cleanup (hI : s.Inv inst) (now : Int) :
    view K ((s.erase (expired (toInt now))).emit
        ((s.connTable.filter (idle (toInt now))).map destroyCall)) =
      if (view K s).entry.any fun it => expired (toInt now) ⟨0, it.1, it.2⟩ then (view K s).erase
      else view K s := by
  have hfind : ConnTable.find (s.erase (expired (toInt now))).connTable K =
      (ConnTable.find s.connTable K).filter fun n => !expired (toInt now) n :=
    hI.table.keys.find_filter _
  rw [view_emit_quiet (pushed_destroyCalls _), view_entry]
  cases hf : ConnTable.find s.connTable K with
  | none =>
      rw [hf] at hfind
      exact view_erase_keep (hfind.trans hf.symm)
  | some n =>
      -- what decides is not hidden
      have hx : expired (toInt now) ⟨0, n.first, n.second.hide⟩ = expired (toInt now) n := rfl
      rw [Option.map_some, Option.any_some, hx]
      rw [hf, Option.filter_some] at hfind
      split
      · rename_i h
        rw [h] at hfind
        exact view_erase_gone hfind
      · rename_i h
        rw [Bool.not_eq_true] at h
        rw [h] at hfind
        exact view_erase_keep (hfind.trans hf.symm)

/-- **A statement of `stop`.** -/
theorem Change.view_stop (h : Change s .stop s') (hI : s.Inv inst)
    (hn : s.numQueues = inst.handles.length) :
    (view K s).stop (Alone.home K s.numQueues) = some (view K s') := by
  cases h with
  | stopCleanup h =>
      have hgone : ConnTable.find (s.erase fun _ => true).connTable K = none := by
        simp [erase, ConnTable.find]
      have hv : view K ((s.erase fun _ => true).emit (s.connTable.map destroyCall)) =
          (view K s).erase := by
        rw [view_emit_quiet (pushed_destroyCalls _), view_erase_gone hgone]
      have hs : ((s.erase fun _ => true).emit (s.connTable.map destroyCall)) =
          { s with
            connTable := []
            erased := s.erased ++ s.connTable
            log := s.log ++ s.connTable.map destroyCall } := by
        simp [erase, emit]
      rw [hs] at hv
      have hstop : (view K s).stop (Alone.home K s.numQueues) =
          some { (view K s).erase with stopPc := .cleaned } := by
        rw [Alone.stop, view_stopPc, h]
      rw [hstop, ← hv]
      rfl
  | @stopPush i h hi =>
      have hlt : i < s.dpiEngineQueueList.length := by
        rw [hI.queues]
        omega
      have hexit : seenQueue K s [.exit] = [.exit] := rfl
      have hv : view K (s.push i .exit) =
          { view K s with
            queue := if i = Alone.home K s.numQueues then (view K s).queue ++ [.exit]
              else (view K s).queue } := by
        rw [view_push, hexit]
        by_cases hq : i = Alone.home K s.numQueues
        · rw [if_pos hq, if_pos ⟨by rw [hq], hq ▸ hlt⟩]
        · rw [if_neg hq, if_neg fun k => hq (Int.ofNat_inj.mp k.1).symm, List.append_nil]
      have hstop : (view K s).stop (Alone.home K s.numQueues) =
          some { view K (s.push i .exit) with stopPc := .pushing (i + 1) } := by
        rw [hv, Alone.stop, view_stopPc, h]
        exact if_pos hi
      exact hstop
  | stopMoved h =>
      cases h with
      | join h =>
        rw [Alone.stop, view_stopPc, h]
        rfl
      | tell h =>
        rw [Alone.stop, view_stopPc, h]
        rfl
      | @done i h hi =>
        rw [Alone.stop, view_stopPc, h]
        simp only [view_numQueues, hi, if_false]
        rfl

/-- **A step that concerns `K`** is a step of `K` on its own. -/
theorem Change.view (h : Change s a s') (hI : s.Inv inst) (hP : s.Placed s.numQueues)
    (hn : s.numQueues = inst.handles.length) (hn' : s'.numQueues = s.numQueues)
    (hc : concerning K s a = some a) :
    (Alone.machine K).step (view K s) a = some (view K s') := by
  cases a with
  | insert key data filter dir now =>
      have hK : connKeyEqual key K = true := by
        by_contra k
        rw [concerning, if_neg k] at hc
        cases hc
      exact congrArg some (h.view_insert hI hP hK).symm
  | engine q act =>
      have hq : q = Alone.home K s.numQueues := by
        by_contra k
        rw [concerning, if_neg fun h => k h.1] at hc
        cases hc
      have hv := h.view_thread hI hn hn' hc
      simp only [Alone.machine, Alone.step, view_numQueues, hq, if_true]
      exact hv
  | cleanup now =>
      cases h with
      | cleanup h =>
          have hv := hI.view_cleanup (K := K) now
          exact (if_pos h).trans (congrArg some hv.symm)
  | stop => exact h.view_stop hI hn

end Sys
end DistDpi
