import DistDpi.Flow.Results

/-!
# Flow — the callback in two steps

The callback is one step of `system`, but it holds no mutex that keeps the rest out: other threads
can move between its lookup and its push.  That makes no difference except for the order of what is
pushed and logged: the push commutes with what the others do, so that it might as well have come
with the lookup (`callback_refines`).
-/

namespace DistDpi

namespace Sys
variable {s s' : Sys} {a : Act} {q q' : Nat} {pc pc' : EnginePc}

/-- The state with other results, and another log. -/
@[simps]
def withPushed (s : Sys) (updateDPQueue : List DPIFlowData) (log : List Event) : Sys :=
  { s with updateDPQueue, log }

theorem withPushed_newNode (l : List DPIFlowData) (l' : List Event) (key : ConnKey) (filter : Nat)
    (dir : UInt8) (now : Int) :
    (s.withPushed l l').newNode key filter dir now = s.newNode key filter dir now := rfl

theorem withPushed_addNode (l : List DPIFlowData) (l' : List Event) (it : Node) :
    (s.addNode it).withPushed l l' = (s.withPushed l l').addNode it := rfl

theorem withPushed_push (l : List DPIFlowData) (l' : List Event) (i : Int) (m : ConnMetadata) :
    (s.push i m).withPushed l l' = (s.withPushed l l').push i m := rfl

theorem withPushed_emit (l : List DPIFlowData) (l' evs : List Event) :
    (s.emit evs).withPushed l (l' ++ evs) = (s.withPushed l l').emit evs := rfl

/-- No step reads the results or the log; what it adds to them is its own. -/
theorem Change.withPushed (h : Change s a s') : ∃ results evs,
    s'.updateDPQueue = s.updateDPQueue ++ results ∧ s'.log = s.log ++ evs ∧
      ∀ l l', Change (s.withPushed l l') a (s'.withPushed (l ++ results) (l' ++ evs)) := by
  have logs : ∀ {evs}, s'.updateDPQueue = s.updateDPQueue → s'.log = s.log ++ evs →
      (∀ l l', Change (s.withPushed l l') a (s'.withPushed l (l' ++ evs))) →
      ∃ results evs, s'.updateDPQueue = s.updateDPQueue ++ results ∧ s'.log = s.log ++ evs ∧
        ∀ l l', Change (s.withPushed l l') a (s'.withPushed (l ++ results) (l' ++ evs)) :=
    fun {evs} hr hl h => ⟨[], evs, by rw [hr, List.append_nil], hl, fun l l' => by
      rw [List.append_nil]
      exact h l l'⟩
  have silent : s'.updateDPQueue = s.updateDPQueue → s'.log = s.log →
      (∀ l l', Change (s.withPushed l l') a (s'.withPushed l l')) →
      ∃ results evs, s'.updateDPQueue = s.updateDPQueue ++ results ∧ s'.log = s.log ++ evs ∧
        ∀ l l', Change (s.withPushed l l') a (s'.withPushed (l ++ results) (l' ++ evs)) :=
    fun hr hl h => logs hr (hl.trans (List.append_nil _).symm) fun l l' => by
      rw [List.append_nil]
      exact h l l'
  cases h with
  | dropped hn => exact silent rfl rfl fun l l' => .dropped hn
  | inserted hn hf =>
      refine logs rfl rfl fun l l' => ?_
      rw [withPushed_emit, withPushed_push, withPushed_addNode, ← withPushed_newNode l l']
      exact .inserted hn hf
  | ignored hn hf hi => exact logs rfl rfl fun l l' => .ignored hn hf hi
  | queued hn hf hi hd => exact logs rfl rfl fun l l' => .queued hn hf hi hd
  | popped he hpc hq hm => exact silent rfl rfl fun l l' => .popped he hpc hq hm
  | exits he hpc hq hm => exact silent rfl rfl fun l l' => .exits he hpc hq hm
  | moved he hm => exact silent rfl rfl fun l l' => .moved he hm
  | handleSet he hpc hd => exact silent rfl rfl fun l l' => .handleSet he hpc hd
  | createFailed he hpc hd => exact logs rfl rfl fun l l' => .createFailed he hpc hd
  | created he hpc hd => exact logs rfl rfl fun l l' => .created he hpc hd
  | called he hpc hd => exact logs rfl rfl fun l l' => .called he hpc hd
  | unfound he hpc hd hf => exact silent rfl rfl fun l l' => .unfound he hpc hd hf
  | reported he hpc hd hf hr =>
      exact ⟨_, _, rfl, rfl, fun l l' => .reported he hpc hd hf hr⟩
  | noted he hpc hd hf hr => exact silent rfl rfl fun l l' => .noted he hpc hd hf hr
  | thrown he hpc => exact silent rfl rfl fun l l' => .thrown he hpc
  | cleared he hpc hq => exact silent rfl rfl fun l l' => .cleared he hpc hq
  | cleanup h => exact logs rfl rfl fun l l' => .cleanup h
  | stopCleanup h => exact logs rfl rfl fun l l' => .stopCleanup h
  | stopPush h hi => exact silent rfl rfl fun l l' => .stopPush h hi
  | stopMoved h =>
      cases h with
      | join h => exact silent rfl rfl fun l l' => .stopMoved (.join h)
      | tell h =>
          refine ⟨[.exit], [], rfl, (List.append_nil _).symm, fun l l' => ?_⟩
          rw [List.append_nil]
          exact .stopMoved (.tell h)
      | done h hi => exact silent rfl rfl fun l l' => .stopMoved (.done h hi)

theorem setPc_newNode (q : Nat) (pc : EnginePc) (key : ConnKey) (filter : Nat) (dir : UInt8)
    (now : Int) : (s.setPc q pc).newNode key filter dir now = s.newNode key filter dir now := rfl

theorem setPc_addNode (it : Node) : (s.addNode it).setPc q pc = (s.setPc q pc).addNode it := rfl

theorem setPc_push (i : Int) (m : ConnMetadata) :
    (s.push i m).setPc q pc = (s.setPc q pc).push i m := rfl

theorem setPc_emit (evs : List Event) : (s.emit evs).setPc q pc = (s.setPc q pc).emit evs := rfl

theorem setPc_comm (hne : q' ≠ q) :
    (s.setPc q pc).setPc q' pc' = (s.setPc q' pc').setPc q pc :=
  congrArg (fun engines => { s with engines }) (List.modify_modify_ne _ _ _ (Ne.symm hne))

/-- A step that is not one of thread `q` is the same wherever that thread is. -/
theorem Change.setPc_other (h : Change s a s') (hne : ∀ act, a ≠ .engine q act) :
    Change (s.setPc q pc) a (s'.setPc q pc) := by
  have other : ∀ {q' : Nat} {e : Engine} {act : EngineAct}, a = .engine q' act →
      s.engines[q']? = some e → q' ≠ q ∧ (s.setPc q pc).engines[q']? = some e := by
    rintro q' e act rfl he
    have hq : q' ≠ q := fun k => hne act (k ▸ rfl)
    refine ⟨hq, ?_⟩
    rw [setPc_engines, List.getElem?_modify_ne _ _ (Ne.symm hq)]
    exact he
  cases h with
  | dropped hn => exact .dropped hn
  | inserted hn hf =>
      rw [setPc_emit, setPc_push, setPc_addNode, ← setPc_newNode q pc]
      exact .inserted hn hf
  | ignored hn hf hi => exact .ignored hn hf hi
  | queued hn hf hi hd => exact .queued hn hf hi hd
  | popped he hpc hq hm =>
      obtain ⟨hne, he⟩ := other rfl he
      rw [← setPc_comm hne]
      exact .popped he hpc hq hm
  | exits he hpc hq hm =>
      obtain ⟨hne, he⟩ := other rfl he
      rw [← setPc_comm hne]
      exact .exits he hpc hq hm
  | moved he hm =>
      obtain ⟨hne, he⟩ := other rfl he
      rw [← setPc_comm hne]
      exact .moved he hm
  | handleSet he hpc hd =>
      obtain ⟨hne, he⟩ := other rfl he
      rw [← setPc_comm hne]
      exact .handleSet he hpc hd
  | createFailed he hpc hd =>
      obtain ⟨hne, he⟩ := other rfl he
      rw [← setPc_comm hne]
      exact .createFailed he hpc hd
  | created he hpc hd =>
      obtain ⟨hne, he⟩ := other rfl he
      rw [← setPc_comm hne]
      exact .created he hpc hd
  | called he hpc hd =>
      obtain ⟨hne, he⟩ := other rfl he
      rw [← setPc_comm hne]
      exact .called he hpc hd
  | unfound he hpc hd hf =>
      obtain ⟨hne, he⟩ := other rfl he
      rw [← setPc_comm hne]
      exact .unfound he hpc hd hf
  | reported he hpc hd hf hr =>
      obtain ⟨hne, he⟩ := other rfl he
      rw [← setPc_comm hne]
      exact .reported he hpc hd hf hr
  | noted he hpc hd hf hr =>
      obtain ⟨hne, he⟩ := other rfl he
      rw [← setPc_comm hne]
      exact .noted he hpc hd hf hr
  | thrown he hpc =>
      obtain ⟨hne, he⟩ := other rfl he
      rw [← setPc_comm hne]
      exact .thrown he hpc
  | cleared he hpc hq =>
      obtain ⟨hne, he⟩ := other rfl he
      rw [← setPc_comm hne]
      exact .cleared he hpc hq
  | cleanup h => exact .cleanup h
  | stopCleanup h => exact .stopCleanup h
  | stopPush h hi => exact .stopPush h hi
  | stopMoved h =>
      cases h with
      | join h => exact .stopMoved (.join h)
      | tell h => exact .stopMoved (.tell h)
      | done h hi => exact .stopMoved (.done h hi)

end Sys
namespace App
variable {inst : Instances} {s s' : App} {t : Sys} {a : Act}

/-- What a step is in `system`: the callback comes with its lookup. -/
def coarse : Act → Option DistDpi.Act
  | .insert key pktString filter dir now => some (.insert key pktString filter dir now)
  | .engine queue act => some (.engine queue act)
  | .lookup queue r now => some (.engine queue (.callback r now))
  | .cleanup now => some (.cleanup now)
  | .stopFlows => some .stop
  | .push | .stopPackets | .stopEngines | .stopDatapath | .getDPIFlowData => none

/-- The flow table and the engines, where the callback has gone on to its end. -/
def settled (s : App) : Sys :=
  match s.found with
  | none => s.sys
  | some (queue, _) => s.sys.setPc queue .pop

/-- What the callback that is between its two steps will push. -/
def unpushed (s : App) : List DPIFlowData := (s.found.map fun x => x.2.2).toList

/-- And log. -/
def unlogged (s : App) : List Event := (s.found.map fun x => .report x.2.1 x.2.2).toList

/-- The state of `system` is the same; what has been pushed and logged there is what has been here,
and what the callback will push and log. -/
structure Matches (s : App) (t : Sys) : Prop where
  state : t = s.settled.withPushed t.updateDPQueue t.log
  results : t.updateDPQueue.Perm (s.pushed ++ s.unpushed)
  log : t.log.Perm (s.sys.log ++ s.unlogged)

theorem matches_start (inst : Instances) : (start inst).Matches (init inst) :=
  ⟨rfl, .refl _, .refl _⟩

theorem perm_append_between {α : Type} {l l₁ l₂ : List α} (h : l.Perm (l₁ ++ l₂)) (k : List α) :
    (l ++ k).Perm (l₁ ++ k ++ l₂) := by
  refine (h.append_right k).trans ?_
  rw [List.append_assoc, List.append_assoc]
  exact List.perm_append_comm.append_left l₁

/-- A step of the flow table or of a thread that is in no callback. -/
theorem Matches.other {b : DistDpi.Act} {sys : Sys} (hM : s.Matches t) (h : Sys.Change s.sys b sys)
    (hne : ∀ x, s.found = some x → ∀ act, b ≠ .engine x.1 act) :
    ∃ t', system.step t b = some t' ∧ { s with sys }.Matches t' := by
  obtain ⟨r, l, rfl⟩ : ∃ r l, t = s.settled.withPushed r l := ⟨_, _, hM.state⟩
  obtain ⟨results, evs, hr, hl, hpush⟩ := h.withPushed
  refine ⟨({ s with sys } : App).settled.withPushed (r ++ results) (l ++ evs), ?_, rfl, ?_, ?_⟩
  · refine Sys.Change.step_eq ?_
    have hstep := hpush r l
    cases hf : s.found with
    | none =>
        simp only [settled, hf]
        exact hstep
    | some x =>
        simp only [settled, hf]
        exact hstep.setPc_other (hne x hf)
  · have hperm := perm_append_between hM.results results
    rwa [pushed, List.append_assoc s.popped, ← hr] at hperm
  · have hperm := perm_append_between hM.log evs
    rwa [← hl] at hperm

/-- The lookup leaves the threads, the queues and `stop` where they are. -/
theorem lookupFlow_same {s s' : Sys} {info : NodeId} {r : Verdict} {now : Int}
    {found : Option (NodeId × DPIFlowData)} (h : s.lookupFlow info r now = some (s', found)) :
    s'.engines = s.engines ∧ s'.dpiEngineQueueList = s.dpiEngineQueueList ∧
      s'.numQueues = s.numQueues ∧ s'.stopPc = s.stopPc := by
  obtain ⟨i, -, h⟩ := Option.bind_eq_some_iff.mp h
  split at h
  · cases h
    exact ⟨rfl, rfl, rfl, rfl⟩
  · split at h <;> cases h <;> exact ⟨rfl, rfl, rfl, rfl⟩

/-- What the first step of the callback can do: it is all of it, or leaves something to push. -/
theorem lookup_change {q : Nat} {r : Verdict} {now : Int} (h : s.lookup q r now = some s') :
    ∃ e m, s.sys.engines[q]? = some e ∧ e.pc = .callback m ∧
      ((∃ sys, Sys.Change s.sys (.engine q (.callback r now)) sys ∧
          sys.updateDPQueue = s.sys.updateDPQueue ∧ s' = { s with sys }) ∨
        ∃ sys node data, s.sys.lookupFlow m.info r now = some (sys, some (node, data)) ∧
          Sys.Change s.sys (.engine q (.callback r now)) ((sys.pushResult node data).setPc q .pop) ∧
          s' = { s with sys, found := some (q, node, data) }) := by
  obtain ⟨e, he, h⟩ := Option.bind_eq_some_iff.mp h
  cases hpc : e.pc with
  | callback m =>
      rw [hpc] at h
      obtain ⟨⟨s₂, found⟩, h₂, h⟩ := Option.bind_eq_some_iff.mp h
      have hupd : s.sys.updateFlowTableDPIData m.info r now =
          (s.sys.lookupFlow m.info r now).map _ := updateFlowTableDPIData_eq
      rw [h₂, Option.map_some] at hupd
      have hchange := Sys.callback_change he hpc hupd
      refine ⟨e, m, he, hpc, ?_⟩
      cases found with
      | none =>
          cases h
          exact .inl ⟨_, hchange, (lookupFlow_cases h₂).1, rfl⟩
      | some d =>
          cases h
          exact .inr ⟨s₂, d.1, d.2, h₂, hchange, rfl⟩
  | _ => rw [hpc] at h; cases h

theorem Matches.lookup {q : Nat} {r : Verdict} {now : Int} (hM : s.Matches t) (hf : s.found = none)
    (h : s.lookup q r now = some s') :
    ∃ t', system.step t (.engine q (.callback r now)) = some t' ∧ s'.Matches t' := by
  obtain ⟨e, m, -, -, ⟨sys, hchange, -, rfl⟩ | ⟨sys, node, data, h₂, hchange, rfl⟩⟩ :=
    lookup_change h
  · exact hM.other hchange fun x hx => by rw [hf] at hx; cases hx
  obtain ⟨l, l', rfl⟩ : ∃ l l', t = s.settled.withPushed l l' := ⟨_, _, hM.state⟩
  obtain ⟨results, evs, hr, hl, hpush⟩ := hchange.withPushed
  have hqueue := (lookupFlow_cases h₂).1
  have hresults : [data] = results := by
    have happ : s.sys.updateDPQueue ++ [data] = s.sys.updateDPQueue ++ results := by
      rw [← hr, ← hqueue]
      rfl
    exact List.append_cancel_left happ
  have hres := hM.results
  have hlog := hM.log
  rw [unpushed, hf, Option.map_none, Option.toList_none, List.append_nil] at hres
  rw [unlogged, hf, Option.map_none, Option.toList_none, List.append_nil] at hlog
  refine ⟨(sys.setPc q .pop).withPushed (l ++ results) (l' ++ evs), ?_, rfl, ?_, ?_⟩
  · have hset : s.settled = s.sys := by rw [settled, hf]
    rw [hset]
    exact (hpush l l').step_eq
  · rw [← hresults]
    refine (hres.append_right [data]).trans (.of_eq ?_)
    rw [pushed, ← hqueue]
    rfl
  · refine (hlog.append_right evs).trans (.of_eq ?_)
    rw [← hl]
    rfl

/-- The rest of it. -/
theorem Matches.push (hM : s.Matches t) (h : s.push = some s') : s'.Matches t := by
  obtain ⟨⟨q, node, data⟩, hf, h⟩ := Option.bind_eq_some_iff.mp h
  cases h
  obtain ⟨hstate, hres, hlog⟩ := hM
  rw [settled, hf] at hstate
  rw [unpushed, hf] at hres
  rw [unlogged, hf] at hlog
  refine ⟨hstate, hres.trans (.of_eq ?_), hlog.trans (.of_eq ?_)⟩
  · rw [unpushed, Option.map_none, Option.toList_none, List.append_nil, pushed, pushed,
      List.append_assoc]
    rfl
  · rw [unlogged, Option.map_none, Option.toList_none, List.append_nil]
    rfl

theorem Matches.step (hM : s.Matches t) (hs : machine.step s a = some s') :
    ∃ t', system.Run t (coarse a).toList t' ∧ s'.Matches t' := by
  have one : ∀ {b : DistDpi.Act}, (∃ t', system.step t b = some t' ∧ s'.Matches t') →
      ∃ t', system.Run t [b] t' ∧ s'.Matches t' := fun ⟨t', ht, hM'⟩ => ⟨t', .one ht, hM'⟩
  cases a with
  | insert key data filter dir now =>
      obtain ⟨-, hs⟩ := Option.ite_none_right_eq_some.mp hs
      cases hs
      exact one (hM.other (Sys.insert_change s.sys key data filter dir now) fun x _ act => nofun)
  | engine q act =>
      by_cases hcb : ∃ r now, act = .callback r now
      · obtain ⟨r, now, rfl⟩ := hcb
        cases hs
      · have ha : ∀ r now, act ≠ .callback r now := fun r now k => hcb ⟨r, now, k⟩
        rw [step_engine ha] at hs
        obtain ⟨hq, hs⟩ := Option.ite_none_left_eq_some.mp hs
        obtain ⟨sys, hsys, rfl⟩ := Option.map_eq_some_iff.mp hs
        refine one (hM.other (Sys.engine_change hsys) fun x hx act' hact => hq ?_)
        cases hact
        rw [hx]
        rfl
  | lookup q r now =>
      obtain ⟨hf, hs⟩ := Option.ite_none_right_eq_some.mp hs
      exact one (hM.lookup hf hs)
  | push => exact ⟨t, .refl t, hM.push hs⟩
  | cleanup now =>
      obtain ⟨hr, hs⟩ := Option.ite_none_right_eq_some.mp hs
      cases hs
      exact one (hM.other (Sys.cleanup_change now hr) fun x _ act => nofun)
  | stopFlows =>
      obtain ⟨-, hs⟩ := Option.ite_none_right_eq_some.mp hs
      obtain ⟨sys, hstop, rfl⟩ := Option.map_eq_some_iff.mp hs
      exact one (hM.other (Sys.stop_change hstop) fun x _ act => nofun)
  | stopPackets | stopEngines | stopDatapath =>
      obtain ⟨-, hs⟩ := Option.ite_none_right_eq_some.mp hs
      cases hs
      exact ⟨t, .refl t, hM.state, hM.results, hM.log⟩
  | getDPIFlowData =>
      obtain ⟨-, hs⟩ := Option.ite_none_left_eq_some.mp hs
      rw [App.getDPIFlowData.eq_def] at hs
      split at hs
      · rename_i data rest hq
        cases hs
        refine ⟨t, .refl t, hM.state.trans ?_, hM.results.trans (.of_eq ?_), hM.log⟩
        · simp only [settled]
          cases s.found <;> rfl
        · rw [pushed, hq, pushed, List.append_assoc s.popped [data]]
          rfl
      · cases hs

/-- **The callback may as well be one step.**  Every run with the callback in two steps is one of
`system`, with the callback at its lookup: it leaves the same table, queues and threads, and the
results that have been popped, are waiting or are to be pushed are those pushed there, in another
order maybe, as the events are. -/
theorem callback_refines {as : List Act} (h : machine.Run (start inst) as s) :
    ∃ t, system.Run (init inst) (as.filterMap coarse) t ∧ s.Matches t := by
  have hrun : ∃ t, system.Run (init inst)
      (machine.collect (fun _ => coarse) (start inst) as) t ∧ s.Matches t := by
    refine h.invariant_collect (l := [])
      (I := fun s l => ∃ t, system.Run (init inst) l t ∧ s.Matches t) ?_
      ⟨init inst, .refl _, matches_start inst⟩
    rintro s a s' l ⟨t, hr, hM⟩ hs
    obtain ⟨t', hr', hM'⟩ := hM.step hs
    exact ⟨t', hr.trans hr', hM'⟩
  have hacts : machine.collect (fun _ => coarse) (start inst) as = as.filterMap coarse := by
    have := h.map_collect (f := fun _ => coarse) (g := id) (k := coarse) fun s a => Option.map_id'
    rwa [List.map_id] at this
  rwa [hacts] at hrun

/-- The state that `tooLate` leaves. -/
def tooLateState : App := (machine.exec (start twoEngines) tooLate).get (by decide)

theorem callback_refines_tooLate :
    ∃ t, system.Run (init twoEngines) (tooLate.filterMap coarse) t ∧ tooLateState.Matches t :=
  callback_refines (show machine.Run (start twoEngines) tooLate tooLateState from
    Machine.run_of_exec (by decide))

end App
end DistDpi
