import DistDpi.Flow.View

/-!
# Flow — isolation

What happens to other connections does not change a connection's entry, nor what is pushed for it.
Where there has been no other connection, the system can do what its view can (`Inv.enabled`).  So
over a run (`Run.unwind`) the steps that concern `K` are a run by themselves, and `K` fares the same
in it.
-/

namespace DistDpi
namespace Sys

variable {inst : Instances} {s s' : Sys} {a : Act} {q : Nat} {n : Node} {m : ConnMetadata}
  {e : Engine} {act : EngineAct} {K : ConnKey} {pc : EnginePc}

/-! ### `K` among its own -/

/-- There has been no other connection. -/
def Only (K : ConnKey) (s : Sys) : Prop := ∀ n ∈ s.nodes, connKeyEqual n.first K = true

theorem NodeChange.only (h : NodeChange s a s') (hs : s.Only K)
    (ha : concerning K s a = some a) : s'.Only K := by
  intro n' hn'
  rcases h.back hn' with ⟨n, hn, k⟩ | hm
  · rw [k.evolves.first]
    exact hs n hn
  · cases hm with
    | @mk key _ filter dir now =>
      have hf : (s.newNode key filter dir now).first = key := rfl
      rw [hf]
      by_contra k
      rw [concerning, if_neg k] at ha
      cases ha

/-- Among its own, `K` sees every message. -/
theorem Inv.keyed_of_only (hI : s.Inv inst) (hs : s.Only K) (hm : m ∈ s.pending q) :
    keyed K s m = true := by
  cases hx : m.exitFlag with
  | true => exact keyed_exit hx
  | false =>
      obtain ⟨-, n, hn, ha, -⟩ := hI.message q m hm hx
      rw [hI.table.keyed_iff hx hn ha]
      exact hs n hn

theorem Inv.seenPc_of_only (hI : s.Inv inst) (hs : s.Only K) (he : s.engines[q]? = some e) :
    seenPc K s e.pc = e.pc.map (seen K s) := by
  cases hm : e.pc.held with
  | none =>
      rw [seenPc_none hm]
      cases hpc : e.pc <;> first
        | rfl
        | (rw [hpc] at hm; cases hm)
  | some m => exact seenPc_of_held hm (hI.keyed_of_only hs (held_mem_pending ((held_eq he).trans hm)))

/-- A pointer that `K` can follow alone can be followed. -/
theorem Inv.deref_of_view {v : ConnKey × ConnInfo} (hI : s.Inv inst) (hx : m.exitFlag = false)
    (hk : keyed K s m = true) (hd : (view K s).deref (seen K s m) = some v) :
    ∃ it, ConnTable.deref s.connTable m.info = some it := by
  rw [hI.deref_seen hx hk] at hd
  obtain ⟨it, hit, -⟩ := Option.map_eq_some_iff.mp hd
  exact ⟨it, hit⟩

/-- A message that `K` sees waiting is waiting. -/
theorem queue_of_view {mv : ConnMetadata} {rest : List ConnMetadata}
    (hq : (view K s).queue = mv :: rest) :
    ∃ m l, s.dpiEngineQueueList[Alone.home K s.numQueues]? = some (m :: l) := by
  have hv : (view K s).queue = seenQueue K s (s.queue (Alone.home K s.numQueues)) := rfl
  rw [hv, queue] at hq
  cases hl : s.dpiEngineQueueList[Alone.home K s.numQueues]? with
  | none =>
      rw [hl] at hq
      cases hq
  | some l =>
      rw [hl] at hq
      cases l with
      | nil => cases hq
      | cons m l => exact ⟨m, l, rfl⟩

/-- **Among its own, what the thread can do for `K` alone it can do.** -/
theorem Inv.thread_enabled (hI : s.Inv inst) (hs : s.Only K) {w : Alone}
    (h : (view K s).engineStep act = some w) :
    (s.atHand (Alone.home K s.numQueues)).isSome ∧
      (s.engineStep (Alone.home K s.numQueues) act).isSome := by
  obtain ⟨ev, hev, h⟩ := Option.bind_eq_some_iff.mp h
  obtain ⟨e, he, rfl⟩ := Option.map_eq_some_iff.mp hev
  rw [hI.seenPc_of_only hs he] at h
  -- the thread has a message of `K`, and its entry is there
  have at_hand : ∀ {m}, e.pc.held = some m → (s.atHand (Alone.home K s.numQueues)).isSome := by
    intro m hm
    rw [atHand_held ((held_eq he).trans hm)]
    rfl
  have live : ∀ {m} {f : ConnKey × ConnInfo → Option Alone}, e.pc.held = some m →
      ((view K s).deref (seen K s m)).bind f = some w →
        m.key = m.info ∧ ∃ it, ConnTable.deref s.connTable m.info = some it := by
    intro m f hm h
    have hh := (held_eq he).trans hm
    obtain ⟨v, hv, -⟩ := Option.bind_eq_some_iff.mp h
    exact ⟨(hI.for_held hh).1, hI.deref_of_view (hI.held _ m hh)
      (hI.keyed_of_only hs (held_mem_pending hh)) hv⟩
  cases hpc : e.pc with
  | pop =>
      rw [hpc] at h
      cases act with
      | pop =>
          cases hq : (view K s).queue with
          | nil =>
              simp only [EnginePc.map, hq] at h
              cases h
          | cons mv rest =>
              obtain ⟨m, l, hl⟩ := queue_of_view hq
              rw [atHand_queue he hpc hl]
              exact ⟨rfl, by simp [engineStep, he, hpc, popQueue, hl]⟩
      | _ => cases h
  | testState m =>
      rw [hpc] at h
      have hm : e.pc.held = some m := by rw [hpc]; rfl
      cases act with
      | testState =>
          obtain ⟨-, it, hd⟩ := live hm h
          exact ⟨at_hand hm, by simp [engineStep, he, hpc, hd]⟩
      | _ => cases h
  | setHandle m =>
      rw [hpc] at h
      have hm : e.pc.held = some m := by rw [hpc]; rfl
      cases act with
      | setHandle =>
          obtain ⟨-, it, hd⟩ := live hm h
          exact ⟨at_hand hm, by simp [engineStep, he, hpc, hd]⟩
      | _ => cases h
  | create m =>
      rw [hpc] at h
      have hm : e.pc.held = some m := by rw [hpc]; rfl
      cases act with
      | create ok =>
          obtain ⟨hkey, it, hd⟩ := live hm h
          rw [← hkey] at hd
          exact ⟨at_hand hm, by cases ok <;> simp [engineStep, he, hpc, connCreate, hd]⟩
      | _ => cases h
  | guard m =>
      rw [hpc] at h
      have hm : e.pc.held = some m := by rw [hpc]; rfl
      cases act with
      | guard =>
          obtain ⟨-, it, hd⟩ := live hm h
          exact ⟨at_hand hm, by simp [engineStep, he, hpc, hd]⟩
      | _ => cases h
  | classify m =>
      rw [hpc] at h
      have hm : e.pc.held = some m := by rw [hpc]; rfl
      cases act with
      | classify =>
          obtain ⟨-, it, hd⟩ := live hm h
          exact ⟨at_hand hm, by simp [engineStep, he, hpc, hd]⟩
      | _ => cases h
  | callback m =>
      rw [hpc] at h
      have hm : e.pc.held = some m := by rw [hpc]; rfl
      refine ⟨at_hand hm, ?_⟩
      cases act with
      | callback r now =>
          obtain ⟨-, it, hd⟩ := live hm h
          have hf := hI.table.find_key (ConnTable.deref_some hd).1
          simp only [engineStep, he, hpc, updateFlowTableDPIData, hd, hf, Option.bind_eq_bind,
            Option.bind_some]
          split <;> rfl
      | classifyFail => simp [engineStep, he, hpc]
      | _ => cases h
  | clear | failed | exited =>
      rw [hpc] at h
      cases act <;> cases h

/-- The message at hand is one of the queue's. -/
theorem mem_pending_of_atHand (hm : s.atHand q = some m) : m ∈ s.pending q := by
  rw [atHand] at hm
  cases hh : s.held q with
  | some m' =>
      rw [hh, Option.some_or] at hm
      cases hm
      exact held_mem_pending hh
  | none =>
      rw [hh, Option.none_or] at hm
      exact List.mem_append_right _ (List.mem_of_mem_head? hm)

theorem not_throw {v w : Alone} (h : v.engineStep act = some w) : act ≠ .throw := by
  rintro rfl
  obtain ⟨e, -, h⟩ := Alone.thread_of_engineStep h
  cases h

/-- What `K` can do alone can be done, where there has been no other connection. -/
theorem Inv.enabled {t : Sys} {w : Alone} (hI : t.Inv inst) (hs : t.Only K)
    (hc : concerning K s a = some a) (h : (Alone.machine K).step (view K t) a = some w) :
    concerning K t a = some a ∧ (system.step t a).isSome ∧ ∀ q, a ≠ .engine q .throw := by
  cases a with
  | insert key data filter dir now => exact ⟨hc, rfl, fun _ k => by cases k⟩
  | engine q act =>
      simp only [Alone.machine, Alone.step] at h
      by_cases hq : q = Alone.home K (view K t).numQueues
      · rw [if_pos hq] at h
        rw [view_numQueues] at hq
        obtain ⟨hat, hen⟩ := hI.thread_enabled hs h
        rw [← hq] at hat hen
        obtain ⟨m, hm⟩ := Option.isSome_iff_exists.mp hat
        -- where there is no other connection the message at hand is of `K`
        have hk : (t.atHand q).any (keyed K t) = true := by
          rw [hm]
          exact hI.keyed_of_only hs (mem_pending_of_atHand hm)
        refine ⟨if_pos ⟨hq, hk⟩, hen, fun q k => ?_⟩
        cases k
        exact not_throw h rfl
      · rw [if_neg hq] at h
        cases h
  | cleanup now =>
      refine ⟨rfl, ?_, fun _ k => by cases k⟩
      have hr : t.stopPc = .running := by
        by_contra hr
        simp only [Alone.machine, Alone.step] at h
        rw [if_neg (show ¬ (view K t).stopPc = .running from hr)] at h
        cases h
      simp [system, step, hr]
  | stop =>
      refine ⟨rfl, ?_, fun _ k => by cases k⟩
      have hr : t.stopPc ≠ .stopped := by
        intro hr
        simp only [Alone.machine, Alone.step, Alone.stop, view_stopPc, hr] at h
        cases h
      simp only [system, step, stop]
      split <;> first
        | rfl
        | (split <;> rfl)
        | exact absurd ‹_› hr

/-- What relates a run to the steps that concern `K`. -/
structure Alike (inst : Instances) (K : ConnKey) (s t : Sys) : Prop where
  inv : s.Inv inst
  placed : s.Placed s.numQueues
  inv' : t.Inv inst
  placed' : t.Placed t.numQueues
  numQueues' : t.numQueues = inst.handles.length
  only : t.Only K
  view_eq : view K s = view K t

/-- A step that concerns `K` can be made where there has been no other connection. -/
theorem Alike.pick {t : Sys} (h : Alike inst K s t) (hn : s.numQueues = inst.handles.length)
    (hn' : s'.numQueues = inst.handles.length) (hs : system.step s a = some s')
    (hc : concerning K s a = some a) : ∃ t', system.step t a = some t' ∧ Alike inst K s' t' := by
  have k := step_change hs
  have hv := k.view h.inv h.placed hn (hn'.trans hn.symm) hc
  rw [h.view_eq] at hv
  obtain ⟨hct, hen, hth⟩ := h.inv'.enabled h.only hc hv
  obtain ⟨t', ht⟩ := Option.isSome_iff_exists.mp hen
  have kt := step_change ht
  have hnt := kt.numQueues_eq hth
  have hvt := kt.view h.inv' h.placed' h.numQueues' hnt hct
  refine ⟨t', ht, ?_⟩
  exact
    { inv := k.inv h.inv
      placed := (hn'.trans hn.symm) ▸ (k.nodes h.inv).placed h.placed
      inv' := kt.inv h.inv'
      placed' := hnt ▸ (kt.nodes h.inv').placed h.placed'
      numQueues' := hnt.trans h.numQueues'
      only := (kt.nodes h.inv').only h.only hct
      view_eq := Option.some.inj (hv.symm.trans hvt) }

/-- A step that does not concern `K` is left out. -/
theorem Alike.skip {t : Sys} (h : Alike inst K s t) (hn : s.numQueues = inst.handles.length)
    (hn' : s'.numQueues = inst.handles.length) (hs : system.step s a = some s')
    (hc : concerning K s a = none) : Alike inst K s' t := by
  have k := step_change hs
  exact
    { h with
      inv := k.inv h.inv
      placed := (hn'.trans hn.symm) ▸ (k.nodes h.inv).placed h.placed
      view_eq := (k.view_other h.inv h.placed hn (hn'.trans hn.symm) hc).trans h.view_eq }

theorem concerning_eq {b : Act} (hc : concerning K s a = some b) : b = a := by
  cases a with
  | insert | engine =>
      simp only [concerning] at hc
      split at hc
      · exact (Option.some.inj hc).symm
      · cases hc
  | cleanup | stop => exact (Option.some.inj hc).symm

/-- **Flow isolation.** -/
theorem flow_isolation {as : List Act} (h : system.Run (init inst) as s)
    (hn : system.Throughout (fun t => t.numQueues = (init inst).numQueues) (init inst) as)
    (K : ConnKey) :
    ∃ t, system.Run (init inst) (system.collect (concerning K) (init inst) as) t ∧
      (ConnTable.find t.connTable K).map (fun it => (it.first, it.second.hide)) =
        (ConnTable.find s.connTable K).map (fun it => (it.first, it.second.hide)) ∧
      t.log.filterMap (Event.pushed K) = s.log.filterMap (Event.pushed K) := by
  have start : Alike inst K (init inst) (init inst) :=
    { inv := inv_init inst
      placed := by simp [Placed, nodes, init]
      inv' := inv_init inst
      placed' := by simp [Placed, nodes, init]
      numQueues' := rfl
      only := by simp [Only, nodes, init]
      view_eq := rfl }
  obtain ⟨t, hr, ht⟩ := h.unwind (N := system) (R := Alike inst K)
    (fun _ _ _ _ hP hP' hs hc k => k.skip hP hP' hs hc)
    (fun _ _ _ _ _ hP hP' hs hc k => by cases concerning_eq hc; exact k.pick hP hP' hs hc)
    hn start
  exact ⟨t, hr, congrArg Alone.entry ht.view_eq.symm, congrArg Alone.pushed ht.view_eq.symm⟩

/-- A TCP connection and a UDP one, which share a queue and its thread. -/
def shared : List Act :=
  [.insert tcpKey [1] 3 1 100, .insert ⟨0x0a000001, 0x0a000003, 1000, 53, 17⟩ [9] 3 1 100,
    .engine 0 .pop, .engine 0 .testState, .engine 0 .setHandle, .engine 0 (.create true),
    .engine 0 .pop, .engine 0 .testState, .insert tcpKey.swap [2] 0 0 101, .engine 0 .setHandle,
    .engine 0 (.create false), .engine 0 .pop, .engine 0 .testState, .engine 0 .guard,
    .engine 0 .classify, .engine 0 (.callback ⟨.inspecting, 0, some (5, 90), none⟩ 102),
    .cleanup 111]

def sharedState : Sys := (system.exec (init twoEngines) shared).get (by decide)

theorem flow_isolation_shared :
    (system.collect (concerning tcpKey) (init twoEngines) shared).length = 12 ∧
    ∃ t, system.Run (init twoEngines) (system.collect (concerning tcpKey) (init twoEngines) shared) t ∧
      (ConnTable.find t.connTable tcpKey).map (fun it => (it.first, it.second.hide)) =
        (ConnTable.find sharedState.connTable tcpKey).map (fun it => (it.first, it.second.hide)) ∧
      t.log.filterMap (Event.pushed tcpKey) = sharedState.log.filterMap (Event.pushed tcpKey) :=
  ⟨by decide, flow_isolation (Machine.run_of_exec (by decide)) (by decide) tcpKey⟩

end Sys
end DistDpi
