import DistDpi.Flow.Callback
import DistDpi.Flow.Drain

/-!
# Flow — the process

`DistDpi::stop` returns: with no more packets and no failures it comes to its end after a bounded
number of steps of all the threads, in any order, and so do the engines and the thread of the
datapath (`stop_returns`).  As for `FlowTable::stop` alone (`Drain`), the condition is that the
table is cleared when nothing waits.

The flow table and the engines are those of `system`, where the callback is one step (`Matches`).
-/

namespace DistDpi

namespace Sys
variable {inst : Instances} {s s' : Sys} {a : DistDpi.Act}

/-- No thread has failed. -/
def Unfailed (s : Sys) : Prop := ∀ e ∈ s.engines, e.pc.counted = true

/-- What holds where none has. -/
structure Intact (inst : Instances) (s : Sys) : Prop where
  inv : s.Inv inst
  stopInv : s.StopInv
  told : s.Told
  unfailed : s.Unfailed
  exit : s.ExitPushed → .exit ∈ s.updateDPQueue

theorem intact_init (inst : Instances) : (init inst).Intact inst where
  inv := inv_init inst
  stopInv := stopInv_init inst
  told h := by cases h
  unfailed e he := by
    obtain ⟨x, -, rfl⟩ := List.mem_map.mp he
    rfl
  exit h := absurd rfl h.1.1

/-- The loop of `stop` passes all the queues. -/
theorem Intact.stopOk (hS : s.Intact inst) : s.StopOk a := by
  cases a with
  | insert | engine | cleanup => trivial
  | stop =>
      rw [StopOk]
      split
      · rename_i i hp
        intro hi e he
        have hn : s.numQueues = s.engines.length := by
          rw [hS.inv.numQueues, List.countP_eq_length.2 hS.unfailed]
        rw [List.drop_eq_nil_of_le (by omega)] at he
        cases he
      · trivial

theorem exitPushed_of_stopped (h : s.stopPc = .stopped) : s.ExitPushed :=
  ⟨⟨by rw [h]; nofun, by rw [h]; nofun⟩, by rw [h]; nofun⟩

theorem Change.exitPushed (h : Change s a s') (hx : s.ExitPushed → .exit ∈ s.updateDPQueue)
    (hx' : s'.ExitPushed) : .exit ∈ s'.updateDPQueue := by
  obtain ⟨results, -, hr, -⟩ := h.withPushed
  have grown : s.ExitPushed → .exit ∈ s'.updateDPQueue := fun k => by
    rw [hr]
    exact List.mem_append_left _ (hx k)
  by_cases hs : a = .stop
  · subst hs
    cases h with
    | stopCleanup hp => exact absurd rfl hx'.2
    | stopPush hp => exact grown ⟨⟨by rw [hp]; nofun, by rw [hp]; nofun⟩, by rw [hp]; nofun⟩
    | stopMoved hm =>
        cases hm with
        | join hp => exact absurd rfl hx'.1.2
        | tell hp => exact List.mem_append_right _ (List.mem_singleton_self _)
        | done hp => exact grown ⟨⟨by rw [hp]; nofun, by rw [hp]; nofun⟩, by rw [hp]; nofun⟩
  · refine grown ?_
    rw [ExitPushed, Cleared, h.stopPc_eq hs] at hx'
    exact hx'

theorem Change.unfailed (h : Change s a s') (hU : s.Unfailed) (ha : ∀ q, a ≠ .engine q .throw) :
    s'.Unfailed := by
  intro e he
  obtain ⟨q, he⟩ := List.mem_iff_getElem?.1 he
  rcases h.engine_back he with he | ⟨act, e₀, rfl, he₀, hg⟩
  · exact hU e (List.mem_of_getElem? he)
  · have hact : act ≠ .throw := fun hact => ha q (by rw [hact])
    exact (hg.counted hact).symm.trans (hU e₀ (List.mem_of_getElem? he₀))

theorem Change.intact (h : Change s a s') (hS : s.Intact inst) (ha : ∀ q, a ≠ .engine q .throw) :
    s'.Intact inst where
  inv := h.inv hS.inv
  stopInv := h.stopInv hS.inv hS.stopInv
  told := (h.told hS.inv hS.stopInv hS.told).2 hS.stopOk
  unfailed := h.unfailed hS.unfailed ha
  exit := h.exitPushed hS.exit

end Sys
/-- The joins that `DistDpi::stop` has left, besides those of `FlowTable::stop`. -/
def DistDpiPc.left : DistDpiPc → Nat
  | .running => 3
  | .packetsStopped => 2
  | .enginesStopped => 1
  | .stopped => 0

namespace App
variable {inst : Instances} {s s' : App} {t : Sys} {a : Act} {sys : Sys}

/-- No packet, no pass of the cleanup thread, and no part of a failure. -/
def Act.Settles : Act → Prop
  | .engine _ act => act.Ordinary
  | .lookup .. | .push | .stopPackets | .stopFlows | .stopEngines | .stopDatapath
  | .getDPIFlowData => True
  | .insert .. | .cleanup _ => False

instance : ∀ a : Act, Decidable a.Settles
  | .engine _ act => inferInstanceAs (Decidable act.Ordinary)
  | .lookup .. | .push | .stopPackets | .stopFlows | .stopEngines | .stopDatapath
  | .getDPIFlowData => isTrue trivial
  | .insert .. | .cleanup _ => isFalse id

/-- **The condition on the shutdown**, as for `FlowTable::stop` alone. -/
def Calm (s : App) (a : Act) : Prop :=
  match coarse a with
  | some b => s.settled.Calm b
  | none => True

instance (s : App) (a : Act) : Decidable (s.Calm a) :=
  match h : coarse a with
  | some b => decidable_of_iff (s.settled.Calm b) (by rw [Calm, h])
  | none => isTrue (by rw [Calm, h]; trivial)

/-! ### The threads -/

/-- A callback between its steps is where its thread is; what has been joined has ended. -/
structure Threads (s : App) : Prop where
  callback : ∀ x, s.found = some x → ∃ e m, s.sys.engines[x.1]? = some e ∧ e.pc = .callback m
  popped : s.ended = false → ∀ d ∈ s.popped, d.exitFlag = false
  engines : s.distDpiPc = .enginesStopped ∨ s.distDpiPc = .stopped →
    s.sys.stopPc = .stopped ∧ ∀ e ∈ s.sys.engines, joinable e
  datapath : s.distDpiPc = .stopped → s.ended = true

theorem threads_start (inst : Instances) : (start inst).Threads where
  callback x h := by cases h
  popped _ d h := by cases h
  engines h := h.elim nofun nofun
  datapath h := by cases h

theorem not_joinable {s : Sys} {q : Nat} {e : Engine} {act : EngineAct} {pc : EnginePc}
    (h : Sys.Goes s q e.pc act pc) : joinable e = false := by
  obtain ⟨handle, pc₀⟩ := e
  cases h with
  | moved hm => cases hm <;> rfl
  | thrown hpc => cases pc₀ <;> first | rfl | cases hpc
  | _ => rfl

/-- A step of the flow table, or of a thread that is in no callback. -/
theorem Threads.other {b : DistDpi.Act} (hT : s.Threads) (h : Sys.Change s.sys b sys)
    (hne : ∀ x, s.found = some x → ∀ act, b ≠ .engine x.1 act) : { s with sys }.Threads where
  callback x hx := by
    obtain ⟨e, m, he, hpc⟩ := hT.callback x hx
    exact ⟨e, m, (h.engine_of_ne (hne x hx)).trans he, hpc⟩
  popped := hT.popped
  engines hj := by
    obtain ⟨hp, he⟩ := hT.engines hj
    have hs : b ≠ .stop := by
      rintro rfl
      cases h with
      | stopCleanup k | stopPush k => rw [hp] at k; cases k
      | stopMoved k => cases k with | join k | tell k | done k => rw [hp] at k; cases k
    refine ⟨(h.stopPc_eq hs).trans hp, ?_⟩
    rcases h.threads with ⟨k, -⟩ | ⟨q, act, e, pc, -, he', hg, -⟩
    · rw [k]
      exact he
    · exact absurd (he e (List.mem_of_getElem? he')) (by rw [not_joinable hg]; decide)
  datapath := hT.datapath

/-- No thread that is in a callback has been joined. -/
theorem Threads.not_joined {q : Nat} {e : Engine} {m : ConnMetadata} (hT : s.Threads)
    (he : s.sys.engines[q]? = some e) (hpc : e.pc = .callback m) :
    ¬ (s.distDpiPc = .enginesStopped ∨ s.distDpiPc = .stopped) := by
  intro hj
  have := (hT.engines hj).2 e (List.mem_of_getElem? he)
  rw [joinable, hpc] at this
  cases this

theorem Threads.step (hT : s.Threads) (hs : machine.step s a = some s') : s'.Threads := by
  cases a with
  | insert key data filter dir now =>
      obtain ⟨-, hs⟩ := Option.ite_none_right_eq_some.mp hs
      cases hs
      exact hT.other (Sys.insert_change s.sys key data filter dir now) fun x _ act => nofun
  | engine q act =>
      by_cases hcb : ∃ r now, act = .callback r now
      · obtain ⟨r, now, rfl⟩ := hcb
        cases hs
      · have ha : ∀ r now, act ≠ .callback r now := fun r now k => hcb ⟨r, now, k⟩
        rw [step_engine ha] at hs
        obtain ⟨hq, hs⟩ := Option.ite_none_left_eq_some.mp hs
        obtain ⟨sys, hsys, rfl⟩ := Option.map_eq_some_iff.mp hs
        refine hT.other (Sys.engine_change hsys) fun x hx act' hact => hq ?_
        cases hact
        rw [hx]
        rfl
  | lookup q r now =>
      obtain ⟨hf, hs⟩ := Option.ite_none_right_eq_some.mp hs
      obtain ⟨e, m, he, hpc, ⟨sys, hchange, -, rfl⟩ | ⟨sys, node, data, h₂, -, rfl⟩⟩ :=
        lookup_change hs
      · exact hT.other hchange fun x hx => by rw [hf] at hx; cases hx
      · refine ⟨fun x hx => ?_, hT.popped, fun hj => absurd hj (hT.not_joined he hpc),
          hT.datapath⟩
        cases hx
        exact ⟨e, m, (lookupFlow_same h₂).1 ▸ he, hpc⟩
  | push =>
      obtain ⟨⟨q, node, data⟩, hf, hs⟩ := Option.bind_eq_some_iff.mp hs
      cases hs
      obtain ⟨e, m, he, hpc⟩ := hT.callback _ hf
      exact ⟨nofun, hT.popped, fun hj => absurd hj (hT.not_joined he hpc), hT.datapath⟩
  | cleanup now =>
      obtain ⟨hr, hs⟩ := Option.ite_none_right_eq_some.mp hs
      cases hs
      exact hT.other (Sys.cleanup_change now hr) fun x _ act => nofun
  | stopPackets =>
      obtain ⟨-, hs⟩ := Option.ite_none_right_eq_some.mp hs
      cases hs
      exact ⟨hT.callback, hT.popped, fun hj => hj.elim nofun nofun, nofun⟩
  | stopFlows =>
      obtain ⟨-, hs⟩ := Option.ite_none_right_eq_some.mp hs
      obtain ⟨sys, hstop, rfl⟩ := Option.map_eq_some_iff.mp hs
      exact hT.other (Sys.stop_change hstop) fun x _ act => nofun
  | stopEngines =>
      obtain ⟨⟨-, hp, he⟩, hs⟩ := Option.ite_none_right_eq_some.mp hs
      cases hs
      exact ⟨hT.callback, hT.popped, fun _ => ⟨hp, fun e hmem => List.all_eq_true.1 he e hmem⟩,
        nofun⟩
  | stopDatapath =>
      obtain ⟨⟨hp, he⟩, hs⟩ := Option.ite_none_right_eq_some.mp hs
      cases hs
      exact ⟨hT.callback, hT.popped, fun _ => hT.engines (.inl hp), fun _ => he⟩
  | getDPIFlowData =>
      obtain ⟨hend, hs⟩ := Option.ite_none_left_eq_some.mp hs
      rw [App.getDPIFlowData.eq_def] at hs
      split at hs
      · rename_i data rest hq
        cases hs
        refine ⟨hT.callback, fun hx d hd => ?_, hT.engines,
          fun hj => absurd (hT.datapath hj) hend⟩
        rcases List.mem_append.1 hd with hd | hd
        · exact hT.popped (Bool.eq_false_iff.2 hend) d hd
        · cases List.mem_singleton.1 hd
          exact hx
      · cases hs

/-! ### What is left to do -/

/-- The steps that are left, at most: a statement of a callback makes three, with the push and the
pop of its result. -/
def work (s : App) : Nat :=
  3 * (s.sys.work + s.sys.stopWork) + s.sys.updateDPQueue.length + s.found.isNone.toNat +
    s.distDpiPc.left

/-- A step of the flow table or of a thread, with no more than one result. -/
theorem work_lt {b : DistDpi.Act} (h : Sys.Change s.sys b sys) (hb : b.Settles)
    (hr : sys.updateDPQueue.length ≤ s.sys.updateDPQueue.length + 1) :
    work { s with sys } < s.work := by
  have hlt := h.settles_lt hb
  simp only [work]
  omega

theorem work_lookup {q : Nat} {r : Verdict} {now : Int} (hf : s.found = none)
    (h : s.lookup q r now = some s') : s'.work < s.work := by
  obtain ⟨e, m, he, hpc, ⟨sys, hchange, hr, rfl⟩ | ⟨sys, node, data, h₂, -, rfl⟩⟩ :=
    lookup_change h
  · exact work_lt hchange trivial (by rw [hr]; exact Nat.le_succ _)
  · obtain ⟨hengines, hqueues, hn, hp⟩ := lookupFlow_same h₂
    have hr := (lookupFlow_cases h₂).1
    simp only [work, Sys.work, Sys.stopWork, hengines, hqueues, hn, hp, hr, hf, Option.isNone_none,
      Option.isNone_some, Bool.toNat_true, Bool.toNat_false]
    omega

theorem work_push (hT : s.Threads) (h : s.push = some s') : s'.work < s.work := by
  obtain ⟨⟨q, node, data⟩, hf, h⟩ := Option.bind_eq_some_iff.mp h
  cases h
  obtain ⟨e, m, he, hpc⟩ := hT.callback _ hf
  have hset : ((s.sys.pushResult node data).setPc q .pop).work + e.pc.rank =
      s.sys.work + EnginePc.pop.rank := Sys.work_setPc he
  rw [hpc] at hset
  have hstop : ((s.sys.pushResult node data).setPc q .pop).stopWork = s.sys.stopWork := rfl
  have hlen : ((s.sys.pushResult node data).setPc q .pop).updateDPQueue.length =
      s.sys.updateDPQueue.length + 1 := List.length_append
  simp only [EnginePc.rank] at hset
  simp only [work, hf, hstop, hlen, Option.isNone_none, Option.isNone_some, Bool.toNat_true,
    Bool.toNat_false]
  omega

theorem stop_results (h : Sys.Change s.sys .stop sys) :
    sys.updateDPQueue.length ≤ s.sys.updateDPQueue.length + 1 := by
  cases h with
  | stopCleanup | stopPush => exact Nat.le_succ _
  | stopMoved hm =>
      cases hm with
      | join | done => exact Nat.le_succ _
      | tell => exact Nat.le_of_eq List.length_append

theorem step_work (hT : s.Threads) (hs : machine.step s a = some s') (ha : a.Settles) :
    s'.work < s.work := by
  cases a with
  | insert | cleanup => exact ha.elim
  | engine q act =>
      by_cases hcb : ∃ r now, act = .callback r now
      · obtain ⟨r, now, rfl⟩ := hcb
        cases hs
      · have hne : ∀ r now, act ≠ .callback r now := fun r now k => hcb ⟨r, now, k⟩
        rw [step_engine hne] at hs
        obtain ⟨-, hs⟩ := Option.ite_none_left_eq_some.mp hs
        obtain ⟨sys, hsys, rfl⟩ := Option.map_eq_some_iff.mp hs
        have hchange := Sys.engine_change hsys
        have hr := (quiet_engine hchange hne).updateDPQueue
        exact work_lt hchange ha (by rw [hr]; exact Nat.le_succ _)
  | lookup q r now =>
      obtain ⟨hf, hs⟩ := Option.ite_none_right_eq_some.mp hs
      exact work_lookup hf hs
  | push => exact work_push hT hs
  | stopFlows =>
      obtain ⟨-, hs⟩ := Option.ite_none_right_eq_some.mp hs
      obtain ⟨sys, hstop, rfl⟩ := Option.map_eq_some_iff.mp hs
      have hchange := Sys.stop_change hstop
      exact work_lt hchange trivial (stop_results hchange)
  | stopPackets =>
      obtain ⟨hp, hs⟩ := Option.ite_none_right_eq_some.mp hs
      cases hs
      simp only [work, hp, DistDpiPc.left]
      omega
  | stopEngines =>
      obtain ⟨⟨hp, -⟩, hs⟩ := Option.ite_none_right_eq_some.mp hs
      cases hs
      simp only [work, hp, DistDpiPc.left]
      omega
  | stopDatapath =>
      obtain ⟨⟨hp, -⟩, hs⟩ := Option.ite_none_right_eq_some.mp hs
      cases hs
      simp only [work, hp, DistDpiPc.left]
      omega
  | getDPIFlowData =>
      obtain ⟨-, hs⟩ := Option.ite_none_left_eq_some.mp hs
      rw [App.getDPIFlowData.eq_def] at hs
      split at hs
      · rename_i data rest hq
        cases hs
        have hw : Sys.work { s.sys with updateDPQueue := rest } = s.sys.work := rfl
        have hsw : Sys.stopWork { s.sys with updateDPQueue := rest } = s.sys.stopWork := rfl
        simp only [work, hq, hw, hsw, List.length_cons]
        omega
      · cases hs

/-! ### Where nothing can go on -/

/-- Nothing can go on but packets, passes of the cleanup thread and failures. -/
def Still (s : App) : Prop :=
  ∀ a : Act, a.Settles → s.Calm a → machine.step s a = none

theorem Still.found (h : s.Still) : s.found = none := by
  by_contra hf
  obtain ⟨⟨q, node, data⟩, hf⟩ := Option.ne_none_iff_exists'.1 hf
  have hpush : s.push = none := h .push trivial trivial
  rw [push_eq hf] at hpush
  cases hpush

/-- Then neither can the threads in `system`. -/
theorem Still.threads (h : s.Still) : s.sys.Still := by
  intro q act ho
  have hf := h.found
  by_contra hne
  obtain ⟨sys, hs⟩ := Option.ne_none_iff_exists'.1 hne
  by_cases hcb : ∃ r now, act = .callback r now
  · obtain ⟨r, now, rfl⟩ := hcb
    have hstep : (if s.found = none then s.lookup q r now else none) = none :=
      h (.lookup q r now) trivial
        (show s.settled.Calm (.engine q (.callback r now)) from fun k => by cases k)
    rw [if_pos hf] at hstep
    obtain ⟨e, he, hs⟩ := Option.bind_eq_some_iff.mp hs
    cases hpc : e.pc with
    | callback m =>
        rw [hpc] at hs
        obtain ⟨s₁, h₁, -⟩ := Option.bind_eq_some_iff.mp hs
        rw [updateFlowTableDPIData_eq] at h₁
        obtain ⟨⟨s₂, found⟩, h₂, -⟩ := Option.map_eq_some_iff.mp h₁
        simp only [lookup, he, hpc, h₂, Option.bind_eq_bind, Option.bind_some] at hstep
        cases found <;> cases hstep
    | _ => rw [hpc] at hs; cases hs
  · have hno : ∀ r now, act ≠ .callback r now := fun r now k => hcb ⟨r, now, k⟩
    have hstep := h (.engine q act) ho
      (show s.settled.Calm (.engine q act) from fun k => by cases k)
    have heq : s.sys.engineStep q act = some sys := hs
    rw [step_engine hno, if_neg (by rw [hf]; exact fun k => by cases k), heq] at hstep
    cases hstep

theorem still_withPushed {s : Sys} (h : s.Still) (l : List DPIFlowData) (l' : List Event) :
    (s.withPushed l l').Still := by
  intro q act ho
  by_contra hne
  obtain ⟨s₁, hs⟩ := Option.ne_none_iff_exists'.1 hne
  obtain ⟨results, evs, -, -, hpush⟩ := (Sys.step_change hs).withPushed
  have hstep : system.step s (.engine q act) = some _ := (hpush s.updateDPQueue s.log).step_eq
  rw [h q act ho] at hstep
  cases hstep

/-- A thread that has neither failed nor is in its loop has got its exit message. -/
theorem exited_of_counted {e : Engine} (hc : e.pc.counted = true) (hl : ¬ e.pc.inLoop) :
    e.pc = .exited := by
  cases hpc : e.pc with
  | exited => rfl
  | clear | failed => rw [hpc] at hc; cases hc
  | _ => rw [hpc] at hl; exact absurd rfl hl

/-- The thread of the datapath has popped the exit message. -/
theorem Still.ended (h : s.Still) (hT : s.Threads) (hM : s.Matches t)
    (hx : .exit ∈ t.updateDPQueue) : s.ended = true := by
  by_contra hend
  have hstep : (if s.ended then none else s.getDPIFlowData) = none :=
    h .getDPIFlowData trivial trivial
  rw [if_neg hend, App.getDPIFlowData.eq_def] at hstep
  split at hstep
  · cases hstep
  · rename_i hq
    have hmem := hM.results.subset hx
    rw [pushed, hq, unpushed, h.found, Option.map_none, Option.toList_none, List.append_nil,
      List.append_nil] at hmem
    cases hT.popped (Bool.eq_false_iff.2 hend) _ hmem

/-- `DistDpi::stop` has returned then. -/
theorem Still.stopped (h : s.Still) (hT : s.Threads) (hM : s.Matches t) (hS : t.Intact inst)
    (hB : t.Backed) : s.distDpiPc = .stopped ∧ ∀ e ∈ s.sys.engines, e.pc = .exited := by
  have hset : s.settled = s.sys := by rw [settled, h.found]
  obtain ⟨l, l', rfl⟩ : ∃ l l', t = s.sys.withPushed l l' := ⟨_, _, hset ▸ hM.state⟩
  have hstill : (s.sys.withPushed l l').Still := still_withPushed h.threads l l'
  have hwait : ∀ (q : Nat) (e : Engine), s.sys.engines[q]? = some e → e.pc.inLoop →
      e.pc = .pop ∧ s.sys.queue q = [] := fun q e he hl => hstill.waits hS.inv hB he hl
  have hexited : s.sys.stopPc = .stopped → ∀ e ∈ s.sys.engines, e.pc = .exited := fun hp e he =>
    exited_of_counted (hS.unfailed e he) (hS.told.ended hp hwait e he)
  cases hpc : s.distDpiPc with
  | running =>
      have hstep : (if s.distDpiPc = .running then _ else none) = none :=
        h .stopPackets trivial trivial
      rw [if_pos hpc] at hstep
      cases hstep
  | packetsStopped =>
      have hstep : (if s.distDpiPc = .packetsStopped then s.sys.stop.map _ else none) = none :=
        h .stopFlows trivial (show s.settled.Calm .stop from hset ▸ Sys.calm_of_waits hwait)
      rw [if_pos hpc, Option.map_eq_none_iff] at hstep
      have hp := Sys.stopPc_of_stop hstep
      have hall : s.sys.engines.all joinable = true := List.all_eq_true.2 fun e he => by
        rw [joinable, hexited hp e he]
        rfl
      have hjoin : (if s.distDpiPc = .packetsStopped ∧ s.sys.stopPc = .stopped ∧
          s.sys.engines.all joinable then _ else none) = none := h .stopEngines trivial trivial
      rw [if_pos ⟨hpc, hp, hall⟩] at hjoin
      cases hjoin
  | enginesStopped =>
      have hp := (hT.engines (.inl hpc)).1
      have hx : .exit ∈ (s.sys.withPushed l l').updateDPQueue :=
        hS.exit (Sys.exitPushed_of_stopped hp)
      have hjoin : (if s.distDpiPc = .enginesStopped ∧ s.ended then _ else none) = none :=
        h .stopDatapath trivial trivial
      rw [if_pos ⟨hpc, h.ended hT hM hx⟩] at hjoin
      cases hjoin
  | stopped => exact ⟨rfl, hexited (hT.engines (.inr hpc)).1⟩

/-! ### The process comes to its end -/

theorem settles_of_coarse {b : DistDpi.Act} (ha : a.Settles) (hb : coarse a = some b) :
    b.Settles := by
  cases a with
  | insert | cleanup => exact ha.elim
  | engine | lookup | stopFlows =>
      cases hb
      exact ha
  | _ => cases hb

/-- A step, with that of `system`. -/
theorem Matches.change (hM : s.Matches t) (hs : machine.step s a = some s') :
    s'.Matches t ∧ coarse a = none ∨
      ∃ b t', coarse a = some b ∧ Sys.Change t b t' ∧ s'.Matches t' := by
  obtain ⟨t', hr, hM'⟩ := hM.step hs
  cases hc : coarse a with
  | none =>
      rw [hc] at hr
      cases hr
      exact .inl ⟨hM', rfl⟩
  | some b =>
      rw [hc] at hr
      cases hr with
      | more hstep hnil =>
          cases hnil
          exact .inr ⟨b, t', rfl, Sys.step_change hstep, hM'⟩

theorem throw_of_coarse {q : Nat} (h : coarse a = some (.engine q .throw)) :
    a = .engine q .throw := by
  cases a with
  | engine =>
      cases h
      rfl
  | _ => cases h

/-- **`DistDpi::stop` returns.**  From any reachable state where no thread has failed, and what
waits is for entries of the table, with no more packets, no failures and no pass of the cleanup
thread, all the threads together make no more than `work` steps, in any order; and when none of them
can go on, `DistDpi::stop` has returned, all the engines have ended by their exit messages, and so
has the thread of the datapath. -/
theorem stop_returns {as bs : List Act} (h : machine.Run (start inst) as s)
    (hn : ∀ a ∈ as, ∀ q, a ≠ .engine q .throw) (hB : s.settled.Backed)
    (hr : machine.Run s bs s') (hbs : ∀ a ∈ bs, a.Settles) (hcalm : machine.Along Calm s bs) :
    bs.length + s'.work ≤ s.work ∧ (s'.Still →
      s'.distDpiPc = .stopped ∧ s'.ended = true ∧ ∀ e ∈ s'.sys.engines, e.pc = .exited) := by
  have hstart : s.Threads ∧ ∃ t, s.Matches t ∧ t.Intact inst := by
    refine h.invariant_along (I := fun s => s.Threads ∧ ∃ t, s.Matches t ∧ t.Intact inst) ?_
      (Machine.along_of_forall hn) ⟨threads_start inst, _, matches_start inst, Sys.intact_init inst⟩
    rintro s a s' ⟨hT, t, hM, hS⟩ ha hs
    refine ⟨hT.step hs, ?_⟩
    rcases hM.change hs with ⟨hM', -⟩ | ⟨b, t', hb, hchange, hM'⟩
    · exact ⟨t, hM', hS⟩
    · exact ⟨t', hM', hchange.intact hS fun q hq => ha q (throw_of_coarse (hq ▸ hb))⟩
  refine ⟨hr.length_add_le_of (fun s a s' hT ha hs => ⟨hT.step hs, step_work hT hs ha⟩) hbs
    hstart.1, fun hstill => ?_⟩
  obtain ⟨hT, t, hM, hS, hB⟩ : s'.Threads ∧ ∃ t, s'.Matches t ∧ t.Intact inst ∧ t.Backed := by
    obtain ⟨hT, t, hM, hS⟩ := hstart
    have hB : t.Backed := hM.state ▸ hB
    refine hr.invariant_along
      (I := fun s => s.Threads ∧ ∃ t, s.Matches t ∧ t.Intact inst ∧ t.Backed) ?_
      (hcalm.and (Machine.along_of_forall hbs)) ⟨hT, t, hM, hS, hB⟩
    rintro s a s' ⟨hT, t, hM, hS, hB⟩ ⟨hcalm, ha⟩ hs
    refine ⟨hT.step hs, ?_⟩
    rcases hM.change hs with ⟨hM', -⟩ | ⟨b, t', hb, hchange, hM'⟩
    · exact ⟨t, hM', hS, hB⟩
    · have hsettles := settles_of_coarse ha hb
      have hc : t.Calm b := by
        rw [Calm, hb] at hcalm
        exact hM.state ▸ hcalm
      refine ⟨t', hM', hchange.intact hS fun q hq => ?_, hchange.backed hS.inv hsettles hc hB⟩
      rw [hq] at hsettles
      exact hsettles
  obtain ⟨hp, he⟩ := hstill.stopped hT hM hS hB
  exact ⟨hp, hT.datapath hp, he⟩

/-- The callback goes on, and `DistDpi::stop` comes. -/
def returning : List Act :=
  [.lookup 0 verdict 102, .stopPackets, .push] ++ List.replicate 6 .stopFlows ++
    [.engine 0 .pop, .getDPIFlowData, .engine 1 .pop, .stopEngines, .getDPIFlowData, .stopDatapath]

def classifyingState : App := (machine.exec (start twoEngines) classifying).get (by decide)

theorem run_classifying : machine.Run (start twoEngines) classifying classifyingState :=
  Machine.run_of_exec (by decide)

def returnedState : App := (machine.exec classifyingState returning).get (by decide)

theorem run_returning : machine.Run classifyingState returning returnedState :=
  Machine.run_of_exec (by decide)

theorem returned_still : returnedState.Still := by
  intro a _ _
  cases a with
  | insert | cleanup | push | stopPackets | stopFlows | stopEngines | stopDatapath
  | getDPIFlowData => rfl
  | engine q act => rcases q with _ | _ | q <;> cases act <;> rfl
  | lookup q r now => rcases q with _ | _ | q <;> rfl

theorem stop_returns_classifying : returnedState.distDpiPc = .stopped ∧ returnedState.ended = true ∧
    ∀ e ∈ returnedState.sys.engines, e.pc = .exited :=
  (stop_returns run_classifying (show ∀ a ∈ classifying, ∀ q, a ≠ .engine q .throw by
      simp [classifying]) (show classifyingState.settled.Backed by decide) run_returning
    (show ∀ a ∈ returning, a.Settles by decide)
    (show machine.Along Calm classifyingState returning by decide)).2 returned_still

end App
end DistDpi
