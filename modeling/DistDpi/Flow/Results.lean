import DistDpi.Flow.Steps

/-!
# Flow — results

The results that the engines push for the datapath, when `DistDpi::stop` stops everything:
`pkt_hdl_->stop()`, `ftb->stop()`, `dpi_engine_->stop()`, `dp_update_->stop()`.

The callback is in two steps here.  In the first it looks its entry up, writes to it and fills its
`DPIFlowData`; in the second it pushes that (`lookupFlow`, `pushResult`).  In between, it holds
`dpiengine_lock`, which keeps the other callbacks out, and not `ftbl_mutex`, so that everything
else can move.  Without a break, the two are the callback of `system` (`callback_split`).

`GetDPIFlowData` loses nothing if no callback is between its two steps when `FlowTable::stop` pushes
the exit message (`results_popped`).
-/

namespace DistDpi

namespace Sys

/-- `updateFlowTableDPIData` up to the push, with what there is to push. -/
def lookupFlow (s : Sys) (info : NodeId) (r : Verdict) (now : Int) :
    Option (Sys × Option (NodeId × DPIFlowData)) := do
  let i ← ConnTable.deref s.connTable info
  match ConnTable.find s.connTable i.second.key with
  | none => some (s, none)
  | some it =>
      let s' := s.update it.addr (classifiedInfo r now)
      if r.state = .classified ∨ r.state = .terminated then
        some ({ s' with name := resultName s.name r }.emit
          [.connDestroy it.second.handle it.second.dpiState], some (it.addr, flowData it s.name r))
      else some (s', none)

/-- `dpUpdate_->updateDPQueue_->push(data)`. -/
def pushResult (s : Sys) (node : NodeId) (data : DPIFlowData) : Sys :=
  { s with updateDPQueue := s.updateDPQueue ++ [data] }.emit [.report node data]

/-- `FlowTable::stop` has cleared the table. -/
def Cleared (s : Sys) : Prop := s.stopPc ≠ .running ∧ s.stopPc ≠ .joined

/-- It has pushed the exit message for the datapath. -/
def ExitPushed (s : Sys) : Prop := s.Cleared ∧ s.stopPc ≠ .cleaned

end Sys

/-- How far `DistDpi::stop` has come. -/
inductive DistDpiPc where
  /-- The packet threads run. -/
  | running
  /-- They are joined: in `ftb->stop()` or `dpi_engine_->stop()`. -/
  | packetsStopped
  | enginesStopped
  | stopped
  deriving DecidableEq, Repr

/-- The flow table and the engines, with the thread of the datapath. -/
structure App where
  sys : Sys
  /-- The callback that is between its two steps: the queue of its thread, and what it pushes. -/
  found : Option (Nat × NodeId × DPIFlowData)
  /-- What `GetDPIFlowData` has popped. -/
  popped : List DPIFlowData
  /-- It has left its loop. -/
  ended : Bool
  distDpiPc : DistDpiPc
  deriving DecidableEq, Repr

namespace App

inductive Act where
  | insert (key : ConnKey) (pktString : Bytes) (filter : Nat) (dir : UInt8) (now : Int)
  | engine (queue : Nat) (a : EngineAct)
  | lookup (queue : Nat) (r : Verdict) (now : Int)
  | push
  | cleanup (now : Int)
  | stopPackets
  | stopFlows
  | stopEngines
  | stopDatapath
  | getDPIFlowData
  deriving DecidableEq, Repr

/-- The callback, up to the push. -/
def lookup (s : App) (queue : Nat) (r : Verdict) (now : Int) : Option App := do
  let e ← s.sys.engines[queue]?
  match e.pc with
  | .callback m => do
      let (sys, found) ← s.sys.lookupFlow m.info r now
      match found with
      | none => some { s with sys := sys.setPc queue .pop }
      | some (node, data) => some { s with sys, found := some (queue, node, data) }
  | _ => none

/-- The rest of it. -/
def push (s : App) : Option App := do
  let (queue, node, data) ← s.found
  some { s with sys := (s.sys.pushResult node data).setPc queue .pop, found := none }

/-- A turn of `GetDPIFlowData`. -/
def getDPIFlowData (s : App) : Option App :=
  match s.sys.updateDPQueue with
  | data :: rest => some { s with
      sys.updateDPQueue := rest
      popped := s.popped ++ [data]
      ended := data.exitFlag }
  | [] => none

/-- The thread has ended. -/
def joinable (e : Engine) : Bool := e.pc = .exited ∨ e.pc = .failed

def step (s : App) : Act → Option App
  | .insert key pktString filter dir now =>
      if s.distDpiPc = .running then
        some { s with sys := s.sys.insertOrUpdateFlows key pktString filter dir now }
      else none
  | .engine _ (.callback ..) => none
  | .engine queue a =>
      if s.found.map Prod.fst = some queue then none
      else (s.sys.engineStep queue a).map fun sys => { s with sys }
  | .lookup queue r now => if s.found = none then s.lookup queue r now else none
  | .push => s.push
  | .cleanup now =>
      if s.sys.stopPc = .running then some { s with sys := s.sys.cleanupFlows false now } else none
  | .stopPackets =>
      if s.distDpiPc = .running then some { s with distDpiPc := .packetsStopped } else none
  | .stopFlows =>
      if s.distDpiPc = .packetsStopped then s.sys.stop.map fun sys => { s with sys } else none
  | .stopEngines =>
      if s.distDpiPc = .packetsStopped ∧ s.sys.stopPc = .stopped ∧ s.sys.engines.all joinable then
        some { s with distDpiPc := .enginesStopped }
      else none
  | .stopDatapath =>
      if s.distDpiPc = .enginesStopped ∧ s.ended then some { s with distDpiPc := .stopped }
      else none
  | .getDPIFlowData => if s.ended then none else s.getDPIFlowData

def machine : Machine App Act := ⟨step⟩

/-- The start. -/
def start (inst : Instances) : App where
  sys := init inst
  found := none
  popped := []
  ended := false
  distDpiPc := .running

/-- What has been pushed on `updateDPQueue_`. -/
def pushed (s : App) : List DPIFlowData := s.popped ++ s.sys.updateDPQueue

/-! ### The callback in one step -/

section
variable {s s' : Sys} {info : NodeId} {r : Verdict} {now : Int}

/-- The two steps, without a break. -/
theorem updateFlowTableDPIData_eq :
    s.updateFlowTableDPIData info r now = (s.lookupFlow info r now).map fun x =>
      (x.2.map fun d => x.1.pushResult d.1 d.2).getD x.1 := by
  unfold Sys.updateFlowTableDPIData Sys.lookupFlow
  cases hd : ConnTable.deref s.connTable info with
  | none => rfl
  | some i =>
      simp only [Option.bind_eq_bind, Option.bind_some]
      cases hf : ConnTable.find s.connTable i.second.key with
      | none => rfl
      | some it =>
          dsimp only
          split
          · simp [Sys.pushResult, Sys.emit, Sys.update]
          · rfl

end

/-- Without a break, the steps of the callback are the step of `system`. -/
theorem callback_split {s : App} {sys : Sys} {q : Nat} {r : Verdict} {now : Int}
    (hf : s.found = none) (h : system.step s.sys (.engine q (.callback r now)) = some sys) :
    ∃ as, machine.Run s as { s with sys } := by
  obtain ⟨e, he, h⟩ := Option.bind_eq_some_iff.mp h
  have hlook : machine.step s (.lookup q r now) = s.lookup q r now := if_pos hf
  cases hpc : e.pc with
  | callback m =>
      rw [hpc] at h
      obtain ⟨s₁, h₁, h⟩ := Option.bind_eq_some_iff.mp h
      cases h
      rw [updateFlowTableDPIData_eq] at h₁
      obtain ⟨⟨s₂, found⟩, h₂, rfl⟩ := Option.map_eq_some_iff.mp h₁
      have hstep : s.lookup q r now = match found with
          | none => some { s with sys := s₂.setPc q .pop }
          | some (node, data) => some { s with sys := s₂, found := some (q, node, data) } := by
        simp only [lookup, he, hpc, h₂, Option.bind_eq_bind, Option.bind_some]
        cases found <;> rfl
      cases found with
      | none => exact ⟨[.lookup q r now], .one (hlook.trans hstep)⟩
      | some d =>
          refine ⟨[.lookup q r now, .push], .more (hlook.trans hstep) (.one ?_)⟩
          simp only [machine, step, push, Option.bind_eq_bind, Option.bind_some, Option.map_some,
            Option.getD_some, hf]
  | _ => rw [hpc] at h; cases h

/-! ### What the datapath gets -/

/-- Nothing is pushed after the exit message, and `GetDPIFlowData` leaves its loop with the queue
empty. -/
structure NoneLost (s : App) : Prop where
  last : ∀ before d after, s.pushed = before ++ d :: after → d.exitFlag = true → after = []
  popped : s.ended = true → s.sys.updateDPQueue = []

/-- `FlowTable::stop` pushes the exit message while no callback is between its two steps. -/
def ExitAlone (s : App) (a : Act) : Prop :=
  a = .stopFlows → s.sys.stopPc = .cleaned → s.found = none

instance (s : App) (a : Act) : Decidable (s.ExitAlone a) :=
  inferInstanceAs (Decidable (_ → _ → _))

/-- What holds at every step. -/
structure Inv (s : App) : Prop where
  packets : s.distDpiPc = .running → s.sys.stopPc = .running
  cleared : s.sys.Cleared → s.sys.connTable = []
  results : ∀ x, s.found = some x → x.2.2.exitFlag = false
  before : ¬ s.sys.ExitPushed → s.ended = false ∧ ∀ d ∈ s.pushed, d.exitFlag = false
  after : s.sys.ExitPushed → s.found = none ∧
    ∃ l, s.pushed = l ++ [.exit] ∧ ∀ d ∈ l, d.exitFlag = false
  ended : s.ended = true → s.sys.updateDPQueue = []

section
variable {s s' : App} {sys sys' : Sys} {a : Act}

theorem Inv.noneLost (h : s.Inv) : s.NoneLost := by
  refine ⟨?_, h.ended⟩
  intro before d after hp hd
  by_cases ht : s.sys.ExitPushed
  · obtain ⟨-, l, hl, hres⟩ := h.after ht
    rcases List.eq_nil_or_concat after with rfl | ⟨after, x, rfl⟩
    · rfl
    · -- `d` is one of the results
      rw [hl, List.concat_eq_append, ← List.cons_append, ← List.append_assoc] at hp
      have hmem : d ∈ l := by
        rw [(List.append_inj' hp rfl).1]
        simp
      rw [hres d hmem] at hd
      cases hd
  · have hd' := (h.before ht).2 d (by rw [hp]; simp)
    rw [hd'] at hd
    cases hd

/-- The flow table and the engines move; nothing is pushed for the datapath, and a table that has been
cleared stays so. -/
structure Quiet (sys sys' : Sys) : Prop where
  updateDPQueue : sys'.updateDPQueue = sys.updateDPQueue
  stopPc : sys'.stopPc = sys.stopPc
  connTable : sys.Cleared → sys.connTable = [] → sys'.connTable = []

theorem quiet_insert {key : ConnKey} {data : Bytes} {filter : Nat} {dir : UInt8} {now : Int}
    (h : sys.stopPc = .running) :
    Quiet sys (sys.insertOrUpdateFlows key data filter dir now) := by
  have hc : ¬ sys.Cleared := fun k => k.1 h
  have k := Sys.insert_change sys key data filter dir now
  generalize sys.insertOrUpdateFlows key data filter dir now = sys' at k ⊢
  cases k <;> exact ⟨rfl, rfl, fun k => absurd k hc⟩

theorem quiet_engine {q : Nat} {act : EngineAct} (h : Sys.Change sys (.engine q act) sys')
    (ha : ∀ r now, act ≠ .callback r now) : Quiet sys sys' := by
  cases h with
  | unfound | reported | noted => exact absurd rfl (ha _ _)
  | handleSet | created =>
      refine ⟨rfl, rfl, fun _ hnil => ?_⟩
      simp [hnil, ConnTable.update]
  | _ => exact ⟨rfl, rfl, fun _ => id⟩

/-- Nothing is looked up in a table that is empty. -/
theorem lookupFlow_cleared {info : NodeId} {r : Verdict} {now : Int} (h : sys.connTable = []) :
    sys.lookupFlow info r now = none := by
  rw [Sys.lookupFlow, h]
  rfl

/-- The first step of the callback pushes nothing, and what it leaves to push is a result. -/
theorem lookupFlow_cases {info : NodeId} {r : Verdict} {now : Int}
    {found : Option (NodeId × DPIFlowData)} (h : sys.lookupFlow info r now = some (sys', found)) :
    sys'.updateDPQueue = sys.updateDPQueue ∧ sys'.stopPc = sys.stopPc ∧
      ∀ d ∈ found, d.2.exitFlag = false := by
  obtain ⟨i, hd, h⟩ := Option.bind_eq_some_iff.mp h
  split at h
  · cases h
    exact ⟨rfl, rfl, by simp⟩
  · split at h
    · cases h
      refine ⟨rfl, rfl, ?_⟩
      rintro d ⟨⟩
      rfl
    · cases h
      exact ⟨rfl, rfl, by simp⟩

theorem lookup_cases {q : Nat} {r : Verdict} {now : Int} (h : s.lookup q r now = some s') :
    s.sys.connTable ≠ [] ∧ ∃ sys found, sys.updateDPQueue = s.sys.updateDPQueue ∧
      sys.stopPc = s.sys.stopPc ∧ (∀ x, found = some x → x.2.2.exitFlag = false) ∧
      (s' = { s with sys } ∨ s' = { s with sys, found }) := by
  obtain ⟨e, he, h⟩ := Option.bind_eq_some_iff.mp h
  split at h
  · obtain ⟨⟨s₂, found⟩, h₂, h⟩ := Option.bind_eq_some_iff.mp h
    refine ⟨?_, ?_⟩
    · intro hnil
      rw [lookupFlow_cleared hnil] at h₂
      cases h₂
    · obtain ⟨hq, hpc, hres⟩ := lookupFlow_cases h₂
      cases found with
      | none =>
          cases h
          exact ⟨s₂.setPc q .pop, none, hq, hpc, by simp, Or.inl rfl⟩
      | some d =>
          cases h
          refine ⟨s₂, some (q, d), hq, hpc, ?_, Or.inr rfl⟩
          rintro x ⟨⟩
          exact hres d rfl
  · cases h

theorem Inv.quiet (h : s.Inv) (hq : Quiet s.sys sys) : { s with sys }.Inv where
  packets hr := hq.stopPc.trans (h.packets hr)
  cleared hc := by
    rw [Sys.Cleared, hq.stopPc] at hc
    exact hq.connTable hc (h.cleared hc)
  results := h.results
  before ht := by
    have hb := h.before (by rwa [Sys.ExitPushed, Sys.Cleared, hq.stopPc] at ht)
    rw [pushed, hq.updateDPQueue]
    exact hb
  after ht := by
    have ha := h.after (by rwa [Sys.ExitPushed, Sys.Cleared, hq.stopPc] at ht)
    rw [pushed, hq.updateDPQueue]
    exact ha
  ended he := hq.updateDPQueue.trans (h.ended he)

theorem Inv.lookup {q : Nat} {r : Verdict} {now : Int} (h : s.Inv)
    (hs : s.lookup q r now = some s') : s'.Inv := by
  obtain ⟨hne, sys, found, hqueue, hpc, hres, hs⟩ := lookup_cases hs
  have hc : ¬ s.sys.Cleared := fun k => hne (h.cleared k)
  have hq := h.quiet ⟨hqueue, hpc, fun k => absurd k hc⟩
  rcases hs with rfl | rfl
  · exact hq
  · refine ⟨hq.packets, hq.cleared, hres, hq.before, fun ht => ?_, hq.ended⟩
    rw [Sys.ExitPushed, Sys.Cleared, hpc] at ht
    exact absurd ht.1 hc

theorem push_eq {q : Nat} {node : NodeId} {data : DPIFlowData}
    (h : s.found = some (q, node, data)) :
    s.push = some
      { s with sys := (s.sys.pushResult node data).setPc q .pop, found := none } := by
  rw [push, h]
  rfl

/-- The second step of the callback. -/
theorem Inv.push (h : s.Inv) (hs : s.push = some s') : s'.Inv := by
  obtain ⟨⟨q, node, data⟩, hf, hs⟩ := Option.bind_eq_some_iff.mp hs
  cases hs
  have ht : ¬ s.sys.ExitPushed := by
    intro ht
    rw [(h.after ht).1] at hf
    cases hf
  obtain ⟨hended, hres⟩ := h.before ht
  refine ⟨h.packets, h.cleared, by simp, fun _ => ⟨hended, ?_⟩, fun k => absurd k ht, ?_⟩
  · intro d hd
    rw [pushed] at hd
    simp only [Sys.setPc_updateDPQueue, Sys.pushResult, Sys.emit_updateDPQueue] at hd
    rw [← List.append_assoc, List.mem_append, List.mem_singleton] at hd
    rcases hd with hd | rfl
    · exact hres d hd
    · exact h.results _ hf
  · intro he
    exact absurd (hended.symm.trans he) Bool.false_ne_true

/-- `FlowTable::stop`, after the packet threads have ended. -/
theorem Inv.stop (h : s.Inv) (hr : s.distDpiPc = .packetsStopped)
    (hc : s.sys.stopPc = .cleaned → s.found = none) (k : Sys.Change s.sys .stop sys) :
    { s with sys }.Inv := by
  have hpackets : ∀ {sys : Sys}, s.distDpiPc = .running → sys.stopPc = .running := by
    intro sys k
    cases hr.symm.trans k
  cases k with
  | stopCleanup hpc =>
      have ht : ¬ s.sys.ExitPushed := fun k => k.1.2 hpc
      exact ⟨hpackets, fun _ => rfl, h.results, fun _ => h.before ht, fun k => absurd rfl k.2,
        h.ended⟩
  | stopPush hpc hi =>
      have ht : s.sys.ExitPushed := by simp [Sys.ExitPushed, Sys.Cleared, hpc]
      refine ⟨hpackets, fun _ => h.cleared ht.1, h.results, fun k => absurd ?_ k,
        fun _ => h.after ht, h.ended⟩
      simp [Sys.ExitPushed, Sys.Cleared]
  | stopMoved hm =>
      cases hm with
      | join hpc =>
          have ht : ¬ s.sys.ExitPushed := fun k => k.1.1 hpc
          exact ⟨hpackets, fun k => absurd rfl k.2, h.results, fun _ => h.before ht,
            fun k => absurd rfl k.1.2, h.ended⟩
      -- the exit message is pushed: with no callback at its second step nothing comes after it
      | tell hpc =>
          have ht : ¬ s.sys.ExitPushed := fun k => k.2 hpc
          have hcleared : s.sys.Cleared := by simp [Sys.Cleared, hpc]
          obtain ⟨hended, hres⟩ := h.before ht
          refine ⟨hpackets, fun _ => h.cleared hcleared, h.results, fun k => absurd ?_ k,
            fun _ => ⟨hc hpc, s.pushed, ?_, hres⟩, ?_⟩
          · simp [Sys.ExitPushed, Sys.Cleared]
          · exact (List.append_assoc ..).symm
          · intro he
            exact absurd (hended.symm.trans he) Bool.false_ne_true
      | done hpc hi =>
          have ht : s.sys.ExitPushed := by simp [Sys.ExitPushed, Sys.Cleared, hpc]
          refine ⟨hpackets, fun _ => h.cleared ht.1, h.results, fun k => absurd ?_ k,
            fun _ => h.after ht, h.ended⟩
          simp [Sys.ExitPushed, Sys.Cleared]

/-- A turn of `GetDPIFlowData`. -/
theorem Inv.getDPIFlowData (h : s.Inv) (hs : s.getDPIFlowData = some s') : s'.Inv := by
  unfold App.getDPIFlowData at hs
  split at hs
  · rename_i data rest hq
    cases hs
    have hp : s.popped ++ [data] ++ rest = s.pushed := by
      rw [pushed, hq, List.append_assoc]
      rfl
    -- what is popped and what waits is all that was pushed, as before
    refine ⟨h.packets, h.cleared, h.results, fun ht => ?_, fun ht => ?_, fun he => ?_⟩
    · obtain ⟨-, hres⟩ := h.before ht
      rw [pushed, hp]
      exact ⟨hres data (by simp [← hp]), hres⟩
    · rw [pushed, hp]
      exact h.after ht
    · refine h.noneLost.last s.popped data rest ?_ he
      rw [pushed, hq]
  · cases hs

theorem step_engine {q : Nat} {act : EngineAct} (ha : ∀ r now, act ≠ .callback r now) :
    machine.step s (.engine q act) =
      if s.found.map Prod.fst = some q then none
      else (s.sys.engineStep q act).map fun sys => { s with sys } := by
  cases act with
  | callback r now => exact absurd rfl (ha r now)
  | _ => rfl

theorem Inv.step (h : s.Inv) (hc : s.ExitAlone a) (hs : machine.step s a = some s') : s'.Inv := by
  cases a with
  | insert key data filter dir now =>
      obtain ⟨hr, hs⟩ := Option.ite_none_right_eq_some.mp hs
      cases hs
      exact h.quiet (quiet_insert (h.packets hr))
  | engine q act =>
      by_cases hcb : ∃ r now, act = .callback r now
      · obtain ⟨r, now, rfl⟩ := hcb
        cases hs
      · have ha : ∀ r now, act ≠ .callback r now := fun r now k => hcb ⟨r, now, k⟩
        rw [step_engine ha] at hs
        obtain ⟨-, hs⟩ := Option.ite_none_left_eq_some.mp hs
        obtain ⟨sys, hsys, rfl⟩ := Option.map_eq_some_iff.mp hs
        exact h.quiet (quiet_engine (Sys.engine_change hsys) ha)
  | lookup q r now =>
      obtain ⟨-, hs⟩ := Option.ite_none_right_eq_some.mp hs
      exact h.lookup hs
  | push => exact h.push hs
  | cleanup now =>
      obtain ⟨hr, hs⟩ := Option.ite_none_right_eq_some.mp hs
      cases hs
      exact h.quiet ⟨rfl, rfl, fun k => absurd hr k.1⟩
  | stopPackets =>
      obtain ⟨-, hs⟩ := Option.ite_none_right_eq_some.mp hs
      cases hs
      exact ⟨nofun, h.cleared, h.results, h.before, h.after, h.ended⟩
  | stopFlows =>
      obtain ⟨hr, hs⟩ := Option.ite_none_right_eq_some.mp hs
      obtain ⟨sys, hstop, rfl⟩ := Option.map_eq_some_iff.mp hs
      exact h.stop hr (hc rfl) (Sys.stop_change hstop)
  | stopEngines =>
      obtain ⟨-, hs⟩ := Option.ite_none_right_eq_some.mp hs
      cases hs
      exact ⟨nofun, h.cleared, h.results, h.before, h.after, h.ended⟩
  | stopDatapath =>
      obtain ⟨-, hs⟩ := Option.ite_none_right_eq_some.mp hs
      cases hs
      exact ⟨nofun, h.cleared, h.results, h.before, h.after, h.ended⟩
  | getDPIFlowData =>
      obtain ⟨-, hs⟩ := Option.ite_none_left_eq_some.mp hs
      exact h.getDPIFlowData hs

end

theorem inv_start (inst : Instances) : (start inst).Inv where
  packets _ := rfl
  cleared h := absurd rfl h.1
  results _ h := nomatch h
  before _ := ⟨rfl, by simp [start, pushed, init]⟩
  after h := absurd rfl h.1.1
  ended h := nomatch h

/-- **The results at shutdown.**  In a run in which `FlowTable::stop` pushes the exit message while no
callback is between its two steps, nothing is pushed after it, and `GetDPIFlowData` pops all there
is.  Where a callback is between them, its second step can come next, and loses the result. -/
theorem results_popped (inst : Instances) :
    (∀ as s, machine.Run (start inst) as s → machine.Along ExitAlone (start inst) as →
      machine.Throughout NoneLost (start inst) as) ∧
    ∀ s a s₁, machine.step s a = some s₁ → ¬ s.ExitAlone a →
      ∃ s₂, machine.step s₁ .push = some s₂ ∧ ¬ s₂.NoneLost := by
  refine ⟨?_, ?_⟩
  · intro as s h hC
    exact h.throughout_of_along (fun s a s' hI hc hs => hI.step hc hs) (fun s hI => hI.noneLost) hC
      (inv_start inst)
  · intro s a s₁ hs ha
    rw [ExitAlone] at ha
    obtain ⟨rfl, hpc, hf⟩ : a = .stopFlows ∧ s.sys.stopPc = .cleaned ∧ s.found ≠ none := by
      tauto
    obtain ⟨⟨q, node, data⟩, hfound⟩ := Option.ne_none_iff_exists'.mp hf
    obtain ⟨-, hs⟩ := Option.ite_none_right_eq_some.mp hs
    rw [Sys.stop, hpc] at hs
    cases hs
    refine ⟨_, push_eq hfound, ?_⟩
    intro hn
    have hafter := hn.last s.pushed .exit [data] ?_ rfl
    · cases hafter
    · simp [pushed, Sys.pushResult]

/-- `decided`, up to navl's verdict. -/
def classifying : List Act :=
  [.insert tcpKey [1] 3 1 100, .engine 0 .pop, .engine 0 .testState, .engine 0 .setHandle,
    .engine 0 (.create true), .insert tcpKey.swap [2] 0 0 101, .engine 0 .pop,
    .engine 0 .testState, .engine 0 .guard, .engine 0 .classify]

/-- navl's verdict, with the protocol's name. -/
def verdict : Verdict := ⟨.classified, 0, some (5, 90), some [72, 84]⟩

/-- `DistDpi::stop`, up to the exit message for the datapath. -/
def telling : List Act := [.stopPackets, .stopFlows, .stopFlows, .stopFlows]

/-- The callback is done when `DistDpi::stop` comes. -/
def inTime : List Act :=
  classifying ++ [.lookup 0 verdict 102, .push] ++ telling ++ [.getDPIFlowData, .getDPIFlowData]

/-- `DistDpi::stop` comes between its steps. -/
def tooLate : List Act := classifying ++ [.lookup 0 verdict 102] ++ telling ++ [.push]

theorem results_popped_inTime : machine.Throughout NoneLost (start twoEngines) inTime :=
  (results_popped twoEngines).1 inTime _ (Machine.run_of_exec (by decide)) (by decide)

theorem not_results_popped : ¬ ∀ (inst : Instances) (as : List Act) (s : App),
    machine.Run (start inst) as s → machine.Throughout NoneLost (start inst) as := by
  intro h
  have hrun : machine.Run (start twoEngines) tooLate _ := Machine.run_of_exec (by decide)
  have hlast := ((h _ _ _ hrun).last hrun).last [] .exit [⟨tcpKey, false, 1, 3, 2, [72, 84]⟩]
    (by decide) rfl
  cases hlast

end App

end DistDpi
