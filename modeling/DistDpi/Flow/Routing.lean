import DistDpi.Flow.Log

/-!
# Flow — routing after a failure

A thread that fails lowers `numQueues_`, and packets are spread over the indices below it, or
follow their entry.  So the threads below `numQueues_` are the running ones only if it is always
the last one that fails (`FailsOk`), and the entries it leaves must get no more messages.  Under
that condition every message goes to a running thread (`routesToRunning`).
-/

namespace DistDpi

/-- `InsertOrUpdateFlows` queues the packets of this entry. -/
def Node.Open (n : Node) : Prop := n.second.classState = .inspecting ∧ n.second.dpiState ≠ none

instance (n : Node) : Decidable n.Open := inferInstanceAs (Decidable (_ ∧ _))

namespace Sys

variable {inst : Instances} {s s' : Sys} {a : Act} {q : Nat} {n n' : Node} {m : ConnMetadata}

/-- The thread of queue `q` is in its loop. -/
def Running (s : Sys) (q : Int) : Prop :=
  0 ≤ q ∧ ∃ e, s.engines[q.toNat]? = some e ∧ e.pc.inLoop

/-- **The property.**  Whatever packet comes next, what is pushed for it goes to a running thread;
when none is left the packet is dropped. -/
def RoutesToRunning (s : Sys) : Prop :=
  ∀ key data filter dir now, let s' := s.insertOrUpdateFlows key data filter dir now
    (∀ evs, s'.log = s.log ++ evs → ∀ k q m, .enqueue k q m ∈ evs → s.Running q) ∧
    ((∀ e ∈ s.engines, ¬ e.pc.inLoop) → s' = s)

/-- **The condition on the failures.**  The thread that fails is the last one counted, and if it
leaves others none of its entries is open. -/
def FailsOk (s : Sys) : Act → Prop
  | .engine q .throw => (q : Int) + 1 = s.numQueues ∧
      (q = 0 ∨ ∀ it ∈ s.connTable, it.second.queue = q → ¬ it.Open)
  | _ => True

instance (s : Sys) : ∀ a, Decidable (s.FailsOk a)
  | .engine q .throw => inferInstanceAs (Decidable ((q : Int) + 1 = s.numQueues ∧
      (q = 0 ∨ ∀ it ∈ s.connTable, it.second.queue = q → ¬ it.Open)))
  | .engine _ .pop | .engine _ .testState | .engine _ .setHandle | .engine _ (.create _)
  | .engine _ .guard | .engine _ .classify | .engine _ (.callback ..) | .engine _ .classifyFail
  | .engine _ .clear | .insert .. | .cleanup _ | .stop => isTrue trivial

/-- The threads below `numQueues_` are those that have not failed. -/
def InOrder (s : Sys) : Prop :=
  ∀ (q : Nat) (e : Engine), s.engines[q]? = some e → ((q : Int) < s.numQueues ↔ e.pc.counted)

theorem Moves.inLoop {t : List Node} {act : EngineAct} {pc pc' : EnginePc}
    (h : Moves t pc act pc') : pc.inLoop ∧ pc'.inLoop := by
  cases h <;> exact ⟨rfl, rfl⟩

/-- Threads fail in order, the open entries are those of threads that have not failed, and no one
has been told to exit. -/
structure Routed (s : Sys) : Prop where
  inOrder : s.InOrder
  entries : s.numQueues ≠ 0 → ∀ n ∈ s.connTable, n.Open → n.second.queue < s.numQueues
  data : ∀ q m, m ∈ s.pending q → m.exitFlag = false
  stays : ∀ e ∈ s.engines, e.pc ≠ .exited

theorem EnginePc.inLoop_iff {pc : EnginePc} : pc.inLoop ↔ pc.counted ∧ pc ≠ .exited := by
  cases pc <;> simp [EnginePc.inLoop, EnginePc.counted]

theorem Routed.running (hR : s.Routed) {e : Engine} (he : s.engines[q]? = some e) :
    (q : Int) < s.numQueues ↔ e.pc.inLoop := by
  rw [hR.inOrder q e he, EnginePc.inLoop_iff]
  exact (and_iff_left (hR.stays e (List.mem_of_getElem? he))).symm

theorem inOrder_init (inst : Instances) : (init inst).InOrder := fun q e he => by
  obtain ⟨hq, -⟩ := List.getElem?_eq_some_iff.mp he
  obtain ⟨h, -, rfl⟩ := List.mem_map.mp (List.mem_of_getElem? he)
  simp only [init, List.length_map] at hq
  exact ⟨fun _ => rfl, fun _ => by simpa [init] using hq⟩

theorem routed_init (inst : Instances) : (init inst).Routed where
  inOrder := inOrder_init inst
  entries _ _ hn := by cases hn
  data q m hm := by
    rw [pending_init] at hm
    cases hm
  stays e he := by
    obtain ⟨h, -, rfl⟩ := List.mem_map.mp he
    exact fun k => by cases k

theorem Change.inOrder (h : Change s a s') (hR : s.InOrder)
    (hC : ∀ q : Nat, a = .engine q .throw → (q : Int) + 1 = s.numQueues) : s'.InOrder := by
  intro q e he
  by_cases ht : ∃ q, a = .engine q .throw
  · obtain ⟨q', rfl⟩ := ht
    have hlast := hC q' rfl
    obtain ⟨e₁, he₁, hpc, rfl⟩ := throw_change h
    rw [setPc_numQueues]
    rcases engine_setPc_cases (s := { s with numQueues := s.numQueues - 1 }) he₁ he with
      ⟨rfl, rfl⟩ | ⟨hne, he⟩
    · exact ⟨fun h => by dsimp only at h; omega, fun h => by cases h⟩
    · rw [← hR q e he]
      dsimp only
      omega
  · rw [h.numQueues_eq fun q k => ht ⟨q, k⟩]
    rcases h.engine_back he with he | ⟨act, e₀, rfl, he₀, hg⟩
    · exact hR q e he
    · rw [hR q e₀ he₀, hg.counted fun k => ht ⟨q, k ▸ rfl⟩]

/-- A thread ends through an exit message only. -/
theorem Change.stays (h : Change s a s') (hR : s.Routed) (he : e ∈ s'.engines) :
    e.pc ≠ .exited := by
  obtain ⟨q, he⟩ := List.mem_iff_getElem?.mp he
  rcases h.engine_back he with he | ⟨act, e₀, -, -, hg⟩
  · exact hR.stays e (List.mem_of_getElem? he)
  · intro hpc
    rw [hpc] at hg
    generalize e₀.pc = pc₀ at hg
    cases hg with
    | exits hq hm =>
        have hx := hR.data _ _ (List.mem_append_right _ (queue_eq hq ▸ List.mem_cons_self ..))
        rw [hm] at hx
        cases hx
    | moved hm => cases hm.inLoop.2

theorem Change.entries (h : Change s a s') (hI : s.Inv inst) (hR : s.Routed) (hC : s.FailsOk a)
    (h₀ : s'.numQueues ≠ 0) (hn' : n' ∈ s'.connTable) (ho : n'.Open) :
    n'.second.queue < s'.numQueues := by
  rcases (h.nodes hI).back_live hn' with ⟨n, hn, k⟩ | hm
  · by_cases ht : ∃ q, a = .engine q .throw
    · -- the entries are as before, and those of the thread that fails are not open
      obtain ⟨q, rfl⟩ := ht
      obtain ⟨hlast, hq⟩ := hC
      cases k with
      | same =>
          obtain ⟨e, -, -, rfl⟩ := throw_change h
          rw [setPc_numQueues] at h₀ ⊢
          dsimp only at h₀ ⊢
          have hlt := hR.entries (by omega) n' hn ho
          have hne : n'.second.queue ≠ q := fun e => (hq.resolve_left (by omega)) n' hn e ho
          omega
    · rw [h.numQueues_eq fun q e => ht ⟨q, e⟩] at h₀ ⊢
      rw [k.evolves.queue]
      cases k with
      | same => exact hR.entries h₀ n' hn ho
      | packet | queued => exact hR.entries h₀ n hn ho
      | handle hw he hd => exact absurd hd ho.2
      | verdict hw hi hd => exact hR.entries h₀ n hn ⟨hi, hd⟩
      | @conn q e hw he =>
          -- the thread that gives an entry its connection runs
          obtain ⟨m, hm, -⟩ := id hw
          rw [hI.queue_of_works (mem_nodes.mpr (.inl hn)) hw, hR.running he]
          exact EnginePc.inLoop_of_held ((held_eq he).symm.trans hm)
  · cases hm; exact absurd rfl ho.2

theorem Change.routed (h : Change s a s') (hI : s.Inv inst) (hR : s.Routed) (hC : s.FailsOk a)
    (hs : a ≠ .stop) : s'.Routed where
  inOrder := h.inOrder hR.inOrder fun q e => by subst e; exact hC.1
  entries h₀ _ hn ho := h.entries hI hR hC h₀ hn ho
  data q m hm := by
    rcases h.pending q with hp | ⟨m', hp, hq⟩
    · exact hR.data q m (hp.subset hm)
    · rw [hq, List.mem_append, List.mem_singleton] at hm
      rcases hm with hm | rfl
      · exact hR.data q m hm
      · rcases hp with ⟨rfl, -⟩ | ⟨n, -, -, -, hx, -⟩
        · exact absurd rfl hs
        · exact hx
  stays _ he := h.stays hR he

/-- An index below `numQueues_` is that of a running thread. -/
theorem Routed.of_lt (hR : s.Routed) (hI : s.Inv inst) {q : Int} (h₀ : 0 ≤ q)
    (h : q < s.numQueues) : s.Running q := by
  have hlt : q.toNat < s.engines.length := by
    have := hI.numQueues_range.2
    have := hI.engines
    omega
  refine ⟨h₀, _, List.getElem?_eq_getElem hlt, ?_⟩
  rw [← hR.running (List.getElem?_eq_getElem hlt)]
  omega

theorem Routed.toRunning (hR : s.Routed) (hI : s.Inv inst) : s.RoutesToRunning := by
  intro key data filter dir now
  have h := insert_change s key data filter dir now
  generalize s.insertOrUpdateFlows key data filter dir now = s' at h
  refine ⟨fun evs hlog k q m hev => ?_, fun hdead => ?_⟩
  · obtain ⟨evs', hlog', hem⟩ := h.emits hI
    cases List.append_cancel_left (hlog.symm.trans hlog')
    cases hem with
    | silent => cases hev
    | ignored => cases List.mem_singleton.mp hev
    | inserted hn hf =>
        rcases List.mem_pair.mp hev with e | e <;> cases e
        have hmakes : s.Makes (.insert key data filter dir now) _ := .mk hn hf
        obtain ⟨h₀, h₁⟩ := hI.queue_makes hmakes
        exact hR.of_lt hI h₀ h₁
    | queued hn hf hi hd =>
        rcases List.mem_pair.mp hev with e | e <;> cases e
        obtain ⟨hit, -⟩ := ConnTable.find_some hf
        exact hR.of_lt hI (hI.queue_lt _ (mem_nodes.mpr (.inl hit))).1
          (hR.entries hn _ hit ⟨hi, hd⟩)
  · have zero : s.numQueues = 0 := by
      by_contra hne
      have := hI.numQueues_range.1
      obtain ⟨-, e, he, hl⟩ := hR.of_lt hI (q := 0) (Int.le_refl 0) (by omega)
      exact hdead e (List.mem_of_getElem? he) hl
    cases h with
    | dropped => rfl
    | inserted hn | ignored hn | queued hn => exact absurd zero hn

/-- Where everything goes to running threads, so does the first packet of a new connection. -/
theorem RoutesToRunning.of_new (h : s.RoutesToRunning) (h₀ : s.numQueues ≠ 0) {key : ConnKey}
    (hf : ConnTable.find s.connTable key = none) :
    s.Running (queueIndex (connKeyHasher key) s.numQueues) := by
  obtain ⟨h, -⟩ := h key [] 0 0 0
  have hc := insert_change s key [] 0 0 0
  generalize s.insertOrUpdateFlows key [] 0 0 0 = s' at h hc
  cases hc with
  | dropped hn => exact absurd hn h₀
  | inserted =>
      rw [← newNode_queue key 0 0 0]
      exact h _ rfl _ _ _ (List.mem_cons_of_mem _ (List.mem_cons_self ..))
  | ignored _ hf' | queued _ hf' => cases hf.symm.trans hf'

/-- So does a further packet of an open entry. -/
theorem RoutesToRunning.of_open (h : s.RoutesToRunning) (hT : s.TableOk) (h₀ : s.numQueues ≠ 0)
    (hn : n ∈ s.connTable) (ho : n.Open) : s.Running n.second.queue := by
  have hf := hT.find_key hn
  obtain ⟨h, -⟩ := h n.second.key [] 0 0 0
  have hc := insert_change s n.second.key [] 0 0 0
  generalize s.insertOrUpdateFlows n.second.key [] 0 0 0 = s' at h hc
  cases hc with
  | dropped hn => exact absurd hn h₀
  | inserted _ hf' => cases hf.symm.trans hf'
  | ignored _ hf' hi =>
      cases hf.symm.trans hf'
      exact absurd ho fun ho => hi.elim (fun k => k ho.1) ho.2
  | queued _ hf' =>
      cases hf.symm.trans hf'
      exact h _ rfl _ _ _ (List.mem_cons_of_mem _ (List.mem_cons_self ..))

/-- **The condition is no stronger than it must be.**  A failure that breaks it leaves packets that
go to the thread that failed: of a new connection, if the thread was not the last one counted, and
else of an entry of its own. -/
theorem Routed.failsOk (hR : s.Routed) (hI : s.Inv inst)
    (hs : system.step s (.engine q .throw) = some s') (h : s'.RoutesToRunning)
    (fresh : ∃ key, ConnTable.find s'.connTable key = none ∧
      queueIndex (connKeyHasher key) s'.numQueues = q) : s.FailsOk (.engine q .throw) := by
  have hT := ((step_change hs).inv hI).table
  obtain ⟨e, he, hpc, rfl⟩ := throw_change (step_change hs)
  have hlt : (q : Int) < s.numQueues := (hR.running he).mpr hpc
  have dead : ¬ Sys.Running ({ s with numQueues := s.numQueues - 1 }.setPc q .clear) q := by
    rintro ⟨-, e', he', hl⟩
    rw [Int.toNat_natCast, engines_setPc (s := { s with numQueues := s.numQueues - 1 }) he,
      if_pos rfl] at he'
    cases he'
    cases hl
  have last : (q : Int) + 1 = s.numQueues := by
    by_contra hne
    obtain ⟨key, hf, hq⟩ := fresh
    refine dead (hq ▸ h.of_new ?_ hf)
    rw [setPc_numQueues]
    dsimp only
    omega
  refine ⟨last, or_iff_not_imp_left.mpr fun h₀ it hit hq ho => dead (hq ▸ h.of_open hT ?_ hit ho)⟩
  rw [setPc_numQueues]
  dsimp only
  omega

end Sys
end DistDpi
