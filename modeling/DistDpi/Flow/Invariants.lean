import DistDpi.Flow.Nodes

/-!
# Flow — invariants

What holds in every reachable state (`Inv`, `reachable`): the tables are sound, `numQueues_`
counts the threads that have not failed, a message is for an entry of its queue, a thread knows
of its entry what the statements it has passed have shown, and a handle is that of the thread of
the entry's queue.  With it a step does to the nodes what `NodeChange` says (`Change.nodes`).
-/

namespace DistDpi

/-- What a thread knows of the entry it works on. -/
def EnginePc.Expects (handle : Int) (i : ConnInfo) : EnginePc → Prop
  | .setHandle _ => i.dpiState = none
  | .create _ => i.dpiState = none ∧ i.handle = handle
  | .guard _ => i.dpiState ≠ none
  | .classify _ | .callback _ => i.dpiState ≠ none ∧ i.classState = .inspecting
  | .pop | .testState _ | .clear | .failed | .exited => True

theorem EnginePc.Expects.congr {handle : Int} {i i' : ConnInfo} {pc : EnginePc}
    (h : pc.Expects handle i) (hd : i'.dpiState = i.dpiState) (hh : i'.handle = i.handle)
    (hc : i'.classState = i.classState) : pc.Expects handle i' := by
  cases pc <;> simp only [Expects, hd, hh, hc] at h ⊢ <;> exact h

/-- `numQueues_` has not been lowered for this thread. -/
def EnginePc.counted : EnginePc → Bool
  | .clear | .failed => false
  | _ => true

theorem EnginePc.counted_of_inLoop {pc : EnginePc} (h : pc.inLoop) : pc.counted := by
  cases pc <;> first | rfl | cases h

namespace Sys

variable {inst : Instances} {s s' : Sys} {a : Act} {q q' : Nat} {e : Engine} {m : ConnMetadata}
  {n n' : Node} {pc : EnginePc}

/-- The message is for a node of queue `q`. -/
def For (s : Sys) (q : Nat) (m : ConnMetadata) : Prop :=
  m.key = m.info ∧ ∃ n ∈ s.nodes, n.addr = m.info ∧ n.second.queue = q

/-- **The invariant.** -/
structure Inv (inst : Instances) (s : Sys) : Prop where
  table : s.TableOk
  queues : s.dpiEngineQueueList.length = inst.handles.length
  engines : s.engines.length = inst.handles.length
  numQueues : s.numQueues = s.engines.countP fun e => e.pc.counted
  queue_lt : ∀ n ∈ s.nodes, 0 ≤ n.second.queue ∧ n.second.queue < inst.handles.length
  held : ∀ q m, s.held q = some m → m.exitFlag = false
  message : ∀ q m, m ∈ s.pending q → m.exitFlag = false → s.For q m
  expects : ∀ (q : Nat) (e : Engine) (m : ConnMetadata), s.engines[q]? = some e →
    e.pc.held = some m → ∀ n ∈ s.nodes, n.addr = m.info → e.pc.Expects e.navlhandle n.second
  handle : ∀ n ∈ s.nodes, n.second.dpiState ≠ none →
    ∃ e, s.engines[n.second.queue.toNat]? = some e ∧ n.second.handle = e.navlhandle
  verdict : ∀ n ∈ s.nodes, n.second.classState ≠ .inspecting →
    n.second.dpiState ≠ none ∧ n.second.pktRefCnt = 0

theorem held_init (inst : Instances) (q : Nat) : (init inst).held q = none := by
  cases he : (init inst).engines[q]? with
  | none => rw [held, he]; rfl
  | some e =>
      obtain ⟨x, -, rfl⟩ := List.mem_map.mp (List.mem_of_getElem? he)
      rw [held_eq he]
      rfl

theorem pending_init (inst : Instances) (q : Nat) : (init inst).pending q = [] := by
  rw [pending, held_init, queue]
  cases hq : (init inst).dpiEngineQueueList[q]? with
  | none => rfl
  | some l =>
      obtain ⟨x, -, rfl⟩ := List.mem_map.mp (List.mem_of_getElem? hq)
      rfl

theorem inv_init (inst : Instances) : (init inst).Inv inst where
  table := ⟨by simp [init, nodes], by simp [init, nodes], .nil, by simp [init, nodes]⟩
  queues := by simp [init]
  engines := by simp [init]
  numQueues := by
    have : (List.map (fun h => (⟨h, .pop⟩ : Engine)) inst.handles).countP (fun e => e.pc.counted) =
        inst.handles.length := by
      rw [List.countP_map]
      exact List.countP_eq_length.mpr fun _ _ => rfl
    simp [init, this]
  queue_lt := by simp [init, nodes]
  held q m h := by
    rw [held_init] at h
    cases h
  message q m h := by
    rw [pending_init] at h
    cases h
  expects := by simp [init, nodes]
  handle := by simp [init, nodes]
  verdict := by simp [init, nodes]

/-! ### What the invariant says of the message at hand -/

theorem held_mem_pending (h : s.held q = some m) : m ∈ s.pending q := by
  rw [pending, h]
  exact List.mem_append_left _ (List.mem_singleton_self m)

theorem Inv.for_held (hI : s.Inv inst) (h : s.held q = some m) : s.For q m :=
  hI.message q m (held_mem_pending h) (hI.held q m h)

/-- A node is worked on by the thread of its queue. -/
theorem Inv.queue_of_works (hI : s.Inv inst) (hn : n ∈ s.nodes) (h : s.Works q n) :
    n.second.queue = q := by
  obtain ⟨m, hm, ha⟩ := h
  obtain ⟨-, n', hn', ha', hq⟩ := hI.for_held hm
  rw [hI.table.eq_of_addr hn hn' (ha.symm.trans ha'.symm)]
  exact hq

/-- The node a pointer points to is the only one at its address, live or erased. -/
theorem Inv.eq_of_deref {it : Node} {x : NodeId} (hI : s.Inv inst)
    (hd : ConnTable.deref s.connTable x = some it) (hn : n ∈ s.nodes) (ha : n.addr = x) :
    n = it := by
  obtain ⟨hit, hx⟩ := ConnTable.deref_some hd
  exact hI.table.eq_of_addr hn (mem_nodes.mpr (.inl hit)) (ha.trans hx.symm)

theorem Inv.expects_live (hI : s.Inv inst) (he : s.engines[q]? = some e)
    (hm : e.pc.held = some m) (hn : n ∈ s.connTable) (ha : n.addr = m.info) :
    e.pc.Expects e.navlhandle n.second :=
  hI.expects q e m he hm n (mem_nodes.mpr (.inl hn)) ha

/-- **What a step does to the nodes.** -/
theorem Change.nodes (h : Change s a s') (hI : s.Inv inst) : NodeChange s a s' := by
  -- what `e` knows of a live node its message is for
  have live := fun {q e m n} he hm hn ha =>
    hI.expects_live (q := q) (e := e) (m := m) (n := n) he hm hn ha
  have works : ∀ {q e m n}, s.engines[q]? = some e → e.pc.held = some m → n.addr = m.info →
      s.Works q n := fun {q e m n} he hm ha => ⟨m, (held_eq he).trans hm, ha.symm⟩
  -- the entry the callback finds is the one its argument points to
  have found : ∀ {m : ConnMetadata} {i it n : Node}, ConnTable.deref s.connTable m.info = some i →
      ConnTable.find s.connTable i.second.key = some it → n.addr = it.addr → n.addr = m.info :=
    fun {m i it n} hd hf ha => by
      obtain ⟨hi, hx⟩ := ConnTable.deref_some hd
      rw [hI.table.find_key hi] at hf
      cases hf
      exact ha.trans hx
  cases h with
  | dropped | popped | exits | moved | createFailed | called | unfound | thrown | cleared
  | stopPush | stopMoved => exact .same rfl rfl rfl
  | inserted hn hf => exact .new (.mk hn hf) rfl rfl rfl
  | ignored => exact .write (fun n hn ha => .packet) rfl rfl rfl
  | @queued key data filter dir now it hn hf hi hd =>
      refine .write (x := it.addr) (fun n hn ha => ?_) rfl rfl rfl
      rw [hI.table.eq_of_addr (mem_nodes.mpr (.inl hn))
        (mem_nodes.mpr (.inl (ConnTable.find_some hf).1)) ha]
      exact .queued hi hd
  | @handleSet q e m it he hpc hd =>
      refine .write (x := m.info) (f := fun i => { i with handle := e.navlhandle })
        (fun n hn ha => ?_) rfl rfl rfl
      have hm : e.pc.held = some m := by rw [hpc]; rfl
      have hx := live he hm hn ha
      rw [hpc] at hx
      exact .handle (works he hm ha) he hx
  | @created q e m it he hpc hd =>
      refine .write (x := m.info) (f := fun i => { i with dpiState := some s.nextConn })
        (fun n hn ha => ?_) rfl rfl rfl
      have hm : e.pc.held = some m := by rw [hpc]; rfl
      have hx := live he hm hn ha
      rw [hpc] at hx
      exact .conn (works he hm ha) he hx.1 hx.2
  | @reported q e m i it r now he hpc hd hf | @noted q e m i it r now he hpc hd hf =>
      refine .write (x := it.addr) (fun n hn ha => ?_) rfl rfl rfl
      have hm : e.pc.held = some m := by rw [hpc]; rfl
      have ha := found hd hf ha
      have hx := live he hm hn ha
      rw [hpc] at hx
      exact .verdict (works he hm ha) hx.2 hx.1
  | cleanup => exact .erase rfl rfl rfl
  | stopCleanup =>
      refine .erase (p := fun _ => true) ?_ ?_ rfl
      · exact (List.filter_false _).symm
      · exact congrArg (s.erased ++ ·) (List.filter_true _).symm

/-! ### The counter -/

/-- A thread that moves leaves the count, unless it stops being counted. -/
theorem countP_setPc (pc : EnginePc) (he : s.engines[q]? = some e) :
    ((s.setPc q pc).engines.countP fun e => e.pc.counted) + (if e.pc.counted then 1 else 0) =
      (s.engines.countP fun e => e.pc.counted) + if pc.counted then 1 else 0 := by
  obtain ⟨hq, rfl⟩ := List.getElem?_eq_some_iff.mp he
  obtain ⟨l₁, x, l₂, h₁, hl, h₂⟩ := List.exists_of_modify (fun e => { e with pc := pc }) hq
  have hx : s.engines[q] = x := by simp [h₁, ← hl]
  rw [setPc_engines, h₂, hx, h₁]
  simp only [List.countP_append, List.countP_cons]
  omega

theorem Moves.counted {t : List Node} {act : EngineAct} {pc pc' : EnginePc}
    (h : Moves t pc act pc') : pc.counted ∧ pc'.counted := by
  cases h <;> exact ⟨rfl, rfl⟩

/-- A thread is counted up to its failure. -/
theorem Goes.counted {act : EngineAct} {pc pc' : EnginePc} (h : Goes s q pc act pc')
    (ha : act ≠ .throw) : pc.counted = pc'.counted := by
  cases h with
  | thrown => exact absurd rfl ha
  | moved hm => rw [hm.counted.1, hm.counted.2]
  | _ => rfl

theorem Change.numQueues (h : Change s a s')
    (hs : s.numQueues = s.engines.countP fun e => e.pc.counted) :
    s'.numQueues = s'.engines.countP fun e => e.pc.counted := by
  by_cases ht : ∃ q, a = .engine q .throw
  · obtain ⟨q, rfl⟩ := ht
    obtain ⟨e, he, hpc, rfl⟩ := throw_change h
    have hcount := countP_setPc (s := { s with numQueues := s.numQueues - 1 }) .clear he
    have hc : EnginePc.clear.counted = false := rfl
    rw [EnginePc.counted_of_inLoop hpc, hc, if_pos rfl, if_neg Bool.false_ne_true] at hcount
    rw [setPc_numQueues]
    dsimp only at hcount ⊢
    omega
  · rw [h.numQueues_eq fun q k => ht ⟨q, k⟩, hs]
    rcases h.threads with ⟨k, -⟩ | ⟨q, act, e, pc, rfl, he, hg, k⟩
    · rw [k]
    · have hcount := countP_setPc pc he
      rw [hg.counted fun k => ht ⟨q, k ▸ rfl⟩] at hcount
      rw [k]
      omega

/-! ### The queue of a new entry -/

theorem queueIndex_lt (hash : Nat) {numQueues : Int} (h₀ : 0 < numQueues)
    (h : numQueues < 2 ^ 31) :
    0 ≤ queueIndex hash numQueues ∧ queueIndex hash numQueues < numQueues := by
  have hn : numQueues % 2 ^ 64 = numQueues := Int.emod_eq_of_lt (by omega) (by omega)
  have hlt : hash % numQueues.toNat < numQueues.toNat := Nat.mod_lt _ (by omega)
  rw [queueIndex, hn, toInt_of_lt (by omega) (by omega)]
  omega

theorem Inv.numQueues_range (hI : s.Inv inst) :
    0 ≤ s.numQueues ∧ s.numQueues ≤ inst.handles.length := by
  rw [hI.numQueues, ← hI.engines]
  exact ⟨by omega, by exact_mod_cast List.countP_le_length⟩

theorem newNode_queue (key : ConnKey) (filter : Nat) (dir : UInt8) (now : Int) :
    (s.newNode key filter dir now).second.queue = queueIndex (connKeyHasher key) s.numQueues := by
  rw [newNode]

theorem Inv.queue_makes (hI : s.Inv inst) (h : s.Makes a n) :
    0 ≤ n.second.queue ∧ n.second.queue < s.numQueues := by
  obtain ⟨h₀, h₁⟩ := hI.numQueues_range
  cases h with
  | mk hn =>
      rw [newNode_queue]
      exact queueIndex_lt _ (by omega) (Int.lt_of_le_of_lt h₁ (by exact_mod_cast inst.lt))

/-! ### Messages -/

/-- A message stays for its queue: the node it points to stays at its address and in its queue. -/
theorem For.step (h : s.For q m) (hc : NodeChange s a s') : s'.For q m := by
  obtain ⟨hk, n, hn, ha, hq⟩ := h
  obtain ⟨n', hn', k⟩ := hc.forward hn
  exact ⟨hk, n', hn', k.evolves.addr.trans ha, k.evolves.queue.trans hq⟩

theorem Change.message (h : Change s a s') (hI : s.Inv inst) (hm : m ∈ s'.pending q)
    (hx : m.exitFlag = false) : s'.For q m := by
  have hc := h.nodes hI
  have old : m ∈ s.pending q → s'.For q m := fun hm => (hI.message q m hm hx).step hc
  rcases h.pending q with hs | ⟨m', hp, hs⟩
  · exact old (hs.subset hm)
  · rw [hs, List.mem_append, List.mem_singleton] at hm
    rcases hm with hm | rfl
    · exact old hm
    · rcases hp with ⟨-, rfl⟩ | ⟨n, hn, hk, hi, -, hq, -⟩
      · cases hx
      · exact ⟨hk.trans hi.symm, n, mem_nodes.mpr (.inl hn), hi.symm, hq⟩

/-- What a thread holds after a step it held before, or it has just popped it. -/
theorem Change.held (h : Change s a s') (hm : s'.held q = some m) :
    s.held q = some m ∨ m.exitFlag = false := by
  obtain ⟨e, he, hm⟩ := Option.bind_eq_some_iff.mp hm
  rcases h.engine_back he with he | ⟨act, e₀, -, he₀, hg⟩
  · exact .inl ((held_eq he).trans hm)
  · rw [held_eq he₀]
    generalize e₀.pc = pc₀ at hg
    generalize e.pc = pc at hg hm
    cases hg with
    | popped hq hx =>
        cases hm
        exact .inr hx
    | moved hv =>
        rcases hv.held with k | k
        · exact .inl (k ▸ hm)
        · rw [k] at hm
          cases hm
    | handleSet | called => exact .inl hm
    | exits | created | returned | thrown | cleared => cases hm

/-! ### Threads -/

/-- What a thread knows outlives the steps of the others: they do not work on its entry. -/
theorem Inv.expects_other (hI : s.Inv inst) (hc : NodeChange s a s')
    (hne : ∀ act, a ≠ .engine q act) (he : s.engines[q]? = some e) (hm : e.pc.held = some m)
    (hn' : n' ∈ s'.nodes) (ha : n'.addr = m.info) : e.pc.Expects e.navlhandle n'.second := by
  obtain ⟨-, n₀, hn₀, ha₀, hq₀⟩ := hI.for_held ((held_eq he).trans hm)
  rcases hc.back hn' with ⟨n, hn, k⟩ | hm'
  · have hn₀' : n = n₀ :=
      hI.table.eq_of_addr hn hn₀ ((k.evolves.addr.symm.trans ha).trans ha₀.symm)
    have hu := k.unworked fun q' act hq' hw => by
      have hqq : (q' : Int) = q := (hI.queue_of_works hn hw).symm.trans (hn₀' ▸ hq₀)
      exact hne act (by rw [hq', Int.ofNat_inj.mp hqq])
    exact (hI.expects q e m he hm n hn (k.evolves.addr.symm.trans ha)).congr hu.1 hu.2.1 hu.2.2
  · exact absurd (hI.table.addr_lt n₀ hn₀) (by rw [ha₀, ← ha, hm'.addr]; exact Nat.lt_irrefl _)

/-- What a thread knows after a statement of its own. -/
theorem Inv.expects_own {act : EngineAct} (hI : s.Inv inst) (h : Change s (.engine q act) s')
    (he : s'.engines[q]? = some e) (hm : e.pc.held = some m) (hn : n ∈ s'.nodes)
    (ha : n.addr = m.info) : e.pc.Expects e.navlhandle n.second := by
  have self : ∀ {s₁ : Sys} {e₁ : Engine} {pc : EnginePc}, s₁.engines = s.engines →
      s.engines[q]? = some e₁ → (s₁.setPc q pc).engines[q]? = some e → e = { e₁ with pc } :=
    fun {s₁ e₁ pc} k he₁ h => by
      rw [engines_setPc (s := s₁) (e := e₁) (k ▸ he₁), if_pos rfl] at h
      exact (Option.some.inj h).symm
  cases h with
  | popped he₁ => cases self rfl he₁ he; trivial
  | exits he₁ | createFailed he₁ | created he₁ | unfound he₁ | reported he₁ | noted he₁
  | thrown he₁ | cleared he₁ => cases self rfl he₁ he; cases hm
  | @moved _ e₁ _ pc he₁ hv =>
      cases self rfl he₁ he
      generalize e₁.pc = pc₁ at hv
      cases hv with
      -- what the thread has just read it knows of the entry, for as long as it is there
      | stateNull hd hx | stateSome hd hx => cases hm; rwa [hI.eq_of_deref hd hn ha]
      | guardPass hd hx =>
          cases hm
          have hi := hI.eq_of_deref hd hn ha
          simp only [classifiable, Bool.and_eq_true, beq_iff_eq, Option.isSome_iff_ne_none] at hx
          exact hi ▸ ⟨hx.1.2, hx.2⟩
      | guardFail | noVerdict => cases hm
  | @handleSet _ e₁ m₁ it he₁ hpc hd =>
      cases self rfl he₁ he
      cases hm
      have known := hI.expects q e₁ m he₁ (by rw [hpc]; rfl)
      rw [hpc] at known
      rcases mem_nodes.mp hn with hn | hn
      · rw [setPc_connTable, update_connTable, ConnTable.mem_update] at hn
        obtain ⟨n₁, hn₁, rfl⟩ := hn
        split at ha
        · rw [if_pos ‹_›]
          exact ⟨known n₁ (mem_nodes.mpr (.inl hn₁)) ha, rfl⟩
        · exact absurd ha ‹_›
      · -- an erased entry does not have the address of a live one
        obtain ⟨hit, hx⟩ := ConnTable.deref_some hd
        exact absurd (List.mem_map_of_mem hn) (ha.trans hx.symm ▸ hI.table.not_erased hit)
  | @called _ e₁ m₁ it he₁ hpc hd =>
      cases self rfl he₁ he
      cases hm
      have known := hI.expects q e₁ m he₁ (by rw [hpc]; rfl) n hn ha
      rwa [hpc] at known

theorem Change.expects (h : Change s a s') (hI : s.Inv inst) (he : s'.engines[q]? = some e)
    (hm : e.pc.held = some m) (hn : n ∈ s'.nodes) (ha : n.addr = m.info) :
    e.pc.Expects e.navlhandle n.second := by
  by_cases hne : ∃ act, a = .engine q act
  · obtain ⟨act, rfl⟩ := hne
    exact hI.expects_own h he hm hn ha
  · have hne : ∀ act, a ≠ .engine q act := fun act k => hne ⟨act, k⟩
    rw [h.engine_of_ne hne] at he
    exact hI.expects_other (h.nodes hI) hne he hm hn ha

/-! ### Handles and verdicts -/

theorem Next.handle_eq (k : s.Next n a n') (hI : s.Inv inst) (hn : n ∈ s.nodes)
    (hd : n'.second.dpiState ≠ none) :
    ∃ e, s.engines[n'.second.queue.toNat]? = some e ∧ n'.second.handle = e.navlhandle := by
  have old := hI.handle n hn
  cases k with
  | same | packet | queued | verdict => exact old hd
  | handle hw he hd' => exact absurd hd' hd
  | @conn q e hw he hd' hh =>
      refine ⟨e, ?_, hh⟩
      rw [show n.second.queue = q from hI.queue_of_works hn hw, Int.toNat_natCast]
      exact he

theorem Next.verdict_refCnt (k : s.Next n a n')
    (old : n.second.classState ≠ .inspecting → n.second.dpiState ≠ none ∧ n.second.pktRefCnt = 0)
    (hc : n'.second.classState ≠ .inspecting) :
    n'.second.dpiState ≠ none ∧ n'.second.pktRefCnt = 0 := by
  cases k with
  | same | packet | handle => exact old hc
  | queued hi => exact absurd hi hc
  | conn => exact ⟨Option.some_ne_none _, (old hc).2⟩
  | verdict hw hi hd => exact ⟨hd, if_pos hi⟩

/-! ### Every step, every run -/

theorem Change.inv (h : Change s a s') (hI : s.Inv inst) : s'.Inv inst := by
  have hc := h.nodes hI
  refine
    { table := hc.tableOk hI.table
      queues := h.queues_length.trans hI.queues
      engines := h.engines_length.trans hI.engines
      numQueues := h.numQueues hI.numQueues
      queue_lt := fun n' hn' => ?_
      held := fun q m hm => (h.held hm).elim (hI.held q m) id
      message := fun q m hm hx => h.message hI hm hx
      expects := fun q e m he hm n hn ha => h.expects hI he hm hn ha
      handle := fun n' hn' hd => ?_
      verdict := fun n' hn' hv => ?_ }
  · rcases hc.back hn' with ⟨n, hn, k⟩ | hm
    · exact k.evolves.queue ▸ hI.queue_lt n hn
    · obtain ⟨h₀, h₁⟩ := hI.queue_makes hm
      exact ⟨h₀, Int.lt_of_lt_of_le h₁ hI.numQueues_range.2⟩
  · rcases hc.back hn' with ⟨n, hn, k⟩ | hm
    · obtain ⟨e, he, hh⟩ := k.handle_eq hI hn hd
      obtain ⟨pc, he'⟩ := h.engine he
      exact ⟨{ e with pc }, he', hh⟩
    · cases hm; exact absurd rfl hd
  · rcases hc.back hn' with ⟨n, hn, k⟩ | hm
    · exact k.verdict_refCnt (hI.verdict n hn) hv
    · cases hm; exact absurd rfl hv

/-- **Every reachable state satisfies the invariant.** -/
theorem reachable {as : List Act} (h : system.Run (init inst) as s) : s.Inv inst :=
  h.invariant (fun _ _ _ hI hs => (step_change hs).inv hI) (inv_init inst)

/-- A node there has been stays, and evolves. -/
theorem Inv.evolves {as : List Act} (hI : s.Inv inst) (h : system.Run s as s') (hn : n ∈ s.nodes) :
    ∃ n' ∈ s'.nodes, n.Evolves n' := by
  have := h.related (R := fun s s' => ∀ n ∈ s.nodes, ∃ n' ∈ s'.nodes, n.Evolves n')
    (I := Sys.Inv inst) (fun _ n hn => ⟨n, hn, .refl n⟩)
    (fun _ _ _ h₁ h₂ n hn => by
      obtain ⟨n₁, hn₁, k₁⟩ := h₁ n hn
      obtain ⟨n₂, hn₂, k₂⟩ := h₂ n₁ hn₁
      exact ⟨n₂, hn₂, k₁.trans k₂⟩)
    (fun _ _ _ hI hs => (step_change hs).inv hI)
    (fun _ _ _ hI hs n hn => by
      obtain ⟨n', hn', k⟩ := ((step_change hs).nodes hI).forward hn
      exact ⟨n', hn', k.evolves⟩) hI
  exact this n hn

end Sys
end DistDpi
