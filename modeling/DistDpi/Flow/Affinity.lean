import DistDpi.Flow.Log

/-!
# Flow — affinity

A connection belongs to one thread: the index stored in its entry is that of a queue, all its
messages go there, and that queue's thread alone creates and feeds the navl connection.

The create is attempted once because of two tests: `InsertOrUpdateFlows` queues no second message
while `dpi_state` is `NULL`, and `Dequeue` creates only then.  So while an entry has no
connection, the attempts made and the messages still pending for it are at most one together
(`CreateOk`).
-/

namespace DistDpi

/-- A `navl_conn_create` for the node at `x`. -/
def Event.creates (x : NodeId) : Event → Bool
  | .connCreate _ _ _ _ _ node _ => node == x
  | _ => false

namespace Sys

variable {inst : Instances} {s s' : Sys} {a : Act} {q : Nat} {n n' : Node} {m : ConnMetadata}
  {x : NodeId}

/-- The attempts at `navl_conn_create` for the node at `x`. -/
def creates (s : Sys) (x : NodeId) : Nat := s.count (Event.creates x)

/-- The messages pending for a node. -/
def waiting (s : Sys) (n : Node) : Nat :=
  (s.pending n.second.queue.toNat).countP fun m => !m.exitFlag && m.info == n.addr

/-- An entry has been given one attempt; without a connection, one message or one attempt. -/
def CreateOk (s : Sys) : Prop :=
  ∀ n ∈ s.nodes, s.creates n.addr ≤ 1 ∧
    (n.second.dpiState = none → s.creates n.addr + s.waiting n ≤ 1)

/-- A thread that creates gives up the message it works on. -/
theorem Change.pending_create {e : Engine} {ok : Bool} (h : Change s (.engine q (.create ok)) s')
    (he : s.engines[q]? = some e) (hpc : e.pc = .create m) :
    s.pending q = m :: s'.pending q := by
  have held : s.held q = some m := by rw [held_eq he, hpc]; rfl
  have done : ∀ {s₁ : Sys} {e₁ : Engine}, s₁.engines = s.engines →
      s₁.dpiEngineQueueList = s.dpiEngineQueueList → s.engines[q]? = some e₁ →
      s.pending q = m :: (s₁.setPc q .pop).pending q := fun {s₁ e₁} k kq he₁ => by
    rw [Sys.pending, held, Sys.pending, held_setPc (s := s₁) (e := e₁) (k ▸ he₁), if_pos rfl,
      queue, queue, setPc_dpiEngineQueueList, kq]
    rfl
  cases h with
  | moved he₁ hv => rcases hv.act with h | h | h <;> cases h
  | createFailed he₁ | created he₁ => exact done rfl rfl he₁

/-- A node at hand to the thread that creates for it. -/
theorem waiting_pos (hI : s.Inv inst) (hn : n ∈ s.nodes) (hm : s.held q = some m)
    (ha : n.addr = m.info) : 0 < s.waiting n := by
  rw [waiting, hI.queue_of_works hn ⟨m, hm, ha.symm⟩, Int.toNat_natCast]
  refine List.countP_pos_iff.mpr ⟨m, held_mem_pending hm, ?_⟩
  simp [hI.held q m hm, ha]

/-- A `navl_conn_create` spends a message of its entry. -/
theorem Change.waiting_create {e : Engine} {ok : Bool} (h : Change s (.engine q (.create ok)) s')
    (hI : s.Inv inst) (he : s.engines[q]? = some e) (hpc : e.pc = .create m) (hn : n ∈ s.nodes)
    (ha : n.addr = m.info) (k : s.Next n (.engine q (.create ok)) n') :
    s'.waiting n' + 1 = s.waiting n := by
  have held : s.held q = some m := by rw [held_eq he, hpc]; rfl
  have hq := hI.queue_of_works hn ⟨m, held, ha.symm⟩
  rw [waiting, waiting, k.evolves.queue, k.evolves.addr, hq, Int.toNat_natCast,
    h.pending_create he hpc, List.countP_cons, if_pos]
  simp [hI.held q m held, ha]

/-- No step adds to what is pending for an entry that has no connection and stays so. -/
theorem Change.waiting_le (h : Change s a s') (hI : s.Inv inst) (hn : n ∈ s.nodes)
    (k : s.Next n a n') (hn' : n' ∈ s'.nodes) (hd : n'.second.dpiState = none) :
    s'.waiting n' ≤ s.waiting n := by
  rw [waiting, waiting, k.evolves.queue, k.evolves.addr]
  rcases h.pending n.second.queue.toNat with hs | ⟨m, hp, hs⟩
  · exact hs.countP_le
  · rw [hs, List.countP_append]
    suffices hm : ¬ (!m.exitFlag && m.info == n.addr) = true by simp [hm]
    intro hm
    simp only [Bool.and_eq_true, Bool.not_eq_true', beq_iff_eq] at hm
    rcases hp with ⟨-, rfl⟩ | ⟨n₁, hn₁, -, hi, -, -, hnew⟩
    · cases hm.1
    · have ha : n₁.addr = n'.addr := hi.symm.trans (hm.2.trans k.evolves.addr.symm)
      have he : n₁ = n' :=
        ((h.nodes hI).tableOk hI.table).eq_of_addr (mem_nodes.mpr (.inl hn₁)) hn' ha
      rcases hnew with hnew | hnew
      · exact absurd (hI.table.addr_lt n hn) (by rw [← hnew, ← hi, hm.2]; exact Nat.lt_irrefl _)
      · exact hnew (he ▸ hd)

/-- The entry a packet makes has its first message pending, and no other. -/
theorem Change.waiting_makes (h : Change s a s') (hI : s.Inv inst) (hm : s.Makes a n) :
    s'.waiting n ≤ 1 := by
  have none : (s.pending n.second.queue.toNat).countP
      (fun m => !m.exitFlag && m.info == n.addr) = 0 := by
    refine List.countP_eq_zero.mpr fun m hp hx => ?_
    simp only [Bool.and_eq_true, Bool.not_eq_true', beq_iff_eq] at hx
    obtain ⟨-, n₁, hn₁, ha, -⟩ := hI.message _ m hp hx.1
    exact absurd (hI.table.addr_lt n₁ hn₁) (by rw [ha, hx.2, hm.addr]; exact Nat.lt_irrefl _)
  rw [waiting]
  rcases h.pending n.second.queue.toNat with hs | ⟨m, -, hs⟩
  · exact Nat.le_trans hs.countP_le (by rw [none]; exact Nat.zero_le 1)
  · rw [hs, List.countP_append, none, Nat.zero_add]
    exact List.countP_le_length

/-- Only a `navl_conn_create` adds to the attempts, for the entry at hand. -/
theorem Emits.creates {evs : List Event} (h : s.Emits a s' evs) :
    evs.countP (Event.creates x) = 0 ∨ ∃ q e m it ok, a = .engine q (.create ok) ∧
      s.engines[q]? = some e ∧ e.pc = .create m ∧ it ∈ s.connTable ∧ it.addr = m.info ∧
      evs.countP (Event.creates x) = if it.addr = x then 1 else 0 := by
  cases h with
  | silent | inserted | ignored | queued | called | reported => exact .inl rfl
  | idle | final => exact .inl (countP_map_destroyCall (fun _ _ => rfl) _)
  | create he hpc hit ha =>
      refine .inr ⟨_, _, _, _, _, rfl, he, hpc, hit, ha, ?_⟩
      simp [Event.creates, List.countP_cons]

theorem Change.createOk (h : Change s a s') (hI : s.Inv inst) (hL : ∀ ev ∈ s.log, ev.Ok s)
    (hC : s.CreateOk) : s'.CreateOk := by
  obtain ⟨evs, hlog, hem⟩ := h.emits hI
  intro n' hn'
  have total : ∀ x, s'.creates x = s.creates x + evs.countP (Event.creates x) := fun _ =>
    count_append hlog
  rw [total]
  rcases (h.nodes hI).back hn' with ⟨n, hn, k⟩ | hm
  · obtain ⟨h₁, h₂⟩ := hC n hn
    have hle := fun hd => h.waiting_le hI hn k hn' hd
    have hd' : n'.second.dpiState = none → n.second.dpiState = none := fun hd => by
      by_contra hne
      exact hne ((k.evolves.conn hne).1 ▸ hd)
    rw [k.evolves.addr]
    -- an attempt spends a message, and no message comes before the connection is there
    rcases hem.creates (x := n.addr) with h₀ | ⟨q, e, m, it, ok, rfl, he, hpc, hit, ha, hc⟩
    · rw [h₀]
      exact ⟨h₁, fun hd => by have := hle hd; have := h₂ (hd' hd); omega⟩
    · by_cases hx : it.addr = n.addr
      · -- the one message of the entry is spent on the one attempt
        have hin := hI.table.eq_of_addr (mem_nodes.mpr (.inl hit)) hn hx
        have held : s.held q = some m := by rw [held_eq he, hpc]; rfl
        have known := hI.expects_live he (by rw [hpc]; rfl) hit ha
        rw [hpc, hin] at known
        have pos := waiting_pos hI hn held (hin ▸ ha)
        have spent := h.waiting_create hI he hpc hn (hin ▸ ha) k
        have := h₂ known.1
        rw [hc, if_pos hx]
        exact ⟨by omega, fun _ => by omega⟩
      · rw [hc, if_neg hx]
        exact ⟨h₁, fun hd => by have := hle hd; have := h₂ (hd' hd); omega⟩
  · -- nothing has been attempted for an address not given out yet
    have old : s.creates n'.addr = 0 := by
      refine List.countP_eq_zero.mpr fun ev hev hx => ?_
      cases ev with
      | connCreate _ _ _ _ _ node _ =>
          obtain ⟨n, hn, ha, -⟩ := hL _ hev
          exact absurd (hI.table.addr_lt n hn)
            (by rw [ha, beq_iff_eq.mp hx, hm.addr]; exact Nat.lt_irrefl _)
      | _ => cases hx
    have new : evs.countP (Event.creates n'.addr) = 0 := by
      rcases hem.creates (x := n'.addr) with h₀ | ⟨q, e, m, it, ok, rfl, -⟩
      · exact h₀
      · cases hm
    rw [old, new]
    exact ⟨by omega, fun _ => by have := h.waiting_makes hI hm; omega⟩

theorem reachable_createOk {as : List Act} (h : system.Run (init inst) as s) : s.CreateOk := by
  have start : (init inst).CreateOk := fun _ hn => by simp [init, nodes] at hn
  have log : ∀ ev ∈ (init inst).log, ev.Ok (init inst) := fun _ h => by cases h
  refine (h.invariant (I := fun s => s.Inv inst ∧ (∀ ev ∈ s.log, ev.Ok s) ∧ s.CreateOk) ?_
    ⟨inv_init inst, log, start⟩).2.2
  rintro s a s' ⟨hI, hL, hC⟩ hs
  have hs := step_change hs
  exact ⟨hs.inv hI, hs.log_ok hI hL, hs.createOk hI hL hC⟩

/-- **Engine affinity.** -/
theorem engine_affinity {as : List Act} (h : system.Run (init inst) as s) :
    (0 ≤ s.numQueues ∧ s.numQueues ≤ s.dpiEngineQueueList.length) ∧
    (∀ it ∈ s.connTable, 0 ≤ it.second.queue ∧ it.second.queue < s.dpiEngineQueueList.length) ∧
    (∀ q, ∀ m ∈ s.queue q, m.exitFlag = false →
      m.key = m.info ∧ ∃ it ∈ s.nodes, it.addr = m.info ∧ it.second.queue = q) ∧
    (s.nodes.map Node.addr).Nodup ∧
    ∀ it ∈ s.nodes,
      s.creates it.addr ≤ 1 ∧
      (∀ (q : Nat) handle src dst ipproto nc,
        .connCreate q handle src dst ipproto it.addr nc ∈ s.log → it.second.queue = q) ∧
      ∀ (q : Nat) handle data nc dir, .classify q handle data nc dir it.addr ∈ s.log →
        it.second.queue = q ∧ it.second.handle = handle := by
  have hI := reachable h
  have hL := reachable_log h
  refine ⟨hI.queues ▸ hI.numQueues_range, fun it hit => hI.queues ▸ hI.queue_lt it
    (mem_nodes.mpr (.inl hit)), fun q m hm => hI.message q m (List.mem_append_right _ hm),
    hI.table.addr_nodup, fun it hit => ⟨(reachable_createOk h it hit).1, ?_, ?_⟩⟩
  · intro q handle src dst ipproto nc hev
    obtain ⟨n, hn, ha, hq, -⟩ := hL _ hev
    exact hI.table.eq_of_addr hn hit ha ▸ hq
  · intro q handle data nc dir hev
    obtain ⟨n, hn, ha, hq, -, -, hh⟩ := hL _ hev
    exact hI.table.eq_of_addr hn hit ha ▸ ⟨hq, hh⟩

theorem engine_affinity_decided : ∃ it ∈ decidedState.nodes, it.addr = 0 ∧
    decidedState.creates 0 = 1 ∧ decidedState.creates it.addr ≤ 1 ∧
    .classify 0 7 [2] (some 0) 1 0 ∈ decidedState.log ∧ it.second.handle = 7 := by
  obtain ⟨it, hit, ha⟩ : ∃ it ∈ decidedState.nodes, it.addr = 0 := by decide
  obtain ⟨-, -, -, -, h⟩ := engine_affinity run_decided
  obtain ⟨h₁, -, h₂⟩ := h it hit
  have hev : Event.classify 0 7 [2] (some 0) 1 0 ∈ decidedState.log := by decide
  exact ⟨it, hit, ha, by decide, h₁, hev, (h₂ _ _ _ _ _ (ha ▸ hev)).2⟩

end Sys
end DistDpi
