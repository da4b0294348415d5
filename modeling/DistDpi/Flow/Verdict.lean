import DistDpi.Flow.Log

/-!
# Flow — verdicts

A connection is reported once, when the callback takes its entry from `INSPECTING` to
`CLASSIFIED` or `TERMINATED`.  The thread of its queue tests `class_state` before it calls navl,
no other thread works on the entry, and the lookup in the callback finds that same entry; so the
callback always finds it `INSPECTING` (`Change.callback`), and what it decides is final.
-/

namespace DistDpi

/-- `CLASSIFIED` or `TERMINATED`. -/
def NavlState.Decided (c : NavlState) : Prop := c = .classified ∨ c = .terminated

instance (c : NavlState) : Decidable c.Decided := inferInstanceAs (Decidable (_ ∨ _))

theorem NavlState.not_decided_inspecting : ¬ NavlState.inspecting.Decided := by decide

/-- A push on `updateDPQueue_` for the node at `x`. -/
def Event.reports (x : NodeId) : Event → Bool
  | .report node _ => node == x
  | _ => false

/-- A push on a DPI queue for the node at `x`. -/
def Event.enqueues (x : NodeId) : Event → Bool
  | .enqueue _ _ m => m.info == x
  | _ => false

/-- What is pushed on `updateDPQueue_`. -/
def Event.reported : Event → Option DPIFlowData
  | .report _ data => some data
  | _ => none

namespace Sys

variable {inst : Instances} {s s' : Sys} {a : Act} {q : Nat} {n n' : Node} {m : ConnMetadata}
  {x : NodeId} {evs : List Event}

/-- How often the node at `x` has been reported. -/
def reports (s : Sys) (x : NodeId) : Nat := s.count (Event.reports x)

/-- How many messages have been pushed for the node at `x`. -/
def enqueues (s : Sys) (x : NodeId) : Nat := s.count (Event.enqueues x)

/-! ### The tests of `cleanupFlows` -/

theorem decided_of_finished (h : finished n) : n.second.classState.Decided := by
  simp only [finished, Bool.and_eq_true, Bool.or_eq_true, beq_iff_eq] at h
  exact h.2

/-- The count is zero on every entry that is decided: the test of it finds nothing. -/
theorem finished_iff (hI : s.Inv inst) (hn : n ∈ s.nodes) :
    finished n ↔ n.second.classState.Decided := by
  refine ⟨decided_of_finished, fun h => ?_⟩
  have hc : n.second.classState ≠ .inspecting := fun hc =>
    NavlState.not_decided_inspecting (hc ▸ h)
  simp only [finished, Bool.and_eq_true, Bool.or_eq_true, beq_iff_eq]
  exact ⟨(hI.verdict n hn hc).2, h⟩

theorem idle_iff {now : Int} : Sys.idle now n ↔ n.second.classState = .inspecting ∧
    now - n.second.lastpacketTimestamp > 10 := by
  simp [Sys.idle]

theorem not_decided_of_idle {now : Int} (h : Sys.idle now n) : ¬ n.second.classState.Decided := by
  rw [(idle_iff.mp h).1]
  exact NavlState.not_decided_inspecting

/-- An entry that `cleanupFlows(false)` does not erase is `MONITORING`, or `INSPECTING` with a
timestamp of the last ten seconds. -/
theorem expired_eq_false_iff (hI : s.Inv inst) (hn : n ∈ s.nodes) {now : Int} :
    expired now n = false ↔ n.second.classState = .monitoring ∨
      n.second.classState = .inspecting ∧ now - n.second.lastpacketTimestamp ≤ 10 := by
  rw [expired, Bool.or_eq_false_iff, ← Bool.not_eq_true, finished_iff hI hn, ← Bool.not_eq_true,
    idle_iff]
  cases hc : n.second.classState <;> simp [NavlState.Decided]

/-! ### The callback -/

theorem Next.classState (k : s.Next n a n') :
    n'.second.classState = n.second.classState ∨ ∃ q r now, a = .engine q (.callback r now) ∧
      s.Works q n ∧ n.second.classState = .inspecting ∧ n'.second.classState = r.state := by
  cases k with
  | same | packet | queued | handle | conn => exact .inl rfl
  | verdict hw hi => exact .inr ⟨_, _, _, rfl, hw, hi, rfl⟩

/-- The callback writes to the entry of the thread's message, found `INSPECTING`, and reports it
where it is decided. -/
theorem Change.callback {r : Verdict} {now : Int} (h : Change s (.engine q (.callback r now)) s')
    (hI : s.Inv inst) : ∃ it ∈ s.connTable, s.Works q it ∧
      it.second.classState = .inspecting ∧ it.second.dpiState ≠ none ∧
      { it with second := classifiedInfo r now it.second } ∈ s'.connTable ∧
      s'.log = s.log ++ if r.state.Decided then
        [.connDestroy it.second.handle it.second.dpiState, .report it.addr (flowData it s.name r)]
        else [] := by
  have found : ∀ {e : Engine} {m : ConnMetadata} {i : Node}, s.engines[q]? = some e →
      e.pc = .callback m → ConnTable.deref s.connTable m.info = some i →
      ConnTable.find s.connTable i.second.key = some i ∧ i ∈ s.connTable ∧ s.Works q i ∧
        i.second.classState = .inspecting ∧ i.second.dpiState ≠ none :=
    fun {e m i} he hpc hd => by
      obtain ⟨hi, ha⟩ := ConnTable.deref_some hd
      have hm : e.pc.held = some m := by rw [hpc]; rfl
      have known := hI.expects_live he hm hi ha
      rw [hpc] at known
      exact ⟨hI.table.find_key hi, hi, ⟨m, (held_eq he).trans hm, ha.symm⟩, known.2, known.1⟩
  cases h with
  | moved he hv => rcases hv.act with h | h | h <;> cases h
  | unfound he hpc hd hf =>
      rw [(found he hpc hd).1] at hf
      cases hf
  | reported he hpc hd hf hr =>
      obtain ⟨hf', hit, hw, hi, hd'⟩ := found he hpc hd
      cases hf'.symm.trans hf
      refine ⟨_, hit, hw, hi, hd', ConnTable.update_of_mem hit rfl, ?_⟩
      rw [if_pos (show NavlState.Decided _ from hr)]
      rfl
  | noted he hpc hd hf hr =>
      obtain ⟨hf', hit, hw, hi, hd'⟩ := found he hpc hd
      cases hf'.symm.trans hf
      refine ⟨_, hit, hw, hi, hd', ConnTable.update_of_mem hit rfl, ?_⟩
      rw [if_neg (show ¬ NavlState.Decided _ from hr), List.append_nil]
      rfl

/-- Only a callback reports. -/
theorem Emits.reports (h : s.Emits a s' evs) (ha : ∀ q r now, a ≠ .engine q (.callback r now)) :
    evs.countP (Event.reports x) = 0 := by
  cases h with
  | silent | inserted | ignored | queued | create | called => rfl
  | reported => exact absurd rfl (ha _ _ _)
  | idle | final => exact countP_map_destroyCall (fun _ _ => rfl) _

/-- **A step and the reports of an entry.**  It reports the entry exactly when it takes it from
`INSPECTING` to a decision, and only the callback does. -/
theorem Change.reports (h : Change s a s') (hI : s.Inv inst) (hn : n ∈ s.nodes)
    (hn' : n' ∈ s'.nodes) (ha : n'.addr = n.addr) :
    (s'.reports n.addr = s.reports n.addr ∧
      (n'.second.classState.Decided ↔ n.second.classState.Decided)) ∨
    (s'.reports n.addr = s.reports n.addr + 1 ∧ n.second.classState = .inspecting ∧
      n'.second.classState.Decided ∧
      ∃ q r now, a = .engine q (.callback r now) ∧ n'.second.classState = r.state) := by
  have hc := h.nodes hI
  have hT := hc.tableOk hI.table
  obtain ⟨n₁, hn₁, k⟩ := hc.forward hn
  cases hT.eq_of_addr hn₁ hn' (k.evolves.addr.trans ha.symm)
  by_cases hcb : ∃ q r now, a = .engine q (.callback r now)
  · obtain ⟨q, r, now, rfl⟩ := hcb
    obtain ⟨it, hit, hw, hi, -, hit', hlog⟩ := h.callback hI
    rw [show s'.reports n.addr = s.reports n.addr + _ from count_append hlog]
    by_cases hx : it.addr = n.addr
    · cases hI.table.eq_of_addr (mem_nodes.mpr (.inl hit)) hn hx
      cases hT.eq_of_addr (mem_nodes.mpr (.inl hit')) hn' ha.symm
      by_cases hr : r.state.Decided
      · refine .inr ⟨?_, hi, hr, q, r, now, rfl, rfl⟩
        simp [hr, Event.reports]
      · refine .inl ⟨by simp [hr], ?_⟩
        rw [hi]
        exact ⟨fun h => absurd h hr, fun h => absurd h NavlState.not_decided_inspecting⟩
    · -- the thread works on one entry, which is not this one
      have same : n'.second.classState = n.second.classState := by
        rcases k.classState with h | ⟨q', _, _, hq, hw', -⟩
        · exact h
        · cases hq
          exact absurd (hw.addr_eq hw') hx
      refine .inl ⟨?_, by rw [same]⟩
      split <;> simp [Event.reports, hx]
  · have hcb : ∀ q r now, a ≠ .engine q (.callback r now) := fun q r now e => hcb ⟨q, r, now, e⟩
    obtain ⟨evs, hlog, hem⟩ := h.emits hI
    rw [show s'.reports n.addr = s.reports n.addr + _ from count_append hlog, hem.reports hcb,
      Nat.add_zero]
    rcases k.classState with h | ⟨q, r, now, e, -⟩
    · exact .inl ⟨rfl, by rw [h]⟩
    · exact absurd e (hcb q r now)

/-! ### Over a run -/

/-- An address not given out yet is in no report, and no entry. -/
theorem reports_eq_zero (hI : s.Inv inst) (hL : ∀ ev ∈ s.log, ev.Ok s) (hx : s.nextNode ≤ x) :
    s.reports x = 0 := by
  refine List.countP_eq_zero.mpr fun ev hev he => ?_
  cases ev with
  | report node _ =>
      obtain ⟨n, hn, ha, -⟩ := hL _ hev
      have := hI.table.addr_lt n hn
      rw [ha, beq_iff_eq.mp he] at this
      exact Nat.lt_irrefl _ (Nat.lt_of_lt_of_le this hx)
  | _ => cases he

/-- An entry has been reported once if it is decided, and not if it is not. -/
def ReportOk (s : Sys) : Prop :=
  ∀ n ∈ s.nodes, s.reports n.addr = if n.second.classState.Decided then 1 else 0

theorem Change.reportOk (h : Change s a s') (hI : s.Inv inst) (hL : ∀ ev ∈ s.log, ev.Ok s)
    (hR : s.ReportOk) : s'.ReportOk := fun n' hn' => by
  rcases (h.nodes hI).back hn' with ⟨n, hn, k⟩ | hm
  · have old := hR n hn
    rw [k.evolves.addr]
    rcases h.reports hI hn hn' k.evolves.addr with ⟨hr, hd⟩ | ⟨hr, hi, hd, -⟩
    · rw [hr, old]
      simp only [hd]
    · rw [hr, old, hi, if_pos hd, if_neg NavlState.not_decided_inspecting]
  · obtain ⟨evs, hlog, hem⟩ := h.emits hI
    have hcb : ∀ q r now, a ≠ .engine q (.callback r now) := fun _ _ _ e => by
      rw [e] at hm
      cases hm
    rw [show s'.reports n'.addr = s.reports n'.addr + _ from count_append hlog, hem.reports hcb,
      hm.addr, reports_eq_zero hI hL (Nat.le_refl _)]
    cases hm
    exact (if_neg NavlState.not_decided_inspecting).symm

/-- Every entry was made by a packet. -/
def MadeOk (s : Sys) : Prop :=
  ∀ n ∈ s.nodes, ∃ key data filter dir now, .inserted n.addr key data filter dir now ∈ s.log

theorem Change.madeOk (h : Change s a s') (hI : s.Inv inst) (hM : s.MadeOk) : s'.MadeOk :=
  fun n' hn' => by
  rcases (h.nodes hI).back hn' with ⟨n, hn, k⟩ | hm
  · obtain ⟨evs, hlog, -⟩ := h.emits hI
    obtain ⟨key, data, filter, dir, now, hev⟩ := hM n hn
    rw [hlog, k.evolves.addr]
    exact ⟨key, data, filter, dir, now, List.mem_append_left _ hev⟩
  · cases hm with
    | @mk key data filter dir now hn hf =>
        refine ⟨key, data, filter, dir, now, ?_⟩
        cases h with
        | dropped h => exact absurd h hn
        | inserted => exact List.mem_append_right _ (List.mem_cons_self ..)
        | ignored _ hf' | queued _ hf' => rw [hf] at hf'; cases hf'

/-- The datapath's queue holds the reports, and exit messages. -/
def QueueOk (s : Sys) : Prop :=
  s.updateDPQueue.filter (fun d => !d.exitFlag) = s.log.filterMap Event.reported

theorem Change.queueOk (h : Change s a s') (hQ : s.QueueOk) : s'.QueueOk := by
  have log : ∀ {s₁ : Sys} {evs : List Event}, s₁.updateDPQueue = s.updateDPQueue →
      s₁.log = s.log ++ evs → evs.filterMap Event.reported = [] → s₁.QueueOk :=
    fun {s₁ evs} hd hl he => by
      rw [QueueOk, hd, hl, List.filterMap_append, he, List.append_nil]
      exact hQ
  cases h with
  | dropped | popped | exits | moved | handleSet | unfound | noted | thrown | cleared
  | stopPush => exact hQ
  | inserted | ignored | queued | createFailed | created | called => exact log rfl rfl rfl
  | cleanup | stopCleanup => exact log rfl rfl (filterMap_destroyCall (fun _ _ => rfl) _)
  | reported =>
      simp only [QueueOk, setPc_updateDPQueue, emit_updateDPQueue, setPc_log, emit_log,
        List.filter_append, List.filterMap_append]
      exact congrArg₂ _ hQ rfl
  | stopMoved hm =>
      cases hm with
      | join | done => exact hQ
      | tell => exact (List.filter_append ..).trans ((List.append_nil _).trans hQ)

/-- **No message for an entry with a verdict.** -/
theorem Change.enqueues (h : Change s a s') (hI : s.Inv inst) (hn : n ∈ s.nodes)
    (hc : n.second.classState ≠ .inspecting) : s'.enqueues n.addr = s.enqueues n.addr := by
  obtain ⟨evs, hlog, hem⟩ := h.emits hI
  rw [Sys.enqueues, count_append hlog]
  refine Nat.add_eq_left.mpr ?_
  cases hem with
  | silent | ignored | create | called | reported => rfl
  | idle | final => exact countP_map_destroyCall (fun _ _ => rfl) _
  | @inserted key data filter dir now =>
      have : ¬ s.nextNode = n.addr := fun e => Nat.lt_irrefl _ (e ▸ hI.table.addr_lt n hn)
      simp [Event.enqueues, metadata, newNode, this]
  | @queued key data filter dir now _ it _ hf hi =>
      have : ¬ it.addr = n.addr := fun e => by
        cases hI.table.eq_of_addr (mem_nodes.mpr (.inl (ConnTable.find_some hf).1)) hn e
        exact hc hi
      simp [Event.enqueues, metadata, nextMetadata, this]

theorem reachable_reports {as : List Act} (h : system.Run (init inst) as s) :
    s.ReportOk ∧ s.MadeOk ∧ s.QueueOk := by
  have start : (init inst).ReportOk ∧ (init inst).MadeOk ∧ (init inst).QueueOk :=
    ⟨fun _ hn => by simp [init, nodes] at hn, fun _ hn => by simp [init, nodes] at hn, rfl⟩
  have log : ∀ ev ∈ (init inst).log, ev.Ok (init inst) := fun _ h => by cases h
  refine (h.invariant (I := fun s => s.Inv inst ∧ (∀ ev ∈ s.log, ev.Ok s) ∧
    s.ReportOk ∧ s.MadeOk ∧ s.QueueOk) ?_ ⟨inv_init inst, log, start⟩).2.2
  rintro s a s' ⟨hI, hL, hR, hM, hQ⟩ hs
  have hs := step_change hs
  exact ⟨hs.inv hI, hs.log_ok hI hL, hs.reportOk hI hL hR, hs.madeOk hI hM, hs.queueOk hQ⟩

/-- What stays of an entry with a verdict. -/
theorem verdict_stays {bs : List Act} (hI : s.Inv inst) (h : system.Run s bs s') (hn : n ∈ s.nodes)
    (hc : n.second.classState ≠ .inspecting) :
    s'.enqueues n.addr = s.enqueues n.addr ∧
      ∃ n' ∈ s'.nodes, n'.addr = n.addr ∧ n'.second.verdict = n.second.verdict := by
  have hR := h.related (I := Sys.Inv inst)
    (R := fun s s' => ∀ n ∈ s.nodes, n.second.classState ≠ .inspecting →
      s'.enqueues n.addr = s.enqueues n.addr ∧ ∃ n' ∈ s'.nodes, n.Evolves n')
    (fun _ n hn _ => ⟨rfl, n, hn, .refl n⟩)
    (fun _ _ _ h₁ h₂ n hn hc => by
      obtain ⟨e₁, n₁, hn₁, k₁⟩ := h₁ n hn hc
      obtain ⟨e₂, n₂, hn₂, k₂⟩ := h₂ n₁ hn₁ (k₁.classState hc ▸ hc)
      exact ⟨(k₁.addr ▸ e₂).trans e₁, n₂, hn₂, k₁.trans k₂⟩)
    (fun _ _ _ hI hs => (step_change hs).inv hI)
    (fun _ _ _ hI hs n hn hc => by
      obtain ⟨n', hn', k⟩ := ((step_change hs).nodes hI).forward hn
      exact ⟨(step_change hs).enqueues hI hn hc, n', hn', k.evolves⟩) hI
  obtain ⟨he, n', hn', k⟩ := hR n hn hc
  exact ⟨he, n', hn', k.addr, k.verdict hc⟩

/-- **Each flow is reported at most once and its verdict is final.**  At the end `s` of any run:
what the datapath's queue holds beside exit messages are the reports; an entry has been reported
once if it is decided and not at all if not; any further step reports an entry exactly when it
takes it from `INSPECTING` to a decision, which only the callback does; a report carries the key
of its entry, and the filter and direction of the packet that made it; and through any further
run `bs` an entry that has left `INSPECTING` keeps its verdict and gets no message. -/
theorem verdict_once_and_final {as bs : List Act} (h : system.Run (init inst) as s)
    (h' : system.Run s bs s') :
    s.updateDPQueue.filter (fun d => !d.exitFlag) = s.log.filterMap Event.reported ∧
    (∀ it ∈ s.nodes, s.reports it.addr = if it.second.classState.Decided then 1 else 0) ∧
    (∀ a t, system.step s a = some t → ∀ it ∈ s.nodes, ∀ it' ∈ t.nodes, it'.addr = it.addr →
      (t.reports it.addr = s.reports it.addr + 1 ↔
        it.second.classState = .inspecting ∧ it'.second.classState.Decided) ∧
      (t.reports it.addr = s.reports it.addr ∨ t.reports it.addr = s.reports it.addr + 1 ∧
        ∃ q r now, a = .engine q (.callback r now) ∧ it'.second.classState = r.state)) ∧
    (∀ x data, .report x data ∈ s.log → ∃ it ∈ s.nodes, it.addr = x ∧ data.key = it.first ∧
      ∃ bytes filter dir now, .inserted x it.first bytes filter dir now ∈ s.log ∧
        data.filter = filter ∧ data.dir = dir.toNat) ∧
    ∀ it ∈ s.nodes, it.second.classState ≠ .inspecting →
      s'.enqueues it.addr = s.enqueues it.addr ∧
      ∃ it' ∈ s'.nodes, it'.addr = it.addr ∧ it'.second.classState = it.second.classState ∧
        it'.second.dpiResult = it.second.dpiResult ∧
        it'.second.dpiConfidence = it.second.dpiConfidence ∧ it'.second.error = it.second.error := by
  have hI := reachable h
  have hL := reachable_log h
  obtain ⟨hR, hM, hQ⟩ := reachable_reports h
  refine ⟨hQ, hR, fun a t hs it hit it' hit' ha => ?_, fun x data hev => ?_, fun it hit hc => ?_⟩
  · -- one more step
    rcases (step_change hs).reports hI hit hit' ha with ⟨hr, hd⟩ | ⟨hr, hi, hd, hcb⟩
    · refine ⟨⟨fun k => absurd (hr.symm.trans k) (Nat.ne_of_lt (Nat.lt_succ_self _)), ?_⟩, .inl hr⟩
      rintro ⟨hi, hd'⟩
      exact absurd (hi ▸ hd.mp hd') NavlState.not_decided_inspecting
    · exact ⟨⟨fun _ => ⟨hi, hd⟩, fun _ => hr⟩, .inr ⟨hr, hcb⟩⟩
  · -- a report is of the entry it names, and that of the packet that made it
    obtain ⟨it, hit, rfl, hk, hd, hf, -⟩ := hL _ hev
    obtain ⟨key, bytes, filter, dir, now, hins⟩ := hM it hit
    obtain ⟨n, hn, ha, rfl, hf', hd'⟩ := hL _ hins
    cases hI.table.eq_of_addr hn hit ha
    exact ⟨it, hit, rfl, hk, bytes, filter, dir, now, hins, hf.trans hf', hd.trans hd'⟩
  · -- further steps, by induction over the run `bs`
    obtain ⟨he, it', hit', ha, hv⟩ := verdict_stays hI h' hit hc
    simp only [ConnInfo.verdict, Prod.mk.injEq] at hv
    exact ⟨he, it', hit', ha, hv.1, hv.2.1, hv.2.2.1, hv.2.2.2.1⟩

/-- After the verdict of `decided` a further packet of the connection is counted and dropped. -/
theorem verdict_once_and_final_decided : ∃ s', system.step decidedState (.insert tcpKey [3] 0 0 103) =
    some s' ∧ ∃ it ∈ decidedState.nodes, it.second.classState = .classified ∧
      decidedState.reports it.addr = 1 ∧ s'.enqueues it.addr = decidedState.enqueues it.addr := by
  have hs : (system.step decidedState (.insert tcpKey [3] 0 0 103)).isSome := by decide
  obtain ⟨it, hit, hc⟩ : ∃ it ∈ decidedState.nodes, it.second.classState = .classified := by decide
  obtain ⟨-, h₁, -, -, h₂⟩ :=
    verdict_once_and_final run_decided (.one (Option.some_get hs).symm)
  refine ⟨_, (Option.some_get hs).symm, it, hit, hc, ?_, (h₂ it hit (by rw [hc]; decide)).1⟩
  rw [h₁ it hit, hc]
  rfl

end Sys
end DistDpi
