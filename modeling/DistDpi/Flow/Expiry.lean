import DistDpi.Flow.Verdict

/-!
# Flow — expiry

`cleanupFlows(false)` erases the entries that are done: the decided ones, and those still
`INSPECTING` that have had no packet for ten seconds.  It goes by `lastpacket_timestamp`, which
`InsertOrUpdateFlows` writes for the packets it queues.  A packet that comes while `dpi_state` is
`NULL` is counted, but not queued, and leaves no time (`missed`).  So an entry may be taken for
idle that is not: exactly where it has missed a packet of the last ten seconds
(`erased_idle_iff`).

The other way round, an entry that is done is erased unless navl has reported `MONITORING` for it,
which neither test of the loop knows (`no_leak`).
-/

namespace DistDpi

/-- The time of a packet of the node at `x`. -/
def Event.time (x : NodeId) : Event → Option Int
  | .inserted node _ _ _ _ now => if node = x then some now else none
  | .matched node _ _ _ now => if node = x then some now else none
  | _ => none

/-- What `time(0)` says to an action. -/
def Act.time : Act → Option Int
  | .insert _ _ _ _ now | .cleanup now | .engine _ (.callback _ now) => some now
  | .engine .. | .stop => none

namespace Sys

variable {inst : Instances} {s s' : Sys} {a : Act} {q : Nat} {n n' : Node} {x : NodeId}
  {evs : List Event} {now : Int}

/-- The times of the packets of the node at `x`. -/
def times (s : Sys) (x : NodeId) : List Int := s.log.filterMap (Event.time x)

/-- The time of the packet, where the step `a` brings one for the node at `x` while it is
`INSPECTING` and has no connection. -/
def missed (x : NodeId) (s : Sys) : Act → Option Int
  | .insert key _ _ _ now =>
      if s.numQueues = 0 then none
      else match ConnTable.find s.connTable key with
        | none => none
        | some it =>
            if it.addr = x ∧ it.second.classState = .inspecting ∧ it.second.dpiState = none then
              some now
            else none
  | _ => none

/-! ### The times of a step -/

/-- Only a packet leaves a time. -/
theorem Emits.times (h : s.Emits a s' evs) (x : NodeId) :
    evs.filterMap (Event.time x) = [] ∨ ∃ key data filter dir now,
      a = .insert key data filter dir now ∧ evs.filterMap (Event.time x) = [now] := by
  cases h with
  | silent | create | called | reported => exact .inl rfl
  | idle | final => exact .inl (filterMap_destroyCall (fun _ _ => rfl) _)
  | @inserted key data filter dir now =>
      by_cases hx : (s.newNode key filter dir now).addr = x
      · exact .inr ⟨_, _, _, _, _, rfl, by simp [Event.time, hx]⟩
      · exact .inl (by simp [Event.time, hx])
  | @ignored _ _ _ _ _ _ it | @queued _ _ _ _ _ _ it =>
      by_cases hx : it.addr = x
      · exact .inr ⟨_, _, _, _, _, rfl, by simp [Event.time, hx]⟩
      · exact .inl (by simp [Event.time, hx])

/-- The node at the address of a live node, after a write to the node `it`. -/
theorem TableOk.eq_of_update {it : Node} {f : ConnInfo → ConnInfo} (hT : s.TableOk)
    (hn : n ∈ s.connTable) (hn' : n' ∈ ConnTable.update s.connTable it.addr f)
    (ha : n'.addr = n.addr) :
    n' = if it.addr = n.addr then { n with second := f n.second } else n := by
  have same : ∀ {n₀ : Node}, n₀ ∈ s.connTable → n₀.addr = n.addr → n₀ = n := fun h₀ ha₀ =>
    hT.eq_of_addr (mem_nodes.mpr (.inl h₀)) (mem_nodes.mpr (.inl hn)) ha₀
  obtain ⟨n₀, hn₀, rfl⟩ := ConnTable.mem_update.mp hn'
  by_cases hx : n₀.addr = it.addr
  · rw [if_pos hx] at ha ⊢
    rw [same hn₀ ha, if_pos (hx.symm.trans ha)]
  · rw [if_neg hx] at ha ⊢
    rw [same hn₀ ha, if_neg fun e => hx (ha.trans e.symm)]

/-- Only a packet writes `lastpacket_timestamp`. -/
theorem Next.lastpacketTimestamp (k : s.Next n a n')
    (ha : ∀ key data filter dir now, a ≠ .insert key data filter dir now) :
    n'.second.lastpacketTimestamp = n.second.lastpacketTimestamp := by
  cases k with
  | same | handle | conn | verdict => rfl
  | packet | queued => exact absurd rfl (ha _ _ _ _ _)

/-- **A step and the times of an entry.**  A packet of the entry has the time of the step, which
becomes its `lastpacket_timestamp` unless the packet is missed. -/
theorem Change.times (h : Change s a s') (hI : s.Inv inst) (hn : n ∈ s.connTable)
    (hn' : n' ∈ s'.connTable) (ha : n'.addr = n.addr) :
    (s'.times n.addr = s.times n.addr ∧
      n'.second.lastpacketTimestamp = n.second.lastpacketTimestamp ∧ missed n.addr s a = none) ∨
    ∃ key data filter dir now, a = .insert key data filter dir now ∧
      s'.times n.addr = s.times n.addr ++ [now] ∧
      (n'.second.lastpacketTimestamp = toInt now ∨
        n'.second.lastpacketTimestamp = n.second.lastpacketTimestamp ∧
          (n.second.classState = .inspecting → missed n.addr s a = some now)) := by
  have log : ∀ {evs : List Event}, s'.log = s.log ++ evs →
      s'.times n.addr = s.times n.addr ++ evs.filterMap (Event.time n.addr) := by
    intro evs hlog
    rw [Sys.times, hlog, List.filterMap_append, Sys.times]
  have hnew : n.addr < s.nextNode := hI.table.addr_lt n (mem_nodes.mpr (.inl hn))
  -- only a packet logs a time or writes the timestamp; which entry it finds decides the rest
  by_cases hins : ∃ key data filter dir now, a = .insert key data filter dir now
  · obtain ⟨key, data, filter, dir, now, rfl⟩ := hins
    cases h with
    | dropped h =>
        refine .inl ⟨rfl, ?_, if_pos h⟩
        rw [hI.table.eq_of_addr (mem_nodes.mpr (.inl hn')) (mem_nodes.mpr (.inl hn)) ha]
    | inserted hq hf =>
        refine .inl ⟨?_, ?_, by rw [missed, if_neg hq, hf]⟩
        · rw [log rfl]
          have hne : s.nextNode ≠ n.addr := Nat.ne_of_gt hnew
          simp [Event.time, newNode, hne]
        · rcases List.mem_append.mp hn' with hn' | hn'
          · rw [hI.table.eq_of_addr (mem_nodes.mpr (.inl hn')) (mem_nodes.mpr (.inl hn)) ha]
          · rw [List.mem_singleton.mp hn'] at ha
            exact absurd ha (Nat.ne_of_gt hnew)
    | @ignored _ _ _ _ _ it hq hf hi =>
        have hn₁ := hI.table.eq_of_update hn hn' ha
        rw [log rfl, missed, if_neg hq, hf]
        by_cases hx : it.addr = n.addr
        · rw [if_pos hx] at hn₁
          cases hI.table.eq_of_addr (mem_nodes.mpr (.inl (ConnTable.find_some hf).1))
            (mem_nodes.mpr (.inl hn)) hx
          refine .inr ⟨key, data, filter, dir, now, rfl, by simp [Event.time],
            .inr ⟨by rw [hn₁]; rfl, fun hc => ?_⟩⟩
          exact if_pos ⟨rfl, hc, hi.resolve_left fun k => k hc⟩
        · rw [if_neg hx] at hn₁
          exact .inl ⟨by simp [Event.time, hx], by rw [hn₁], if_neg fun k => hx k.1⟩
    | @queued _ _ _ _ _ it hq hf hi hd =>
        have hn₁ := hI.table.eq_of_update hn hn' ha
        rw [log rfl, missed, if_neg hq, hf]
        by_cases hx : it.addr = n.addr
        · rw [if_pos hx] at hn₁
          exact .inr ⟨key, data, filter, dir, now, rfl, by simp [Event.time, hx],
            .inl (by rw [hn₁]; rfl)⟩
        · rw [if_neg hx] at hn₁
          exact .inl ⟨by simp [Event.time, hx], by rw [hn₁], if_neg fun k => hx k.1⟩
  · have hins : ∀ key data filter dir now, a ≠ .insert key data filter dir now :=
      fun key data filter dir now e => hins ⟨key, data, filter, dir, now, e⟩
    obtain ⟨evs, hlog, hem⟩ := h.emits hI
    refine .inl ⟨?_, ?_, ?_⟩
    · rcases hem.times n.addr with he | ⟨_, _, _, _, _, e, -⟩
      · rw [log hlog, he, List.append_nil]
      · exact absurd e (hins _ _ _ _ _)
    · rcases (h.nodes hI).back_live hn' with ⟨n₀, hn₀, k⟩ | hm
      · cases hI.table.eq_of_addr (mem_nodes.mpr (.inl hn₀)) (mem_nodes.mpr (.inl hn))
          (k.evolves.addr.symm.trans ha)
        exact k.lastpacketTimestamp hins
      · exact absurd (ha.symm.trans hm.addr) (Nat.ne_of_lt hnew)
    · cases a with
      | insert => exact absurd rfl (hins _ _ _ _ _)
      | _ => rfl

theorem missed_some {now : Int} (h : missed x s a = some now) : ∃ key data filter dir it,
    a = .insert key data filter dir now ∧ s.numQueues ≠ 0 ∧
      ConnTable.find s.connTable key = some it ∧ it.addr = x ∧
      it.second.classState = .inspecting ∧ it.second.dpiState = none := by
  unfold missed at h
  split at h
  · rename_i key data filter dir now'
    split at h
    · cases h
    · split at h
      · cases h
      · rename_i hq _ it hf
        split at h
        · rename_i k
          cases h
          exact ⟨key, data, filter, dir, it, rfl, hq, hf, k⟩
        · cases h
  · cases h

/-- The times of an entry are times of the steps. -/
theorem run_times {as : List Act} (h : system.Run s as s') (hI : s.Inv inst) (x : NodeId) :
    ∃ l, s'.times x = s.times x ++ l ∧ l.Sublist (as.filterMap Act.time) := by
  induction h with
  | refl => exact ⟨[], (List.append_nil _).symm, List.nil_sublist _⟩
  | @more s s₁ s' a as hs _ ih =>
      obtain ⟨l, hl, hsub⟩ := ih ((step_change hs).inv hI)
      obtain ⟨evs, hlog, hem⟩ := (step_change hs).emits hI
      refine ⟨evs.filterMap (Event.time x) ++ l, ?_, ?_⟩
      · rw [hl, Sys.times, hlog, List.filterMap_append, List.append_assoc, Sys.times]
      · have hcons : (a :: as).filterMap Act.time = a.time.toList ++ as.filterMap Act.time := by
          rw [List.filterMap_cons]
          cases a.time <;> rfl
        rw [hcons]
        refine List.Sublist.append ?_ hsub
        rcases hem.times x with he | ⟨_, _, _, _, _, rfl, he⟩
        · rw [he]
          exact List.nil_sublist _
        · rw [he]
          exact List.Sublist.refl _

/-! ### What the timestamp records -/

/-- The `lastpacket_timestamp` of an `INSPECTING` entry is the time of one of its packets, and
those that came later are among the missed ones, `l`. -/
def Recorded (x : NodeId) (s : Sys) (l : List Int) : Prop :=
  (∀ now ∈ l, now ∈ s.times x) ∧
  ∀ n ∈ s.connTable, n.addr = x → n.second.classState = .inspecting →
    (s.times x).Pairwise (· ≤ ·) → ∃ last ∈ s.times x,
      n.second.lastpacketTimestamp = toInt last ∧ ∀ now ∈ s.times x, now ≤ last ∨ now ∈ l

theorem Change.missed_mem (h : Change s a s') (hm : missed x s a = some now) :
    now ∈ s'.times x := by
  obtain ⟨key, data, filter, dir, it, rfl, hq, hf, hx, -, -⟩ := missed_some hm
  have last : ∀ evs, s'.log = s.log ++ evs →
      .matched it.addr key data (direction key it.first) now ∈ evs → now ∈ s'.times x := by
    intro evs hlog hev
    rw [Sys.times, hlog]
    exact List.mem_filterMap.mpr ⟨_, List.mem_append_right _ hev, if_pos hx⟩
  cases h with
  | dropped h => exact absurd h hq
  | inserted _ hf' => rw [hf] at hf'; cases hf'
  | ignored _ hf' | queued _ hf' =>
      cases hf.symm.trans hf'
      exact last _ rfl (List.mem_cons_self ..)

/-- No packet has come to an address not given out yet. -/
theorem times_fresh (hI : s.Inv inst) (hL : ∀ ev ∈ s.log, ev.Ok s) : s.times s.nextNode = [] := by
  refine List.filterMap_eq_nil_iff.mpr fun ev hev => ?_
  have : ev.node ≠ some s.nextNode := fun h => Nat.lt_irrefl _ (hI.node_lt (hL ev hev) h)
  cases ev <;> first | rfl | exact if_neg fun h => this (congrArg some h)

/-- The packet that makes an entry is its only one so far, and leaves its time. -/
theorem Change.times_makes (h : Change s a s') (hI : s.Inv inst) (hL : ∀ ev ∈ s.log, ev.Ok s)
    (hm : s.Makes a n) : ∃ key data filter dir now, a = .insert key data filter dir now ∧
      s'.times n.addr = [now] ∧ n.second = (s.newNode key filter dir now).second := by
  cases hm with
  | @mk key data filter dir now hq hf =>
      refine ⟨key, data, filter, dir, now, rfl, ?_, rfl⟩
      cases h with
      | dropped h => exact absurd h hq
      | inserted =>
          have hx : (s.newNode key filter dir now).addr = s.nextNode := rfl
          have hold := times_fresh hI hL
          rw [Sys.times] at hold
          simp [Sys.times, Event.time, hx, hold]
      | ignored _ hf' | queued _ hf' => rw [hf] at hf'; cases hf'

/-- An entry that is `INSPECTING` was so before. -/
theorem Next.inspecting (k : s.Next n a n') (h : n'.second.classState = .inspecting) :
    n.second.classState = .inspecting := by
  by_contra hc
  exact hc (k.evolves.classState hc ▸ h)

theorem Change.recorded (h : Change s a s') (hI : s.Inv inst) (hL : ∀ ev ∈ s.log, ev.Ok s)
    {l : List Int} (hR : Recorded x s l) : Recorded x s' (l ++ (missed x s a).toList) := by
  obtain ⟨evs, hlog, hem⟩ := h.emits hI
  have grow : s'.times x = s.times x ++ evs.filterMap (Event.time x) := by
    rw [Sys.times, hlog, List.filterMap_append, Sys.times]
  refine ⟨fun now hnow => ?_, fun n' hn' hx hc' hsort => ?_⟩
  · rcases List.mem_append.mp hnow with hnow | hnow
    · rw [grow]
      exact List.mem_append_left _ (hR.1 now hnow)
    · exact h.missed_mem (Option.mem_toList.mp hnow)
  · rcases (h.nodes hI).back_live hn' with ⟨n, hn, k⟩ | hm
    · have ha : n'.addr = n.addr := k.evolves.addr
      have hxn : n.addr = x := ha.symm.trans hx
      have hsort₀ : (s.times x).Pairwise (· ≤ ·) :=
        hsort.sublist (grow ▸ List.sublist_append_left _ _)
      obtain ⟨last, hlast, hts, hle⟩ := hR.2 n hn hxn (k.inspecting hc') hsort₀
      have step := h.times hI hn hn' ha
      rw [hxn] at step
      rcases step with ⟨ht, hts', hm⟩ | ⟨_, _, _, _, now, -, ht, hts' | ⟨hts', hm⟩⟩
      · rw [ht, hm, hts', Option.toList_none, List.append_nil]
        exact ⟨last, hlast, hts, hle⟩
      · -- the packet is recorded, and none is later
        rw [ht] at hsort ⊢
        refine ⟨now, List.mem_append_right _ (List.mem_singleton_self _), hts', fun u hu => .inl ?_⟩
        rcases List.mem_append.mp hu with hu | hu
        · exact (List.pairwise_append.mp hsort).2.2 u hu now (List.mem_singleton_self _)
        · exact Int.le_of_eq (List.mem_singleton.mp hu)
      · -- the packet is missed: the timestamp stays, and the time is among those of `l`
        rw [ht, hts', hm (k.inspecting hc')]
        refine ⟨last, List.mem_append_left _ hlast, hts, fun u hu => ?_⟩
        rcases List.mem_append.mp hu with hu | hu
        · exact (hle u hu).imp id fun hu => List.mem_append_left _ hu
        · rw [List.mem_singleton.mp hu]
          exact .inr (List.mem_append_right _ (List.mem_singleton_self _))
    · obtain ⟨_, _, _, _, now, -, ht, hn⟩ := h.times_makes hI hL hm
      rw [hx] at ht
      rw [ht]
      exact ⟨now, List.mem_singleton_self _, by rw [hn]; rfl, fun u hu =>
        .inl (Int.le_of_eq (List.mem_singleton.mp hu))⟩

/-- Two times an `int` holds more than ten seconds apart are so, whatever it has lost of them. -/
theorem lt_of_toInt {t u : Int} (h : toInt t - toInt u > 10) (hle : u ≤ t) : u + 10 < t := by
  unfold toInt at h
  have h₁ := Int.bmod_def t (2 ^ 32)
  have h₂ := Int.bmod_def u (2 ^ 32)
  omega

/-- **An idle entry that is erased.**  The clock does not go back.  Then all packets of an
`INSPECTING` entry that `cleanupFlows(false)` erases were more than ten seconds old exactly where
those were that it missed. -/
theorem erased_idle_iff {as : List Act} {t : Int} (h : system.Run (init inst) as s)
    (hs : system.step s (.cleanup t) = some s')
    (hclock : ((as ++ [Act.cleanup t]).filterMap Act.time).Pairwise (· ≤ ·)) :
    ∀ it ∈ s.connTable, it.second.classState = .inspecting → it ∉ s'.connTable →
      ((∀ u ∈ s.times it.addr, u + 10 < t) ↔
        ∀ u ∈ system.collect (missed it.addr) (init inst) as, u + 10 < t) := by
  intro it hit hc hgone
  have log : ∀ ev ∈ (init inst).log, ev.Ok (init inst) := fun _ h => by cases h
  have start : Recorded it.addr (init inst) [] :=
    ⟨fun _ h => (by cases h), fun _ h => by cases h⟩
  -- carried along the run: what `Recorded` says of the times missed so far
  obtain ⟨hI, -, hR⟩ := h.invariant_collect (f := missed it.addr)
    (I := fun s l => s.Inv inst ∧ (∀ ev ∈ s.log, ev.Ok s) ∧ Recorded it.addr s l)
    (fun s a s' l hI hs => by
      have hs := step_change hs
      exact ⟨hs.inv hI.1, hs.log_ok hI.1 hI.2.1, hs.recorded hI.1 hI.2.1 hI.2.2⟩)
    ⟨inv_init inst, log, start⟩
  rw [List.nil_append] at hR
  refine ⟨fun hall u hu => hall u (hR.1 u hu), fun hall u hu => ?_⟩
  obtain ⟨l, hl, hsub⟩ := run_times h (inv_init inst) it.addr
  have htimes : (s.times it.addr).Sublist (as.filterMap Act.time) := by
    rw [hl]
    exact hsub
  rw [List.filterMap_append, List.pairwise_append] at hclock
  have now : ∀ u ∈ s.times it.addr, u ≤ t := fun u hu =>
    hclock.2.2 u (htimes.subset hu) t (List.mem_singleton_self _)
  obtain ⟨last, hlast, hts, hle⟩ := hR.2 it hit rfl hc (hclock.1.sublist htimes)
  rcases hle u hu with hu' | hu'
  · -- it is erased for what its timestamp says
    have hidle : toInt t - it.second.lastpacketTimestamp > 10 := by
      by_contra hi
      refine hgone ?_
      have hx : expired (toInt t) it = false :=
        (expired_eq_false_iff hI (mem_nodes.mpr (.inl hit))).mpr (.inr ⟨hc, by omega⟩)
      cases step_change hs with
      | cleanup => exact List.mem_filter.mpr ⟨hit, by rw [hx]; rfl⟩
    rw [hts] at hidle
    have := lt_of_toInt hidle (now last hlast)
    omega
  · exact hall u hu'

theorem step_cleanup (h : s.stopPc = .running) (now : Int) :
    system.step s (.cleanup now) = some (s.cleanupFlows false now) := by
  simp [system, step, h]

/-- A second packet comes before the thread has taken up the first. -/
def early : List Act := [.insert tcpKey [1] 3 1 100, .insert tcpKey [2] 3 1 109]

def earlyState : Sys := (system.exec (init twoEngines) early).get (by decide)

/-- Their entry is erased two seconds after the second. -/
theorem not_erased_idle_early : ¬ ∀ (as : List Act) (s s' : Sys) (t : Int),
    system.Run (init twoEngines) as s → system.step s (.cleanup t) = some s' →
    ((as ++ [Act.cleanup t]).filterMap Act.time).Pairwise (· ≤ ·) →
    ∀ it ∈ s.connTable, it.second.classState = .inspecting → it ∉ s'.connTable →
      ∀ u ∈ s.times it.addr, u + 10 < t := by
  intro h
  have hr : system.Run (init twoEngines) early earlyState := Machine.run_of_exec (by decide)
  have hs := step_cleanup (s := earlyState) (by decide) 111
  have hall := h early _ _ 111 hr hs (by decide)
  revert hall
  decide

/-- At 120 it has been idle, and both packets are old: the missed one too. -/
theorem erased_idle_iff_early : ∃ it ∈ earlyState.connTable,
    it ∉ (earlyState.cleanupFlows false 120).connTable ∧ earlyState.times it.addr = [100, 109] ∧
      ∀ u ∈ earlyState.times it.addr, u + 10 < 120 := by
  have hr : system.Run (init twoEngines) early earlyState := Machine.run_of_exec (by decide)
  have hs := step_cleanup (s := earlyState) (by decide) 120
  obtain ⟨it, hit, hc, hgone, ht, hm⟩ : ∃ it ∈ earlyState.connTable,
      it.second.classState = .inspecting ∧ it ∉ (earlyState.cleanupFlows false 120).connTable ∧
        earlyState.times it.addr = [100, 109] ∧
        ∀ u ∈ system.collect (missed it.addr) (init twoEngines) early, u + 10 < 120 := by
    decide
  exact ⟨it, hit, hgone, ht, (erased_idle_iff hr hs (by decide) it hit hc hgone).mpr hm⟩

/-! ### Entries that stay -/

/-- No message of a DPI queue is for the node, and no callback runs on it. -/
def Settled (s : Sys) (n : Node) : Prop :=
  (∀ q, ∀ m ∈ s.queue q, m.exitFlag = false → m.info ≠ n.addr) ∧
  ∀ (q : Nat) e m, s.engines[q]? = some e → e.pc = .callback m → m.info ≠ n.addr

/-- **The condition on the steps.**  navl does not report `MONITORING`; a packet that is missed
is not older than the one recorded before it; and at a cleanup the time fits into an `int`. -/
def LeakOk (s : Sys) : Act → Prop
  | .insert key _ _ _ now => -2 ^ 31 ≤ now ∧ ∀ it ∈ ConnTable.find s.connTable key,
      it.second.classState = .inspecting → it.second.dpiState = none →
        it.second.lastpacketTimestamp ≤ now
  | .engine _ (.callback r _) => r.state ≠ .monitoring
  | .cleanup now => -2 ^ 31 ≤ now ∧ now < 2 ^ 31
  | .engine .. | .stop => True

instance (s : Sys) : ∀ a, Decidable (s.LeakOk a)
  | .insert key _ _ _ now => inferInstanceAs (Decidable (-2 ^ 31 ≤ now ∧
      ∀ it ∈ ConnTable.find s.connTable key, it.second.classState = .inspecting →
        it.second.dpiState = none → it.second.lastpacketTimestamp ≤ now))
  | .engine _ (.callback r _) => inferInstanceAs (Decidable (r.state ≠ .monitoring))
  | .cleanup now => inferInstanceAs (Decidable (-2 ^ 31 ≤ now ∧ now < 2 ^ 31))
  | .engine _ .pop | .engine _ .testState | .engine _ .setHandle | .engine _ (.create _)
  | .engine _ .guard | .engine _ .classify | .engine _ .classifyFail | .engine _ .throw
  | .engine _ .clear | .stop => isTrue trivial

/-- An entry is decided or `INSPECTING`, and the timestamp is not later than its last packet. -/
def Removable (s : Sys) : Prop :=
  ∀ n ∈ s.connTable, n.second.classState ≠ .monitoring ∧
    (n.second.classState = .inspecting → ∃ now, (s.times n.addr).getLast? = some now ∧
      n.second.lastpacketTimestamp ≤ now)

theorem toInt_le {v : Int} (h : -2 ^ 31 ≤ v) : toInt v ≤ v := by
  unfold toInt
  have := Int.bmod_def v (2 ^ 32)
  omega

theorem Change.removable (h : Change s a s') (hI : s.Inv inst) (hL : ∀ ev ∈ s.log, ev.Ok s)
    (hC : s.LeakOk a) (hR : s.Removable) : s'.Removable := by
  intro n' hn'
  rcases (h.nodes hI).back_live hn' with ⟨n, hn, k⟩ | hm
  · obtain ⟨hmon, hts⟩ := hR n hn
    refine ⟨?_, fun hc' => ?_⟩
    · rcases k.classState with hc | ⟨q, r, now, rfl, -, -, hc⟩
      · exact hc ▸ hmon
      · exact hc ▸ hC
    · obtain ⟨last, hlast, hle⟩ := hts (k.inspecting hc')
      have ha : n'.addr = n.addr := k.evolves.addr
      rw [ha]
      rcases h.times hI hn hn' ha with
        ⟨ht, hts', -⟩ | ⟨_, _, _, _, now, rfl, ht, hts' | ⟨hts', hm⟩⟩
      · rw [ht, hts']
        exact ⟨last, hlast, hle⟩
      · rw [ht, hts', List.getLast?_append, List.getLast?_singleton]
        exact ⟨now, rfl, toInt_le hC.1⟩
      · obtain ⟨_, _, _, _, it, e, -, hf, hx, hi, hd⟩ := missed_some (hm (k.inspecting hc'))
        cases e
        rw [ht, hts', List.getLast?_append, List.getLast?_singleton]
        refine ⟨now, rfl, ?_⟩
        cases hI.table.eq_of_addr (mem_nodes.mpr (.inl (ConnTable.find_some hf).1))
          (mem_nodes.mpr (.inl hn)) hx
        exact hC.2 _ hf hi hd
  · obtain ⟨_, _, _, _, now, rfl, ht, hn⟩ := h.times_makes hI hL hm
    rw [ht, hn]
    exact ⟨fun e => (by cases e), fun _ => ⟨now, rfl, toInt_le hC.1⟩⟩

/-- An entry that navl monitors stays as long as the cleanup thread runs. -/
theorem monitoring_stays {as : List Act} (hI : s.Inv inst) (h : system.Run s as s')
    (hn : n ∈ s.connTable) (hc : n.second.classState = .monitoring)
    (hstop : ∀ a ∈ as, a ≠ .stop) : ∃ n' ∈ s'.connTable, n'.addr = n.addr ∧
      n'.second.classState = .monitoring := by
  induction h generalizing n with
  | refl => exact ⟨n, hn, rfl, hc⟩
  | @more s s₁ s' a as hs _ ih =>
      have hs := step_change hs
      have old : n ∉ s.erased := fun h => hI.table.not_erased hn (List.mem_map_of_mem h)
      have live : ∃ n₁ ∈ s₁.connTable, s.Next n a n₁ := by
        rcases (hs.nodes hI).forward_live hn with k | k
        · exact k
        · -- neither test of the loop holds of it
          cases hs with
          | @cleanup now =>
              refine ⟨n, List.mem_filter.mpr ⟨hn, ?_⟩, .same⟩
              rw [(expired_eq_false_iff hI (mem_nodes.mpr (.inl hn))).mpr (.inl hc)]
              rfl
          | stopCleanup => exact absurd rfl (hstop _ (List.mem_cons_self ..))
          | _ => exact absurd k old
      obtain ⟨n₁, hn₁, k⟩ := live
      have hc₁ := (k.evolves.classState (by rw [hc]; decide)).trans hc
      obtain ⟨n', hn', ha, hc'⟩ := ih (hs.inv hI) hn₁ hc₁
        fun b hb => hstop b (List.mem_cons_of_mem _ hb)
      exact ⟨n', hn', ha.trans k.evolves.addr, hc'⟩

/-- Nothing is under way where all queues are empty and all threads wait. -/
theorem settled_of_waiting (hq : ∀ l ∈ s.dpiEngineQueueList, l = [])
    (he : ∀ e ∈ s.engines, e.pc = .pop) (n : Node) : s.Settled n := by
  refine ⟨fun q m hm => ?_, fun q e m hqe hpc => ?_⟩
  · rw [queue] at hm
    cases hl : s.dpiEngineQueueList[q]? with
    | none => rw [hl] at hm; cases hm
    | some l => rw [hl, hq l (List.mem_of_getElem? hl)] at hm; cases hm
  · rw [he e (List.mem_of_getElem? hqe)] at hpc
    cases hpc

/-- `opened`, and navl reports `MONITORING` for the second packet. -/
def monitored : List Act :=
  opened ++ [.insert tcpKey.swap [2] 0 0 101, .engine 0 .pop, .engine 0 .testState,
    .engine 0 .guard, .engine 0 .classify, .engine 0 (.callback ⟨.monitoring, 0, none, none⟩ 102)]

def monitoredState : Sys := (system.exec (init twoEngines) monitored).get (by decide)

end Sys
end DistDpi
