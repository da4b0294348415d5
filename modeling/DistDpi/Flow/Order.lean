import DistDpi.Flow.Affinity

/-!
# Flow — order

navl classifies streams: what it is given for a connection must be part of what came, in the
order in which it came.  The packets of an entry go from `InsertOrUpdateFlows` through one queue
to one thread, and are dropped at several guards on the way; none overtakes another, and none is
given twice.

`due n` is what navl may still be given for the entry `n`.  Once the entry has its connection,
what navl has been given and what is due form a subsequence of what came (`Ordered`).  The packet
that made the entry is not among it: it is spent on `navl_conn_create`, and until then it is the
only message of the entry.
-/

namespace DistDpi

/-- A packet of the node at `x`, with its payload and direction: that of the first is 0. -/
def Event.packet (x : NodeId) : Event → Option (Bytes × UInt32)
  | .inserted node _ data _ _ _ => if node = x then some (data, 0) else none
  | .matched node _ data dir _ => if node = x then some (data, dir) else none
  | _ => none

/-- A packet matched to the node at `x`. -/
def Event.arrival (x : NodeId) : Event → Option (Bytes × UInt32)
  | .matched node _ data dir _ => if node = x then some (data, dir) else none
  | _ => none

/-- What `navl_classify` is given for the node at `x`. -/
def Event.fed (x : NodeId) : Event → Option (Bytes × UInt32)
  | .classify _ _ data _ dir node => if node = x then some (data, dir) else none
  | _ => none

/-- A message navl has not been given yet. -/
def EnginePc.unfed : EnginePc → Option ConnMetadata
  | .callback _ => none
  | pc => pc.held

/-- The payload and the direction of a message for the node at `x`. -/
def ConnMetadata.pair (x : NodeId) (m : ConnMetadata) : Option (Bytes × UInt32) :=
  if m.exitFlag = false ∧ m.info = x then some (m.data, m.dir) else none

namespace Sys

variable {inst : Instances} {s s' : Sys} {a : Act} {q : Nat} {n n' : Node} {m : ConnMetadata}
  {x : NodeId} {evs : List Event} {e : Engine}

/-- The packets of the node at `x`. -/
def packets (s : Sys) (x : NodeId) : List (Bytes × UInt32) := s.log.filterMap (Event.packet x)

/-- Those matched to it: all but the first. -/
def arrivals (s : Sys) (x : NodeId) : List (Bytes × UInt32) := s.log.filterMap (Event.arrival x)

/-- What navl has been given for it. -/
def fed (s : Sys) (x : NodeId) : List (Bytes × UInt32) := s.log.filterMap (Event.fed x)

/-- What navl may still be given for the node `n`. -/
def due (s : Sys) (n : Node) : List (Bytes × UInt32) :=
  (s.shown EnginePc.unfed n.second.queue.toNat).filterMap (ConnMetadata.pair n.addr)

/-! ### What is due -/

theorem shows_unfed : Shows EnginePc.unfed where
  popped _ := rfl
  without pc h := by cases pc <;> first | rfl | cases h
  move _ _ _ _ h := by
    cases h with
    | stateNull | stateSome | guardPass => exact .inl rfl
    | guardFail | noVerdict => exact .inr rfl
  handle _ := .inl rfl
  called _ := .inr rfl

theorem pair_exit : ConnMetadata.exit.pair x = none := rfl

theorem pair_of_ne (h : m.info ≠ x) : m.pair x = none := if_neg fun k => h k.2

theorem due_congr (ha : n'.addr = n.addr) (hq : n'.second.queue = n.second.queue) :
    s.due n' = s.due n := by
  rw [due, due, ha, hq]

theorem due_sublist (h : (s'.shown EnginePc.unfed n.second.queue.toNat).Sublist
    (s.shown EnginePc.unfed n.second.queue.toNat)) : (s'.due n).Sublist (s.due n) :=
  h.filterMap _

@[simp] theorem due_emit : (s.emit evs).due n = s.due n := rfl

@[simp] theorem due_addNode : (s.addNode n').due n = s.due n := rfl

@[simp] theorem due_update {f : ConnInfo → ConnInfo} : (s.update x f).due n = s.due n := rfl

/-- A push adds the message to what is due for its node, at most. -/
theorem due_push (i : Int) :
    ((s.push i m).due n).Sublist (s.due n ++ (m.pair n.addr).toList) := by
  rw [due, shown_push, List.filterMap_append]
  refine List.Sublist.append (List.Sublist.refl _) ?_
  split
  · cases h : m.pair n.addr <;> simp [h]
  · exact List.nil_sublist _

/-- The call of `navl_classify` takes the message at hand out of what is due. -/
theorem Change.unfed_called (h : Change s (.engine q .classify) s') (he : s.engines[q]? = some e)
    (hpc : e.pc = .classify m) :
    s.shown EnginePc.unfed q = m :: s'.shown EnginePc.unfed q := by
  rw [shown_eq he, hpc]
  cases h with
  | moved he' hv => rcases hv.act with h | h | h <;> cases h
  | @called _ e' m' it he' hpc' hd =>
      cases he.symm.trans he'
      rw [shown_setPc (s := s.emit _) he, if_pos rfl]
      rfl

/-- An entry that waits for no message has nothing due. -/
theorem due_eq_nil (h : s.waiting n = 0) : s.due n = [] := by
  have hle : (s.shown EnginePc.unfed n.second.queue.toNat).Sublist
      (s.pending n.second.queue.toNat) := by
    refine List.Sublist.append ?_ (List.Sublist.refl _)
    cases he : s.engines[n.second.queue.toNat]? with
    | none => exact List.nil_sublist _
    | some e =>
        rw [held_eq he, Option.bind_some]
        cases e.pc <;> first | exact List.Sublist.refl _ | exact List.nil_sublist _
  refine List.filterMap_eq_nil_iff.mpr fun m hm => if_neg fun k => ?_
  have := List.countP_eq_zero.mp h m (hle.subset hm)
  simp [k.1, k.2] at this

/-! ### What a step adds -/

/-- A step that appends `evs` to the log appends these three parts. -/
theorem log_parts (h : s'.log = s.log ++ evs) (x : NodeId) :
    s'.packets x = s.packets x ++ evs.filterMap (Event.packet x) ∧
      s'.arrivals x = s.arrivals x ++ evs.filterMap (Event.arrival x) ∧
      s'.fed x = s.fed x ++ evs.filterMap (Event.fed x) := by
  simp only [packets, arrivals, fed, h, List.filterMap_append, and_self]

/-- What a step gives to navl: a message at hand, for an entry that has its connection. -/
theorem Emits.fed (h : s.Emits a s' evs) (x : NodeId) :
    evs.filterMap (Event.fed x) = [] ∨ ∃ q e m it, a = .engine q .classify ∧
      s.engines[q]? = some e ∧ e.pc = .classify m ∧ it ∈ s.connTable ∧ it.addr = m.info ∧
      it.addr = x ∧ evs.filterMap (Event.fed x) = [(m.data, m.dir)] := by
  cases h with
  | silent | inserted | ignored | queued | create | reported => exact .inl rfl
  | idle | final => exact .inl (filterMap_destroyCall (fun _ _ => rfl) _)
  | @called q e m it _ he hpc hit ha =>
      by_cases hx : it.addr = x
      · exact .inr ⟨q, e, m, it, rfl, he, hpc, hit, ha, hx, by simp [Event.fed, hx]⟩
      · exact .inl (by simp [Event.fed, hx])

/-- **The order of a step.**  It gives to navl what was due first, and what becomes due came
last. -/
theorem Change.due (h : Change s a s') (hI : s.Inv inst) (hn : n ∈ s.nodes) :
    ∃ evs, s'.log = s.log ++ evs ∧ s.Emits a s' evs ∧
      (evs.filterMap (Event.fed n.addr) ++ s'.due n).Sublist
        (s.due n ++ evs.filterMap (Event.arrival n.addr)) := by
  have k := h
  obtain ⟨evs, hlog, hem⟩ := h.emits hI
  refine ⟨evs, hlog, hem, ?_⟩
  have quiet : (s'.due n).Sublist (s.due n) → evs.filterMap (Event.fed n.addr) = [] →
      (evs.filterMap (Event.fed n.addr) ++ s'.due n).Sublist
        (s.due n ++ evs.filterMap (Event.arrival n.addr)) := by
    intro hd hf
    rw [hf, List.nil_append]
    exact hd.trans (List.sublist_append_left _ _)
  rcases hem.fed n.addr with hf | ⟨q, e, m, it, rfl, he, hpc, hit, ha, hx, hf⟩
  · cases h with
    | dropped | ignored => exact quiet (List.Sublist.refl _) hf
    | @inserted key data filter dir now hk hfind =>
        -- the message is for the new node
        have hne : (metadata (s.newNode key filter dir now) 0 data).info ≠ n.addr :=
          Nat.ne_of_gt (hI.table.addr_lt n hn)
        have hp := due_push (s := s.addNode (s.newNode key filter dir now)) (n := n)
          (m := metadata (s.newNode key filter dir now) 0 data)
          (s.newNode key filter dir now).second.queue
        rw [pair_of_ne hne, due_addNode, Option.toList_none, List.append_nil] at hp
        exact quiet (by rwa [due_emit]) hf
    | @queued key data filter dir now it hk hfind hi hd =>
        have hp : (nextMetadata it key data).pair n.addr =
            Event.arrival n.addr (.matched it.addr key data (direction key it.first) now) := by
          simp [ConnMetadata.pair, nextMetadata, metadata, Event.arrival]
        have he : evs.filterMap (Event.arrival n.addr) =
            ((nextMetadata it key data).pair n.addr).toList := by
          rw [List.append_cancel_left hlog.symm, hp, List.filterMap_cons, hp.symm]
          cases (nextMetadata it key data).pair n.addr <;> rfl
        rw [hf, he, List.nil_append, due_emit]
        exact due_push (s := s.update it.addr (countQueued now)) _
    | @stopPush i hpc hi =>
        have hp := due_push (s := s) (n := n) (m := .exit) i
        rw [pair_exit, Option.toList_none, List.append_nil] at hp
        exact quiet hp hf
    | stopCleanup | stopMoved => exact quiet (List.Sublist.refl _) hf
    | cleanup => exact quiet (List.Sublist.refl _) hf
    | popped | exits | moved | handleSet | called | createFailed | created | unfound | reported
    | noted | thrown | cleared =>
        exact quiet (due_sublist (k.shown_quiet shows_unfed (.inl ⟨_, _, rfl⟩) _)) hf
  · -- the message handed over is the first of those due for its entry
    have hm : e.pc.held = some m := by rw [hpc]; rfl
    have hp := hI.held q m ((held_eq he).trans hm)
    have hq : n.second.queue = q :=
      hI.queue_of_works hn ⟨m, (held_eq he).trans hm, (hx.symm.trans ha).symm⟩
    have hdue : s.due n = (m.data, m.dir) :: s'.due n := by
      rw [due, due, hq, Int.toNat_natCast, h.unfed_called he hpc, List.filterMap_cons,
        ConnMetadata.pair, if_pos ⟨hp, ha.symm.trans hx⟩]
    rw [hf, hdue]
    exact List.sublist_append_left _ _

/-! ### The invariant -/

/-- What holds of the packets of every entry. -/
structure Ordered (s : Sys) : Prop where
  before : ∀ n ∈ s.nodes, n.second.dpiState = none → s.fed n.addr = []
  after : ∀ n ∈ s.nodes, n.second.dpiState ≠ none →
    (s.fed n.addr ++ s.due n).Sublist (s.arrivals n.addr)
  first : ∀ n ∈ s.nodes, ∃ data filter dir now,
    .inserted n.addr n.first data filter dir now ∈ s.log ∧
      s.packets n.addr = (data, 0) :: s.arrivals n.addr
  direction : ∀ x key data dir now, .matched x key data dir now ∈ s.log →
    ∃ n ∈ s.nodes, n.addr = x ∧ dir = direction key n.first
  guarded : ∀ (q : Nat) e m, s.engines[q]? = some e → e.pc = .classify m → m.data ≠ []
  payload : ∀ x, ∀ p ∈ s.fed x, p.1 ≠ []

theorem ordered_init (inst : Instances) : (init inst).Ordered where
  before _ hn := by simp [init, nodes] at hn
  after _ hn := by simp [init, nodes] at hn
  first _ hn := by simp [init, nodes] at hn
  direction _ _ _ _ _ h := by cases h
  guarded q e m he hpc := by
    obtain ⟨x, -, rfl⟩ := List.mem_map.mp (List.mem_of_getElem? he)
    cases hpc
  payload _ _ h := by cases h

/-- An address not given out yet is in no event. -/
theorem parts_fresh (hI : s.Inv inst) (hL : ∀ ev ∈ s.log, ev.Ok s) :
    s.arrivals s.nextNode = [] ∧ s.packets s.nextNode = [] ∧ s.fed s.nextNode = [] := by
  have old : ∀ ev ∈ s.log, ev.node ≠ some s.nextNode := fun ev hev h =>
    Nat.lt_irrefl _ (hI.node_lt (hL ev hev) h)
  refine ⟨?_, ?_, ?_⟩ <;>
  · refine List.filterMap_eq_nil_iff.mpr fun ev hev => ?_
    have := old ev hev
    cases ev <;> first | rfl | exact if_neg fun h => this (congrArg some h)

/-- What a packet of a known entry adds is an arrival. -/
theorem Emits.packet (h : s.Emits a s' evs) (hx : s.nextNode ≠ x) :
    evs.filterMap (Event.packet x) = evs.filterMap (Event.arrival x) := by
  cases h with
  | silent | create | called | reported | ignored | queued => rfl
  | idle | final =>
      rw [filterMap_destroyCall fun _ _ => rfl, filterMap_destroyCall fun _ _ => rfl]
  | @inserted key data filter dir now =>
      have : (s.newNode key filter dir now).addr ≠ x := hx
      simp [List.filterMap_cons, Event.packet, Event.arrival, this]

/-- The packet that makes an entry is its first. -/
theorem Change.first_packet (h : Change s a s') (hm : s.Makes a n) :
    ∃ data filter dir now key queue m, s'.log = s.log ++
      [.inserted n.addr n.first data filter dir now, .enqueue key queue m] := by
  cases hm with
  | @mk key data filter dir now hn hf =>
      cases h with
      | dropped h => exact absurd h hn
      | inserted => exact ⟨data, filter, dir, now, _, _, _, rfl⟩
      | ignored _ hf' | queued _ hf' => rw [hf] at hf'; cases hf'

/-- A thread comes to `navl_classify` with a payload. -/
theorem Change.guarded (h : Change s a s') (hs : ∀ (q : Nat) e m, s.engines[q]? = some e →
    e.pc = .classify m → m.data ≠ []) (he' : s'.engines[q]? = some e)
    (hpc' : e.pc = .classify m) : m.data ≠ [] := by
  rcases h.engine_back he' with he | ⟨act, e₀, -, -, hg⟩
  · exact hs q e m he hpc'
  · rw [hpc'] at hg
    generalize e₀.pc = pc₀ at hg
    cases hg with
    | moved hv =>
        cases hv with
        | guardPass hd hc =>
            simp only [classifiable, Bool.and_eq_true, bne_iff_ne, ne_eq,
              List.length_eq_zero_iff] at hc
            exact hc.1.1.2

/-- An entry without a connection is given to navl by no step. -/
theorem Emits.fed_none (h : s.Emits a s' evs) (hI : s.Inv inst) (hn : n ∈ s.nodes)
    (hd : n.second.dpiState = none) : evs.filterMap (Event.fed n.addr) = [] := by
  rcases h.fed n.addr with hf | ⟨q, e, m, it, rfl, he, hpc, hit, ha, hx, -⟩
  · exact hf
  · have known := hI.expects_live he (by rw [hpc]; rfl) hit ha
    rw [hpc, hI.table.eq_of_addr (mem_nodes.mpr (.inl hit)) hn hx] at known
    exact absurd hd known.1

/-- The step that gives an entry its connection leaves nothing due. -/
theorem Change.due_created (h : Change s (.engine q (.create true)) s') (hI : s.Inv inst)
    (hC : s.CreateOk) (hn : n ∈ s.nodes) (hw : s.Works q n) (hd : n.second.dpiState = none)
    (k : s.Next n (.engine q (.create true)) n') : s'.due n' = [] := by
  obtain ⟨e, m, he, hpc, ha⟩ : ∃ e m, s.engines[q]? = some e ∧ e.pc = .create m ∧
      n.addr = m.info := by
    obtain ⟨m, hm, ha⟩ := hw
    cases h with
    | moved he hv => rcases hv.act with h | h | h <;> cases h
    | created he hpc =>
        rw [held_eq he, hpc] at hm
        cases hm
        exact ⟨_, m, he, hpc, ha.symm⟩
  have spent := h.waiting_create hI he hpc hn ha k
  have := (hC n hn).2 hd
  exact due_eq_nil (by omega)

theorem Change.in_order (h : Change s a s') (hI : s.Inv inst) (hC : s.CreateOk) (hO : s.Ordered)
    (hn : n ∈ s.nodes) (k : s.Next n a n') (hd' : n'.second.dpiState ≠ none) :
    (s'.fed n'.addr ++ s'.due n').Sublist (s'.arrivals n'.addr) := by
  obtain ⟨evs, hlog, hem, hsub⟩ := h.due hI hn
  obtain ⟨-, ha, hf⟩ := log_parts hlog n.addr
  rw [k.evolves.addr, ha, hf]
  by_cases hd : n.second.dpiState = none
  · -- the connection is new, and the one message so far is spent on it
    rw [hO.before n hn hd, hem.fed_none hI hn hd]
    cases k with
    | same | packet | handle | verdict => exact absurd hd hd'
    | queued _ hd₁ => exact absurd hd hd₁
    | conn hw he hd₁ hh =>
        rw [h.due_created hI hC hn hw hd (.conn hw he hd₁ hh)]
        exact List.nil_sublist _
  · rw [due_congr k.evolves.addr k.evolves.queue, List.append_assoc]
    calc (s.fed n.addr ++ (evs.filterMap (Event.fed n.addr) ++ s'.due n)).Sublist
          (s.fed n.addr ++ (s.due n ++ evs.filterMap (Event.arrival n.addr))) :=
        (List.Sublist.refl _).append hsub
      _ = (s.fed n.addr ++ s.due n) ++ evs.filterMap (Event.arrival n.addr) :=
        (List.append_assoc ..).symm
      List.Sublist _ (s.arrivals n.addr ++ evs.filterMap (Event.arrival n.addr)) :=
        (hO.after n hn hd).append (List.Sublist.refl _)

/-- A packet's direction is computed from the key of the entry it is matched to. -/
theorem Emits.direction {key : ConnKey} {data : Bytes} {dir : UInt32} {now : Int}
    (h : s.Emits a s' evs) (hev : .matched x key data dir now ∈ evs) :
    ∃ n ∈ s.connTable, n.addr = x ∧ dir = direction key n.first := by
  have none : ∀ t : List Node, .matched x key data dir now ∉ t.map destroyCall := by
    intro t ht
    obtain ⟨n, -, hn⟩ := List.mem_map.mp ht
    cases hn
  cases h with
  | silent => cases hev
  | inserted | reported => rcases List.mem_pair.mp hev with h | h <;> cases h
  | create | called => cases List.mem_singleton.mp hev
  | idle | final => exact absurd hev (none _)
  | ignored hf =>
      cases List.mem_singleton.mp hev
      exact ⟨_, (ConnTable.find_some hf).1, rfl, rfl⟩
  | queued hn hf =>
      rcases List.mem_pair.mp hev with h | h
      · cases h
        exact ⟨_, (ConnTable.find_some hf).1, rfl, rfl⟩
      · cases h

theorem Change.ordered (h : Change s a s') (hI : s.Inv inst) (hL : ∀ ev ∈ s.log, ev.Ok s)
    (hC : s.CreateOk) (hO : s.Ordered) : s'.Ordered := by
  have hc := h.nodes hI
  obtain ⟨evs, hlog, hem⟩ := h.emits hI
  have parts := log_parts hlog
  obtain ⟨fresh₁, fresh₂, fresh₃⟩ := parts_fresh hI hL
  -- the first packet of a new entry is in no part of the log but `packets`
  have made : ∀ n', s.Makes a n' → s'.fed n'.addr = [] ∧ s'.arrivals n'.addr = [] ∧
      ∃ data filter dir now, .inserted n'.addr n'.first data filter dir now ∈ s'.log ∧
        s'.packets n'.addr = [(data, 0)] := by
    intro n' hm
    obtain ⟨data, filter, dir, now, key, queue, m, hlog'⟩ := h.first_packet hm
    obtain ⟨hp, ha, hf⟩ := log_parts hlog' n'.addr
    rw [hf, ha, hp, hm.addr, fresh₁, fresh₂, fresh₃]
    refine ⟨rfl, rfl, data, filter, dir, now, ?_, ?_⟩
    · rw [hlog', ← hm.addr]
      exact List.mem_append_right _ (List.mem_cons_self ..)
    · simp [List.filterMap_cons, Event.packet]
  refine ⟨fun n' hn' hd' => ?_, fun n' hn' hd' => ?_, fun n' hn' => ?_, ?_, fun q e m =>
    h.guarded hO.guarded, ?_⟩
  · rcases hc.back hn' with ⟨n, hn, k⟩ | hm
    · have hd : n.second.dpiState = none := by
        by_contra hd
        exact hd ((k.evolves.conn hd).1 ▸ hd')
      rw [k.evolves.addr, (parts n.addr).2.2, hO.before n hn hd, hem.fed_none hI hn hd]
      rfl
    · exact (made n' hm).1
  · rcases hc.back hn' with ⟨n, hn, k⟩ | hm
    · exact h.in_order hI hC hO hn k hd'
    · cases hm
      exact absurd rfl hd'
  · rcases hc.back hn' with ⟨n, hn, k⟩ | hm
    · obtain ⟨data, filter, dir, now, hev, hp⟩ := hO.first n hn
      obtain ⟨hp', ha', -⟩ := parts n.addr
      refine ⟨data, filter, dir, now, ?_, ?_⟩
      · rw [hlog, k.evolves.addr, k.evolves.first]
        exact List.mem_append_left _ hev
      · rw [k.evolves.addr, hp', ha', hp, hem.packet (Nat.ne_of_gt (hI.table.addr_lt n hn))]
        rfl
    · obtain ⟨-, ha, data, filter, dir, now, hev, hp⟩ := made n' hm
      exact ⟨data, filter, dir, now, hev, by rw [hp, ha]⟩
  · intro x key data dir now hev
    rw [hlog, List.mem_append] at hev
    rcases hev with hev | hev
    · obtain ⟨n, hn, ha, hd⟩ := hO.direction x key data dir now hev
      obtain ⟨n', hn', k⟩ := hc.forward hn
      exact ⟨n', hn', k.evolves.addr.trans ha, k.evolves.first ▸ hd⟩
    · obtain ⟨n, hn, ha, hd⟩ := hem.direction hev
      obtain ⟨n', hn', k⟩ := hc.forward (mem_nodes.mpr (.inl hn))
      exact ⟨n', hn', k.evolves.addr.trans ha, k.evolves.first ▸ hd⟩
  · intro x p hp
    rw [(parts x).2.2, List.mem_append] at hp
    rcases hp with hp | hp
    · exact hO.payload x p hp
    · rcases hem.fed x with hf | ⟨q, e, m, it, -, he, hpc, -, -, -, hf⟩
      · rw [hf] at hp
        cases hp
      · rw [hf, List.mem_singleton] at hp
        exact hp ▸ hO.guarded q e m he hpc

theorem reachable_ordered {as : List Act} (h : system.Run (init inst) as s) : s.Ordered := by
  have start : (init inst).CreateOk := fun _ hn => by simp [init, nodes] at hn
  have log : ∀ ev ∈ (init inst).log, ev.Ok (init inst) := fun _ h => by cases h
  refine (h.invariant (I := fun s => s.Inv inst ∧ (∀ ev ∈ s.log, ev.Ok s) ∧ s.CreateOk ∧
    s.Ordered) ?_ ⟨inv_init inst, log, start, ordered_init inst⟩).2.2.2
  rintro s a s' ⟨hI, hL, hC, hO⟩ hs
  have hs := step_change hs
  exact ⟨hs.inv hI, hs.log_ok hI hL, hs.createOk hI hL hC, hs.ordered hI hL hC hO⟩

/-- **In-order delivery.**  For every entry there has been, what navl was given is a subsequence of
the packets matched to it, which are all of its packets but the one that made it; they are
packets of its connection, with their directions, and those given have a payload. -/
theorem delivered_in_order {as : List Act} (h : system.Run (init inst) as s) :
    ∀ it ∈ s.nodes,
      (s.fed it.addr).Sublist (s.arrivals it.addr) ∧
      (∃ data filter dir now, .inserted it.addr it.first data filter dir now ∈ s.log ∧
        s.packets it.addr = (data, 0) :: s.arrivals it.addr) ∧
      (∀ key data dir now, .matched it.addr key data dir now ∈ s.log →
        connKeyEqual it.first key ∧ dir = direction key it.first) ∧
      ∀ p ∈ s.fed it.addr, p.1 ≠ [] := by
  have hI := reachable h
  have hO := reachable_ordered h
  intro it hit
  refine ⟨?_, hO.first it hit, fun key data dir now hev => ?_, hO.payload it.addr⟩
  · by_cases hd : it.second.dpiState = none
    · rw [hO.before it hit hd]
      exact List.nil_sublist _
    · exact (List.sublist_append_left _ _).trans (hO.after it hit hd)
  · obtain ⟨n, hn, ha, hk⟩ := reachable_log h _ hev
    obtain ⟨n', hn', ha', hd⟩ := hO.direction _ _ _ _ _ hev
    rw [← hI.table.eq_of_addr hn hit ha]
    exact ⟨hk, by rw [hd, hI.table.eq_of_addr hn' hn (ha'.trans ha.symm)]⟩

/-- The packet from the other end is the second of its connection, and is given to navl. -/
theorem delivered_in_order_decided : ∃ it ∈ decidedState.nodes, it.addr = 0 ∧
    decidedState.packets 0 = [([1], 0), ([2], 1)] ∧ decidedState.fed 0 = [([2], 1)] ∧
    (decidedState.fed it.addr).Sublist (decidedState.arrivals it.addr) := by
  obtain ⟨it, hit, ha⟩ : ∃ it ∈ decidedState.nodes, it.addr = 0 := by decide
  exact ⟨it, hit, ha, by decide, by decide, (delivered_in_order run_decided it hit).1⟩

end Sys
end DistDpi
