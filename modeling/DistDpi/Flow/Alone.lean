import DistDpi.Flow.Identity

/-!
# Flow — one connection alone

The abstract model of what the flow table and the engines are for: one connection, with its
entry, the messages of its queue that are its own, and the thread of that queue (`Alone`).  The
code's state has such a view for every connection `K` (`view`); a step that concerns `K` is a step
of `Alone` (`Change.view`), any other leaves the view as it is (`Change.view_other`).

Pointers and connections of navl are abstracted: a message points to the entry there is (0), or to
one that is gone (1), and an entry has a connection (0) or none.  A message of another connection
is not seen, and a thread that works on one waits for a message, as far as `K` can tell.
-/

namespace DistDpi

/-- What is seen of the entry's information. -/
def ConnInfo.hide (i : ConnInfo) : ConnInfo := { i with dpiState := i.dpiState.map fun _ => 0 }

/-- The same place in the loop, with another message. -/
def EnginePc.map (f : ConnMetadata → ConnMetadata) : EnginePc → EnginePc
  | .testState m => .testState (f m)
  | .setHandle m => .setHandle (f m)
  | .create m => .create (f m)
  | .guard m => .guard (f m)
  | .classify m => .classify (f m)
  | .callback m => .callback (f m)
  | .pop => .pop
  | .clear => .clear
  | .failed => .failed
  | .exited => .exited

/-- A message that points to `p`. -/
def ConnMetadata.point (p : NodeId) (m : ConnMetadata) : ConnMetadata :=
  if m.exitFlag then m else { m with key := p, info := p }

theorem ConnMetadata.point_point {m : ConnMetadata} {x y : NodeId} :
    (m.point x).point y = m.point y := by
  simp only [point]
  split <;> simp [*]

theorem EnginePc.map_map {pc : EnginePc} {f g : ConnMetadata → ConnMetadata} :
    (pc.map f).map g = pc.map (g ∘ f) := by
  cases pc <;> rfl

/-- A message, without its pointers. -/
structure Pushed where
  queue : Int
  pktnum : UInt32
  dir : UInt32
  data : Bytes
  deriving DecidableEq, Repr

/-- A push for a packet of the connection `K`. -/
def Event.pushed (K : ConnKey) : Event → Option Pushed
  | .enqueue key queue m => if connKeyEqual key K then some ⟨queue, m.pktnum, m.dir, m.data⟩ else none
  | _ => none

/-- A connection on its own. -/
structure Alone where
  entry : Option (ConnKey × ConnInfo)
  queue : List ConnMetadata
  engine : Option Engine
  numQueues : Int
  stopPc : StopPc
  pushed : List Pushed
  deriving DecidableEq, Repr

/-! ### The steps of a connection -/

namespace Alone

/-- The entry a message points to. -/
def deref (v : Alone) (m : ConnMetadata) : Option (ConnKey × ConnInfo) :=
  if m.info = 0 then v.entry else none

def setEntry (v : Alone) (f : ConnInfo → ConnInfo) : Alone :=
  { v with entry := v.entry.map fun it => (it.1, f it.2) }

def setPc (v : Alone) (pc : EnginePc) : Alone :=
  { v with engine := v.engine.map fun e => { e with pc } }

/-- A message for the entry, in the queue `queue`. -/
def push (v : Alone) (queue : Int) (m : ConnMetadata) : Alone :=
  { v with queue := v.queue ++ [m], pushed := v.pushed ++ [⟨queue, m.pktnum, m.dir, m.data⟩] }

/-- The entry is erased. -/
def erase (v : Alone) : Alone :=
  { v with
    entry := none
    queue := v.queue.map (ConnMetadata.point 1)
    engine := v.engine.map fun e => { e with pc := e.pc.map (ConnMetadata.point 1) } }

/-- A packet of the connection. -/
def insert (v : Alone) (key : ConnKey) (data : Bytes) (filter : Nat) (dir : UInt8) (now : Int) :
    Alone :=
  if v.numQueues = 0 then v
  else match v.entry with
    | none =>
        let queue := Sys.queueIndex (connKeyHasher key) v.numQueues
        let info := { key, filter, dir := dir.toNat, queue, lastpacketTimestamp := toInt now }
        { v with entry := some (key, info) }.push queue ⟨0, 0, 0, 0, data, false⟩
    | some (first, i) =>
        if i.classState = .inspecting ∧ i.dpiState ≠ none then
          (v.setEntry (Sys.countQueued now)).push i.queue
            ⟨0, 0, i.packetnum + 1, Sys.direction key first, data, false⟩
        else v.setEntry Sys.countPacket

/-- A statement of the thread, on a message of the connection. -/
def engineStep (v : Alone) (a : EngineAct) : Option Alone := do
  let e ← v.engine
  match e.pc, a with
  | .pop, .pop =>
      match v.queue with
      | [] => none
      | m :: rest =>
          some ({ v with queue := rest }.setPc (if m.exitFlag then .exited else .testState m))
  | .testState m, .testState => do
      let it ← v.deref m
      some (v.setPc (if it.2.dpiState = none then .setHandle m else .guard m))
  | .setHandle m, .setHandle => do
      let _ ← v.deref m
      some ((v.setEntry fun i => { i with handle := e.navlhandle }).setPc (.create m))
  | .create m, .create ok => do
      let _ ← v.deref m
      some ((if ok then v.setEntry fun i => { i with dpiState := some 0 } else v).setPc .pop)
  | .guard m, .guard => do
      let it ← v.deref m
      some (v.setPc (if Sys.classifiable m it.2 then .classify m else .pop))
  | .classify m, .classify => do
      let _ ← v.deref m
      some (v.setPc (.callback m))
  | .callback m, .callback r now => do
      let _ ← v.deref m
      some ((v.setEntry (Sys.classifiedInfo r now)).setPc .pop)
  | .callback _, .classifyFail => some (v.setPc .pop)
  | _, _ => none

/-- A statement of `FlowTable::stop`, for a connection of queue `q`. -/
def stop (v : Alone) (q : Nat) : Option Alone :=
  match v.stopPc with
  | .running => some { v with stopPc := .joined }
  | .joined => some { v.erase with stopPc := .cleaned }
  | .cleaned => some { v with stopPc := .pushing 0 }
  | .pushing i =>
      if (i : Int) < v.numQueues then
        some { v with queue := if i = q then v.queue ++ [.exit] else v.queue, stopPc := .pushing (i + 1) }
      else some { v with stopPc := .stopped }
  | .stopped => none

/-- The index of the connection's queue. -/
def home (K : ConnKey) (numQueues : Int) : Nat := (Sys.queueIndex (connKeyHasher K) numQueues).toNat

/-- A step that concerns the connection `K`. -/
def step (K : ConnKey) (v : Alone) : Act → Option Alone
  | .insert key data filter dir now => some (v.insert key data filter dir now)
  | .engine q a => if q = home K v.numQueues then v.engineStep a else none
  | .cleanup now =>
      if v.stopPc = .running then
        some (if v.entry.any fun it => Sys.expired (toInt now) ⟨0, it.1, it.2⟩ then v.erase else v)
      else none
  | .stop => v.stop (home K v.numQueues)

/-- The connection `K` on its own. -/
def machine (K : ConnKey) : Machine Alone Act := ⟨step K⟩

/-! ### What a statement of the thread does -/

/-- **A statement of the thread** `e`, by where the thread is. -/
inductive Thread (v : Alone) (e : Engine) : EngineAct → Alone → Prop
  | pop {m : ConnMetadata} {rest : List ConnMetadata} (hpc : e.pc = .pop) (hq : v.queue = m :: rest) :
      Thread v e .pop ({ v with queue := rest }.setPc (if m.exitFlag then .exited else .testState m))
  | testState {m : ConnMetadata} {it : ConnKey × ConnInfo} (hpc : e.pc = .testState m)
      (hd : v.deref m = some it) :
      Thread v e .testState (v.setPc (if it.2.dpiState = none then .setHandle m else .guard m))
  | setHandle {m : ConnMetadata} {it : ConnKey × ConnInfo} (hpc : e.pc = .setHandle m)
      (hd : v.deref m = some it) :
      Thread v e .setHandle
        ((v.setEntry fun i => { i with handle := e.navlhandle }).setPc (.create m))
  | create {m : ConnMetadata} {it : ConnKey × ConnInfo} {ok : Bool} (hpc : e.pc = .create m)
      (hd : v.deref m = some it) :
      Thread v e (.create ok)
        ((if ok then v.setEntry fun i => { i with dpiState := some 0 } else v).setPc .pop)
  | guard {m : ConnMetadata} {it : ConnKey × ConnInfo} (hpc : e.pc = .guard m)
      (hd : v.deref m = some it) :
      Thread v e .guard (v.setPc (if Sys.classifiable m it.2 then .classify m else .pop))
  | classify {m : ConnMetadata} {it : ConnKey × ConnInfo} (hpc : e.pc = .classify m)
      (hd : v.deref m = some it) : Thread v e .classify (v.setPc (.callback m))
  | callback {m : ConnMetadata} {it : ConnKey × ConnInfo} {r : Verdict} {now : Int}
      (hpc : e.pc = .callback m) (hd : v.deref m = some it) :
      Thread v e (.callback r now) ((v.setEntry (Sys.classifiedInfo r now)).setPc .pop)
  | classifyFail {m : ConnMetadata} (hpc : e.pc = .callback m) :
      Thread v e .classifyFail (v.setPc .pop)

section Thread

variable {v w : Alone} {e : Engine} {act : EngineAct}

theorem Thread.engineStep (h : v.Thread e act w) (he : v.engine = some e) :
    v.engineStep act = some w := by
  cases h with
  | pop hpc hq => simp [Alone.engineStep, he, hpc, hq]
  | testState hpc hd | setHandle hpc hd | create hpc hd | guard hpc hd | classify hpc hd
  | callback hpc hd => simp [Alone.engineStep, he, hpc, hd]
  | classifyFail hpc => simp [Alone.engineStep, he, hpc]

theorem thread_of_engineStep (hs : v.engineStep act = some w) :
    ∃ e, v.engine = some e ∧ v.Thread e act w := by
  obtain ⟨e, he, h⟩ := Option.bind_eq_some_iff.mp hs
  refine ⟨e, he, ?_⟩
  split at h
  next hpc =>
    split at h
    next => cases h
    next hq =>
      cases h
      exact .pop hpc hq
  next hpc =>
    obtain ⟨it, hd, h⟩ := Option.bind_eq_some_iff.mp h
    cases h
    exact .testState hpc hd
  next hpc =>
    obtain ⟨it, hd, h⟩ := Option.bind_eq_some_iff.mp h
    cases h
    exact .setHandle hpc hd
  next hpc =>
    obtain ⟨it, hd, h⟩ := Option.bind_eq_some_iff.mp h
    cases h
    exact .create hpc hd
  next hpc =>
    obtain ⟨it, hd, h⟩ := Option.bind_eq_some_iff.mp h
    cases h
    exact .guard hpc hd
  next hpc =>
    obtain ⟨it, hd, h⟩ := Option.bind_eq_some_iff.mp h
    cases h
    exact .classify hpc hd
  next hpc =>
    obtain ⟨it, hd, h⟩ := Option.bind_eq_some_iff.mp h
    cases h
    exact .callback hpc hd
  next hpc =>
    cases h
    exact .classifyFail hpc
  next => cases h

end Thread

end Alone

namespace Sys

variable {inst : Instances} {s s' : Sys} {a : Act} {q : Nat} {n n' : Node} {m : ConnMetadata}
  {x : NodeId} {evs : List Event} {e : Engine} {K : ConnKey} {pc : EnginePc}

/-! ### The view of a connection -/

/-- The message is for an entry of the connection `K`, or the exit message. -/
def keyed (K : ConnKey) (s : Sys) (m : ConnMetadata) : Bool :=
  m.exitFlag || s.nodes.any fun n => n.addr == m.info && connKeyEqual n.first K

/-- What the address `x` is to the connection `K`. -/
def pointer (K : ConnKey) (s : Sys) (x : NodeId) : NodeId :=
  if (ConnTable.find s.connTable K).any fun n => n.addr == x then 0 else 1

/-- What `K` sees of a message. -/
def seen (K : ConnKey) (s : Sys) (m : ConnMetadata) : ConnMetadata := m.point (pointer K s m.info)

/-- What `K` sees of a thread of its queue. -/
def seenPc (K : ConnKey) (s : Sys) (pc : EnginePc) : EnginePc :=
  if pc.held.any fun m => !keyed K s m then .pop else pc.map (seen K s)

/-- What `K` sees of the messages. -/
def seenQueue (K : ConnKey) (s : Sys) (l : List ConnMetadata) : List ConnMetadata :=
  (l.filter (keyed K s)).map (seen K s)

/-- The connection `K` on its own. -/
def view (K : ConnKey) (s : Sys) : Alone where
  entry := (ConnTable.find s.connTable K).map fun n => (n.first, n.second.hide)
  queue := seenQueue K s (s.queue (Alone.home K s.numQueues))
  engine := (s.engines[Alone.home K s.numQueues]?).map fun e => { e with pc := seenPc K s e.pc }
  numQueues := s.numQueues
  stopPc := s.stopPc
  pushed := s.log.filterMap (Event.pushed K)

/-- The message the thread of queue `q` has, or takes next. -/
def atHand (s : Sys) (q : Nat) : Option ConnMetadata := (s.held q).or (s.queue q).head?

/-- The step, if it concerns the connection `K`: its packets, the statements of the thread of its
queue on its messages, and all of `cleanupFlows` and `FlowTable::stop`. -/
def concerning (K : ConnKey) (s : Sys) (a : Act) : Option Act :=
  match a with
  | .insert key _ _ _ _ => if connKeyEqual key K then some a else none
  | .engine q _ =>
      if q = Alone.home K s.numQueues ∧ (s.atHand q).any (keyed K s) then some a else none
  | .cleanup _ | .stop => some a

/-! ### What is seen of a message -/

theorem keyed_exit (hx : m.exitFlag = true) : keyed K s m = true := by
  simp [keyed, hx]

/-- A message is seen by the connection of the node it points to. -/
theorem TableOk.keyed_iff (hT : s.TableOk) (hx : m.exitFlag = false) (hn : n ∈ s.nodes)
    (ha : n.addr = m.info) : keyed K s m = connKeyEqual n.first K := by
  rw [keyed, hx, Bool.false_or, Bool.eq_iff_iff, List.any_eq_true]
  constructor
  · rintro ⟨n', hn', k⟩
    simp only [Bool.and_eq_true, beq_iff_eq] at k
    cases hT.eq_of_addr hn' hn (k.1.trans ha.symm)
    exact k.2
  · intro k
    exact ⟨n, hn, by simp [ha, k]⟩

theorem seenQueue_congr {l : List ConnMetadata} (hk : ∀ m ∈ l, keyed K s' m = keyed K s m)
    (hs : ∀ m ∈ l, seen K s' m = seen K s m) : seenQueue K s' l = seenQueue K s l := by
  rw [seenQueue, seenQueue, List.filter_congr hk]
  exact List.map_congr_left fun m hm => hs m (List.mem_of_mem_filter hm)

theorem seenPc_congr (hk : ∀ m, pc.held = some m → keyed K s' m = keyed K s m)
    (hs : ∀ m, pc.held = some m → seen K s' m = seen K s m) : seenPc K s' pc = seenPc K s pc := by
  have hany : (pc.held.any fun m => !keyed K s' m) = pc.held.any fun m => !keyed K s m := by
    cases h : pc.held with
    | none => rfl
    | some m => rw [Option.any_some, Option.any_some, hk m h]
  have hmap : pc.map (seen K s') = pc.map (seen K s) := by
    cases pc <;> first
      | rfl
      | exact congrArg _ (hs _ rfl)
  rw [seenPc, hany, hmap, seenPc]

theorem seenPc_of_held (hm : pc.held = some m) (hk : keyed K s m = true) :
    seenPc K s pc = pc.map (seen K s) := by
  simp [seenPc, hm, hk]

theorem seenPc_other (hm : pc.held = some m) (hk : keyed K s m = false) : seenPc K s pc = .pop := by
  simp [seenPc, hm, hk]

theorem seenPc_none (hm : pc.held = none) : seenPc K s pc = pc := by
  cases pc <;> first | rfl | cases hm

@[simp] theorem seen_exitFlag : (seen K s m).exitFlag = m.exitFlag := by
  rw [seen, ConnMetadata.point]
  split <;> rfl

@[simp] theorem seen_pktnum : (seen K s m).pktnum = m.pktnum := by
  rw [seen, ConnMetadata.point]
  split <;> rfl

@[simp] theorem seen_dir : (seen K s m).dir = m.dir := by
  rw [seen, ConnMetadata.point]
  split <;> rfl

@[simp] theorem seen_data : (seen K s m).data = m.data := by
  rw [seen, ConnMetadata.point]
  split <;> rfl

theorem seen_info (hx : m.exitFlag = false) : (seen K s m).info = pointer K s m.info := by
  simp [seen, ConnMetadata.point, hx]

/-- A live node that a message of `K` points to is the entry of `K`. -/
theorem Inv.find_of_keyed (hI : s.Inv inst) (hx : m.exitFlag = false) (hk : keyed K s m = true)
    (hd : ConnTable.deref s.connTable m.info = some n) :
    ConnTable.find s.connTable K = some n := by
  obtain ⟨hn, ha⟩ := ConnTable.deref_some hd
  rw [hI.table.keyed_iff hx (mem_nodes.mpr (.inl hn)) ha] at hk
  exact hI.table.keys.find_of_mem hn hk

/-- A message points to the entry of `K` only if it is one of `K`. -/
theorem keyed_of_find (hf : ConnTable.find s.connTable K = some n) (ha : n.addr = m.info) :
    keyed K s m = true := by
  obtain ⟨hn, he⟩ := ConnTable.find_some hf
  rw [keyed, Bool.or_eq_true]
  exact .inr (List.any_eq_true.mpr ⟨n, mem_nodes.mpr (.inl hn), by simp [ha, he]⟩)

theorem not_at_of_not_keyed (hk : keyed K s m = false) :
    (ConnTable.find s.connTable K).any (fun n => n.addr == m.info) = false := by
  cases hf : ConnTable.find s.connTable K with
  | none => rfl
  | some n =>
      rw [Option.any_some, beq_eq_false_iff_ne]
      intro ha
      rw [keyed_of_find hf ha] at hk
      cases hk

/-- The entry of `K` stands at the address the message points to, or it is gone. -/
theorem Inv.deref_seen (hI : s.Inv inst) (hx : m.exitFlag = false) (hk : keyed K s m = true) :
    (view K s).deref (seen K s m) =
      (ConnTable.deref s.connTable m.info).map fun n => (n.first, n.second.hide) := by
  rw [Alone.deref, seen_info hx, pointer]
  cases hd : ConnTable.deref s.connTable m.info with
  | some n =>
      have ha := (ConnTable.deref_some hd).2
      simp [view, hI.find_of_keyed hx hk hd, ha]
  | none =>
      cases hf : ConnTable.find s.connTable K with
      | none => simp
      | some n =>
          have ha : n.addr ≠ m.info := by
            intro ha
            have hd' := hI.table.deref_of_mem (ConnTable.find_some hf).1
            rw [ha, hd] at hd'
            cases hd'
          simp [ha]

@[simp] theorem view_numQueues : (view K s).numQueues = s.numQueues := rfl

@[simp] theorem view_stopPc : (view K s).stopPc = s.stopPc := rfl

theorem view_nextConn (x : ConnId) : view K { s with nextConn := x } = view K s := rfl

theorem view_name (name : Bytes) (l : List DPIFlowData) :
    view K { s with name := name, updateDPQueue := l } = view K s := rfl

theorem view_engine (he : s.engines[Alone.home K s.numQueues]? = some e) :
    (view K s).engine = some { e with pc := seenPc K s e.pc } := by
  rw [view, he]
  rfl

/-! ### The view of a change -/

theorem keyed_update {f : ConnInfo → ConnInfo} : keyed K (s.update x f) = keyed K s := by
  funext m
  have hnodes : (s.update x f).nodes.any (fun n => n.addr == m.info && connKeyEqual n.first K) =
      s.nodes.any fun n => n.addr == m.info && connKeyEqual n.first K := by
    simp only [nodes, update_connTable, update_erased, List.any_append, ConnTable.update,
      List.any_map]
    congr 2
    funext n
    dsimp only [Function.comp_apply]
    split <;> rfl
  rw [keyed, hnodes, keyed]

theorem seen_update {f : ConnInfo → ConnInfo} : seen K (s.update x f) = seen K s := by
  funext m
  have hp : pointer K (s.update x f) m.info = pointer K s m.info := by
    rw [pointer, update_connTable, ConnTable.find_update, pointer]
    cases ConnTable.find s.connTable K with
    | none => rfl
    | some n =>
        rw [Option.map_some, Option.any_some, Option.any_some]
        split <;> rfl
  rw [seen, hp, seen]

theorem view_setPc (q : Nat) (pc : EnginePc) : view K (s.setPc q pc) =
    if q = Alone.home K s.numQueues then (view K s).setPc (seenPc K s pc) else view K s := by
  have hk : keyed K (s.setPc q pc) = keyed K s := rfl
  have hs : seen K (s.setPc q pc) = seen K s := rfl
  have hpc : seenPc K (s.setPc q pc) = seenPc K s := rfl
  have hq : seenQueue K (s.setPc q pc) = seenQueue K s := rfl
  have he : (s.setPc q pc).engines[Alone.home K s.numQueues]? =
      if q = Alone.home K s.numQueues then
        (s.engines[Alone.home K s.numQueues]?).map fun e => { e with pc }
      else s.engines[Alone.home K s.numQueues]? := by
    rw [setPc_engines, List.getElem?_modify]
    split <;> simp
  simp only [view, setPc_numQueues, he, hpc, hq]
  split
  · simp only [Alone.setPc, Option.map_map]
    rfl
  · rfl

theorem view_emit : view K (s.emit evs) =
    { view K s with pushed := (view K s).pushed ++ evs.filterMap (Event.pushed K) } := by
  simp only [view, emit_log, List.filterMap_append]
  rfl

theorem seenPc_update {f : ConnInfo → ConnInfo} : seenPc K (s.update x f) = seenPc K s := by
  funext pc
  rw [seenPc, keyed_update, seen_update, seenPc]

theorem view_emit_quiet (h : evs.filterMap (Event.pushed K) = []) :
    view K (s.emit evs) = view K s := by
  rw [view_emit, h, List.append_nil]

theorem seenPc_emit : seenPc K (s.emit evs) = seenPc K s := rfl

theorem seenPc_nextConn (x : ConnId) : seenPc K { s with nextConn := x } = seenPc K s := rfl

theorem seenPc_name (name : Bytes) (l : List DPIFlowData) :
    seenPc K { s with name := name, updateDPQueue := l } = seenPc K s := rfl

/-- A write at an address that is not that of the entry. -/
theorem view_update_other {f : ConnInfo → ConnInfo}
    (hx : (ConnTable.find s.connTable K).any (fun n => n.addr == x) = false) :
    view K (s.update x f) = view K s := by
  have hq : seenQueue K (s.update x f) = seenQueue K s := by
    funext l
    rw [seenQueue, keyed_update, seen_update, seenQueue]
  simp only [view, update_connTable, ConnTable.find_update, hq, seenPc_update]
  cases hf : ConnTable.find s.connTable K with
  | none => rfl
  | some n =>
      rw [hf, Option.any_some, beq_eq_false_iff_ne] at hx
      rw [Option.map_some, if_neg hx]
      rfl

/-- A write at the address of the entry. -/
theorem view_update_entry {f g : ConnInfo → ConnInfo}
    (hf : ConnTable.find s.connTable K = some n) (ha : n.addr = x)
    (hfg : (f n.second).hide = g n.second.hide) :
    view K (s.update x f) = (view K s).setEntry g := by
  have hq : seenQueue K (s.update x f) = seenQueue K s := by
    funext l
    rw [seenQueue, keyed_update, seen_update, seenQueue]
  simp only [view, update_connTable, ConnTable.find_update, hq, seenPc_update, hf, Option.map_some,
    if_pos ha, Alone.setEntry, hfg]
  rfl

theorem view_push (i : Int) : view K (s.push i m) =
    { view K s with
      queue := (view K s).queue ++
        if (Alone.home K s.numQueues : Int) = i ∧
            Alone.home K s.numQueues < s.dpiEngineQueueList.length
        then seenQueue K s [m] else [] } := by
  have hs : seenQueue K (s.push i m) = seenQueue K s := rfl
  have hpc : seenPc K (s.push i m) = seenPc K s := rfl
  simp only [view, push_numQueues, queue_push, hs, hpc, push_connTable, push_engines, push_stopPc,
    push_log]
  split
  · simp only [seenQueue, List.filter_append, List.map_append]
  · simp only [List.append_nil]

theorem view_setQueue {l : List ConnMetadata} (hq : q < s.dpiEngineQueueList.length) :
    view K (s.setQueue q l) =
      if q = Alone.home K s.numQueues then { view K s with queue := seenQueue K s l }
      else view K s := by
  have hs : seenQueue K (s.setQueue q l) = seenQueue K s := rfl
  have hpc : seenPc K (s.setQueue q l) = seenPc K s := rfl
  simp only [view, setQueue_numQueues, queue_setQueue hq, hs, hpc, setQueue_connTable,
    setQueue_engines, setQueue_stopPc, setQueue_log]
  by_cases h : q = Alone.home K s.numQueues
  · rw [if_pos h, if_pos h.symm]
  · rw [if_neg h, if_neg (Ne.symm h)]

/-- A thread that goes where it is seen to be already. -/
theorem view_thread (he : s.engines[q]? = some e) (hpc : seenPc K s pc = seenPc K s e.pc) :
    view K (s.setPc q pc) = view K s := by
  rw [view_setPc]
  split
  · rename_i hq
    rw [hq] at he
    have hv := view_engine he
    rw [Alone.setPc, hv, Option.map_some, hpc, ← hv]
  · rfl

/-- A new node, in a state whose messages point to older ones. -/
theorem view_addNode (hf : ConnTable.find s.connTable n.first = none)
    (hold : ∀ q m, m ∈ s.pending q → m.exitFlag = true ∨ m.info ≠ n.addr) :
    view K (s.addNode n) =
      if connKeyEqual n.first K then { view K s with entry := some (n.first, n.second.hide) }
      else view K s := by
  have hfind : ConnTable.find (s.addNode n).connTable K =
      if connKeyEqual n.first K then some n else ConnTable.find s.connTable K := by
    rw [addNode_connTable, ConnTable.find_append]
    split
    · rename_i he
      rw [← ConnTable.find_eq_of_equal he, hf, Option.none_or]
    · rw [Option.or_none]
  -- the messages that are there are seen as before
  have hkeyed : ∀ {q m}, m ∈ s.pending q → keyed K (s.addNode n) m = keyed K s m := by
    intro q m hm
    rcases hold q m hm with hx | ha
    · rw [keyed_exit hx, keyed_exit hx]
    · have hne : (n.addr == m.info) = false := beq_eq_false_iff_ne.mpr (Ne.symm ha)
      simp only [keyed, nodes, addNode_connTable, addNode_erased, List.any_append, List.any_cons,
        List.any_nil, hne, Bool.false_and, Bool.or_false]
  have hseen : ∀ {q m}, m ∈ s.pending q → seen K (s.addNode n) m = seen K s m := by
    intro q m hm
    rcases hold q m hm with hx | ha
    · simp [seen, ConnMetadata.point, hx]
    · have hne : (n.addr == m.info) = false := beq_eq_false_iff_ne.mpr (Ne.symm ha)
      rw [seen, pointer, hfind]
      split
      · rename_i he
        rw [Option.any_some, hne, if_neg Bool.false_ne_true, seen, pointer,
          ← ConnTable.find_eq_of_equal he, hf]
        rfl
      · rfl
  have hq : seenQueue K (s.addNode n) (s.queue (Alone.home K s.numQueues)) =
      seenQueue K s (s.queue (Alone.home K s.numQueues)) :=
    seenQueue_congr (fun m hm => hkeyed (List.mem_append_right _ hm))
      fun m hm => hseen (List.mem_append_right _ hm)
  have he : ((s.engines[Alone.home K s.numQueues]?).map fun e =>
      ({ e with pc := seenPc K (s.addNode n) e.pc } : Engine)) =
        (s.engines[Alone.home K s.numQueues]?).map fun e => { e with pc := seenPc K s e.pc } := by
    cases he : s.engines[Alone.home K s.numQueues]? with
    | none => rfl
    | some e =>
        have hm : ∀ {m}, e.pc.held = some m → m ∈ s.pending (Alone.home K s.numQueues) :=
          fun hm => held_mem_pending ((held_eq he).trans hm)
        rw [Option.map_some, Option.map_some,
          seenPc_congr (fun m h => hkeyed (hm h)) fun m h => hseen (hm h)]
  have hqueue : (s.addNode n).queue = s.queue := rfl
  simp only [view, addNode_numQueues, addNode_engines, addNode_stopPc, addNode_log, hqueue, hfind,
    hq, he]
  by_cases hK : connKeyEqual n.first K = true
  · simp only [hK, if_true, Option.map_some]
  · simp only [if_neg hK]

/-! ### What is erased -/

/-- The nodes that `p` tells are erased. -/
def erase (p : Node → Bool) (s : Sys) : Sys :=
  { s with
    connTable := s.connTable.filter fun n => !p n
    erased := s.erased ++ s.connTable.filter p }

theorem keyed_erase (p : Node → Bool) : keyed K (s.erase p) = keyed K s := by
  funext m
  have hperm : (s.erase p).nodes.Perm s.nodes := by
    have hp : (s.connTable.filter p ++ s.connTable.filter fun n => !p n).Perm s.connTable :=
      List.filter_append_perm p s.connTable
    have hs : (s.erase p).nodes =
        s.connTable.filter (fun n => !p n) ++ (s.erased ++ s.connTable.filter p) := rfl
    rw [hs, nodes, ← List.append_assoc]
    refine List.perm_append_comm.trans ?_
    rw [← List.append_assoc]
    exact hp.append_right _
  rw [keyed, keyed, Bool.eq_iff_iff, Bool.or_eq_true, Bool.or_eq_true, List.any_eq_true,
    List.any_eq_true]
  simp only [hperm.mem_iff]

/-- The entry of `K` stays. -/
theorem view_erase_keep {p : Node → Bool}
    (hf : ConnTable.find (s.erase p).connTable K = ConnTable.find s.connTable K) :
    view K (s.erase p) = view K s := by
  have hs : seen K (s.erase p) = seen K s := by
    funext m
    rw [seen, pointer, hf, seen, pointer]
  have hq : seenQueue K (s.erase p) = seenQueue K s := by
    funext l
    rw [seenQueue, keyed_erase, hs, seenQueue]
  have hpc : seenPc K (s.erase p) = seenPc K s := by
    funext pc
    rw [seenPc, keyed_erase, hs, seenPc]
  simp only [view, hf, hq, hpc]
  rfl

/-- The entry of `K` is erased, if there is one. -/
theorem view_erase_gone {p : Node → Bool}
    (hf : ConnTable.find (s.erase p).connTable K = none) :
    view K (s.erase p) = (view K s).erase := by
  have hs : seen K (s.erase p) = fun m => (seen K s m).point 1 := by
    funext m
    rw [seen, pointer, hf, seen, ConnMetadata.point_point]
    rfl
  have hq : ∀ l, seenQueue K (s.erase p) l = (seenQueue K s l).map (ConnMetadata.point 1) := by
    intro l
    rw [seenQueue, keyed_erase, hs, seenQueue, List.map_map]
    rfl
  have hpc : ∀ pc, seenPc K (s.erase p) pc = (seenPc K s pc).map (ConnMetadata.point 1) := by
    intro pc
    rw [seenPc, keyed_erase, hs, seenPc]
    split
    · rfl
    · rw [EnginePc.map_map]
      rfl
  simp only [view, hf, hq, hpc, Alone.erase, Option.map_map]
  rfl

end Sys
end DistDpi
