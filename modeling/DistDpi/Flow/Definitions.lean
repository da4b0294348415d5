import DistDpi.Flow.ConnKey
import DistDpi.Support.Machine
import DistDpi.Support.Words

/-!
# Flow — definitions

`ConnectionDS.h`, `FlowTable.cpp` and `DPIEngine.cpp`: the flow table, the DPI queues, the engine
threads and the calls they make to navl.

A pointer to a node of `conn_table` is its address (`NodeId`), never given out twice; following
a pointer to an erased node is undefined, and no step does it.  `navl_conn_t` is an opaque
`ConnId`, a new one for every `navl_conn_create` that succeeds, with `none` for `NULL`.  What navl
answers is in the actions.

The last four fields of `Sys` are not the program's: the allocators' counters, the erased nodes
as they were, and `log`, the calls and pushes in the order they were made.
-/

namespace DistDpi

abbrev Bytes := List UInt8

/-- The address of a node of `conn_table`. -/
abbrev NodeId := Nat

/-- A connection navl has created. -/
abbrev ConnId := Nat

/-- `navl_state_t`. -/
inductive NavlState where
  | terminated | inspecting | monitoring | classified
  deriving DecidableEq, Repr

/-- `ConnInfo`, without the fields nothing reads (`connid`, `classified_num`, `conn`). -/
structure ConnInfo where
  key : ConnKey
  queue : Int := 0
  packetnum : UInt32 := 0
  classState : NavlState := .inspecting
  dpiState : Option ConnId := none
  dpiResult : UInt32 := 0
  dpiConfidence : Int := 0
  error : Int := 0
  classifiedTimestamp : Int := 0
  lastpacketTimestamp : Int := 0
  handle : Int := 0
  dir : Int := 0
  filter : Nat := 0
  pktRefCnt : Int := 0
  deriving DecidableEq, Repr

/-- `ConnMetadata`: `key` and `info` point into the same node. -/
structure ConnMetadata where
  key : NodeId
  info : NodeId
  pktnum : UInt32
  dir : UInt32
  data : Bytes
  exitFlag : Bool
  deriving DecidableEq, Repr

/-- The message of `FlowTable::stop`; only `exit_flag` is set. -/
def ConnMetadata.exit : ConnMetadata := ⟨0, 0, 0, 0, [], true⟩

/-- `DPIFlowData`. -/
structure DPIFlowData where
  key : ConnKey
  exitFlag : Bool
  dir : Int
  filter : Nat
  len : Nat
  dpiresult : Bytes
  deriving DecidableEq, Repr

/-- The message of `FlowTable::stop` to the datapath; only `exit_flag` is set. -/
def DPIFlowData.exit : DPIFlowData := ⟨⟨0, 0, 0, 0, 0⟩, true, 0, 0, 0, []⟩

/-- `navl_host_t` for IPv4: `port` and `in4_addr` in network order. -/
structure NavlHost where
  family : UInt8
  port : UInt16
  in4Addr : UInt32
  deriving DecidableEq, Repr

def htons (x : UInt16) : UInt16 := x <<< 8 ||| x >>> 8

def htonl (x : UInt32) : UInt32 :=
  x <<< 24 ||| (x &&& (0xff00 : UInt32)) <<< 8 ||| (x >>> 8 &&& (0xff00 : UInt32)) ||| x >>> 24

/-- The source end of a key, as `Dequeue` hands it to navl. -/
def srcHost (key : ConnKey) : NavlHost := ⟨1, htons key.srcport, htonl key.srcaddr⟩

/-- The destination end. -/
def dstHost (key : ConnKey) : NavlHost := ⟨1, htons key.dstport, htonl key.dstaddr⟩

/-! ### The table -/

/-- A node of `conn_table`: `first` and `second`, at its address. -/
structure Node where
  addr : NodeId
  first : ConnKey
  second : ConnInfo
  deriving DecidableEq, Repr

namespace ConnTable

/-- `conn_table.find`: the hashes are compared, then the keys. -/
def find (t : List Node) (key : ConnKey) : Option Node :=
  t.find? fun it => connKeyHasher it.first == connKeyHasher key && connKeyEqual it.first key

/-- `conn_table.insert`: the flag is false where an equal key is present. -/
def insert (t : List Node) (it : Node) : List Node × Bool :=
  if (find t it.first).isSome then (t, false) else (t ++ [it], true)

/-- The node at an address. -/
def deref (t : List Node) (a : NodeId) : Option Node :=
  t.find? fun it => it.addr == a

/-- Writes through a pointer to the node at `a`. -/
def update (t : List Node) (a : NodeId) (f : ConnInfo → ConnInfo) : List Node :=
  t.map fun it => if it.addr = a then { it with second := f it.second } else it

end ConnTable

/-! ### The state -/

/-- What the log records. -/
inductive Event where
  /-- `InsertOrUpdateFlows` put a new entry in the table. -/
  | inserted (node : NodeId) (key : ConnKey) (data : Bytes) (filter : Nat) (dir : UInt8) (now : Int)
  /-- `InsertOrUpdateFlows` found the packet's entry. -/
  | matched (node : NodeId) (key : ConnKey) (data : Bytes) (dir : UInt32) (now : Int)
  /-- A push on a DPI queue, for a packet with this key. -/
  | enqueue (key : ConnKey) (queue : Int) (m : ConnMetadata)
  | connCreate (queue : Nat) (handle : Int) (src dst : NavlHost) (ipproto : UInt8)
      (node : NodeId) (nc : Option ConnId)
  | connDestroy (handle : Int) (nc : Option ConnId)
  | classify (queue : Nat) (handle : Int) (data : Bytes) (nc : Option ConnId) (dir : UInt32)
      (node : NodeId)
  /-- A push on `updateDPQueue_`. -/
  | report (node : NodeId) (data : DPIFlowData)
  deriving DecidableEq, Repr

/-- Where a thread of `Dequeue` stands; `m` is the message it has popped. -/
inductive EnginePc where
  /-- Top of the loop. -/
  | pop
  /-- Before the test of `info->dpi_state`. -/
  | testState (m : ConnMetadata)
  /-- Before `info->handle = g_navlhandle_`. -/
  | setHandle (m : ConnMetadata)
  /-- Before `navl_conn_create`. -/
  | create (m : ConnMetadata)
  /-- Before the four tests that guard `navl_classify`. -/
  | guard (m : ConnMetadata)
  /-- Before `navl_classify`. -/
  | classify (m : ConnMetadata)
  /-- Inside `navl_classify`. -/
  | callback (m : ConnMetadata)
  /-- In the exception handler, before `clear()`. -/
  | clear
  /-- Ended through the exception handler. -/
  | failed
  /-- Ended through an `exit_flag` message. -/
  | exited
  deriving DecidableEq, Repr

/-- A thread of `Dequeue`, with its `g_navlhandle_`. -/
structure Engine where
  navlhandle : Int
  pc : EnginePc
  deriving DecidableEq, Repr

/-- How far `FlowTable::stop` has come. -/
inductive StopPc where
  /-- Not called: the cleanup thread runs. -/
  | running
  /-- The cleanup thread is joined. -/
  | joined
  /-- `cleanupFlows(true)` is done. -/
  | cleaned
  /-- In the loop that pushes the exit messages. -/
  | pushing (i : Nat)
  | stopped
  deriving DecidableEq, Repr

/-- The flow table, the DPI queues and the engine threads. -/
structure Sys where
  connTable : List Node
  numQueues : Int
  dpiEngineQueueList : List (List ConnMetadata)
  engines : List Engine
  updateDPQueue : List DPIFlowData
  /-- `static char name[9]` of `updateFlowTableDPIData`. -/
  name : Bytes
  stopPc : StopPc
  nextNode : NodeId
  nextConn : ConnId
  erased : List Node
  log : List Event
  deriving DecidableEq, Repr

/-- The navl handles of the engine threads; their number, `dpi_instances`, is an `int`. -/
structure Instances where
  handles : List Int
  lt : handles.length < 2 ^ 31

/-- The start: an engine thread for each instance, and as many queues. -/
def init (inst : Instances) : Sys where
  connTable := []
  numQueues := inst.handles.length
  dpiEngineQueueList := inst.handles.map fun _ => []
  engines := inst.handles.map fun h => ⟨h, .pop⟩
  updateDPQueue := []
  name := List.replicate 9 0
  stopPc := .running
  nextNode := 0
  nextConn := 0
  erased := []
  log := []

namespace Sys

/-- `dpiEngineQueueList_[queue]->push(m)`; nothing, where there is no such queue. -/
@[simps]
def push (s : Sys) (queue : Int) (m : ConnMetadata) : Sys :=
  { s with
    dpiEngineQueueList :=
      if 0 ≤ queue then s.dpiEngineQueueList.modify queue.toNat (· ++ [m])
      else s.dpiEngineQueueList }

@[simps]
def setPc (s : Sys) (queue : Nat) (pc : EnginePc) : Sys :=
  { s with engines := s.engines.modify queue fun e => { e with pc } }

@[simps]
def update (s : Sys) (a : NodeId) (f : ConnInfo → ConnInfo) : Sys :=
  { s with connTable := ConnTable.update s.connTable a f }

@[simps]
def emit (s : Sys) (evs : List Event) : Sys :=
  { s with log := s.log ++ evs }

/-! ### `FlowTable.cpp` -/

/-- The first branch of `cleanupFlows(false)`. -/
def finished (it : Node) : Bool :=
  it.second.pktRefCnt == 0 &&
    (it.second.classState == .classified || it.second.classState == .terminated)

/-- The second branch: `difftime` is the difference. -/
def idle (currentTime : Int) (it : Node) : Bool :=
  it.second.classState == .inspecting && currentTime - it.second.lastpacketTimestamp > 10

/-- The loop of `cleanupFlows(false)`: the nodes kept, the nodes erased, the calls made. -/
def cleanupLoop (currentTime : Int) : List Node → List Node × List Node × List Event
  | [] => ([], [], [])
  | it :: rest =>
      let (kept, gone, calls) := cleanupLoop currentTime rest
      if finished it then (kept, it :: gone, calls)
      else if idle currentTime it then
        (kept, it :: gone, .connDestroy it.second.handle it.second.dpiState :: calls)
      else (it :: kept, gone, calls)

/-- The loop of `cleanupFlows(true)`. -/
def finalLoop : List Node → List Event
  | [] => []
  | it :: rest => .connDestroy it.second.handle it.second.dpiState :: finalLoop rest

/-- `FlowTable::cleanupFlows`, at `time(0) = now`. -/
def cleanupFlows (s : Sys) (finalDelete : Bool) (now : Int) : Sys :=
  if finalDelete then
    { s with connTable := [], erased := s.erased ++ s.connTable,
             log := s.log ++ finalLoop s.connTable }
  else
    let (kept, gone, calls) := cleanupLoop (toInt now) s.connTable
    { s with connTable := kept, erased := s.erased ++ gone, log := s.log ++ calls }

/-- `hash_function()(key) % numQueues_`: the `int` becomes a `size_t`, the result an `int`. -/
def queueIndex (hash : Nat) (numQueues : Int) : Int :=
  toInt (hash % (numQueues % 2 ^ 64).toNat : Nat)

/-- `key->srcaddr == it->first.srcaddr ? 0 : 1`. -/
def direction (key first : ConnKey) : UInt32 :=
  if key.srcaddr = first.srcaddr then 0 else 1

/-- The entry `InsertOrUpdateFlows` makes for the first packet of a connection. -/
def newNode (s : Sys) (key : ConnKey) (filter : Nat) (dir : UInt8) (now : Int) : Node where
  addr := s.nextNode
  first := key
  second :=
    { key
      packetnum := 0
      filter
      dir := dir.toNat
      queue := queueIndex (connKeyHasher key) s.numQueues
      lastpacketTimestamp := toInt now }

/-- The message for a packet whose node is `it`. -/
def metadata (it : Node) (dir : UInt32) (pktString : Bytes) : ConnMetadata where
  key := it.addr
  info := it.addr
  pktnum := it.second.packetnum
  dir
  data := pktString
  exitFlag := false

/-- `InsertOrUpdateFlows`, where `find` has failed. -/
def insertFlow (s : Sys) (key : ConnKey) (pktString : Bytes) (filter : Nat) (dir : UInt8)
    (now : Int) : Sys :=
  let it := s.newNode key filter dir now
  match ConnTable.insert s.connTable it with
  | (_, false) => s
  | (t, true) =>
      let mdata := metadata it 0 pktString
      ({ s with connTable := t, nextNode := s.nextNode + 1 }.push it.second.queue mdata).emit
        [.inserted it.addr key pktString filter dir now, .enqueue key it.second.queue mdata]

/-- `InsertOrUpdateFlows`, where `find` has returned `it`. -/
def updateFlow (s : Sys) (it : Node) (key : ConnKey) (pktString : Bytes) (now : Int) : Sys :=
  let dir := direction key it.first
  let s := (s.update it.addr fun i => { i with packetnum := i.packetnum + 1 }).emit
    [.matched it.addr key pktString dir now]
  if it.second.classState = .classified ∨ it.second.classState = .terminated then s
  else if it.second.classState = .inspecting ∧ it.second.dpiState ≠ none then
    let mdata := { metadata it dir pktString with pktnum := it.second.packetnum + 1 }
    let s := s.update it.addr fun i =>
      { i with pktRefCnt := toInt (i.pktRefCnt + 1), lastpacketTimestamp := toInt now }
    (s.push it.second.queue mdata).emit [.enqueue key it.second.queue mdata]
  -- neither queued nor timed, also where the thread has not made the connection yet
  else s

/-- `FlowTable::InsertOrUpdateFlows`, at `time(0) = now`. -/
def insertOrUpdateFlows (s : Sys) (key : ConnKey) (pktString : Bytes) (filter : Nat)
    (dir : UInt8) (now : Int) : Sys :=
  if s.numQueues = 0 then s
  else match ConnTable.find s.connTable key with
    | none => s.insertFlow key pktString filter dir now
    | some it => s.updateFlow it key pktString now

end Sys

/-- What navl reports to the callback, and answers to the calls the callback makes. -/
structure Verdict where
  state : NavlState
  error : Int
  /-- `navl_app_get`: the protocol index and the confidence, or `-1`. -/
  appGet : Option (Int × Int)
  /-- `navl_proto_get_name`: the name it writes, if it succeeds. -/
  protoName : Option Bytes
  deriving DecidableEq, Repr

namespace Sys

/-- `dpi_result = navl_app_get(handle, result, &dpi_confidence)`, an `int` in a `u_int`. -/
def appResult : Option (Int × Int) → UInt32
  | some (index, _) => UInt32.ofInt index
  | none => UInt32.ofInt (-1)

/-- What the callback writes to the entry. -/
def classifiedInfo (r : Verdict) (now : Int) (i : ConnInfo) : ConnInfo :=
  { i with
    pktRefCnt := if i.classState = .inspecting then 0 else toInt (i.pktRefCnt - 1)
    error := r.error
    classState := r.state
    dpiResult := appResult r.appGet
    dpiConfidence := match r.appGet with
      | some (_, confidence) => confidence
      | none => i.dpiConfidence
    classifiedTimestamp :=
      if r.state = .classified ∨ r.state = .terminated then toInt now else i.classifiedTimestamp }

/-- `navl_proto_get_name(handle, dpi_result, name, sizeof(name))`. -/
def protoGetName (name : Bytes) : Option Bytes → Bytes
  | some n => n.take 8 ++ 0 :: name.drop ((n.take 8).length + 1)
  | none => name

/-- The bytes before the first NUL. -/
def cString (name : Bytes) : Bytes := name.takeWhile (· ≠ 0)

def unknownResult : Bytes := "UNKNOWN".toList.map fun c => c.toNat.toUInt8

/-- `name` after the callback's lookup of the protocol's name. -/
def resultName (name : Bytes) (r : Verdict) : Bytes :=
  if appResult r.appGet ≠ 0 then protoGetName name r.protoName else name

/-- `data.dpiresult`. -/
def dpiresult (name : Bytes) (r : Verdict) : Bytes :=
  if appResult r.appGet ≠ 0 then cString (protoGetName name r.protoName) else unknownResult

/-- The `DPIFlowData` of an entry that has been classified. -/
def flowData (it : Node) (name : Bytes) (r : Verdict) : DPIFlowData where
  key := it.first
  exitFlag := false
  dir := it.second.dir
  filter := it.second.filter
  len := (dpiresult name r).length
  dpiresult := dpiresult name r

/-- `FlowTable::updateFlowTableDPIData`, at `time(0) = now`: `info` is followed to its key, and
the key looked up. -/
def updateFlowTableDPIData (s : Sys) (info : NodeId) (r : Verdict) (now : Int) : Option Sys := do
  let i ← ConnTable.deref s.connTable info
  match ConnTable.find s.connTable i.second.key with
  | none => some s
  | some it =>
      let s' := s.update it.addr (classifiedInfo r now)
      if r.state = .classified ∨ r.state = .terminated then
        let data := flowData it s.name r
        some ({ s' with name := resultName s.name r
                        updateDPQueue := s.updateDPQueue ++ [data] }.emit
          [.connDestroy it.second.handle it.second.dpiState, .report it.addr data])
      else some s'

/-- One statement of `FlowTable::stop`. -/
def stop (s : Sys) : Option Sys :=
  match s.stopPc with
  | .running => some { s with stopPc := .joined }
  | .joined => some { s.cleanupFlows true 0 with stopPc := .cleaned }
  -- the datapath is told before the engines are
  | .cleaned =>
      some { s with updateDPQueue := s.updateDPQueue ++ [.exit], stopPc := .pushing 0 }
  | .pushing i =>
      -- `numQueues_` is read again in every turn
      if (i : Int) < s.numQueues then some { s.push i .exit with stopPc := .pushing (i + 1) }
      else some { s with stopPc := .stopped }
  | .stopped => none

/-! ### `DPIEngine.cpp` -/

/-- `dpiEngineQueueList_[queue]->pop()`, where a message is there. -/
def popQueue (s : Sys) (queue : Nat) : Option (ConnMetadata × Sys) :=
  match s.dpiEngineQueueList[queue]? with
  | some (m :: rest) =>
      some (m, { s with dpiEngineQueueList := s.dpiEngineQueueList.set queue rest })
  | _ => none

/-- `navl_conn_create(g_navlhandle_, ..., &(info->dpi_state))`, for the message `m`. -/
def connCreate (s : Sys) (queue : Nat) (handle : Int) (m : ConnMetadata) (ok : Bool) :
    Option Sys := do
  let it ← ConnTable.deref s.connTable m.key
  let nc := if ok then some s.nextConn else none
  let s := s.emit
    [.connCreate queue handle (srcHost it.first) (dstHost it.first) it.first.ipproto m.info nc]
  if ok then
    some { s.update m.info fun i => { i with dpiState := nc } with nextConn := s.nextConn + 1 }
  else some s

/-- The four tests that guard `navl_classify`. -/
def classifiable (m : ConnMetadata) (i : ConnInfo) : Bool :=
  i.error == 0 && m.data.length != 0 && i.dpiState.isSome && i.classState == .inspecting

end Sys

/-- The statements of `Dequeue`, with what navl answers. -/
inductive EngineAct where
  | pop
  | testState
  | setHandle
  | create (ok : Bool)
  | guard
  | classify
  | callback (r : Verdict) (now : Int)
  | classifyFail
  /-- An exception leaves the loop, and the handler lowers `numQueues_`. -/
  | throw
  | clear
  deriving DecidableEq, Repr

/-- The thread has not left the loop. -/
def EnginePc.inLoop : EnginePc → Bool
  | .clear | .failed | .exited => false
  | _ => true

namespace Sys

/-- One statement of the thread `Dequeue(queue)`. -/
def engineStep (s : Sys) (queue : Nat) (a : EngineAct) : Option Sys := do
  let e ← s.engines[queue]?
  match e.pc, a with
  | .pop, .pop => do
      let (m, s) ← s.popQueue queue
      some (s.setPc queue (if m.exitFlag then .exited else .testState m))
  | .testState m, .testState => do
      let it ← ConnTable.deref s.connTable m.info
      some (s.setPc queue (if it.second.dpiState = none then .setHandle m else .guard m))
  | .setHandle m, .setHandle => do
      let _ ← ConnTable.deref s.connTable m.info
      some ((s.update m.info fun i => { i with handle := e.navlhandle }).setPc queue (.create m))
  -- whether it succeeds or not, the loop goes on: the creating message is never classified
  | .create m, .create ok => do
      let s ← s.connCreate queue e.navlhandle m ok
      some (s.setPc queue .pop)
  | .guard m, .guard => do
      let it ← ConnTable.deref s.connTable m.info
      some (s.setPc queue (if classifiable m it.second then .classify m else .pop))
  | .classify m, .classify => do
      let it ← ConnTable.deref s.connTable m.info
      some ((s.emit [.classify queue e.navlhandle m.data it.second.dpiState m.dir m.info]).setPc
        queue (.callback m))
  | .callback m, .callback r now => do
      let s ← s.updateFlowTableDPIData m.info r now
      some (s.setPc queue .pop)
  -- `navl_classify` fails, and the callback is not called
  | .callback _, .classifyFail => some (s.setPc queue .pop)
  -- the handler: `clear()` returns where nothing waits; otherwise its `pop()` locks `mutex_` again
  | .clear, .clear => do
      let l ← s.dpiEngineQueueList[queue]?
      if l = [] then some (s.setPc queue .failed) else none
  | pc, .throw =>
      if pc.inLoop then some ({ s with numQueues := s.numQueues - 1 }.setPc queue .clear)
      else none
  | _, _ => none

end Sys

/-! ### The system -/

/-- Who moves: the packet consumer, an engine thread, the cleanup thread, `FlowTable::stop`. -/
inductive Act where
  | insert (key : ConnKey) (pktString : Bytes) (filter : Nat) (dir : UInt8) (now : Int)
  | engine (queue : Nat) (a : EngineAct)
  | cleanup (now : Int)
  | stop
  deriving DecidableEq, Repr

/-- One step of the system.  The cleanup thread has ended once `stop` has joined it. -/
def Sys.step (s : Sys) : Act → Option Sys
  | .insert key pktString filter dir now =>
      some (s.insertOrUpdateFlows key pktString filter dir now)
  | .engine queue a => s.engineStep queue a
  | .cleanup now => if s.stopPc = .running then some (s.cleanupFlows false now) else none
  | .stop => s.stop

/-- The flow table and the engines, every interleaving. -/
def system : Machine Sys Act := ⟨Sys.step⟩

/-! ### Some runs -/

/-- Two engine threads. -/
def twoEngines : Instances := ⟨[7, 8], by decide⟩

/-- A TCP connection; of two queues it gets the first. -/
def tcpKey : ConnKey := ⟨0x0a000001, 0x0a000002, 40000, 443, 6⟩

/-- Its first packet, for which the thread creates a navl connection. -/
def opened : List Act :=
  [.insert tcpKey [1] 3 1 100, .engine 0 .pop, .engine 0 .testState, .engine 0 .setHandle,
    .engine 0 (.create true)]

/-- A packet from the other end, on which navl gives its verdict. -/
def decided : List Act :=
  opened ++ [.insert tcpKey.swap [2] 0 0 101, .engine 0 .pop, .engine 0 .testState,
    .engine 0 .guard, .engine 0 .classify,
    .engine 0 (.callback ⟨.classified, 0, some (5, 90), some [72, 84]⟩ 102)]

/-- The state it leaves. -/
def decidedState : Sys := (system.exec (init twoEngines) decided).get (by decide)

theorem run_decided : system.Run (init twoEngines) decided decidedState :=
  Machine.run_of_exec (by decide)

example : decidedState.updateDPQueue = [⟨tcpKey, false, 1, 3, 2, [72, 84]⟩] := by decide

end DistDpi
