import DistDpi.Flow.Table

/-!
# Flow — steps

What a step of the system can do, said once: `Change s a s'` has a constructor for each branch
of the code, with its guards and the state it leaves (`step_change`).  The invariants are proved
by cases on it.

`queue` and `pending` are the two views of the messages: `pending q` is the message the thread of
queue `q` is working on, if any, before those waiting.  A `pop` moves a message from the one part
to the other, and leaves `pending` as it was.
-/

namespace DistDpi

/-- The message a thread is working on. -/
def EnginePc.held : EnginePc → Option ConnMetadata
  | .testState m | .setHandle m | .create m | .guard m | .classify m | .callback m => some m
  | .pop | .clear | .failed | .exited => none

namespace Sys

/-- The messages waiting in queue `q`. -/
def queue (s : Sys) (q : Nat) : List ConnMetadata := (s.dpiEngineQueueList[q]?).getD []

/-- The message the thread of queue `q` is working on. -/
def held (s : Sys) (q : Nat) : Option ConnMetadata := (s.engines[q]?).bind fun e => e.pc.held

/-- The messages of queue `q` that have not been dealt with. -/
def pending (s : Sys) (q : Nat) : List ConnMetadata := (s.held q).toList ++ s.queue q

/-- Every node there has been, those that are erased as they were. -/
def nodes (s : Sys) : List Node := s.connTable ++ s.erased

/-! ### The branches of a step -/

/-- A new node at the end of the table. -/
@[simps]
def addNode (s : Sys) (it : Node) : Sys :=
  { s with connTable := s.connTable ++ [it], nextNode := s.nextNode + 1 }

/-- Queue `q` holds `l`. -/
@[simps]
def setQueue (s : Sys) (q : Nat) (l : List ConnMetadata) : Sys :=
  { s with dpiEngineQueueList := s.dpiEngineQueueList.set q l }

/-- A packet of a known connection: `packetnum++`. -/
def countPacket (i : ConnInfo) : ConnInfo := { i with packetnum := i.packetnum + 1 }

/-- A packet of a known connection that is queued. -/
def countQueued (now : Int) (i : ConnInfo) : ConnInfo :=
  { countPacket i with
    pktRefCnt := toInt (i.pktRefCnt + 1), lastpacketTimestamp := toInt now }

/-- The message for a packet of the known connection `it`. -/
def nextMetadata (it : Node) (key : ConnKey) (data : Bytes) : ConnMetadata :=
  { metadata it (direction key it.first) data with pktnum := it.second.packetnum + 1 }

/-- The steps of a thread that change only where it stands. -/
inductive Moves (t : List Node) : EnginePc → EngineAct → EnginePc → Prop where
  | stateNull {m : ConnMetadata} {it : Node} (h : ConnTable.deref t m.info = some it)
      (hd : it.second.dpiState = none) : Moves t (.testState m) .testState (.setHandle m)
  | stateSome {m : ConnMetadata} {it : Node} (h : ConnTable.deref t m.info = some it)
      (hd : it.second.dpiState ≠ none) : Moves t (.testState m) .testState (.guard m)
  | guardPass {m : ConnMetadata} {it : Node} (h : ConnTable.deref t m.info = some it)
      (hc : classifiable m it.second) : Moves t (.guard m) .guard (.classify m)
  | guardFail {m : ConnMetadata} {it : Node} (h : ConnTable.deref t m.info = some it)
      (hc : ¬ classifiable m it.second) : Moves t (.guard m) .guard .pop
  | noVerdict {m : ConnMetadata} : Moves t (.callback m) .classifyFail .pop

theorem Moves.act {t : List Node} {a : EngineAct} {pc pc' : EnginePc} (h : Moves t pc a pc') :
    a = .testState ∨ a = .guard ∨ a = .classifyFail := by
  cases h with
  | stateNull | stateSome => exact .inl rfl
  | guardPass | guardFail => exact .inr (.inl rfl)
  | noVerdict => exact .inr (.inr rfl)

/-- The statements of `FlowTable::stop` that leave the table and the DPI queues. -/
inductive StopMoves (s : Sys) : StopPc → List DPIFlowData → Prop where
  | join (h : s.stopPc = .running) : StopMoves s .joined s.updateDPQueue
  | tell (h : s.stopPc = .cleaned) : StopMoves s (.pushing 0) (s.updateDPQueue ++ [.exit])
  | done {i : Nat} (h : s.stopPc = .pushing i) (hi : ¬ (i : Int) < s.numQueues) :
      StopMoves s .stopped s.updateDPQueue

/-- What a step can do. -/
inductive Change (s : Sys) : Act → Sys → Prop where
  | dropped {key : ConnKey} {data : Bytes} {filter : Nat} {dir : UInt8} {now : Int}
      (h : s.numQueues = 0) : Change s (.insert key data filter dir now) s
  | inserted {key : ConnKey} {data : Bytes} {filter : Nat} {dir : UInt8} {now : Int}
      (hn : s.numQueues ≠ 0) (hf : ConnTable.find s.connTable key = none) :
      Change s (.insert key data filter dir now)
        (((s.addNode (s.newNode key filter dir now)).push
            (s.newNode key filter dir now).second.queue
            (metadata (s.newNode key filter dir now) 0 data)).emit
          [.inserted (s.newNode key filter dir now).addr key data filter dir now,
           .enqueue key (s.newNode key filter dir now).second.queue
             (metadata (s.newNode key filter dir now) 0 data)])
  | ignored {key : ConnKey} {data : Bytes} {filter : Nat} {dir : UInt8} {now : Int} {it : Node}
      (hn : s.numQueues ≠ 0) (hf : ConnTable.find s.connTable key = some it)
      (hi : it.second.classState ≠ .inspecting ∨ it.second.dpiState = none) :
      Change s (.insert key data filter dir now)
        ((s.update it.addr countPacket).emit
          [.matched it.addr key data (direction key it.first) now])
  | queued {key : ConnKey} {data : Bytes} {filter : Nat} {dir : UInt8} {now : Int} {it : Node}
      (hn : s.numQueues ≠ 0)
      (hf : ConnTable.find s.connTable key = some it)
      (hi : it.second.classState = .inspecting) (hd : it.second.dpiState ≠ none) :
      Change s (.insert key data filter dir now)
        (((s.update it.addr (countQueued now)).push it.second.queue
            (nextMetadata it key data)).emit
          [.matched it.addr key data (direction key it.first) now,
           .enqueue key it.second.queue (nextMetadata it key data)])
  | popped {q : Nat} {e : Engine} {m : ConnMetadata} {rest : List ConnMetadata}
      (he : s.engines[q]? = some e) (hpc : e.pc = .pop)
      (hq : s.dpiEngineQueueList[q]? = some (m :: rest)) (hm : m.exitFlag = false) :
      Change s (.engine q .pop)
        ((s.setQueue q rest).setPc q (.testState m))
  | exits {q : Nat} {e : Engine} {m : ConnMetadata} {rest : List ConnMetadata}
      (he : s.engines[q]? = some e) (hpc : e.pc = .pop)
      (hq : s.dpiEngineQueueList[q]? = some (m :: rest)) (hm : m.exitFlag = true) :
      Change s (.engine q .pop)
        ((s.setQueue q rest).setPc q .exited)
  | moved {q : Nat} {e : Engine} {a : EngineAct} {pc : EnginePc}
      (he : s.engines[q]? = some e) (hm : Moves s.connTable e.pc a pc) :
      Change s (.engine q a) (s.setPc q pc)
  | handleSet {q : Nat} {e : Engine} {m : ConnMetadata} {it : Node}
      (he : s.engines[q]? = some e) (hpc : e.pc = .setHandle m)
      (hd : ConnTable.deref s.connTable m.info = some it) :
      Change s (.engine q .setHandle)
        ((s.update m.info fun i => { i with handle := e.navlhandle }).setPc q (.create m))
  | createFailed {q : Nat} {e : Engine} {m : ConnMetadata} {it : Node}
      (he : s.engines[q]? = some e) (hpc : e.pc = .create m)
      (hd : ConnTable.deref s.connTable m.key = some it) :
      Change s (.engine q (.create false))
        ((s.emit [.connCreate q e.navlhandle (srcHost it.first) (dstHost it.first)
          it.first.ipproto m.info none]).setPc q .pop)
  | created {q : Nat} {e : Engine} {m : ConnMetadata} {it : Node}
      (he : s.engines[q]? = some e) (hpc : e.pc = .create m)
      (hd : ConnTable.deref s.connTable m.key = some it) :
      Change s (.engine q (.create true))
        (({ s.update m.info fun i => { i with dpiState := some s.nextConn } with
            nextConn := s.nextConn + 1 }.emit
          [.connCreate q e.navlhandle (srcHost it.first) (dstHost it.first) it.first.ipproto
            m.info (some s.nextConn)]).setPc q .pop)
  | called {q : Nat} {e : Engine} {m : ConnMetadata} {it : Node}
      (he : s.engines[q]? = some e) (hpc : e.pc = .classify m)
      (hd : ConnTable.deref s.connTable m.info = some it) :
      Change s (.engine q .classify)
        ((s.emit [.classify q e.navlhandle m.data it.second.dpiState m.dir m.info]).setPc q
          (.callback m))
  | unfound {q : Nat} {e : Engine} {m : ConnMetadata} {i : Node} {r : Verdict} {now : Int}
      (he : s.engines[q]? = some e) (hpc : e.pc = .callback m)
      (hd : ConnTable.deref s.connTable m.info = some i)
      (hf : ConnTable.find s.connTable i.second.key = none) :
      Change s (.engine q (.callback r now)) (s.setPc q .pop)
  | reported {q : Nat} {e : Engine} {m : ConnMetadata} {i it : Node} {r : Verdict} {now : Int}
      (he : s.engines[q]? = some e) (hpc : e.pc = .callback m)
      (hd : ConnTable.deref s.connTable m.info = some i)
      (hf : ConnTable.find s.connTable i.second.key = some it)
      (hr : r.state = .classified ∨ r.state = .terminated) :
      Change s (.engine q (.callback r now))
        (({ s.update it.addr (classifiedInfo r now) with
            name := resultName s.name r
            updateDPQueue := s.updateDPQueue ++ [flowData it s.name r] }.emit
          [.connDestroy it.second.handle it.second.dpiState,
           .report it.addr (flowData it s.name r)]).setPc q .pop)
  | noted {q : Nat} {e : Engine} {m : ConnMetadata} {i it : Node} {r : Verdict} {now : Int}
      (he : s.engines[q]? = some e) (hpc : e.pc = .callback m)
      (hd : ConnTable.deref s.connTable m.info = some i)
      (hf : ConnTable.find s.connTable i.second.key = some it)
      (hr : ¬ (r.state = .classified ∨ r.state = .terminated)) :
      Change s (.engine q (.callback r now))
        ((s.update it.addr (classifiedInfo r now)).setPc q .pop)
  | thrown {q : Nat} {e : Engine} (he : s.engines[q]? = some e) (hpc : e.pc.inLoop) :
      Change s (.engine q .throw) ({ s with numQueues := s.numQueues - 1 }.setPc q .clear)
  | cleared {q : Nat} {e : Engine} (he : s.engines[q]? = some e) (hpc : e.pc = .clear)
      (hq : s.dpiEngineQueueList[q]? = some []) : Change s (.engine q .clear) (s.setPc q .failed)
  | cleanup {now : Int} (h : s.stopPc = .running) :
      Change s (.cleanup now)
        { s with
          connTable := s.connTable.filter fun it => !expired (toInt now) it
          erased := s.erased ++ s.connTable.filter (expired (toInt now))
          log := s.log ++ (s.connTable.filter (idle (toInt now))).map destroyCall }
  | stopCleanup (h : s.stopPc = .joined) :
      Change s .stop
        { s with
          connTable := []
          erased := s.erased ++ s.connTable
          log := s.log ++ s.connTable.map destroyCall
          stopPc := .cleaned }
  | stopPush {i : Nat} (h : s.stopPc = .pushing i) (hi : (i : Int) < s.numQueues) :
      Change s .stop { s.push i .exit with stopPc := .pushing (i + 1) }
  | stopMoved {pc : StopPc} {dq : List DPIFlowData} (h : StopMoves s pc dq) :
      Change s .stop { s with stopPc := pc, updateDPQueue := dq }

/-! ### Every step is one of them -/

theorem insert_change (s : Sys) (key : ConnKey) (data : Bytes) (filter : Nat) (dir : UInt8)
    (now : Int) : Change s (.insert key data filter dir now)
      (s.insertOrUpdateFlows key data filter dir now) := by
  unfold insertOrUpdateFlows
  split
  · exact .dropped ‹_›
  · rename_i hn
    cases hf : ConnTable.find s.connTable key with
    | none =>
        have hi : ConnTable.insert s.connTable (s.newNode key filter dir now) =
            (s.connTable ++ [s.newNode key filter dir now], true) :=
          ConnTable.insert_of_find_none hf
        simp only [insertFlow, hi]
        exact .inserted hn hf
    | some it =>
        simp only [updateFlow]
        by_cases hc : it.second.classState = .classified ∨ it.second.classState = .terminated
        · rw [if_pos hc]
          exact .ignored hn hf (.inl (by rcases hc with h | h <;> rw [h] <;> decide))
        · rw [if_neg hc]
          by_cases hq : it.second.classState = .inspecting ∧ it.second.dpiState ≠ none
          · rw [if_pos hq]
            simp only [push, emit, update, ConnTable.update_update, List.append_assoc,
              List.singleton_append]
            exact .queued hn hf hq.1 hq.2
          · rw [if_neg hq]
            exact .ignored hn hf (by tauto)

theorem cleanup_change {s : Sys} (now : Int) (h : s.stopPc = .running) :
    Change s (.cleanup now) (s.cleanupFlows false now) := by
  simp only [cleanupFlows, cleanupLoop_eq, Bool.false_eq_true, if_false]
  exact .cleanup h

theorem stop_change {s s' : Sys} (h : s.stop = some s') : Change s .stop s' := by
  unfold stop at h
  split at h
  · cases h
    exact .stopMoved (.join ‹_›)
  · cases h
    simp only [cleanupFlows, finalLoop_eq, if_true]
    exact .stopCleanup ‹_›
  · cases h
    exact .stopMoved (.tell ‹_›)
  · split at h
    · cases h
      exact .stopPush ‹_› ‹_›
    · cases h
      exact .stopMoved (.done ‹_› ‹_›)
  · cases h

theorem callback_change {s s' : Sys} {q : Nat} {e : Engine} {m : ConnMetadata} {r : Verdict}
    {now : Int} (he : s.engines[q]? = some e) (hpc : e.pc = .callback m)
    (h : s.updateFlowTableDPIData m.info r now = some s') :
    Change s (.engine q (.callback r now)) (s'.setPc q .pop) := by
  obtain ⟨i, hd, h⟩ := Option.bind_eq_some_iff.mp h
  cases hf : ConnTable.find s.connTable i.second.key with
  | none =>
      rw [hf] at h
      cases h
      exact .unfound he hpc hd hf
  | some it =>
      simp only [hf] at h
      split at h
      · cases h
        exact .reported he hpc hd hf ‹_›
      · cases h
        exact .noted he hpc hd hf ‹_›

theorem create_change {s s' : Sys} {q : Nat} {e : Engine} {m : ConnMetadata} {ok : Bool}
    (he : s.engines[q]? = some e) (hpc : e.pc = .create m)
    (h : s.connCreate q e.navlhandle m ok = some s') :
    Change s (.engine q (.create ok)) (s'.setPc q .pop) := by
  obtain ⟨it, hd, h⟩ := Option.bind_eq_some_iff.mp h
  cases ok with
  | false => cases h; exact .createFailed he hpc hd
  | true => cases h; exact .created he hpc hd

theorem pop_change {s s' : Sys} {q : Nat} {e : Engine} {m : ConnMetadata}
    (he : s.engines[q]? = some e) (hpc : e.pc = .pop) (h : s.popQueue q = some (m, s')) :
    Change s (.engine q .pop) (s'.setPc q (if m.exitFlag then .exited else .testState m)) := by
  unfold popQueue at h
  split at h
  · cases h
    cases hm : m.exitFlag with
    | false => exact .popped he hpc ‹_› hm
    | true => exact .exits he hpc ‹_› hm
  · cases h

theorem engine_change {s s' : Sys} {q : Nat} {a : EngineAct} (h : s.engineStep q a = some s') :
    Change s (.engine q a) s' := by
  replace h := Option.bind_eq_some_iff.mp h
  obtain ⟨e, he, h⟩ := h
  dsimp only at h
  split at h
  · rename_i hpc
    replace h := Option.bind_eq_some_iff.mp h
    obtain ⟨⟨m, s₁⟩, hp, h⟩ := h
    cases h
    exact pop_change he hpc hp
  · rename_i m hpc
    replace h := Option.bind_eq_some_iff.mp h
    obtain ⟨it, hd, h⟩ := h
    cases h
    split
    · exact .moved he (hpc ▸ .stateNull hd ‹_›)
    · exact .moved he (hpc ▸ .stateSome hd ‹_›)
  · rename_i m hpc
    replace h := Option.bind_eq_some_iff.mp h
    obtain ⟨it, hd, h⟩ := h
    cases h
    exact .handleSet he hpc hd
  · rename_i m ok hpc
    replace h := Option.bind_eq_some_iff.mp h
    obtain ⟨s₁, hc, h⟩ := h
    cases h
    exact create_change he hpc hc
  · rename_i m hpc
    replace h := Option.bind_eq_some_iff.mp h
    obtain ⟨it, hd, h⟩ := h
    cases h
    split
    · exact .moved he (hpc ▸ .guardPass hd ‹_›)
    · exact .moved he (hpc ▸ .guardFail hd ‹_›)
  · rename_i m hpc
    replace h := Option.bind_eq_some_iff.mp h
    obtain ⟨it, hd, h⟩ := h
    cases h
    exact .called he hpc hd
  · rename_i m r now hpc
    replace h := Option.bind_eq_some_iff.mp h
    obtain ⟨s₁, hc, h⟩ := h
    cases h
    exact callback_change he hpc hc
  · rename_i m hpc
    cases h
    exact .moved he (hpc ▸ .noVerdict)
  · rename_i hpc
    replace h := Option.bind_eq_some_iff.mp h
    obtain ⟨l, hq, h⟩ := h
    split at h
    · cases h
      exact .cleared he hpc (‹l = []› ▸ hq)
    · cases h
  · split at h
    · cases h
      exact .thrown he ‹_›
    · cases h
  · cases h

/-- **Inversion of a step.** -/
theorem step_change {s s' : Sys} {a : Act} (h : system.step s a = some s') : Change s a s' := by
  cases a with
  | insert key data filter dir now => cases h; exact insert_change s key data filter dir now
  | engine q a => exact engine_change h
  | cleanup now =>
      simp only [system, step] at h
      split at h
      · cases h; exact cleanup_change now ‹_›
      · cases h
  | stop => exact stop_change h

/-- The branches are steps. -/
theorem Change.step_eq {s s' : Sys} {a : Act} (h : Change s a s') : system.step s a = some s' := by
  cases h with
  | dropped h => simp [system, step, insertOrUpdateFlows, h]
  | @inserted key data filter dir now hn hf =>
      have hi : ConnTable.insert s.connTable (s.newNode key filter dir now) =
          (s.connTable ++ [s.newNode key filter dir now], true) :=
        ConnTable.insert_of_find_none hf
      simp only [system, step, insertOrUpdateFlows, if_neg hn, hf, insertFlow, hi]
      rfl
  | ignored hn hf hi =>
      simp only [system, step, insertOrUpdateFlows, if_neg hn, hf, updateFlow]
      split
      · rfl
      · rw [if_neg (by tauto)]
        rfl
  | queued hn hf hi hd =>
      simp only [system, step, insertOrUpdateFlows, if_neg hn, hf, updateFlow]
      rw [if_neg (by rw [hi]; decide), if_pos ⟨hi, hd⟩]
      simp only [push, emit, update, ConnTable.update_update, List.append_assoc,
        List.singleton_append]
      rfl
  | popped he hpc hq hm | exits he hpc hq hm =>
      simp [system, step, engineStep, he, hpc, popQueue, hq, hm]
      rfl
  | @moved _ e _ _ he hm =>
      obtain ⟨handle, pc⟩ := e
      cases hm with
      | stateNull hd hn | stateSome hd hn => simp [system, step, engineStep, he, hd, hn]
      | guardPass hd hc | guardFail hd hc => simp [system, step, engineStep, he, hd, hc]
      | noVerdict => simp [system, step, engineStep, he]
  | handleSet he hpc hd => simp [system, step, engineStep, he, hpc, hd]
  | createFailed he hpc hd => simp [system, step, engineStep, he, hpc, hd, connCreate]
  | created he hpc hd =>
      simp [system, step, engineStep, he, hpc, hd, connCreate]
      rfl
  | called he hpc hd => simp [system, step, engineStep, he, hpc, hd]
  | unfound he hpc hd hf =>
      simp [system, step, engineStep, he, hpc, hd, hf, updateFlowTableDPIData]
  | reported he hpc hd hf hr | noted he hpc hd hf hr =>
      simp [system, step, engineStep, he, hpc, hd, hf, updateFlowTableDPIData, hr]
  | @thrown _ e he hpc =>
      obtain ⟨handle, pc⟩ := e
      cases pc with
      | clear | failed | exited => cases hpc
      | _ => simp [system, step, engineStep, he, EnginePc.inLoop]
  | cleared he hpc hq => simp [system, step, engineStep, he, hpc, hq]
  | cleanup h => simp [system, step, h, cleanupFlows, cleanupLoop_eq]
  | stopCleanup h => simp [system, step, stop, h, cleanupFlows, finalLoop_eq]
  | stopPush h hi => simp [system, step, stop, h, hi]
  | stopMoved h =>
      cases h with
      | join h | tell h => simp [system, step, stop, h]
      | done h hi => simp [system, step, stop, h, hi]

end Sys
end DistDpi
