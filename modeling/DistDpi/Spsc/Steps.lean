import DistDpi.Spsc.Definitions

/-!
# Spsc — steps

What a step of the queue's system can do (`Change`), with what it has found.
-/

namespace DistDpi.Spsc.State

universe u
variable {T : Type u} {s s' : State T} {a : Act T}

/-- The next access of `a` is to a slot that does not hold what it needs. -/
def Faults (s : State T) : Act T → Prop
  | .producer => ∃ record i, s.producer = .construct record i ∧ s.queue.records[i]? ≠ some .raw
  | .consumer =>
      (∃ i, s.consumer = .move i ∧ ∀ r, s.queue.records[i]? ≠ some (.live r)) ∨
      (∃ r i, s.consumer = .destroyMoved r i ∧ s.queue.records[i]? ≠ some .moved) ∨
      ∃ i, s.consumer = .destroyLive i ∧ ∀ r, s.queue.records[i]? ≠ some (.live r)
  | .destructor => ∃ p c, s.producer = .returned p ∧ s.consumer = .returned c ∧
      destroyLoop s.queue.size s.queue.size s.queue.records s.queue.readIndex
        s.queue.writeIndex = none
  | .producerCalls _ | .consumerCalls _ => False

/-- **What a step can do.** -/
inductive Change (s : State T) : Act T → State T → Prop where
  | producerCalled {call : ProducerCall T} {ret : ProducerRet} (hp : s.producer = .returned ret) :
      Change s (.producerCalls call) { s with producer := .loading call call.loads }
  | producerLoads {call : ProducerCall T} {l l' : Loads} (hp : s.producer = .loading call l)
      (hl : l.step s.queue = .inl l') : Change s .producer { s with producer := .loading call l' }
  | producerLoaded {call : ProducerCall T} {l : Loads} {r w : Nat}
      (hp : s.producer = .loading call l) (hl : l.step s.queue = .inr (r, w)) :
      Change s .producer { s with producer := call.loaded s.queue.size r w }
  | constructed {record : T} {i : Nat} (hp : s.producer = .construct record i)
      (hr : s.queue.records[i]? = some .raw) :
      Change s .producer { s.setRecords (s.queue.records.set i (.live record)) with
        producer := .store record i }
  | wrote {record : T} {i : Nat} (hp : s.producer = .store record i) :
      Change s .producer { s with
        queue := { s.queue with writeIndex := nextRecord s.queue.size i }
        producer := .returned (.write true)
        written := s.written ++ [record] }
  | consumerCalled {call : ConsumerCall} {ret : ConsumerRet T} (hc : s.consumer = .returned ret) :
      Change s (.consumerCalls call) { s with consumer := .loading call call.loads }
  | consumerLoads {call : ConsumerCall} {l l' : Loads} (hc : s.consumer = .loading call l)
      (hl : l.step s.queue = .inl l') : Change s .consumer { s with consumer := .loading call l' }
  | consumerLoaded {call : ConsumerCall} {l : Loads} {r w : Nat}
      (hc : s.consumer = .loading call l) (hl : l.step s.queue = .inr (r, w)) :
      Change s .consumer { s with consumer := call.loaded s.queue.size r w }
  | moved {record : T} {i : Nat} (hc : s.consumer = .move i)
      (hr : s.queue.records[i]? = some (.live record)) :
      Change s .consumer { s.setRecords (s.queue.records.set i .moved) with
        consumer := .destroyMoved record i }
  | destroyedMoved {record : T} {i : Nat} (hc : s.consumer = .destroyMoved record i)
      (hr : s.queue.records[i]? = some .moved) :
      Change s .consumer { s.setRecords (s.queue.records.set i .raw) with
        consumer := .store record (.read (some record)) i }
  | destroyedLive {record : T} {i : Nat} (hc : s.consumer = .destroyLive i)
      (hr : s.queue.records[i]? = some (.live record)) :
      Change s .consumer { s.setRecords (s.queue.records.set i .raw) with
        consumer := .store record .popped i }
  | took {record : T} {ret : ConsumerRet T} {i : Nat} (hc : s.consumer = .store record ret i) :
      Change s .consumer { s with
        queue := { s.queue with readIndex := nextRecord s.queue.size i }
        consumer := .returned ret
        takenOut := s.takenOut ++ [record] }
  | destructed {p : ProducerRet} {c : ConsumerRet T} {destroyed : List T} {records : List (Slot T)}
      (hp : s.producer = .returned p) (hc : s.consumer = .returned c)
      (hd : destroyLoop s.queue.size s.queue.size s.queue.records s.queue.readIndex
        s.queue.writeIndex = some (destroyed, records)) :
      Change s .destructor { s.setRecords records with phase := .destroyed destroyed }
  | faulted {a : Act T} (hf : s.Faults a) : Change s a { s with phase := .faulted }

theorem access_some {α : Type u} {records records' : List (Slot T)} {i : Nat}
    {get : Slot T → Option α} {leave : Slot T} {x : α}
    (h : access records i get leave = some (x, records')) :
    (∃ slot, records[i]? = some slot ∧ get slot = some x) ∧ records' = records.set i leave := by
  obtain ⟨y, hy, e⟩ := Option.map_eq_some_iff.mp h
  cases e
  exact ⟨Option.bind_eq_some_iff.mp hy, rfl⟩

theorem access_none {α : Type u} {records : List (Slot T)} {i : Nat} {get : Slot T → Option α}
    {leave slot : Slot T} (h : access records i get leave = none) (hs : records[i]? = some slot) :
    get slot = none := by
  rw [access, hs] at h
  exact Option.map_eq_none_iff.mp h

@[simp] theorem raw?_some {slot : Slot T} {x : PUnit} : slot.raw? = some x ↔ slot = .raw := by
  cases slot <;> simp [Slot.raw?]

@[simp] theorem live?_some {slot : Slot T} {r : T} : slot.live? = some r ↔ slot = .live r := by
  cases slot <;> simp [Slot.live?]

@[simp] theorem moved?_some {slot : Slot T} {x : PUnit} : slot.moved? = some x ↔ slot = .moved := by
  cases slot <;> simp [Slot.moved?]

theorem producer_change (h : s.producerStep = some s') : s.Change .producer s' := by
  rw [producerStep] at h
  split at h
  · cases h
  · rename_i call l hp
    split at h <;> rename_i hl <;> cases h
    · exact .producerLoads hp hl
    · exact .producerLoaded hp hl
  · rename_i record i hp
    split at h <;> rename_i hr <;> cases h
    · obtain ⟨⟨slot, hs, hraw⟩, rfl⟩ := access_some hr
      exact .constructed hp (raw?_some.mp hraw ▸ hs)
    · exact .faulted ⟨record, i, hp, fun hs => by cases access_none hr hs⟩
  · rename_i record i hp
    cases h
    exact .wrote hp

theorem consumer_change (h : s.consumerStep = some s') : s.Change .consumer s' := by
  rw [consumerStep] at h
  split at h
  · cases h
  · cases h
  · rename_i call l hc
    split at h <;> rename_i hl <;> cases h
    · exact .consumerLoads hc hl
    · exact .consumerLoaded hc hl
  · rename_i i hc
    split at h <;> rename_i hr <;> cases h
    · obtain ⟨⟨slot, hs, hlive⟩, rfl⟩ := access_some hr
      exact .moved hc (live?_some.mp hlive ▸ hs)
    · exact .faulted (.inl ⟨i, hc, fun r hs => by cases access_none hr hs⟩)
  · rename_i record i hc
    split at h <;> rename_i hr <;> cases h
    · obtain ⟨⟨slot, hs, hmoved⟩, rfl⟩ := access_some hr
      exact .destroyedMoved hc (moved?_some.mp hmoved ▸ hs)
    · exact .faulted (.inr (.inl ⟨record, i, hc, fun hs => by cases access_none hr hs⟩))
  · rename_i i hc
    split at h <;> rename_i hr <;> cases h
    · obtain ⟨⟨slot, hs, hlive⟩, rfl⟩ := access_some hr
      exact .destroyedLive hc (live?_some.mp hlive ▸ hs)
    · exact .faulted (.inr (.inr ⟨i, hc, fun r hs => by cases access_none hr hs⟩))
  · rename_i record ret i hc
    cases h
    exact .took hc

theorem destructor_change (h : s.destructorStep = some s') : s.Change .destructor s' := by
  rw [destructorStep] at h
  split at h
  · rename_i hp hc
    split at h <;> rename_i hd <;> cases h
    · exact .destructed hp hc hd
    · exact .faulted ⟨_, _, hp, hc, hd⟩
  · cases h

theorem step_change (h : (system T).step s a = some s') : s.phase = .running ∧ s.Change a s' := by
  change s.step a = some s' at h
  rw [step.eq_def] at h
  split at h
  · cases h
  · cases h
  refine ⟨‹_›, ?_⟩
  cases a with
  | producerCalls call =>
      dsimp only at h
      split at h <;> cases h
      rename_i ret hp
      exact .producerCalled hp
  | producer => exact producer_change h
  | consumerCalls call =>
      dsimp only at h
      split at h <;> cases h
      rename_i ret hc
      exact .consumerCalled hc
  | consumer => exact consumer_change h
  | destructor => exact destructor_change h

end DistDpi.Spsc.State
