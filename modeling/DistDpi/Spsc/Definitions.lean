import DistDpi.Support.Machine
import DistDpi.Support.Words

/-!
# Spsc — definitions

`ProducerConsumerQueue.h`: a ring of `size_` slots between one producer and one consumer.  A step
is one load or store of an index, or one construction, move or destruction of a slot; what is
computed from local variables goes with the access before it.  Where the language leaves the order
of two loads open, the call says which comes first.

A thread that is in no call is at `returned`, with what its last call returned.  An access to a
slot that does not hold what the access needs ends in `faulted`.

`written` and `takenOut` are not the program's: the records whose `write` returned true, and those
that `read` or `popFront` has removed.
-/

namespace DistDpi.Spsc

universe u
variable {T : Type u}

/-- A slot of `records_`: raw memory, a record, or what a move leaves of one. -/
inductive Slot (T : Type u) where
  | raw
  | live (record : T)
  | moved
  deriving DecidableEq, Repr

/-- `ProducerConsumerQueue<T>`. -/
structure ProducerConsumerQueue (T : Type u) where
  size : Nat
  records : List (Slot T)
  readIndex : Nat
  writeIndex : Nat
  deriving DecidableEq, Repr

/-- A `size` that the constructor accepts and for which `sizeGuess` has an `int`. -/
structure Size where
  val : Nat
  two_le : 2 ≤ val
  le : val ≤ 2 ^ 31

/-- The constructor. -/
def create (size : Size) : ProducerConsumerQueue T :=
  { size := size.val, records := List.replicate size.val .raw, readIndex := 0, writeIndex := 0 }

/-- `nextRecord`: the index after `i`. -/
def nextRecord (size i : Nat) : Nat :=
  let next := (i + 1) % 2 ^ 32
  if next = size then 0 else next

/-- What `sizeGuess` makes of the indices it has loaded. -/
def guess (size read write : Nat) : Nat :=
  let ret := toInt ((write : Int) - read)
  let ret := if ret < 0 then toInt (ret + size) else ret
  (ret % 2 ^ 64).toNat

/-! ### Slots -/

/-- An access to slot `i`: what it gets there, if that is what it needs, and what it leaves. -/
def access {α : Type u} (records : List (Slot T)) (i : Nat) (get : Slot T → Option α)
    (leave : Slot T) : Option (α × List (Slot T)) :=
  (records[i]?.bind get).map fun a => (a, records.set i leave)

def Slot.raw? : Slot T → Option PUnit
  | .raw => some ⟨⟩
  | _ => none

def Slot.live? : Slot T → Option T
  | .live record => some record
  | _ => none

def Slot.moved? : Slot T → Option PUnit
  | .moved => some ⟨⟩
  | _ => none

/-- `new (&records_[i]) T(record)`. -/
def construct (records : List (Slot T)) (i : Nat) (record : T) :=
  access records i Slot.raw? (.live record)

/-- `std::move(records_[i])`. -/
def move (records : List (Slot T)) (i : Nat) :=
  access records i Slot.live? .moved

/-- `records_[i].~T()`, on what a move has left. -/
def destroyMoved (records : List (Slot T)) (i : Nat) :=
  access records i Slot.moved? .raw

/-- `records_[i].~T()`, on a record. -/
def destroyLive (records : List (Slot T)) (i : Nat) :=
  access records i Slot.live? .raw

/-- The loop of the destructor, with fuel: the records it destroys, and the slots. -/
def destroyLoop (size : Nat) : Nat → List (Slot T) → Nat → Nat → Option (List T × List (Slot T))
  | 0, _, _, _ => none
  | fuel + 1, records, read, last =>
      if read = last then some ([], records)
      else
        (destroyLive records read).bind fun (record, records) =>
          let read := (read + 1) % 2 ^ 64
          (destroyLoop size fuel records (if read = size then 0 else read) last).map
            fun (rest, records) => (record :: rest, records)

/-! ### Calls -/

/-- Loading both indices: none loaded yet, or one of them. -/
inductive Loads where
  | start (readFirst : Bool)
  | haveRead (read : Nat)
  | haveWrite (write : Nat)
  deriving DecidableEq, Repr

/-- One load: the loads so far, or `readIndex_` and `writeIndex_` as they were loaded. -/
def Loads.step (q : ProducerConsumerQueue T) : Loads → Loads ⊕ Nat × Nat
  | .start true => .inl (.haveRead q.readIndex)
  | .start false => .inl (.haveWrite q.writeIndex)
  | .haveRead read => .inr (read, q.writeIndex)
  | .haveWrite write => .inr (q.readIndex, write)

/-- A call of the producer. -/
inductive ProducerCall (T : Type u) where
  | write (record : T)
  | isFull
  | sizeGuess (readFirst : Bool)
  deriving DecidableEq, Repr

def ProducerCall.loads : ProducerCall T → Loads
  | .write _ | .isFull => .start false
  | .sizeGuess readFirst => .start readFirst

inductive ProducerRet where
  | none
  | write (ok : Bool)
  | isFull (full : Bool)
  | size (n : Nat)
  deriving DecidableEq, Repr

/-- Where the producer is. -/
inductive ProducerPc (T : Type u) where
  | returned (ret : ProducerRet)
  | loading (call : ProducerCall T) (loads : Loads)
  | construct (record : T) (currentWrite : Nat)
  | store (record : T) (currentWrite : Nat)
  deriving DecidableEq, Repr

/-- What a call does with the indices it has loaded. -/
def ProducerCall.loaded (size read write : Nat) : ProducerCall T → ProducerPc T
  | .write record =>
      if nextRecord size write ≠ read then .construct record write else .returned (.write false)
  | .isFull => .returned (.isFull (nextRecord size write = read))
  | .sizeGuess _ => .returned (.size (guess size read write))

/-- A call of the consumer. -/
inductive ConsumerCall where
  | read
  | isEmpty (readFirst : Bool)
  | frontPtr
  | popFront
  | sizeGuess (readFirst : Bool)
  deriving DecidableEq, Repr

def ConsumerCall.loads : ConsumerCall → Loads
  | .read | .frontPtr | .popFront => .start true
  | .isEmpty readFirst | .sizeGuess readFirst => .start readFirst

inductive ConsumerRet (T : Type u) where
  | none
  | read (record : Option T)
  | isEmpty (empty : Bool)
  | front (slot : Option Nat)
  | popped
  | size (n : Nat)
  deriving DecidableEq, Repr

/-- Where the consumer is.  `aborted`: the assertion of `popFront` has failed. -/
inductive ConsumerPc (T : Type u) where
  | returned (ret : ConsumerRet T)
  | loading (call : ConsumerCall) (loads : Loads)
  | move (currentRead : Nat)
  | destroyMoved (record : T) (currentRead : Nat)
  | destroyLive (currentRead : Nat)
  | store (record : T) (ret : ConsumerRet T) (currentRead : Nat)
  | aborted
  deriving DecidableEq, Repr

/-- What a call does with the indices it has loaded. -/
def ConsumerCall.loaded (size read write : Nat) : ConsumerCall → ConsumerPc T
  | .read => if read = write then .returned (.read none) else .move read
  | .isEmpty _ => .returned (.isEmpty (read = write))
  | .frontPtr => .returned (.front (if read = write then none else some read))
  | .popFront => if read ≠ write then .destroyLive read else .aborted
  | .sizeGuess _ => .returned (.size (guess size read write))

/-! ### The system -/

/-- `destroyed`: the destructor has run, and has destroyed these records. -/
inductive Phase (T : Type u) where
  | running
  | faulted
  | destroyed (records : List T)
  deriving DecidableEq, Repr

/-- The queue, its two threads, and the histories. -/
structure State (T : Type u) where
  queue : ProducerConsumerQueue T
  producer : ProducerPc T := .returned .none
  consumer : ConsumerPc T := .returned .none
  phase : Phase T := .running
  written : List T := []
  takenOut : List T := []
  deriving DecidableEq, Repr

def init (size : Size) : State T := { queue := create size }

inductive Act (T : Type u) where
  | producerCalls (call : ProducerCall T)
  | producer
  | consumerCalls (call : ConsumerCall)
  | consumer
  | destructor
  deriving DecidableEq, Repr

namespace State

def setRecords (s : State T) (records : List (Slot T)) : State T :=
  { s with queue := { s.queue with records := records } }

/-- The producer's next access. -/
def producerStep (s : State T) : Option (State T) :=
  match s.producer with
  | .returned _ => none
  | .loading call loads =>
      match loads.step s.queue with
      | .inl loads => some { s with producer := .loading call loads }
      | .inr (read, write) => some { s with producer := call.loaded s.queue.size read write }
  -- the slot is written before `writeIndex_` makes it visible
  | .construct record currentWrite =>
      match construct s.queue.records currentWrite record with
      | some (_, records) =>
          some { s.setRecords records with producer := .store record currentWrite }
      | none => some { s with phase := .faulted }
  | .store record currentWrite =>
      some { s with
        queue := { s.queue with writeIndex := nextRecord s.queue.size currentWrite }
        producer := .returned (.write true)
        written := s.written ++ [record] }

/-- The consumer's next access. -/
def consumerStep (s : State T) : Option (State T) :=
  match s.consumer with
  | .returned _ | .aborted => none
  | .loading call loads =>
      match loads.step s.queue with
      | .inl loads => some { s with consumer := .loading call loads }
      | .inr (read, write) => some { s with consumer := call.loaded s.queue.size read write }
  | .move currentRead =>
      match move s.queue.records currentRead with
      | some (record, records) =>
          some { s.setRecords records with consumer := .destroyMoved record currentRead }
      | none => some { s with phase := .faulted }
  | .destroyMoved record currentRead =>
      match destroyMoved s.queue.records currentRead with
      | some (_, records) =>
          some { s.setRecords records with
            consumer := .store record (.read (some record)) currentRead }
      | none => some { s with phase := .faulted }
  | .destroyLive currentRead =>
      match destroyLive s.queue.records currentRead with
      | some (record, records) =>
          some { s.setRecords records with consumer := .store record .popped currentRead }
      | none => some { s with phase := .faulted }
  | .store record ret currentRead =>
      some { s with
        queue := { s.queue with readIndex := nextRecord s.queue.size currentRead }
        consumer := .returned ret
        takenOut := s.takenOut ++ [record] }

/-- The destructor, when no thread is in a call. -/
def destructorStep (s : State T) : Option (State T) :=
  match s.producer, s.consumer with
  | .returned _, .returned _ =>
      match destroyLoop s.queue.size s.queue.size s.queue.records s.queue.readIndex
          s.queue.writeIndex with
      | some (destroyed, records) => some { s.setRecords records with phase := .destroyed destroyed }
      | none => some { s with phase := .faulted }
  -- a thread is in a call: the destructor is not to be called
  | _, _ => none

def step (s : State T) (a : Act T) : Option (State T) :=
  match s.phase with
  | .faulted | .destroyed _ => none
  | .running =>
    match a with
    | .producerCalls call =>
        match s.producer with
        | .returned _ => some { s with producer := .loading call call.loads }
        | _ => none
    | .producer => s.producerStep
    | .consumerCalls call =>
        match s.consumer with
        | .returned _ => some { s with consumer := .loading call call.loads }
        | _ => none
    | .consumer => s.consumerStep
    | .destructor => s.destructorStep

end State

/-- **The system**: the queue, with a producer and a consumer that call what they like. -/
def system (T : Type u) : Machine (State T) (Act T) := ⟨State.step⟩

end DistDpi.Spsc
