import DistDpi.Spsc.Steps
import DistDpi.Support.Ring

/-!
# Spsc — invariants

The indices are counters modulo `size_`: `readIndex_` that of the records taken out, `writeIndex_`
that of the records written.  The window of the ring starts at the first.  Its slots hold the
records stored, then raw memory, except where a thread is between an access to a slot and its
store of the index: the first slot may be moved from or destroyed, and the one behind the last may
be constructed (`slotAt`).

What a thread has loaded of the other's index is an earlier value of it, which is behind.  So the
consumer sees no more than is stored, and the producer no fewer (`Inv`).
-/

namespace DistDpi.Spsc

universe u
variable {T : Type u}

/-! ### Indices -/

theorem nextRecord_mod {size k : Nat} (h : 2 ≤ size) (h' : size ≤ 2 ^ 31) :
    nextRecord size (k % size) = (k + 1) % size := by
  have hlt : k % size < size := Nat.mod_lt _ (by omega)
  rw [nextRecord, Nat.mod_eq_of_lt (by omega), Ring.succ_mod (by omega)]

theorem guess_mod {size a b : Nat} (h : size ≤ 2 ^ 31) (hab : a ≤ b) (hb : b < a + size) :
    guess size (a % size) (b % size) = b - a := by
  have ha' : a % size < size := Nat.mod_lt _ (by omega)
  have hb' : b % size < size := Nat.mod_lt _ (by omega)
  rw [guess, toInt_of_lt (by omega) (by omega)]
  rcases Ring.sub_eq hab hb with ⟨hle, e⟩ | ⟨hlt, e⟩
  · rw [if_neg (by omega), e, Int.emod_eq_of_lt (by omega) (by omega)]
    omega
  · rw [if_pos (by omega), toInt_of_lt (by omega) (by omega), e,
      Int.emod_eq_of_lt (by omega) (by omega)]
    omega

theorem Loads.step_inl {q : ProducerConsumerQueue T} {l l' : Loads} (h : l.step q = .inl l') :
    l = .start true ∧ l' = .haveRead q.readIndex ∨ l = .start false ∧ l' = .haveWrite q.writeIndex := by
  rcases l with (_ | _) | _ | _ <;> cases h
  · exact .inr ⟨rfl, rfl⟩
  · exact .inl ⟨rfl, rfl⟩

theorem Loads.step_inr {q : ProducerConsumerQueue T} {l : Loads} {r w : Nat}
    (h : l.step q = .inr (r, w)) :
    l = .haveRead r ∧ w = q.writeIndex ∨ l = .haveWrite w ∧ r = q.readIndex := by
  rcases l with (_ | _) | _ | _ <;> cases h
  · exact .inl ⟨rfl, rfl⟩
  · exact .inr ⟨rfl, rfl⟩

/-! ### The invariant -/

/-- The slot of the oldest record, which was `record`. -/
def ConsumerPc.front (record : T) : ConsumerPc T → Slot T
  | .destroyMoved .. => .moved
  | .store .. => .raw
  | _ => .live record

/-- The slot of the next record. -/
def ProducerPc.back : ProducerPc T → Slot T
  | .store record _ => .live record
  | _ => .raw

/-- What the slot of the counter `k` holds, with `taken` of the records `written` taken out. -/
def slotAt (written : List T) (taken : Nat) (p : ProducerPc T) (c : ConsumerPc T) (k : Nat) : Slot T :=
  match written[k]? with
  | some record => if k = taken then c.front record else .live record
  | none => if k = written.length then p.back else .raw

theorem slotAt_of_lt {written : List T} {taken k : Nat} {p : ProducerPc T} {c : ConsumerPc T}
    {record : T} (h : written[k]? = some record) :
    slotAt written taken p c k = if k = taken then c.front record else .live record := by
  rw [slotAt, h]

theorem slotAt_of_le {written : List T} {taken k : Nat} {p : ProducerPc T} {c : ConsumerPc T}
    (h : written.length ≤ k) :
    slotAt written taken p c k = if k = written.length then p.back else .raw := by
  rw [slotAt, List.getElem?_eq_none h]

namespace State
variable {s s' : State T} {a : Act T}

/-- The records in the queue. -/
def stored (s : State T) : List T := s.written.drop s.takenOut.length

/-- What the slots hold. -/
def Laid (s : State T) : Prop :=
  match s.phase with
  | .running => Ring.Holds s.queue.size s.queue.records s.takenOut.length
      (slotAt s.written s.takenOut.length s.producer s.consumer)
  | .faulted => False
  | .destroyed destroyed => destroyed = s.stored ∧ ∀ slot ∈ s.queue.records, slot = .raw

/-- What the producer knows. -/
def ProducerOk (s : State T) : ProducerPc T → Prop
  | .loading call (.start readFirst) => call.loads = .start readFirst
  | .loading call (.haveRead read) => call.loads = .start true ∧
      ∃ k ≤ s.takenOut.length, s.written.length < k + s.queue.size ∧ read = k % s.queue.size
  | .loading _ (.haveWrite write) => write = s.queue.writeIndex
  | .construct _ i | .store _ i =>
      i = s.queue.writeIndex ∧ s.written.length + 1 < s.takenOut.length + s.queue.size
  | .returned (.size n) => s.written.length - s.takenOut.length ≤ n
  | .returned _ => True

/-- What the consumer knows. -/
def ConsumerOk (s : State T) : ConsumerPc T → Prop
  | .loading call (.start readFirst) => call.loads = .start readFirst
  | .loading _ (.haveRead read) => read = s.queue.readIndex
  | .loading call (.haveWrite write) => call.loads = .start false ∧
      ∃ k, s.takenOut.length ≤ k ∧ k ≤ s.written.length ∧ write = k % s.queue.size
  | .move i | .destroyLive i => i = s.queue.readIndex ∧ s.takenOut.length < s.written.length
  | .destroyMoved record i => i = s.queue.readIndex ∧ s.written[s.takenOut.length]? = some record
  | .store record ret i =>
      i = s.queue.readIndex ∧ s.written[s.takenOut.length]? = some record ∧
        (ret = .read (some record) ∨ ret = .popped)
  | .returned (.size n) => n ≤ s.written.length - s.takenOut.length
  | .returned (.isEmpty false) => s.takenOut.length < s.written.length
  | .returned (.front (some i)) =>
      i = s.queue.readIndex ∧ s.takenOut.length < s.written.length
  | .returned _ | .aborted => True

/-- **The invariant.** -/
structure Inv (s : State T) : Prop where
  two_le : 2 ≤ s.queue.size
  le : s.queue.size ≤ 2 ^ 31
  length : s.queue.records.length = s.queue.size
  read : s.queue.readIndex = s.takenOut.length % s.queue.size
  write : s.queue.writeIndex = s.written.length % s.queue.size
  order : s.takenOut <+: s.written
  room : s.written.length < s.takenOut.length + s.queue.size
  slots : s.Laid
  producer : s.ProducerOk s.producer
  consumer : s.ConsumerOk s.consumer

theorem inv_init (size : Size) : (init size : State T).Inv where
  two_le := size.two_le
  le := size.le
  length := List.length_replicate
  read := (Nat.zero_mod _).symm
  write := (Nat.zero_mod _).symm
  order := List.nil_prefix
  room := by
    change 0 < 0 + size.val
    have := size.two_le
    omega
  slots := by
    have hpos : 0 < size.val := by
      have := size.two_le
      omega
    intro k _ _
    change (List.replicate size.val Slot.raw)[k % size.val]? = some (slotAt [] _ _ _ k)
    rw [List.getElem?_replicate, if_pos (Nat.mod_lt _ hpos)]
    change _ = some (if k = 0 then Slot.raw else Slot.raw)
    rw [ite_self]
  producer := trivial
  consumer := trivial

/-! ### What the invariant says of the slots -/

theorem Inv.holds (hI : s.Inv) (hr : s.phase = .running) :
    Ring.Holds s.queue.size s.queue.records s.takenOut.length
      (slotAt s.written s.takenOut.length s.producer s.consumer) := by
  have h := hI.slots
  rw [Laid, hr] at h
  exact h

theorem Inv.taken_le (hI : s.Inv) : s.takenOut.length ≤ s.written.length := hI.order.length_le

/-- The slot of the oldest record. -/
theorem Inv.first (hI : s.Inv) (hr : s.phase = .running) {record : T}
    (h : s.written[s.takenOut.length]? = some record) :
    s.queue.records[s.queue.readIndex]? = some (s.consumer.front record) := by
  have two := hI.two_le
  rw [hI.read, hI.holds hr _ (Nat.le_refl _) (by omega), slotAt_of_lt h, if_pos rfl]

/-- The slot of the next record. -/
theorem Inv.next (hI : s.Inv) (hr : s.phase = .running) :
    s.queue.records[s.queue.writeIndex]? = some s.producer.back := by
  rw [hI.write, hI.holds hr _ hI.taken_le hI.room, slotAt_of_le (Nat.le_refl _), if_pos rfl]

theorem Inv.exists_first (h : s.takenOut.length < s.written.length) :
    ∃ record, s.written[s.takenOut.length]? = some record :=
  ⟨_, List.getElem?_eq_getElem h⟩

end State

/-! ### The destructor -/

theorem destroyLive_eq {records : List (Slot T)} {i : Nat} {record : T}
    (h : records[i]? = some (.live record)) :
    destroyLive records i = some (record, records.set i .raw) := by
  rw [destroyLive, access, h]
  rfl

/-- **The loop of the destructor**: where the slots from `read` on hold `rest`, it destroys `rest`,
and leaves raw memory. -/
theorem destroyLoop_eq {size fuel lo : Nat} {records : List (Slot T)} {rest : List T}
    (h : 2 ≤ size) (h' : size ≤ 2 ^ 31) (hf : rest.length < fuel) (hs : rest.length < size)
    (hh : Ring.Holds size records lo fun k => (rest[k - lo]?).elim .raw .live) :
    ∃ records', destroyLoop size fuel records (lo % size) ((lo + rest.length) % size) =
        some (rest, records') ∧ records'.length = records.length ∧
      Ring.Holds size records' (lo + rest.length) fun _ => .raw := by
  -- on the records left; `lo` moves with them, modulo `size` where the loop wraps
  induction rest generalizing fuel lo records with
  | nil =>
      obtain ⟨fuel, rfl⟩ := Nat.exists_eq_succ_of_ne_zero (Nat.ne_of_gt hf)
      exact ⟨records, if_pos rfl, rfl, hh.congr fun _ _ _ => rfl⟩
  | cons record rest ih =>
      rw [List.length_cons] at hf hs ⊢
      obtain ⟨fuel, rfl⟩ := Nat.exists_eq_succ_of_ne_zero (Nat.ne_of_gt (Nat.zero_lt_of_lt hf))
      have hne : lo % size ≠ (lo + (rest.length + 1)) % size := fun e => by
        have := Ring.eq_of_mod_eq (by omega) (by omega) e
        omega
      have hfirst : records[lo % size]? = some (.live record) := by
        rw [hh lo (Nat.le_refl _) (by omega)]
        simp
      have hlt : lo % size < size := Nat.mod_lt _ (by omega)
      have hnext : (if (lo % size + 1) % 2 ^ 64 = size then 0 else (lo % size + 1) % 2 ^ 64) =
          (lo + 1) % size := by
        rw [Nat.mod_eq_of_lt (by omega), Ring.succ_mod (by omega)]
      have hset : Ring.Holds size (records.set (lo % size) .raw) lo
          fun k => if k = lo then .raw else (((record :: rest)[k - lo]?).elim .raw .live) :=
        hh.set (Nat.le_refl _) (by omega) (if_pos rfl) fun j hj => if_neg hj
      have hsucc : Ring.Holds size (records.set (lo % size) .raw) (lo + 1)
          fun k => (rest[k - (lo + 1)]?).elim .raw .live := by
        refine hset.succ (fun k hk _ => ?_) ?_
        · rw [if_neg (by omega), show k - lo = k - (lo + 1) + 1 by omega, List.getElem?_cons_succ]
        · rw [if_pos rfl, List.getElem?_eq_none (by omega)]
          rfl
      obtain ⟨records', hloop, hlen, hraw⟩ := ih (Nat.lt_of_succ_lt_succ hf) (by omega) hsucc
      refine ⟨records', ?_, ?_, ?_⟩
      · rw [destroyLoop, if_neg hne, destroyLive_eq hfirst, Option.bind_some]
        dsimp only
        rw [hnext, show lo + (rest.length + 1) = lo + 1 + rest.length by omega, hloop]
        rfl
      · rw [hlen, List.length_set]
      · rwa [show lo + (rest.length + 1) = lo + 1 + rest.length by omega]

namespace State
variable {s s' : State T} {a : Act T}

theorem Inv.destroys {p : ProducerRet} {c : ConsumerRet T} (hI : s.Inv) (hr : s.phase = .running)
    (hp : s.producer = .returned p) (hc : s.consumer = .returned c) :
    ∃ records, destroyLoop s.queue.size s.queue.size s.queue.records s.queue.readIndex
        s.queue.writeIndex = some (s.stored, records) ∧ records.length = s.queue.size ∧
      ∀ slot ∈ records, slot = .raw := by
  have hle := hI.taken_le
  have hroom := hI.room
  have hlen : s.stored.length = s.written.length - s.takenOut.length := List.length_drop
  have hh : Ring.Holds s.queue.size s.queue.records s.takenOut.length
      fun k => (s.stored[k - s.takenOut.length]?).elim .raw .live := by
    refine (hI.holds hr).congr fun k hk _ => ?_
    rw [stored, List.getElem?_drop, Nat.add_sub_of_le hk]
    rcases h : s.written[k]? with _ | record
    · rw [slotAt_of_le (List.getElem?_eq_none_iff.mp h), hp]
      exact (ite_self _).symm
    · rw [slotAt_of_lt h, hc]
      exact (ite_self _).symm
  obtain ⟨records, hloop, hlen', hraw⟩ := destroyLoop_eq hI.two_le hI.le
    (show s.stored.length < s.queue.size by omega) (by omega) hh
  rw [hlen, Nat.add_sub_of_le hle, ← hI.read, ← hI.write] at hloop
  refine ⟨records, hloop, hlen'.trans hI.length, fun slot hs => ?_⟩
  obtain ⟨k, -, -, e⟩ := hraw.of_mem (hlen'.trans hI.length) hs
  exact e

/-- No access finds what it does not need. -/
theorem Inv.not_faults (hI : s.Inv) (hr : s.phase = .running) : ¬ s.Faults a := by
  have hp := hI.producer
  have hc := hI.consumer
  cases a with
  | producer =>
      rintro ⟨record, i, hpc, h⟩
      rw [hpc] at hp
      refine h ?_
      rw [hp.1, hI.next hr, hpc]
      rfl
  | consumer =>
      rintro (⟨i, hpc, h⟩ | ⟨record, i, hpc, h⟩ | ⟨i, hpc, h⟩) <;> rw [hpc] at hc
      · obtain ⟨record, hrec⟩ := Inv.exists_first hc.2
        refine h record ?_
        rw [hc.1, hI.first hr hrec, hpc]
        rfl
      · refine h ?_
        rw [hc.1, hI.first hr hc.2, hpc]
        rfl
      · obtain ⟨record, hrec⟩ := Inv.exists_first hc.2
        refine h record ?_
        rw [hc.1, hI.first hr hrec, hpc]
        rfl
  | producerCalls | consumerCalls => exact id
  | destructor =>
      rintro ⟨p, c, hp, hc, hd⟩
      obtain ⟨records, hd', -⟩ := hI.destroys hr hp hc
      cases hd.symm.trans hd'

/-! ### The steps -/

theorem laid_of_holds (hr : s.phase = .running)
    (h : Ring.Holds s.queue.size s.queue.records s.takenOut.length
      (slotAt s.written s.takenOut.length s.producer s.consumer)) : s.Laid := by
  rw [Laid, hr]
  exact h

/-- The producer moves, and the slots stay as they are. -/
theorem Inv.setProducer {p : ProducerPc T} (hI : s.Inv) (hr : s.phase = .running)
    (hb : p.back = s.producer.back) (hp : s.ProducerOk p) : { s with producer := p }.Inv where
  __ := hI
  slots := laid_of_holds hr ((hI.holds hr).congr fun k _ _ => by rw [slotAt, slotAt, hb])
  producer := hp
  consumer := hI.consumer

/-- The consumer moves, and the slots stay as they are. -/
theorem Inv.setConsumer {c : ConsumerPc T} (hI : s.Inv) (hr : s.phase = .running)
    (hf : ∀ record, c.front record = s.consumer.front record) (hc : s.ConsumerOk c) :
    { s with consumer := c }.Inv where
  __ := hI
  slots := laid_of_holds hr ((hI.holds hr).congr fun k _ _ => by simp only [slotAt, hf])
  producer := hI.producer
  consumer := hc

/-- What the producer has loaded when it has loaded both indices. -/
theorem Inv.producer_loaded {call : ProducerCall T} {l : Loads} {r w : Nat} (hI : s.Inv)
    (hp : s.producer = .loading call l) (hl : l.step s.queue = .inr (r, w)) :
    w = s.written.length % s.queue.size ∧ ∃ k ≤ s.takenOut.length,
      s.written.length < k + s.queue.size ∧ r = k % s.queue.size ∧
      (call.loads = .start true ∨ k = s.takenOut.length) := by
  have h := hI.producer
  rw [hp] at h
  rcases Loads.step_inr hl with ⟨rfl, rfl⟩ | ⟨rfl, rfl⟩
  · obtain ⟨hc, k, hk, hlt, e⟩ := h
    exact ⟨hI.write, k, hk, hlt, e, .inl hc⟩
  · exact ⟨h.trans hI.write, _, Nat.le_refl _, hI.room, hI.read, .inr rfl⟩

/-- What the consumer has loaded when it has loaded both indices. -/
theorem Inv.consumer_loaded {call : ConsumerCall} {l : Loads} {r w : Nat} (hI : s.Inv)
    (hc : s.consumer = .loading call l) (hl : l.step s.queue = .inr (r, w)) :
    r = s.takenOut.length % s.queue.size ∧ ∃ k, s.takenOut.length ≤ k ∧ k ≤ s.written.length ∧
      w = k % s.queue.size ∧ (call.loads = .start false ∨ k = s.written.length) := by
  have h := hI.consumer
  rw [hc] at h
  rcases Loads.step_inr hl with ⟨rfl, rfl⟩ | ⟨rfl, rfl⟩
  · exact ⟨h.trans hI.read, _, hI.taken_le, Nat.le_refl _, hI.write, .inr rfl⟩
  · obtain ⟨hc, k, hk, hk', e⟩ := h
    exact ⟨hI.read, k, hk, hk', e, .inl hc⟩

/-- The next index is the one that was read of the consumer's where the queue was full. -/
theorem Inv.full_iff (hI : s.Inv) {k : Nat} (hk : k ≤ s.takenOut.length)
    (hlt : s.written.length < k + s.queue.size) :
    nextRecord s.queue.size (s.written.length % s.queue.size) = k % s.queue.size ↔
      s.written.length + 1 = k + s.queue.size := by
  have hle := hI.taken_le
  rw [nextRecord_mod hI.two_le hI.le, ← Nat.add_mod_right k]
  constructor
  · exact fun e => Ring.eq_of_mod_eq (by omega) (by omega) e
  · exact fun e => by rw [e]

/-- The indices that were read are the same where the queue was empty. -/
theorem Inv.empty_iff (hI : s.Inv) {k : Nat} (hk : s.takenOut.length ≤ k)
    (hk' : k ≤ s.written.length) :
    s.takenOut.length % s.queue.size = k % s.queue.size ↔ s.takenOut.length = k := by
  have hroom := hI.room
  exact ⟨Ring.eq_of_mod_eq hk (by omega), fun e => by rw [← e]⟩

theorem Inv.producerLoaded {call : ProducerCall T} {l : Loads} {r w : Nat} (hI : s.Inv)
    (hr : s.phase = .running) (hp : s.producer = .loading call l)
    (hl : l.step s.queue = .inr (r, w)) :
    { s with producer := call.loaded s.queue.size r w }.Inv := by
  obtain ⟨rfl, k, hk, hlt, rfl, -⟩ := hI.producer_loaded hp hl
  have hle := hI.taken_le
  have hfull := hI.full_iff hk hlt
  refine hI.setProducer hr ?_ ?_
  · rw [hp]
    cases call with
    | write record =>
        simp only [ProducerCall.loaded]
        split <;> rfl
    | isFull | sizeGuess => rfl
  · cases call with
    | write record =>
        simp only [ProducerCall.loaded]
        split
        · rename_i h
          rw [ne_eq, hfull] at h
          exact ⟨hI.write.symm, by omega⟩
        · trivial
    | isFull => trivial
    | sizeGuess =>
        rw [ProducerCall.loaded, guess_mod hI.le (by omega) hlt]
        change s.written.length - s.takenOut.length ≤ s.written.length - k
        omega

theorem Inv.consumerLoaded {call : ConsumerCall} {l : Loads} {r w : Nat} (hI : s.Inv)
    (hr : s.phase = .running) (hc : s.consumer = .loading call l)
    (hl : l.step s.queue = .inr (r, w)) :
    { s with consumer := call.loaded s.queue.size r w }.Inv := by
  obtain ⟨rfl, k, hk, hk', rfl, -⟩ := hI.consumer_loaded hc hl
  have hroom := hI.room
  have hempty := hI.empty_iff hk hk'
  refine hI.setConsumer hr (fun record => ?_) ?_
  · rw [hc]
    cases call with
    | read | popFront =>
        simp only [ConsumerCall.loaded]
        split <;> rfl
    | isEmpty | frontPtr | sizeGuess => rfl
  · -- as loaded, the queue is empty where all `k` records written by then are taken out
    cases call with
    | read =>
        simp only [ConsumerCall.loaded, hempty]
        split
        · trivial
        · exact ⟨hI.read.symm, by omega⟩
    | isEmpty =>
        simp only [ConsumerCall.loaded, hempty]
        by_cases e : s.takenOut.length = k
        · rw [decide_eq_true e]
          trivial
        · rw [decide_eq_false e]
          change s.takenOut.length < s.written.length
          omega
    | frontPtr =>
        simp only [ConsumerCall.loaded, hempty]
        split
        · trivial
        · exact ⟨hI.read.symm, by omega⟩
    | popFront =>
        simp only [ConsumerCall.loaded, ne_eq, hempty]
        split
        · exact ⟨hI.read.symm, by omega⟩
        · trivial
    | sizeGuess =>
        rw [ConsumerCall.loaded, guess_mod hI.le hk (by omega)]
        change k - s.takenOut.length ≤ s.written.length - s.takenOut.length
        omega

/-- More records written are no surprise to the consumer. -/
theorem ConsumerOk.mono {c : ConsumerPc T} (h : s.ConsumerOk c) (hw : s.written <+: s'.written)
    (ht : s'.takenOut = s.takenOut) (hs : s'.queue.size = s.queue.size)
    (hi : s'.queue.readIndex = s.queue.readIndex) : s'.ConsumerOk c := by
  have hlen := hw.length_le
  have hlt : s.takenOut.length < s.written.length → s'.takenOut.length < s'.written.length :=
    fun h => by rw [ht]; omega
  have hget : ∀ {record}, s.written[s.takenOut.length]? = some record →
      s'.written[s'.takenOut.length]? = some record := fun hr => by
    obtain ⟨rest, e⟩ := hw
    rw [ht, ← e, List.getElem?_append_left (List.getElem?_eq_some_iff.mp hr).1, hr]
  -- what the consumer knows bounds `written` from below, which grows
  rcases c with ret | ⟨call, l⟩ | i | ⟨record, i⟩ | i | ⟨record, ret, i⟩ | _
  · rcases ret with _ | r | (_ | _) | (_ | i) | _ | n
    · trivial
    · trivial
    · exact hlt h
    · trivial
    · trivial
    · exact ⟨h.1.trans hi.symm, hlt h.2⟩
    · trivial
    · exact Nat.le_trans h (by rw [ht]; omega)
  · rcases l with _ | read | write
    · exact h
    · exact h.trans hi.symm
    · obtain ⟨hc, k, hk, hk', e⟩ := h
      exact ⟨hc, k, ht ▸ hk, Nat.le_trans hk' hlen, hs ▸ e⟩
  · exact ⟨h.1.trans hi.symm, hlt h.2⟩
  · exact ⟨h.1.trans hi.symm, hget h.2⟩
  · exact ⟨h.1.trans hi.symm, hlt h.2⟩
  · exact ⟨h.1.trans hi.symm, hget h.2.1, h.2.2⟩
  · trivial

/-- More records taken out are no surprise to the producer. -/
theorem ProducerOk.mono {p : ProducerPc T} (h : s.ProducerOk p)
    (ht : s.takenOut.length ≤ s'.takenOut.length) (hw : s'.written = s.written)
    (hs : s'.queue.size = s.queue.size) (hi : s'.queue.writeIndex = s.queue.writeIndex) :
    s'.ProducerOk p := by
  have hroom : s.written.length + 1 < s.takenOut.length + s.queue.size →
      s'.written.length + 1 < s'.takenOut.length + s'.queue.size := fun h => by rw [hw, hs]; omega
  rcases p with ret | ⟨call, l⟩ | ⟨record, i⟩ | ⟨record, i⟩
  · rcases ret with _ | ok | full | n
    · trivial
    · trivial
    · trivial
    · exact Nat.le_trans (by rw [hw]; omega) h
  · rcases l with _ | read | write
    · exact h
    · obtain ⟨hc, k, hk, hlt, e⟩ := h
      exact ⟨hc, k, Nat.le_trans hk ht, by rw [hw, hs]; exact hlt, hs ▸ e⟩
    · exact h.trans hi.symm
  · exact ⟨h.1.trans hi.symm, hroom h.2⟩
  · exact ⟨h.1.trans hi.symm, hroom h.2⟩

/-- The producer constructs the next record. -/
theorem Inv.constructed {record : T} {i : Nat} (hI : s.Inv) (hr : s.phase = .running)
    (hp : s.producer = .construct record i) :
    { s.setRecords (s.queue.records.set i (.live record)) with
      producer := .store record i }.Inv := by
  have h := hI.producer
  rw [hp] at h
  obtain ⟨rfl, hroom⟩ := h
  have hwindow : Ring.Holds s.queue.size
      (s.queue.records.set (s.written.length % s.queue.size) (.live record)) s.takenOut.length
      (slotAt s.written s.takenOut.length (.store record s.queue.writeIndex) s.consumer) := by
    refine (hI.holds hr).set hI.taken_le hI.room ?_ fun j hj => ?_
    · rw [slotAt_of_le (Nat.le_refl _), if_pos rfl]
      rfl
    · simp only [slotAt, if_neg hj]
  rw [← hI.write] at hwindow
  exact { hI with
    length := (List.length_set ..).trans hI.length
    slots := laid_of_holds hr hwindow
    producer := ⟨rfl, hroom⟩ }

/-- The consumer leaves the first slot as its next access needs it. -/
theorem Inv.leaves {c : ConsumerPc T} {i : Nat} {record : T} (hI : s.Inv) (hr : s.phase = .running)
    (hi : i = s.queue.readIndex) (hrec : s.written[s.takenOut.length]? = some record)
    (hc : s.ConsumerOk c) :
    { s.setRecords (s.queue.records.set i (c.front record)) with consumer := c }.Inv := by
  subst hi
  have two := hI.two_le
  have hwindow : Ring.Holds s.queue.size
      (s.queue.records.set (s.takenOut.length % s.queue.size) (c.front record)) s.takenOut.length
      (slotAt s.written s.takenOut.length s.producer c) := by
    refine (hI.holds hr).set (Nat.le_refl _) (by omega) ?_ fun j hj => ?_
    · rw [slotAt_of_lt hrec, if_pos rfl]
    · simp only [slotAt, if_neg hj]
  rw [← hI.read] at hwindow
  exact { hI with
    length := (List.length_set ..).trans hI.length
    slots := laid_of_holds hr hwindow
    consumer := hc }

/-- The producer stores its index: the record constructed is written. -/
theorem Inv.wrote {record : T} {i : Nat} (hI : s.Inv) (hr : s.phase = .running)
    (hp : s.producer = .store record i) :
    { s with
      queue := { s.queue with writeIndex := nextRecord s.queue.size i }
      producer := .returned (.write true)
      written := s.written ++ [record] }.Inv := by
  have h := hI.producer
  rw [hp] at h
  obtain ⟨rfl, hroom⟩ := h
  have hlen : (s.written ++ [record]).length = s.written.length + 1 := List.length_append
  have hprefix : s.written <+: s.written ++ [record] := List.prefix_append ..
  -- an empty queue has a consumer that is at no slot
  have hfirst : s.written.length = s.takenOut.length → s.consumer.front record = .live record := by
    intro e
    have h := hI.consumer
    have none : s.written[s.takenOut.length]? = none := List.getElem?_eq_none (Nat.le_of_eq e)
    rcases hc : s.consumer with ret | ⟨call, l⟩ | i | ⟨r, i⟩ | i | ⟨r, ret, i⟩ | _ <;>
      rw [hc] at h <;> try rfl
    · cases none.symm.trans h.2
    · cases none.symm.trans h.2.1
  have hwindow : Ring.Holds s.queue.size s.queue.records s.takenOut.length
      (slotAt (s.written ++ [record]) s.takenOut.length (.returned (.write true)) s.consumer) := by
    refine (hI.holds hr).congr fun k _ _ => ?_
    rcases Nat.lt_trichotomy k s.written.length with hk | rfl | hk
    · have hget := List.getElem?_eq_getElem hk
      rw [slotAt_of_lt hget, slotAt_of_lt ((List.getElem?_append_left hk).trans hget)]
    · rw [slotAt_of_le (Nat.le_refl _), if_pos rfl, hp, slotAt_of_lt List.getElem?_concat_length]
      split
      · rename_i e
        exact hfirst e
      · rfl
    · rw [slotAt_of_le (Nat.le_of_lt hk), if_neg (Nat.ne_of_gt hk),
        slotAt_of_le (by rw [hlen]; omega)]
      exact ite_self _
  refine { hI with
    write := ?_
    order := hI.order.trans hprefix
    room := ?_
    slots := laid_of_holds hr hwindow
    producer := trivial
    consumer := hI.consumer.mono hprefix rfl rfl rfl }
  · rw [hlen, hI.write, nextRecord_mod hI.two_le hI.le]
  · rw [hlen]
    exact hroom

/-- The consumer stores its index: the record is taken out. -/
theorem Inv.took {record : T} {ret : ConsumerRet T} {i : Nat} (hI : s.Inv)
    (hr : s.phase = .running) (hc : s.consumer = .store record ret i) :
    { s with
      queue := { s.queue with readIndex := nextRecord s.queue.size i }
      consumer := .returned ret
      takenOut := s.takenOut ++ [record] }.Inv := by
  have h := hI.consumer
  rw [hc] at h
  obtain ⟨rfl, hrec, hret⟩ := h
  have hlt := (List.getElem?_eq_some_iff.mp hrec).1
  have hroom := hI.room
  have hlen : (s.takenOut ++ [record]).length = s.takenOut.length + 1 := List.length_append
  -- the window moves on by one slot, which the call has left raw
  have hwindow : Ring.Holds s.queue.size s.queue.records (s.takenOut.length + 1)
      (slotAt s.written (s.takenOut.length + 1) s.producer (.returned ret)) := by
    refine (hI.holds hr).succ (fun k hk _ => ?_) ?_
    · rcases h : s.written[k]? with _ | r
      · have hle := List.getElem?_eq_none_iff.mp h
        rw [slotAt_of_le hle, slotAt_of_le hle]
      · rw [slotAt_of_lt h, slotAt_of_lt h, if_neg (Nat.ne_of_gt hk)]
        exact ite_self _
    · rw [slotAt_of_le (by omega), if_neg (by omega), slotAt_of_lt hrec, if_pos rfl, hc]
      rfl
  refine { hI with
    read := ?_
    order := ?_
    room := ?_
    slots := laid_of_holds hr (hlen ▸ hwindow)
    producer := hI.producer.mono (Nat.le.intro hlen.symm) rfl rfl rfl
    consumer := by rcases hret with rfl | rfl <;> trivial }
  · rw [hlen, hI.read, nextRecord_mod hI.two_le hI.le]
  · rw [List.prefix_iff_eq_take, hlen, List.take_add_one, hrec,
      ← List.prefix_iff_eq_take.mp hI.order]
    rfl
  · change s.written.length < (s.takenOut ++ [record]).length + s.queue.size
    omega

/-- **Every step keeps the invariant.** -/
theorem Change.inv (h : s.Change a s') (hr : s.phase = .running) (hI : s.Inv) : s'.Inv := by
  have hp := hI.producer
  have hc := hI.consumer
  cases h with
  | @producerCalled call _ hpc =>
      exact hI.setProducer hr (by rw [hpc]; rfl) (by cases call <;> exact rfl)
  | producerLoads hpc hl =>
      rw [hpc] at hp
      refine hI.setProducer hr (by rw [hpc]; rfl) ?_
      rcases Loads.step_inl hl with ⟨rfl, rfl⟩ | ⟨rfl, rfl⟩
      · exact ⟨hp, _, Nat.le_refl _, hI.room, hI.read⟩
      · rfl
  | producerLoaded hpc hl => exact hI.producerLoaded hr hpc hl
  | constructed hpc => exact hI.constructed hr hpc
  | wrote hpc => exact hI.wrote hr hpc
  | @consumerCalled call _ hpc =>
      exact hI.setConsumer hr (fun _ => by rw [hpc]; rfl) (by cases call <;> exact rfl)
  | consumerLoads hpc hl =>
      rw [hpc] at hc
      refine hI.setConsumer hr (fun _ => by rw [hpc]; rfl) ?_
      rcases Loads.step_inl hl with ⟨rfl, rfl⟩ | ⟨rfl, rfl⟩
      · rfl
      · exact ⟨hc, _, hI.taken_le, Nat.le_refl _, hI.write⟩
  | consumerLoaded hpc hl => exact hI.consumerLoaded hr hpc hl
  | @moved record i hpc hrec =>
      rw [hpc] at hc
      obtain ⟨rfl, hlt⟩ := hc
      obtain ⟨record', hw⟩ := Inv.exists_first hlt
      have e := hrec.symm.trans (hI.first hr hw)
      rw [hpc] at e
      cases e
      have hc' : s.ConsumerOk (.destroyMoved record s.queue.readIndex) := ⟨rfl, hw⟩
      exact hI.leaves hr rfl hw hc'
  | @destroyedMoved record i hpc hrec =>
      rw [hpc] at hc
      have hc' : s.ConsumerOk (.store record (.read (some record)) i) := ⟨hc.1, hc.2, .inl rfl⟩
      exact hI.leaves hr hc.1 hc.2 hc'
  | @destroyedLive record i hpc hrec =>
      rw [hpc] at hc
      obtain ⟨rfl, hlt⟩ := hc
      obtain ⟨record', hw⟩ := Inv.exists_first hlt
      have e := hrec.symm.trans (hI.first hr hw)
      rw [hpc] at e
      cases e
      have hc' : s.ConsumerOk (.store record .popped s.queue.readIndex) := ⟨rfl, hw, .inr rfl⟩
      exact hI.leaves hr rfl hw hc'
  | took hpc => exact hI.took hr hpc
  | destructed hpc hcc hd =>
      obtain ⟨records, hd', hlen, hraw⟩ := hI.destroys hr hpc hcc
      cases hd.symm.trans hd'
      exact { hI with length := hlen, slots := ⟨rfl, hraw⟩ }
  | faulted hf => exact absurd hf (hI.not_faults hr)

end State
end DistDpi.Spsc
