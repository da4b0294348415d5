import DistDpi.Support.Monitor
import Mathlib.Algebra.GroupWithZero.Nat

/-!
# Support — Waiting

The threads of a monitor that wait.

* `Counted`: what the operations wait for are units in the resource, which only an operation that
  notifies can bring.  No notification is lost then: if a thread is blocked, each unit that is there
  has a thread that is awake for it, or is going to wake one (`Counted.noLostWakeup`).
* `run_length_le`: without new calls there is an end, however the threads are scheduled.
* `Settled.resting`, `Settled.served`: at the end each call has returned, or is blocked for want of
  a unit.
-/

universe u v w

namespace Monitor
variable {σ : Type u} {Op : Type v} {Ret : Type w}

section
variable {M : Monitor σ Op Ret} {s s' : State σ Op Ret} {a : Act Op} {t t' : Nat}
  {pc pc' : Pc Op Ret}

/-! ### No notification is lost -/

namespace Pc

/-- The operation of a thread that waits, or has been waiting. -/
def waiting : Pc Op Ret → Option Op
  | .lock op true | .test op true | .inside op true | .blocked op => some op
  | _ => none

/-- It has been woken, and its operation is not done yet; or it is going to notify one. -/
def token (M : Monitor σ Op Ret) : Pc Op Ret → Bool
  | .lock _ woken | .test _ woken | .inside _ woken => woken
  | .unlock op _ | .notify op _ => M.signal op = .one
  | .returned _ | .blocked _ | .relocked _ => false

/-- It is going to notify all. -/
def notifiesAll (M : Monitor σ Op Ret) : Pc Op Ret → Bool
  | .unlock op _ | .notify op _ => M.signal op = .all
  | _ => false

end Pc

/-- There are units in the resource.  Only `waits` wait, for want of a unit, and each of them takes
one; and an operation that brings one notifies one, or all. -/
structure Counted (M : Monitor σ Op Ret) (units : σ → Nat) (waits : Op → Bool) : Prop where
  wait : ∀ op res, M.body op res = .wait → waits op = true ∧ units res = 0
  relock : ∀ op res, M.body op res = .relock → waits op = false
  done : ∀ op res r res', M.body op res = .done r res' → M.signal op ≠ .all →
    units res' + (waits op).toNat ≤ units res + (decide (M.signal op = .one)).toNat

/-- If a thread is blocked, there are no more units than threads that have been woken for them, or
are going to wake one. -/
structure Served (M : Monitor σ Op Ret) (units : σ → Nat) (waits : Op → Bool)
    (s : State σ Op Ret) : Prop where
  waiting : ∀ pc ∈ s.threads, ∀ op, pc.waiting = some op → waits op = true
  served : (∃ pc ∈ s.threads, pc.isBlocked) → (∃ pc ∈ s.threads, pc.notifiesAll M) ∨
    units s.res ≤ s.threads.countP (Pc.token M)

section
variable {units : σ → Nat} {waits : Op → Bool} {res : σ}

theorem countP_goto (p : Pc Op Ret → Bool) (h : s.threads[t]? = some pc) (pc' : Pc Op Ret) :
    (s.goto t pc').threads.countP p + (p pc).toNat = s.threads.countP p + (p pc').toNat := by
  obtain ⟨hlt, rfl⟩ := List.getElem?_eq_some_iff.1 h
  have hpos : p s.threads[t] = true → 0 < s.threads.countP p := fun hp =>
    List.countP_pos_iff.2 ⟨_, List.getElem_mem hlt, hp⟩
  rw [State.goto_threads, List.countP_set hlt]
  cases hp : p s.threads[t] with
  | false => cases p pc' <;> rfl
  | true =>
      have := hpos hp
      cases p pc'
      · simp only [Bool.toNat_true, Bool.toNat_false, if_true, Bool.false_eq_true, if_false]
        omega
      · simp only [Bool.toNat_true, if_true]
        omega

theorem mem_goto {q : Pc Op Ret} (hq : q ∈ (s.goto t pc').threads) : q ∈ s.threads ∨ q = pc' :=
  List.mem_or_eq_of_mem_set hq

/-- The other threads are there still. -/
theorem mem_goto_of_mem {q : Pc Op Ret} (h : s.threads[t]? = some pc) (hq : q ∈ s.threads)
    (hne : q ≠ pc) : q ∈ (s.goto t pc').threads := by
  obtain ⟨i, hi⟩ := List.mem_iff_getElem?.1 hq
  refine List.mem_iff_getElem?.2 ⟨i, ?_⟩
  rw [getElem?_goto h, if_neg]
  · exact hi
  · rintro rfl
    exact hne (Option.some.inj (hi.symm.trans h))

/-- A thread moves to `pc'`, and leaves the resource as `res`. -/
theorem Served.goto (hS : M.Served units waits s) (h : s.threads[t]? = some pc)
    (pc' : Pc Op Ret) (res : σ) (hw : ∀ op, pc'.waiting = some op → waits op = true)
    (hall : pc.notifiesAll M = true → pc'.notifiesAll M = true)
    (hu : units res = 0 ∨ pc'.notifiesAll M = true ∨ (pc'.isBlocked = false ∧
      units res + (pc.token M).toNat ≤ units s.res + (pc'.token M).toNat)) :
    M.Served units waits { s.goto t pc' with res } where
  waiting q hq op hop := by
    rcases mem_goto hq with hq | rfl
    · exact hS.waiting q hq op hop
    · exact hw op hop
  served := by
    rintro ⟨q, hq, hqb⟩
    have hmem : pc' ∈ (s.goto t pc').threads :=
      List.mem_iff_getElem?.2 ⟨t, (getElem?_goto h).trans (if_pos rfl)⟩
    rcases hu with hu | hu | ⟨hb, hu⟩
    · exact .inr (by rw [hu]; exact Nat.zero_le _)
    · exact .inl ⟨pc', hmem, hu⟩
    rcases mem_goto hq with hq | rfl
    · rcases hS.served ⟨q, hq, hqb⟩ with ⟨p, hp, hpall⟩ | hle
      · by_cases hne : p = pc
        · exact .inl ⟨pc', hmem, hall (hne ▸ hpall)⟩
        · exact .inl ⟨p, mem_goto_of_mem h hp hne, hpall⟩
      · refine .inr ?_
        have hcount := countP_goto (Pc.token M) h pc'
        change units res ≤ (s.goto t pc').threads.countP (Pc.token M)
        omega
    · rw [hb] at hqb
      cases hqb

theorem Pc.isBlocked_wakeUp (pc : Pc Op Ret) : pc.wakeUp.isBlocked = false := by
  cases pc <;> rfl

theorem Pc.waiting_wakeUp : pc.wakeUp.waiting = pc.waiting := by
  cases pc <;> rfl

/-- Where nothing is blocked, nothing is asked for. -/
theorem Served.of_awake (hw : ∀ pc ∈ s.threads, ∀ op, pc.waiting = some op → waits op = true)
    (hb : ∀ pc ∈ s.threads, pc.isBlocked = false) : M.Served units waits s where
  waiting := hw
  served := by
    rintro ⟨pc, hpc, hblocked⟩
    rw [hb pc hpc] at hblocked
    cases hblocked

theorem served_start (res : σ) (threads : Nat) : M.Served units waits (start res threads) := by
  refine .of_awake (fun pc hpc op hop => ?_) fun pc hpc => ?_
  · obtain ⟨-, rfl⟩ := List.mem_replicate.1 hpc
    cases hop
  · obtain ⟨-, rfl⟩ := List.mem_replicate.1 hpc
    rfl

/-- The operation of a thread that is not woken for it. -/
theorem Served.waits_of_test (hS : M.Served units waits s) {op : Op} {woken : Bool}
    (h : s.threads[t]? = some pc)
    (hpc : pc = .lock op woken ∨ pc = .test op woken ∨ pc = .inside op woken)
    (hw : woken = true) : waits op = true := by
  subst hw
  refine hS.waiting pc (List.mem_of_getElem? h) op ?_
  rcases hpc with rfl | rfl | rfl <;> rfl

theorem Served.step (hM : M.Counted units waits) (hS : M.Served units waits s)
    (h : M.Change s a s') : M.Served units waits s' := by
  -- who has the mutex is not counted
  have howner : ∀ {s : State σ Op Ret} (o : Option Nat), M.Served units waits s →
      M.Served units waits { s with owner := o } := fun o hS => ⟨hS.waiting, hS.served⟩
  cases h with
  | called h =>
      exact hS.goto h _ s.res (fun _ h => by cases h) (fun h => by cases h)
        (.inr (.inr ⟨rfl, Nat.le_refl _⟩))
  | @locked t op woken h hfree =>
      refine howner _ (hS.goto h (.test op woken) s.res (fun op' hop => ?_) (fun h => by cases h)
        (.inr (.inr ⟨rfl, Nat.le_refl _⟩)))
      exact hS.waiting _ (List.mem_of_getElem? h) op' (by cases woken <;> exact hop)
  | @passed t op woken r res h hb =>
      refine hS.goto h _ s.res (fun op' hop => ?_) (fun h => by cases h)
        (.inr (.inr ⟨rfl, Nat.le_refl _⟩))
      exact hS.waiting _ (List.mem_of_getElem? h) op' (by cases woken <;> exact hop)
  | @waited t op woken h hb =>
      obtain ⟨hw, hu⟩ := hM.wait op s.res hb
      refine howner _ (hS.goto h (.blocked op) s.res ?_ (fun h => by cases h) (.inl hu))
      rintro _ ⟨⟩
      exact hw
  | @relocked t op woken h hb =>
      refine hS.goto h _ s.res (fun _ h => by cases h) (fun h => by cases h) (.inr (.inr ⟨rfl, ?_⟩))
      have hwoken : woken = false := Bool.eq_false_iff.2 fun hw => by
        have hwaits := hS.waits_of_test h (.inr (.inl rfl)) hw
        rw [hM.relock op s.res hb] at hwaits
        cases hwaits
      subst hwoken
      exact Nat.le_refl _
  | @committed t op woken r res h hb =>
      refine hS.goto h _ res (fun _ h => by cases h) (fun h => by cases h) ?_
      by_cases hall : M.signal op = .all
      · exact .inr (.inl (decide_eq_true hall))
      · have hdone := hM.done op s.res r res hb hall
        refine .inr (.inr ⟨rfl, Nat.le_trans (Nat.add_le_add_left ?_ _) hdone⟩)
        -- a thread that was woken takes the unit it was woken for
        cases hw : woken with
        | false => exact Nat.zero_le _
        | true => exact Nat.le_of_eq (by
            rw [hS.waits_of_test h (.inr (.inr rfl)) hw]
            rfl)
  | @unlocked t op r h =>
      refine howner _ (hS.goto h (M.after op r) s.res ?_ ?_ (.inr (.inr ?_)))
      · rw [after]
        split <;> exact fun _ h => by cases h
      · rw [after]
        split
        · rename_i hs
          exact fun hall => by cases hs.symm.trans (of_decide_eq_true hall)
        · exact id
      · rw [after]
        split
        · rename_i hs
          refine ⟨rfl, Nat.le_of_eq ?_⟩
          rw [Pc.token, hs]
          rfl
        · exact ⟨rfl, Nat.le_refl _⟩
  | @notifiedAll t op r h hall =>
      refine .of_awake (fun pc hpc op' hop => ?_) fun pc hpc => ?_
      · rcases List.mem_or_eq_of_mem_set hpc with hpc | rfl
        · obtain ⟨q, hq, rfl⟩ := List.mem_map.1 hpc
          exact hS.waiting q hq op' (Pc.waiting_wakeUp ▸ hop)
        · cases hop
      · rcases List.mem_or_eq_of_mem_set hpc with hpc | rfl
        · obtain ⟨q, -, rfl⟩ := List.mem_map.1 hpc
          exact q.isBlocked_wakeUp
        · rfl
  | @notifiedNone t op r h hall hno =>
      refine .of_awake (fun pc hpc op' hop => ?_) fun pc hpc => ?_
      · rcases mem_goto hpc with hpc | rfl
        · exact hS.waiting pc hpc op' hop
        · cases hop
      · rcases mem_goto hpc with hpc | rfl
        · exact hno pc hpc
        · rfl
  | @woke t w op op' r h hw hall =>
      -- the woken thread is counted first, then the one that has woken it is not any more
      have hne : t ≠ w := by
        rintro rfl
        cases h.symm.trans hw
      have hwaits : waits op' = true := hS.waiting _ (List.mem_of_getElem? hw) op' rfl
      refine ⟨fun pc hpc op₁ hop => ?_, ?_⟩
      · rcases mem_goto hpc with hpc | rfl
        · rcases mem_goto hpc with hpc | rfl
          · exact hS.waiting pc hpc op₁ hop
          · cases hop
        · cases hop
          exact hwaits
      · intro _
        have hw' := getElem?_woke h hw (.returned (some r))
        rcases hS.served ⟨_, List.mem_of_getElem? hw, rfl⟩ with ⟨p, hp, hpall⟩ | hle
        · refine .inl ⟨p, mem_goto_of_mem hw' (mem_goto_of_mem h hp ?_) ?_, hpall⟩
          · rintro rfl
            exact hall (of_decide_eq_true hpall)
          · rintro rfl
            cases hpall
        · refine .inr ?_
          have hcount := countP_goto (Pc.token M) h (.returned (some r))
          have hcount' := countP_goto (Pc.token M) hw' (.lock op' true)
          have hone := Bool.toNat_le (Pc.token M (.notify op r : Pc Op Ret))
          change units s.res ≤ ((s.goto t _).goto w _).threads.countP (Pc.token M)
          simp only [Pc.token, Bool.toNat_true, Bool.toNat_false] at hcount hcount' hone
          omega
  | @spurious t op h =>
      refine hS.goto h _ s.res ?_ (fun h => by cases h) (.inr (.inr ⟨rfl, ?_⟩))
      · rintro _ ⟨⟩
        exact hS.waiting _ (List.mem_of_getElem? h) op rfl
      · exact Nat.add_le_add_left (Nat.zero_le _) _

/-- **No notification is lost**, in every run. -/
theorem Counted.noLostWakeup (hM : M.Counted units waits) {threads : Nat} {as : List (Act Op)}
    (h : M.machine.Run (start res threads) as s) : M.Served units waits s :=
  h.invariant (fun _ _ _ hS hs => hS.step hM (change_of_step hs)) (served_start res threads)

end

/-! ### Coming to rest -/

/-- A step of a thread that is in a call, and does not wait. -/
def Act.internal : Act Op → Prop
  | .run _ | .wake .. => True
  | .call .. | .spurious _ => False

/-- What a thread still has to do, with the wakeups that it may cause; `n` is at least three for
each thread. -/
def Pc.weight (n : Nat) : Pc Op Ret → Nat
  | .returned _ | .relocked _ => 0
  | .notify .. => n + 1
  | .blocked _ | .unlock .. => n + 2
  | .inside .. => n + 3
  | .test .. => n + 4
  | .lock .. => n + 5

def State.measure (s : State σ Op Ret) : Nat :=
  (s.threads.map (Pc.weight (3 * s.threads.length))).sum

theorem measure_goto (h : s.threads[t]? = some pc) (pc' : Pc Op Ret) :
    (s.goto t pc').measure + pc.weight (3 * s.threads.length) =
      s.measure + pc'.weight (3 * s.threads.length) := by
  rw [State.measure, State.goto_threads, List.length_set]
  exact Machine.sum_set_add _ _ h pc'

/-- To wake up all is three for each thread, at most. -/
theorem sum_wakeAll_le (n : Nat) (l : List (Pc Op Ret)) :
    ((l.map Pc.wakeUp).map (Pc.weight n)).sum ≤ (l.map (Pc.weight n)).sum + 3 * l.length := by
  induction l with
  | nil => exact Nat.le_refl _
  | cons pc l ih =>
      have hpc : pc.wakeUp.weight n ≤ pc.weight n + 3 := by
        cases pc <;> simp only [Pc.wakeUp, Pc.weight] <;> omega
      simp only [List.map_cons, List.sum_cons, List.length_cons]
      omega

theorem weight_after_le (n : Nat) (op : Op) (r : Ret) : (M.after op r).weight n ≤ n + 1 := by
  rw [after]
  split
  · exact Nat.zero_le _
  · exact Nat.le_refl _

/-- A thread that goes on has less to do. -/
theorem Change.measure_lt (h : M.Change s a s') (ha : a.internal) : s'.measure < s.measure := by
  cases h with
  | called | spurious => cases ha
  | @locked t op woken h hfree =>
      have := measure_goto h (.test op woken)
      change (s.goto t (.test op woken)).measure < _
      simp only [Pc.weight] at this
      omega
  | @passed t op woken r res h hb =>
      have := measure_goto h (.inside op woken)
      simp only [Pc.weight] at this
      omega
  | @waited t op woken h hb =>
      have := measure_goto h (.blocked op)
      change (s.goto t (.blocked op)).measure < _
      simp only [Pc.weight] at this
      omega
  | @relocked t op woken h hb =>
      have := measure_goto h (.relocked op)
      simp only [Pc.weight] at this
      omega
  | @committed t op woken r res h hb =>
      have := measure_goto h (.unlock op r)
      change (s.goto t (.unlock op r)).measure < _
      simp only [Pc.weight] at this
      omega
  | @unlocked t op r h =>
      have := measure_goto h (M.after op r)
      have hle := weight_after_le (M := M) (3 * s.threads.length) op r
      have hw : (Pc.unlock op r : Pc Op Ret).weight (3 * s.threads.length) =
        3 * s.threads.length + 2 := rfl
      change (s.goto t (M.after op r)).measure < _
      omega
  | @notifiedAll t op r h hall =>
      have := measure_goto (s := { s with threads := s.threads.map Pc.wakeUp })
        (getElem?_wakeAll h) (.returned (some r))
      have hle := sum_wakeAll_le (3 * s.threads.length) s.threads
      simp only [State.goto, State.measure, Pc.wakeUp, Pc.weight, List.length_map,
        List.length_set] at this hle ⊢
      omega
  | @notifiedNone t op r h hall hno =>
      have := measure_goto h (.returned (some r))
      simp only [Pc.weight] at this
      omega
  | @woke t w op op' r h hw hall =>
      have h₁ := measure_goto h (.returned (some r))
      have h₂ := measure_goto (getElem?_woke h hw (.returned (some r))) (.lock op' true)
      rw [State.goto_threads, List.length_set] at h₂
      simp only [Pc.weight] at h₁ h₂
      have hlt := (List.getElem?_eq_some_iff.1 h).1
      omega

/-- **Without new calls there is an end**, however the threads are scheduled. -/
theorem run_length_le {as : List (Act Op)} (h : M.machine.Run s as s')
    (has : ∀ a ∈ as, a.internal) : as.length + s'.measure ≤ s.measure :=
  h.length_add_le (fun _ _ _ ha hs => (change_of_step hs).measure_lt ha) has

/-- No thread that does not wait can go on. -/
def Settled (M : Monitor σ Op Ret) (s : State σ Op Ret) : Prop :=
  ∀ a : Act Op, a.internal → M.step s a = none

/-- Then the mutex is free, unless a thread is stuck with it. -/
theorem Settled.free (h : M.Settled s) (hI : M.Inv s)
    (hre : ∀ pc ∈ s.threads, pc.isRelocked = false) : s.owner = none := by
  cases ho : s.owner with
  | none => rfl
  | some t =>
      have hlt := hI.owner t ho
      have hpc := List.getElem?_eq_getElem hlt
      have hholds := (hI.owned t _ hpc).2 ho
      have hstuck : M.runStep s t = none := h (.run t) trivial
      rw [runStep] at hstuck
      cases he : s.threads[t] with
      | returned | lock | blocked | notify =>
          rw [he] at hholds
          cases hholds
      | test op woken =>
          rw [hpc, he] at hstuck
          dsimp only at hstuck
          split at hstuck <;> cases hstuck
      | inside op woken =>
          rw [he] at hpc
          obtain ⟨r, res, hb⟩ := hI.tested t op woken hpc
          simp only [hpc, hb] at hstuck
          cases hstuck
      | unlock op r =>
          rw [hpc, he] at hstuck
          cases hstuck
      | relocked op =>
          have := hre _ (List.getElem_mem hlt)
          rw [he] at this
          cases this

/-- **At rest** each call has returned, or is blocked. -/
theorem Settled.resting (h : M.Settled s) (hI : M.Inv s)
    (hre : ∀ pc ∈ s.threads, pc.isRelocked = false) :
    ∀ pc ∈ s.threads, (∃ r, pc = .returned r) ∨ ∃ op, pc = .blocked op := by
  intro pc hpc
  obtain ⟨t, ht⟩ := List.mem_iff_getElem?.1 hpc
  have hfree := h.free hI hre
  have hholds : pc.holds = false := Bool.eq_false_iff.2 fun hholds => by
    rw [(hI.owned t pc ht).1 hholds] at hfree
    cases hfree
  have hstuck : M.runStep s t = none := h (.run t) trivial
  rw [runStep] at hstuck
  cases pc with
  | returned r => exact .inl ⟨r, rfl⟩
  | blocked op => exact .inr ⟨op, rfl⟩
  | lock op woken =>
      simp only [ht, hfree, if_true] at hstuck
      cases hstuck
  | notify op r =>
      simp only [ht] at hstuck
      split at hstuck
      · cases hstuck
      · rename_i hall
        split at hstuck
        · cases hstuck
        · rename_i hno
          -- there is a thread to wake up
          obtain ⟨q, hq, hqb⟩ : ∃ q ∈ s.threads, q.isBlocked = true := by
            simpa [List.all_eq_true] using hno
          obtain ⟨w, hw⟩ := List.mem_iff_getElem?.1 hq
          obtain ⟨op', rfl⟩ : ∃ op', q = .blocked op' := by cases q <;> simp_all [Pc.isBlocked]
          have hwake := h (.wake t w) trivial
          simp only [step, ht, hw, if_neg hall] at hwake
          cases hwake
  | test | inside | unlock | relocked => cases hholds

/-- **At rest** nothing waits for what is there. -/
theorem Settled.served {units : σ → Nat} {waits : Op → Bool} (h : M.Settled s) (hI : M.Inv s)
    (hre : ∀ pc ∈ s.threads, pc.isRelocked = false) (hS : M.Served units waits s)
    (hblocked : ∃ pc ∈ s.threads, pc.isBlocked) : units s.res = 0 := by
  have hrest := h.resting hI hre
  rcases hS.served hblocked with ⟨pc, hpc, hall⟩ | hle
  · rcases hrest pc hpc with ⟨r, rfl⟩ | ⟨op, rfl⟩ <;> cases hall
  · have hzero : s.threads.countP (Pc.token M) = 0 := List.countP_eq_zero.2 fun pc hpc => by
      rcases hrest pc hpc with ⟨r, rfl⟩ | ⟨op, rfl⟩ <;> exact Bool.false_ne_true
    rw [hzero] at hle
    exact Nat.le_zero.1 hle

end

end Monitor
