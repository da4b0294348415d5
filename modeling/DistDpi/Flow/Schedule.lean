import DistDpi.Flow.Feed
import DistDpi.Flow.Isolation

/-!
# Flow — schedules

What navl is given of one connection.  In every interleaving that ends with the queue empty navl
has been given `feed` of the packets that found the entry with its connection
(`Playing.payloads_eq`): a packet that comes between the first one and `navl_conn_create` is
dropped, however many there are.  So what navl is given depends on the schedule as soon as a packet
after the first has a payload, and does not where no payload comes in between (`classify_input`).
-/

namespace DistDpi

theorem EnginePc.held_map {pc : EnginePc} {f : ConnMetadata → ConnMetadata} :
    (pc.map f).held = pc.held.map f := by
  cases pc <;> rfl

/-! ### The system, with packets of one connection -/

/-- A payload given to navl. -/
def Event.payload : Event → Option Bytes
  | .classify _ _ data _ _ _ => some data
  | _ => none

namespace Sys

variable {inst : Instances} {V : Navl} {K : ConnKey} {s s' : Sys} {a : Act} {q : Nat}
  {act : EngineAct} {m : ConnMetadata} {l : List (Bytes × Bool)}

/-- The payloads navl has been given, in this order. -/
def payloads (s : Sys) : List Bytes := s.log.filterMap Event.payload

/-- A packet, with whether it finds the entry with its connection. -/
def arrives (s : Sys) : Act → Option (Bytes × Bool)
  | .insert key data _ _ _ =>
      some (data, (ConnTable.find s.connTable key).any fun it => it.second.dpiState.isSome)
  | _ => none

/-- The payloads of those that do. -/
def heard (l : List (Bytes × Bool)) : List Bytes := (l.filter Prod.snd).map Prod.fst

/-- The packets are of the connection `K`, and navl is `V`. -/
def Scheduled (V : Navl) (K : ConnKey) (s : Sys) (a : Act) : Prop :=
  Answers V s.payloads a ∧ ∀ p ∈ a.packet, connKeyEqual p.1 K = true

instance {V : Navl} {given : List Bytes} : ∀ a, Decidable (Answers V given a)
  | .insert .. => isTrue trivial
  | .cleanup _ | .stop => isFalse id
  | .engine _ a =>
      match a with
      | .create ok => inferInstanceAs (Decidable (ok = true))
      | .callback r _ => inferInstanceAs (Decidable (V given = some r))
      | .classifyFail => inferInstanceAs (Decidable (V given = none))
      | .throw => isFalse id
      | .pop | .testState | .setHandle | .guard | .classify | .clear => isTrue trivial

instance : Decidable (Scheduled V K s a) :=
  inferInstanceAs (Decidable (Answers V s.payloads a ∧ ∀ p ∈ a.packet, connKeyEqual p.1 K = true))

/-- What holds while only packets of `K` come. -/
structure Playing (inst : Instances) (V : Navl) (K : ConnKey) (s : Sys)
    (l : List (Bytes × Bool)) : Prop where
  inv : s.Inv inst
  placed : s.Placed s.numQueues
  numQueues : s.numQueues = inst.handles.length
  only : s.Only K
  no_exit : ∀ q m, m ∈ s.pending q → m.exitFlag = false
  feeding : Alone.Feeding V (view K s) (heard l) s.payloads

/-- A statement of a thread that has not left the loop is about the message at hand. -/
theorem Change.at_hand (h : Change s (.engine q act) s') (ht : act ≠ .throw) (hc : act ≠ .clear) :
    ∃ m, s.atHand q = some m := by
  have held : ∀ {e : Engine} {m}, s.engines[q]? = some e → e.pc.held = some m →
      ∃ m, s.atHand q = some m := fun he hm => ⟨_, atHand_held ((held_eq he).trans hm)⟩
  cases h with
  | popped he hpc hq | exits he hpc hq => exact ⟨_, atHand_queue he hpc hq⟩
  | @moved _ e _ pc he hv =>
      obtain ⟨m, hm⟩ : ∃ m, e.pc.held = some m := by
        generalize e.pc = pc₀ at hv
        cases hv <;> exact ⟨_, rfl⟩
      exact held he hm
  | handleSet he hpc | createFailed he hpc | created he hpc | called he hpc | unfound he hpc
  | reported he hpc | noted he hpc => exact held he (by rw [hpc]; rfl)
  | thrown => exact absurd rfl ht
  | cleared => exact absurd rfl hc

/-- Every step concerns `K`. -/
theorem Playing.concerns (h : Playing inst V K s l) (hs : Change s a s')
    (ha : Scheduled V K s a) : concerning K s a = some a := by
  cases a with
  | insert key data filter dir now => exact if_pos (ha.2 (key, data) rfl)
  | engine q act =>
      have ht : act ≠ .throw := by
        rintro rfl
        exact ha.1
      have hc : act ≠ .clear := by
        rintro rfl
        cases hs with
        | moved he hv => rcases hv.act with k | k | k <;> cases k
        | cleared he hpc =>
            have hcl := h.inv.not_clear h.numQueues he
            rw [hpc] at hcl
            cases hcl
      obtain ⟨m, hm⟩ := hs.at_hand ht hc
      have hp := mem_pending_of_atHand hm
      have hk := h.inv.keyed_of_only h.only hp
      refine if_pos ⟨h.inv.home_of_keyed h.placed hp (h.no_exit q m hp) hk, ?_⟩
      rw [hm]
      exact hk
  | cleanup | stop => rfl

theorem payloads_emit (evs : List Event) :
    (s.emit evs).payloads = s.payloads ++ evs.filterMap Event.payload := by
  rw [payloads, emit_log, List.filterMap_append, payloads]

/-- What a statement of the thread gives to navl is what `K` sees of it. -/
theorem Change.payloads (h : Change s (.engine q act) s')
    (hc : concerning K s (.engine q act) = some a) :
    s'.payloads = s.payloads ++ ((Sys.view K s).gives act).toList := by
  cases h with
  | popped | exits | handleSet | unfound | noted | thrown | cleared =>
      rw [Alone.gives_of_ne (by intro k; cases k)]
      exact (List.append_nil _).symm
  | moved he hv =>
      rw [Alone.gives_of_ne (by rcases hv.act with k | k | k <;> rw [k] <;> exact fun k => by cases k)]
      exact (List.append_nil _).symm
  | createFailed | created | reported =>
      rw [Alone.gives_of_ne (by intro k; cases k)]
      exact payloads_emit _
  | @called q e m it he hpc hd =>
      have hm : e.pc.held = some m := by rw [hpc]; rfl
      obtain ⟨hq, hk⟩ := concerning_engine hc (atHand_held ((held_eq he).trans hm))
      have hv := view_engine_held he hq hm hk
      have hg : (Sys.view K s).gives .classify = some m.data := by
        unfold Alone.gives
        rw [hv, Option.map_some, hpc]
        exact congrArg some seen_data
      rw [hg]
      exact payloads_emit _

theorem payloads_insert {key : ConnKey} {data : Bytes} {filter : Nat} {dir : UInt8} {now : Int}
    (h : Change s (.insert key data filter dir now) s') : s'.payloads = s.payloads := by
  cases h with
  | dropped => rfl
  | inserted | ignored | queued => exact (payloads_emit _).trans (List.append_nil _)

theorem heard_append (l l' : List (Bytes × Bool)) : heard (l ++ l') = heard l ++ heard l' := by
  simp [heard]

theorem arrives_insert {key : ConnKey} {data : Bytes} {filter : Nat} {dir : UInt8} {now : Int}
    (hK : connKeyEqual key K = true) : s.arrives (.insert key data filter dir now) =
      some (data, (view K s).connected) := by
  rw [arrives, ConnTable.find_eq_of_equal hK, Alone.connected, view_entry]
  cases ConnTable.find s.connTable K with
  | none => rfl
  | some it => cases hd : it.second.dpiState <;> simp [ConnInfo.hide, hd]

/-- **A step while only packets of `K` come.** -/
theorem Playing.step (h : Playing inst V K s l) (hs : system.step s a = some s')
    (ha : Scheduled V K s a) : Playing inst V K s' (l ++ (s.arrives a).toList) := by
  have k := step_change hs
  have hc := h.concerns k ha
  have hn : s'.numQueues = s.numQueues := k.numQueues_eq fun q hq => by
    subst hq
    exact ha.1
  refine
    { inv := k.inv h.inv
      placed := hn ▸ (k.nodes h.inv).placed h.placed
      numQueues := hn.trans h.numQueues
      only := (k.nodes h.inv).only h.only hc
      no_exit := fun q m hm => ?_
      feeding := ?_ }
  · rcases k.pending q with hsub | ⟨m', hp, heq⟩
    · exact h.no_exit q m (hsub.subset hm)
    · rw [heq] at hm
      rcases List.mem_append.mp hm with hm | hm
      · exact h.no_exit q m hm
      · rcases hp with ⟨rfl, -⟩ | ⟨n, -, -, -, hx, -⟩
        · exact absurd ha.1 id
        · rw [List.mem_singleton.mp hm]
          exact hx
  · -- the step is one of `K` alone, and `Feeding` is kept by those
    cases a with
    | insert key data filter dir now =>
        have hK := ha.2 (key, data) rfl
        have hf := h.feeding.insert key data filter dir now
        have harr : heard (s.arrives (.insert key data filter dir now)).toList =
            if (view K s).connected then [data] else [] := by
          rw [arrives_insert hK]
          cases (view K s).connected <;> rfl
        rw [k.view_insert h.inv h.placed hK, payloads_insert k, heard_append, harr]
        exact hf
    | engine q act =>
        have hv := k.view_thread h.inv h.numQueues hn hc
        have ha := ha.1
        have harr : heard (s.arrives (.engine q act)).toList = [] := rfl
        rw [k.payloads hc, heard_append, harr, List.append_nil]
        refine h.feeding.thread hv (q := q) ?_
        by_cases hact : act = .classify
        · subst hact
          trivial
        · rw [Alone.gives_of_ne hact, Option.toList_none, List.append_nil]
          exact ha
    | cleanup | stop => exact absurd ha.1 id

theorem queue_of_pending (h : s.pending q = []) : s.queue q = [] := (List.append_eq_nil_iff.mp h).2

theorem held_of_pending (h : s.pending q = []) : s.held q = none := by
  cases hh : s.held q with
  | none => rfl
  | some m =>
      rw [pending, hh] at h
      cases h

/-- Where nothing is pending, `K` sees nothing pending. -/
theorem view_idle (hd : ∀ q, s.pending q = []) : (view K s).queue = [] ∧
    ∀ e, (view K s).engine = some e → e.pc.held = none ∧
      ∃ e₀, s.engines[Alone.home K s.numQueues]? = some e₀ ∧ e.pc = e₀.pc := by
  have hv : (view K s).queue = seenQueue K s (s.queue (Alone.home K s.numQueues)) := rfl
  refine ⟨by rw [hv, queue_of_pending (hd _)]; rfl, fun e he => ?_⟩
  obtain ⟨e₀, he₀, rfl⟩ := Option.map_eq_some_iff.mp he
  have hh : e₀.pc.held = none := (held_eq he₀).symm.trans (held_of_pending (hd _))
  refine ⟨?_, e₀, he₀, seenPc_none hh⟩
  dsimp only
  rw [seenPc_none hh]
  exact hh

theorem playing_init (inst : Instances) (V : Navl) (K : ConnKey) :
    Playing inst V K (init inst) [] where
  inv := inv_init inst
  placed := by simp [Placed, nodes, init]
  numQueues := rfl
  only := by simp [Only, nodes, init]
  no_exit q m hm := by
    rw [pending_init] at hm
    cases hm
  feeding := by
    obtain ⟨hq, hpc⟩ := view_idle (K := K) (pending_init inst)
    refine .fresh rfl hq ?_ fun e he => ?_
    · by_cases h0 : (init inst).numQueues = 0
      · exact .inl h0
      · have hlt := ((inv_init inst).home_eq h0 (connKeyEqual_refl K)).2
        rw [(inv_init inst).queues, ← (inv_init inst).engines] at hlt
        refine .inr ?_
        rw [view_engine (List.getElem?_eq_getElem hlt)]
        exact Option.some_ne_none _
    · obtain ⟨-, e₀, he₀, hp⟩ := hpc e he
      obtain ⟨x, -, rfl⟩ := List.mem_map.mp (List.mem_of_getElem? he₀)
      exact hp

/-- **What navl is given**, by the end of a schedule. -/
theorem Playing.payloads_eq (h : Playing inst V K s l) (hd : ∀ q, s.pending q = []) :
    s.payloads = V.feed (heard l) := by
  obtain ⟨hq, hpc⟩ := view_idle (K := K) hd
  exact h.feeding.given_eq hq fun e he => (hpc e he).1

end Sys

/-! ### Interleavings -/

namespace Sys

variable {inst : Instances} {V : Navl} {K : ConnKey} {s s' : Sys} {a : Act} {as : List Act}
  {l : List (Bytes × Bool)} {ps : List (ConnKey × Bytes)}

/-- An interleaving of the packets `ps` of the connection `K` with the threads, to the end. -/
structure Interleaving (inst : Instances) (V : Navl) (K : ConnKey) (ps : List (ConnKey × Bytes))
    (as : List Act) (s : Sys) : Prop where
  run : system.Run (init inst) as s
  packets : as.filterMap Act.packet = ps
  scheduled : system.Along (Scheduled V K) (init inst) as
  drained : ∀ q, s.pending q = []

/-- A packet that finds the entry without its connection has no payload. -/
def InTime (s : Sys) : Act → Prop
  | .insert key data _ _ _ =>
      ∀ it ∈ ConnTable.find s.connTable key, it.second.dpiState = none → data = []
  | _ => True

theorem Playing.run {s₀ : Sys} (h : system.Run s₀ as s) (hs : system.Along (Scheduled V K) s₀ as)
    (hp : Playing inst V K s₀ l) : Playing inst V K s (l ++ system.collect arrives s₀ as) :=
  h.invariant_along_collect (fun _ _ _ _ hp ha hs => hp.step hs ha) hs hp

theorem Interleaving.playing (h : Interleaving inst V K ps as s) :
    Playing inst V K s (system.collect arrives (init inst) as) :=
  (playing_init inst V K).run h.run h.scheduled

theorem Interleaving.map_arrives (h : Interleaving inst V K ps as s) :
    (system.collect arrives (init inst) as).map Prod.fst = ps.map Prod.snd := by
  have hk := h.run.map_collect (f := arrives) (g := Prod.fst)
    (k := fun a => a.packet.map Prod.snd) fun s a => by cases a <;> rfl
  rw [hk, ← h.packets, List.map_filterMap]

theorem find_of_not_connected (he : (view K s).entry.isSome = true)
    (hc : (view K s).connected = false) :
    ∃ it, ConnTable.find s.connTable K = some it ∧ it.second.dpiState = none := by
  rw [view_entry, Option.isSome_map] at he
  obtain ⟨it, hf⟩ := Option.isSome_iff_exists.mp he
  rw [Alone.connected, view_entry, hf] at hc
  refine ⟨it, hf, ?_⟩
  cases hd : it.second.dpiState with
  | none => rfl
  | some nc => simp [ConnInfo.hide, hd] at hc

theorem Playing.numQueues_ne (h : Playing inst V K s l) (h0 : inst.handles ≠ []) :
    (view K s).numQueues ≠ 0 := by
  rw [view_numQueues, h.numQueues]
  exact_mod_cast mt List.length_eq_zero_iff.mp h0

/-- The first packet finds no entry; of the others those that miss the connection are `P`. -/
theorem Interleaving.shape {P : Bytes → Prop} {C : Sys → Act → Prop} (h0 : inst.handles ≠ [])
    (h : Interleaving inst V K ps as s) (hC : system.Along C (init inst) as)
    (hP : ∀ s key data filter dir now, C s (.insert key data filter dir now) →
      ∀ it ∈ ConnTable.find s.connTable key, it.second.dpiState = none → P data) :
    system.collect arrives (init inst) as = [] ∨ ∃ data l,
      system.collect arrives (init inst) as = (data, false) :: l ∧
        ∀ x ∈ l, x.2 = false → P x.1 := by
  have hrun := h.run.invariant_along_collect (f := arrives) (l := [])
    (C := fun s a => Scheduled V K s a ∧ C s a)
    (I := fun s l => Playing inst V K s l ∧ (l = [] ∧ (view K s).entry = none ∨
      ∃ data l', l = (data, false) :: l' ∧ (view K s).entry.isSome = true ∧
        ∀ x ∈ l', x.2 = false → P x.1)) ?_ (h.scheduled.and hC)
    ⟨playing_init inst V K, .inl ⟨rfl, rfl⟩⟩
  · rcases hrun.2 with ⟨hl, -⟩ | ⟨data, l', hl, -, hp⟩
    · exact .inl hl
    · exact .inr ⟨data, l', hl, hp⟩
  · rintro s a s' l ⟨hpl, hsh⟩ ⟨ha, hc⟩ hs
    refine ⟨hpl.step hs ha, ?_⟩
    have k := step_change hs
    cases a with
    | insert key data filter dir now =>
        have hK := ha.2 (key, data) rfl
        have hn := hpl.numQueues_ne h0
        rw [k.view_insert hpl.inv hpl.placed hK, arrives_insert hK, Option.toList_some]
        -- the first packet makes the entry, and so finds no connection
        rcases hsh with ⟨rfl, he⟩ | ⟨d, l', rfl, he, hp⟩
        · have hcon : (view K s).connected = false := by rw [Alone.connected, he]; rfl
          rw [hcon]
          exact .inr ⟨data, [], rfl, Alone.insert_entry hn, by simp⟩
        · refine .inr ⟨d, l' ++ [(data, (view K s).connected)], rfl, Alone.insert_entry hn, ?_⟩
          intro x hx hx2
          rcases List.mem_append.mp hx with hx | hx
          · exact hp x hx hx2
          · rw [List.mem_singleton.mp hx] at hx2 ⊢
            obtain ⟨it, hf, hd⟩ := find_of_not_connected he hx2
            rw [← ConnTable.find_eq_of_equal hK] at hf
            exact hP s key data filter dir now hc it hf hd
    | engine q act =>
        have hn := k.numQueues_eq fun q hq => by
          cases hq
          exact ha.1
        have hv := k.view_thread hpl.inv hpl.numQueues hn (hpl.concerns k ha)
        have hent := Alone.engineStep_entry hv
        have harr : s.arrives (.engine q act) = none := rfl
        rw [harr, Option.toList_none, List.append_nil]
        rcases hsh with ⟨rfl, he⟩ | ⟨d, l', rfl, he, hp⟩
        · rw [he, Option.isSome_none, Option.isSome_eq_false_iff, Option.isNone_iff_eq_none] at hent
          exact .inl ⟨rfl, hent⟩
        · exact .inr ⟨d, l', rfl, hent.trans he, hp⟩
    | cleanup | stop => exact absurd ha.1 id

/-- **A schedule in time**: navl is given what it would be given of all packets but the first. -/
theorem Interleaving.payloads_in_time (h0 : inst.handles ≠ []) (h : Interleaving inst V K ps as s)
    (ht : system.Along InTime (init inst) as) :
    s.payloads = V.feed (ps.tail.map Prod.snd) := by
  have hmap := h.map_arrives
  rw [h.playing.payloads_eq h.drained]
  rcases h.shape (P := fun data => data = []) h0 ht fun s key data filter dir now hc => hc with
    hl | ⟨data, l, hl, hp⟩
  · rw [hl] at hmap ⊢
    rw [List.map_eq_nil_iff.mp hmap.symm]
    rfl
  · rw [hl] at hmap ⊢
    have htail : l.map Prod.fst = ps.tail.map Prod.snd := by
      rw [List.map_tail, ← hmap]
      rfl
    rw [← htail, ← Navl.feed_skip hp]
    rfl

/-- Without an engine thread navl is given nothing. -/
theorem Interleaving.payloads_no_engine (h0 : inst.handles = [])
    (h : Interleaving inst V K ps as s) : s.payloads = [] := by
  refine h.playing.feeding.given_of_zero ?_
  rw [view_numQueues, h.playing.numQueues, h0]
  rfl

/-- Where no packet but the first has a payload, navl is given nothing. -/
theorem Interleaving.payloads_empty (h : Interleaving inst V K ps as s)
    (hps : ∀ p ∈ ps.tail, p.2 = []) : s.payloads = [] := by
  by_cases h0 : inst.handles = []
  · exact h.payloads_no_engine h0
  · have hmap := h.map_arrives
    rw [h.playing.payloads_eq h.drained]
    refine Navl.feed_eq_nil.mpr fun data hd => ?_
    rcases h.shape (P := fun _ => True) (C := fun _ _ => True) h0
      (Machine.along_of_forall fun _ _ => trivial) (fun _ _ _ _ _ _ _ _ _ _ => trivial) with
      hl | ⟨first, l, hl, -⟩
    · rw [hl] at hd
      cases hd
    · rw [hl] at hmap hd
      obtain ⟨x, hx, rfl⟩ := List.mem_map.mp hd
      have hx : x ∈ l.filter Prod.snd := hx
      have hx := (List.mem_filter.mp hx).1
      have htail : l.map Prod.fst = ps.tail.map Prod.snd := by
        rw [List.map_tail, ← hmap]
        rfl
      obtain ⟨p, hp, he⟩ := List.mem_map.mp (htail ▸ List.mem_map_of_mem hx)
      exact he ▸ hps p hp

/-! ### There are schedules -/

/-- What is pending is of `K`, and seen by it. -/
theorem Playing.busy (h : Playing inst V K s l) {q : Nat} (hq : s.pending q ≠ []) :
    (view K s).Busy := by
  obtain ⟨m, rest, hp⟩ := List.exists_cons_of_ne_nil hq
  have hm : m ∈ s.pending q := by
    rw [hp]
    exact List.mem_cons_self ..
  have hk := h.inv.keyed_of_only h.only hm
  have hh := h.inv.home_of_keyed h.placed hm (h.no_exit q m hm) hk
  rcases List.mem_append.mp hm with hm | hm
  · have hheld := Option.mem_toList.mp hm
    obtain ⟨e, he, hpc⟩ := Option.bind_eq_some_iff.mp hheld
    refine .inr ⟨_, view_engine_held he hh hpc hk, ?_⟩
    rw [EnginePc.held_map, hpc]
    exact Option.some_ne_none _
  · refine .inl fun hv => ?_
    have hmem : seen K s m ∈ (view K s).queue := by
      have hvq : (view K s).queue = seenQueue K s (s.queue (Alone.home K s.numQueues)) := rfl
      rw [hvq, ← hh]
      exact List.mem_map_of_mem (List.mem_filter.mpr ⟨hm, hk⟩)
    rw [hv] at hmem
    cases hmem

/-- The thread works off what is there. -/
theorem Playing.drain (h : Playing inst V K s l) :
    ∃ as s', system.Run s as s' ∧ system.Along (Scheduled V K) s as ∧
      as.filterMap Act.packet = [] ∧ (∀ q, s'.pending q = []) ∧ Playing inst V K s' l ∧
        (view K s').entry.isSome = (view K s).entry.isSome := by
  -- every statement of the thread lowers the rank
  generalize hr : (view K s).rank = r
  induction r using Nat.strongRecOn generalizing s with
  | ind r ih =>
    by_cases hd : ∀ q, s.pending q = []
    · exact ⟨[], s, .refl s, trivial, rfl, hd, h, rfl⟩
    · obtain ⟨q, hq⟩ := not_forall.mp hd
      obtain ⟨act, w, hv, ha, hlt⟩ := h.feeding.progress (h.busy hq)
      obtain ⟨-, hen⟩ := h.inv.thread_enabled h.only hv
      obtain ⟨s₁, hs⟩ := Option.isSome_iff_exists.mp hen
      have hs : system.step s (.engine (Alone.home K s.numQueues) act) = some s₁ := hs
      have hsch : Scheduled V K s (.engine (Alone.home K s.numQueues) act) :=
        ⟨ha _, fun _ k => by cases k⟩
      have k := step_change hs
      have hn := k.numQueues_eq fun q hq => by
        rw [(Act.engine.inj hq).2] at hsch
        exact hsch.1
      have hv₁ := k.view_thread h.inv h.numQueues hn (h.concerns k hsch)
      have hw : view K s₁ = w := Option.some.inj (hv₁.symm.trans hv)
      have h₁ : Playing inst V K s₁ l := by
        have h₁ := h.step hs hsch
        have harr : s.arrives (.engine (Alone.home K s.numQueues) act) = none := rfl
        rwa [harr, Option.toList_none, List.append_nil] at h₁
      have hent : (view K s₁).entry.isSome = (view K s).entry.isSome :=
        hw ▸ Alone.engineStep_entry hv
      obtain ⟨as, s', hrun, hal, hpk, hdr, hpl, he⟩ := ih _ (hr ▸ hw ▸ hlt) h₁ rfl
      refine ⟨_ :: as, s', .more hs hrun, ⟨hsch, fun s₂ h₂ => ?_⟩, hpk, hdr, hpl, he.trans hent⟩
      rw [Option.some.inj (h₂.symm.trans hs)]
      exact hal

/-- An entry that the thread is done with has its connection. -/
theorem Playing.connected (h : Playing inst V K s l) (hd : ∀ q, s.pending q = [])
    (he : (view K s).entry.isSome = true) : (view K s).connected = true := by
  obtain ⟨hq, hpc⟩ := view_idle (K := K) hd
  have hb : ¬ (view K s).Busy := by
    rintro (hb | ⟨e, heng, hh⟩)
    · exact hb hq
    · exact hh (hpc e heng).1
  exact h.feeding.connected hb he

/-- A packet comes. -/
def come (p : ConnKey × Bytes) : Act := .insert p.1 p.2 0 0 0

/-- The packets come one after another: none finds its connection, or all do. -/
theorem Playing.come_all (h : Playing inst V K s l) (hps : ∀ p ∈ ps, connKeyEqual p.1 K = true) :
    ∃ s', system.Run s (ps.map come) s' ∧ system.Along (Scheduled V K) s (ps.map come) ∧
      Playing inst V K s' (l ++ ps.map fun p => (p.2, (view K s).connected)) ∧
        (inst.handles ≠ [] → (view K s).entry.isSome = true ∨ ps ≠ [] →
          (view K s').entry.isSome = true) := by
  induction ps generalizing s l with
  | nil =>
      refine ⟨s, .refl s, trivial, by simpa using h, fun _ he => ?_⟩
      exact he.resolve_right fun k => k rfl
  | cons p ps ih =>
      have hK := hps p (List.mem_cons_self ..)
      have hs : system.step s (come p) = some (s.insertOrUpdateFlows p.1 p.2 0 0 0) := rfl
      have hsch : Scheduled V K s (come p) :=
        ⟨trivial, fun _ k => by cases k; exact hK⟩
      have hv := (step_change hs).view_insert h.inv h.placed hK
      have h₁ := h.step hs hsch
      rw [come, arrives_insert hK, Option.toList_some] at h₁
      have hcon : (view K (s.insertOrUpdateFlows p.1 p.2 0 0 0)).connected =
          (view K s).connected := by
        rw [hv, Alone.connected_insert]
      obtain ⟨s', hrun, hal, hpl, he⟩ := ih h₁ fun p hp => hps p (List.mem_cons_of_mem _ hp)
      rw [hcon, List.append_assoc] at hpl
      refine ⟨s', .more hs hrun, ⟨hsch, fun s₂ h₂ => ?_⟩, hpl, fun h0 _ => he h0 (.inl ?_)⟩
      · rw [Option.some.inj (h₂.symm.trans hs)]
        exact hal
      · rw [hv]
        exact Alone.insert_entry (h.numQueues_ne h0)

theorem packet_come : (ps.map come).filterMap Act.packet = ps := by
  rw [List.filterMap_map]
  exact List.filterMap_some

/-- **A late schedule**: the thread starts when all packets are there.  navl is given nothing. -/
theorem exists_late (inst : Instances) (V : Navl) (hps : ∀ p ∈ ps, connKeyEqual p.1 K = true) :
    ∃ as s, Interleaving inst V K ps as s ∧ s.payloads = [] := by
  obtain ⟨s₁, hr₁, ha₁, hp₁, -⟩ := (playing_init inst V K).come_all hps
  obtain ⟨as, s, hr, ha, hpk, hd, hp, -⟩ := hp₁.drain
  refine ⟨ps.map come ++ as, s, ⟨hr₁.trans hr, ?_, ha₁.append hr₁ ha, hd⟩, ?_⟩
  · rw [List.filterMap_append, packet_come, hpk, List.append_nil]
  · have hc : (view K (init inst)).connected = false := rfl
    have hh : heard (ps.map fun p => (p.2, false)) = [] := by
      simp [heard, List.filter_map, Function.comp_def]
    rw [hp.payloads_eq hd, hc, List.nil_append, hh]
    rfl

/-- **An early schedule**: the thread is done with the first packet when the others come.  navl is
given what it accepts of these. -/
theorem exists_early (inst : Instances) (V : Navl) (h0 : inst.handles ≠ [])
    (hps : ∀ p ∈ ps, connKeyEqual p.1 K = true) :
    ∃ as s, Interleaving inst V K ps as s ∧ s.payloads = V.feed (ps.tail.map Prod.snd) := by
  cases ps with
  | nil => exact exists_late inst V hps
  | cons p ps =>
      have hp : ∀ x ∈ [p], connKeyEqual x.1 K = true := by
        intro x hx
        rw [List.mem_singleton.mp hx]
        exact hps p (List.mem_cons_self ..)
      obtain ⟨s₁, hr₁, ha₁, hp₁, he₁⟩ := (playing_init inst V K).come_all hp
      obtain ⟨as, s₂, hr₂, ha₂, hpk₂, hd₂, hp₂, he₂⟩ := hp₁.drain
      have hc := hp₂.connected hd₂ (he₂.trans (he₁ h0 (.inr (List.cons_ne_nil _ _))))
      obtain ⟨s₃, hr₃, ha₃, hp₃, -⟩ := hp₂.come_all fun x hx => hps x (List.mem_cons_of_mem _ hx)
      obtain ⟨bs, s, hr, ha, hpk, hd, hpl, -⟩ := hp₃.drain
      refine ⟨[p].map come ++ (as ++ (ps.map come ++ bs)), s, ⟨hr₁.trans (hr₂.trans (hr₃.trans hr)),
        ?_, ha₁.append hr₁ (ha₂.append hr₂ (ha₃.append hr₃ ha)), hd⟩, ?_⟩
      · rw [List.filterMap_append, List.filterMap_append, List.filterMap_append, packet_come, hpk₂,
          packet_come, hpk]
        simp
      · have hc₀ : (view K (init inst)).connected = false := rfl
        have hh : heard ([] ++ [p].map (fun p => (p.2, false)) ++ ps.map fun p => (p.2, true)) =
            ps.map Prod.snd := by
          simp [heard, List.filter_map, Function.comp_def]
        rw [hpl.payloads_eq hd, hc, hc₀, hh]
        rfl

/-- **What navl is given depends on the schedule**, except where no packet but the first has a
payload, or no payload comes before the connection is there. -/
theorem classify_input (inst : Instances) (V : Navl) (K : ConnKey) (ps : List (ConnKey × Bytes))
    (hps : ∀ p ∈ ps, connKeyEqual p.1 K = true) :
    ((∀ as s as' s', Interleaving inst V K ps as s → Interleaving inst V K ps as' s' →
        s.payloads = s'.payloads) ↔ inst.handles = [] ∨ ∀ p ∈ ps.tail, p.2 = []) ∧
      ∀ as s as' s', Interleaving inst V K ps as s → Interleaving inst V K ps as' s' →
        system.Along InTime (init inst) as → system.Along InTime (init inst) as' →
          s.payloads = s'.payloads := by
  refine ⟨⟨fun h => ?_, fun h as s as' s' hi hi' => ?_⟩, fun as s as' s' hi hi' ht ht' => ?_⟩
  · by_cases h0 : inst.handles = []
    · exact .inl h0
    · obtain ⟨as, s, hi, hs⟩ := exists_late inst V hps
      obtain ⟨as', s', hi', hs'⟩ := exists_early inst V h0 hps
      have heq := h as s as' s' hi hi'
      rw [hs, hs'] at heq
      refine .inr fun p hp => ?_
      exact Navl.feed_eq_nil.mp heq.symm _ (List.mem_map_of_mem hp)
  · rcases h with h0 | hps'
    · rw [hi.payloads_no_engine h0, hi'.payloads_no_engine h0]
    · rw [hi.payloads_empty hps', hi'.payloads_empty hps']
  · by_cases h0 : inst.handles = []
    · rw [hi.payloads_no_engine h0, hi'.payloads_no_engine h0]
    · rw [hi.payloads_in_time h0 ht, hi'.payloads_in_time h0 ht']

/-! ### Two packets -/

theorem pending_eq_nil (hq : ∀ l ∈ s.dpiEngineQueueList, l = [])
    (he : ∀ e ∈ s.engines, e.pc.held = none) (q : Nat) : s.pending q = [] := by
  have hheld : s.held q = none := by
    cases hq' : s.engines[q]? with
    | none => rw [held, hq']; rfl
    | some e => rw [held_eq hq', he e (List.mem_of_getElem? hq')]
  have hqueue : s.queue q = [] := by
    cases hl : s.dpiEngineQueueList[q]? with
    | none => rw [queue, hl]; rfl
    | some l => rw [queue_eq hl, hq l (List.mem_of_getElem? hl)]
  rw [pending, hheld, hqueue]
  rfl

/-- navl classifies whatever it is given. -/
def decides : Navl := fun _ => some ⟨.classified, 0, some (5, 90), some [72, 84]⟩

/-- A packet from each end. -/
def bothEnds : List (ConnKey × Bytes) := [(tcpKey, [1]), (tcpKey.swap, [2])]

/-- The second packet comes before the thread has looked at the first. -/
def late : List Act :=
  [.insert tcpKey [1] 3 1 100, .insert tcpKey.swap [2] 0 0 101, .engine 0 .pop,
    .engine 0 .testState, .engine 0 .setHandle, .engine 0 (.create true)]

def lateState : Sys := (system.exec (init twoEngines) late).get (by decide)

/-- The same packets, the thread faster: navl is given the second. -/
theorem not_classify_input : ¬ ∀ (inst : Instances) (V : Navl) (K : ConnKey)
    (ps : List (ConnKey × Bytes)), (∀ p ∈ ps, connKeyEqual p.1 K = true) →
      ∀ as s as' s', Interleaving inst V K ps as s → Interleaving inst V K ps as' s' →
        s.payloads = s'.payloads := by
  intro h
  have hlate : Interleaving twoEngines decides tcpKey bothEnds late lateState :=
    ⟨Machine.run_of_exec (by decide), by decide, by decide,
      pending_eq_nil (by decide) (by decide)⟩
  have hearly : Interleaving twoEngines decides tcpKey bothEnds decided decidedState :=
    ⟨run_decided, by decide, by decide, pending_eq_nil (by decide) (by decide)⟩
  exact absurd (h _ _ _ _ (by decide) _ _ _ _ hlate hearly) (by decide)

/-- The second packet has no payload, and comes late. -/
def lateEmpty : List Act :=
  [.insert tcpKey [1] 3 1 100, .insert tcpKey.swap [] 0 0 101, .engine 0 .pop,
    .engine 0 .testState, .engine 0 .setHandle, .engine 0 (.create true)]

def lateEmptyState : Sys := (system.exec (init twoEngines) lateEmpty).get (by decide)

/-- The same packets, the thread faster. -/
def earlyEmpty : List Act :=
  opened ++ [.insert tcpKey.swap [] 0 0 101, .engine 0 .pop, .engine 0 .testState,
    .engine 0 .guard]

def earlyEmptyState : Sys := (system.exec (init twoEngines) earlyEmpty).get (by decide)

theorem classify_input_no_payload : lateEmptyState.payloads = earlyEmptyState.payloads :=
  (classify_input twoEngines decides tcpKey [(tcpKey, [1]), (tcpKey.swap, [])] (by decide)).1.mpr
    (.inr (by decide)) lateEmpty lateEmptyState earlyEmpty earlyEmptyState
    ⟨Machine.run_of_exec (by decide), by decide, by decide,
      pending_eq_nil (by decide) (by decide)⟩
    ⟨Machine.run_of_exec (by decide), by decide, by decide,
      pending_eq_nil (by decide) (by decide)⟩

end Sys
end DistDpi
