import DistDpi.Flow.Alone
import DistDpi.Flow.Order

/-!
# Flow — feed

What navl is given of one connection that is on its own, when navl's verdict is a function of the
payloads it has been given (`Navl`).  `Feeding V v heard given`: the packets that found the entry
with its connection had the payloads `heard`, and of these navl has been given `given`.  Each step
keeps it, and while the thread has something to do it can take a step (`Feeding.progress`).
-/

namespace DistDpi

/-- navl: its answer to the last of the payloads it has been given, if it reports one. -/
abbrev Navl := List Bytes → Option Verdict

namespace Navl

variable {V : Navl} {given l : List Bytes} {data : Bytes}

/-- After the payloads `given` the entry is still inspected, without an error. -/
def accepts (V : Navl) (given : List Bytes) : Bool :=
  given.isEmpty || match V given with
    | none => true
    | some r => r.state == .inspecting && r.error == 0

/-- One more packet is ready for navl. -/
def feedStep (V : Navl) (given : List Bytes) (data : Bytes) : List Bytes :=
  if V.accepts given && !data.isEmpty then given ++ [data] else given

/-- What navl is given of the payloads `l`. -/
def feed (V : Navl) (l : List Bytes) : List Bytes := l.foldl V.feedStep []

theorem accepts_some {r : Verdict} (h : given ≠ []) (hv : V given = some r) :
    (V.accepts given = true) = (r.state = .inspecting ∧ r.error = 0) := by
  simp [accepts, h, hv]

theorem accepts_none (hv : V given = none) : V.accepts given = true := by
  simp [accepts, hv]

theorem feedStep_pass (h : V.accepts given = true) (hd : data ≠ []) :
    V.feedStep given data = given ++ [data] := by
  simp [feedStep, h, hd]

theorem feedStep_closed (h : V.accepts given = false) : V.feedStep given data = given := by
  simp [feedStep, h]

@[simp] theorem feedStep_nil : V.feedStep given [] = given := by
  simp [feedStep]

/-- Once the entry has left inspection nothing more is given. -/
theorem foldl_closed (h : V.accepts given = false) : l.foldl V.feedStep given = given := by
  induction l with
  | nil => rfl
  | cons data l ih => rw [List.foldl_cons, feedStep_closed h, ih]

theorem foldl_of_empty (h : ∀ data ∈ l, data = []) : l.foldl V.feedStep given = given := by
  induction l with
  | nil => rfl
  | cons data l ih =>
      rw [h data (List.mem_cons_self ..), List.foldl_cons, feedStep_nil]
      exact ih fun d hd => h d (List.mem_cons_of_mem _ hd)

/-- What has been given stays given. -/
theorem prefix_foldl : given <+: l.foldl V.feedStep given := by
  induction l generalizing given with
  | nil => exact List.prefix_refl _
  | cons data l ih =>
      refine List.IsPrefix.trans ?_ ih
      rw [feedStep]
      split
      · exact List.prefix_append _ _
      · exact List.prefix_refl _

/-- The first payload is given. -/
theorem feed_eq_nil : V.feed l = [] ↔ ∀ data ∈ l, data = [] := by
  constructor
  · intro h
    induction l with
    | nil => simp
    | cons data l ih =>
        by_cases hd : data = []
        · subst hd
          rw [feed, List.foldl_cons, feedStep_nil] at h
          exact List.forall_mem_cons.mpr ⟨rfl, ih h⟩
        · have hp : [data] <+: V.feed (data :: l) := by
            rw [feed, List.foldl_cons, feedStep_pass (by rfl) hd]
            exact prefix_foldl
          rw [h] at hp
          cases List.prefix_nil.mp hp
  · exact foldl_of_empty

/-- Empty payloads do not count. -/
theorem feed_skip {l : List (Bytes × Bool)} (h : ∀ x ∈ l, x.2 = false → x.1 = []) :
    V.feed ((l.filter Prod.snd).map Prod.fst) = V.feed (l.map Prod.fst) := by
  unfold feed
  generalize ([] : List Bytes) = given
  induction l generalizing given with
  | nil => rfl
  | cons x l ih =>
      have ih := ih fun y hy => h y (List.mem_cons_of_mem _ hy)
      obtain ⟨data, b⟩ := x
      cases b with
      | true => simpa using ih _
      | false =>
          have hd : data = [] := h _ (List.mem_cons_self ..) rfl
          subst hd
          simpa using ih _

end Navl

/-! ### A connection on its own -/

/-- The packet of a step. -/
def Act.packet : Act → Option (ConnKey × Bytes)
  | .insert key data _ _ _ => some (key, data)
  | _ => none

/-- navl answers as `V` says, connections are created, and nothing else but packets comes. -/
def Answers (V : Navl) (given : List Bytes) : Act → Prop
  | .insert .. => True
  | .engine _ (.create ok) => ok = true
  | .engine _ (.callback r _) => V given = some r
  | .engine _ .classifyFail => V given = none
  | .engine _ .throw => False
  | .engine .. => True
  | .cleanup _ | .stop => False

namespace Alone

variable {V : Navl} {v w : Alone} {heard given : List Bytes} {K : ConnKey} {a : Act}
  {act : EngineAct} {m : ConnMetadata} {i : ConnInfo} {e : Engine} {q : Nat}

/-- The payloads on their way to navl. -/
def unfed (v : Alone) : List Bytes :=
  ((v.engine.bind fun e => e.pc.unfed).toList ++ v.queue).map ConnMetadata.data

/-- The payload that a statement of the thread gives to navl. -/
def gives (v : Alone) (act : EngineAct) : Option Bytes :=
  match v.engine.map Engine.pc, act with
  | some (.classify m), .classify => some m.data
  | _, _ => none

/-- The entry has its connection. -/
def connected (v : Alone) : Bool := v.entry.any fun it => it.2.dpiState.isSome

/-- The first message, on its way to `navl_conn_create`. -/
inductive Opening (m : ConnMetadata) : EnginePc → List ConnMetadata → Prop where
  | waiting : Opening m .pop [m]
  | testState : Opening m (.testState m) []
  | setHandle : Opening m (.setHandle m) []
  | create : Opening m (.create m) []

/-- The entry, where navl has been given `given` and the thread stands at `pc`. -/
def Stage (V : Navl) (given : List Bytes) (i : ConnInfo) : EnginePc → Prop
  | .pop | .testState _ | .guard _ =>
      (i.classState = .inspecting ∧ i.error = 0) ↔ V.accepts given = true
  | .classify m =>
      i.classState = .inspecting ∧ i.error = 0 ∧ V.accepts given = true ∧ m.data ≠ []
  | .callback _ => i.classState = .inspecting ∧ i.error = 0 ∧ given ≠ []
  | .setHandle _ | .create _ | .clear | .failed | .exited => False

/-- The message is for the entry there is. -/
def Points (m : ConnMetadata) : Prop := m.info = 0 ∧ m.exitFlag = false

/-- **The invariant of a schedule**: of the packets heard, navl has been given `given`, and the
rest is on its way. -/
inductive Feeding (V : Navl) (v : Alone) : List Bytes → List Bytes → Prop where
  | fresh (he : v.entry = none) (hq : v.queue = []) (hn : v.numQueues = 0 ∨ v.engine ≠ none)
      (hpc : ∀ e, v.engine = some e → e.pc = .pop) : Feeding V v [] []
  | opening {first : ConnKey} {i : ConnInfo} {e : Engine} {m : ConnMetadata}
      (hn : v.numQueues ≠ 0) (he : v.entry = some (first, i)) (hd : i.dpiState = none)
      (hi : i.classState = .inspecting ∧ i.error = 0) (hm : Points m) (heng : v.engine = some e)
      (ho : Opening m e.pc v.queue) : Feeding V v [] []
  | opened {first : ConnKey} {i : ConnInfo} {e : Engine} {heard given : List Bytes}
      (hn : v.numQueues ≠ 0) (he : v.entry = some (first, i)) (hd : i.dpiState ≠ none)
      (heng : v.engine = some e) (hm : ∀ m ∈ e.pc.held.toList ++ v.queue, Points m)
      (hfeed : V.feed heard = v.unfed.foldl V.feedStep given) (hst : Stage V given i e.pc) :
      Feeding V v heard given

/-- At the end of a schedule navl has been given all it is ever given. -/
theorem Feeding.given_eq (h : Feeding V v heard given) (hq : v.queue = [])
    (hpc : ∀ e, v.engine = some e → e.pc.held = none) : given = V.feed heard := by
  cases h with
  | fresh | opening => rfl
  | opened hn he hd heng hm hfeed hst =>
      have hu : v.unfed = [] := by
        have hh := hpc _ heng
        rw [unfed, heng, hq, Option.bind_some, Sys.shows_unfed.without _ hh]
        rfl
      rw [hfeed, hu]
      rfl

/-- Without a queue nothing is given. -/
theorem Feeding.given_of_zero (h : Feeding V v heard given) (hn : v.numQueues = 0) : given = [] := by
  cases h with
  | fresh => rfl
  | opening h0 => exact absurd hn h0
  | opened h0 => exact absurd hn h0

/-! ### A packet -/

/-- A packet that finds the entry leaves its connection and what navl has reported. -/
theorem Stage.packet {i' : ConnInfo} {pc : EnginePc} (h : Stage V given i pc)
    (hc : i'.classState = i.classState) (he : i'.error = i.error) : Stage V given i' pc := by
  cases pc <;> simp only [Stage, hc, he] at h ⊢ <;> exact h

/-- An entry that has left inspection. -/
theorem Stage.closed {pc : EnginePc} (h : Stage V given i pc) (hc : i.classState ≠ .inspecting) :
    V.accepts given = false := by
  cases pc with
  | pop | testState | guard =>
      rw [← Bool.not_eq_true, ← h.eq]
      exact fun k => hc k.1
  | classify | callback => exact absurd h.1 hc
  | setHandle | create | clear | failed | exited => exact absurd h id

theorem insert_zero {key : ConnKey} {data : Bytes} {filter : Nat} {dir : UInt8} {now : Int}
    (hn : v.numQueues = 0) : v.insert key data filter dir now = v := if_pos hn

/-- The first packet. -/
theorem insert_fresh (key : ConnKey) (data : Bytes) (filter : Nat) (dir : UInt8) (now : Int)
    (hn : v.numQueues ≠ 0) (he : v.entry = none) :
    ∃ queue info, info.dpiState = none ∧ info.classState = .inspecting ∧ info.error = 0 ∧
      v.insert key data filter dir now =
        { v with entry := some (key, info) }.push queue ⟨0, 0, 0, 0, data, false⟩ := by
  rw [insert, if_neg hn, he]
  exact ⟨_, _, rfl, rfl, rfl, rfl⟩

/-- A packet that is not queued. -/
theorem insert_dropped {first : ConnKey} {key : ConnKey} {data : Bytes} {filter : Nat}
    {dir : UInt8} {now : Int} (hn : v.numQueues ≠ 0) (he : v.entry = some (first, i))
    (hi : ¬ (i.classState = .inspecting ∧ i.dpiState ≠ none)) :
    v.insert key data filter dir now = v.setEntry Sys.countPacket := by
  rw [insert, if_neg hn, he]
  exact if_neg hi

theorem insert_queued {first : ConnKey} {key : ConnKey} {data : Bytes} {filter : Nat}
    {dir : UInt8} {now : Int} (hn : v.numQueues ≠ 0) (he : v.entry = some (first, i))
    (hi : i.classState = .inspecting ∧ i.dpiState ≠ none) :
    v.insert key data filter dir now =
      (v.setEntry (Sys.countQueued now)).push i.queue
        ⟨0, 0, i.packetnum + 1, Sys.direction key first, data, false⟩ := by
  rw [insert, if_neg hn, he]
  exact if_pos hi

/-- A packet leaves an entry. -/
theorem insert_entry {key : ConnKey} {data : Bytes} {filter : Nat} {dir : UInt8} {now : Int}
    (hn : v.numQueues ≠ 0) : (v.insert key data filter dir now).entry.isSome = true := by
  cases he : v.entry with
  | none =>
      obtain ⟨queue, info, -, -, -, hins⟩ := insert_fresh key data filter dir now hn he
      rw [hins]
      rfl
  | some it =>
      rw [insert, if_neg hn, he]
      dsimp only
      split <;> simp [setEntry, push, he]

/-- A packet neither gives the entry its connection nor takes it. -/
theorem connected_insert {key : ConnKey} {data : Bytes} {filter : Nat} {dir : UInt8} {now : Int} :
    (v.insert key data filter dir now).connected = v.connected := by
  by_cases hn : v.numQueues = 0
  · rw [insert, if_pos hn]
  cases he : v.entry with
  | none =>
      obtain ⟨queue, info, hd, -, -, hins⟩ := insert_fresh key data filter dir now hn he
      rw [hins]
      simp [connected, push, hd, he]
  | some it =>
      rw [insert, if_neg hn, he]
      dsimp only
      split <;> simp [connected, setEntry, push, he, Sys.countQueued, Sys.countPacket]

/-- A statement of the thread keeps the entry, and makes none. -/
theorem engineStep_entry (h : v.engineStep act = some w) :
    w.entry.isSome = v.entry.isSome := by
  obtain ⟨e, -, h⟩ := thread_of_engineStep h
  cases h with
  | pop | testState | guard | classify | classifyFail => rfl
  | setHandle | callback => exact Option.isSome_map
  | @create m it ok =>
      cases ok with
      | false => rfl
      | true => exact Option.isSome_map

theorem setEntry_entry {first : ConnKey} {f : ConnInfo → ConnInfo}
    (he : v.entry = some (first, i)) : (v.setEntry f).entry = some (first, f i) := by
  rw [setEntry, he]
  rfl

/-- **A packet.** -/
theorem Feeding.insert (key : ConnKey) (data : Bytes) (filter : Nat) (dir : UInt8) (now : Int)
    (h : Feeding V v heard given) :
    Feeding V (v.insert key data filter dir now)
      (heard ++ if v.connected then [data] else []) given := by
  cases h with
  | fresh he hq hn hpc =>
      rw [connected, he]
      by_cases h0 : v.numQueues = 0
      · rw [insert_zero h0]
        exact .fresh he hq hn hpc
      · obtain ⟨e, heng⟩ := Option.ne_none_iff_exists'.mp (hn.resolve_left h0)
        obtain ⟨queue, info, hd, hc, herr, hins⟩ := insert_fresh key data filter dir now h0 he
        rw [hins]
        refine .opening h0 rfl hd ⟨hc, herr⟩ (m := ⟨0, 0, 0, 0, data, false⟩) ⟨rfl, rfl⟩ heng ?_
        rw [hpc e heng, push, hq]
        exact .waiting
  | @opening first i e m hn he hd hi hm heng ho =>
      have hdrop : ¬ (i.classState = .inspecting ∧ i.dpiState ≠ none) := fun k => k.2 hd
      rw [insert_dropped hn he hdrop, connected, he, Option.any_some, hd]
      exact .opening hn (setEntry_entry he) hd hi hm heng ho
  | @opened first i e heard given hn he hd heng hm hfeed hst =>
      have hsome : i.dpiState.isSome = true := Option.isSome_iff_ne_none.mpr hd
      rw [connected, he, Option.any_some, hsome, if_pos rfl]
      have happ : V.feed (heard ++ [data]) = (v.unfed ++ [data]).foldl V.feedStep given := by
        rw [Navl.feed, List.foldl_append, List.foldl_append, ← hfeed, Navl.feed]
      -- queued, it is on its way; dropped, navl had closed before
      by_cases hc : i.classState = .inspecting
      · rw [insert_queued hn he ⟨hc, hd⟩]
        refine .opened hn (setEntry_entry he) hd heng ?_ ?_ (hst.packet rfl rfl)
        · intro m hm'
          rcases List.mem_append.mp hm' with h | h
          · exact hm m (List.mem_append_left _ h)
          · rcases List.mem_append.mp h with h | h
            · exact hm m (List.mem_append_right _ h)
            · rw [List.mem_singleton.mp h]
              exact ⟨rfl, rfl⟩
        · rw [happ]
          congr 1
          simp [unfed, push, setEntry]
      · have hclosed := hst.closed hc
        rw [insert_dropped hn he fun k => hc k.1]
        refine .opened hn (setEntry_entry he) hd heng hm ?_ (hst.packet rfl rfl)
        rw [happ, List.foldl_append, Navl.foldl_closed hclosed, Navl.foldl_closed hclosed]
        exact (Navl.foldl_closed hclosed).symm

/-! ### A statement of the thread -/

theorem deref_points {first : ConnKey} (he : v.entry = some (first, i)) (hm : Points m) :
    v.deref m = some (first, i) := by
  rw [deref, if_pos hm.1, he]

theorem setPc_engine {pc : EnginePc} (heng : v.engine = some e) :
    (v.setPc pc).engine = some { e with pc } := by
  rw [setPc, heng]
  rfl

theorem setPc_entry {first : ConnKey} {pc : EnginePc} {f : ConnInfo → ConnInfo}
    (he : v.entry = some (first, i)) : ((v.setEntry f).setPc pc).entry = some (first, f i) :=
  setEntry_entry he

theorem unfed_setPc {pc : EnginePc} (heng : v.engine = some e) :
    (v.setPc pc).unfed = (pc.unfed.toList ++ v.queue).map ConnMetadata.data := by
  rw [unfed, setPc_engine heng]
  rfl

theorem unfed_eq (heng : v.engine = some e) :
    v.unfed = (e.pc.unfed.toList ++ v.queue).map ConnMetadata.data := by
  rw [unfed, heng]
  rfl

theorem gives_of_ne (h : act ≠ .classify) : v.gives act = none := by
  unfold gives
  split
  · exact absurd rfl h
  · rfl

theorem append_gives (h : act ≠ .classify) : given ++ (v.gives act).toList = given := by
  rw [gives_of_ne h, Option.toList_none, List.append_nil]

/-- What `classifiable` tests of an entry with its connection. -/
theorem classifiable_iff (hd : i.dpiState ≠ none) : Sys.classifiable m i = true ↔
    (i.classState = .inspecting ∧ i.error = 0) ∧ m.data ≠ [] := by
  simp [Sys.classifiable, Option.isSome_iff_ne_none, hd]
  tauto

/-- **A statement of the thread**, on the way to `navl_conn_create`. -/
theorem Feeding.thread_opening {first : ConnKey} (hn : v.numQueues ≠ 0)
    (he : v.entry = some (first, i)) (hd : i.dpiState = none)
    (hi : i.classState = .inspecting ∧ i.error = 0) (hm : Points m) (heng : v.engine = some e)
    (ho : Opening m e.pc v.queue) (hs : v.Thread e act w)
    (ha : Answers V [] (.engine q act)) : Feeding V w [] (v.gives act).toList := by
  have hdm := deref_points he hm
  cases hs with
  | @pop m' rest hpc hq =>
      rw [hpc, hq] at ho
      cases ho
      rw [gives_of_ne EngineAct.noConfusion, if_neg (by rw [hm.2]; exact Bool.false_ne_true)]
      exact .opening hn he hd hi hm (setPc_engine (v := { v with queue := [] }) heng) .testState
  | @testState m' it hpc hdt =>
      rw [hpc] at ho
      generalize hq : v.queue = l at ho
      cases ho
      cases hdm.symm.trans hdt
      rw [gives_of_ne EngineAct.noConfusion, if_pos hd]
      refine .opening hn he hd hi hm (setPc_engine heng) ?_
      rw [setPc, hq]
      exact .setHandle
  | @setHandle m' it hpc hdt =>
      rw [hpc] at ho
      generalize hq : v.queue = l at ho
      cases ho
      rw [gives_of_ne EngineAct.noConfusion]
      refine .opening hn (setPc_entry he) hd hi hm (setPc_engine (v := v.setEntry _) heng) ?_
      rw [setPc, setEntry, hq]
      exact .create
  | @create m' it ok hpc hdt =>
      rw [hpc] at ho
      generalize hq : v.queue = l at ho
      cases ho
      have hok : ok = true := ha
      rw [gives_of_ne EngineAct.noConfusion, hok, if_pos rfl]
      have hqe : (v.setEntry fun i => { i with dpiState := some 0 }).queue = [] := hq
      refine .opened hn (setPc_entry he) (Option.some_ne_none 0)
        (setPc_engine (v := v.setEntry _) heng) ?_ ?_ (iff_of_true hi rfl)
      · intro m' hm'
        rw [setPc, hqe] at hm'
        cases hm'
      · rw [unfed_setPc (v := v.setEntry _) heng, hqe]
        rfl
  | guard hpc | classify hpc | callback hpc | classifyFail hpc =>
      rw [hpc] at ho
      cases ho

/-- **A statement of the thread**, once the entry has its connection. -/
theorem Feeding.thread_opened {first : ConnKey} (hn : v.numQueues ≠ 0)
    (he : v.entry = some (first, i)) (hd : i.dpiState ≠ none) (heng : v.engine = some e)
    (hm : ∀ m ∈ e.pc.held.toList ++ v.queue, Points m)
    (hfeed : V.feed heard = v.unfed.foldl V.feedStep given) (hst : Stage V given i e.pc)
    (hs : v.Thread e act w) (ha : Answers V (given ++ (v.gives act).toList) (.engine q act)) :
    Feeding V w heard (given ++ (v.gives act).toList) := by
  rw [unfed_eq heng] at hfeed
  have rest : ∀ m ∈ v.queue, Points m := fun m h => hm m (List.mem_append_right _ h)
  -- the message the thread has points to the entry
  have entry : ∀ {m it}, e.pc.held = some m → v.deref m = some it → it = (first, i) :=
    fun {m it} hh hdt => by
      have hp := hm m (List.mem_append_left _ (by rw [hh]; exact List.mem_singleton_self _))
      exact Option.some.inj (hdt.symm.trans (deref_points he hp))
  cases hs with
  | @pop m l hpc hq =>
      rw [hpc, hq] at hfeed hm
      rw [hpc] at hst
      have hp := hm m (List.mem_cons_self ..)
      rw [append_gives EngineAct.noConfusion, if_neg (by rw [hp.2]; exact Bool.false_ne_true)]
      refine .opened hn he hd (setPc_engine (v := { v with queue := l }) heng) hm ?_ hst
      rw [unfed_setPc (v := { v with queue := l }) heng]
      exact hfeed
  | @testState m it hpc hdt =>
      cases entry (by rw [hpc]; rfl) hdt
      rw [hpc] at hfeed hst hm
      rw [append_gives EngineAct.noConfusion, if_neg hd]
      refine .opened hn he hd (setPc_engine heng) hm ?_ hst
      rw [unfed_setPc heng]
      exact hfeed
  | setHandle hpc | create hpc =>
      rw [hpc] at hst
      exact absurd hst id
  | @guard m it hpc hdt =>
      cases entry (by rw [hpc]; rfl) hdt
      rw [hpc] at hfeed hst hm
      rw [append_gives EngineAct.noConfusion]
      by_cases hc : Sys.classifiable m i = true
      · obtain ⟨hi, hdata⟩ := (classifiable_iff hd).mp hc
        rw [if_pos hc]
        refine .opened hn he hd (setPc_engine heng) hm ?_ ⟨hi.1, hi.2, hst.mp hi, hdata⟩
        rw [unfed_setPc heng]
        exact hfeed
      · -- what the guard drops navl would not be given
        rw [if_neg hc]
        refine .opened hn he hd (setPc_engine heng) rest ?_ hst
        have hstep : V.feedStep given m.data = given := by
          by_cases hdata : m.data = []
          · rw [hdata, Navl.feedStep_nil]
          · refine Navl.feedStep_closed ?_
            rw [← Bool.not_eq_true, ← hst.eq]
            exact fun k => hc ((classifiable_iff hd).mpr ⟨k, hdata⟩)
        rw [unfed_setPc heng, hfeed]
        exact congrArg (fun g => (v.queue.map ConnMetadata.data).foldl V.feedStep g) hstep
  | @classify m it hpc hdt =>
      -- navl is given the payload
      rw [hpc] at hfeed hst hm
      have hg : v.gives .classify = some m.data := by
        unfold gives
        rw [heng, Option.map_some, hpc]
      rw [hg]
      obtain ⟨hc, herr, hacc, hdata⟩ := hst
      refine .opened hn he hd (setPc_engine heng) hm ?_ ⟨hc, herr, by simp⟩
      rw [unfed_setPc heng, hfeed]
      exact congrArg (fun g => (v.queue.map ConnMetadata.data).foldl V.feedStep g)
        (Navl.feedStep_pass hacc hdata)
  | @callback m it r now hpc hdt =>
      rw [hpc] at hfeed hst
      rw [append_gives EngineAct.noConfusion] at ha ⊢
      have hv : V given = some r := ha
      refine .opened hn (setPc_entry he) hd (setPc_engine (v := v.setEntry _) heng) rest ?_ ?_
      · rw [unfed_setPc (v := v.setEntry _) heng]
        exact hfeed
      · rw [Stage, Navl.accepts_some hst.2.2 hv]
        exact Iff.rfl
  | @classifyFail m hpc =>
      rw [hpc] at hfeed hst
      rw [append_gives EngineAct.noConfusion] at ha ⊢
      have hv : V given = none := ha
      refine .opened hn he hd (setPc_engine heng) rest ?_ ?_
      · rw [unfed_setPc heng]
        exact hfeed
      · exact iff_of_true ⟨hst.1, hst.2.1⟩ (Navl.accepts_none hv)

/-- **A statement of the thread.** -/
theorem Feeding.thread (h : Feeding V v heard given) (hs : v.engineStep act = some w)
    (ha : Answers V (given ++ (v.gives act).toList) (.engine q act)) :
    Feeding V w heard (given ++ (v.gives act).toList) := by
  obtain ⟨e', heng', ht⟩ := thread_of_engineStep hs
  cases h with
  | fresh he hq hn hpc =>
      -- there is no message
      have hp := hpc e' heng'
      cases ht with
      | pop _ hql => cases hq.symm.trans hql
      | testState k | setHandle k | create k | guard k | classify k | callback k
      | classifyFail k => cases hp.symm.trans k
  | opening hn he hd hi hm heng ho =>
      cases heng.symm.trans heng'
      have hact : act ≠ .classify := by
        rintro rfl
        cases ht with
        | classify hpc =>
            rw [hpc] at ho
            cases ho
      rw [gives_of_ne hact] at ha
      exact thread_opening hn he hd hi hm heng ho ht ha
  | opened hn he hd heng hm hfeed hst =>
      cases heng.symm.trans heng'
      exact thread_opened hn he hd heng hm hfeed hst ht ha

/-! ### Draining -/

/-- The statements left for the message at hand, at most. -/
def todo : EnginePc → Nat
  | .testState _ => 4
  | .guard _ => 3
  | .setHandle _ | .classify _ => 2
  | .create _ | .callback _ => 1
  | .pop | .clear | .failed | .exited => 0

/-- How much the thread has to do. -/
def rank (v : Alone) : Nat := 6 * v.queue.length + ((v.engine.map fun e => todo e.pc).getD 0)

theorem rank_eq (heng : v.engine = some e) : v.rank = 6 * v.queue.length + todo e.pc := by
  rw [rank, heng]
  rfl

theorem rank_setPc (pc : EnginePc) (heng : v.engine = some e) :
    (v.setPc pc).rank = 6 * v.queue.length + todo pc := by
  rw [rank_eq (setPc_engine heng)]
  rfl

/-- The thread has something to do. -/
def Busy (v : Alone) : Prop := v.queue ≠ [] ∨ ∃ e, v.engine = some e ∧ e.pc.held ≠ none

theorem progress_pop {rest : List ConnMetadata} (heng : v.engine = some e) (hpc : e.pc = .pop)
    (hq : v.queue = m :: rest) (hm : Points m) :
    ∃ act w, v.engineStep act = some w ∧ (∀ q, Answers V given (.engine q act)) ∧
      w.rank < v.rank := by
  refine ⟨.pop, _, (Thread.pop hpc hq).engineStep heng, fun _ => trivial, ?_⟩
  rw [if_neg (by rw [hm.2]; exact Bool.false_ne_true),
    rank_setPc _ (v := { v with queue := rest }) heng,
    rank_eq heng, hpc, hq]
  simp only [todo, List.length_cons]
  omega

theorem progress_held {first : ConnKey} (he : v.entry = some (first, i)) (heng : v.engine = some e)
    (hh : e.pc.held = some m) (hm : Points m) :
    ∃ act w, v.engineStep act = some w ∧ (∀ q, Answers V given (.engine q act)) ∧
      w.rank < v.rank := by
  have hd := deref_points he hm
  have hr := rank_eq heng
  have hset := fun pc => rank_setPc pc heng
  have hwrite := fun f pc => rank_setPc (v := v.setEntry f) pc heng
  cases hpc : e.pc with
  | pop | clear | failed | exited =>
      rw [hpc] at hh
      cases hh
  | testState m' =>
      rw [hpc] at hh hr
      cases hh
      refine ⟨.testState, _, (Thread.testState hpc hd).engineStep heng, fun _ => trivial, ?_⟩
      rw [hset, hr]
      split <;> simp [todo]
  | setHandle m' =>
      rw [hpc] at hh hr
      cases hh
      refine ⟨.setHandle, _, (Thread.setHandle hpc hd).engineStep heng, fun _ => trivial, ?_⟩
      rw [hwrite, hr]
      simp [todo, setEntry]
  | create m' =>
      rw [hpc] at hh hr
      cases hh
      refine ⟨.create true, _, (Thread.create hpc hd).engineStep heng, fun _ => rfl, ?_⟩
      rw [if_pos rfl, hwrite, hr]
      simp [todo, setEntry]
  | guard m' =>
      rw [hpc] at hh hr
      cases hh
      refine ⟨.guard, _, (Thread.guard hpc hd).engineStep heng, fun _ => trivial, ?_⟩
      rw [hset, hr]
      split <;> simp [todo]
  | classify m' =>
      rw [hpc] at hh hr
      cases hh
      refine ⟨.classify, _, (Thread.classify hpc hd).engineStep heng, fun _ => trivial, ?_⟩
      rw [hset, hr]
      simp [todo]
  | callback m' =>
      rw [hpc] at hh hr
      cases hh
      -- navl answers as `V` says
      cases hV : V given with
      | none =>
          refine ⟨.classifyFail, _, (Thread.classifyFail hpc).engineStep heng, fun _ => hV, ?_⟩
          rw [hset, hr]
          simp [todo]
      | some r =>
          refine ⟨.callback r 0, _, (Thread.callback hpc hd).engineStep heng, fun _ => hV, ?_⟩
          rw [hwrite, hr]
          simp [todo, setEntry]

/-- An entry that the thread is done with has its connection. -/
theorem Feeding.connected (h : Feeding V v heard given) (hb : ¬ v.Busy)
    (hs : v.entry.isSome = true) : v.connected = true := by
  cases h with
  | fresh he =>
      rw [he] at hs
      cases hs
  | @opening first i e m hn he hd hi hm heng ho =>
      refine absurd ?_ hb
      generalize hpc : e.pc = pc at ho
      generalize hq : v.queue = l at ho
      cases ho with
      | waiting => exact .inl (by rw [hq]; exact List.cons_ne_nil _ _)
      | _ => exact .inr ⟨e, heng, by rw [hpc]; exact Option.some_ne_none _⟩
  | opened hn he hd =>
      rw [Alone.connected, he, Option.any_some]
      exact Option.isSome_iff_ne_none.mpr hd

/-- A thread with something to do can do it, whatever `V` is. -/
theorem Feeding.progress (h : Feeding V v heard given) (hb : v.Busy) :
    ∃ act w, v.engineStep act = some w ∧ (∀ q, Answers V given (.engine q act)) ∧
      w.rank < v.rank := by
  cases h with
  | fresh he hq hn hpc =>
      rcases hb with h | ⟨e, heng, hh⟩
      · exact absurd hq h
      · rw [hpc e heng] at hh
        exact absurd rfl hh
  | @opening first i e m hn he hd hi hm heng ho =>
      cases hh : e.pc.held with
      | none =>
          generalize hpc : e.pc = pc at ho hh
          generalize hq : v.queue = l at ho
          cases ho with
          | waiting => exact progress_pop heng hpc hq hm
          | _ => cases hh
      | some m' =>
          refine progress_held he heng hh ?_
          generalize e.pc = pc at ho hh
          generalize v.queue = l at ho
          cases ho <;> cases hh <;> exact hm
  | @opened first i e heard given hn he hd heng hm hfeed hst =>
      cases hh : e.pc.held with
      | none =>
          have hpc : e.pc = .pop := by
            cases hpc : e.pc <;> rw [hpc] at hh hst <;> first
              | rfl
              | exact absurd hst id
              | cases hh
          rcases hb with h | ⟨e', heng', hh'⟩
          · obtain ⟨m, rest, hq⟩ := List.exists_cons_of_ne_nil h
            refine progress_pop heng hpc hq (hm m (List.mem_append_right _ ?_))
            rw [hq]
            exact List.mem_cons_self ..
          · cases heng.symm.trans heng'
            exact absurd hh hh'
      | some m =>
          refine progress_held he heng hh (hm m (List.mem_append_left _ ?_))
          rw [hh]
          exact List.mem_singleton_self m

end Alone

end DistDpi
