import DistDpi.Flow.Verdict

/-!
# Flow — the lifecycle of a navl connection

`navl_conn_create` and `navl_conn_destroy` must be paired.  A connection is destroyed where its
entry is decided, where the entry idles out, and by `cleanupFlows(true)`, and none of the three
records it: an idle entry may have no connection to destroy, and the entries `cleanupFlows(true)`
finds may be decided ones, whose connection is gone.

`Dooms` says what a step destroys, as the list of the entries; `ConnOk` counts it for each
connection.  Whether a run keeps to the contract is then a condition on its cleanups
(`DestroyOk`), and an exact one.
-/

namespace DistDpi

/-- A `navl_conn_destroy` of `nc`. -/
def Event.destroys (nc : Option ConnId) : Event → Bool
  | .connDestroy _ nc' => nc' == nc
  | _ => false

/-- A `navl_conn_create` that returns `c`. -/
def Event.returns (c : ConnId) : Event → Bool
  | .connCreate _ _ _ _ _ _ nc => nc == some c
  | _ => false

/-- A `navl_classify` on `c`. -/
def Event.classifies (c : ConnId) : Event → Bool
  | .classify _ _ _ nc _ _ => nc == some c
  | _ => false

namespace Sys

variable {inst : Instances} {s s' : Sys} {a : Act} {n n' : Node} {c : ConnId} {t : List Node}
  {evs : List Event}

/-- How often `nc` has been destroyed. -/
def destroys (s : Sys) (nc : Option ConnId) : Nat := s.count (Event.destroys nc)

/-- `c` has been created. -/
def Created (s : Sys) (c : ConnId) : Prop := ∃ ev ∈ s.log, ev.returns c

/-- Nothing destroyed that is not there: no `NULL`, and nothing twice. -/
def NoBadDestroy (s : Sys) : Prop := s.destroys none = 0 ∧ ∀ c, s.destroys (some c) ≤ 1

/-- No connection is classified on after it has been destroyed. -/
def NoLateClassify (s : Sys) : Prop :=
  s.log.Pairwise fun ev ev' => ∀ c, ev.destroys (some c) → ¬ ev'.classifies c

/-- **The contract** at the end: every connection created has been destroyed once. -/
def Paired (s : Sys) : Prop :=
  (∀ c, s.Created c → s.destroys (some c) = 1) ∧ s.NoBadDestroy ∧ s.NoLateClassify

/-- **The condition on the cleanups.**  An entry that idles out has a connection; an entry left
to `cleanupFlows(true)` has one and is not decided. -/
def DestroyOk (s : Sys) : Act → Prop
  | .cleanup now => ∀ it ∈ s.connTable, idle (toInt now) it → it.second.dpiState ≠ none
  | .stop => s.stopPc = .joined → ∀ it ∈ s.connTable, it.second.dpiState ≠ none ∧
      ¬ it.second.classState.Decided
  | .insert .. | .engine .. => True

instance (s : Sys) : ∀ a, Decidable (s.DestroyOk a)
  | .cleanup now =>
      inferInstanceAs (Decidable (∀ it ∈ s.connTable, idle (toInt now) it → it.second.dpiState ≠ none))
  | .stop =>
      inferInstanceAs (Decidable (s.stopPc = .joined → ∀ it ∈ s.connTable,
        it.second.dpiState ≠ none ∧ ¬ it.second.classState.Decided))
  | .insert .. | .engine .. => isTrue trivial

/-! ### What a step destroys -/

/-- The step `a` destroys the connections of the entries `t`. -/
inductive Dooms (s : Sys) : Act → Sys → List Node → Prop where
  | nothing {a : Act} {s' : Sys} (hcb : ∀ q r now, a ≠ .engine q (.callback r now))
      (hcl : ∀ now, a ≠ .cleanup now) (hst : a = .stop → s.stopPc ≠ .joined)
      (he : s'.erased = s.erased) : Dooms s a s' []
  | verdict {q : Nat} {r : Verdict} {now : Int} {it : Node} {s' : Sys} (hit : it ∈ s.connTable)
      (hw : s.Works q it) (hi : it.second.classState = .inspecting)
      (hd : it.second.dpiState ≠ none)
      (hm : { it with second := classifiedInfo r now it.second } ∈ s'.connTable)
      (he : s'.erased = s.erased) :
      Dooms s (.engine q (.callback r now)) s' (if r.state.Decided then [it] else [])
  | idle {now : Int} {s' : Sys}
      (ht : s'.connTable = s.connTable.filter fun it => !expired (toInt now) it)
      (he : s'.erased = s.erased ++ s.connTable.filter (expired (toInt now))) :
      Dooms s (.cleanup now) s' (s.connTable.filter (idle (toInt now)))
  | final {s' : Sys} (h : s.stopPc = .joined) (ht : s'.connTable = [])
      (he : s'.erased = s.erased ++ s.connTable) (hst : s'.stopPc = .cleaned) :
      Dooms s .stop s' s.connTable

theorem Dooms.sublist (h : s.Dooms a s' t) : t.Sublist s.connTable := by
  cases h with
  | nothing => exact List.nil_sublist _
  | verdict hit =>
      split
      · exact List.singleton_sublist.mpr hit
      · exact List.nil_sublist _
  | idle => exact List.filter_sublist
  | final => exact List.Sublist.refl _

theorem countP_destroys_map (t : List Node) (nc : Option ConnId) :
    (t.map destroyCall).countP (Event.destroys nc) = t.countP fun n => n.second.dpiState == nc := by
  rw [List.countP_map]
  rfl

theorem Emits.destroys (h : s.Emits a s' evs) (hcb : ∀ q r now, a ≠ .engine q (.callback r now))
    (hcl : ∀ now, a ≠ .cleanup now) (hst : a = .stop → s.stopPc ≠ .joined)
    (nc : Option ConnId) : evs.countP (Event.destroys nc) = 0 := by
  cases h with
  | silent | inserted | ignored | queued | create | called => rfl
  | reported => exact absurd rfl (hcb _ _ _)
  | idle => exact absurd rfl (hcl _)
  | final hj => exact absurd hj (hst rfl)

theorem StopMoves.not_joined {pc : StopPc} {dq : List DPIFlowData} (h : StopMoves s pc dq) :
    s.stopPc ≠ .joined := by
  cases h <;> simp [*]

theorem Change.dooms (h : Change s a s') (hI : s.Inv inst) : ∃ t, s.Dooms a s' t ∧
    ∀ nc, s'.destroys nc = s.destroys nc + t.countP fun n => n.second.dpiState == nc := by
  by_cases hcb : ∃ q r now, a = .engine q (.callback r now)
  · obtain ⟨q, r, now, rfl⟩ := hcb
    obtain ⟨it, hit, hw, hi, hd, hm, hlog⟩ := h.callback hI
    have he : s'.erased = s.erased := by cases h <;> rfl
    refine ⟨_, .verdict hit hw hi hd hm he, fun nc => (count_append hlog).trans ?_⟩
    split <;> simp [Sys.destroys, Event.destroys, List.countP_cons]
  · have hcb : ∀ q r now, a ≠ .engine q (.callback r now) := fun q r now e => hcb ⟨q, r, now, e⟩
    obtain ⟨evs, hlog, hem⟩ := h.emits hI
    -- beside the callback, the two loops of `cleanupFlows` destroy; no other step does
    have nothing : (∀ now, a ≠ .cleanup now) → (a = .stop → s.stopPc ≠ .joined) →
        s'.erased = s.erased → ∃ t, s.Dooms a s' t ∧
          ∀ nc, s'.destroys nc = s.destroys nc + t.countP fun n => n.second.dpiState == nc :=
      fun hcl hst he => ⟨[], .nothing hcb hcl hst he, fun nc =>
        (count_append hlog).trans (by rw [hem.destroys hcb hcl hst]; rfl)⟩
    cases h with
    | dropped | inserted | ignored | queued | popped | exits | moved | handleSet | createFailed
    | created | called | thrown | cleared =>
        exact nothing (fun _ e => by cases e) (fun e => by cases e) rfl
    | unfound | reported | noted => exact absurd rfl (hcb _ _ _)
    | cleanup =>
        refine ⟨_, .idle rfl rfl, fun nc => ?_⟩
        rw [← countP_destroys_map]
        exact count_append rfl
    | stopCleanup h =>
        refine ⟨_, .final h rfl rfl rfl, fun nc => ?_⟩
        rw [← countP_destroys_map]
        exact count_append rfl
    | stopPush h =>
        exact nothing (fun _ e => by cases e) (fun _ e => by rw [h] at e; cases e) rfl
    | stopMoved h => exact nothing (fun _ e => by cases e) (fun _ => h.not_joined) rfl

/-! ### Connections and their entries -/

/-- Before `cleanupFlows(true)`. -/
def BeforeFinal (s : Sys) : Prop := s.stopPc = .running ∨ s.stopPc = .joined

/-- **The ledger.**  A connection belongs to one entry.  It has been destroyed once if the entry
is decided or, before `cleanupFlows(true)`, erased; otherwise not yet. -/
structure ConnOk (s : Sys) : Prop where
  lt : ∀ n ∈ s.nodes, ∀ c, n.second.dpiState = some c → c < s.nextConn
  owner : ∀ c, s.Created c → ∃ n ∈ s.nodes, n.second.dpiState = some c
  unique : ∀ n ∈ s.nodes, ∀ n' ∈ s.nodes, ∀ c, n.second.dpiState = some c →
    n'.second.dpiState = some c → n = n'
  live : ∀ n ∈ s.connTable, ∀ c, n.second.dpiState = some c →
    s.destroys (some c) = if n.second.classState.Decided then 1 else 0
  erased : s.BeforeFinal → ∀ n ∈ s.erased, ∀ c, n.second.dpiState = some c →
    s.destroys (some c) = 1
  order : s.NoLateClassify

theorem connOk_init (inst : Instances) : (init inst).ConnOk where
  lt _ hn := by simp [init, nodes] at hn
  owner _ h := by
    obtain ⟨_, h, -⟩ := h
    cases h
  unique _ hn := by simp [init, nodes] at hn
  live _ hn := by cases hn
  erased _ _ hn := by cases hn
  order := .nil

/-- A node gets its connection from the thread that works on it, and keeps it. -/
theorem Next.dpiState (k : s.Next n a n') : n'.second.dpiState = n.second.dpiState ∨
    ∃ q, a = .engine q (.create true) ∧ s.Works q n ∧ n.second.dpiState = none ∧
      n'.second.dpiState = some s.nextConn := by
  cases k with
  | same | packet | queued | handle | verdict => exact .inl rfl
  | conn hw he hd => exact .inr ⟨_, rfl, hw, hd, rfl⟩

theorem Change.nextConn (h : Change s a s') : s.nextConn ≤ s'.nextConn ∧
    ∀ q, a = .engine q (.create true) → s'.nextConn = s.nextConn + 1 := by
  cases h with
  | created => exact ⟨Nat.le_succ _, fun _ _ => rfl⟩
  | moved he hm =>
      refine ⟨Nat.le_refl _, fun q e => ?_⟩
      cases e
      rcases hm.act with h | h | h <;> cases h
  | _ => exact ⟨Nat.le_refl _, fun q e => by cases e⟩

/-- The count of a connection among entries destroyed: its own entry is one of them or not. -/
theorem ConnOk.countP (hC : s.ConnOk) (hI : s.Inv inst) (ht : t.Sublist s.connTable)
    (hn : n ∈ s.nodes) (hc : n.second.dpiState = some c) :
    t.countP (fun n => n.second.dpiState == some c) = if n ∈ t then 1 else 0 := by
  have own : ∀ n' ∈ t, (n'.second.dpiState == some c) = (n' == n) := fun n' hn' => by
    rw [Bool.eq_iff_iff, beq_iff_eq, beq_iff_eq]
    refine ⟨fun h => hC.unique n' (mem_nodes.mpr (.inl (ht.subset hn'))) n hn c h hc, ?_⟩
    rintro rfl
    exact hc
  have nodup : t.Nodup := by
    have := hI.table.addr_nodup
    rw [nodes, List.map_append] at this
    exact ((List.nodup_append.mp this).1.of_map).sublist ht
  rw [List.countP_congr fun n' hn' => by rw [own n' hn']]
  split
  · exact List.count_eq_one_of_mem nodup ‹_›
  · exact List.count_eq_zero_of_not_mem ‹_›

/-! ### The ledger is kept -/

theorem Change.beforeFinal (h : Change s a s') (hf : s'.BeforeFinal) : s.BeforeFinal := by
  cases h with
  | stopCleanup => rcases hf with h | h <;> cases h
  | stopPush => rcases hf with h | h <;> cases h
  | stopMoved hm =>
      cases hm with
      | join h => exact .inl h
      | tell | done => rcases hf with h | h <;> cases h
  | _ => exact hf

/-- A connection no entry has is in no call. -/
theorem destroys_eq_zero (hL : ∀ ev ∈ s.log, ev.Ok s)
    (hc : ∀ n ∈ s.nodes, n.second.dpiState ≠ some c) : s.destroys (some c) = 0 := by
  refine List.countP_eq_zero.mpr fun ev hev he => ?_
  cases ev with
  | connDestroy handle nc =>
      obtain ⟨n, hn, hd⟩ := hL _ hev
      cases beq_iff_eq.mp he
      exact hc n hn (hd (Option.some_ne_none _)).1
  | _ => cases he

/-- `navl_classify` is called on the connection of a live entry that is not decided. -/
theorem Emits.classifies (h : s.Emits a s' evs) (hI : s.Inv inst) {ev : Event} (hev : ev ∈ evs)
    (hc : ev.classifies c) : evs = [ev] ∧ ∃ n ∈ s.connTable, n.second.dpiState = some c ∧
      n.second.classState = .inspecting := by
  have none : ∀ {p : Node → Bool}, ev ∈ (s.connTable.filter p).map destroyCall → False :=
    fun {p} hev => by
      obtain ⟨n, -, rfl⟩ := List.mem_map.mp hev
      cases hc
  cases h with
  | silent => cases hev
  | inserted | queued | reported => rcases List.mem_pair.mp hev with rfl | rfl <;> cases hc
  | ignored | create => cases List.mem_singleton.mp hev; cases hc
  | called he hpc hit ha =>
      cases List.mem_singleton.mp hev
      have known := hI.expects_live he (by rw [hpc]; rfl) hit ha
      rw [hpc] at known
      exact ⟨rfl, _, hit, beq_iff_eq.mp hc, known.2⟩
  | idle => exact (none hev).elim
  | final =>
      obtain ⟨n, -, rfl⟩ := List.mem_map.mp hev
      cases hc

theorem Change.owner (h : Change s a s') (hI : s.Inv inst) (hC : s.ConnOk) (hc : s'.Created c) :
    ∃ n ∈ s'.nodes, n.second.dpiState = some c := by
  obtain ⟨evs, hlog, hem⟩ := h.emits hI
  obtain ⟨ev, hev, hr⟩ := hc
  rw [hlog, List.mem_append] at hev
  rcases hev with hev | hev
  · obtain ⟨n, hn, hd⟩ := hC.owner c ⟨ev, hev, hr⟩
    obtain ⟨n', hn', k⟩ := (h.nodes hI).forward hn
    exact ⟨n', hn', (k.evolves.conn (hd ▸ Option.some_ne_none c)).1.trans hd⟩
  · cases hem with
    | silent => cases hev
    | inserted | queued | reported => rcases List.mem_pair.mp hev with rfl | rfl <;> cases hr
    | ignored | called => cases List.mem_singleton.mp hev; cases hr
    | @create q e m it ok _ he hpc hit ha hm =>
        cases List.mem_singleton.mp hev
        cases ok with
        | false => cases hr
        | true => exact ⟨_, mem_nodes.mpr (.inl (hm rfl)), beq_iff_eq.mp hr⟩
    | idle | final =>
        obtain ⟨n, -, rfl⟩ := List.mem_map.mp hev
        cases hr

theorem Change.unique (h : Change s a s') (hI : s.Inv inst) (hC : s.ConnOk) (hn : n ∈ s'.nodes)
    (hn' : n' ∈ s'.nodes) (hc : n.second.dpiState = some c) (hc' : n'.second.dpiState = some c) :
    n = n' := by
  have hN := h.nodes hI
  suffices ha : n.addr = n'.addr from (hN.tableOk hI.table).eq_of_addr hn hn' ha
  -- a connection just created is not that of an older entry
  have old : ∀ {n₀ : Node}, n₀ ∈ s.nodes → n₀.second.dpiState ≠ some s.nextConn := fun h₀ hd =>
    Nat.lt_irrefl _ (hC.lt _ h₀ _ hd)
  rcases hN.back hn with ⟨n₁, hn₁, k₁⟩ | hm
  · rcases hN.back hn' with ⟨n₂, hn₂, k₂⟩ | hm
    · rw [k₁.evolves.addr, k₂.evolves.addr]
      rcases k₁.dpiState with h₁ | ⟨q₁, rfl, hw₁, -, h₁⟩ <;>
        rcases k₂.dpiState with h₂ | ⟨q₂, e, hw₂, -, h₂⟩
      · rw [hC.unique n₁ hn₁ n₂ hn₂ c (h₁ ▸ hc) (h₂ ▸ hc')]
      · exact absurd (h₁.symm.trans (hc.trans (hc'.symm.trans h₂))) (old hn₁)
      · exact absurd (h₂.symm.trans (hc'.trans (hc.symm.trans h₁))) (old hn₂)
      · cases e
        exact hw₁.addr_eq hw₂
    · cases hm; cases hc'
  · cases hm; cases hc

theorem Change.live (h : Change s a s') (hI : s.Inv inst) (hL : ∀ ev ∈ s.log, ev.Ok s)
    (hC : s.ConnOk) (hn' : n' ∈ s'.connTable) (hc : n'.second.dpiState = some c) :
    s'.destroys (some c) = if n'.second.classState.Decided then 1 else 0 := by
  have hN := h.nodes hI
  obtain ⟨t, hD, total⟩ := h.dooms hI
  rcases hN.back_live hn' with ⟨n, hn, k⟩ | hm
  · have hnn := mem_nodes.mpr (.inl hn)
    rcases k.dpiState with hd | ⟨q, rfl, hw, hd, hd'⟩
    · -- the connection is an old one
      have hc₀ := hd ▸ hc
      rw [total, hC.live n hn c hc₀, hC.countP hI hD.sublist hnn hc₀]
      cases hD with
      | nothing hcb =>
          rcases k.classState with h | ⟨q, r, now, e, -⟩
          · simp [h]
          · exact absurd e (hcb q r now)
      -- the callback destroys the connection of one entry, and decides it
      | @verdict q r now it _ hit hw hi hd hm he =>
          by_cases hx : n = it
          · subst hx
            cases (hN.tableOk hI.table).eq_of_addr (mem_nodes.mpr (.inl hm))
              (mem_nodes.mpr (.inl hn')) k.evolves.addr.symm
            rw [hi, if_neg NavlState.not_decided_inspecting]
            by_cases hr : r.state.Decided <;> simp [hr, classifiedInfo]
          · have same : n'.second.classState = n.second.classState := by
              rcases k.classState with h | ⟨q', _, _, hq, hw', -⟩
              · exact h
              · cases hq
                exact absurd (hI.table.eq_of_addr hnn (mem_nodes.mpr (.inl hit))
                  (hw'.addr_eq hw)) hx
            rw [same]
            split <;> split <;> simp_all
      -- what is left in the table was not idle
      | idle ht he =>
          rw [ht, List.mem_filter] at hn'
          cases hI.table.eq_of_addr (mem_nodes.mpr (.inl hn'.1)) hnn k.evolves.addr
          have hx : ¬ n' ∈ s.connTable.filter (idle (toInt _)) := fun hx => by
            have := hn'.2
            rw [expired, (List.mem_filter.mp hx).2] at this
            simp at this
          rw [if_neg hx, Nat.add_zero]
      | final _ ht => rw [ht] at hn'; cases hn'
    · -- the connection has just been created
      have hi : n'.second.classState = .inspecting := by
        rcases k.classState with h | ⟨q, r, now, e, -⟩
        · by_contra hne
          exact (hI.verdict n hnn (h ▸ hne)).1 hd
        · cases e
      cases hd'.symm.trans hc
      rw [hi, if_neg NavlState.not_decided_inspecting, total]
      cases hD with
      | nothing =>
          exact destroys_eq_zero hL fun n hn hd => Nat.lt_irrefl _ (hC.lt n hn _ hd)
  · cases hm; cases hc

theorem Change.erased (h : Change s a s') (hI : s.Inv inst) (hC : s.ConnOk)
    (hf : s'.BeforeFinal) (hn : n ∈ s'.erased) (hc : n.second.dpiState = some c) :
    s'.destroys (some c) = 1 := by
  obtain ⟨t, hD, total⟩ := h.dooms hI
  have old : n ∈ s.erased → s.destroys (some c) + t.countP (fun n => n.second.dpiState == some c) =
      1 := fun hn => by
    have hx : ¬ n ∈ t := fun hx =>
      hI.table.not_erased (hD.sublist.subset hx) (List.mem_map_of_mem hn)
    rw [hC.erased (h.beforeFinal hf) n hn c hc,
      hC.countP hI hD.sublist (mem_nodes.mpr (.inr hn)) hc, if_neg hx]
  rw [total]
  cases hD with
  | nothing _ _ _ he => exact old (he ▸ hn)
  | verdict _ _ _ _ _ he => exact old (he ▸ hn)
  | @idle now _ ht he =>
      rw [he, List.mem_append] at hn
      rcases hn with hn | hn
      · exact old hn
      · obtain ⟨hn, hx⟩ := List.mem_filter.mp hn
        rw [hC.live n hn c hc, hC.countP hI List.filter_sublist (mem_nodes.mpr (.inl hn)) hc]
        rw [expired, Bool.or_eq_true] at hx
        rcases hx with hx | hx
        · have hi : ¬ idle (toInt now) n = true := fun hi => by
            rw [idle_not_finished hi] at hx
            cases hx
          rw [if_pos (decided_of_finished hx), if_neg fun k => hi (List.mem_filter.mp k).2]
        · rw [if_neg (not_decided_of_idle hx), if_pos (List.mem_filter.mpr ⟨hn, hx⟩)]
  | final _ _ _ hst => rcases hf with h | h <;> rw [hst] at h <;> cases h

theorem Change.order (h : Change s a s') (hI : s.Inv inst) (hC : s.ConnOk) : s'.NoLateClassify := by
  obtain ⟨evs, hlog, hem⟩ := h.emits hI
  rw [NoLateClassify, hlog]
  refine List.pairwise_append.mpr ⟨hC.order, ?_, fun ev hev ev' hev' c hd hc => ?_⟩
  · refine List.pairwise_of_forall_mem_list fun ev hev ev' hev' c hd hc => ?_
    cases List.mem_singleton.mp ((hem.classifies hI hev' hc).1 ▸ hev)
    cases ev <;> first | cases hd | cases hc
  · obtain ⟨-, n, hn, hd', hi⟩ := hem.classifies hI hev' hc
    have := hC.live n hn c hd'
    rw [hi, if_neg NavlState.not_decided_inspecting] at this
    exact List.countP_eq_zero.mp this ev hev hd

theorem Change.connOk (h : Change s a s') (hI : s.Inv inst) (hL : ∀ ev ∈ s.log, ev.Ok s)
    (hC : s.ConnOk) : s'.ConnOk where
  lt n' hn' c hc := by
    rcases (h.nodes hI).back hn' with ⟨n, hn, k⟩ | hm
    · rcases k.dpiState with hd | ⟨q, rfl, -, -, hd⟩
      · exact Nat.lt_of_lt_of_le (hC.lt n hn c (hd ▸ hc)) h.nextConn.1
      · rw [h.nextConn.2 q rfl]
        cases hd.symm.trans hc
        exact Nat.lt_succ_self _
    · cases hm; cases hc
  owner c hc := h.owner hI hC hc
  unique n hn n' hn' c hc hc' := h.unique hI hC hn hn' hc hc'
  live n hn c hc := h.live hI hL hC hn hc
  erased hf n hn c hc := h.erased hI hC hf hn hc
  order := h.order hI hC

/-- What every reachable state satisfies, its ledger included. -/
def Sound (inst : Instances) (s : Sys) : Prop :=
  s.Inv inst ∧ (∀ ev ∈ s.log, ev.Ok s) ∧ s.ConnOk

theorem sound_init (inst : Instances) : (init inst).Sound inst :=
  ⟨inv_init inst, (fun _ h => by cases h), connOk_init inst⟩

theorem Sound.step (h : s.Sound inst) (hs : system.step s a = some s') : s'.Sound inst :=
  have hs := step_change hs
  ⟨hs.inv h.1, hs.log_ok h.1 h.2.1, hs.connOk h.1 h.2.1 h.2.2⟩

/-! ### The contract -/

/-- A step destroys nothing wrongly exactly when the entries it is about have a connection and
are not decided. -/
theorem noBadDestroy_iff (hS : s.Sound inst) (ht : t.Sublist s.connTable)
    (total : ∀ nc, s'.destroys nc = s.destroys nc + t.countP fun n => n.second.dpiState == nc)
    (hB : s.NoBadDestroy) :
    s'.NoBadDestroy ↔ ∀ n ∈ t, n.second.dpiState ≠ none ∧ ¬ n.second.classState.Decided := by
  obtain ⟨hI, -, hC⟩ := hS
  have counted : ∀ n ∈ t, ∀ c, n.second.dpiState = some c →
      s'.destroys (some c) = (if n.second.classState.Decided then 1 else 0) + 1 :=
    fun n hn c hc => by
      rw [total, hC.live n (ht.subset hn) c hc,
        hC.countP hI ht (mem_nodes.mpr (.inl (ht.subset hn))) hc, if_pos hn]
  constructor
  · rintro ⟨h₀, h₁⟩ n hn
    rw [total, hB.1, Nat.zero_add, List.countP_eq_zero] at h₀
    have hd : n.second.dpiState ≠ none := fun hd => h₀ n hn (beq_iff_eq.mpr hd)
    obtain ⟨c, hc⟩ := Option.ne_none_iff_exists'.mp hd
    refine ⟨hd, fun hx => ?_⟩
    have := h₁ c
    rw [counted n hn c hc, if_pos hx] at this
    omega
  · intro h
    refine ⟨?_, fun c => ?_⟩
    · rw [total, hB.1, Nat.zero_add, List.countP_eq_zero]
      exact fun n hn hd => (h n hn).1 (beq_iff_eq.mp hd)
    · -- a connection of `t` is destroyed now, and was not before; any other as often as before
      by_cases hc : ∃ n ∈ t, n.second.dpiState = some c
      · obtain ⟨n, hn, hc⟩ := hc
        have once := counted n hn c hc
        rw [if_neg (h n hn).2] at once
        exact Nat.le_of_eq once
      · have none : (t.countP fun n => n.second.dpiState == some c) = 0 :=
          List.countP_eq_zero.mpr fun n hn hd => hc ⟨n, hn, beq_iff_eq.mp hd⟩
        rw [total, none]
        exact hB.2 c

theorem Change.noBadDestroy (h : Change s a s') (hS : s.Sound inst) (hB : s.NoBadDestroy) :
    s'.NoBadDestroy ↔ s.DestroyOk a := by
  obtain ⟨t, hD, total⟩ := h.dooms hS.1
  rw [noBadDestroy_iff hS hD.sublist total hB]
  cases hD with
  | nothing _ hcl hst =>
      refine ⟨fun _ => ?_, fun _ _ hn => by cases hn⟩
      cases a with
      | insert | engine => trivial
      | cleanup now => exact absurd rfl (hcl now)
      | stop => exact fun hj => absurd hj (hst rfl)
  | @verdict q r now it _ hit hw hi hd =>
      refine ⟨fun _ => trivial, fun _ n hn => ?_⟩
      split at hn
      · cases List.mem_singleton.mp hn
        exact ⟨hd, hi ▸ NavlState.not_decided_inspecting⟩
      · cases hn
  | idle =>
      refine ⟨fun h it hit hx => (h it (List.mem_filter.mpr ⟨hit, hx⟩)).1, fun h n hn => ?_⟩
      obtain ⟨hn, hx⟩ := List.mem_filter.mp hn
      exact ⟨h n hn hx, not_decided_of_idle hx⟩
  | final hj => exact ⟨fun h _ => h, fun h => h hj⟩

/-- What has been destroyed stays so. -/
theorem NoBadDestroy.back (h : Change s a s') (hI : s.Inv inst) (hB : s'.NoBadDestroy) :
    s.NoBadDestroy := by
  obtain ⟨t, -, total⟩ := h.dooms hI
  refine ⟨?_, fun c => ?_⟩
  · have := total none
    rw [hB.1] at this
    omega
  · have := total (some c)
    have := hB.2 c
    omega

/-- After `cleanupFlows(true)` every connection has been destroyed, once if nothing has been
destroyed wrongly. -/
theorem Sound.paired (hS : s.Sound inst) (hj : s.stopPc = .joined)
    (hs : system.step s .stop = some s') (hB : s'.NoBadDestroy) : s'.Paired := by
  obtain ⟨-, -, hC'⟩ := hS.step hs
  obtain ⟨hI, -, hC⟩ := hS
  obtain ⟨t, hD, total⟩ := (step_change hs).dooms hI
  refine ⟨fun c hc => ?_, hB, hC'.order⟩
  obtain ⟨n, hn, hd⟩ := hC'.owner c hc
  cases hD with
  | nothing _ _ hst => exact absurd hj (hst rfl)
  | final _ ht he =>
      have hn : n ∈ s.erased ∨ n ∈ s.connTable := by simpa [nodes, ht, he] using hn
      have := total (some c)
      have := hB.2 c
      rcases hn with hn | hn
      · have := hC.erased (.inr hj) n hn c hd
        omega
      · have := hC.countP hI (List.Sublist.refl _) (mem_nodes.mpr (.inl hn)) hd
        rw [if_pos hn] at this
        omega

end Sys
end DistDpi
