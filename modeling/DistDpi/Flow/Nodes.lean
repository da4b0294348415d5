import DistDpi.Flow.Messages

/-!
# Flow — nodes

What a step does to the nodes: it leaves them, adds one, writes through one pointer, or erases
some (`NodeChange`).  The nodes erased are kept in `erased` as they were, so a node there has
been is among `nodes` from then on, and `Next` lists what a step can make of it.  Over a run its
identity stays, its connection is given once, and its verdict is given once (`Evolves`).
-/

namespace DistDpi

/-- What the callback decides about a connection. -/
def ConnInfo.verdict (i : ConnInfo) : NavlState × UInt32 × Int × Int × Int :=
  (i.classState, i.dpiResult, i.dpiConfidence, i.error, i.pktRefCnt)

namespace Node

/-- `n` may become `n'`, in any number of steps. -/
structure Evolves (n n' : Node) : Prop where
  addr : n'.addr = n.addr
  first : n'.first = n.first
  key : n'.second.key = n.second.key
  queue : n'.second.queue = n.second.queue
  filter : n'.second.filter = n.second.filter
  dir : n'.second.dir = n.second.dir
  conn : n.second.dpiState ≠ none →
    n'.second.dpiState = n.second.dpiState ∧ n'.second.handle = n.second.handle
  verdict : n.second.classState ≠ .inspecting → n'.second.verdict = n.second.verdict

theorem Evolves.refl (n : Node) : n.Evolves n :=
  ⟨rfl, rfl, rfl, rfl, rfl, rfl, fun _ => ⟨rfl, rfl⟩, fun _ => rfl⟩

theorem Evolves.classState {n n' : Node} (h : n.Evolves n')
    (hc : n.second.classState ≠ .inspecting) : n'.second.classState = n.second.classState :=
  congrArg Prod.fst (h.verdict hc)

theorem Evolves.trans {n₁ n₂ n₃ : Node} (h : n₁.Evolves n₂) (k : n₂.Evolves n₃) :
    n₁.Evolves n₃ where
  addr := k.addr.trans h.addr
  first := k.first.trans h.first
  key := k.key.trans h.key
  queue := k.queue.trans h.queue
  filter := k.filter.trans h.filter
  dir := k.dir.trans h.dir
  conn hd := by
    obtain ⟨h₁, h₂⟩ := h.conn hd
    obtain ⟨k₁, k₂⟩ := k.conn (h₁ ▸ hd)
    exact ⟨k₁.trans h₁, k₂.trans h₂⟩
  verdict hc := (k.verdict (h.classState hc ▸ hc)).trans (h.verdict hc)

end Node

namespace Sys

variable {s s' : Sys} {a : Act} {q : Nat} {n n' : Node}

/-- The thread of queue `q` works on a message for the node `n`. -/
def Works (s : Sys) (q : Nat) (n : Node) : Prop := ∃ m, s.held q = some m ∧ m.info = n.addr

/-- A thread works on one node at a time. -/
theorem Works.addr_eq (h : s.Works q n) (h' : s.Works q n') : n.addr = n'.addr := by
  obtain ⟨m, hm, ha⟩ := h
  obtain ⟨m', hm', ha'⟩ := h'
  cases hm.symm.trans hm'
  exact ha.symm.trans ha'

/-- What the step `a` from `s` can make of the node `n`. -/
inductive Next (s : Sys) (n : Node) : Act → Node → Prop where
  | same {a : Act} : Next s n a n
  | packet {key : ConnKey} {data : Bytes} {filter : Nat} {dir : UInt8} {now : Int} :
      Next s n (.insert key data filter dir now) { n with second := countPacket n.second }
  | queued {key : ConnKey} {data : Bytes} {filter : Nat} {dir : UInt8} {now : Int}
      (hi : n.second.classState = .inspecting) (hd : n.second.dpiState ≠ none) :
      Next s n (.insert key data filter dir now) { n with second := countQueued now n.second }
  | handle {q : Nat} {e : Engine} (hw : s.Works q n) (he : s.engines[q]? = some e)
      (hd : n.second.dpiState = none) :
      Next s n (.engine q .setHandle) { n with second := { n.second with handle := e.navlhandle } }
  | conn {q : Nat} {e : Engine} (hw : s.Works q n) (he : s.engines[q]? = some e)
      (hd : n.second.dpiState = none) (hh : n.second.handle = e.navlhandle) :
      Next s n (.engine q (.create true))
        { n with second := { n.second with dpiState := some s.nextConn } }
  | verdict {q : Nat} {r : Verdict} {now : Int} (hw : s.Works q n)
      (hi : n.second.classState = .inspecting) (hd : n.second.dpiState ≠ none) :
      Next s n (.engine q (.callback r now)) { n with second := classifiedInfo r now n.second }

theorem Next.evolves (h : s.Next n a n') : n.Evolves n' := by
  cases h with
  | same => exact .refl n
  | packet => exact ⟨rfl, rfl, rfl, rfl, rfl, rfl, fun _ => ⟨rfl, rfl⟩, fun _ => rfl⟩
  | queued hi => exact ⟨rfl, rfl, rfl, rfl, rfl, rfl, fun _ => ⟨rfl, rfl⟩, fun hc => absurd hi hc⟩
  | handle hw he hd | conn hw he hd =>
      exact ⟨rfl, rfl, rfl, rfl, rfl, rfl, fun h => absurd hd h, fun _ => rfl⟩
  | verdict hw hi =>
      exact ⟨rfl, rfl, rfl, rfl, rfl, rfl, fun _ => ⟨rfl, rfl⟩, fun hc => absurd hi hc⟩

/-- A step that is not one of a thread that works on the node leaves what the threads look at. -/
theorem Next.unworked (h : s.Next n a n') (hw : ∀ q act, a = .engine q act → ¬ s.Works q n) :
    n'.second.dpiState = n.second.dpiState ∧ n'.second.handle = n.second.handle ∧
      n'.second.classState = n.second.classState := by
  cases h with
  | same | packet | queued => exact ⟨rfl, rfl, rfl⟩
  | handle k | conn k | verdict k => exact absurd k (hw _ _ rfl)

/-- `n` is the entry that the step `a` from `s` makes. -/
inductive Makes (s : Sys) : Act → Node → Prop where
  | mk {key : ConnKey} {data : Bytes} {filter : Nat} {dir : UInt8} {now : Int}
      (hn : s.numQueues ≠ 0) (hf : ConnTable.find s.connTable key = none) :
      Makes s (.insert key data filter dir now) (s.newNode key filter dir now)

theorem Makes.addr (h : s.Makes a n) : n.addr = s.nextNode := by cases h; rfl

/-- What a step does to the nodes. -/
inductive NodeChange (s : Sys) : Act → Sys → Prop where
  | same {a : Act} {s' : Sys} (ht : s'.connTable = s.connTable) (he : s'.erased = s.erased)
      (hn : s'.nextNode = s.nextNode) : NodeChange s a s'
  | new {a : Act} {s' : Sys} {n : Node} (hm : s.Makes a n)
      (ht : s'.connTable = s.connTable ++ [n]) (he : s'.erased = s.erased)
      (hn : s'.nextNode = s.nextNode + 1) : NodeChange s a s'
  | write {a : Act} {s' : Sys} {x : NodeId} {f : ConnInfo → ConnInfo}
      (hw : ∀ n ∈ s.connTable, n.addr = x → s.Next n a { n with second := f n.second })
      (ht : s'.connTable = ConnTable.update s.connTable x f) (he : s'.erased = s.erased)
      (hn : s'.nextNode = s.nextNode) : NodeChange s a s'
  | erase {a : Act} {s' : Sys} {p : Node → Bool}
      (ht : s'.connTable = s.connTable.filter fun n => !p n)
      (he : s'.erased = s.erased ++ s.connTable.filter p) (hn : s'.nextNode = s.nextNode) :
      NodeChange s a s'

/-! ### The rules of `NodeChange` -/

theorem mem_nodes : n ∈ s.nodes ↔ n ∈ s.connTable ∨ n ∈ s.erased := List.mem_append

/-- A node in the table after a step was there before it, or is the new one. -/
theorem NodeChange.back_live (h : NodeChange s a s') (hn' : n' ∈ s'.connTable) :
    (∃ n ∈ s.connTable, s.Next n a n') ∨ s.Makes a n' := by
  cases h with
  | same ht => exact .inl ⟨n', ht ▸ hn', .same⟩
  | new hm ht =>
      rw [ht, List.mem_append, List.mem_singleton] at hn'
      rcases hn' with hn' | rfl
      · exact .inl ⟨n', hn', .same⟩
      · exact .inr hm
  | @write x f hw ht he hn =>
      rw [ht, ConnTable.mem_update] at hn'
      obtain ⟨n, hn, rfl⟩ := hn'
      refine .inl ⟨n, hn, ?_⟩
      split
      · exact hw n hn ‹_›
      · exact .same
  | erase ht => exact .inl ⟨n', List.mem_of_mem_filter (ht ▸ hn'), .same⟩

/-- A node erased by a step was in the table before it, as it is now. -/
theorem NodeChange.back_erased (h : NodeChange s a s') (hn' : n' ∈ s'.erased) :
    n' ∈ s.erased ∨ n' ∈ s.connTable := by
  cases h with
  | same _ he | new _ _ he | write _ _ he => exact .inl (he ▸ hn')
  | erase ht he =>
      rw [he, List.mem_append] at hn'
      exact hn'.imp id List.mem_of_mem_filter

theorem NodeChange.back (h : NodeChange s a s') (hn' : n' ∈ s'.nodes) :
    (∃ n ∈ s.nodes, s.Next n a n') ∨ s.Makes a n' := by
  rcases mem_nodes.mp hn' with hn' | hn'
  · exact (h.back_live hn').imp_left fun ⟨n, hn, k⟩ => ⟨n, mem_nodes.mpr (.inl hn), k⟩
  · exact .inl ⟨n', mem_nodes.mpr (h.back_erased hn').symm, .same⟩

/-- A node in the table before a step is there after it, or erased as it was. -/
theorem NodeChange.forward_live (h : NodeChange s a s') (hn : n ∈ s.connTable) :
    (∃ n' ∈ s'.connTable, s.Next n a n') ∨ n ∈ s'.erased := by
  cases h with
  | same ht => exact .inl ⟨n, ht ▸ hn, .same⟩
  | new hm ht => exact .inl ⟨n, ht ▸ List.mem_append_left _ hn, .same⟩
  | @write x f hw ht he =>
      refine .inl ⟨if n.addr = x then { n with second := f n.second } else n, ?_, ?_⟩
      · rw [ht, ConnTable.mem_update]
        exact ⟨n, hn, rfl⟩
      · split
        · exact hw n hn ‹_›
        · exact .same
  | @erase p ht he =>
      rw [ht, he]
      cases hp : p n with
      | false => exact .inl ⟨n, List.mem_filter.mpr ⟨hn, by rw [hp]; rfl⟩, .same⟩
      | true => exact .inr (List.mem_append_right _ (List.mem_filter.mpr ⟨hn, hp⟩))

theorem NodeChange.forward_erased (h : NodeChange s a s') (hn : n ∈ s.erased) :
    n ∈ s'.erased := by
  cases h with
  | same _ he | new _ _ he | write _ _ he => exact he ▸ hn
  | erase _ he => exact he ▸ List.mem_append_left _ hn

theorem NodeChange.forward (h : NodeChange s a s') (hn : n ∈ s.nodes) :
    ∃ n' ∈ s'.nodes, s.Next n a n' := by
  rcases mem_nodes.mp hn with hn | hn
  · rcases h.forward_live hn with ⟨n', hn', k⟩ | hn'
    · exact ⟨n', mem_nodes.mpr (.inl hn'), k⟩
    · exact ⟨n, mem_nodes.mpr (.inr hn'), .same⟩
  · exact ⟨n, mem_nodes.mpr (.inr (h.forward_erased hn)), .same⟩

/-! ### Addresses and keys -/

/-- Addresses are given out once, keys are different, and an entry knows its key. -/
structure TableOk (s : Sys) : Prop where
  addr_lt : ∀ n ∈ s.nodes, n.addr < s.nextNode
  addr_nodup : (s.nodes.map Node.addr).Nodup
  keys : ConnTable.Keys s.connTable
  key_eq : ∀ n ∈ s.nodes, n.second.key = n.first

theorem TableOk.eq_of_addr (h : s.TableOk) (hn : n ∈ s.nodes) (hn' : n' ∈ s.nodes)
    (e : n.addr = n'.addr) : n = n' :=
  List.inj_on_of_nodup_map h.addr_nodup hn hn' e

/-- No address is both live and erased. -/
theorem TableOk.not_erased (h : s.TableOk) (hn : n ∈ s.connTable) : n.addr ∉
    s.erased.map Node.addr := fun hn' => by
  have hd := h.addr_nodup
  rw [nodes, List.map_append] at hd
  exact (List.nodup_append.mp hd).2.2 _ (List.mem_map_of_mem hn) _ hn' rfl

/-- A live node is the one its address points to. -/
theorem TableOk.deref_of_mem (h : s.TableOk) (hn : n ∈ s.connTable) :
    ConnTable.deref s.connTable n.addr = some n := by
  cases hd : ConnTable.deref s.connTable n.addr with
  | none =>
      have := List.find?_eq_none.mp hd n hn
      simp at this
  | some n' =>
      obtain ⟨hn', ha⟩ := ConnTable.deref_some hd
      rw [h.eq_of_addr (mem_nodes.mpr (.inl hn')) (mem_nodes.mpr (.inl hn)) ha]

/-- The lookup of the callback finds the entry the pointer points to. -/
theorem TableOk.find_key (h : s.TableOk) (hn : n ∈ s.connTable) :
    ConnTable.find s.connTable n.second.key = some n := by
  rw [h.key_eq n (mem_nodes.mpr (.inl hn))]
  exact h.keys.find_of_mem hn (connKeyEqual_refl n.first)

theorem NodeChange.keys (h : NodeChange s a s') (hk : ConnTable.Keys s.connTable) :
    ConnTable.Keys s'.connTable := by
  cases h with
  | same ht => rw [ht]; exact hk
  | new hm ht =>
      rw [ht]
      cases hm with
      | mk hn hf => exact hk.append hf
  | write hw ht => rw [ht]; exact ConnTable.keys_update.mpr hk
  | erase ht => rw [ht]; exact hk.sublist List.filter_sublist

/-- The addresses of the nodes: those there were, and perhaps the next one. -/
theorem NodeChange.addrs (h : NodeChange s a s') :
    ((s'.nodes.map Node.addr).Perm (s.nodes.map Node.addr) ∧ s'.nextNode = s.nextNode) ∨
      ((s'.nodes.map Node.addr).Perm (s.nextNode :: s.nodes.map Node.addr) ∧
        s'.nextNode = s.nextNode + 1) := by
  cases h with
  | same ht he hn => exact .inl ⟨by rw [nodes, nodes, ht, he], hn⟩
  | new hm ht he hn =>
      refine .inr ⟨?_, hn⟩
      rw [nodes, nodes, ht, he, List.append_assoc, List.singleton_append, ← hm.addr]
      exact (List.perm_middle.map Node.addr :)
  | write hw ht he hn =>
      refine .inl ⟨?_, hn⟩
      rw [nodes, nodes, ht, he, List.map_append, ConnTable.map_addr_update, List.map_append]
  | @erase p ht he hn =>
      refine .inl ⟨?_, hn⟩
      rw [nodes, nodes, ht, he]
      refine List.Perm.map _ ?_
      have hp : (s.connTable.filter p ++ s.connTable.filter fun n => !p n).Perm s.connTable :=
        List.filter_append_perm p s.connTable
      rw [← List.append_assoc]
      refine List.perm_append_comm.trans ?_
      rw [← List.append_assoc]
      exact hp.append_right _

theorem NodeChange.tableOk (h : NodeChange s a s') (hs : s.TableOk) : s'.TableOk where
  addr_lt n' hn' := by
    have hm : n'.addr ∈ s'.nodes.map Node.addr := List.mem_map_of_mem hn'
    have old : ∀ {x}, x ∈ s.nodes.map Node.addr → x < s.nextNode := fun hx => by
      obtain ⟨n, hn, rfl⟩ := List.mem_map.mp hx
      exact hs.addr_lt n hn
    rcases h.addrs with ⟨hp, hn⟩ | ⟨hp, hn⟩
    · rw [hn]; exact old (hp.mem_iff.mp hm)
    · rw [hn]
      rcases List.mem_cons.mp (hp.mem_iff.mp hm) with hx | hx
      · exact hx ▸ Nat.lt_succ_self _
      · exact Nat.lt_succ_of_lt (old hx)
  addr_nodup := by
    rcases h.addrs with ⟨hp, -⟩ | ⟨hp, -⟩
    · exact hp.nodup_iff.mpr hs.addr_nodup
    · refine hp.nodup_iff.mpr (List.nodup_cons.mpr ⟨fun hx => ?_, hs.addr_nodup⟩)
      obtain ⟨n, hn, hx⟩ := List.mem_map.mp hx
      exact Nat.lt_irrefl _ (hx ▸ hs.addr_lt n hn)
  keys := h.keys hs.keys
  key_eq n' hn' := by
    rcases h.back hn' with ⟨n, hn, k⟩ | hm
    · rw [k.evolves.key, k.evolves.first, hs.key_eq n hn]
    · cases hm; rfl

end Sys
end DistDpi
