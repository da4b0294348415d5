import DistDpi.Flow.Definitions
import Mathlib.Data.List.Pairwise
import Mathlib.Data.List.Nodup

/-!
# Flow — the table

What `find`, `insert`, a write through a pointer and the two loops of `cleanupFlows` do to
`conn_table`, as a list of nodes.
-/

namespace DistDpi
namespace ConnTable

variable {t : List Node} {it it' : Node} {key : ConnKey} {a : NodeId} {f g : ConnInfo → ConnInfo}

/-! ### `find` and `insert` -/

theorem find_some (h : find t key = some it) : it ∈ t ∧ connKeyEqual it.first key := by
  have hp := List.find?_some h
  rw [Bool.and_eq_true] at hp
  exact ⟨List.mem_of_find?_eq_some h, hp.2⟩

/-- The hash never hides an equal key. -/
theorem find_none : find t key = none ↔ ∀ it ∈ t, ¬ connKeyEqual it.first key := by
  unfold find
  rw [List.find?_eq_none]
  constructor
  · intro h it hit he
    exact h it hit (by rw [connKeyHasher_eq_of_equal he, he]; simp)
  · intro h it hit hp
    rw [Bool.and_eq_true] at hp
    exact h it hit hp.2

theorem insert_of_find_none (h : find t it.first = none) : insert t it = (t ++ [it], true) := by
  simp [insert, h]

/-- Keys are pairwise different. -/
def Keys (t : List Node) : Prop :=
  t.Pairwise fun it it' => ¬ connKeyEqual it.first it'.first

theorem Keys.eq_of_equal (h : Keys t) (hit : it ∈ t) (hit' : it' ∈ t)
    (he : connKeyEqual it.first it'.first) : it = it' := by
  by_contra hne
  have : Std.Symm fun it it' : Node => ¬ connKeyEqual it.first it'.first :=
    ⟨fun _ _ k k' => k (connKeyEqual_symm k')⟩
  exact List.Pairwise.forall h hit hit' hne he

/-- Among different keys, `find` returns the entry of the key. -/
theorem Keys.find_of_mem (h : Keys t) (hit : it ∈ t) (he : connKeyEqual it.first key) :
    find t key = some it := by
  cases hf : find t key with
  | none => exact absurd he (find_none.mp hf it hit)
  | some it' =>
      obtain ⟨hit', he'⟩ := find_some hf
      rw [h.eq_of_equal hit' hit (connKeyEqual_trans he' (connKeyEqual_symm he))]

/-- A key is found in one place, or not at all. -/
theorem find_eq_of_equal {key' : ConnKey} (h : connKeyEqual key key') : find t key = find t key' := by
  unfold find
  congr 1
  funext it
  have he : connKeyEqual it.first key = connKeyEqual it.first key' :=
    Bool.eq_iff_iff.mpr ⟨fun k => connKeyEqual_trans k h,
      fun k => connKeyEqual_trans k (connKeyEqual_symm h)⟩
  rw [connKeyHasher_eq_of_equal h, he]

theorem find_append : find (t ++ [it]) key =
    (find t key).or (if connKeyEqual it.first key then some it else none) := by
  unfold find
  rw [List.find?_append]
  congr 1
  by_cases he : connKeyEqual it.first key
  · simp [he, connKeyHasher_eq_of_equal he]
  · simp [he]

theorem Keys.append (h : Keys t) (hf : find t it.first = none) : Keys (t ++ [it]) := by
  refine List.pairwise_append.mpr ⟨h, List.pairwise_singleton _ _, fun it₁ h₁ it₂ h₂ => ?_⟩
  rw [List.mem_singleton.mp h₂]
  exact find_none.mp hf it₁ h₁

theorem Keys.sublist {t' : List Node} (h : Keys t) (hs : t'.Sublist t) : Keys t' :=
  List.Pairwise.sublist hs h

/-- Among different keys, a filter keeps the entry of a key or drops it. -/
theorem Keys.find_filter (h : Keys t) (p : Node → Bool) :
    find (t.filter p) key = (find t key).filter p := by
  cases hf : find t key with
  | none =>
      refine find_none.mpr fun it hit => ?_
      exact find_none.mp hf it (List.mem_of_mem_filter hit)
  | some it =>
      obtain ⟨hit, he⟩ := find_some hf
      cases hp : p it with
      | true =>
          rw [Option.filter_some, if_pos hp]
          exact (h.sublist List.filter_sublist).find_of_mem (List.mem_filter.mpr ⟨hit, hp⟩) he
      | false =>
          rw [Option.filter_some, if_neg (by rw [hp]; exact Bool.false_ne_true)]
          refine find_none.mpr fun it' hit' he' => ?_
          obtain ⟨hit', hp'⟩ := List.mem_filter.mp hit'
          rw [h.eq_of_equal hit' hit (connKeyEqual_trans he' (connKeyEqual_symm he)), hp] at hp'
          cases hp'

/-! ### Pointers -/

theorem deref_some (h : deref t a = some it) : it ∈ t ∧ it.addr = a :=
  ⟨List.mem_of_find?_eq_some h, by simpa using List.find?_some h⟩

theorem mem_update : it' ∈ update t a f ↔
    ∃ it ∈ t, it' = if it.addr = a then { it with second := f it.second } else it := by
  simp only [update, List.mem_map, eq_comm]

theorem update_of_mem (h : it ∈ t) (ha : it.addr = a) :
    { it with second := f it.second } ∈ update t a f :=
  mem_update.mpr ⟨it, h, by rw [if_pos ha]⟩

@[simp] theorem map_addr_update : (update t a f).map Node.addr = t.map Node.addr := by
  simp only [update, List.map_map]
  exact List.map_congr_left fun it _ => by dsimp only [Function.comp_apply]; split <;> rfl

@[simp] theorem update_update : update (update t a f) a g = update t a (g ∘ f) := by
  simp only [update, List.map_map]
  refine List.map_congr_left fun it _ => ?_
  by_cases h : it.addr = a <;> simp [h]

/-- A write leaves where a key is found. -/
theorem find_update : find (update t a f) key =
    (find t key).map fun it => if it.addr = a then { it with second := f it.second } else it := by
  unfold find update
  rw [List.find?_map]
  congr 2
  funext it
  dsimp only [Function.comp_apply]
  split <;> rfl

theorem keys_update : Keys (update t a f) ↔ Keys t := by
  rw [Keys, update, List.pairwise_map]
  refine ⟨fun h => h.imp fun {_ _} k => ?_, fun h => h.imp fun {_ _} k => ?_⟩
  · split at k <;> split at k <;> exact k
  · split <;> split <;> exact k

end ConnTable

/-! ### `cleanupFlows` -/

namespace Sys

/-- What `cleanupFlows(false)` erases. -/
def expired (currentTime : Int) (it : Node) : Bool := finished it || idle currentTime it

/-- The `navl_conn_destroy` of an entry. -/
def destroyCall (it : Node) : Event := .connDestroy it.second.handle it.second.dpiState

theorem idle_not_finished {currentTime : Int} {it : Node} (h : idle currentTime it) :
    finished it = false := by
  simp only [idle, Bool.and_eq_true, beq_iff_eq] at h
  simp [finished, h.1]

theorem cleanupLoop_eq (currentTime : Int) (t : List Node) :
    cleanupLoop currentTime t =
      (t.filter fun it => !expired currentTime it, t.filter (expired currentTime),
        (t.filter (idle currentTime)).map destroyCall) := by
  induction t with
  | nil => rfl
  | cons it rest ih =>
      simp only [cleanupLoop, ih, List.filter_cons, expired]
      by_cases hf : finished it
      · have hi : idle currentTime it = false := by
          by_contra h
          rw [Bool.not_eq_false] at h
          rw [idle_not_finished h] at hf
          exact Bool.false_ne_true hf
        simp [hf, hi]
      · by_cases hi : idle currentTime it <;> simp [hf, hi, destroyCall]

theorem finalLoop_eq (t : List Node) : finalLoop t = t.map destroyCall := by
  induction t with
  | nil => rfl
  | cons it rest ih => rw [finalLoop, ih, List.map_cons]; rfl

end Sys
end DistDpi
