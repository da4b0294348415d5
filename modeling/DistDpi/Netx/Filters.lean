import DistDpi.Support.Machine
import Mathlib.Data.List.Perm.Basic
import Mathlib.Data.List.Nodup

/-!
# Netx — filters

The filters of `netx_sample_service.c` and their list: `CreateFilter`, `ConfigurationChanged` and
`DestroyFilter`, the callbacks of DVFilterLib, with `LookupFilter` and the search of
`CliChannelEvent`, which go through the list.

A filter is known by its address.  What DVFilterLib answers to the queries of the callbacks, and
where `calloc` puts a filter, are arguments.  A filter that is freed and used, and a failed
`ASSERT`, leave no result.
-/

namespace DistDpi

/-- `DVFilterStatus`. -/
inductive DVFilterStatus where
  | ok | error
  deriving DecidableEq, Repr

/-- `DVFilterEndPointType`. -/
inductive DVFilterEndPointType where
  | vnic | other
  deriving DecidableEq, Repr

abbrev FilterPtr := Nat

/-- `FILTER_MAGIC`. -/
def filterMagic : UInt32 := 0x57465644

def filternameMaxlen : Nat := 100

def maxVcUuidLen : Nat := 128

/-- `filterListSize`. -/
def filterListSize : Nat := 100

/-- The string in the first `n` bytes of `s`. -/
def cstr (n : Nat) (s : List UInt8) : List UInt8 := (s.take n).takeWhile (· ≠ 0)

/-- `memcpy(dst + at_, src, src.length)`. -/
def copyBytes (dst : List UInt8) (at_ : Nat) (src : List UInt8) : Option (List UInt8) :=
  if at_ + src.length ≤ dst.length then
    some (dst.take at_ ++ src ++ dst.drop (at_ + src.length))
  else none

/-- `filter`, less its `state`. -/
structure Filter where
  magic : UInt32
  handle : Nat
  filterName : List UInt8
  vcUUID : List UInt8
  endPointType : DVFilterEndPointType
  vNicIndex : UInt32
  deriving DecidableEq, Repr

/-- What DVFilterLib answers to `UpdateFilterConfiguration`; `none` where the query fails. -/
structure FilterConfiguration where
  endPointType : Option DVFilterEndPointType
  vcUUID : Option (List UInt8)
  vNicIndex : Option UInt32
  deriving DecidableEq, Repr

/-- `UpdateFilterConfiguration`. -/
def updateFilterConfiguration (answer : FilterConfiguration) (f : Filter) : Option Filter := do
  let endPointType ← answer.endPointType
  some { f with
    endPointType
    vcUUID := answer.vcUUID.getD f.vcUUID
    vNicIndex := answer.vNicIndex.getD f.vNicIndex }

/-- The filters that are allocated, and `filterList`. -/
structure Registry where
  heap : List (FilterPtr × Filter)
  filterList : List FilterPtr
  filterListCount : Nat
  deriving DecidableEq, Repr

namespace Registry

/-- The filters created and not yet destroyed. -/
def live (s : Registry) : List FilterPtr := s.heap.map Prod.fst

/-- `*f`. -/
def deref (s : Registry) (f : FilterPtr) : Option Filter := s.heap.lookup f

/-- `filterList[0..filterListCount)`. -/
def listed (s : Registry) : List FilterPtr := s.filterList.take s.filterListCount

/-- `CreateFilter`.  `calloc` puts the filter at `f`, and `DVFilter_GetName` answers `filterName`;
`failedFilterName` stays the null string. -/
def createFilter (s : Registry) (f : Option FilterPtr) (handle : Nat) (filterName : List UInt8)
    (answer : FilterConfiguration) : Option (DVFilterStatus × Registry) :=
  match f with
  | none => some (.error, s)
  | some f =>
      if cstr filternameMaxlen filterName = [] then some (.error, s)
      else do
        let impl ← updateFilterConfiguration answer
          { magic := filterMagic, handle, filterName, vcUUID := [], endPointType := .vnic,
            vNicIndex := 0 }
        let s := { s with heap := (f, impl) :: s.heap }
        -- one place before the list is full: not stored, and no error
        if s.filterListCount + 1 = filterListSize then some (.ok, s)
        else if s.filterListCount < s.filterList.length then
          some (.ok, { s with
            filterList := s.filterList.set s.filterListCount f
            filterListCount := s.filterListCount + 1 })
        -- a store past the list
        else none

/-- `ConfigurationChanged`. -/
def configurationChanged (s : Registry) (f : FilterPtr) (answer : FilterConfiguration) :
    Option Registry := do
  let impl ← s.deref f
  if impl.magic = filterMagic then
    let impl ← updateFilterConfiguration answer impl
    some { s with heap := s.heap.map fun e => if e.1 = f then (f, impl) else e }
  else none

/-- The loop of `DestroyFilter`: wherever `f` is, the last of the list takes its place. -/
def destroyLoop (f : FilterPtr) (count : Nat) (filterList : List FilterPtr) : List FilterPtr :=
  (List.range count).foldl (fun l i =>
    if l[i]? = some f then l.set i (l.getD (count - 1) 0) else l) filterList

/-- `DestroyFilter`. -/
def destroyFilter (s : Registry) (f : FilterPtr) : Option Registry := do
  let impl ← s.deref f
  if impl.magic = filterMagic ∧ 0 < s.filterListCount then
    let filterList := if s.filterListCount > 1 then
        destroyLoop f s.filterListCount s.filterList
      else s.filterList
    -- counted down whether the loop has met `f` or not
    some
      { heap := s.heap.filter fun e => e.1 != f
        filterList
        filterListCount := s.filterListCount - 1 }
  else none

/-- The first of `fs` that `match_` accepts.  A filter that is freed cannot be looked at. -/
def search (s : Registry) (match_ : Filter → Bool) : List FilterPtr → Option (Option FilterPtr)
  | [] => some none
  | f :: fs => do
      let impl ← s.deref f
      if match_ impl then some (some f) else search s match_ fs

/-- What `LookupFilter` compares. -/
def lookupMatch (vcUUID : List UInt8) (vNicIndex : UInt32) (f : Filter) : Bool :=
  cstr maxVcUuidLen f.vcUUID = cstr maxVcUuidLen vcUUID ∧ f.vNicIndex = vNicIndex

/-- What `CliChannelEvent` compares. -/
def cliMatch (filterName : List UInt8) (f : Filter) : Bool :=
  cstr filternameMaxlen f.filterName = cstr filternameMaxlen filterName

/-- `LookupFilter`. -/
def lookupFilter (s : Registry) (vcUUID : List UInt8) (vNicIndex : UInt32) :
    Option (Option FilterPtr) :=
  s.search (lookupMatch vcUUID vNicIndex) s.listed

/-- The search of `CliChannelEvent`. -/
def cliSearch (s : Registry) (filterName : List UInt8) : Option (Option FilterPtr) :=
  s.search (cliMatch filterName) s.listed

/-- The callbacks, as DVFilterLib makes them. -/
inductive Act where
  | createFilter (f : Option FilterPtr) (handle : Nat) (filterName : List UInt8)
      (answer : FilterConfiguration)
  | configurationChanged (f : FilterPtr) (answer : FilterConfiguration)
  | destroyFilter (f : FilterPtr)
  deriving DecidableEq, Repr

/-- A callback that returns.  `calloc` gives memory that is not in use; a filter that is not live
is not passed. -/
def step (s : Registry) : Act → Option Registry
  | .createFilter f handle filterName answer =>
      if ∀ p ∈ f, p ∉ s.live then (s.createFilter f handle filterName answer).map Prod.snd else none
  | .configurationChanged f answer =>
      if f ∈ s.live then s.configurationChanged f answer else none
  | .destroyFilter f => if f ∈ s.live then s.destroyFilter f else none

def machine : Machine Registry Act := ⟨step⟩

/-- `start_netx_service`: what `malloc` left in the list is `cells`. -/
def start (cells : List FilterPtr) : Registry where
  heap := []
  filterList := cells
  filterListCount := 0

/-! ### What the list must be -/

/-- A search for `match_` that answers `r` finds what is live, and only that. -/
def Finds (s : Registry) (match_ : Filter → Bool) (r : Option (Option FilterPtr)) : Prop :=
  ∃ q, r = some q ∧ (∀ f ∈ q, ∃ impl, s.deref f = some impl ∧ match_ impl) ∧
    (q = none → ∀ f impl, s.deref f = some impl → ¬ match_ impl)

/-- The list has the live filters, each once; every one of them can be destroyed, and found. -/
structure Registered (s : Registry) : Prop where
  count : s.listed.length = s.filterListCount
  nodup : s.listed.Nodup
  mem_iff : ∀ f, f ∈ s.listed ↔ f ∈ s.live
  destroys : ∀ f ∈ s.live, (s.destroyFilter f).isSome
  lookup : ∀ vcUUID vNicIndex,
    s.Finds (lookupMatch vcUUID vNicIndex) (s.lookupFilter vcUUID vNicIndex)
  cli : ∀ filterName, s.Finds (cliMatch filterName) (s.cliSearch filterName)

/-- `filterList` has its size, and the filters that are allocated are distinct and sound. -/
structure Sound (s : Registry) : Prop where
  size : s.filterList.length = filterListSize
  nodup : s.live.Nodup
  magic : ∀ e ∈ s.heap, e.2.magic = filterMagic

/-- A filter that is created is not the one for the last place of the list. -/
def HasRoom (s : Registry) : Act → Prop
  | .createFilter (some _) _ filterName _ =>
      cstr filternameMaxlen filterName = [] ∨ s.live.length + 1 ≠ filterListSize
  | _ => True

instance (s : Registry) : ∀ a, Decidable (s.HasRoom a)
  | .createFilter (some _) _ _ _ => inferInstanceAs (Decidable (_ ∨ _))
  | .createFilter none _ _ _ | .configurationChanged _ _ | .destroyFilter _ => isTrue trivial

section
variable {s s' : Registry} {f : FilterPtr} {impl : Filter} {fs : List FilterPtr}
  {match_ : Filter → Bool} {answer : FilterConfiguration}

/-! ### Filters -/

theorem deref_isSome : (s.deref f).isSome ↔ f ∈ s.live := by
  simp [deref, live, List.lookup_isSome_iff]

theorem mem_live_of_deref (h : s.deref f = some impl) : f ∈ s.live := by
  rw [← deref_isSome, h]
  rfl

theorem deref_mem (h : s.deref f = some impl) : (f, impl) ∈ s.heap := by
  obtain ⟨l₁, l₂, hl, -⟩ := List.lookup_eq_some_iff.mp h
  rw [hl]
  simp

theorem exists_deref (h : f ∈ s.live) : ∃ impl, s.deref f = some impl :=
  Option.isSome_iff_exists.mp (deref_isSome.mpr h)

theorem updateFilterConfiguration_magic {impl' : Filter}
    (h : updateFilterConfiguration answer impl = some impl') : impl'.magic = impl.magic := by
  obtain ⟨endPointType, -, h⟩ := Option.bind_eq_some_iff.mp h
  cases h
  rfl

/-! ### The searches -/

/-- What a search finds is accepted. -/
theorem search_some (h : s.search match_ fs = some (some f)) :
    f ∈ fs ∧ ∃ impl, s.deref f = some impl ∧ match_ impl := by
  induction fs with
  | nil => cases h
  | cons g fs ih =>
      obtain ⟨impl, himpl, h⟩ := Option.bind_eq_some_iff.mp h
      split at h
      · cases h
        exact ⟨List.mem_cons_self .., impl, himpl, ‹_›⟩
      · obtain ⟨hmem, hacc⟩ := ih h
        exact ⟨List.mem_cons_of_mem _ hmem, hacc⟩

/-- Where a search finds nothing, nothing is accepted. -/
theorem search_none (h : s.search match_ fs = some none) :
    ∀ f ∈ fs, ∀ impl, s.deref f = some impl → ¬ match_ impl := by
  induction fs with
  | nil => simp
  | cons g fs ih =>
      obtain ⟨impl, himpl, h⟩ := Option.bind_eq_some_iff.mp h
      split at h
      · cases h
      · intro f hf impl' himpl'
        rcases List.mem_cons.mp hf with rfl | hf
        · cases himpl.symm.trans himpl'
          assumption
        · exact ih h f hf impl' himpl'

/-- A search through filters that are live has an answer. -/
theorem search_answers (match_ : Filter → Bool) (h : ∀ f ∈ fs, f ∈ s.live) :
    ∃ q, s.search match_ fs = some q := by
  induction fs with
  | nil => exact ⟨none, rfl⟩
  | cons f fs ih =>
      obtain ⟨impl, himpl⟩ := exists_deref (h f (List.mem_cons_self ..))
      rw [search, himpl, Option.bind_eq_bind, Option.bind_some]
      split
      · exact ⟨some f, rfl⟩
      · exact ih fun g hg => h g (List.mem_cons_of_mem _ hg)

theorem finds_search (h : ∀ f, f ∈ s.listed ↔ f ∈ s.live) :
    s.Finds match_ (s.search match_ s.listed) := by
  obtain ⟨q, hq⟩ := search_answers match_ fun f hf => (h f).mp hf
  refine ⟨q, hq, ?_, ?_⟩
  · rintro f rfl
    exact (search_some hq).2
  · rintro rfl f impl himpl
    exact search_none hq f ((h f).mpr (mem_live_of_deref himpl)) impl himpl

/-! ### The list -/

/-- The list is right where it is the live filters in some order. -/
theorem registered_iff (hs : s.Sound) :
    s.Registered ↔ s.filterListCount ≤ filterListSize ∧ s.listed.Perm s.live := by
  constructor
  · intro h
    have hcount := h.count
    rw [listed, List.length_take, hs.size] at hcount
    exact ⟨by omega, (List.perm_ext_iff_of_nodup h.nodup hs.nodup).mpr h.mem_iff⟩
  · rintro ⟨hcount, hperm⟩
    have hlen : s.listed.length = s.filterListCount := by
      rw [listed, List.length_take, hs.size, Nat.min_eq_left hcount]
    refine ⟨hlen, hperm.nodup_iff.mpr hs.nodup, fun f => hperm.mem_iff, ?_,
      fun _ _ => finds_search fun f => hperm.mem_iff, fun _ => finds_search fun f => hperm.mem_iff⟩
    intro f hf
    obtain ⟨impl, himpl⟩ := exists_deref hf
    have hpos : 0 < s.filterListCount := by
      rw [← hlen, hperm.length_eq]
      exact List.length_pos_of_mem hf
    have hmagic : impl.magic = filterMagic := hs.magic _ (deref_mem himpl)
    simp only [destroyFilter, himpl, Option.bind_eq_bind, Option.bind_some, hmagic, hpos, and_self,
      if_true, Option.isSome_some]

theorem Registered.length (hs : s.Sound) (h : s.Registered) :
    s.filterListCount = s.live.length := by
  rw [← h.count, ((registered_iff hs).mp h).2.length_eq]

/-- `f`, which the list loses, gives its place to the last. -/
def replace (f last g : FilterPtr) : FilterPtr := if g = f then last else g

/-- One turn of the loop, at the first place of `g :: tail`. -/
theorem destroyLoop_turn (f last g : FilterPtr) (init tail : List FilterPtr) :
    (if (init ++ g :: tail)[init.length]? = some f then (init ++ g :: tail).set init.length last
      else init ++ g :: tail) = init ++ replace f last g :: tail := by
  have hat : (init ++ g :: tail)[init.length]? = some g := by simp
  have hset : (init ++ g :: tail).set init.length last = init ++ last :: tail := by simp
  rw [hat, hset, replace]
  by_cases hg : g = f
  · rw [if_pos (congrArg some hg), if_pos hg]
  · rw [if_neg fun h => hg (Option.some.inj h), if_neg hg]

/-- What the loop has done after the first `k` places. -/
theorem destroyLoop_take {last : FilterPtr} {init tail : List FilterPtr} {k : Nat}
    (hk : k ≤ init.length) :
    (List.range k).foldl (fun l i =>
        if l[i]? = some f then l.set i (l.getD init.length 0) else l) (init ++ last :: tail) =
      (init.take k).map (replace f last) ++ (init.drop k ++ last :: tail) := by
  induction k with
  | zero => rfl
  | succ k ih =>
      have hlen : ((init.take k).map (replace f last)).length = k := by
        rw [List.length_map, List.length_take]
        omega
      have hlast : ((init.take k).map (replace f last) ++ (init.drop k ++ last :: tail)).getD
          init.length 0 = last := by
        rw [List.getD_eq_getElem?_getD, List.getElem?_append_right (by omega), hlen,
          List.getElem?_append_right (by simp), List.length_drop, Nat.sub_self]
        rfl
      have hturn := destroyLoop_turn f last init[k] ((init.take k).map (replace f last))
        (init.drop (k + 1) ++ last :: tail)
      rw [hlen] at hturn
      rw [List.range_succ, List.foldl_concat, ih (by omega), hlast, List.drop_eq_getElem_cons hk,
        List.cons_append, hturn, List.take_succ_eq_append_getElem hk, List.map_append,
        List.append_assoc]
      rfl

theorem destroyLoop_length {count : Nat} {cells : List FilterPtr} :
    (destroyLoop f count cells).length = cells.length := by
  unfold destroyLoop
  generalize List.range count = is
  induction is generalizing cells with
  | nil => rfl
  | cons i is ih =>
      rw [List.foldl_cons, ih]
      split
      · exact List.length_set ..
      · rfl

/-- The loop leaves the last of the list where it is. -/
theorem destroyLoop_eq {last : FilterPtr} {init tail : List FilterPtr} :
    destroyLoop f (init.length + 1) (init ++ last :: tail) =
      init.map (replace f last) ++ last :: tail := by
  rw [destroyLoop, Nat.add_sub_cancel, List.range_succ, List.foldl_concat,
    destroyLoop_take (Nat.le_refl _), List.take_length, List.drop_length, List.nil_append]
  have hturn := destroyLoop_turn f last last (init.map (replace f last)) tail
  have hlast : (init.map (replace f last) ++ last :: tail).getD init.length 0 = last := by
    rw [List.getD_eq_getElem?_getD, List.getElem?_append_right (by simp), List.length_map,
      Nat.sub_self]
    rfl
  rw [List.length_map] at hturn
  rw [hlast, hturn, replace, ite_self]

/-- What is left of the list, without its last place, has lost `f`. -/
theorem map_replace_perm {last : FilterPtr} {init : List FilterPtr} (hnodup : (init ++ [last]).Nodup)
    (hf : f ∈ init ++ [last]) : (init.map (replace f last)).Perm ((init ++ [last]).erase f) := by
  have keeps : ∀ l : List FilterPtr, f ∉ l → l.map (replace f last) = l := by
    intro l hl
    conv_rhs => rw [← List.map_id l]
    apply List.map_congr_left
    intro g hg
    exact if_neg (ne_of_mem_of_not_mem hg hl)
  by_cases hinit : f ∈ init
  · obtain ⟨l₁, l₂, rfl⟩ := List.append_of_mem hinit
    have hout := (List.nodup_cons.mp (List.nodup_middle.mp hnodup.of_append_left)).1
    rw [List.mem_append, not_or] at hout
    rw [List.map_append, List.map_cons, keeps l₁ hout.1, keeps l₂ hout.2, List.append_assoc,
      List.erase_append_right _ hout.1, List.cons_append, List.erase_cons_head, replace, if_pos rfl]
    exact (List.perm_append_singleton last l₂).symm.append_left l₁
  · have hlast : f = last := by
      simpa [hinit] using hf
    rw [keeps init hinit, List.erase_append_right _ hinit, hlast, List.erase_cons_head,
      List.append_nil]

/-! ### The callbacks -/

/-- The filter `impl` at `f`, and the list as it was. -/
def alloc (s : Registry) (f : FilterPtr) (impl : Filter) : Registry :=
  { s with heap := (f, impl) :: s.heap }

/-- `f` at the end of the list. -/
def store (s : Registry) (f : FilterPtr) : Registry :=
  { s with
    filterList := s.filterList.set s.filterListCount f
    filterListCount := s.filterListCount + 1 }

/-- What `CreateFilter` can do. -/
theorem createFilter_cases {p : Option FilterPtr} {handle : Nat} {filterName : List UInt8}
    {status : DVFilterStatus} (h : s.createFilter p handle filterName answer = some (status, s')) :
    (s' = s ∧ (p = none ∨ cstr filternameMaxlen filterName = [])) ∨
    ∃ f impl, p = some f ∧ cstr filternameMaxlen filterName ≠ [] ∧ impl.magic = filterMagic ∧
      ((s.filterListCount + 1 = filterListSize ∧ s' = s.alloc f impl) ∨
        (s.filterListCount + 1 ≠ filterListSize ∧ s.filterListCount < s.filterList.length ∧
          s' = (s.alloc f impl).store f)) := by
  unfold createFilter at h
  cases p with
  | none =>
      cases h
      exact Or.inl ⟨rfl, Or.inl rfl⟩
  | some f =>
      dsimp only at h
      split at h
      · cases h
        exact Or.inl ⟨rfl, Or.inr ‹_›⟩
      · obtain ⟨impl, himpl, h⟩ := Option.bind_eq_some_iff.mp h
        refine Or.inr ⟨f, impl, rfl, ‹_›, updateFilterConfiguration_magic himpl, ?_⟩
        split at h
        · cases h
          exact Or.inl ⟨‹_›, rfl⟩
        · split at h
          · cases h
            exact Or.inr ⟨‹_›, ‹_›, rfl⟩
          · cases h

/-- What `ConfigurationChanged` does. -/
theorem configurationChanged_cases (h : s.configurationChanged f answer = some s') :
    ∃ impl, impl.magic = filterMagic ∧
      s' = { s with heap := s.heap.map fun e => if e.1 = f then (f, impl) else e } := by
  obtain ⟨impl₀, -, h⟩ := Option.bind_eq_some_iff.mp h
  split at h
  · obtain ⟨impl, himpl, h⟩ := Option.bind_eq_some_iff.mp h
    cases h
    exact ⟨impl, (updateFilterConfiguration_magic himpl).trans ‹_›, rfl⟩
  · cases h

/-- What `DestroyFilter` does. -/
theorem destroyFilter_cases (h : s.destroyFilter f = some s') :
    0 < s.filterListCount ∧ s' =
      { heap := s.heap.filter fun e => e.1 != f
        filterList := if s.filterListCount > 1 then
            destroyLoop f s.filterListCount s.filterList
          else s.filterList
        filterListCount := s.filterListCount - 1 } := by
  obtain ⟨impl, -, h⟩ := Option.bind_eq_some_iff.mp h
  split at h
  · cases h
    exact ⟨(‹_ ∧ _› : _ ∧ _).2, rfl⟩
  · cases h

theorem live_configurationChanged {f : FilterPtr} {heap : List (FilterPtr × Filter)} :
    (heap.map fun e => if e.1 = f then (f, impl) else e).map Prod.fst = heap.map Prod.fst := by
  rw [List.map_map]
  apply List.map_congr_left
  intro e _
  dsimp only [Function.comp_apply]
  split
  · exact Eq.symm ‹_›
  · rfl

theorem live_destroyFilter (hs : s.Sound) :
    (s.heap.filter fun e => e.1 != f).map Prod.fst = s.live.erase f := by
  rw [hs.nodup.erase_eq_filter, live, List.filter_map]
  rfl

/-- The list of a registry that is right, but for its last place. -/
theorem listed_destroy (h : s.Registered) (hf : f ∈ s.live) :
    ((if s.filterListCount > 1 then destroyLoop f s.filterListCount s.filterList
      else s.filterList).take (s.filterListCount - 1)).Perm (s.listed.erase f) := by
  have hlen := h.count
  have hne : s.listed ≠ [] := List.ne_nil_of_mem ((h.mem_iff f).mpr hf)
  obtain ⟨init, last, hinit⟩ : ∃ init last, s.listed = init ++ [last] :=
    ⟨_, _, (List.dropLast_append_getLast hne).symm⟩
  have hcount : s.filterListCount = init.length + 1 := by
    rw [← hlen, hinit, List.length_append, List.length_singleton]
  have hcells : s.filterList = init ++ last :: s.filterList.drop s.filterListCount := by
    rw [List.append_cons, ← hinit, listed, List.take_append_drop]
  have hnodup := h.nodup
  have hmem := (h.mem_iff f).mpr hf
  rw [hinit] at hnodup hmem
  have hperm := map_replace_perm hnodup hmem
  rw [hinit, hcount, Nat.add_sub_cancel]
  split
  · rw [hcells, destroyLoop_eq, List.take_left' (List.length_map ..)]
    exact hperm
  · have hnil : init = [] := List.length_eq_zero_iff.mp (by omega)
    subst hnil
    exact hperm

theorem Sound.step (hs : s.Sound) {a : Act} (h : machine.step s a = some s') : s'.Sound := by
  cases a with
  | createFilter p handle filterName answer =>
      obtain ⟨hfresh, h⟩ := Option.ite_none_right_eq_some.mp h
      obtain ⟨⟨status, s₁⟩, hc, rfl⟩ := Option.map_eq_some_iff.mp h
      obtain ⟨rfl, -⟩ | ⟨f, impl, rfl, -, hmagic, h⟩ := createFilter_cases hc
      · exact hs
      · have hnew : (s.alloc f impl).Sound := by
          refine ⟨hs.size, List.nodup_cons.mpr ⟨hfresh f rfl, hs.nodup⟩, ?_⟩
          intro e he
          rcases List.mem_cons.mp he with rfl | he
          · exact hmagic
          · exact hs.magic e he
        obtain ⟨-, rfl⟩ | ⟨-, -, rfl⟩ := h
        · exact hnew
        · exact ⟨(List.length_set ..).trans hs.size, hnew.nodup, hnew.magic⟩
  | configurationChanged f answer =>
      obtain ⟨-, h⟩ := Option.ite_none_right_eq_some.mp h
      obtain ⟨impl, hmagic, rfl⟩ := configurationChanged_cases h
      refine ⟨hs.size, ?_, ?_⟩
      · rw [live, live_configurationChanged]
        exact hs.nodup
      · intro e he
        obtain ⟨e₀, he₀, rfl⟩ := List.mem_map.mp he
        split
        · exact hmagic
        · exact hs.magic e₀ he₀
  | destroyFilter f =>
      obtain ⟨-, h⟩ := Option.ite_none_right_eq_some.mp h
      obtain ⟨-, rfl⟩ := destroyFilter_cases h
      refine ⟨?_, ?_, ?_⟩
      · dsimp only
        split
        · rw [destroyLoop_length, hs.size]
        · exact hs.size
      · rw [live, live_destroyFilter hs]
        exact hs.nodup.erase f
      · intro e he
        exact hs.magic e (List.mem_of_mem_filter he)

/-- A callback keeps the list right exactly where there is room. -/
theorem registered_step (hs : s.Sound) (hr : s.Registered) {a : Act}
    (h : machine.step s a = some s') : s'.Registered ↔ s.HasRoom a := by
  have hs' := hs.step h
  obtain ⟨hcount, hperm⟩ := (registered_iff hs).mp hr
  rw [registered_iff hs']
  cases a with
  | createFilter p handle filterName answer =>
      obtain ⟨hfresh, h⟩ := Option.ite_none_right_eq_some.mp h
      obtain ⟨⟨status, s₁⟩, hc, rfl⟩ := Option.map_eq_some_iff.mp h
      obtain ⟨rfl, hno⟩ | ⟨f, impl, rfl, hname, -, h⟩ := createFilter_cases hc
      · refine ⟨fun _ => ?_, fun _ => ⟨hcount, hperm⟩⟩
        rcases hno with rfl | hno
        · trivial
        · cases p with
          | none => trivial
          | some f => exact Or.inl hno
      · -- the filter is created: it is found exactly where it is stored
        have hroom : s.HasRoom (.createFilter (some f) handle filterName answer) ↔
            s.filterListCount + 1 ≠ filterListSize := by
          rw [HasRoom, or_iff_right hname, hr.length hs]
        rw [hroom]
        obtain ⟨hfull, rfl⟩ | ⟨hfull, hlt, rfl⟩ := h
        · -- the filter is live, and not in the list
          refine ⟨fun hok => ?_, fun h => absurd hfull h⟩
          have hlen := hok.2.length_eq.symm.trans hperm.length_eq
          exact absurd hlen (Nat.succ_ne_self _)
        · refine ⟨fun _ => hfull, fun _ => ⟨?_, ?_⟩⟩
          · rw [hs.size] at hlt
            exact hlt
          · have hstore : ((s.alloc f impl).store f).listed = s.listed ++ [f] := by
              rw [listed, listed, store, alloc, List.take_add_one, List.take_set_of_le (Nat.le_refl _),
                List.getElem?_set_self hlt]
              rfl
            rw [hstore]
            exact (List.perm_append_singleton f s.listed).trans (hperm.cons f)
  | configurationChanged f answer =>
      obtain ⟨-, h⟩ := Option.ite_none_right_eq_some.mp h
      obtain ⟨impl, -, rfl⟩ := configurationChanged_cases h
      refine ⟨fun _ => trivial, fun _ => ⟨hcount, ?_⟩⟩
      rw [live, live_configurationChanged]
      exact hperm
  | destroyFilter f =>
      obtain ⟨hf, h⟩ := Option.ite_none_right_eq_some.mp h
      obtain ⟨-, rfl⟩ := destroyFilter_cases h
      refine ⟨fun _ => trivial, fun _ => ⟨Nat.le_trans (Nat.sub_le _ _) hcount, ?_⟩⟩
      rw [live, live_destroyFilter hs]
      exact (listed_destroy hr hf).trans (hperm.erase f)

end

/-- **The registry.**  From `start_netx_service` on, the list is right after every callback exactly
where no filter is created for its last place. -/
theorem filters_registered {cells : List FilterPtr} (hcells : cells.length = filterListSize)
    {as : List Act} {s : Registry} (h : machine.Run (start cells) as s) :
    machine.Throughout Registered (start cells) as ↔ machine.Along HasRoom (start cells) as := by
  have hs : (start cells).Sound := ⟨hcells, List.nodup_nil, by simp [start]⟩
  have hr : (start cells).Registered :=
    (registered_iff hs).mpr ⟨Nat.zero_le _, List.Perm.refl _⟩
  exact Machine.throughout_iff_along (fun s a s' hs _ => hs.step)
    (fun s a s' hs hr => registered_step hs hr) h hs hr

/-- The creation of the filter at `f`, on a virtual NIC. -/
def create (f : FilterPtr) : Act := .createFilter (some f) f [102] ⟨some .vnic, none, none⟩

theorem filters_registered_two :
    machine.Throughout Registered (start (List.replicate 100 0))
      [create 1, create 2, .destroyFilter 1, .destroyFilter 2] :=
  (filters_registered (List.length_replicate ..) (Machine.run_of_exec (by decide))).mpr (by decide)

theorem not_filters_registered : ¬ ∀ (cells : List FilterPtr), cells.length = filterListSize →
    ∀ (as : List Act) (s : Registry), machine.Run (start cells) as s →
      machine.Throughout Registered (start cells) as := by
  intro h
  have hcells : (List.replicate filterListSize 0).length = filterListSize := List.length_replicate ..
  have hrun : machine.Run (start (List.replicate filterListSize 0)) ((List.range 100).map create) _ :=
    Machine.run_of_exec (by decide +kernel)
  have hmem := ((h _ hcells _ _ hrun).last hrun |>.mem_iff 99).mpr
  revert hmem
  decide +kernel

end Registry

end DistDpi
