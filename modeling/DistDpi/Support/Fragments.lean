import Mathlib.Tactic.Common
import DistDpi.Support.Slices

/-!
# Support — Fragments

Data in fragments, `frags`, in the order in which they make up the whole, `frags.flatten`.
`Region frags offset length j k`: the `length` items from `offset` on are in one fragment, the
`j`th, from its item `k` on.
-/

universe u

namespace Fragments
variable {α : Type u} {frags : List (List α)} {f : List α} {offset length j k : Nat}

/-- The items of the whole from `offset` on are those of the fragment `f`, the `j`th, from `k` on:
`length` of them at least. -/
structure Region (frags : List (List α)) (offset length j k : Nat) (f : List α) : Prop where
  frag : frags[j]? = some f
  offset_eq : (frags.take j).flatten.length + k = offset
  fits : k + length ≤ f.length

theorem Region.mem (h : Region frags offset length j k f) : f ∈ frags := List.mem_of_getElem? h.frag

theorem length_le_of_mem (h : f ∈ frags) : f.length ≤ frags.flatten.length :=
  (List.sublist_flatten_of_mem h).length_le

/-- Fragments that are not empty are no more than the whole has items. -/
theorem length_le_flatten (h : ∀ f ∈ frags, f ≠ []) : frags.length ≤ frags.flatten.length := by
  induction frags with
  | nil => exact Nat.le_refl 0
  | cons f rest ih =>
      have hf := List.length_pos_iff.2 (h f (List.mem_cons_self ..))
      have hrest := ih fun f hf => h f (List.mem_cons_of_mem _ hf)
      rw [List.length_cons, List.flatten_cons, List.length_append]
      omega

/-- The whole: what is before the fragment, the fragment, and what is behind. -/
theorem flatten_split (h : frags[j]? = some f) :
    frags.flatten = (frags.take j).flatten ++ (f ++ (frags.drop (j + 1)).flatten) := by
  obtain ⟨hj, rfl⟩ := List.getElem?_eq_some_iff.mp h
  have hs : frags = frags.take j ++ frags[j] :: frags.drop (j + 1) := by
    rw [List.getElem_cons_drop, List.take_append_drop]
  conv_lhs => rw [hs, List.flatten_append, List.flatten_cons]

/-- What a region at the start points to is the start of the whole. -/
theorem Region.at_start (h : Region frags 0 length j k f) : k = 0 ∧ f <+: frags.flatten := by
  obtain ⟨hlen, rfl⟩ := Nat.add_eq_zero_iff.mp h.offset_eq
  refine ⟨rfl, (frags.drop (j + 1)).flatten, ?_⟩
  rw [flatten_split h.frag, List.length_eq_zero_iff.mp hlen]
  rfl

/-- A region ends inside the whole. -/
theorem Region.le (h : Region frags offset length j k f) :
    offset + length ≤ frags.flatten.length := by
  have hoff := h.offset_eq
  have hfits := h.fits
  rw [flatten_split h.frag, List.length_append, List.length_append]
  omega

/-- From a region on, the whole goes on as the fragment does. -/
theorem Region.drop_flatten (h : Region frags offset length j k f) :
    frags.flatten.drop offset = f.drop k ++ (frags.drop (j + 1)).flatten := by
  have hfits := h.fits
  rw [flatten_split h.frag, ← h.offset_eq, ← List.drop_drop, List.drop_left,
    List.drop_append_of_le_length (by omega)]

/-- **The items of a region** are those of the whole. -/
theorem Region.slice (h : Region frags offset length j k f) :
    (frags.flatten.drop offset).take length = (f.drop k).take length := by
  have hfits := h.fits
  rw [h.drop_flatten, List.take_append_of_le_length (by rw [List.length_drop]; omega)]

/-- A part of a region. -/
theorem Region.sub {d n : Nat} (h : Region frags offset length j k f) (hd : d + n ≤ length) :
    Region frags (offset + d) n j (k + d) f where
  frag := h.frag
  offset_eq := by rw [← Nat.add_assoc, h.offset_eq]
  fits := by
    have := h.fits
    omega

/-- **A write to a region** is a write to the whole. -/
theorem Region.set {ys : List α} (h : Region frags offset ys.length j k f) :
    (frags.set j (Slices.patch f k ys)).flatten = Slices.patch frags.flatten offset ys := by
  have hfits := h.fits
  have hj := (List.getElem?_eq_some_iff.mp h.frag).1
  have hset : (frags.set j (Slices.patch f k ys))[j]? = some (Slices.patch f k ys) :=
    List.getElem?_set_self hj
  have htake : frags.flatten.take offset = (frags.take j).flatten ++ f.take k := by
    rw [flatten_split h.frag, ← h.offset_eq, List.take_length_add_append,
      List.take_append_of_le_length (by omega)]
  have hdrop := (h.sub (d := ys.length) (n := 0) (Nat.le_refl _)).drop_flatten
  rw [flatten_split hset, List.take_set_of_le (Nat.le_refl j),
    List.drop_set_of_lt (Nat.lt_succ_self j),
    Slices.patch, Slices.patch, htake, hdrop]
  simp only [List.append_assoc]

/-- Only one fragment has the item at an offset. -/
theorem Region.unique {length' j' k' : Nat} {f' : List α} (h : Region frags offset length j k f)
    (h' : Region frags offset length' j' k' f') (hl : 0 < length) (hl' : 0 < length') :
    j = j' ∧ k = k' ∧ f = f' := by
  -- the fragments before one that comes later have more items than the offset says
  have le : ∀ {length length' j j' k k' : Nat} {f f' : List α}, Region frags offset length j k f →
      Region frags offset length' j' k' f' → 0 < length → j' ≤ j := by
    intro length length' j j' k k' f f' h h' hl
    by_contra hlt
    have hfits := h.fits
    have hoff := h.offset_eq
    have hoff' := h'.offset_eq
    have hj := (List.getElem?_eq_some_iff.mp h.frag)
    obtain ⟨n, rfl⟩ : ∃ n, j' = j + 1 + n := ⟨j' - (j + 1), by omega⟩
    rw [List.take_add, List.take_add_one, h.frag, List.flatten_append, List.flatten_append] at hoff'
    simp only [Option.toList_some, List.flatten_cons, List.flatten_nil, List.append_nil,
      List.length_append] at hoff'
    omega
  obtain rfl := Nat.le_antisymm (le h' h hl') (le h h' hl)
  have hf := h.frag.symm.trans h'.frag
  cases hf
  have hoff := h.offset_eq
  have hoff' := h'.offset_eq
  exact ⟨rfl, by omega, rfl⟩

theorem Region.exists_iff {P : Nat → Nat → List α → Prop} (h : Region frags offset length j k f)
    (hl : 0 < length) :
    (∃ j' k' f', Region frags offset length j' k' f' ∧ P j' k' f') ↔ P j k f := by
  constructor
  · rintro ⟨j', k', f', h', hP⟩
    obtain ⟨rfl, rfl, rfl⟩ := h.unique h' hl hl
    exact hP
  · exact fun hP => ⟨j, k, f, h, hP⟩

/-- Where one fragment is the whole, every other is empty. -/
theorem eq_of_whole (h : frags.flatten ∈ frags) (hf : f ∈ frags) (hne : f ≠ []) :
    f = frags.flatten := by
  obtain ⟨l₁, l₂, hs⟩ := List.append_of_mem h
  have hlen := congrArg (fun l => l.flatten.length) hs
  simp only [List.flatten_append, List.flatten_cons, List.length_append] at hlen
  have h₁ : l₁.flatten.length = 0 := by omega
  have h₂ : l₂.flatten.length = 0 := by omega
  have empty : ∀ {l : List (List α)}, l.flatten.length = 0 → f ∉ l := by
    intro l hl hm
    have := length_le_of_mem hm
    rw [hl, Nat.le_zero, List.length_eq_zero_iff] at this
    exact hne this
  rw [hs, List.mem_append, List.mem_cons] at hf
  rcases hf with hf | rfl | hf
  · exact absurd hf (empty h₁)
  · rfl
  · exact absurd hf (empty h₂)

/-- A fragment that is the whole is a region at the start. -/
theorem region_of_whole (h : frags.flatten ∈ frags) (hl : length ≤ frags.flatten.length) :
    ∃ j, Region frags 0 length j 0 frags.flatten := by
  obtain ⟨l₁, l₂, hs⟩ := List.append_of_mem h
  have hlen := congrArg (fun l => l.flatten.length) hs
  simp only [List.flatten_append, List.flatten_cons, List.length_append] at hlen
  refine ⟨l₁.length, ?_, ?_, by omega⟩
  · generalize frags.flatten = f at hs
    rw [hs, List.getElem?_append_right (Nat.le_refl _), Nat.sub_self]
    rfl
  · generalize hw : frags.flatten = f at hs hlen
    rw [hs, List.take_left]
    omega

/-! ### Finding a region -/

/-- The fragment that has the item at `offset`, if the next `length` items are in it. -/
def find (length : Nat) : List (List α) → Nat → Option (Nat × Nat × Nat)
  | [], _ => none
  | f :: rest, offset =>
      if offset < f.length then
        if offset + length ≤ f.length then some (0, offset, f.length - offset) else none
      else (find length rest (offset - f.length)).map fun r => (r.1 + 1, r.2)

theorem find_some {left : Nat} (h : find length frags offset = some (j, k, left)) :
    ∃ f, Region frags offset length j k f ∧ left = f.length - k := by
  induction frags generalizing offset j with
  | nil => cases h
  | cons f rest ih =>
      rw [find] at h
      split at h
      · split at h
        · cases h
          exact ⟨f, ⟨rfl, by simp, ‹_›⟩, rfl⟩
        · cases h
      · obtain ⟨⟨j', k', left'⟩, hr, he⟩ := Option.map_eq_some_iff.mp h
        cases he
        obtain ⟨f', hreg, hleft⟩ := ih hr
        refine ⟨f', ⟨hreg.frag, ?_, hreg.fits⟩, hleft⟩
        have := hreg.offset_eq
        simp only [List.take_succ_cons, List.flatten_cons, List.length_append]
        omega

theorem find_none (h : find length frags offset = none) (hl : 0 < length) :
    ¬ Region frags offset length j k f := by
  induction frags generalizing offset j with
  | nil =>
      intro hreg
      cases hreg.frag
  | cons f' rest ih =>
      intro hreg
      have hfits := hreg.fits
      have hoff := hreg.offset_eq
      cases j with
      | zero =>
          cases hreg.frag
          simp only [List.take_zero, List.flatten_nil, List.length_nil, Nat.zero_add] at hoff
          rw [find, if_pos (by omega), if_pos (by omega)] at h
          cases h
      | succ j =>
          simp only [List.take_succ_cons, List.flatten_cons, List.length_append] at hoff
          rw [find, if_neg (by omega), Option.map_eq_none_iff] at h
          exact ih h ⟨hreg.frag, by omega, hfits⟩

/-- Where there is a region, it is found. -/
theorem Region.find_eq (h : Region frags offset length j k f) (hl : 0 < length) :
    find length frags offset = some (j, k, f.length - k) := by
  cases hfind : find length frags offset with
  | none => exact absurd h (find_none hfind hl)
  | some r =>
      obtain ⟨j', k', left⟩ := r
      obtain ⟨f', h', rfl⟩ := find_some hfind
      obtain ⟨rfl, rfl, rfl⟩ := h.unique h' hl hl
      rfl

/-- No items are found at each item. -/
theorem find_zero (h : offset < frags.flatten.length) :
    ∃ j k f, find 0 frags offset = some (j, k, f.length - k) ∧ frags[j]? = some f ∧
      k < f.length := by
  induction frags generalizing offset with
  | nil => exact absurd h (Nat.not_lt_zero _)
  | cons f rest ih =>
      rw [List.flatten_cons, List.length_append] at h
      by_cases hlt : offset < f.length
      · refine ⟨0, offset, f, ?_, rfl, hlt⟩
        rw [find, if_pos hlt, if_pos (by omega)]
      · obtain ⟨j, k, f', hfind, hf, hk⟩ := ih (show offset - f.length < _ by omega)
        refine ⟨j + 1, k, f', ?_, hf, hk⟩
        rw [find, if_neg hlt, hfind, Option.map_some]

/-- Behind the last item nothing is found. -/
theorem find_end (h : frags.flatten.length ≤ offset) : find length frags offset = none := by
  induction frags generalizing offset with
  | nil => rfl
  | cons f rest ih =>
      rw [List.flatten_cons, List.length_append] at h
      rw [find, if_neg (by omega), ih (by omega), Option.map_none]

end Fragments
