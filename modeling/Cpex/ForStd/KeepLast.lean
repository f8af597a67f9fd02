import Mathlib.Data.List.Pairwise

/-! # Deduplication by key

Of the elements of a list with the same key the last one is kept, where it stands. A list that comes
in blocks is deduplicated block by block, each without the keys of the blocks after it. When the
blocks, deduplicated, are ends of each other, only the longest of them is left, in whatever order
they come.
-/

namespace List

variable {α κ ι : Type*} [DecidableEq κ] (key : α → κ)

/-- The elements of the list with the last one of each key. -/
def keepLast (l : List α) : List α := l.pwFilter fun a b => key a ≠ key b

theorem forall_mem_keepLast (a : α) (l : List α) :
    (∀ b ∈ keepLast key l, key a ≠ key b) ↔ key a ∉ l.map key := by
  rw [keepLast, forall_mem_pwFilter]
  · simp only [mem_map, not_exists, not_and]
    exact forall₂_congr fun b _ => ne_comm
  · intro x y z hxz
    by_cases hxy : key x = key y
    · exact .inr (hxy ▸ hxz)
    · exact .inl hxy

theorem keepLast_cons :
    keepLast key (a :: l) = if key a ∈ l.map key then keepLast key l else a :: keepLast key l := by
  split
  · rename_i h
    exact pwFilter_cons_of_neg fun hall => (forall_mem_keepLast key a l).mp hall h
  · rename_i h
    exact pwFilter_cons_of_pos ((forall_mem_keepLast key a l).mpr h)

theorem keepLast_sublist (l : List α) : keepLast key l <+ l := pwFilter_sublist l

theorem nodup_map_keepLast (l : List α) : ((keepLast key l).map key).Nodup :=
  pairwise_map.mpr (pairwise_pwFilter l)

/-- Every key is kept. -/
@[simp] theorem mem_map_keepLast {l : List α} {k : κ} :
    k ∈ (keepLast key l).map key ↔ k ∈ l.map key := by
  induction l with
  | nil => rfl
  | cons a l ih =>
    rw [keepLast_cons]
    split
    · rename_i h
      rw [ih, map_cons, mem_cons]
      exact ⟨.inr, fun hk => hk.elim (fun heq => heq ▸ h) id⟩
    · rw [map_cons, map_cons, mem_cons, mem_cons, ih]

/-- A part that others follow loses their keys. -/
theorem keepLast_append :
    keepLast key (l ++ l') =
      (keepLast key l).filter (fun a => key a ∉ l'.map key) ++ keepLast key l' := by
  induction l with
  | nil => rfl
  | cons a l ih =>
    rw [cons_append, keepLast_cons, keepLast_cons, ih, map_append]
    by_cases hl : key a ∈ l.map key
    · rw [if_pos (mem_append_left _ hl), if_pos hl]
    · by_cases hl' : key a ∈ l'.map key
      · rw [if_pos (mem_append_right _ hl'), if_neg hl, filter_cons_of_neg (by simpa using hl')]
      · rw [if_neg (by simp [hl, hl']), if_neg hl, filter_cons_of_pos (by simpa using hl'),
          cons_append]

/-- What is left out by its key can be left out before. -/
theorem keepLast_filter (p : κ → Bool) (l : List α) :
    keepLast key (l.filter fun a => p (key a)) = (keepLast key l).filter fun a => p (key a) := by
  induction l with
  | nil => rfl
  | cons a l ih =>
    cases hp : p (key a) with
    | false =>
      rw [filter_cons_of_neg (by simp [hp]), ih, keepLast_cons]
      split
      · rfl
      · rw [filter_cons_of_neg (by simp [hp])]
    | true =>
      have hkey : key a ∈ (l.filter fun a => p (key a)).map key ↔ key a ∈ l.map key := by
        simp only [mem_map, mem_filter]
        constructor
        · rintro ⟨b, ⟨hb, -⟩, heq⟩
          exact ⟨b, hb, heq⟩
        · rintro ⟨b, hb, heq⟩
          exact ⟨b, ⟨hb, by rw [heq, hp]⟩, heq⟩
      rw [filter_cons_of_pos (by simp [hp]), keepLast_cons, keepLast_cons, ih]
      by_cases h : key a ∈ l.map key
      · rw [if_pos h, if_pos (hkey.mpr h)]
      · rw [if_neg h, if_neg fun h' => h (hkey.mp h'), filter_cons_of_pos (by simp [hp])]

/-- The last block is the end of the result. -/
theorem keepLast_suffix_append (l l' : List α) : keepLast key l' <:+ keepLast key (l ++ l') := by
  rw [keepLast_append]
  exact suffix_append _ _

/-- Of two parts of which one ends the other, deduplicated, the longer one is left. -/
theorem keepLast_append_of_suffix {l l' : List α} :
    (keepLast key l <:+ keepLast key l' → keepLast key (l ++ l') = keepLast key l') ∧
      (keepLast key l' <:+ keepLast key l → keepLast key (l ++ l') = keepLast key l) := by
  rw [keepLast_append]
  constructor
  · intro h
    have hnone : (keepLast key l).filter (fun a => key a ∉ l'.map key) = [] := by
      refine filter_eq_nil_iff.mpr fun a ha => ?_
      have hmem : key a ∈ (keepLast key l').map key := mem_map_of_mem (h.subset ha)
      simpa using (mem_map_keepLast key).mp hmem
    rw [hnone, nil_append]
  · rintro ⟨front, hfront⟩
    have hnodup := nodup_map_keepLast key l
    rw [← hfront, map_append, nodup_append] at hnodup
    rw [← hfront, filter_append]
    have hall : front.filter (fun a => key a ∉ l'.map key) = front := by
      refine filter_eq_self.mpr fun a ha => ?_
      have hfresh : key a ∉ (keepLast key l').map key := fun hmem =>
        hnodup.2.2 (key a) (mem_map_of_mem ha) (key a) hmem rfl
      simpa using fun b hb heq => hfresh ((mem_map_keepLast key).mpr (mem_map.mpr ⟨b, hb, heq⟩))
    have hnone : (keepLast key l').filter (fun a => key a ∉ l'.map key) = [] := by
      refine filter_eq_nil_iff.mpr fun a ha => ?_
      have hmem : key a ∈ (keepLast key l').map key := mem_map_of_mem ha
      simpa using (mem_map_keepLast key).mp hmem
    rw [hall, hnone, append_nil]

variable {l : List ι}

/-- Blocks that are ends of one list make an end of it, and each of them is an end of that. -/
theorem keepLast_flatMap_suffix (f : ι → List α) (h : ∀ i ∈ l, keepLast key (f i) <:+ whole) :
    keepLast key (l.flatMap f) <:+ whole ∧
      ∀ i ∈ l, keepLast key (f i) <:+ keepLast key (l.flatMap f) := by
  induction l with
  | nil => exact ⟨nil_suffix, fun i hi => absurd hi not_mem_nil⟩
  | cons i l ih =>
    obtain ⟨hrest, hblocks⟩ := ih fun j hj => h j (mem_cons_of_mem _ hj)
    have hi := h i mem_cons_self
    rw [flatMap_cons]
    rcases suffix_or_suffix_of_suffix hi hrest with hshort | hlong
    · rw [(keepLast_append_of_suffix key).1 hshort]
      exact ⟨hrest, forall_mem_cons.mpr ⟨hshort, hblocks⟩⟩
    · rw [(keepLast_append_of_suffix key).2 hlong]
      exact ⟨hi, forall_mem_cons.mpr ⟨suffix_rfl, fun j hj => (hblocks j hj).trans hlong⟩⟩

/-- Of blocks that are ends of one of them that one is left. -/
theorem keepLast_flatMap_eq (f : ι → List α) (hi : i ∈ l)
    (h : ∀ j ∈ l, keepLast key (f j) <:+ keepLast key (f i)) :
    keepLast key (l.flatMap f) = keepLast key (f i) := by
  obtain ⟨hwhole, hblocks⟩ := keepLast_flatMap_suffix key f h
  exact hwhole.eq_of_length_le (hblocks i hi).length_le

/-- Of blocks that are ends of each other there is a longest one. -/
theorem exists_longest_block (f : ι → List α) (hl : l ≠ [])
    (h : ∀ i ∈ l, ∀ j ∈ l, f i <:+ f j ∨ f j <:+ f i) : ∃ i ∈ l, ∀ j ∈ l, f j <:+ f i := by
  induction l with
  | nil => exact absurd rfl hl
  | cons i l ih =>
    by_cases hnil : l = []
    · subst hnil
      exact ⟨i, mem_cons_self, fun j hj => mem_singleton.mp hj ▸ suffix_rfl⟩
    · obtain ⟨m, hm, hlongest⟩ :=
        ih hnil fun i hi j hj => h i (mem_cons_of_mem _ hi) j (mem_cons_of_mem _ hj)
      rcases h i mem_cons_self m (mem_cons_of_mem _ hm) with him | hmi
      · exact ⟨m, mem_cons_of_mem _ hm, forall_mem_cons.mpr ⟨him, hlongest⟩⟩
      · exact ⟨i, mem_cons_self,
          forall_mem_cons.mpr ⟨suffix_rfl, fun j hj => (hlongest j hj).trans hmi⟩⟩

end List
