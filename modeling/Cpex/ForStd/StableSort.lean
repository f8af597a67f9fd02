import Mathlib.Data.List.Find
import Mathlib.Data.List.Sort

/-! # Stable sorting by a key

A list that is sorted by a key is determined by its elements of each key, in their order. Insertion
sort keeps those, so it is the only stable sort, and what it does after a filter, after an append or
after another sort can be read off the elements of each key.
-/

namespace List

variable {α κ : Type*} [LinearOrder κ] (key : α → κ)

/-- Sort by the key. -/
abbrev sortByKey (l : List α) : List α := l.insertionSort fun a b => key a ≤ key b

theorem pairwise_sortByKey (l : List α) : (l.sortByKey key).Pairwise fun a b => key a ≤ key b :=
  pairwise_insertionSort _ l

/-- Among the elements of its key an inserted element comes first. -/
theorem filter_key_orderedInsert :
    (l.orderedInsert (fun a b => key a ≤ key b) a).filter (fun b => key b = k) =
      (a :: l).filter fun b => key b = k := by
  induction l with
  | nil => rfl
  | cons b l ih =>
    rw [orderedInsert]
    split
    · rfl
    · rename_i hlt
      -- What it passes by has a smaller key.
      have hne : key b ≠ key a := (not_le.mp hlt).ne
      rw [filter_cons, ih, filter_cons, filter_cons, filter_cons]
      by_cases ha : key a = k
      · have hb : key b ≠ k := fun hb => hne (hb.trans ha.symm)
        simp [ha, hb]
      · simp [ha]

/-- Sorting keeps the order among the elements of one key. -/
theorem filter_key_sortByKey (l : List α) (k : κ) :
    (l.sortByKey key).filter (fun b => key b = k) = l.filter fun b => key b = k := by
  induction l with
  | nil => rfl
  | cons a l ih =>
    rw [sortByKey, insertionSort_cons, filter_key_orderedInsert, filter_cons, filter_cons, ih]

/-- A sorted list is determined by its elements of each key. -/
theorem eq_of_sorted_of_filter_key {l l' : List α} (h : l.Pairwise fun a b => key a ≤ key b)
    (h' : l'.Pairwise fun a b => key a ≤ key b)
    (hfilter : ∀ k, l.filter (fun a => key a = k) = l'.filter fun a => key a = k) : l = l' := by
  induction l generalizing l' with
  | nil =>
    cases l' with
    | nil => rfl
    | cons b l' =>
      have hb := hfilter (key b)
      rw [filter_cons_of_pos (by simp)] at hb
      cases hb
  | cons a l ih =>
    cases l' with
    | nil =>
      have ha := hfilter (key a)
      rw [filter_cons_of_pos (by simp)] at ha
      cases ha
    | cons b l' =>
      have hle {c d : α} {m : List α} (hm : (c :: m).Pairwise fun a b => key a ≤ key b)
          (hd : d ∈ c :: m) : key c ≤ key d := by
        rcases mem_cons.mp hd with rfl | hd
        · exact le_refl _
        · exact (pairwise_cons.mp hm).1 d hd
      -- Each head is in the other list, so they have the same key.
      have hmem : a ∈ b :: l' := mem_of_mem_filter (hfilter (key a) ▸
        mem_filter.mpr ⟨mem_cons_self, by simp⟩)
      have hmem' : b ∈ a :: l := mem_of_mem_filter ((hfilter (key b)).symm ▸
        mem_filter.mpr ⟨mem_cons_self, by simp⟩)
      have hkey : key a = key b := le_antisymm (hle h hmem') (hle h' hmem)
      have hheads := hfilter (key a)
      rw [filter_cons_of_pos (by simp), filter_cons_of_pos (by simp [hkey])] at hheads
      obtain rfl : a = b := (cons.inj hheads).1
      refine congrArg (a :: ·) (ih (pairwise_cons.mp h).2 (pairwise_cons.mp h').2 fun k => ?_)
      have hk := hfilter k
      rw [filter_cons, filter_cons] at hk
      split at hk
      · exact (cons.inj hk).2
      · exact hk

/-- A sort by the key is the one list that is sorted and keeps the order of equal keys. -/
theorem eq_sortByKey {l l' : List α} (h : l.Pairwise fun a b => key a ≤ key b)
    (hfilter : ∀ k, l.filter (fun a => key a = k) = l'.filter fun a => key a = k) :
    l = l'.sortByKey key :=
  eq_of_sorted_of_filter_key key h (pairwise_sortByKey key l') fun k =>
    (hfilter k).trans (filter_key_sortByKey key l' k).symm

/-- What is sorted already need not be sorted before more is added. -/
theorem sortByKey_append (l l' : List α) :
    (l.sortByKey key ++ l').sortByKey key = (l ++ l').sortByKey key := by
  refine eq_sortByKey key (pairwise_sortByKey key _) fun k => ?_
  rw [filter_key_sortByKey, filter_append, filter_append, filter_key_sortByKey]

theorem sortByKey_sortByKey (l : List α) :
    (l.sortByKey key).sortByKey key = l.sortByKey key := by
  simpa using sortByKey_append key l []

/-- A filter can come before the sort. -/
theorem filter_sortByKey (p : α → Bool) (l : List α) :
    (l.sortByKey key).filter p = (l.filter p).sortByKey key := by
  refine eq_sortByKey key ((pairwise_sortByKey key l).filter p) fun k => ?_
  rw [filter_filter, filter_filter]
  simp only [Bool.and_comm _ (p _)]
  rw [← filter_filter, filter_key_sortByKey, filter_filter]

end List
