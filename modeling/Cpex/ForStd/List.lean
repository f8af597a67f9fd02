import Mathlib.Data.List.Basic
import Mathlib.Data.List.Flatten
import Mathlib.Data.Finset.Insert
import Mathlib.Data.List.Forall2
import Mathlib.Order.Basic

/-! # Loops over lists

A loop that stores results into the slots of a list, in whatever order they arrive, is a fold
of `List.set` over the writes. When no slot is written twice the order does not matter: each
slot holds what was written to it, or its first value. Further, loops that concatenate or
collect what each element gives, a list added to another as a set (`unseen`), and insertion into
the key-sorted entries of a map (`insertKey`). -/

namespace List

variable {α : Type*}

@[simp] theorem length_foldl_set (ws : List (Nat × α)) (l : List α) :
    (ws.foldl (fun l w => l.set w.1 w.2) l).length = l.length := by
  induction ws generalizing l with
  | nil => rfl
  | cons w ws ih => rw [foldl_cons, ih, length_set]

/-- A slot nothing was written to keeps its value. -/
theorem getElem?_foldl_set_of_notMem (ws : List (Nat × α)) (l : List α) (h : i ∉ ws.map Prod.fst) :
    (ws.foldl (fun l w => l.set w.1 w.2) l)[i]? = l[i]? := by
  induction ws generalizing l with
  | nil => rfl
  | cons w ws ih =>
    simp only [map_cons, mem_cons, not_or] at h
    rw [foldl_cons, ih _ h.2, getElem?_set_ne (Ne.symm h.1)]

/-- A slot written once holds the value written to it. -/
theorem getElem?_foldl_set_of_mem (ws : List (Nat × α)) (l : List α)
    (hnodup : (ws.map Prod.fst).Nodup) (hmem : (i, a) ∈ ws) (hi : i < l.length) :
    (ws.foldl (fun l w => l.set w.1 w.2) l)[i]? = some a := by
  induction ws generalizing l with
  | nil => exact nomatch hmem
  | cons w ws ih =>
    simp only [map_cons, nodup_cons] at hnodup
    rw [foldl_cons]
    rcases mem_cons.mp hmem with rfl | hmem
    · -- Later writes go elsewhere, so the value stays.
      rw [getElem?_foldl_set_of_notMem ws _ hnodup.1, getElem?_set_self hi]
    · exact ih _ hnodup.2 hmem (by rwa [length_set])

variable {l : List α}

/-- `findSome?` gives what the first element with a value has. -/
theorem findSome?_eq_some_iff_getElem? {β : Type*} {f : α → Option β} {b : β} :
    l.findSome? f = some b ↔ ∃ (i : Nat) (a : α), l[i]? = some a ∧ f a = some b ∧
      ∀ j < i, ∀ a', l[j]? = some a' → f a' = none := by
  rw [findSome?_eq_some_iff]
  constructor
  · rintro ⟨before, a, after, rfl, hb, hbefore⟩
    refine ⟨before.length, a, by simp, hb, fun j hj a' ha' => ?_⟩
    rw [getElem?_append_left hj] at ha'
    exact hbefore a' (mem_of_getElem? ha')
  · rintro ⟨i, a, ha, hb, hbefore⟩
    obtain ⟨hi, rfl⟩ := getElem?_eq_some_iff.mp ha
    refine ⟨l.take i, l[i], l.drop (i + 1), by simp, hb, fun x hx => ?_⟩
    obtain ⟨j, hj⟩ := mem_iff_getElem?.mp hx
    obtain ⟨hlt, hget⟩ : j < i ∧ l[j]? = some x := by
      rw [getElem?_take] at hj
      split at hj
      · next hlt => exact ⟨hlt, hj⟩
      · exact nomatch hj
    exact hbefore j hlt x hget

/-- The image of an element is a contiguous part of the flattened images. -/
theorem flatMap_run_of_mem {β : Type*} (f : α → List β) (h : a ∈ l) :
    f a <:+: l.flatMap f := by
  obtain ⟨s, t, rfl⟩ := append_of_mem h
  exact ⟨s.flatMap f, t.flatMap f, by simp⟩

/-- Elements whose image is empty can be filtered out. -/
theorem flatMap_filter_of_nil {β : Type*} (f : α → List β) (p : α → Bool) (l : List α)
    (h : ∀ x ∈ l, p x = false → f x = []) : (l.filter p).flatMap f = l.flatMap f := by
  induction l with
  | nil => rfl
  | cons a l ih =>
    have hrest := ih fun x hx => h x (mem_cons_of_mem _ hx)
    cases ha : p a with
    | true => rw [filter_cons_of_pos ha, flatMap_cons, flatMap_cons, hrest]
    | false =>
      rw [filter_cons_of_neg (by simp [ha]), flatMap_cons, h a mem_cons_self ha, nil_append, hrest]

/-- Replacing an element keeps the positions. -/
theorem zipIdx_set : (l.set i a).zipIdx = l.zipIdx.map fun r => if r.2 = i then (a, i) else r := by
  refine ext_getElem? fun j => ?_
  rw [getElem?_zipIdx, getElem?_map, getElem?_zipIdx, getElem?_set]
  by_cases hij : i = j
  · subst hij
    by_cases hlt : i < l.length
    · simp [hlt]
    · simp [hlt]
  · rw [if_neg hij]
    cases l[j]? with
    | none => rfl
    | some b => simp [Ne.symm hij]

/-- Inserting the elements of a list into a set. -/
theorem mem_foldl_insert [DecidableEq α] {s : Finset α} {x : α} :
    x ∈ l.foldl (fun s a => insert a s) s ↔ x ∈ l ∨ x ∈ s := by
  induction l generalizing s with
  | nil => simp
  | cons a l ih =>
    rw [foldl_cons, ih, Finset.mem_insert, mem_cons]
    tauto

/-! ### Adding a list as a set -/

section
variable [DecidableEq α]

/-- The elements of a list that were not seen yet, each once. -/
def unseen (seen : List α) : List α → List α
  | [] => []
  | a :: l => if a ∈ seen then unseen seen l else a :: unseen (a :: seen) l

theorem unseen_sublist (seen l : List α) : unseen seen l <+ l := by
  induction l generalizing seen with
  | nil => exact Sublist.refl _
  | cons a l ih =>
    unfold unseen
    split
    · exact (ih seen).cons a
    · exact (ih (a :: seen)).cons_cons a

theorem mem_unseen {seen l : List α} {x : α} : x ∈ unseen seen l ↔ x ∈ l ∧ x ∉ seen := by
  induction l generalizing seen with
  | nil => simp [unseen]
  | cons a l ih =>
    unfold unseen
    by_cases ha : a ∈ seen
    · rw [if_pos ha, ih, mem_cons]
      grind
    · rw [if_neg ha, mem_cons, ih, mem_cons, mem_cons]
      grind

/-- Leaving out what was seen does not show exactly if it contributes nothing. -/
theorem flatMap_unseen_eq_iff :
    (unseen seen l).flatMap f = l.flatMap f ↔
      ∀ x ∈ l, x ∈ seen ∨ 1 < l.count x → f x = [] := by
  induction l generalizing seen with
  | nil => simp [unseen]
  | cons a l ih =>
    unfold unseen
    by_cases ha : a ∈ seen
    · -- `a` is left out, and what remains is not longer than the rest of the list.
      have hle := ((unseen_sublist seen l).flatMap f).length_le
      have hsplit : (unseen seen l).flatMap f = f a ++ l.flatMap f ↔
          f a = [] ∧ (unseen seen l).flatMap f = l.flatMap f := by
        constructor
        · intro h
          have hlen := congrArg length h
          rw [length_append] at hlen
          have hnil : f a = [] := length_eq_zero_iff.mp (by omega)
          rw [hnil, nil_append] at h
          exact ⟨hnil, h⟩
        · rintro ⟨hnil, h⟩
          rw [hnil, nil_append, h]
      rw [if_pos ha, flatMap_cons, hsplit, ih]
      constructor
      · rintro ⟨hnil, hrest⟩ x hx hdup
        by_cases hxa : x = a
        · rw [hxa, hnil]
        · rw [count_cons_of_ne (Ne.symm hxa)] at hdup
          exact hrest x ((mem_cons.mp hx).resolve_left hxa) hdup
      · intro h
        refine ⟨h a mem_cons_self (.inl ha), fun x hx hdup => h x (mem_cons_of_mem _ hx) ?_⟩
        exact hdup.imp_right fun hlt => Nat.lt_of_lt_of_le hlt (count_le_count_cons)
    · rw [if_neg ha, flatMap_cons, flatMap_cons, append_cancel_left_eq, ih]
      constructor
      · intro h x hx hdup
        by_cases hxa : x = a
        · subst hxa
          rw [count_cons_self] at hdup
          have hmem : x ∈ l := count_pos_iff.mp (by
            have := hdup.resolve_left ha
            omega)
          exact h x hmem (.inl mem_cons_self)
        · rw [count_cons_of_ne (Ne.symm hxa)] at hdup
          exact h x ((mem_cons.mp hx).resolve_left hxa) (hdup.imp_left (mem_cons_of_mem _))
      · intro h x hx hdup
        refine h x (mem_cons_of_mem _ hx) ?_
        rcases hdup with hseen | hlt
        · rcases mem_cons.mp hseen with rfl | hseen
          · rw [count_cons_self]
            have := count_pos_iff.mpr hx
            omega
          · exact .inl hseen
        · exact .inr (Nat.lt_of_lt_of_le hlt count_le_count_cons)

end

variable {p : α → Bool}

theorem findRev?_congr {q : α → Bool} (h : ∀ a ∈ l, p a = q a) : l.findRev? p = l.findRev? q := by
  induction l with
  | nil => rfl
  | cons a l ih =>
    unfold findRev?
    rw [ih fun b hb => h b (mem_cons_of_mem _ hb), h a mem_cons_self]

theorem findRev?_eq_none : l.findRev? p = none ↔ ∀ a ∈ l, ¬ p a = true := by
  simp

/-- The last element found by `p` satisfies `q` exactly if each element found that does not is
    followed by one that does. -/
theorem forall_findRev?_iff {q : α → Prop} :
    (∀ a, l.findRev? p = some a → q a) ↔
      ∀ l₁ a l₂, l = l₁ ++ a :: l₂ → p a = true → ¬ q a → ∃ b ∈ l₂, p b = true ∧ q b := by
  constructor
  · rintro h l₁ a l₂ rfl hp hq
    cases hlast : l₂.findRev? p with
    | none =>
      rw [findRev?_eq_find?_reverse] at h hlast
      exact absurd (h a (by simp [hlast, hp])) hq
    | some b =>
      rw [findRev?_eq_find?_reverse] at h hlast
      refine ⟨b, mem_reverse.mp (mem_of_find?_eq_some hlast), find?_some hlast, ?_⟩
      exact h b (by simp [hlast])
  · intro h a hlast
    rw [findRev?_eq_find?_reverse, find?_eq_some_iff_append] at hlast
    obtain ⟨hp, before, after, hl, hbefore⟩ := hlast
    by_contra hq
    have hsplit : l = after.reverse ++ a :: before.reverse := by
      rw [← reverse_reverse l, hl]
      simp
    obtain ⟨b, hb, hpb, -⟩ := h _ _ _ hsplit hp hq
    have := hbefore b (mem_reverse.mp hb)
    rw [hpb] at this
    exact nomatch this

section

variable {κ β : Type*} [DecidableEq κ]

theorem lookup_cons_ite (k key : κ) (v : β) (entries : List (κ × β)) :
    ((k, v) :: entries).lookup key = if key = k then some v else entries.lookup key := by
  by_cases h : key = k
  · simp [h]
  · rw [lookup_cons, beq_eq_false_iff_ne.mpr h, if_neg h]

variable {entries : List (κ × β)}

theorem mem_of_lookup_eq_some (h : entries.lookup k = some v) :
    (k, v) ∈ entries := by
  obtain ⟨l₁, l₂, rfl, -⟩ := lookup_eq_some_iff.mp h
  exact mem_append_right l₁ mem_cons_self

variable [LT κ] [DecidableLT κ]

/-- Insertion into the entries of a key-sorted map: replaces the entry of `key`, or adds one. -/
def insertKey (key : κ) (value : β) : List (κ × β) → List (κ × β)
  | [] => [(key, value)]
  | (k, v) :: rest =>
    if key = k then (k, value) :: rest
    else if key < k then (key, value) :: (k, v) :: rest
    else (k, v) :: insertKey key value rest

variable {key : κ} {value : β}

theorem eq_or_mem_of_mem_insertKey (h : entry ∈ entries.insertKey key value) :
    entry = (key, value) ∨ entry ∈ entries := by
  induction entries with
  | nil => exact .inl (by simpa [insertKey] using h)
  | cons first rest ih =>
    unfold insertKey at h
    split at h
    · rename_i hkey
      rcases mem_cons.mp h with rfl | h
      · exact .inl (by rw [hkey])
      · exact .inr (mem_cons_of_mem _ h)
    · split at h
      · exact mem_cons.mp h
      · rcases mem_cons.mp h with rfl | h
        · exact .inr mem_cons_self
        · exact (ih h).imp_right (mem_cons_of_mem _)

theorem lookup_insertKey (key k : κ) (value : β) (entries : List (κ × β)) :
    (entries.insertKey key value).lookup k = if k = key then some value else entries.lookup k := by
  induction entries with
  | nil => rw [insertKey, lookup_cons_ite]
  | cons entry rest ih =>
    obtain ⟨a, v⟩ := entry
    unfold insertKey
    split
    · rename_i hkey
      subst hkey
      simp only [lookup_cons_ite]
      split <;> rfl
    · rename_i hkey
      split
      · rw [lookup_cons_ite]
      · rw [lookup_cons_ite, lookup_cons_ite, ih]
        by_cases hk : k = key
        · subst hk
          rw [if_neg hkey, if_pos rfl, if_pos rfl]
        · simp [hk]

/-- Under a new key nothing is replaced. -/
theorem mem_insertKey_of_lookup_eq_none (h : entries.lookup key = none) {entry : κ × β} :
    entry ∈ entries.insertKey key value ↔ entry = (key, value) ∨ entry ∈ entries := by
  refine ⟨eq_or_mem_of_mem_insertKey, ?_⟩
  induction entries with
  | nil => simp [insertKey]
  | cons first rest ih =>
    rw [lookup_cons_ite] at h
    split at h
    · exact nomatch h
    · rename_i hne
      rw [insertKey, if_neg hne]
      split
      · exact mem_cons.mpr
      · rintro (hnew | hold)
        · exact mem_cons_of_mem _ (ih h (.inl hnew))
        · rcases mem_cons.mp hold with rfl | hold
          · exact mem_cons_self
          · exact mem_cons_of_mem _ (ih h (.inr hold))

theorem mem_map_fst_insertKey (h : k ∈ (entries.insertKey key value).map Prod.fst) :
    k = key ∨ k ∈ entries.map Prod.fst := by
  obtain ⟨entry, hentry, rfl⟩ := mem_map.mp h
  exact (eq_or_mem_of_mem_insertKey hentry).imp (congrArg Prod.fst) mem_map_of_mem

/-- The keys are in order, and so distinct. -/
abbrev SortedKeys (l : List (κ × β)) : Prop := (l.map Prod.fst).Pairwise (· < ·)

/-- Insertion keeps the keys sorted. -/
theorem pairwise_insertKey [IsTrans κ (· < ·)] [Std.Trichotomous (α := κ) (· < ·)] (key : κ)
    (value : β) (h : entries.SortedKeys) : (entries.insertKey key value).SortedKeys := by
  induction entries with
  | nil => simp [insertKey, SortedKeys]
  | cons entry rest ih =>
    obtain ⟨hfirst, hrest⟩ := pairwise_cons.mp h
    unfold insertKey
    split
    · exact h
    · rename_i hne
      split
      · rename_i hlt
        refine pairwise_cons.mpr ⟨fun k' hk' => ?_, h⟩
        rcases mem_cons.mp hk' with rfl | hk'
        · exact hlt
        · exact IsTrans.trans _ _ _ hlt (hfirst k' hk')
      · rename_i hnlt
        refine pairwise_cons.mpr ⟨fun k' hk' => ?_, ih hrest⟩
        rcases mem_map_fst_insertKey hk' with rfl | hk'
        · by_contra hnot
          exact hne (Std.Trichotomous.trichotomous _ _ hnlt hnot)
        · exact hfirst k' hk'

end

section

variable {κ β : Type*} [LinearOrder κ]

theorem insertKey_insertKey (key : κ) (a b : β) (entries : List (κ × β)) :
    (entries.insertKey key a).insertKey key b = entries.insertKey key b := by
  induction entries with
  | nil => simp [insertKey]
  | cons entry rest ih => grind [insertKey]

/-- Insertions under different keys commute. -/
theorem insertKey_comm {k l : κ} (h : k ≠ l) (a b : β) (entries : List (κ × β)) :
    (entries.insertKey k a).insertKey l b = (entries.insertKey l b).insertKey k a := by
  induction entries with
  | nil => grind [insertKey]
  | cons entry rest ih => grind [insertKey]

end

section

variable {κ β γ : Type*} [DecidableEq κ]

theorem lookup_eq_none_of_forall_ne {entries : List (κ × β)}
    (h : ∀ k' ∈ entries.map Prod.fst, k ≠ k') : entries.lookup k = none := by
  rw [lookup_eq_none_iff]
  intro entry hentry
  exact bne_iff_ne.mpr (h entry.1 (mem_map_of_mem hentry))

theorem lookup_eq_some_of_mem {entries : List (κ × β)} (hnodup : (entries.map Prod.fst).Nodup)
    {k : κ} {v : β} (h : (k, v) ∈ entries) : entries.lookup k = some v := by
  obtain ⟨before, after, rfl⟩ := append_of_mem h
  refine lookup_eq_some_iff.mpr ⟨before, after, rfl, fun entry hentry => ?_⟩
  rw [map_append, map_cons] at hnodup
  have hdisjoint := (nodup_append.mp hnodup).2.2
  exact bne_iff_ne.mpr (hdisjoint entry.1 (mem_map_of_mem hentry) k mem_cons_self).symm

/-- Maps that are sorted by their keys and have related values under every key have the same
    keys, one by one. -/
theorem forall₂_of_lookup [Preorder κ] {R : β → γ → Prop} {fs : List (κ × β)}
    {gs : List (κ × γ)} (hfs : fs.SortedKeys) (hgs : gs.SortedKeys)
    (h : ∀ k, Option.Rel R (fs.lookup k) (gs.lookup k)) :
    Forall₂ (fun f g => f.1 = g.1 ∧ R f.2 g.2) fs gs := by
  induction fs generalizing gs with
  | nil =>
    cases gs with
    | nil => exact .nil
    | cons g gs =>
      have hkey := h g.1
      rw [lookup_cons_ite, if_pos rfl] at hkey
      exact nomatch hkey
  | cons f fs ih =>
    obtain ⟨k, x⟩ := f
    obtain ⟨hk, hfs'⟩ := pairwise_cons.mp hfs
    cases gs with
    | nil =>
      have hkey := h k
      rw [lookup_cons_ite, if_pos rfl] at hkey
      exact nomatch hkey
    | cons g gs =>
      obtain ⟨l, y⟩ := g
      obtain ⟨hl, hgs'⟩ := pairwise_cons.mp hgs
      -- The least key of one map is a key of the other.
      have hkl : k = l := by
        by_contra hne
        have hink := h k
        have hinl := h l
        rw [lookup_cons_ite, if_pos rfl, lookup_cons_ite, if_neg hne] at hink
        rw [lookup_cons_ite, if_neg (Ne.symm hne), lookup_cons_ite, if_pos rfl] at hinl
        cases hy : gs.lookup k with
        | none => rw [hy] at hink; exact nomatch hink
        | some y' =>
          cases hx : fs.lookup l with
          | none => rw [hx] at hinl; exact nomatch hinl
          | some x' =>
            have hlk := hl k (mem_map_of_mem (mem_of_lookup_eq_some hy))
            have hkl := hk l (mem_map_of_mem (mem_of_lookup_eq_some hx))
            exact lt_asymm hlk hkl
      subst hkl
      have hhead := h k
      rw [lookup_cons_ite, if_pos rfl, lookup_cons_ite, if_pos rfl] at hhead
      cases hhead with
      | some hxy =>
        refine .cons ⟨rfl, hxy⟩ (ih hfs' hgs' fun k' => ?_)
        by_cases hk' : k' = k
        · subst hk'
          rw [lookup_eq_none_of_forall_ne fun _ hm => (hk _ hm).ne,
            lookup_eq_none_of_forall_ne fun _ hm => (hl _ hm).ne]
          exact .none
        · have hrest := h k'
          rwa [lookup_cons_ite, if_neg hk', lookup_cons_ite, if_neg hk'] at hrest

/-- Maps that are sorted by their keys are equal if they have the same values. -/
theorem eq_of_lookup_eq [Preorder κ] {fs gs : List (κ × β)}
    (hfs : fs.SortedKeys) (hgs : gs.SortedKeys)
    (h : ∀ k, fs.lookup k = gs.lookup k) : fs = gs := by
  have hrel : Forall₂ (fun f g => f.1 = g.1 ∧ f.2 = g.2) fs gs := by
    refine forall₂_of_lookup hfs hgs fun k => ?_
    rw [h k]
    cases gs.lookup k with
    | none => exact .none
    | some y => exact .some rfl
  refine forall₂_eq_eq_eq ▸ hrel.imp fun f g hfg => ?_
  exact Prod.ext hfg.1 hfg.2

end

end List
