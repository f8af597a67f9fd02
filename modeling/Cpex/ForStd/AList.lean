import Mathlib.Data.List.AList
import Cpex.ForStd.List

/-! # Maps filled by a sequence of writes

`writes.foldl (fun m w => m.insert w.1 w.2) m`: under each key, the last write wins.
-/

namespace AList

/-- The orders of a map agree on its first entry with `p` exactly if all such entries do. -/
theorem forall_perm_find?_iff {κ α : Type*} {β : κ → Type*} {p : Sigma β → Bool} {f : Sigma β → α}
    {m : AList β} :
    (∀ order : AList β, order.entries.Perm m.entries →
      (order.entries.find? p).map f = (m.entries.find? p).map f) ↔
      ∀ a ∈ m.entries, ∀ b ∈ m.entries, p a = true → p b = true → f a = f b := by
  constructor
  · intro h
    -- An entry with `p` can come first.
    have hfirst : ∀ a ∈ m.entries, p a = true → (m.entries.find? p).map f = some (f a) := by
      intro a ha hp
      obtain ⟨s, t, hst⟩ := List.append_of_mem ha
      have hperm : (a :: (s ++ t)).Perm m.entries := hst ▸ List.perm_middle.symm
      rw [← h ⟨a :: (s ++ t), (List.perm_nodupKeys hperm).mpr m.nodupKeys⟩ hperm,
        List.find?_cons_of_pos hp, Option.map_some]
    intro a ha b hb hpa hpb
    exact Option.some.inj ((hfirst a ha hpa).symm.trans (hfirst b hb hpb))
  · intro h order hperm
    cases hfind : m.entries.find? p with
    | none =>
      rw [List.find?_eq_none.mpr fun a ha =>
        List.find?_eq_none.mp hfind a (hperm.mem_iff.mp ha)]
    | some a =>
      have ha := List.mem_of_find?_eq_some hfind
      have hpa := List.find?_some hfind
      cases hfind' : order.entries.find? p with
      | none => exact absurd hpa (List.find?_eq_none.mp hfind' a (hperm.mem_iff.mpr ha))
      | some b =>
        exact congrArg some (h b (hperm.mem_iff.mp (List.mem_of_find?_eq_some hfind')) a ha
          (List.find?_some hfind') hpa)

variable {κ ν : Type} [DecidableEq κ]

/-- What holds of every entry, and of a new one, holds of every entry then. -/
theorem forall_lookup_insert {β : κ → Type} {m : AList β} {p : ∀ k, β k → Prop} {a : κ} {b : β a}
    (hm : ∀ k v, m.lookup k = some v → p k v) (hb : p a b) :
    ∀ k v, (m.insert a b).lookup k = some v → p k v := by
  intro k v hv
  by_cases heq : k = a
  · subst heq
    rw [lookup_insert] at hv
    cases hv
    exact hb
  · rw [lookup_insert_ne heq] at hv
    exact hm k v hv

variable {ws : List (κ × ν)} {m : AList fun _ : κ => ν} {k : κ}

theorem lookup_foldl_insert_of_forall_ne (h : ∀ w ∈ ws, w.1 ≠ k) :
    (ws.foldl (fun m w => m.insert w.1 w.2) m).lookup k = m.lookup k := by
  induction ws generalizing m with
  | nil => rfl
  | cons w ws ih =>
    rw [List.foldl_cons, ih fun w' hw' => h w' (List.mem_cons_of_mem _ hw'),
      lookup_insert_ne (h w List.mem_cons_self).symm]

theorem mem_of_lookup_foldl_insert
    (h : (ws.foldl (fun m w => m.insert w.1 w.2) (∅ : AList fun _ => ν)).lookup k = some v) :
    (k, v) ∈ ws := by
  induction ws using List.reverseRecOn with
  | nil => exact nomatch h
  | append_singleton ws w ih =>
    rw [List.foldl_append, List.foldl_cons, List.foldl_nil] at h
    by_cases hk : k = w.1
    · subst hk
      rw [lookup_insert] at h
      cases h
      exact List.mem_append_right _ List.mem_cons_self
    · rw [lookup_insert_ne hk] at h
      exact List.mem_append_left _ (ih h)

theorem exists_lookup_foldl_insert (h : ∃ w ∈ ws, w.1 = k) :
    ∃ v, (k, v) ∈ ws ∧ (ws.foldl (fun m w => m.insert w.1 w.2) m).lookup k = some v := by
  induction ws generalizing m with
  | nil => obtain ⟨w, hw, _⟩ := h; exact nomatch hw
  | cons w ws ih =>
    by_cases hlater : ∃ w' ∈ ws, w'.1 = k
    · obtain ⟨v, hmem, hv⟩ := ih (m := m.insert w.1 w.2) hlater
      exact ⟨v, List.mem_cons_of_mem _ hmem, hv⟩
    · -- The write at the head is the last one under `k`.
      push Not at hlater
      obtain ⟨w', hw', rfl⟩ := h
      rcases List.mem_cons.mp hw' with rfl | hw'
      · refine ⟨w'.2, List.mem_cons_self, ?_⟩
        rw [List.foldl_cons, lookup_foldl_insert_of_forall_ne hlater, lookup_insert]
      · exact absurd rfl (hlater w' hw')

/-- Writes under distinct keys. -/
theorem lookup_foldl_insert_of_nodup (h : (ws.map Prod.fst).Nodup) (m : AList fun _ : κ => ν)
    (k : κ) :
    (ws.foldl (fun m w => m.insert w.1 w.2) m).lookup k = (ws.lookup k).or (m.lookup k) := by
  induction ws generalizing m with
  | nil => rfl
  | cons w ws ih =>
    obtain ⟨hnot, hnodup⟩ := List.nodup_cons.mp h
    obtain ⟨k', v⟩ := w
    rw [List.foldl_cons, List.lookup_cons_ite]
    by_cases hk : k = k'
    · subst hk
      have hlater : ∀ w ∈ ws, w.1 ≠ k := by
        intro w hw heq
        exact hnot (List.mem_map.mpr ⟨w, hw, heq⟩)
      rw [lookup_foldl_insert_of_forall_ne hlater, lookup_insert, if_pos rfl]
      rfl
    · rw [ih hnodup, lookup_insert_ne hk, if_neg hk]

/-- `m'` laid over `m`. -/
theorem lookup_foldl_insert_entries {m' : AList fun _ : κ => ν} :
    (m'.entries.foldl (fun m e => m.insert e.1 e.2) m).lookup k =
      (m'.lookup k).or (m.lookup k) := by
  have hfold : ∀ (l : List (Sigma fun _ : κ => ν)) (m : AList fun _ : κ => ν), l.NodupKeys →
      (l.foldl (fun m e => m.insert e.1 e.2) m).lookup k = (l.dlookup k).or (m.lookup k) := by
    intro l
    induction l with
    | nil => intro m _; rfl
    | cons e l ih =>
      intro m hnodup
      obtain ⟨hnot, hnodup⟩ := List.nodupKeys_cons.mp hnodup
      rw [List.foldl_cons, ih _ hnodup]
      by_cases hk : k = e.1
      · subst hk
        rw [lookup_insert, List.dlookup_eq_none.mpr hnot, List.dlookup_cons_eq]
        rfl
      · rw [lookup_insert_ne hk, List.dlookup_cons_ne _ _ hk]
  exact hfold _ m m'.nodupKeys

/-- The entries whose key passes `p`. -/
def filterKeys (p : κ → Bool) (m : AList fun _ : κ => ν) : AList fun _ : κ => ν where
  entries := m.entries.filter fun e => p e.1
  nodupKeys := m.nodupKeys.sublist List.filter_sublist

@[simp] theorem lookup_filterKeys (m : AList fun _ : κ => ν) :
    (m.filterKeys p).lookup k = if p k then m.lookup k else none := by
  have hfilter : ∀ l : List (Sigma fun _ : κ => ν),
      (l.filter fun e => p e.1).dlookup k = if p k then l.dlookup k else none := by
    intro l
    induction l with
    | nil => simp
    | cons e l ih =>
      obtain ⟨a, v⟩ := e
      by_cases hk : k = a
      · subst hk
        by_cases hp : p k <;> simp [hp, ih]
      · have hskip (l : List (Sigma fun _ : κ => ν)) : (⟨a, v⟩ :: l).dlookup k = l.dlookup k :=
          List.dlookup_cons_ne l ⟨a, v⟩ hk
        rw [hskip, ← ih]
        by_cases hp : p a <;> simp [hp, hskip]
  exact hfilter m.entries

/-- The entries that `f` keeps, with the values it gives them. -/
def filterMapValues {ν' : Type} (f : ν → Option ν') (m : AList fun _ : κ => ν) :
    AList fun _ : κ => ν' where
  entries := m.entries.filterMap fun e => (f e.2).map fun v => ⟨e.1, v⟩
  nodupKeys := by
    have hkeys : ∀ l : List (Sigma fun _ : κ => ν), (l.filterMap fun e =>
        (f e.2).map fun v => (⟨e.1, v⟩ : Sigma fun _ : κ => ν')).keys.Sublist l.keys := by
      intro l
      induction l with
      | nil => exact .slnil
      | cons e l ih =>
        cases hf : f e.2 with
        | none => simpa [hf] using ih.cons _
        | some v => simpa [hf] using ih
    exact List.Nodup.sublist (hkeys m.entries) m.nodupKeys

@[simp] theorem lookup_filterMapValues {ν' : Type} (f : ν → Option ν') (m : AList fun _ : κ => ν)
    (k : κ) : (m.filterMapValues f).lookup k = (m.lookup k).bind f := by
  have hlookup : ∀ l : List (Sigma fun _ : κ => ν), l.NodupKeys →
      (l.filterMap fun e => (f e.2).map fun v => (⟨e.1, v⟩ : Sigma fun _ : κ => ν')).dlookup k =
        (l.dlookup k).bind f := by
    intro l
    induction l with
    | nil => exact fun _ => rfl
    | cons e l ih =>
      intro hnodup
      obtain ⟨hnot, hnodup⟩ := List.nodupKeys_cons.mp hnodup
      have hrest := ih hnodup
      obtain ⟨a, v⟩ := e
      by_cases hk : k = a
      · subst hk
        rw [List.dlookup_cons_eq, Option.bind_some]
        rw [List.dlookup_eq_none.mpr hnot] at hrest
        cases hf : f v with
        | none => simpa [hf] using hrest
        | some v' => simp [hf]
      · rw [List.dlookup_cons_ne l ⟨a, v⟩ hk, ← hrest]
        cases hf : f v with
        | none => simp [hf]
        | some v' =>
          rw [List.filterMap_cons_some (by rw [hf]; rfl)]
          exact List.dlookup_cons_ne _ (⟨a, v'⟩ : Sigma fun _ : κ => ν') hk
  exact hlookup m.entries m.nodupKeys

theorem filterMap_lookup_keys (m : AList fun _ : κ => ν) :
    m.keys.filterMap m.lookup = m.entries.map (·.2) := by
  rw [keys, List.keys, List.filterMap_map, ← List.filterMap_eq_map]
  exact List.filterMap_congr fun e he => mem_lookup_iff.mpr he

end AList
