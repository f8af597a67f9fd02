import Cpex.Spec.JsonValues

/-! # The three-way merge of projections

`apply_changed_paths` walks the entries of `post` and edits `base` as it goes. Key by key it is the
merge `mergeKey`: what `post` has dropped goes, what `post` has not changed is `base`'s, and what
changed is merged further down where all three are maps and is `post`'s value otherwise. From that
equation the laws of the merge follow by induction on a path.

A map that `base` no longer has is where the merge gives more than the changes: `post`'s map is
taken whole, with the entries that did not change, and at the root even if nothing changed.
-/

namespace Cpex.Core

open Json

/-! ### One key -/

/-- The merge of what three maps have under one key. -/
def mergeKey (base pre post : Option Json) : Option Json :=
  match pre, post with
  | none, none => base
  | some _, none => none
  | none, some postValue => some postValue
  | some preValue, some postValue =>
    if preValue.eq postValue then base
    else
      match base with
      | some (.object baseMap) =>
        if preValue.isObject && postValue.isObject then
          some (applyChangedPaths (.object baseMap) preValue postValue)
        else some postValue
      | _ => some postValue

section
variable (pre base post : List (String × Json)) (k key : String) (postValue : Json)

theorem lookup_removeOmitted :
    (removeOmitted pre post base).lookup k =
      if (pre.lookup k).isSome = true ∧ post.lookup k = none then none else base.lookup k := by
  unfold removeOmitted
  induction pre generalizing base with
  | nil => simp
  | cons field pre ih =>
    obtain ⟨l, v⟩ := field
    rw [List.foldl_cons, ih, List.lookup_cons_ite]
    by_cases hk : k = l
    · subst hk
      cases hpost : post.lookup k with
      | none => simp
      | some w => simp
    · have hbase : (if (post.lookup l).isSome = true then base
          else removeField l base).lookup k = base.lookup k := by
        split
        · rfl
        · rw [lookup_removeField, if_neg hk]
      simp only [hbase, if_neg hk]

/-- The edit of `base` in one iteration of the loop over the entries of `post`. -/
def mergePostEntry (pre base : List (String × Json)) (key : String) (postValue : Json) :
    List (String × Json) :=
  match pre.lookup key with
  | some preValue =>
    if preValue.eq postValue then base
    else
      match base.lookup key with
      | some (.object baseMap) =>
        if preValue.isObject && postValue.isObject then
          insertField key (applyChangedPaths (.object baseMap) preValue postValue) base
        else insertField key postValue base
      | _ => insertField key postValue base
  | none => insertField key postValue base

theorem applyChangedFields_cons :
    applyChangedFields pre base ((key, postValue) :: post) =
      applyChangedFields pre (mergePostEntry pre base key postValue) post := by
  rfl

/-- An iteration leaves the map or writes under its key. -/
theorem mergePostEntry_cases :
    (mergePostEntry pre base key postValue = base ∧
        mergeKey (base.lookup key) (pre.lookup key) (some postValue) = base.lookup key) ∨
      ∃ v, mergePostEntry pre base key postValue = insertField key v base ∧
        mergeKey (base.lookup key) (pre.lookup key) (some postValue) = some v := by
  unfold mergePostEntry mergeKey
  cases pre.lookup key with
  | none => exact .inr ⟨postValue, rfl, rfl⟩
  | some preValue =>
    dsimp only
    by_cases heq : preValue.eq postValue = true
    · rw [if_pos heq, if_pos heq]
      exact .inl ⟨rfl, rfl⟩
    · rw [if_neg heq, if_neg heq]
      split
      · split
        · exact .inr ⟨_, rfl, rfl⟩
        · exact .inr ⟨_, rfl, rfl⟩
      · exact .inr ⟨postValue, rfl, rfl⟩

theorem lookup_mergePostEntry :
    (mergePostEntry pre base key postValue).lookup k =
      if k = key then mergeKey (base.lookup key) (pre.lookup key) (some postValue)
      else base.lookup k := by
  rcases mergePostEntry_cases pre base key postValue with ⟨hentry, hkey⟩ | ⟨v, hentry, hkey⟩
  · rw [hentry, hkey]
    split
    · rename_i hk; rw [hk]
    · rfl
  · rw [hentry, hkey, lookup_insertField]

/-- The loop over the entries of `post`, key by key. -/
theorem lookup_applyChangedFields (hpost : (post.map Prod.fst).Nodup) :
    (applyChangedFields pre base post).lookup k =
      match post.lookup k with
      | none => base.lookup k
      | some postValue => mergeKey (base.lookup k) (pre.lookup k) (some postValue) := by
  induction post generalizing base with
  | nil => simp [applyChangedFields]
  | cons field post ih =>
    obtain ⟨l, postValue⟩ := field
    obtain ⟨hl, hrest⟩ := List.nodup_cons.mp hpost
    rw [applyChangedFields_cons, ih _ hrest, List.lookup_cons_ite, lookup_mergePostEntry]
    by_cases hk : k = l
    · subst hk
      have hnone : post.lookup k = none :=
        List.lookup_eq_none_of_forall_ne fun k' hk' heq => hl (heq ▸ hk')
      simp only [hnone, if_true]
    · simp only [if_neg hk]

/-- Merging maps keeps the keys of `base` in order. -/
theorem pairwise_keys_applyChangedFields (hbase : base.SortedKeys) :
    (applyChangedFields pre base post).SortedKeys := by
  induction post generalizing base with
  | nil => simpa [applyChangedFields] using hbase
  | cons field post ih =>
    rw [applyChangedFields_cons]
    refine ih _ ?_
    rcases mergePostEntry_cases pre base field.1 field.2 with ⟨hentry, -⟩ | ⟨v, hentry, -⟩
    · rwa [hentry]
    · rw [hentry]
      exact pairwise_keys_insertField _ _ hbase

theorem pairwise_keys_removeOmitted (hbase : base.SortedKeys) :
    (removeOmitted pre post base).SortedKeys := by
  unfold removeOmitted
  induction pre generalizing base with
  | nil => exact hbase
  | cons field pre ih =>
    rw [List.foldl_cons]
    refine ih _ ?_
    split
    · exact hbase
    · exact pairwise_keys_removeField _ hbase

end

/-- The merge under a key that both `pre` and `post` have. -/
theorem mergeKey_some_cases (base : Option Json) (u v : Json) :
    (u.eq v = true ∧ mergeKey base (some u) (some v) = base) ∨
      (u.eq v = false ∧ ∃ baseMap, base = some (.object baseMap) ∧
        u.isObject = true ∧ v.isObject = true ∧
        mergeKey base (some u) (some v) = some (applyChangedPaths (.object baseMap) u v)) ∨
      (u.eq v = false ∧ mergeKey base (some u) (some v) = some v ∧
        ¬∃ baseMap, base = some (.object baseMap) ∧ u.isObject = true ∧ v.isObject = true) := by
  unfold mergeKey
  cases heq : u.eq v with
  | true => exact .inl ⟨rfl, if_pos heq⟩
  | false =>
    refine .inr ?_
    dsimp only
    rw [if_neg (by simp [heq])]
    split
    · rename_i baseMap
      split
      · rename_i hobjects
        obtain ⟨hu, hv⟩ := Bool.and_eq_true_iff.mp hobjects
        exact .inl ⟨rfl, baseMap, rfl, hu, hv, rfl⟩
      · rename_i hobjects
        refine .inr ⟨rfl, rfl, ?_⟩
        rintro ⟨_, -, hu, hv⟩
        exact hobjects (Bool.and_eq_true_iff.mpr ⟨hu, hv⟩)
    · rename_i hbase
      refine .inr ⟨rfl, rfl, ?_⟩
      rintro ⟨baseMap, rfl, -⟩
      exact hbase baseMap rfl

/-! ### Maps -/

theorem applyChangedPaths_object :
    applyChangedPaths (.object base) (.object pre) (.object post) =
      .object (applyChangedFields pre (removeOmitted pre post base) post) := by
  rw [applyChangedPaths]

variable {base : Json}

/-- Where there is no map to merge into, `post` is taken whole. -/
theorem applyChangedPaths_of_base_not_object (hbase : base.isObject = false)
    (pre post : List (String × Json)) :
    applyChangedPaths base (.object pre) (.object post) = .object post := by
  cases base with
  | object fields => exact nomatch hbase
  | _ => rw [applyChangedPaths]; exact nofun

variable {pre post : Json}

/-- Where `pre` and `post` are not both maps, the value changed or it did not. -/
theorem applyChangedPaths_of_not_objects (base : Json)
    (h : pre.isObject = false ∨ post.isObject = false) :
    applyChangedPaths base pre post = if pre.eq post = true then base else post := by
  cases post with
  | object postMap =>
    have hpre : pre.isObject = false := h.resolve_right (by simp [isObject])
    cases pre with
    | object preMap => exact nomatch hpre
    | _ => simp [applyChangedPaths, Json.eq]
  | _ => rw [applyChangedPaths]; exact nofun

/-- The merge of maps, key by key. -/
theorem child_applyChangedPaths (base pre : List (String × Json)) {post : List (String × Json)}
    (hpost : (post.map Prod.fst).Nodup) (k : String) :
    (applyChangedPaths (.object base) (.object pre) (.object post)).child (.key k) =
      mergeKey (base.lookup k) (pre.lookup k) (post.lookup k) := by
  rw [applyChangedPaths_object, child, lookup_applyChangedFields _ _ _ _ hpost, lookup_removeOmitted]
  cases hq : post.lookup k with
  | none => cases pre.lookup k <;> simp [mergeKey]
  | some postValue => simp

/-- The three shapes of a merge. -/
theorem applyChangedPaths_cases (base pre post : Json) :
    ((pre.isObject = false ∨ post.isObject = false) ∧
        applyChangedPaths base pre post = if pre.eq post = true then base else post) ∨
      (pre.isObject = true ∧ post.isObject = true ∧ base.isObject = false ∧
        applyChangedPaths base pre post = post) ∨
      ∃ b p q, base = .object b ∧ pre = .object p ∧ post = .object q := by
  cases pre with
  | object p =>
    cases post with
    | object q =>
      cases hbase : base.isObject with
      | false =>
        exact .inr (.inl ⟨rfl, rfl, rfl, applyChangedPaths_of_base_not_object hbase p q⟩)
      | true =>
        cases base with
        | object b => exact .inr (.inr ⟨b, p, q, rfl, rfl, rfl⟩)
        | _ => exact nomatch hbase
    | _ => exact .inl ⟨.inr rfl, applyChangedPaths_of_not_objects base (.inr rfl)⟩
  | _ => exact .inl ⟨.inl rfl, applyChangedPaths_of_not_objects base (.inl rfl)⟩

/-! ### Changed paths -/

variable {path : List PathStep}

/-- Where `post` has no map and differs from `pre`, the result has what `post` has: its scalar or
    array, or nothing. -/
theorem valueAt_applyChangedPaths_of_changed (hpost : post.wellFormed = true)
    (hleaf : ∀ w, post.valueAt path = some w → w.isObject = false)
    (hchanged : ¬Agree (pre.valueAt path) (post.valueAt path)) :
    (applyChangedPaths base pre post).valueAt path = post.valueAt path := by
  induction path generalizing base pre post with
  | nil =>
    rw [applyChangedPaths_of_not_objects base (.inr (hleaf post rfl)), if_neg]
    exact fun heq => hchanged (.some heq)
  | cons step path ih =>
    rcases applyChangedPaths_cases base pre post with
      ⟨-, hmerged⟩ | ⟨-, -, -, hmerged⟩ | ⟨b, p, q, rfl, rfl, rfl⟩
    · rw [hmerged, if_neg]
      exact fun heq => hchanged (agree_valueAt_of_eq heq _)
    · rw [hmerged]
    · -- All three are maps, so the path goes on under a key.
      cases step with
      | index i => exact absurd .none hchanged
      | key k =>
        simp only [valueAt_cons, child_applyChangedPaths _ _ (nodup_keys hpost)] at hchanged hleaf ⊢
        simp only [child] at hchanged hleaf ⊢
        cases hu : p.lookup k with
        | none =>
          cases hv : q.lookup k with
          | none => rw [hu, hv] at hchanged; exact absurd .none hchanged
          | some v => rfl
        | some u =>
          cases hv : q.lookup k with
          | none => rfl
          | some v =>
            rw [hv] at hleaf
            rw [hu, hv] at hchanged
            rcases mergeKey_some_cases (b.lookup k) u v with
              ⟨heq, -⟩ | ⟨-, baseMap, -, -, -, hmerged⟩ | ⟨-, hmerged, -⟩
            · exact absurd (agree_valueAt_of_eq heq path) hchanged
            · rw [hmerged]
              exact ih (wellFormed_of_lookup hpost hv) hleaf hchanged
            · rw [hmerged]

/-! ### The merge laws -/

/-- When nobody else edited the value, the merge gives `post`. -/
theorem applyChangedPaths_self_left (post : Json) : ∀ pre : Json, pre.wellFormed = true →
    post.wellFormed = true → (applyChangedPaths pre pre post).eq post = true := by
  -- Where `pre` and `post` are not both maps, either is the result.
  have hscalar {pre post : Json} (hpost : post.wellFormed = true)
      (h : pre.isObject = false ∨ post.isObject = false) :
      (applyChangedPaths pre pre post).eq post = true := by
    rw [applyChangedPaths_of_not_objects pre h]
    split
    · assumption
    · exact eq_refl post hpost
  induction post using object_induction with
  | hleaf post hleaf => exact fun pre _ hpost => hscalar hpost (.inr hleaf)
  | hobject q ih =>
    intro pre hpre hpost
    cases pre with
    | object p =>
      have hkeys := (wellFormed_object.mp hpost).1
      have hlookup := child_applyChangedPaths p p (nodup_keys hpost)
      refine eqFields_of_lookup (pairwise_keys_applyChangedFields _ _ _
        (pairwise_keys_removeOmitted _ _ _ (wellFormed_object.mp hpre).1)) hkeys fun k => ?_
      rw [show (applyChangedFields p (removeOmitted p q p) q).lookup k = _ from hlookup k]
      cases hu : p.lookup k with
      | none =>
        cases hv : q.lookup k with
        | none => exact .none
        | some v => exact .some (eq_refl v (wellFormed_of_lookup hpost hv))
      | some u =>
        cases hv : q.lookup k with
        | none => exact .none
        | some v =>
          have hvwf := wellFormed_of_lookup hpost hv
          rcases mergeKey_some_cases (some u) u v with
            ⟨heq, hmerged⟩ | ⟨-, baseMap, hbase, -, -, hmerged⟩ | ⟨-, hmerged, -⟩
          · rw [hmerged]
            exact .some heq
          · cases hbase
            rw [hmerged]
            exact .some (ih (k, v) (List.mem_of_lookup_eq_some hv) _
              (wellFormed_of_lookup hpre hu) hvwf)
          · rw [hmerged]
            exact .some (eq_refl v hvwf)
    | _ => exact hscalar hpost (.inl rfl)

/-- Maps in which nothing changed leave the map they are merged into. -/
theorem applyChangedFields_of_unchanged {pre post : List (String × Json)}
    (h : ∀ k v, (k, v) ∈ post → ∃ u, pre.lookup k = some u ∧ u.eq v = true)
    (base : List (String × Json)) : applyChangedFields pre base post = base := by
  induction post with
  | nil => rw [applyChangedFields]
  | cons field post ih =>
    obtain ⟨k, v⟩ := field
    obtain ⟨u, hu, heq⟩ := h k v List.mem_cons_self
    have hentry : mergePostEntry pre base k v = base := by
      simp only [mergePostEntry, hu, heq, if_true]
    rw [applyChangedFields_cons, hentry]
    exact ih fun k' v' hmem => h k' v' (List.mem_cons_of_mem _ hmem)

theorem removeOmitted_of_subset {pre post : List (String × Json)}
    (h : ∀ field ∈ pre, (post.lookup field.1).isSome = true) (base : List (String × Json)) :
    removeOmitted pre post base = base := by
  unfold removeOmitted
  induction pre with
  | nil => rfl
  | cons field pre ih =>
    rw [List.foldl_cons, if_pos (h field List.mem_cons_self)]
    exact ih fun field' hmem => h field' (List.mem_cons_of_mem _ hmem)

/-- An editor that changed nothing leaves the other's value, except that a map is restored where
    the other editor has none. -/
theorem applyChangedPaths_self_right_iff (hpre : pre.wellFormed = true) (base : Json) :
    applyChangedPaths base pre pre = base ↔ (pre.isObject = true → base.isObject = true) := by
  rcases applyChangedPaths_cases base pre pre with
    ⟨hobject, hmerged⟩ | ⟨hobject, -, hbase, hmerged⟩ | ⟨b, p, q, rfl, rfl, heq⟩
  · rw [hmerged, if_pos (eq_refl pre hpre)]
    simp_all
  · rw [hmerged]
    constructor
    · rintro rfl
      exact id
    · intro h
      rw [h hobject] at hbase
      exact nomatch hbase
  · have hself {k : String} {v : Json} (hmem : (k, v) ∈ p) : p.lookup k = some v :=
      List.lookup_eq_some_of_mem (nodup_keys hpre) hmem
    rw [applyChangedPaths_object, removeOmitted_of_subset, applyChangedFields_of_unchanged]
    · simp [isObject]
    · exact fun k v hmem =>
        ⟨v, hself hmem, eq_refl v (wellFormed_of_lookup hpre (hself hmem))⟩
    · intro field hmem
      rw [hself hmem]
      rfl

/-- The laws of the merge, for any three values: merged into `pre` it gives `post`; an editor that
    changed nothing leaves `base`; a scalar or array of `post` that differs from `pre` is in the
    result, and what `pre` has and `post` has not is not. They hold exactly if `base` is still a
    map where `pre` is one. -/
theorem applyChangedPaths_laws_iff (base pre post : Json) (hpre : pre.wellFormed = true)
    (hpost : post.wellFormed = true) :
    ((applyChangedPaths pre pre post).eq post = true ∧
      applyChangedPaths base pre pre = base ∧
      (∀ path w, post.valueAt path = some w → w.isObject = false →
        ¬Agree (pre.valueAt path) (some w) →
          (applyChangedPaths base pre post).valueAt path = some w) ∧
      ∀ path, (pre.valueAt path).isSome = true → post.valueAt path = none →
        (applyChangedPaths base pre post).valueAt path = none) ↔
      (pre.isObject = true → base.isObject = true) := by
  rw [← applyChangedPaths_self_right_iff hpre base]
  refine ⟨fun h => h.2.1, fun hbase => ⟨applyChangedPaths_self_left post pre hpre hpost, hbase,
    fun path w hw hleaf hchanged => ?_, fun path hsome homitted => ?_⟩⟩
  · rw [← hw] at hchanged ⊢
    refine valueAt_applyChangedPaths_of_changed hpost (fun w' hw' => ?_) hchanged
    cases hw.symm.trans hw'
    exact hleaf
  · rw [← homitted]
    refine valueAt_applyChangedPaths_of_changed hpost (fun w' hw' => ?_) ?_
    · exact nomatch homitted.symm.trans hw'
    · rw [homitted]
      intro hagree
      cases hp : pre.valueAt path with
      | none => rw [hp] at hsome; exact nomatch hsome
      | some u => rw [hp] at hagree; exact nomatch hagree

/-- Nothing changed in a tool call's arguments, which a plugin has replaced by a notice: the
    arguments come back. -/
theorem applyChangedPaths_restores_map :
    applyChangedPaths (.string "[REDACTED]") (.object [("ssn", .string "123-45-6789")])
        (.object [("ssn", .string "123-45-6789")]) =
      .object [("ssn", .string "123-45-6789")] := by
  rw [applyChangedPaths]
  exact nofun

/-- A plugin renamed the user, the pipeline dropped the number: the result has both edits. -/
theorem applyChangedPaths_laws_user :
    let base : Json := .object [("name", .string "alice"), ("ssn", .string "123")]
    let pre : Json := .object [("name", .string "bob"), ("ssn", .string "123")]
    let post : Json := .object [("name", .string "bob")]
    (applyChangedPaths base pre post).valueAt [.key "ssn"] = none :=
  ((applyChangedPaths_laws_iff _ _ _ (by decide +kernel) (by decide +kernel)).mpr
    fun _ => rfl).2.2.2 [.key "ssn"] (by decide +kernel) rfl

/-! ### Lost values -/

/-- The merge takes what `post` has at `path` whole: a map that `base` does not have there any
    more and that changed (or is the root), or an array that changed. -/
def TakenWhole (base pre post : Json) (path : List PathStep) : Prop :=
  ∃ u v, pre.valueAt path = some u ∧ post.valueAt path = some v ∧
    ((u.isObject = true ∧ (∀ b, base.valueAt path = some b → b.isObject = false) ∧
        (path = [] ∨ u.eq v = false)) ∨
      (u.isObject = false ∧ u.eq v = false))

/-- What is taken whole changed, the root map apart. -/
theorem TakenWhole.changed (h : TakenWhole base pre post path)
    (hroot : path = [] → pre.isObject = false) : ¬Agree (pre.valueAt path) (post.valueAt path) := by
  intro hagree
  obtain ⟨u, v, hu, hv, htaken⟩ := h
  have huv := hagree.eq hu hv
  rcases htaken with ⟨hobject, -, rfl | hne⟩ | ⟨-, hne⟩
  · cases hu
    rw [hroot rfl] at hobject
    exact nomatch hobject
  · rw [huv] at hne; exact nomatch hne
  · rw [huv] at hne; exact nomatch hne

variable {v : Json}

/-- Nothing is taken whole below a key that did not change. -/
theorem not_takenWhole_of_eq (hu : pre.child step = some u) (hv : post.child step = some v)
    (heq : u.eq v = true) (path : List PathStep) :
    ¬TakenWhole base pre post (step :: path) := by
  intro h
  refine h.changed (fun hroot => nomatch hroot) ?_
  rw [valueAt_cons, valueAt_cons, hu, hv]
  exact agree_valueAt_of_eq heq path

/-- Below a key at which all three have maps, the merge takes whole what the merge of those maps
    does. -/
theorem takenWhole_cons_iff (hb : base.child step = some (.object b)) (hu : pre.child step = some u)
    (hv : post.child step = some v) (path : List PathStep) :
    TakenWhole base pre post (step :: path) ↔ TakenWhole (.object b) u v path := by
  simp only [TakenWhole, valueAt_cons, hb, hu, hv, Option.bind_some, reduceCtorEq, false_or]
  refine exists_congr fun x => exists_congr fun y => and_congr_right fun hx =>
    and_congr_right fun hy => or_congr_left ?_
  constructor
  · rintro ⟨hx', hb', hne⟩
    exact ⟨hx', hb', .inr hne⟩
  · rintro ⟨hx', hb', rfl | hne⟩
    · exact nomatch hb' _ rfl
    · exact ⟨hx', hb', hne⟩

/-- Three maps are not taken whole, so what is taken whole in them is below a key. -/
theorem exists_takenWhole_cons_iff :
    (∃ s r, step :: path = s ++ r ∧ r ≠ [] ∧
        TakenWhole (.object b) (.object p) (.object q) s) ↔
      ∃ s r, path = s ++ r ∧ r ≠ [] ∧
        TakenWhole (.object b) (.object p) (.object q) (step :: s) := by
  constructor
  · rintro ⟨s, r, hsplit, hr, htaken⟩
    cases s with
    | nil =>
      obtain ⟨u, w, hu, -, ⟨-, hbase, -⟩ | ⟨harray, -⟩⟩ := htaken
      · exact nomatch hbase _ rfl
      · cases hu
        exact nomatch harray
    | cons step' s =>
      obtain ⟨rfl, hrest⟩ := List.cons_eq_cons.mp hsplit
      exact ⟨s, r, hrest, hr, htaken⟩
  · rintro ⟨s, r, rfl, hr, htaken⟩
    exact ⟨step :: s, r, rfl, hr, htaken⟩

/-- An array that did not change is not taken whole, and neither is anything in it. -/
theorem not_takenWhole_of_array (harray : pre.isObject = false) (heq : pre.eq post = true)
    (path : List PathStep) : ¬TakenWhole base pre post path := by
  intro h
  exact h.changed (fun _ => harray) (agree_valueAt_of_eq heq path)

/-- Let `pre` and `post` have the same scalar or array at `path`, and `base` another value or none.
    The merge brings it back exactly if it takes something whole that the value is in. -/
theorem applyChangedPaths_resurrects_iff (hpost : post.wellFormed = true)
    (hleaf : v.isObject = false) (hpreAt : pre.valueAt path = some v)
    (hpostAt : post.valueAt path = some v)
    (hlost : ∀ b, base.valueAt path = some b → b.eq v = false) :
    (∃ w, (applyChangedPaths base pre post).valueAt path = some w ∧ w.eq v = true) ↔
      ∃ q r, path = q ++ r ∧ r ≠ [] ∧ TakenWhole base pre post q := by
  have hself : v.eq v = true := eq_refl v (wellFormed_of_valueAt hpost hpostAt)
  -- Where the result is `base`'s value, it is not `v`; where it is `post`'s, it is.
  have hkept {w : Option Json} (hlost : ∀ b, w = some b → b.eq v = false) :
      ¬∃ x, w = some x ∧ x.eq v = true := by
    rintro ⟨x, hx, hxv⟩
    rw [hlost x hx] at hxv
    exact nomatch hxv
  induction path generalizing base pre post with
  | nil =>
    cases hpreAt
    cases hpostAt
    rw [applyChangedPaths_of_not_objects base (.inl hleaf), if_pos hself]
    refine iff_of_false (hkept hlost) ?_
    rintro ⟨q, r, hsplit, hr, -⟩
    exact hr (List.append_eq_nil_iff.mp hsplit.symm).2
  | cons step path ih =>
    obtain ⟨x, hx, hxv⟩ := Option.bind_eq_some_iff.mp hpreAt
    obtain ⟨y, hy, hyv⟩ := Option.bind_eq_some_iff.mp hpostAt
    have hkind := isObject_eq_of_child hx hy
    rcases applyChangedPaths_cases base pre post with
      ⟨hshape, hmerged⟩ | ⟨hobject, -, hbase, hmerged⟩ | ⟨b, p, q, rfl, rfl, rfl⟩
    · -- Arrays, which changed or did not.
      have harray : pre.isObject = false := by
        rcases hshape with h | h
        · exact h
        · rw [hkind, h]
      cases heq : pre.eq post with
      | true =>
        rw [hmerged, if_pos heq]
        refine iff_of_false (hkept hlost) ?_
        rintro ⟨q, r, -, -, htaken⟩
        exact not_takenWhole_of_array harray heq q htaken
      | false =>
        rw [hmerged, if_neg (by rw [heq]; exact Bool.false_ne_true)]
        exact iff_of_true ⟨v, hpostAt, hself⟩ ⟨[], step :: path, rfl, List.cons_ne_nil _ _,
          pre, post, rfl, rfl, .inr ⟨harray, heq⟩⟩
    · -- The root map is gone.
      rw [hmerged]
      refine iff_of_true ⟨v, hpostAt, hself⟩ ⟨[], step :: path, rfl, List.cons_ne_nil _ _,
        pre, post, rfl, rfl, .inl ⟨hobject, ?_, .inl rfl⟩⟩
      rintro _ ⟨⟩
      exact hbase
    · cases step with
      | index i => exact nomatch hx
      | key k =>
        rw [exists_takenWhole_cons_iff, valueAt_cons,
          child_applyChangedPaths _ _ (nodup_keys hpost),
          show p.lookup k = some x from hx, show q.lookup k = some y from hy]
        rcases mergeKey_some_cases (b.lookup k) x y with
          ⟨heq, hmerged⟩ | ⟨hne, baseMap, hb, hxobj, hyobj, hmerged⟩ | ⟨hne, hmerged, hmaps⟩
        · rw [hmerged]
          refine iff_of_false (hkept hlost) ?_
          rintro ⟨s, r, -, -, htaken⟩
          exact not_takenWhole_of_eq hx hy heq s htaken
        · rw [hmerged]
          have hlost' : ∀ w, (Json.object baseMap).valueAt path = some w → w.eq v = false := by
            intro w hw
            refine hlost w ?_
            rw [valueAt_cons, show (Json.object b).child (.key k) = _ from hb]
            exact hw
          simp only [takenWhole_cons_iff (show (Json.object b).child (.key k) = _ from hb) hx hy]
          exact ih (wellFormed_of_lookup hpost hy) hxv hyv hlost'
        · rw [hmerged]
          -- The path does not end here, since the values differ.
          have hpath : path ≠ [] := by
            rintro rfl
            cases hxv
            cases hyv
            rw [hself] at hne
            exact nomatch hne
          refine iff_of_true ⟨v, hyv, hself⟩ ⟨[], path, rfl, hpath, x, y, ?_, ?_, ?_⟩
          · rw [valueAt_cons, hx]; rfl
          · rw [valueAt_cons, hy]; rfl
          · cases hxobj : x.isObject with
            | false => exact .inr ⟨rfl, hne⟩
            | true =>
              refine .inl ⟨rfl, fun w hw => ?_, .inr hne⟩
              obtain ⟨s, rest, rfl⟩ := List.exists_cons_of_ne_nil hpath
              obtain ⟨x', hx', -⟩ := Option.bind_eq_some_iff.mp hxv
              obtain ⟨y', hy', -⟩ := Option.bind_eq_some_iff.mp hyv
              have hyobj : y.isObject = true := (isObject_eq_of_child hx' hy').symm.trans hxobj
              cases w with
              | object baseMap =>
                obtain ⟨w', hw', hw⟩ := Option.bind_eq_some_iff.mp hw
                cases hw
                exact absurd ⟨baseMap, hw', hxobj, hyobj⟩ hmaps
              | _ => rfl

/-- Let `pre` and `post` have the same scalar `v` at `path` (or the same array), and let the value
    of `base` there be gone or another one. It stays so exactly if the merge takes nothing whole
    that the value is in: no map that `base` has lost and the pipeline changed, no array that the
    pipeline changed, and not the whole projection. -/
theorem applyChangedPaths_not_resurrects_iff (base pre post : Json)
    (hpost : post.wellFormed = true) (path : List PathStep) (v : Json) (hleaf : v.isObject = false)
    (hpreAt : pre.valueAt path = some v) (hpostAt : post.valueAt path = some v)
    (hlost : ∀ b, base.valueAt path = some b → b.eq v = false) :
    (∀ w, (applyChangedPaths base pre post).valueAt path = some w → w.eq v = false) ↔
      ∀ q r, path = q ++ r → r ≠ [] → ¬TakenWhole base pre post q := by
  have hiff := not_congr (applyChangedPaths_resurrects_iff hpost hleaf hpreAt hpostAt hlost)
  simp only [not_exists, not_and, Bool.not_eq_true] at hiff
  exact hiff

/-- The projection of a user before a pipeline, after it masked the name, after a plugin put a
    notice in the user's place, and after a plugin took the number out. -/
def userBefore : Json :=
  .object [("user", .object [("name", .string "alice"), ("ssn", .string "123-45-6789")])]

@[inherit_doc userBefore] def userMasked : Json :=
  .object [("user", .object [("name", .string "a***"), ("ssn", .string "123-45-6789")])]

@[inherit_doc userBefore] def userRedacted : Json :=
  .object [("user", .string "[REDACTED]")]

@[inherit_doc userBefore] def userWithoutSsn : Json :=
  .object [("user", .object [("name", .string "alice")])]

/-- The masked name brings the number back that the plugin had redacted with the whole user. -/
theorem applyChangedPaths_resurrects_ssn :
    userRedacted.valueAt [.key "user", .key "ssn"] = none ∧
      userBefore.valueAt [.key "user", .key "ssn"] = some (.string "123-45-6789") ∧
      userMasked.valueAt [.key "user", .key "ssn"] = some (.string "123-45-6789") ∧
      (applyChangedPaths userRedacted userBefore userMasked).valueAt
        [.key "user", .key "ssn"] = some (.string "123-45-6789") :=
  ⟨rfl, rfl, rfl, rfl⟩

/-- A number the plugin took out of the user stays out. -/
theorem applyChangedPaths_not_resurrects_ssn :
    userWithoutSsn.valueAt [.key "user", .key "ssn"] = none ∧
      ∀ w, (applyChangedPaths userWithoutSsn userBefore userMasked).valueAt
        [.key "user", .key "ssn"] = some w → w.eq (.string "123-45-6789") = false := by
  refine ⟨rfl, (applyChangedPaths_not_resurrects_iff userWithoutSsn userBefore userMasked
    (by decide +kernel) [.key "user", .key "ssn"] (.string "123-45-6789") rfl rfl rfl
    (fun b hb => nomatch hb)).mpr ?_⟩
  -- The maps the number is in, the projection and the user, are still there.
  intro q r hsplit hr htaken
  have hq : q = [] ∨ q = [.key "user"] := by
    rcases q with _ | ⟨a, _ | ⟨b, q⟩⟩
    · exact .inl rfl
    · exact .inr (by simp at hsplit; rw [hsplit.1])
    · exact absurd (by simp at hsplit; exact hsplit.2.2.2) hr
  obtain ⟨u, w, hu, -, ⟨-, hbase, -⟩ | ⟨harray, -⟩⟩ := htaken
  · rcases hq with rfl | rfl <;> exact nomatch hbase _ rfl
  · rcases hq with rfl | rfl <;> (cases hu; exact nomatch harray)

end Cpex.Core
