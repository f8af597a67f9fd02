import Mathlib.Data.List.Infix
import Cpex.ForStd.List

/-! # Trees of names in which a namespace wins

A tree is built from values written under paths of names. A name that is both the end of one
path and the start of another cannot hold both a value and a namespace: the namespace wins,
in whatever order the two are written.
-/

/-- A value, or a namespace with the entries of a key-sorted map. -/
inductive NameTree (κ α : Type) where
  | leaf (a : α)
  | branch (children : List (κ × NameTree κ α))

namespace NameTree

variable {κ α : Type}

/-! ### Trees as nested values -/

section ToValue

variable (object : List (κ × α) → α)

mutual

/-- The value of a tree, a namespace becoming an `object`. -/
def toValue : NameTree κ α → α
  | .leaf a => a
  | .branch children => object (toEntries children)

/-- The values of the entries of a level. -/
def toEntries : List (κ × NameTree κ α) → List (κ × α)
  | [] => []
  | (key, child) :: rest => (key, toValue child) :: toEntries rest

end

theorem map_fst_toEntries : (toEntries object level).map Prod.fst = level.map Prod.fst := by
  induction level with
  | nil => rfl
  | cons entry rest ih =>
    rw [toEntries, List.map_cons, List.map_cons, ih]

end ToValue

variable [DecidableEq κ]

/-- The entries of the namespace `key`; none if there is a value there, or nothing. -/
def children (level : List (κ × NameTree κ α)) (key : κ) : List (κ × NameTree κ α) :=
  match level.lookup key with
  | some (.branch entries) => entries
  | _ => []

variable {key : κ} {level : List (κ × NameTree κ α)}

theorem children_of_branch (h : level.lookup key = some (.branch entries)) :
    children level key = entries := by
  unfold children
  rw [h]

theorem children_of_not_branch (h : ∀ entries, level.lookup key ≠ some (.branch entries)) :
    children level key = [] := by
  unfold children
  split
  · rename_i entries hentries
    exact absurd hentries (h entries)
  · rfl

theorem children_congr {level' : List (κ × NameTree κ α)}
    (h : level.lookup key = level'.lookup key) : children level key = children level' key := by
  unfold children
  rw [h]

/-- What is at a path. -/
def get (level : List (κ × NameTree κ α)) : List κ → Option (NameTree κ α)
  | [] => none
  | [key] => level.lookup key
  | key :: key' :: rest => get (children level key) (key' :: rest)

/-- A path is looked up through its first name. -/
theorem get_congr {level' : List (κ × NameTree κ α)} (rest : List κ)
    (h : level.lookup key = level'.lookup key) :
    get level (key :: rest) = get level' (key :: rest) := by
  cases rest with
  | nil => exact h
  | cons key' rest => rw [get, get, children_congr h]

theorem get_nil (path : List κ) : get ([] : List (κ × NameTree κ α)) path = none := by
  induction path with
  | nil => rfl
  | cons key rest ih =>
    cases rest with
    | nil => rfl
    | cons key' rest => exact ih

section ToValue

variable (object : List (κ × α) → α)

theorem lookup_toEntries :
    (toEntries object level).lookup key = (level.lookup key).map (toValue object) := by
  induction level with
  | nil => rfl
  | cons entry rest ih =>
    rw [toEntries, List.lookup_cons_ite, List.lookup_cons_ite, ih]
    split <;> rfl

variable {level : List (κ × NameTree κ α)}

/-- Selecting the names of a path one by one in the value finds what is there in the tree, if
    only objects have fields and no leaf is one. -/
theorem read_toEntries (field : α → κ → Option α) (read : α → List κ → Option α)
    (hobject : ∀ entries key, field (object entries) key = entries.lookup key)
    (hfield : ∀ v key, (∀ entries, v ≠ object entries) → field v key = none)
    (hnil : ∀ v, read v [] = some v)
    (hcons : ∀ v key keys, read v (key :: keys) = (field v key).bind fun next => read next keys)
    (hpath : path ≠ [])
    (hleaf : ∀ path a, get level path = some (.leaf a) → ∀ entries, a ≠ object entries) :
    read (object (toEntries object level)) path = (get level path).map (toValue object) := by
  induction path generalizing level with
  | nil => exact absurd rfl hpath
  | cons key rest ih =>
    rw [hcons, hobject, lookup_toEntries]
    cases rest with
    | nil =>
      rw [get]
      cases level.lookup key with
      | none => rfl
      | some node => exact hnil _
    | cons key' rest =>
      rw [get]
      cases hnode : level.lookup key with
      | none =>
        rw [children_of_not_branch (by simp [hnode]), get_nil]
        rfl
      | some node =>
        cases node with
        | leaf a =>
          rw [children_of_not_branch (by simp [hnode]), get_nil]
          change read a (key' :: rest) = none
          rw [hcons, hfield a key' (hleaf [key] a hnode)]
          rfl
        | branch entries =>
          rw [children_of_branch hnode]
          refine ih (List.cons_ne_nil _ _) fun path a ha => hleaf (key :: path) a ?_
          cases path with
          | nil => exact nomatch ha
          | cons key'' path => rw [get, children_of_branch hnode, ha]

end ToValue

variable [LT κ] [DecidableLT κ]

/-- Write a value, making namespaces on the way. -/
def insert : List κ → α → List (κ × NameTree κ α) → List (κ × NameTree κ α)
  | [], _, level => level
  | [key], a, level =>
    match level.lookup key with
    | some (.branch _) => level
    | _ => level.insertKey key (.leaf a)
  | key :: key' :: rest, a, level =>
    level.insertKey key (.branch (insert (key' :: rest) a (children level key)))

/-! ### One write -/

section Insert

variable (a : α) (level : List (κ × NameTree κ α))

/-- A write shows under its first name only. -/
theorem lookup_insert_of_ne (rest : List κ) (h : k ≠ key) :
    (insert (key :: rest) a level).lookup k = level.lookup k := by
  cases rest with
  | nil =>
    unfold insert
    split
    · rfl
    · rw [List.lookup_insertKey, if_neg h]
  | cons key' rest =>
    unfold insert
    rw [List.lookup_insertKey, if_neg h]

theorem children_insert_cons :
    children (insert (key :: key' :: rest) a level) key =
      insert (key' :: rest) a (children level key) := by
  apply children_of_branch
  rw [insert, List.lookup_insertKey, if_pos rfl]

/-- A value makes no namespace. -/
theorem children_insert_singleton (key : κ) :
    children (insert [key] a level) key = children level key := by
  unfold insert
  split
  · rfl
  · rename_i hleaf
    rw [children_of_not_branch hleaf]
    apply children_of_not_branch
    intro entries
    rw [List.lookup_insertKey, if_pos rfl]
    simp

variable {path : List κ}

/-- At its own path a write takes effect unless there is a namespace. -/
theorem get_insert_self (h : path ≠ []) :
    get (insert path a level) path =
      match get level path with
      | some (.branch entries) => some (.branch entries)
      | _ => some (.leaf a) := by
  induction path generalizing level with
  | nil => exact absurd rfl h
  | cons key rest ih =>
    cases rest with
    | nil =>
      unfold get insert
      split
      · rename_i entries hentries
        rw [hentries]
      · rw [List.lookup_insertKey, if_pos rfl]
    | cons key' rest =>
      unfold get
      rw [children_insert_cons]
      exact ih _ (List.cons_ne_nil _ _)

/-- On the way to its end a write makes namespaces. -/
theorem get_insert_above (h : path ≠ []) (hpre : path <+: path') (hne : path ≠ path') :
    ∃ entries, get (insert path' a level) path = some (.branch entries) := by
  induction path generalizing path' level with
  | nil => exact absurd rfl h
  | cons key rest ih =>
    obtain ⟨more, rfl⟩ := hpre
    cases rest with
    | nil =>
      cases more with
      | nil => exact absurd rfl hne
      | cons key' more =>
        refine ⟨insert (key' :: more) a (children level key), ?_⟩
        change (level.insertKey key _).lookup key = _
        rw [List.lookup_insertKey, if_pos rfl]
    | cons key' rest =>
      unfold get
      rw [List.cons_append, List.cons_append, children_insert_cons]
      refine ih _ (List.cons_ne_nil _ _) ⟨more, rfl⟩ fun heq => hne ?_
      rw [List.cons_append, List.cons_append, ← heq]

/-- Elsewhere a write changes nothing, also below its own path. -/
theorem get_insert_elsewhere (h : ¬ path <+: path') :
    get (insert path' a level) path = get level path := by
  induction path generalizing path' level with
  | nil => rfl
  | cons key rest ih =>
    cases path' with
    | nil => rfl
    | cons key' rest' =>
      by_cases hkey : key = key'
      · subst hkey
        have hrest : ¬ rest <+: rest' := fun hr => h ((List.prefix_cons_inj key).mpr hr)
        cases rest with
        | nil => exact absurd List.nil_prefix hrest
        | cons k rest =>
          unfold get
          cases rest' with
          | nil => rw [children_insert_singleton]
          | cons k' rest' =>
            rw [children_insert_cons]
            exact ih _ hrest
      · exact get_congr rest (lookup_insert_of_ne a level rest' hkey)

end Insert

/-! ### All writes -/

/-- The tree of a sequence of writes. -/
def build (writes : List (List κ × α)) : List (κ × NameTree κ α) :=
  writes.foldl (fun level w => insert w.1 w.2 level) []

theorem build_concat (writes : List (List κ × α)) (w : List κ × α) :
    build (writes ++ [w]) = insert w.1 w.2 (build writes) := by
  simp [build]

variable {writes : List (List κ × α)} {path : List κ}

/-- A path that continues into another one is a namespace. -/
theorem get_build_of_extended (h : path ≠ []) (hext : ∃ w ∈ writes, path <+: w.1 ∧ path ≠ w.1) :
    ∃ entries, get (build writes) path = some (.branch entries) := by
  induction writes using List.reverseRecOn with
  | nil => obtain ⟨w, hw, -⟩ := hext; exact nomatch hw
  | append_singleton writes w ih =>
    rw [build_concat]
    by_cases hpre : path <+: w.1
    · by_cases hne : path = w.1
      · -- The write finds the namespace there and leaves it.
        have hbefore : ∃ w' ∈ writes, path <+: w'.1 ∧ path ≠ w'.1 := by
          obtain ⟨w', hw', hext'⟩ := hext
          rcases List.mem_append.mp hw' with hw' | hw'
          · exact ⟨w', hw', hext'⟩
          · rw [List.mem_singleton.mp hw'] at hext'
            exact absurd hne hext'.2
        obtain ⟨entries, hentries⟩ := ih hbefore
        rw [← hne, get_insert_self _ _ h, hentries]
        exact ⟨entries, rfl⟩
      · exact get_insert_above _ _ h hpre hne
    · rw [get_insert_elsewhere _ _ hpre]
      obtain ⟨w', hw', hext'⟩ := hext
      rcases List.mem_append.mp hw' with hw' | hw'
      · exact ih ⟨w', hw', hext'⟩
      · rw [List.mem_singleton.mp hw'] at hext'
        exact absurd hext'.1 hpre

/-- Any other path holds the value written there last. -/
theorem get_build (h : path ≠ []) (hnot : ∀ w ∈ writes, path <+: w.1 → path = w.1) :
    get (build writes) path =
      (writes.findRev? fun w => w.1 = path).map fun w => .leaf w.2 := by
  induction writes using List.reverseRecOn with
  | nil => exact get_nil path
  | append_singleton writes w ih =>
    have ih := ih fun w' hw' => hnot w' (List.mem_append_left _ hw')
    rw [build_concat, List.findRev?_eq_find?_reverse, List.reverse_append]
    rw [List.findRev?_eq_find?_reverse] at ih
    by_cases hpath : w.1 = path
    · -- What was there before is no namespace.
      have hself : get (insert w.1 w.2 (build writes)) path = some (.leaf w.2) := by
        rw [hpath, get_insert_self _ _ h, ih]
        cases writes.reverse.find? fun w => w.1 = path <;> rfl
      rw [hself]
      simp [hpath]
    · have hpre : ¬ path <+: w.1 := fun hp => hpath (hnot w (by simp) hp).symm
      rw [get_insert_elsewhere _ _ hpre, ih]
      simp [hpath]

/-- The namespaces are the paths that continue into another one. -/
theorem get_build_branch_iff (h : path ≠ []) :
    (∃ entries, get (build writes) path = some (.branch entries)) ↔
      ∃ w ∈ writes, path <+: w.1 ∧ path ≠ w.1 := by
  refine ⟨fun hbranch => ?_, get_build_of_extended h⟩
  obtain ⟨entries, hentries⟩ := hbranch
  by_contra hnot
  push Not at hnot
  rw [get_build h hnot] at hentries
  obtain ⟨w, -, hw⟩ := Option.map_eq_some_iff.mp hentries
  exact nomatch hw

/-- If no path is written twice, the values are those of the paths that do not. -/
theorem get_build_leaf_iff (h : path ≠ []) (hnodup : (writes.map Prod.fst).Nodup) {a : α} :
    get (build writes) path = some (.leaf a) ↔
      (path, a) ∈ writes ∧ ∀ w ∈ writes, path <+: w.1 → path = w.1 := by
  by_cases hext : ∃ w ∈ writes, path <+: w.1 ∧ path ≠ w.1
  · obtain ⟨entries, hentries⟩ := get_build_of_extended h hext
    obtain ⟨w, hw, hpre, hne⟩ := hext
    rw [hentries]
    exact ⟨(nomatch ·), fun hleaf => absurd (hleaf.2 w hw hpre) hne⟩
  · push Not at hext
    have hlast (w : List κ × α) (hw : writes.findRev? (fun w => w.1 = path) = some w) :
        w ∈ writes ∧ w.1 = path := by
      rw [List.findRev?_eq_find?_reverse] at hw
      exact ⟨List.mem_reverse.mp (List.mem_of_find?_eq_some hw), by simpa using List.find?_some hw⟩
    rw [get_build h hext, Option.map_eq_some_iff]
    constructor
    · rintro ⟨w, hw, hleaf⟩
      cases hleaf
      obtain ⟨hmem, rfl⟩ := hlast w hw
      exact ⟨hmem, hext⟩
    · rintro ⟨hmem, -⟩
      cases hfind : writes.findRev? fun w => w.1 = path with
      | none => exact absurd (decide_eq_true rfl) (List.findRev?_eq_none.mp hfind _ hmem)
      | some w =>
        obtain ⟨hw, hpath⟩ := hlast w hfind
        rw [List.inj_on_of_nodup_map hnodup hw hmem hpath]
        exact ⟨_, rfl, rfl⟩

/-- The names of a level are sorted, and so distinct. -/
theorem pairwise_build [IsTrans κ (· < ·)] [Std.Trichotomous (α := κ) (· < ·)]
    (writes : List (List κ × α)) : (build writes).SortedKeys := by
  induction writes using List.reverseRecOn with
  | nil => exact List.Pairwise.nil
  | append_singleton writes w ih =>
    rw [build_concat]
    unfold insert
    split
    · exact ih
    · split
      · exact ih
      · exact List.pairwise_insertKey _ _ ih
    · exact List.pairwise_insertKey _ _ ih

/-! ### The order of the writes -/

section Comm

variable {κ α : Type} [LinearOrder κ] (a b : α) (level : List (κ × NameTree κ α))

theorem insert_cons_cons (key key' : κ) (rest : List κ) : insert (key :: key' :: rest) a level =
    level.insertKey key (.branch (insert (key' :: rest) a (children level key))) := rfl

variable {level} in
theorem insert_singleton_of_branch {key : κ} {entries : List (κ × NameTree κ α)}
    (h : level.lookup key = some (.branch entries)) : insert [key] a level = level := by
  rw [insert, h]

variable {level} in
theorem insert_singleton_of_not_branch {key : κ}
    (h : ∀ entries, level.lookup key ≠ some (.branch entries)) :
    insert [key] a level = level.insertKey key (.leaf a) := by
  rw [insert]
  split
  · exact absurd (by assumption) (h _)
  · rfl

/-- A value and what is behind its name. -/
theorem insert_singleton_comm (key key' : κ) (rest : List κ) :
    insert (key :: key' :: rest) b (insert [key] a level) =
      insert [key] a (insert (key :: key' :: rest) b level) := by
  have hbranch : (insert (key :: key' :: rest) b level).lookup key =
      some (.branch (insert (key' :: rest) b (children level key))) := by
    rw [insert_cons_cons, List.lookup_insertKey, if_pos rfl]
  rw [insert_singleton_of_branch a hbranch, insert_cons_cons, children_insert_singleton,
    insert_cons_cons]
  by_cases hentries : ∃ entries, level.lookup key = some (.branch entries)
  · obtain ⟨entries, hentries⟩ := hentries
    rw [insert_singleton_of_branch a hentries]
  · push Not at hentries
    rw [insert_singleton_of_not_branch a hentries, List.insertKey_insertKey]

theorem insert_insertKey_of_ne {key k : κ} (h : k ≠ key) (rest : List κ) (node : NameTree κ α) :
    insert (key :: rest) a (level.insertKey k node) =
      (insert (key :: rest) a level).insertKey k node := by
  have hlookup : (level.insertKey k node).lookup key = level.lookup key := by
    rw [List.lookup_insertKey, if_neg h.symm]
  cases rest with
  | nil =>
    unfold insert
    rw [hlookup]
    split
    · rfl
    · exact List.insertKey_comm h _ _ _
  | cons key' rest =>
    rw [insert_cons_cons, insert_cons_cons, children_congr hlookup, List.insertKey_comm h]

/-- Writes at different paths commute. -/
theorem insert_comm {path path' : List κ} (h : path ≠ path') :
    insert path a (insert path' b level) = insert path' b (insert path a level) := by
  induction path generalizing path' level with
  | nil => rfl
  | cons key rest ih =>
    cases path' with
    | nil => rfl
    | cons key' rest' =>
      by_cases hkey : key' = key
      · subst hkey
        cases rest with
        | nil =>
          cases rest' with
          | nil => exact absurd rfl h
          | cons k rest' => exact (insert_singleton_comm ..).symm
        | cons k rest =>
          cases rest' with
          | nil => exact insert_singleton_comm ..
          | cons k' rest' =>
            have hrest : k :: rest ≠ k' :: rest' := fun heq => h (by rw [heq])
            rw [insert_cons_cons a, children_insert_cons, ih _ hrest, insert_cons_cons b,
              List.insertKey_insertKey, insert_cons_cons b, children_insert_cons,
              insert_cons_cons a, List.insertKey_insertKey]
      · have hlookup := lookup_insert_of_ne a level rest hkey
        -- What the second write finds is what was there before the first.
        cases rest' with
        | nil =>
          by_cases hbranch : ∃ entries, level.lookup key' = some (.branch entries)
          · obtain ⟨entries, hentries⟩ := hbranch
            rw [insert_singleton_of_branch b hentries,
              insert_singleton_of_branch b (hlookup.trans hentries)]
          · push Not at hbranch
            rw [insert_singleton_of_not_branch b hbranch,
              insert_singleton_of_not_branch b (by rwa [hlookup])]
            exact insert_insertKey_of_ne a level hkey rest _
        | cons k' rest' =>
          rw [insert_cons_cons, insert_cons_cons, insert_insertKey_of_ne a level hkey,
            children_congr hlookup]

/-- The order of the writes does not matter if no path is written twice. -/
theorem build_perm {writes writes' : List (List κ × α)} (h : writes.Perm writes')
    (hnodup : (writes.map Prod.fst).Nodup) : build writes = build writes' := by
  refine h.foldl_eq' (fun w hw w' hw' level => ?_) []
  by_cases hpath : w.1 = w'.1
  · rw [List.inj_on_of_nodup_map hnodup hw hw' hpath]
  · exact insert_comm _ _ level (Ne.symm hpath)

end Comm

end NameTree
