import Cpex.Spec.JsonValues

/-! # Writes along a path

`set_dotted` and `remove_dotted` go down the same way and differ in what they do with the last map
on it. Both are one write to a node that may be absent, where to remove is to write nothing. What a
write leaves at another path depends on how the two paths lie: at and below the written path there
is what was written, and away from it nothing changes.
-/

namespace Cpex

/-- One of the paths continues the other, or they are the same. -/
def Overlap (p q : List String) : Prop := p <+: q ∨ q <+: p

instance instDecidableOverlap (p q : List String) : Decidable (Overlap p q) :=
  inferInstanceAs (Decidable (_ ∨ _))

theorem Overlap.symm (h : Overlap p q) : Overlap q p := Or.symm h

/-- Paths that lie apart part at some name. -/
theorem not_overlap_cons {a b : String} {p q : List String} :
    ¬ Overlap (a :: p) (b :: q) ↔ a ≠ b ∨ ¬ Overlap p q := by
  simp only [Overlap, List.cons_prefix_cons]
  grind

namespace Json

/-! ### Maps -/

/-- `Map::insert` of a value, `Map::remove` without one. -/
def alterField (key : String) (new : Option Json) (fields : List (String × Json)) :
    List (String × Json) :=
  match new with
  | some v => insertField key v fields
  | none => removeField key fields

@[simp] theorem lookup_alterField :
    (alterField key new fields).lookup k = if k = key then new else fields.lookup k := by
  cases new with
  | none => exact lookup_removeField key k fields
  | some v => exact lookup_insertField key k v fields

variable {fields : List (String × Json)}

theorem pairwise_keys_alterField (key : String) (new : Option Json) (h : fields.SortedKeys) :
    (alterField key new fields).SortedKeys := by
  cases new with
  | none => exact pairwise_keys_removeField key h
  | some v => exact pairwise_keys_insertField key v h

/-- Under two keys it does not matter which one is altered first. -/
theorem alterField_comm (hne : key ≠ key') (new new' : Option Json) (h : fields.SortedKeys) :
    alterField key new (alterField key' new' fields) =
      alterField key' new' (alterField key new fields) := by
  refine List.eq_of_lookup_eq (pairwise_keys_alterField _ _ (pairwise_keys_alterField _ _ h))
    (pairwise_keys_alterField _ _ (pairwise_keys_alterField _ _ h)) fun k => ?_
  by_cases hk : k = key
  · subst hk
    simp [hne]
  · simp [hk]

/-- Under one key the last change counts. -/
theorem alterField_alterField (key : String) (new new' : Option Json) (h : fields.SortedKeys) :
    alterField key new (alterField key new' fields) = alterField key new fields := by
  refine List.eq_of_lookup_eq (pairwise_keys_alterField _ _ (pairwise_keys_alterField _ _ h))
    (pairwise_keys_alterField _ _ h) fun k => ?_
  simp only [lookup_alterField]
  split <;> rfl

variable {new : Option Json}

theorem wellFormed_alterField (key : String) (h : (object fields).wellFormed = true)
    (hnew : ∀ v ∈ new, v.wellFormed = true) :
    (object (alterField key new fields)).wellFormed = true := by
  obtain ⟨hsorted, hvalues⟩ := wellFormed_object.mp h
  rw [fieldsWellFormed_iff] at hvalues
  refine wellFormed_object.mpr
    ⟨pairwise_keys_alterField key new hsorted, fieldsWellFormed_iff.mpr fun field hfield => ?_⟩
  cases new with
  | none => exact hvalues field (List.mem_of_mem_filter hfield)
  | some v =>
    rw [alterField, insertField_eq] at hfield
    rcases List.eq_or_mem_of_mem_insertKey hfield with rfl | hfield
    · exact hnew v rfl
    · exact hvalues field hfield

/-! ### Nodes -/

/-- What is at the path below a node, which may be absent. -/
def getNode (node : Option Json) (path : List String) : Option Json :=
  node.bind (getSegs · path)

@[simp] theorem getNode_nil : getNode node [] = node := by
  cases node <;> rfl

@[simp] theorem getNode_cons :
    getNode node (seg :: path) = getNode (node.bind (get · seg)) path := by
  cases node <;> rfl

@[simp] theorem getNode_none : getNode none path = none := rfl

theorem getNode_append (node : Option Json) (p q : List String) :
    getNode node (p ++ q) = getNode (getNode node p) q := by
  induction p generalizing node with
  | nil => simp
  | cons seg p ih => simp only [List.cons_append, getNode_cons, ih]

/-- The node after a write at the path below it: of a value, or of nothing to remove what is there.
    All that the path leads through must be maps. -/
def writeNode (new : Option Json) : List String → Option Json → Option (Option Json)
  | [], node => if new.isSome || node.isSome then some new else none
  | seg :: path, some (.object fields) =>
    (writeNode new path (fields.lookup seg)).map fun child =>
      some (.object (alterField seg child fields))
  | _ :: _, _ => none

variable {path : List String} {node node' : Option Json}

theorem eq_of_writeNode_nil (h : writeNode new [] node = some node') : node' = new := by
  rw [writeNode] at h
  split at h <;> cases h
  rfl

/-- A write past a name goes on below a map. -/
theorem writeNode_cons_eq_some (h : writeNode new (seg :: path) node = some node') :
    ∃ fields child, node = some (.object fields) ∧
      writeNode new path (fields.lookup seg) = some child ∧
      node' = some (.object (alterField seg child fields)) := by
  cases node with
  | none => cases h
  | some v =>
    cases v with
    | object fields =>
      rw [writeNode, Option.map_eq_some_iff] at h
      obtain ⟨child, hchild, rfl⟩ := h
      exact ⟨fields, child, rfl, hchild, rfl⟩
    | _ => cases h

/-- Where there is something to read, a write lands. -/
theorem exists_writeNode_of_getNode (new : Option Json) (h : getNode node path = some current) :
    ∃ node', writeNode new path node = some node' := by
  induction path generalizing node with
  | nil =>
    rw [getNode_nil] at h
    exact ⟨new, by simp [writeNode, h]⟩
  | cons seg path ih =>
    rw [getNode_cons] at h
    obtain ⟨child, hchild⟩ := ih h
    cases node with
    | none => simp at h
    | some v =>
      cases v with
      | object fields =>
        exact ⟨_, Option.map_eq_some_iff.mpr ⟨child, hchild, rfl⟩⟩
      | _ => simp [get] at h

/-- At and below the path there is what was written. -/
theorem getNode_writeNode_append (h : writeNode new path node = some node') (rest : List String) :
    getNode node' (path ++ rest) = getNode new rest := by
  induction path generalizing node node' with
  | nil => rw [eq_of_writeNode_nil h, List.nil_append]
  | cons seg path ih =>
    obtain ⟨fields, child, rfl, hchild, rfl⟩ := writeNode_cons_eq_some h
    have hseg : ((some (object (alterField seg child fields))).bind (get · seg)) = child := by
      simp [get]
    rw [List.cons_append, getNode_cons, hseg]
    exact ih hchild

/-- Away from the path nothing changes. -/
theorem getNode_writeNode_of_apart (h : writeNode new path node = some node')
    (hapart : ¬ Overlap path other) : getNode node' other = getNode node other := by
  induction path generalizing node node' other with
  | nil => exact absurd (.inl List.nil_prefix) hapart
  | cons seg path ih =>
    cases other with
    | nil => exact absurd (.inr List.nil_prefix) hapart
    | cons name other =>
      obtain ⟨fields, child, rfl, hchild, rfl⟩ := writeNode_cons_eq_some h
      rw [getNode_cons, getNode_cons]
      simp only [Option.bind_some, get, lookup_alterField]
      by_cases hname : name = seg
      · -- The paths part further down, in the same child.
        subst hname
        rw [if_pos rfl]
        exact ih hchild ((not_overlap_cons.mp hapart).resolve_left (· rfl))
      · rw [if_neg hname]

/-- A write keeps the maps in order. -/
theorem wellFormed_writeNode (h : writeNode new path node = some node')
    (hnode : ∀ v ∈ node, v.wellFormed = true) (hnew : ∀ v ∈ new, v.wellFormed = true) :
    ∀ v ∈ node', v.wellFormed = true := by
  induction path generalizing node node' with
  | nil => rwa [eq_of_writeNode_nil h]
  | cons seg path ih =>
    obtain ⟨fields, child, rfl, hchild, rfl⟩ := writeNode_cons_eq_some h
    have hfields := hnode _ rfl
    rintro v ⟨⟩
    exact wellFormed_alterField seg hfields
      (ih hchild fun v hv => wellFormed_of_lookup hfields hv)

/-- Writes at paths that lie apart commute. -/
theorem writeNode_comm (hapart : ¬ Overlap p q) (hnode : ∀ v ∈ node, v.wellFormed = true)
    (h₁ : writeNode new p node = some n₁) (h₂ : writeNode new' q node = some n₂) :
    ∃ n, writeNode new' q n₁ = some n ∧ writeNode new p n₂ = some n := by
  induction p generalizing q node n₁ n₂ with
  | nil => exact absurd (.inl List.nil_prefix) hapart
  | cons a p ih =>
    cases q with
    | nil => exact absurd (.inr List.nil_prefix) hapart
    | cons b q =>
      obtain ⟨fields, x, rfl, hx, rfl⟩ := writeNode_cons_eq_some h₁
      obtain ⟨fields', y, heq, hy, rfl⟩ := writeNode_cons_eq_some h₂
      cases heq
      have hfields := hnode _ rfl
      have hsorted := (wellFormed_object.mp hfields).1
      by_cases hab : a = b
      · -- Both go on in the same child, and the second write puts back what comes of it.
        subst hab
        obtain ⟨child, hchild, hchild'⟩ := ih ((not_overlap_cons.mp hapart).resolve_left (· rfl))
          (fun v hv => wellFormed_of_lookup hfields hv) hx hy
        refine ⟨some (.object (alterField a child fields)), ?_, ?_⟩
        · simp only [writeNode, lookup_alterField, if_true, hchild, Option.map_some,
            alterField_alterField a child x hsorted]
        · simp only [writeNode, lookup_alterField, if_true, hchild', Option.map_some,
            alterField_alterField a child y hsorted]
      · -- Each finds its own child as it was.
        refine ⟨some (.object (alterField b y (alterField a x fields))), ?_, ?_⟩
        · simp only [writeNode, lookup_alterField, if_neg (Ne.symm hab), hy, Option.map_some]
        · simp only [writeNode, lookup_alterField, if_neg hab, hx, Option.map_some,
            alterField_comm hab x y hsorted]

/-! ### Dotted paths -/

/-- `updateAt` is a write at a path of which the parents are a part. -/
theorem updateAt_eq :
    (root.updateAt (fun fields =>
        (writeNode new [] (fields.lookup leaf)).map fun child => alterField leaf child fields)
      parents) = (writeNode new (parents ++ [leaf]) (some root)).join := by
  induction parents generalizing root with
  | nil =>
    cases root with
    | object fields =>
      have hleaf : writeNode new [leaf] (some (object fields)) =
          (writeNode new [] (fields.lookup leaf)).map fun child =>
            some (object (alterField leaf child fields)) := rfl
      rw [updateAt, List.nil_append, hleaf]
      cases writeNode new [] (fields.lookup leaf) <;> rfl
    | _ => rfl
  | cons seg parents ih =>
    cases root with
    | object fields =>
      rw [updateAt, List.cons_append, writeNode]
      cases hchild : fields.lookup seg with
      | none => cases parents <;> rfl
      | some child =>
        cases child with
        | object inner =>
          dsimp only
          rw [ih]
          cases hwrite : writeNode new (parents ++ [leaf]) (some (object inner)) with
          | none => rfl
          | some node =>
            -- What is written below a map is a map again.
            obtain ⟨seg', path, hpath⟩ : ∃ seg' path, parents ++ [leaf] = seg' :: path :=
              List.exists_cons_of_ne_nil (by simp)
            rw [hpath] at hwrite
            obtain ⟨_, _, _, _, rfl⟩ := writeNode_cons_eq_some hwrite
            rfl
        | _ => cases parents <;> rfl
    | _ => rfl

end Json

open Json

theorem setDotted_eq :
    setDotted root path v = (writeNode (some v) (Text.split path '.') (some root)).join := by
  obtain ⟨parents, leaf, hsplit⟩ :=
    (List.eq_nil_or_concat' _).resolve_left (Text.split_ne_nil path '.')
  rw [hsplit, ← updateAt_eq]
  simp only [setDotted, hsplit, List.getLast?_append, List.getLast?_singleton, Option.some_or,
    List.dropLast_concat]
  rfl

theorem removeDotted_eq :
    removeDotted root path = (writeNode none (Text.split path '.') (some root)).join := by
  obtain ⟨parents, leaf, hsplit⟩ :=
    (List.eq_nil_or_concat' _).resolve_left (Text.split_ne_nil path '.')
  rw [hsplit, ← updateAt_eq]
  simp only [removeDotted, hsplit, List.getLast?_append, List.getLast?_singleton, Option.some_or,
    List.dropLast_concat]
  congr 1
  funext fields
  cases hleaf : fields.lookup leaf <;> simp [writeNode, alterField]

end Cpex
