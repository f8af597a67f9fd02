import Cpex.Spec.Flatten

/-! # The documents of the policy engines

OPA and CEL read the bag as a nested document. Both documents are functions of the bag: the
order in which it is iterated does not show. A key that no other key continues is a value, what
keys continue is a namespace, there is nothing else, and the two documents have the same paths.
-/

namespace Cpex

variable {α : Type}

/-- `read` reads a document of the bag, with values made by `leaf` and namespaces by `object`. -/
structure AttributeBag.IsDocument (bag : AttributeBag) (leaf : AttributeValue → α)
    (object : List (String × α) → α) (read : List String → Option α) : Prop where
  value_iff : ∀ path ≠ [], ∀ v, (read path = some v ∧ ∀ entries, v ≠ object entries) ↔
    ∃ key a, bag.get key = some a ∧ path = Text.split key '.' ∧ v = leaf a ∧
      ∀ key', (bag.get key').isSome → ¬ ∃ rest, key' = key ++ "." ++ rest
  namespace_iff : ∀ path ≠ [], (∃ entries, read path = some (object entries)) ↔
    ∃ key, (bag.get key).isSome ∧ path <+: Text.split key '.' ∧ path ≠ Text.split key '.'

variable {bag : AttributeBag} {leaf : AttributeValue → α} {object : List (String × α) → α}
  {read : List String → Option α}

/-- What is read off the tree of an iteration is a document. -/
theorem AttributeBag.Iterates.isDocument (h : bag.Iterates iter)
    (hleaf : ∀ a entries, leaf a ≠ object entries) (hread : ∀ path ≠ [], read path =
      (NameTree.get (bagTree leaf iter) path).map (NameTree.toValue object)) :
    bag.IsDocument leaf object read := by
  constructor
  · intro path hpath v
    rw [← bagTree_leaf_iff leaf h hpath, hread path hpath]
    constructor
    · rintro ⟨hv, hne⟩
      obtain ⟨node, hnode, rfl⟩ := Option.map_eq_some_iff.mp hv
      cases node with
      | leaf w => exact hnode
      | branch entries => exact absurd rfl (hne _)
    · intro hv
      rw [hv]
      exact ⟨rfl, h.leaf_ne leaf hleaf path v hv⟩
  · intro path hpath
    rw [← bagTree_branch_iff leaf h hpath, hread path hpath]
    constructor
    · rintro ⟨entries, hentries⟩
      obtain ⟨node, hnode, heq⟩ := Option.map_eq_some_iff.mp hentries
      cases node with
      | leaf w => exact absurd heq (h.leaf_ne leaf hleaf path w hnode entries)
      | branch entries => exact ⟨entries, hnode⟩
    · rintro ⟨entries, hentries⟩
      rw [hentries]
      exact ⟨_, rfl⟩

/-- The paths of a document are those on the way to a key. -/
theorem AttributeBag.IsDocument.isSome_iff (h : bag.IsDocument leaf object read) (hpath : path ≠ []) :
    (read path).isSome ↔ ∃ key, (bag.get key).isSome ∧ path <+: Text.split key '.' := by
  constructor
  · intro hsome
    obtain ⟨v, hv⟩ := Option.isSome_iff_exists.mp hsome
    by_cases hobject : ∃ entries, v = object entries
    · obtain ⟨entries, rfl⟩ := hobject
      obtain ⟨key, hkey, hpre, -⟩ := (h.namespace_iff path hpath).mp ⟨entries, hv⟩
      exact ⟨key, hkey, hpre⟩
    · push Not at hobject
      obtain ⟨key, a, hkey, rfl, -⟩ := (h.value_iff path hpath v).mp ⟨hv, hobject⟩
      exact ⟨key, by rw [hkey]; rfl, List.prefix_rfl⟩
  · rintro ⟨key, hkey, hpre⟩
    by_cases hext : ∃ key, (bag.get key).isSome ∧ path <+: Text.split key '.' ∧
        path ≠ Text.split key '.'
    · obtain ⟨entries, hentries⟩ := (h.namespace_iff path hpath).mpr hext
      rw [hentries]
      rfl
    · push Not at hext
      obtain ⟨a, ha⟩ := Option.isSome_iff_exists.mp hkey
      have hself := hext key hkey hpre
      have hvalue := (h.value_iff path hpath (leaf a)).mpr
        ⟨key, a, ha, hself, rfl, fun key' hkey' hrest => ?_⟩
      · rw [hvalue.1]
        rfl
      · obtain ⟨hpre', hne⟩ := split_extends_iff.mpr hrest
        rw [← hself] at hpre' hne
        exact hne (hext key' hkey' hpre')

/-- The input of OPA and the tree of CEL are the same for every iteration of the bag, are
    documents of it, and have the same paths. -/
theorem pdp_documents (bag : AttributeBag) (iter iter' : List (String × AttributeValue))
    (h : bag.Iterates iter) (h' : bag.Iterates iter') :
    let input := Opa.bagToInput iter
    let tree := Cel.nodeToValue (.branch (bagTree Cel.attrToValue iter))
    Opa.bagToInput iter' = input ∧
      Cel.nodeToValue (.branch (bagTree Cel.attrToValue iter')) = tree ∧
      bag.IsDocument Opa.attrToValue .object input.getSegs ∧
      bag.IsDocument Cel.attrToValue .map tree.getSegs ∧
      ∀ path, (input.getSegs path).isSome = (tree.getSegs path).isSome := by
  intro input tree
  have hopa : bag.IsDocument Opa.attrToValue .object input.getSegs :=
    h.isDocument Opa.attrToValue_ne_object fun _ => Opa.getSegs_bagToInput h
  have hcel : bag.IsDocument Cel.attrToValue .map tree.getSegs :=
    h.isDocument Cel.attrToValue_ne_map fun _ => Cel.getSegs_nodeToValue h
  refine ⟨?_, ?_, hopa, hcel, fun path => ?_⟩
  · exact congrArg (fun level => Opa.nodeToValue (.branch level)) (h'.bagTree_eq _ h)
  · rw [h'.bagTree_eq _ h]
  · by_cases hpath : path = []
    · rw [hpath]
      rfl
    · rw [Bool.eq_iff_iff, hopa.isSome_iff hpath, hcel.isSome_iff hpath]

/-- A key and one that continues it, in both orders. -/
theorem pdp_documents_both_orders :
    Opa.bagToInput [("a.b", .int 1), ("a", .int 2)] =
      Opa.bagToInput [("a", .int 2), ("a.b", .int 1)] :=
  (pdp_documents ((AttributeBag.new.set "a.b" (.int 1)).set "a" (.int 2))
    [("a", .int 2), ("a.b", .int 1)] [("a.b", .int 1), ("a", .int 2)] (List.Perm.refl _)
    (List.Perm.swap _ _ _)).1

end Cpex
