import Mathlib.Data.List.TakeWhile
import Cpex.Native.Expression
import Cpex.Spec.Flatten

/-! # Paths keyed by a request value

`data.t[k].f` is resolved by splicing the text of the attribute `k` into the path, and the
result is looked up among the dotted keys of the flattened tree. A text with a dot in it, or a
name of the tree with one, makes two places of the tree share a key.
-/

namespace Cpex

/-! ### The leaf at a location -/

mutual

/-- No object has two entries under one name; every `serde_json` value is like that. -/
def Json.distinctKeys : Json → Bool
  | .object fields => decide (fields.map Prod.fst).Nodup && Json.distinctFields fields
  | .null | .bool _ | .number _ | .string _ | .array _ => true

def Json.distinctFields : List (String × Json) → Bool
  | [] => true
  | (_, v) :: rest => Json.distinctKeys v && Json.distinctFields rest

end

/-- The leaf reached by a list of names. -/
def leafAt (root : Json) (names : List String) : Option AttributeValue :=
  (root.getSegs names).bind leafValue

mutual

theorem leafAt_of_mem (v : Json) (h : v.distinctKeys = true) (hmem : (names, a) ∈ leaves v) :
    leafAt v names = some a := by
  match v with
  | .object fields =>
    rw [Json.distinctKeys, Bool.and_eq_true, decide_eq_true_iff] at h
    obtain ⟨key, sub, rest, hfield, rfl, hleaf⟩ := leafAt_of_mem_fields fields h.2 hmem
    have hget : (Json.object fields).get key = some sub := List.lookup_eq_some_of_mem h.1 hfield
    unfold leafAt Json.getSegs
    rw [hget]
    exact hleaf
  | .null => exact nomatch hmem
  | .string _ | .bool _ => cases List.mem_singleton.mp hmem; rfl
  | .array _ | .number _ =>
    obtain ⟨b, hb, heq⟩ := List.mem_map.mp hmem
    cases heq
    exact Option.mem_toList.mp hb

theorem leafAt_of_mem_fields (fields : List (String × Json)) (h : Json.distinctFields fields = true)
    (hmem : (names, a) ∈ leavesFields fields) :
    ∃ key sub rest, (key, sub) ∈ fields ∧ names = key :: rest ∧ leafAt sub rest = some a := by
  match fields with
  | [] => exact nomatch hmem
  | (key, sub) :: rest =>
    rw [Json.distinctFields, Bool.and_eq_true] at h
    rcases List.mem_append.mp hmem with hsub | hrest
    · obtain ⟨l, hl, heq⟩ := List.mem_map.mp hsub
      cases heq
      exact ⟨key, sub, l.1, List.mem_cons_self, rfl, leafAt_of_mem sub h.1 hl⟩
    · obtain ⟨key', sub', names', hfield, hnames, hleaf⟩ := leafAt_of_mem_fields rest h.2 hrest
      exact ⟨key', sub', names', List.mem_cons_of_mem _ hfield, hnames, hleaf⟩

end

/-! ### What evaluation reads -/

def AttributeValue.bool? : AttributeValue → Option Bool
  | .bool b => some b
  | _ => none

def AttributeValue.string? : AttributeValue → Option String
  | .string s => some s
  | _ => none

def AttributeValue.stringSet? : AttributeValue → Option (Finset String)
  | .stringSet s => some s
  | _ => none

variable (bag : AttributeBag) (key : String)

theorem getBool_eq : bag.getBool key = (bag.get key).bind AttributeValue.bool? := by
  unfold AttributeBag.getBool
  cases bag.get key with
  | none => rfl
  | some a => cases a <;> rfl

theorem getString_eq : bag.getString key = (bag.get key).bind AttributeValue.string? := by
  unfold AttributeBag.getString
  cases bag.get key with
  | none => rfl
  | some a => cases a <;> rfl

theorem getStringSet_eq : bag.getStringSet key = (bag.get key).bind AttributeValue.stringSet? := by
  unfold AttributeBag.getStringSet
  cases bag.get key with
  | none => rfl
  | some a => cases a <;> rfl

theorem span_ne_append (h : c ∉ l) (rest : List Char) :
    (l ++ c :: rest).span (· ≠ c) = (l, c :: rest) := by
  have hne : ∀ x ∈ l, (decide (x ≠ c)) = true := fun x hx => by
    simpa using fun heq : x = c => h (heq ▸ hx)
  rw [List.span_eq_takeWhile_dropWhile, List.takeWhile_append_of_pos hne,
    List.dropWhile_append_of_pos hne]
  simp

theorem span_ne_of_notMem {c : Char} {l : List Char} (h : c ∉ l) :
    l.span (· ≠ c) = (l, []) := by
  have hne : ∀ x ∈ l, (decide (x ≠ c)) = true := fun x hx => by
    simpa using fun heq : x = c => h (heq ▸ hx)
  rw [List.span_eq_takeWhile_dropWhile, List.takeWhile_eq_self_iff.mpr hne,
    List.dropWhile_eq_nil_iff.mpr hne]

section

variable [Platform]

/-- The attribute a path stands for. -/
def AttributeBag.read (bag : AttributeBag) (path : String) : Option AttributeValue :=
  (bag.resolveKey path).bind bag.get

/-- A comparison against the value of an attribute. -/
def compareValue (attr : AttributeValue) (op : CompareOp) (lit : Literal) : Bool :=
  match op with
  | .contains =>
    match attr, lit with
    | .stringSet set, .string s => decide (s ∈ set)
    | _, _ => false
  | .eq => valuesEq attr lit
  | .notEq => !valuesEq attr lit
  | .gt | .gtEq | .lt | .ltEq => numericCompare attr lit op

/-- A condition in terms of the values its paths read. -/
def evalConditionOn (read : String → Option AttributeValue) : Condition → Bool
  | .isTrue key => ((read key).bind AttributeValue.bool?).getD false
  | .isFalse key => !((read key).bind AttributeValue.bool?).getD false
  | .exists key => (read key).isSome
  | .comparison key op lit => (read key).any fun attr => compareValue attr op lit
  | .inSet valueKey setKey negate =>
    let inSet :=
      match (read valueKey).bind AttributeValue.string?,
        (read setKey).bind AttributeValue.stringSet? with
      | some s, some set => decide (s ∈ set)
      | _, _ => false
    if negate then !inSet else inSet

/-- A `restrict` set in terms of the values its paths read. -/
def StringSetSpec.resolveOn (read : String → Option AttributeValue) :
    StringSetSpec → Option (List String)
  | .literal v => some v
  | .ref path =>
    match read path with
    | some (.stringSet s) => some (s.sort (· ≤ ·))
    | some (.string s) => some [s]
    | _ => none

theorem evalComparison_eq (key : String) (op : CompareOp) (lit : Literal) (bag : AttributeBag) :
    evalComparison key op lit bag = (bag.get key).any fun attr => compareValue attr op lit := by
  unfold evalComparison
  cases hget : bag.get key with
  | none => rfl
  | some attr =>
    cases op with
    | contains =>
      cases attr with
      | stringSet set =>
        cases lit with
        | string s => simp [compareValue, AttributeBag.setContains, AttributeBag.getStringSet, hget]
        | _ => rfl
      | _ => rfl
    | _ => rfl

/-- A condition depends on the bag through the values its paths read. -/
theorem evalCondition_eq_read (c : Condition) (bag : AttributeBag) :
    evalCondition c bag = evalConditionOn bag.read c := by
  cases c with
  | isTrue key | isFalse key =>
    simp only [evalCondition, evalConditionOn, AttributeBag.read, getBool_eq]
    cases bag.resolveKey key <;> rfl
  | «exists» key =>
    simp only [evalCondition, evalConditionOn, AttributeBag.read]
    cases bag.resolveKey key <;> rfl
  | comparison key op lit =>
    simp only [evalCondition, evalConditionOn, AttributeBag.read]
    cases bag.resolveKey key with
    | none => rfl
    | some k => exact evalComparison_eq k op lit bag
  | inSet valueKey setKey negate =>
    simp only [evalCondition, evalConditionOn, AttributeBag.read, getString_eq, getStringSet_eq]
    cases bag.resolveKey valueKey with
    | none => rfl
    | some vk =>
      cases bag.resolveKey setKey with
      | none =>
        -- The source gives up on either key, the reading form only once both are read.
        dsimp only [Option.bind_some, Option.bind_none]
        cases (bag.get vk).bind AttributeValue.string? <;> rfl
      | some sk => rfl

theorem resolve_eq_read (spec : StringSetSpec) (bag : AttributeBag) :
    spec.resolve bag = spec.resolveOn bag.read := by
  cases spec with
  | literal v => rfl
  | ref path =>
    unfold StringSetSpec.resolve StringSetSpec.resolveOn AttributeBag.read
    dsimp only
    cases bag.resolveKey path with
    | none => rfl
    | some key => rfl

/-! ### The resolved key -/

/-- One group is replaced by a dot and the text of its attribute. -/
theorem resolveKey_group (bag : AttributeBag) {before inner after x : String}
    (hbefore : '[' ∉ before.toList) (hinner : ']' ∉ inner.toList) (hafter : '[' ∉ after.toList)
    (hx : bag.scalarAsString (Text.trim inner) = some x) :
    bag.resolveKey (before ++ "[" ++ inner ++ "]" ++ after) =
      some (before ++ "." ++ x ++ after) := by
  have hchars : (before ++ "[" ++ inner ++ "]" ++ after).toList =
      before.toList ++ '[' :: (inner.toList ++ ']' :: after.toList) := by
    simp [String.toList_append]
  have hcontains : Text.containsChar (before ++ "[" ++ inner ++ "]" ++ after) '[' = true := by
    unfold Text.containsChar
    simp
  unfold AttributeBag.resolveKey
  rw [if_pos hcontains, hchars]
  -- The group, and then the rest, which has none.
  have hrest : ∀ fuel, bag.resolveChars fuel after.toList = some after.toList := by
    intro fuel
    cases fuel with
    | zero => rfl
    | succ fuel => unfold AttributeBag.resolveChars; rw [span_ne_of_notMem hafter]
  -- The fuel is the length, so there is enough for one group.
  obtain ⟨fuel, hfuel⟩ : ∃ fuel, (before.toList ++ '[' :: (inner.toList ++ ']' ::
      after.toList)).length = fuel + 1 :=
    ⟨before.toList.length + (inner.toList ++ ']' :: after.toList).length, by simp; omega⟩
  rw [hfuel]
  unfold AttributeBag.resolveChars
  rw [span_ne_append hbefore]
  dsimp only
  rw [span_ne_append hinner]
  dsimp only
  have hx' : bag.scalarAsString (String.ofList (Text.trimChars inner.toList)) = some x := hx
  rw [hx', hrest]
  simp [String.append_assoc]

/-! ### What an interpolated path reads -/

/-- The `data` namespace of the bag is the flattened tree. -/
def AttributeBag.HoldsData (bag : AttributeBag) (tree : Json) : Prop :=
  ∀ path, bag.get ("data." ++ path) = (extractData tree .new).get ("data." ++ path)

/-- The names a path `data.t[k].f` should lead through when `x` is the text of `k`. -/
def interpolatedNames (t x f : String) : List String :=
  Text.split t '.' ++ x :: Text.split f '.'

omit [Platform] in
theorem dotted_interpolatedNames :
    dotted (interpolatedNames t x f) = t ++ "." ++ x ++ "." ++ f := by
  unfold interpolatedNames
  rw [dotted_append (Text.split_ne_nil _ _) (List.cons_ne_nil _ _),
    dotted_cons x (Text.split_ne_nil _ _), dotted_split, dotted_split]
  simp only [String.append_assoc]

variable {tree : Json} {bag : AttributeBag} {t k f x : String}

/-- The path reads the last leaf that is spelled like it. -/
theorem read_interpolated (hdata : bag.HoldsData tree) (ht : '[' ∉ t.toList)
    (hk : ']' ∉ k.toList) (hf : '[' ∉ f.toList)
    (hx : bag.scalarAsString (Text.trim k) = some x) :
    bag.read ("data." ++ t ++ "[" ++ k ++ "]." ++ f) =
      (lastSpelled tree (t ++ "." ++ x ++ "." ++ f)).map Prod.snd := by
  have hbefore : '[' ∉ ("data." ++ t).toList := by
    simpa [String.toList_append] using ht
  have hafter : '[' ∉ ("." ++ f).toList := by
    simpa [String.toList_append] using hf
  have hresolved := resolveKey_group bag hbefore hk hafter hx
  have hpath : "data." ++ t ++ "[" ++ k ++ "]" ++ ("." ++ f) =
      "data." ++ t ++ "[" ++ k ++ "]." ++ f := by
    simp only [String.append_assoc]
    rfl
  have hkey : "data." ++ t ++ "." ++ x ++ ("." ++ f) =
      "data" ++ "." ++ (t ++ "." ++ x ++ "." ++ f) := by
    simp only [String.append_assoc]
    rfl
  rw [hpath, hkey] at hresolved
  unfold AttributeBag.read
  rw [hresolved]
  change bag.get ("data." ++ (t ++ "." ++ x ++ "." ++ f)) = _
  rw [hdata]
  -- The root itself is spelled with the empty text.
  have hbelow : ∀ l ∈ leaves tree, dotted l.1 = t ++ "." ++ x ++ "." ++ f → l.1 ≠ [] := by
    intro l _ heq hnil
    rw [hnil] at heq
    have hlength := congrArg String.length heq
    have hempty : (dotted []).length = 0 := rfl
    have hdot : ".".length = 1 := rfl
    simp only [String.length_append, hempty, hdot] at hlength
    omega
  refine (get_walk_below .new (by decide) hbelow).trans ?_
  cases (lastSpelled tree (t ++ "." ++ x ++ "." ++ f)).map Prod.snd <;> rfl

omit [Platform] in
/-- The value of the last leaf spelled like `names` is that at `names` as soon as the leaf is
    there. -/
theorem lastSpelled_value (hkeys : tree.distinctKeys = true)
    (honly : ∀ l, lastSpelled tree (dotted names) = some l → l.1 = names) :
    (lastSpelled tree (dotted names)).map Prod.snd = leafAt tree names := by
  cases hlast : lastSpelled tree (dotted names) with
  | some l =>
    have hmem : l ∈ leaves tree := by
      unfold lastSpelled at hlast
      rw [List.findRev?_eq_find?_reverse] at hlast
      exact List.mem_reverse.mp (List.mem_of_find?_eq_some hlast)
    have hl : (names, l.2) ∈ leaves tree := by
      rw [← honly l hlast]
      exact hmem
    exact (leafAt_of_mem tree hkeys hl).symm
  | none =>
    -- A leaf at `names` would itself be spelled like that.
    cases hleaf : leafAt tree names with
    | none => rfl
    | some a =>
      obtain ⟨v, hv, ha⟩ := Option.bind_eq_some_iff.mp hleaf
      exact absurd (by simp) (List.findRev?_eq_none.mp hlast _ (mem_leaves_of_getSegs hv ha))

omit [Platform] in
/-- When the last leaf spelled like `names` is at `names`: each one elsewhere is followed by one
    that is. -/
theorem lastSpelled_only_iff (tree : Json) (names : List String) :
    (∀ l, lastSpelled tree (dotted names) = some l → l.1 = names) ↔
      ∀ earlier l later, leaves tree = earlier ++ l :: later → dotted l.1 = dotted names →
        l.1 ≠ names → ∃ l' ∈ later, l'.1 = names := by
  unfold lastSpelled
  rw [List.forall_findRev?_iff]
  simp only [decide_eq_true_eq]
  refine forall_congr' fun earlier => forall_congr' fun l => forall_congr' fun later =>
    forall_congr' fun _ => forall_congr' fun _ => forall_congr' fun _ =>
      exists_congr fun l' => and_congr_right fun _ => ?_
  exact ⟨fun h => h.2, fun h => ⟨by rw [h], h⟩⟩

/-- A path reads the leaf at `names`, or nothing if there is none, and the leaf the bag's entry
    stems from, the last one spelled like `names`, is at no other location. -/
structure ReadsOnly (tree : Json) (bag : AttributeBag) (path : String) (names : List String) :
    Prop where
  value : bag.read path = leafAt tree names
  only : ∀ l, lastSpelled tree (dotted names) = some l → l.1 = names

/-- A request value used as an index stays one name of the path exactly if each leaf elsewhere
    that is spelled like the path is followed, in the order of the tree, by the leaf the path
    means. -/
theorem interpolated_reads_only_iff (tree : Json) (hkeys : tree.distinctKeys = true)
    (bag : AttributeBag) (hdata : bag.HoldsData tree) (t k f x : String) (ht : '[' ∉ t.toList)
    (hk : ']' ∉ k.toList) (hf : '[' ∉ f.toList)
    (hx : bag.scalarAsString (Text.trim k) = some x) :
    (ReadsOnly tree bag ("data." ++ t ++ "[" ++ k ++ "]." ++ f) (interpolatedNames t x f) ↔
        ∀ earlier l later, leaves tree = earlier ++ l :: later →
          dotted l.1 = t ++ "." ++ x ++ "." ++ f → l.1 ≠ interpolatedNames t x f →
          ∃ l' ∈ later, l'.1 = interpolatedNames t x f) ∧
      (∀ c, evalCondition c bag = evalConditionOn bag.read c) ∧
      ∀ spec : StringSetSpec, spec.resolve bag = spec.resolveOn bag.read := by
  refine ⟨?_, fun c => evalCondition_eq_read c bag, fun spec => resolve_eq_read spec bag⟩
  have hread := read_interpolated hdata ht hk hf hx
  have honly := lastSpelled_only_iff tree (interpolatedNames t x f)
  rw [← dotted_interpolatedNames] at hread ⊢
  constructor
  · intro hreads
    exact honly.mp hreads.only
  · intro hcond
    exact ⟨hread.trans (lastSpelled_value hkeys (honly.mpr hcond)), honly.mpr hcond⟩

end

/-! ### A tenant named after a place in the tree -/

section

attribute [local instance] Platform.bare

/-- Settings of one tenant, with those of its administrators below. -/
def tenantTree : Json :=
  .object [("tenants", .object [("acme", .object [
    ("admin", .object [("allowed", .string "all")]), ("region", .string "eu")])])]

/-- A request of a tenant. -/
def tenantBag (tenant : String) : AttributeBag :=
  (extractData tenantTree .new).set "subject.tenant" (.string tenant)

theorem tenantBag_holdsData (tenant : String) : (tenantBag tenant).HoldsData tenantTree := by
  intro path
  apply AttributeBag.get_set_ne
  intro heq
  simp [← String.toList_inj] at heq

/-- The region of tenant `acme` is read where it is. -/
theorem interpolated_reads_only_acme :
    ReadsOnly tenantTree (tenantBag "acme") "data.tenants[subject.tenant].region"
      ["tenants", "acme", "region"] := by
  refine (interpolated_reads_only_iff tenantTree (by decide) (tenantBag "acme")
    (tenantBag_holdsData "acme") "tenants" "subject.tenant" "region" "acme" (by decide) (by decide)
    (by decide) (by decide)).1.mpr ?_
  intro earlier l later hleaves hspelled hne
  have hmem : l ∈ leaves tenantTree := by
    rw [hleaves]
    simp
  rcases List.mem_cons.mp hmem with rfl | hmem
  · exact absurd hspelled (by decide)
  · rw [List.mem_singleton.mp hmem] at hne
    exact absurd rfl hne

/-- A tenant called `acme.admin` reads what the administrators of `acme` are allowed. -/
theorem interpolated_reads_elsewhere :
    leafAt tenantTree ["tenants", "acme.admin", "allowed"] = none ∧
      (tenantBag "acme.admin").read "data.tenants[subject.tenant].allowed" =
        some (.string "all") ∧
      ¬ ReadsOnly tenantTree (tenantBag "acme.admin") "data.tenants[subject.tenant].allowed"
        ["tenants", "acme.admin", "allowed"] := by
  have hread : (tenantBag "acme.admin").read "data.tenants[subject.tenant].allowed" =
      some (.string "all") := by decide
  refine ⟨by decide, hread, fun h => ?_⟩
  exact nomatch hread.symm.trans h.value

end

end Cpex
