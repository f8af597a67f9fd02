import Cpex.ForStd.AList
import Cpex.Native.Payload
import Cpex.Native.PdpInput

/-! # What flattening arguments preserves

Arguments are read in three ways: field pipelines follow a dotted path through the JSON
(`getDotted`), predicates look the path up in the bag, and the policy engines read the tree
rebuilt from the bag. The three agree on a path unless two places of the JSON spell it the same
way, or something else continues it.
-/

namespace Cpex

/-! ### Dotted texts -/

/-- Names joined by dots. -/
def dotted (names : List String) : String := ".".intercalate names

theorem splitChars_eq_splitOn : Text.splitChars c cs = cs.splitOn c := by
  induction cs with
  | nil => rfl
  | cons x xs ih =>
    unfold Text.splitChars
    rw [ih]
    rw [List.splitOn_cons_eq_if_modifyHead]
    by_cases hx : x = c
    · rw [if_pos hx, if_pos (beq_iff_eq.mpr hx)]
    · rw [if_neg hx, if_neg (by simpa using hx)]
      -- The character joins the first piece, of which there is always one.
      cases hpieces : xs.splitOn c with
      | nil => exact absurd (ih.trans hpieces) (Text.splitChars_ne_nil c xs)
      | cons piece pieces => rfl

theorem dotted_split (path : String) : dotted (Text.split path '.') = path := by
  apply String.toList_inj.mp
  unfold dotted Text.split
  rw [String.toList_intercalate, splitChars_eq_splitOn, List.map_map]
  have hid : String.toList ∘ String.ofList = id := by
    funext cs
    simp
  rw [hid, List.map_id]
  exact List.intercalate_splitOn '.'

/-- Splitting cuts at every dot. -/
theorem split_append (path rest : String) :
    Text.split (path ++ "." ++ rest) '.' = Text.split path '.' ++ Text.split rest '.' := by
  unfold Text.split
  have hdot : ".".toList = ['.'] := rfl
  rw [String.toList_append, String.toList_append, hdot, List.append_assoc, List.singleton_append,
    splitChars_eq_splitOn, splitChars_eq_splitOn, splitChars_eq_splitOn,
    List.splitOn_append_cons_self, List.map_append]

variable {names : List String}

theorem dotted_append (h : names ≠ []) (h' : names' ≠ []) :
    dotted (names ++ names') = dotted names ++ "." ++ dotted names' :=
  String.intercalate_append_of_ne_nil h h'

theorem dotted_cons (name : String) (h : names ≠ []) :
    dotted (name :: names) = name ++ "." ++ dotted names :=
  String.intercalate_cons_of_ne_nil h

variable {path key : String}

/-- A key continues `path` exactly if its names continue the names of `path`. -/
theorem split_extends_iff :
    (Text.split path '.' <+: Text.split key '.' ∧ Text.split path '.' ≠ Text.split key '.') ↔
      ∃ rest, key = path ++ "." ++ rest := by
  constructor
  · rintro ⟨⟨more, hmore⟩, hne⟩
    -- The names that are left over spell the rest.
    have hmore' : more ≠ [] := by
      rintro rfl
      exact hne (by rw [← hmore, List.append_nil])
    refine ⟨dotted more, ?_⟩
    rw [← dotted_split key, ← hmore, dotted_append (Text.split_ne_nil _ _) hmore', dotted_split]
  · rintro ⟨rest, rfl⟩
    rw [split_append]
    refine ⟨List.prefix_append _ _, fun heq => ?_⟩
    exact Text.split_ne_nil rest '.' (List.self_eq_append_right.mp heq)

theorem split_inj (h : Text.split path '.' = Text.split key '.') : path = key := by
  rw [← dotted_split path, h, dotted_split]

/-- No path continues itself. -/
theorem ne_append_dot (path rest : String) : path ≠ path ++ "." ++ rest := by
  intro heq
  have hlength := congrArg String.length heq
  have hdot : ".".length = 1 := rfl
  rw [String.length_append, String.length_append, hdot] at hlength
  omega

theorem dotted_cons_cons : dotted (a :: b :: names) = dotted ((a ++ "." ++ b) :: names) := by
  cases names with
  | nil => rw [dotted_cons a (List.cons_ne_nil _ _)]; rfl
  | cons c names =>
    rw [dotted_cons a (List.cons_ne_nil _ _), dotted_cons b (List.cons_ne_nil _ _),
      dotted_cons _ (List.cons_ne_nil _ _)]
    simp only [String.append_assoc]

/-! ### The leaves of a JSON value -/

/-- What `walk` writes for a value that is not an object. -/
def leafValue : Json → Option AttributeValue
  | .object _ => none
  | .array items => (stringItems items).map .stringSet
  | .string s => some (.string s)
  | .bool b => some (.bool b)
  | .number n =>
    match (Json.number n).asI64 with
    | some i => some (.int i)
    | none => some (.float n.asF64)
  | .null => none

mutual

/-- The leaves with the names that lead to them, in the order `walk` writes them. -/
def leaves : Json → List (List String × AttributeValue)
  | .object fields => leavesFields fields
  | .array items => (leafValue (.array items)).toList.map fun a => ([], a)
  | .string s => [([], .string s)]
  | .bool b => [([], .bool b)]
  | .number n => (leafValue (.number n)).toList.map fun a => ([], a)
  | .null => []

def leavesFields : List (String × Json) → List (List String × AttributeValue)
  | [] => []
  | (key, sub) :: rest => (leaves sub).map (fun l => (key :: l.1, l.2)) ++ leavesFields rest

end

variable {v : Json} {a : AttributeValue}

theorem leaves_of_leafValue (h : leafValue v = some a) : leaves v = [([], a)] := by
  cases v with
  | null | object _ => exact nomatch h
  | string _ | bool _ => cases h; rfl
  | array _ | number _ => unfold leaves; rw [h]; rfl

/-- Every leaf of an object has a name. -/
theorem ne_nil_of_mem_leavesFields (h : leaf ∈ leavesFields fields) : leaf.1 ≠ [] := by
  induction fields with
  | nil => exact nomatch h
  | cons field rest ih =>
    rw [leavesFields, List.mem_append] at h
    rcases h with h | h
    · obtain ⟨l, -, rfl⟩ := List.mem_map.mp h
      exact List.cons_ne_nil _ _
    · exact ih h

theorem mem_leavesFields_of_lookup {fields : List (String × Json)}
    (h : fields.lookup key = some sub) (hl : l ∈ leaves sub) :
    (key :: l.1, l.2) ∈ leavesFields fields := by
  induction fields with
  | nil => exact nomatch h
  | cons field rest ih =>
    rw [leavesFields, List.mem_append]
    rw [List.lookup_cons_ite] at h
    split at h
    · -- A key that occurs again later is still found here, and its leaves come first.
      rename_i hk
      cases h
      rw [hk]
      exact .inl (List.mem_map_of_mem hl)
    · exact .inr (ih h)

/-- A leaf found by following names is one of the leaves. -/
theorem mem_leaves_of_getSegs {root : Json} (h : root.getSegs names = some v)
    (ha : leafValue v = some a) : (names, a) ∈ leaves root := by
  induction names generalizing root with
  | nil =>
    cases h
    rw [leaves_of_leafValue ha]
    exact List.mem_singleton_self _
  | cons name names ih =>
    obtain ⟨next, hnext, hrest⟩ := Option.bind_eq_some_iff.mp h
    cases root with
    | object fields => exact mem_leavesFields_of_lookup hnext (ih hrest)
    -- Only objects have fields to follow.
    | null | bool _ | number _ | string _ | array _ => exact nomatch hnext

/-! ### The bag after flattening -/

mutual

/-- `walk` writes every leaf under its dotted name. -/
theorem walk_eq_foldl (v : Json) (path : String) (bag : AttributeBag) (h : path ≠ "") :
    walk v path bag =
      (leaves v).foldl (fun bag l => bag.set (dotted (path :: l.1)) l.2) bag := by
  cases v with
  | object fields => exact walkFields_eq_foldl fields path bag h
  | null | string _ | bool _ => rfl
  | array items =>
    unfold walk leaves leafValue
    dsimp only
    cases stringItems items <;> rfl
  | number n =>
    unfold walk leaves leafValue
    dsimp only
    cases (Json.number n).asI64 <;> rfl

theorem walkFields_eq_foldl (fields : List (String × Json)) (path : String) (bag : AttributeBag)
    (h : path ≠ "") :
    walkFields fields path bag =
      (leavesFields fields).foldl (fun bag l => bag.set (dotted (path :: l.1)) l.2) bag := by
  match fields with
  | [] => rfl
  | (key, sub) :: rest =>
    -- Below a name the path is never empty, so `walk` always puts a dot.
    have hne : path ++ "." ++ key ≠ "" := by
      simp [String.append_eq_empty_iff]
    rw [walkFields, leavesFields, List.foldl_append, List.foldl_map, if_neg h,
      walkFields_eq_foldl rest path _ h, walk_eq_foldl sub _ _ hne]
    simp only [dotted_cons_cons]

end

theorem AttributeBag.get_foldl_set {α : Type} (key : α → String) (value : α → AttributeValue)
    (l : List α) (bag : AttributeBag) (k : String) :
    (l.foldl (fun bag x => bag.set (key x) (value x)) bag).get k =
      ((l.findRev? fun x => key x = k).map value).or (bag.get k) := by
  induction l using List.reverseRecOn with
  | nil => rfl
  | append_singleton l x ih =>
    -- The last write decides, or else those before it.
    rw [List.foldl_append, List.foldl_cons, List.foldl_nil]
    by_cases hk : key x = k
    · subst hk
      simp
    · rw [AttributeBag.get_set_ne _ _ (Ne.symm hk), ih]
      simp [hk]

/-- Under a key the bag holds the last leaf whose names join to it. -/
theorem get_walk (v : Json) (bag : AttributeBag) (h : path ≠ "") (key : String) :
    (walk v path bag).get key =
      (((leaves v).findRev? fun l => dotted (path :: l.1) = key).map Prod.snd).or (bag.get key) := by
  rw [walk_eq_foldl v path bag h, AttributeBag.get_foldl_set]

/-! ### The trees rebuilt from a bag -/

/-- `iter` is an iteration over the bag: its entries, in some order. -/
def AttributeBag.Iterates (bag : AttributeBag) (iter : List (String × AttributeValue)) : Prop :=
  iter.Perm (bag.attrs.entries.map fun e => (e.1, e.2))

variable {iter : List (String × AttributeValue)}

theorem AttributeBag.Iterates.mem_iff {bag : AttributeBag} (h : bag.Iterates iter) :
    (key, a) ∈ iter ↔ bag.get key = some a := by
  rw [List.Perm.mem_iff h]
  constructor
  · intro hmem
    obtain ⟨e, he, heq⟩ := List.mem_map.mp hmem
    cases heq
    exact (List.mem_dlookup_iff bag.attrs.nodupKeys).mpr he
  · intro hget
    have hentry : (⟨key, a⟩ : Sigma fun _ : String => AttributeValue) ∈ bag.attrs.entries :=
      (List.mem_dlookup_iff bag.attrs.nodupKeys).mp hget
    exact List.mem_map.mpr ⟨_, hentry, rfl⟩

section Tree

variable {α : Type} (leaf : AttributeValue → α) {bag : AttributeBag}
  {iter : List (String × AttributeValue)} (h : bag.Iterates iter)

include h

/-- A bag has each key once. -/
theorem AttributeBag.Iterates.nodup :
    ((iter.map fun e => (Text.split e.1 '.', leaf e.2)).map Prod.fst).Nodup := by
  have hkeys : (iter.map Prod.fst).Nodup := by
    rw [(h.map Prod.fst).nodup_iff, List.map_map]
    exact bag.attrs.keys_nodup
  have hpaths := hkeys.map (f := fun key => Text.split key '.') fun _ _ => split_inj
  rw [List.map_map] at hpaths ⊢
  exact hpaths

/-- The tree does not depend on the order in which the bag is iterated. -/
theorem AttributeBag.Iterates.bagTree_eq (h' : bag.Iterates iter') :
    bagTree leaf iter = bagTree leaf iter' :=
  NameTree.build_perm ((h.trans h'.symm).map _) (h.nodup leaf)

variable {path : List String}

/-- The namespaces of the tree. -/
theorem bagTree_branch_iff (hpath : path ≠ []) :
    (∃ entries, NameTree.get (bagTree leaf iter) path = some (.branch entries)) ↔
      ∃ key, (bag.get key).isSome ∧ path <+: Text.split key '.' ∧ path ≠ Text.split key '.' := by
  unfold bagTree
  rw [NameTree.get_build_branch_iff hpath]
  constructor
  · rintro ⟨w, hw, hext⟩
    obtain ⟨e, he, rfl⟩ := List.mem_map.mp hw
    exact ⟨e.1, by rw [h.mem_iff.mp he]; rfl, hext⟩
  · rintro ⟨key, hkey, hext⟩
    obtain ⟨a, ha⟩ := Option.isSome_iff_exists.mp hkey
    exact ⟨_, List.mem_map_of_mem (h.mem_iff.mpr ha), hext⟩

/-- The values of the tree. -/
theorem bagTree_leaf_iff (hpath : path ≠ []) {v : α} :
    NameTree.get (bagTree leaf iter) path = some (.leaf v) ↔
      ∃ key a, bag.get key = some a ∧ path = Text.split key '.' ∧ v = leaf a ∧
        ∀ key', (bag.get key').isSome → ¬ ∃ rest, key' = key ++ "." ++ rest := by
  unfold bagTree
  rw [NameTree.get_build_leaf_iff hpath (h.nodup leaf), List.forall_mem_map, List.mem_map]
  constructor
  · rintro ⟨⟨⟨key, a⟩, he, heq⟩, hnot⟩
    cases heq
    refine ⟨key, a, h.mem_iff.mp he, rfl, rfl, fun key' hkey' hext => ?_⟩
    obtain ⟨b, hb⟩ := Option.isSome_iff_exists.mp hkey'
    obtain ⟨hpre, hne⟩ := split_extends_iff.mpr hext
    exact hne (hnot (key', b) (h.mem_iff.mpr hb) hpre)
  · rintro ⟨key, a, hget, rfl, rfl, hnot⟩
    refine ⟨⟨(key, a), h.mem_iff.mpr hget, rfl⟩, fun e he hpre => ?_⟩
    by_contra hne
    refine hnot e.1 ?_ (split_extends_iff.mp ⟨hpre, hne⟩)
    rw [h.mem_iff.mp he]
    rfl

theorem AttributeBag.Iterates.leaf_ne {object : List (String × α) → α}
    (hne : ∀ a entries, leaf a ≠ object entries) (path : List String) (v : α)
    (hv : NameTree.get (bagTree leaf iter) path = some (.leaf v)) (entries : List (String × α)) :
    v ≠ object entries := by
  cases path with
  | nil => exact nomatch hv
  | cons name path =>
    obtain ⟨-, a, -, -, rfl, -⟩ := (bagTree_leaf_iff leaf h (List.cons_ne_nil _ _)).mp hv
    exact hne a entries

/-- A key that another one continues is a namespace. -/
theorem bagTree_get_of_extended (hget : bag.get key' = some a)
    (hext : ∃ rest, key' = key ++ "." ++ rest) :
    ∃ entries, NameTree.get (bagTree leaf iter) (Text.split key '.') = some (.branch entries) :=
  (bagTree_branch_iff leaf h (Text.split_ne_nil _ _)).mpr
    ⟨key', by rw [hget]; rfl, split_extends_iff.mpr hext⟩

/-- Any other key of the bag is a leaf. -/
theorem bagTree_get (hget : bag.get key = some a)
    (hnot : ∀ key', (bag.get key').isSome → ¬ ∃ rest, key' = key ++ "." ++ rest) :
    NameTree.get (bagTree leaf iter) (Text.split key '.') = some (.leaf (leaf a)) :=
  (bagTree_leaf_iff leaf h (Text.split_ne_nil _ _)).mpr ⟨key, a, hget, rfl, rfl, hnot⟩

end Tree

/-! ### Reading the documents -/

/-- The value of a JSON scalar that is a string, a boolean or an integer. -/
def Json.scalar : Json → Option AttributeValue
  | .string s => some (.string s)
  | .bool b => some (.bool b)
  | .number (.posInt n) => some (.int n)
  | .number (.negInt i) => some (.int i)
  | _ => none

namespace CelValue

/-- Field selection. -/
def get (v : CelValue) (key : String) : Option CelValue :=
  match v with
  | .map entries => entries.lookup key
  | _ => none

/-- Field selection along a path. -/
def getSegs (v : CelValue) : List String → Option CelValue
  | [] => some v
  | key :: keys => (v.get key).bind fun next => getSegs next keys

def scalar : CelValue → Option AttributeValue
  | .string s => some (.string s)
  | .bool b => some (.bool b)
  | .int i => some (.int i)
  | _ => none

end CelValue

theorem Opa.attrToValue_ne_object (a : AttributeValue) (fields : List (String × Json)) :
    Opa.attrToValue a ≠ .object fields := by
  cases a with
  | float x =>
    change Opa.floatToValue x ≠ _
    unfold Opa.floatToValue
    repeat' split
    all_goals simp
  | bool _ | int _ | string _ | stringSet _ => simp [Opa.attrToValue]

theorem Cel.attrToValue_ne_map (a : AttributeValue) (entries : List (String × CelValue)) :
    Cel.attrToValue a ≠ .map entries := by
  cases a with
  | float x =>
    change Cel.floatToValue x ≠ _
    unfold Cel.floatToValue
    split <;> simp
  | bool _ | int _ | string _ | stringSet _ => simp [Cel.attrToValue]

section Documents

variable {bag : AttributeBag} {path : List String}

/-- A path of the input document leads where it leads in the tree. -/
theorem Opa.getSegs_bagToInput (h : bag.Iterates iter) (hpath : path ≠ []) :
    (Opa.bagToInput iter).getSegs path =
      (NameTree.get (bagTree Opa.attrToValue iter) path).map Opa.nodeToValue := by
  refine NameTree.read_toEntries .object Json.get Json.getSegs (fun _ _ => rfl) (fun v key hv => ?_)
    (fun _ => rfl) (fun _ _ _ => rfl) hpath (h.leaf_ne _ Opa.attrToValue_ne_object)
  cases v with
  | object fields => exact absurd rfl (hv fields)
  | null | bool _ | number _ | string _ | array _ => rfl

/-- The tree of a CEL activation as a value. -/
theorem Cel.getSegs_nodeToValue (h : bag.Iterates iter) (hpath : path ≠ []) :
    (Cel.nodeToValue (.branch (bagTree Cel.attrToValue iter))).getSegs path =
      (NameTree.get (bagTree Cel.attrToValue iter) path).map Cel.nodeToValue := by
  refine NameTree.read_toEntries .map CelValue.get CelValue.getSegs (fun _ _ => rfl)
    (fun v key hv => ?_) (fun _ => rfl) (fun _ _ _ => rfl) hpath (h.leaf_ne _ Cel.attrToValue_ne_map)
  cases v with
  | map entries => exact absurd rfl (hv entries)
  | null | bool _ | int _ | float _ | string _ | list _ => rfl

/-- The loop of `bag_to_context` inserts the entries of the tree. -/
theorem Cel.foldl_insert_nodes (level : List (String × NameTree String CelValue))
    (ctx : HashMap String CelValue) :
    level.foldl (fun ctx e => ctx.insert e.1 (Cel.nodeToValue e.2)) ctx =
      (NameTree.toEntries CelValue.map level).foldl (fun ctx e => ctx.insert e.1 e.2) ctx := by
  induction level generalizing ctx with
  | nil => rfl
  | cons entry rest ih => exact ih _

/-- A variable of the activation is the bag's namespace of that name, if it has one. -/
theorem Cel.lookup_bagToContext (iter : List (String × AttributeValue)) (extraArgs : Yaml)
    (name : String) :
    (Cel.bagToContext iter extraArgs).lookup name =
      (((bagTree Cel.attrToValue iter).lookup name).map Cel.nodeToValue).or
        ((Cel.extraVariables extraArgs).lookup name) := by
  let level := bagTree Cel.attrToValue iter
  have hnodup : ((NameTree.toEntries CelValue.map level).map Prod.fst).Nodup := by
    rw [NameTree.map_fst_toEntries]
    exact (NameTree.pairwise_build _).imp ne_of_lt
  unfold Cel.bagToContext
  rw [Cel.foldl_insert_nodes, AList.lookup_foldl_insert_of_nodup hnodup, NameTree.lookup_toEntries]
  rfl

/-- What is in the tree under `name` is found in the variable `name`. -/
theorem Cel.getSegs_bagToContext (h : bag.Iterates iter) (extraArgs : Yaml)
    (hnode : NameTree.get (bagTree Cel.attrToValue iter) (name :: path) = some node) :
    ((Cel.bagToContext iter extraArgs).lookup name).bind (·.getSegs path) =
      some (Cel.nodeToValue node) := by
  have hread := Cel.getSegs_nodeToValue h (List.cons_ne_nil name path)
  rw [hnode] at hread
  change ((NameTree.toEntries CelValue.map _).lookup name).bind _ = _ at hread
  rw [NameTree.lookup_toEntries] at hread
  rw [Cel.lookup_bagToContext]
  cases hname : (bagTree Cel.attrToValue iter).lookup name with
  | none => rw [hname] at hread; exact nomatch hread
  | some top => rw [hname] at hread; exact hread

end Documents

/-! ### Arguments -/

/-- The last leaf, in the order of the tree, whose names join to `path`. -/
def lastSpelled (root : Json) (path : String) : Option (List String × AttributeValue) :=
  (leaves root).findRev? fun l => dotted l.1 = path

/-- A path below the name a value is flattened under. -/
theorem get_walk_below (bag : AttributeBag) (hname : name ≠ "")
    (hnames : ∀ l ∈ leaves root, dotted l.1 = path → l.1 ≠ []) :
    (walk root name bag).get (name ++ "." ++ path) =
      ((lastSpelled root path).map Prod.snd).or (bag.get (name ++ "." ++ path)) := by
  rw [get_walk _ bag hname]
  congr 2
  apply List.findRev?_congr
  intro l hl
  by_cases hl' : l.1 = []
  · -- The value itself is written under `name`.
    have hpath : dotted l.1 ≠ path := fun heq => hnames l hl heq hl'
    have hkey : dotted (name :: l.1) ≠ name ++ "." ++ path := by
      rw [hl']
      exact ne_append_dot name path
    simp [hpath, hkey]
  · rw [dotted_cons name hl']
    simp

/-- An argument path in the bag. -/
theorem get_extractArgs :
    (extractArgs (.object fields) bag).get ("args." ++ path) =
      ((lastSpelled (.object fields) path).map Prod.snd).or (bag.get ("args." ++ path)) :=
  get_walk_below bag (by decide) fun _ hl _ => ne_nil_of_mem_leavesFields hl

theorem dotted_args (h : names ≠ []) : dotted ("args" :: names) = "args." ++ dotted names :=
  dotted_cons "args" h

/-- Flattening writes under `args` and `args.*` only. -/
theorem get_extractArgs_of_other (args : Json) (bag : AttributeBag) (hroot : key ≠ "args")
    (hbelow : ∀ rest, key ≠ "args." ++ rest) : (extractArgs args bag).get key = bag.get key := by
  unfold extractArgs
  rw [get_walk _ bag (by decide)]
  have hnone : (leaves args).findRev? (fun l => dotted ("args" :: l.1) = key) = none := by
    rw [List.findRev?_eq_none]
    intro l hl heq
    have heq : dotted ("args" :: l.1) = key := by simpa using heq
    by_cases hnames : l.1 = []
    · rw [hnames] at heq
      exact hroot heq.symm
    · rw [dotted_args hnames] at heq
      exact hbelow _ heq.symm
  rw [hnone]
  rfl

theorem exists_leafValue_of_scalar (h : v.scalar = some a) : ∃ b, leafValue v = some b := by
  cases v with
  | null | array _ | object _ => exact nomatch h
  | string _ | bool _ => exact ⟨_, rfl⟩
  | number n =>
    unfold leafValue
    dsimp only
    cases (Json.number n).asI64 <;> exact ⟨_, rfl⟩

/-- Scalars keep their value on the way into the documents. -/
theorem scalar_attrToValue (h : v.scalar = some a) :
    (Opa.attrToValue a).scalar = some a ∧ (Cel.attrToValue a).scalar = some a := by
  have hint : ∀ i : Int, (Opa.attrToValue (.int i)).scalar = some (.int i) := by
    intro i
    simp only [Opa.attrToValue, Number.ofI64]
    split
    · -- A nonnegative integer comes back as a `posInt`, of the same value.
      rename_i hi
      simp only [Json.scalar]
      rw [Int.toNat_of_nonneg hi]
    · rfl
  cases v with
  | null | array _ | object _ => exact nomatch h
  | string _ | bool _ => cases h; exact ⟨rfl, rfl⟩
  | number n =>
    cases n with
    | float x => exact nomatch h
    | posInt _ | negInt _ => cases h; exact ⟨hint _, rfl⟩

/-- The bag, every CEL activation and every OPA input built from it hold `a` for an argument
    path. -/
structure HoldsArg (bag : AttributeBag) (path : String) (a : AttributeValue) : Prop where
  held : bag.get ("args." ++ path) = some a
  cel : ∀ iter extraArgs, bag.Iterates iter →
    (((Cel.bagToContext iter extraArgs).lookup "args").bind
      (·.getSegs (Text.split path '.'))).bind CelValue.scalar = some a
  opa : ∀ iter, bag.Iterates iter →
    ((Opa.bagToInput iter).getSegs ("args" :: Text.split path '.')).bind Json.scalar = some a

/-- Neither another argument nor another key of the bag continues an argument path. -/
def NotContinued (args : Json) (bag : AttributeBag) (path : String) : Prop :=
  (∀ l ∈ leaves args, ∀ rest, dotted l.1 ≠ path ++ "." ++ rest) ∧
    ∀ rest, bag.get ("args." ++ path ++ "." ++ rest) = none

theorem split_args : Text.split ("args." ++ path) '.' = "args" :: Text.split path '.' :=
  split_append "args" path

/-- What continues an argument path in the flattened bag. -/
theorem notContinued_iff :
    NotContinued (.object fields) bag path ↔
      ∀ key, ((extractArgs (.object fields) bag).get key).isSome →
        ¬ ∃ rest, key = "args." ++ path ++ "." ++ rest := by
  have hnone (rest : String) :
      (extractArgs (.object fields) bag).get ("args." ++ path ++ "." ++ rest) = none ↔
        (∀ l ∈ leaves (.object fields), dotted l.1 ≠ path ++ "." ++ rest) ∧
          bag.get ("args." ++ path ++ "." ++ rest) = none := by
    have hassoc : "args." ++ path ++ "." ++ rest = "args." ++ (path ++ "." ++ rest) := by
      simp only [String.append_assoc]
    rw [hassoc, get_extractArgs, Option.or_eq_none_iff, Option.map_eq_none_iff, lastSpelled,
      List.findRev?_eq_none]
    simp
  constructor
  · rintro ⟨hleaves, hbag⟩ key hsome ⟨rest, rfl⟩
    rw [(hnone rest).mpr ⟨fun l hl => hleaves l hl rest, hbag rest⟩] at hsome
    exact nomatch hsome
  · intro hnot
    have hparts (rest : String) := (hnone rest).mp <| Option.not_isSome_iff_eq_none.mp fun hsome =>
      hnot _ hsome ⟨rest, rfl⟩
    exact ⟨fun l hl rest => (hparts rest).1 l hl, fun rest => (hparts rest).2⟩

/-- A continued path is a namespace of the input document, and no scalar. -/
theorem HoldsArg.not_extended {bag : AttributeBag} (h : HoldsArg bag path a)
    (hget : bag.get key = some b) : ¬ ∃ rest, key = "args." ++ path ++ "." ++ rest := by
  intro hext
  obtain ⟨entries, hbranch⟩ := bagTree_get_of_extended Opa.attrToValue (List.Perm.refl _) hget hext
  have hread := h.opa _ (List.Perm.refl _)
  rw [← split_args, Opa.getSegs_bagToInput (List.Perm.refl _) (Text.split_ne_nil _ _), hbranch]
    at hread
  exact nomatch hread

/-- Flattening keeps the scalar `getDotted` finds at an argument path, for the bag and for both
    policy engines, exactly if the last place that spells the path holds it and nothing
    continues the path; and it touches no key outside `args` and `args.*`. -/
theorem flatten_agrees_iff (fields : List (String × Json)) (bag : AttributeBag) (path : String)
    (a : AttributeValue) (h : (getDotted (.object fields) path).bind Json.scalar = some a) :
    (HoldsArg (extractArgs (.object fields) bag) path a ↔
        (lastSpelled (.object fields) path).map Prod.snd = some a ∧
          NotContinued (.object fields) bag path) ∧
      ∀ key, key ≠ "args" → (∀ rest, key ≠ "args." ++ rest) →
        (extractArgs (.object fields) bag).get key = bag.get key := by
  refine ⟨?_, fun key hroot hbelow => get_extractArgs_of_other _ bag hroot hbelow⟩
  obtain ⟨v, hv, hscalar⟩ := Option.bind_eq_some_iff.mp h
  obtain ⟨hopa, hcel⟩ := scalar_attrToValue hscalar
  -- The scalar is a leaf, so some leaf spells the path.
  have hspelled : lastSpelled (.object fields) path ≠ none := by
    obtain ⟨b, hb⟩ := exists_leafValue_of_scalar hscalar
    intro hnone
    exact List.findRev?_eq_none.mp hnone _ (mem_leaves_of_getSegs hv hb)
      (by simpa using dotted_split path)
  have hbag : (extractArgs (.object fields) bag).get ("args." ++ path) =
      (lastSpelled (.object fields) path).map Prod.snd := by
    rw [get_extractArgs]
    cases hlast : lastSpelled (.object fields) path with
    | none => exact absurd hlast hspelled
    | some l => rfl
  rw [notContinued_iff]
  constructor
  · intro hholds
    refine ⟨hbag.symm.trans hholds.held, fun key hsome => ?_⟩
    obtain ⟨b, hb⟩ := Option.isSome_iff_exists.mp hsome
    exact hholds.not_extended hb
  · rintro ⟨hlast, hnot⟩
    have hheld := hbag.trans hlast
    refine ⟨hheld, fun iter extraArgs hiter => ?_, fun iter hiter => ?_⟩
    · have hleaf := bagTree_get Cel.attrToValue hiter hheld hnot
      rw [split_args] at hleaf
      rw [Cel.getSegs_bagToContext hiter extraArgs hleaf]
      exact hcel
    · have hleaf := bagTree_get Opa.attrToValue hiter hheld hnot
      rw [split_args] at hleaf
      rw [Opa.getSegs_bagToInput hiter (List.cons_ne_nil _ _), hleaf]
      exact hopa

/-- An argument that nothing else spells is seen by all alike. -/
theorem flatten_agrees_nested :
    HoldsArg (extractArgs (.object [("user", .object [("id", .string "alice")])]) .new) "user.id"
      (.string "alice") := by
  refine (flatten_agrees_iff [("user", .object [("id", .string "alice")])] .new "user.id"
    (.string "alice") rfl).1.mpr ⟨by decide, ?_, fun _ => rfl⟩
  intro l hl rest heq
  rw [List.mem_singleton.mp hl] at heq
  exact ne_append_dot "user.id" rest heq

/-- A key that contains a dot hides the argument field pipelines see from predicates, and turns
    a scalar into a namespace for the policy engines. -/
theorem flatten_disagrees :
    (getDotted (.object [("a", .object [("b", .string "x")]), ("a.b", .string "y")]) "a.b" =
        some (.string "x") ∧
      ¬ HoldsArg (extractArgs
        (.object [("a", .object [("b", .string "x")]), ("a.b", .string "y")]) .new) "a.b"
        (.string "x")) ∧
      getDotted (.object [("a", .string "x"), ("a.b", .string "y")]) "a" = some (.string "x") ∧
      ¬ HoldsArg (extractArgs (.object [("a", .string "x"), ("a.b", .string "y")]) .new) "a"
        (.string "x") := by
  refine ⟨⟨rfl, fun h => ?_⟩, rfl, fun h => ?_⟩
  · exact absurd h.held (by decide)
  · -- The second key makes a namespace of the first.
    have hget : (extractArgs (.object [("a", .string "x"), ("a.b", .string "y")]) .new).get
        "args.a.b" = some (.string "y") := by decide
    exact h.not_extended hget ⟨"b", by decide⟩

end Cpex
