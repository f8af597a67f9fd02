import Cpex.Native.Message

/-! # JSON values as trees

What the types of `serde_json` guarantee about a value (`Json.wellFormed`), the paths into it, and
`PartialEq` read path by path: two equal values have equal values at every path.
-/

namespace Cpex.Json

/-! ### Well-formed values -/

mutual

/-- A `Number` is never NaN, and a `Map` has its keys in strict order. -/
def wellFormed : Json → Bool
  | .number n => n.eq n
  | .array items => itemsWellFormed items
  | .object fields =>
    decide ((fields.map Prod.fst).Pairwise (· < ·)) && fieldsWellFormed fields
  | _ => true

def itemsWellFormed : List Json → Bool
  | [] => true
  | item :: items => item.wellFormed && itemsWellFormed items

def fieldsWellFormed : List (String × Json) → Bool
  | [] => true
  | (_, value) :: fields => value.wellFormed && fieldsWellFormed fields

end

variable {fields : List (String × Json)}

theorem wellFormed_object :
    (object fields).wellFormed = true ↔ fields.SortedKeys ∧ fieldsWellFormed fields = true := by
  rw [wellFormed, Bool.and_eq_true, decide_eq_true_iff]

variable {v : Json}

theorem itemsWellFormed_iff :
    itemsWellFormed items = true ↔ ∀ item ∈ items, item.wellFormed = true := by
  induction items with
  | nil => simp [itemsWellFormed]
  | cons item items ih => simp [itemsWellFormed, ih]

theorem fieldsWellFormed_iff :
    fieldsWellFormed fields = true ↔ ∀ field ∈ fields, field.2.wellFormed = true := by
  induction fields with
  | nil => simp [fieldsWellFormed]
  | cons field fields ih => simp [fieldsWellFormed, ih]

theorem wellFormed_of_lookup (h : (object fields).wellFormed = true) (hv : fields.lookup k = some v) :
    v.wellFormed = true :=
  fieldsWellFormed_iff.mp (wellFormed_object.mp h).2 _ (List.mem_of_lookup_eq_some hv)

/-- The keys of a map are distinct. -/
theorem nodup_keys (h : (object fields).wellFormed = true) : (fields.map Prod.fst).Nodup :=
  (wellFormed_object.mp h).1.imp fun hlt => hlt.ne

mutual

/-- `PartialEq` is reflexive on the values `serde_json` has. -/
theorem eq_refl : ∀ v : Json, v.wellFormed = true → v.eq v = true
  | .null, _ => rfl
  | .bool b, _ => by simp [Json.eq]
  | .number n, h => h
  | .string s, _ => by simp [Json.eq]
  | .array items, h => eqItems_refl items h
  | .object fields, h => eqFields_refl fields (wellFormed_object.mp h).2

theorem eqItems_refl : ∀ items : List Json, itemsWellFormed items = true →
    eqItems items items = true
  | [], _ => rfl
  | item :: items, h => by
    obtain ⟨hitem, hitems⟩ := Bool.and_eq_true_iff.mp h
    rw [eqItems, eq_refl item hitem, eqItems_refl items hitems]
    rfl

theorem eqFields_refl : ∀ fields : List (String × Json), fieldsWellFormed fields = true →
    eqFields fields fields = true
  | [], _ => rfl
  | (k, v) :: fields, h => by
    obtain ⟨hv, hfields⟩ := Bool.and_eq_true_iff.mp h
    rw [eqFields, eq_refl v hv, eqFields_refl fields hfields]
    simp

end

mutual

/-- Induction over the maps in a value. -/
theorem object_induction {P : Json → Prop} (hleaf : ∀ v, v.isObject = false → P v)
    (hobject : ∀ fields, (∀ field ∈ fields, P field.2) → P (.object fields)) : ∀ v, P v
  | .object fields => hobject fields (fields_induction hleaf hobject fields)
  | .null => hleaf _ rfl
  | .bool _ => hleaf _ rfl
  | .number _ => hleaf _ rfl
  | .string _ => hleaf _ rfl
  | .array _ => hleaf _ rfl

theorem fields_induction {P : Json → Prop} (hleaf : ∀ v, v.isObject = false → P v)
    (hobject : ∀ fields, (∀ field ∈ fields, P field.2) → P (.object fields)) :
    ∀ fields : List (String × Json), ∀ field ∈ fields, P field.2
  | [], _, h => nomatch h
  | (_, v) :: fields, field, h => by
    rcases List.mem_cons.mp h with rfl | h
    · exact object_induction hleaf hobject v
    · exact fields_induction hleaf hobject fields field h

end

/-! ### Paths -/

/-- One step into a value. -/
inductive PathStep where
  | key (key : String)
  | index (i : Nat)
  deriving DecidableEq, Repr

/-- What is one step below a value. -/
def child : Json → PathStep → Option Json
  | .object fields, .key key => fields.lookup key
  | .array items, .index i => items[i]?
  | _, _ => none

/-- What is at the end of a path. -/
def valueAt (v : Json) : List PathStep → Option Json
  | [] => some v
  | step :: path => (v.child step).bind fun next => valueAt next path

theorem valueAt_cons :
    v.valueAt (step :: path) = (v.child step).bind fun next => next.valueAt path := rfl

variable {w : Json} {step : PathStep}

/-- A value with something below it is an object or an array. -/
theorem exists_of_child_eq_some (h : v.child step = some w) :
    (∃ fields k, v = .object fields ∧ step = .key k ∧ fields.lookup k = some w) ∨
      ∃ items i, v = .array items ∧ step = .index i ∧ items[i]? = some w := by
  unfold child at h
  split at h
  · exact .inl ⟨_, _, rfl, rfl, h⟩
  · exact .inr ⟨_, _, rfl, rfl, h⟩
  · exact nomatch h

/-- Values with something below them at the same step are both maps or both arrays. -/
theorem isObject_eq_of_child {u : Json} (hu : u.child step = some x) (hv : v.child step = some y) :
    u.isObject = v.isObject := by
  cases step with
  | key k | index i =>
    cases u <;> cases v <;> first | rfl | cases hu | cases hv

theorem wellFormed_of_child (hv : v.wellFormed = true) (h : v.child step = some w) :
    w.wellFormed = true := by
  rcases exists_of_child_eq_some h with ⟨fields, k, rfl, rfl, hw⟩ | ⟨items, i, rfl, rfl, hw⟩
  · exact wellFormed_of_lookup hv hw
  · exact itemsWellFormed_iff.mp hv _ (List.mem_of_getElem? hw)

theorem wellFormed_of_valueAt (hv : v.wellFormed = true) (h : v.valueAt path = some w) :
    w.wellFormed = true := by
  induction path generalizing v with
  | nil => cases h; exact hv
  | cons step path ih =>
    obtain ⟨next, hnext, hw⟩ := Option.bind_eq_some_iff.mp h
    exact ih (wellFormed_of_child hv hnext) hw

/-! ### Equality, path by path -/

/-- Both values are there and equal, or neither is there. -/
def Agree (a b : Option Json) : Prop :=
  Option.Rel (fun x y => x.eq y = true) a b

/-- Where two values agree and both are there, they are equal. -/
theorem Agree.eq (h : Agree a b) (hx : a = some x) (hy : b = some y) : x.eq y = true := by
  subst hx hy
  cases h with
  | some hxy => exact hxy

theorem agree_of_eqItems (h : eqItems xs ys = true) (i : Nat) :
    Agree xs[i]? ys[i]? := by
  induction xs generalizing ys i with
  | nil =>
    cases ys with
    | nil => exact .none
    | cons y ys => exact nomatch h
  | cons x xs ih =>
    cases ys with
    | nil => exact nomatch h
    | cons y ys =>
      obtain ⟨hxy, hrest⟩ := Bool.and_eq_true_iff.mp h
      cases i with
      | zero => exact .some hxy
      | succ i => exact ih hrest i

theorem agree_of_eqFields (h : eqFields fs gs = true) (k : String) :
    Agree (fs.lookup k) (gs.lookup k) := by
  induction fs generalizing gs with
  | nil =>
    cases gs with
    | nil => exact .none
    | cons g gs => exact nomatch h
  | cons f fs ih =>
    cases gs with
    | nil => exact nomatch h
    | cons g gs =>
      obtain ⟨l, x⟩ := f
      obtain ⟨m, y⟩ := g
      obtain ⟨hhead, hrest⟩ := Bool.and_eq_true_iff.mp h
      obtain ⟨hkey, hxy⟩ := Bool.and_eq_true_iff.mp hhead
      obtain rfl : l = m := beq_iff_eq.mp hkey
      rw [List.lookup_cons_ite, List.lookup_cons_ite]
      split
      · exact .some hxy
      · exact ih hrest

theorem agree_child_of_eq {a : Json} (h : a.eq b = true) (step : PathStep) :
    Agree (a.child step) (b.child step) := by
  cases a with
  | array xs =>
    cases b with
    | array ys =>
      cases step with
      | key k => exact .none
      | index i => exact agree_of_eqItems h i
    | _ => exact nomatch h
  | object fs =>
    cases b with
    | object gs =>
      cases step with
      | key k => exact agree_of_eqFields h k
      | index i => exact .none
    | _ => exact nomatch h
  | _ =>
    -- Nothing is below a scalar, and only scalars equal it.
    cases b with
    | array ys => exact nomatch h
    | object gs => exact nomatch h
    | _ => exact .none

/-- Equal values agree at every path. -/
theorem agree_valueAt_of_eq {a : Json} (h : a.eq b = true) (path : List PathStep) :
    Agree (a.valueAt path) (b.valueAt path) := by
  induction path generalizing a b with
  | nil => exact .some h
  | cons step path ih =>
    rw [valueAt_cons, valueAt_cons]
    have hchild := agree_child_of_eq h step
    revert hchild
    cases a.child step <;> cases b.child step <;> intro hchild
    · exact .none
    · exact nomatch hchild
    · exact nomatch hchild
    · cases hchild with
      | some hxy => exact ih hxy

/-- Sorted maps with equal values under every key are equal. -/
theorem eqFields_of_lookup {fs gs : List (String × Json)}
    (hfs : fs.SortedKeys) (hgs : gs.SortedKeys)
    (h : ∀ k, Agree (fs.lookup k) (gs.lookup k)) : eqFields fs gs = true := by
  have hrel := List.forall₂_of_lookup hfs hgs h
  clear h hfs hgs
  induction hrel with
  | nil => rfl
  | cons hhead _ ih =>
    obtain ⟨hkey, hvalue⟩ := hhead
    rw [eqFields, hkey, hvalue, ih]
    simp

/-- Removal under a key leaves the other keys. -/
@[simp] theorem lookup_removeField (key k : String) (fields : List (String × Json)) :
    (removeField key fields).lookup k = if k = key then none else fields.lookup k := by
  induction fields with
  | nil => simp [removeField]
  | cons field fields ih =>
    obtain ⟨l, v⟩ := field
    rw [removeField] at ih
    rw [removeField, List.filter_cons]
    by_cases hl : l = key
    · subst hl
      simp only [ne_eq, not_true_eq_false, decide_false, Bool.false_eq_true, if_false]
      rw [ih, List.lookup_cons_ite]
      split <;> rfl
    · simp only [ne_eq, hl, not_false_eq_true, decide_true, if_true]
      rw [List.lookup_cons_ite, List.lookup_cons_ite, ih]
      by_cases hk : k = l
      · subst hk
        simp [hl]
      · simp [hk]

theorem pairwise_keys_removeField (key : String) (h : fields.SortedKeys) :
    (removeField key fields).SortedKeys :=
  h.sublist (List.filter_sublist.map _)

theorem pairwise_keys_insertField (key : String) (value : Json) (h : fields.SortedKeys) :
    (insertField key value fields).SortedKeys := by
  rw [insertField_eq]
  exact List.pairwise_insertKey key value h

end Cpex.Json
