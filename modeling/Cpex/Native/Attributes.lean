import Mathlib.Data.List.AList
import Mathlib.Data.Finset.Dedup
import Mathlib.Data.Finset.Sort
import Mathlib.Data.String.Basic
import Cpex.Native.Platform
import Cpex.Native.Text

/-! # The attribute bag

`apl-core/src/attributes.rs`: the flat key-value store predicates are evaluated against, and
the `[inner]` interpolation of attribute paths. A `HashMap` is an `AList`, a `HashSet` a
`Finset`. -/

namespace Cpex

/-! A `HashSet` of strings is listed in their order. The laws of the order as constants, which every
list then shares. -/

instance isTrans_string_le : IsTrans String (· ≤ ·) := inferInstance

instance antisymm_string_le : Std.Antisymm fun a b : String => a ≤ b := inferInstance

/-- A Rust `HashMap`: an association list in which no key occurs twice. -/
abbrev HashMap (κ : Type) (ν : Type) := AList fun _ : κ => ν

/-- A value of the bag. -/
inductive AttributeValue where
  | bool (b : Bool)
  | int (i : Int)
  | float (x : F64)
  | string (s : String)
  | stringSet (s : Finset String)
  deriving DecidableEq

/-- The attributes of one request. -/
structure AttributeBag where
  attrs : HashMap String AttributeValue

namespace AttributeBag

/-- `AttributeBag::new`. -/
def new : AttributeBag := ⟨∅⟩

/-- `AttributeBag::set`. -/
def set (bag : AttributeBag) (key : String) (value : AttributeValue) : AttributeBag :=
  ⟨bag.attrs.insert key value⟩

/-- `AttributeBag::set` behind an `if let Some(..)`. -/
def setOpt (bag : AttributeBag) (key : String) : Option String → AttributeBag
  | some v => bag.set key (.string v)
  | none => bag

/-- `AttributeBag::get`. -/
def get (bag : AttributeBag) (key : String) : Option AttributeValue :=
  bag.attrs.lookup key

/-- `AttributeBag::contains`. -/
def contains (bag : AttributeBag) (key : String) : Bool :=
  (bag.get key).isSome

/-- `AttributeBag::get_bool`. -/
def getBool (bag : AttributeBag) (key : String) : Option Bool :=
  match bag.get key with
  | some (.bool v) => some v
  | _ => none

/-- `AttributeBag::get_string`. -/
def getString (bag : AttributeBag) (key : String) : Option String :=
  match bag.get key with
  | some (.string v) => some v
  | _ => none

/-- `AttributeBag::get_string_set`. -/
def getStringSet (bag : AttributeBag) (key : String) : Option (Finset String) :=
  match bag.get key with
  | some (.stringSet v) => some v
  | _ => none

/-- `AttributeBag::set_contains`. -/
def setContains (bag : AttributeBag) (key value : String) : Bool :=
  match bag.getStringSet key with
  | some s => decide (value ∈ s)
  | none => false

@[simp] theorem get_set_self (bag : AttributeBag) (key : String) (v : AttributeValue) :
    (bag.set key v).get key = some v := by
  simp [get, set]

@[simp] theorem get_set_ne (bag : AttributeBag) (v : AttributeValue) (h : key' ≠ key) :
    (bag.set key v).get key' = bag.get key' := by
  simp [get, set, AList.lookup_insert_ne h]

variable [Platform]

/-- `AttributeBag::scalar_as_string`. -/
def scalarAsString (bag : AttributeBag) (key : String) : Option String :=
  match bag.get key with
  | some (.string s) => some s
  | some (.int i) => some (toString i)
  | some (.bool b) => some (toString b)
  | some (.float x) => some (Platform.displayF64 x)
  | some (.stringSet _) => none
  | none => none

/-- The loop of `resolve_key`, on the characters not yet read. `fuel` bounds the number of
    interpolation groups; the remaining length is always enough. -/
def resolveChars (bag : AttributeBag) : Nat → List Char → Option (List Char)
  | 0, rest => some rest
  | fuel + 1, rest =>
    match rest.span (· ≠ '[') with
    | (_, []) => some rest
    | (before, _ :: after) =>
      match after.span (· ≠ ']') with
      | (_, []) => none
      | (inner, _ :: tail) =>
        -- The group becomes a dot and the text of the value it names.
        (bag.scalarAsString (String.ofList (Text.trimChars inner))).bind fun x =>
          (resolveChars bag fuel tail).map fun out => before ++ '.' :: x.toList ++ out

/-- `AttributeBag::resolve_key`: substitute each `[inner]` group of an attribute path. -/
def resolveKey (bag : AttributeBag) (key : String) : Option String :=
  if Text.containsChar key '[' then
    (resolveChars bag key.toList.length key.toList).map String.ofList
  else some key

end AttributeBag

end Cpex
