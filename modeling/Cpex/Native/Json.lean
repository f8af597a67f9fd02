import Cpex.ForStd.List
import Cpex.Native.Platform
import Cpex.Native.Text

/-! # JSON and YAML access

The accessors of `serde_json::Value` and `serde_yaml::Value` the program calls, and the
dotted-path reads and writes of `route.rs` (`get_dotted`, `set_dotted`, `remove_dotted`). -/

namespace Cpex

/-- `From<i64> for Number`. -/
def Number.ofI64 (i : Int) : Number :=
  if 0 ≤ i then .posInt i.toNat else .negInt i

namespace Json

/-- `Value::is_string`. -/
def isString : Json → Bool
  | .string _ => true
  | _ => false

/-- `Value::is_boolean`. -/
def isBoolean : Json → Bool
  | .bool _ => true
  | _ => false

/-- `Value::is_object`. -/
def isObject : Json → Bool
  | .object _ => true
  | _ => false

/-- `Value::as_str`. -/
def asStr : Json → Option String
  | .string s => some s
  | _ => none

/-- `Value::as_i64`. -/
def asI64 : Json → Option Int
  | .number (.posInt n) => if n < 2 ^ 63 then some n else none
  | .number (.negInt i) => some i
  | _ => none

/-- `Value::is_i64`. -/
def isI64 (v : Json) : Bool := v.asI64.isSome

/-- `Value::is_f64`. -/
def isF64 : Json → Bool
  | .number (.float _) => true
  | _ => false

/-- `Map::insert` on the key-sorted entries: replaces the entry of `key`, or adds one. -/
def insertField (key : String) (value : Json) : List (String × Json) → List (String × Json)
  | [] => [(key, value)]
  | (k, v) :: rest =>
    if key = k then (k, value) :: rest
    else if key < k then (key, value) :: (k, v) :: rest
    else (k, v) :: insertField key value rest

theorem insertField_eq : insertField key value fields = fields.insertKey key value := by
  induction fields with
  | nil => rfl
  | cons field rest ih => rw [insertField, List.insertKey, ih]

@[simp] theorem lookup_insertField (key k : String) (value : Json)
    (fields : List (String × Json)) :
    (insertField key value fields).lookup k =
      if k = key then some value else fields.lookup k := by
  rw [insertField_eq, List.lookup_insertKey]

/-- `Map::remove` on the entries. -/
def removeField (key : String) (fields : List (String × Json)) : List (String × Json) :=
  fields.filter (·.1 ≠ key)

/-- `Value::get` with a string index: defined on objects only. -/
def get (v : Json) (key : String) : Option Json :=
  match v with
  | .object fields => fields.lookup key
  | _ => none

/-- `get_dotted`: follow the segments of `path` through nested objects. -/
def getSegs (root : Json) : List String → Option Json
  | [] => some root
  | seg :: segs => (root.get seg).bind fun next => getSegs next segs

/-- Write through `parents`, which must all be objects, and update the map holding the leaf.
    `none` when a parent is missing or not an object. -/
def updateAt (root : Json) (update : List (String × Json) → Option (List (String × Json))) :
    List String → Option Json
  | [] =>
    match root with
    | .object fields => (update fields).map .object
    | _ => none
  | seg :: segs =>
    match root with
    | .object fields =>
      match fields.lookup seg with
      | some (.object inner) =>
        (updateAt (.object inner) update segs).map fun next =>
          .object (insertField seg next fields)
      | _ => none
    | _ => none

end Json

namespace Yaml

/-- `Value::untag_ref`: what is under the tags. The accessors below look through tags. -/
def untag : Yaml → Yaml
  | .tagged _ v => untag v
  | v => v

/-- `Value::is_null`. -/
def isNull (v : Yaml) : Bool :=
  match v.untag with
  | .null => true
  | _ => false

/-- `Value::as_str`. -/
def asStr (v : Yaml) : Option String :=
  match v.untag with
  | .string s => some s
  | _ => none

/-- `Value::as_sequence`. -/
def asSequence (v : Yaml) : Option (List Yaml) :=
  match v.untag with
  | .sequence items => some items
  | _ => none

/-- `Value::as_mapping`. -/
def asMapping (v : Yaml) : Option (List (Yaml × Yaml)) :=
  match v.untag with
  | .mapping entries => some entries
  | _ => none

/-- Whether a key is the untagged string `key`. -/
def isKey (key : String) : Yaml → Bool
  | .string s => s == key
  | _ => false

/-- `Mapping::get` with a string key. -/
def lookupKey (entries : List (Yaml × Yaml)) (key : String) : Option Yaml :=
  (entries.find? (·.1.isKey key)).map Prod.snd

/-- `Mapping::insert` with a string key: replaces the entry of `key`, or appends one. -/
def insertKey (key : String) (value : Yaml) : List (Yaml × Yaml) → List (Yaml × Yaml)
  | [] => [(.string key, value)]
  | (k, v) :: rest =>
    if k.isKey key then (k, value) :: rest else (k, v) :: insertKey key value rest

/-- `Mapping::remove` with a string key. -/
def removeKey (key : String) (entries : List (Yaml × Yaml)) : List (Yaml × Yaml) :=
  entries.filter fun e => !e.1.isKey key

/-- `Value::get` with a string index: defined on mappings only. -/
def get (v : Yaml) (key : String) : Option Yaml :=
  v.asMapping.bind (lookupKey · key)

end Yaml

/-- `get_dotted`. -/
def getDotted (root : Json) (path : String) : Option Json :=
  root.getSegs (Text.split path '.')

/-- `set_dotted`: the rewritten value when the write landed. -/
def setDotted (root : Json) (path : String) (value : Json) : Option Json :=
  let parts := Text.split path '.'
  match parts.getLast? with
  | none => none
  | some leaf =>
    root.updateAt (fun fields => some (Json.insertField leaf value fields)) parts.dropLast

/-- `remove_dotted`: the rewritten value when there was something to remove. -/
def removeDotted (root : Json) (path : String) : Option Json :=
  let parts := Text.split path '.'
  match parts.getLast? with
  | none => none
  | some leaf =>
    root.updateAt (fun fields =>
      if (fields.lookup leaf).isSome then some (Json.removeField leaf fields) else none)
      parts.dropLast

end Cpex
