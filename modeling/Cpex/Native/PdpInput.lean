import Cpex.ForStd.NameTree
import Cpex.Native.Attributes
import Cpex.Native.Json

/-! # The documents policy engines see

`bag_to_input` of the OPA resolver (`builtins/pdps/opa/src/input.rs`) and `bag_to_context` of
the CEL resolver (`builtins/pdps/cel/src/activation.rs`). Both split the dotted keys of the bag
and rebuild a tree of namespaces; the `Node` and `insert` of the two crates are `NameTree`.

The bag is a `HashMap`, so its entries come in any order: `iter` is the order of one iteration. -/

namespace Cpex

namespace F64

/-- `f64::is_finite`. -/
def isFinite (x : F64) : Bool := x.toFloat.isFinite

/-- `f as i64`, for a whole number in the range of `i64`. -/
def wholeI64 (x : F64) : Option Int :=
  if x.isFinite && x.toFloat.floor == x.toFloat && Float.ofInt (-2 ^ 63) ≤ x.toFloat &&
      x.toFloat ≤ Float.ofInt (2 ^ 63) then
    some x.toFloat.toInt64.toInt
  else none

end F64

/-- The tree of a bag whose values are turned into leaves by `leaf`. -/
def bagTree {α : Type} (leaf : AttributeValue → α) (iter : List (String × AttributeValue)) :
    List (String × NameTree String α) :=
  NameTree.build (iter.map fun e => (Text.split e.1 '.', leaf e.2))

/-! ### OPA -/

namespace Opa

/-- `float_to_value`. -/
def floatToValue (x : F64) : Json :=
  match x.wholeI64 with
  | some i => .number (.ofI64 i)
  | none => if x.isFinite then .number (.float x) else .null

/-- `attr_to_value`. -/
def attrToValue : AttributeValue → Json
  | .bool b => .bool b
  | .int i => .number (.ofI64 i)
  | .float x => floatToValue x
  | .string s => .string s
  | .stringSet s => .array ((s.sort (· ≤ ·)).map .string)

/-- `node_to_value`. -/
def nodeToValue : NameTree String Json → Json := NameTree.toValue .object

/-- `bag_to_input`. -/
def bagToInput (iter : List (String × AttributeValue)) : Json :=
  nodeToValue (.branch (bagTree attrToValue iter))

end Opa

/-! ### CEL -/

/-- `cel::Value`, the values an activation is built from. -/
inductive CelValue where
  | null
  | bool (b : Bool)
  | int (i : Int)
  | float (x : F64)
  | string (s : String)
  | list (items : List CelValue)
  | map (entries : List (String × CelValue))

namespace Cel

/-- `float_to_value`. -/
def floatToValue (x : F64) : CelValue :=
  match x.wholeI64 with
  | some i => .int i
  | none => .float x

/-- `attr_to_value`. -/
def attrToValue : AttributeValue → CelValue
  | .bool b => .bool b
  | .int i => .int i
  | .float x => floatToValue x
  | .string s => .string s
  | .stringSet s => .list ((s.sort (· ≤ ·)).map .string)

/-- `node_to_value`. -/
def nodeToValue : NameTree String CelValue → CelValue := NameTree.toValue .map

mutual

/-- `yaml_to_value`. -/
def yamlToValue : Yaml → CelValue
  | .null => .null
  | .bool b => .bool b
  | .number (.posInt n) => if n < 2 ^ 63 then .int n else floatToValue (F64.ofInt n)
  | .number (.negInt i) => .int i
  | .number (.float x) => floatToValue x
  | .string s => .string s
  | .sequence items => .list (yamlItems items)
  | .mapping entries => .map (yamlEntries entries)
  | .tagged _ _ => .null

/-- The items of a sequence. -/
def yamlItems : List Yaml → List CelValue
  | [] => []
  | item :: rest => yamlToValue item :: yamlItems rest

/-- The entries of a mapping under string keys. -/
def yamlEntries : List (Yaml × Yaml) → List (String × CelValue)
  | [] => []
  | (key, value) :: rest =>
    let more := yamlEntries rest
    match key.asStr with
    | some name =>
      -- Of two entries under one name the later one stays.
      if (more.lookup name).isSome then more else more.insertKey name (yamlToValue value)
    | none => more

end

/-- The variables of the author's extra arguments; `expr` is the program text. -/
def extraVariables (extraArgs : Yaml) : HashMap String CelValue :=
  match extraArgs.asMapping with
  | some entries =>
    entries.foldl (fun ctx e =>
      match e.1.asStr with
      | some name => if name = "expr" then ctx else ctx.insert name (yamlToValue e.2)
      | none => ctx) ∅
  | none => ∅

/-- `bag_to_context`: the variables of the activation. The bag's namespaces come last and win. -/
def bagToContext (iter : List (String × AttributeValue)) (extraArgs : Yaml) :
    HashMap String CelValue :=
  (bagTree attrToValue iter).foldl (fun ctx e => ctx.insert e.1 (nodeToValue e.2))
    (extraVariables extraArgs)

end Cel

end Cpex
