import Cpex.Native.Attributes
import Cpex.Native.Json

/-! # Payloads in the attribute bag

`apl-cmf/src/payload.rs`: JSON arguments, results and static attribute trees flattened into
dotted keys of the bag. -/

namespace Cpex

/-- `Number::as_f64`. -/
def Number.asF64 : Number → F64
  | .posInt n => F64.ofInt n
  | .negInt i => F64.ofInt i
  | .float x => x

/-- The strings of an array, if it holds nothing else and is not empty. -/
def stringItems (items : List Json) : Option (Finset String) :=
  match items.mapM Json.asStr with
  | some strings => if strings.isEmpty then none else some strings.toFinset
  | none => none

mutual

/-- `walk`. -/
def walk : Json → String → AttributeBag → AttributeBag
  | .object fields, path, bag => walkFields fields path bag
  | .array items, path, bag =>
    match stringItems items with
    | some strings => bag.set path (.stringSet strings)
    | none => bag
  | .string s, path, bag => bag.set path (.string s)
  | .bool b, path, bag => bag.set path (.bool b)
  | .number n, path, bag =>
    match (Json.number n).asI64 with
    | some i => bag.set path (.int i)
    | none => bag.set path (.float n.asF64)
  -- A null is as good as no key.
  | .null, _, bag => bag

/-- The loop of `walk` over the entries of an object. -/
def walkFields : List (String × Json) → String → AttributeBag → AttributeBag
  | [], _, bag => bag
  | (key, sub) :: rest, path, bag =>
    let dotted := if path = "" then key else path ++ "." ++ key
    walkFields rest path (walk sub dotted bag)

end

/-- `extract_args`. -/
def extractArgs (args : Json) (bag : AttributeBag) : AttributeBag := walk args "args" bag

/-- `extract_result`. -/
def extractResult (result : Json) (bag : AttributeBag) : AttributeBag := walk result "result" bag

/-- `extract_data`. -/
def extractData (tree : Json) (bag : AttributeBag) : AttributeBag := walk tree "data" bag

end Cpex
