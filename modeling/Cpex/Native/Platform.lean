import Mathlib.Data.List.Basic

/-! # What the program takes from Rust and its libraries

Text helpers of `str` under Rust's names, the value types of `serde_json` and
`serde_yaml`, and the class `Platform` of library calls whose code is not part of the
repository (float text, regular expressions, the default hasher, case folding, dates).

A `serde_json` map is a `BTreeMap`: it is kept here as its key-sorted list of entries, so
that two objects are equal exactly when they have the same entries. -/

namespace Cpex

/-- An `f64`, by its bit pattern. -/
structure F64 where
  bits : UInt64
  deriving DecidableEq, Repr, Inhabited

namespace F64

/-- The value as a machine float. -/
def toFloat (x : F64) : Float := Float.ofBits x.bits

/-- The cast `i as f64`. -/
def ofInt (i : Int) : F64 := ⟨(Float.ofInt i).toBits⟩

/-- `a == b` on `f64` (not reflexive on NaN). -/
def beq (a b : F64) : Bool := a.toFloat == b.toFloat

/-- `a < b` on `f64`. -/
def lt (a b : F64) : Bool := decide (a.toFloat < b.toFloat)

/-- `a <= b` on `f64`. -/
def le (a b : F64) : Bool := decide (a.toFloat ≤ b.toFloat)

end F64

/-! ### JSON and YAML values -/

/-- `serde_json::Number`. -/
inductive Number where
  | posInt (n : Nat)
  | negInt (i : Int)
  | float (x : F64)
  deriving DecidableEq, Repr, Inhabited

/-- `serde_json::Value`. -/
inductive Json where
  | null
  | bool (b : Bool)
  | number (n : Number)
  | string (s : String)
  | array (items : List Json)
  | object (fields : List (String × Json))
  deriving Repr, Inhabited

/-- `serde_yaml::Value`. -/
inductive Yaml where
  | null
  | bool (b : Bool)
  | number (n : Number)
  | string (s : String)
  | sequence (items : List Yaml)
  | mapping (entries : List (Yaml × Yaml))
  | tagged (tag : String) (value : Yaml)
  deriving Repr, Inhabited

/-- The library calls the program makes into code outside the repository. -/
class Platform where
  /-- `str::parse::<f64>`. -/
  parseF64 : String → Option F64
  /-- `f64` through `Display`. -/
  displayF64 : F64 → String
  /-- `f64` through `Debug`. -/
  debugF64 : F64 → String
  /-- `str` through `Debug` (quoted and escaped). -/
  debugStr : String → String
  /-- `regex::Regex::new`, with the compiled pattern's `is_match`. -/
  regexNew : String → Except String (String → Bool)
  /-- `serde_json::to_string`. -/
  jsonToString : Json → String
  /-- `DefaultHasher` over one `String`, as `finish` returns it. -/
  hashString : String → UInt64
  /-- `str::to_lowercase`. -/
  toLowercase : String → String
  /-- `DateTime::to_rfc3339_opts` in whole seconds, of nanoseconds since the epoch. -/
  toRfc3339 : Int → String

/-- A platform on which nothing is a number or a pattern, for evaluating closed terms. -/
@[reducible] def Platform.bare : Platform where
  parseF64 _ := none
  displayF64 _ := ""
  debugF64 _ := ""
  debugStr s := s
  regexNew _ := .error "unsupported"
  jsonToString _ := ""
  hashString _ := 0
  toLowercase s := s
  toRfc3339 _ := ""

end Cpex
