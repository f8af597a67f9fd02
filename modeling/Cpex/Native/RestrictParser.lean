import Cpex.Native.StepParser

/-! # The parser of `restrict:`

`parse_restrict_spec` of `apl-core/src/parser.rs`. -/

namespace Cpex

/-- `RestrictSpec::is_empty`. -/
def RestrictSpec.isEmpty (spec : RestrictSpec) : Bool :=
  spec.allowModels.isNone && spec.denyModels.isNone && spec.allowRegions.isNone &&
    spec.allowSites.isNone && spec.maxCostTier.isNone && spec.custom.isEmpty

/-- One entry of `parse_string_list`. -/
def parseListEntry (item : Yaml) : Except String String :=
  match item.asStr with
  | none => .error "list entries must be strings"
  | some s =>
    if Text.trim s = "" then .error "list entries must not be empty" else .ok (Text.trim s)

/-- `parse_string_list`. -/
def parseStringList (v : Yaml) : Except String (List String) :=
  match v.asSequence with
  | none => .error "must be a list of strings"
  | some seq => do
    let out ← seq.mapM parseListEntry
    if out = [] then .error "list must not be empty" else .ok out

/-- `parse_string_set_spec`. -/
def parseStringSetSpec : Yaml → Except String StringSetSpec
  | .sequence items => do return .literal (← parseStringList (.sequence items))
  | .string s =>
    if Text.trim s = "" then .error "reference path must not be empty"
    else .ok (.ref (Text.trim s))
  | _ => .error "must be a list of strings or a `data.*` reference string"

variable [ParserPlatform]

/-- `scalar_to_string`. -/
def scalarToString : Yaml → Option String
  | .string s => some s
  | .bool b => some (toString b)
  | .number n => some (ParserPlatform.displayNumber n)
  | _ => none

/-- One entry of `parse_label_map`. -/
def parseLabel (out : List (String × String)) (entry : Yaml × Yaml) :
    Except String (List (String × String)) :=
  match entry.1.asStr with
  | none => .error "label keys must be strings"
  | some key =>
    if Text.trim key = "" then .error "label keys must not be empty"
    else
      match scalarToString entry.2 with
      | none =>
        .error ("label `" ++ Text.trim key ++ "` must be a scalar (string / bool / number)")
      | some value => .ok (out.insertKey (Text.trim key) value)

/-- `parse_label_map`. -/
def parseLabelMap (v : Yaml) : Except String (List (String × String)) :=
  match v.asMapping with
  | none => .error "must be a map of `label: value` pairs"
  | some map => do
    let out ← map.foldlM parseLabel []
    if out = [] then .error "`custom` map must not be empty" else .ok out

/-- The tier of `max_cost_tier`. -/
def parseTier (v : Yaml) : Except String String :=
  match v.asStr with
  | none => .error "must be a string tier"
  | some tier =>
    if Text.trim tier = "" then .error "tier must not be empty" else .ok (Text.trim tier)

/-- The value of `on_empty`. -/
def parseOnEmpty (v : Yaml) : Except String OnEmpty :=
  match v.asStr with
  | none => .error "must be `deny` or `fallback`"
  | some s =>
    match Text.trim s with
    | "deny" => .ok .deny
    | "fallback" => .ok .fallback
    | other => .error ("unknown value `" ++ other ++ "` (expected `deny` or `fallback`)")

/-- One field of `parse_restrict_spec`. -/
def parseRestrictField (source : String) (spec : RestrictSpec) (field : Yaml × Yaml) :
    Except Stop RestrictSpec :=
  match field.1.asStr with
  | none => ruleErr source "`restrict:` field keys must be strings"
  | some key =>
    let fieldErr {α : Type} (x : Except String α) : Except Stop α :=
      x.mapError fun msg => .error (.rule source ("`restrict." ++ Text.trim key ++ "`: " ++ msg))
    match Text.trim key with
    | "allow_models" => do
      return { spec with allowModels := some (← fieldErr (parseStringSetSpec field.2)) }
    | "deny_models" => do
      return { spec with denyModels := some (← fieldErr (parseStringSetSpec field.2)) }
    | "allow_regions" => do
      return { spec with allowRegions := some (← fieldErr (parseStringSetSpec field.2)) }
    | "allow_sites" => do
      return { spec with allowSites := some (← fieldErr (parseStringSetSpec field.2)) }
    | "max_cost_tier" => do
      return { spec with maxCostTier := some (← fieldErr (parseTier field.2)) }
    | "custom" => do return { spec with custom := ← fieldErr (parseLabelMap field.2) }
    | "on_empty" => do return { spec with onEmpty := ← fieldErr (parseOnEmpty field.2) }
    | other =>
      ruleErr source ("unknown `restrict:` field `" ++ other ++ "` (allowed: allow_models, " ++
        "deny_models, allow_regions, allow_sites, max_cost_tier, custom, on_empty)")

/-- `parse_restrict_spec`. -/
def parseRestrictSpec (bodyVal : Yaml) (source : String) : Except Stop RestrictSpec :=
  match bodyVal.asMapping with
  | none =>
    ruleErr source ("`restrict:` body must be a map of constraint fields (allow_models / " ++
      "deny_models / allow_regions / allow_sites / max_cost_tier / custom / on_empty)")
  | some body => do
    let spec ← body.foldlM (parseRestrictField source) {}
    -- `is_empty` ignores `on_empty`, which constrains nothing by itself.
    if spec.isEmpty then
      ruleErr source ("`restrict:` declares no constraint fields — it would restrict nothing; " ++
        "remove it or add at least one of allow_models / deny_models / allow_regions / " ++
        "allow_sites / max_cost_tier / custom")
    else return spec

end Cpex
