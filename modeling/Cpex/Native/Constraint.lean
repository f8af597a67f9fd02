import Cpex.Native.Attributes

/-! # Backend candidate constraints

`apl-core/src/constraint.rs`: the `restrict` vocabulary and how its references are resolved
against the bag. An unresolvable allow-list becomes the empty list; an unresolvable deny-list
is an error. -/

namespace Cpex

/-- What to do when a constraint leaves no backend. -/
inductive OnEmpty where
  | deny
  | fallback
  deriving DecidableEq, Repr, Inhabited

/-- A literal constraint on the backends of a request. -/
structure CandidateConstraint where
  allowModels : Option (List String) := none
  denyModels : List String := []
  allowRegions : Option (List String) := none
  allowSites : Option (List String) := none
  maxCostTier : Option String := none
  /-- A `BTreeMap`, as its key-sorted entries. -/
  custom : List (String × String) := []
  onEmpty : OnEmpty := .deny
  deriving DecidableEq, Repr

/-- `CandidateConstraint::is_empty`: `on_empty` alone constrains nothing. -/
def CandidateConstraint.isEmpty (c : CandidateConstraint) : Bool :=
  c.allowModels.isNone && c.denyModels.isEmpty && c.allowRegions.isNone &&
    c.allowSites.isNone && c.maxCostTier.isNone && c.custom.isEmpty

/-- A set of names, written out or taken from the bag. -/
inductive StringSetSpec where
  | ref (path : String)
  | literal (values : List String)
  deriving DecidableEq, Repr

/-- A `restrict` effect as the policy author wrote it. -/
structure RestrictSpec where
  allowModels : Option StringSetSpec := none
  denyModels : Option StringSetSpec := none
  allowRegions : Option StringSetSpec := none
  allowSites : Option StringSetSpec := none
  maxCostTier : Option String := none
  custom : List (String × String) := []
  onEmpty : OnEmpty := .deny
  deriving DecidableEq, Repr

/-- `RestrictResolveError`. -/
structure RestrictResolveError where
  field : String
  path : String
  deriving DecidableEq, Repr

/-- `RestrictResolveError` through `Display`. -/
def RestrictResolveError.toText (e : RestrictResolveError) : String :=
  "restrict: `" ++ e.field ++ "` reference `" ++ e.path ++
    "` did not resolve to a set — denying (a deny-list cannot fail open)"

section
variable [Platform]

/-- `StringSetSpec::resolve`. -/
def StringSetSpec.resolve (spec : StringSetSpec) (bag : AttributeBag) : Option (List String) :=
  match spec with
  | .literal v => some v
  | .ref path =>
    (bag.resolveKey path).bind fun key =>
      match bag.get key with
      | some (.stringSet s) => some (s.sort (· ≤ ·))
      | some (.string s) => some [s]
      | _ => none

/-- `RestrictSpec::resolve`. -/
def RestrictSpec.resolve (spec : RestrictSpec) (bag : AttributeBag) :
    Except RestrictResolveError CandidateConstraint :=
  let allow (s : Option StringSetSpec) : Option (List String) :=
    s.map fun s => (s.resolve bag).getD []
  let denyModels : Except RestrictResolveError (List String) :=
    match spec.denyModels with
    | none => .ok []
    | some s =>
      match s.resolve bag with
      | some v => .ok v
      | none =>
        let path := match s with
          | .ref p => p
          | .literal _ => ""
        .error { field := "deny_models", path }
  denyModels.map fun denyModels =>
    { allowModels := allow spec.allowModels
      denyModels
      allowRegions := allow spec.allowRegions
      allowSites := allow spec.allowSites
      maxCostTier := spec.maxCostTier
      custom := spec.custom
      onEmpty := spec.onEmpty }

end

end Cpex
