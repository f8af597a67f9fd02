import Cpex.ForStd.List
import Cpex.Native.Slots

/-! # Folding candidate constraints

`apl-cpex/src/candidate_constraint.rs`: the constraints the `restrict` effects of one evaluation
emitted, folded into the one that goes to the router. A `BTreeSet` is kept as the sorted list of
its members. -/

namespace Cpex

/-- `CandidateConstraintExtension::is_empty`. -/
def CandidateConstraintExtension.isEmpty (c : CandidateConstraintExtension) : Bool :=
  c.allowModels.isNone && c.denyModels.isEmpty && c.allowRegions.isNone &&
    c.allowSites.isNone && c.maxCostTiers.isEmpty && c.custom.isEmpty

namespace Core

/-- `ConstraintConflict`: two effects require one label to differ. -/
structure ConstraintConflict where
  key : String
  existing : String
  incoming : String
  deriving DecidableEq, Repr

/-- `ConstraintConflict` through `Display`. -/
def ConstraintConflict.toText (e : ConstraintConflict) : String :=
  "conflicting `restrict` custom label `" ++ e.key ++ "`: `" ++ e.existing ++ "` vs `" ++
    e.incoming ++ "` (no backend can be both)"

/-- `intersect_into`. -/
def intersectInto (acc incoming : Option (List String)) : Option (List String) :=
  match incoming with
  -- Nothing said: every value stays.
  | none => acc
  | some incoming =>
    match acc with
    | none => some (incoming.toFinset.sort (· ≤ ·))
    -- May well be empty: the router then goes by `on_empty`.
    | some existing => some (existing.filter (· ∈ incoming))

/-- `strictest`. -/
def strictest : OnEmpty → OnEmpty → OnEmpty
  | .fallback, .fallback => .fallback
  | _, _ => .deny

/-- Add to a sorted set. -/
def insertAll (members new : List String) : List String :=
  (members ++ new).toFinset.sort (· ≤ ·)

/-- One entry of the loop over a constraint's custom labels. -/
def insertCustom (custom : List (String × String)) (label : String × String) :
    Except ConstraintConflict (List (String × String)) :=
  match custom.lookup label.1 with
  | some existing => if existing ≠ label.2 then .error ⟨label.1, existing, label.2⟩ else .ok custom
  | none => .ok (custom.insertKey label.1 label.2)

/-- The body of the loop of `fold_candidate_constraints`. -/
def foldConstraint (acc : CandidateConstraintExtension) (c : CandidateConstraint) :
    Except ConstraintConflict CandidateConstraintExtension := do
  let custom ← c.custom.foldlM insertCustom acc.custom
  return {
    allowModels := intersectInto acc.allowModels c.allowModels
    denyModels := insertAll acc.denyModels c.denyModels
    allowRegions := intersectInto acc.allowRegions c.allowRegions
    allowSites := intersectInto acc.allowSites c.allowSites
    maxCostTiers := insertAll acc.maxCostTiers c.maxCostTier.toList
    custom
    onEmpty := strictest acc.onEmpty c.onEmpty }

/-- `fold_candidate_constraints`: nothing, when nothing is constrained. -/
def foldCandidateConstraints (constraints : List CandidateConstraint) :
    Except ConstraintConflict (Option CandidateConstraintExtension) :=
  if constraints.isEmpty then .ok none
  else do
    let folded ← constraints.foldlM foldConstraint { onEmpty := .fallback }
    return if folded.isEmpty then none else some folded

end Core

end Cpex
