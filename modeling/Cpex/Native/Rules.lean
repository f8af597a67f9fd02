import Cpex.Native.Constraint

/-! # The policy language

The compiled form of a policy: predicates (`rules.rs`), field pipelines (`pipeline.rs`), the
steps that leave the process (`step.rs`) and the effect tree that combines them, together
with `CompiledRoute` and the layering of one route over another. -/

namespace Cpex

/-! ### Predicates -/

/-- Comparison operators of the predicate language. -/
inductive CompareOp where
  | eq
  | notEq
  | gt
  | gtEq
  | lt
  | ltEq
  | contains
  deriving DecidableEq, Repr

/-- The right-hand side of a comparison. -/
inductive Literal where
  | bool (b : Bool)
  | int (i : Int)
  | float (x : F64)
  | string (s : String)
  deriving DecidableEq, Repr

/-- An atomic predicate over the bag. -/
inductive Condition where
  | comparison (key : String) (op : CompareOp) (value : Literal)
  | isTrue (key : String)
  | isFalse (key : String)
  | exists (key : String)
  | inSet (valueKey setKey : String) (negate : Bool)
  deriving DecidableEq, Repr

/-- A predicate. -/
inductive Expression where
  | condition (c : Condition)
  | and (parts : List Expression)
  | or (parts : List Expression)
  | not (inner : Expression)
  | always
  deriving Repr

/-! ### Field pipelines -/

/-- Type assertions of a pipeline. -/
inductive TypeCheck where
  | str
  | int
  | bool
  | float
  | email
  | url
  | uuid
  deriving DecidableEq, Repr

/-- Where a taint label is recorded. -/
inductive TaintScope where
  | session
  | message
  deriving DecidableEq, Repr

/-- Built-in scanners. -/
inductive ScanKind where
  | piiRedact
  | piiDetect
  | injectionScan
  deriving DecidableEq, Repr

/-- One stage of a field pipeline. -/
inductive Stage where
  | type (tc : TypeCheck)
  | regex (pattern : String)
  | validate (name : String)
  | length (min max : Option Nat)
  | range (min max : Option Int)
  | enum (values : List String)
  | mask (keepLast : Nat)
  | redact (condition : Option Expression)
  | omit
  | hash
  | taint (label : String) (scopes : List TaintScope)
  | plugin (name : String)
  | scan (kind : ScanKind)

/-- A pipe chain. -/
structure Pipeline where
  stages : List Stage := []

/-- A field of `args:` or `result:` with its pipeline. -/
structure FieldRule where
  field : String
  pipeline : Pipeline
  source : String

/-- A taint emitted while a route runs. -/
structure TaintEvent where
  label : String
  scopes : List TaintScope
  deriving DecidableEq, Repr

/-! ### Steps that leave the process -/

/-- A `delegate(..)` step. -/
structure DelegateStep where
  pluginName : String
  configOverride : Option Yaml := none
  onError : Option String := none
  source : String

/-- The kinds of elicitation. -/
inductive ElicitKind where
  | approval
  | confirm
  | stepUp
  | attestation
  | info
  | review
  deriving DecidableEq, Repr

/-- An elicitation step: ask a human before the phase goes on. -/
structure ElicitStep where
  kind : ElicitKind
  pluginName : String
  channel : Option String := none
  «from» : String
  purpose : Option String := none
  scope : Option String := none
  timeout : Option String := none
  configOverride : Option Yaml := none
  onError : Option String := none
  source : String

/-- Policy decision point dialects. -/
inductive PdpDialect where
  | cedar
  | opa
  | authZen
  | neMo
  | cel
  | custom (key : String)
  deriving DecidableEq, Repr

/-- A call of an external policy decision point. -/
structure PdpCall where
  dialect : PdpDialect
  args : Yaml

/-! ### Effects -/

/-- The effect tree a policy compiles to. -/
inductive Effect where
  | allow
  | deny (reason code : Option String)
  | plugin (name : String)
  | delegate (step : DelegateStep)
  | elicit (step : ElicitStep)
  | taint (label : String) (scopes : List TaintScope)
  | restrict (spec : RestrictSpec)
  | fieldOp (path : String) (stages : List Stage)
  | sequential (effects : List Effect)
  | parallel (effects : List Effect)
  | when (condition : Expression) (body : List Effect) (source : String)
  | pdp (call : PdpCall) (onAllow onDeny : List Effect)

/-- A predicate with the effects it gates. -/
structure Rule where
  condition : Expression
  effects : List Effect
  source : String

/-- `From<Rule> for Effect`. -/
def Rule.toEffect (r : Rule) : Effect := .when r.condition r.effects r.source

end Cpex
