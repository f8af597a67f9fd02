import Cpex.Native.Rules

/-! # Invokers and their answers

`apl-core/src/step.rs`: what the evaluator sends to policy decision points, plugins,
delegators and approvers, and what they may answer.

The code behind the invoker traits is outside the evaluator. `Invokers σ` keeps it as
arbitrary functions over an arbitrary state `σ`, so that a call's answer may depend on
everything that was called before it. -/

namespace Cpex

/-- Outcome of evaluating a phase. -/
inductive Decision where
  | allow
  | deny (reason : Option String) (ruleSource : String)
  deriving DecidableEq, Repr

/-- Which side of the invocation a phase runs on. -/
inductive DispatchPhase where
  | pre
  | post
  deriving DecidableEq, Repr

/-- What a plugin is invoked for: a policy step, or one field of the payload. -/
inductive PluginInvocation where
  | step (phase : DispatchPhase)
  | field (name : String) (value : Json) (phase : DispatchPhase)

structure PdpDecision where
  decision : Decision
  diagnostics : List String

inductive PdpError where
  | noResolver (dialect : PdpDialect)
  | dispatch (msg : String)

structure PluginOutcome where
  decision : Decision
  taints : List TaintEvent
  modifiedValue : Option Json

/-- `PluginOutcome::allow`. -/
def PluginOutcome.allow : PluginOutcome := ⟨.allow, [], none⟩

inductive PluginError where
  | notFound (name : String)
  | dispatch (msg : String)
  deriving DecidableEq, Repr

structure DelegationOutcome where
  decision : Decision
  grantedPermissions : List String
  grantedAudience : Option String
  grantedExpiresAt : Option String

inductive DelegationError where
  | notFound (name : String)
  | dispatch (msg : String)
  | invalidConfig (msg : String)
  deriving DecidableEq, Repr

structure ElicitationDispatch where
  id : String
  approver : Option String
  intentId : Option String
  expiresAt : Option String

inductive ElicitationOutcome where
  | approved
  | denied
  deriving DecidableEq, Repr

inductive ElicitationStatus where
  | pending
  | resolved (outcome : ElicitationOutcome)
  | expired
  deriving DecidableEq, Repr

structure ElicitationValidation where
  valid : Bool
  approver : Option String
  intentId : Option String
  reason : Option String

inductive ElicitationError where
  | notFound (name : String)
  | handler (msg : String)
  deriving DecidableEq, Repr

/-- The bundle a suspended phase hands to the host. -/
structure PendingElicitation where
  id : String
  pluginName : String
  approver : Option String
  intentId : Option String
  channel : Option String
  expiresAt : Option String
  source : String
  deriving DecidableEq, Repr

/-! ### Error texts -/

section
variable [Platform]

/-- `PdpDialect` through `Debug`. -/
def PdpDialect.debug : PdpDialect → String
  | .cedar => "Cedar"
  | .opa => "Opa"
  | .authZen => "AuthZen"
  | .neMo => "NeMo"
  | .cel => "Cel"
  | .custom key => "Custom(" ++ Platform.debugStr key ++ ")"

def PdpError.toText : PdpError → String
  | .noResolver dialect => "no PDP resolver registered for dialect " ++ dialect.debug
  | .dispatch msg => s!"PDP dispatch failed: {msg}"

end

def PluginError.toText : PluginError → String
  | .notFound name => s!"no plugin invoker available for `{name}`"
  | .dispatch msg => s!"plugin dispatch failed: {msg}"

def DelegationError.toText : DelegationError → String
  | .notFound name => s!"no delegation invoker available for plugin `{name}`"
  | .dispatch msg => s!"delegation dispatch failed: {msg}"
  | .invalidConfig msg => s!"invalid delegation config: {msg}"

def ElicitationError.toText : ElicitationError → String
  | .notFound name => s!"no elicitation invoker available for plugin `{name}`"
  | .handler msg => s!"elicitation handler error: {msg}"

/-! ### Bag keys -/

namespace DelegationBagKeys

def grantedPermissions : String := "delegation.granted.permissions"
def grantedAudience : String := "delegation.granted.audience"
def grantedExpiresAt : String := "delegation.granted.expires_at"
def granted : String := "delegation.granted"

end DelegationBagKeys

namespace ElicitationBagKeys

def id : String := "elicitation.id"
def status : String := "elicitation.status"
def approver : String := "elicitation.approver"
def outcome : String := "elicitation.outcome"
def intentId : String := "elicitation.intent_id"
def channel : String := "elicitation.channel"
def expiresAt : String := "elicitation.expires_at"

end ElicitationBagKeys

/-- The invoker traits, over the state `σ` of the code behind them. -/
structure Invokers (σ : Type) where
  evaluate : σ → PdpCall → AttributeBag → Except PdpError PdpDecision × σ
  invoke : σ → String → AttributeBag → PluginInvocation → Except PluginError PluginOutcome × σ
  delegate : σ → DelegateStep → Except DelegationError DelegationOutcome × σ
  dispatch : σ → ElicitStep → String → Except ElicitationError ElicitationDispatch × σ
  check : σ → ElicitStep → String → Except ElicitationError ElicitationStatus × σ
  validate : σ → ElicitStep → String → Except ElicitationError ElicitationValidation × σ

end Cpex
