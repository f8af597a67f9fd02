import Cpex.Native.Extensions
import Cpex.Native.Rules

/-! # The payloads of the delegation and elicitation hooks

`cpex-core/src/delegation/payload.rs` and `cpex-core/src/elicitation/payload.rs`: each has input
fields the bridge sets and output fields the handlers fill. -/

namespace Cpex.Core

/-! ### Delegation -/

/-- `DelegationSubject`: whom the minted credential speaks for. -/
inductive DelegationSubject where
  | user
  | client
  | callerWorkload
  | thisWorkload
  deriving DecidableEq, Repr

namespace DelegationSubject

/-- `DelegationSubject::inbound_role`: this workload sends itself no credential. -/
def inboundRole : DelegationSubject → Option TokenRole
  | user => some .user
  | client => some .client
  | callerWorkload => some .callerWorkload
  | thisWorkload => none

/-- `DelegationSubject::from_config_str`. -/
def fromConfigStr (s : String) : Option DelegationSubject :=
  if s = "user" then some user
  else if s = "client" then some client
  else if s = "caller_workload" ∨ s = "workload" then some callerWorkload
  else if s = "this_workload" ∨ s = "gateway" then some thisWorkload
  else none

end DelegationSubject

inductive TargetType where
  | tool
  | agent
  | resource
  | service
  | custom (name : String)
  deriving DecidableEq, Repr

inductive AuthEnforcedBy where
  | caller
  | target
  | both
  deriving DecidableEq, Repr

/-- `DelegationPayload`, without the fields the bridge leaves at their defaults and no function
    here reads. -/
structure DelegationPayload where
  bearerToken : String
  actorToken : String := ""
  actorRole : Option TokenRole := none
  subject : DelegationSubject := .user
  targetName : String
  targetType : TargetType := .tool
  targetAudience : Option String := none
  requiredPermissions : List String := []
  authEnforcedBy : AuthEnforcedBy := .caller
  delegatedToken : Option RawDelegatedToken := none
  delegationUpdate : Option DelegationExtension := none
  delegationMode : Option DelegationMode := none

namespace DelegationPayload

/-- `DelegationPayload::involves_workload`. -/
def involvesWorkload (self : DelegationPayload) : Bool :=
  self.subject == .callerWorkload || self.actorRole == some .callerWorkload

/-- `DelegationPayload::involves_client`. -/
def involvesClient (self : DelegationPayload) : Bool :=
  self.subject == .client || self.actorRole == some .client

/-- The key a minted token is kept under. -/
def delegationKey (self : DelegationPayload) (ext : Extensions) (token : RawDelegatedToken) :
    DelegationKey where
  subjectId := ((ext.security.bind (·.subject)).bind (·.id)).getD ""
  workloadId :=
    if self.involvesWorkload then (ext.security.bind (·.callerWorkload)).bind (·.spiffeId)
    else none
  clientId :=
    if self.involvesClient then
      ((ext.security.bind (·.client)).map (·.clientId)).filter (· ≠ "")
    else none
  audience := token.audience
  scopes := token.scopes
  mode := self.delegationMode.getD .onBehalfOfUser

/-- The token part of `apply_to_extensions`. -/
def applyToken (self : DelegationPayload) (ext : Extensions) : Extensions :=
  match self.delegatedToken with
  | none => ext
  | some token =>
    let raw := ext.rawCredentials.getD {}
    { ext with rawCredentials := some { raw with
        delegatedTokens := raw.delegatedTokens.insert (self.delegationKey ext token) token } }

/-- `DelegationPayload::apply_to_extensions`: the delegation slot is replaced as a whole. -/
def applyToExtensions (self : DelegationPayload) (ext : Extensions) : Extensions :=
  let ext := self.applyToken ext
  match self.delegationUpdate with
  | none => ext
  | some update => { ext with delegation := some update }

end DelegationPayload

/-! ### Elicitation -/

inductive ElicitationOp where
  | dispatch
  | check
  | validate
  deriving DecidableEq, Repr

inductive ElicitationStatusKind where
  | pending
  | resolved
  | expired
  deriving DecidableEq, Repr

inductive ElicitationOutcomeKind where
  | approved
  | denied
  deriving DecidableEq, Repr

/-- The step an elicitation is for, and the route the step stands in. -/
structure ElicitOrigin where
  routeKey : String
  step : ElicitStep

/-- `ElicitationPayload`, without the metadata. `origin` is not in the source and no handler has
    it: it records what the payload was built for. -/
structure ElicitationPayload where
  operation : ElicitationOp
  elicitationId : Option String := none
  kind : String
  «from» : String
  purpose : Option String := none
  scope : Option String := none
  timeout : Option String := none
  channel : Option String := none
  id : Option String := none
  status : Option ElicitationStatusKind := none
  outcome : Option ElicitationOutcomeKind := none
  approver : Option String := none
  intentId : Option String := none
  expiresAt : Option String := none
  valid : Option Bool := none
  reason : Option String := none
  origin : ElicitOrigin

end Cpex.Core
