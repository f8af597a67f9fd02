import Cpex.Native.Slots

/-! # Extensions: views, copies and merges

`cpex-core/src/extensions/{tiers,filter,container}.rs`. A plugin sees the canonical
`Extensions` through `filterExtensions`, works on a `cowCopy` of that view, and what it
returns is checked by `validateImmutable` and folded back by `mergeOwned`. -/

namespace Cpex

/-! ### Tiers and capabilities -/

inductive MutabilityTier where
  | immutable
  | monotonic
  | mutable
  deriving DecidableEq, Repr

inductive Capability where
  | readSubject
  | readRoles
  | readTeams
  | readClaims
  | readPermissions
  | readClient
  | readWorkload
  | readAgent
  | readHeaders
  | writeHeaders
  | readLabels
  | appendLabels
  | readDelegation
  | appendDelegation
  | readInboundCredentials
  | readDelegatedTokens
  deriving DecidableEq, Repr

/-- The serialised name of a capability, as plugins declare it. -/
def capStr : Capability → String
  | .readSubject => "read_subject"
  | .readRoles => "read_roles"
  | .readTeams => "read_teams"
  | .readClaims => "read_claims"
  | .readPermissions => "read_permissions"
  | .readClient => "read_client"
  | .readWorkload => "read_workload"
  | .readAgent => "read_agent"
  | .readHeaders => "read_headers"
  | .writeHeaders => "write_headers"
  | .readLabels => "read_labels"
  | .appendLabels => "append_labels"
  | .readDelegation => "read_delegation"
  | .appendDelegation => "append_delegation"
  | .readInboundCredentials => "read_inbound_credentials"
  | .readDelegatedTokens => "read_delegated_tokens"

inductive AccessPolicy where
  | unrestricted
  | capabilityGated
  deriving DecidableEq, Repr

structure SlotPolicy where
  tier : MutabilityTier
  access : AccessPolicy
  readCap : Option Capability
  writeCap : Option Capability
  deriving DecidableEq, Repr

inductive SlotName where
  | request
  | agent
  | http
  | «meta»
  | delegation
  | custom
  | mcp
  | completion
  | provenance
  | llm
  | framework
  | securityLabels
  | securitySubject
  | securitySubjectRoles
  | securitySubjectTeams
  | securitySubjectClaims
  | securitySubjectPermissions
  | securityClient
  | securityCallerWorkload
  | securityThisWorkload
  | securityObjects
  | securityData
  | rawCredentialsInbound
  | rawCredentialsDelegated
  deriving DecidableEq, Repr

/-- `slot_policy`. -/
def slotPolicy : SlotName → SlotPolicy
  | .request | .provenance | .completion | .llm | .framework | .mcp | .meta
  | .securityObjects | .securityData => ⟨.immutable, .unrestricted, none, none⟩
  | .custom => ⟨.mutable, .unrestricted, none, none⟩
  | .agent => ⟨.immutable, .capabilityGated, some .readAgent, none⟩
  | .http => ⟨.mutable, .capabilityGated, some .readHeaders, some .writeHeaders⟩
  | .delegation => ⟨.monotonic, .capabilityGated, some .readDelegation, some .appendDelegation⟩
  | .securityLabels => ⟨.monotonic, .capabilityGated, some .readLabels, some .appendLabels⟩
  | .securitySubject => ⟨.immutable, .capabilityGated, some .readSubject, none⟩
  | .securitySubjectRoles => ⟨.immutable, .capabilityGated, some .readRoles, none⟩
  | .securitySubjectTeams => ⟨.immutable, .capabilityGated, some .readTeams, none⟩
  | .securitySubjectClaims => ⟨.immutable, .capabilityGated, some .readClaims, none⟩
  | .securitySubjectPermissions => ⟨.immutable, .capabilityGated, some .readPermissions, none⟩
  | .securityClient => ⟨.immutable, .capabilityGated, some .readClient, none⟩
  | .securityCallerWorkload | .securityThisWorkload =>
    ⟨.immutable, .capabilityGated, some .readWorkload, none⟩
  | .rawCredentialsInbound => ⟨.immutable, .capabilityGated, some .readInboundCredentials, none⟩
  | .rawCredentialsDelegated => ⟨.immutable, .capabilityGated, some .readDelegatedTokens, none⟩

/-- `has_any_subject_capability`. -/
def hasAnySubjectCapability (capabilities : Finset String) : Bool :=
  [Capability.readSubject, .readRoles, .readTeams, .readClaims, .readPermissions].any fun cap =>
    decide (capStr cap ∈ capabilities)

/-- `has_read_access`. -/
def hasReadAccess (policy : SlotPolicy) (capabilities : Finset String) : Bool :=
  if policy.access = .unrestricted then true
  else if policy.readCap.any fun cap => decide (capStr cap ∈ capabilities) then true
  -- Any sub-field capability implies `read_subject`.
  else if policy.readCap = some .readSubject then hasAnySubjectCapability capabilities
  else false

/-! ### The containers -/

/-- `Extensions`; a write token is only ever present or absent. -/
structure Extensions where
  request : Option (Arc RequestExtension) := none
  agent : Option (Arc AgentExtension) := none
  http : Option HttpExtension := none
  security : Option SecurityExtension := none
  candidateConstraint : Option CandidateConstraintExtension := none
  delegation : Option DelegationExtension := none
  rawCredentials : Option RawCredentialsExtension := none
  mcp : Option (Arc MCPExtension) := none
  completion : Option (Arc CompletionExtension) := none
  provenance : Option (Arc ProvenanceExtension) := none
  llm : Option (Arc LLMExtension) := none
  framework : Option (Arc FrameworkExtension) := none
  «meta» : Option (Arc MetaExtension) := none
  custom : Option (HashMap String Json) := none
  httpWriteToken : Bool := false
  labelsWriteToken : Bool := false
  delegationWriteToken : Bool := false

/-- `OwnedExtensions`: a plugin's writable workspace, with the same slots and tokens. -/
structure OwnedExtensions extends Extensions

/-! ### Filtered views -/

/-- `build_filtered_raw_credentials`. -/
def buildFilteredRawCredentials (raw : RawCredentialsExtension)
    (allowInbound allowDelegated : Bool) : RawCredentialsExtension where
  inboundTokens := if allowInbound then raw.inboundTokens else ∅
  delegatedTokens := if allowDelegated then raw.delegatedTokens else ∅

/-- `build_filtered_subject`. -/
def buildFilteredSubject (subject : SubjectExtension) (capabilities : Finset String) :
    SubjectExtension where
  id := subject.id
  subjectType := subject.subjectType
  roles := if capStr .readRoles ∈ capabilities then subject.roles else ∅
  permissions := if capStr .readPermissions ∈ capabilities then subject.permissions else ∅
  teams := if capStr .readTeams ∈ capabilities then subject.teams else ∅
  claims := if capStr .readClaims ∈ capabilities then subject.claims else ∅

/-- `build_filtered_security`. -/
def buildFilteredSecurity (security : SecurityExtension) (capabilities : Finset String) :
    SecurityExtension where
  objects := security.objects
  data := security.data
  classification := security.classification
  authMethod := security.authMethod
  labels := if hasReadAccess (slotPolicy .securityLabels) capabilities then security.labels else ∅
  subject := security.subject.bind fun subject =>
    if hasAnySubjectCapability capabilities then some (buildFilteredSubject subject capabilities)
    else none
  client := security.client.filter fun _ =>
    hasReadAccess (slotPolicy .securityClient) capabilities
  callerWorkload := security.callerWorkload.filter fun _ =>
    hasReadAccess (slotPolicy .securityCallerWorkload) capabilities
  thisWorkload := security.thisWorkload.filter fun _ =>
    hasReadAccess (slotPolicy .securityThisWorkload) capabilities

/-- `filter_extensions`: the view of a plugin with these capabilities, without tokens. -/
def filterExtensions (extensions : Extensions) (capabilities : Finset String) : Extensions where
  request := extensions.request
  provenance := extensions.provenance
  completion := extensions.completion
  llm := extensions.llm
  framework := extensions.framework
  mcp := extensions.mcp
  «meta» := extensions.meta
  custom := extensions.custom
  candidateConstraint := extensions.candidateConstraint
  delegation := extensions.delegation.filter fun _ =>
    hasReadAccess (slotPolicy .delegation) capabilities
  agent := extensions.agent.filter fun _ => hasReadAccess (slotPolicy .agent) capabilities
  http := extensions.http.filter fun _ => hasReadAccess (slotPolicy .http) capabilities
  security := extensions.security.map fun security => buildFilteredSecurity security capabilities
  rawCredentials := extensions.rawCredentials.bind fun raw =>
    let allowInbound := hasReadAccess (slotPolicy .rawCredentialsInbound) capabilities
    let allowDelegated := hasReadAccess (slotPolicy .rawCredentialsDelegated) capabilities
    if allowInbound || allowDelegated then
      some (buildFilteredRawCredentials raw allowInbound allowDelegated)
    else none

/-! ### Copy, validation and merge -/

/-- `CAP_WRITE_CANDIDATE_CONSTRAINT`. -/
def capWriteCandidateConstraint : String := "write_candidate_constraint"

/-- The comparison of one immutable slot in `validate_immutable`. -/
def ptrEqOpt {α : Type} : Option (Arc α) → Option (Arc α) → Bool
  | some a, some b => a.addr == b.addr
  -- The plugin never saw the slot, or there is none.
  | _, none => true
  -- The plugin made the slot up.
  | none, some _ => false

/-- `chain_extends`: the returned chain keeps every hop the canonical one has. -/
def chainExtends (canonical returned : List DelegationHop) : Bool :=
  if returned.length < canonical.length then false
  else (canonical.zip returned).all fun (before, after) =>
    before.subjectId == after.subjectId && before.subjectType == after.subjectType &&
      before.audience == after.audience && before.scopesGranted == after.scopesGranted &&
      before.strategy == after.strategy

namespace Extensions

/-- `Extensions::cow_copy`. -/
def cowCopy (self : Extensions) : OwnedExtensions := { self with }

/-- `Extensions::validate_immutable`; `raw_credentials` is not among the slots it compares. -/
def validateImmutable (self : Extensions) (modified : OwnedExtensions) : Bool :=
  ptrEqOpt self.request modified.request && ptrEqOpt self.agent modified.agent &&
    ptrEqOpt self.mcp modified.mcp && ptrEqOpt self.completion modified.completion &&
    ptrEqOpt self.provenance modified.provenance && ptrEqOpt self.llm modified.llm &&
    ptrEqOpt self.framework modified.framework && ptrEqOpt self.meta modified.meta

/-- `Extensions::candidate_constraint_write_ok`. -/
def candidateConstraintWriteOk (self : Extensions) (modified : OwnedExtensions)
    (capabilities : Finset String) : Bool :=
  decide (capWriteCandidateConstraint ∈ capabilities) ||
    decide (modified.candidateConstraint = self.candidateConstraint)

/-- `Extensions::merge_http`: the headers of the returned slot over the canonical request
    line, if the plugin holds the token. -/
def mergeHttp (self : Extensions) (owned : Option HttpExtension) (token : Bool) : Extensions :=
  match owned, token with
  | some owned, true =>
    { self with http := some { self.http.getD {} with
        requestHeaders := owned.requestHeaders
        responseHeaders := owned.responseHeaders } }
  | _, _ => self

/-- `Extensions::merge_security`: labels are folded in, and an edit that drops one is
    dropped as a whole. -/
def mergeSecurity (self : Extensions) (owned : Option SecurityExtension) (token : Bool) :
    Extensions :=
  match owned, token with
  | some owned, true =>
    let merged := self.security.getD {}
    if merged.labels ⊆ owned.labels then
      { self with security := some { merged with labels := merged.labels ∪ owned.labels } }
    else self
  | _, _ => self

/-- `Extensions::merge_delegation`: depth and flag are recomputed, an established origin
    stays. -/
def mergeDelegation (self : Extensions) (owned : Option DelegationExtension) (token : Bool) :
    Extensions :=
  match owned, token with
  | some owned, true =>
    if self.delegation.all fun canonical => chainExtends canonical.chain owned.chain then
      let merged := self.delegation.getD {}
      { self with delegation := some {
          chain := owned.chain
          depth := owned.chain.length % 2 ^ 32
          delegated := !owned.chain.isEmpty
          originSubjectId := merged.originSubjectId.or owned.originSubjectId
          actorSubjectId := owned.actorSubjectId
          ageSeconds := owned.ageSeconds } }
    else self
  | _, _ => self

/-- `Extensions::merge_owned`. -/
def mergeOwned (self : Extensions) (owned : OwnedExtensions) : Extensions :=
  let self := self.mergeHttp owned.http owned.httpWriteToken
  let self := self.mergeSecurity owned.security owned.labelsWriteToken
  let self := { self with candidateConstraint := owned.candidateConstraint }
  let self := self.mergeDelegation owned.delegation owned.delegationWriteToken
  let self := { self with custom := owned.custom }
  if owned.rawCredentials.isSome then { self with rawCredentials := owned.rawCredentials }
  else self

end Extensions

end Cpex
