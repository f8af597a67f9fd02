import Cpex.Native.Constraint

/-! # The extension slots

`cpex-core/src/extensions/`: the typed slots that travel beside the payload. A slot the
framework compares by pointer is an `Arc`; the others are plain values. -/

namespace Cpex

/-- A shared pointer: `Arc::ptr_eq` compares addresses, everything else reads the value. -/
structure Arc (α : Type) where
  addr : Nat
  val : α

/-- A `chrono::DateTime<Utc>`, in nanoseconds since the epoch. -/
abbrev DateTime := Int

/-! ### Immutable slots -/

structure RequestExtension where
  environment : Option String := none
  requestId : Option String := none
  timestamp : Option String := none
  traceId : Option String := none
  spanId : Option String := none

structure ConversationContext where
  summary : Option String := none
  topics : List String := []

structure AgentExtension where
  input : Option String := none
  sessionId : Option String := none
  conversationId : Option String := none
  turn : Option Nat := none
  agentId : Option String := none
  parentAgentId : Option String := none
  conversation : Option ConversationContext := none

structure ToolMetadata where
  name : String := ""
  title : Option String := none
  description : Option String := none
  serverId : Option String := none
  «namespace» : Option String := none

structure ResourceMetadata where
  uri : String := ""
  name : Option String := none
  description : Option String := none
  mimeType : Option String := none
  serverId : Option String := none

structure PromptMetadata where
  name : String := ""
  description : Option String := none
  serverId : Option String := none

structure MCPExtension where
  tool : Option ToolMetadata := none
  resource : Option ResourceMetadata := none
  prompt : Option PromptMetadata := none

inductive StopReason where
  | «end»
  | «return»
  | call
  | maxTokens
  | stopSequence
  deriving DecidableEq, Repr

structure TokenUsage where
  inputTokens : Nat := 0
  outputTokens : Nat := 0
  totalTokens : Nat := 0

structure CompletionExtension where
  stopReason : Option StopReason := none
  tokens : Option TokenUsage := none
  model : Option String := none
  rawFormat : Option String := none
  createdAt : Option String := none
  latencyMs : Option Nat := none

structure ProvenanceExtension where
  source : Option String := none
  messageId : Option String := none
  parentId : Option String := none

structure LLMExtension where
  modelId : Option String := none
  provider : Option String := none
  capabilities : List String := []

structure FrameworkExtension where
  framework : Option String := none
  frameworkVersion : Option String := none
  nodeId : Option String := none
  graphId : Option String := none
  metadata : HashMap String Json := ∅

/-- The entity a request is about, and the host's tags and scope for it. -/
structure MetaExtension where
  entityType : Option String := none
  entityName : Option String := none
  tags : Finset String := ∅
  scope : Option String := none
  properties : HashMap String String := ∅

/-! ### Security -/

inductive SubjectType where
  | user
  | agent
  | service
  | system
  deriving DecidableEq, Repr

structure SubjectExtension where
  id : Option String := none
  subjectType : Option SubjectType := none
  roles : Finset String := ∅
  permissions : Finset String := ∅
  teams : Finset String := ∅
  claims : HashMap String String := ∅

structure ObjectSecurityProfile where
  managedBy : Option String := none
  permissions : List String := []
  trustDomain : Option String := none
  dataScope : List String := []

structure DataPolicy where
  applyLabels : List String := []
  allowedActions : Option (List String) := none
  deniedActions : List String := []

inductive ClientTrustLevel where
  | firstParty
  | thirdParty
  | internal
  | custom (name : String)
  deriving DecidableEq, Repr

structure ClientExtension where
  clientId : String := ""
  clientName : Option String := none
  trustLevel : ClientTrustLevel := .thirdParty
  authorizedScopes : List String := []
  authorizedAudiences : List String := []
  roles : List String := []
  permissions : List String := []
  teams : List String := []
  claims : HashMap String Json := ∅

structure WorkloadIdentity where
  spiffeId : Option String := none
  trustDomain : Option String := none
  attestedAt : Option DateTime := none
  attestor : Option String := none
  selectors : List String := []
  clientId : Option String := none

/-- `SecurityExtension`; `labels` is the `MonotonicSet` of security labels. -/
structure SecurityExtension where
  labels : Finset String := ∅
  classification : Option String := none
  subject : Option SubjectExtension := none
  client : Option ClientExtension := none
  callerWorkload : Option WorkloadIdentity := none
  thisWorkload : Option WorkloadIdentity := none
  authMethod : Option String := none
  objects : HashMap String ObjectSecurityProfile := ∅
  data : HashMap String DataPolicy := ∅

/-! ### HTTP, delegation and credentials -/

structure HttpExtension where
  requestHeaders : HashMap String String := ∅
  responseHeaders : HashMap String String := ∅
  method : Option String := none
  path : Option String := none
  host : Option String := none
  scheme : Option String := none

inductive DelegationStrategy where
  | tokenExchange
  | clientCredentials
  | spiffeSvid
  | passthrough
  | ucan
  | transactionToken
  | custom (name : String)
  deriving DecidableEq, Repr

structure AuthorizationDetail where
  detailType : String := ""
  locations : Option (List String) := none
  actions : Option (List String) := none
  datatypes : Option (List String) := none
  identifier : Option String := none
  privileges : Option (List String) := none
  deriving DecidableEq, Repr

/-- One hop of a delegation chain. -/
structure DelegationHop where
  subjectId : String := ""
  subjectType : Option SubjectType := none
  audience : Option String := none
  scopesGranted : List String := []
  authorizationDetails : List AuthorizationDetail := []
  timestamp : DateTime := 0
  ttlSeconds : Option Nat := none
  strategy : Option DelegationStrategy := none
  fromCache : Bool := false
  deriving DecidableEq, Repr

/-- `DelegationExtension`; `depth` is a `u32`. -/
structure DelegationExtension where
  chain : List DelegationHop := []
  depth : Nat := 0
  originSubjectId : Option String := none
  actorSubjectId : Option String := none
  delegated : Bool := false
  ageSeconds : F64 := ⟨0⟩

inductive TokenRole where
  | user
  | client
  | callerWorkload
  | custom (name : String)
  deriving DecidableEq, Repr

inductive TokenKind where
  | jwt
  | opaqueToken
  | spiffeJwt
  | ucan
  | txnToken
  deriving DecidableEq, Repr

inductive DelegationMode where
  | onBehalfOfUser
  | asClient
  | asCallerWorkload
  | asThisWorkload
  deriving DecidableEq, Repr

structure RawInboundToken where
  token : String
  sourceHeader : String
  kind : TokenKind
  deriving DecidableEq, Repr

/-- What a minted token was minted for. -/
structure DelegationKey where
  subjectId : String := ""
  workloadId : Option String := none
  clientId : Option String := none
  audience : String
  scopes : List String
  mode : DelegationMode
  deriving DecidableEq, Repr

structure RawDelegatedToken where
  token : String
  outboundHeader : String
  audience : String
  scopes : List String
  expiresAt : DateTime
  deriving DecidableEq, Repr

/-- The bearer tokens of a request: those it came with and those minted for it. -/
structure RawCredentialsExtension where
  inboundTokens : HashMap TokenRole RawInboundToken := ∅
  delegatedTokens : HashMap DelegationKey RawDelegatedToken := ∅

/-- The folded backend constraint the policy engine hands to the router. -/
structure CandidateConstraintExtension where
  allowModels : Option (List String) := none
  denyModels : List String := []
  allowRegions : Option (List String) := none
  allowSites : Option (List String) := none
  maxCostTiers : List String := []
  /-- A `BTreeMap`, as its key-sorted entries. -/
  custom : List (String × String) := []
  onEmpty : OnEmpty := .deny
  deriving DecidableEq, Repr

end Cpex
