import Cpex.Native.Evaluator
import Cpex.Native.Executor
import Cpex.Native.HookPayloads
import Cpex.Native.Message

/-! # The invokers of a route

`apl-cpex/src/{dispatch_plan,cmf_invoker,delegation_invoker,elicitation_invoker}.rs`: plugin,
`delegate` and elicitation steps of a route, each run through the executor on one hook entry.

The invokers share the request's payload and extensions, which the source keeps behind mutexes
and `RequestState` passes along. The branches of a `parallel` block share them too: what a branch
finds there when it calls a plugin, and what is there after the block, depends on how the branches
are interleaved and is up to the host. -/

namespace Cpex.Core

/-! ### Hook metadata -/

inductive HookPhase where
  | pre
  | post
  | unphased
  deriving DecidableEq, Repr

structure HookMetadata where
  entityType : Option String
  phase : HookPhase
  deriving DecidableEq, Repr

/-- `HookMetadata::matches`. -/
def HookMetadata.«matches» (self : HookMetadata) (requestEntityType : Option String)
    (requestedPhase : HookPhase) : Bool :=
  let entityOk := match self.entityType, requestEntityType with
    | some hookEt, some reqEt => hookEt == reqEt
    | _, _ => true
  entityOk &&
    (self.phase == .unphased || requestedPhase == .unphased || self.phase == requestedPhase)

/-- `BUILTIN_METADATA`. -/
def builtinMetadata : List (String × HookMetadata) :=
  [("cmf.tool_pre_invoke", ⟨some "tool", .pre⟩),
    ("cmf.tool_post_invoke", ⟨some "tool", .post⟩),
    ("cmf.llm_input", ⟨some "llm", .pre⟩),
    ("cmf.llm_output", ⟨some "llm", .post⟩),
    ("cmf.prompt_pre_invoke", ⟨some "prompt", .pre⟩),
    ("cmf.prompt_post_invoke", ⟨some "prompt", .post⟩),
    ("cmf.resource_pre_fetch", ⟨some "resource", .pre⟩),
    ("cmf.resource_post_fetch", ⟨some "resource", .post⟩),
    ("identity.resolve", ⟨none, .unphased⟩),
    ("token.delegate", ⟨none, .unphased⟩)]

/-- `lookup` of `hooks/metadata.rs`, with the entries the host `registered`. -/
def lookupHookMetadata (registered : List (String × HookMetadata)) (hookName : String) :
    HookMetadata :=
  ((registered ++ builtinMetadata).lookup hookName).getD ⟨none, .unphased⟩

/-! ### Dispatch plans -/

/-- `RoutePluginEntry`. -/
structure RoutePluginEntry (η : Type) where
  pluginName : String
  entriesByHook : HashMap String (HookEntry η)

/-- `RouteDispatchPlan`. -/
structure RouteDispatchPlan (η : Type) where
  plugins : HashMap String (RoutePluginEntry η) := ∅
  delegationEntries : HashMap String (HookEntry η) := ∅
  elicitationEntries : HashMap String (HookEntry η) := ∅

variable {η σ : Type}

/-- `RoutePluginEntry::pick_entry`. -/
def RoutePluginEntry.pickEntry (self : RoutePluginEntry η)
    (registered : List (String × HookMetadata)) (requestedEntityType : Option String)
    (requestedPhase : HookPhase) : Option (HookEntry η) :=
  (self.entriesByHook.entries.find? fun e =>
    (lookupHookMetadata registered e.1).matches requestedEntityType requestedPhase).map (·.2)

/-! ### The shared request -/

/-- The slots `extensions_changed` compares by pointer: whether each holds another `Arc` than
    the one the handler was given. -/
structure Replaced where
  security : Bool := false
  delegation : Bool := false
  rawCredentials : Bool := false

/-- Replaced before or since. -/
def Replaced.or (a b : Replaced) : Replaced :=
  ⟨a.security || b.security, a.delegation || b.delegation, a.rawCredentials || b.rawCredentials⟩

/-- Whose write to the extensions a record is about. -/
inductive Writer where
  /-- A plugin step or stage. -/
  | plugin
  /-- A plugin under `parallel`. -/
  | branch
  /-- The plugin of a `delegate` step, by the extensions it returned. -/
  | delegator
  /-- The plugin of an elicitation step. -/
  | approver
  /-- A `delegate` step, for the credential it was granted. -/
  | grant
  deriving DecidableEq, Repr

/-- One inner pipeline or grant: the extensions it started from, and those it ended with. -/
structure ExtensionsWrite where
  writer : Writer
  before : Extensions
  after : Extensions

/-- What the invokers of one request keep behind mutexes. -/
structure SharedRequest where
  extensions : Extensions
  payload : MessagePayload
  payloadModified : Bool := false
  replaced : Replaced := {}

/-- The state the invokers of one request share. `routeKey`, `inBranch` and `writes` are not in
    the source: the route that is evaluated, whether a branch of a `parallel` block calls, and what
    was done to the extensions. -/
structure RequestState (σ : Type) extends SharedRequest where
  routeKey : String := ""
  inBranch : Bool := false
  disabled : Finset Uuid
  world : σ
  writes : List ExtensionsWrite := []

/-- How the branches of a `parallel` block get at the request they share. -/
structure Sharing (σ : Type) where
  /-- The request as a branch finds it, whatever the others have written since. -/
  found : RequestState σ → SharedRequest
  /-- The request after the block, from the branches' states. -/
  left : RequestState σ → List (RequestState σ) → SharedRequest
  /-- Branches that write back the extensions they found leave those from before the block. -/
  left_extensions : ∀ st branches, (∀ b ∈ branches, ∀ w ∈ b.writes, w.after = w.before) →
    (left st branches).extensions = st.extensions

/-- What a route calls: the executor, the handlers of the three hook families, the policy
    decision points, and the runtime of `parallel` blocks. -/
structure RouteHost (η σ : Type) where
  executor : ExecutorConfig := {}
  cmf : Runtime η MessagePayload σ
  delegation : Runtime η DelegationPayload σ
  elicitation : Runtime η ElicitationPayload σ
  pdp : σ → PdpCall → AttributeBag → Except PdpError PdpDecision × σ
  parallel : Cpex.Runtime σ
  sharing : Sharing σ
  hookMetadata : List (String × HookMetadata) := []

/-- `invoke_entries` on one entry. -/
def RequestState.invokeEntry {π : Type} (config : ExecutorConfig) (rt : Runtime η π σ)
    (entry : HookEntry η) (payload : π) (st : RequestState σ) :
    Execution η π σ × RequestState σ :=
  let run := execute rt config [entry] payload st.extensions none st.disabled st.world
  (run, { st with world := run.state.world, disabled := run.state.disabled })

/-- Record a write. -/
def RequestState.wrote (st : RequestState σ) (writer : Writer) (before after : Extensions) :
    RequestState σ :=
  { st with writes := st.writes ++ [⟨writer, before, after⟩] }

/-- The slots `merge_owned` puts a new `Arc` into. -/
def mergeReplaces (self : Extensions) (owned : OwnedExtensions) : Replaced where
  security := owned.labelsWriteToken &&
    owned.security.any fun new => decide ((self.security.getD {}).labels ⊆ new.labels)
  delegation := owned.delegationWriteToken &&
    owned.delegation.any fun new =>
      self.delegation.all fun canonical => chainExtends canonical.chain new.chain
  rawCredentials := owned.rawCredentials.isSome

/-- The slots a call replaced. -/
def Ran.replaced {π : Type} (r : Ran η π) : Replaced :=
  match r.accepted.extensions, r.invocation with
  | true, .returned (some erased) =>
    (erased.modifiedExtensions.map fun owned =>
      mergeReplaces r.before (grantTokens owned r.entry.capabilities)).getD {}
  | _, _ => {}

/-- The slots a pipeline replaced. -/
def Execution.replaced {π : Type} (run : Execution η π σ) : Replaced :=
  run.state.trace.foldl (fun acc (r : Ran η π) => acc.or r.replaced) {}

/-! ### Plugin steps -/

/-- `PluginInvocation::phase`, as a hook phase. -/
def invocationPhase : PluginInvocation → HookPhase
  | .step .pre | .field _ _ .pre => .pre
  | .step .post | .field _ _ .post => .post

/-- `field_value_from_message`. -/
def fieldValueFromMessage (message : Message) (field : String) (phase : DispatchPhase) :
    Option Json :=
  let projection := match phase with
    | .pre => extractArgsFromMessage message
    | .post => extractResultFromMessage message
  if projection.isObject then getDotted projection field else some projection

/-- The new value of the addressed field, if the plugin changed it. -/
def rewrittenField (before after : Message) : PluginInvocation → Option Json
  | .step _ => none
  | .field name _ phase =>
    (fieldValueFromMessage after name phase).filter fun new =>
      !(fieldValueFromMessage before name phase).any fun old => old.eq new

/-- `snapshot_labels`. -/
def snapshotLabels (extensions : Extensions) : Finset String :=
  (extensions.security.map (·.labels)).getD ∅

section
variable [Platform]

/-- `HookPhase` through `Debug`. -/
def HookPhase.debug : HookPhase → String
  | .pre => "Pre"
  | .post => "Post"
  | .unphased => "Unphased"

/-- The error of a plugin without a hook for the context. -/
def noHookText (pluginName : String) (entityType : Option String) (phase : HookPhase)
    (declared : List String) : String :=
  let entity := match entityType with
    | some t => "Some(" ++ Platform.debugStr t ++ ")"
    | none => "None"
  "plugin '" ++ pluginName ++ "' has no hook matching dispatch context (entity_type=" ++ entity ++
    ", phase=" ++ phase.debug ++ "); declared hooks: [" ++
    ", ".intercalate (declared.map Platform.debugStr) ++ "]"

/-- The decision of a plugin's pipeline. -/
def pluginDecision (result : PipelineResult MessagePayload) : Decision :=
  if result.continueProcessing then .allow
  else
    match result.violation with
    | some v => .deny (some v.reason) v.code
    | none => .deny none "policy.forbidden"

/-- The labels a plugin added, as session taints. The order of the set is not used. -/
def labelTaints (before after : Extensions) : List TaintEvent :=
  ((snapshotLabels after \ snapshotLabels before).sort (· ≤ ·)).map fun label =>
    ⟨label, [.session]⟩

/-- What `CmfPluginInvoker::invoke` does with the result of the pipeline. -/
def settlePlugin (invocation : PluginInvocation) (run : Execution η MessagePayload σ)
    (st : RequestState σ) : PluginOutcome × RequestState σ :=
  let result := run.result
  let after := result.modifiedExtensions.getD st.extensions
  let outcome (modifiedValue : Option Json) : PluginOutcome :=
    ⟨pluginDecision result, labelTaints st.extensions after, modifiedValue⟩
  let st' := { st.wrote .plugin st.extensions after with
    extensions := after
    replaced := st.replaced.or run.replaced }
  match result.payloadModified, result.modifiedPayload with
  | true, some modified =>
    (outcome (rewrittenField st.payload.message modified.message invocation),
      { st' with payload := modified, payloadModified := true })
  -- The executor returns the payload of every allowed pipeline, modified or not.
  | _, _ => (outcome none, st')

/-- `CmfPluginInvoker::invoke`. -/
def cmfInvoke (host : RouteHost η σ) (plan : RouteDispatchPlan η) (st : RequestState σ)
    (pluginName : String) (_bag : AttributeBag) (invocation : PluginInvocation) :
    Except Cpex.PluginError PluginOutcome × RequestState σ :=
  match plan.plugins.lookup pluginName with
  | none => (.error (.notFound pluginName), st)
  | some resolved =>
    let entityType := st.extensions.meta.bind (·.val.entityType)
    let phase := invocationPhase invocation
    match resolved.pickEntry host.hookMetadata entityType phase with
    | none =>
      (.error (.dispatch (noHookText pluginName entityType phase resolved.entriesByHook.keys)), st)
    | some entry =>
      let (run, st) := st.invokeEntry host.executor host.cmf entry st.payload
      let (outcome, st) := settlePlugin invocation run st
      (.ok outcome, st)

/-! ### Delegation steps -/

/-- `subject_from_cfg`. -/
def subjectFromCfg (cfg : List (Yaml × Yaml)) : Except DelegationError DelegationSubject :=
  match Yaml.lookupKey cfg "subject" with
  -- The step acts for the user unless it says otherwise.
  | none => .ok .user
  | some v =>
    match v.asStr with
    | none => .error (.invalidConfig "`subject:` must be a string")
    | some s =>
      match DelegationSubject.fromConfigStr s with
      | some subject => .ok subject
      | none => .error (.invalidConfig ("unknown `subject: " ++ s ++
          "` (expected user | client | caller_workload | this_workload)"))

/-- `role_from_cfg`. -/
def roleFromCfg (cfg : List (Yaml × Yaml)) (key : String) :
    Except DelegationError (Option TokenRole) :=
  match Yaml.lookupKey cfg key with
  | none => .ok none
  | some v =>
    match v.asStr with
    | none => .error (.invalidConfig ("`" ++ key ++ ":` must be a string"))
    | some s =>
      if s = "user" then .ok (some .user)
      else if s = "client" then .ok (some .client)
      else if s = "caller_workload" ∨ s = "workload" then .ok (some .callerWorkload)
      else .error (.invalidConfig ("unknown `" ++ key ++ ": " ++ s ++
        "` (expected user | client | caller_workload)"))

/-- `reject_unsupported_actor_combo`. -/
def rejectUnsupportedActorCombo (subject : DelegationSubject) (actor : Option TokenRole) :
    Except DelegationError Unit :=
  if actor.isSome ∧ (subject = .callerWorkload ∨ subject = .thisWorkload) then
    .error (.invalidConfig ("`actor:` is not supported with `subject: caller_workload` or " ++
      "`subject: this_workload` — the actor would be silently ignored"))
  else .ok ()

/-- `target_type_from_str`. -/
def targetTypeFromStr (s : String) : TargetType :=
  let s := Text.toAsciiLowercase s
  if s = "tool" then .tool
  else if s = "agent" then .agent
  else if s = "resource" then .resource
  else if s = "service" then .service
  -- An unknown type is kept, in lower case.
  else .custom s

/-- `auth_enforced_by_from_str`. -/
def authEnforcedByFromStr (s : String) : AuthEnforcedBy :=
  if Text.toAsciiLowercase s = "target" then .target else .caller

/-- The bearer token of a role, empty if there is none. -/
def inboundToken (ext : Extensions) (role : TokenRole) : String :=
  ((ext.rawCredentials.bind (·.inboundTokens.lookup role)).map (·.token)).getD ""

/-- The payload of a `delegate` step. -/
def delegationPayload (step : DelegateStep) (ext : Extensions) :
    Except DelegationError DelegationPayload := do
  let cfg := (step.configOverride.bind Yaml.asMapping).getD []
  let text (key : String) : Option String := (Yaml.lookupKey cfg key).bind Yaml.asStr
  let subject ← subjectFromCfg cfg
  let actorRole ← roleFromCfg cfg "actor"
  rejectUnsupportedActorCombo subject actorRole
  -- A role without a credential leaves the exchange single-token.
  let actor := (actorRole.map fun role => (role, inboundToken ext role)).filter (·.2 ≠ "")
  return {
    bearerToken := (subject.inboundRole.map (inboundToken ext)).getD ""
    actorToken := (actor.map (·.2)).getD ""
    actorRole := actor.map (·.1)
    subject
    targetName := (text "target").getD step.pluginName
    targetType := ((text "target_type").map targetTypeFromStr).getD .tool
    targetAudience := text "audience"
    requiredPermissions :=
      (((Yaml.lookupKey cfg "permissions").bind Yaml.asSequence).getD []).filterMap Yaml.asStr
    authEnforcedBy := ((text "auth_enforced_by").map authEnforcedByFromStr).getD .caller }

/-- The outcome of a delegation that was refused. -/
def delegationRefused (step : DelegateStep) (violation : Option PluginViolation) :
    DelegationOutcome where
  decision := match violation with
    | some v => .deny (some v.reason) v.code
    | none =>
      .deny (some ("delegate `" ++ step.pluginName ++ "` denied without violation detail"))
        step.source
  grantedPermissions := []
  grantedAudience := none
  grantedExpiresAt := none

/-- The outcome of a delegation that was granted. -/
def delegationGranted (resolved : DelegationPayload) : DelegationOutcome where
  decision := .allow
  grantedPermissions := (resolved.delegatedToken.map (·.scopes)).getD []
  grantedAudience := resolved.delegatedToken.map (·.audience)
  grantedExpiresAt := resolved.delegatedToken.map fun tok => Platform.toRfc3339 tok.expiresAt

/-- Apply what a delegation handler resolved to the request. The extensions the handler returned
    are not looked at. -/
def RequestState.grant (st : RequestState σ) (resolved : DelegationPayload) : RequestState σ :=
  let after := resolved.applyToExtensions st.extensions
  { st.wrote .grant st.extensions after with
    extensions := after
    replaced := st.replaced.or
      { delegation := resolved.delegationUpdate.isSome
        rawCredentials := resolved.delegatedToken.isSome } }

/-- `DelegationPluginInvoker::delegate`. -/
def delegate (host : RouteHost η σ) (plan : RouteDispatchPlan η) (st : RequestState σ)
    (step : DelegateStep) : Except DelegationError DelegationOutcome × RequestState σ :=
  match plan.delegationEntries.lookup step.pluginName with
  | none => (.error (.notFound step.pluginName), st)
  | some entry =>
    match delegationPayload step st.extensions with
    | .error e => (.error e, st)
    | .ok payload =>
      let (run, st') := st.invokeEntry host.executor host.delegation entry payload
      -- What the handler's pipeline made of the extensions is recorded, and left behind.
      let st := st'.wrote .delegator st.extensions
        (run.result.modifiedExtensions.getD st.extensions)
      if run.result.continueProcessing then
        match run.result.modifiedPayload with
        | none =>
          (.error (.dispatch ("plugin `" ++ step.pluginName ++
            "` returned allow but no DelegationPayload")), st)
        | some resolved => (.ok (delegationGranted resolved), st.grant resolved)
      -- A refusal is an outcome, and its `on_error` is the evaluator's business.
      else (.ok (delegationRefused step run.result.violation), st)

/-! ### Elicitation steps -/

/-- `ElicitKind::as_str`. -/
def elicitKindStr : ElicitKind → String
  | .approval => "approval"
  | .confirm => "confirm"
  | .stepUp => "step_up"
  | .attestation => "attestation"
  | .info => "info"
  | .review => "review"

/-- `ElicitationPayload::new` with `apply_step_inputs`. -/
def elicitationPayload (operation : ElicitationOp) (routeKey : String) (step : ElicitStep)
    («from» : String) (elicitationId : Option String) : ElicitationPayload where
  operation := operation
  elicitationId := elicitationId
  kind := elicitKindStr step.kind
  «from» := «from»
  purpose := step.purpose
  scope := step.scope
  timeout := step.timeout
  channel := step.channel
  origin := ⟨routeKey, step⟩

/-- `ElicitationPluginInvoker::invoke`. The extensions the handler returned are not looked at. -/
def elicitationInvoke (host : RouteHost η σ) (plan : RouteDispatchPlan η) (st : RequestState σ)
    (op pluginName : String) (payload : ElicitationPayload) :
    Except ElicitationError ElicitationPayload × RequestState σ :=
  match plan.elicitationEntries.lookup pluginName with
  | none => (.error (.notFound pluginName), st)
  | some entry =>
    let (run, st') := st.invokeEntry host.executor host.elicitation entry payload
    let st := st'.wrote .approver st.extensions
      (run.result.modifiedExtensions.getD st.extensions)
    if run.result.continueProcessing then
      match run.result.modifiedPayload with
      | some out => (.ok out, st)
      | none =>
        (.error (.handler (op ++ ": plugin `" ++ pluginName ++
          "` returned allow but no ElicitationPayload")), st)
    else
      -- A halted pipeline is a failure of the handler, not a verdict on the request.
      let detail := (run.result.violation.map fun v => v.code ++ ": " ++ v.reason).getD
        "denied without violation detail"
      (.error (.handler (op ++ ": plugin `" ++ pluginName ++ "` halted: " ++ detail)), st)

/-- `ElicitationPluginInvoker::dispatch`. -/
def elicitationDispatch (host : RouteHost η σ) (plan : RouteDispatchPlan η)
    (st : RequestState σ) (step : ElicitStep) (resolvedFrom : String) :
    Except ElicitationError ElicitationDispatch × RequestState σ :=
  let (answer, st) := elicitationInvoke host plan st "dispatch" step.pluginName
    (elicitationPayload .dispatch st.routeKey step resolvedFrom none)
  (answer.bind fun out =>
    match out.id with
    | some id => .ok ⟨id, out.approver, out.intentId, out.expiresAt⟩
    | none => .error (.handler ("dispatch: plugin `" ++ step.pluginName ++
        "` dispatched without returning an id")), st)

/-- The status a handler reported; a resolution without an outcome is a denial. -/
def reportedStatus (out : ElicitationPayload) : ElicitationStatus :=
  match out.status with
  | some .pending | none => .pending
  | some .expired => .expired
  | some .resolved =>
    match out.outcome with
    | some .approved => .resolved .approved
    | some .denied | none => .resolved .denied

/-- `ElicitationPluginInvoker::check`: who was asked is not passed on. -/
def elicitationCheck (host : RouteHost η σ) (plan : RouteDispatchPlan η) (st : RequestState σ)
    (step : ElicitStep) (id : String) :
    Except ElicitationError ElicitationStatus × RequestState σ :=
  let (answer, st) := elicitationInvoke host plan st "check" step.pluginName
    (elicitationPayload .check st.routeKey step "" (some id))
  (answer.map reportedStatus, st)

/-- `ElicitationPluginInvoker::validate`: who was asked is not passed on. -/
def elicitationValidate (host : RouteHost η σ) (plan : RouteDispatchPlan η)
    (st : RequestState σ) (step : ElicitStep) (id : String) :
    Except ElicitationError ElicitationValidation × RequestState σ :=
  let (answer, st) := elicitationInvoke host plan st "validate" step.pluginName
    (elicitationPayload .validate st.routeKey step "" (some id))
  -- A handler that does not say whether the answer is genuine has not confirmed it.
  (answer.map fun out => ⟨out.valid.getD false, out.approver, out.intentId, out.reason⟩, st)

/-! ### The environment of a route -/

/-- The request as the invokers find it: no one else writes it, except under `parallel`. -/
def RequestState.sync (host : RouteHost η σ) (st : RequestState σ) : RequestState σ :=
  if st.inBranch then { st with toSharedRequest := host.sharing.found st } else st

section
omit [Platform]
variable (host : RouteHost η σ) (st : RequestState σ)

@[simp] theorem sync_routeKey : (st.sync host).routeKey = st.routeKey := by
  unfold RequestState.sync
  split <;> rfl

@[simp] theorem sync_world : (st.sync host).world = st.world := by
  unfold RequestState.sync
  split <;> rfl

@[simp] theorem sync_writes : (st.sync host).writes = st.writes := by
  unfold RequestState.sync
  split <;> rfl

end

/-- The request as a branch of a `parallel` block sees it. -/
def RequestState.fork (host : RouteHost η σ) (st : RequestState σ) (i : Nat) : RequestState σ :=
  { st with inBranch := true, world := host.parallel.fork st.world i, writes := [] }

/-- The request after a `parallel` block. -/
def RequestState.join (host : RouteHost η σ) (st : RequestState σ)
    (branches : List (RequestState σ)) : RequestState σ :=
  { st with
    toSharedRequest := host.sharing.left st branches
    disabled := branches.foldl (fun acc branch => acc ∪ branch.disabled) st.disabled
    world := host.parallel.join st.world (branches.map (·.world))
    writes := st.writes ++ (branches.flatMap (·.writes)).map fun w => { w with writer := .branch } }

/-- The invokers of a route, and its runtime, as the evaluator is given them. -/
def routeEnv (host : RouteHost η σ) (plan : RouteDispatchPlan η) : Env (RequestState σ) where
  evaluate st call bag :=
    let (answer, world) := host.pdp st.world call bag
    (answer, { st with world })
  invoke st := cmfInvoke host plan (st.sync host)
  delegate st := delegate host plan (st.sync host)
  dispatch st := elicitationDispatch host plan (st.sync host)
  check st := elicitationCheck host plan (st.sync host)
  validate st := elicitationValidate host plan (st.sync host)
  runtime :=
    { fork := RequestState.fork host
      join := RequestState.join host
      schedule := fun st results => host.parallel.schedule st.world results
      admissible := fun st results => host.parallel.admissible st.world results }

end

end Cpex.Core
