import Cpex.Native.Extensions

/-! # Plugins, their configuration and their errors

`cpex-core/src/{plugin,error,context,registry}.rs`: what the framework knows of a plugin, when
its conditions let it run, and the records it exchanges with the executor.

The code behind a plugin is not part of the repository: a hook entry carries a handler of an
arbitrary type `η`. -/

namespace Cpex.Core

/-- `PluginMode`: the phase a plugin runs in. -/
inductive PluginMode where
  | sequential
  | transform
  | audit
  | concurrent
  | fireAndForget
  | disabled
  deriving DecidableEq, Repr

namespace PluginMode

/-- `PluginMode::can_block`. -/
def canBlock : PluginMode → Bool
  | sequential | concurrent => true
  | _ => false

/-- `PluginMode::can_modify`. -/
def canModify : PluginMode → Bool
  | sequential | transform => true
  | _ => false

end PluginMode

/-- `OnError`: what a failure of the plugin does to the pipeline. -/
inductive OnError where
  | fail
  | ignore
  | disable
  deriving DecidableEq, Repr

/-! ### Conditions -/

/-- `MatchContext`: the request attributes conditions look at. -/
structure MatchContext where
  serverId : Option String := none
  tenantId : Option String := none
  tool : Option String := none
  prompt : Option String := none
  resource : Option String := none
  agent : Option String := none
  user : Option String := none
  contentType : Option String := none

/-- `PluginCondition`: one conjunction of field tests. -/
structure PluginCondition where
  serverIds : Option (Finset String) := none
  tenantIds : Option (Finset String) := none
  tools : Option (Finset String) := none
  prompts : Option (Finset String) := none
  resources : Option (Finset String) := none
  agents : Option (Finset String) := none
  userPatterns : Option (List String) := none
  contentTypes : Option (List String) := none

namespace PluginCondition

/-- One field test: an unset field matches anything, a set one needs a value that passes. -/
def checkField {α : Type} (test : α → String → Bool) (field : Option α)
    (value : Option String) : Bool :=
  match field with
  | none => true
  | some f => value.any (test f)

/-- `check_set`. -/
def checkSet : Option (Finset String) → Option String → Bool :=
  checkField fun set v => decide (v ∈ set)

/-- `check_patterns`. -/
def checkPatterns : Option (List String) → Option String → Bool :=
  checkField fun patterns v => patterns.any fun p => Text.wildMatch p v

/-- `check_list`. -/
def checkList : Option (List String) → Option String → Bool :=
  checkField fun list v => list.any (· == v)

/-- `PluginCondition::matches`. -/
def «matches» (self : PluginCondition) (ctx : MatchContext) : Bool :=
  checkSet self.serverIds ctx.serverId && checkSet self.tenantIds ctx.tenantId &&
    checkSet self.tools ctx.tool && checkSet self.prompts ctx.prompt &&
    checkSet self.resources ctx.resource && checkSet self.agents ctx.agent &&
    checkPatterns self.userPatterns ctx.user && checkList self.contentTypes ctx.contentType

end PluginCondition

/-- `PluginConfig`. -/
structure PluginConfig where
  name : String
  kind : String := ""
  hooks : List String := []
  mode : PluginMode := .sequential
  priority : Int := 100
  onError : OnError := .fail
  capabilities : Finset String := ∅
  tags : List String := []
  conditions : List PluginCondition := []
  config : Option Json := none

/-- The request attributes of `passes_conditions`. -/
def matchContext (extensions : Extensions) : MatchContext :=
  let mcp := extensions.mcp.map (·.val)
  let «meta» := extensions.meta.map (·.val)
  let subject := extensions.security.bind (·.subject)
  let entityName := «meta».bind (·.entityName)
  let (tool, prompt, resource) := match «meta».bind (·.entityType) with
    | some "tool" => (entityName, none, none)
    | some "prompt" => (none, entityName, none)
    | some "resource" => (none, none, entityName)
    | _ => (none, none, none)
  { serverId := mcp.bind fun m =>
      ((m.tool.bind (·.serverId)).or (m.resource.bind (·.serverId))).or
        (m.prompt.bind (·.serverId))
    tenantId := subject.bind (·.claims.lookup "tenant")
    tool, prompt, resource
    agent := extensions.agent.bind (·.val.agentId)
    user := subject.bind (·.id)
    contentType := mcp.bind fun m => m.resource.bind (·.mimeType) }

/-- `PluginConfig::passes_conditions`: any of the conditions, or none declared. -/
def PluginConfig.passesConditions (self : PluginConfig) (extensions : Extensions) : Bool :=
  if self.conditions.isEmpty then true
  else self.conditions.any (·.matches (matchContext extensions))

/-! ### Violations and errors -/

/-- `PluginViolation`. -/
structure PluginViolation where
  code : String
  reason : String
  description : Option String := none
  details : HashMap String Json := ∅
  pluginName : Option String := none
  protoErrorCode : Option Int := none

/-- `PluginViolation::new`. -/
def PluginViolation.new (code reason : String) : PluginViolation := { code, reason }

/-- `PluginError`. -/
inductive PluginError where
  | execution (pluginName message : String) (code : Option String)
      (details : HashMap String Json) (protoErrorCode : Option Int)
  | timeout (pluginName : String) (timeoutMs : Nat) (protoErrorCode : Option Int)
  | violation (pluginName : String) (violation : PluginViolation)
  | config (message : String)
  | unknownHook (hookType : String)

/-- `PluginError` through `Display`. -/
def PluginError.toText : PluginError → String
  | .execution pluginName message _ _ _ => "plugin '" ++ pluginName ++ "' failed: " ++ message
  | .timeout pluginName timeoutMs _ =>
    "plugin '" ++ pluginName ++ "' timed out after " ++ toString timeoutMs ++ "ms"
  | .violation pluginName v => "plugin '" ++ pluginName ++ "' denied: " ++ v.reason
  | .config message => "configuration error: " ++ message
  | .unknownHook hookType => "unknown hook type: " ++ hookType

/-- `PluginErrorRecord`. -/
structure PluginErrorRecord where
  pluginName : String
  message : String
  code : Option String := none
  details : HashMap String Json := ∅
  protoErrorCode : Option Int := none

/-- `From<&PluginError> for PluginErrorRecord`. -/
def PluginErrorRecord.ofError : PluginError → PluginErrorRecord
  | .execution pluginName message code details protoErrorCode =>
    { pluginName, message, code, details, protoErrorCode }
  | .timeout pluginName timeoutMs protoErrorCode =>
    { pluginName, message := "plugin timed out after " ++ toString timeoutMs ++ "ms"
      code := some "timeout", protoErrorCode }
  | .violation pluginName v =>
    { pluginName, message := "plugin denied: " ++ v.reason, code := some v.code
      details := v.details, protoErrorCode := v.protoErrorCode }
  | .config message => { pluginName := "", message, code := some "config" }
  | .unknownHook hookType =>
    { pluginName := "", message := "unknown hook type: " ++ hookType
      code := some "unknown_hook" }

/-! ### Contexts -/

abbrev Uuid := Nat

/-- `PluginContext`. -/
structure PluginContext where
  localState : HashMap String Json := ∅
  globalState : HashMap String Json := ∅

/-- `PluginContextTable`. -/
structure PluginContextTable where
  globalState : HashMap String Json := ∅
  localStates : HashMap Uuid (HashMap String Json) := ∅

namespace PluginContextTable

/-- `PluginContextTable::take_context`. -/
def takeContext (self : PluginContextTable) (pluginId : Uuid) :
    PluginContext × PluginContextTable :=
  ({ localState := (self.localStates.lookup pluginId).getD ∅, globalState := self.globalState },
    { self with localStates := self.localStates.erase pluginId })

/-- `PluginContextTable::snapshot_context`. -/
def snapshotContext (self : PluginContextTable) (pluginId : Uuid) : PluginContext :=
  { localState := (self.localStates.lookup pluginId).getD ∅, globalState := self.globalState }

/-- `PluginContextTable::store_context`. -/
def storeContext (self : PluginContextTable) (pluginId : Uuid) (ctx : PluginContext) :
    PluginContextTable where
  globalState := ctx.globalState
  localStates := self.localStates.insert pluginId ctx.localState

end PluginContextTable

/-! ### Hook entries -/

/-- `PluginRef`. Its `disabled` flag is shared and mutable, so it is kept outside, as the set of
    the ids that were disabled. -/
structure PluginRef where
  trustedConfig : PluginConfig
  id : Uuid

/-- `PluginRef::mode`. -/
def PluginRef.mode (self : PluginRef) (disabled : Finset Uuid) : PluginMode :=
  if self.id ∈ disabled then .disabled else self.trustedConfig.mode

/-- `HookEntry`: a plugin and its handler for one hook. -/
structure HookEntry (η : Type) where
  pluginRef : PluginRef
  handler : η

namespace HookEntry

variable {η : Type}

/-- `plugin_ref.name()`. -/
def name (self : HookEntry η) : String := self.pluginRef.trustedConfig.name

/-- `plugin_ref.trusted_config().capabilities`. -/
def capabilities (self : HookEntry η) : Finset String := self.pluginRef.trustedConfig.capabilities

/-- `plugin_ref.trusted_config().on_error`. -/
def onError (self : HookEntry η) : OnError := self.pluginRef.trustedConfig.onError

end HookEntry

/-- One component of `group_by_mode`: the entries of a mode, in order. -/
def groupByMode {η : Type} (disabled : Finset Uuid) (entries : List (HookEntry η))
    (mode : PluginMode) : List (HookEntry η) :=
  entries.filter fun entry => entry.pluginRef.mode disabled = mode

end Cpex.Core
