import Cpex.Native.Compile
import Cpex.Native.RoutePlugins

/-! # The APL configuration visitor

`apl-cpex/src/visitor.rs`: the visitor compiles the APL blocks of the configuration into
layers, stacks them under each route, and annotates the route's entities with a synthetic
handler for the effective policy.

The calls of `annotate_route` are returned in the order they are made; the manager applies
them. PDPs, the session store and the attribute tree are process wiring: building them can
fail, nothing else about them is modelled. -/

namespace Cpex.Core

/-! ### What is installed -/

/-- `Phase` of `route_handler.rs`: the entry point a synthetic handler is bound to. -/
inductive Phase where
  | pre
  | post
  deriving DecidableEq, Repr

/-- `AplRouteHandler`. `origin` identifies the object: the position of the route whose visit
    made it, `none` for the catch-all of the global layer. -/
structure AplRouteHandler where
  route : CompiledRoute
  phase : Phase
  pluginRegistry : DeclRegistry
  origin : Option Nat

/-- `AnnotationKey`. -/
structure AnnotationKey where
  entityType : String
  entityName : String
  scope : Option String
  hookName : String
  deriving DecidableEq, Repr

/-- One call of `annotate_route`. -/
abbrev Annotation := AnnotationKey × HookEntry AplRouteHandler

/-! ### Sections of the configuration -/

/-- `FLAT_APL_KEYS`. -/
def flatAplKeys : List String :=
  ["pre_invocation", "post_invocation", "authorization", "args", "result", "pdp",
    "session_store"]

/-- `GLOBAL_ONLY_NON_DSL_KEYS`. -/
def globalOnlyNonDslKeys : List String := ["pdp", "session_store", "attribute_files"]

/-- `reject_legacy_apl_keys`. -/
def rejectLegacyAplKeys (scope : String) (yaml : Yaml) : Except String Unit :=
  match yaml.asMapping with
  | none => .ok ()
  | some entries =>
    renamedFields.forM fun field =>
      if (Yaml.lookupKey entries field.1).isSome then
        .error ("in `" ++ scope ++ "`: config field `" ++ field.1 ++ "` was renamed to `" ++
          field.2 ++ "` — update your config")
      else .ok ()

/-- Copy one key of a section to a block. -/
def copyKey (yaml : Yaml) (block : List (Yaml × Yaml)) (key : String) : List (Yaml × Yaml) :=
  match yaml.get key with
  | some value => Yaml.insertKey key value block
  | none => block

/-- The flat keys of a section that are present, as a block of their own. -/
def flatBlock (yaml : Yaml) : List (Yaml × Yaml) :=
  let block := flatAplKeys.foldl (copyKey yaml) []
  match yaml.get "plugins" with
  | some value =>
    -- A list is the section's structural plugin list.
    if value.asMapping.isSome then Yaml.insertKey "plugins" value block else block
  | none => block

/-- `apl_subblock`. -/
def aplSubblock (yaml : Yaml) : Option Yaml :=
  match yaml.get "apl" with
  | some block => if block.isNull then none else some block
  | none => if (flatBlock yaml).isEmpty then none else some (.mapping (flatBlock yaml))

/-- `response_yaml_block`. -/
def responseYamlBlock (yaml : Yaml) : Option Yaml :=
  (yaml.get "response").or ((yaml.get "apl").bind (·.get "response"))

/-- `response_subblock`: a malformed block is ignored. -/
def responseSubblock [PolicyParser] (yaml : Yaml) : Option DenyResponse :=
  match responseYamlBlock yaml with
  | none => none
  | some block => if block.isNull then none else PolicyParser.denyResponse block

/-- `strip_non_dsl_keys`. -/
def stripNonDslKeys (aplBlock : Yaml) : Yaml :=
  match aplBlock.asMapping with
  | none => aplBlock
  | some entries => .mapping (globalOnlyNonDslKeys.foldl (fun es key => Yaml.removeKey key es) entries)

/-! ### Layers -/

/-- A block compiled under `source`: its field rules say so. -/
structure Layer (source : String) where
  route : CompiledRoute
  args_source : ∀ rule ∈ route.args, rule.source = source ++ "." ++ "args" ++ "." ++ rule.field
  result_source :
    ∀ rule ∈ route.result, rule.source = source ++ "." ++ "result" ++ "." ++ rule.field

/-- The source of a default layer. -/
def defaultSource (entityType : String) : String := "global.defaults." ++ entityType ++ ".apl"

/-- The source of a policy bundle's layer. -/
def bundleSource (tag : String) : String := "global.policies." ++ tag ++ ".apl"

/-- `VisitorState`, without the PDP router. The layers stay from one load to the next. -/
structure VisitorState where
  pluginRegistry : DeclRegistry := ∅
  globalLayer : Option (Layer "global.apl") := none
  defaultLayers : AList (fun entityType : String => Layer (defaultSource entityType)) := ∅
  tagLayers : AList (fun tag : String => Layer (bundleSource tag)) := ∅

/-- The builders of the global wiring keys. -/
structure Wiring where
  buildPdp : Yaml → Nat → Except String Unit
  buildSessionStore : Yaml → Except String Unit
  buildAttributeTree : List Yaml → Except String Unit

/-- `AplConfigVisitor`, apart from its state. `newId` draws the id of a new `PluginRef`. -/
structure AplConfigVisitor where
  baseCapabilities : Finset String
  wiring : Wiring
  newId : AplRouteHandler → Uuid

/-- `default_base_capabilities`: what a visitor grants when its options name no set. -/
def defaultBaseCapabilities : Finset String :=
  {"read_subject", "read_roles", "read_permissions", "read_teams", "read_claims", "read_labels",
    "read_delegation", "read_agent", "read_meta"}

/-- `hook_pair_for_entity`. -/
def hookPairForEntity (entityType : String) : Option (String × String) :=
  if entityType = "tool" then some ("cmf.tool_pre_invoke", "cmf.tool_post_invoke")
  else if entityType = "llm" then some ("cmf.llm_input", "cmf.llm_output")
  else if entityType = "prompt" then some ("cmf.prompt_pre_invoke", "cmf.prompt_post_invoke")
  else if entityType = "resource" then
    some ("cmf.resource_pre_fetch", "cmf.resource_post_fetch")
  else none

section
variable (self : AplConfigVisitor)

/-- `install_handler`. -/
def installHandler (origin : Option Nat) (entityType entityName : String)
    (scope : Option String) (hookName : String) (phase : Phase) (route : CompiledRoute)
    (pluginRegistry : DeclRegistry) : Annotation :=
  let capabilities := self.baseCapabilities ∪ routeCapabilityUnion route pluginRegistry ∪
    {"read_headers", capWriteCandidateConstraint}
  let config : PluginConfig :=
    { name := "apl::" ++ entityType ++ "::" ++ entityName ++ "::" ++
        (if phase = .pre then "pre" else "post")
      kind := "builtin"
      hooks := [hookName]
      capabilities }
  let handler : AplRouteHandler := { route, phase, pluginRegistry, origin }
  (⟨entityType, entityName, scope, hookName⟩, ⟨⟨config, self.newId handler⟩, handler⟩)

section
variable [Platform] [PolicyParser]

/-- `compile_policy_block_value` for a section of the configuration. -/
def compileLayer (source : String) (block : Yaml) : Except String (Layer source) :=
  match h : compilePolicyBlockValue source block with
  | .error e => .error e.toText
  | .ok route =>
    have hfields := compilePolicyBlockValue_fields h
    .ok ⟨route, hfields.1, hfields.2⟩

/-- `visit_plugins`. -/
def visitPlugins (plugins : List PluginConfig) (state : VisitorState) : VisitorState :=
  { state with
    pluginRegistry := plugins.foldl (fun m cfg => m.insert cfg.name (.ofConfig cfg)) ∅ }

/-- The wiring keys of `visit_global`. -/
def buildWiring (aplBlock : Yaml) : Except String Unit := do
  match (aplBlock.get "pdp").bind Yaml.asSequence with
  | none => .ok ()
  | some entries => entries.zipIdx.forM fun entry => self.wiring.buildPdp entry.1 entry.2
  match aplBlock.get "session_store" with
  | none => .ok ()
  | some block => self.wiring.buildSessionStore block
  match aplBlock.get "attribute_files" with
  | none => .ok ()
  | some files =>
    match files.asSequence with
    | none => .error "global.apl.attribute_files must be a list of file paths"
    | some entries => self.wiring.buildAttributeTree entries

/-- `http_catchall_should_install`. -/
def httpCatchallShouldInstall (compiled : CompiledRoute) : Bool :=
  !compiled.args.isEmpty || !compiled.policy.isEmpty

/-- `visit_global`. -/
def visitGlobal (yaml : Yaml) (state : VisitorState) :
    Except String (VisitorState × List Annotation) := do
  rejectLegacyAplKeys "global" yaml
  match aplSubblock yaml with
  | none => return (state, [])
  | some aplBlock =>
    buildWiring self aplBlock
    let layer ← compileLayer "global.apl" (stripNonDslKeys aplBlock)
    let compiled := { layer.route with response := responseSubblock yaml }
    -- The policy of requests without an entity; authorization is an admission check.
    let installed :=
      if httpCatchallShouldInstall compiled then
        [installHandler self none "http" "*" none "cmf.http_request" .pre compiled
          state.pluginRegistry]
      else []
    return ({ state with globalLayer := some { layer with route := compiled } }, installed)

/-- The visit of a section with a policy of its own, which `keep` puts into the state. -/
def visitLayer (source : String) (yaml : Yaml) (state : VisitorState)
    (keep : Layer source → VisitorState) : Except String VisitorState := do
  rejectLegacyAplKeys source yaml
  match aplSubblock yaml with
  | none => return state
  | some aplBlock => return keep (← compileLayer source aplBlock)

/-- `visit_default`. -/
def visitDefault (entityType : String) (yaml : Yaml) (state : VisitorState) :
    Except String VisitorState :=
  visitLayer (defaultSource entityType) yaml state fun compiled =>
    { state with defaultLayers := state.defaultLayers.insert entityType compiled }

/-- `visit_policy_bundle`. -/
def visitPolicyBundle (tag : String) (yaml : Yaml) (state : VisitorState) :
    Except String VisitorState :=
  visitLayer (bundleSource tag) yaml state fun compiled =>
    { state with tagLayers := state.tagLayers.insert tag compiled }

/-! ### Routes -/

/-- `entity_identity`: the first matcher the route has, and the names as written. -/
def entityIdentity (route : RouteEntry) : Option (String × List String) :=
  match route.tool, route.resource, route.prompt, route.llm with
  | some m, _, _, _ => some ("tool", m.asNames)
  | none, some m, _, _ => some ("resource", m.asNames)
  | none, none, some m, _ => some ("prompt", m.asNames)
  | none, none, none, some m => some ("llm", m.asNames)
  | none, none, none, none => none

/-- `route_key`. -/
def routeKey (entityType entityName : String) (scope : Option String) : String :=
  match scope with
  | some s => entityType ++ ":" ++ entityName ++ "@" ++ s
  | none => entityType ++ ":" ++ entityName

/-- The layers under a route's own block, least specific first. -/
def inheritedLayers (state : VisitorState) (entityType : String) (tags : List String) :
    List CompiledRoute :=
  (state.globalLayer.map (·.route)).toList ++
    ((state.defaultLayers.lookup entityType).map (·.route)).toList ++
    tags.filterMap fun tag => (state.tagLayers.lookup tag).map (·.route)

/-- The stacking in the loop of `visit_route`: the effective policy of one entity. -/
def effectiveRoute (state : VisitorState) (yaml : Yaml) (parsed : RouteEntry)
    (entityType entityName : String) : Except ParseError CompiledRoute := do
  let key := routeKey entityType entityName parsed.scope
  let inherited := (inheritedLayers state entityType parsed.metaTags).foldl
    CompiledRoute.applyLayer (CompiledRoute.new key)
  let effective ← match aplSubblock yaml with
    | none => pure inherited
    | some block => do
      let routeLayer ← compilePolicyBlockValue ("routes." ++ key ++ ".apl") block
      pure (inherited.applyLayer routeLayer)
  return { effective with response := responseSubblock yaml }

/-- The policy the loop of `visit_route` installs for one entity, if any. -/
def entityPolicy (modeFor : String → Option PluginMode) (state : VisitorState) (yaml : Yaml)
    (parsed : RouteEntry) (entityType entityName : String) :
    Except String (Option CompiledRoute) :=
  match effectiveRoute state yaml parsed entityType entityName with
  | .error e => .error e.toText
  | .ok effective =>
    -- Without a policy the route keeps the plugin chain of the manager.
    if effective.declaresNothing then .ok none
    else
      match validateParallelPluginModes effective modeFor with
      | .error msg =>
        .error ("route '" ++ routeKey entityType entityName parsed.scope ++
          "': parallel-safety: " ++ msg)
      | .ok () => .ok (some effective)

/-- The body of the loop of `visit_route`. -/
def visitEntity (modeFor : String → Option PluginMode) (state : VisitorState) (yaml : Yaml)
    (parsed : RouteEntry) (origin : Nat) (entityType entityName : String) :
    Except String (List Annotation) := do
  match ← entityPolicy modeFor state yaml parsed entityType entityName with
  | none => return []
  | some effective =>
    match hookPairForEntity entityType with
    | none => return []
    | some (hookPre, hookPost) =>
      let install := fun hook phase => installHandler self (some origin) entityType entityName
        parsed.scope hook phase effective state.pluginRegistry
      return [install hookPre .pre, install hookPost .post]

/-- `visit_route` of the route at position `origin`. -/
def visitRoute (modeFor : String → Option PluginMode) (state : VisitorState) (yaml : Yaml)
    (parsed : RouteEntry) (origin : Nat) : Except String (List Annotation) := do
  rejectLegacyAplKeys "route" yaml
  match entityIdentity parsed with
  | none => return []
  | some (entityType, entityNames) =>
    let installed ← entityNames.mapM
      (visitEntity self modeFor state yaml parsed origin entityType)
    return installed.flatten

end

end

end Cpex.Core
