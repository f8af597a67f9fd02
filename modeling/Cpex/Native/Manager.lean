import Cpex.Native.Executor
import Cpex.Native.Visitor

/-! # The plugin manager

`cpex-core/src/manager.rs`: loading a configuration with the APL visitor registered, and
`filter_entries_by_route`, which decides for each request which hook entries run.

Plugin factories and the deserialisation `serde` derives are the host's (`Host`). A load that
fails leaves no manager here: what a failed load half-installed is not modelled. -/

namespace Cpex.Core

/-- `RouteCacheKey`. -/
structure RouteCacheKey where
  entityType : String
  entityName : String
  hookName : String
  scope : Option String
  deriving DecidableEq, Repr

/-- The handler of a hook entry: a plugin's own, or a synthetic one. -/
inductive Handler (η : Type) where
  | plugin (handler : η)
  | apl (handler : AplRouteHandler)

/-- The route cache. Only resolved plugin entries get into it. -/
abbrev RouteCache (η : Type) := HashMap RouteCacheKey (List (HookEntry η))

/-- `RuntimeSnapshot`; of the registry, the plugins by name. -/
structure RuntimeSnapshot where
  registry : HashMap String PluginRef := ∅
  executor : ExecutorConfig
  cpexConfig : Option CpexConfig := none
  routeCacheMaxEntries : Nat
  routeAnnotations : HashMap AnnotationKey (HookEntry AplRouteHandler) := ∅

/-- `PluginManager`: the current snapshot, the APL visitor's state if it is registered, the
    plugins that were disabled, and the route cache. -/
structure PluginManager (η : Type) where
  runtime : RuntimeSnapshot
  visitor : Option VisitorState := none
  disabled : Finset Uuid := ∅
  routeCache : RouteCache η := ∅

/-- What the manager calls and the repository does not contain. -/
structure Host (η : Type) where
  /-- `serde_yaml::from_value::<CpexConfig>`. -/
  deserialize : Yaml → Except String CpexConfig
  /-- `instantiate_plugins_into`, through the host's factories. -/
  instantiatePluginsInto :
    HashMap String PluginRef → List PluginConfig → Except PluginError (HashMap String PluginRef)
  /-- `create_override_instance`. -/
  createOverrideInstance : HookEntry η → Json → Option (HookEntry η)
  visitor : AplConfigVisitor

variable {η : Type}

/-! ### Loading -/

/-- `snapshot_from_config`. -/
def snapshotFromConfig (registry : HashMap String PluginRef) (config : CpexConfig) :
    RuntimeSnapshot where
  registry
  executor := ⟨config.pluginSettings.pluginTimeout, config.pluginSettings.shortCircuitOnDeny⟩
  cpexConfig := some config
  routeCacheMaxEntries := config.pluginSettings.routeCacheMaxEntries

/-- `load_config`. -/
def loadConfig (host : Host η) (manager : PluginManager η) (config : CpexConfig) :
    Except PluginError (PluginManager η) := do
  let registry ← host.instantiatePluginsInto manager.runtime.registry config.plugins
  return { manager with runtime := snapshotFromConfig registry config, routeCache := ∅ }

/-- The error of a visitor call. -/
def visitorError (call msg : String) : PluginError :=
  .config ("visitor 'apl' " ++ call ++ ": " ++ msg)

/-- An error of the visitor, reported by the manager. -/
def visiting {α : Type} (call : String) (result : Except String α) : Except PluginError α :=
  result.mapError (visitorError call)

/-- `global_yaml`. -/
def globalYaml (raw : Yaml) : Yaml := (raw.get "global").getD .null

/-- `Mapping::insert` of one entry into another mapping. Keys that are not plain strings name
    no section, so they are not looked for. -/
def mergeEntry (entries : List (Yaml × Yaml)) (e : Yaml × Yaml) : List (Yaml × Yaml) :=
  match e.1 with
  | .string key => Yaml.insertKey key e.2 entries
  | _ => entries ++ [e]

/-- `policies_yaml`: the bundles of `global.policies` and of the top-level `groups:`, which win
    on a name collision. -/
def policiesYaml (raw : Yaml) : List (Yaml × Yaml) :=
  let fromPolicies := ((globalYaml raw).get "policies").bind Yaml.asMapping
  let fromGroups := (raw.get "groups").bind Yaml.asMapping
  (fromGroups.getD []).foldl mergeEntry (fromPolicies.getD [])

/-- `defaults_yaml`. -/
def defaultsYaml (raw : Yaml) : List (Yaml × Yaml) :=
  (((globalYaml raw).get "defaults").bind Yaml.asMapping).getD []

/-- The YAML of the route at a position, null past the end. -/
def routeYamlAt (raw : Yaml) (i : Nat) : Yaml :=
  ((((raw.get "routes").bind Yaml.asSequence).getD [])[i]?).getD .null

section
variable [Platform] [PolicyParser]

/-- The loops over `defaults` and over the policy bundles, each with its visit. -/
def visitEntries (call : String)
    (visit : String → Yaml → VisitorState → Except String VisitorState)
    (entries : List (Yaml × Yaml)) (state : VisitorState) : Except PluginError VisitorState :=
  entries.foldlM (fun state e =>
    match e.1.asStr with
    -- A key that is no string is skipped.
    | none => .ok state
    | some name => visiting (call ++ "('" ++ name ++ "')") (visit name e.2 state)) state

/-- The sections before the routes: the state in which every route is visited, and the
    annotations made so far. -/
def visitSections (visitor : AplConfigVisitor) (raw : Yaml) (plugins : List PluginConfig)
    (state : VisitorState) : Except PluginError (VisitorState × List Annotation) := do
  let state := visitPlugins plugins state
  let (state, installed) ← visiting "visit_global" (visitGlobal visitor (globalYaml raw) state)
  let state ← visitEntries "visit_default" visitDefault (defaultsYaml raw) state
  let state ← visitEntries "visit_policy_bundle" visitPolicyBundle (policiesYaml raw) state
  return (state, installed)

/-- The loop over the routes. -/
def visitRoutes (visitor : AplConfigVisitor) (modeFor : String → Option PluginMode)
    (raw : Yaml) (routes : List RouteEntry) (state : VisitorState) :
    Except PluginError (List Annotation) := do
  let installed ← routes.zipIdx.mapM fun route =>
    visiting ("visit_route[" ++ toString route.2 ++ "]")
      (visitRoute visitor modeFor state (routeYamlAt raw route.2) route.1 route.2)
  return installed.flatten

/-- `PluginModeLookup for PluginManager`. -/
def PluginManager.modeFor (manager : PluginManager η) (name : String) : Option PluginMode :=
  (manager.runtime.registry.lookup name).map (·.mode manager.disabled)

/-- `annotate_route`: a later annotation of a key replaces the earlier one. -/
def annotateRoute (annotations : HashMap AnnotationKey (HookEntry AplRouteHandler)) (a : Annotation) :
    HashMap AnnotationKey (HookEntry AplRouteHandler) :=
  annotations.insert a.1 a.2

/-- The typed configuration of a document: deserialised, merged and validated. -/
def typedConfig (host : Host η) (raw : Yaml) : Except PluginError CpexConfig := do
  let config ← (host.deserialize raw).mapError fun e =>
    .config ("CpexConfig deserialize error: " ++ e)
  rejectRenamedIdentityKey raw
  let config := mergeGroupsIntoPolicies config
  validateConfig config
  return config

/-- `load_config_yaml` of a parsed document. -/
def loadConfigYaml (host : Host η) (manager : PluginManager η) (raw : Yaml) :
    Except PluginError (PluginManager η) := do
  let config ← typedConfig host raw
  let manager ← loadConfig host manager config
  match manager.visitor with
  | none => return manager
  | some state =>
    let (state, ofGlobal) ← visitSections host.visitor raw config.plugins state
    let ofRoutes ← visitRoutes host.visitor manager.modeFor raw config.routes state
    return { manager with
      visitor := some state
      runtime := { manager.runtime with
        routeAnnotations := (ofGlobal ++ ofRoutes).foldl annotateRoute
          manager.runtime.routeAnnotations } }

end

/-! ### Requests -/

/-- `HOOK_IDENTITY_RESOLVE`. -/
def hookIdentityResolve : String := "identity.resolve"

/-- A request for a hook; `hash` is the order its set of merged tags happens to have. -/
structure Request where
  hash : HashOrder
  extensions : Extensions
  hookName : String

/-- The entity a request is about. -/
structure EntityRef where
  entityType : String
  entityName : String
  scope : Option String
  tags : Finset String

/-- The entity of the request's `meta`, if it names one. -/
def entityRef (extensions : Extensions) : Option EntityRef := do
  let m ← extensions.meta
  let entityType ← m.val.entityType
  let entityName ← m.val.entityName
  return ⟨entityType, entityName, m.val.scope, m.val.tags⟩

/-- The annotation lookup: scoped first, then unscoped. -/
def annotationFor (annotations : HashMap AnnotationKey (HookEntry AplRouteHandler)) (entity : EntityRef)
    (hookName : String) : Option (HookEntry AplRouteHandler) :=
  let ofScope := entity.scope.bind fun s =>
    annotations.lookup ⟨entity.entityType, entity.entityName, some s, hookName⟩
  ofScope.or (annotations.lookup ⟨entity.entityType, entity.entityName, none, hookName⟩)

/-- The resolver of a hook: authentication steps for `identity.resolve`, plugins elsewhere. -/
def resolveForHook (config : CpexConfig) (hash : HashOrder) (entity : EntityRef)
    (hookName : String) : List ResolvedPlugin :=
  if hookName = hookIdentityResolve then
    resolveIdentityPluginsForRoute config entity.entityType entity.entityName entity.scope
  else
    resolvePluginsForEntity config hash entity.entityType entity.entityName entity.scope entity.tags

/-- The entry of a resolved plugin, as an override instance where one can be made. -/
def entryFor (host : Host η) (entries : List (HookEntry η)) (rp : ResolvedPlugin) :
    Option (HookEntry η) :=
  (entries.find? fun e => e.name = rp.name).map fun entry =>
    (rp.configOverrides.bind (host.createOverrideInstance entry)).getD entry

/-- The slow path: resolve and filter. -/
def resolveEntries (host : Host η) (config : CpexConfig) (hash : HashOrder)
    (entries : List (HookEntry η)) (entity : EntityRef) (hookName : String) : List (HookEntry η) :=
  (resolveForHook config hash entity hookName).filterMap (entryFor host entries)

/-- The cache key of a request. -/
def cacheKey (entity : EntityRef) (hookName : String) : RouteCacheKey :=
  ⟨entity.entityType, entity.entityName, hookName, entity.scope⟩

/-- The cached part of `filter_entries_by_route`. A full cache takes no new entries. -/
def filterCached (host : Host η) (snapshot : RuntimeSnapshot) (config : CpexConfig)
    (hash : HashOrder) (entries : List (HookEntry η)) (entity : EntityRef) (hookName : String)
    (cache : RouteCache η) : List (HookEntry η) × RouteCache η :=
  match cache.lookup (cacheKey entity hookName) with
  | some cached => (cached, cache)
  | none =>
    -- Whatever tags this request has, the result is kept for all requests of the key.
    let filtered := resolveEntries host config hash entries entity hookName
    if cache.entries.length < snapshot.routeCacheMaxEntries then
      (filtered, cache.insert (cacheKey entity hookName) filtered)
    else (filtered, cache)

/-- The entries of the plugin chain, as results of `filter_entries_by_route`. -/
def pluginChain (entries : List (HookEntry η)) : List (HookEntry (Handler η)) :=
  entries.map fun e => ⟨e.pluginRef, .plugin e.handler⟩

/-- An annotated handler, as a result of `filter_entries_by_route`. -/
def annotatedEntry (e : HookEntry AplRouteHandler) : HookEntry (Handler η) :=
  ⟨e.pluginRef, .apl e.handler⟩

/-- The cases of `filter_entries_by_route`, on the entries registered for the hook; `routed` is what
    becomes of a request that has an entity to be routed by. -/
def filterEntriesWith {κ : Type} (snapshot : RuntimeSnapshot) (entries : List (HookEntry η))
    (extensions : Extensions) (hookName : String)
    (routed : CpexConfig → EntityRef → List (HookEntry η) × κ) (state : κ) :
    List (HookEntry (Handler η)) × κ :=
  match (entityRef extensions).bind (annotationFor snapshot.routeAnnotations · hookName) with
  -- A synthetic handler takes the place of the whole chain, whether routing is on or not.
  | some entry => ([annotatedEntry entry], state)
  | none =>
    let byConditions := entries.filter (·.pluginRef.trustedConfig.passesConditions extensions)
    match snapshot.cpexConfig with
    | none => (pluginChain byConditions, state)
    | some config =>
      if config.routingEnabled then
        match entityRef extensions with
        -- Nothing to route by: every registered plugin runs, its conditions aside.
        | none => (pluginChain entries, state)
        | some entity => Prod.map pluginChain id (routed config entity)
      else (pluginChain byConditions, state)

/-- `filter_entries_by_route`. -/
def filterEntriesByRoute (host : Host η) (snapshot : RuntimeSnapshot) (hash : HashOrder)
    (entries : List (HookEntry η)) (extensions : Extensions) (hookName : String)
    (cache : RouteCache η) : List (HookEntry (Handler η)) × RouteCache η :=
  filterEntriesWith snapshot entries extensions hookName
    (fun config entity => filterCached host snapshot config hash entries entity hookName cache)
    cache

/-- The configuration and the entity by which a request is routed. Without them, or with an
    annotation, it is answered without the cache. -/
def routedBy (snapshot : RuntimeSnapshot) (extensions : Extensions) (hookName : String) :
    Option (CpexConfig × EntityRef) := do
  let entity ← entityRef extensions
  let config ← snapshot.cpexConfig
  if (annotationFor snapshot.routeAnnotations entity hookName).isSome then none
  else if config.routingEnabled then some (config, entity) else none

/-! ### A small host -/

/-- A host without factories, whose documents stand for `config`. -/
def Host.bare (config : CpexConfig) : Host Unit where
  deserialize _ := .ok config
  instantiatePluginsInto registry _ := .ok registry
  createOverrideInstance _ _ := none
  visitor :=
    { baseCapabilities := ∅
      wiring := ⟨fun _ _ => .ok (), fun _ => .ok (), fun _ => .ok ()⟩
      newId := fun _ => 0 }

/-- A manager with the APL visitor registered and nothing loaded. -/
def PluginManager.fresh : PluginManager Unit where
  runtime := { executor := {}, routeCacheMaxEntries := 10000 }
  visitor := some {}

/-- A request about a tool, with the tags the host gave it. -/
def toolRequest (name : String) (tags : Finset String) : Extensions where
  «meta» := some ⟨0, { entityType := some "tool", entityName := some name, tags }⟩

end Cpex.Core
