import Cpex.Native.Concurrent
import Cpex.Native.DispatchPlan
import Cpex.ForStd.Log

/-! # The lifecycle of plugin instances

`cpex-core/src/manager.rs`: `initialize` and `shutdown` of the manager, and the override instances
that it makes for routes, among its other calls. The calls come one after another.

A plugin is code of the host (`PluginHost`), over a state of the host's. What happens to plugins is
recorded in a log, which no call reads.

Which handlers the executor calls, of the entries it is given, is up to the executor: a dispatch
here has the list of its calls. A synthetic handler is not a plugin, and what it asks of the manager
while it runs are calls like any other: `build_override_entries` and `invoke_entries`. -/

namespace Cpex.Core

/-- What happens to a plugin, and to the manager. -/
inductive LifecycleEvent (ι : Type) where
  | registered (plugin : ι)
  /-- `Plugin::initialize` returned `Ok`. -/
  | initialized (plugin : ι)
  | initFailed (plugin : ι)
  /-- `PluginManager::initialize` went through all plugins. -/
  | started
  /-- A handler of the plugin was called. -/
  | called (plugin : ι)
  | shutDown (plugin : ι)
  deriving DecidableEq

/-- Whether the event is a registration. -/
def LifecycleEvent.isRegistered {ι : Type} : LifecycleEvent ι → Bool
  | .registered _ => true
  | _ => false

/-- The state of the host, with the log. -/
structure Recorded (ι τ : Type) where
  world : τ
  log : List (LifecycleEvent ι) := []

/-- The plugins `ι` and their factories, over the state `τ`. -/
structure PluginHost (η ι τ : Type) where
  /-- `serde_json::to_value` of a YAML value. -/
  toJson : Yaml → Option Json
  /-- The `create` of the factory of a kind. -/
  factories : String → Option (PluginConfig → τ → Except PluginError (PluginInstance η) × τ)
  /-- `AnyHookHandler::hook_type_name`. -/
  hookTypeName : η → String
  /-- `PluginRef::plugin`, by the id of the `PluginRef`. Several may share a plugin. -/
  plugin : Uuid → ι
  /-- `Plugin::initialize`. -/
  initializePlugin : ι → τ → Except PluginError Unit × τ
  /-- `Plugin::shutdown`. Its errors are only reported. -/
  shutdownPlugin : ι → τ → Except PluginError Unit × τ
  /-- The id of a new `PluginRef` with the plugin of another one. -/
  newId : PluginRef → τ → Uuid × τ
  plugin_newId : ∀ pluginRef world, plugin (newId pluginRef world).1 = plugin pluginRef.id

variable {η ι τ σ : Type}

namespace Recorded

def record (w : Recorded ι τ) (events : List (LifecycleEvent ι)) : Recorded ι τ :=
  { w with log := w.log ++ events }

/-- A call that is not recorded. -/
def lift {α : Type} (f : τ → α × τ) (w : Recorded ι τ) : α × Recorded ι τ :=
  ((f w.world).1, { w with world := (f w.world).2 })

end Recorded

namespace PluginHost

variable (host : PluginHost η ι τ)

/-- The plugin of an entry. -/
def pluginOf {θ : Type} (entry : HookEntry θ) : ι := host.plugin entry.pluginRef.id

/-- `plugin.initialize()`, recorded. -/
def initializeRecorded (plugin : ι) (w : Recorded ι τ) : Except PluginError Unit × Recorded ι τ :=
  match host.initializePlugin plugin w.world with
  | (.ok (), world) => (.ok (), { w with world }.record [.initialized plugin])
  | (.error e, world) => (.error e, { w with world }.record [.initFailed plugin])

/-- `plugin.shutdown()`, recorded. -/
def shutdownRecorded (plugin : ι) (w : Recorded ι τ) : Recorded ι τ :=
  { w with world := (host.shutdownPlugin plugin w.world).2 }.record [.shutDown plugin]

/-- The host, as it makes instances. -/
def toPlanHost : PlanHost η (Recorded ι τ) where
  toJson := host.toJson
  factories kind := (host.factories kind).map fun create config => Recorded.lift (create config)
  hookTypeName := host.hookTypeName
  initializeInstance made w :=
    let (result, w) := host.initializeRecorded (host.plugin made.id) w
    (result.toBool, w)
  newId pluginRef := Recorded.lift (host.newId pluginRef)

end PluginHost

/-! ### `initialize` and `shutdown` -/

/-- The loops that shut plugins down by name. -/
def shutdownNames (host : PluginHost η ι τ) (plugins : HashMap String PluginRef)
    (names : List String) (w : Recorded ι τ) : Recorded ι τ :=
  names.foldl (fun w name =>
    match plugins.lookup name with
    | some pluginRef => host.shutdownRecorded (host.plugin pluginRef.id) w
    | none => w) w

/-- The loop of `initialize`; `initializedPlugins` is what it has done so far. -/
def initializeNames (host : PluginHost η ι τ) (plugins : HashMap String PluginRef) :
    List String → List String → Recorded ι τ → Except PluginError Unit × Recorded ι τ
  | [], _, w => (.ok (), w)
  | name :: names, initializedPlugins, w =>
    match plugins.lookup name with
    | none => initializeNames host plugins names initializedPlugins w
    | some pluginRef =>
      match host.initializeRecorded (host.plugin pluginRef.id) w with
      | (.ok (), w) => initializeNames host plugins names (initializedPlugins ++ [name]) w
      | (.error e, w) =>
        (.error (.execution name ("initialization failed: " ++ e.toText) none ∅ none),
          shutdownNames host plugins initializedPlugins.reverse w)

/-! ### Override instances -/

/-- The configuration of an override instance: the fields of the override's `config` on top of those
    of the base. -/
def mergeOverride (baseConfig : PluginConfig) (overrides : Json) : PluginConfig :=
  match overrides.get "config" with
  | none => baseConfig
  | some overrideConfig =>
    match baseConfig.config, overrideConfig with
    | none, _ => { baseConfig with config := some overrideConfig }
    | some (.object baseObj), .object overrideObj =>
      { baseConfig with
        config := some (.object
          (overrideObj.foldl (fun merged field => Json.insertField field.1 field.2 merged)
            baseObj)) }
    -- Values that are not both objects do not merge: the base's stays.
    | some _, _ => baseConfig

/-- `create_override_instance`. -/
def createOverrideInstance (host : PlanHost η σ) (baseEntry : HookEntry η) (overrides : Json)
    (w : σ) : Option (HookEntry η) × σ :=
  let baseConfig := baseEntry.pluginRef.trustedConfig
  let merged := mergeOverride baseConfig overrides
  match host.factories baseConfig.kind with
  | none => (none, w)
  | some create =>
    match create merged w with
    | (.error _, w) => (none, w)
    | (.ok made, w) =>
      -- The handler is looked for first: no instance is initialised in vain.
      match made.handlers.find? fun h => h.1 = host.hookTypeName baseEntry.handler with
      | none => (none, w)
      | some (_, handler) =>
        let (initialized, w) := host.initializeInstance made w
        (if initialized then some ⟨⟨merged, made.id⟩, handler⟩ else none, w)

/-- The loop of `filter_entries_by_route` over the resolved plugins. -/
def resolveInstances (host : PlanHost η σ) (entries : List (HookEntry η)) :
    List ResolvedPlugin → σ → List (HookEntry η) × σ
  | [], w => ([], w)
  | rp :: resolved, w =>
    match entries.find? fun e => e.name = rp.name with
    | none => resolveInstances host entries resolved w
    | some entry =>
      let (made, w) := match rp.configOverrides with
        | none => (none, w)
        | some overrides => createOverrideInstance host entry overrides w
      let (rest, w) := resolveInstances host entries resolved w
      (made.getD entry :: rest, w)

/-- `filter_entries_by_route`, making the override instances it needs. -/
def filterInstances (host : PlanHost η σ) (snapshot : Snapshot η) (request : Request)
    (cache : RouteCache η) (w : σ) : List (HookEntry (Handler η)) × RouteCache η × σ :=
  let entries := snapshot.registry.entriesForHook request.hookName
  filterEntriesWith snapshot.toRuntime entries request.extensions request.hookName
    (fun config entity =>
      match cache.lookup (cacheKey entity request.hookName) with
      | some cached => (cached, cache, w)
      | none =>
        let (filtered, w) := resolveInstances host entries
          (resolveForHook config request.hash entity request.hookName) w
        let cache :=
          if cache.entries.length < snapshot.routeCacheMaxEntries then
            cache.insert (cacheKey entity request.hookName) filtered
          else cache
        (filtered, cache, w))
    (cache, w)

/-! ### The manager -/

/-- The manager between two calls. -/
structure LifecycleState (η ι τ : Type) where
  runtime : Snapshot η
  routeCache : RouteCache η := ∅
  initialized : Bool := false
  /-- The entries that `build_override_entries` returned. Who asked for them may keep them. -/
  handedOut : List (HookEntry η) := []
  host : Recorded ι τ

/-- The calls. There is no `unregister` among them. -/
inductive LifecycleOp (η : Type) where
  | mutate (m : Mutator η) (h : ∀ name, m ≠ .unregister name)
  /-- `initialize`; the plugins come in the order the registry's map happens to have. -/
  | initializeAll (hash : HashOrder)
  /-- `invoke`, `invoke_named` and `invoke_by_name`; `calls` are the entries whose handlers are
      called. -/
  | invoke (request : Request) (calls : List Nat)
  | buildOverrideEntries (pluginName : String) (configOverride : Option Yaml)
      (capabilitiesOverride : Option (Finset String)) (onErrorOverride : Option OnError)
  /-- `invoke_entries`; `calls` are those of the entries handed out whose handlers are called. -/
  | invokeEntries (calls : List Nat)
  | shutdown (hash : HashOrder)

/-- The plugin that a factory makes of a configuration. -/
def madePlugin (host : PluginHost η ι τ) (factories : PluginFactoryRegistry η)
    (config : PluginConfig) : Option ι := do
  let create ← factories config.kind
  let made ← (create config).toOption
  return host.plugin made.id

/-- The plugins that a call registers if it succeeds. -/
def Mutator.plugins (host : PluginHost η ι τ) : Mutator η → List ι
  | .register pluginRef _ _ => [host.plugin pluginRef.id]
  | .loadConfig config factories => config.plugins.filterMap (madePlugin host factories)
  | .unregister _ | .annotateRoute _ | .removeRouteAnnotationAt _ => []

/-- The plugin whose handler the entry has. A synthetic handler is no plugin's. -/
def PluginHost.calledPlugin (host : PluginHost η ι τ) (entry : HookEntry (Handler η)) : Option ι :=
  match entry.handler with
  | .plugin _ => some (host.pluginOf entry)
  | .apl _ => none

/-- The plugins whose handlers are called. -/
def calledPlugins (host : PluginHost η ι τ) (entries : List (HookEntry (Handler η)))
    (calls : List Nat) : List ι :=
  calls.filterMap fun i => entries[i]?.bind host.calledPlugin

namespace LifecycleState

variable (host : PluginHost η ι τ)

/-- A manager on which no call was made. -/
def new (executor : ExecutorConfig) (routeCacheMaxEntries : Nat) (world : τ) :
    LifecycleState η ι τ where
  runtime := { executor, routeCacheMaxEntries }
  host := { world }

/-- `plugin_names`. -/
def pluginNames (st : LifecycleState η ι τ) (hash : HashOrder) : List String :=
  hash.iter st.runtime.registry.plugins.keys.toFinset

def mutate (st : LifecycleState η ι τ) (m : Mutator η) : LifecycleState η ι τ :=
  match m.apply st.runtime with
  | .error _ => st
  | .ok runtime =>
    { st with
      runtime
      routeCache := if m.clears st.runtime then ∅ else st.routeCache
      host := st.host.record ((m.plugins host).map .registered) }

/-- `initialize`. -/
def initializeAll (st : LifecycleState η ι τ) (hash : HashOrder) :
    Except PluginError Unit × LifecycleState η ι τ :=
  if st.initialized then (.ok (), st)
  else
    match initializeNames host st.runtime.registry.plugins (st.pluginNames hash) [] st.host with
    | (.error e, w) => (.error e, { st with host := w })
    | (.ok (), w) => (.ok (), { st with initialized := true, host := w.record [.started] })

def invoke (st : LifecycleState η ι τ) (request : Request) (calls : List Nat) :
    LifecycleState η ι τ :=
  let noEntries := (st.runtime.registry.entriesForHook request.hookName).isEmpty
  if noEntries && st.runtime.routeAnnotations.keys.isEmpty then st
  else
    let (entries, routeCache, w) :=
      filterInstances host.toPlanHost st.runtime request st.routeCache st.host
    { st with routeCache, host := w.record ((calledPlugins host entries calls).map .called) }

def buildOverrideEntries (st : LifecycleState η ι τ) (pluginName : String)
    (configOverride : Option Yaml) (capabilitiesOverride : Option (Finset String))
    (onErrorOverride : Option OnError) : LifecycleState η ι τ :=
  let (entries, w) := Core.buildOverrideEntries host.toPlanHost st.runtime.registry pluginName
    configOverride capabilitiesOverride onErrorOverride st.host
  { st with handedOut := st.handedOut ++ entries.map (·.2), host := w }

def invokeEntries (st : LifecycleState η ι τ) (calls : List Nat) : LifecycleState η ι τ :=
  { st with
    host := st.host.record
      ((calledPlugins host (pluginChain st.handedOut) calls).map .called) }

/-- `shutdown`. The tasks in the background have ended before it goes on. -/
def shutdown (st : LifecycleState η ι τ) (hash : HashOrder) : LifecycleState η ι τ :=
  if st.initialized then
    { st with
      initialized := false
      host := shutdownNames host st.runtime.registry.plugins (st.pluginNames hash) st.host }
  else st

/-- One call. -/
def step (st : LifecycleState η ι τ) : LifecycleOp η → LifecycleState η ι τ
  | .mutate m _ => st.mutate host m
  | .initializeAll hash => (st.initializeAll host hash).2
  | .invoke request calls => st.invoke host request calls
  | .buildOverrideEntries pluginName configOverride capabilitiesOverride onErrorOverride =>
    st.buildOverrideEntries host pluginName configOverride capabilitiesOverride onErrorOverride
  | .invokeEntries calls => st.invokeEntries host calls
  | .shutdown hash => st.shutdown host hash

/-- One call after another. -/
def run (ops : List (LifecycleOp η)) (st : LifecycleState η ι τ) : LifecycleState η ι τ :=
  Schedule.run (step host) ops st

end LifecycleState

end Cpex.Core
