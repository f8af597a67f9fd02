import Mathlib.Logic.Function.Basic
import Cpex.Native.Manager
import Cpex.Native.Registry
import Cpex.ForStd.Schedule

/-! # Concurrent calls of the manager

`cpex-core/src/manager.rs`, with its calls cut into atomic steps. A mutator loads the runtime
snapshot, stores the one it made of it, and clears the route cache. A dispatch loads the snapshot,
looks into the route cache, and fills it on a miss. The snapshot is behind an atomic pointer and the
cache behind a lock that is held for one step at a time, so the steps of any number of calls may
come in any order: a schedule says whose step is next.

The `version` fields number the snapshots by their stores. No step depends on them. -/

namespace Cpex.Core

/-- `RuntimeSnapshot`, with the whole registry. -/
structure Snapshot (η : Type) where
  registry : PluginRegistry η := {}
  executor : ExecutorConfig
  cpexConfig : Option CpexConfig := none
  routeCacheMaxEntries : Nat
  routeAnnotations : HashMap AnnotationKey (HookEntry AplRouteHandler) := ∅

variable {η : Type}

/-- The snapshot as `filter_entries_by_route` sees it: the entries of the hook come separately. -/
def Snapshot.toRuntime (self : Snapshot η) : RuntimeSnapshot where
  registry := self.registry.plugins
  executor := self.executor
  cpexConfig := self.cpexConfig
  routeCacheMaxEntries := self.routeCacheMaxEntries
  routeAnnotations := self.routeAnnotations

/-- `snapshot_from_config`. -/
def Snapshot.fromConfig (registry : PluginRegistry η) (config : CpexConfig) : Snapshot η where
  registry
  executor := ⟨config.pluginSettings.pluginTimeout, config.pluginSettings.shortCircuitOnDeny⟩
  cpexConfig := some config
  routeCacheMaxEntries := config.pluginSettings.routeCacheMaxEntries

/-! ### Mutators -/

/-- The calls that change the snapshot. -/
inductive Mutator (η : Type) where
  /-- `register_handler`, `register_handler_for_names` and `register_raw`. -/
  | register (pluginRef : PluginRef) (handler : η) (names : List String)
  | unregister (name : String)
  | annotateRoute (a : Annotation)
  /-- `remove_route_annotation`. -/
  | removeRouteAnnotationAt (key : AnnotationKey)
  /-- `load_config`, with the factories there are during the call. -/
  | loadConfig (config : CpexConfig) (factories : PluginFactoryRegistry η)

/-- What the call makes of the snapshot it loaded. It stores nothing on an error. -/
def Mutator.apply (self : Mutator η) (snapshot : Snapshot η) :
    Except PluginError (Snapshot η) :=
  match self with
  | .register pluginRef handler names => do
    let registry ←
      (snapshot.registry.registerForNamesInner pluginRef handler names).mapError .config
    return { snapshot with registry }
  | .unregister name => return { snapshot with registry := (snapshot.registry.unregister name).2 }
  | .annotateRoute a =>
    return { snapshot with routeAnnotations := Core.annotateRoute snapshot.routeAnnotations a }
  | .removeRouteAnnotationAt key =>
    return { snapshot with routeAnnotations := snapshot.routeAnnotations.erase key }
  | .loadConfig config factories => do
    let registry ← instantiatePluginsInto snapshot.registry config.plugins factories
    -- The annotations of the old configuration go.
    return .fromConfig registry config

/-- On a host that instantiates through the factories, this is the load of `Native.Manager`. -/
theorem toRuntime_loadConfig {host : Host η} {manager : PluginManager η} {snapshot : Snapshot η}
    (hhost : ∀ plugins configs, host.instantiatePluginsInto plugins configs =
      (Core.instantiatePluginsInto { plugins } configs factories).map (·.plugins))
    (hruntime : manager.runtime = snapshot.toRuntime) :
    ((Mutator.loadConfig config factories).apply snapshot).map Snapshot.toRuntime =
      (loadConfig host manager config).map (·.runtime) := by
  unfold Mutator.apply loadConfig
  dsimp only
  have hregistry : manager.runtime.registry = snapshot.registry.plugins := by rw [hruntime]; rfl
  rw [hhost, hregistry, instantiatePluginsInto_plugins factories _ ∅ snapshot.registry.hookIndex]
  cases instantiatePluginsInto snapshot.registry config.plugins factories <;> rfl

/-- Whether the call clears the route cache after its store. -/
def Mutator.clears (self : Mutator η) (snapshot : Snapshot η) : Bool :=
  match self with
  | .register .. | .loadConfig .. => true
  | .unregister name => (snapshot.registry.unregister name).1.isSome
  | .annotateRoute _ | .removeRouteAnnotationAt _ => false

/-- How far a mutator is. -/
inductive MutatorState (η : Type) where
  | called
  | loaded (snapshot : Snapshot η) (version : Nat)
  /-- The snapshot `version` is stored, the cache is still to be cleared. -/
  | stored (version : Nat)
  | returned (version : Nat) (cleared : Bool)
  | failed (error : PluginError)

/-! ### Dispatches -/

/-- How far a dispatch is: `invoke`, `invoke_named` or `invoke_by_name`, until it has the entries
    for the executor. -/
inductive DispatchState (η : Type) where
  | called
  | loaded (snapshot : Snapshot η) (version : Nat)
  /-- The route cache had no entry. -/
  | missed (snapshot : Snapshot η) (version : Nat) (config : CpexConfig) (entity : EntityRef)
  /-- The entries were resolved, and are still to be cached. -/
  | resolved (snapshot : Snapshot η) (version : Nat) (entity : EntityRef)
      (entries : List (HookEntry η))
  /-- `cached` is the version of the snapshot that entries from the cache were resolved against. -/
  | returned (entries : List (HookEntry (Handler η))) (cached : Option Nat)

/-! ### Steps -/

/-- A value of the route cache. -/
structure Resolution (η : Type) where
  entries : List (HookEntry η)
  version : Nat

/-- The manager, with the mutators `ι` and the dispatches `κ` that are under way. -/
structure System (ι κ η : Type) where
  runtime : Snapshot η
  version : Nat := 0
  routeCache : HashMap RouteCacheKey (Resolution η) := ∅
  mutators : ι → MutatorState η := fun _ => .called
  dispatches : κ → DispatchState η := fun _ => .called

section
variable {ι κ : Type} [DecidableEq ι] [DecidableEq κ]

/-- A mutator changes its state. -/
def System.setMutator (self : System ι κ η) (i : ι) (state : MutatorState η) : System ι κ η :=
  { self with mutators := Function.update self.mutators i state }

/-- A dispatch changes its state. -/
def System.setDispatch (self : System ι κ η) (k : κ) (state : DispatchState η) : System ι κ η :=
  { self with dispatches := Function.update self.dispatches k state }

omit [DecidableEq κ] in
@[simp] theorem setMutator_self (sys : System ι κ η) (i : ι) (state : MutatorState η) :
    (sys.setMutator i state).mutators i = state :=
  Function.update_self ..

omit [DecidableEq ι] in
@[simp] theorem setDispatch_self (sys : System ι κ η) (k : κ) (state : DispatchState η) :
    (sys.setDispatch k state).dispatches k = state :=
  Function.update_self ..

/-- The next step of the mutator `i`, which makes the call `m`. -/
def mutatorStep (m : Mutator η) (i : ι) (sys : System ι κ η) : System ι κ η :=
  match sys.mutators i with
  | .called => sys.setMutator i (.loaded sys.runtime sys.version)
  | .loaded snapshot _ =>
    match m.apply snapshot with
    | .error e => sys.setMutator i (.failed e)
    | .ok next =>
      let version := sys.version + 1
      { sys with runtime := next, version }.setMutator i
        (if m.clears snapshot then .stored version else .returned version false)
  | .stored version => { sys with routeCache := ∅ }.setMutator i (.returned version true)
  | .returned .. | .failed _ => sys

section
variable {m : Mutator η} {i : ι} {sys : System ι κ η}

omit [DecidableEq κ]

theorem mutatorStep_of_called (h : sys.mutators i = .called) :
    mutatorStep m i sys = sys.setMutator i (.loaded sys.runtime sys.version) := by
  simp only [mutatorStep, h]

theorem mutatorStep_of_ok (h : sys.mutators i = .loaded snapshot version)
    (hok : m.apply snapshot = .ok next) :
    mutatorStep m i sys = { sys with runtime := next, version := sys.version + 1 }.setMutator i
      (if m.clears snapshot then .stored (sys.version + 1)
        else .returned (sys.version + 1) false) := by
  simp only [mutatorStep, h, hok]

theorem mutatorStep_of_error (h : sys.mutators i = .loaded snapshot version)
    (herror : m.apply snapshot = .error e) :
    mutatorStep m i sys = sys.setMutator i (.failed e) := by
  simp only [mutatorStep, h, herror]

theorem mutatorStep_of_stored (h : sys.mutators i = .stored version) :
    mutatorStep m i sys =
      { sys with routeCache := ∅ }.setMutator i (.returned version true) := by
  simp only [mutatorStep, h]

theorem mutatorStep_of_returned (h : sys.mutators i = .returned version cleared) :
    mutatorStep m i sys = sys := by
  simp only [mutatorStep, h]

theorem mutatorStep_of_failed (h : sys.mutators i = .failed e) :
    mutatorStep m i sys = sys := by
  simp only [mutatorStep, h]

end

/-- The step of a dispatch that looks into the route cache. -/
def lookupStep (host : Host η) (request : Request) (snapshot : Snapshot η) (version : Nat)
    (routeCache : HashMap RouteCacheKey (Resolution η)) : DispatchState η :=
  let entries := snapshot.registry.entriesForHook request.hookName
  if entries.isEmpty && snapshot.routeAnnotations.keys.isEmpty then .returned [] none
  else
    match routedBy snapshot.toRuntime request.extensions request.hookName with
    | none =>
      .returned (filterEntriesByRoute host snapshot.toRuntime request.hash entries
        request.extensions request.hookName ∅).1 none
    | some (config, entity) =>
      match routeCache.lookup (cacheKey entity request.hookName) with
      | some resolution => .returned (pluginChain resolution.entries) (some resolution.version)
      | none => .missed snapshot version config entity

/-- The next step of the dispatch `k`, which serves `request`. -/
def dispatchStep (host : Host η) (request : Request) (k : κ) (sys : System ι κ η) :
    System ι κ η :=
  match sys.dispatches k with
  | .called => sys.setDispatch k (.loaded sys.runtime sys.version)
  | .loaded snapshot version =>
    sys.setDispatch k (lookupStep host request snapshot version sys.routeCache)
  | .missed snapshot version config entity =>
    sys.setDispatch k (.resolved snapshot version entity
      (resolveEntries host config request.hash
        (snapshot.registry.entriesForHook request.hookName) entity request.hookName))
  | .resolved snapshot version entity entries =>
    -- The limit is that of the snapshot the dispatch holds.
    let routeCache :=
      if sys.routeCache.entries.length < snapshot.routeCacheMaxEntries then
        sys.routeCache.insert (cacheKey entity request.hookName) ⟨entries, version⟩
      else sys.routeCache
    { sys with routeCache }.setDispatch k (.returned (pluginChain entries) none)
  | .returned .. => sys

/-- The calls that are made. -/
structure Traffic (ι κ η : Type) where
  host : Host η
  mutator : ι → Mutator η
  request : κ → Request

/-- One step of the call whose turn it is. -/
def Traffic.step (calls : Traffic ι κ η) (sys : System ι κ η) : ι ⊕ κ → System ι κ η
  | .inl i => mutatorStep (calls.mutator i) i sys
  | .inr k => dispatchStep calls.host (calls.request k) k sys

/-- The calls take steps in the order of the schedule. -/
def Traffic.run (calls : Traffic ι κ η) (schedule : List (ι ⊕ κ)) (sys : System ι κ η) :
    System ι κ η :=
  Schedule.run calls.step schedule sys

end

end Cpex.Core
