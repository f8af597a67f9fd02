import Cpex.Native.Invokers
import Cpex.Native.Registry
import Cpex.Native.RoutePlugins

/-! # Dispatch plans

`apl-cpex/src/dispatch_plan.rs` and `build_override_entries` of `cpex-core/src/manager.rs`: the
entries a route calls, resolved once for each generation of the manager's snapshot and kept in a
cache under the route's key.

What a plan is made of besides the route and the registry is the host's (`PlanHost`): the instances
that factories make, their `initialize`, the ids of new `PluginRef`s. It may change from call to
call, so it is passed along as a state. -/

namespace Cpex.Core

variable {η σ : Type}

/-- `entries_for_plugin`. The hooks come in the order the index happens to have. -/
def PluginRegistry.entriesForPlugin (self : PluginRegistry η) (pluginName : String) :
    List (String × HookEntry η) :=
  self.hookIndex.entries.flatMap fun hook =>
    (hook.2.filter fun e => e.name = pluginName).map fun e => (hook.1, e)

/-- What the manager calls to make an instance with another configuration. -/
structure PlanHost (η σ : Type) where
  /-- `serde_json::to_value` of a YAML value. -/
  toJson : Yaml → Option Json
  /-- The `create` of the factory of a kind. -/
  factories : String → Option (PluginConfig → σ → Except PluginError (PluginInstance η) × σ)
  /-- `AnyHookHandler::hook_type_name`. -/
  hookTypeName : η → String
  /-- `Plugin::initialize` of a new instance: whether it succeeded. -/
  initializeInstance : PluginInstance η → σ → Bool × σ
  /-- The id of a new `PluginRef` with the plugin of another one. -/
  newId : PluginRef → σ → Uuid × σ

/-- The factory path of `build_override_entries`: nothing, unless there is a factory, it makes an
    instance, and the instance can be initialised. -/
def instantiateOverride (host : PlanHost η σ) (config : PluginConfig) (w : σ) :
    List (String × HookEntry η) × σ :=
  match host.factories config.kind with
  | none => ([], w)
  | some create =>
    match create config w with
    | (.error _, w) => ([], w)
    | (.ok made, w) =>
      let (initialized, w) := host.initializeInstance made w
      if initialized then
        (made.handlers.map fun h => (h.1, ⟨⟨config, made.id⟩, h.2⟩), w)
      else ([], w)

/-- `build_override_entries`. -/
def buildOverrideEntries (host : PlanHost η σ) (registry : PluginRegistry η) (pluginName : String)
    (configOverride : Option Yaml) (capabilitiesOverride : Option (Finset String))
    (onErrorOverride : Option OnError) (w : σ) : List (String × HookEntry η) × σ :=
  let baseEntries := registry.entriesForPlugin pluginName
  match baseEntries with
  | [] => ([], w)
  | (_, first) :: _ =>
    if configOverride.isNone && capabilitiesOverride.isNone && onErrorOverride.isNone then
      (baseEntries, w)
    else
      -- All entries of a plugin share one `PluginRef`.
      let base := first.pluginRef.trustedConfig
      let merged :=
        { base with
          capabilities := capabilitiesOverride.getD base.capabilities
          onError := onErrorOverride.getD base.onError }
      match configOverride with
      | none =>
        let (id, w) := host.newId first.pluginRef w
        (baseEntries.map fun e => (e.1, ⟨⟨merged, id⟩, e.2.handler⟩), w)
      | some yaml =>
        match host.toJson yaml with
        | none => ([], w)
        -- The override replaces the configuration of the plugin as a whole.
        | some config => instantiateOverride host { merged with config := some config } w

/-- `parse_on_error`. -/
def parseOnError (s : String) : Option OnError :=
  let s := Text.toAsciiLowercase s
  if s = "fail" then some .fail
  else if s = "ignore" then some .ignore
  else if s = "disable" then some .disable
  else none

/-- The entries of a plugin step or stage of the route. A plugin that is not declared has none. -/
def pluginEntries (host : PlanHost η σ) (registry : PluginRegistry η) (decls : DeclRegistry)
    (route : CompiledRoute) (name : String) (w : σ) : List (String × HookEntry η) × σ :=
  match EffectivePlugin.resolve name decls route.pluginOverrides with
  | none => ([], w)
  | some _ =>
    let overrideBlock := route.pluginOverrides.lookup name
    buildOverrideEntries host registry name (overrideBlock.bind (·.config))
      ((overrideBlock.bind (·.capabilities)).map List.toFinset)
      ((overrideBlock.bind (·.onError)).bind parseOnError) w

/-- The entry of a `delegate` or elicitation step: the first one under the hook of the family. -/
def familyEntry (host : PlanHost η σ) (registry : PluginRegistry η) (hookName name : String)
    (w : σ) : Option (HookEntry η) × σ :=
  let (entries, w) := buildOverrideEntries host registry name none none none w
  ((entries.find? fun e => e.1 = hookName).map (·.2), w)

namespace RouteDispatchPlan

/-- The loop over the plugin steps and stages. -/
def addPlugins (host : PlanHost η σ) (registry : PluginRegistry η) (decls : DeclRegistry)
    (route : CompiledRoute) (names : List String) (plan : RouteDispatchPlan η) (w : σ) :
    RouteDispatchPlan η × σ :=
  names.foldl (fun (plan, w) name =>
    let (entries, w) := pluginEntries host registry decls route name w
    if entries.isEmpty then (plan, w)
    else
      let entriesByHook := entries.foldl (fun m e => m.insert e.1 e.2) ∅
      ({ plan with plugins := plan.plugins.insert name ⟨name, entriesByHook⟩ }, w)) (plan, w)

/-- The loops over the `delegate` and the elicitation steps. -/
def familyEntries (host : PlanHost η σ) (registry : PluginRegistry η) (hookName : String)
    (names : List String) (w : σ) : HashMap String (HookEntry η) × σ :=
  names.foldl (fun (found, w) name =>
    let (entry, w) := familyEntry host registry hookName name w
    match entry with
    | some entry => (found.insert name entry, w)
    | none => (found, w)) (∅, w)

/-- `RouteDispatchPlan::build`. -/
def build (host : PlanHost η σ) (registry : PluginRegistry η) (decls : DeclRegistry)
    (route : CompiledRoute) (w : σ) : RouteDispatchPlan η × σ :=
  let (plan, w) := addPlugins host registry decls route (collectPluginNames route) {} w
  let (delegationEntries, w) :=
    familyEntries host registry "token.delegate" (collectDelegatePluginNames route) w
  let (elicitationEntries, w) :=
    familyEntries host registry "elicit" (collectElicitPluginNames route) w
  ({ plan with delegationEntries, elicitationEntries }, w)

end RouteDispatchPlan

/-- `DispatchCache`: under a route's key, the generation its plan was built at, and the plan. -/
abbrev DispatchCache (η : Type) := HashMap String (Nat × RouteDispatchPlan η)

/-- The fast path of `get_or_build`. -/
def DispatchCache.current (self : DispatchCache η) (routeKey : String) (generation : Nat) :
    Option (RouteDispatchPlan η) :=
  match self.lookup routeKey with
  | some (stored, plan) => if stored = generation then some plan else none
  | none => none

/-- The manager as the cache sees it: the registry of its snapshot, and how many snapshots there
    were before. -/
structure PlanManager (η : Type) where
  registry : PluginRegistry η := {}
  generation : Nat := 0

/-- `get_or_build`. -/
def DispatchCache.getOrBuild (host : PlanHost η σ) (self : DispatchCache η) (route : CompiledRoute)
    (decls : DeclRegistry) (manager : PlanManager η) (w : σ) :
    RouteDispatchPlan η × DispatchCache η × σ :=
  match self.current route.routeKey manager.generation with
  | some plan => (plan, self, w)
  | none =>
    let (plan, w) := RouteDispatchPlan.build host manager.registry decls route w
    (plan, self.insert route.routeKey (manager.generation, plan), w)

end Cpex.Core
