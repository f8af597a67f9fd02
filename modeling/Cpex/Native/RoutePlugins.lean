import Cpex.Native.Config
import Cpex.Native.Route

/-! # The plugins a compiled route refers to

`apl-core/src/plugin_decl.rs`, the collectors of `apl-cpex/src/dispatch_plan.rs` and the load
check of `apl-cpex/src/parallel_safety.rs`. -/

namespace Cpex.Core

/-! ### Declarations -/

/-- `PluginDeclaration`. -/
structure PluginDeclaration where
  name : String
  kind : String
  hooks : List String
  capabilities : List String
  config : Option Yaml
  onError : Option String

/-- `apl_core`'s `PluginRegistry`. -/
abbrev DeclRegistry := HashMap String PluginDeclaration

mutual

/-- `serde_yaml::to_value` on a JSON value. -/
def jsonToYaml : Json → Yaml
  | .null => .null
  | .bool b => .bool b
  | .number n => .number n
  | .string s => .string s
  | .array items => .sequence (jsonsToYaml items)
  | .object fields => .mapping (fieldsToYaml fields)

def jsonsToYaml : List Json → List Yaml
  | [] => []
  | v :: vs => jsonToYaml v :: jsonsToYaml vs

def fieldsToYaml : List (String × Json) → List (Yaml × Yaml)
  | [] => []
  | (k, v) :: fields => (.string k, jsonToYaml v) :: fieldsToYaml fields

end

/-- `OnError` through `Display`. -/
def OnError.toText : OnError → String
  | fail => "fail"
  | ignore => "ignore"
  | disable => "disable"

/-- The declaration `visit_plugins` makes of a plugin. The capabilities are a set; the order of
    the list is not used. -/
def PluginDeclaration.ofConfig (cfg : PluginConfig) : PluginDeclaration where
  name := cfg.name
  kind := cfg.kind
  hooks := cfg.hooks
  capabilities := cfg.capabilities.sort (· ≤ ·)
  config := cfg.config.map jsonToYaml
  onError := some cfg.onError.toText

/-- `EffectivePlugin`. -/
structure EffectivePlugin where
  name : String
  kind : String
  hooks : List String
  capabilities : List String
  config : Option Yaml
  onError : Option String

/-- `EffectivePlugin::resolve`: the declaration with the route's overrides on top. -/
def EffectivePlugin.resolve (name : String) (registry : DeclRegistry)
    (routeOverrides : HashMap String PluginOverride) : Option EffectivePlugin :=
  (registry.lookup name).map fun global =>
    let ovr := routeOverrides.lookup name
    { name := global.name
      kind := global.kind
      hooks := global.hooks
      capabilities := (ovr.bind (·.capabilities)).getD global.capabilities
      config := (ovr.bind (·.config)).or global.config
      onError := (ovr.bind (·.onError)).or global.onError }

/-! ### References in a route -/

mutual

/-- The node and everything below it, in the order `walk_effects` visits them. -/
def effectNodes : Effect → List Effect
  | .when c body source => .when c body source :: walkEffects body
  | .sequential inner => .sequential inner :: walkEffects inner
  | .parallel inner => .parallel inner :: walkEffects inner
  | .pdp call onAllow onDeny =>
    .pdp call onAllow onDeny :: (walkEffects onAllow ++ walkEffects onDeny)
  | e => [e]

/-- `walk_effects`: the nodes visited. -/
def walkEffects : List Effect → List Effect
  | [] => []
  | e :: es => effectNodes e ++ walkEffects es

end

/-- The names of a list without repetitions, at their first occurrence. -/
def uniqueNames (names : List String) : List String :=
  names.foldl (fun out name => if name ∈ out then out else out ++ [name]) []

/-- The nodes of both phases of a route. -/
def routeNodes (route : CompiledRoute) : List Effect :=
  walkEffects route.policy ++ walkEffects route.postPolicy

/-- `collect_delegate_plugin_names`. -/
def collectDelegatePluginNames (route : CompiledRoute) : List String :=
  uniqueNames <| (routeNodes route).filterMap fun
    | .delegate ds => some ds.pluginName
    | _ => none

/-- `collect_elicit_plugin_names`. -/
def collectElicitPluginNames (route : CompiledRoute) : List String :=
  uniqueNames <| (routeNodes route).filterMap fun
    | .elicit es => some es.pluginName
    | _ => none

/-- `collect_plugin_names`. -/
def collectPluginNames (route : CompiledRoute) : List String :=
  let steps := (routeNodes route).filterMap fun
    | .plugin name => some name
    | _ => none
  let stages := (route.args ++ route.result).flatMap fun rule =>
    rule.pipeline.stages.filterMap fun
      | .plugin name => some name
      | _ => none
  uniqueNames (steps ++ stages)

/-- The capabilities of the named plugins, with the route's overrides applied; names that are
    not declared are skipped. -/
def effectiveCapabilities (route : CompiledRoute) (registry : DeclRegistry)
    (names : List String) : Finset String :=
  (names.flatMap fun name =>
    ((EffectivePlugin.resolve name registry route.pluginOverrides).map
      (·.capabilities)).getD []).toFinset

/-- `route_capability_union`. -/
def routeCapabilityUnion (route : CompiledRoute) (registry : DeclRegistry) : Finset String :=
  let elicitPlugins := collectElicitPluginNames route
  effectiveCapabilities route registry (collectPluginNames route) ∪
    effectiveCapabilities route registry (collectDelegatePluginNames route) ∪
    effectiveCapabilities route registry elicitPlugins ∪
    if elicitPlugins = [] then ∅ else {"read_headers"}

/-! ### Plugins under `parallel:` -/

/-- `is_safe_in_parallel`. -/
def isSafeInParallel : PluginMode → Bool
  | .audit | .concurrent | .fireAndForget | .disabled => true
  | _ => false

/-- `PluginMode` through `Display`. -/
def PluginMode.toText : PluginMode → String
  | .sequential => "sequential"
  | .transform => "transform"
  | .audit => "audit"
  | .concurrent => "concurrent"
  | .fireAndForget => "fire_and_forget"
  | .disabled => "disabled"

/-- `check_plugin_mode`: the errors it pushes. -/
def checkPluginMode (modeFor : String → Option PluginMode) (location name : String) :
    List String :=
  match modeFor name with
  | none => [location ++ ": `parallel:` references unknown plugin `" ++ name ++ "`"]
  | some mode =>
    if isSafeInParallel mode then []
    else [location ++ ": plugin `" ++ name ++ "` has mode `" ++ mode.toText ++
      "` which can modify state; parallel branches discard mutations, so this would silently " ++
      "lose its effect. Use `sequential:` for ordered mutations or change the plugin's mode."]

mutual

/-- `walk_effect`: the errors it pushes. -/
def walkEffect (modeFor : String → Option PluginMode) (location : String) :
    Bool → Effect → List String
  | true, .plugin name => checkPluginMode modeFor location name
  | _, .parallel inner => walkEffectList modeFor location true inner
  | underParallel, .sequential inner => walkEffectList modeFor location underParallel inner
  | underParallel, .when _ body _ => walkEffectList modeFor location underParallel body
  | underParallel, .pdp _ onAllow onDeny =>
    walkEffectList modeFor location underParallel onAllow ++
      walkEffectList modeFor location underParallel onDeny
  | _, _ => []

def walkEffectList (modeFor : String → Option PluginMode) (location : String) :
    Bool → List Effect → List String
  | _, [] => []
  | underParallel, e :: es =>
    walkEffect modeFor location underParallel e ++ walkEffectList modeFor location underParallel es

end

/-- The errors of one phase. -/
def phaseErrors (modeFor : String → Option PluginMode) (routeKey phaseName : String)
    (effects : List Effect) : List String :=
  effects.zipIdx.flatMap fun e =>
    walkEffect modeFor
      ("routes." ++ routeKey ++ "." ++ phaseName ++ "[" ++ toString e.2 ++ "]") false e.1

/-- `validate_parallel_plugin_modes`. -/
def validateParallelPluginModes (route : CompiledRoute)
    (modeFor : String → Option PluginMode) : Except String Unit :=
  let errors := phaseErrors modeFor route.routeKey "pre_invocation" route.policy ++
    phaseErrors modeFor route.routeKey "post_invocation" route.postPolicy
  if errors = [] then .ok () else .error ("; ".intercalate errors)

end Cpex.Core
