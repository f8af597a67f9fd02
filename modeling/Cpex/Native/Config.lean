import Cpex.Native.Plugin
import Cpex.Native.Json
import Cpex.ForStd.Best

/-! # The configuration and its resolvers

`cpex-core/src/config.rs` and `identity/route_config.rs`: the typed configuration, the checks
made on it before it is used, the specificity scan that picks the route of a request, and the
two resolvers that turn a request into a list of plugins.

Resolution walks a `HashSet` of tags. Its order is the standard library's to choose, so it is
an argument here (`HashOrder`). -/

namespace Cpex.Core

/-- The iteration order of a `HashSet<String>`. -/
structure HashOrder where
  iter : Finset String → List String
  mem_iter : ∀ s x, x ∈ iter s ↔ x ∈ s
  nodup_iter : ∀ s, (iter s).Nodup

/-! ### Matchers -/

/-- `StringOrList`. A `Pattern` is its text; the `WildMatch` compiled from it is
    `Text.wildMatch`. -/
inductive StringOrList where
  | single (pattern : String)
  | list (names : List String)
  deriving DecidableEq, Repr

namespace StringOrList

/-- `StringOrList::matches`. -/
def «matches» (self : StringOrList) (name : String) : Bool :=
  match self with
  | single pattern => Text.wildMatch pattern name
  | list names => names.any (· == name)

/-- `StringOrList::as_names`. -/
def asNames : StringOrList → List String
  | single pattern => [pattern]
  | list names => names

end StringOrList

/-! ### The typed configuration -/

/-- `RouteIdentityStep`. -/
structure RouteIdentityStep where
  name : String
  configOverride : Option Json := none
  onError : Option String := none
  extra : HashMap String Json := ∅

/-- `RouteIdentityConfig`: an `authentication:` block. -/
structure RouteIdentityConfig where
  steps : List RouteIdentityStep := []
  replaceInherited : Bool := false

/-- `PluginRouteRef`. -/
inductive PluginRouteRef where
  | name (name : String)
  | withOverrides (map : HashMap String Json)

namespace PluginRouteRef

/-- `PluginRouteRef::name`. -/
def pluginName : PluginRouteRef → String
  | name n => n
  | withOverrides map => ((map.entries.head?).map (·.1)).getD ""

/-- `PluginRouteRef::overrides`. -/
def overrides : PluginRouteRef → Option Json
  | name _ => none
  | withOverrides map => (map.entries.head?).map (·.2)

end PluginRouteRef

/-- `PolicyGroup`. -/
structure PolicyGroup where
  plugins : List PluginRouteRef := []
  identity : Option RouteIdentityConfig := none

/-- `GlobalConfig`. -/
structure GlobalConfig where
  policies : HashMap String PolicyGroup := ∅
  defaults : HashMap String PolicyGroup := ∅
  identity : Option RouteIdentityConfig := none

/-- `RouteMeta`. -/
structure RouteMeta where
  tags : List String := []
  scope : Option String := none
  properties : HashMap String String := ∅

/-- `RouteEntry`. -/
structure RouteEntry where
  tool : Option StringOrList := none
  resource : Option StringOrList := none
  prompt : Option StringOrList := none
  llm : Option StringOrList := none
  «meta» : Option RouteMeta := none
  groups : Option StringOrList := none
  when : Option String := none
  plugins : List PluginRouteRef := []
  identity : Option RouteIdentityConfig := none

/-- The route's scope, `route.meta.as_ref().and_then(|m| m.scope)`. -/
def RouteEntry.scope (route : RouteEntry) : Option String := route.meta.bind (·.scope)

/-- The route's tags, empty without `meta`. -/
def RouteEntry.metaTags (route : RouteEntry) : List String := (route.meta.map (·.tags)).getD []

/-- `PluginSettings`. -/
structure PluginSettings where
  routingEnabled : Bool := false
  pluginTimeout : Nat := 30
  shortCircuitOnDeny : Bool := true
  routeCacheMaxEntries : Nat := 10000

/-- `CpexConfig`. -/
structure CpexConfig where
  global : GlobalConfig := {}
  plugins : List PluginConfig := []
  groups : HashMap String PolicyGroup := ∅
  routes : List RouteEntry := []
  pluginSettings : PluginSettings := {}

/-- `CpexConfig::routing_enabled`. -/
def CpexConfig.routingEnabled (self : CpexConfig) : Bool := self.pluginSettings.routingEnabled

/-! ### Checks before use -/

/-- The error of `reject_renamed_identity_key`. -/
def renamedIdentityKey (scope : String) : PluginError :=
  .config ("in `" ++ scope ++
    "`: config field `identity` was renamed to `authentication` — update your config")

/-- The bundles of one section, checked for the renamed key. -/
def rejectRenamedIn (label : String) (section_ : Option Yaml) : Except PluginError Unit :=
  match section_.bind Yaml.asMapping with
  | none => .ok ()
  | some entries =>
    entries.forM fun entry =>
      if (entry.2.get "identity").isSome then
        .error (renamedIdentityKey (label ++ "." ++ entry.1.asStr.getD "?"))
      else .ok ()

/-- `reject_renamed_identity_key`. -/
def rejectRenamedIdentityKey (raw : Yaml) : Except PluginError Unit := do
  match raw.get "global" with
  | none => .ok ()
  | some global =>
    if (global.get "identity").isSome then .error (renamedIdentityKey "global")
    rejectRenamedIn "global.policies" (global.get "policies")
    rejectRenamedIn "global.defaults" (global.get "defaults")
  rejectRenamedIn "groups" (raw.get "groups")
  match (raw.get "routes").bind Yaml.asSequence with
  | none => .ok ()
  | some routes =>
    routes.zipIdx.forM fun route =>
      if (route.1.get "identity").isSome then
        .error (renamedIdentityKey ("routes[" ++ toString route.2 ++ "]"))
      else .ok ()

/-- `merge_groups_into_policies`: top-level `groups:` win on a name collision. -/
def mergeGroupsIntoPolicies (config : CpexConfig) : CpexConfig :=
  { config with
    groups := ∅
    global := { config.global with
      policies := config.groups.entries.foldl (fun m e => m.insert e.1 e.2)
        config.global.policies } }

/-- The duplicate check of `validate_config`. -/
def checkDuplicates (seen : List String) : List PluginConfig → Except PluginError Unit
  | [] => .ok ()
  | plugin :: plugins =>
    if plugin.name ∈ seen then .error (.config ("duplicate plugin name: '" ++ plugin.name ++ "'"))
    else checkDuplicates (plugin.name :: seen) plugins

/-- How many entity matchers a route has. -/
def RouteEntry.matcherCount (route : RouteEntry) : Nat :=
  ([route.tool.isSome, route.resource.isSome, route.prompt.isSome, route.llm.isSome].filter
    id).length

/-- The first of `refs` that names no plugin is an error. -/
def checkPluginRefs (pluginNames : List String) (message : String → String)
    (refs : List PluginRouteRef) : Except PluginError Unit :=
  refs.forM fun ref =>
    if ref.pluginName ∈ pluginNames then .ok () else .error (.config (message ref.pluginName))

/-- The body of the route loop of `validate_config`. -/
def validateRoute (config : CpexConfig) (pluginNames : List String) (i : Nat)
    (route : RouteEntry) : Except PluginError Unit := do
  if route.matcherCount = 0 then
    .error (.config ("route " ++ toString i ++
      " has no entity matcher (need tool, resource, prompt, or llm)"))
  if 1 < route.matcherCount then
    .error (.config ("route " ++ toString i ++
      " has multiple entity matchers (need exactly one)"))
  checkPluginRefs pluginNames
    (fun name => "route " ++ toString i ++ " references unknown plugin '" ++ name ++ "'")
    route.plugins
  match route.groups with
  | none => .ok ()
  | some groups =>
    groups.asNames.forM fun name =>
      if (config.global.policies.lookup name).isSome then .ok ()
      else .error (.config ("route " ++ toString i ++ " joins unknown group '" ++ name ++ "'"))

/-- `validate_config`. -/
def validateConfig (config : CpexConfig) : Except PluginError Unit := do
  checkDuplicates [] config.plugins
  if config.routingEnabled then
    let pluginNames := config.plugins.map (·.name)
    config.routes.zipIdx.forM fun route => validateRoute config pluginNames route.2 route.1
    config.global.policies.entries.forM fun group =>
      checkPluginRefs pluginNames
        (fun name => "policy group '" ++ group.1 ++ "' references unknown plugin '" ++ name ++ "'")
        group.2.plugins

/-! ### Route selection -/

def specificityExactName : Nat := 1000
def specificityNameList : Nat := 500
def specificityGlob : Nat := 300
def specificityWhenOnly : Nat := 10
def specificityWildcard : Nat := 0

/-- `score_entity_match`. -/
def scoreEntityMatch (matcher : Option StringOrList) (entityName : String) : Option Nat :=
  match matcher with
  | none => none
  | some m =>
    if m.matches entityName then
      some (match m with
        | .single p =>
          if p = "*" then specificityWildcard
          else if Text.containsChar p '*' then specificityGlob
          else specificityExactName
        | .list _ => specificityNameList)
    else none

/-- The bonus for the scope of a route, `none` on a mismatch. -/
def scopeBonus (routeScope requestScope : Option String) : Option Nat :=
  match routeScope, requestScope with
  | none, _ => some 0
  | some rs, some rq => if rs = rq then some 100 else none
  | some _, none => none

/-- The matcher of a route for an entity type; unknown types have none. -/
def RouteEntry.entityMatcher (route : RouteEntry) (entityType : String) : Option StringOrList :=
  if entityType = "tool" then route.tool
  else if entityType = "resource" then route.resource
  else if entityType = "prompt" then route.prompt
  else if entityType = "llm" then route.llm
  else none

/-- `total` of the loop body of `find_matching_route`; `none` where the body continues. -/
def routeScore (entityType entityName : String) (requestScope : Option String)
    (route : RouteEntry) : Option Nat := do
  let scopeBonus ← scopeBonus route.scope requestScope
  let baseSpecificity ← scoreEntityMatch (route.entityMatcher entityType) entityName
  let whenBonus := if route.when.isSome then specificityWhenOnly else 0
  return baseSpecificity + scopeBonus + whenBonus

/-- `find_matching_route`: the first route of the greatest score. The reference it returns is
    the route with its position. -/
def findMatchingRoute (config : CpexConfig) (entityType entityName : String)
    (requestScope : Option String) : Option (RouteEntry × Nat) :=
  config.routes.zipIdx.firstBest fun route => routeScore entityType entityName requestScope route.1

/-! ### Resolution -/

/-- `route_static_tags`: `meta.tags` followed by the names of `groups:`. -/
def routeStaticTags (route : RouteEntry) : List String :=
  route.metaTags ++ (route.groups.map (·.asNames)).getD []

/-- `ResolvedPlugin`. -/
structure ResolvedPlugin where
  name : String
  configOverrides : Option Json := none
  when : Option String := none

/-- What `collect_plugin_refs` pushes. -/
def collectPluginRefs (refs : List PluginRouteRef) (routeWhen : Option String) :
    List ResolvedPlugin :=
  refs.map fun ref => ⟨ref.pluginName, ref.overrides, routeWhen⟩

/-- The loop that pushes the plugins whose name was not seen yet. -/
def pushUnseen (seen : List String) : List ResolvedPlugin → List ResolvedPlugin
  | [] => []
  | rp :: rest =>
    if rp.name ∈ seen then pushUnseen seen rest else rp :: pushUnseen (rp.name :: seen) rest

/-- Deduplication by name, scanning from the end: the last mention of a plugin wins. -/
def dedupByName (resolved : List ResolvedPlugin) : List ResolvedPlugin :=
  (pushUnseen [] resolved.reverse).reverse

/-- The plugins of a named group, none if it does not exist. -/
def groupPlugins (groups : HashMap String PolicyGroup) (name : String) : List ResolvedPlugin :=
  match groups.lookup name with
  | none => []
  | some group => collectPluginRefs group.plugins none

/-- What the matched route contributes: the groups of the merged tags, in the order of the
    set, and then the route's own plugins. -/
def routePlugins (config : CpexConfig) (hash : HashOrder) (requestTags : Finset String)
    (route : RouteEntry) : List ResolvedPlugin :=
  let mergedTags := (routeStaticTags route).foldl (fun s tag => insert tag s) requestTags
  (hash.iter mergedTags).flatMap (fun tag =>
      if tag = "all" then [] else groupPlugins config.global.policies tag) ++
    collectPluginRefs route.plugins route.when

/-- `resolve_plugins_for_entity`. -/
def resolvePluginsForEntity (config : CpexConfig) (hash : HashOrder)
    (entityType entityName : String) (requestScope : Option String)
    (requestTags : Finset String) : List ResolvedPlugin :=
  if config.routingEnabled then
    dedupByName <|
      groupPlugins config.global.policies "all" ++
        groupPlugins config.global.defaults entityType ++
        match findMatchingRoute config entityType entityName requestScope with
        | none => []
        | some (route, _) => routePlugins config hash requestTags route
  else config.plugins.map fun p => ⟨p.name, none, none⟩

/-- The steps of an optional `authentication:` block. -/
def identitySteps (identity : Option RouteIdentityConfig) : List RouteIdentityStep :=
  (identity.map (·.steps)).getD []

/-- The authentication steps of a named group. -/
def bundleSteps (config : CpexConfig) (tag : String) : List RouteIdentityStep :=
  match config.global.policies.lookup tag with
  | none => []
  | some bundle => identitySteps bundle.identity

/-- The resolved form of a step: its override goes under `config`, where
    `create_override_instance` looks for it. -/
def RouteIdentityStep.resolve (step : RouteIdentityStep) : ResolvedPlugin where
  name := step.name
  configOverrides := step.configOverride.map fun cfg => .object [("config", cfg)]

/-- The layers a route inherits: global, then one per static tag. -/
def inheritedSteps (config : CpexConfig) (route : Option RouteEntry) : List RouteIdentityStep :=
  identitySteps config.global.identity ++
    match route with
    | none => []
    | some route => (routeStaticTags route).flatMap (bundleSteps config)

/-- `resolve_identity_plugins_for_route`. -/
def resolveIdentityPluginsForRoute (config : CpexConfig) (entityType entityName : String)
    (requestScope : Option String) : List ResolvedPlugin :=
  let route := (findMatchingRoute config entityType entityName requestScope).map Prod.fst
  let routeIdentity := route.bind (·.identity)
  let replaceInherited := (routeIdentity.map (·.replaceInherited)).getD false
  let inherited := if replaceInherited then [] else inheritedSteps config route
  (inherited ++ identitySteps routeIdentity).map (·.resolve)

end Cpex.Core
