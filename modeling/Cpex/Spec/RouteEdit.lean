import Cpex.Spec.Annotations
import Cpex.Spec.Layers

/-! # Editing the tags of a route

The tags and groups of one route are replaced (`RouteEntry.retag`). This file follows the edit
through the three resolvers that read them: the plugins and the authentication steps of a
request, and the policy compiled for the route when it is visited.
-/

namespace Cpex.Core

/-! ### The edit -/

namespace RouteEntry

/-- The route with other tags and groups. -/
def retag (route : RouteEntry) (tags : List String) (groups : Option StringOrList) : RouteEntry :=
  { route with «meta» := some { route.meta.getD {} with tags }, groups }

variable (route : RouteEntry) (tags : List String) (groups : Option StringOrList)

@[simp] theorem retag_metaTags : (route.retag tags groups).metaTags = tags := rfl

@[simp] theorem retag_scope : (route.retag tags groups).scope = route.scope := by
  unfold retag scope
  cases route.meta <;> rfl

@[simp] theorem retag_identity : (route.retag tags groups).identity = route.identity := rfl

theorem routeScore_retag (entityType entityName : String) (requestScope : Option String) :
    routeScore entityType entityName requestScope (route.retag tags groups) =
      routeScore entityType entityName requestScope route := by
  unfold routeScore
  rw [retag_scope]
  rfl

/-- The names of a route's `groups:`. -/
def groupNames : List String := (route.groups.map (·.asNames)).getD []

/-- Whether the route opts out of inherited authentication. -/
def replaceInherited : Bool := (route.identity.map (·.replaceInherited)).getD false

end RouteEntry

/-- The configuration with another route at position `i`. -/
def CpexConfig.setRoute (config : CpexConfig) (i : Nat) (route : RouteEntry) : CpexConfig :=
  { config with routes := config.routes.set i route }

section
variable {config : CpexConfig} {i : Nat} {route : RouteEntry} {tags : List String}
  {groups : Option StringOrList}

variable (hi : config.routes[i]? = some route)
include hi

/-- The scan selects the same position. -/
theorem findMatchingRoute_setRoute (entityType entityName : String) (scope : Option String) :
    findMatchingRoute (config.setRoute i (route.retag tags groups)) entityType entityName scope =
      (findMatchingRoute config entityType entityName scope).map fun r =>
        if r.2 = i then (route.retag tags groups, i) else r := by
  unfold findMatchingRoute CpexConfig.setRoute
  rw [List.zipIdx_set]
  refine List.firstBest_map fun r hr => ?_
  have hr' := List.mk_mem_zipIdx_iff_getElem?.mp hr
  split
  · rename_i hri
    rw [hri, hi] at hr'
    cases hr'
    exact RouteEntry.routeScore_retag _ _ _ _ _ _
  · rfl

variable {entityType entityName : String} {scope : Option String}

/-- A request to another route, or to none, does not notice. -/
theorem findMatchingRoute_setRoute_of_ne
    (h : findMatchingRoute config entityType entityName scope ≠ some (route, i)) :
    findMatchingRoute (config.setRoute i (route.retag tags groups)) entityType entityName scope =
      findMatchingRoute config entityType entityName scope := by
  rw [findMatchingRoute_setRoute hi]
  cases hfound : findMatchingRoute config entityType entityName scope with
  | none => rfl
  | some r =>
    have hne : r.2 ≠ i := by
      intro hri
      have hmem := (List.mem_of_firstBest hfound).1
      have hr := List.mk_mem_zipIdx_iff_getElem?.mp hmem
      rw [hri, hi] at hr
      cases hr
      exact h (by rw [hfound, ← hri])
    rw [Option.map_some, if_neg hne]

theorem findMatchingRoute_setRoute_of_eq
    (h : findMatchingRoute config entityType entityName scope = some (route, i)) :
    findMatchingRoute (config.setRoute i (route.retag tags groups)) entityType entityName scope =
      some (route.retag tags groups, i) := by
  rw [findMatchingRoute_setRoute hi, h, Option.map_some, if_pos rfl]

/-! ### Plugins and authentication steps -/

omit hi in
theorem routeStaticTags_eq (route : RouteEntry) :
    routeStaticTags route = route.metaTags ++ route.groupNames := rfl

/-- The plugins of a request depend on the set of merged tags. -/
theorem resolvePlugins_setRoute (hash : HashOrder)
    (h : findMatchingRoute config entityType entityName scope = some (route, i) →
      ∀ x, x ∈ routeStaticTags (route.retag tags groups) ∨ x ∈ requestTags ↔
        x ∈ routeStaticTags route ∨ x ∈ requestTags) :
    resolvePluginsForEntity (config.setRoute i (route.retag tags groups)) hash entityType
        entityName scope requestTags =
      resolvePluginsForEntity config hash entityType entityName scope requestTags := by
  unfold resolvePluginsForEntity
  by_cases hsel : findMatchingRoute config entityType entityName scope = some (route, i)
  · have hmerged : (routeStaticTags (route.retag tags groups)).foldl (fun s tag => insert tag s)
        requestTags = (routeStaticTags route).foldl (fun s tag => insert tag s) requestTags := by
      ext x
      rw [List.mem_foldl_insert, List.mem_foldl_insert]
      exact h hsel x
    have hplugins : routePlugins (config.setRoute i (route.retag tags groups)) hash requestTags
        (route.retag tags groups) = routePlugins config hash requestTags route := by
      unfold routePlugins
      rw [hmerged]
      rfl
    rw [findMatchingRoute_setRoute_of_eq hi hsel, hsel]
    dsimp only
    rw [hplugins]
    rfl
  · rw [findMatchingRoute_setRoute_of_ne hi hsel]
    rfl

omit hi in
/-- The authentication steps of a request to a given route. -/
theorem resolveIdentity_of_selected
    (h : findMatchingRoute config entityType entityName scope = some (route, i)) :
    resolveIdentityPluginsForRoute config entityType entityName scope =
      ((if route.replaceInherited then [] else
          identitySteps config.global.identity ++
            (routeStaticTags route).flatMap (bundleSteps config)) ++
        identitySteps route.identity).map RouteIdentityStep.resolve := by
  unfold resolveIdentityPluginsForRoute
  rw [h]
  rfl

/-- The authentication steps after the edit are those before it, exactly if the route inherits
    none or its static tags contribute the same. -/
theorem resolveIdentity_setRoute_iff
    (h : findMatchingRoute config entityType entityName scope = some (route, i)) :
    resolveIdentityPluginsForRoute (config.setRoute i (route.retag tags groups)) entityType
        entityName scope =
      resolveIdentityPluginsForRoute config entityType entityName scope ↔
    (route.replaceInherited = false →
      ((routeStaticTags (route.retag tags groups)).flatMap (bundleSteps config)).map
          RouteIdentityStep.resolve =
        ((routeStaticTags route).flatMap (bundleSteps config)).map RouteIdentityStep.resolve) := by
  have hbundle : bundleSteps (config.setRoute i (route.retag tags groups)) = bundleSteps config :=
    rfl
  have hglobal : (config.setRoute i (route.retag tags groups)).global = config.global := rfl
  have hreplace : (route.retag tags groups).replaceInherited = route.replaceInherited := rfl
  rw [resolveIdentity_of_selected (findMatchingRoute_setRoute_of_eq hi h),
    resolveIdentity_of_selected h, hbundle, hglobal, hreplace, RouteEntry.retag_identity]
  cases route.replaceInherited with
  | true => simp
  | false =>
    simp only [Bool.false_eq_true, if_false, List.map_append, List.append_assoc,
      List.append_cancel_left_eq, List.append_cancel_right_eq, true_implies]

/-- A request that does not select the route keeps its authentication steps. -/
theorem resolveIdentity_setRoute_of_ne
    (h : findMatchingRoute config entityType entityName scope ≠ some (route, i)) :
    resolveIdentityPluginsForRoute (config.setRoute i (route.retag tags groups)) entityType
        entityName scope =
      resolveIdentityPluginsForRoute config entityType entityName scope := by
  unfold resolveIdentityPluginsForRoute
  rw [findMatchingRoute_setRoute_of_ne hi h]
  rfl

end

/-! ### Where layers come from -/

/-- The layers of a list of tags. -/
def tagLayersOf (state : VisitorState) (tags : List String) : List CompiledRoute :=
  tags.filterMap fun tag => (state.tagLayers.lookup tag).map (·.route)

theorem inheritedLayers_append :
    inheritedLayers state entityType (tags ++ more) =
      inheritedLayers state entityType tags ++ tagLayersOf state more := by
  unfold inheritedLayers tagLayersOf
  rw [List.filterMap_append, ← List.append_assoc]

theorem bundleSource_injective (h : bundleSource g = bundleSource g') : g = g' := by
  unfold bundleSource at h
  rw [String.append_left_inj, String.append_right_inj] at h
  exact h

-- The sources of the three kinds of layers differ at their eighth character.
theorem bundleSource_ne_global (g : String) : bundleSource g ≠ "global.apl" := by
  simp [bundleSource, ← String.toList_inj]

theorem bundleSource_ne_default (g entityType : String) :
    bundleSource g ≠ defaultSource entityType := by
  simp [bundleSource, defaultSource, ← String.toList_inj]

/-- An inherited layer was compiled under a source that is not the one of a tag the route does
    not carry. -/
theorem exists_layer_of_inherited (h : l ∈ inheritedLayers state entityType tags) :
    ∃ source, (∃ layer : Layer source, layer.route = l) ∧
      ∀ g, g ∉ tags → bundleSource g ≠ source := by
  simp only [inheritedLayers, List.mem_append, Option.mem_toList, Option.map_eq_some_iff,
    List.mem_filterMap] at h
  rcases h with (⟨layer, _, hl⟩ | ⟨layer, _, hl⟩) | ⟨tag, htag, layer, _, hl⟩
  · exact ⟨_, ⟨layer, hl⟩, fun g _ => bundleSource_ne_global g⟩
  · exact ⟨_, ⟨layer, hl⟩, fun g _ => bundleSource_ne_default g entityType⟩
  · refine ⟨_, ⟨layer, hl⟩, fun g hg hsource => hg ?_⟩
    rw [bundleSource_injective hsource]
    exact htag

/-- The rules of the layers of new tags are not among those of the inherited layers. -/
theorem rules_disjoint (hnew : ∀ g ∈ more, g ∉ tags) (hl : l ∈ tagLayersOf state more)
    (hl' : l' ∈ inheritedLayers state entityType tags) :
    (∀ rule ∈ l.args, rule ∉ l'.args) ∧ ∀ rule ∈ l.result, rule ∉ l'.result := by
  obtain ⟨g, hg, hlayer⟩ := List.mem_filterMap.mp hl
  obtain ⟨layer, _, rfl⟩ := Option.map_eq_some_iff.mp hlayer
  obtain ⟨source, ⟨layer', rfl⟩, hsource⟩ := exists_layer_of_inherited hl'
  have hne := hsource g (hnew g hg)
  constructor
  · intro rule hrule hrule'
    have heq := (layer.args_source rule hrule).symm.trans (layer'.args_source rule hrule')
    simp only [String.append_left_inj] at heq
    exact hne heq
  · intro rule hrule hrule'
    have heq := (layer.result_source rule hrule).symm.trans (layer'.result_source rule hrule')
    simp only [String.append_left_inj] at heq
    exact hne heq

/-! ### The policy of a route -/

section
variable [Platform] [PolicyParser]

/-- A route's own block, compiled for one entity; without a block it declares nothing. -/
def ownLayer (yaml : Yaml) (key : String) : Except ParseError CompiledRoute :=
  match aplSubblock yaml with
  | none => .ok (CompiledRoute.new key)
  | some block => compilePolicyBlockValue ("routes." ++ key ++ ".apl") block

omit [Platform] [PolicyParser] in
theorem applyLayer_new (r : CompiledRoute) (key : String) :
    r.applyLayer (CompiledRoute.new key) = r := by
  simp [CompiledRoute.applyLayer, CompiledRoute.new, CompiledRoute.layerFields,
    CompiledRoute.extendMap]

variable {state : VisitorState} {yaml : Yaml} {parsed : RouteEntry} {entityType entityName : String}

/-- The effective policy is the route's own block on top of the inherited layers. -/
theorem effectiveRoute_eq_stack :
    effectiveRoute state yaml parsed entityType entityName =
      (ownLayer yaml (routeKey entityType entityName parsed.scope)).map fun own =>
        { CompiledRoute.stack (routeKey entityType entityName parsed.scope)
            (inheritedLayers state entityType parsed.metaTags) own with
          response := responseSubblock yaml } := by
  unfold effectiveRoute ownLayer CompiledRoute.stack
  cases aplSubblock yaml with
  | none =>
    dsimp only [Except.map]
    rw [applyLayer_new]
    rfl
  | some block =>
    cases compilePolicyBlockValue
      ("routes." ++ routeKey entityType entityName parsed.scope ++ ".apl") block <;> rfl

/-- The YAML of a route in which only `groups` and `meta` were rewritten. -/
def SameBlock (yaml yaml' : Yaml) : Prop :=
  ∀ key, key ≠ "groups" → key ≠ "meta" → yaml'.get key = yaml.get key

variable {yaml' : Yaml}

omit [Platform] [PolicyParser] in
theorem SameBlock.aplSubblock (h : SameBlock yaml yaml') :
    aplSubblock yaml' = aplSubblock yaml := by
  have hkeys : ∀ key ∈ flatAplKeys, key ≠ "groups" ∧ key ≠ "meta" := by decide
  have hflat : flatBlock yaml' = flatBlock yaml := by
    have hcopy : flatAplKeys.foldl (copyKey yaml') [] = flatAplKeys.foldl (copyKey yaml) [] :=
      List.foldl_ext _ _ _ fun block key hkey => by
        unfold copyKey
        rw [h key (hkeys key hkey).1 (hkeys key hkey).2]
    unfold flatBlock
    rw [hcopy, h "plugins" (by decide) (by decide)]
  unfold Core.aplSubblock
  rw [h "apl" (by decide) (by decide), hflat]

omit [Platform] in
theorem SameBlock.responseSubblock (h : SameBlock yaml yaml') :
    responseSubblock yaml' = responseSubblock yaml := by
  unfold Core.responseSubblock responseYamlBlock
  rw [h "response" (by decide) (by decide), h "apl" (by decide) (by decide)]

/-- Two outcomes of visiting an entity that install the same: nothing, or the same policy. -/
def PolicyAlike : Except String (Option CompiledRoute) → Except String (Option CompiledRoute) → Prop
  | .ok none, .ok none => True
  | .ok (some a), .ok (some b) => a.SamePolicy b
  | .error e, .error e' => e = e'
  | _, _ => False

variable {modeFor : String → Option PluginMode}

omit [Platform] [PolicyParser] in
theorem validateParallelPluginModes_congr {a : CompiledRoute} (h : a.SamePolicy b)
    (modeFor : String → Option PluginMode) :
    validateParallelPluginModes a modeFor = validateParallelPluginModes b modeFor := by
  unfold validateParallelPluginModes
  rw [h.routeKey, h.policy, h.postPolicy]

/-- Next to a visit that succeeded, a visit with another effective policy installs the same
    exactly if the two policies are alike. -/
theorem policyAlike_iff_installedAlike
    (h : effectiveRoute state yaml parsed entityType entityName = .ok effective)
    (hok : entityPolicy modeFor state yaml parsed entityType entityName = .ok policy)
    (h' : effectiveRoute state' yaml' parsed' entityType entityName = .ok effective') :
    PolicyAlike (entityPolicy modeFor state' yaml' parsed' entityType entityName) (.ok policy) ↔
      effective'.InstalledAlike effective := by
  obtain ⟨_, heff, hcase⟩ := entityPolicy_ok hok
  cases h.symm.trans heff
  unfold entityPolicy
  rw [h']
  dsimp only
  rcases hcase with ⟨hnothing, rfl⟩ | ⟨hnothing, hmodes, rfl⟩
  · by_cases hnothing' : effective'.declaresNothing = true
    · rw [if_pos hnothing']
      exact iff_of_true trivial (.inl ⟨hnothing', hnothing⟩)
    · rw [if_neg hnothing']
      refine iff_of_false (fun halike => ?_) (fun halike => ?_)
      · split at halike <;> exact halike
      · exact hnothing' (halike.elim (·.1) (·.declaresNothing.trans hnothing))
  · by_cases hnothing' : effective'.declaresNothing = true
    · rw [if_pos hnothing']
      refine iff_of_false (fun halike => halike) (fun halike => ?_)
      rcases halike with ⟨_, h⟩ | hsame
      · rw [hnothing] at h
        cases h
      · rw [hsame.declaresNothing, hnothing] at hnothing'
        cases hnothing'
    · rw [if_neg hnothing']
      constructor
      · intro halike
        split at halike
        · exact halike.elim
        · exact .inr halike
      · rintro (⟨h, _⟩ | hsame)
        · exact absurd h hnothing'
        · rw [validateParallelPluginModes_congr hsame, hmodes]
          exact hsame

/-- The policy installed for an entity of the route stays as it was, exactly when the layers of
    the tags added to the route add nothing. -/
theorem policyAlike_iff_addsNothing (hyaml : SameBlock yaml yaml')
    (hnew : ∀ g ∈ more, g ∉ route.metaTags) {groups : Option StringOrList}
    (hok : entityPolicy modeFor state yaml route entityType entityName = .ok policy) :
    PolicyAlike (entityPolicy modeFor state yaml' (route.retag (route.metaTags ++ more) groups)
        entityType entityName) (.ok policy) ↔
      ∀ own, ownLayer yaml (routeKey entityType entityName route.scope) = .ok own →
        CompiledRoute.AddsNothing (inheritedLayers state entityType route.metaTags)
          (tagLayersOf state more) own := by
  obtain ⟨effective, heff, _⟩ := entityPolicy_ok hok
  have heff' := heff
  rw [effectiveRoute_eq_stack] at heff'
  cases hown : ownLayer yaml (routeKey entityType entityName route.scope) with
  | error e => rw [hown] at heff'; exact nomatch heff'
  | ok own =>
    rw [hown] at heff'
    cases heff'
    have hafter : effectiveRoute state yaml' (route.retag (route.metaTags ++ more) groups)
        entityType entityName = .ok
        { CompiledRoute.stack (routeKey entityType entityName route.scope)
            (inheritedLayers state entityType route.metaTags ++ tagLayersOf state more) own with
          response := responseSubblock yaml } := by
      rw [effectiveRoute_eq_stack, RouteEntry.retag_scope, RouteEntry.retag_metaTags,
        inheritedLayers_append, hyaml.responseSubblock]
      have hown' : ownLayer yaml' (routeKey entityType entityName route.scope) = .ok own := by
        rw [← hown]
        unfold ownLayer
        rw [hyaml.aplSubblock]
      rw [hown']
      rfl
    rw [policyAlike_iff_installedAlike heff hok hafter, CompiledRoute.installedAlike_response
      (CompiledRoute.stack_response.trans CompiledRoute.stack_response.symm)]
    constructor
    · rintro halike _ ⟨⟩
      exact CompiledRoute.addsNothing_of_installedAlike
        (fun l hl l' hl' => (rules_disjoint hnew hl hl').1)
        (fun l hl l' hl' => (rules_disjoint hnew hl hl').2) halike
    · intro hadds
      exact (hadds own rfl).installedAlike

end

end Cpex.Core
