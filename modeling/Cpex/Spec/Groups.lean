import Cpex.Spec.PluginResolution
import Cpex.Spec.RouteEdit

/-! # Joining a group

A group is joined by a tag of the route (`meta.tags`), by its name in the route's `groups:`, by
a tag the host puts on the request, or, for `all`, by every request. Three resolvers read group
membership, and each reads it differently: the plugin resolver knows all four ways, the
authentication resolver the first two, and the APL visitor the first only.
-/

namespace Cpex.Core

variable {η : Type} {host : Host η} {manager loaded : PluginManager η} {raw : Yaml}
  {state : VisitorState} {config : CpexConfig}

section
variable [Platform] [PolicyParser]

/-- The policy of every entity the route names is the same before and after an edit. -/
def SamePolicies (modeFor : String → Option PluginMode) (state : VisitorState)
    (yaml yaml' : Yaml) (route route' : RouteEntry) : Prop :=
  ∀ entityType names, entityIdentity route = some (entityType, names) → ∀ name ∈ names,
    PolicyAlike (entityPolicy modeFor state yaml' route' entityType name)
      (entityPolicy modeFor state yaml route entityType name)

/-- The layers of the groups `more`, put under the route's own block, add nothing for any entity
    the route names. -/
def GroupsAddNothing (state : VisitorState) (yaml : Yaml) (route : RouteEntry)
    (more : List String) : Prop :=
  ∀ entityType names, entityIdentity route = some (entityType, names) → ∀ name ∈ names,
    ∀ own, ownLayer yaml (routeKey entityType name route.scope) = .ok own →
      CompiledRoute.AddsNothing (inheritedLayers state entityType route.metaTags)
        (tagLayersOf state more) own

theorem samePolicies_iff (hl : Loaded self modeFor raw runtime state config)
    (hi : config.routes[i]? = some route) (hyaml : SameBlock (routeYamlAt raw i) yaml')
    (hnew : ∀ g ∈ more, g ∉ route.metaTags) (groups : Option StringOrList) :
    SamePolicies modeFor state (routeYamlAt raw i) yaml' route
        (route.retag (route.metaTags ++ more) groups) ↔
      GroupsAddNothing state (routeYamlAt raw i) route more := by
  refine forall_congr' fun entityType => forall_congr' fun names => forall_congr' fun hid =>
    forall₂_congr fun name hname => ?_
  obtain ⟨policy, hpolicy⟩ := hl.exists_entityPolicy hi hid hname
  rw [hpolicy]
  exact policyAlike_iff_addsNothing hyaml hnew hpolicy

/-! ### `groups:` written as tags -/

/-- The route with the names of `groups:` added to its tags, as a set. -/
def RouteEntry.groupsAsTags (route : RouteEntry) : RouteEntry :=
  route.retag (route.metaTags ++ route.metaTags.unseen route.groupNames) none

omit [Platform] [PolicyParser] in
theorem routeStaticTags_groupsAsTags (route : RouteEntry) :
    routeStaticTags route.groupsAsTags =
      route.metaTags ++ route.metaTags.unseen route.groupNames := by
  exact List.append_nil _

omit [Platform] [PolicyParser] in
/-- The groups contribute the same authentication steps, exactly if those that were named twice
    have none. -/
theorem staticSteps_groupsAsTags_iff (config : CpexConfig) (route : RouteEntry) :
    ((routeStaticTags route.groupsAsTags).flatMap (bundleSteps config)).map
          RouteIdentityStep.resolve =
        ((routeStaticTags route).flatMap (bundleSteps config)).map RouteIdentityStep.resolve ↔
      ∀ g ∈ route.groupNames, g ∈ route.metaTags ∨ 1 < route.groupNames.count g →
        bundleSteps config g = [] := by
  rw [routeStaticTags_groupsAsTags, routeStaticTags_eq, List.flatMap_append, List.flatMap_append,
    List.map_append, List.map_append, List.append_cancel_left_eq, ← List.flatMap_unseen_eq_iff]
  constructor
  · intro h
    have hlen := congrArg List.length h
    rw [List.length_map, List.length_map] at hlen
    exact ((List.unseen_sublist route.metaTags route.groupNames).flatMap _).eq_of_length hlen
  · intro h
    rw [h]

/-- Writing `groups:` as tags changes nothing that is resolved or installed, exactly if no group
    with authentication steps was named twice and the policies of the groups add nothing. -/
theorem groupsAsTags_iff (hloads : Loads host manager raw loaded state config) {i : Nat}
    {route : RouteEntry} (hi : config.routes[i]? = some route) {yaml' : Yaml}
    (hyaml : SameBlock (routeYamlAt raw i) yaml') :
    ((∀ hash entityType entityName scope tags,
          resolvePluginsForEntity (config.setRoute i route.groupsAsTags) hash entityType
              entityName scope tags =
            resolvePluginsForEntity config hash entityType entityName scope tags) ∧
        (∀ entityType entityName scope,
          resolveIdentityPluginsForRoute (config.setRoute i route.groupsAsTags) entityType
              entityName scope =
            resolveIdentityPluginsForRoute config entityType entityName scope) ∧
        SamePolicies loaded.modeFor state (routeYamlAt raw i) yaml' route route.groupsAsTags) ↔
      ((∃ entityType entityName scope,
          findMatchingRoute config entityType entityName scope = some (route, i)) →
        route.replaceInherited = false → ∀ g ∈ route.groupNames,
          g ∈ route.metaTags ∨ 1 < route.groupNames.count g → bundleSteps config g = []) ∧
      GroupsAddNothing state (routeYamlAt raw i) route
        (route.metaTags.unseen route.groupNames) := by
  have hl := hloads.toLoaded
  have hpolicies : SamePolicies loaded.modeFor state (routeYamlAt raw i) yaml' route
      route.groupsAsTags ↔ _ :=
    samePolicies_iff hl hi hyaml (fun g hg => (List.mem_unseen.mp hg).2) none
  rw [hpolicies]
  constructor
  · rintro ⟨_, hidentity, hadds⟩
    refine ⟨?_, hadds⟩
    rintro ⟨entityType, entityName, scope, hselected⟩ hinherits
    rw [← staticSteps_groupsAsTags_iff]
    exact (resolveIdentity_setRoute_iff hi hselected).mp (hidentity _ _ _) hinherits
  · rintro ⟨hsteps, hadds⟩
    refine ⟨fun hash entityType entityName scope tags => ?_,
      fun entityType entityName scope => ?_, hadds⟩
    · -- The plugin resolver reads the set of tags, whichever way they are spelt.
      refine resolvePlugins_setRoute hi hash fun _ x => ?_
      have hspelling : x ∈ routeStaticTags route.groupsAsTags ↔ x ∈ routeStaticTags route := by
        rw [routeStaticTags_groupsAsTags, routeStaticTags_eq, List.mem_append, List.mem_append,
          List.mem_unseen]
        tauto
      exact or_congr_left hspelling
    · by_cases hselected :
          findMatchingRoute config entityType entityName scope = some (route, i)
      · refine (resolveIdentity_setRoute_iff hi hselected).mpr fun hinherits => ?_
        exact (staticSteps_groupsAsTags_iff config route).mpr
          (hsteps ⟨_, _, _, hselected⟩ hinherits)
      · exact resolveIdentity_setRoute_of_ne hi hselected

end

section
attribute [local instance] Platform.bare PolicyParser.denying

/-- A group with one authentication step. -/
def jwtGroup : PolicyGroup where
  identity := some { steps := [{ name := "jwt" }] }

/-- One group, and one route. -/
def payrollConfig (group : String) (route : RouteEntry) : CpexConfig where
  global := { policies := AList.singleton group jwtGroup }
  routes := [route]
  pluginSettings := { routingEnabled := true }

/-- The route for the tool `payroll`. -/
def payrollRoute (tags : List String) (groups : Option StringOrList) : RouteEntry where
  tool := some (.single "payroll")
  «meta» := some { tags }
  groups

/-- The YAML of a route for the tool `payroll` with further keys. -/
def payrollYaml (keys : List (Yaml × Yaml)) : Yaml :=
  .mapping ((.string "tool", .string "payroll") :: keys)

/-- The section of the group is `block`. -/
def payrollDocument (group : String) (block keys : List (Yaml × Yaml)) : Yaml :=
  .mapping
    [(.string "global", .mapping
        [(.string "policies", .mapping [(.string group, .mapping block)])]),
      (.string "routes", .sequence [payrollYaml keys])]

/-- A policy that denies. -/
def denyBlock : List (Yaml × Yaml) := [(.string "pre_invocation", .sequence [.string "deny"])]

def denyLayer (group : String) : Layer (bundleSource group) where
  route := { CompiledRoute.new (bundleSource group) with policy := [.deny none none] }
  args_source _ h := nomatch h
  result_source _ h := nomatch h

def denyState (group : String) : VisitorState where
  tagLayers := AList.singleton group (denyLayer group)

/-- A request about the tool. -/
def payrollEntity (tags : Finset String) : EntityRef := ⟨"tool", "payroll", none, tags⟩

/-- A fresh manager loads the document of a group and a route. -/
def LoadsPayroll (group : String) (route : RouteEntry) (block keys : List (Yaml × Yaml))
    (state : VisitorState) (loaded : PluginManager Unit) : Prop :=
  Loads (.bare (payrollConfig group route)) .fresh (payrollDocument group block keys) loaded state
    (payrollConfig group route)

/-- The route joins `pii` by `groups:`. -/
def joinedRoute : RouteEntry := payrollRoute [] (some (.single "pii"))

/-- The keys of a route that joins `pii`, by `groups:` and by a tag. -/
def groupsKey : List (Yaml × Yaml) := [(.string "groups", .string "pii")]

def tagsKey : List (Yaml × Yaml) :=
  [(.string "meta", .mapping [(.string "tags", .sequence [.string "pii"])])]

theorem sameBlock_tagsKey (h : keys = [] ∨ keys = groupsKey) :
    SameBlock (payrollYaml keys) (payrollYaml tagsKey) := by
  intro key hgroups hmeta
  have hne : ("groups" == key) = false := beq_false_of_ne (Ne.symm hgroups)
  have hne' : ("meta" == key) = false := beq_false_of_ne (Ne.symm hmeta)
  rcases h with rfl | rfl <;>
    simp [payrollYaml, groupsKey, tagsKey, Yaml.get, Yaml.asMapping, Yaml.untag, Yaml.lookupKey,
      Yaml.isKey, List.find?_cons, hne, hne']

theorem loads_joined :
    ∃ loaded, LoadsPayroll "pii" joinedRoute denyBlock groupsKey (denyState "pii") loaded :=
  ⟨_, rfl, rfl, rfl, rfl⟩

/-- A group without a policy may be written either way. -/
theorem groupsAsTags_without_policy :
    ∃ loaded, LoadsPayroll "pii" joinedRoute [] groupsKey {} loaded ∧
      SamePolicies loaded.modeFor {} (payrollYaml groupsKey) (payrollYaml tagsKey)
        joinedRoute (payrollRoute ["pii"] none) := by
  obtain ⟨loaded, hloads⟩ : ∃ loaded, LoadsPayroll "pii" joinedRoute [] groupsKey {} loaded :=
    ⟨_, rfl, rfl, rfl, rfl⟩
  have hi : (payrollConfig "pii" joinedRoute).routes[0]? =
      some joinedRoute := rfl
  have hyaml : SameBlock (routeYamlAt (payrollDocument "pii" [] groupsKey) 0)
      (payrollYaml tagsKey) := sameBlock_tagsKey (.inr rfl)
  refine ⟨loaded, hloads, ?_⟩
  refine ((groupsAsTags_iff hloads hi hyaml).mpr
    ⟨fun _ _ g hg hdup => ?_, fun _ _ _ _ _ _ _ => CompiledRoute.addsNothing_nil⟩).2.2
  cases List.mem_singleton.mp hg
  exact absurd hdup (by decide)

/-- The policy of `pii` denies. The route joins the group by `groups:` and has no policy; with
    the group's name among its tags it would have the group's. -/
theorem groups_without_policy_of_tags :
    ∃ loaded, LoadsPayroll "pii" joinedRoute denyBlock groupsKey (denyState "pii") loaded ∧
      entityPolicy loaded.modeFor (denyState "pii") (payrollYaml groupsKey)
        joinedRoute "tool" "payroll" = .ok none ∧
      SameBlock (payrollYaml groupsKey) (payrollYaml tagsKey) ∧
      ¬ SamePolicies loaded.modeFor (denyState "pii") (payrollYaml groupsKey)
        (payrollYaml tagsKey) joinedRoute
        joinedRoute.groupsAsTags := by
  obtain ⟨loaded, hloads⟩ := loads_joined
  refine ⟨loaded, hloads, rfl, sameBlock_tagsKey (.inr rfl), fun hsame => ?_⟩
  exact hsame "tool" ["payroll"] rfl "payroll" List.mem_cons_self

end

section
variable [Platform] [PolicyParser]

/-! ### Tags of the request -/

/-- The route with the tag `g`, if it is not one of its static tags already. -/
def RouteEntry.joining (route : RouteEntry) (g : String) : RouteEntry :=
  route.retag (route.metaTags ++ (routeStaticTags route).unseen [g]) route.groups

omit [Platform] [PolicyParser] in
theorem routeStaticTags_joining (route : RouteEntry) (g : String) :
    routeStaticTags (route.joining g) =
      route.metaTags ++ (routeStaticTags route).unseen [g] ++ route.groupNames := rfl

omit [Platform] [PolicyParser] in
/-- The new tag contributes no authentication steps, exactly if there are none in its group. -/
theorem staticSteps_joining_iff (config : CpexConfig) (route : RouteEntry) (g : String) :
    ((routeStaticTags (route.joining g)).flatMap (bundleSteps config)).map
          RouteIdentityStep.resolve =
        ((routeStaticTags route).flatMap (bundleSteps config)).map RouteIdentityStep.resolve ↔
      (g ∉ routeStaticTags route → bundleSteps config g = []) := by
  have hunseen : ((routeStaticTags route).unseen [g]).flatMap (bundleSteps config) = [] ↔
      (g ∉ routeStaticTags route → bundleSteps config g = []) := by
    rw [List.flatMap_eq_nil_iff]
    simp only [List.mem_unseen, List.mem_singleton, and_imp, forall_eq]
  rw [← hunseen, routeStaticTags_joining, routeStaticTags_eq route]
  simp only [List.flatMap_append, List.map_append, List.append_assoc,
    List.append_cancel_left_eq]
  constructor
  · intro h
    have hlen := congrArg List.length h
    rw [List.length_append, List.length_map, List.length_map] at hlen
    exact List.length_eq_zero_iff.mp (by omega)
  · intro h
    rw [h, List.map_nil, List.nil_append]

/-- A tag `g` of the request acts on it as a tag of the selected route would, exactly if it is
    one, or its group has neither authentication steps to add nor a policy that adds anything. -/
theorem runtimeTag_iff (hloads : Loads host manager raw loaded state config) {entity : EntityRef}
    {i : Nat} {route : RouteEntry}
    (hselected : findMatchingRoute config entity.entityType entity.entityName entity.scope =
      some (route, i))
    {g : String} (hg : g ∈ entity.tags) {yaml' : Yaml}
    (hyaml : SameBlock (routeYamlAt raw i) yaml') :
    ((∀ hash,
          resolvePluginsForEntity (config.setRoute i (route.joining g)) hash entity.entityType
              entity.entityName entity.scope entity.tags =
            resolvePluginsForEntity config hash entity.entityType entity.entityName entity.scope
              entity.tags) ∧
        resolveIdentityPluginsForRoute (config.setRoute i (route.joining g)) entity.entityType
            entity.entityName entity.scope =
          resolveIdentityPluginsForRoute config entity.entityType entity.entityName
            entity.scope ∧
        SamePolicies loaded.modeFor state (routeYamlAt raw i) yaml' route (route.joining g)) ↔
      (g ∉ routeStaticTags route →
        (route.replaceInherited = false → bundleSteps config g = []) ∧
        GroupsAddNothing state (routeYamlAt raw i) route [g]) := by
  have hl := hloads.toLoaded
  have hi := List.mk_mem_zipIdx_iff_getElem?.mp (List.mem_of_firstBest hselected).1
  -- The plugin resolver merges the static tags into those of the request.
  have htags (x : String) : x ∈ routeStaticTags (route.joining g) ∨ x ∈ entity.tags ↔
      x ∈ routeStaticTags route ∨ x ∈ entity.tags := by
    rw [routeStaticTags_joining, routeStaticTags_eq, List.mem_append, List.mem_append,
      List.mem_unseen, List.mem_singleton, List.mem_append]
    grind
  have hidentity := (resolveIdentity_setRoute_iff hi hselected).trans
    (imp_congr_right fun _ => staticSteps_joining_iff config route g)
  have hpolicies : SamePolicies loaded.modeFor state (routeYamlAt raw i) yaml' route
      (route.joining g) ↔ GroupsAddNothing state (routeYamlAt raw i) route
        ((routeStaticTags route).unseen [g]) :=
    samePolicies_iff hl hi hyaml
      (fun x hx htag => (List.mem_unseen.mp hx).2 (List.mem_append_left _ htag)) route.groups
  rw [hpolicies]
  refine (and_iff_right fun hash => resolvePlugins_setRoute hi hash fun _ => htags).trans ?_
  refine (and_congr_left' hidentity).trans ?_
  by_cases hin : g ∈ routeStaticTags route
  · have hnone : (routeStaticTags route).unseen [g] = [] := if_pos hin
    rw [hnone]
    refine iff_of_true ⟨fun _ hout => absurd hin hout, ?_⟩ fun hout => absurd hin hout
    exact fun _ _ _ _ _ _ _ => CompiledRoute.addsNothing_nil
  · have hone : (routeStaticTags route).unseen [g] = [g] := if_neg hin
    rw [hone]
    simp only [hin, not_false_eq_true, true_implies]

end

section
attribute [local instance] Platform.bare PolicyParser.denying

/-- A group that denies and has an authentication step, and a route that does not name it: the
    request is not authenticated and no policy is installed for it. -/
structure Unguarded (group : String) (loaded : PluginManager Unit) : Prop where
  loads : LoadsPayroll group (payrollRoute [] none) denyBlock [] (denyState group) loaded
  selected : findMatchingRoute (payrollConfig group (payrollRoute [] none)) "tool" "payroll"
    none = some (payrollRoute [] none, 0)
  steps : resolveIdentityPluginsForRoute (payrollConfig group (payrollRoute [] none)) "tool"
    "payroll" none = []
  policy : entityPolicy loaded.modeFor (denyState group) (payrollYaml []) (payrollRoute [] none)
    "tool" "payroll" = .ok none

theorem exists_unguarded (group : String) : ∃ loaded, Unguarded group loaded :=
  ⟨_, ⟨rfl, rfl, rfl, rfl⟩, rfl, rfl, rfl⟩

/-- On a route that joins `pii` anyway, the tag on the request makes no difference. -/
theorem runtimeTag_of_joined :
    ∃ loaded, LoadsPayroll "pii" joinedRoute denyBlock groupsKey (denyState "pii") loaded ∧
      SamePolicies loaded.modeFor (denyState "pii") (payrollYaml groupsKey)
        (payrollYaml groupsKey) joinedRoute
        (joinedRoute.joining "pii") := by
  obtain ⟨loaded, hloads⟩ := loads_joined
  have hselected : findMatchingRoute (payrollConfig "pii" joinedRoute)
      (payrollEntity {"pii"}).entityType (payrollEntity {"pii"}).entityName
      (payrollEntity {"pii"}).scope = some (joinedRoute, 0) := rfl
  have hyaml : SameBlock (routeYamlAt (payrollDocument "pii" denyBlock groupsKey) 0)
      (payrollYaml groupsKey) := fun _ _ _ => rfl
  have hstatic : "pii" ∈ routeStaticTags joinedRoute := by decide
  exact ⟨loaded, hloads,
    ((runtimeTag_iff hloads hselected (Finset.mem_singleton_self "pii") hyaml).mpr
      fun hout => absurd hstatic hout).2.2⟩

/-- The request carries `pii` and gets nothing of the group. As a tag of the route, `pii` would
    bring the step and the policy. -/
theorem runtimeTag_without_group :
    ∃ loaded, Unguarded "pii" loaded ∧
      entityRef (toolRequest "payroll" {"pii"}) = some (payrollEntity {"pii"}) ∧
      resolveIdentityPluginsForRoute ((payrollConfig "pii" (payrollRoute [] none)).setRoute 0
        ((payrollRoute [] none).joining "pii")) "tool" "payroll" none = [⟨"jwt", none, none⟩] ∧
      SameBlock (payrollYaml []) (payrollYaml tagsKey) ∧
      ¬ SamePolicies loaded.modeFor (denyState "pii") (payrollYaml []) (payrollYaml tagsKey)
        (payrollRoute [] none) ((payrollRoute [] none).joining "pii") := by
  obtain ⟨loaded, hunguarded⟩ := exists_unguarded "pii"
  refine ⟨loaded, hunguarded, rfl, rfl, sameBlock_tagsKey (.inl rfl), fun hsame => ?_⟩
  exact hsame "tool" ["payroll"] rfl "payroll" List.mem_cons_self

end

section
variable [Platform] [PolicyParser]

/-! ### The group `all` -/

omit [Platform] [PolicyParser] in
/-- Deduplication keeps every name. -/
theorem name_mem_dedupByName (h : rp ∈ l) :
    rp.name ∈ (dedupByName l).map (·.name) := by
  rw [dedupByName_eq, List.mem_map_keepLast]
  exact List.mem_map_of_mem h

omit [Platform] [PolicyParser] in
/-- The plugins of `all` are resolved for every request. -/
theorem all_plugins_resolved (hrouting : config.routingEnabled = true)
    (hall : config.global.policies.lookup "all" = some group) (hash : HashOrder)
    (entityType entityName : String) (scope : Option String) (tags : Finset String) :
    ∀ ref ∈ group.plugins, ref.pluginName ∈
      (resolvePluginsForEntity config hash entityType entityName scope tags).map (·.name) := by
  intro ref href
  have hmem : (⟨ref.pluginName, ref.overrides, none⟩ : ResolvedPlugin) ∈
      groupPlugins config.global.policies "all" := by
    unfold groupPlugins
    rw [hall]
    exact List.mem_map.mpr ⟨ref, href, rfl⟩
  unfold resolvePluginsForEntity
  rw [if_pos hrouting]
  exact name_mem_dedupByName (List.mem_append_left _ (List.mem_append_left _ hmem))

/-- A step that a request to the route is given: a global one, one of a group the route joins by
    a static tag, or one of its own. -/
def StepOf (config : CpexConfig) (route : RouteEntry) (step : RouteIdentityStep) : Prop :=
  step ∈ identitySteps config.global.identity ∨
    (∃ tag ∈ routeStaticTags route, step ∈ bundleSteps config tag) ∨
    step ∈ identitySteps route.identity

variable {route : RouteEntry}

omit [Platform] [PolicyParser] in
theorem mem_resolveIdentity_iff
    (hselected : findMatchingRoute config entityType entityName scope = some (route, i))
    (hinherits : route.replaceInherited = false) {rp : ResolvedPlugin} :
    rp ∈ resolveIdentityPluginsForRoute config entityType entityName scope ↔
      ∃ step, StepOf config route step ∧ step.resolve = rp := by
  rw [resolveIdentity_of_selected hselected, hinherits, List.mem_map]
  refine exists_congr fun step => and_congr_left' ?_
  unfold StepOf
  simp only [Bool.false_eq_true, if_false, List.mem_append, List.mem_flatMap, or_assoc]

/-- The policy of `all` is part of the policy of every entity the route names. -/
def PolicyApplies (state : VisitorState) (yaml : Yaml) (route : RouteEntry)
    (layer : CompiledRoute) : Prop :=
  ∀ entityType names, entityIdentity route = some (entityType, names) → ∀ name ∈ names,
    ∃ effective, effectiveRoute state yaml route entityType name = .ok effective ∧
      layer.PartOf effective

/-- What `layer` declares is declared by the layers under the route or by its own block. -/
def DeclaredAnyway (state : VisitorState) (yaml : Yaml) (route : RouteEntry)
    (layer : CompiledRoute) : Prop :=
  ∀ entityType names, entityIdentity route = some (entityType, names) → ∀ name ∈ names,
    ∀ own, ownLayer yaml (routeKey entityType name route.scope) = .ok own →
      layer.DeclaredBy (inheritedLayers state entityType route.metaTags ++ [own])

theorem policyApplies_iff (hl : Loaded self modeFor raw runtime state config)
    (hi : config.routes[i]? = some route) (layer : CompiledRoute) :
    PolicyApplies state (routeYamlAt raw i) route layer ↔
      DeclaredAnyway state (routeYamlAt raw i) route layer := by
  refine forall_congr' fun entityType => forall_congr' fun names => forall_congr' fun hid =>
    forall₂_congr fun name hname => ?_
  obtain ⟨policy, hpolicy⟩ := hl.exists_entityPolicy hi hid hname
  obtain ⟨effective, heff, _⟩ := entityPolicy_ok hpolicy
  rw [effectiveRoute_eq_stack] at heff ⊢
  cases hown : ownLayer (routeYamlAt raw i) (routeKey entityType name route.scope) with
  | error e => rw [hown] at heff; exact nomatch heff
  | ok own =>
    -- The deny response put on the stack is not part of what is compared.
    constructor
    · rintro ⟨_, ⟨⟩, hpart⟩ _ ⟨⟩
      exact CompiledRoute.partOf_stack_iff.mp
        ⟨hpart.policy, hpart.postPolicy, hpart.args, hpart.result⟩
    · intro hdeclared
      have hpart : layer.PartOf (CompiledRoute.stack (routeKey entityType name route.scope)
          (inheritedLayers state entityType route.metaTags) own) :=
        CompiledRoute.partOf_stack_iff.mpr (hdeclared own rfl)
      exact ⟨_, rfl, hpart.policy, hpart.postPolicy, hpart.args, hpart.result⟩

theorem declaredAnyway_of_mem (hlayer : state.tagLayers.lookup g = some layer)
    (hg : g ∈ route.metaTags) (yaml : Yaml) :
    DeclaredAnyway state yaml route layer.route := by
  intro entityType names _ name _ own _
  refine CompiledRoute.declaredBy_of_mem (List.mem_append_left _ (List.mem_append_right _ ?_))
  exact List.mem_filterMap.mpr ⟨g, hg, by rw [hlayer]; rfl⟩

/-- What `all` has is part of what a request to an inheriting route gets, exactly if the route
    names `all` where the resolver reads it, or has the same from elsewhere. Its plugins always
    are. -/
theorem all_applies_iff (hloads : Loads host manager raw loaded state config)
    (hrouting : config.routingEnabled = true) {group : PolicyGroup}
    (hall : config.global.policies.lookup "all" = some group) {entity : EntityRef} {i : Nat}
    {route : RouteEntry}
    (hselected : findMatchingRoute config entity.entityType entity.entityName entity.scope =
      some (route, i))
    (hinherits : route.replaceInherited = false) :
    ((∀ hash, ∀ ref ∈ group.plugins, ref.pluginName ∈
          (resolvePluginsForEntity config hash entity.entityType entity.entityName entity.scope
            entity.tags).map (·.name)) ∧
        (∀ step ∈ identitySteps group.identity, step.resolve ∈
          resolveIdentityPluginsForRoute config entity.entityType entity.entityName
            entity.scope) ∧
        ∀ layer, state.tagLayers.lookup "all" = some layer →
          PolicyApplies state (routeYamlAt raw i) route layer.route) ↔
      ("all" ∈ routeStaticTags route ∨ ∀ step ∈ identitySteps group.identity,
          ∃ other, StepOf config route other ∧ other.resolve = step.resolve) ∧
        ("all" ∈ route.metaTags ∨ ∀ layer, state.tagLayers.lookup "all" = some layer →
          DeclaredAnyway state (routeYamlAt raw i) route layer.route) := by
  have hl := hloads.toLoaded
  have hi := List.mk_mem_zipIdx_iff_getElem?.mp (List.mem_of_firstBest hselected).1
  rw [and_iff_right fun hash => all_plugins_resolved hrouting hall hash _ _ _ _]
  simp only [mem_resolveIdentity_iff hselected hinherits, policyApplies_iff hl hi]
  refine and_congr ⟨.inr, ?_⟩ ⟨.inr, ?_⟩
  · rintro (hnamed | hsteps) step hstep
    · have hbundle : step ∈ bundleSteps config "all" := by
        unfold bundleSteps
        rw [hall]
        exact hstep
      exact ⟨step, .inr (.inl ⟨"all", hnamed, hbundle⟩), rfl⟩
    · exact hsteps step hstep
  · rintro (hnamed | hdeclared) layer hlayer
    · exact declaredAnyway_of_mem hlayer hnamed _
    · exact hdeclared layer hlayer

end

section
attribute [local instance] Platform.bare PolicyParser.denying

/-- A route with the tag `all` gets the policy of the group. -/
theorem all_applies_to_tagged :
    ∃ loaded, LoadsPayroll "all" (payrollRoute ["all"] none) denyBlock tagsKey (denyState "all")
        loaded ∧
      PolicyApplies (denyState "all") (payrollYaml tagsKey) (payrollRoute ["all"] none)
        (denyLayer "all").route := by
  obtain ⟨loaded, hloads⟩ : ∃ loaded, LoadsPayroll "all" (payrollRoute ["all"] none) denyBlock
      tagsKey (denyState "all") loaded := ⟨_, rfl, rfl, rfl, rfl⟩
  have hall : (payrollConfig "all" (payrollRoute ["all"] none)).global.policies.lookup "all" =
      some jwtGroup := rfl
  have hselected : findMatchingRoute (payrollConfig "all" (payrollRoute ["all"] none))
      (payrollEntity ∅).entityType (payrollEntity ∅).entityName (payrollEntity ∅).scope =
        some (payrollRoute ["all"] none, 0) := rfl
  have happlies := (all_applies_iff hloads rfl hall hselected rfl).mpr
    ⟨.inl (by decide), .inl (by decide)⟩
  exact ⟨loaded, hloads, happlies.2.2 (denyLayer "all") rfl⟩

/-- A request to a route that does not name `all` gets neither its step nor its policy. -/
theorem all_without_steps_or_policy :
    ∃ loaded, Unguarded "all" loaded ∧ (payrollRoute [] none).replaceInherited = false ∧
      bundleSteps (payrollConfig "all" (payrollRoute [] none)) "all" = [{ name := "jwt" }] ∧
      (denyState "all").tagLayers.lookup "all" = some (denyLayer "all") ∧
      ¬ PolicyApplies (denyState "all") (payrollYaml []) (payrollRoute [] none)
        (denyLayer "all").route := by
  obtain ⟨loaded, hunguarded⟩ := exists_unguarded "all"
  refine ⟨loaded, hunguarded, rfl, rfl, rfl, fun happlies => ?_⟩
  obtain ⟨effective, heff, hpart⟩ :=
    happlies "tool" ["payroll"] rfl "payroll" List.mem_cons_self
  cases heff
  exact nomatch hpart.policy (List.mem_cons_self)

end

end Cpex.Core
