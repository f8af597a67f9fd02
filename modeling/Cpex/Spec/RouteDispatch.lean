import Cpex.Spec.Annotations
import Cpex.Spec.RouteSelection

/-! # Dispatch to the selected route's handler

Two matchers decide which route a request belongs to: the specificity scan
(`findMatchingRoute`) and the annotation map the visitor filled, which is looked up by exact
name. This file says when they agree.
-/

namespace Cpex.Core

/-! ### The selected route -/

variable {route : RouteEntry} {config : CpexConfig} {i : Nat}

/-- A validated route has exactly one entity matcher. -/
theorem matcherCount_of_validRoute (h : validateRoute config pluginNames i route = .ok ()) :
    route.matcherCount = 1 := by
  unfold validateRoute at h
  by_cases h0 : route.matcherCount = 0
  · rw [if_pos h0] at h; exact nomatch h
  by_cases h1 : 1 < route.matcherCount
  · rw [if_neg h0, if_pos h1] at h; exact nomatch h
  · omega

theorem matcherCount_of_valid (h : validateConfig config = .ok ())
    (hrouting : config.routingEnabled = true) :
    ∀ route ∈ config.routes, route.matcherCount = 1 := by
  intro route hroute
  obtain ⟨⟨⟩, _, h⟩ := Except.ok_of_bind h
  rw [if_pos hrouting] at h
  obtain ⟨⟨⟩, hroutes, _⟩ := Except.ok_of_bind h
  obtain ⟨i, hi⟩ := List.getElem?_of_mem hroute
  exact matcherCount_of_validRoute
    (List.forM_ok hroutes (route, i) (List.mk_mem_zipIdx_iff_getElem?.mpr hi))

/-- The route names the entity as it is written: in a list, or as a single name. -/
def RouteEntry.Names (route : RouteEntry) (entityType entityName : String) : Prop :=
  ∃ m, route.entityMatcher entityType = some m ∧ entityName ∈ m.asNames

variable {entityType : String}

/-- An entity under which a route is visited is one it names. -/
theorem RouteEntry.names_of_entityIdentity (h : entityIdentity route = some (entityType, names))
    (hname : entityName ∈ names) :
    route.Names entityType entityName := by
  unfold entityIdentity at h
  split at h <;> cases h
  all_goals
    rename_i hm
    exact ⟨_, hm, hname⟩

/-- A route with one matcher is visited under the entity type it matches. -/
theorem entityIdentity_of_entityMatcher (hcount : route.matcherCount = 1)
    (h : route.entityMatcher entityType = some m) :
    entityIdentity route = some (entityType, m.asNames) := by
  obtain ⟨tool, resource, prompt, llm, _, _, _, _, _⟩ := route
  unfold RouteEntry.entityMatcher at h
  unfold RouteEntry.matcherCount at hcount
  unfold entityIdentity
  split_ifs at h with ht hr hp hl <;> dsimp only at h hcount ⊢ <;> subst h
  · rw [ht]
  -- In the other cases the earlier matchers are absent: there is only one.
  · cases tool with
    | none => rw [hr]
    | some _ => simp at hcount
  · cases tool <;> cases resource <;> simp_all
  · cases tool <;> cases resource <;> cases prompt <;> simp_all

theorem findMatchingRoute_eq_some
    (h : findMatchingRoute config entityType entityName scope = some (route, i)) :
    config.routes[i]? = some route ∧ (route.scope = none ∨ route.scope = scope) := by
  obtain ⟨hi, s, hs, -⟩ := findMatchingRoute_first h
  exact ⟨hi, (routeScore_isSome_iff.mp (by rw [hs]; rfl)).1⟩

/-! ### The handler found -/

section
variable {η : Type}

/-- The result is an annotated handler exactly when the lookup finds it: the plugin chain holds
    no synthetic handlers. -/
theorem filterEntriesByRoute_eq_annotated {host : Host η} {snapshot : RuntimeSnapshot}
    {hash : HashOrder} {entries : List (HookEntry η)} {extensions : Extensions}
    {hookName : String} {cache : RouteCache η} {e : HookEntry AplRouteHandler} :
    (filterEntriesByRoute host snapshot hash entries extensions hookName cache).1 =
        [annotatedEntry e] ↔
      (entityRef extensions).bind (annotationFor snapshot.routeAnnotations · hookName) = some e := by
  have hchain : ∀ l : List (HookEntry η), pluginChain l ≠ [annotatedEntry e] := by
    intro l hl
    have hmem : (annotatedEntry e : HookEntry (Handler η)) ∈ pluginChain l := by
      rw [hl]; exact List.mem_singleton_self _
    obtain ⟨p, _, hp⟩ := List.mem_map.mp hmem
    exact nomatch (congrArg HookEntry.handler hp)
  unfold filterEntriesByRoute filterEntriesWith
  split
  · rename_i found hfound
    rw [hfound]
    constructor
    · intro h
      obtain ⟨⟩ := e
      cases h
      rfl
    · intro h
      cases h
      rfl
  · rename_i hnone
    rw [hnone]
    refine ⟨fun h => ?_, fun h => nomatch h⟩
    repeat' split at h
    all_goals exact absurd h (hchain _)

end

section
variable [Platform] [PolicyParser]

/-- The route annotates the entity: it names it literally, and its layered policy declares
    something. -/
def Installs (state : VisitorState) (yaml : Yaml) (route : RouteEntry)
    (entityType entityName : String) : Prop :=
  route.Names entityType entityName ∧
    ∃ effective, HasPolicy state yaml route entityType entityName effective

variable {self : AplConfigVisitor} {state : VisitorState} {yaml : Yaml} {route : RouteEntry}
  {j : Nat}

/-- What an annotation of a key says about the route that made it. -/
theorem Annotates.installs (h : Annotates self state yaml route j (k, e)) :
    Installs state yaml route k.entityType k.entityName ∧ route.scope = k.scope ∧
      e.handler.origin = some j := by
  obtain ⟨entityType, names, hid, name, hname, effective, hpolicy, hp, _, ha⟩ := h
  cases ha
  exact ⟨⟨RouteEntry.names_of_entityIdentity hid hname, effective, hpolicy⟩, rfl, rfl⟩

variable {entityType : String} {entityName hook : String} {phase : Phase}
  {effective : CompiledRoute}

/-- A route that installs a handler annotates each of the entity's hooks with it. -/
theorem annotates_of_names (hcount : route.matcherCount = 1)
    (hnames : route.Names entityType entityName)
    (hpolicy : HasPolicy state yaml route entityType entityName effective)
    (hhook : (hook, phase) ∈ entityHooks entityType) :
    Annotates self state yaml route j (installHandler self (some j) entityType entityName
      route.scope hook phase effective state.pluginRegistry) := by
  obtain ⟨m, hm, hname⟩ := hnames
  exact ⟨entityType, m.asNames, entityIdentity_of_entityMatcher hcount hm, entityName, hname,
    effective, hpolicy, (hook, phase), hhook, rfl⟩

/-- Under a key, a route annotates one handler. -/
theorem Annotates.eq_installHandler
    (h : Annotates self state yaml route j (⟨entityType, entityName, scope, hook⟩, e))
    (hpolicy : HasPolicy state yaml route entityType entityName effective)
    (hhook : (hook, phase) ∈ entityHooks entityType) :
    e = (installHandler self (some j) entityType entityName route.scope hook phase effective
      state.pluginRegistry).2 := by
  obtain ⟨et, names, hid, name, hname, effective', hpolicy', ⟨hook', phase'⟩, hp, ha⟩ := h
  cases ha
  have heff : effective = effective' := Except.ok.inj (hpolicy.1.symm.trans hpolicy'.1)
  have hphase : phase = phase' := phase_eq_of_mem_entityHooks hhook hp
  rw [heff, hphase]
  rfl

/-- When the annotation map agrees with the selection of `route`, at position `i`, for a request
    about `entityName` in `scope`. -/
structure Dispatched (state : VisitorState) (raw : Yaml) (routes : List RouteEntry) (i : Nat)
    (route : RouteEntry) (entityType entityName : String) (scope : Option String) : Prop where
  /-- The route names the entity as it is written in the request. -/
  named : route.Names entityType entityName
  /-- No later route of the same scope takes the key over. -/
  last : ∀ j r, i < j → routes[j]? = some r → r.scope = route.scope →
    ¬ Installs state (routeYamlAt raw j) r entityType entityName
  /-- If the route has no scope, no route of the request's scope has the entity. -/
  unscoped : route.scope = none → ∀ s, scope = some s → ∀ j r, routes[j]? = some r →
    r.scope = some s → ¬ Installs state (routeYamlAt raw j) r entityType entityName

omit [Platform] [PolicyParser] in
/-- Entity types with hooks are not the type of the catch-all. -/
theorem ne_http_of_mem_entityHooks (h : hp ∈ entityHooks entityType) :
    entityType ≠ "http" := by
  rintro rfl
  exact nomatch h

namespace Loaded

variable {raw : Yaml} {runtime : RuntimeSnapshot} {config : CpexConfig} {i : Nat}
  {entity : EntityRef} {hook : String} {phase : Phase}
  (hl : Loaded self modeFor raw runtime state config)
  (hcount : ∀ r ∈ config.routes, r.matcherCount = 1) (hi : config.routes[i]? = some route)
  (hhook : (hook, phase) ∈ entityHooks entity.entityType)
include hl hcount hi hhook

/-- With nothing in the way, the lookup ends at the route's handler. -/
theorem annotationFor_of_dispatched (hscope : route.scope = none ∨ route.scope = entity.scope)
    (hpolicy : HasPolicy state (routeYamlAt raw i) route entity.entityType entity.entityName
      effective)
    (hd : Dispatched state raw config.routes i route entity.entityType entity.entityName
      entity.scope) :
    annotationFor runtime.routeAnnotations entity hook =
      some (installHandler self (some i) entity.entityType entity.entityName route.scope hook phase
        effective state.pluginRegistry).2 := by
  -- The route's own key holds its handler.
  have hkey : runtime.routeAnnotations.lookup
      ⟨entity.entityType, entity.entityName, route.scope, hook⟩ =
      some (installHandler self (some i) entity.entityType entity.entityName route.scope hook phase
        effective state.pluginRegistry).2 := by
    obtain ⟨e, he, hlookup⟩ := hl.lookup_of_last hi
      (annotates_of_names (hcount _ (List.mem_of_getElem? hi)) hd.named hpolicy hhook)
      fun j r e hij hj ha => by
        obtain ⟨hinst, hsc, _⟩ := ha.installs
        exact hd.last j r hij hj hsc hinst
    rw [← he.eq_installHandler hpolicy hhook]
    exact hlookup
  unfold annotationFor
  cases hs : entity.scope with
  | none =>
    have hnone : route.scope = none := hscope.elim id (·.trans hs)
    rw [hnone] at hkey ⊢
    exact hkey
  | some s =>
    dsimp only [Option.bind_some]
    by_cases hnone : route.scope = none
    · -- Nothing is annotated in the request's scope.
      have hfree : runtime.routeAnnotations.lookup
          ⟨entity.entityType, entity.entityName, some s, hook⟩ = none := by
        cases hfound : runtime.routeAnnotations.lookup
          ⟨entity.entityType, entity.entityName, some s, hook⟩ with
        | none => rfl
        | some e =>
          obtain ⟨j, r, hj, ha⟩ :=
            hl.exists_of_lookup hfound (ne_http_of_mem_entityHooks hhook)
          obtain ⟨hinst, hsc, _⟩ := ha.installs
          exact absurd hinst (hd.unscoped hnone s hs j r hj hsc)
      rw [hnone] at hkey ⊢
      rw [hfree, hkey]
      rfl
    · have hsc : route.scope = some s := (hscope.resolve_left hnone).trans hs
      rw [hsc] at hkey ⊢
      rw [hkey]
      rfl

/-- If the lookup ends at the route's handler, nothing was in the way. -/
theorem dispatched_of_annotationFor
    (h : annotationFor runtime.routeAnnotations entity hook = some e)
    (horigin : e.handler.origin = some i) :
    Dispatched state raw config.routes i route entity.entityType entity.entityName
      entity.scope := by
  have hhttp := ne_http_of_mem_entityHooks hhook
  -- An annotation of the entity whose handler is the route's own was made by the route.
  have hown : ∀ sc, runtime.routeAnnotations.lookup
      ⟨entity.entityType, entity.entityName, sc, hook⟩ = some e →
      Installs state (routeYamlAt raw i) route entity.entityType entity.entityName ∧
        route.scope = sc := by
    intro sc hfound
    obtain ⟨j, r, hj, ha⟩ := hl.exists_of_lookup hfound hhttp
    obtain ⟨hinst, hsc, hj'⟩ := ha.installs
    cases horigin.symm.trans hj'
    cases hi.symm.trans hj
    exact ⟨hinst, hsc⟩
  have hfound : runtime.routeAnnotations.lookup
      ⟨entity.entityType, entity.entityName, route.scope, hook⟩ = some e := by
    rcases Option.or_eq_some_iff.mp h with h | ⟨_, h⟩
    · obtain ⟨s, _, h⟩ := Option.bind_eq_some_iff.mp h
      rw [(hown _ h).2]
      exact h
    · rw [(hown _ h).2]
      exact h
  have hannotated {j : Nat} {r : RouteEntry} (hj : config.routes[j]? = some r)
      (hinst : Installs state (routeYamlAt raw j) r entity.entityType entity.entityName) :=
    hl.lookup_of_annotates hj (annotates_of_names (hcount _ (List.mem_of_getElem? hj)) hinst.1
      hinst.2.choose_spec hhook)
  refine ⟨(hown _ hfound).1.1, fun j r hij hj hsc hinst => ?_, fun hnone s hs j r hj hsc hinst => ?_⟩
  · -- A later annotation of the key would be found instead.
    obtain ⟨j', r', e', hjj', _, ha', hfound'⟩ := hannotated hj hinst
    have horigin' := ha'.installs.2.2
    have hee : e = e' := Option.some.inj (hfound.symm.trans (hsc ▸ hfound'))
    rw [← hee, horigin] at horigin'
    cases horigin'
    exact absurd (Nat.lt_of_lt_of_le hij hjj') (Nat.lt_irrefl _)
  · -- An annotation in the request's scope would be found first.
    obtain ⟨_, _, e', _, _, _, hfound'⟩ := hannotated hj hinst
    rw [hsc] at hfound'
    unfold annotationFor at h
    rw [hs, Option.bind_some, hfound', Option.some_or] at h
    cases h
    have hcontra := (hown _ hfound').2
    rw [hnone] at hcontra
    exact nomatch hcontra

end Loaded

/-- After a load with the APL visitor and routing enabled, a request whose selected route has a
    layered policy is dispatched to the handler installed for that route, exactly when the
    annotation map agrees with the selection. -/
theorem filterEntriesByRoute_annotated_iff {η : Type} {host : Host η}
    {manager loaded : PluginManager η} {raw : Yaml} {config : CpexConfig}
    (hloads : Loads host manager raw loaded state config)
    (hrouting : config.routingEnabled = true) {extensions : Extensions} {entity : EntityRef}
    (hentity : entityRef extensions = some entity) {hook : String} {phase : Phase}
    (hhook : (hook, phase) ∈ entityHooks entity.entityType) {route : RouteEntry} {i : Nat}
    (hselected : findMatchingRoute config entity.entityType entity.entityName entity.scope =
      some (route, i))
    {effective : CompiledRoute}
    (hpolicy : HasPolicy state (routeYamlAt raw i) route entity.entityType entity.entityName
      effective)
    (hash : HashOrder) (entries : List (HookEntry η)) (cache : RouteCache η) :
    (filterEntriesByRoute host loaded.runtime hash entries extensions hook cache).1 =
        [annotatedEntry (installHandler host.visitor (some i) entity.entityType entity.entityName
          route.scope hook phase effective state.pluginRegistry).2] ↔
      Dispatched state raw config.routes i route entity.entityType entity.entityName
        entity.scope := by
  have hl := hloads.toLoaded
  obtain ⟨hi, hscope⟩ := findMatchingRoute_eq_some hselected
  have hcount := matcherCount_of_valid hl.valid hrouting
  rw [filterEntriesByRoute_eq_annotated, hentity, Option.bind_some]
  constructor
  · intro h
    exact hl.dispatched_of_annotationFor hcount hi hhook h rfl
  · exact hl.annotationFor_of_dispatched hcount hi hhook hscope hpolicy

end

/-! ### Two loads -/

/-- One route for the tools `pattern`, with a policy that denies. -/
def denyingRoute (pattern : String) : RouteEntry where
  tool := some (.single pattern)

def denyingConfig (pattern : String) : CpexConfig where
  routes := [denyingRoute pattern]
  pluginSettings := { routingEnabled := true }

def denyingDocument (pattern : String) : Yaml :=
  .mapping [(.string "routes", .sequence [.mapping
    [(.string "tool", .string pattern),
      (.string "pre_invocation", .sequence [.string "deny"])]])]

attribute [local instance] Platform.bare PolicyParser.denying

/-- The layered policy of the route. -/
def denyingPolicy (pattern : String) : CompiledRoute :=
  { CompiledRoute.new ("tool:" ++ pattern) with policy := [.deny none none] }

theorem denyingRoute_hasPolicy (pattern name : String) :
    HasPolicy {} (routeYamlAt (denyingDocument pattern) 0) (denyingRoute pattern) "tool" name
      (denyingPolicy name) :=
  ⟨rfl, rfl⟩

theorem load_denyingDocument (pattern : String) :
    ∃ loaded, Loads (.bare (denyingConfig pattern)) .fresh (denyingDocument pattern) loaded {}
      (denyingConfig pattern) :=
  ⟨_, rfl, rfl, rfl, rfl⟩

/-- The tool is named literally: the request gets the route's policy. -/
theorem filterEntriesByRoute_annotated_literal :
    ∃ loaded,
      loadConfigYaml (.bare (denyingConfig "payroll")) .fresh (denyingDocument "payroll") =
        .ok loaded ∧
      ∀ hash, (filterEntriesByRoute (.bare (denyingConfig "payroll")) loaded.runtime hash []
        (toolRequest "payroll" ∅) "cmf.tool_pre_invoke" ∅).1 =
          [annotatedEntry (installHandler (Host.bare (denyingConfig "payroll")).visitor (some 0)
            "tool" "payroll" none "cmf.tool_pre_invoke" .pre (denyingPolicy "payroll") ∅).2] := by
  obtain ⟨loaded, hloads⟩ := load_denyingDocument "payroll"
  have hentity : entityRef (toolRequest "payroll" ∅) = some ⟨"tool", "payroll", none, ∅⟩ := rfl
  have hselected : findMatchingRoute (denyingConfig "payroll") "tool" "payroll" none =
      some (denyingRoute "payroll", 0) := rfl
  refine ⟨loaded, hloads.load, fun hash => ?_⟩
  refine (filterEntriesByRoute_annotated_iff hloads rfl hentity (by decide) hselected
    (denyingRoute_hasPolicy "payroll" "payroll") hash [] ∅).mpr
    ⟨⟨_, rfl, by decide⟩, ?_, ?_⟩
  · intro j r hj hr
    cases j with
    | zero => exact absurd hj (Nat.lt_irrefl _)
    | succ j => exact nomatch hr
  · intro _ s hs
    exact nomatch hs

/-- A policy written for `hr-*` is selected for the tool `hr-payroll` and not applied to it:
    the handler is annotated under the literal name `hr-*`, and the request gets no synthetic
    handler. -/
theorem filterEntriesByRoute_skips_glob_policy :
    ∃ loaded,
      loadConfigYaml (.bare (denyingConfig "hr-*")) .fresh (denyingDocument "hr-*") = .ok loaded ∧
      findMatchingRoute (denyingConfig "hr-*") "tool" "hr-payroll" none =
        some (denyingRoute "hr-*", 0) ∧
      HasPolicy {} (routeYamlAt (denyingDocument "hr-*") 0) (denyingRoute "hr-*") "tool"
        "hr-payroll" (denyingPolicy "hr-payroll") ∧
      ∀ hash entries cache e, (filterEntriesByRoute (.bare (denyingConfig "hr-*")) loaded.runtime
        hash entries (toolRequest "hr-payroll" ∅) "cmf.tool_pre_invoke" cache).1 ≠
          [annotatedEntry e] := by
  obtain ⟨loaded, hloads⟩ := load_denyingDocument "hr-*"
  refine ⟨loaded, hloads.load, rfl, denyingRoute_hasPolicy _ _, fun hash entries cache e h => ?_⟩
  -- Whatever the lookup finds was annotated for `hr-payroll` by a route that names it.
  have hfound : (loaded.runtime.routeAnnotations.lookup
      ⟨"tool", "hr-payroll", none, "cmf.tool_pre_invoke"⟩) = some e :=
    filterEntriesByRoute_eq_annotated.mp h
  obtain ⟨j, r, hj, ha⟩ := hloads.toLoaded.exists_of_lookup hfound (by decide)
  obtain ⟨m, hm, hname⟩ := ha.installs.1.1
  cases j with
  | zero =>
    cases hj
    cases hm
    exact absurd hname (by decide)
  | succ j => exact nomatch hj

end Cpex.Core
