import Cpex.Native.Manager
import Cpex.ForStd.AList

/-! # What a load installs

A load that succeeds leaves the annotations its visits made, in the order of the routes and the
last one winning under each key.
-/

namespace Cpex.Core

/-- The hooks of an entity type, with the phase their handler is bound to. -/
def entityHooks (entityType : String) : List (String × Phase) :=
  match hookPairForEntity entityType with
  | none => []
  | some (hookPre, hookPost) => [(hookPre, .pre), (hookPost, .post)]

/-- The hook decides the phase. -/
theorem phase_eq_of_mem_entityHooks (h : (hook, phase) ∈ entityHooks entityType)
    (h' : (hook, phase') ∈ entityHooks entityType) :
    phase = phase' := by
  unfold entityHooks hookPairForEntity at h h'
  split at h
  · exact nomatch h
  · rename_i hookPre hookPost hpair
    have hne : hookPre ≠ hookPost := by
      split_ifs at hpair <;> cases hpair <;> decide
    rw [hpair] at h'
    simp only [List.mem_cons, Prod.mk.injEq, List.not_mem_nil, or_false] at h h'
    rcases h with ⟨rfl, rfl⟩ | ⟨rfl, rfl⟩ <;> rcases h' with ⟨h, rfl⟩ | ⟨h, rfl⟩
    · rfl
    · exact absurd h hne
    · exact absurd h.symm hne
    · rfl

section
variable [Platform] [PolicyParser]

/-- The layered policy of a route declares something for an entity. -/
def HasPolicy (state : VisitorState) (yaml : Yaml) (route : RouteEntry)
    (entityType entityName : String) (effective : CompiledRoute) : Prop :=
  effectiveRoute state yaml route entityType entityName = .ok effective ∧
    effective.declaresNothing = false

variable {self : AplConfigVisitor} {modeFor : String → Option PluginMode} {state : VisitorState}
  {yaml : Yaml} {parsed : RouteEntry} {entityType entityName : String}

/-- What the visit of an entity found to install. -/
theorem entityPolicy_ok
    (h : entityPolicy modeFor state yaml parsed entityType entityName = .ok policy) :
    ∃ effective, effectiveRoute state yaml parsed entityType entityName = .ok effective ∧
      (effective.declaresNothing = true ∧ policy = none ∨
        effective.declaresNothing = false ∧
          validateParallelPluginModes effective modeFor = .ok () ∧ policy = some effective) := by
  unfold entityPolicy at h
  cases heff : effectiveRoute state yaml parsed entityType entityName with
  | error e => rw [heff] at h; exact nomatch h
  | ok effective =>
    rw [heff] at h
    dsimp only at h
    refine ⟨effective, rfl, ?_⟩
    by_cases hnothing : effective.declaresNothing = true
    · rw [if_pos hnothing] at h
      cases h
      exact .inl ⟨hnothing, rfl⟩
    · rw [if_neg hnothing] at h
      rw [Bool.not_eq_true] at hnothing
      cases hmodes : validateParallelPluginModes effective modeFor with
      | error msg => rw [hmodes] at h; exact nomatch h
      | ok _ =>
        rw [hmodes] at h
        cases h
        exact .inr ⟨hnothing, rfl, rfl⟩

variable {origin : Nat} {installed : List Annotation}

/-- The annotations of one entity of a route. -/
theorem mem_visitEntity
    (h : visitEntity self modeFor state yaml parsed origin entityType entityName = .ok installed)
    (a : Annotation) :
    a ∈ installed ↔ ∃ effective, HasPolicy state yaml parsed entityType entityName effective ∧
      ∃ hp ∈ entityHooks entityType, a = installHandler self (some origin) entityType entityName
        parsed.scope hp.1 hp.2 effective state.pluginRegistry := by
  obtain ⟨policy, hpolicy, h⟩ := Except.ok_of_bind h
  obtain ⟨effective, heff, hcase⟩ := entityPolicy_ok hpolicy
  unfold HasPolicy entityHooks
  rcases hcase with ⟨hnothing, rfl⟩ | ⟨hnothing, _, rfl⟩
  · cases h
    simp [heff, hnothing]
  · cases hpair : hookPairForEntity entityType with
    | none =>
      rw [hpair] at h
      cases h
      simp
    | some pair =>
      rw [hpair] at h
      cases h
      simp [heff, hnothing]

/-- `a` is the annotation of one hook of one entity that the route at position `origin` names,
    under its layered policy. -/
def Annotates (self : AplConfigVisitor) (state : VisitorState) (yaml : Yaml)
    (parsed : RouteEntry) (origin : Nat) (a : Annotation) : Prop :=
  ∃ entityType names, entityIdentity parsed = some (entityType, names) ∧
    ∃ entityName ∈ names, ∃ effective,
      HasPolicy state yaml parsed entityType entityName effective ∧
      ∃ hp ∈ entityHooks entityType, a = installHandler self (some origin) entityType entityName
        parsed.scope hp.1 hp.2 effective state.pluginRegistry

/-- The annotations of a route. -/
theorem mem_visitRoute (h : visitRoute self modeFor state yaml parsed origin = .ok installed)
    (a : Annotation) : a ∈ installed ↔ Annotates self state yaml parsed origin a := by
  unfold Annotates
  obtain ⟨_, _, h⟩ := Except.ok_of_bind h
  cases hid : entityIdentity parsed with
  | none =>
    rw [hid] at h
    cases h
    simp
  | some id =>
    obtain ⟨entityType, names⟩ := id
    rw [hid] at h
    obtain ⟨lists, hlists, h⟩ := Except.ok_of_bind h
    cases h
    rw [List.mem_flatten_mapM_iff hlists fun hvisit => mem_visitEntity hvisit a]
    constructor
    · exact fun ha => ⟨entityType, names, rfl, ha⟩
    · rintro ⟨_, _, hid', ha⟩
      cases hid'
      exact ha

/-! ### The walk over the configuration -/

omit [Platform] [PolicyParser] in
theorem visiting_ok {α : Type} {call : String} {result : Except String α} {a : α}
    (h : visiting call result = .ok a) : result = .ok a := by
  cases result with
  | error e => exact nomatch h
  | ok b => cases h; rfl

/-- The policy of the global section, with the response of its denials. -/
def globalPolicy (yaml : Yaml) (layer : Layer "global.apl") : CompiledRoute :=
  { layer.route with response := responseSubblock yaml }

variable {st st' : VisitorState}

/-- What the visit of the global section does: a block becomes the global layer, and the handler
    of requests without an entity if it declares something for them. -/
theorem visitGlobal_ok (h : visitGlobal self yaml st = .ok (st', installed)) :
    aplSubblock yaml = none ∧ st' = st ∧ installed = [] ∨
      ∃ block layer, aplSubblock yaml = some block ∧
        compileLayer "global.apl" (stripNonDslKeys block) = .ok layer ∧
        st' = { st with globalLayer := some { layer with route := globalPolicy yaml layer } } ∧
        installed = if httpCatchallShouldInstall layer.route then
          [installHandler self none "http" "*" none "cmf.http_request" .pre
            (globalPolicy yaml layer) st.pluginRegistry] else [] := by
  obtain ⟨_, _, h⟩ := Except.ok_of_bind h
  split at h
  next hnone =>
    cases h
    exact .inl ⟨hnone, rfl, rfl⟩
  next block hblock =>
    obtain ⟨_, _, h⟩ := Except.ok_of_bind h
    obtain ⟨layer, hlayer, h⟩ := Except.ok_of_bind h
    cases h
    exact .inr ⟨block, layer, hblock, hlayer, rfl, rfl⟩

/-- The global section annotates the catch-all of requests without an entity only. -/
theorem visitGlobal_key (h : visitGlobal self yaml st = .ok (st', installed)) :
    ∀ a ∈ installed, a.1 = ⟨"http", "*", none, "cmf.http_request"⟩ := by
  rcases visitGlobal_ok h with ⟨_, _, rfl⟩ | ⟨_, layer, _, _, _, rfl⟩
  · exact fun a ha => nomatch ha
  · intro a ha
    split at ha
    · rw [List.mem_singleton] at ha
      rw [ha]
      rfl
    · exact nomatch ha

theorem visitGlobal_http (h : visitGlobal self yaml st = .ok (st', installed)) :
    ∀ a ∈ installed, a.1.entityType = "http" := by
  intro a ha
  rw [visitGlobal_key h a ha]

variable {raw : Yaml}

/-- Of the sections before the routes, only the global one annotates. -/
theorem exists_visitGlobal_of_visitSections {plugins : List PluginConfig}
    (h : visitSections self raw plugins st = .ok (st', installed)) :
    ∃ st₁, visitGlobal self (globalYaml raw) (visitPlugins plugins st) = .ok (st₁, installed) := by
  obtain ⟨⟨st₁, ofGlobal⟩, hglobal, h⟩ := Except.ok_of_bind h
  obtain ⟨st₂, _, h⟩ := Except.ok_of_bind h
  obtain ⟨st₃, _, h⟩ := Except.ok_of_bind h
  cases h
  exact ⟨st₁, visiting_ok hglobal⟩

/-- What a load leaves behind: a configuration that was validated, and the annotations of its
    visits. The routes were all visited in the visitor's final state. -/
structure Loaded (visitor : AplConfigVisitor) (modeFor : String → Option PluginMode) (raw : Yaml)
    (runtime : RuntimeSnapshot) (state : VisitorState) (config : CpexConfig) : Prop where
  cpexConfig : runtime.cpexConfig = some config
  valid : validateConfig config = .ok ()
  annotations : ∃ ofGlobal ofRoutes, (∀ a ∈ ofGlobal, a.1.entityType = "http") ∧
    visitRoutes visitor modeFor raw config.routes state = .ok ofRoutes ∧
    runtime.routeAnnotations = (ofGlobal ++ ofRoutes).foldl annotateRoute ∅

variable {η : Type} {before : VisitorState} {host : Host η} {loaded : PluginManager η}

/-- The visits of a load, from the state `before` that the last one left. -/
theorem loadConfigYaml_visits {manager : PluginManager η}
    (h : loadConfigYaml host manager raw = .ok loaded) (hbefore : manager.visitor = some before) :
    ∃ state config ofGlobal ofRoutes, loaded.visitor = some state ∧
      loaded.runtime.cpexConfig = some config ∧ validateConfig config = .ok () ∧
      visitSections host.visitor raw config.plugins before = .ok (state, ofGlobal) ∧
      visitRoutes host.visitor loaded.modeFor raw config.routes state = .ok ofRoutes ∧
      loaded.runtime.routeAnnotations = (ofGlobal ++ ofRoutes).foldl annotateRoute ∅ := by
  obtain ⟨config, htyped, h⟩ := Except.ok_of_bind h
  obtain ⟨manager', hload, h⟩ := Except.ok_of_bind h
  have hvalid : validateConfig config = .ok () := by
    obtain ⟨parsed, _, htyped⟩ := Except.ok_of_bind htyped
    obtain ⟨⟨⟩, _, htyped⟩ := Except.ok_of_bind htyped
    obtain ⟨⟨⟩, hvalid, htyped⟩ := Except.ok_of_bind htyped
    cases htyped
    exact hvalid
  obtain ⟨registry, _, hload⟩ := Except.ok_of_bind hload
  cases hload
  rw [hbefore] at h
  obtain ⟨⟨state, ofGlobal⟩, hsections, h⟩ := Except.ok_of_bind h
  obtain ⟨ofRoutes, hroutes, h⟩ := Except.ok_of_bind h
  cases h
  exact ⟨state, config, ofGlobal, ofRoutes, rfl, rfl, hvalid, hsections, hroutes, rfl⟩

theorem loadConfigYaml_loaded {manager : PluginManager η}
    (h : loadConfigYaml host manager raw = .ok loaded) (hbefore : manager.visitor = some before) :
    ∃ state config ofGlobal, loaded.visitor = some state ∧
      visitSections host.visitor raw config.plugins before = .ok (state, ofGlobal) ∧
      Loaded host.visitor loaded.modeFor raw loaded.runtime state config := by
  obtain ⟨state, config, ofGlobal, ofRoutes, hstate, hconfig, hvalid, hsections, hroutes, hmap⟩ :=
    loadConfigYaml_visits h hbefore
  obtain ⟨_, hglobal⟩ := exists_visitGlobal_of_visitSections hsections
  exact ⟨state, config, ofGlobal, hstate, hsections, hconfig, hvalid, ofGlobal, ofRoutes,
    visitGlobal_http hglobal, hroutes, hmap⟩

theorem loadConfigYaml_ok {manager : PluginManager η}
    (h : loadConfigYaml host manager raw = .ok loaded) (hvisitor : manager.visitor.isSome) :
    ∃ state config, loaded.visitor = some state ∧
      Loaded host.visitor loaded.modeFor raw loaded.runtime state config := by
  obtain ⟨before, hbefore⟩ := Option.isSome_iff_exists.mp hvisitor
  obtain ⟨state, config, _, hstate, -, hl⟩ := loadConfigYaml_loaded h hbefore
  exact ⟨state, config, hstate, hl⟩

/-- A manager with a registered visitor loads the document. The visitor is then in `state`, and
    `config` is in use. -/
structure Loads (host : Host η) (manager : PluginManager η) (raw : Yaml)
    (loaded : PluginManager η) (state : VisitorState) (config : CpexConfig) : Prop where
  load : loadConfigYaml host manager raw = .ok loaded
  visitor : loaded.visitor = some state
  cpexConfig : loaded.runtime.cpexConfig = some config
  registered : manager.visitor.isSome

theorem Loads.toLoaded {manager : PluginManager η}
    (h : Loads host manager raw loaded state config) :
    Loaded host.visitor loaded.modeFor raw loaded.runtime state config := by
  obtain ⟨state', config', hstate, hl⟩ := loadConfigYaml_ok h.load h.registered
  cases h.visitor.symm.trans hstate
  cases h.cpexConfig.symm.trans hl.cpexConfig
  exact hl

/-! ### The annotation under a key -/

/-- The annotations made while a part of the routes is visited. -/
theorem mem_of_mapM_visitRoute {part : List (RouteEntry × Nat)} {installed : List (List Annotation)}
    (h : (part.mapM fun route => visiting ("visit_route[" ++ toString route.2 ++ "]") (visitRoute
      self modeFor state (routeYamlAt raw route.2) route.1 route.2)) = .ok installed)
    (a : Annotation) :
    a ∈ installed.flatten ↔
      ∃ route ∈ part, Annotates self state (routeYamlAt raw route.2) route.1 route.2 a :=
  List.mem_flatten_mapM_iff h fun hvisit => mem_visitRoute (visiting_ok hvisit) a

/-- The annotations of all routes. -/
theorem mem_visitRoutes (h : visitRoutes self modeFor raw routes state = .ok ofRoutes)
    (a : Annotation) :
    a ∈ ofRoutes ↔ ∃ j r, routes[j]? = some r ∧
      Annotates self state (routeYamlAt raw j) r j a := by
  obtain ⟨installed, hvisits, h⟩ := Except.ok_of_bind h
  cases h
  rw [mem_of_mapM_visitRoute hvisits]
  constructor
  · rintro ⟨⟨r, j⟩, hr, ha⟩
    exact ⟨j, r, List.mk_mem_zipIdx_iff_getElem?.mp hr, ha⟩
  · rintro ⟨j, r, hj, ha⟩
    exact ⟨(r, j), List.mk_mem_zipIdx_iff_getElem?.mpr hj, ha⟩

/-- The annotations of all routes, cut before those of the route at one position. -/
theorem visitRoutes_split (h : visitRoutes self modeFor raw routes state = .ok ofRoutes)
    (i : Nat) :
    ∃ before rest, ofRoutes = before ++ rest ∧
      ∀ a, a ∈ rest ↔ ∃ j r, i ≤ j ∧ routes[j]? = some r ∧
        Annotates self state (routeYamlAt raw j) r j a := by
  obtain ⟨installed, hvisits, h⟩ := Except.ok_of_bind h
  cases h
  rw [← List.take_append_drop i routes.zipIdx] at hvisits
  obtain ⟨before, rest, _, hrest, rfl⟩ := List.mapM_append_ok hvisits
  refine ⟨before.flatten, rest.flatten, List.flatten_append, fun a => ?_⟩
  rw [mem_of_mapM_visitRoute hrest a]
  constructor
  · rintro ⟨⟨r, j⟩, hmem, hr⟩
    obtain ⟨n, hn⟩ := List.mem_iff_getElem?.mp hmem
    rw [List.getElem?_drop, List.getElem?_zipIdx, Nat.zero_add] at hn
    obtain ⟨_, hj, ⟨⟩⟩ := Option.map_eq_some_iff.mp hn
    exact ⟨_, _, Nat.le_add_right i n, hj, hr⟩
  · rintro ⟨j, r, hij, hj, hr⟩
    refine ⟨(r, j), List.mem_iff_getElem?.mpr ⟨j - i, ?_⟩, hr⟩
    rw [List.getElem?_drop, List.getElem?_zipIdx, Nat.add_sub_cancel' hij, hj, Nat.zero_add]
    rfl

namespace Loaded

variable {raw : Yaml} {runtime : RuntimeSnapshot} {config : CpexConfig} {i : Nat}
  {route : RouteEntry} (hl : Loaded self modeFor raw runtime state config)

include hl

/-- Every entity a route names was visited without an error. -/
theorem exists_entityPolicy (hi : config.routes[i]? = some route)
    (hid : entityIdentity route = some (entityType, names)) (hname : entityName ∈ names) :
    ∃ policy, entityPolicy modeFor state (routeYamlAt raw i) route entityType entityName =
      .ok policy := by
  obtain ⟨_, _, _, hroutes, _⟩ := hl.annotations
  obtain ⟨_, hvisits, _⟩ := Except.ok_of_bind hroutes
  obtain ⟨_, _, hvisit⟩ := List.exists_mem_of_mapM_ok hvisits
    (List.mk_mem_zipIdx_iff_getElem?.mpr hi)
  have hvisit := visiting_ok hvisit
  obtain ⟨_, _, hvisit⟩ := Except.ok_of_bind hvisit
  rw [hid] at hvisit
  obtain ⟨_, hentities, _⟩ := Except.ok_of_bind hvisit
  obtain ⟨_, _, hentity⟩ := List.exists_mem_of_mapM_ok hentities hname
  obtain ⟨policy, hpolicy, _⟩ := Except.ok_of_bind hentity
  exact ⟨policy, hpolicy⟩

variable {k : AnnotationKey} {e : HookEntry AplRouteHandler}

/-- The annotation of an entity was made by one of the routes. -/
theorem exists_of_lookup (h : runtime.routeAnnotations.lookup k = some e)
    (hk : k.entityType ≠ "http") :
    ∃ j r, config.routes[j]? = some r ∧
      Annotates self state (routeYamlAt raw j) r j (k, e) := by
  obtain ⟨ofGlobal, ofRoutes, hhttp, hroutes, hmap⟩ := hl.annotations
  rw [hmap] at h
  rcases List.mem_append.mp (AList.mem_of_lookup_foldl_insert h) with hmem | hmem
  · exact absurd (hhttp _ hmem) hk
  · exact (mem_visitRoutes hroutes _).mp hmem

/-- A key that a route annotates is found, with the annotation of that route or of a later one. -/
theorem lookup_of_annotates (hi : config.routes[i]? = some route)
    (ha : Annotates self state (routeYamlAt raw i) route i (k, e)) :
    ∃ j r e', i ≤ j ∧ config.routes[j]? = some r ∧
      Annotates self state (routeYamlAt raw j) r j (k, e') ∧
      runtime.routeAnnotations.lookup k = some e' := by
  obtain ⟨ofGlobal, ofRoutes, _, hroutes, hmap⟩ := hl.annotations
  obtain ⟨before, rest, rfl, hrest⟩ := visitRoutes_split hroutes i
  rw [hmap, List.foldl_append, List.foldl_append]
  obtain ⟨e', hmem, he'⟩ := AList.exists_lookup_foldl_insert
    (m := before.foldl annotateRoute (ofGlobal.foldl annotateRoute ∅))
    ⟨(k, e), (hrest _).mpr ⟨i, route, Nat.le_refl i, hi, ha⟩, rfl⟩
  obtain ⟨j, r, hij, hj, hr⟩ := (hrest _).mp hmem
  exact ⟨j, r, e', hij, hj, hr, he'⟩

/-- A route that annotates a key, followed by no other that does, is found under it. -/
theorem lookup_of_last (hi : config.routes[i]? = some route)
    (ha : Annotates self state (routeYamlAt raw i) route i (k, e))
    (hlast : ∀ j r e', i < j → config.routes[j]? = some r →
      ¬ Annotates self state (routeYamlAt raw j) r j (k, e')) :
    ∃ e', Annotates self state (routeYamlAt raw i) route i (k, e') ∧
      runtime.routeAnnotations.lookup k = some e' := by
  obtain ⟨j, r, e', hij, hj, hr, hlookup⟩ := hl.lookup_of_annotates hi ha
  rcases Nat.eq_or_lt_of_le hij with rfl | hlt
  · cases hi.symm.trans hj
    exact ⟨e', hr, hlookup⟩
  · exact absurd hr (hlast j r e' hlt hj)

end Loaded

/-! ### The catch-all -/

/-- Routes annotate entities that have hooks; a request without an entity is none of them. -/
theorem Annotates.entityType_ne_http (h : Annotates self state yaml parsed origin a) :
    a.1.entityType ≠ "http" := by
  obtain ⟨entityType, _, _, _, _, _, _, hp, hhook, rfl⟩ := h
  intro hhttp
  obtain rfl : entityType = "http" := hhttp
  exact nomatch hhook

theorem entityType_ne_http_of_visitRoutes
    (h : visitRoutes self modeFor raw routes state = .ok ofRoutes) :
    ∀ a ∈ ofRoutes, a.1.entityType ≠ "http" := by
  intro a ha
  obtain ⟨_, _, _, hannotates⟩ := (mem_visitRoutes h a).mp ha
  exact hannotates.entityType_ne_http

/-- The policy a load installs for requests without an entity: its own global block. -/
def CatchAll (raw : Yaml) (route : CompiledRoute) : Prop :=
  ∃ block layer, aplSubblock (globalYaml raw) = some block ∧
    compileLayer "global.apl" (stripNonDslKeys block) = .ok layer ∧
    httpCatchallShouldInstall layer.route = true ∧ route = globalPolicy (globalYaml raw) layer

/-- What is found for requests without an entity. -/
theorem exists_lookup_http_iff (h : loadConfigYaml host manager raw = .ok loaded)
    (hbefore : manager.visitor = some before) {route : CompiledRoute} :
    (∃ key entry, loaded.runtime.routeAnnotations.lookup key = some entry ∧
      key.entityType = "http" ∧ entry.handler.route = route) ↔ CatchAll raw route := by
  obtain ⟨_, config, ofGlobal, ofRoutes, _, _, _, hsections, hroutes, hmap⟩ :=
    loadConfigYaml_visits h hbefore
  obtain ⟨_, hglobal⟩ := exists_visitGlobal_of_visitSections hsections
  have hentities := entityType_ne_http_of_visitRoutes hroutes
  rw [hmap]
  constructor
  · rintro ⟨key, entry, hlookup, hhttp, rfl⟩
    rcases List.mem_append.mp (AList.mem_of_lookup_foldl_insert hlookup) with hmem | hmem
    · rcases visitGlobal_ok hglobal with ⟨_, _, rfl⟩ | ⟨block, layer, hblock, hlayer, _, rfl⟩
      · exact nomatch hmem
      · split at hmem
        next hinstall =>
          cases List.mem_singleton.mp hmem
          exact ⟨block, layer, hblock, hlayer, hinstall, rfl⟩
        · exact nomatch hmem
    · exact absurd hhttp (hentities _ hmem)
  · rintro ⟨block, layer, hblock, hlayer, hinstall, rfl⟩
    rcases visitGlobal_ok hglobal with ⟨hnone, _, _⟩ | ⟨block', layer', hblock', hlayer', _, rfl⟩
    · rw [hblock] at hnone
      exact nomatch hnone
    · obtain rfl : block = block' := Option.some.inj (hblock.symm.trans hblock')
      obtain rfl : layer = layer' := Except.ok.inj (hlayer.symm.trans hlayer')
      rw [if_pos hinstall, List.foldl_append]
      -- No route annotates its key, so the catch-all is still there.
      have hkey : ∀ a ∈ ofRoutes, a.1 ≠ ⟨"http", "*", none, "cmf.http_request"⟩ := by
        intro a ha heq
        exact hentities a ha (congrArg AnnotationKey.entityType heq)
      exact ⟨_, _, (AList.lookup_foldl_insert_of_forall_ne hkey).trans (AList.lookup_insert _),
        rfl, rfl⟩

/-- A request without an entity has one key. -/
theorem key_of_lookup_http (h : loadConfigYaml host manager raw = .ok loaded)
    (hbefore : manager.visitor = some before)
    (hlookup : loaded.runtime.routeAnnotations.lookup key = some entry)
    (hhttp : key.entityType = "http") : key = ⟨"http", "*", none, "cmf.http_request"⟩ := by
  obtain ⟨_, config, ofGlobal, ofRoutes, _, _, _, hsections, hroutes, hmap⟩ :=
    loadConfigYaml_visits h hbefore
  obtain ⟨_, hglobal⟩ := exists_visitGlobal_of_visitSections hsections
  rw [hmap] at hlookup
  rcases List.mem_append.mp (AList.mem_of_lookup_foldl_insert hlookup) with hmem | hmem
  · exact visitGlobal_key hglobal _ hmem
  · exact absurd hhttp (entityType_ne_http_of_visitRoutes hroutes _ hmem)

end

end Cpex.Core
