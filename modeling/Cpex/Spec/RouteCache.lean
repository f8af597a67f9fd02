import Cpex.Native.Manager
import Cpex.ForStd.Memo
import Cpex.Spec.PluginResolution

/-! # The route cache

`filter_entries_by_route` memoises its result under `(entity_type, entity_name, hook, scope)`,
while the resolution also reads the tags of the request. This file says which runs do not
notice.
-/

namespace Cpex.Core

/-! ### Orders of a set -/

variable (hash : HashOrder)

/-- On the elements satisfying `p`, another set with the same such elements can be walked in
    the same order. -/
theorem HashOrder.exists_filter_eq (p : String → Bool) (h : ∀ x, p x = true → (x ∈ s ↔ x ∈ t)) :
    ∃ hash' : HashOrder, (hash'.iter t).filter p = (hash.iter s).filter p := by
  let walk := (hash.iter s).filter p ++ (hash.iter t).filter (!p ·)
  have hmem : ∀ x, x ∈ walk ↔ x ∈ t := by
    intro x
    simp only [walk, List.mem_append, List.mem_filter, hash.mem_iter]
    cases hx : p x with
    | false => simp
    | true => simp [h x hx]
  have hnodup : walk.Nodup := by
    refine List.Nodup.append ((hash.nodup_iter s).filter _) ((hash.nodup_iter t).filter _) ?_
    intro x hx hx'
    have h₁ := (List.mem_filter.mp hx).2
    have h₂ := (List.mem_filter.mp hx').2
    rw [h₁] at h₂
    exact nomatch h₂
  obtain ⟨hash', hiter⟩ := HashOrder.exists_iter_eq hnodup hmem
  refine ⟨hash', ?_⟩
  simp only [hiter, walk, List.filter_append, List.filter_filter]
  have hnone : (hash.iter t).filter (fun x => p x && !p x) = [] := by
    rw [List.filter_eq_nil_iff]
    intro x _
    cases p x <;> simp
  rw [hnone, List.append_nil]
  congr 1
  funext x
  cases p x <;> rfl

/-! ### Resolution and tags -/

/-- Two requests to the same route join the same groups with plugins, apart from the groups the
    route joins by itself. -/
def SameGroups (config : CpexConfig) (entity entity' : EntityRef) : Prop :=
  ∀ route i, findMatchingRoute config entity.entityType entity.entityName entity.scope =
    some (route, i) → ∀ g, g ≠ "all" → groupPlugins config.global.policies g ≠ [] →
      g ∉ routeStaticTags route → (g ∈ entity.tags ↔ g ∈ entity'.tags)

/-- Tags that join the same groups contribute the same plugins, in some order of the set. -/
theorem exists_routePlugins_eq {config : CpexConfig}
    (h : ∀ g, g ≠ "all" → groupPlugins config.global.policies g ≠ [] →
      g ∉ routeStaticTags route → (g ∈ tags ↔ g ∈ tags')) (hash : HashOrder) :
    ∃ hash', routePlugins config hash tags route = routePlugins config hash' tags' route := by
  let f := fun tag => if tag = "all" then [] else groupPlugins config.global.policies tag
  let joins := fun tag => !(f tag).isEmpty
  have hnil : ∀ tag, joins tag = false → f tag = [] := by
    intro tag htag
    simpa [joins] using htag
  obtain ⟨hash', hfilter⟩ := hash.exists_filter_eq joins
    (s := (routeStaticTags route).foldl (fun s tag => insert tag s) tags)
    (t := (routeStaticTags route).foldl (fun s tag => insert tag s) tags') <| by
    intro tag htag
    rw [List.mem_foldl_insert, List.mem_foldl_insert]
    by_cases hstatic : tag ∈ routeStaticTags route
    · simp [hstatic]
    · have hall : tag ≠ "all" := by
        rintro rfl
        simp [joins, f] at htag
      have hplugins : groupPlugins config.global.policies tag ≠ [] := by
        simpa [joins, f, hall] using htag
      simp [hstatic, h tag hall hplugins hstatic]
  refine ⟨hash', ?_⟩
  unfold routePlugins
  dsimp only
  congr 1
  rw [← List.flatMap_filter_of_nil f joins _ fun tag _ => hnil tag,
    ← List.flatMap_filter_of_nil f joins (hash'.iter _) fun tag _ => hnil tag, hfilter]

/-- Requests with one cache key that join the same groups resolve alike. -/
theorem exists_resolveEntries_eq {η : Type} (host : Host η)
    (hkey : cacheKey entity hook = cacheKey entity' hook')
    (h : hook ≠ hookIdentityResolve → SameGroups config entity entity') (hash : HashOrder)
    (entriesForHook : String → List (HookEntry η)) :
    ∃ hash', resolveEntries host config hash (entriesForHook hook) entity hook =
      resolveEntries host config hash' (entriesForHook hook') entity' hook' := by
  obtain ⟨et, en, sc, tags⟩ := entity
  obtain ⟨et', en', sc', tags'⟩ := entity'
  cases hkey
  unfold resolveEntries resolveForHook
  by_cases hid : hook = hookIdentityResolve
  · exact ⟨hash, by rw [if_pos hid, if_pos hid]⟩
  · simp only [if_neg hid]
    have hgroups := h hid
    unfold resolvePluginsForEntity
    cases hroute : findMatchingRoute config et en sc with
    | none => exact ⟨hash, rfl⟩
    | some selected =>
      obtain ⟨route, i⟩ := selected
      obtain ⟨hash', hplugins⟩ := exists_routePlugins_eq (hgroups route i hroute) hash
      dsimp only at hplugins ⊢
      exact ⟨hash', by rw [hplugins]⟩

/-! ### Runs -/

section
variable {η : Type}

/-- A request served alone: nothing is cached. -/
def resolveAlone (host : Host η) (snapshot : RuntimeSnapshot)
    (entriesForHook : String → List (HookEntry η)) (hash : HashOrder) (req : Request) :
    List (HookEntry (Handler η)) :=
  (filterEntriesByRoute host snapshot hash (entriesForHook req.hookName) req.extensions
    req.hookName ∅).1

/-- The answers to a sequence of requests on one snapshot. -/
def serveAll (host : Host η) (snapshot : RuntimeSnapshot)
    (entriesForHook : String → List (HookEntry η)) :
    RouteCache η → List Request → List (List (HookEntry (Handler η)))
  | _, [] => []
  | cache, req :: reqs =>
    let (answer, cache) := filterEntriesByRoute host snapshot req.hash
      (entriesForHook req.hookName) req.extensions req.hookName cache
    answer :: serveAll host snapshot entriesForHook cache reqs

/-- The request gets as far as the cache: it is not annotated, routing is enabled, and it names
    an entity. -/
structure Resolves (snapshot : RuntimeSnapshot) (req : Request) (config : CpexConfig)
    (entity : EntityRef) : Prop where
  unannotated : annotationFor snapshot.routeAnnotations entity req.hookName = none
  configured : snapshot.cpexConfig = some config
  routing : config.routingEnabled = true
  about : entityRef req.extensions = some entity

variable {host : Host η} {snapshot : RuntimeSnapshot}
  {entriesForHook : String → List (HookEntry η)} {req : Request}

theorem routedBy_eq_some_iff :
    routedBy snapshot req.extensions req.hookName = some (config, entity) ↔
      Resolves snapshot req config entity := by
  constructor
  · intro h
    obtain ⟨entity', hentity, h⟩ := Option.bind_eq_some_iff.mp h
    obtain ⟨config', hconfig, h⟩ := Option.bind_eq_some_iff.mp h
    split at h
    · exact nomatch h
    next hannotated =>
      split at h
      next hrouting =>
        cases h
        exact ⟨Option.not_isSome_iff_eq_none.mp hannotated, hconfig, hrouting, hentity⟩
      · exact nomatch h
  · intro h
    unfold routedBy
    simp [h.about, h.configured, h.unannotated, h.routing]

/-- A request gets as far as the cache, or is answered without it: by a synthetic handler, or by
    some of the entries. -/
theorem filterEntriesWith_cases (snapshot : RuntimeSnapshot) (req : Request)
    (entries : List (HookEntry η)) :
    (∃ answer : List (HookEntry (Handler η)),
      ((∃ entry, answer = [annotatedEntry entry]) ∨
        ∃ chain, chain ⊆ entries ∧ answer = pluginChain chain) ∧
      ∀ {κ : Type} routed (state : κ), filterEntriesWith snapshot entries req.extensions
        req.hookName routed state = (answer, state)) ∨
    ∃ config entity, Resolves snapshot req config entity := by
  unfold filterEntriesWith
  cases hannotation : (entityRef req.extensions).bind
      (annotationFor snapshot.routeAnnotations · req.hookName) with
  | some entry => exact .inl ⟨_, .inl ⟨entry, rfl⟩, fun _ _ => rfl⟩
  | none =>
    cases hconfig : snapshot.cpexConfig with
    | none => exact .inl ⟨_, .inr ⟨_, List.filter_subset_self _, rfl⟩, fun _ _ => rfl⟩
    | some config =>
      by_cases hrouting : config.routingEnabled = true
      · cases hentity : entityRef req.extensions with
        | none =>
          exact .inl ⟨_, .inr ⟨entries, List.Subset.refl _, rfl⟩, fun _ _ => if_pos hrouting⟩
        | some entity =>
          rw [hentity] at hannotation
          exact .inr ⟨config, entity, hannotation, hconfig, hrouting, hentity⟩
      · exact .inl ⟨_, .inr ⟨_, List.filter_subset_self _, rfl⟩, fun _ _ => if_neg hrouting⟩

theorem filterEntriesWith_of_resolves {κ : Type} {routed} {state : κ}
    {entries : List (HookEntry η)} (h : Resolves snapshot req config entity) :
    filterEntriesWith snapshot entries req.extensions req.hookName routed state =
      Prod.map pluginChain id (routed config entity) := by
  unfold filterEntriesWith
  rw [h.about, Option.bind_some, h.unannotated, h.configured]
  exact if_pos h.routing

/-- A request that does not get as far as the cache is served as if alone. -/
theorem filterEntriesByRoute_of_not_resolves
    (h : ∀ config entity, ¬ Resolves snapshot req config entity) (cache : RouteCache η) :
    filterEntriesByRoute host snapshot req.hash (entriesForHook req.hookName) req.extensions
        req.hookName cache =
      (resolveAlone host snapshot entriesForHook req.hash req, cache) := by
  obtain ⟨answer, -, hanswer⟩ := (filterEntriesWith_cases snapshot req
    (entriesForHook req.hookName)).resolve_right fun ⟨config, entity, hres⟩ => h config entity hres
  unfold resolveAlone filterEntriesByRoute
  rw [hanswer, hanswer]

/-- The memo table behind the route cache: what is looked up, and what is computed on a miss. -/
abbrev memoKey (r : HashOrder × EntityRef × String) : RouteCacheKey := cacheKey r.2.1 r.2.2

abbrev memoCompute (host : Host η) (entriesForHook : String → List (HookEntry η))
    (config : CpexConfig) (r : HashOrder × EntityRef × String) : List (HookEntry η) :=
  resolveEntries host config r.1 (entriesForHook r.2.2) r.2.1 r.2.2

variable {config : CpexConfig} {entity : EntityRef} {cache : RouteCache η}

theorem filterCached_eq_step {hash : HashOrder} {hook : String} :
    filterCached host snapshot config hash (entriesForHook hook) entity hook cache =
      Memo.step memoKey (memoCompute host entriesForHook config) snapshot.routeCacheMaxEntries
        cache (hash, entity, hook) := by
  unfold filterCached Memo.step
  cases cache.lookup (cacheKey entity hook) <;> rfl

/-- A request that gets as far as the cache is a step of the memo table. -/
theorem filterEntriesByRoute_of_resolves (h : Resolves snapshot req config entity)
    (hash : HashOrder) (cache : RouteCache η) :
    filterEntriesByRoute host snapshot hash (entriesForHook req.hookName) req.extensions
        req.hookName cache =
      Prod.map pluginChain id (Memo.step memoKey (memoCompute host entriesForHook config)
        snapshot.routeCacheMaxEntries cache (hash, entity, req.hookName)) := by
  unfold filterEntriesByRoute
  rw [filterEntriesWith_of_resolves h, filterCached_eq_step]

theorem resolveAlone_of_resolves (h : Resolves snapshot req config entity) (hash : HashOrder) :
    resolveAlone host snapshot entriesForHook hash req =
      pluginChain (memoCompute host entriesForHook config (hash, entity, req.hookName)) := by
  unfold resolveAlone
  rw [filterEntriesByRoute_of_resolves h]
  unfold Memo.step
  rw [AList.lookup_empty]
  dsimp only
  split <;> rfl

/-- The requests of a run that share a cache key join the same groups. -/
def TagsAgree (snapshot : RuntimeSnapshot) (requests : List Request) : Prop :=
  ∀ r ∈ requests, ∀ r' ∈ requests, ∀ config entity entity',
    Resolves snapshot r config entity → Resolves snapshot r' config entity' →
    cacheKey entity r.hookName = cacheKey entity' r'.hookName →
    r.hookName ≠ hookIdentityResolve → SameGroups config entity entity'

/-- The cache after the requests `past`: what it holds was computed for some of them. -/
def CacheOf (host : Host η) (snapshot : RuntimeSnapshot)
    (entriesForHook : String → List (HookEntry η)) (past : List Request)
    (cache : RouteCache η) : Prop :=
  ∀ config, snapshot.cpexConfig = some config →
    ∃ served, Memo.Sound memoKey (memoCompute host entriesForHook config) served cache ∧
      ∀ r ∈ served, ∃ req ∈ past, Resolves snapshot req config r.2.1 ∧ req.hookName = r.2.2

/-- One request: it is answered by an uncached resolution, and the cache stays one of the
    requests served. -/
theorem CacheOf.step (hcache : CacheOf host snapshot entriesForHook past cache)
    (hagree : TagsAgree snapshot all) (hpast : req :: past ⊆ all) :
    (∃ hash, (filterEntriesByRoute host snapshot req.hash (entriesForHook req.hookName)
        req.extensions req.hookName cache).1 =
      resolveAlone host snapshot entriesForHook hash req) ∧
    CacheOf host snapshot entriesForHook (req :: past)
      (filterEntriesByRoute host snapshot req.hash (entriesForHook req.hookName)
        req.extensions req.hookName cache).2 := by
  by_cases hres : ∃ config entity, Resolves snapshot req config entity
  · obtain ⟨config, entity, hres⟩ := hres
    obtain ⟨served, hsound, hserved⟩ := hcache config hres.configured
    -- The request joins the ones the table has seen.
    have hserved' : ∀ r ∈ (req.hash, entity, req.hookName) :: served,
        ∃ req' ∈ req :: past, Resolves snapshot req' config r.2.1 ∧ req'.hookName = r.2.2 := by
      intro r hr
      rcases List.mem_cons.mp hr with rfl | hr
      · exact ⟨req, List.mem_cons_self, hres, rfl⟩
      · obtain ⟨req', hreq', h⟩ := hserved r hr
        exact ⟨req', List.mem_cons_of_mem _ hreq', h⟩
    rw [filterEntriesByRoute_of_resolves hres]
    refine ⟨?_, fun config' hconfig' => ?_⟩
    · obtain ⟨r, hr, hkey, hanswer⟩ := Memo.exists_of_step hsound
        snapshot.routeCacheMaxEntries (req.hash, entity, req.hookName)
      obtain ⟨req', hreq', hres', hhook⟩ := hserved' r hr
      have hgroups : r.2.2 ≠ hookIdentityResolve → SameGroups config r.2.1 entity := by
        rw [← hhook]
        refine hagree req' (hpast hreq') req (hpast List.mem_cons_self) config r.2.1 entity hres'
          hres ?_
        rw [hhook]
        exact hkey
      obtain ⟨hash, hentries⟩ :=
        exists_resolveEntries_eq host hkey hgroups r.1 entriesForHook
      refine ⟨hash, ?_⟩
      rw [resolveAlone_of_resolves hres]
      exact congrArg pluginChain (hanswer.trans hentries)
    · cases hres.configured.symm.trans hconfig'
      exact ⟨_, hsound.step _, hserved'⟩
  · rw [filterEntriesByRoute_of_not_resolves fun config entity h => hres ⟨config, entity, h⟩]
    refine ⟨⟨req.hash, rfl⟩, fun config hconfig => ?_⟩
    obtain ⟨served, hsound, hserved⟩ := hcache config hconfig
    refine ⟨served, hsound, fun r hr => ?_⟩
    obtain ⟨req', hreq', h⟩ := hserved r hr
    exact ⟨req', List.mem_cons_of_mem _ hreq', h⟩

/-- In a run whose requests with one cache key join the same groups, each request is answered
    as if it were served alone, whatever the capacity of the cache. -/
theorem serveAll_transparent (host : Host η) (snapshot : RuntimeSnapshot)
    (entriesForHook : String → List (HookEntry η)) (requests : List Request)
    (hagree : TagsAgree snapshot requests) :
    List.Forall₂ (fun req answer =>
        ∃ hash, answer = resolveAlone host snapshot entriesForHook hash req)
      requests (serveAll host snapshot entriesForHook ∅ requests) := by
  have hrun : ∀ (reqs past : List Request) (cache : RouteCache η),
      CacheOf host snapshot entriesForHook past cache → past ⊆ requests → reqs ⊆ requests →
      List.Forall₂ (fun req answer =>
          ∃ hash, answer = resolveAlone host snapshot entriesForHook hash req)
        reqs (serveAll host snapshot entriesForHook cache reqs) := by
    intro reqs
    induction reqs with
    | nil => intro _ _ _ _ _; exact .nil
    | cons req reqs ih =>
      intro past cache hcache hpast hreqs
      have hpast' : req :: past ⊆ requests :=
        List.cons_subset.mpr ⟨hreqs List.mem_cons_self, hpast⟩
      obtain ⟨hanswer, hcache'⟩ := hcache.step hagree hpast'
      exact .cons hanswer (ih _ _ hcache' hpast' fun r hr => hreqs (List.mem_cons_of_mem _ hr))
  refine hrun requests [] ∅ (fun config _ => ⟨[], Memo.sound_empty, ?_⟩) (List.nil_subset _)
    (List.Subset.refl _)
  intro r hr
  exact nomatch hr

end

/-! ### Two requests for one tool -/

/-- Sets walked in the order of their elements. -/
def HashOrder.sorted : HashOrder where
  iter s := s.sort (· ≤ ·)
  mem_iter _ _ := Finset.mem_sort (· ≤ ·)
  nodup_iter s := Finset.sort_nodup s (· ≤ ·)

theorem HashOrder.iter_singleton (a : String) : hash.iter {a} = [a] := by
  refine List.perm_singleton.mp ?_
  refine (List.perm_ext_iff_of_nodup (hash.nodup_iter _) (List.nodup_singleton a)).mpr ?_
  intro x
  rw [hash.mem_iter, Finset.mem_singleton, List.mem_singleton]

/-- The plugin of the group `pii`. -/
def scannerEntry : HookEntry Unit := ⟨⟨{ name := "scanner" }, 0⟩, ()⟩

def piiConfig : CpexConfig where
  global := { policies := AList.singleton "pii" { plugins := [.name "scanner"] } }
  plugins := [scannerEntry.pluginRef.trustedConfig]
  routes := [{ tool := some (.single "payroll") }]
  pluginSettings := { routingEnabled := true }

def piiSnapshot : RuntimeSnapshot where
  executor := {}
  cpexConfig := some piiConfig
  routeCacheMaxEntries := 10000

/-- A request about `payroll` with the given tags. -/
def payrollRequest (tags : Finset String) : Request where
  hash := .sorted
  extensions := toolRequest "payroll" tags
  hookName := "tool_pre_invoke"

/-- What the request resolves to depends on the walk over its tags alone. -/
theorem payrollRequest_compute :
    memoCompute (.bare piiConfig) (fun _ => [scannerEntry]) piiConfig
        (hash, ⟨"tool", "payroll", none, tags⟩, (payrollRequest tags).hookName) =
      (dedupByName ((hash.iter tags).flatMap (fun tag =>
        if tag = "all" then [] else groupPlugins piiConfig.global.policies tag) ++ [])).filterMap
        (entryFor (.bare piiConfig) [scannerEntry]) := by
  have hall : groupPlugins piiConfig.global.policies "all" = [] := rfl
  have hdefault : groupPlugins piiConfig.global.defaults "tool" = [] := rfl
  have hfind : findMatchingRoute piiConfig "tool" "payroll" none =
      some ({ tool := some (.single "payroll") }, 0) := rfl
  unfold memoCompute resolveEntries resolveForHook resolvePluginsForEntity
  rw [if_pos (show piiConfig.routingEnabled = true from rfl), hall, hdefault, hfind]
  rfl

/-- Requests with the same tags are answered alike, and each as if alone. -/
theorem serveAll_transparent_same_tags :
    List.Forall₂ (fun req answer =>
        ∃ hash, answer = resolveAlone (.bare piiConfig) piiSnapshot (fun _ => [scannerEntry]) hash req)
      [payrollRequest {"pii"}, payrollRequest {"pii"}]
      (serveAll (.bare piiConfig) piiSnapshot (fun _ => [scannerEntry]) ∅
        [payrollRequest {"pii"}, payrollRequest {"pii"}]) := by
  refine serveAll_transparent _ _ _ _ fun r hr r' hr' config entity entity' h h' _ _ => ?_
  have hreq : ∀ r ∈ [payrollRequest {"pii"}, payrollRequest {"pii"}],
      r = payrollRequest {"pii"} := by simp
  rw [hreq r hr] at h
  rw [hreq r' hr'] at h'
  cases h.about
  cases h'.about
  exact fun _ _ _ _ _ _ _ => Iff.rfl

/-- A request without tags is served first. The next one carries `pii`, and is answered without
    the plugin of that group. -/
theorem serveAll_forgets_tags :
    serveAll (.bare piiConfig) piiSnapshot (fun _ => [scannerEntry]) ∅
        [payrollRequest ∅, payrollRequest {"pii"}] = [[], []] ∧
      ∀ hash, resolveAlone (.bare piiConfig) piiSnapshot (fun _ => [scannerEntry]) hash
        (payrollRequest {"pii"}) = pluginChain [scannerEntry] := by
  constructor
  · -- The first request fills the cache with the empty list; the second one finds it.
    have hlengths : (serveAll (.bare piiConfig) piiSnapshot (fun _ => [scannerEntry]) ∅
        [payrollRequest ∅, payrollRequest {"pii"}]).map List.length = [0, 0] := by
      decide +kernel
    obtain ⟨first, rest, hanswers, hfirst, hrest⟩ := List.map_eq_cons_iff.mp hlengths
    obtain ⟨second, hsecond, hnone⟩ := List.map_eq_singleton_iff.mp hrest
    rw [hanswers, hsecond, List.length_eq_zero_iff.mp hfirst, List.length_eq_zero_iff.mp hnone]
  · intro hash
    refine congrArg pluginChain ((payrollRequest_compute hash).trans ?_)
    rw [hash.iter_singleton]
    rfl

end Cpex.Core
