import Cpex.Native.Lifecycle
import Cpex.Spec.PipelineRun
import Cpex.Spec.Registrations
import Cpex.Spec.RouteCache

/-! # Plugin instances

What the parts of the manager do to plugin instances: a registration adds to the registry, the loops
of `initialize` and `shutdown` go through it, and a route or an orchestrator may have a new instance
made.
-/

namespace Cpex.Core

variable {η ι τ : Type}

/-! ### The registry -/

namespace PluginRegistry

/-- The registered `PluginRef`s. -/
def refs (registry : PluginRegistry η) : List PluginRef := registry.plugins.entries.map (·.2)

/-- Every entry of the index belongs to a registered plugin. -/
def Indexed (registry : PluginRegistry η) : Prop :=
  ∀ hook, ∀ entry ∈ registry.entriesForHook hook, entry.pluginRef ∈ registry.refs

/-- A registration adds one plugin. -/
theorem registerMultiHandler_ok {registry : PluginRegistry η}
    (hok : registry.registerMultiHandler pluginRef handlers = .ok next)
    (hindexed : registry.Indexed) : next.refs = pluginRef :: registry.refs ∧ next.Indexed := by
  unfold registerMultiHandler at hok
  dsimp only at hok
  split at hok
  · exact nomatch hok
  · next hfree =>
    have hrefs : next.refs = pluginRef :: registry.refs := by
      cases hok
      rw [AList.lookup_isSome] at hfree
      exact congrArg (List.map (·.2)) (AList.entries_insert_of_notMem hfree)
    refine ⟨hrefs, fun hook e he => ?_⟩
    rw [hrefs]
    cases hok
    -- A hook has the entries it had and those of the new plugin.
    rw [entriesForHook, lookup_registered ⟨pluginRef, handlers⟩] at he
    split at he
    · exact List.mem_cons_of_mem _ (hindexed hook e he)
    · rcases List.mem_append.mp ((List.mem_insertionSort _).mp he) with he | he
      · exact List.mem_cons_of_mem _ (hindexed hook e he)
      · rw [Registration.pluginRef_of_mem_entriesAt he]
        exact List.mem_cons_self

theorem mem_refs_of_mem_entriesForPlugin {registry : PluginRegistry η} (hindexed : registry.Indexed)
    (he : e ∈ registry.entriesForPlugin pluginName) : e.2.pluginRef ∈ registry.refs := by
  obtain ⟨hook, hhook, he⟩ := List.mem_flatMap.mp he
  obtain ⟨entry, hentry, rfl⟩ := List.mem_map.mp he
  refine hindexed hook.1 entry ?_
  rw [entriesForHook, AList.mem_lookup_iff.mpr hhook]
  exact List.mem_of_mem_filter hentry

end PluginRegistry

/-! ### Registrations -/

section
variable (host : PluginHost η ι τ)

/-- The plugins of a registry. -/
def PluginRegistry.plugged (registry : PluginRegistry η) : List ι :=
  registry.refs.map (host.plugin ·.id)

variable {registry next : PluginRegistry η}

theorem PluginRegistry.plugged_cons (hrefs : next.refs = pluginRef :: registry.refs) :
    next.plugged host = host.plugin pluginRef.id :: registry.plugged host := by
  rw [plugged, hrefs]
  rfl

theorem instantiatePlugin_ok (hok : instantiatePlugin factories registry config = .ok next)
    (hindexed : registry.Indexed) :
    (∃ plugin, madePlugin host factories config = some plugin ∧
      next.plugged host = plugin :: registry.plugged host) ∧ next.Indexed := by
  unfold instantiatePlugin at hok
  cases hcreate : factories config.kind with
  | none =>
    rw [hcreate] at hok
    exact nomatch hok
  | some create =>
    simp only [hcreate] at hok
    obtain ⟨made, hmade, hregister⟩ := Except.ok_of_bind hok
    obtain ⟨hrefs, hnext⟩ :=
      PluginRegistry.registerMultiHandler_ok (Except.ok_of_mapError hregister) hindexed
    refine ⟨⟨host.plugin made.id, ?_, PluginRegistry.plugged_cons host hrefs⟩, hnext⟩
    simp [madePlugin, hcreate, hmade, Except.toOption]

theorem instantiatePluginsInto_ok
    (hok : instantiatePluginsInto registry configs factories = .ok next)
    (hindexed : registry.Indexed) :
    next.plugged host =
      (configs.filterMap (madePlugin host factories)).reverse ++ registry.plugged host ∧
    next.Indexed := by
  induction configs generalizing registry with
  | nil =>
    cases hok
    exact ⟨rfl, hindexed⟩
  | cons config configs ih =>
    unfold instantiatePluginsInto at hok
    obtain ⟨middle, hmiddle, hrest⟩ := Except.ok_of_bind hok
    obtain ⟨⟨plugin, hplugin, hplugged⟩, hindexed'⟩ := instantiatePlugin_ok host hmiddle hindexed
    obtain ⟨hnext, hindexed''⟩ := ih hrest hindexed'
    refine ⟨?_, hindexed''⟩
    rw [hnext, hplugged, List.filterMap_cons_some hplugin, List.reverse_cons, List.append_assoc]
    rfl

/-- What a call registers comes on top of what was there. -/
theorem Mutator.apply_ok {m : Mutator η} (hm : ∀ name, m ≠ .unregister name)
    {snapshot next : Snapshot η} (hok : m.apply snapshot = .ok next)
    (hindexed : snapshot.registry.Indexed) :
    next.registry.plugged host = (m.plugins host).reverse ++ snapshot.registry.plugged host ∧
      next.registry.Indexed := by
  cases m with
  | register pluginRef handler names =>
    obtain ⟨registry, hregister, rfl⟩ := Except.ok_of_map hok
    obtain ⟨hrefs, hnext⟩ :=
      PluginRegistry.registerMultiHandler_ok (Except.ok_of_mapError hregister) hindexed
    exact ⟨PluginRegistry.plugged_cons host hrefs, hnext⟩
  | unregister name => exact absurd rfl (hm name)
  | annotateRoute a | removeRouteAnnotationAt key =>
    cases hok
    exact ⟨rfl, hindexed⟩
  | loadConfig config factories =>
    obtain ⟨registry, hload, rfl⟩ := Except.ok_of_map hok
    exact instantiatePluginsInto_ok host hload hindexed

end

/-! ### The loops of `initialize` and `shutdown` -/

section
variable (host : PluginHost η ι τ) (plugins : HashMap String PluginRef)

/-- The plugins under the names. -/
def pluginsNamed (names : List String) : List ι :=
  names.filterMap fun name => (plugins.lookup name).map (host.plugin ·.id)

theorem initializeRecorded_cases (plugin : ι) (w : Recorded ι τ) :
    (∃ w', host.initializeRecorded plugin w = (.ok (), w') ∧
      w'.log = w.log ++ [.initialized plugin]) ∨
    ∃ e w', host.initializeRecorded plugin w = (.error e, w') ∧
      w'.log = w.log ++ [.initFailed plugin] := by
  unfold PluginHost.initializeRecorded
  rcases host.initializePlugin plugin w.world with ⟨_ | _, world⟩
  · exact .inr ⟨_, _, rfl, rfl⟩
  · exact .inl ⟨_, rfl, rfl⟩

theorem shutdownNames_log (names : List String) (w : Recorded ι τ) :
    (shutdownNames host plugins names w).log =
      w.log ++ (pluginsNamed host plugins names).map .shutDown := by
  induction names generalizing w with
  | nil => exact (List.append_nil w.log).symm
  | cons name names ih =>
    refine (ih _).trans ?_
    cases hname : plugins.lookup name with
    | none => simp [pluginsNamed, hname]
    | some pluginRef => simp [pluginsNamed, hname, PluginHost.shutdownRecorded, Recorded.record]

/-- What the loop of `initialize` records: all plugins, or those before the one that fails, and then
    those it had done already, backwards. -/
theorem initializeNames_cases (names initializedPlugins : List String) (w : Recorded ι τ) :
    (∃ w', initializeNames host plugins names initializedPlugins w = (.ok (), w') ∧
      w'.log = w.log ++ (pluginsNamed host plugins names).map .initialized) ∨
    ∃ e w' done failed,
      initializeNames host plugins names initializedPlugins w = (.error e, w') ∧
      w'.log = w.log ++ (done.map .initialized ++ .initFailed failed ::
        (pluginsNamed host plugins initializedPlugins ++ done).reverse.map .shutDown) := by
  -- Along the loop, `done` in the claim is what is initialised from here on.
  induction names generalizing initializedPlugins w with
  | nil => exact .inl ⟨w, rfl, (List.append_nil w.log).symm⟩
  | cons name names ih =>
    unfold initializeNames
    cases hname : plugins.lookup name with
    | none =>
      have hskip : pluginsNamed host plugins (name :: names) = pluginsNamed host plugins names :=
        List.filterMap_cons_none (by rw [hname]; rfl)
      rw [hskip]
      exact ih initializedPlugins w
    | some pluginRef =>
      have hcons : ∀ names', pluginsNamed host plugins (name :: names') =
          host.plugin pluginRef.id :: pluginsNamed host plugins names' :=
        fun _ => List.filterMap_cons_some (by rw [hname]; rfl)
      have hsnoc : pluginsNamed host plugins (initializedPlugins ++ [name]) =
          pluginsNamed host plugins initializedPlugins ++ [host.plugin pluginRef.id] :=
        List.filterMap_append.trans (congrArg _ (hcons []))
      obtain ⟨w₁, heq, hlog⟩ | ⟨e, w₁, heq, hlog⟩ :=
        initializeRecorded_cases host (host.plugin pluginRef.id) w
      · simp only [heq]
        obtain ⟨w', hrun, hlog'⟩ | ⟨e, w', done, failed, hrun, hlog'⟩ :=
          ih (initializedPlugins ++ [name]) w₁
        · refine .inl ⟨w', hrun, ?_⟩
          rw [hlog', hlog, hcons, List.append_assoc]
          rfl
        · refine .inr ⟨e, w', host.plugin pluginRef.id :: done, failed, hrun, ?_⟩
          rw [hlog', hlog, hsnoc, List.append_assoc, List.append_assoc]
          rfl
      · -- This is the one that fails: what is rolled back are the plugins before it.
        simp only [heq]
        refine .inr ⟨_, _, [], host.plugin pluginRef.id, rfl, ?_⟩
        rw [shutdownNames_log, hlog, pluginsNamed, List.filterMap_reverse, List.append_assoc,
          List.append_nil]
        rfl

/-- The names of all plugins, in whatever order, stand for all plugins. -/
theorem pluginsNamed_iter (registry : PluginRegistry η) (hash : HashOrder) :
    (pluginsNamed host registry.plugins (hash.iter registry.plugins.keys.toFinset)).Perm
      (registry.plugged host) := by
  have hkeys : (hash.iter registry.plugins.keys.toFinset).Perm registry.plugins.keys := by
    refine (List.perm_ext_iff_of_nodup (hash.nodup_iter _) registry.plugins.keys_nodup).mpr ?_
    intro name
    rw [hash.mem_iter, List.mem_toFinset]
  have hplugged : registry.plugged host = pluginsNamed host registry.plugins
      registry.plugins.keys := by
    rw [PluginRegistry.plugged, PluginRegistry.refs, ← AList.filterMap_lookup_keys,
      List.map_filterMap]
    rfl
  rw [hplugged]
  exact hkeys.filterMap _

end

/-! ### Making instances -/

/-- Nothing is recorded but attempts to initialise new instances, and none unless `may`. -/
def OnlyMakes (may : Prop) (w w' : Recorded ι τ) : Prop :=
  ∃ events, w'.log = w.log ++ events ∧
    ∀ e ∈ events, may ∧ ∃ plugin, e = .initialized plugin ∨ e = .initFailed plugin

section
variable {events : List (LifecycleEvent ι)}
  (h : ∀ e ∈ events, ∃ plugin, e = .initialized plugin ∨ e = .initFailed plugin)
include h

theorem started_notMem_of_makes : .started ∉ events := by
  intro hmem
  obtain ⟨plugin, heq | heq⟩ := h _ hmem <;> cases heq

theorem called_notMem_of_makes (plugin : ι) : .called plugin ∉ events := by
  intro hmem
  obtain ⟨plugin', heq | heq⟩ := h _ hmem <;> cases heq

end

variable {may : Prop} {w w' : Recorded ι τ}

theorem OnlyMakes.of_log_eq (h : w'.log = w.log) : OnlyMakes may w w' :=
  ⟨[], h.trans (List.append_nil w.log).symm, nofun⟩

theorem OnlyMakes.mono {may' : Prop} (h : OnlyMakes may w w') (hmay : may → may') :
    OnlyMakes may' w w' := by
  obtain ⟨events, hlog, hevents⟩ := h
  exact ⟨events, hlog, fun e he => (hevents e he).imp_left hmay⟩

theorem OnlyMakes.trans (h : OnlyMakes may w w₁) (h' : OnlyMakes may w₁ w₂) :
    OnlyMakes may w w₂ := by
  obtain ⟨events, hlog, hevents⟩ := h
  obtain ⟨events', hlog', hevents'⟩ := h'
  refine ⟨events ++ events', by rw [hlog', hlog, List.append_assoc], fun e he => ?_⟩
  exact (List.mem_append.mp he).elim (hevents e) (hevents' e)

theorem OnlyMakes.subset (h : OnlyMakes may w w') : w.log ⊆ w'.log := by
  obtain ⟨events, hlog, -⟩ := h
  rw [hlog]
  exact List.subset_append_left ..

section
variable (host : PluginHost η ι τ)

/-- A new instance that can be initialised is up. -/
theorem initializeInstance_spec (made : PluginInstance η) (w : Recorded ι τ) :
    let out := host.toPlanHost.initializeInstance made w
    OnlyMakes True w out.2 ∧ (out.1 = true → .initialized (host.plugin made.id) ∈ out.2.log) := by
  change OnlyMakes True w (host.initializeRecorded (host.plugin made.id) w).2 ∧
    ((host.initializeRecorded (host.plugin made.id) w).1.toBool = true →
      _ ∈ (host.initializeRecorded (host.plugin made.id) w).2.log)
  obtain ⟨w', heq, hlog⟩ | ⟨e, w', heq, hlog⟩ :=
    initializeRecorded_cases host (host.plugin made.id) w
  · rw [heq]
    refine ⟨⟨_, hlog, fun e he => ⟨trivial, _, .inl (List.mem_singleton.mp he)⟩⟩, fun _ => ?_⟩
    rw [hlog]
    exact List.mem_append_right _ (List.mem_singleton_self _)
  · rw [heq]
    exact ⟨⟨_, hlog, fun e he => ⟨trivial, _, .inr (List.mem_singleton.mp he)⟩⟩, nofun⟩

/-- The factory of a kind, as the manager calls it. -/
theorem toPlanHost_create {create} (h : host.toPlanHost.factories kind = some create)
    (config : PluginConfig) (w : Recorded ι τ) :
    (create config w).2.log = w.log ∧ host.factories kind ≠ none := by
  obtain ⟨create', hcreate, rfl⟩ := Option.map_eq_some_iff.mp h
  exact ⟨rfl, hcreate ▸ Option.some_ne_none create'⟩

theorem createOverrideInstance_spec (baseEntry : HookEntry η) (overrides : Json)
    (w : Recorded ι τ) :
    let out := createOverrideInstance host.toPlanHost baseEntry overrides w
    OnlyMakes (host.factories baseEntry.pluginRef.trustedConfig.kind ≠ none) w out.2 ∧
      ∀ entry ∈ out.1, .initialized (host.pluginOf entry) ∈ out.2.log := by
  unfold createOverrideInstance
  dsimp only
  rcases hcreate : host.toPlanHost.factories baseEntry.pluginRef.trustedConfig.kind
    with _ | create
  · exact ⟨.of_log_eq rfl, fun _ h => nomatch h⟩
  obtain ⟨hlog, hfactory⟩ := toPlanHost_create host hcreate
    (mergeOverride baseEntry.pluginRef.trustedConfig overrides) w
  dsimp only
  rcases hmade : create (mergeOverride baseEntry.pluginRef.trustedConfig overrides) w
    with ⟨e | made, w₁⟩
  all_goals rw [hmade] at hlog
  · exact ⟨.of_log_eq hlog, fun _ h => nomatch h⟩
  dsimp only
  rcases made.handlers.find? _ with _ | h
  · exact ⟨.of_log_eq hlog, fun _ h => nomatch h⟩
  obtain ⟨hmakes, hup⟩ := initializeInstance_spec host made w₁
  refine ⟨(OnlyMakes.of_log_eq hlog).trans (hmakes.mono fun _ => hfactory), fun entry hentry => ?_⟩
  dsimp only at hentry
  split at hentry
  · next hinit =>
    cases hentry
    exact hup hinit
  · exact nomatch hentry

theorem resolveInstances_spec (entries : List (HookEntry η)) (resolved : List ResolvedPlugin)
    (w : Recorded ι τ) :
    let out := resolveInstances host.toPlanHost entries resolved w
    OnlyMakes (¬ ∀ rp ∈ resolved, ∀ entry ∈ entries, entry.name = rp.name →
        rp.configOverrides = none ∨ host.factories entry.pluginRef.trustedConfig.kind = none) w
        out.2 ∧
      ∀ entry ∈ out.1, entry ∈ entries ∨ .initialized (host.pluginOf entry) ∈ out.2.log := by
  induction resolved generalizing w with
  | nil => exact ⟨.of_log_eq rfl, fun _ h => nomatch h⟩
  | cons rp resolved ih =>
    have hmay {p : ResolvedPlugin → Prop} :
        (¬ ∀ rp' ∈ resolved, p rp') → ¬ ∀ rp' ∈ rp :: resolved, p rp' :=
      mt fun hall rp' hrp' => hall rp' (List.mem_cons_of_mem rp hrp')
    unfold resolveInstances
    cases hfind : entries.find? fun e => e.name = rp.name with
    | none => exact (ih w).imp_left (·.mono hmay)
    | some base =>
      have hbase : base ∈ entries := List.mem_of_find?_eq_some hfind
      have hname : base.name = rp.name := by simpa using List.find?_some hfind
      cases hover : rp.configOverrides with
      | none =>
        obtain ⟨hmakes, hrest⟩ := ih w
        refine ⟨hmakes.mono hmay, fun entry hentry => ?_⟩
        rcases List.mem_cons.mp hentry with rfl | hentry
        · exact .inl hbase
        · exact hrest entry hentry
      | some overrides =>
        obtain ⟨hmakes, hmade⟩ := createOverrideInstance_spec host base overrides w
        obtain ⟨hmakes', hrest⟩ :=
          ih (createOverrideInstance host.toPlanHost base overrides w).2
        refine ⟨(hmakes.mono fun hfactory hall => hfactory ?_).trans (hmakes'.mono hmay),
          fun entry hentry => ?_⟩
        · exact (hall rp List.mem_cons_self base hbase hname).resolve_left (by simp [hover])
        rcases List.mem_cons.mp hentry with rfl | hentry
        · cases hoverride : (createOverrideInstance host.toPlanHost base overrides w).1 with
          -- No instance could be made: the entry of the base is used.
          | none => exact .inl hbase
          | some made => exact .inr (hmakes'.subset (hmade made hoverride))
        · exact hrest entry hentry

end

/-- The entries of a dispatch: a synthetic handler, or some of the registered entries, or what is in
    the cache, or what the route resolves to. -/
theorem filterInstances_cases {σ : Type} (host : PlanHost η σ) (snapshot : Snapshot η)
    (request : Request) (cache : RouteCache η) (w : σ) :
    (∃ entry, filterInstances host snapshot request cache w =
      ([annotatedEntry entry], cache, w)) ∨
    (∃ entries, filterInstances host snapshot request cache w = (pluginChain entries, cache, w) ∧
      (entries ⊆ snapshot.registry.entriesForHook request.hookName ∨
        ∃ key, cache.lookup key = some entries)) ∨
    ∃ config entity made w' cache',
      routedBy snapshot.toRuntime request.extensions request.hookName = some (config, entity) ∧
      resolveInstances host (snapshot.registry.entriesForHook request.hookName)
        (resolveForHook config request.hash entity request.hookName) w = (made, w') ∧
      filterInstances host snapshot request cache w = (pluginChain made, cache', w') ∧
      (cache' = cache ∨ cache' = cache.insert (cacheKey entity request.hookName) made) := by
  rcases filterEntriesWith_cases snapshot.toRuntime request
      (snapshot.registry.entriesForHook request.hookName) with
    ⟨answer, ⟨entry, rfl⟩ | ⟨chain, hchain, rfl⟩, hanswer⟩ | ⟨config, entity, hresolves⟩
  · exact .inl ⟨entry, hanswer _ _⟩
  · exact .inr (.inl ⟨chain, hanswer _ _, .inl hchain⟩)
  · right
    unfold filterInstances
    dsimp only
    rw [filterEntriesWith_of_resolves hresolves]
    cases hcached : cache.lookup (cacheKey entity request.hookName) with
    | some cached => exact .inl ⟨cached, rfl, .inr ⟨_, hcached⟩⟩
    | none =>
      exact .inr ⟨config, entity, _, _, _, routedBy_eq_some_iff.mpr hresolves, rfl, rfl,
        (ite_eq_or_eq ..).symm⟩

section
variable (host : PluginHost η ι τ)

theorem instantiateOverride_spec (config : PluginConfig) (w : Recorded ι τ) :
    let out := instantiateOverride host.toPlanHost config w
    OnlyMakes (host.factories config.kind ≠ none) w out.2 ∧
      ∀ e ∈ out.1, .initialized (host.pluginOf e.2) ∈ out.2.log := by
  unfold instantiateOverride
  rcases hcreate : host.toPlanHost.factories config.kind with _ | create
  · exact ⟨.of_log_eq rfl, fun _ h => nomatch h⟩
  obtain ⟨hlog, hfactory⟩ := toPlanHost_create host hcreate config w
  dsimp only
  rcases hmade : create config w with ⟨e | made, w₁⟩
  all_goals rw [hmade] at hlog
  · exact ⟨.of_log_eq hlog, fun _ h => nomatch h⟩
  obtain ⟨hmakes, hup⟩ := initializeInstance_spec host made w₁
  refine ⟨?_, fun e he => ?_⟩
  · dsimp only
    split <;> exact (OnlyMakes.of_log_eq hlog).trans (hmakes.mono fun _ => hfactory)
  · dsimp only at he ⊢
    split at he
    · next hinit =>
      obtain ⟨h, -, rfl⟩ := List.mem_map.mp he
      rw [if_pos hinit]
      exact hup hinit
    · cases he

/-- The entries are those of the plugin, or have its plugin, or are of a new instance that is up. -/
theorem buildOverrideEntries_spec (registry : PluginRegistry η) (pluginName : String)
    (configOverride : Option Yaml) (capabilitiesOverride : Option (Finset String))
    (onErrorOverride : Option OnError) (w : Recorded ι τ) :
    let out := buildOverrideEntries host.toPlanHost registry pluginName configOverride
      capabilitiesOverride onErrorOverride w
    OnlyMakes (¬ (configOverride = none ∨ ∀ e ∈ registry.entriesForPlugin pluginName,
        host.factories e.2.pluginRef.trustedConfig.kind = none)) w out.2 ∧
    ∀ e ∈ out.1,
      (∃ base ∈ registry.entriesForPlugin pluginName,
        host.pluginOf e.2 = host.pluginOf base.2) ∨
      .initialized (host.pluginOf e.2) ∈ out.2.log := by
  unfold buildOverrideEntries
  rcases hbase : registry.entriesForPlugin pluginName with _ | ⟨⟨hook, first⟩, rest⟩
  · exact ⟨.of_log_eq rfl, fun _ h => nomatch h⟩
  split
  · exact ⟨.of_log_eq rfl, fun e he => .inl ⟨e, he, rfl⟩⟩
  rcases configOverride with _ | yaml
  · -- Only capabilities or the error policy change: a new `PluginRef` for the same plugin.
    refine ⟨.of_log_eq rfl, fun e he => .inl ⟨_, List.mem_cons_self, ?_⟩⟩
    obtain ⟨base, -, rfl⟩ := List.mem_map.mp he
    exact host.plugin_newId first.pluginRef w.world
  · dsimp only
    rcases host.toPlanHost.toJson yaml with _ | config
    · exact ⟨.of_log_eq rfl, fun _ h => nomatch h⟩
    · obtain ⟨hmakes, hup⟩ := instantiateOverride_spec host _ w
      refine ⟨hmakes.mono fun hfactory hall => hfactory ?_, fun e he => .inr (hup e he)⟩
      exact hall.resolve_left nofun _ List.mem_cons_self

theorem mem_calledPlugins (h : plugin ∈ calledPlugins host entries calls) :
    ∃ entry ∈ entries, ∃ handler, entry.handler = .plugin handler ∧
      host.pluginOf entry = plugin := by
  obtain ⟨i, -, hi⟩ := List.mem_filterMap.mp h
  obtain ⟨entry, hentry, hplugin⟩ := Option.bind_eq_some_iff.mp hi
  refine ⟨entry, List.mem_of_getElem? hentry, ?_⟩
  unfold PluginHost.calledPlugin at hplugin
  split at hplugin
  · next handler hhandler => exact ⟨handler, hhandler, Option.some.inj hplugin⟩
  · exact nomatch hplugin

/-- The plugins called are those of the entries in the chain. -/
theorem mem_calledPlugins_pluginChain (h : plugin ∈ calledPlugins host (pluginChain entries) calls) :
    ∃ entry ∈ entries, host.pluginOf entry = plugin := by
  obtain ⟨called, hcalled, -, -, hplugin⟩ := mem_calledPlugins host h
  obtain ⟨entry, hentry, rfl⟩ := List.mem_map.mp hcalled
  exact ⟨entry, hentry, hplugin⟩

end

/-- Whatever the executor does with the entries of a dispatch, the handlers that it calls are those
    of some list of calls. -/
theorem exists_calls_execute {π σ : Type} (host : PluginHost η ι τ) (rt : Runtime (Handler η) π σ)
    (config : ExecutorConfig) (entries : List (HookEntry (Handler η))) (payload : π)
    (extensions : Extensions) (contextTable : Option PluginContextTable) (disabled : Finset Uuid)
    (world : σ) :
    ∃ calls, calledPlugins host entries calls =
      (execute rt config entries payload extensions contextTable disabled
        world).state.trace.filterMap fun r => host.calledPlugin r.entry := by
  have hwithin := execute_trace rt config entries payload extensions contextTable disabled world
  generalize (execute rt config entries payload extensions contextTable disabled
    world).state.trace = trace at hwithin ⊢
  induction trace with
  | nil => exact ⟨[], rfl⟩
  | cons r trace ih =>
    obtain ⟨calls, hcalls⟩ := ih fun r' hr' => hwithin r' (List.mem_cons_of_mem r hr')
    obtain ⟨i, hi⟩ := List.mem_iff_getElem?.mp (hwithin r List.mem_cons_self)
    refine ⟨i :: calls, ?_⟩
    rw [calledPlugins, List.filterMap_cons, List.filterMap_cons, hi, Option.bind_some, ← hcalls]
    rfl

end Cpex.Core
