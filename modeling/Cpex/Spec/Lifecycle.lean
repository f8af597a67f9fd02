import Mathlib.Data.List.Count
import Cpex.Spec.Instances

/-! # Initialised before they run, shut down once

A manager is started by an `initialize` that goes through. From then on a plugin's handler should
run only after the plugin's own `initialize`, and a `shutdown` should reach every plugin that is up.
-/

namespace Cpex.Core

variable {η ι τ : Type}

/-! ### What the calls of a run are like -/

namespace LifecycleState

section
variable (host : PluginHost η ι τ) (st : LifecycleState η ι τ)

/-- The plugins that are registered. -/
abbrev plugged : List ι := st.runtime.registry.plugged host

/-- On a manager that was started, no plugin has been registered since. -/
abbrev NoneWaiting : Prop :=
  .started ∈ st.host.log →
    ∀ e ∈ st.host.log, e.isRegistered = true → ¬ Log.Live e .started st.host.log

/-- A dispatch comes when no plugin waits for the next start. -/
def Settled : LifecycleOp η → Prop
  | .invoke _ _ | .invokeEntries _ => st.NoneWaiting
  | _ => True

/-- No plugin is registered twice. -/
def OwnPlugins : LifecycleOp η → Prop
  | .mutate m _ => ((m.plugins host).reverse ++ st.plugged host).Nodup
  | _ => True

/-- There is no factory for a plugin whose configuration is overridden. -/
def OverridesNothing : LifecycleOp η → Prop
  | .invoke request _ =>
    ∀ routed ∈ routedBy st.runtime.toRuntime request.extensions request.hookName,
      ∀ rp ∈ resolveForHook routed.1 request.hash routed.2 request.hookName,
        ∀ entry ∈ st.runtime.registry.entriesForHook request.hookName, entry.name = rp.name →
          rp.configOverrides = none ∨
            host.factories entry.pluginRef.trustedConfig.kind = none
  | .buildOverrideEntries pluginName configOverride _ _ =>
    configOverride = none ∨ ∀ e ∈ st.runtime.registry.entriesForPlugin pluginName,
      host.factories e.2.pluginRef.trustedConfig.kind = none
  | _ => True

end

/-- A handler that is called after the manager was started is that of a plugin whose `initialize`
    succeeded before. -/
def InitializedBefore (past : List (LifecycleEvent ι)) : LifecycleEvent ι → Prop
  | .called plugin => .started ∈ past → .initialized plugin ∈ past
  | _ => True

section
variable (host : PluginHost η ι τ) (st : LifecycleState η ι τ)

/-- An `initialize` that fails shuts down the plugins it had initialised, in reverse. -/
def RollsBack : Prop :=
  ∀ hash e, (st.initializeAll host hash).1 = .error e →
    ∃ (done : List ι) (failed : ι), (st.initializeAll host hash).2.host.log = st.host.log ++
      (done.map .initialized ++ .initFailed failed :: done.reverse.map .shutDown)

/-- The plugin is up: its `initialize` succeeded, and it was not shut down since. -/
def Up (plugin : ι) : Prop := Log.Live (.initialized plugin) (.shutDown plugin) st.host.log

/-- A `shutdown` shuts every plugin that is up down, once. -/
def ShutsDownOnce [DecidableEq ι] : Prop :=
  ∀ hash, ∃ events, (st.shutdown host hash).host.log = st.host.log ++ events ∧
    ∀ plugin, st.Up plugin → events.count (.shutDown plugin) = 1

/-! ### What one call does -/

/-- The plugin of the entry is registered, or was initialised. -/
def Known (entry : HookEntry η) : Prop :=
  host.pluginOf entry ∈ st.plugged host ∨ .initialized (host.pluginOf entry) ∈ st.host.log

/-- The entry is in the route cache or was handed out. -/
def Holds (entry : HookEntry η) : Prop :=
  (∃ key entries, st.routeCache.lookup key = some entries ∧ entry ∈ entries) ∨
    entry ∈ st.handedOut

/-- What a call records, and what it says about plugins then: `added` are the plugins it registers. -/
inductive Happens (st' : LifecycleState η ι τ) (op : LifecycleOp η) :
    (added : List ι) → (events : List (LifecycleEvent ι)) → Prop where
  | registers (added : List ι)
      (hown : st.OwnPlugins host op → (added.reverse ++ st.plugged host).Nodup)
      (hinitialized : st'.initialized = st.initialized) : Happens st' op added (added.map .registered)
  | starts {plugins : List ι} (hperm : plugins.Perm (st.plugged host))
      (hinitialized : st'.initialized = true) :
      Happens st' op [] (plugins.map .initialized ++ [.started])
  | rollsBack (done : List ι) (failed : ι) (hinitialized : st'.initialized = st.initialized) :
      Happens st' op []
        (done.map .initialized ++ .initFailed failed :: done.reverse.map .shutDown)
  /-- Instances are made, and then handlers of plugins that are known are called. -/
  | dispatches {made : List (LifecycleEvent ι)} {called : List ι}
      (hmakes : ∀ e ∈ made, ∃ plugin, e = .initialized plugin ∨ e = .initFailed plugin)
      (hnone : st.OverridesNothing host op → made = [])
      (hsettled : called ≠ [] → st.Settled op → st.NoneWaiting)
      (hknows : ∀ plugin ∈ called,
        plugin ∈ st.plugged host ∨ .initialized plugin ∈ st.host.log ++ made)
      (hinitialized : st'.initialized = st.initialized) :
      Happens st' op [] (made ++ called.map .called)
  | stops {plugins : List ι} (hperm : plugins.Perm (st.plugged host)) :
      Happens st' op [] (plugins.map .shutDown)

/-- The state after a call that registers `added` and records `events`. -/
structure Steps (st' : LifecycleState η ι τ) (added : List ι) (events : List (LifecycleEvent ι)) :
    Prop where
  plugged : st'.plugged host = added.reverse ++ st.plugged host
  indexed : st'.runtime.registry.Indexed
  log : st'.host.log = st.host.log ++ events
  holds : ∀ entry, st'.Holds entry → st.Holds entry ∨ st'.Known host entry

/-- Entries are of plugins that are known, and plugins were initialised or wait for the next
    start. -/
structure Tracked : Prop where
  indexed : st.runtime.registry.Indexed
  held : ∀ entry, st.Holds entry → st.Known host entry
  waiting : ∀ plugin ∈ st.plugged host, .initialized plugin ∈ st.host.log ∨
    Log.Live (.registered plugin) .started st.host.log

end

variable {host : PluginHost η ι τ} {st st' : LifecycleState η ι τ} {entry : HookEntry η}
  {added : List ι} {events : List (LifecycleEvent ι)} {op : LifecycleOp η}

theorem Known.of_steps (h : st.Known host entry) (hst : st.Steps host st' added events) :
    st'.Known host entry := by
  refine h.imp (fun h => ?_) fun h => ?_
  · rw [hst.plugged]
    exact List.mem_append_right _ h
  · rw [hst.log]
    exact List.mem_append_left _ h

/-- The registry and the entries stay as they are. -/
theorem Steps.of_log (h : st.Tracked host) (hruntime : st'.runtime = st.runtime)
    (hcache : st'.routeCache = st.routeCache) (hhanded : st'.handedOut = st.handedOut)
    (hlog : st'.host.log = st.host.log ++ events) : st.Steps host st' [] events where
  plugged := by unfold LifecycleState.plugged; rw [hruntime]; rfl
  indexed := hruntime ▸ h.indexed
  log := hlog
  holds entry hentry := .inl (by rwa [Holds, hcache, hhanded] at hentry)

theorem Tracked.known_of_mem_entriesForHook (h : st.Tracked host)
    (hentry : entry ∈ st.runtime.registry.entriesForHook hook) : st.Known host entry :=
  .inl (List.mem_map_of_mem (h.indexed hook entry hentry))

theorem Tracked.new (executor : ExecutorConfig) (routeCacheMaxEntries : Nat) (world : τ) :
    (new executor routeCacheMaxEntries world : LifecycleState η ι τ).Tracked host where
  indexed := fun _ _ hentry => nomatch hentry
  held := by rintro entry (⟨_, _, hentries, -⟩ | hentry) <;> contradiction
  waiting := nofun

/-- A call that makes no instance. -/
theorem Happens.calls {called : List ι} (hsettled : called ≠ [] → st.Settled op → st.NoneWaiting)
    (hknows : ∀ plugin ∈ called, plugin ∈ st.plugged host ∨ .initialized plugin ∈ st.host.log)
    (hinitialized : st'.initialized = st.initialized) :
    st.Happens host st' op [] (called.map .called) :=
  @Happens.dispatches _ _ _ host st st' op [] called nofun (fun _ => rfl) hsettled
    (by rwa [List.append_nil]) hinitialized

theorem Tracked.idle (h : st.Tracked host) (op : LifecycleOp η) :
    ∃ events, st.Steps host st [] events ∧ st.Happens host st op [] events :=
  ⟨[], .of_log h rfl rfl rfl (List.append_nil _).symm,
    Happens.calls (fun h => absurd rfl h) (List.forall_mem_nil _) rfl⟩

/-- What an `initialize` does: nothing on a manager that is initialised, and else it initialises all
    plugins, or fails and shuts down what it had initialised. -/
theorem initializeAll_cases (host : PluginHost η ι τ) (st : LifecycleState η ι τ)
    (hash : HashOrder) :
    (st.initialized = true ∧ st.initializeAll host hash = (.ok (), st)) ∨
    (st.initialized = false ∧ ∃ (plugins : List ι) (w' : Recorded ι τ),
      st.initializeAll host hash = (.ok (), { st with initialized := true, host := w' }) ∧
      plugins.Perm (st.plugged host) ∧
      w'.log = st.host.log ++ (plugins.map .initialized ++ [.started])) ∨
    (st.initialized = false ∧ ∃ (e : PluginError) (w' : Recorded ι τ) (done : List ι) (failed : ι),
      st.initializeAll host hash = (.error e, { st with host := w' }) ∧
      w'.log = st.host.log ++
        (done.map .initialized ++ .initFailed failed :: done.reverse.map .shutDown)) := by
  unfold initializeAll
  cases hinitialized : st.initialized with
  | true => exact .inl ⟨rfl, rfl⟩
  | false =>
    right
    rw [if_neg Bool.false_ne_true]
    obtain ⟨w', heq, hlog⟩ | ⟨e, w', done, failed, heq, hlog⟩ := initializeNames_cases host
      st.runtime.registry.plugins (st.pluginNames hash) [] st.host
    · refine .inl ⟨rfl, _, w'.record [.started], by rw [heq],
        pluginsNamed_iter host st.runtime.registry hash, ?_⟩
      rw [← List.append_assoc, Recorded.record, hlog]
      rfl
    · exact .inr ⟨rfl, e, w', done, failed, by rw [heq], hlog⟩

theorem rollsBack (host : PluginHost η ι τ) (st : LifecycleState η ι τ) : st.RollsBack host := by
  intro hash e herror
  obtain ⟨-, heq⟩ | ⟨-, plugins, w', heq, -⟩ | ⟨-, e', w', done, failed, heq, hlog⟩ :=
    initializeAll_cases host st hash
  · rw [heq] at herror
    exact nomatch herror
  · rw [heq] at herror
    exact nomatch herror
  · exact ⟨done, failed, by rw [heq, hlog]⟩

theorem Tracked.steps_mutate (h : st.Tracked host) (hm : ∀ name, m ≠ .unregister name) :
    ∃ added events, st.Steps host (st.mutate host m) added events ∧
      st.Happens host (st.mutate host m) (.mutate m hm) added events := by
  unfold LifecycleState.mutate
  cases hok : m.apply st.runtime with
  | error e => exact ⟨[], h.idle _⟩
  | ok next =>
    obtain ⟨hplugged, hindexed⟩ := m.apply_ok host hm hok h.indexed
    refine ⟨m.plugins host, _, ⟨hplugged, hindexed, rfl, fun entry hentry => .inl ?_⟩,
      .registers _ id rfl⟩
    refine hentry.imp_left fun ⟨key, entries, hentries, hmem⟩ => ⟨key, entries, ?_, hmem⟩
    dsimp only at hentries
    split at hentries
    · cases hentries
    · exact hentries

theorem Tracked.steps_buildOverrideEntries (h : st.Tracked host) (pluginName : String)
    (configOverride : Option Yaml) (capabilitiesOverride : Option (Finset String))
    (onErrorOverride : Option OnError) :
    let st' := st.buildOverrideEntries host pluginName configOverride capabilitiesOverride
      onErrorOverride
    ∃ events, st.Steps host st' [] events ∧ st.Happens host st' (.buildOverrideEntries pluginName
      configOverride capabilitiesOverride onErrorOverride) [] events := by
  obtain ⟨⟨events, hlog, hevents⟩, hentries⟩ := buildOverrideEntries_spec host st.runtime.registry
    pluginName configOverride capabilitiesOverride onErrorOverride st.host
  refine ⟨events, ⟨rfl, h.indexed, hlog, fun entry hentry => ?_⟩, ?_⟩
  · rcases hentry with hentry | hentry
    · exact .inl (.inl hentry)
    rcases List.mem_append.mp hentry with hentry | hentry
    · exact .inl (.inr hentry)
    obtain ⟨e, he, rfl⟩ := List.mem_map.mp hentry
    right
    rcases hentries e he with ⟨base, hbase, heq⟩ | hup
    · left
      rw [heq]
      exact List.mem_map_of_mem
        (PluginRegistry.mem_refs_of_mem_entriesForPlugin h.indexed hbase)
    · exact .inr hup
  · rw [← List.append_nil events]
    refine @Happens.dispatches _ _ _ host _ _ _ events [] (fun e he => (hevents e he).2)
      (fun hnone => ?_) (fun h => absurd rfl h) nofun rfl
    exact List.eq_nil_iff_forall_not_mem.mpr fun e he => (hevents e he).1 hnone

/-- A dispatch makes instances, and then calls handlers of plugins that are known. -/
theorem Tracked.steps_invoke (h : st.Tracked host) (request : Request) (calls : List Nat) :
    ∃ events, st.Steps host (st.invoke host request calls) [] events ∧
      st.Happens host (st.invoke host request calls) (.invoke request calls) [] events := by
  unfold LifecycleState.invoke
  dsimp only
  split
  · exact h.idle _
  obtain ⟨entry, heq⟩ | ⟨entries, heq, hentries⟩ |
      ⟨config, entity, made, w', cache', hrouted, hmade, heq, hcache⟩ :=
    filterInstances_cases host.toPlanHost st.runtime request st.routeCache st.host
  all_goals rw [heq]
  · -- A synthetic handler: no plugin of the registry is called.
    refine ⟨_, .of_log h rfl rfl rfl rfl, .calls (fun _ h => h) (fun plugin hplugin => ?_) rfl⟩
    obtain ⟨e, he, handler, hhandler, -⟩ := mem_calledPlugins host hplugin
    rw [List.mem_singleton.mp he] at hhandler
    cases hhandler
  · refine ⟨_, .of_log h rfl rfl rfl rfl, .calls (fun _ h => h) (fun plugin hplugin => ?_) rfl⟩
    obtain ⟨entry, hentry, rfl⟩ := mem_calledPlugins_pluginChain host hplugin
    rcases hentries with hsubset | ⟨key, hcached⟩
    · exact h.known_of_mem_entriesForHook (hsubset hentry)
    · exact h.held entry (.inl ⟨key, entries, hcached, hentry⟩)
  · obtain ⟨⟨events, hlog, hevents⟩, hknown⟩ := resolveInstances_spec host
      (st.runtime.registry.entriesForHook request.hookName)
      (resolveForHook config request.hash entity request.hookName) st.host
    rw [hmade] at hlog hknown
    have hmadeKnown : ∀ entry ∈ made, host.pluginOf entry ∈ st.plugged host ∨
        .initialized (host.pluginOf entry) ∈ st.host.log ++ events := fun entry hentry =>
      (hknown entry hentry).elim
        (fun hentry => (h.known_of_mem_entriesForHook hentry).imp_right
          (List.mem_append_left events))
        fun hup => .inr (hlog ▸ hup)
    refine ⟨events ++ (calledPlugins host (pluginChain made) calls).map .called,
      ⟨rfl, h.indexed, by rw [Recorded.record, hlog, List.append_assoc], ?_⟩, ?_⟩
    · rintro entry (⟨key, entries, hentries, hentry⟩ | hentry)
      · rcases hcache with rfl | rfl
        · exact .inl (.inl ⟨key, entries, hentries, hentry⟩)
        · by_cases hkey : key = cacheKey entity request.hookName
          · subst hkey
            cases (AList.lookup_insert _).symm.trans hentries
            refine .inr ((hmadeKnown entry hentry).imp_right fun hup => ?_)
            rw [Recorded.record, hlog]
            exact List.mem_append_left _ hup
          · rw [AList.lookup_insert_ne hkey] at hentries
            exact .inl (.inl ⟨key, entries, hentries, hentry⟩)
      · exact .inl (.inr hentry)
    · apply Happens.dispatches (fun e he => (hevents e he).2)
      · exact fun hnone => List.eq_nil_iff_forall_not_mem.mpr fun e he =>
          (hevents e he).1 (hnone (config, entity) hrouted)
      · exact fun _ hsettled => hsettled
      · intro plugin hplugin
        obtain ⟨entry, hentry, rfl⟩ := mem_calledPlugins_pluginChain host hplugin
        exact hmadeKnown entry hentry
      · rfl

theorem Tracked.steps (h : st.Tracked host) (op : LifecycleOp η) :
    ∃ added events, st.Steps host (st.step host op) added events ∧
      st.Happens host (st.step host op) op added events := by
  cases op with
  | mutate m hm => exact h.steps_mutate hm
  | initializeAll hash =>
    change ∃ added events, st.Steps host (st.initializeAll host hash).2 added events ∧
      st.Happens host (st.initializeAll host hash).2 _ added events
    obtain ⟨-, heq⟩ | ⟨-, plugins, w', heq, hperm, hlog⟩ | ⟨-, e, w', done, failed, heq, hlog⟩ :=
      initializeAll_cases host st hash
    all_goals rw [heq]
    · exact ⟨[], h.idle _⟩
    · exact ⟨[], _, .of_log h rfl rfl rfl hlog, .starts hperm rfl⟩
    · exact ⟨[], _, .of_log h rfl rfl rfl hlog, .rollsBack done failed rfl⟩
  | invoke request calls => exact ⟨[], h.steps_invoke request calls⟩
  | buildOverrideEntries pluginName configOverride capabilitiesOverride onErrorOverride =>
    exact ⟨[], h.steps_buildOverrideEntries pluginName configOverride capabilitiesOverride
      onErrorOverride⟩
  | invokeEntries calls =>
    refine ⟨[], _, .of_log h rfl rfl rfl rfl,
      .calls (fun _ h => h) (fun plugin hplugin => ?_) rfl⟩
    obtain ⟨entry, hentry, rfl⟩ := mem_calledPlugins_pluginChain host hplugin
    exact h.held entry (.inr hentry)
  | shutdown hash =>
    change ∃ added events, st.Steps host (st.shutdown host hash) added events ∧
      st.Happens host (st.shutdown host hash) _ added events
    unfold LifecycleState.shutdown
    split
    · exact ⟨[], _, .of_log h rfl rfl rfl (shutdownNames_log ..),
        .stops (pluginsNamed_iter host st.runtime.registry hash)⟩
    · exact ⟨[], h.idle _⟩

theorem Steps.tracked (hst : st.Steps host st' added events)
    (hh : st.Happens host st' op added events) (h : st.Tracked host) : st'.Tracked host := by
  -- A plugin is initialised in the call, or registered in it, or waits on as before.
  have hwaits : ∀ plugin ∈ added.reverse ++ st.plugged host, .initialized plugin ∈ events ∨
      Log.Live (.registered plugin) .started events ∨
      plugin ∈ st.plugged host ∧ .started ∉ events := by
    intro plugin hplugin
    cases hh with
    | registers =>
      have hstarted : LifecycleEvent.started ∉ added.map .registered := by simp
      rcases List.mem_append.mp hplugin with hplugin | hplugin
      · exact .inr (.inl (Log.live_of_mem
          (List.mem_map_of_mem (List.mem_reverse.mp hplugin)) hstarted))
      · exact .inr (.inr ⟨hplugin, hstarted⟩)
    | starts hperm => exact .inl (by simp [hperm.mem_iff.mpr hplugin])
    | rollsBack => exact .inr (.inr ⟨hplugin, by simp⟩)
    | dispatches hmakes =>
      exact .inr (.inr ⟨hplugin, by simp [started_notMem_of_makes hmakes]⟩)
    | stops => exact .inr (.inr ⟨hplugin, by simp⟩)
  refine ⟨hst.indexed, fun entry hentry => ?_, fun plugin hplugin => ?_⟩
  · exact (hst.holds entry hentry).elim (fun hentry => (h.held entry hentry).of_steps hst) id
  · rw [hst.plugged] at hplugin
    rw [hst.log]
    rcases hwaits plugin hplugin with hup | hlive | ⟨hplugged, hstarted⟩
    · exact .inl (List.mem_append_right _ hup)
    · exact .inr (Log.live_append.mpr (.inr hlive))
    · exact (h.waiting plugin hplugged).imp (List.mem_append_left events) (·.append hstarted)

/-! ### Called after they were initialised -/

/-- Events that are not calls. -/
theorem caused_append (h : Log.Caused InitializedBefore log)
    (hcalls : ∀ plugin, .called plugin ∉ events) :
    Log.Caused InitializedBefore (log ++ events) := by
  refine h.append fun e he more _ => ?_
  cases e with
  | called plugin => exact absurd he (hcalls plugin)
  | _ => trivial

theorem Steps.caused (hst : st.Steps host st' added events)
    (hh : st.Happens host st' op added events) (h : st.Tracked host)
    (hcaused : Log.Caused InitializedBefore st.host.log) (hsettled : st.Settled op) :
    Log.Caused InitializedBefore st'.host.log := by
  rw [hst.log]
  cases hh with
  | @dispatches made called hmakes _ hop hknows =>
    have hmade : Log.Caused InitializedBefore (st.host.log ++ made) :=
      caused_append hcaused (called_notMem_of_makes hmakes)
    rw [← List.append_assoc]
    refine hmade.append fun e he more hmore => ?_
    obtain ⟨plugin, hplugin, rfl⟩ := List.mem_map.mp he
    intro hstarted
    -- Neither making instances nor calling handlers starts the manager.
    have hstarted' : .started ∈ st.host.log := by
      rcases List.mem_append.mp hstarted with hmem | hmem
      · exact (List.mem_append.mp hmem).resolve_right (started_notMem_of_makes hmakes)
      · simpa using hmore hmem
    refine List.mem_append_left more ?_
    rcases hknows plugin hplugin with hplugged | hup
    · -- A registered plugin has been initialised, since none is waiting.
      refine List.mem_append_left made ((h.waiting plugin hplugged).resolve_right fun hlive => ?_)
      exact hop (List.ne_nil_of_mem hplugin) hsettled hstarted' _ hlive.mem rfl hlive
    · exact hup
  | _ => exact caused_append hcaused (by simp)

/-! ### Shut down once -/

/-- No plugin is registered twice, and those that are up are registered, on a manager that is
    initialised. -/
structure Kept (host : PluginHost η ι τ) (st : LifecycleState η ι τ) : Prop where
  nodup : (st.plugged host).Nodup
  up : ∀ plugin, st.Up plugin → st.initialized = true ∧ plugin ∈ st.plugged host

theorem Steps.kept (hst : st.Steps host st' added events) (hh : st.Happens host st' op added events)
    (h : st.Kept host) (hown : st.OwnPlugins host op) (hnone : st.OverridesNothing host op) :
    st'.Kept host := by
  refine ⟨?_, fun plugin hup => ?_⟩
  · rw [hst.plugged]
    cases hh with
    | registers _ hnodup => exact hnodup hown
    | _ => exact h.nodup
  rw [Up, hst.log] at hup
  rw [hst.plugged]
  rcases Log.live_append.mp hup with ⟨hup, hshut⟩ | hup
  · -- What was up is still up, and so not shut down in this call.
    obtain ⟨hinitialized, hplugged⟩ := h.up plugin hup
    refine ⟨?_, List.mem_append_right _ hplugged⟩
    cases hh with
    | registers _ _ hsame => exact hsame.trans hinitialized
    | starts _ hset => exact hset
    | rollsBack _ _ hsame | dispatches _ _ _ _ hsame => exact hsame.trans hinitialized
    | stops hperm =>
      exact absurd (List.mem_map_of_mem (hperm.mem_iff.mpr hplugged)) hshut
  · have hmem := hup.mem
    cases hh with
    | starts hperm hset => exact ⟨hset, hperm.mem_iff.mp (by simpa using hmem)⟩
    | rollsBack done failed =>
      -- What was initialised in this call was shut down in it.
      have hdone : plugin ∈ done := by simpa using hmem
      rcases Log.live_append.mp hup with ⟨-, hshut⟩ | hup
      · simp [hdone] at hshut
      · simpa using hup.mem
    | dispatches _ hmade =>
      rw [hmade hnone] at hmem
      simp at hmem
    | registers => simp at hmem
    | stops => simp at hmem

theorem Kept.shutsDownOnce [DecidableEq ι] (h : st.Kept host) : st.ShutsDownOnce host := by
  intro hash
  unfold LifecycleState.shutdown
  split
  · have hperm := pluginsNamed_iter host st.runtime.registry hash
    refine ⟨_, shutdownNames_log .., fun plugin hup => ?_⟩
    rw [List.count_map_of_injective _ _ fun _ _ => LifecycleEvent.shutDown.inj]
    exact (hperm.count_eq plugin).trans (List.count_eq_one_of_mem h.nodup (h.up plugin hup).2)
  · next hinitialized =>
    exact ⟨[], (List.append_nil _).symm, fun plugin hup => absurd (h.up plugin hup).1 hinitialized⟩

/-- A plugin that is not registered is out of reach of a `shutdown`. -/
theorem Up.shutdown (hup : st.Up plugin) (hplugged : plugin ∉ st.plugged host) (hash : HashOrder) :
    (st.shutdown host hash).Up plugin := by
  unfold LifecycleState.shutdown
  split
  · rw [Up]
    rw [shutdownNames_log]
    refine hup.append fun hmem => hplugged ?_
    obtain ⟨plugin', hplugin, heq⟩ := List.mem_map.mp hmem
    cases heq
    exact (pluginsNamed_iter host st.runtime.registry hash).mem_iff.mp hplugin
  · exact hup

/-! ### Runs -/

/-- The invariant of the runs whose dispatches are settled. -/
structure Sound (host : PluginHost η ι τ) (st : LifecycleState η ι τ) : Prop
    extends Tracked host st where
  caused : Log.Caused InitializedBefore st.host.log

/-- The invariant of the runs that register no plugin twice and make no override instance. -/
structure Accounted (host : PluginHost η ι τ) (st : LifecycleState η ι τ) : Prop
    extends Tracked host st, Kept host st

theorem Sound.step (h : st.Sound host) (hsettled : st.Settled op) :
    (st.step host op).Sound host := by
  obtain ⟨new, events, hst, hh⟩ := h.toTracked.steps op
  exact ⟨hst.tracked hh h.toTracked, hst.caused hh h.toTracked h.caused hsettled⟩

theorem Accounted.step (h : st.Accounted host)
    (hmeets : st.OwnPlugins host op ∧ st.OverridesNothing host op) :
    (st.step host op).Accounted host := by
  obtain ⟨new, events, hst, hh⟩ := h.toTracked.steps op
  exact ⟨hst.tracked hh h.toTracked, hst.kept hh h.toKept hmeets.1 hmeets.2⟩

/-- In the runs whose dispatches are settled, plugins are initialised before they are called. In
    every run, an `initialize` that fails is rolled back. In the runs that register no plugin twice
    and make no override instance, a `shutdown` reaches every plugin that is up, once; in no run
    does it reach one that is not registered. -/
theorem lifecycle [DecidableEq ι] (host : PluginHost η ι τ) (executor : ExecutorConfig)
    (routeCacheMaxEntries : Nat) (world : τ) (ops : List (LifecycleOp η)) :
    let start : LifecycleState η ι τ := new executor routeCacheMaxEntries world
    let st := start.run host ops
    (Schedule.Always (step host) Settled ops start →
      Log.Caused InitializedBefore st.host.log) ∧
    st.RollsBack host ∧
    (Schedule.Always (step host)
        (fun st op => st.OwnPlugins host op ∧ st.OverridesNothing host op) ops start →
      st.ShutsDownOnce host) ∧
    ∀ hash plugin, plugin ∉ st.plugged host → st.Up plugin →
      (st.shutdown host hash).Up plugin := by
  intro start st
  have htracked : start.Tracked host := .new ..
  refine ⟨fun hsettled => ?_, rollsBack host st, fun hmeets => ?_,
    fun hash plugin hplugged hup => hup.shutdown hplugged hash⟩
  · have hrun : Sound host (Schedule.run (step host) ops start) :=
      hsettled.run_induction (fun _ _ hop h => h.step hop) ⟨htracked, Log.caused_nil⟩
    exact hrun.caused
  · have hrun : Accounted host (Schedule.run (step host) ops start) :=
      hmeets.run_induction (fun _ _ hop h => h.step hop)
        ⟨htracked, List.nodup_nil, fun _ hup => hup.elim⟩
    exact hrun.toKept.shutsDownOnce

/-! ### Three runs -/

section
variable [DecidableEq ι] (host : PluginHost η ι τ) (st : LifecycleState η ι τ) (op : LifecycleOp η)

instance : Decidable (st.Settled op) := by
  cases op <;> dsimp only [Settled] <;> infer_instance

instance : Decidable (st.OwnPlugins host op) := by
  cases op <;> dsimp only [OwnPlugins] <;> infer_instance

instance : Decidable (st.OverridesNothing host op) := by
  cases op <;> dsimp only [OverridesNothing] <;> infer_instance

instance (past : List (LifecycleEvent ι)) (e : LifecycleEvent ι) :
    Decidable (InitializedBefore past e) := by
  cases e <;> dsimp only [InitializedBefore] <;> infer_instance

end

/-- Plugins by number. The factory makes number 7. -/
def numbered (fails : Nat → Bool) : PluginHost Unit Nat Unit where
  toJson _ := none
  factories _ := some fun _ w => (.ok ⟨[("tool_pre_invoke", ())], 7⟩, w)
  hookTypeName _ := "tool_pre_invoke"
  plugin id := id
  initializePlugin n w := (if fails n then .error (.config "no connection") else .ok (), w)
  shutdownPlugin _ w := (.ok (), w)
  newId pluginRef w := (pluginRef.id, w)
  plugin_newId _ _ := rfl

/-- Sets walked in the order of a list, as far as it goes. -/
def walking (names : List String) (hnodup : names.Nodup) : HashOrder where
  iter s := names.filter (· ∈ s) ++ (s \ names.toFinset).sort (· ≤ ·)
  mem_iter s name := by
    simp only [List.mem_append, List.mem_filter, Finset.mem_sort, Finset.mem_sdiff,
      List.mem_toFinset, decide_eq_true_eq]
    tauto
  nodup_iter s := by
    refine (hnodup.filter _).append (Finset.sort_nodup _ _) fun name hleft hright => ?_
    rw [Finset.mem_sort, Finset.mem_sdiff, List.mem_toFinset] at hright
    exact hright.2 (List.mem_of_mem_filter hleft)

/-- The order in which plugins come below. -/
def alphabetical : HashOrder := walking ["a", "b"] (by decide)

/-- A manager without plugins. -/
def empty : LifecycleState Unit Nat Unit := new {} 10 ()

/-- The registration of a plugin under its name. -/
def registering (name : String) (id : Uuid) : LifecycleOp Unit :=
  .mutate (.register ⟨{ name, kind := "builtin" }, id⟩ () ["tool_pre_invoke"]) nofun

/-- A call about a tool that calls the handlers of the first `n` entries. -/
def calling (n : Nat) : LifecycleOp Unit :=
  .invoke ⟨.sorted, toolRequest "pay" ∅, "tool_pre_invoke"⟩ (List.range n)

/-- The plugins are registered, the manager is started, and they are called. With a second plugin
    that cannot be initialised, the first one is shut down again. -/
theorem lifecycle_two_plugins :
    let ops := [registering "a" 0, registering "b" 1, .initializeAll alphabetical, calling 2]
    let st := empty.run (numbered fun _ => false) ops
    let waiting := empty.run (numbered (· == 1)) [registering "a" 0, registering "b" 1]
    st.host.log = [.registered 0, .registered 1, .initialized 0, .initialized 1, .started,
      .called 0, .called 1] ∧
    Log.Caused InitializedBefore st.host.log ∧ st.ShutsDownOnce (numbered fun _ => false) ∧
    (waiting.initializeAll (numbered (· == 1)) alphabetical).1.toBool = false ∧
    (waiting.initializeAll (numbered (· == 1)) alphabetical).2.host.log =
      [.registered 0, .registered 1, .initialized 0, .initFailed 1, .shutDown 0] ∧
    waiting.RollsBack (numbered (· == 1)) := by
  intro ops st waiting
  have hsound := lifecycle (numbered fun _ => false) {} 10 () ops
  have hrolls := lifecycle (numbered (· == 1)) {} 10 () [registering "a" 0, registering "b" 1]
  exact ⟨by decide +kernel, hsound.1 (by decide +kernel), hsound.2.2.1 (by decide +kernel),
    by decide +kernel, by decide +kernel, hrolls.2.1⟩

/-- A configuration with a plugin that the route of a tool configures differently. -/
def overriding : CpexConfig where
  plugins := [{ name := "limiter", kind := "builtin" }]
  routes := [{
    tool := some (.single "pay")
    plugins := [.withOverrides (AList.singleton "limiter"
      (.object [("config", .object [("limit", .number (.posInt 5))])]))] }]
  pluginSettings := { routingEnabled := true }

/-- The load of `overriding`, whose plugin gets the number 0. -/
def loading : LifecycleOp Unit :=
  .mutate (.loadConfig overriding fun _ => some fun _ => .ok ⟨[("tool_pre_invoke", ())], 0⟩) nofun

/-- A plugin that is registered on a started manager is not reached by an `initialize`, which
    returns `Ok`, and is called. An instance that is made for a route is up and stays up. -/
theorem lifecycle_broken :
    let late := empty.run (numbered fun _ => false)
      [registering "a" 0, .initializeAll alphabetical, registering "b" 1]
    (late.initializeAll (numbered fun _ => false) alphabetical).1.toBool = true ∧
    ¬ Log.Caused InitializedBefore
      (late.run (numbered fun _ => false) [.initializeAll alphabetical, calling 2]).host.log ∧
    ¬ (empty.run (numbered fun _ => false) [loading, .initializeAll alphabetical,
      calling 1]).ShutsDownOnce (numbered fun _ => false) := by
  refine ⟨by decide +kernel, by decide +kernel, fun honce => ?_⟩
  obtain ⟨events, hlog, hup⟩ := honce alphabetical
  have hevents : [.registered 0, .initialized 0, .started, .initialized 7, .called 7, .shutDown 0] =
      [.registered 0, .initialized 0, .started, .initialized 7, .called 7] ++ events :=
    .trans (by decide +kernel) (hlog.trans (congrArg (· ++ events) (by decide +kernel)))
  have hshut : events = [.shutDown 0] := by simpa using hevents.symm
  have hseven := hup 7 (by unfold Up; decide +kernel)
  rw [hshut] at hseven
  exact absurd hseven (by decide)

end LifecycleState

end Cpex.Core
