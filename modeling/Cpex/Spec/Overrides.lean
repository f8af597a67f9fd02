import Cpex.Spec.Lifecycle

/-! # Overrides of a plugin's configuration

A route may configure a plugin differently. The manager then makes an instance of the plugin for the
route, and dispatches to that instead of the registered one. The handler of the new instance is
looked for under the hook type name of the old handler, which is not the name of the hook for
handlers that are registered under several names. If there is none under that name, the registered
entry is used and the configuration of the route is ignored.
-/

namespace Cpex.Core

variable {η σ : Type}

/-- The handler an instance registered under a name. -/
def PluginInstance.handlerFor (made : PluginInstance η) (hookName : String) : Option η :=
  (made.handlers.find? fun h => h.1 = hookName).map Prod.snd

/-- There is a factory for the kind of the plugin, which makes this instance, and the instance can
    be initialised. -/
def Makes (host : PlanHost η σ) (config : PluginConfig) (w : σ) (made : PluginInstance η) : Prop :=
  ∃ create w', host.factories config.kind = some create ∧ create config w = (.ok made, w') ∧
    (host.initializeInstance made w').1 = true

/-- The entry of a dispatch for a resolved plugin that is registered with `entry`. -/
def dispatchedEntry (host : PlanHost η σ) (entry : HookEntry η) (rp : ResolvedPlugin) (w : σ) :
    HookEntry η :=
  (rp.configOverrides.bind fun overrides => (createOverrideInstance host entry overrides w).1).getD
    entry

theorem mergeOverride_kind : (mergeOverride config overrides).kind = config.kind := by
  unfold mergeOverride
  cases overrides.get "config" with
  | none => rfl
  | some overrideConfig =>
    dsimp only
    split <;> rfl

/-! ### One plugin -/

section
variable {host : PlanHost η σ} {entry : HookEntry η} {overrides : Json} {w : σ}
  {made : PluginInstance η}

/-- An instance that could be made is used by the handler it has for the hook type. -/
theorem createOverrideInstance_of_makes
    (h : Makes host (mergeOverride entry.pluginRef.trustedConfig overrides) w made) :
    (createOverrideInstance host entry overrides w).1 =
      (made.handlerFor (host.hookTypeName entry.handler)).map fun handler =>
        ⟨⟨mergeOverride entry.pluginRef.trustedConfig overrides, made.id⟩, handler⟩ := by
  obtain ⟨create, w', hfactory, hcreate, hinit⟩ := h
  rw [mergeOverride_kind] at hfactory
  unfold createOverrideInstance PluginInstance.handlerFor
  dsimp only
  rw [hfactory]
  dsimp only
  rw [hcreate]
  dsimp only
  cases made.handlers.find? fun h => h.1 = host.hookTypeName entry.handler with
  | none => rfl
  | some found =>
    -- Only an instance that has a handler is initialised.
    rw [hinit]
    rfl

/-- The new instance is dispatched to with this handler exactly if the handler is the one for the
    hook type. -/
theorem dispatchedEntry_iff {rp : ResolvedPlugin} (hover : rp.configOverrides = some overrides)
    (hmakes : Makes host (mergeOverride entry.pluginRef.trustedConfig overrides) w made)
    (hfresh : made.id ≠ entry.pluginRef.id) (handler : η) :
    dispatchedEntry host entry rp w =
        ⟨⟨mergeOverride entry.pluginRef.trustedConfig overrides, made.id⟩, handler⟩ ↔
      made.handlerFor (host.hookTypeName entry.handler) = some handler := by
  unfold dispatchedEntry
  rw [hover, Option.bind_some, createOverrideInstance_of_makes hmakes]
  cases made.handlerFor (host.hookTypeName entry.handler) with
  | none =>
    -- The registered entry has another id.
    refine iff_of_false (fun heq => hfresh ?_) nofun
    exact (congrArg (fun e : HookEntry η => e.pluginRef.id) heq).symm
  | some found => simp

end

/-! ### A dispatch -/

variable (host : PlanHost η σ) {entries : List (HookEntry η)} {rp : ResolvedPlugin}
  {entry : HookEntry η}

/-- One turn of the loop over the resolved plugins. -/
theorem resolveInstances_cons (hentry : entries.find? (fun e => e.name = rp.name) = some entry)
    (w : σ) :
    ∃ w', ∀ resolved, resolveInstances host entries (rp :: resolved) w =
      (dispatchedEntry host entry rp w :: (resolveInstances host entries resolved w').1,
        (resolveInstances host entries resolved w').2) := by
  unfold dispatchedEntry
  cases hover : rp.configOverrides with
  | none =>
    refine ⟨w, fun resolved => ?_⟩
    rw [resolveInstances, hentry, hover]
    rfl
  | some overrides =>
    refine ⟨(createOverrideInstance host entry overrides w).2, fun resolved => ?_⟩
    rw [resolveInstances, hentry, hover]
    rfl

/-- The loop up to one of the plugins, and from it on. -/
theorem resolveInstances_append_cons (before after : List ResolvedPlugin)
    (hentry : entries.find? (fun e => e.name = rp.name) = some entry) (w : σ) :
    ∃ later, (resolveInstances host entries (before ++ rp :: after) w).1 =
      (resolveInstances host entries before w).1 ++
        dispatchedEntry host entry rp (resolveInstances host entries before w).2 :: later := by
  induction before generalizing w with
  | nil =>
    obtain ⟨w', hturn⟩ := resolveInstances_cons host hentry w
    rw [List.nil_append, hturn]
    exact ⟨_, rfl⟩
  | cons first before ih =>
    rw [List.cons_append]
    cases hfirst : entries.find? fun e => e.name = first.name with
    | none =>
      -- A plugin that is not registered for the hook is skipped.
      rw [resolveInstances, resolveInstances, hfirst]
      exact ih w
    | some base =>
      obtain ⟨w', hturn⟩ := resolveInstances_cons host hfirst w
      obtain ⟨later, hlater⟩ := ih w'
      rw [hturn, hturn, hlater]
      exact ⟨later, rfl⟩

/-- A routed dispatch that is not cached goes to what the route resolves to. -/
theorem filterInstances_of_resolves {snapshot : Snapshot η}
    (hroutes : Resolves snapshot.toRuntime request config entity) {cache : RouteCache η}
    (hmiss : cache.lookup (cacheKey entity request.hookName) = none) (w : σ) :
    (filterInstances host snapshot request cache w).1 = pluginChain (resolveInstances host
      (snapshot.registry.entriesForHook request.hookName)
      (resolveForHook config request.hash entity request.hookName) w).1 := by
  unfold filterInstances
  dsimp only
  rw [filterEntriesWith_of_resolves hroutes, hmiss]
  rfl

/-- A plugin that a route configures differently is dispatched to by the handler that the instance
    of the route registered under the name of the hook, exactly if the instance has the same handler
    under the hook type name of the registered one. -/
theorem filterInstances_override_iff (host : PlanHost η σ) {snapshot : Snapshot η}
    {request : Request} {config : CpexConfig} {entity : EntityRef}
    (hroutes : Resolves snapshot.toRuntime request config entity) {cache : RouteCache η}
    (hmiss : cache.lookup (cacheKey entity request.hookName) = none) (w : σ)
    {before after : List ResolvedPlugin} {rp : ResolvedPlugin} {overrides : Json}
    (hresolved : resolveForHook config request.hash entity request.hookName =
      before ++ rp :: after) (hover : rp.configOverrides = some overrides) {entry : HookEntry η}
    (hentry : (snapshot.registry.entriesForHook request.hookName).find?
      (fun e => e.name = rp.name) = some entry) {made : PluginInstance η}
    (hmakes : Makes host (mergeOverride entry.pluginRef.trustedConfig overrides)
      (resolveInstances host (snapshot.registry.entriesForHook request.hookName) before w).2 made)
    (hfresh : made.id ≠ entry.pluginRef.id) {handler : η}
    (hregistered : made.handlerFor request.hookName = some handler) :
    ∃ used later, (filterInstances host snapshot request cache w).1 = pluginChain
        ((resolveInstances host (snapshot.registry.entriesForHook request.hookName) before w).1 ++
          used :: later) ∧
      (used = ⟨⟨mergeOverride entry.pluginRef.trustedConfig overrides, made.id⟩, handler⟩ ↔
        made.handlerFor (host.hookTypeName entry.handler) =
          made.handlerFor request.hookName) := by
  obtain ⟨later, hlist⟩ := resolveInstances_append_cons host before after hentry w
  have hchain := filterInstances_of_resolves host hroutes hmiss w
  rw [hresolved, hlist] at hchain
  refine ⟨_, later, hchain, ?_⟩
  rw [hregistered]
  exact dispatchedEntry_iff hover hmakes hfresh handler

/-! ### A rate limiter with another limit -/

/-- A manager with the plugin `limiter`, registered under a hook, which the route of the tool `pay`
    configures differently. -/
def limiterSnapshot (hookName : String) : Snapshot String :=
  .fromConfig
    { plugins := (∅ : HashMap String PluginRef).insert "limiter"
        ⟨{ name := "limiter", kind := "builtin" }, 0⟩
      hookIndex := (∅ : HashMap String (List (HookEntry String))).insert hookName
        [⟨⟨{ name := "limiter", kind := "builtin" }, 0⟩, "base"⟩] }
    LifecycleState.overriding

/-- A factory whose instances have a handler for the hook. -/
def limiterHost (hookTypeName hookName : String) : PlanHost String Unit where
  toJson _ := none
  factories _ := some fun _ w => (.ok ⟨[(hookName, "strict")], 7⟩, w)
  hookTypeName _ := hookTypeName
  initializeInstance _ w := (true, w)
  newId pluginRef w := (pluginRef.id, w)

/-- A call of the tool. -/
def payRequest (hookName : String) : Request := ⟨.sorted, toolRequest "pay" ∅, hookName⟩

/-- The plugin handlers that a call goes to. -/
def payHandlers (hookTypeName hookName : String) : List String :=
  (filterInstances (limiterHost hookTypeName hookName) (limiterSnapshot hookName)
    (payRequest hookName) ∅ ()).1.filterMap fun e =>
      match e.handler with
      | .plugin handler => some handler
      | .apl _ => none

theorem limiterHost_makes (hookTypeName hookName : String) (config : PluginConfig) :
    Makes (limiterHost hookTypeName hookName) config () ⟨[(hookName, "strict")], 7⟩ :=
  ⟨_, (), rfl, rfl, rfl⟩

theorem payRequest_resolves (hookName : String) :
    Resolves (limiterSnapshot hookName).toRuntime (payRequest hookName) LifecycleState.overriding
      ⟨"tool", "pay", none, ∅⟩ :=
  ⟨rfl, rfl, rfl, rfl⟩

/-- A hook that is named after its type: the call goes to the instance of the route. -/
theorem filterInstances_override_effective :
    ∃ used later, (filterInstances (limiterHost "tool_pre_invoke" "tool_pre_invoke")
        (limiterSnapshot "tool_pre_invoke") (payRequest "tool_pre_invoke") ∅ ()).1 =
          pluginChain (used :: later) ∧
      used.pluginRef.id = 7 ∧ used.handler = "strict" := by
  have hlimiter : (resolveForHook LifecycleState.overriding .sorted ⟨"tool", "pay", none, ∅⟩
      "tool_pre_invoke").map (fun rp => (rp.name, rp.configOverrides.isSome)) =
        [("limiter", true)] := by
    decide +kernel
  obtain ⟨rp, hresolved, hrp⟩ := List.map_eq_singleton_iff.mp hlimiter
  obtain ⟨hname, hover⟩ := Prod.mk.inj hrp
  obtain ⟨overrides, hover⟩ := Option.isSome_iff_exists.mp hover
  have hentry : ((limiterSnapshot "tool_pre_invoke").registry.entriesForHook
      (payRequest "tool_pre_invoke").hookName).find? (fun e => e.name = rp.name) =
        some ⟨⟨{ name := "limiter", kind := "builtin" }, 0⟩, "base"⟩ := by
    rw [hname]
    rfl
  have hmiss : (∅ : RouteCache String).lookup (cacheKey ⟨"tool", "pay", none, ∅⟩
      "tool_pre_invoke") = none := rfl
  have honly : resolveForHook LifecycleState.overriding (payRequest "tool_pre_invoke").hash
      ⟨"tool", "pay", none, ∅⟩ "tool_pre_invoke" = [] ++ rp :: [] := hresolved
  obtain ⟨used, later, hchain, hused⟩ := filterInstances_override_iff
    (limiterHost "tool_pre_invoke" "tool_pre_invoke") (payRequest_resolves "tool_pre_invoke")
    hmiss () honly hover hentry (limiterHost_makes _ _ _) (by decide) rfl
  rw [hused.mpr rfl] at hchain
  exact ⟨_, later, hchain, rfl, rfl⟩

/-- A hook of the `cmf` family: the call goes to the registered instance, although the factory made
    one for the route, which has a handler for the hook. -/
theorem filterInstances_override_ignored :
    let made : PluginInstance String := ⟨[("cmf.tool_pre_invoke", "strict")], 7⟩
    (∀ config, Makes (limiterHost "cmf" "cmf.tool_pre_invoke") config () made) ∧
      made.handlerFor "cmf.tool_pre_invoke" = some "strict" ∧
      payHandlers "cmf" "cmf.tool_pre_invoke" = ["base"] :=
  ⟨limiterHost_makes _ _, rfl, by decide +kernel⟩

end Cpex.Core
