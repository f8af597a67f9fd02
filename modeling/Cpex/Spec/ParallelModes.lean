import Cpex.Spec.Annotations
import Cpex.Spec.ParallelPurity
import Cpex.Spec.RouteEdits

/-! # Plugins under `parallel:`

A plugin whose mode is `Sequential` or `Transform` may change the request. The branches of a
`parallel:` share its payload and its extensions, and a call puts back whole ones, so one branch
can undo what another one changed. `validate_parallel_plugin_modes` looks for such plugins in the
layered policy of every entity. The catch-all of requests without an entity is installed without
that check, and the check sees the mode a plugin has at the moment, which is `Disabled` for one
whose circuit breaker has tripped.
-/

namespace Cpex

/-- The effect calls the plugin `name`. -/
def Effect.calls (name : String) : Effect → Prop
  | .plugin called => called = name
  | .delegate step => step.pluginName = name
  | .elicit step => step.pluginName = name
  | .fieldOp _ stages => .plugin name ∈ stages
  | _ => False

/-- The policy calls the plugin `name` under a `parallel:`, at any depth. -/
def CompiledRoute.CallsInParallel (route : CompiledRoute) (name : String) : Prop :=
  ∃ top ∈ route.policy ++ route.postPolicy, ∃ d : Effect, d.OccursInParallel top ∧ d.calls name

/-- In a clean route, only `plugin(..)` calls plugins under a `parallel:`. -/
theorem CompiledRoute.MutationFree.callsInParallel_iff {route : CompiledRoute}
    (h : route.MutationFree) (name : String) :
    route.CallsInParallel name ↔
      ∃ top ∈ route.policy ++ route.postPolicy, (Effect.plugin name).OccursInParallel top := by
  constructor
  · rintro ⟨top, htop, d, hd, hcalls⟩
    have hclean := h top htop d hd
    cases d with
    | plugin called =>
      obtain rfl : called = name := hcalls
      exact ⟨top, htop, hd⟩
    | delegate _ | elicit _ | fieldOp _ _ => exact nomatch hclean
    | _ => exact hcalls.elim
  · rintro ⟨top, htop, hd⟩
    exact ⟨top, htop, _, hd, rfl⟩

/-- The calls an effect makes itself, not those of its parts, are out of `may`. -/
def Effect.OwnCalls (may : Call → Prop) : Effect → Prop
  | .plugin name => may (.plugin name)
  | .delegate step => may (.delegate step)
  | .elicit step => may (.elicit step)
  | .fieldOp _ stages => ∀ name, .plugin name ∈ stages → may (.plugin name)
  | .pdp call _ _ => may (.pdp call)
  | _ => True

mutual

/-- An effect stays within the calls that the effects in it make themselves. -/
theorem Effect.within_of_occurs {branch may : Call → Prop} (e : Effect)
    (hmay : ∀ d : Effect, d.Occurs e → d.OwnCalls may)
    (hbranch : ∀ d : Effect, d.OccursInParallel e → d.OwnCalls branch) :
    e.Within branch may := by
  have hparts : ∀ c ∈ e.children, ∀ d : Effect, d.Occurs c → d.OwnCalls may :=
    fun c hc d hd => hmay d (.inside hc hd)
  have hbranches : ∀ c ∈ e.children, ∀ d : Effect, d.OccursInParallel c → d.OwnCalls branch := by
    rintro c hc d ⟨effects, hparallel, hd⟩
    exact hbranch d ⟨effects, .inside hc hparallel, hd⟩
  have hown := hmay e .here
  cases e with
  | sequential effects => exact Effect.allWithin_of_occurs effects hparts hbranches
  | parallel effects =>
    -- From here on all calls are those of a branch.
    refine Effect.allWithin_of_occurs effects (fun c hc d hd => ?_) hbranches
    exact hbranch d (occursInParallel_parallel.mpr ⟨c, hc, hd⟩)
  | when condition body source => exact Effect.allWithin_of_occurs body hparts hbranches
  | pdp call onAllow onDeny =>
    obtain ⟨hallow, hdeny⟩ := List.forall_mem_append.mp hparts
    obtain ⟨hallow', hdeny'⟩ := List.forall_mem_append.mp hbranches
    exact ⟨hown, Effect.allWithin_of_occurs onAllow hallow hallow',
      Effect.allWithin_of_occurs onDeny hdeny hdeny'⟩
  | _ => exact hown

theorem Effect.allWithin_of_occurs {branch may : Call → Prop} (effects : List Effect)
    (hmay : ∀ e ∈ effects, ∀ d : Effect, d.Occurs e → d.OwnCalls may)
    (hbranch : ∀ e ∈ effects, ∀ d : Effect, d.OccursInParallel e → d.OwnCalls branch) :
    Effect.allWithin branch may effects := by
  cases effects with
  | nil => trivial
  | cons e effects =>
    obtain ⟨hmay, hmays⟩ := List.forall_mem_cons.mp hmay
    obtain ⟨hbranch, hbranches⟩ := List.forall_mem_cons.mp hbranch
    exact ⟨Effect.within_of_occurs e hmay hbranch,
      Effect.allWithin_of_occurs effects hmays hbranches⟩

end

/-- Layers are put one behind the other. -/
theorem CompiledRoute.MutationFree.applyLayer {a b : CompiledRoute} (ha : a.MutationFree)
    (hb : b.MutationFree) : (a.applyLayer b).MutationFree := by
  obtain ⟨hpolicy, hpost⟩ := List.forall_mem_append.mp ha
  obtain ⟨hpolicy', hpost'⟩ := List.forall_mem_append.mp hb
  exact List.forall_mem_append.mpr
    ⟨List.forall_mem_append.mpr ⟨hpolicy, hpolicy'⟩, List.forall_mem_append.mpr ⟨hpost, hpost'⟩⟩

theorem CompiledRoute.MutationFree.foldl_applyLayer {base : CompiledRoute}
    {layers : List CompiledRoute} (hbase : base.MutationFree)
    (h : ∀ layer ∈ layers, layer.MutationFree) :
    (layers.foldl CompiledRoute.applyLayer base).MutationFree := by
  induction layers generalizing base with
  | nil => exact hbase
  | cons layer layers ih =>
    obtain ⟨hlayer, hlayers⟩ := List.forall_mem_cons.mp h
    exact ih (hbase.applyLayer hlayer) hlayers

end Cpex

namespace Cpex.Core

/-! ### The check -/

section
variable {modeFor : String → Option PluginMode}

theorem checkPluginMode_eq_nil {location name : String} :
    checkPluginMode modeFor location name = [] ↔
      ∃ mode, modeFor name = some mode ∧ isSafeInParallel mode = true := by
  unfold checkPluginMode
  cases modeFor name with
  | none => simp
  | some mode => by_cases hsafe : isSafeInParallel mode = true <;> simp [hsafe]

/-- The plugins `walk_effect` checks in an effect: all of them once it is under a `parallel:`. -/
def Walked (underParallel : Bool) (name : String) (e : Effect) : Prop :=
  if underParallel then (Effect.plugin name).Occurs e else (Effect.plugin name).OccursInParallel e

variable {underParallel : Bool} {q : String → Prop}

/-- Inside a `parallel:` everything is checked, whatever stands around it. -/
theorem forall_walked_parallel {effects : List Effect} :
    (∀ name, Walked underParallel name (.parallel effects) → q name) ↔
      ∀ c ∈ effects, ∀ name, Walked true name c → q name := by
  have hiff : ∀ name, Walked underParallel name (.parallel effects) ↔
      ∃ c ∈ effects, Walked true name c := by
    intro name
    cases underParallel with
    | true => exact Effect.occurs_iff.trans (or_iff_right nofun)
    | false => exact occursInParallel_parallel
  simp only [hiff]
  exact ⟨fun h c hc name hw => h name ⟨c, hc, hw⟩, fun h name ⟨c, hc, hw⟩ => h c hc name hw⟩

/-- In any other group, what its parts call is checked as the group is. -/
theorem forall_walked_group (hplugin : ∀ called, e ≠ .plugin called)
    (hparallel : ∀ effects, e ≠ .parallel effects) :
    (∀ name, Walked underParallel name e → q name) ↔
      ∀ c ∈ e.children, ∀ name, Walked underParallel name c → q name := by
  have hiff : ∀ name, Walked underParallel name e ↔
      ∃ c ∈ e.children, Walked underParallel name c := by
    intro name
    cases underParallel with
    | true => exact Effect.occurs_iff.trans (or_iff_right fun h => hplugin name h.symm)
    | false => exact occursInParallel_iff hparallel
  simp only [hiff]
  exact ⟨fun h c hc name hw => h name ⟨c, hc, hw⟩, fun h name ⟨c, hc, hw⟩ => h c hc name hw⟩

mutual

/-- `walk_effect` reports nothing exactly if all plugins it checks are safe. -/
theorem walkEffect_eq_nil (location : String) (underParallel : Bool) (e : Effect) :
    walkEffect modeFor location underParallel e = [] ↔ ∀ name, Walked underParallel name e →
      checkPluginMode modeFor location name = [] := by
  cases e with
  | plugin called =>
    cases underParallel with
    | true =>
      constructor
      · intro h name hwalked
        cases (hwalked : (Effect.plugin name).Occurs (.plugin called)) with
        | here => exact h
        | inside hc => cases hc
      · exact fun h => h called .here
    | false =>
      refine ⟨fun _ name hwalked => ?_, fun _ => rfl⟩
      obtain ⟨c, hc, -⟩ := (occursInParallel_iff (by nofun)).mp hwalked
      cases hc
  | parallel effects =>
    rw [forall_walked_parallel, ← walkEffectList_eq_nil location true effects]
    cases underParallel <;> rfl
  | sequential effects =>
    rw [forall_walked_group (by nofun) (by nofun)]
    cases underParallel <;> exact walkEffectList_eq_nil location _ effects
  | when condition body source =>
    rw [forall_walked_group (by nofun) (by nofun)]
    cases underParallel <;> exact walkEffectList_eq_nil location _ body
  | pdp call onAllow onDeny =>
    have happend : walkEffect modeFor location underParallel (.pdp call onAllow onDeny) =
        walkEffectList modeFor location underParallel onAllow ++
          walkEffectList modeFor location underParallel onDeny := by
      cases underParallel <;> rfl
    rw [forall_walked_group (by nofun) (by nofun), happend, List.append_eq_nil_iff,
      walkEffectList_eq_nil location underParallel onAllow,
      walkEffectList_eq_nil location underParallel onDeny]
    exact List.forall_mem_append.symm
  | _ =>
    rw [forall_walked_group (by nofun) (by nofun)]
    cases underParallel <;> exact ⟨fun _ c hc => (nomatch hc), fun _ => rfl⟩

theorem walkEffectList_eq_nil (location : String) (underParallel : Bool) (effects : List Effect) :
    walkEffectList modeFor location underParallel effects = [] ↔
      ∀ e ∈ effects, ∀ name, Walked underParallel name e →
        checkPluginMode modeFor location name = [] := by
  cases effects with
  | nil => exact ⟨fun _ e he => (nomatch he), fun _ => rfl⟩
  | cons e effects =>
    rw [walkEffectList, List.append_eq_nil_iff, walkEffect_eq_nil location underParallel e,
      walkEffectList_eq_nil location underParallel effects, List.forall_mem_cons]

end

theorem phaseErrors_eq_nil {routeKey phaseName : String} {effects : List Effect} :
    phaseErrors modeFor routeKey phaseName effects = [] ↔
      ∀ e ∈ effects, ∀ name, (Effect.plugin name).OccursInParallel e →
        ∃ mode, modeFor name = some mode ∧ isSafeInParallel mode = true := by
  unfold phaseErrors
  rw [List.flatMap_eq_nil_iff]
  constructor
  · intro h e he name hd
    obtain ⟨i, hi⟩ := List.getElem?_of_mem he
    have hwalk := h (e, i) (List.mk_mem_zipIdx_iff_getElem?.mpr hi)
    exact checkPluginMode_eq_nil.mp ((walkEffect_eq_nil _ false e).mp hwalk name hd)
  · intro h entry hentry
    refine (walkEffect_eq_nil _ false entry.1).mpr fun name hd => ?_
    exact checkPluginMode_eq_nil.mpr (h entry.1 (List.fst_mem_of_mem_zipIdx hentry) name hd)

/-- The check passes exactly the routes in which every `plugin(..)` under a `parallel:` names a
    plugin that is registered, and safe there. -/
theorem validateParallelPluginModes_ok_iff {route : CompiledRoute} :
    validateParallelPluginModes route modeFor = .ok () ↔
      ∀ top ∈ route.policy ++ route.postPolicy, ∀ name, (Effect.plugin name).OccursInParallel top →
        ∃ mode, modeFor name = some mode ∧ isSafeInParallel mode = true := by
  rw [List.forall_mem_append, ← @phaseErrors_eq_nil modeFor route.routeKey "pre_invocation",
    ← @phaseErrors_eq_nil modeFor route.routeKey "post_invocation", ← List.append_eq_nil_iff]
  unfold validateParallelPluginModes
  dsimp only
  split
  next hnil => exact ⟨fun _ => hnil, fun _ => rfl⟩
  next hsome => exact ⟨fun h => (nomatch h), fun h => absurd h hsome⟩

end

/-! ### Layers -/

section
variable [Platform] [ParserPlatform] [ConfigSerde]

attribute [local instance] PolicyParser.apl

/-- The states of a visitor: whatever was visited before, by loads that went through or not. -/
inductive VisitorState.Reached (self : AplConfigVisitor) : VisitorState → Prop
  | new : Reached self {}
  | plugins {state : VisitorState} (plugins : List PluginConfig) (h : Reached self state) :
      Reached self (visitPlugins plugins state)
  | global {state state' : VisitorState} {yaml : Yaml} {installed : List Annotation}
      (h : Reached self state) (hvisit : visitGlobal self yaml state = .ok (state', installed)) :
      Reached self state'
  | default {state state' : VisitorState} {entityType : String} {yaml : Yaml}
      (h : Reached self state) (hvisit : visitDefault entityType yaml state = .ok state') :
      Reached self state'
  | bundle {state state' : VisitorState} {tag : String} {yaml : Yaml}
      (h : Reached self state) (hvisit : visitPolicyBundle tag yaml state = .ok state') :
      Reached self state'

/-- Every layer of the state is clean. -/
structure VisitorState.MutationFree (state : VisitorState) : Prop where
  global : ∀ layer, state.globalLayer = some layer → layer.route.MutationFree
  default : ∀ entityType layer, state.defaultLayers.lookup entityType = some layer →
    layer.route.MutationFree
  tag : ∀ tag layer, state.tagLayers.lookup tag = some layer → layer.route.MutationFree

theorem compileLayer_mutationFree (h : compileLayer source block = .ok layer) :
    layer.route.MutationFree := by
  unfold compileLayer at h
  split at h
  · exact nomatch h
  next hcompile =>
    cases h
    exact .of_compile hcompile

variable {yaml : Yaml} {st st' : VisitorState} {self : AplConfigVisitor}
  {installed : List Annotation}

theorem visitGlobal_mutationFree (hst : st.MutationFree)
    (h : visitGlobal self yaml st = .ok (st', installed)) :
    st'.MutationFree := by
  rcases visitGlobal_ok h with ⟨_, rfl, _⟩ | ⟨_, layer, _, hlayer, rfl, _⟩
  · exact hst
  · refine { hst with global := ?_ }
    rintro _ ⟨⟩
    -- The response is no part of the phases.
    exact (compileLayer_mutationFree hlayer :)

theorem visitLayer_mutationFree {keep : Layer source → VisitorState} (hst : st.MutationFree)
    (hkeep : ∀ layer, layer.route.MutationFree → (keep layer).MutationFree)
    (h : visitLayer source yaml st keep = .ok st') : st'.MutationFree := by
  obtain ⟨_, _, h⟩ := Except.ok_of_bind h
  split at h
  · cases h
    exact hst
  · obtain ⟨compiled, hcompiled, h⟩ := Except.ok_of_bind h
    cases h
    exact hkeep compiled (compileLayer_mutationFree hcompiled)

variable {state : VisitorState}

theorem VisitorState.Reached.mutationFree (h : state.Reached self) : state.MutationFree := by
  induction h with
  | new => exact ⟨fun _ h => (nomatch h), fun _ _ h => (nomatch h), fun _ _ h => (nomatch h)⟩
  | plugins _ _ ih => exact ⟨ih.global, ih.default, ih.tag⟩
  | global _ hvisit ih => exact visitGlobal_mutationFree ih hvisit
  | default _ hvisit ih =>
    refine visitLayer_mutationFree ih (fun layer hlayer => ?_) hvisit
    exact { ih with default := AList.forall_lookup_insert ih.default hlayer }
  | bundle _ hvisit ih =>
    refine visitLayer_mutationFree ih (fun layer hlayer => ?_) hvisit
    exact { ih with tag := AList.forall_lookup_insert ih.tag hlayer }

/-- The sections before the routes, visited in a state of the visitor, leave one. -/
theorem VisitorState.Reached.visitSections {raw : Yaml} {plugins : List PluginConfig}
    {state' : VisitorState} (hstate : state.Reached self)
    (h : visitSections self raw plugins state = .ok (state', installed)) :
    state'.Reached self := by
  obtain ⟨⟨st₁, ofGlobal⟩, hglobal, h⟩ := Except.ok_of_bind h
  obtain ⟨st₂, hdefaults, h⟩ := Except.ok_of_bind h
  obtain ⟨st₃, hbundles, h⟩ := Except.ok_of_bind h
  cases h
  have hst₁ : st₁.Reached self := (hstate.plugins plugins).global (visiting_ok hglobal)
  have hst₂ : st₂.Reached self := by
    refine List.foldlM_ok_of_step (p := fun _ s => s.Reached self) hst₁
      (fun {_ s e t} hs ht => ?_) hdefaults
    split at ht
    · cases ht
      exact hs
    · exact hs.default (visiting_ok ht)
  refine List.foldlM_ok_of_step (p := fun _ s => s.Reached self) hst₂
    (fun {_ s e t} hs ht => ?_) hbundles
  split at ht
  · cases ht
    exact hs
  · exact hs.bundle (visiting_ok ht)

omit [Platform] [ParserPlatform] [ConfigSerde] in
theorem inheritedLayers_mutationFree (hstate : state.MutationFree) (entityType : String)
    (tags : List String) :
    ∀ route ∈ inheritedLayers state entityType tags, route.MutationFree := by
  intro route hroute
  unfold inheritedLayers at hroute
  simp only [List.mem_append, Option.mem_toList, Option.map_eq_some_iff,
    List.mem_filterMap] at hroute
  rcases hroute with (⟨layer, hlayer, rfl⟩ | ⟨layer, hlayer, rfl⟩) | ⟨tag, _, layer, hlayer, rfl⟩
  · exact hstate.global layer hlayer
  · exact hstate.default entityType layer hlayer
  · exact hstate.tag tag layer hlayer

/-- The policy stacked for an entity is clean, as all of its layers are. -/
theorem effectiveRoute_mutationFree (hstate : state.MutationFree) {parsed : RouteEntry}
    {entityType entityName : String} {effective : CompiledRoute}
    (h : effectiveRoute state yaml parsed entityType entityName = .ok effective) :
    effective.MutationFree := by
  unfold effectiveRoute at h
  have hinherited : ((inheritedLayers state entityType parsed.metaTags).foldl
      CompiledRoute.applyLayer
      (CompiledRoute.new (routeKey entityType entityName parsed.scope))).MutationFree :=
    .foldl_applyLayer (fun top htop => nomatch htop)
      (inheritedLayers_mutationFree hstate entityType parsed.metaTags)
  split at h
  · cases h
    exact hinherited
  · obtain ⟨own, hown, h⟩ := Except.ok_of_bind h
    cases h
    exact hinherited.applyLayer (.of_compile hown)

/-! ### Loads -/

/-- The plugin was registered as one that runs in order, since it may change the request. -/
def PluginManager.Ordered {η : Type} (manager : PluginManager η) (name : String) : Prop :=
  ∃ ref, manager.runtime.registry.lookup name = some ref ∧
    (ref.trustedConfig.mode = .sequential ∨ ref.trustedConfig.mode = .transform)

/-- The circuit breaker of the plugin has tripped. -/
def PluginManager.Tripped {η : Type} (manager : PluginManager η) (name : String) : Prop :=
  ∃ ref, manager.runtime.registry.lookup name = some ref ∧ ref.id ∈ manager.disabled

/-- No plugin that runs in order is called under a `parallel:` of the route. -/
def PluginManager.ReadOnlyInParallel {η : Type} (manager : PluginManager η)
    (route : CompiledRoute) : Prop :=
  ∀ name, route.CallsInParallel name → ¬ manager.Ordered name

omit [Platform] [ParserPlatform] [ConfigSerde] in
/-- The check lets a plugin that runs in order pass only if its circuit breaker has tripped. -/
theorem PluginManager.Ordered.tripped_of_safe {η : Type} {manager : PluginManager η}
    (h : manager.Ordered name)
    (hsafe : ∃ mode, manager.modeFor name = some mode ∧ isSafeInParallel mode = true) :
    manager.Tripped name := by
  obtain ⟨ref, href, hmode⟩ := h
  obtain ⟨mode, hfor, hsafe⟩ := hsafe
  refine ⟨ref, href, ?_⟩
  by_contra hactive
  unfold PluginManager.modeFor at hfor
  rw [href] at hfor
  obtain rfl : (if ref.id ∈ manager.disabled then .disabled else ref.trustedConfig.mode) = mode :=
    Option.some.inj hfor
  rw [if_neg hactive] at hsafe
  rcases hmode with hmode | hmode <;> rw [hmode] at hsafe <;> exact nomatch hsafe

section
variable {self : AplConfigVisitor} {modeFor : String → Option PluginMode} {state : VisitorState}
  {raw : Yaml} {runtime : RuntimeSnapshot} {config : CpexConfig}

/-- The handler found for an entity was checked, and its policy is clean. -/
theorem Loaded.validated (hl : Loaded self modeFor raw runtime state config)
    (hstate : state.MutationFree) (h : runtime.routeAnnotations.lookup k = some e)
    (hk : k.entityType ≠ "http") :
    validateParallelPluginModes e.handler.route modeFor = .ok () ∧
      e.handler.route.MutationFree := by
  obtain ⟨j, r, hj, entityType, names, hid, name, hname, effective, ⟨heff, hsome⟩, hp, _, ha⟩ :=
    hl.exists_of_lookup h hk
  obtain ⟨policy, hpolicy⟩ := hl.exists_entityPolicy hj hid hname
  obtain ⟨effective', heff', hcase⟩ := entityPolicy_ok hpolicy
  obtain rfl : effective = effective' := Except.ok.inj (heff.symm.trans heff')
  cases ha
  rcases hcase with ⟨hnothing, _⟩ | ⟨_, hvalid, _⟩
  · rw [hsome] at hnothing
    cases hnothing
  · exact ⟨hvalid, effectiveRoute_mutationFree hstate heff⟩

end

section
variable {η : Type} {host : Host η} {manager loaded : PluginManager η} {raw : Yaml}
  {before : VisitorState}

/-- The plan runs plugins in the modes they were registered with. -/
def RouteDispatchPlan.KeepsModes {θ : Type} (plan : RouteDispatchPlan θ)
    (manager : PluginManager η) : Prop :=
  ∀ name resolved, plan.plugins.lookup name = some resolved →
    ∀ e ∈ resolved.entriesByHook.entries, ∃ ref, manager.runtime.registry.lookup name = some ref ∧
      e.2.pluginRef.trustedConfig.mode = ref.trustedConfig.mode

section
variable {key : AnnotationKey} {entry : HookEntry AplRouteHandler}
  (hbefore : manager.visitor = some before) (hreached : before.Reached host.visitor)
  (h : loadConfigYaml host manager raw = .ok loaded)
  (hlookup : loaded.runtime.routeAnnotations.lookup key = some entry)
  (hentity : key.entityType ≠ "http")
  (huntripped : ∀ name, entry.handler.route.CallsInParallel name → loaded.Ordered name →
    ¬ loaded.Tripped name)

include hbefore hreached h hlookup hentity huntripped

/-- After a load, a handler of an entity calls no plugin under a `parallel:` that runs in order, and
    mutates nothing there, if the circuit breaker of no such plugin had tripped. -/
theorem readOnly_of_load :
    loaded.ReadOnlyInParallel entry.handler.route ∧ entry.handler.route.MutationFree := by
  obtain ⟨state, config, ofGlobal, -, hsections, hloaded⟩ := loadConfigYaml_loaded h hbefore
  obtain ⟨hcheck, hclean⟩ :=
    hloaded.validated (hreached.visitSections hsections).mutationFree hlookup hentity
  refine ⟨fun name hcalls hordered => ?_, hclean⟩
  obtain ⟨top, htop, hplugin⟩ := (hclean.callsInParallel_iff name).mp hcalls
  have hsafe := validateParallelPluginModes_ok_iff.mp hcheck top htop name hplugin
  exact huntripped name hcalls hordered (hordered.tripped_of_safe hsafe)

/-- What the evaluation of a route relies on holds for the handlers of entities after a load. -/
theorem parallelReads_of_load {plan : RouteDispatchPlan θ} (hplan : plan.KeepsModes loaded) :
    ParallelReads plan entry.handler.route := by
  obtain ⟨hread, hclean⟩ := readOnly_of_load hbefore hreached h hlookup hentity huntripped
  have hbranch : ∀ top ∈ entry.handler.route.policy ++ entry.handler.route.postPolicy,
      ∀ d : Effect, d.OccursInParallel top → d.OwnCalls (BranchCall plan) := by
    intro top htop d hd
    have hpure := hclean top htop d hd
    cases d with
    | plugin name =>
      intro resolved hresolved e he disabled
      obtain ⟨ref, href, hmode⟩ := hplan name resolved hresolved e he
      have hordered := hread name ⟨top, htop, _, hd, rfl⟩
      unfold PluginRef.mode
      split
      · rfl
      · rw [hmode]
        cases hregistered : ref.trustedConfig.mode with
        | sequential => exact absurd ⟨ref, href, .inl hregistered⟩ hordered
        | transform => exact absurd ⟨ref, href, .inr hregistered⟩ hordered
        | _ => rfl
    | delegate _ | elicit _ | fieldOp _ _ => exact nomatch hpure
    | _ => trivial
  have hany (d : Effect) : d.OwnCalls Call.any := by
    cases d with
    | fieldOp _ _ => exact fun _ _ => trivial
    | _ => trivial
  obtain ⟨hpolicy, hpost⟩ := List.forall_mem_append.mp hbranch
  exact ⟨Effect.allWithin_of_occurs _ (fun _ _ d _ => hany d) hpolicy,
    Effect.allWithin_of_occurs _ (fun _ _ d _ => hany d) hpost⟩

end

/-- After a load, every installed handler (of an entity, or of requests without one) calls only
plugins under a `parallel:` that are not registered as `Sequential` or `Transform`, if and only if
this is so of the catch-all, whose policy is not checked, and no handler of an entity calls one
whose circuit breaker had tripped, which the check takes for disabled. -/
theorem parallel_modes_iff (hbefore : manager.visitor = some before)
    (hreached : before.Reached host.visitor) (h : loadConfigYaml host manager raw = .ok loaded) :
    (∀ key entry, loaded.runtime.routeAnnotations.lookup key = some entry →
      loaded.ReadOnlyInParallel entry.handler.route) ↔
    (∀ route, CatchAll raw route → loaded.ReadOnlyInParallel route) ∧
      ∀ key entry, loaded.runtime.routeAnnotations.lookup key = some entry →
        key.entityType ≠ "http" → ∀ name, entry.handler.route.CallsInParallel name →
          loaded.Ordered name → ¬ loaded.Tripped name := by
  constructor
  · intro hread
    constructor
    · intro route hroute
      obtain ⟨key, entry, hlookup, _, rfl⟩ := (exists_lookup_http_iff h hbefore).mpr hroute
      exact hread key entry hlookup
    · intro key entry hlookup _ name hcalls hordered
      exact absurd hordered (hread key entry hlookup name hcalls)
  · rintro ⟨hcatchAll, huntripped⟩ key entry hlookup
    by_cases hhttp : key.entityType = "http"
    · exact hcatchAll _ ((exists_lookup_http_iff h hbefore).mp ⟨key, entry, hlookup, hhttp, rfl⟩)
    · exact (readOnly_of_load hbefore hreached h hlookup hhttp
        (huntripped key entry hlookup hhttp)).1

end

end

section
attribute [local instance] Platform.bare ParserPlatform.bare ConfigSerde.bare PolicyParser.apl

/-- A host whose factories register each declared plugin under its name. -/
def Host.registering (config : CpexConfig) : Host Unit :=
  { Host.bare config with
    instantiatePluginsInto := fun registry plugins =>
      .ok (plugins.foldl (fun m cfg => m.insert cfg.name ⟨cfg, 0⟩) registry) }

/-- A configuration that declares one plugin. -/
def declaring (name : String) (mode : PluginMode) (routes : List RouteEntry) : CpexConfig :=
  { plugins := [{ name, kind := "builtin", mode }], routes }

/-- A document whose global policy makes a call under a `parallel:`. -/
def parallelDocument (call : String) : Yaml :=
  .mapping [(.string "global", .mapping [(.string "apl", .mapping [(.string "pre_invocation",
    .sequence [.mapping [(.string "parallel", .sequence [.string call])]])])])]

/-- A load with a plugin that only observes, called for a tool and for requests without an
    entity. -/
theorem parallel_modes_iff_audit :
    ∃ loaded, loadConfigYaml
        (Host.registering (declaring "log" .audit [{ tool := some (.single "search") }])) .fresh
        (parallelDocument "plugin(log)") = .ok loaded ∧
      loaded.runtime.routeAnnotations.keys.length = 3 ∧
      ∀ key entry, loaded.runtime.routeAnnotations.lookup key = some entry →
        loaded.ReadOnlyInParallel entry.handler.route := by
  have hrun : ((loadConfigYaml
      (Host.registering (declaring "log" .audit [{ tool := some (.single "search") }])) .fresh
      (parallelDocument "plugin(log)")).toOption.map fun loaded =>
        (loaded.runtime.routeAnnotations.keys.length,
          loaded.runtime.registry.entries.map fun e => (e.1, e.2.trustedConfig.mode))) =
      some (3, [("log", .audit)]) := by
    decide +kernel
  obtain ⟨loaded, hloaded, hparts⟩ := Option.map_eq_some_iff.mp hrun
  obtain ⟨hkeys, hregistry⟩ := Prod.mk.inj hparts
  have hok := Except.ok_of_toOption hloaded
  have hordered : ∀ name, ¬ loaded.Ordered name := by
    rintro name ⟨ref, href, hmode⟩
    have hmem := List.mem_map_of_mem (f := fun e => (e.1, e.2.trustedConfig.mode))
      (AList.mem_lookup_iff.mp href)
    rw [hregistry, List.mem_singleton] at hmem
    obtain ⟨_, haudit⟩ := Prod.mk.inj hmem
    rw [haudit] at hmode
    rcases hmode with hmode | hmode <;> exact nomatch hmode
  exact ⟨loaded, hok, hkeys, (parallel_modes_iff rfl .new hok).mpr
    ⟨fun _ _ name _ => hordered name, fun _ _ _ _ name _ h => absurd h (hordered name)⟩⟩

/-- The catch-all calls a sequential plugin under a `parallel:`, and the load succeeds. -/
theorem catchAll_calls_sequential_in_parallel :
    ∃ loaded key entry, loadConfigYaml (Host.registering (declaring "rewrite" .sequential []))
        .fresh (parallelDocument "plugin(rewrite)") = .ok loaded ∧
      loaded.runtime.routeAnnotations.lookup key = some entry ∧
      entry.handler.route.CallsInParallel "rewrite" ∧ loaded.Ordered "rewrite" := by
  -- The check itself, run on the catch-all with `rewrite` unknown, objects.
  let modes : String → Option PluginMode := fun name =>
    if name = "rewrite" then none else some .audit
  have hrun : ((loadConfigYaml (Host.registering (declaring "rewrite" .sequential [])) .fresh
      (parallelDocument "plugin(rewrite)")).toOption.bind fun loaded =>
        (loaded.runtime.routeAnnotations.lookup ⟨"http", "*", none, "cmf.http_request"⟩).map
          fun entry =>
            ((loaded.runtime.registry.lookup "rewrite").map (·.trustedConfig.mode),
              (validateParallelPluginModes entry.handler.route modes).toOption)) =
      some (some .sequential, none) := by
    decide +kernel
  obtain ⟨loaded, hloaded, hrun⟩ := Option.bind_eq_some_iff.mp hrun
  obtain ⟨entry, hentry, hparts⟩ := Option.map_eq_some_iff.mp hrun
  obtain ⟨hregistry, hcheck⟩ := Prod.mk.inj hparts
  refine ⟨loaded, _, entry, Except.ok_of_toOption hloaded, hentry, ?_, ?_⟩
  · have hfails : ¬ validateParallelPluginModes entry.handler.route modes = .ok () := by
      intro hok
      rw [hok] at hcheck
      exact nomatch hcheck
    rw [validateParallelPluginModes_ok_iff] at hfails
    push Not at hfails
    obtain ⟨top, htop, name, hplugin, hunsafe⟩ := hfails
    obtain rfl : name = "rewrite" := by
      by_contra hne
      exact hunsafe .audit (if_neg hne) rfl
    exact ⟨top, htop, _, hplugin, rfl⟩
  · obtain ⟨ref, href, hmode⟩ := Option.map_eq_some_iff.mp hregistry
    exact ⟨ref, href, .inl hmode⟩

end

end Cpex.Core
