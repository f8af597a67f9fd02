import Cpex.ForStd.Generations
import Cpex.ForStd.Separator
import Cpex.Native.DispatchPlan
import Cpex.Native.Parser
import Cpex.Spec.RouteEdit

/-! # The plan a route is served

The cache of dispatch plans is a table of `Generations`: a plan counts in the generation of the
manager it was built in, and it is kept under the key of its route. The visitor writes the key as
the entity type, the name and the scope, with `:` and `@` between them.
-/

namespace Cpex.Core

/-! ### The cache -/

section
variable {η σ : Type}

/-- The cache with what plans are built from. `builds` records what was built; no call depends on
    it. -/
structure PlanState (η σ : Type) where
  cache : DispatchCache η := ∅
  manager : PlanManager η
  decls : DeclRegistry
  world : σ
  builds : List (CompiledRoute × Nat × RouteDispatchPlan η) := []

/-- A call of `get_or_build`, or another snapshot of the manager. -/
abbrev PlanOp (η σ : Type) := Generations.Op CompiledRoute (PluginRegistry η × DeclRegistry × σ)

namespace PlanState

variable (host : PlanHost η σ)

/-- `get_or_build` on the state. -/
def getOrBuild (st : PlanState η σ) (route : CompiledRoute) :
    RouteDispatchPlan η × PlanState η σ :=
  let (plan, cache, world) := st.cache.getOrBuild host route st.decls st.manager st.world
  let builds := match st.cache.current route.routeKey st.manager.generation with
    | some _ => st.builds
    | none => (route, st.manager.generation, plan) :: st.builds
  (plan, { st with cache, world, builds })

def step (st : PlanState η σ) : PlanOp η σ → PlanState η σ
  | .request route => (st.getOrBuild host route).2
  | .advance (registry, decls, world) =>
    { st with manager := ⟨registry, st.manager.generation + 1⟩, decls, world }

def run (st : PlanState η σ) (ops : List (PlanOp η σ)) : PlanState η σ :=
  ops.foldl (step host) st

/-- The plan served to the route was built for it, in the manager's current generation. -/
def OwnPlan (st : PlanState η σ) (route : CompiledRoute) : Prop :=
  (route, st.manager.generation, (st.getOrBuild host route).1) ∈
    (st.getOrBuild host route).2.builds

/-- `RouteDispatchPlan::build`, from all that may change between two calls. -/
def buildPlan (route : CompiledRoute) (w : PluginRegistry η × DeclRegistry × σ) :
    RouteDispatchPlan η × PluginRegistry η × DeclRegistry × σ :=
  let (plan, world) := RouteDispatchPlan.build host w.1 w.2.1 route w.2.2
  (plan, w.1, w.2.1, world)

/-- The state as one of the library's tables. -/
def toGenerations (st : PlanState η σ) : Generations.State String CompiledRoute
    (RouteDispatchPlan η) (PluginRegistry η × DeclRegistry × σ) where
  table := st.cache
  generation := st.manager.generation
  world := (st.manager.registry, st.decls, st.world)
  builds := st.builds

variable (st : PlanState η σ)

theorem current_toGenerations :
    st.toGenerations.current key = st.cache.current key st.manager.generation := by
  unfold Generations.State.current DispatchCache.current toGenerations
  cases st.cache.lookup key <;> rfl

/-- `get_or_build` answers as the table does. -/
theorem getOrBuild_toGenerations (route : CompiledRoute) :
    ((st.getOrBuild host route).1, (st.getOrBuild host route).2.toGenerations) =
      Generations.answer CompiledRoute.routeKey (buildPlan host) st.toGenerations route := by
  unfold getOrBuild DispatchCache.getOrBuild Generations.answer
  rw [current_toGenerations]
  cases st.cache.current route.routeKey st.manager.generation <;> rfl

theorem step_toGenerations :
    (st.step host op).toGenerations =
      Generations.step CompiledRoute.routeKey (buildPlan host) st.toGenerations op := by
  cases op with
  | request route => exact congrArg Prod.snd (st.getOrBuild_toGenerations host route)
  | advance world => rfl

theorem run_toGenerations :
    (st.run host ops).toGenerations =
      Generations.run CompiledRoute.routeKey (buildPlan host) st.toGenerations ops := by
  induction ops generalizing st with
  | nil => rfl
  | cons op ops ih => exact (ih _).trans (by rw [step_toGenerations]; rfl)

theorem ownPlan_iff :
    st.OwnPlan host route ↔
      Generations.Own CompiledRoute.routeKey (buildPlan host) st.toGenerations route := by
  unfold OwnPlan Generations.Own
  rw [← getOrBuild_toGenerations]
  rfl

/-- From an empty cache on, every route is served plans of its own exactly if no two of the routes
    share a key. -/
theorem ownPlans_iff (served : CompiledRoute → Prop) (manager : PlanManager η)
    (decls : DeclRegistry) (world : σ) :
    (∀ ops : List (PlanOp η σ), Generations.Serves served ops → ∀ route, served route →
      (run host { manager, decls, world } ops).OwnPlan host route) ↔
      ∀ a b, served a → served b → a.routeKey = b.routeKey → a = b := by
  simp only [ownPlan_iff, run_toGenerations]
  exact Generations.ownAnswers_iff manager.generation (manager.registry, decls, world)

end PlanState

end

/-! ### The keys of routes -/

/-- What a route is installed for. -/
structure RouteTriple where
  entityType : String
  entityName : String
  scope : Option String
  deriving DecidableEq

namespace RouteTriple

/-- The key the visitor gives the route. -/
def key (a : RouteTriple) : String :=
  routeKey a.entityType a.entityName a.scope

/-- One of the entity types that have routes. -/
def OfEntity (a : RouteTriple) : Prop :=
  a.entityType ∈ ["tool", "resource", "prompt", "llm"]

/-- The name of `a` has an `@` in it, and what follows it reads as the scope of `b`. -/
def ReadsAs (a b : RouteTriple) : Prop :=
  a.entityType = b.entityType ∧
    match a.scope, b.scope with
    | _, none => False
    | none, some s' => a.entityName = b.entityName ++ "@" ++ s'
    | some s, some s' => ∃ x, a.entityName = b.entityName ++ "@" ++ x ∧ s' = x ++ "@" ++ s

/-- The part of a key after the entity type. -/
def rest (a : RouteTriple) : String :=
  match a.scope with
  | some s => a.entityName ++ "@" ++ s
  | none => a.entityName

theorem key_eq_append (a : RouteTriple) : a.key = a.entityType ++ ":" ++ a.rest := by
  unfold key routeKey rest
  cases a.scope with
  | none => rfl
  | some s => simp only [String.append_assoc]

variable {a b : RouteTriple}

/-- The entity type can be read off a key: none of the types has a `:` in it. -/
theorem key_eq_iff_rest (ha : a.OfEntity) (hb : b.OfEntity) :
    a.key = b.key ↔ a.entityType = b.entityType ∧ a.rest = b.rest := by
  have hcolon : ∀ t ∈ ["tool", "resource", "prompt", "llm"], ':' ∉ t.toList := by decide
  have hno : ∀ t ∈ ["tool", "resource", "prompt", "llm"], ∀ x y, t ≠ x ++ ":" ++ y := by
    intro t ht x y heq
    refine hcolon t ht ?_
    rw [heq, String.toList_append_sep (c := ':') rfl]
    simp
  rw [key_eq_append, key_eq_append]
  constructor
  · intro h
    by_cases htype : a.entityType = b.entityType
    · rw [htype] at h
      exact ⟨htype, String.append_right_inj _ |>.mp h⟩
    · rcases (String.append_sep_eq_iff rfl htype).mp h with ⟨x, heq, _⟩ | ⟨x, heq, _⟩
      · exact absurd heq (hno _ hb _ _)
      · exact absurd heq (hno _ ha _ _)
  · rintro ⟨htype, hrest⟩
    rw [htype, hrest]

theorem ext_iff_parts :
    a = b ↔ a.entityType = b.entityType ∧ a.entityName = b.entityName ∧ a.scope = b.scope := by
  cases a
  cases b
  simp

/-- Two entities have the same key exactly if they are the same, or the name of one reads as the
    name and the scope of the other. -/
theorem key_eq_iff (ha : a.OfEntity) (hb : b.OfEntity) :
    a.key = b.key ↔ a = b ∨ a.ReadsAs b ∨ b.ReadsAs a := by
  rw [key_eq_iff_rest ha hb, ext_iff_parts]
  unfold ReadsAs rest
  by_cases htype : a.entityType = b.entityType
  · rw [htype]
    cases a.scope with
    | none => cases b.scope <;> simp
    | some s =>
      cases b.scope with
      | none => simp [eq_comm]
      | some s' =>
        by_cases hname : a.entityName = b.entityName
        · have hlong : ∀ x, b.entityName ≠ b.entityName ++ "@" ++ x :=
            String.ne_append_sep (c := '@') rfl _
          simp [hname, hlong]
        · have hsame : a.entityName ++ "@" ++ s = b.entityName ++ "@" ++ s' ↔ _ :=
            String.append_sep_eq_iff (c := '@') rfl hname
          simp only [hsame, hname, true_and, false_and, false_or]
          exact or_comm
  · simp [htype, Ne.symm htype]

theorem entityType_eq (h : a = b ∨ a.ReadsAs b ∨ b.ReadsAs a) : a.entityType = b.entityType := by
  rcases h with rfl | hreads | hreads
  · rfl
  · exact hreads.1
  · exact hreads.1.symm

/-- A name that reads on is not the shorter name. -/
theorem ReadsAs.ne (h : a.ReadsAs b) : a ≠ b := by
  rintro rfl
  obtain ⟨_, h⟩ := h
  cases hscope : a.scope with
  | none => rw [hscope] at h; exact h
  | some s =>
    rw [hscope] at h
    obtain ⟨x, hname, _⟩ := h
    exact String.ne_append_sep (c := '@') rfl _ _ hname

/-- No entity has the key of the global policy, which has no `:` in it. -/
theorem key_ne_global : a.key ≠ "global.apl" := by
  intro h
  have hcolon : ':' ∉ "global.apl".toList := by decide
  rw [← h, key_eq_append, String.toList_append_sep (c := ':') rfl] at hcolon
  simp at hcolon

end RouteTriple

/-! ### The routes of a load -/

/-- Entities have hooks if routes can name them. -/
theorem mem_of_mem_entityHooks (h : hp ∈ entityHooks entityType) :
    entityType ∈ ["tool", "resource", "prompt", "llm"] := by
  unfold entityHooks hookPairForEntity at h
  split_ifs at h <;> simp_all

section
variable [Platform] [PolicyParser]

/-- Under some hook, the entity was given a handler of the route. -/
def Installed (runtime : RuntimeSnapshot) (a : RouteTriple) (route : CompiledRoute) : Prop :=
  ∃ hook entry, runtime.routeAnnotations.lookup ⟨a.entityType, a.entityName, a.scope, hook⟩ =
    some entry ∧ entry.handler.route = route

/-- The effective policy of an entity has the entity's key. -/
theorem effectiveRoute_routeKey
    (h : effectiveRoute state yaml parsed entityType entityName = .ok effective) :
    effective.routeKey = routeKey entityType entityName parsed.scope := by
  rw [effectiveRoute_eq_stack] at h
  obtain ⟨own, _, rfl⟩ := Except.ok_of_map h
  show (CompiledRoute.stack _ _ own).routeKey = _
  exact CompiledRoute.stack_routeKey

theorem compileLayer_routeKey (h : compileLayer source block = .ok layer) :
    layer.route.routeKey = source := by
  unfold compileLayer at h
  split at h
  · exact nomatch h
  next hroute =>
    cases h
    exact compilePolicyBlockValue_routeKey hroute

variable {route : CompiledRoute}

/-- The handler of requests without an entity has a key that no entity has. -/
theorem CatchAll.routeKey (h : CatchAll raw route) :
    route.routeKey = "global.apl" := by
  obtain ⟨block, layer, _, hlayer, _, rfl⟩ := h
  exact compileLayer_routeKey hlayer

theorem CatchAll.unique (ha : CatchAll raw a) (hb : CatchAll raw b) : a = b := by
  obtain ⟨block, layer, hblock, hlayer, _, rfl⟩ := ha
  obtain ⟨block', layer', hblock', hlayer', _, rfl⟩ := hb
  cases hblock.symm.trans hblock'
  cases hlayer.symm.trans hlayer'
  rfl

variable {self : AplConfigVisitor} {modeFor : String → Option PluginMode} {state : VisitorState}
  {raw : Yaml} {runtime : RuntimeSnapshot} {config : CpexConfig} {a : RouteTriple}

/-- What is found for an entity has the entity's key. -/
theorem Loaded.routeKey_of_installed (hl : Loaded self modeFor raw runtime state config)
    (hhttp : a.entityType ≠ "http") (h : Installed runtime a route) :
    a.OfEntity ∧ route.routeKey = a.key := by
  obtain ⟨hook, entry, hlookup, rfl⟩ := h
  obtain ⟨j, r, _, entityType, _, _, name, _, effective, hpolicy, hp, hhp, heq⟩ :=
    hl.exists_of_lookup hlookup hhttp
  obtain ⟨hkey, rfl⟩ := Prod.mk.inj heq
  obtain ⟨htype, hname, hscope, _⟩ := AnnotationKey.mk.inj hkey
  refine ⟨?_, ?_⟩
  · rw [RouteTriple.OfEntity, htype]
    exact mem_of_mem_entityHooks hhp
  · rw [RouteTriple.key, htype, hname, hscope]
    exact effectiveRoute_routeKey hpolicy.1

/-- A route that annotates an entity annotates it under every hook of the entity's type, with the
    same policy. -/
theorem Annotates.every_hook
    (h : Annotates self state yaml r origin (⟨a.entityType, a.entityName, a.scope, hook⟩, entry)) :
    ∃ effective,
      (∀ hp ∈ entityHooks a.entityType, ∃ e, Annotates self state yaml r origin
        (⟨a.entityType, a.entityName, a.scope, hp.1⟩, e)) ∧
      ∀ hook' e, Annotates self state yaml r origin
        (⟨a.entityType, a.entityName, a.scope, hook'⟩, e) →
        e.handler.route = effective ∧ ∃ hp ∈ entityHooks a.entityType, hp.1 = hook' := by
  obtain ⟨entityType, names, hid, name, hname, effective, hpolicy, hp, hhp, heq⟩ := h
  obtain ⟨hkey, rfl⟩ := Prod.mk.inj heq
  obtain ⟨rfl, rfl, hscope, rfl⟩ := AnnotationKey.mk.inj hkey
  refine ⟨effective, fun hp' hhp' => ?_, fun hook' e h' => ?_⟩
  · rw [hscope]
    exact ⟨_, a.entityType, names, hid, a.entityName, hname, effective, hpolicy, hp', hhp', rfl⟩
  · obtain ⟨_, _, hid', name', _, effective', hpolicy', hp', hhp', heq'⟩ := h'
    obtain ⟨hkey', rfl⟩ := Prod.mk.inj heq'
    obtain ⟨htype, hname, _, rfl⟩ := AnnotationKey.mk.inj hkey'
    rw [← htype] at hhp' hpolicy'
    rw [← hname] at hpolicy'
    exact ⟨Except.ok.inj (hpolicy'.1.symm.trans hpolicy.1), hp', hhp', rfl⟩

/-- One route is found for an entity, under all its hooks: the last one that annotates it. -/
theorem Loaded.installed_unique (hl : Loaded self modeFor raw runtime state config)
    (hhttp : a.entityType ≠ "http") (h : Installed runtime a route)
    (h' : Installed runtime a route') : route = route' := by
  let annotatedBy (j : Nat) : Prop := ∃ r hook e, config.routes[j]? = some r ∧
    Annotates self state (routeYamlAt raw j) r j (⟨a.entityType, a.entityName, a.scope, hook⟩, e)
  have hbound : ∀ j, annotatedBy j → j ≤ config.routes.length := by
    rintro j ⟨r, _, _, hj, _⟩
    exact Nat.le_of_lt (List.getElem?_eq_some_iff.mp hj).1
  have hfirst : ∃ j, annotatedBy j := by
    obtain ⟨hook, entry, hlookup, _⟩ := h
    obtain ⟨j, r, hj, ha⟩ := hl.exists_of_lookup hlookup hhttp
    exact ⟨j, r, hook, entry, hj, ha⟩
  obtain ⟨m, ⟨r, hook, e, hm, ha⟩, hlast⟩ : ∃ m, annotatedBy m ∧ ∀ j, m < j → ¬annotatedBy j := by
    classical
    obtain ⟨j, hj⟩ := hfirst
    refine ⟨Nat.findGreatest annotatedBy config.routes.length,
      Nat.findGreatest_spec (hbound j hj) hj, fun k hk hP => ?_⟩
    exact Nat.findGreatest_is_greatest hk (hbound k hP) hP
  obtain ⟨effective, hevery, hroute⟩ := ha.every_hook
  have hfound : ∀ found, Installed runtime a found → found = effective := by
    rintro _ ⟨hook', entry, hlookup, rfl⟩
    obtain ⟨j, r', hj, ha'⟩ := hl.exists_of_lookup hlookup hhttp
    obtain ⟨_, _, hhooks⟩ := ha'.every_hook
    obtain ⟨hp, hhp, rfl⟩ := (hhooks _ _ ha').2
    obtain ⟨e', he'⟩ := hevery hp hhp
    obtain ⟨e'', he'', hlookup''⟩ := hl.lookup_of_last hm he' fun j r'' e'' hmj hj ha'' =>
      hlast j hmj ⟨r'', _, e'', hj, ha''⟩
    cases hlookup.symm.trans hlookup''
    exact (hroute _ _ he'').1
  rw [hfound route h, hfound route' h']

variable {η : Type} {host : Host η} {manager loaded : PluginManager η} {before : VisitorState}

section
variable (h : loadConfigYaml host manager raw = .ok loaded) (hbefore : manager.visitor = some before)
include h hbefore

/-- Without an entity there is one thing to install, the catch-all. -/
theorem Installed.catchAll (hi : Installed loaded.runtime a route) (hhttp : a.entityType = "http") :
    a = ⟨"http", "*", none⟩ ∧ CatchAll raw route := by
  obtain ⟨hook, entry, hlookup, hroute⟩ := hi
  have hkey := key_of_lookup_http h hbefore hlookup hhttp
  obtain ⟨htype, hname, hscope, _⟩ := AnnotationKey.mk.inj hkey
  exact ⟨RouteTriple.ext_iff_parts.mpr ⟨htype, hname, hscope⟩,
    (exists_lookup_http_iff h hbefore).mp ⟨_, entry, hlookup, hhttp, hroute⟩⟩

/-- One route at most is installed for an entity. -/
theorem Installed.unique (hi : Installed loaded.runtime a route)
    (hi' : Installed loaded.runtime a route') : route = route' := by
  by_cases hhttp : a.entityType = "http"
  · exact (hi.catchAll h hbefore hhttp).2.unique (hi'.catchAll h hbefore hhttp).2
  · obtain ⟨_, _, _, hl⟩ := loadConfigYaml_ok h (hbefore ▸ rfl)
    exact hl.installed_unique hhttp hi hi'

variable {b : RouteTriple} {ra rb : CompiledRoute}

/-- The catch-all has a key of its own. -/
theorem Installed.routeKey_ne (ha : Installed loaded.runtime a ra)
    (hb : Installed loaded.runtime b rb) (hahttp : a.entityType = "http")
    (hbhttp : b.entityType ≠ "http") : ra.routeKey ≠ rb.routeKey := by
  obtain ⟨_, _, _, hl⟩ := loadConfigYaml_ok h (hbefore ▸ rfl)
  obtain ⟨_, hcatch⟩ := ha.catchAll h hbefore hahttp
  obtain ⟨_, hkey⟩ := hl.routeKey_of_installed hbhttp hb
  rw [hcatch.routeKey, hkey]
  exact b.key_ne_global.symm

/-- The routes of two entities share a key exactly if the entities are the same or the name of one
    reads as the name and the scope of the other. -/
theorem Installed.routeKey_eq_iff (ha : Installed loaded.runtime a ra)
    (hb : Installed loaded.runtime b rb) :
    ra.routeKey = rb.routeKey ↔ a = b ∨ a.ReadsAs b ∨ b.ReadsAs a := by
  obtain ⟨_, _, _, hl⟩ := loadConfigYaml_ok h (hbefore ▸ rfl)
  by_cases hahttp : a.entityType = "http" <;> by_cases hbhttp : b.entityType = "http"
  · obtain ⟨rfl, hacatch⟩ := ha.catchAll h hbefore hahttp
    obtain ⟨rfl, hbcatch⟩ := hb.catchAll h hbefore hbhttp
    simp [hacatch.routeKey, hbcatch.routeKey]
  · exact iff_of_false (ha.routeKey_ne h hbefore hb hahttp hbhttp)
      fun hsame => hbhttp ((RouteTriple.entityType_eq hsame).symm.trans hahttp)
  · exact iff_of_false (hb.routeKey_ne h hbefore ha hbhttp hahttp).symm
      fun hsame => hahttp ((RouteTriple.entityType_eq hsame).trans hbhttp)
  · obtain ⟨haentity, hakey⟩ := hl.routeKey_of_installed hahttp ha
    obtain ⟨hbentity, hbkey⟩ := hl.routeKey_of_installed hbhttp hb
    rw [hakey, hbkey]
    exact RouteTriple.key_eq_iff haentity hbentity

end

/-- The routes of a load are served plans of their own, whatever is called and reloaded in between,
    and entities have keys of their own, exactly if no installed name reads as the name and the
    scope of another. -/
theorem dispatchPlans_unshared_iff (h : loadConfigYaml host manager raw = .ok loaded)
    (hbefore : manager.visitor = some before) {θ σ : Type} (planHost : PlanHost θ σ)
    (plans : PlanManager θ) (decls : DeclRegistry) (world : σ) :
    ((∀ ops : List (PlanOp θ σ),
        Generations.Serves (fun route => ∃ a, Installed loaded.runtime a route) ops →
        ∀ route, (∃ a, Installed loaded.runtime a route) →
          (PlanState.run planHost { manager := plans, decls, world } ops).OwnPlan planHost route) ∧
      ∀ a b ra rb, Installed loaded.runtime a ra → Installed loaded.runtime b rb → a ≠ b →
        ra.routeKey ≠ rb.routeKey) ↔
      ∀ a b ra rb, Installed loaded.runtime a ra → Installed loaded.runtime b rb →
        ¬a.ReadsAs b := by
  rw [PlanState.ownPlans_iff]
  constructor
  · rintro ⟨_, hkeys⟩ a b ra rb ha hb hreads
    exact hkeys a b ra rb ha hb hreads.ne
      ((ha.routeKey_eq_iff h hbefore hb).mpr (.inr (.inl hreads)))
  · intro hnone
    have hsame : ∀ a b ra rb, Installed loaded.runtime a ra → Installed loaded.runtime b rb →
        ra.routeKey = rb.routeKey → a = b := by
      intro a b ra rb ha hb hkey
      rcases (ha.routeKey_eq_iff h hbefore hb).mp hkey with heq | hreads | hreads
      · exact heq
      · exact absurd hreads (hnone a b ra rb ha hb)
      · exact absurd hreads (hnone b a rb ra hb ha)
    refine ⟨?_, fun a b ra rb ha hb hne hkey => hne (hsame a b ra rb ha hb hkey)⟩
    rintro ra rb ⟨a, ha⟩ ⟨b, hb⟩ hkey
    obtain rfl := hsame a b ra rb ha hb hkey
    exact ha.unique h hbefore hb

end

section
attribute [local instance] Platform.bare ParserPlatform.bare ConfigSerde.bare PolicyParser.apl

/-- A host that makes no instances of its own. -/
def PlanHost.bare : PlanHost Unit Unit where
  toJson _ := none
  factories _ := none
  hookTypeName _ := ""
  initializeInstance _ w := (true, w)
  newId _ w := (0, w)

/-- Routes of two tools, the second of which may be scoped. -/
def twoTools (first second : String) (scope : Option String) : CpexConfig :=
  { routes := [{ tool := some (.single first) },
      { tool := some (.single second), «meta» := some { scope } }] }

/-- The document they come from. The policy of the first calls one plugin, that of the second
    two. -/
def twoPolicies (first second : String) (scope : Option String) : Yaml :=
  .mapping [(.string "routes", .sequence [
    .mapping [(.string "tool", .string first),
      (.string "apl", .mapping [(.string "pre_invocation",
        .sequence [.string "plugin(audit)"])])],
    .mapping [(.string "tool", .string second),
      (.string "meta", .mapping (scope.toList.map fun s => (.string "scope", .string s))),
      (.string "apl", .mapping [(.string "pre_invocation",
        .sequence [.string "plugin(audit)", .string "plugin(mask)"])])]])]

/-- The load of the two. -/
def loadTwo (first second : String) (scope : Option String) :
    Except PluginError (PluginManager Unit) :=
  loadConfigYaml (Host.bare (twoTools first second scope)) .fresh (twoPolicies first second scope)

/-- The tool `read@hr` and, in the scope `hr`, the tool `read` have one key. After a call of the
    first, the second is served its plan, without the plugin `mask`. -/
theorem dispatchPlan_shared_by_scope :
    ∃ loaded ra rb, loadTwo "read@hr" "read" (some "hr") = .ok loaded ∧
      Installed loaded.runtime ⟨"tool", "read@hr", none⟩ ra ∧
      Installed loaded.runtime ⟨"tool", "read", some "hr"⟩ rb ∧
      ra.routeKey = rb.routeKey ∧ collectPluginNames ra = ["audit"] ∧
      collectPluginNames rb = ["audit", "mask"] ∧
      ¬(PlanState.run PlanHost.bare { manager := {}, decls := ∅, world := () }
        [.request ra]).OwnPlan PlanHost.bare rb := by
  have hrun : ((loadTwo "read@hr" "read" (some "hr")).toOption.bind fun loaded =>
        (loaded.runtime.routeAnnotations.lookup
          ⟨"tool", "read@hr", none, "cmf.tool_pre_invoke"⟩).bind fun a =>
        (loaded.runtime.routeAnnotations.lookup
          ⟨"tool", "read", some "hr", "cmf.tool_pre_invoke"⟩).map fun b =>
            ((a.handler.route.routeKey, collectPluginNames a.handler.route),
              (b.handler.route.routeKey, collectPluginNames b.handler.route))) =
      some (("tool:read@hr", ["audit"]), ("tool:read@hr", ["audit", "mask"])) := by
    decide +kernel
  obtain ⟨loaded, hloaded, hrun⟩ := Option.bind_eq_some_iff.mp hrun
  obtain ⟨a, ha, hrun⟩ := Option.bind_eq_some_iff.mp hrun
  obtain ⟨b, hb, hparts⟩ := Option.map_eq_some_iff.mp hrun
  simp only [Prod.mk.injEq] at hparts
  obtain ⟨⟨hakey, hanames⟩, hbkey, hbnames⟩ := hparts
  refine ⟨loaded, _, _, Except.ok_of_toOption hloaded, ⟨_, a, ha, rfl⟩, ⟨_, b, hb, rfl⟩,
    hakey.trans hbkey.symm, hanames, hbnames, ?_⟩
  rw [PlanState.ownPlan_iff, PlanState.run_toGenerations]
  refine Generations.not_own_of_key_eq (hakey.trans hbkey.symm) (fun heq => ?_) 0 _
  rw [heq, hbnames] at hanames
  exact nomatch hanames

/-- Two tools with other names are served plans of their own. -/
theorem dispatchPlans_unshared_tools :
    ∃ loaded ra rb, loadTwo "read" "write" none = .ok loaded ∧
      Installed loaded.runtime ⟨"tool", "read", none⟩ ra ∧
      Installed loaded.runtime ⟨"tool", "write", none⟩ rb ∧
      (PlanState.run PlanHost.bare { manager := {}, decls := ∅, world := () }
        [.request ra]).OwnPlan PlanHost.bare rb := by
  have hrun : ((loadTwo "read" "write" none).toOption.bind fun loaded =>
        (loaded.runtime.routeAnnotations.lookup
          ⟨"tool", "read", none, "cmf.tool_pre_invoke"⟩).bind fun a =>
        (loaded.runtime.routeAnnotations.lookup
          ⟨"tool", "write", none, "cmf.tool_pre_invoke"⟩).map fun b =>
            loaded.runtime.routeAnnotations.keys.all fun key => key.scope.isNone) = some true := by
    decide +kernel
  obtain ⟨loaded, hloaded, hrun⟩ := Option.bind_eq_some_iff.mp hrun
  obtain ⟨a, ha, hrun⟩ := Option.bind_eq_some_iff.mp hrun
  obtain ⟨b, hb, hscopes⟩ := Option.map_eq_some_iff.mp hrun
  have hok := Except.ok_of_toOption hloaded
  have hunscoped : ∀ t route, Installed loaded.runtime t route → t.scope = none := by
    rintro t _ ⟨hook, entry, hlookup, rfl⟩
    have hmem := AList.lookup_isSome.mp (Option.isSome_of_eq_some hlookup)
    exact Option.isNone_iff_eq_none.mp (List.all_eq_true.mp hscopes _ hmem)
  have hunshared := (dispatchPlans_unshared_iff hok rfl PlanHost.bare {} ∅ ()).mpr
    fun t u _ _ _ hu hreads => by
      obtain ⟨_, hreads⟩ := hreads
      rw [hunscoped u _ hu] at hreads
      exact hreads
  have hread : Installed loaded.runtime ⟨"tool", "read", none⟩ a.handler.route := ⟨_, a, ha, rfl⟩
  have hwrite : Installed loaded.runtime ⟨"tool", "write", none⟩ b.handler.route :=
    ⟨_, b, hb, rfl⟩
  refine ⟨loaded, _, _, hok, hread, hwrite, hunshared.1 _ (fun route hroute => ?_) _ ⟨_, hwrite⟩⟩
  cases List.mem_singleton.mp hroute
  exact ⟨_, hread⟩

end

end Cpex.Core
