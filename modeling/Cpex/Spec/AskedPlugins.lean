import Cpex.Native.Parser
import Cpex.Spec.Elicitations

/-! # The plugins an evaluation asks

A route's dispatch plan and the capabilities of its handler are computed from the plugins that a
walk over the route collects. The evaluator asks the invokers for plugins by name; those it asks for
on behalf of a field operation are not among the nodes the walk looks at.
-/

namespace Cpex

/-- A name handed to one of the invokers. -/
inductive Asked where
  | plugin (name : String)
  | delegation (name : String)
  | elicitation (name : String)
  deriving DecidableEq

/-- A plugin whose name satisfies `p`. -/
def Asked.PluginOf (p : String → Prop) (q : Asked) : Prop :=
  ∃ name, q = .plugin name ∧ p name

def Asked.name : Asked → String
  | .plugin name => name
  | .delegation name => name
  | .elicitation name => name

/-- What a record says was asked. An elicitation whose `from` does not resolve asks no one. -/
def Reached.asked : Reached → Option Asked
  | .plugin name _ => some (.plugin name)
  | .delegate step _ => some (.delegation step.pluginName)
  | .elicit step fromResolved _ _ _ _ =>
    if fromResolved then some (.elicitation step.pluginName) else none
  | _ => none

/-- The record grew from `before` to `after` by asking for everything in `must`, and for nothing
    outside `may`. -/
def Asks (must may : Asked → Prop) (before after : List Reached) : Prop :=
  ∃ new, after = before ++ new ∧ (∀ x ∈ new, ∀ q, x.asked = some q → may q) ∧
    ∀ q, must q → ∃ x ∈ new, x.asked = some q

namespace Asks

variable {must must' may may' : Asked → Prop} {t t' t'' : List Reached}

theorem refl (h : ∀ q, ¬must q) : Asks must may t t := by
  refine ⟨[], (List.append_nil t).symm, fun x hx => ?_, fun q hq => absurd hq (h q)⟩
  exact nomatch hx

variable {x : Reached}

theorem of_one (hx : x.asked = some q) (hmust : ∀ q', must q' → q' = q) (hmay : may q) :
    Asks must may t (t ++ [x]) := by
  refine ⟨[x], rfl, fun y hy q' hq' => ?_, fun q' hq' => ?_⟩
  · cases List.mem_singleton.mp hy
    cases hx.symm.trans hq'
    exact hmay
  · rw [hmust q' hq']
    exact ⟨x, List.mem_singleton_self x, hx⟩

/-- One record of something that may be asked, where nothing has to be. -/
theorem of_quiet (hx : x.asked = some q) (hmust : ∀ q, ¬must q) (hmay : may q) :
    Asks must may t (t ++ [x]) :=
  of_one hx (fun q hq => absurd hq (hmust q)) hmay

theorem of_none (hx : x.asked = none) (h : ∀ q, ¬must q) : Asks must may t (t ++ [x]) := by
  refine ⟨[x], rfl, fun y hy q hq => ?_, fun q hq => absurd hq (h q)⟩
  cases List.mem_singleton.mp hy
  exact nomatch hx.symm.trans hq

theorem mono (h : Asks must may t t') (hmust : ∀ q, must' q → must q)
    (hmay : ∀ q, may q → may' q) : Asks must' may' t t' := by
  obtain ⟨new, htrace, hnew, hall⟩ := h
  exact ⟨new, htrace, fun x hx q hq => hmay q (hnew x hx q hq), fun q hq => hall q (hmust q hq)⟩

/-- What is asked does not depend on the record so far. -/
theorem append_left (h : Asks must may [] t') (t : List Reached) :
    Asks must may t (t ++ t') := by
  obtain ⟨new, htrace, hnew, hall⟩ := h
  exact ⟨new, by rw [htrace, List.nil_append], hnew, hall⟩

/-- Records that ask for nothing change nothing. -/
theorem append_none (h : Asks must may t t') (hmore : ∀ x ∈ more, x.asked = none) :
    Asks must may t (t' ++ more) := by
  obtain ⟨new, rfl, hnew, hall⟩ := h
  refine ⟨new ++ more, List.append_assoc .., fun x hx q hq => ?_, fun q hq => ?_⟩
  · rcases List.mem_append.mp hx with hx | hx
    · exact hnew x hx q hq
    · exact nomatch (hmore x hx).symm.trans hq
  · obtain ⟨x, hx, hxq⟩ := hall q hq
    exact ⟨x, List.mem_append_left _ hx, hxq⟩

theorem trans (h : Asks must may t t') (h' : Asks must' may' t' t'') :
    Asks (fun q => must q ∨ must' q) (fun q => may q ∨ may' q) t t'' := by
  obtain ⟨new, rfl, hnew, hall⟩ := h
  obtain ⟨new', rfl, hnew', hall'⟩ := h'
  refine ⟨new ++ new', List.append_assoc .., fun x hx q hq => ?_, fun q hq => ?_⟩
  · rcases List.mem_append.mp hx with hx | hx
    · exact .inl (hnew x hx q hq)
    · exact .inr (hnew' x hx q hq)
  · rcases hq with hq | hq
    · obtain ⟨x, hx, hxq⟩ := hall q hq
      exact ⟨x, List.mem_append_left _ hx, hxq⟩
    · obtain ⟨x, hx, hxq⟩ := hall' q hq
      exact ⟨x, List.mem_append_right _ hx, hxq⟩

end Asks

section
variable [Platform] {σ : Type} (env : Env σ) (phase : DispatchPhase)

/-! ### Field pipelines -/

section
variable (bag : AttributeBag) (fieldName : String)

/-- The stage loop gets to a stage that asks for the plugin. -/
def stagesAsk (name : String) : Nat → List Stage → PipelineState σ → Prop
  | _, [], _ => False
  | idx, stage :: stages, ps =>
    stage = .plugin name ∨
      ((runStage env.toInvokers bag fieldName phase idx stage ps).1 = none ∧
        stagesAsk name (idx + 1) stages
          (runStage env.toInvokers bag fieldName phase idx stage ps).2)

theorem mem_of_stagesAsk (h : stagesAsk env phase bag fieldName name idx stages ps) :
    .plugin name ∈ stages := by
  induction stages generalizing idx ps with
  | nil => exact absurd h id
  | cons stage stages ih =>
    rcases h with rfl | ⟨_, h⟩
    · exact List.mem_cons_self
    · exact List.mem_cons_of_mem _ (ih h)

theorem runStage_stagesAsk (idx : Nat) (stage : Stage) (ps : PipelineState σ) :
    Asks (Asked.PluginOf fun name => stage = .plugin name)
      (Asked.PluginOf fun name => stage = .plugin name) ps.trace
      (runStage env.toInvokers bag fieldName phase idx stage ps).2.trace := by
  by_cases hplugin : ∃ name, stage = .plugin name
  · obtain ⟨name, rfl⟩ := hplugin
    rw [runStage, (runPluginStage_called env phase bag fieldName idx name ps).2.1]
    refine .of_one rfl ?_ ⟨name, rfl, rfl⟩
    rintro _ ⟨_, rfl, heq⟩
    cases heq
    rfl
  · rw [(runStage_frame env.toInvokers bag fieldName phase idx stage ps (not_exists.mp hplugin)).2]
    refine .refl ?_
    rintro q ⟨name, -, heq⟩
    exact hplugin ⟨name, heq⟩

/-- The stage loop asks for the plugins of the stages it gets to. -/
theorem runStages_stagesAsk (idx : Nat) (stages : List Stage) (ps : PipelineState σ) :
    Asks (Asked.PluginOf fun name => stagesAsk env phase bag fieldName name idx stages ps)
      (Asked.PluginOf fun name => stagesAsk env phase bag fieldName name idx stages ps) ps.trace
      (runStages env.toInvokers bag fieldName phase idx stages ps).2.trace := by
  induction stages generalizing idx ps with
  | nil => exact .refl fun q ⟨_, _, h⟩ => h
  | cons stage stages ih =>
    have hstage := runStage_stagesAsk env phase bag fieldName idx stage ps
    unfold runStages
    simp only [stagesAsk]
    generalize runStage env.toInvokers bag fieldName phase idx stage ps = r at hstage ⊢
    obtain ⟨outcome, ps'⟩ := r
    cases outcome with
    | some outcome =>
      refine hstage.mono ?_ ?_
      · rintro _ ⟨name, rfl, heq | ⟨hnone, _⟩⟩
        · exact ⟨name, rfl, heq⟩
        · exact nomatch hnone
      · rintro _ ⟨name, rfl, heq⟩
        exact ⟨name, rfl, .inl heq⟩
    | none =>
      refine (hstage.trans (ih (idx + 1) ps')).mono ?_ ?_
      · rintro _ ⟨name, rfl, heq | ⟨_, hrest⟩⟩
        · exact .inl ⟨name, rfl, heq⟩
        · exact .inr ⟨name, rfl, hrest⟩
      · rintro _ (⟨name, rfl, heq⟩ | ⟨name, rfl, hrest⟩)
        · exact ⟨name, rfl, .inl heq⟩
        · exact ⟨name, rfl, .inr ⟨rfl, hrest⟩⟩

end

/-! ### Field operations -/

/-- The field operation gets to a stage that asks for the plugin. -/
def fieldOpAsks (name path : String) (stages : List Stage) (st : EvalState σ) : Prop :=
  ∃ subpath current, fieldOpTarget phase path st = some (subpath, current) ∧
    stagesAsk env phase st.bag subpath name 0 stages ⟨current, false, [], st.world, []⟩

theorem dispatchFieldOp_fieldOpAsks (path : String) (stages : List Stage) (fallbackSource : String)
    (st : EvalState σ) :
    Asks (Asked.PluginOf fun name => fieldOpAsks env phase name path stages st)
      (Asked.PluginOf fun name => fieldOpAsks env phase name path stages st) st.trace
      (dispatchFieldOp env phase path stages fallbackSource st).2.trace := by
  unfold fieldOpAsks
  cases htarget : fieldOpTarget phase path st with
  | none =>
    rw [dispatchFieldOp_skipped env phase fallbackSource stages htarget]
    exact .refl fun q ⟨_, _, _, _, h, _⟩ => nomatch h
  | some target =>
    obtain ⟨subpath, current⟩ := target
    have hstages := (runStages_stagesAsk env phase st.bag subpath 0 stages
      ⟨current, false, [], st.world, []⟩).append_left st.trace
    rw [(dispatchFieldOp_ran env phase fallbackSource stages htarget).1.trace]
    refine hstages.mono ?_ ?_
    · rintro q ⟨name, hq, _, _, heq, hask⟩
      cases heq
      exact ⟨name, hq, hask⟩
    · rintro q ⟨name, hq, hask⟩
      exact ⟨name, hq, subpath, current, rfl, hask⟩

/-! ### Effects without a body -/

section
variable {must may : Asked → Prop} (hmust : ∀ q, ¬must q)
include hmust

omit [Platform] in
theorem dispatchPlugin_asks (hmay : may (.plugin name)) (st : EvalState σ) :
    Asks must may st.trace (dispatchPlugin env phase name st).2.trace := by
  rw [dispatchPlugin_snd]
  exact .of_quiet rfl hmust hmay

omit [Platform] in
theorem dispatchDelegate_asks {step : DelegateStep} (hmay : may (.delegation step.pluginName))
    (st : EvalState σ) : Asks must may st.trace (dispatchDelegate env step st).2.trace := by
  rw [dispatchDelegate_snd]
  exact .of_quiet rfl hmust hmay

theorem dispatchRestrict_asks (fallbackSource : String) (spec : RestrictSpec)
    (st : EvalState σ) :
    Asks must may st.trace (dispatchRestrict fallbackSource spec st).2.trace := by
  obtain ⟨added, hst⟩ := dispatchRestrict_snd fallbackSource spec st
  rw [hst]
  exact .of_none rfl hmust

theorem dispatchElicitation_asks {step : ElicitStep} (hmay : may (.elicitation step.pluginName))
    (st : EvalState σ) : Asks must may st.trace (dispatchElicitation env step st).2.trace := by
  obtain ⟨fromResolved, _, _, _, _, htrace⟩ := (dispatchElicitation_elicits env step st).frame.trace
  rw [htrace]
  cases fromResolved with
  | false => exact .of_none rfl hmust
  | true => exact .of_quiet rfl hmust hmay

end

/-! ### What is visited asks -/

/-- What a node of the tree asks for by itself. -/
def Effect.asks : Effect → Option Asked
  | .plugin name => some (.plugin name)
  | .delegate step => some (.delegation step.pluginName)
  | .elicit step => some (.elicitation step.pluginName)
  | _ => none

/-- One of the nodes asks for it. -/
def Asked.OfNodes (nodes : List Effect) (q : Asked) : Prop :=
  ∃ e ∈ nodes, e.asks = some q

/-- A stage of a field operation among the nodes names the plugin. -/
def FieldOpsName (nodes : List Effect) (name : String) : Prop :=
  ∃ path stages, .fieldOp path stages ∈ nodes ∧ .plugin name ∈ stages

/-- What is visited is a field operation that gets to a stage that asks for the plugin. -/
def Visit.fieldAsks (name : String) : Visit σ → Prop
  | (.fieldOp path stages, st) => fieldOpAsks env phase name path stages st
  | _ => False

variable {nodes nodes' : List Effect} {name : String}

theorem Visit.fieldAsks.names {v : Visit σ} (h : v.fieldAsks env phase name) (hv : v.1 ∈ nodes) :
    FieldOpsName nodes name := by
  obtain ⟨e, st⟩ := v
  cases e with
  | fieldOp path stages =>
    obtain ⟨subpath, current, -, hstages⟩ := h
    exact ⟨path, stages, hv, mem_of_stagesAsk env phase st.bag subpath hstages⟩
  | _ => exact h.elim

/-- The record grew by what visits of nodes ask for, and by all that the field operations among them
    ask for. -/
def VisitsAsk (nodes : List Effect) (vs : List (Visit σ)) (t t' : List Reached) : Prop :=
  Asks (Asked.PluginOf fun name => ∃ v ∈ vs, v.fieldAsks env phase name)
    (fun q => ∃ v ∈ vs, v.1 ∈ nodes ∧
      (v.1.asks = some q ∨ q.PluginOf fun name => v.fieldAsks env phase name)) t t'

variable {env phase} in
theorem VisitsAsk.append (h : VisitsAsk env phase nodes vs t t')
    (h' : VisitsAsk env phase nodes vs' t' t'') :
    VisitsAsk env phase nodes (vs ++ vs') t t'' := by
  refine (Asks.trans h h').mono ?_ ?_
  · rintro q ⟨name, hq, v, hv, hask⟩
    rcases List.mem_append.mp hv with hv | hv
    · exact .inl ⟨name, hq, v, hv, hask⟩
    · exact .inr ⟨name, hq, v, hv, hask⟩
  · rintro q (⟨v, hv, hq⟩ | ⟨v, hv, hq⟩)
    · exact ⟨v, List.mem_append_left _ hv, hq⟩
    · exact ⟨v, List.mem_append_right _ hv, hq⟩

theorem VisitsAsk.of_none (hx : x.asked = none) : VisitsAsk env phase nodes [] t (t ++ [x]) :=
  Asks.of_none hx fun _ ⟨_, _, _, hv, _⟩ => absurd hv List.not_mem_nil

/-- What an effect without a body asks for. A field operation does not ask itself, its stages do. -/
theorem dispatchEffect_asks {e : Effect} (he : e ∈ nodes) (hbody : e.hasBody = false)
    (source : String) (st : EvalState σ) :
    VisitsAsk env phase nodes [(e, st)] st.trace
      (dispatchEffect env phase source e st).2.trace := by
  suffices h : Asks (Asked.PluginOf fun name => Visit.fieldAsks env phase name (e, st))
      (fun q => e.asks = some q ∨
        q.PluginOf fun name => Visit.fieldAsks env phase name (e, st)) st.trace
      (dispatchEffect env phase source e st).2.trace by
    refine h.mono ?_ fun q hq => ⟨(e, st), List.mem_singleton_self _, he, hq⟩
    rintro q ⟨name, hq, v, hv, hask⟩
    cases List.mem_singleton.mp hv
    exact ⟨name, hq, hask⟩
  have hquiet (h : ∀ name, ¬Visit.fieldAsks env phase name (e, st)) (q : Asked) :
      ¬q.PluginOf fun name => Visit.fieldAsks env phase name (e, st) :=
    fun ⟨name, _, hask⟩ => h name hask
  cases e with
  | allow | taint label scopes => exact .refl (hquiet fun _ => id)
  | deny reason code => exact .of_none rfl (hquiet fun _ => id)
  | plugin name => exact dispatchPlugin_asks env phase (hquiet fun _ => id) (.inl rfl) st
  | delegate step => exact dispatchDelegate_asks env (hquiet fun _ => id) (.inl rfl) st
  | elicit step => exact dispatchElicitation_asks env (hquiet fun _ => id) (.inl rfl) st
  | restrict spec => exact dispatchRestrict_asks (hquiet fun _ => id) source spec st
  | fieldOp path stages =>
    exact (dispatchFieldOp_fieldOpAsks env phase path stages source st).mono (fun _ => id)
      fun _ => .inr
  | sequential _ | parallel _ | when _ _ _ | pdp _ _ _ => exact nomatch hbody

/-- The branches of a block, each with a record of its own. -/
theorem dispatchBranches_asks (source : String) (es : List Effect) (st : EvalState σ)
    (h : ∀ e ∈ es, ∀ st, VisitsAsk env phase nodes (e.visits env phase source st) st.trace
      (dispatchEffect env phase source e st).2.trace) (i : Nat) :
    VisitsAsk env phase nodes (Effect.branchVisits env phase source i es st) []
      ((dispatchBranches env phase source i es st).map (·.2.trace)).flatten := by
  induction es generalizing i with
  | nil => exact .refl fun _ ⟨_, _, _, hv, _⟩ => absurd hv List.not_mem_nil
  | cons e es ih =>
    obtain ⟨hfirst, hrest⟩ := List.forall_mem_cons.mp h
    exact VisitsAsk.append (hfirst (st.branch env i)) (Asks.append_left (ih hrest (i + 1)) _)

/-- A block asks for what its branches ask for. -/
theorem joinParallel_asks (branches : List (EffectOutcome × EvalState σ)) (st : EvalState σ)
    (h : VisitsAsk env phase nodes vs [] (branches.map (·.2.trace)).flatten) :
    VisitsAsk env phase nodes vs st.trace (joinParallel env branches st).2.trace := by
  have hbranches := Asks.append_left h st.trace
  by_cases hempty : branches = []
  · rw [hempty] at hbranches ⊢
    rw [List.map_nil, List.flatten_nil, List.append_nil] at hbranches
    exact hbranches
  · rw [joinParallel_trace env branches st hempty]
    refine hbranches.append_none fun x hx => ?_
    obtain ⟨ev, -, hev⟩ := List.mem_filterMap.mp hx
    cases ev with
    | panicked i payload =>
      cases hev
      rfl
    | _ => exact nomatch hev

/-- Every step of an evaluation asks for what is visited. -/
theorem visitsAsk_kept (nodes : List Effect) :
    KeptBySteps env phase nodes fun vs st st' =>
      VisitsAsk env phase nodes vs st.trace st'.trace where
  refl _ := Asks.refl fun _ ⟨_, _, _, hv, _⟩ => absurd hv List.not_mem_nil
  append := VisitsAsk.append
  leaf _ he hbody := dispatchEffect_asks env phase he hbody
  call _ _ _ _ := .of_none env phase rfl
  parallel es _ source st h := joinParallel_asks env phase _ st
    (dispatchBranches_asks env phase source es st h 0)

variable {q : Asked}

omit [Platform] in
theorem Asked.PluginOf.mono {p p' : String → Prop} (h : q.PluginOf p)
    (hp : ∀ name, p name → p' name) : q.PluginOf p' := by
  obtain ⟨name, hq, hname⟩ := h
  exact ⟨name, hq, hp name hname⟩

/-! ### The phases of a route -/

/-- What a phase of the route may ask for: what a field rule or a node names, or what one of the
    field operations names and asks for. -/
def CompiledRoute.MayAsk (route : CompiledRoute) (field : String → Prop) (q : Asked) : Prop :=
  q.PluginOf (RulesName (route.args ++ route.result)) ∨ q.OfNodes (Core.routeNodes route) ∨
    q.PluginOf fun name => FieldOpsName (Core.routeNodes route) name ∧ field name

/-- The policy of a phase gets to a field operation that asks for the plugin. -/
def policyAsks (es : List Effect) (st : EvalState σ) (name : String) : Prop :=
  ∃ v ∈ Effect.allVisits env phase "" es st, v.fieldAsks env phase name

variable {route : CompiledRoute}

theorem evaluateLoop_asks (hsub : Core.walkEffects es ⊆ Core.routeNodes route)
    (st : EvalState σ) :
    Asks (Asked.PluginOf (policyAsks env phase es st))
      (route.MayAsk (policyAsks env phase es st)) st.trace
      (evaluateLoop env phase es st).2.trace := by
  refine ((visitsAsk_kept env phase _).loop es hsub st).mono (fun _ => id) ?_
  rintro q ⟨v, hv, hnode, hq | ⟨name, hq, hask⟩⟩
  · exact .inr (.inl ⟨v.1, hnode, hq⟩)
  · exact .inr (.inr ⟨name, hq, hask.names env phase hnode, v, hv, hask⟩)

variable {env} in
omit [Platform] in
theorem AsksPlugins.asks {names : String → Prop} {passed : Prop}
    (h : AsksPlugins env names passed w w' t t') :
    Asks (fun _ => False) (Asked.PluginOf names) t t' := by
  obtain ⟨new, htrace, hnew⟩ := h.trace
  refine ⟨new, htrace, fun x hx q hq => ?_, fun _ h => h.elim⟩
  obtain ⟨name, answer, rfl, hname, -⟩ := hnew x hx
  cases hq
  exact ⟨name, rfl, hname⟩

/-- The policy of `evaluate_pre` gets to a field operation that asks for the plugin. -/
def preFieldAsks (route : CompiledRoute) (st : PhaseState σ) (name : String) : Prop :=
  let (denied, fs) := runFieldRules env st.bag .pre route.args
    ⟨st.payload.args, false, [], st.world, []⟩
  denied = none ∧ policyAsks env .pre route.policy
    (.start st.bag { st.payload with args := fs.root } fs.world) name

/-- The policy of `evaluate_post` does. -/
def postFieldAsks (route : CompiledRoute) (st : PhaseState σ) (name : String) : Prop :=
  let (denied, payload, fs) := runResultRules env route st
  denied = none ∧ policyAsks env .post route.postPolicy
    (.start st.bag payload fs.world) name

omit [Platform] in
/-- The policy of a phase is gone through only if none of its field rules denied. -/
theorem phase_asks {denied : Option α} {field : String → Prop}
    (hrules : Asks (fun _ => False) (Asked.PluginOf (RulesName rules)) [] fieldTrace)
    (hsub : rules ⊆ route.args ++ route.result)
    (hdenied : denied ≠ none → t' = t ++ fieldTrace)
    (hpolicy : denied = none → ∃ t'', t' = t ++ fieldTrace ++ t'' ∧
      Asks (Asked.PluginOf field) (route.MayAsk field) [] t'') :
    Asks (Asked.PluginOf fun name => denied = none ∧ field name)
      (route.MayAsk fun name => denied = none ∧ field name) t t' := by
  have hnamed (q : Asked) (hq : q.PluginOf (RulesName rules)) :
      q.PluginOf (RulesName (route.args ++ route.result)) :=
    hq.mono fun name ⟨rule, hrule, hname⟩ => ⟨rule, hsub hrule, hname⟩
  cases denied with
  | some decision =>
    rw [hdenied (Option.some_ne_none _)]
    refine (hrules.append_left t).mono ?_ fun q hq => .inl (hnamed q hq)
    rintro q ⟨_, _, hnone, _⟩
    exact nomatch hnone
  | none =>
    obtain ⟨t'', rfl, hnodes⟩ := hpolicy rfl
    refine ((hrules.append_left t).trans (Asks.append_left hnodes _)).mono ?_ ?_
    · rintro q ⟨name, hq, _, hname⟩
      exact .inr ⟨name, hq, hname⟩
    · rintro q (hq | hq | hq | hq)
      · exact .inl (hnamed q hq)
      · exact .inl hq
      · exact .inr (.inl hq)
      · exact .inr (.inr (hq.mono fun name hname => ⟨hname.1, rfl, hname.2⟩))

variable (route : CompiledRoute) (st : PhaseState σ)

/-- What `evaluate_pre` asks for. -/
theorem evaluatePre_asks :
    Asks (Asked.PluginOf (preFieldAsks env route st)) (route.MayAsk (preFieldAsks env route st))
      st.trace (evaluatePre env route st).2.trace := by
  have hargs := (runFieldRules_asks env .pre st.bag route.args
    ⟨st.payload.args, false, [], st.world, []⟩).asks
  unfold evaluatePre preFieldAsks
  generalize runFieldRules env st.bag .pre route.args ⟨st.payload.args, false, [], st.world, []⟩ =
    r at hargs ⊢
  obtain ⟨denied, fs⟩ := r
  refine phase_asks hargs (List.subset_append_left _ _) (fun h => ?_) fun h => ⟨_, ?_,
    evaluateLoop_asks env .pre (List.subset_append_left _ _)
      (.start st.bag { st.payload with args := fs.root } fs.world)⟩
  all_goals cases denied
  all_goals trivial

theorem runResultRules_asks :
    Asks (fun _ => False) (Asked.PluginOf (RulesName route.result)) []
      (runResultRules env route st).2.2.trace := by
  unfold runResultRules
  cases st.payload.result with
  | none => exact .refl fun _ => id
  | some result =>
    exact (runFieldRules_asks env .post st.bag route.result
      ⟨result, false, [], st.world, []⟩).asks

/-- What `evaluate_post` asks for. -/
theorem evaluatePost_asks :
    Asks (Asked.PluginOf (postFieldAsks env route st)) (route.MayAsk (postFieldAsks env route st))
      st.trace (evaluatePost env route st).2.trace := by
  have hresult := runResultRules_asks env route st
  unfold evaluatePost postFieldAsks
  generalize runResultRules env route st = r at hresult ⊢
  obtain ⟨denied, payload, fs⟩ := r
  refine phase_asks hresult (List.subset_append_right _ _) (fun h => ?_) fun h => ⟨_, ?_,
    evaluateLoop_asks env .post (List.subset_append_right _ _) (.start st.bag payload fs.world)⟩
  all_goals cases denied
  all_goals trivial

/-! ### What is collected -/

end

namespace Core

variable {name : String}

theorem mem_uniqueNames {names : List String} : name ∈ uniqueNames names ↔ name ∈ names := by
  have hfold : ∀ out : List String,
      name ∈ names.foldl (fun out n => if n ∈ out then out else out ++ [n]) out ↔
        name ∈ out ∨ name ∈ names := by
    induction names with
    | nil => simp
    | cons n names ih =>
      intro out
      rw [List.foldl_cons, ih]
      split
      next hmem =>
        constructor
        · exact Or.imp_right (List.mem_cons_of_mem n)
        · rintro (h | h)
          · exact .inl h
          · rcases List.mem_cons.mp h with rfl | h
            · exact .inl hmem
            · exact .inr h
      next => simp [or_assoc]
  exact (hfold []).trans (by simp)

variable {route : CompiledRoute}

theorem mem_collectPluginNames :
    name ∈ collectPluginNames route ↔
      (Asked.plugin name).OfNodes (routeNodes route) ∨
        RulesName (route.args ++ route.result) name := by
  unfold collectPluginNames Asked.OfNodes RulesName
  rw [mem_uniqueNames, List.mem_append, List.mem_filterMap, List.mem_flatMap]
  refine or_congr (exists_congr fun e => and_congr_right fun _ => ?_)
    (exists_congr fun rule => and_congr_right fun _ => ?_)
  · cases e <;> simp [Effect.asks]
  · rw [List.mem_filterMap]
    constructor
    · rintro ⟨stage, hstage, hname⟩
      cases stage with
      | plugin n =>
        cases hname
        exact hstage
      | _ => exact nomatch hname
    · intro hstage
      exact ⟨_, hstage, rfl⟩

/-- What is collected from the nodes that ask an invoker. -/
theorem mem_uniqueNames_filterMap (hasks : ∀ e, f e = some name ↔ e.asks = some q) :
    name ∈ uniqueNames ((routeNodes route).filterMap f) ↔ q.OfNodes (routeNodes route) := by
  rw [mem_uniqueNames, List.mem_filterMap]
  exact exists_congr fun e => and_congr_right fun _ => hasks e

theorem mem_collectDelegatePluginNames :
    name ∈ collectDelegatePluginNames route ↔
      (Asked.delegation name).OfNodes (routeNodes route) :=
  mem_uniqueNames_filterMap fun e => by cases e <;> simp [Effect.asks]

theorem mem_collectElicitPluginNames :
    name ∈ collectElicitPluginNames route ↔
      (Asked.elicitation name).OfNodes (routeNodes route) :=
  mem_uniqueNames_filterMap fun e => by cases e <;> simp [Effect.asks]

end Core

section
variable [Platform]

/-- Some evaluation of the route asks for it. -/
def CompiledRoute.CanAsk (route : CompiledRoute) (q : Asked) : Prop :=
  ∃ (σ : Type) (env : Env σ) (bag : AttributeBag) (payload : RoutePayload) (world : σ),
    (∃ x ∈ (evaluatePre env route ⟨bag, payload, world, []⟩).2.trace, x.asked = some q) ∨
      ∃ x ∈ (evaluatePost env route ⟨bag, payload, world, []⟩).2.trace, x.asked = some q

/-- In some evaluation of the route, a field operation gets to a stage that asks for the plugin. -/
def CompiledRoute.FieldOpCanAsk (route : CompiledRoute) (name : String) : Prop :=
  ∃ (σ : Type) (env : Env σ) (bag : AttributeBag) (payload : RoutePayload) (world : σ),
    preFieldAsks env route ⟨bag, payload, world, []⟩ name ∨
      postFieldAsks env route ⟨bag, payload, world, []⟩ name

omit [Platform] in
/-- It is in the names collected for its invoker. -/
def CompiledRoute.Collects (route : CompiledRoute) : Asked → Prop
  | .plugin name => name ∈ Core.collectPluginNames route
  | .delegation name => name ∈ Core.collectDelegatePluginNames route
  | .elicitation name => name ∈ Core.collectElicitPluginNames route

variable {route : CompiledRoute} {q : Asked}

omit [Platform] in
theorem CompiledRoute.MayAsk.collects (h : route.MayAsk field q) :
    route.Collects q ∨
      q.PluginOf fun name => FieldOpsName (Core.routeNodes route) name ∧ field name := by
  rcases h with ⟨name, rfl, hname⟩ | hnode | hfield
  · exact .inl (Core.mem_collectPluginNames.mpr (.inr hname))
  · left
    cases q with
    | plugin name => exact Core.mem_collectPluginNames.mpr (.inl hnode)
    | delegation name => exact Core.mem_collectDelegatePluginNames.mpr hnode
    | elicitation name => exact Core.mem_collectElicitPluginNames.mpr hnode
  · exact .inr hfield

/-- What a route can ask for is collected, or one of its field operations names and asks for it. -/
theorem CompiledRoute.CanAsk.cases (h : route.CanAsk q) :
    route.Collects q ∨ q.PluginOf fun name =>
      FieldOpsName (Core.routeNodes route) name ∧ route.FieldOpCanAsk name := by
  obtain ⟨σ, env, bag, payload, world, ⟨x, hx, hq⟩ | ⟨x, hx, hq⟩⟩ := h
  · obtain ⟨new, htrace, hnew, -⟩ := evaluatePre_asks env route ⟨bag, payload, world, []⟩
    rw [htrace] at hx
    exact (hnew x hx q hq).collects.imp_right (·.mono fun name hname =>
      ⟨hname.1, σ, env, bag, payload, world, .inl hname.2⟩)
  · obtain ⟨new, htrace, hnew, -⟩ := evaluatePost_asks env route ⟨bag, payload, world, []⟩
    rw [htrace] at hx
    exact (hnew x hx q hq).collects.imp_right (·.mono fun name hname =>
      ⟨hname.1, σ, env, bag, payload, world, .inr hname.2⟩)

/-- A plugin that a field operation can ask for, the route can ask for. -/
theorem CompiledRoute.FieldOpCanAsk.canAsk (h : route.FieldOpCanAsk name) :
    route.CanAsk (.plugin name) := by
  obtain ⟨σ, env, bag, payload, world, hpre | hpost⟩ := h
  · obtain ⟨new, htrace, -, hall⟩ := evaluatePre_asks env route ⟨bag, payload, world, []⟩
    obtain ⟨x, hx, hq⟩ := hall (.plugin name) ⟨name, rfl, hpre⟩
    exact ⟨σ, env, bag, payload, world, .inl ⟨x, by rw [htrace]; exact hx, hq⟩⟩
  · obtain ⟨new, htrace, -, hall⟩ := evaluatePost_asks env route ⟨bag, payload, world, []⟩
    obtain ⟨x, hx, hq⟩ := hall (.plugin name) ⟨name, rfl, hpost⟩
    exact ⟨σ, env, bag, payload, world, .inr ⟨x, by rw [htrace]; exact hx, hq⟩⟩

omit [Platform] in
/-- The handler of a route has the capabilities of the plugins collected for it. -/
theorem mem_routeCapabilityUnion (h : route.Collects q)
    (hplugin : Core.EffectivePlugin.resolve q.name registry route.pluginOverrides = some plugin)
    (hcap : capability ∈ plugin.capabilities) :
    capability ∈ Core.routeCapabilityUnion route registry := by
  have heffective {names : List String} (hname : q.name ∈ names) :
      capability ∈ Core.effectiveCapabilities route registry names := by
    unfold Core.effectiveCapabilities
    rw [List.mem_toFinset, List.mem_flatMap]
    refine ⟨q.name, hname, ?_⟩
    rw [hplugin]
    exact hcap
  unfold Core.routeCapabilityUnion
  simp only [Finset.mem_union]
  cases q with
  | plugin name => exact .inl (.inl (.inl (heffective h)))
  | delegation name => exact .inl (.inl (.inr (heffective h)))
  | elicitation name => exact .inl (.inr (heffective h))

/-- All that a route can ask for is collected, and its handler has the capabilities of each declared
    plugin among it, exactly if every plugin that a stage of a field operation names is named by a
    plugin step or a stage of `args:` or `result:` as well, or no evaluation gets to it. -/
theorem collected_complete_iff (route : CompiledRoute) (registry : Core.DeclRegistry) :
    (∀ q, route.CanAsk q → route.Collects q ∧
      ∀ plugin, Core.EffectivePlugin.resolve q.name registry route.pluginOverrides = some plugin →
        ∀ capability ∈ plugin.capabilities,
          capability ∈ Core.routeCapabilityUnion route registry) ↔
      ∀ name, FieldOpsName (Core.routeNodes route) name →
        (Asked.plugin name).OfNodes (Core.routeNodes route) ∨
          RulesName (route.args ++ route.result) name ∨ ¬route.FieldOpCanAsk name := by
  constructor
  · intro h name _
    by_cases hasks : route.FieldOpCanAsk name
    · have hcollected := (h (.plugin name) hasks.canAsk).1
      exact (Core.mem_collectPluginNames.mp hcollected).imp_right .inl
    · exact .inr (.inr hasks)
  · intro h q hq
    have hcollected : route.Collects q := by
      rcases hq.cases with hcollected | ⟨name, rfl, hnames, hasks⟩
      · exact hcollected
      · rcases h name hnames with hnode | hrule | hnever
        · exact Core.mem_collectPluginNames.mpr (.inl hnode)
        · exact Core.mem_collectPluginNames.mpr (.inr hrule)
        · exact absurd hasks hnever
    exact ⟨hcollected, fun plugin hplugin capability => mem_routeCapabilityUnion hcollected hplugin⟩

end

section
attribute [local instance] Platform.bare ParserPlatform.bare ConfigSerde.bare PolicyParser.apl

/-- A policy that hands a card number to a plugin before the call. -/
def maskCard : Yaml :=
  .mapping [(.string "pre_invocation", .sequence [.mapping [
    (.string "sequential", .sequence [.string "args.card | plugin(mask)"])]])]

/-- The evaluation asks for `mask`, which is not among the collected names. -/
theorem collectPluginNames_misses_mask :
    ∃ route, compilePolicyBlockValue "tool:pay" maskCard = .ok route ∧
      route.CanAsk (.plugin "mask") ∧ ¬route.Collects (.plugin "mask") := by
  have hrun : ((compilePolicyBlockValue "tool:pay" maskCard).toOption.map fun route =>
      (Core.collectPluginNames route, (evaluatePre ⟨permissive, .orderly⟩ route
        ⟨.new, ⟨.object [("card", .string "4111")], none⟩, (), []⟩).2.trace.filterMap
          Reached.asked)) = some ([], [.plugin "mask"]) := by
    decide +kernel
  obtain ⟨route, hroute, hparts⟩ := Option.map_eq_some_iff.mp hrun
  obtain ⟨hnames, hasked⟩ := Prod.mk.inj hparts
  refine ⟨route, Except.ok_of_toOption hroute, ?_, ?_⟩
  · have hmem := List.mem_singleton_self (Asked.plugin "mask")
    rw [← hasked] at hmem
    obtain ⟨x, hx, hxq⟩ := List.mem_filterMap.mp hmem
    exact ⟨Unit, _, _, _, _, .inl ⟨x, hx, hxq⟩⟩
  · show "mask" ∉ Core.collectPluginNames route
    rw [hnames]
    exact List.not_mem_nil

end

end Cpex
