import Cpex.ForStd.Walk
import Cpex.Spec.EffectLists

/-! # What the evaluator does to the world

The evaluator reaches the invokers' state only by calling them, and by the fork and the join of
`parallel` blocks. So what holds of each call, holds of every evaluation.
-/

namespace Cpex

/-- A call the evaluator makes on behalf of an effect. -/
inductive Call where
  | plugin (name : String)
  | delegate (step : DelegateStep)
  | elicit (step : ElicitStep)
  | pdp (call : PdpCall)

/-- Any call. -/
def Call.any (_ : Call) : Prop := True

section
variable {σ : Type} (env : Env σ) (branch : Call → Prop)

/-- Calls out of `may` take the world from `w` to `w'`; the branches of a block make calls out of
    `branch` only. -/
inductive Calls : (Call → Prop) → σ → σ → Prop where
  | refl {may} (w : σ) : Calls may w w
  | trans {may w w' w''} (h : Calls may w w') (h' : Calls may w' w'') : Calls may w w''
  | plugin {may w name bag invocation} (h : may (.plugin name)) :
      Calls may w (env.invoke w name bag invocation).2
  | delegate {may w step} (h : may (.delegate step)) : Calls may w (env.delegate w step).2
  | dispatch {may w step resolvedFrom} (h : may (.elicit step)) :
      Calls may w (env.dispatch w step resolvedFrom).2
  | check {may w step id} (h : may (.elicit step)) : Calls may w (env.check w step id).2
  | validate {may w step id} (h : may (.elicit step)) : Calls may w (env.validate w step id).2
  | pdp {may w call bag} (h : may (.pdp call)) : Calls may w (env.evaluate w call bag).2
  | parallel {may w} (ends : List (Nat × σ))
      (h : ∀ b ∈ ends, Calls branch (env.runtime.fork w b.1) b.2) :
      Calls may w (env.runtime.join w (ends.map (·.2)))

end

mutual

/-- The calls of an effect are out of `may`, those under `parallel` out of `branch`. -/
def Effect.Within (branch may : Call → Prop) : Effect → Prop
  | .allow | .deny _ _ | .taint _ _ | .restrict _ => True
  | .plugin name => may (.plugin name)
  | .delegate step => may (.delegate step)
  | .elicit step => may (.elicit step)
  | .fieldOp _ stages => ∀ name, .plugin name ∈ stages → may (.plugin name)
  | .sequential effects => Effect.allWithin branch may effects
  | .parallel effects => Effect.allWithin branch branch effects
  | .when _ body _ => Effect.allWithin branch may body
  | .pdp call onAllow onDeny =>
    may (.pdp call) ∧ Effect.allWithin branch may onAllow ∧ Effect.allWithin branch may onDeny

/-- `Within` for each effect of a list. -/
def Effect.allWithin (branch may : Call → Prop) : List Effect → Prop
  | [] => True
  | e :: es => e.Within branch may ∧ Effect.allWithin branch may es

end

section
variable [Platform] {σ : Type} (env : Env σ) {branch may : Call → Prop} (phase : DispatchPhase)

/-! ### Field pipelines -/

/-- Plugins out of `names` were asked one after the other, and all of them allowed if `passed`. -/
structure AsksPlugins (names : String → Prop) (passed : Prop) (w w' : σ) (t t' : List Reached) :
    Prop where
  calls : ∀ {branch may : Call → Prop}, (∀ name, names name → may (.plugin name)) →
    Calls env branch may w w'
  trace : ∃ new, t' = t ++ new ∧ ∀ x ∈ new, ∃ name answer, x = .plugin name answer ∧ names name ∧
    (passed → ∃ o, answer = .ok o ∧ o.decision = .allow)

namespace AsksPlugins

variable {env} {names names' : String → Prop} {passed passed' : Prop} {w w' w'' : σ}
  {t t' t'' : List Reached}

omit [Platform]

theorem refl (w : σ) (t : List Reached) : AsksPlugins env names passed w w t t :=
  ⟨fun _ => .refl w, [], (List.append_nil t).symm, by simp⟩

theorem trans (h : AsksPlugins env names passed w w' t t')
    (h' : AsksPlugins env names passed w' w'' t' t'') :
    AsksPlugins env names passed w w'' t t'' := by
  obtain ⟨new, rfl, hnew⟩ := h.trace
  obtain ⟨new', rfl, hnew'⟩ := h'.trace
  exact ⟨fun hmay => (h.calls hmay).trans (h'.calls hmay), new ++ new', List.append_assoc ..,
    List.forall_mem_append.mpr ⟨hnew, hnew'⟩⟩

theorem mono (h : AsksPlugins env names passed w w' t t')
    (hnames : ∀ name, names name → names' name) (hpassed : passed' → passed) :
    AsksPlugins env names' passed' w w' t t' := by
  obtain ⟨new, htrace, hnew⟩ := h.trace
  refine ⟨fun hmay => h.calls fun name hname => hmay name (hnames name hname), new, htrace,
    fun x hx => ?_⟩
  obtain ⟨name, answer, heq, hname, hallows⟩ := hnew x hx
  exact ⟨name, answer, heq, hnames name hname, fun h => hallows (hpassed h)⟩

theorem append (h : AsksPlugins env names passed w w' [] t') (t : List Reached) :
    AsksPlugins env names passed w w' t (t ++ t') := by
  obtain ⟨new, htrace, hnew⟩ := h.trace
  exact ⟨h.calls, new, by rw [htrace, List.nil_append], hnew⟩

end AsksPlugins

section
variable (bag : AttributeBag) (fieldName : String)

omit [Platform] in
/-- A plugin stage calls the plugin, and denies unless it allows. -/
theorem runPluginStage_called (idx : Nat) (name : String) (ps : PipelineState σ) :
    let called := env.invoke ps.world name bag (.field fieldName ps.current phase)
    let r := runPluginStage env.toInvokers bag fieldName phase idx name ps
    r.2.world = called.2 ∧ r.2.trace = ps.trace ++ [.plugin name called.1] ∧
      ((∀ reason i, r.1 ≠ some (.deny reason i)) →
        ∃ o, called.1 = .ok o ∧ o.decision = .allow) := by
  unfold runPluginStage
  obtain ⟨answer, world⟩ := env.invoke ps.world name bag (.field fieldName ps.current phase)
  cases answer with
  | error e => exact ⟨rfl, rfl, fun h => absurd rfl (h _ _)⟩
  | ok outcome =>
    dsimp only
    cases hdecision : outcome.decision with
    | deny reason source => exact ⟨rfl, rfl, fun h => absurd rfl (h _ _)⟩
    | allow =>
      cases outcome.modifiedValue <;> exact ⟨rfl, rfl, fun _ => ⟨outcome, rfl, hdecision⟩⟩

theorem runStage_asks (idx : Nat) (stage : Stage) (ps : PipelineState σ) :
    let r := runStage env.toInvokers bag fieldName phase idx stage ps
    AsksPlugins env (stage = .plugin ·) (∀ reason i, r.1 ≠ some (.deny reason i)) ps.world
      r.2.world ps.trace r.2.trace := by
  dsimp only
  by_cases hplugin : ∃ name, stage = .plugin name
  · obtain ⟨name, rfl⟩ := hplugin
    obtain ⟨hworld, htrace, hallows⟩ := runPluginStage_called env phase bag fieldName idx name ps
    rw [runStage, hworld, htrace]
    refine ⟨fun hmay => .plugin (hmay name rfl), [_], rfl, fun x hx => ?_⟩
    exact ⟨name, _, List.mem_singleton.mp hx, rfl, hallows⟩
  · obtain ⟨hworld, htrace⟩ :=
      runStage_frame env.toInvokers bag fieldName phase idx stage ps (not_exists.mp hplugin)
    rw [hworld, htrace]
    exact .refl _ _

/-- What the stages keep, the stage loop keeps: to its end, or to the stage that ended it. -/
theorem runStages_induction {P : Option FieldOutcome → PipelineState σ → Prop} (stages : List Stage)
    (hstep : ∀ stage ∈ stages, ∀ idx ps, P none ps →
      P (runStage env.toInvokers bag fieldName phase idx stage ps).1
        (runStage env.toInvokers bag fieldName phase idx stage ps).2) (h : P none ps) (idx : Nat) :
    let r := runStages env.toInvokers bag fieldName phase idx stages ps
    P none r.2 ∨ P (some r.1) r.2 := by
  induction stages generalizing idx ps with
  | nil => exact .inl h
  | cons stage stages ih =>
    obtain ⟨hstage, hstages⟩ := List.forall_mem_cons.mp hstep
    have hnext := hstage idx ps h
    unfold runStages
    generalize runStage env.toInvokers bag fieldName phase idx stage ps = r at hnext
    obtain ⟨outcome, ps'⟩ := r
    cases outcome with
    | some outcome => exact .inr hnext
    | none => exact ih hstages hnext (idx + 1)

/-- The stage loop asks plugins of its stages; if it does not deny, they all allowed. -/
theorem runStages_asks (idx : Nat) (stages : List Stage) (ps : PipelineState σ) :
    let r := runStages env.toInvokers bag fieldName phase idx stages ps
    AsksPlugins env (.plugin · ∈ stages) (∀ reason i, r.1 ≠ .deny reason i) ps.world r.2.world
      ps.trace r.2.trace := by
  have hends := runStages_induction env phase bag fieldName (P := fun outcome s =>
    AsksPlugins env (.plugin · ∈ stages) (∀ reason i, outcome ≠ some (.deny reason i)) ps.world
      s.world ps.trace s.trace) stages (fun stage hstage idx s hs => ?_) (.refl _ _) idx
  · -- A stage with an outcome ends the pipeline.
    rcases hends with h | h
    · exact h.mono (fun _ => id) fun _ => by simp
    · exact h.mono (fun _ => id) fun h reason i heq => h reason i (Option.some.inj heq)
  · refine (hs.mono (fun _ => id) fun _ => by simp).trans
      ((runStage_asks env phase bag fieldName idx stage s).mono (fun name hname => ?_) id)
    exact hname ▸ hstage

theorem runFieldRule_asks (rule : FieldRule) (fs : FieldPhase σ) :
    let r := runFieldRule env bag phase rule fs
    AsksPlugins env (.plugin · ∈ rule.pipeline.stages) (r.1 = none) fs.world r.2.world fs.trace
      r.2.trace := by
  dsimp only
  cases hfield : getDotted fs.root rule.field with
  | none =>
    rw [runFieldRule_of_none env phase bag hfield]
    exact .refl _ _
  | some current =>
    obtain ⟨hran, hpassed⟩ := runFieldRule_ran env phase bag hfield
    rw [hran.trace, hran.world]
    exact ((runStages_asks env phase bag rule.field 0 rule.pipeline.stages
      ⟨current, false, [], fs.world, []⟩).mono (fun _ => id) hpassed).append fs.trace

theorem runFieldRules_eq_walk (rules : List FieldRule) (fs : FieldPhase σ) :
    runFieldRules env bag phase rules fs = rules.walk (runFieldRule env bag phase) fs := by
  induction rules generalizing fs with
  | nil => rfl
  | cons rule rules ih =>
    rw [runFieldRules, List.walk]
    generalize runFieldRule env bag phase rule fs = r
    obtain ⟨denied, fs'⟩ := r
    cases denied with
    | some decision => rfl
    | none => exact ih fs'

/-- A stage of one of the rules names the plugin. -/
def RulesName (rules : List FieldRule) (name : String) : Prop :=
  ∃ rule ∈ rules, .plugin name ∈ rule.pipeline.stages

/-- A field phase asks plugins that its rules name; if no rule denies, they all allowed. -/
theorem runFieldRules_asks (rules : List FieldRule) (fs : FieldPhase σ) :
    let r := runFieldRules env bag phase rules fs
    AsksPlugins env (RulesName rules) (r.1 = none) fs.world r.2.world fs.trace r.2.trace := by
  rw [runFieldRules_eq_walk]
  refine List.walk_induction (P := fun denied (s : FieldPhase σ) => AsksPlugins env
    (RulesName rules) (denied = none) fs.world s.world fs.trace s.trace)
    (fun rule hrule s hs => ?_) (.refl _ _)
  exact (hs.mono (fun _ => id) fun _ => rfl).trans
    ((runFieldRule_asks env phase bag rule s).mono (fun name hname => ⟨rule, hrule, hname⟩) id)

end

/-- A field operation asks plugins of its stages; if it continues, they all allowed. -/
theorem dispatchFieldOp_asks (path : String) (stages : List Stage) (fallbackSource : String)
    (st : EvalState σ) :
    let r := dispatchFieldOp env phase path stages fallbackSource st
    AsksPlugins env (.plugin · ∈ stages) (r.1 = .continue) st.world r.2.world st.trace
      r.2.trace := by
  dsimp only
  cases htarget : fieldOpTarget phase path st with
  | none =>
    rw [dispatchFieldOp_skipped env phase fallbackSource stages htarget]
    exact .refl _ _
  | some target =>
    obtain ⟨subpath, current⟩ := target
    obtain ⟨hran, hpassed⟩ := dispatchFieldOp_ran env phase fallbackSource stages htarget
    rw [hran.trace, hran.world]
    exact ((runStages_asks env phase st.bag subpath 0 stages
      ⟨current, false, [], st.world, []⟩).mono (fun _ => id) hpassed).append st.trace

/-! ### Effects without a body -/

variable {env} in
theorem Elicits.calls (hmay : may (.elicit step)) (h : Elicits env step st r) :
    Calls env branch may st.world r.2.world := by
  have hdispatch {a answer w'} (h : env.dispatch st.world step a = (answer, w')) :
      Calls env branch may st.world w' := by
    obtain rfl : (env.dispatch st.world step a).2 = w' := congrArg Prod.snd h
    exact .dispatch hmay
  have hcheck {w id answer w'} (h : env.check w step id = (answer, w')) :
      Calls env branch may w w' := by
    obtain rfl : (env.check w step id).2 = w' := congrArg Prod.snd h
    exact .check hmay
  have hvalidate {w id answer w'} (h : env.validate w step id = (answer, w')) :
      Calls env branch may w w' := by
    obtain rfl : (env.validate w step id).2 = w' := congrArg Prod.snd h
    exact .validate hmay
  cases h with
  | unresolved => exact .refl _
  | unsent h => exact hdispatch h
  | @checked id dispatched bag w outcome checked validated bag' w' hopens hends =>
    -- Without an id the elicitation is sent out first, and checked under the id it was given.
    have hopened : Calls env branch may st.world w := by
      cases hopens with
      | existing => exact .refl _
      | sent _ _ h => exact hdispatch h
    refine hopened.trans ?_
    cases hends with
    | failed h | pending h | expired h | denied h => exact hcheck h
    | unvalidated h h' | rejected h h' | approved h h' => exact (hcheck h).trans (hvalidate h')

/-! ### The effect tree -/

omit [Platform] in
theorem joinParallel_world :
    (joinParallel env branches st).2.world =
      if branches.isEmpty then st.world
      else env.runtime.join st.world (branches.map (·.2.world)) := by
  unfold joinParallel
  split
  · rfl
  · dsimp only
    split <;> rfl

theorem dispatchBranches_calls (hes : Effect.allWithin branch branch es)
    (h : ∀ e ∈ es, ∀ st : EvalState σ, Effect.allWithin branch branch [e] →
      Calls env branch branch st.world (dispatchEffect env phase source e st).2.world) (i : Nat)
    (st : EvalState σ) :
    ∃ ends : List (Nat × σ),
      ends.map (·.2) = (dispatchBranches env phase source i es st).map (·.2.world) ∧
      ∀ b ∈ ends, Calls env branch branch (env.runtime.fork st.world b.1) b.2 := by
  induction es generalizing i with
  | nil => exact ⟨[], rfl, by simp⟩
  | cons e es ih =>
    obtain ⟨he, hrest⟩ := List.forall_mem_cons.mp h
    obtain ⟨ends, hends, hcalls⟩ := ih hes.2 hrest (i + 1)
    -- Each branch starts from the world as it was before the block.
    refine ⟨(i, (dispatchEffect env phase source e (st.branch env i)).2.world) :: ends, ?_,
      List.forall_mem_cons.mpr ⟨he (st.branch env i) ⟨hes.1, trivial⟩, hcalls⟩⟩
    rw [dispatchBranches, List.map_cons, List.map_cons, hends]

variable {env phase} in
/-- Effects make the calls their trees allow. A block forks the world for each of its branches, and
    joins what they leave. -/
theorem Runs.calls (h : Runs env phase es st r) {may : Call → Prop}
    (hes : Effect.allWithin branch may es) :
    Calls env branch may st.world r.2.world := by
  have hpdp {may : Call → Prop} {call w bag answer w'} (h : may (.pdp call))
      (hask : env.evaluate w call bag = (answer, w')) : Calls env branch may w w' := by
    obtain rfl : (env.evaluate w call bag).2 = w' := congrArg Prod.snd hask
    exact .pdp h
  induction h generalizing may with
  | nil | allow | deny | taint | skip => exact .refl _
  | cons _ _ ih ih' => exact (ih ⟨hes.1, trivial⟩).trans (ih' hes.2)
  -- The effects behind one that halts or suspends are not dispatched.
  | stop _ _ ih => exact ih ⟨hes.1, trivial⟩
  | plugin =>
    rw [dispatchPlugin_snd]
    exact .plugin hes.1
  | delegate =>
    rw [dispatchDelegate_snd]
    exact .delegate hes.1
  | elicit => exact (dispatchElicitation_elicits env _ _).calls hes.1
  | @restrict spec source st =>
    obtain ⟨added, hst⟩ := dispatchRestrict_snd source spec st
    rw [hst]
    exact .refl _
  | fieldOp => exact (dispatchFieldOp_asks env phase _ _ _ _).calls hes.1
  | sequential _ ih | when _ ih => exact ih hes.1
  | @parallel es source st _ ih =>
    obtain ⟨ends, hends, hcalls⟩ :=
      dispatchBranches_calls env phase hes.1 (fun e he st hwithin => ih e he st hwithin) 0 st
    rw [joinParallel_world]
    split
    · -- An empty block joins nothing.
      exact .refl _
    · rw [← hends]
      exact .parallel ends hcalls
  | pdpFailed hask => exact hpdp hes.1.1 hask
  | pdpAllowed hask _ _ ih => exact (hpdp hes.1.1 hask).trans (ih hes.1.2.1)
  -- The reactions may replace the denial by one of their own, but run either way.
  | pdpDenied hask _ ih | pdpReacted hask _ _ ih =>
    exact (hpdp hes.1.1 hask).trans (ih hes.1.2.2)

/-! ### The phases of a route -/

theorem evaluateEffects_calls (effects : List Effect) (h : Effect.allWithin branch may effects)
    (bag : AttributeBag) (payload : RoutePayload) (world : σ) :
    Calls env branch may world
      (evaluateEffects env effects bag phase payload world).2.world := by
  have hruns := evaluateLoop_runs env phase effects (.start bag payload world)
  exact hruns.calls h

/-- What `evaluate_pre` does to the world: calls, under `parallel` out of `branch` only. -/
theorem PhaseRan.calls (hran : PhaseRan env phase rules effects st r)
    (h : Effect.allWithin branch Call.any effects) :
    Calls env branch Call.any st.world r.2.world := by
  cases hran with
  -- A field rule that denies ends the phase before the policy.
  | @denied root decision fs hrules _ hstate =>
    have hfields := runFieldRules_asks env phase st.bag rules ⟨root, false, [], st.world, []⟩
    rw [hrules] at hfields
    exact hstate.1 ▸ hfields.calls fun _ _ => trivial
  | @ran root fs payload eval es hrules heval _ hstate =>
    have hfields := runFieldRules_asks env phase st.bag rules ⟨root, false, [], st.world, []⟩
    have heffects := evaluateEffects_calls env phase effects h st.bag payload fs.world
    rw [hrules] at hfields
    rw [heval] at heffects
    exact hstate.2.1 ▸ (hfields.calls fun _ _ => trivial).trans heffects

end

end Cpex
