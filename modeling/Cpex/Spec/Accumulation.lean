import Cpex.Spec.Redaction

/-! # Reports accumulate

Taints and constraints are pushed as they come up, and nothing takes one back: neither a deny nor a
suspended elicitation, and no later phase. So what a list of effects reports is the beginning of
what any longer list reports, and what `evaluate_pre` reports is the beginning of what
`evaluate_route` does.
-/

namespace Cpex

section
variable {σ : Type} (env : Env σ) (phase : DispatchPhase)

/-! ### Effects -/

/-- What the old state reports is the beginning of what the new one does. -/
structure EvalState.Grows (old new : EvalState σ) : Prop where
  taints : old.taints <+: new.taints
  constraints : old.constraints <+: new.constraints

/-- An effect that reports nothing. -/
theorem EvalState.Grows.of_eq {old new : EvalState σ} (htaints : new.taints = old.taints)
    (hconstraints : new.constraints = old.constraints) : old.Grows new :=
  ⟨htaints ▸ List.prefix_rfl, hconstraints ▸ List.prefix_rfl⟩

theorem EvalState.Grows.trans {old : EvalState σ} (h : old.Grows mid) (h' : mid.Grows new) :
    old.Grows new :=
  ⟨h.taints.trans h'.taints, h.constraints.trans h'.constraints⟩

/-- The joined branches' reports come after those of the state before the block. -/
theorem joinParallel_grows (branches : List (EffectOutcome × EvalState σ)) (st : EvalState σ) :
    st.Grows (joinParallel env branches st).2 := by
  obtain ⟨-, htaints, hconstraints⟩ := joinParallel_reports env branches st
  exact ⟨htaints ▸ List.prefix_append _ _, hconstraints ▸ List.prefix_append _ _⟩

variable [Platform]

theorem dispatchFieldOp_grows (path : String) (stages : List Stage) (fallbackSource : String)
    (st : EvalState σ) : st.Grows (dispatchFieldOp env phase path stages fallbackSource st).2 := by
  cases htarget : fieldOpTarget phase path st with
  | none =>
    rw [dispatchFieldOp_skipped env phase fallbackSource stages htarget]
    exact .of_eq rfl rfl
  | some target =>
    have hran := (dispatchFieldOp_ran env phase fallbackSource stages htarget).1
    exact ⟨hran.taints ▸ List.prefix_append _ _, hran.constraints ▸ List.prefix_rfl⟩

variable {env phase} in
/-- No effect takes back what was reported before it, also when it halts or suspends. -/
theorem Runs.grows (h : Runs env phase es st r) : st.Grows r.2 := by
  induction h with
  | nil | allow | deny | skip | pdpFailed => exact .of_eq rfl rfl
  | cons _ _ ih ih' => exact ih.trans ih'
  | stop _ _ ih | sequential _ ih | when _ ih => exact ih
  | plugin =>
    -- The taints count also when the plugin denies.
    rw [dispatchPlugin_snd]
    exact ⟨List.prefix_append _ _, List.prefix_rfl⟩
  | delegate =>
    rw [dispatchDelegate_snd]
    exact .of_eq rfl rfl
  | @elicit step st =>
    have hframe := (dispatchElicitation_elicits env step st).frame
    exact .of_eq hframe.taints hframe.constraints
  | taint => exact ⟨List.prefix_append _ _, List.prefix_rfl⟩
  | @restrict spec source st =>
    obtain ⟨added, hst⟩ := dispatchRestrict_snd source spec st
    rw [hst]
    exact ⟨List.prefix_rfl, List.prefix_append _ _⟩
  | fieldOp => exact dispatchFieldOp_grows env phase _ _ _ _
  | parallel => exact joinParallel_grows env _ _
  | pdpAllowed _ _ _ ih | pdpDenied _ _ ih | pdpReacted _ _ _ ih =>
    exact ⟨ih.taints, ih.constraints⟩

/-- What a list of effects reports is the beginning of what a longer list reports. -/
theorem evaluateEffects_append_grows (es es' : List Effect) (bag : AttributeBag)
    (payload : RoutePayload) (world : σ) :
    (evaluateEffects env es bag phase payload world).2.Grows
      (evaluateEffects env (es ++ es') bag phase payload world).2 := by
  dsimp only [evaluateEffects]
  rw [evaluateLoop_eq_dispatchAll, evaluateLoop_eq_dispatchAll, dispatchAll_append]
  split
  · rename_i st heq
    rw [heq]
    exact (dispatchAll_runs env phase "" es' st).grows
  · exact .of_eq rfl rfl

/-! ### Pipelines -/

variable (bag : AttributeBag) (fieldName : String)

/-- The taints that a stage emits on the state that the loop reaches it with. -/
def Stage.emitted (stage : Stage) (ps : PipelineState σ) : List TaintEvent :=
  match stage with
  | .taint label scopes => [⟨label, scopes⟩]
  | .scan .injectionScan => [⟨"injection", [.session]⟩]
  | .scan _ => [⟨"PII", [.session]⟩]
  | .plugin name =>
    match (env.invoke ps.world name bag (.field fieldName ps.current phase)).1 with
    | .ok outcome => outcome.taints
    | .error _ => []
  | _ => []

omit [Platform] in
theorem runPluginStage_taints (idx : Nat) (name : String) (ps : PipelineState σ) :
    (runPluginStage env.toInvokers bag fieldName phase idx name ps).2.taints =
      ps.taints ++ (Stage.plugin name).emitted env phase bag fieldName ps := by
  simp only [Stage.emitted]
  unfold runPluginStage
  generalize env.invoke ps.world name bag (.field fieldName ps.current phase) = answered
  obtain ⟨answer, world⟩ := answered
  cases answer with
  | error e => exact (List.append_nil _).symm
  | ok outcome =>
    dsimp only
    repeat' split
    all_goals rfl

/-- A stage appends what it emits, also when it ends the pipeline. -/
theorem runStage_taints (idx : Nat) (stage : Stage) (ps : PipelineState σ) :
    (runStage env.toInvokers bag fieldName phase idx stage ps).2.taints =
      ps.taints ++ stage.emitted env phase bag fieldName ps := by
  cases stage with
  | plugin name => exact runPluginStage_taints env phase bag fieldName idx name ps
  | scan kind => cases kind <;> rfl
  | taint label scopes => rfl
  | _ =>
    -- The other stages test or rewrite the value, each by a cascade of cases.
    simp only [runStage, onString, Stage.emitted, List.append_nil]
    repeat' split
    all_goals rfl

theorem prefix_taints_runStages (idx : Nat) (stages : List Stage) (ps : PipelineState σ) :
    ps.taints <+: (runStages env.toInvokers bag fieldName phase idx stages ps).2.taints := by
  refine (runStages_induction env phase bag fieldName (P := fun _ s => ps.taints <+: s.taints)
    stages (fun stage _ idx s hs => hs.trans ?_) List.prefix_rfl idx).elim id id
  rw [runStage_taints]
  exact List.prefix_append _ _

/-- The loop over the stages, started on `ps`, reaches a stage that emits `t`. -/
def StagesEmit (stages : List Stage) (ps : PipelineState σ) (t : TaintEvent) : Prop :=
  ∃ before stage after ps', stages = before ++ stage :: after ∧
    passStages env phase fieldName bag 0 before ps = some ps' ∧
    t ∈ stage.emitted env phase bag fieldName ps'

variable {t : TaintEvent}

/-- A pipeline returns every taint that its stages emit, also if a later one denies. -/
theorem StagesEmit.mem_taints (h : StagesEmit env phase bag fieldName stages ps t) :
    t ∈ (runStages env.toInvokers bag fieldName phase 0 stages ps).2.taints := by
  obtain ⟨before, stage, after, ps', rfl, hpassed, ht⟩ := h
  have hstage := runStage_taints env phase bag fieldName before.length stage ps'
  rw [runStages_append env phase fieldName hpassed, Nat.zero_add, runStages]
  generalize runStage env.toInvokers bag fieldName phase before.length stage ps' = r at hstage
  obtain ⟨outcome, ps₁⟩ := r
  have hmem : t ∈ ps₁.taints := by
    rw [hstage]
    exact List.mem_append_right _ ht
  cases outcome with
  | some outcome => exact hmem
  | none => exact (prefix_taints_runStages env phase bag fieldName _ after ps₁).subset hmem

/-! ### Field phases -/

/-- A rule appends what its pipeline returns, whatever becomes of the field. -/
theorem runFieldRule_taints (rule : FieldRule) (fs : FieldPhase σ) :
    (runFieldRule env bag phase rule fs).2.taints =
      fs.taints ++ match getDotted fs.root rule.field with
        | none => []
        | some current =>
          (evaluatePipeline env.toInvokers rule.pipeline current bag fs.world rule.field
            phase).2.taints := by
  cases hfield : getDotted fs.root rule.field with
  | none =>
    rw [runFieldRule_of_none env phase bag hfield]
    exact (List.append_nil _).symm
  | some current => exact (runFieldRule_ran env phase bag hfield).1.taints

theorem prefix_taints_runFieldRules (rules : List FieldRule) (fs : FieldPhase σ) :
    fs.taints <+: (runFieldRules env bag phase rules fs).2.taints := by
  rw [runFieldRules_eq_walk]
  refine List.walk_induction (P := fun _ (s : FieldPhase σ) => fs.taints <+: s.taints)
    (fun rule _ s hs => hs.trans ?_) List.prefix_rfl
  rw [runFieldRule_taints]
  exact List.prefix_append _ _

/-- Past the first rules, the phase goes on with the others. -/
theorem runFieldRules_append {after : List FieldRule}
    (h : runFieldRules env bag phase before fs = (none, fs')) :
    runFieldRules env bag phase (before ++ after) fs = runFieldRules env bag phase after fs' := by
  rw [runFieldRules_eq_walk] at h ⊢
  rw [List.walk_append, h, runFieldRules_eq_walk]
  rfl

/-- The rules of a phase, started on `fs`, reach a pipeline that emits `t`. -/
def RulesEmit (rules : List FieldRule) (fs : FieldPhase σ) (t : TaintEvent) : Prop :=
  ∃ before rule after fs' current, rules = before ++ rule :: after ∧
    runFieldRules env bag phase before fs = (none, fs') ∧
    getDotted fs'.root rule.field = some current ∧
    StagesEmit env phase bag rule.field rule.pipeline.stages ⟨current, false, [], fs'.world, []⟩ t

/-- A field phase returns every taint that its pipelines emit, also if it denies. -/
theorem RulesEmit.mem_taints (h : RulesEmit env phase bag rules fs t) :
    t ∈ (runFieldRules env bag phase rules fs).2.taints := by
  obtain ⟨before, rule, after, fs', current, rfl, hpassed, hfield, ht⟩ := h
  have hrule := runFieldRule_taints env phase bag rule fs'
  rw [runFieldRules_append env phase bag hpassed, runFieldRules]
  generalize runFieldRule env bag phase rule fs' = r at hrule
  obtain ⟨denied, fs₁⟩ := r
  have hmem : t ∈ fs₁.taints := by
    rw [hrule, hfield]
    exact List.mem_append_right _ ht.mem_taints
  cases denied with
  | some decision => exact hmem
  | none => exact (prefix_taints_runFieldRules env phase bag after fs₁).subset hmem

/-! ### Routes -/

/-- An `args:` pipeline of the route emits `t`. -/
def ArgsEmit (route : CompiledRoute) (st : PhaseState σ) (t : TaintEvent) : Prop :=
  RulesEmit env .pre st.bag route.args ⟨st.payload.args, false, [], st.world, []⟩ t

/-- There is a result, and a `result:` pipeline of the route emits `t`. -/
def ResultEmits (route : CompiledRoute) (st : PhaseState σ) (t : TaintEvent) : Prop :=
  ∃ result, st.payload.result = some result ∧
    RulesEmit env .post st.bag route.result ⟨result, false, [], st.world, []⟩ t

variable {route : CompiledRoute} {st : PhaseState σ}

theorem ArgsEmit.mem_taints (h : ArgsEmit env route st t) :
    t ∈ (evaluatePre env route st).1.taints := by
  have hmem := RulesEmit.mem_taints env .pre st.bag h
  unfold evaluatePre
  generalize runFieldRules env st.bag .pre route.args ⟨st.payload.args, false, [], st.world, []⟩ =
    r at hmem
  obtain ⟨denied, fs⟩ := r
  cases denied with
  | some decision => exact hmem
  | none => exact List.mem_append_left _ hmem

/-- With a result, the `result:` loop is a field phase on it. -/
theorem runResultRules_some (h : st.payload.result = some result) :
    runResultRules env route st =
      let r := runFieldRules env st.bag .post route.result ⟨result, false, [], st.world, []⟩
      (r.1, { st.payload with result := some r.2.root }, r.2) := by
  rw [runResultRules, h]

theorem ResultEmits.mem_taints (h : ResultEmits env route st t) :
    t ∈ (evaluatePost env route st).1.taints := by
  obtain ⟨result, hresult, hemits⟩ := h
  have hmem := RulesEmit.mem_taints env .post st.bag hemits
  unfold evaluatePost
  rw [runResultRules_some env hresult]
  generalize runFieldRules env st.bag .post route.result ⟨result, false, [], st.world, []⟩ =
    r at hmem
  obtain ⟨denied, fs⟩ := r
  cases denied with
  | some decision => exact hmem
  | none => exact List.mem_append_left _ hmem

/-- `evaluate_route` reports what `evaluate_pre` did, and then what `evaluate_post` did if it
    came to that. -/
theorem evaluateRoute_reports (route : CompiledRoute) (st : PhaseState σ) :
    let pre := evaluatePre env route st
    let post := (evaluatePost env route pre.2).1
    let whole := (evaluateRoute env route st).1
    if pre.1.decision = .allow ∧ pre.1.pending = none then
      whole.taints = pre.1.taints ++ post.taints ∧
        whole.constraints = pre.1.constraints ++ post.constraints
    else whole = pre.1 := by
  dsimp only [evaluateRoute]
  split
  · rename_i hallowed
    rw [if_neg (by simp [hallowed.1, hallowed.2])]
    exact ⟨rfl, rfl⟩
  · rename_i hstopped
    rw [if_pos]
    by_cases hallow : (evaluatePre env route st).1.decision = .allow
    · exact .inr (Option.isSome_iff_ne_none.mpr fun h => hstopped ⟨hallow, h⟩)
    · exact .inl hallow

/-- Reports accumulate and survive denials. What a list of effects reports is the beginning of what
    a longer list reports, however that one ends; what `evaluate_pre` reports is the beginning of
    what `evaluate_route` reports; and the taints that a field pipeline emits are reported, also if
    it or a later one denies. -/
theorem reports_accumulate :
    (∀ (phase : DispatchPhase) (es es' : List Effect) (bag : AttributeBag)
        (payload : RoutePayload) (world : σ),
      (evaluateEffects env es bag phase payload world).1.taints <+:
          (evaluateEffects env (es ++ es') bag phase payload world).1.taints ∧
        (evaluateEffects env es bag phase payload world).1.constraints <+:
          (evaluateEffects env (es ++ es') bag phase payload world).1.constraints) ∧
      ∀ (route : CompiledRoute) (st : PhaseState σ),
        let pre := evaluatePre env route st
        let whole := (evaluateRoute env route st).1
        (pre.1.taints <+: whole.taints ∧ pre.1.constraints <+: whole.constraints) ∧
          (∀ t, ArgsEmit env route st t → t ∈ pre.1.taints ∧ t ∈ whole.taints) ∧
          (∀ t, ResultEmits env route st t → t ∈ (evaluatePost env route st).1.taints) ∧
          (pre.1.decision = .allow → pre.1.pending = none →
            ∀ t, ResultEmits env route pre.2 t → t ∈ whole.taints) := by
  refine ⟨fun phase es es' bag payload world => ?_, fun route st => ?_⟩
  · have hgrows := evaluateEffects_append_grows env phase es es' bag payload world
    exact ⟨hgrows.taints, hgrows.constraints⟩
  · intro pre whole
    have hwhole := evaluateRoute_reports env route st
    have hbegin : pre.1.taints <+: whole.taints ∧ pre.1.constraints <+: whole.constraints := by
      dsimp only at hwhole
      split at hwhole
      · exact ⟨hwhole.1 ▸ List.prefix_append _ _, hwhole.2 ▸ List.prefix_append _ _⟩
      · rw [show whole = pre.1 from hwhole]
        exact ⟨List.prefix_rfl, List.prefix_rfl⟩
    refine ⟨hbegin, fun t ht => ?_, fun t ht => ht.mem_taints, fun hallow hpending t ht => ?_⟩
    · exact ⟨ht.mem_taints, hbegin.1.subset ht.mem_taints⟩
    · dsimp only at hwhole
      rw [if_pos ⟨hallow, hpending⟩] at hwhole
      rw [show whole.taints = _ from hwhole.1]
      exact List.mem_append_right _ ht.mem_taints

end

section
attribute [local instance] Platform.bare

/-- A route that taints by a field that it then refuses. -/
def taintThenRefuse : CompiledRoute where
  routeKey := "tool:lookup"
  args := [{ field := "ssn", source := "args.ssn",
             pipeline := ⟨[.taint "PII" [.session], .type .int]⟩ }]

/-- The taint is reported with the deny. -/
theorem reports_accumulate_refused :
    let ended := (evaluateRoute ⟨permissive, .orderly⟩ taintThenRefuse
      ⟨.new, ⟨.object [("ssn", .string "078")], none⟩, (), []⟩).1
    ended.decision ≠ .allow ∧ ⟨"PII", [.session]⟩ ∈ ended.taints := by
  refine ⟨by decide, ?_⟩
  have hroute := (reports_accumulate ⟨permissive, .orderly⟩).2 taintThenRefuse
    ⟨.new, ⟨.object [("ssn", .string "078")], none⟩, (), []⟩
  refine (hroute.2.1 _ ?_).2
  exact ⟨[], _, [], _, .string "078", rfl, rfl, rfl,
    [], .taint "PII" [.session], [.type .int], _, rfl, rfl, List.mem_singleton_self _⟩

end

end Cpex
