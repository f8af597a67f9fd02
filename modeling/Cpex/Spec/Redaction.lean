import Cpex.Spec.AskedPlugins
import Cpex.Spec.Projections

/-! # What a redaction hides

A stage after an unconditional `redact` works on the text `[REDACTED]`. A plugin stage is handed the
message with the field as it was, but what it returns is compared with that message: a plugin that
leaves the field alone does not bring it back.
-/

namespace Cpex

/-- The decision in the record of a plugin call. -/
def Reached.pluginDecision : Reached → Option (Except PluginError Decision)
  | .plugin _ answer => some (answer.map (·.decision))
  | _ => none

/-- The decisions of the plugins that were called. -/
def pluginDecisions (trace : List Reached) : List (Except PluginError Decision) :=
  trace.filterMap Reached.pluginDecision

theorem pluginDecisions_append :
    pluginDecisions (t ++ t') = pluginDecisions t ++ pluginDecisions t' :=
  List.filterMap_append

section
variable [Platform] {σ : Type} (env : Env σ) (phase : DispatchPhase) (fieldName : String)

/-- The state after the stages, if none of them ends the pipeline. -/
def passStages (bag : AttributeBag) : Nat → List Stage → PipelineState σ → Option (PipelineState σ)
  | _, [], ps => some ps
  | idx, stage :: stages, ps =>
    match runStage env.toInvokers bag fieldName phase idx stage ps with
    | (some _, _) => none
    | (none, ps) => passStages bag (idx + 1) stages ps

variable {bag : AttributeBag} {idx : Nat} {ps : PipelineState σ} {before after : List Stage}
  {ps' : PipelineState σ}

/-- Past the first stages, the loop goes on with the others. -/
theorem runStages_append (h : passStages env phase fieldName bag idx before ps = some ps') :
    runStages env.toInvokers bag fieldName phase idx (before ++ after) ps =
      runStages env.toInvokers bag fieldName phase (idx + before.length) after ps' := by
  induction before generalizing idx ps with
  | nil =>
    cases h
    rfl
  | cons stage before ih =>
    rw [passStages] at h
    rw [List.cons_append, runStages]
    generalize runStage env.toInvokers bag fieldName phase idx stage ps = r at h ⊢
    obtain ⟨outcome, ps₁⟩ := r
    cases outcome with
    | some outcome => exact nomatch h
    | none =>
      dsimp only at h ⊢
      rw [ih h, List.length_cons, Nat.add_right_comm, Nat.add_assoc]

variable {qs : PipelineState σ}

/-- A stage makes a call exactly if it is a plugin stage, so two runs of it make as many. -/
theorem length_pluginDecisions_runStage (bag bag' : AttributeBag) (idx : Nat) (stage : Stage)
    (hstart : (pluginDecisions ps.trace).length = (pluginDecisions qs.trace).length) :
    (pluginDecisions (runStage env.toInvokers bag fieldName phase idx stage ps).2.trace).length =
      (pluginDecisions
        (runStage env.toInvokers bag' fieldName phase idx stage qs).2.trace).length := by
  by_cases hplugin : ∃ name, stage = .plugin name
  · obtain ⟨name, rfl⟩ := hplugin
    simp only [runStage, (runPluginStage_called ..).2.1, pluginDecisions_append,
      List.length_append, hstart]
    rfl
  · rw [(runStage_frame env.toInvokers bag fieldName phase idx stage ps (not_exists.mp hplugin)).2,
      (runStage_frame env.toInvokers bag' fieldName phase idx stage qs (not_exists.mp hplugin)).2]
    exact hstart

variable {bag' : AttributeBag}

/-- So two runs that pass the same stages have made as many calls. -/
theorem length_pluginDecisions_passStages
    (h : passStages env phase fieldName bag idx stages ps = some ps')
    (h' : passStages env phase fieldName bag' idx stages qs = some qs')
    (hstart : (pluginDecisions ps.trace).length = (pluginDecisions qs.trace).length) :
    (pluginDecisions ps'.trace).length = (pluginDecisions qs'.trace).length := by
  induction stages generalizing idx ps qs with
  | nil =>
    cases h
    cases h'
    exact hstart
  | cons stage stages ih =>
    have hstage := length_pluginDecisions_runStage env phase fieldName bag bag' idx stage hstart
    rw [passStages] at h h'
    generalize runStage env.toInvokers bag fieldName phase idx stage ps = r at h hstage
    generalize runStage env.toInvokers bag' fieldName phase idx stage qs = r' at h' hstage
    obtain ⟨outcome, ps₁⟩ := r
    obtain ⟨outcome', qs₁⟩ := r'
    cases outcome with
    | some outcome => exact nomatch h
    | none =>
      cases outcome' with
      | some outcome => exact nomatch h'
      | none => exact ih h h' hstage

theorem pluginDecisions_runStages_cons (bag : AttributeBag) (idx : Nat) (stage : Stage)
    (stages : List Stage) (ps : PipelineState σ) :
    ∃ more, pluginDecisions
        (runStages env.toInvokers bag fieldName phase idx (stage :: stages) ps).2.trace =
      pluginDecisions (runStage env.toInvokers bag fieldName phase idx stage ps).2.trace ++
        more := by
  rw [runStages]
  generalize runStage env.toInvokers bag fieldName phase idx stage ps = r
  obtain ⟨outcome, ps'⟩ := r
  cases outcome with
  | some outcome => exact ⟨[], (List.append_nil _).symm⟩
  | none =>
    obtain ⟨new, htrace, -⟩ := (runStages_asks env phase bag fieldName (idx + 1) stages ps').trace
    exact ⟨pluginDecisions new, by rw [htrace, pluginDecisions_append]⟩

/-! ### Two runs -/

/-- Two states of the stage loop hold the same value. -/
def PipelineState.Agree (ps qs : PipelineState σ) : Prop :=
  ps.current = qs.current ∧ ps.replaced = qs.replaced

/-- Two stages ended alike, at the same value. -/
def EndAlike (r r' : Option FieldOutcome × PipelineState σ) : Prop :=
  r.1 = r'.1 ∧ r.2.Agree r'.2

/-- The bags decide the conditions of the stages' redactions alike. -/
def SameConditions (bag bag' : AttributeBag) (stages : List Stage) : Prop :=
  ∀ c, .redact (some c) ∈ stages → evalExpression bag c = evalExpression bag' c

/-- No plugin of the stages that allows has a new value for the field. -/
def RewritesNoValue (stages : List Stage) : Prop :=
  ∀ name, .plugin name ∈ stages → ∀ world bag value outcome,
    (env.invoke world name bag (.field fieldName value phase)).1 = .ok outcome →
      outcome.decision = .allow → outcome.modifiedValue = none

/-- A stage that is not a plugin works on the value alone. -/
theorem runStage_agree (idx : Nat) (h : ps.Agree qs) (hstage : ∀ name, stage ≠ .plugin name)
    (hcondition : ∀ c, stage = .redact (some c) → evalExpression bag c = evalExpression bag' c) :
    EndAlike (runStage env.toInvokers bag fieldName phase idx stage ps)
      (runStage env.toInvokers bag' fieldName phase idx stage qs) := by
  obtain ⟨current, replaced, taints, world, trace⟩ := ps
  obtain ⟨current', replaced', taints', world', trace'⟩ := qs
  obtain ⟨rfl, rfl⟩ : current = current' ∧ replaced = replaced' := h
  unfold EndAlike PipelineState.Agree
  cases stage with
  | plugin name => exact absurd rfl (hstage name)
  | redact condition =>
    cases condition with
    | none => simp [runStage, PipelineState.replaceWith]
    | some c =>
      simp only [runStage, Option.map_some, Option.getD_some, hcondition c rfl]
      split <;> simp [PipelineState.replaceWith]
  | scan kind =>
    cases kind <;> simp [runStage, PipelineState.pushTaint, PipelineState.replaceWith]
  | _ =>
    simp only [runStage, onString, PipelineState.pushTaint, PipelineState.replaceWith]
    repeat' split
    all_goals simp_all

omit [Platform] in
/-- Two plugins that decide alike and rewrite nothing. -/
theorem runPluginStage_agree (idx : Nat) (h : ps.Agree qs)
    (hkeeps : RewritesNoValue env phase fieldName [.plugin name])
    (hdecision : (env.invoke ps.world name bag (.field fieldName ps.current phase)).1.map
        (·.decision) =
      (env.invoke qs.world name bag' (.field fieldName qs.current phase)).1.map (·.decision)) :
    EndAlike (runPluginStage env.toInvokers bag fieldName phase idx name ps)
      (runPluginStage env.toInvokers bag' fieldName phase idx name qs) := by
  have hp := hkeeps name (List.mem_singleton_self _) ps.world bag ps.current
  have hq := hkeeps name (List.mem_singleton_self _) qs.world bag' qs.current
  unfold runPluginStage
  generalize env.invoke ps.world name bag (.field fieldName ps.current phase) = r at hp hdecision ⊢
  generalize env.invoke qs.world name bag' (.field fieldName qs.current phase) = r'
    at hq hdecision ⊢
  obtain ⟨answer, world⟩ := r
  obtain ⟨answer', world'⟩ := r'
  cases answer with
  | error e =>
    cases answer' with
    | ok outcome' => exact nomatch hdecision
    | error e' =>
      cases hdecision
      exact ⟨rfl, h⟩
  | ok outcome =>
    cases answer' with
    | error e' => exact nomatch hdecision
    | ok outcome' =>
      have hsame : outcome.decision = outcome'.decision := Except.ok.inj hdecision
      dsimp only
      rw [← hsame]
      cases hd : outcome.decision with
      | deny reason source => exact ⟨rfl, h⟩
      | allow =>
        rw [hp outcome rfl hd, hq outcome' rfl (hsame.symm.trans hd)]
        exact ⟨rfl, h⟩

/-- Two runs from the same value, with plugins that decide alike and rewrite nothing, end alike. -/
theorem runStages_agree (h : ps.Agree qs) (hconditions : SameConditions bag bag' stages)
    (hkeeps : RewritesNoValue env phase fieldName stages)
    (hstart : pluginDecisions ps.trace = pluginDecisions qs.trace) (hend : pluginDecisions
        (runStages env.toInvokers bag fieldName phase idx stages ps).2.trace =
      pluginDecisions (runStages env.toInvokers bag' fieldName phase idx stages qs).2.trace) :
    (runStages env.toInvokers bag fieldName phase idx stages ps).1 =
      (runStages env.toInvokers bag' fieldName phase idx stages qs).1 := by
  induction stages generalizing idx ps qs with
  | nil =>
    simp only [runStages, h.1, h.2]
  | cons stage stages ih =>
    have hrest : SameConditions bag bag' stages := fun c hc =>
      hconditions c (List.mem_cons_of_mem _ hc)
    have hkeepsRest : RewritesNoValue env phase fieldName stages := fun name hname =>
      hkeeps name (List.mem_cons_of_mem _ hname)
    -- The stage itself: the same outcome, the same value, the same decision.
    have hstage : EndAlike (runStage env.toInvokers bag fieldName phase idx stage ps)
          (runStage env.toInvokers bag' fieldName phase idx stage qs) ∧
        pluginDecisions (runStage env.toInvokers bag fieldName phase idx stage ps).2.trace =
          pluginDecisions (runStage env.toInvokers bag' fieldName phase idx stage qs).2.trace := by
      by_cases hplugin : ∃ name, stage = .plugin name
      · obtain ⟨name, rfl⟩ := hplugin
        obtain ⟨more, hp⟩ := pluginDecisions_runStages_cons env phase fieldName bag idx
          (.plugin name) stages ps
        obtain ⟨more', hq⟩ := pluginDecisions_runStages_cons env phase fieldName bag' idx
          (.plugin name) stages qs
        rw [hp, hq] at hend
        simp only [runStage, (runPluginStage_called ..).2.1, pluginDecisions_append, hstart,
          List.append_assoc] at hend ⊢
        -- The first decision after the common ones is this plugin's.
        have hdecisions := List.append_cancel_left hend
        have hdecision := Option.some.inj (congrArg List.head? hdecisions)
        have hagree := runPluginStage_agree env phase fieldName idx h (fun n hn =>
          hkeeps n (List.mem_cons.mpr (.inl (List.mem_singleton.mp hn)))) hdecision
        refine ⟨hagree, ?_⟩
        rw [List.append_cancel_left_eq]
        exact congrArg (fun d => [d]) hdecision
      · have hagree := runStage_agree env phase fieldName idx h (not_exists.mp hplugin)
          fun c hc => hconditions c (hc ▸ List.mem_cons_self)
        refine ⟨hagree, ?_⟩
        rw [(runStage_frame env.toInvokers bag fieldName phase idx stage ps
            (not_exists.mp hplugin)).2,
          (runStage_frame env.toInvokers bag' fieldName phase idx stage qs
            (not_exists.mp hplugin)).2]
        exact hstart
    simp only [runStages] at hend ⊢
    generalize runStage env.toInvokers bag fieldName phase idx stage ps = r at hstage hend ⊢
    generalize runStage env.toInvokers bag' fieldName phase idx stage qs = r' at hstage hend ⊢
    obtain ⟨outcome, ps'⟩ := r
    obtain ⟨outcome', qs'⟩ := r'
    obtain ⟨⟨rfl, hagree⟩, hdecisions⟩ := hstage
    cases outcome with
    | some outcome => rfl
    | none => exact ih hagree hrest hkeepsRest hdecisions hend

/-- An unconditional `redact` forgets the value. -/
theorem runStages_redact :
    runStages env.toInvokers bag fieldName phase idx (.redact none :: stages) ps =
      runStages env.toInvokers bag fieldName phase (idx + 1) stages
        (ps.replaceWith (.string "[REDACTED]")) :=
  rfl

end

namespace Core

variable {η σ : Type}

/-! ### Plugins behind the invoker -/

/-- The field reads in `after` as it does in `before`, or is not there. -/
def FieldKept (before after : Message) (field : String) (phase : DispatchPhase) : Prop :=
  ∀ new, fieldValueFromMessage after field phase = some new →
    ∃ old, fieldValueFromMessage before field phase = some old ∧ old.eq new = true

/-- The handlers of the plugins that the stages name may rewrite all of the message but the
    field. -/
def PluginsKeepField (host : RouteHost η σ) (plan : RouteDispatchPlan η) (stages : List Stage)
    (field : String) (phase : DispatchPhase) : Prop :=
  ∀ name resolved, .plugin name ∈ stages → plan.plugins.lookup name = some resolved →
    ∀ e ∈ resolved.entriesByHook.entries, ∀ payload world out world',
      host.cmf.Answers e.2.handler payload world out world' →
        FieldKept payload.message out.message field phase

variable {field : String} {phase : DispatchPhase}

theorem rewrittenField_of_kept (h : FieldKept before after field phase) (value : Json) :
    rewrittenField before after (.field field value phase) = none := by
  unfold rewrittenField
  rw [Option.filter_eq_none_iff]
  intro new hnew
  obtain ⟨old, hold, heq⟩ := h new hnew
  simp [hold, heq]

/-- A plugin that keeps the field and allows has no new value for it. -/
theorem cmfInvoke_modifiedValue [Platform] (h : PluginsKeepField host plan stages field phase)
    (hname : .plugin name ∈ stages) (bag : AttributeBag)
    (hinvoke : (cmfInvoke host plan st name bag (.field field value phase)).1 = .ok outcome)
    (hallow : outcome.decision = .allow) : outcome.modifiedValue = none := by
  unfold cmfInvoke at hinvoke
  cases hlookup : plan.plugins.lookup name with
  | none => simp [hlookup] at hinvoke
  | some resolved =>
    rw [hlookup] at hinvoke
    dsimp only at hinvoke
    split at hinvoke
    · exact nomatch hinvoke
    next entry hpick =>
      obtain ⟨e, hfind, rfl⟩ := Option.map_eq_some_iff.mp hpick
      have hkept := h name resolved hname hlookup e (List.mem_of_find?_eq_some hfind)
      unfold RequestState.invokeEntry settlePlugin at hinvoke
      have hpayload := execute_single_payload host.cmf host.executor e.2 st.payload st.extensions
        none st.disabled st.world
      dsimp only at hinvoke
      generalize execute host.cmf host.executor [e.2] st.payload st.extensions none st.disabled
        st.world = run at hinvoke hpayload
      split at hinvoke
      next modified hmodified hout =>
        cases hinvoke
        have hcontinues : run.result.continueProcessing = true := by
          by_contra hdenied
          rw [pluginDecision, if_neg hdenied] at hallow
          cases hviolation : run.result.violation with
          | none => simp [hviolation] at hallow
          | some v => simp [hviolation] at hallow
        rcases hpayload modified hcontinues hout with ⟨_, hsame⟩ | hanswers
        · exact nomatch hmodified.symm.trans hsame
        · exact rewrittenField_of_kept (hkept _ _ _ _ hanswers) value
      · cases hinvoke
        rfl

section
variable [Platform]

/-- Two requests whose field is put through the same pipeline, past an unconditional `redact`, end
    with the same outcome for it, whatever the field and the rest of their messages hold. The
    plugins behind the `redact` may rewrite all of the message but the field, and decide alike;
    the conditions of redactions behind it are decided alike by what the requests' bags say. -/
theorem redacted_field_independent {host : RouteHost η σ} {plan : RouteDispatchPlan η}
    (before : List Stage) {after : List Stage} {field : String} {phase : DispatchPhase}
    (hkeeps : PluginsKeepField host plan after field phase) {bag bag' : AttributeBag}
    {value value' : Json}
    {request request' : RequestState σ}
    (hpast : (passStages (routeEnv host plan) phase field bag 0 before
      ⟨value, false, [], request, []⟩).isSome = true)
    (hpast' : (passStages (routeEnv host plan) phase field bag' 0 before
      ⟨value', false, [], request', []⟩).isSome = true)
    (hconditions : SameConditions bag bag' after)
    (hdecisions : pluginDecisions (evaluatePipeline (routeEnv host plan).toInvokers
        ⟨before ++ .redact none :: after⟩ value bag request field phase).2.trace =
      pluginDecisions (evaluatePipeline (routeEnv host plan).toInvokers
        ⟨before ++ .redact none :: after⟩ value' bag' request' field phase).2.trace) :
    (evaluatePipeline (routeEnv host plan).toInvokers ⟨before ++ .redact none :: after⟩ value bag
        request field phase).1 =
      (evaluatePipeline (routeEnv host plan).toInvokers ⟨before ++ .redact none :: after⟩ value'
        bag' request' field phase).1 := by
  have hrewrites : RewritesNoValue (routeEnv host plan) phase field after :=
    fun _ hname _ bag _ _ hinvoke hallow => cmfInvoke_modifiedValue hkeeps hname bag hinvoke hallow
  generalize routeEnv host plan = env at hpast hpast' hdecisions hrewrites ⊢
  obtain ⟨ps, hps⟩ := Option.isSome_iff_exists.mp hpast
  obtain ⟨qs, hqs⟩ := Option.isSome_iff_exists.mp hpast'
  unfold evaluatePipeline at hdecisions ⊢
  simp only [runStages_append env phase field hps, runStages_append env phase field hqs]
    at hdecisions ⊢
  -- Before the redaction the runs made as many calls, so the common decisions split there.
  have hlength := length_pluginDecisions_passStages env phase field hps hqs rfl
  obtain ⟨more, hp⟩ := pluginDecisions_runStages_cons env phase field bag (0 + before.length)
    (.redact none) after ps
  obtain ⟨more', hq⟩ := pluginDecisions_runStages_cons env phase field bag' (0 + before.length)
    (.redact none) after qs
  have hstart : pluginDecisions ps.trace = pluginDecisions qs.trace := by
    rw [hp, hq] at hdecisions
    exact List.append_inj_left hdecisions hlength
  have hagree : (ps.replaceWith (.string "[REDACTED]")).Agree
      (qs.replaceWith (.string "[REDACTED]")) := ⟨rfl, rfl⟩
  rw [runStages_redact, runStages_redact] at hdecisions ⊢
  exact runStages_agree env phase field hagree hconditions hrewrites hstart hdecisions

end

/-! ### Closed runs -/

section
attribute [local instance] Platform.bare ParserPlatform.bare ConfigSerde.bare PolicyParser.apl

/-- A call of a tool with a social security number, and other arguments. -/
def lookupCall (ssn : String) (others : HashMap String Json) : Message where
  role := .assistant
  content :=
    [.toolCall
      { toolCallId := "1", name := "lookup", arguments := others.insert "ssn" (.string ssn) }]

/-- The number in the arguments of a message. -/
def ssnOf (message : Message) : Option String :=
  match fieldValueFromMessage message "ssn" .pre with
  | some (.string ssn) => some ssn
  | _ => none

/-- A host with a plugin that notes in the arguments of a call that it has seen the number. -/
def notingHost : RouteHost Unit Unit :=
  (HandlerHost.direct (.direct fun _ payload _ world =>
    ({ modifiedPayload := (ssnOf payload.message).map fun ssn =>
        ⟨lookupCall ssn (AList.singleton "note" (.string "seen"))⟩ }, world)) .passing).toRouteHost

/-- A plan with a plugin that is called before tools. -/
def logPlan : RouteDispatchPlan Unit where
  plugins := (∅ : HashMap String (RoutePluginEntry Unit)).insert "log" ⟨"log",
    (∅ : HashMap String (HookEntry Unit)).insert "cmf.tool_pre_invoke"
      ⟨⟨{ name := "log" }, 0⟩, ()⟩⟩

/-- The outcome of a pipeline for the number. -/
def ssnOutcome (stages : List Stage) (ssn : String) :
    FieldOutcome × Cpex.PipelineState (RequestState Unit) :=
  evaluatePipeline (routeEnv notingHost logPlan).toInvokers ⟨stages⟩ (.string ssn)
    (extractArgs (extractArgsFromMessage (lookupCall ssn ∅)) .new)
    { extensions := {}, payload := ⟨lookupCall ssn ∅⟩, disabled := ∅, world := () } "ssn" .pre

/-- The text an outcome puts in the place of the field. -/
def outcomeText : FieldOutcome → Option String
  | .replace (.string s) => some s
  | _ => none

theorem pluginsKeepField_noting (plan : RouteDispatchPlan Unit) (stages : List Stage) :
    PluginsKeepField notingHost plan stages "ssn" .pre := by
  rintro _ _ _ _ _ _ payload _ _ _ ⟨_, _, _, _, hinvoke, hout⟩ new hnew
  cases hinvoke
  obtain ⟨ssn, hssn, rfl⟩ := Option.map_eq_some_iff.mp hout
  -- The call it returns has the number it found.
  change getDotted (.object (argumentFields _)) "ssn" = some new at hnew
  rw [getDotted, show Text.split "ssn" '.' = ["ssn"] by decide +kernel] at hnew
  change ((argumentFields _).lookup "ssn").bind some = some new at hnew
  rw [lookup_argumentFields, AList.lookup_insert] at hnew
  cases hnew
  unfold ssnOf at hssn
  split at hssn
  · next found hfound =>
    cases hssn
    exact ⟨_, hfound, beq_self_eq_true ssn⟩
  · exact nomatch hssn

/-- A conditional redaction behind the `redact` tells two numbers apart that it asks for, and so
    does a check before it that lets only one of them pass. -/
theorem redaction_tells_numbers_apart :
    (∀ stages, PluginsKeepField notingHost logPlan stages "ssn" .pre) ∧
      (∃ pipeline, PolicyParser.parsePipeline
          "redact | mask(4) | redact(args.ssn == '123-45-6789') | plugin(log)" = .ok pipeline ∧
        outcomeText (ssnOutcome pipeline.stages "123-45-6789").1 = some "[REDACTED]" ∧
        outcomeText (ssnOutcome pipeline.stages "987-65-4321").1 = some "******TED]" ∧
        pluginDecisions (ssnOutcome pipeline.stages "123-45-6789").2.trace =
          pluginDecisions (ssnOutcome pipeline.stages "987-65-4321").2.trace) ∧
      ∃ pipeline, PolicyParser.parsePipeline "len(..11) | redact | plugin(log)" = .ok pipeline ∧
        outcomeText (ssnOutcome pipeline.stages "123-45-6789").1 = some "[REDACTED]" ∧
        outcomeText (ssnOutcome pipeline.stages "123-45-6789 (old)").1 = none := by
  have hafter : ((PolicyParser.parsePipeline
      "redact | mask(4) | redact(args.ssn == '123-45-6789') | plugin(log)").toOption.map fun p =>
        (outcomeText (ssnOutcome p.stages "123-45-6789").1,
          outcomeText (ssnOutcome p.stages "987-65-4321").1,
          decide (pluginDecisions (ssnOutcome p.stages "123-45-6789").2.trace =
            pluginDecisions (ssnOutcome p.stages "987-65-4321").2.trace))) =
      some (some "[REDACTED]", some "******TED]", true) := by
    decide +kernel
  have hbefore : ((PolicyParser.parsePipeline "len(..11) | redact | plugin(log)").toOption.map
      fun p => (outcomeText (ssnOutcome p.stages "123-45-6789").1,
        outcomeText (ssnOutcome p.stages "123-45-6789 (old)").1)) =
      some (some "[REDACTED]", none) := by
    decide +kernel
  obtain ⟨p, hp, hvalues⟩ := Option.map_eq_some_iff.mp hafter
  obtain ⟨q, hq, hvalues'⟩ := Option.map_eq_some_iff.mp hbefore
  simp only [Prod.mk.injEq, decide_eq_true_eq] at hvalues hvalues'
  exact ⟨pluginsKeepField_noting logPlan, ⟨p, Except.ok_of_toOption hp, hvalues⟩, q,
    Except.ok_of_toOption hq, hvalues'⟩

/-- Two numbers of the right type, behind the same `redact`. The plugin behind it has rewritten the
    arguments. -/
theorem redacted_field_independent_log :
    (ssnOutcome [.type .str, .redact none, .plugin "log"] "123-45-6789").1 =
        (ssnOutcome [.type .str, .redact none, .plugin "log"] "987-65-4321").1 ∧
      fieldValueFromMessage (ssnOutcome [.type .str, .redact none, .plugin "log"]
        "123-45-6789").2.world.payload.message "note" .pre = some (.string "seen") := by
  refine ⟨?_, rfl⟩
  exact redacted_field_independent [.type .str] (pluginsKeepField_noting logPlan [.plugin "log"])
    rfl rfl (fun c hc => by simp at hc) (by decide +kernel)

end

end Core

end Cpex
