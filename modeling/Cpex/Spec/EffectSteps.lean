import Cpex.Native.RouteHandler

/-! # What one effect leaves behind

What the functions below `dispatch_effect` do to the state, said once for each of them. A plugin, a
delegation and a restriction make one record each, and so does an elicitation, whatever becomes of
it. A field operation and a field rule do what their pipeline does.
-/

namespace Cpex

/-! ### Plugins, delegations and restrictions -/

/-- The taints that come with a plugin's answer. -/
def reportedTaints : Except PluginError PluginOutcome → List TaintEvent
  | .ok outcome => outcome.taints
  | .error _ => []

/-- What the delegation invoker answered. -/
abbrev DelegationAnswer := Except DelegationError DelegationOutcome

/-- The bag after a step with this answer. -/
def recordAnswer (bag : AttributeBag) : DelegationAnswer → AttributeBag
  | .ok outcome =>
    match outcome.decision with
    | .allow => recordGrant bag outcome
    | .deny _ _ => bag
  | .error _ => bag

section
variable {σ : Type} (env : Env σ) (phase : DispatchPhase) (fallbackSource : String)

/-- A plugin step keeps the taints of the answer, whatever it decides. -/
theorem dispatchPlugin_snd :
    (dispatchPlugin env phase name st).2 =
      { st with
        world := (env.invoke st.world name st.bag (.step phase)).2
        taints := st.taints ++ reportedTaints (env.invoke st.world name st.bag (.step phase)).1
        trace := st.trace ++
          [.plugin name (env.invoke st.world name st.bag (.step phase)).1] } := by
  unfold dispatchPlugin
  obtain ⟨answer, world⟩ := env.invoke st.world name st.bag (.step phase)
  cases answer with
  | error e => simp [reportedTaints, EvalState.reach]
  | ok outcome =>
    dsimp only
    cases outcome.decision <;> rfl

/-- A delegation writes to the bag only if it was granted. -/
theorem dispatchDelegate_snd :
    (dispatchDelegate env step st).2 =
      { st with
        world := (env.delegate st.world step).2
        bag := recordAnswer st.bag (env.delegate st.world step).1
        trace := st.trace ++ [.delegate step (env.delegate st.world step).1] } := by
  unfold dispatchDelegate
  obtain ⟨answer, world⟩ := env.delegate st.world step
  cases answer with
  | error e =>
    dsimp only
    split <;> rfl
  | ok outcome =>
    simp only [recordAnswer]
    cases outcome.decision with
    | allow => rfl
    | deny reason source =>
      dsimp only
      split <;> rfl

variable [Platform]

/-- A restriction adds at most the constraint it resolves to. -/
theorem dispatchRestrict_snd (spec : RestrictSpec) (st : EvalState σ) :
    ∃ added, (dispatchRestrict fallbackSource spec st).2 =
      { st with
        constraints := st.constraints ++ added
        trace := st.trace ++ [.restrict spec (spec.resolve st.bag)] } := by
  unfold dispatchRestrict
  cases spec.resolve st.bag with
  | error e => exact ⟨[], by simp [EvalState.reach]⟩
  | ok c =>
    dsimp only
    split
    · exact ⟨[], by simp [EvalState.reach]⟩
    · exact ⟨[c], rfl⟩

/-! ### Elicitations -/

variable (bag : AttributeBag) {key : String}

omit [Platform] in
theorem AttributeBag.get_setOpt_ne (v : Option String) (h : k ≠ key) :
    (bag.setOpt key v).get k = bag.get k := by
  cases v with
  | none => rfl
  | some v => exact bag.get_set_ne (.string v) h

/-- The keys an elicitation writes to. -/
def elicitationKeys : List String :=
  [ElicitationBagKeys.id, ElicitationBagKeys.status, ElicitationBagKeys.approver,
    ElicitationBagKeys.outcome, ElicitationBagKeys.intentId, ElicitationBagKeys.channel,
    ElicitationBagKeys.expiresAt]

/-- The bags agree but for the keys of an elicitation. -/
def BagsAgree (bag bag' : AttributeBag) : Prop :=
  ∀ k ∉ elicitationKeys, bag'.get k = bag.get k

section
omit [Platform]

/-- What is noted of an elicitation that was sent out. -/
theorem bagsAgree_recordDispatch (step : ElicitStep) (bag : AttributeBag)
    (d : ElicitationDispatch) : BagsAgree bag (recordDispatch step bag d) := by
  intro k hk
  simp only [elicitationKeys, List.mem_cons, List.not_mem_nil, or_false, not_or] at hk
  simp (disch := simp [hk]) only [recordDispatch, AttributeBag.get_setOpt_ne,
    AttributeBag.get_set_ne]

/-- What is noted of an approval. -/
theorem bagsAgree_recordApproval (v : ElicitationValidation) :
    BagsAgree bag (recordApproval bag v) := by
  intro k hk
  simp only [elicitationKeys, List.mem_cons, List.not_mem_nil, or_false, not_or] at hk
  simp (disch := simp [hk]) only [recordApproval, AttributeBag.get_setOpt_ne,
    AttributeBag.get_set_ne]

theorem bagsAgree_set (v : AttributeValue) (h : key ∈ elicitationKeys) :
    BagsAgree bag (bag.set key v) :=
  fun _ hk => bag.get_set_ne v fun heq => hk (heq ▸ h)

end

/-- How a check on the elicitation `id` ends: the outcome, the answers it got, and the bag and the
    world it leaves. -/
inductive CheckEnds (step : ElicitStep) (id : String) (bag : AttributeBag) (w : σ) :
    EffectOutcome → Except ElicitationError ElicitationStatus →
      Option (Except ElicitationError ElicitationValidation) → AttributeBag → σ → Prop where
  | failed {e w' why} (h : env.check w step id = (.error e, w')) :
      CheckEnds step id bag w (step.fail why) (.error e) none bag w'
  | pending {w' bundle v} (h : env.check w step id = (.ok .pending, w')) :
      CheckEnds step id bag w (.pending bundle) (.ok .pending) none
        (bag.set ElicitationBagKeys.status v) w'
  | expired {w' why v} (h : env.check w step id = (.ok .expired, w')) :
      CheckEnds step id bag w (step.fail why) (.ok .expired) none
        (bag.set ElicitationBagKeys.status v) w'
  | denied {w' reason v v'} (h : env.check w step id = (.ok (.resolved .denied), w')) :
      CheckEnds step id bag w (.halt (.deny reason step.source)) (.ok (.resolved .denied)) none
        ((bag.set ElicitationBagKeys.status v).set ElicitationBagKeys.outcome v') w'
  | unvalidated {w₁ e w' why} (h : env.check w step id = (.ok (.resolved .approved), w₁))
      (hvalidate : env.validate w₁ step id = (.error e, w')) :
      CheckEnds step id bag w (step.fail why) (.ok (.resolved .approved)) (some (.error e)) bag w'
  | rejected {w₁ v w' why} (h : env.check w step id = (.ok (.resolved .approved), w₁))
      (hvalidate : env.validate w₁ step id = (.ok v, w'))
      (hbad : v.valid = false ∨ step.scopeFailure bag ≠ none) :
      CheckEnds step id bag w (step.fail why) (.ok (.resolved .approved)) (some (.ok v)) bag w'
  | approved {w₁ v w'} (h : env.check w step id = (.ok (.resolved .approved), w₁))
      (hvalidate : env.validate w₁ step id = (.ok v, w')) (hvalid : v.valid = true)
      (hscope : step.scopeFailure bag = none) :
      CheckEnds step id bag w .continue (.ok (.resolved .approved)) (some (.ok v))
        (recordApproval bag v) w'

/-- The elicitation a step checks on, and the bag and the world it does so with: one that is in the
    bag, or else one that it sends out. -/
inductive Opens (step : ElicitStep) (st : EvalState σ) :
    String → Option (Except ElicitationError ElicitationDispatch) → AttributeBag → σ → Prop where
  | existing {id} (hid : st.bag.getString ElicitationBagKeys.id = some id) :
      Opens step st id none st.bag st.world
  | sent {a d w} (hfrom : step.resolvedFrom st.bag = some a)
      (hid : st.bag.getString ElicitationBagKeys.id = none)
      (hsend : env.dispatch st.world step a = (.ok d, w)) :
      Opens step st d.id (some (.ok d)) (recordDispatch step st.bag d) w

/-- What an elicitation step does. It makes one record, whatever becomes of it. -/
inductive Elicits (step : ElicitStep) (st : EvalState σ) : EffectOutcome × EvalState σ → Prop where
  | unresolved {why} : Elicits step st
      (step.fail why, st.reach (.elicit step false none none none st.bag))
  | unsent {a e w why} (hsend : env.dispatch st.world step a = (.error e, w)) : Elicits step st
      (step.fail why, { st with world := w }.reach
        (.elicit step true (some (.error e)) none none st.bag))
  | checked {id dispatched bag w outcome checked validated bag' w'}
      (hopens : Opens env step st id dispatched bag w)
      (hends : CheckEnds env step id bag w outcome checked validated bag' w') : Elicits step st
      (outcome, { st with bag := bag', world := w' }.reach
        (.elicit step true dispatched (some checked) validated bag))

variable {step : ElicitStep}

/-- A check ends in one of these ways, and the step is put on record. -/
theorem checkElicitation_ends (id : String)
    (dispatched : Option (Except ElicitationError ElicitationDispatch)) (st : EvalState σ) :
    ∃ outcome checked validated bag w,
      CheckEnds env step id st.bag st.world outcome checked validated bag w ∧
      checkElicitation env step id dispatched st = (outcome, { st with bag, world := w }.reach
        (.elicit step true dispatched (some checked) validated st.bag)) := by
  unfold checkElicitation
  rcases hcheck : env.check st.world step id with ⟨_ | status, w⟩
  · exact ⟨_, _, _, _, _, .failed hcheck, rfl⟩
  · cases status with
    | pending => exact ⟨_, _, _, _, _, .pending hcheck, rfl⟩
    | expired => exact ⟨_, _, _, _, _, .expired hcheck, rfl⟩
    | resolved outcome =>
      cases outcome with
      | denied => exact ⟨_, _, _, _, _, .denied hcheck, rfl⟩
      | approved =>
        -- Only an approval is validated.
        dsimp only
        unfold acceptApproval
        rcases hvalidate : env.validate w step id with ⟨e | v, w'⟩
        · exact ⟨_, _, _, _, _, .unvalidated hcheck hvalidate, rfl⟩
        · dsimp only
          split
          · next hvalid =>
            split
            · next hscope =>
              refine ⟨_, _, _, _, _, .rejected hcheck hvalidate (.inr ?_), rfl⟩
              exact Option.ne_none_iff_exists'.mpr ⟨_, hscope⟩
            · next hscope => exact ⟨_, _, _, _, _, .approved hcheck hvalidate hvalid hscope, rfl⟩
          · next hvalid =>
            exact ⟨_, _, _, _, _, .rejected hcheck hvalidate (.inl (by simpa using hvalid)), rfl⟩

/-- `dispatch_elicitation` takes one of these ways. -/
theorem dispatchElicitation_elicits (step : ElicitStep) (st : EvalState σ) :
    Elicits env step st (dispatchElicitation env step st) := by
  unfold dispatchElicitation
  cases hfrom : step.resolvedFrom st.bag with
  | none => exact .unresolved
  | some a =>
    cases hid : st.bag.getString ElicitationBagKeys.id with
    | some existing =>
      obtain ⟨_, _, _, _, _, hends, heq⟩ := checkElicitation_ends env existing none st
      dsimp only
      rw [heq]
      exact .checked (.existing hid) hends
    | none =>
      dsimp only
      unfold sendElicitation
      rcases hsend : env.dispatch st.world step a with ⟨e | d, w⟩
      · exact .unsent hsend
      · obtain ⟨_, _, _, _, _, hends, heq⟩ := checkElicitation_ends env d.id (some (.ok d))
          { st with world := w, bag := recordDispatch step st.bag d }
        dsimp only
        rw [heq]
        exact .checked (.sent hfrom hid hsend) hends

variable {env}

/-- Whatever it finds, a check writes to no other keys. -/
theorem CheckEnds.bagsAgree {id : String} {bag bag' : AttributeBag} {w w' : σ}
    {outcome : EffectOutcome} {checked : Except ElicitationError ElicitationStatus}
    {validated : Option (Except ElicitationError ElicitationValidation)}
    (h : CheckEnds env step id bag w outcome checked validated bag' w') : BagsAgree bag bag' := by
  have hstatus (v : AttributeValue) : BagsAgree bag (bag.set ElicitationBagKeys.status v) :=
    bagsAgree_set bag v (by decide)
  cases h with
  | pending | expired => exact hstatus _
  | denied => exact fun k hk => (bagsAgree_set _ _ (by decide) k hk).trans (hstatus _ k hk)
  | approved => exact bagsAgree_recordApproval bag _
  | failed | unvalidated | rejected => exact fun _ _ => rfl

/-- What an elicitation step changes: keys of its own in the bag, the world, and the record, which
    has one entry more. -/
structure ElicitFrame (step : ElicitStep) (st st' : EvalState σ) : Prop where
  taints : st'.taints = st.taints
  constraints : st'.constraints = st.constraints
  bag : BagsAgree st.bag st'.bag
  trace : ∃ fromResolved dispatched checked validated bag,
    st'.trace = st.trace ++ [.elicit step fromResolved dispatched checked validated bag]

/-- Each of the ways stays within this frame. -/
theorem Elicits.frame {st : EvalState σ} {r : EffectOutcome × EvalState σ}
    (h : Elicits env step st r) : ElicitFrame step st r.2 := by
  cases h with
  | unresolved | unsent => exact ⟨rfl, rfl, fun _ _ => rfl, _, _, _, _, _, rfl⟩
  | checked hopens hends =>
    refine ⟨rfl, rfl, fun k hk => (hends.bagsAgree k hk).trans ?_, _, _, _, _, _, rfl⟩
    cases hopens with
    | existing => rfl
    | sent => exact bagsAgree_recordDispatch step st.bag _ k hk

variable (env)

/-! ### Field operations and field rules -/

/-- What a field operation works on, with its path below the side of the payload: nothing out of
    phase or where the field is missing. -/
def fieldOpTarget (path : String) (st : EvalState σ) : Option (String × Json) :=
  (splitFieldPath path).bind fun (side, subpath, sidePhase) =>
    if phase ≠ sidePhase then none
    else (st.payload.root side).bind fun root => (getDotted root subpath).map (subpath, ·)

/-- What is left by a field operation that has run its pipeline: what is written back is in the
    payload, and the rest is the pipeline's. -/
structure FieldOpRan (st : EvalState σ) (ps : PipelineState σ) (st' : EvalState σ) : Prop where
  bag : st'.bag = st.bag
  taints : st'.taints = st.taints ++ ps.taints
  constraints : st'.constraints = st.constraints
  world : st'.world = ps.world
  trace : st'.trace = st.trace ++ ps.trace

section
variable (path : String) (stages : List Stage) (st : EvalState σ)

/-- A field operation denies as its rule; it never waits for anyone. -/
theorem dispatchFieldOp_outcome :
    (dispatchFieldOp env phase path stages fallbackSource st).1 = .continue ∨ ∃ reason,
      (dispatchFieldOp env phase path stages fallbackSource st).1 =
        .halt (.deny reason fallbackSource) := by
  unfold dispatchFieldOp
  repeat' split
  all_goals simp

variable {path st} {subpath : String} {current : Json}

/-- Without a field to work on, nothing is run. -/
theorem dispatchFieldOp_skipped (h : fieldOpTarget phase path st = none) :
    (dispatchFieldOp env phase path stages fallbackSource st).2 = st := by
  unfold dispatchFieldOp
  unfold fieldOpTarget at h
  split
  · rfl
  · next hpath =>
    rw [hpath, Option.bind_some] at h
    split
    · rfl
    · next hphase =>
      simp only [if_neg hphase] at h
      split
      · rfl
      · next hroot =>
        rw [hroot, Option.bind_some, Option.map_eq_none_iff] at h
        rw [h]

/-- Otherwise the pipeline is, and the operation goes on only if that does not deny. -/
theorem dispatchFieldOp_ran (h : fieldOpTarget phase path st = some (subpath, current)) :
    let r := evaluatePipeline env.toInvokers ⟨stages⟩ current st.bag st.world subpath phase
    FieldOpRan st r.2 (dispatchFieldOp env phase path stages fallbackSource st).2 ∧
      ((dispatchFieldOp env phase path stages fallbackSource st).1 = .continue →
        ∀ reason i, r.1 ≠ .deny reason i) := by
  obtain ⟨⟨side, sub, sidePhase⟩, hpath, h⟩ := Option.bind_eq_some_iff.mp h
  dsimp only at h
  split at h
  · cases h
  · next hphase =>
    obtain ⟨root, hroot, h⟩ := Option.bind_eq_some_iff.mp h
    obtain ⟨_, hcurrent, heq⟩ := Option.map_eq_some_iff.mp h
    cases heq
    unfold dispatchFieldOp
    simp only [hpath, if_neg hphase, hroot, hcurrent]
    generalize evaluatePipeline env.toInvokers ⟨stages⟩ current st.bag st.world subpath phase = r
    obtain ⟨outcome, ps⟩ := r
    have hran : FieldOpRan st ps { st with
        taints := st.taints ++ ps.taints, world := ps.world, trace := st.trace ++ ps.trace } :=
      ⟨rfl, rfl, rfl, rfl, rfl⟩
    have hput (side : Side) (root : Json) : FieldOpRan st ps (EvalState.putRoot { st with
        taints := st.taints ++ ps.taints, world := ps.world, trace := st.trace ++ ps.trace }
        side root) := by
      cases side <;> exact ⟨rfl, rfl, rfl, rfl, rfl⟩
    cases outcome with
    | pass => exact ⟨hran, by simp⟩
    | replace v | «omit» =>
      dsimp only
      split
      · exact ⟨hput _ _, by simp⟩
      · exact ⟨hran, by simp⟩
    | deny reason i => exact ⟨hran, by simp⟩

variable (path) (st) in
/-- No field operation writes to the bag. -/
theorem dispatchFieldOp_bag :
    (dispatchFieldOp env phase path stages fallbackSource st).2.bag = st.bag := by
  cases htarget : fieldOpTarget phase path st with
  | none => rw [dispatchFieldOp_skipped env phase fallbackSource stages htarget]
  | some target => exact (dispatchFieldOp_ran env phase fallbackSource stages htarget).1.bag

end

/-- What is left by a field rule that has run its pipeline, besides the root. -/
structure FieldRuleRan (fs : FieldPhase σ) (ps : PipelineState σ) (fs' : FieldPhase σ) :
    Prop where
  taints : fs'.taints = fs.taints ++ ps.taints
  world : fs'.world = ps.world
  trace : fs'.trace = fs.trace ++ ps.trace

variable {rule : FieldRule} {fs : FieldPhase σ}

/-- A rule passes over a missing field. -/
theorem runFieldRule_of_none (h : getDotted fs.root rule.field = none) :
    runFieldRule env bag phase rule fs = (none, fs) := by
  rw [runFieldRule, h]

/-- On a field it runs its pipeline, and denies if that does. -/
theorem runFieldRule_ran (bag : AttributeBag) (h : getDotted fs.root rule.field = some current) :
    let r := evaluatePipeline env.toInvokers rule.pipeline current bag fs.world rule.field phase
    FieldRuleRan fs r.2 (runFieldRule env bag phase rule fs).2 ∧
      ((runFieldRule env bag phase rule fs).1 = none → ∀ reason i, r.1 ≠ .deny reason i) := by
  rw [runFieldRule, h]
  dsimp only
  generalize evaluatePipeline env.toInvokers rule.pipeline current bag fs.world rule.field phase = r
  obtain ⟨outcome, ps⟩ := r
  have hran (root : Json) (modified : Bool) : FieldRuleRan fs ps { fs with
      root, modified, taints := fs.taints ++ ps.taints, world := ps.world,
      trace := fs.trace ++ ps.trace } := ⟨rfl, rfl, rfl⟩
  cases outcome with
  | pass => exact ⟨hran _ _, by simp⟩
  | replace v | «omit» =>
    dsimp only
    split <;> exact ⟨hran _ _, by simp⟩
  | deny reason i => exact ⟨hran _ _, by simp⟩

/-! ### The effect tree -/

/-- A run of effects, in order, up to the first that does not continue. -/
inductive Runs : List Effect → EvalState σ → EffectOutcome × EvalState σ → Prop where
  | nil {st} : Runs [] st (.continue, st)
  | cons {e es st st' r} (he : Runs [e] st (.continue, st')) (hes : Runs es st' r) :
      Runs (e :: es) st r
  | stop {e es st r} (he : Runs [e] st r) (hstop : r.1 ≠ .continue) : Runs (e :: es) st r
  | allow {st} : Runs [.allow] st (.continue, st)
  | deny {reason code source st} :
      Runs [.deny reason code] st (.halt (.deny reason source), st.reach (.deny reason code))
  | plugin {name st} : Runs [.plugin name] st (dispatchPlugin env phase name st)
  | delegate {step st} : Runs [.delegate step] st (dispatchDelegate env step st)
  | elicit {step st} : Runs [.elicit step] st (dispatchElicitation env step st)
  | taint {label scopes st} :
      Runs [.taint label scopes] st
        (.continue, { st with taints := st.taints ++ [⟨label, scopes⟩] })
  | restrict {spec source st} : Runs [.restrict spec] st (dispatchRestrict source spec st)
  | fieldOp {path stages source st} :
      Runs [.fieldOp path stages] st (dispatchFieldOp env phase path stages source st)
  | sequential {es st r} (h : Runs es st r) : Runs [.sequential es] st r
  /-- A branch may start in any state. -/
  | parallel {es source st}
      (h : ∀ e ∈ es, ∀ st, Runs [e] st (dispatchEffect env phase source e st)) :
      Runs [.parallel es] st
        (joinParallel env (dispatchBranches env phase source 0 es st) st)
  | when {condition body source st r} (h : Runs body st r) :
      Runs [.when condition body source] st r
  | skip {condition body source st} : Runs [.when condition body source] st (.continue, st)
  | pdpFailed {call onAllow onDeny st e w reason source}
      (hask : env.evaluate st.world call st.bag = (.error e, w)) :
      Runs [.pdp call onAllow onDeny] st
        (.halt (.deny reason source), { st with world := w }.reach (.pdp call (.error e)))
  | pdpAllowed {call onAllow onDeny st result w r}
      (hask : env.evaluate st.world call st.bag = (.ok result, w))
      (hallow : result.decision = .allow)
      (h : Runs onAllow ({ st with world := w }.reach (.pdp call (.ok result))) r) :
      Runs [.pdp call onAllow onDeny] st r
  /-- Reactions that continue end in the deny. -/
  | pdpDenied {call onAllow onDeny st result w reason source st'}
      (hask : env.evaluate st.world call st.bag = (.ok result, w))
      (h : Runs onDeny ({ st with world := w }.reach (.pdp call (.ok result))) (.continue, st')) :
      Runs [.pdp call onAllow onDeny] st (.halt (.deny reason source), st')
  | pdpReacted {call onAllow onDeny st result w r}
      (hask : env.evaluate st.world call st.bag = (.ok result, w))
      (h : Runs onDeny ({ st with world := w }.reach (.pdp call (.ok result))) r)
      (hstop : r.1 ≠ .continue) : Runs [.pdp call onAllow onDeny] st r

mutual

/-- `dispatch_effect` takes one of these ways. -/
theorem dispatchEffect_runs (source : String) (e : Effect) (st : EvalState σ) :
    Runs env phase [e] st (dispatchEffect env phase source e st) := by
  cases e with
  | allow => exact .allow
  | deny reason code => exact .deny
  | plugin name => exact .plugin
  | delegate step => exact .delegate
  | elicit step => exact .elicit
  | taint label scopes => exact .taint
  | restrict spec => exact .restrict
  | fieldOp path stages => exact .fieldOp
  | sequential es => exact .sequential (dispatchAll_runs source es st)
  | parallel es => exact .parallel (forall_mem_runs source es)
  | when condition body source' =>
    rw [dispatchEffect]
    split
    · exact .when (dispatchAll_runs source' body st)
    · exact .skip
  | pdp call onAllow onDeny =>
    rw [dispatchEffect]
    rcases hask : env.evaluate st.world call st.bag with ⟨_ | result, w⟩
    · exact .pdpFailed hask
    · dsimp only
      cases hdecision : result.decision with
      | allow => exact .pdpAllowed hask hdecision (dispatchAll_runs source onAllow _)
      | deny reason ruleSource =>
        have hreact := dispatchAll_runs source onDeny
          (({ st with world := w } : EvalState σ).reach (.pdp call (.ok result)))
        generalize dispatchAll env phase source onDeny _ = r at hreact ⊢
        obtain ⟨_ | _ | _, st'⟩ := r
        · exact .pdpDenied hask hreact
        · exact .pdpReacted hask hreact (by simp)
        · exact .pdpReacted hask hreact (by simp)

/-- Effects of a list are dispatched up to the first that stops. -/
theorem dispatchAll_runs (source : String) (es : List Effect) (st : EvalState σ) :
    Runs env phase es st (dispatchAll env phase source es st) := by
  cases es with
  | nil => exact .nil
  | cons e es =>
    have he := dispatchEffect_runs source e st
    rw [dispatchAll]
    generalize dispatchEffect env phase source e st = r at he ⊢
    obtain ⟨_ | _ | _, st'⟩ := r
    · exact .cons he (dispatchAll_runs source es st')
    · exact .stop he (by simp)
    · exact .stop he (by simp)

theorem forall_mem_runs (source : String) (es : List Effect) :
    ∀ e ∈ es, ∀ st, Runs env phase [e] st (dispatchEffect env phase source e st) := by
  cases es with
  | nil => simp
  | cons e es =>
    exact List.forall_mem_cons.mpr ⟨dispatchEffect_runs source e, forall_mem_runs source es⟩

end

/-- A branch runs its effect. -/
theorem exists_of_mem_dispatchBranches (h : r ∈ dispatchBranches env phase source i es st) :
    ∃ e ∈ es, ∃ j, r = dispatchEffect env phase source e (st.branch env j) := by
  induction es generalizing i with
  | nil => simp [dispatchBranches] at h
  | cons e es ih =>
    rw [dispatchBranches] at h
    rcases List.mem_cons.mp h with rfl | h
    · exact ⟨e, List.mem_cons_self, i, rfl⟩
    · obtain ⟨e', he', hr⟩ := ih h
      exact ⟨e', List.mem_cons_of_mem _ he', hr⟩

/-! ### Phases -/

/-- A phase of a route ran: field rules on some root, and, if none of them denied, effects. -/
inductive PhaseRan (rules : List FieldRule) (effects : List Effect) (st : PhaseState σ)
    (r : RouteDecision × PhaseState σ) : Prop where
  | denied {root : Json} {decision : Decision} {fs : FieldPhase σ}
      (hrules : runFieldRules env st.bag phase rules ⟨root, false, [], st.world, []⟩ =
        (some decision, fs))
      (hreport : r.1.decision = decision ∧ r.1.pending = none)
      (hstate : r.2.world = fs.world ∧ r.2.trace = st.trace ++ fs.trace)
  | ran {root : Json} {fs : FieldPhase σ} {payload : RoutePayload} {eval : StepsEvaluation}
      {es : EvalState σ}
      (hrules : runFieldRules env st.bag phase rules ⟨root, false, [], st.world, []⟩ = (none, fs))
      (heval : evaluateEffects env effects st.bag phase payload fs.world = (eval, es))
      (hreport : r.1.decision = eval.decision ∧ r.1.pending = eval.pending)
      (hstate : r.2.bag = es.bag ∧ r.2.world = es.world ∧
        r.2.trace = st.trace ++ fs.trace ++ es.trace)

/-- The arguments are what the rules of this phase look at. -/
theorem evaluatePre_ran (route : CompiledRoute) (st : PhaseState σ) :
    PhaseRan env .pre route.args route.policy st (evaluatePre env route st) := by
  unfold evaluatePre
  rcases hrules : runFieldRules env st.bag .pre route.args
    ⟨st.payload.args, false, [], st.world, []⟩ with ⟨_ | decision, fs⟩
  · exact .ran hrules rfl ⟨rfl, rfl⟩ ⟨rfl, rfl, rfl⟩
  · exact .denied hrules ⟨rfl, rfl⟩ ⟨rfl, rfl⟩

/-- Without a result, there is nothing for the rules to look at. -/
theorem evaluatePost_ran (route : CompiledRoute) (st : PhaseState σ) :
    ∃ rules, PhaseRan env .post rules route.postPolicy st (evaluatePost env route st) := by
  unfold evaluatePost runResultRules
  cases st.payload.result with
  | none =>
    exact ⟨[], @PhaseRan.ran _ _ _ _ _ _ _ _ .null _ _ _ _ rfl rfl ⟨rfl, rfl⟩ ⟨rfl, rfl, rfl⟩⟩
  | some result =>
    refine ⟨route.result, ?_⟩
    dsimp only
    rcases hrules : runFieldRules env st.bag .post route.result
      ⟨result, false, [], st.world, []⟩ with ⟨_ | decision, fs⟩
    · exact .ran hrules rfl ⟨rfl, rfl⟩ ⟨rfl, rfl, rfl⟩
    · exact .denied hrules ⟨rfl, rfl⟩ ⟨rfl, rfl⟩

/-- The evaluation of a route by a handler is one of its phases. -/
theorem Core.AplRouteHandler.evaluate_ran {η σ τ : Type} (self : Core.AplRouteHandler)
    (host : Core.HandlerHost η σ τ) (plan : Core.RouteDispatchPlan η)
    (payload : Core.MessagePayload) (request : Core.RequestState σ) :
    ∃ phase rules effects, (effects = self.route.policy ∨ effects = self.route.postPolicy) ∧
      PhaseRan (Core.routeEnv host.toRouteHost plan) phase rules effects
        (self.startPhase host payload request) (self.evaluate host plan payload request) := by
  unfold Core.AplRouteHandler.evaluate
  cases self.phase with
  | pre => exact ⟨_, _, _, .inl rfl, evaluatePre_ran _ self.route _⟩
  | post =>
    obtain ⟨rules, hran⟩ := evaluatePost_ran _ self.route _
    exact ⟨_, rules, _, .inr rfl, hran⟩

end

end Cpex
