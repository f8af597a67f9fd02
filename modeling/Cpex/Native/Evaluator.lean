import Cpex.Native.FieldPipeline
import Cpex.Native.Orchestration
import Cpex.Native.Predicate

/-! # The policy evaluator

`evaluate_effects`, `dispatch_effect` and the functions below them
(`apl-core/src/evaluator.rs`). The mutable references of the source are the fields of
`EvalState`, passed from call to call.

A `parallel` block runs on the tokio runtime. `Runtime` is that runtime: it decides the order
in which the branches are joined, subject to `Admissible`, and what each branch sees of the
invokers' state while the others run. -/

namespace Cpex

/-- The payload a route runs on: the arguments, and the result once there is one. -/
structure RoutePayload where
  args : Json
  result : Option Json := none

/-- Outcome of dispatching one effect. -/
inductive EffectOutcome where
  | continue
  | halt (decision : Decision)
  | pending (bundle : PendingElicitation)
  deriving DecidableEq, Repr

/-- What one branch of a `parallel` block returns. -/
structure BranchResult where
  outcome : EffectOutcome
  taints : List TaintEvent
  constraints : List CandidateConstraint

/-- The `is_deny` predicate of `dispatch_parallel`. -/
def BranchResult.isHalt (r : BranchResult) : Bool :=
  match r.outcome with
  | .halt _ => true
  | _ => false

/-- The branch configuration of `dispatch_parallel`. -/
def parallelConfig : BranchConfig := { timeoutPerBranch := none, shortCircuitOnDeny := true }

/-- The runtime the branches of a `parallel` block are spawned on. -/
structure Runtime (σ : Type) where
  /-- The invokers' state as branch `i` sees it. -/
  fork : σ → Nat → σ
  /-- The invokers' state after the block, from the branches' states. -/
  join : σ → List σ → σ
  /-- The joins of a block whose branches return `results` when they complete. -/
  schedule : σ → List BranchResult → List (JoinEvent BranchResult)
  admissible : ∀ world results,
    Admissible parallelConfig BranchResult.isHalt results (schedule world results)

/-- Everything the evaluator is given besides the policy and the request. -/
structure Env (σ : Type) extends Invokers σ where
  runtime : Runtime σ

/-- The mutable state of a phase. `trace` is the record of what was reached. -/
structure EvalState (σ : Type) where
  bag : AttributeBag
  payload : RoutePayload
  taints : List TaintEvent
  constraints : List CandidateConstraint
  argsModified : Bool
  resultModified : Bool
  world : σ
  trace : List Reached

namespace EvalState

variable {σ : Type}

/-- The state a phase starts in. -/
def start (bag : AttributeBag) (payload : RoutePayload) (world : σ) : EvalState σ :=
  { bag, payload, taints := [], constraints := [], argsModified := false,
    resultModified := false, world, trace := [] }

/-- Record that `r` was reached. -/
def reach (st : EvalState σ) (r : Reached) : EvalState σ :=
  { st with trace := st.trace ++ [r] }

end EvalState

section
variable [Platform] {σ : Type}

/-- `Effect::Plugin`. -/
def dispatchPlugin (env : Env σ) (phase : DispatchPhase) (name : String) (st : EvalState σ) :
    EffectOutcome × EvalState σ :=
  let (answer, world) := env.invoke st.world name st.bag (.step phase)
  let st := { st with world }.reach (.plugin name answer)
  match answer with
  | .ok outcome =>
    let st := { st with taints := st.taints ++ outcome.taints }
    match outcome.decision with
    | .allow => (.continue, st)
    | .deny reason ruleSource => (.halt (.deny reason ruleSource), st)
  | .error e =>
    (.halt (.deny (some ("plugin `" ++ name ++ "` error: " ++ e.toText)) s!"plugin:{name}"), st)

/-- The step's `on_error`, `deny` when it has none, is `continue`. -/
def DelegateStep.onErrorContinue (step : DelegateStep) : Bool :=
  Text.toAsciiLowercase (step.onError.getD "deny") == "continue"

/-- The bag writes after a delegation was granted. -/
def recordGrant (bag : AttributeBag) (outcome : DelegationOutcome) : AttributeBag :=
  let bag := bag.set DelegationBagKeys.granted (.bool true)
  let bag :=
    if outcome.grantedPermissions.isEmpty then bag
    else bag.set DelegationBagKeys.grantedPermissions
      (.stringSet outcome.grantedPermissions.toFinset)
  let bag := bag.setOpt DelegationBagKeys.grantedAudience outcome.grantedAudience
  bag.setOpt DelegationBagKeys.grantedExpiresAt outcome.grantedExpiresAt

/-- `Effect::Delegate`. -/
def dispatchDelegate (env : Env σ) (step : DelegateStep) (st : EvalState σ) :
    EffectOutcome × EvalState σ :=
  let (answer, world) := env.delegate st.world step
  let st := { st with world }.reach (.delegate step answer)
  match answer with
  | .ok outcome =>
    match outcome.decision with
    | .allow => (.continue, { st with bag := recordGrant st.bag outcome })
    | .deny _ _ =>
      if step.onErrorContinue then (.continue, st) else (.halt outcome.decision, st)
  | .error e =>
    if step.onErrorContinue then (.continue, st)
    else (.halt (.deny (some ("delegate `" ++ step.pluginName ++ "` error: " ++ e.toText))
      step.source), st)

/-- `Effect::Restrict`. -/
def dispatchRestrict (fallbackSource : String) (spec : RestrictSpec) (st : EvalState σ) :
    EffectOutcome × EvalState σ :=
  let answer := spec.resolve st.bag
  let st := st.reach (.restrict spec answer)
  match answer with
  | .ok c =>
    (.continue, if c.isEmpty then st else { st with constraints := st.constraints ++ [c] })
  | .error e => (.halt (.deny (some e.toText) fallbackSource), st)

/-! ### Elicitation -/

/-- The step's `on_error`, `deny` when it has none, is `continue`. -/
def ElicitStep.onErrorContinue (step : ElicitStep) : Bool :=
  Text.eqIgnoreAsciiCase (step.onError.getD "deny") "continue"

/-- The closure `fail` of `dispatch_elicitation`. -/
def ElicitStep.fail (step : ElicitStep) (reason : String) : EffectOutcome :=
  if step.onErrorContinue then .continue else .halt (.deny (some reason) step.source)

/-- Who is asked: the value of `from` in the bag, or `from` itself when it is not a path. -/
def ElicitStep.resolvedFrom (step : ElicitStep) (bag : AttributeBag) : Option String :=
  match bag.getString step.from with
  | some v => some v
  | none => if looksLikeAttributeRef step.from then none else some step.from

/-- The bag writes after an elicitation was dispatched. -/
def recordDispatch (step : ElicitStep) (bag : AttributeBag) (d : ElicitationDispatch) :
    AttributeBag :=
  let bag := bag.set ElicitationBagKeys.id (.string d.id)
  let bag := bag.set ElicitationBagKeys.status (.string "pending")
  let bag := bag.setOpt ElicitationBagKeys.channel step.channel
  let bag := bag.setOpt ElicitationBagKeys.approver d.approver
  let bag := bag.setOpt ElicitationBagKeys.intentId d.intentId
  bag.setOpt ElicitationBagKeys.expiresAt d.expiresAt

/-- `scope` over the live bag: `none` when it holds or there is none, else the failure text. -/
def ElicitStep.scopeFailure (step : ElicitStep) (bag : AttributeBag) : Option String :=
  match step.scope with
  | none => none
  | some scopeSrc =>
    match parsePredicate scopeSrc with
    | .ok expr =>
      if evalExpression bag expr then none
      else some s!"elicitation scope not satisfied: `{scopeSrc}`"
    | .error e =>
      some ("elicitation scope `" ++ scopeSrc ++ "` failed to parse: " ++ e.toText)

/-- The bag writes after an approval was accepted. -/
def recordApproval (bag : AttributeBag) (v : ElicitationValidation) : AttributeBag :=
  let bag := bag.set ElicitationBagKeys.status (.string "resolved")
  let bag := bag.set ElicitationBagKeys.outcome (.string "approved")
  let bag := bag.setOpt ElicitationBagKeys.approver v.approver
  bag.setOpt ElicitationBagKeys.intentId v.intentId

/-- The approved branch of `dispatch_elicitation`: validate the answer, then check `scope`. -/
def acceptApproval (env : Env σ) (step : ElicitStep) (id : String)
    (dispatched : Option (Except ElicitationError ElicitationDispatch)) (st : EvalState σ) :
    EffectOutcome × EvalState σ :=
  let (answer, world) := env.validate st.world step id
  let st := { st with world }.reach
    (.elicit step true dispatched (some (.ok (.resolved .approved))) (some answer) st.bag)
  match answer with
  | .error e => (step.fail ("elicitation validation failed: " ++ e.toText), st)
  | .ok v =>
    if v.valid then
      match step.scopeFailure st.bag with
      | some why => (step.fail why, st)
      | none => (.continue, { st with bag := recordApproval st.bag v })
    else
      (step.fail ("elicitation invalid: " ++ v.reason.getD "response failed validation"), st)

/-- `dispatch_elicitation` once the elicitation has an id. -/
def checkElicitation (env : Env σ) (step : ElicitStep) (id : String)
    (dispatched : Option (Except ElicitationError ElicitationDispatch)) (st : EvalState σ) :
    EffectOutcome × EvalState σ :=
  let (answer, world) := env.check st.world step id
  let st := { st with world }
  let reached := st.reach (.elicit step true dispatched (some answer) none st.bag)
  let status (s : String) := st.bag.set ElicitationBagKeys.status (.string s)
  match answer with
  | .error e => (step.fail ("elicitation check failed: " ++ e.toText), reached)
  | .ok .pending =>
    let bag := status "pending"
    (.pending
      { id
        pluginName := step.pluginName
        approver := bag.getString ElicitationBagKeys.approver
        intentId := bag.getString ElicitationBagKeys.intentId
        channel := step.channel
        expiresAt := bag.getString ElicitationBagKeys.expiresAt
        source := step.source },
      { reached with bag })
  | .ok .expired =>
    (step.fail "elicitation expired before a response", { reached with bag := status "expired" })
  -- A human "no" halts whatever `on_error` says.
  | .ok (.resolved .denied) =>
    (.halt (.deny (some "elicitation denied by approver") step.source),
      { reached with bag := (status "resolved").set ElicitationBagKeys.outcome (.string "denied") })
  | .ok (.resolved .approved) => acceptApproval env step id dispatched st

/-- The first arrival at an elicitation: send it out, then check on it. -/
def sendElicitation (env : Env σ) (step : ElicitStep) (resolvedFrom : String)
    (st : EvalState σ) : EffectOutcome × EvalState σ :=
  let (answer, world) := env.dispatch st.world step resolvedFrom
  let st := { st with world }
  match answer with
  | .error e =>
    (step.fail ("elicitation dispatch failed: " ++ e.toText),
      st.reach (.elicit step true (some answer) none none st.bag))
  | .ok d =>
    checkElicitation env step d.id (some answer) { st with bag := recordDispatch step st.bag d }

/-- `dispatch_elicitation`. -/
def dispatchElicitation (env : Env σ) (step : ElicitStep) (st : EvalState σ) :
    EffectOutcome × EvalState σ :=
  match step.resolvedFrom st.bag with
  | none =>
    (step.fail ("elicitation `from` attribute `" ++ step.from ++
        "` did not resolve to an identity"),
      st.reach (.elicit step false none none none st.bag))
  | some resolvedFrom =>
    match st.bag.getString ElicitationBagKeys.id with
    -- A retry echoes the id of the first arrival.
    | some existing => checkElicitation env step existing none st
    | none => sendElicitation env step resolvedFrom st

/-! ### Field operations -/

/-- The side of the payload a field operation addresses. -/
inductive Side where
  | args
  | result
  deriving DecidableEq, Repr

/-- The value at the root of a side. -/
def RoutePayload.root (payload : RoutePayload) : Side → Option Json
  | .args => some payload.args
  | .result => payload.result

/-- Write back the root of a side and mark it modified. -/
def EvalState.putRoot (st : EvalState σ) (side : Side) (root : Json) : EvalState σ :=
  match side with
  | .args => { st with payload := { st.payload with args := root }, argsModified := true }
  | .result =>
    { st with payload := { st.payload with result := some root }, resultModified := true }

/-- The side and the path below it that `path` addresses, and the phase that side belongs to. -/
def splitFieldPath (path : String) : Option (Side × String × DispatchPhase) :=
  match Text.stripStart path "args." with
  | some rest => some (.args, rest, .pre)
  | none =>
    match Text.stripStart path "result." with
    | some rest => some (.result, rest, .post)
    | none => none

/-- `dispatch_field_op`. -/
def dispatchFieldOp (env : Env σ) (phase : DispatchPhase) (path : String) (stages : List Stage)
    (fallbackSource : String) (st : EvalState σ) : EffectOutcome × EvalState σ :=
  match splitFieldPath path with
  | none =>
    (.halt (.deny (some s!"FieldOp path `{path}` must start with `args.` or `result.`")
      fallbackSource), st)
  | some (side, subpath, sidePhase) =>
    -- Out-of-phase operations and missing fields are silent no-ops.
    if phase ≠ sidePhase then (.continue, st)
    else match st.payload.root side with
      | none => (.continue, st)
      | some root =>
        match getDotted root subpath with
        | none => (.continue, st)
        | some current =>
          let (outcome, ps) :=
            evaluatePipeline env.toInvokers ⟨stages⟩ current st.bag st.world subpath phase
          let st :=
            { st with
              taints := st.taints ++ ps.taints
              world := ps.world
              trace := st.trace ++ ps.trace }
          match outcome with
          | .pass => (.continue, st)
          | .replace v =>
            match setDotted root subpath v with
            | some root => (.continue, st.putRoot side root)
            | none => (.continue, st)
          | .omit =>
            match removeDotted root subpath with
            | some root => (.continue, st.putRoot side root)
            | none => (.continue, st)
          | .deny reason _ => (.halt (.deny (some reason) fallbackSource), st)

/-! ### The effect tree -/

/-- The state branch `i` of a `parallel` block starts in: its own copies of the bag and the
    payload, and empty accumulators. -/
def EvalState.branch (env : Env σ) (st : EvalState σ) (i : Nat) : EvalState σ :=
  EvalState.start st.bag st.payload (env.runtime.fork st.world i)

/-- What a branch returns to `run_branches`. -/
def branchResult (r : EffectOutcome × EvalState σ) : BranchResult :=
  ⟨r.1, r.2.taints, r.2.constraints⟩

/-- One iteration of the aggregation loop of `dispatch_parallel`: taints and constraints of
    completed branches are appended, and the first halt in input order is kept. -/
def aggregateStep (acc : Option Decision × List TaintEvent × List CandidateConstraint) :
    BranchOutcome BranchResult → Option Decision × List TaintEvent × List CandidateConstraint
  | .completed r =>
    let firstHalt := match acc.1, r.outcome with
      | none, .halt d => some d
      | firstHalt, _ => firstHalt
    (firstHalt, acc.2.1 ++ r.taints, acc.2.2 ++ r.constraints)
  -- Aborted, timed out and panicked branches leave no trace in the block's result.
  | _ => acc

/-- The record of a panicked task. -/
def JoinEvent.panicRecord : JoinEvent BranchResult → Option Reached
  | .panicked _ payload => some (.panicked payload)
  | _ => none

/-- The body of `dispatch_parallel`, given what each branch does on its own. The branches'
    records are all kept, also those of branches that are cut short, with one for each
    panicked task. -/
def joinParallel (env : Env σ) (branches : List (EffectOutcome × EvalState σ))
    (st : EvalState σ) : EffectOutcome × EvalState σ :=
  if branches.isEmpty then (.continue, st)
  else
    let results := branches.map branchResult
    let events := env.runtime.schedule st.world results
    let outcomes := runBranches results.length parallelConfig BranchResult.isHalt events
    let (firstHalt, taints, constraints) :=
      outcomes.foldl aggregateStep (none, st.taints, st.constraints)
    let st :=
      { st with
        taints
        constraints
        world := env.runtime.join st.world (branches.map (·.2.world))
        trace := st.trace ++ (branches.map (·.2.trace)).flatten ++
          events.filterMap JoinEvent.panicRecord }
    match firstHalt with
    | some d => (.halt d, st)
    | none => (.continue, st)

mutual

/-- `dispatch_effect`. -/
def dispatchEffect (env : Env σ) (phase : DispatchPhase) (fallbackSource : String) :
    Effect → EvalState σ → EffectOutcome × EvalState σ
  | .allow, st => (.continue, st)
  | .deny reason code, st =>
    (.halt (.deny reason (code.getD fallbackSource)), st.reach (.deny reason code))
  | .plugin name, st => dispatchPlugin env phase name st
  | .delegate step, st => dispatchDelegate env step st
  | .elicit step, st => dispatchElicitation env step st
  | .taint label scopes, st =>
    (.continue, { st with taints := st.taints ++ [⟨label, scopes⟩] })
  | .restrict spec, st => dispatchRestrict fallbackSource spec st
  | .fieldOp path stages, st => dispatchFieldOp env phase path stages fallbackSource st
  | .sequential effects, st => dispatchAll env phase fallbackSource effects st
  | .parallel effects, st =>
    joinParallel env (dispatchBranches env phase fallbackSource 0 effects st) st
  | .when condition body source, st =>
    if evalExpression st.bag condition then dispatchAll env phase source body st
    else (.continue, st)
  | .pdp call onAllow onDeny, st =>
    let (answer, world) := env.evaluate st.world call st.bag
    let st := { st with world }.reach (.pdp call answer)
    match answer with
    | .ok result =>
      match result.decision with
      | .allow => dispatchAll env phase fallbackSource onAllow st
      | .deny reason ruleSource =>
        -- Reactions may replace the deny, never turn it into an allow.
        match dispatchAll env phase fallbackSource onDeny st with
        | (.continue, st) => (.halt (.deny reason ruleSource), st)
        | other => other
    | .error e =>
      (.halt (.deny (some ("PDP error: " ++ e.toText)) ("pdp:" ++ call.dialect.debug)), st)

/-- The walk of an effect list: stop at the first outcome that is not `Continue`. -/
def dispatchAll (env : Env σ) (phase : DispatchPhase) (fallbackSource : String) :
    List Effect → EvalState σ → EffectOutcome × EvalState σ
  | [], st => (.continue, st)
  | e :: es, st =>
    match dispatchEffect env phase fallbackSource e st with
    | (.continue, st) => dispatchAll env phase fallbackSource es st
    | other => other

/-- What each branch of a `parallel` block does on its own, from branch `i` on. -/
def dispatchBranches (env : Env σ) (phase : DispatchPhase) (fallbackSource : String) (i : Nat) :
    List Effect → EvalState σ → List (EffectOutcome × EvalState σ)
  | [], _ => []
  | e :: es, st =>
    dispatchEffect env phase fallbackSource e (st.branch env i) ::
      dispatchBranches env phase fallbackSource (i + 1) es st

end

/-- `dispatch_parallel`. -/
def dispatchParallel (env : Env σ) (phase : DispatchPhase) (fallbackSource : String)
    (effects : List Effect) (st : EvalState σ) : EffectOutcome × EvalState σ :=
  joinParallel env (dispatchBranches env phase fallbackSource 0 effects st) st

/-- The fallback source of a top-level effect. -/
def Effect.topSource : Effect → String
  | .when _ _ source => source
  | _ => ""

/-- The loop of `evaluate_effects`. -/
def evaluateLoop (env : Env σ) (phase : DispatchPhase) :
    List Effect → EvalState σ → EffectOutcome × EvalState σ
  | [], st => (.continue, st)
  | e :: es, st =>
    match dispatchEffect env phase e.topSource e st with
    | (.continue, st) => evaluateLoop env phase es st
    | other => other

/-- `StepsEvaluation`. -/
structure StepsEvaluation where
  decision : Decision
  taints : List TaintEvent
  constraints : List CandidateConstraint
  argsModified : Bool
  resultModified : Bool
  pending : Option PendingElicitation

/-- `evaluate_effects`: the evaluation, and the final bag, payload, world and record. -/
def evaluateEffects (env : Env σ) (effects : List Effect) (bag : AttributeBag)
    (phase : DispatchPhase) (payload : RoutePayload) (world : σ) :
    StepsEvaluation × EvalState σ :=
  let (outcome, st) := evaluateLoop env phase effects (.start bag payload world)
  let (decision, pending) := match outcome with
    | .continue => (Decision.allow, none)
    | .halt decision => (decision, none)
    -- A suspended phase is not a deny: the host looks at `pending`.
    | .pending bundle => (.allow, some bundle)
  ({ decision, taints := st.taints, constraints := st.constraints,
     argsModified := st.argsModified, resultModified := st.resultModified, pending }, st)

/-! ### The synchronous fast path -/

/-- The inner loop of `evaluate_rules`: the first deny of a rule that fires. Effects that need the
    invokers are skipped. -/
def Rule.denies (rule : Rule) : List Effect → Option Decision
  | [] => none
  | .deny reason code :: _ => some (.deny reason (code.getD rule.source))
  | _ :: effects => rule.denies effects

/-- `evaluate_rules`. -/
def evaluateRules (rules : List Rule) (bag : AttributeBag) : Decision :=
  match rules with
  | [] => .allow
  | rule :: rules =>
    if evalExpression bag rule.condition then
      match rule.denies rule.effects with
      | some decision => decision
      | none => evaluateRules rules bag
    else evaluateRules rules bag

end

end Cpex
