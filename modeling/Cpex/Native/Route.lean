import Cpex.Native.Evaluator

/-! # Route phases

`apl-core/src/route.rs`: the phases of a compiled route, `args` and `policy` before the
invocation, `result` and `post_policy` after it; and the layering of compiled routes
(`CompiledRoute::apply_layer`, `rules.rs`). -/

namespace Cpex

/-- A plugin's per-route overrides. -/
structure PluginOverride where
  config : Option Yaml := none
  capabilities : Option (List String) := none
  onError : Option String := none

/-- The host's response to a deny of this route. -/
structure DenyResponse where
  status : Option Nat := none
  body : Option String := none
  headers : List (String × String) := []
  deriving DecidableEq, Repr

/-- A route's compiled policy. -/
structure CompiledRoute where
  routeKey : String
  args : List FieldRule := []
  policy : List Effect := []
  result : List FieldRule := []
  postPolicy : List Effect := []
  pluginOverrides : HashMap String PluginOverride := ∅
  response : Option DenyResponse := none

namespace CompiledRoute

/-- `CompiledRoute::new`. -/
def new (routeKey : String) : CompiledRoute := { routeKey }

/-- `declared_phases().is_empty()`: no phase has anything to run. -/
def declaresNothing (r : CompiledRoute) : Bool :=
  r.args.isEmpty && r.policy.isEmpty && r.result.isEmpty && r.postPolicy.isEmpty

/-- Field rules of a broader layer under those of a more specific one: a field that both
    declare is taken from the more specific layer. -/
def layerFields (base moreSpecific : List FieldRule) : List FieldRule :=
  base.filter (fun f => !(moreSpecific.map FieldRule.field).contains f.field) ++ moreSpecific

/-- `HashMap::extend`: later entries overwrite. -/
def extendMap {ν : Type} (base more : HashMap String ν) : HashMap String ν :=
  more.entries.foldl (fun m e => m.insert e.1 e.2) base

/-- `CompiledRoute::apply_layer`. The response and the key are not layered. -/
def applyLayer (base moreSpecific : CompiledRoute) : CompiledRoute :=
  { base with
    policy := base.policy ++ moreSpecific.policy
    postPolicy := base.postPolicy ++ moreSpecific.postPolicy
    args := layerFields base.args moreSpecific.args
    result := layerFields base.result moreSpecific.result
    pluginOverrides := extendMap base.pluginOverrides moreSpecific.pluginOverrides }

end CompiledRoute

/-- `RouteDecision`. -/
structure RouteDecision where
  decision : Decision
  taints : List TaintEvent
  constraints : List CandidateConstraint
  argsModified : Bool
  resultModified : Bool
  pending : Option PendingElicitation

section
variable [Platform] {σ : Type}

/-- The variables of a field phase: the JSON root the rules rewrite, and what they emit. -/
structure FieldPhase (σ : Type) where
  root : Json
  modified : Bool
  taints : List TaintEvent
  world : σ
  trace : List Reached

/-- One iteration of the `args:` and `result:` loops. `some` decision ends the phase. -/
def runFieldRule (env : Env σ) (bag : AttributeBag) (phase : DispatchPhase) (rule : FieldRule)
    (fs : FieldPhase σ) : Option Decision × FieldPhase σ :=
  match getDotted fs.root rule.field with
  | none => (none, fs)
  | some current =>
    let (outcome, ps) :=
      evaluatePipeline env.toInvokers rule.pipeline current bag fs.world rule.field phase
    let fs :=
      { fs with
        taints := fs.taints ++ ps.taints
        world := ps.world
        trace := fs.trace ++ ps.trace }
    match outcome with
    | .pass => (none, fs)
    | .replace v =>
      match setDotted fs.root rule.field v with
      | some root => (none, { fs with root, modified := true })
      | none => (none, fs)
    | .omit =>
      match removeDotted fs.root rule.field with
      | some root => (none, { fs with root, modified := true })
      | none => (none, fs)
    | .deny reason _ => (some (.deny (some reason) rule.source), fs)

/-- The loop over the field rules of a phase. -/
def runFieldRules (env : Env σ) (bag : AttributeBag) (phase : DispatchPhase) :
    List FieldRule → FieldPhase σ → Option Decision × FieldPhase σ
  | [], fs => (none, fs)
  | rule :: rules, fs =>
    match runFieldRule env bag phase rule fs with
    | (some d, fs) => (some d, fs)
    | (none, fs) => runFieldRules env bag phase rules fs

/-- What a phase leaves behind for the next one. -/
structure PhaseState (σ : Type) where
  bag : AttributeBag
  payload : RoutePayload
  world : σ
  trace : List Reached

/-- `evaluate_pre`. -/
def evaluatePre (env : Env σ) (route : CompiledRoute) (st : PhaseState σ) :
    RouteDecision × PhaseState σ :=
  let (denied, fs) := runFieldRules env st.bag .pre route.args
    ⟨st.payload.args, false, [], st.world, []⟩
  let payload := { st.payload with args := fs.root }
  match denied with
  | some decision =>
    ({ decision, taints := fs.taints, constraints := [], argsModified := fs.modified,
       resultModified := false, pending := none },
      { st with payload, world := fs.world, trace := st.trace ++ fs.trace })
  | none =>
    let (eval, es) := evaluateEffects env route.policy st.bag .pre payload fs.world
    ({ decision := eval.decision
       taints := fs.taints ++ eval.taints
       constraints := eval.constraints
       argsModified := fs.modified || eval.argsModified
       resultModified := false
       pending := eval.pending },
      ⟨es.bag, es.payload, es.world, st.trace ++ fs.trace ++ es.trace⟩)

/-- The `result:` loop of `evaluate_post`: nothing runs while there is no result. -/
def runResultRules (env : Env σ) (route : CompiledRoute) (st : PhaseState σ) :
    Option Decision × RoutePayload × FieldPhase σ :=
  match st.payload.result with
  | none => (none, st.payload, ⟨.null, false, [], st.world, []⟩)
  | some result =>
    let (denied, fs) := runFieldRules env st.bag .post route.result
      ⟨result, false, [], st.world, []⟩
    (denied, { st.payload with result := some fs.root }, fs)

/-- `evaluate_post`. -/
def evaluatePost (env : Env σ) (route : CompiledRoute) (st : PhaseState σ) :
    RouteDecision × PhaseState σ :=
  let (denied, payload, fs) := runResultRules env route st
  match denied with
  | some decision =>
    ({ decision, taints := fs.taints, constraints := [], argsModified := false,
       resultModified := fs.modified, pending := none },
      { st with payload, world := fs.world, trace := st.trace ++ fs.trace })
  | none =>
    let (eval, es) := evaluateEffects env route.postPolicy st.bag .post payload fs.world
    ({ decision := eval.decision
       taints := fs.taints ++ eval.taints
       constraints := eval.constraints
       argsModified := false
       resultModified := fs.modified || eval.resultModified
       pending := eval.pending },
      ⟨es.bag, es.payload, es.world, st.trace ++ fs.trace ++ es.trace⟩)

/-- `evaluate_route`: the invocation's phases in order, stopping before the invocation on a
    deny or a suspended elicitation. -/
def evaluateRoute (env : Env σ) (route : CompiledRoute) (st : PhaseState σ) :
    RouteDecision × PhaseState σ :=
  let (pre, st) := evaluatePre env route st
  if pre.decision ≠ .allow ∨ pre.pending.isSome then (pre, st)
  else
    let (post, st) := evaluatePost env route st
    ({ decision := post.decision
       taints := pre.taints ++ post.taints
       constraints := pre.constraints ++ post.constraints
       argsModified := pre.argsModified
       resultModified := post.resultModified
       pending := post.pending }, st)

end

end Cpex
