import Cpex.Spec.ParallelBlock

/-! # Lists of effects

A list of effects is walked in two places: by `evaluate_effects` at the top of a phase, and by
`dispatch_effect` inside of other effects. The walks are the same, up to the source that a deny
without a code is attributed to, and a walk over two lists in a row is a walk over one. So a
`sequential` block can be written out where it stands.

What an evaluation does to the state, it does at the effects without a body that it gets to. So a
property of the states before and after is shown for those effects, and holds of whole phases.

`evaluate_rules` is a third interpreter, of rules that only allow and deny.
-/

namespace Cpex

section
variable [Platform] {σ : Type} (env : Env σ) (phase : DispatchPhase)

/-! ### Walks -/

/-- Only `when` has a source at the top, and it goes by its own in any case. -/
theorem dispatchEffect_topSource :
    dispatchEffect env phase e.topSource e st = dispatchEffect env phase "" e st := by
  cases e with
  | when condition body source => rw [dispatchEffect, dispatchEffect]
  | _ => rfl

/-- The top of a phase is a walk without a source. -/
theorem evaluateLoop_eq_dispatchAll :
    evaluateLoop env phase es st = dispatchAll env phase "" es st := by
  induction es generalizing st with
  | nil => rw [evaluateLoop, dispatchAll]
  | cons e es ih =>
    rw [evaluateLoop, dispatchAll, dispatchEffect_topSource]
    simp only [ih]

theorem evaluateLoop_runs (es : List Effect) (st : EvalState σ) :
    Runs env phase es st (evaluateLoop env phase es st) := by
  rw [evaluateLoop_eq_dispatchAll]
  exact dispatchAll_runs env phase "" es st

/-- A walk goes on with the second list if the first lets it. -/
theorem dispatchAll_append (fallbackSource : String) (es fs : List Effect) (st : EvalState σ) :
    dispatchAll env phase fallbackSource (es ++ fs) st =
      match dispatchAll env phase fallbackSource es st with
      | (.continue, st) => dispatchAll env phase fallbackSource fs st
      | other => other := by
  induction es generalizing st with
  | nil => rw [List.nil_append, dispatchAll]
  | cons e es ih =>
    rw [List.cons_append, dispatchAll, dispatchAll]
    generalize dispatchEffect env phase fallbackSource e st = r
    obtain ⟨outcome, st'⟩ := r
    cases outcome with
    | «continue» => exact ih st'
    | halt decision => rfl
    | pending bundle => rfl

/-- A block in a list can be written out. -/
theorem dispatchAll_sequential :
    dispatchAll env phase fallbackSource (before ++ .sequential es :: after) st =
      dispatchAll env phase fallbackSource (before ++ es ++ after) st := by
  -- A block at the head: its own walk is the first half of the walk over both lists.
  have hblock (st : EvalState σ) :
      dispatchAll env phase fallbackSource (.sequential es :: after) st =
        dispatchAll env phase fallbackSource (es ++ after) st := by
    exact (dispatchAll_append env phase fallbackSource es after st).symm
  rw [List.append_assoc, dispatchAll_append, dispatchAll_append]
  simp only [hblock]

/-! ### Grouping -/

/-- Grouping with `sequential` changes nothing, neither in the list of a phase nor in the body of a
    `when` of it. The invokers may answer by all that they were asked before, and end in the same
    state. -/
theorem evaluateEffects_sequential (before es after : List Effect) (bag : AttributeBag)
    (payload : RoutePayload) (world : σ) :
    evaluateEffects env (before ++ .sequential es :: after) bag phase payload world =
        evaluateEffects env (before ++ es ++ after) bag phase payload world ∧
      ∀ (condition : Expression) (source : String) (outer outer' : List Effect),
        evaluateEffects env
            (outer ++ .when condition (before ++ .sequential es :: after) source :: outer')
            bag phase payload world =
          evaluateEffects env (outer ++ .when condition (before ++ es ++ after) source :: outer')
            bag phase payload world := by
  have hwhen (condition : Expression) (source : String) (outer' : List Effect)
      (st : EvalState σ) :
      dispatchAll env phase ""
          (.when condition (before ++ .sequential es :: after) source :: outer') st =
        dispatchAll env phase "" (.when condition (before ++ es ++ after) source :: outer') st := by
    rw [dispatchAll, dispatchAll, dispatchEffect, dispatchEffect, dispatchAll_sequential]
  simp only [evaluateEffects, evaluateLoop_eq_dispatchAll]
  refine ⟨by rw [dispatchAll_sequential], fun condition source outer outer' => ?_⟩
  rw [dispatchAll_append, dispatchAll_append]
  simp only [hwhen]

/-! ### What an evaluation gets to -/

/-- An effect without a body, and the state it is dispatched in. -/
abbrev Visit (σ : Type) := Effect × EvalState σ

mutual

/-- The effects without a body that the evaluation of an effect gets to, in order. -/
def Effect.visits (fallbackSource : String) : Effect → EvalState σ → List (Visit σ)
  | .sequential effects, st => Effect.allVisits fallbackSource effects st
  | .parallel effects, st => Effect.branchVisits fallbackSource 0 effects st
  | .when condition body source, st =>
    if evalExpression st.bag condition then Effect.allVisits source body st else []
  | .pdp call onAllow onDeny, st =>
    let (answer, world) := env.evaluate st.world call st.bag
    let st := ({ st with world } : EvalState σ).reach (.pdp call answer)
    match answer with
    | .ok result =>
      match result.decision with
      | .allow => Effect.allVisits fallbackSource onAllow st
      | .deny _ _ => Effect.allVisits fallbackSource onDeny st
    | .error _ => []
  | e, st => [(e, st)]

/-- The same for a list of effects, each dispatched after those before it continued. -/
def Effect.allVisits (fallbackSource : String) : List Effect → EvalState σ → List (Visit σ)
  | [], _ => []
  | e :: es, st =>
    e.visits fallbackSource st ++
      match dispatchEffect env phase fallbackSource e st with
      | (.continue, st) => Effect.allVisits fallbackSource es st
      | _ => []

/-- The same for the branches of a block, from branch `i` on. -/
def Effect.branchVisits (fallbackSource : String) (i : Nat) :
    List Effect → EvalState σ → List (Visit σ)
  | [], _ => []
  | e :: es, st =>
    e.visits fallbackSource (st.branch env i) ++
      Effect.branchVisits fallbackSource (i + 1) es st

end

/-- The effect has a body. -/
def Effect.hasBody : Effect → Bool
  | .sequential _ | .parallel _ | .when _ _ _ | .pdp _ _ _ => true
  | _ => false

/-- A relation between what is visited and the states before and after that all steps of an
    evaluation of the nodes keep. -/
structure KeptBySteps (nodes : List Effect)
    (R : List (Visit σ) → EvalState σ → EvalState σ → Prop) : Prop where
  refl : ∀ st, R [] st st
  append : ∀ {vs vs' st st' st''}, R vs st st' → R vs' st' st'' → R (vs ++ vs') st st''
  leaf : ∀ e ∈ nodes, e.hasBody = false → ∀ source st,
    R [(e, st)] st (dispatchEffect env phase source e st).2
  call : ∀ call answer world st,
    R [] st (({ st with world } : EvalState σ).reach (.pdp call answer))
  parallel : ∀ es, .parallel es ∈ nodes → ∀ source st,
    (∀ e ∈ es, ∀ st, R (e.visits env phase source st) st
      (dispatchEffect env phase source e st).2) →
      R (Effect.branchVisits env phase source 0 es st) st
        (joinParallel env (dispatchBranches env phase source 0 es st) st).2

namespace KeptBySteps

variable {env phase} {nodes : List Effect} {R : List (Visit σ) → EvalState σ → EvalState σ → Prop}

mutual

/-- What the steps keep, the evaluation of an effect keeps. The induction is on the effect tree. -/
theorem effect (h : KeptBySteps env phase nodes R) (source : String) (e : Effect)
    (hsub : Core.effectNodes e ⊆ nodes) (st : EvalState σ) :
    R (e.visits env phase source st) st (dispatchEffect env phase source e st).2 := by
  cases e with
  | sequential es => exact h.effects source es (List.cons_subset.mp hsub).2 st
  | parallel es =>
    obtain ⟨hself, hbody⟩ := List.cons_subset.mp hsub
    exact h.parallel es hself source st (h.branches source es hbody)
  | when condition body source' =>
    rw [dispatchEffect, Effect.visits]
    split
    · exact h.effects source' body (List.cons_subset.mp hsub).2 st
    · exact h.refl st
  | pdp call onAllow onDeny =>
    obtain ⟨hallow, hdeny⟩ := List.append_subset.mp (List.cons_subset.mp hsub).2
    rw [dispatchEffect, Effect.visits]
    obtain ⟨answer, world⟩ := env.evaluate st.world call st.bag
    have hcall := h.call call answer world st
    cases answer with
    | error e => exact hcall
    | ok result =>
      dsimp only
      cases result.decision with
      | allow => exact h.append hcall (h.effects source onAllow hallow _)
      | deny reason ruleSource =>
        have hreact := h.append hcall (h.effects source onDeny hdeny _)
        dsimp only
        split
        · -- Reactions that continue end in the deny, in the state they left.
          rename_i heq
          rw [heq] at hreact
          exact hreact
        · exact hreact
  | _ => exact h.leaf _ (hsub (List.mem_singleton_self _)) rfl source st

theorem effects (h : KeptBySteps env phase nodes R) (source : String) (es : List Effect)
    (hsub : Core.walkEffects es ⊆ nodes) (st : EvalState σ) :
    R (Effect.allVisits env phase source es st) st (dispatchAll env phase source es st).2 := by
  cases es with
  | nil => exact h.refl st
  | cons e es =>
    obtain ⟨hfirst, hrest⟩ := List.append_subset.mp hsub
    have he := h.effect source e hfirst st
    rw [dispatchAll, Effect.allVisits]
    generalize dispatchEffect env phase source e st = r at he ⊢
    obtain ⟨outcome, st'⟩ := r
    cases outcome with
    | «continue» => exact h.append he (h.effects source es hrest st')
    -- The walk ends here, and so do the visits.
    | halt decision => exact h.append he (h.refl st')
    | pending bundle => exact h.append he (h.refl st')

theorem branches (h : KeptBySteps env phase nodes R) (source : String) (es : List Effect)
    (hsub : Core.walkEffects es ⊆ nodes) :
    ∀ e ∈ es, ∀ st, R (e.visits env phase source st) st
      (dispatchEffect env phase source e st).2 := by
  cases es with
  | nil => exact List.forall_mem_nil _
  | cons e es =>
    obtain ⟨hfirst, hrest⟩ := List.append_subset.mp hsub
    exact List.forall_mem_cons.mpr ⟨h.effect source e hfirst, h.branches source es hrest⟩

end

/-- What the steps keep, the loop of a phase keeps. -/
theorem loop (h : KeptBySteps env phase nodes R) (es : List Effect)
    (hsub : Core.walkEffects es ⊆ nodes) (st : EvalState σ) :
    R (Effect.allVisits env phase "" es st) st (evaluateLoop env phase es st).2 := by
  rw [evaluateLoop_eq_dispatchAll]
  exact h.effects "" es hsub st

end KeptBySteps

/-! ### The fast path -/

/-- `Allow` and `Deny`, the effects that `evaluate_rules` handles. -/
def Effect.IsControl : Effect → Prop
  | .allow | .deny _ _ => True
  | _ => False

/-- Control effects stop at the first deny, and change nothing but the record of it. -/
theorem dispatchAll_control (rule : Rule) (h : ∀ e ∈ es, e.IsControl) (st : EvalState σ) :
    (dispatchAll env phase rule.source es st).1 =
        (match rule.denies es with
          | some decision => .halt decision
          | none => .continue) ∧
      ∃ trace, (dispatchAll env phase rule.source es st).2 = { st with trace } := by
  induction es with
  | nil => exact ⟨by rw [dispatchAll, Rule.denies], st.trace, by rw [dispatchAll]⟩
  | cons e es ih =>
    have hrest := ih fun e he => h e (List.mem_cons_of_mem _ he)
    have he : e.IsControl := h e List.mem_cons_self
    cases e with
    | allow =>
      exact hrest
    | deny reason code =>
      -- Both prefer the code of the effect to the source of the rule.
      exact ⟨rfl, _, rfl⟩
    | _ => exact he.elim

omit [Platform] in
theorem Rule.exists_deny_of_denies {rule : Rule} (h : rule.denies es = some decision) :
    ∃ reason source, decision = .deny reason source := by
  induction es with
  | nil => exact nomatch h
  | cons e es ih =>
    cases e with
    | deny reason code =>
      cases h
      exact ⟨_, _, rfl⟩
    | _ => exact ih h

/-- The outcome of a phase that ends in the decision. -/
def Decision.outcome : Decision → EffectOutcome
  | .allow => .continue
  | .deny reason source => .halt (.deny reason source)

/-- The walk over rules that only allow and deny. -/
theorem dispatchAll_rules (h : ∀ rule ∈ rules, ∀ e ∈ rule.effects, e.IsControl) (st : EvalState σ) :
    (dispatchAll env phase "" (rules.map Rule.toEffect) st).1 =
        (evaluateRules rules st.bag).outcome ∧
      ∃ trace, (dispatchAll env phase "" (rules.map Rule.toEffect) st).2 = { st with trace } := by
  induction rules generalizing st with
  | nil =>
    exact ⟨rfl, st.trace, rfl⟩
  | cons rule rules ih =>
    have hrules := fun st => ih (fun rule hrule => h rule (List.mem_cons_of_mem _ hrule)) st
    rw [List.map_cons, dispatchAll, Rule.toEffect, dispatchEffect, evaluateRules]
    by_cases hfires : evalExpression st.bag rule.condition = true
    · obtain ⟨houtcome, trace, hst⟩ :=
        dispatchAll_control env phase rule (h rule List.mem_cons_self) st
      rw [if_pos hfires, if_pos hfires]
      generalize dispatchAll env phase rule.source rule.effects st = r at houtcome hst
      obtain ⟨outcome, st'⟩ := r
      subst hst
      cases hdenies : rule.denies rule.effects with
      | none =>
        -- Only the record has changed, so the other rules read the same bag.
        rw [hdenies] at houtcome
        subst houtcome
        exact hrules { st with trace }
      | some decision =>
        rw [hdenies] at houtcome
        subst houtcome
        obtain ⟨reason, source, rfl⟩ := Rule.exists_deny_of_denies hdenies
        exact ⟨rfl, trace, rfl⟩
    · rw [if_neg hfires, if_neg hfires]
      exact hrules st

/-- The synchronous fast path agrees with the evaluator on rules that only allow and deny: both come
    to the same decision, and the evaluator emits nothing, suspends nothing, calls no one and leaves
    bag and payload as they are. -/
theorem evaluateEffects_rules {rules : List Rule}
    (h : ∀ rule ∈ rules, ∀ e ∈ rule.effects, e.IsControl) (bag : AttributeBag)
    (payload : RoutePayload) (world : σ) :
    let run := evaluateEffects env (rules.map Rule.toEffect) bag phase payload world
    run.1 = { decision := evaluateRules rules bag, taints := [], constraints := [],
              argsModified := false, resultModified := false, pending := none } ∧
      run.2.bag = bag ∧ run.2.payload = payload ∧ run.2.world = world := by
  obtain ⟨houtcome, trace, hst⟩ := dispatchAll_rules env phase h (.start bag payload world)
  dsimp only [evaluateEffects]
  rw [evaluateLoop_eq_dispatchAll]
  generalize dispatchAll env phase "" (rules.map Rule.toEffect) (.start bag payload world) = r
    at houtcome hst
  obtain ⟨outcome, st⟩ := r
  subst houtcome hst
  have hbag : (EvalState.start bag payload world).bag = bag := rfl
  rw [hbag]
  cases evaluateRules rules bag <;> exact ⟨rfl, rfl, rfl, rfl⟩

end

section
attribute [local instance] Platform.bare

/-- Two rules, of which the second denies under its own code. -/
def allowThenDeny : List Rule :=
  [{ condition := .always, effects := [.allow], source := "policy[0]" },
    { condition := .always, effects := [.allow, .deny (some "closed") (some "hours")],
      source := "policy[1]" }]

/-- Both interpreters deny, with the code as the source. -/
theorem evaluateEffects_rules_hours :
    evaluateRules allowThenDeny .new = .deny (some "closed") "hours" ∧
      (evaluateEffects ⟨permissive, .orderly⟩ (allowThenDeny.map Rule.toEffect) .new .pre
        ⟨.null, none⟩ ()).1.decision = .deny (some "closed") "hours" := by
  have hcontrol : ∀ rule ∈ allowThenDeny, ∀ e ∈ rule.effects, e.IsControl := by
    simp [allowThenDeny, Effect.IsControl]
  have hagree := evaluateEffects_rules ⟨permissive, .orderly⟩ .pre hcontrol .new ⟨.null, none⟩ ()
  have hrules : evaluateRules allowThenDeny .new = .deny (some "closed") "hours" := rfl
  exact ⟨hrules, by rw [hagree.1, hrules]⟩

end

end Cpex
