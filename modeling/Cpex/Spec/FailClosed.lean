import Cpex.Spec.CallPaths

/-! # Policy evaluation fails closed

Whatever the policy decision points, plugins, delegators and approvers answer, a phase that
ends in `Allow` without a pending elicitation has passed every check it reached.

The argument is one invariant, `Sound`, of a single dispatch: a halt carries a deny, and a
dispatch that continues has reached nothing that should have stopped it. It is proved for
each kind of effect and then along the effect tree.
-/

namespace Cpex

/-! ### What should stop a phase -/

/-- The step is configured with `on_error: continue` (in any case). -/
def OnErrorContinue (onError : Option String) : Prop :=
  ∃ s, onError = some s ∧ Text.toAsciiLowercase s = "continue"

theorem onErrorContinue_of_delegate {step : DelegateStep} (h : step.onErrorContinue = true) :
    OnErrorContinue step.onError := by
  cases hs : step.onError with
  | none => simp only [DelegateStep.onErrorContinue, hs] at h; exact absurd h (by decide)
  | some s => exact ⟨s, rfl, by simpa [DelegateStep.onErrorContinue, hs] using h⟩

variable {step : ElicitStep}

theorem onErrorContinue_of_elicit (h : step.onErrorContinue = true) :
    OnErrorContinue step.onError := by
  have hlit : Text.toAsciiLowercase "continue" = "continue" := by decide
  cases hs : step.onError with
  | none => simp only [ElicitStep.onErrorContinue, hs] at h; exact absurd h (by decide)
  | some s =>
    exact ⟨s, rfl, by simpa [ElicitStep.onErrorContinue, Text.eqIgnoreAsciiCase, hs, hlit] using h⟩

/-- A failure that continues is one the step allows. -/
theorem ElicitStep.fail_eq_continue (h : step.fail reason = .continue) :
    OnErrorContinue step.onError := by
  unfold ElicitStep.fail at h
  split at h
  · exact onErrorContinue_of_elicit (by assumption)
  · exact nomatch h

theorem ElicitStep.fail_eq_halt (h : step.fail reason = .halt d) :
    d ≠ .allow := by
  unfold ElicitStep.fail at h
  split at h
  · exact nomatch h
  · cases h; simp

section
variable [Platform]

/-- The step has no scope, or one that parses and holds. -/
def ElicitStep.ScopeSatisfied (step : ElicitStep) (bag : AttributeBag) : Prop :=
  ∀ src, step.scope = some src →
    ∃ expr, parsePredicate src = .ok expr ∧ evalExpression bag expr = true

/-- What was reached is no reason to stop: no deny, calls answered with an allow, elicitations
    approved, and failures only where the step says to continue. -/
def Reached.Passed : Reached → Prop
  | .deny _ _ => False
  | .pdp _ answer => ∃ r, answer = .ok r ∧ r.decision = .allow
  | .plugin _ answer => ∃ o, answer = .ok o ∧ o.decision = .allow
  | .delegate step answer =>
    (∃ o, answer = .ok o ∧ o.decision = .allow) ∨ OnErrorContinue step.onError
  | .elicit step fromResolved dispatched checked validated bag =>
    -- Approved, genuine and in scope.
    (checked = some (.ok (.resolved .approved)) ∧
      (∃ v, validated = some (.ok v) ∧ v.valid = true) ∧ step.ScopeSatisfied bag) ∨
    -- Failed, other than by a human "no", on a step that continues on errors.
    (OnErrorContinue step.onError ∧ checked ≠ some (.ok (.resolved .denied)) ∧
      (fromResolved = false ∨ (∃ e, dispatched = some (.error e)) ∨
        (∃ e, checked = some (.error e)) ∨ checked = some (.ok .expired) ∨
        (∃ e, validated = some (.error e)) ∨
        (∃ v, validated = some (.ok v) ∧ (v.valid = false ∨ ¬ step.ScopeSatisfied bag))))
  | .restrict _ answer => ∃ c, answer = .ok c
  | .panicked _ => True

theorem ElicitStep.scopeFailure_eq_none {step : ElicitStep} {bag : AttributeBag} :
    step.scopeFailure bag = none ↔ step.ScopeSatisfied bag := by
  unfold ElicitStep.scopeFailure ElicitStep.ScopeSatisfied
  cases step.scope with
  | none => simp
  | some src =>
    cases hp : parsePredicate src with
    | error e => simp [hp]
    | ok expr => by_cases hev : evalExpression bag expr = true <;> simp [hp, hev]

end

/-! ### Elicitations under `parallel` -/

mutual

/-- No `Elicit` effect sits under a `Parallel` effect. -/
def Effect.elicitFreeParallel : Effect → Bool
  | .sequential es => Effect.allElicitFreeParallel es
  | .parallel es => !Effect.anyElicit es
  | .when _ body _ => Effect.allElicitFreeParallel body
  | .pdp _ onAllow onDeny =>
    Effect.allElicitFreeParallel onAllow && Effect.allElicitFreeParallel onDeny
  | _ => true

/-- `elicitFreeParallel` of every effect of a list. -/
def Effect.allElicitFreeParallel : List Effect → Bool
  | [] => true
  | e :: es => e.elicitFreeParallel && Effect.allElicitFreeParallel es

end

attribute [simp] Effect.elicitFreeParallel Effect.allElicitFreeParallel

mutual

/-- A tree without elicitations has none under `Parallel`. -/
theorem elicitFreeParallel_of_hasElicit (e : Effect) (h : e.hasElicit = false) :
    e.elicitFreeParallel = true := by
  cases e with
  | sequential es => exact allElicitFreeParallel_of_anyElicit es h
  | parallel es => simpa using h
  | when condition body source => exact allElicitFreeParallel_of_anyElicit body h
  | pdp call onAllow onDeny =>
    simp only [Effect.hasElicit, Bool.or_eq_false_iff] at h
    simp [allElicitFreeParallel_of_anyElicit onAllow h.1,
      allElicitFreeParallel_of_anyElicit onDeny h.2]
  | _ => rfl

theorem allElicitFreeParallel_of_anyElicit (es : List Effect) (h : Effect.anyElicit es = false) :
    Effect.allElicitFreeParallel es = true := by
  cases es with
  | nil => rfl
  | cons e es =>
    simp only [Effect.anyElicit, Bool.or_eq_false_iff] at h
    simp [elicitFreeParallel_of_hasElicit e h.1, allElicitFreeParallel_of_anyElicit es h.2]

end

/-! ### The invariant of one dispatch -/

section
variable [Platform] {σ : Type}

/-- No task of a `parallel` branch is recorded to have panicked. -/
def NoPanic (trace : List Reached) : Prop := ∀ payload, .panicked payload ∉ trace

/-- The record only grew by passed checks, unless a task panicked. -/
def Extends (old new : List Reached) : Prop :=
  ∃ added, new = old ++ added ∧ (NoPanic added → ∀ x ∈ added, x.Passed)

@[refl] theorem Extends.refl (t : List Reached) : Extends t t := ⟨[], by simp, by simp⟩

theorem Extends.trans (h₁ : Extends t₁ t₂) (h₂ : Extends t₂ t₃) :
    Extends t₁ t₃ := by
  obtain ⟨a₁, rfl, hp₁⟩ := h₁
  obtain ⟨a₂, rfl, hp₂⟩ := h₂
  refine ⟨a₁ ++ a₂, List.append_assoc _ _ _, fun hno x hx => ?_⟩
  rcases List.mem_append.mp hx with hx | hx
  · exact hp₁ (fun p hp => hno p (List.mem_append_left _ hp)) x hx
  · exact hp₂ (fun p hp => hno p (List.mem_append_right _ hp)) x hx

/-- What a dispatch from `st` guarantees about its result. -/
structure Sound (st : EvalState σ) (r : EffectOutcome × EvalState σ) : Prop where
  /-- A halt carries a deny. -/
  halt : ∀ d, r.1 = .halt d → d ≠ .allow
  /-- A dispatch that continues only adds passed checks to the record. -/
  reached : r.1 = .continue → Extends st.trace r.2.trace

namespace Sound

variable {st st' : EvalState σ} {r : EffectOutcome × EvalState σ}

/-- A dispatch that continues without reaching anything. -/
theorem of_trace_eq (h : st'.trace = st.trace) : Sound st (.continue, st') :=
  ⟨(fun _ h => nomatch h), fun _ => by rw [h]⟩

/-- A dispatch that halts with a deny. -/
theorem of_deny {reason : Option String} {source : String} :
    Sound st (.halt (.deny reason source), st') :=
  ⟨fun d h => by cases h; simp, (fun h => nomatch h)⟩

theorem of_pending {bundle : PendingElicitation} : Sound st (.pending bundle, st') :=
  ⟨(fun _ h => nomatch h), (fun h => nomatch h)⟩

/-- A dispatch that continues after one passed check. -/
theorem of_reach (htrace : st'.trace = st.trace ++ [x]) (hx : x.Passed) :
    Sound st (.continue, st') :=
  ⟨(fun _ h => nomatch h), fun _ => ⟨[x], htrace, by simpa using fun _ => hx⟩⟩

/-- A failed elicitation: halt with a deny, or continue when the failure is tolerated. -/
theorem of_fail {step : ElicitStep} {reason : String} (htrace : st'.trace = st.trace ++ [x])
    (hx : OnErrorContinue step.onError → x.Passed) :
    Sound st (step.fail reason, st') :=
  ⟨fun _ h => ElicitStep.fail_eq_halt h,
    fun h => ⟨[x], htrace, by simpa using fun _ => hx (ElicitStep.fail_eq_continue h)⟩⟩

/-- Dispatching further after a dispatch that continued. -/
theorem trans (h₁ : Sound st (.continue, st')) (h₂ : Sound st' r) : Sound st r :=
  ⟨h₂.halt, fun hr => (h₁.reached rfl).trans (h₂.reached hr)⟩

end Sound

/-! ### Effects without children -/

variable (env : Env σ) (phase : DispatchPhase)

theorem dispatchPlugin_sound (name : String) (st : EvalState σ) :
    Sound st (dispatchPlugin env phase name st) := by
  unfold dispatchPlugin
  obtain ⟨answer, world⟩ := env.invoke st.world name st.bag (.step phase)
  cases answer with
  | error e => exact .of_deny
  | ok outcome =>
    cases hd : outcome.decision with
    | deny reason source => simp only [hd]; exact .of_deny
    | allow => simp only [hd]; exact .of_reach rfl ⟨outcome, rfl, hd⟩

theorem dispatchDelegate_sound (step : DelegateStep) (st : EvalState σ) :
    Sound st (dispatchDelegate env step st) := by
  unfold dispatchDelegate
  obtain ⟨answer, world⟩ := env.delegate st.world step
  cases answer with
  | error e =>
    by_cases hc : step.onErrorContinue = true
    · simp only [hc, if_true]
      exact .of_reach rfl (.inr (onErrorContinue_of_delegate hc))
    · simp only [hc]; exact .of_deny
  | ok outcome =>
    cases hd : outcome.decision with
    | allow => simp only [hd]; exact .of_reach rfl (.inl ⟨outcome, rfl, hd⟩)
    | deny reason source =>
      by_cases hc : step.onErrorContinue = true
      · simp only [hd, hc, if_true]
        exact .of_reach rfl (.inr (onErrorContinue_of_delegate hc))
      · simp only [hd, hc]; exact .of_deny

theorem dispatchRestrict_sound (fallbackSource : String) (spec : RestrictSpec)
    (st : EvalState σ) : Sound st (dispatchRestrict fallbackSource spec st) := by
  unfold dispatchRestrict
  cases spec.resolve st.bag with
  | error e => exact .of_deny
  | ok c =>
    refine .of_reach (x := .restrict spec (.ok c)) ?_ ⟨c, rfl⟩
    split <;> rfl

variable {env} in
theorem Elicits.sound (h : Elicits env step st r) : Sound st r := by
  cases h with
  | unresolved => exact .of_fail rfl fun hc => .inr ⟨hc, by simp, .inl rfl⟩
  | unsent => exact .of_fail rfl fun hc => .inr ⟨hc, by simp, .inr (.inl ⟨_, rfl⟩)⟩
  | checked _ hends =>
    cases hends with
    | failed => exact .of_fail rfl fun hc => .inr ⟨hc, by simp, .inr (.inr (.inl ⟨_, rfl⟩))⟩
    | pending => exact .of_pending
    | expired => exact .of_fail rfl fun hc => .inr ⟨hc, by simp, .inr (.inr (.inr (.inl rfl)))⟩
    | denied => exact .of_deny
    | unvalidated =>
      exact .of_fail rfl fun hc =>
        .inr ⟨hc, by simp, .inr (.inr (.inr (.inr (.inl ⟨_, rfl⟩))))⟩
    | rejected _ _ hbad =>
      rw [Ne, ElicitStep.scopeFailure_eq_none] at hbad
      exact .of_fail rfl fun hc =>
        .inr ⟨hc, by simp, .inr (.inr (.inr (.inr (.inr ⟨_, rfl, hbad⟩))))⟩
    | approved _ _ hvalid hscope =>
      exact .of_reach rfl
        (.inl ⟨rfl, ⟨_, rfl, hvalid⟩, ElicitStep.scopeFailure_eq_none.mp hscope⟩)

/-! ### Field operations -/

variable {env} in
/-- Plugins that allowed are passed checks. -/
theorem AsksPlugins.extends {names : String → Prop} {passed : Prop}
    (h : AsksPlugins env names passed w w' t t') (hpassed : passed) :
    Extends t t' := by
  obtain ⟨new, htrace, hnew⟩ := h.trace
  refine ⟨new, htrace, fun _ x hx => ?_⟩
  obtain ⟨name, answer, rfl, -, hallows⟩ := hnew x hx
  exact hallows hpassed

theorem dispatchFieldOp_sound (path : String) (stages : List Stage) (fallbackSource : String)
    (st : EvalState σ) : Sound st (dispatchFieldOp env phase path stages fallbackSource st) where
  halt d hd := by
    rcases dispatchFieldOp_outcome env phase fallbackSource path stages st with h | ⟨reason, h⟩
    · cases h.symm.trans hd
    · cases h.symm.trans hd
      simp
  reached hcontinue :=
    (dispatchFieldOp_asks env phase path stages fallbackSource st).extends hcontinue

/-! ### The effect tree -/

/-- A block whose branches are sound, and do not suspend, is sound. -/
theorem joinParallel_sound (branches : List (EffectOutcome × EvalState σ))
    (st : EvalState σ)
    (hsound : ∀ r ∈ branches, ∃ st₀ : EvalState σ, st₀.trace = [] ∧ Sound st₀ r)
    (hpending : ∀ r ∈ branches, ∀ bundle, r.1 ≠ .pending bundle) :
    Sound st (joinParallel env branches st) where
  halt d hd := by
    -- The deny is that of some branch.
    obtain ⟨i, r, hr, hhalt⟩ := exists_of_joinParallel_halt env branches st hd
    obtain ⟨st₀, _, hs⟩ := hsound r (List.mem_of_getElem? hr)
    exact hs.halt d hhalt
  reached hcont := by
    by_cases hempty : branches = []
    · rw [hempty]; exact .refl _
    refine ⟨_, (joinParallel_trace env branches st hempty).trans (List.append_assoc _ _ _), ?_⟩
    intro hpanic x hx
    rcases List.mem_append.mp hx with hx | hx
    · simp only [List.mem_flatten, List.mem_map, exists_exists_and_eq_and] at hx
      obtain ⟨r, hr, hx⟩ := hx
      obtain ⟨i, hi, hget⟩ := List.mem_iff_getElem.mp hr
      have hr? : branches[i]? = some r := List.getElem?_eq_some_iff.mpr ⟨hi, hget⟩
      rcases joinParallel_continue env branches st hcont hr? with ⟨payload, hp⟩ | ⟨_, hhalt⟩
      · exact (hpanic payload
          (List.mem_append_right _ (List.mem_filterMap.mpr ⟨_, hp, rfl⟩))).elim
      · -- Neither halted nor suspended: the branch continued.
        have hrc : r.1 = .continue := by
          cases hout : r.1 with
          | «continue» => rfl
          | halt d => exact absurd hout (hhalt d)
          | pending bundle => exact absurd hout (hpending r hr bundle)
        obtain ⟨st₀, hempty₀, hs⟩ := hsound r hr
        obtain ⟨added, hadd, hpassed⟩ := hs.reached hrc
        rw [hempty₀, List.nil_append] at hadd
        rw [← hadd] at hpassed
        refine hpassed (fun payload hp => hpanic payload (List.mem_append_left _ ?_)) x hx
        exact List.mem_flatten.mpr ⟨_, List.mem_map_of_mem hr, hp⟩
    · -- Of the joins only a panic is recorded.
      obtain ⟨ev, _, hev⟩ := List.mem_filterMap.mp hx
      cases ev with
      | panicked i payload => cases hev; exact trivial
      | _ => cases hev

variable {env phase} in
/-- Dispatching effects is sound. An `Elicit` under `Parallel` would let a block continue over a
    suspended branch. -/
theorem Runs.sound (h : Runs env phase es st r) (hes : Effect.allElicitFreeParallel es = true) :
    Sound st r := by
  induction h with
  | nil | allow | taint | skip => exact .of_trace_eq rfl
  | deny | pdpFailed | pdpDenied => exact .of_deny
  | cons _ _ ih ih' =>
    simp only [Effect.allElicitFreeParallel, Bool.and_eq_true] at hes
    exact (ih (by simp [hes.1])).trans (ih' hes.2)
  | stop _ _ ih =>
    simp only [Effect.allElicitFreeParallel, Bool.and_eq_true] at hes
    exact ih (by simp [hes.1])
  | plugin => exact dispatchPlugin_sound env phase _ _
  | delegate => exact dispatchDelegate_sound env _ _
  | elicit => exact (dispatchElicitation_elicits env _ _).sound
  | restrict => exact dispatchRestrict_sound _ _ _
  | fieldOp => exact dispatchFieldOp_sound env phase _ _ _ _
  | sequential _ ih | when _ ih =>
    exact ih (by simpa using hes)
  | parallel _ ih =>
    have hfree : ∀ e ∈ _, Effect.hasElicit e = false :=
      anyElicit_eq_false_iff.mp (by simpa using hes)
    refine joinParallel_sound env _ _ (fun r hr => ?_) fun r hr => ?_
    · obtain ⟨e, he, j, rfl⟩ := exists_of_mem_dispatchBranches env phase hr
      refine ⟨_, rfl, ih e he _ ?_⟩
      simp [elicitFreeParallel_of_hasElicit e (hfree e he)]
    · obtain ⟨e, he, j, rfl⟩ := exists_of_mem_dispatchBranches env phase hr
      exact dispatchEffect_ne_pending env phase _ (hfree e he) _
  | pdpAllowed _ hallow _ ih =>
    simp only [Effect.allElicitFreeParallel, Effect.elicitFreeParallel, Bool.and_eq_true] at hes
    exact .trans (.of_reach (x := .pdp _ (.ok _)) rfl ⟨_, rfl, hallow⟩) (ih hes.1.1)
  -- The reactions end in a halt or a suspension.
  | pdpReacted _ _ hstop ih =>
    simp only [Effect.allElicitFreeParallel, Effect.elicitFreeParallel, Bool.and_eq_true] at hes
    exact ⟨(ih hes.1.2).halt, fun hc => absurd hc hstop⟩

/-! ### Whole phases -/

/-- A phase that allows without a pending elicitation has run its effects to the end. -/
theorem evaluateEffects_runs (effects : List Effect)
    (helicit : Effect.allElicitFreeParallel effects = true) (bag : AttributeBag)
    (payload : RoutePayload) (world : σ) :
    let r := evaluateEffects env effects bag phase payload world
    r.1.decision = .allow → r.1.pending = none →
      Runs env phase effects (.start bag payload world) (.continue, r.2) := by
  have hruns := evaluateLoop_runs env phase effects (.start bag payload world)
  unfold evaluateEffects
  generalize evaluateLoop env phase effects (.start bag payload world) = r at hruns
  obtain ⟨outcome, st⟩ := r
  intro r hallow hpending
  cases outcome with
  | «continue» => exact hruns
  | halt d => exact absurd hallow ((hruns.sound helicit).halt d rfl)
  | pending bundle => exact nomatch hpending

/-- A PDP that did not answer with an allow never lets the effect continue, whatever its
    reactions do. -/
theorem dispatchEffect_pdp_ne_continue (fallbackSource : String) (call : PdpCall)
    (onAllow onDeny : List Effect) (st : EvalState σ)
    (h : ¬ ∃ r, (env.evaluate st.world call st.bag).1 = .ok r ∧ r.decision = .allow) :
    (dispatchEffect env phase fallbackSource (.pdp call onAllow onDeny) st).1 ≠ .continue := by
  rw [dispatchEffect]
  revert h
  obtain ⟨answer, world⟩ := env.evaluate st.world call st.bag
  intro h
  cases answer with
  | error e => simp
  | ok result =>
    cases hd : result.decision with
    | allow => exact absurd ⟨result, rfl, hd⟩ h
    | deny reason source =>
      -- Reactions that continue are turned into the deny itself.
      simp only [hd]
      split
      · simp
      · rename_i hother
        exact fun hc => hother _ (Prod.ext hc rfl)

variable (bag : AttributeBag)

theorem runFieldRule_ne_allow (rule : FieldRule) (fs : FieldPhase σ) :
    (runFieldRule env bag phase rule fs).1 ≠ some .allow := by
  unfold runFieldRule
  dsimp only
  repeat' split
  all_goals simp

/-- A field phase that stops, stops with a deny. -/
theorem runFieldRules_ne_allow (rules : List FieldRule) (fs : FieldPhase σ) :
    (runFieldRules env bag phase rules fs).1 ≠ some .allow := by
  rw [runFieldRules_eq_walk]
  exact List.walk_induction (P := fun denied _ => denied ≠ some Decision.allow)
    (fun rule _ s _ => runFieldRule_ne_allow env phase bag rule s) nofun

/-- What extends the empty record extends any record it is appended to. -/
theorem Extends.append {t : List Reached} (h : Extends [] new) : Extends t (t ++ new) := by
  obtain ⟨added, hadd, hpassed⟩ := h
  exact ⟨added, by rw [hadd, List.nil_append], hpassed⟩

/-- `evaluate_pre` that allows without a pending elicitation reached only passed checks, in
    its `args:` pipelines as in its policy. -/
theorem evaluatePre_extends (route : CompiledRoute)
    (helicit : Effect.allElicitFreeParallel route.policy = true) (st : PhaseState σ)
    (hallow : (evaluatePre env route st).1.decision = .allow)
    (hpending : (evaluatePre env route st).1.pending = none) :
    Extends st.trace (evaluatePre env route st).2.trace := by
  cases evaluatePre_ran env route st with
  | @denied root decision fs hrules hreport =>
    have hdenied := runFieldRules_ne_allow env .pre st.bag route.args
      ⟨root, false, [], st.world, []⟩
    rw [hrules, ← hreport.1, hallow] at hdenied
    exact absurd rfl hdenied
  | @ran root fs payload eval es hrules heval hreport hstate =>
    have hargs := runFieldRules_asks env .pre st.bag route.args ⟨root, false, [], st.world, []⟩
    have hpolicy := evaluateEffects_runs env .pre route.policy helicit st.bag payload fs.world
    rw [hrules] at hargs
    rw [heval] at hpolicy
    rw [hstate.2.2]
    have hruns := hpolicy (hreport.1.symm.trans hallow) (hreport.2.symm.trans hpending)
    exact (hargs.extends rfl).append.trans ((hruns.sound helicit).reached rfl).append

/-- Policy evaluation fails closed: if a phase allows without a pending elicitation, and no
    task of a `parallel` branch panicked, then everything it reached passed. A PDP that did
    not answer with an allow never lets its effect continue. `evaluate_pre` inherits both. -/
theorem evaluateEffects_failClosed :
    (∀ effects bag payload world, Effect.allElicitFreeParallel effects = true →
      (evaluateEffects env effects bag phase payload world).1.decision = .allow →
      (evaluateEffects env effects bag phase payload world).1.pending = none →
      NoPanic (evaluateEffects env effects bag phase payload world).2.trace →
      ∀ x ∈ (evaluateEffects env effects bag phase payload world).2.trace, x.Passed) ∧
    (∀ fallbackSource call onAllow onDeny st,
      (¬ ∃ r, (env.evaluate st.world call st.bag).1 = .ok r ∧ r.decision = .allow) →
      (dispatchEffect env phase fallbackSource (.pdp call onAllow onDeny) st).1 ≠ .continue) ∧
    (∀ route bag payload world, Effect.allElicitFreeParallel route.policy = true →
      (evaluatePre env route ⟨bag, payload, world, []⟩).1.decision = .allow →
      (evaluatePre env route ⟨bag, payload, world, []⟩).1.pending = none →
      NoPanic (evaluatePre env route ⟨bag, payload, world, []⟩).2.trace →
      ∀ x ∈ (evaluatePre env route ⟨bag, payload, world, []⟩).2.trace, x.Passed) := by
  refine ⟨?_, ?_, ?_⟩
  · intro effects bag payload world helicit hallow hpending hpanic
    obtain ⟨added, hadd, hpassed⟩ := ((evaluateEffects_runs env phase effects helicit bag payload
      world hallow hpending).sound helicit).reached rfl
    obtain rfl : _ = added := hadd
    exact hpassed hpanic
  · exact fun fallbackSource call onAllow onDeny st h =>
      dispatchEffect_pdp_ne_continue env phase fallbackSource call onAllow onDeny st h
  · intro route bag payload world helicit hallow hpending hpanic
    obtain ⟨added, hadd, hpassed⟩ :=
      evaluatePre_extends env route helicit ⟨bag, payload, world, []⟩ hallow hpending
    obtain rfl : _ = added := hadd
    exact hpassed hpanic

end

section
attribute [local instance] Platform.bare

/-- A policy with a plugin step, a PDP call in parallel with a taint, and a restriction. -/
def guardedPolicy : List Effect :=
  [.plugin "scanner", .parallel [.pdp ⟨.cedar, .null⟩ [] [], .taint "PII" [.session]],
    .restrict { denyModels := some (.literal ["m"]) }]

/-- Where everything allows, the policy reaches three checks and passes them. -/
theorem evaluateEffects_failClosed_permissive :
    let trace := (evaluateEffects ⟨permissive, .orderly⟩ guardedPolicy .new .pre ⟨.null, none⟩
      ()).2.trace
    trace.length = 3 ∧ ∀ x ∈ trace, x.Passed := by
  refine ⟨by decide, (evaluateEffects_failClosed ⟨permissive, .orderly⟩ .pre).1 guardedPolicy .new
    ⟨.null, none⟩ () (by decide) (by decide) (by decide) ?_⟩
  intro payload hmem
  rcases hmem with _ | ⟨_, _ | ⟨_, _ | ⟨_, ⟨⟩⟩⟩⟩

end

end Cpex
