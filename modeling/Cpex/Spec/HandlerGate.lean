import Cpex.Spec.Elicitations
import Cpex.Spec.SessionTaints

/-! # When a handler lets a request continue

The handler of a route computes its verdict by overwriting two variables: the policy's decision
first, then the reasons to stop that come after it, each only if none came before. So a request
continues exactly if there is no reason at all, and the violation is that of the first one. That
the violation of a policy that denies stays rests on the evaluator: a phase that denies has no
elicitation pending.
-/

namespace Cpex.Core

variable {η σ τ : Type}

/-! ### The verdict -/

namespace Verdict

/-- A verdict to stop says why. -/
def Explained (v : Verdict) : Prop := v.continueProcessing = false → v.violation.isSome = true

variable {v : Verdict} {failed : Bool} {violation : PluginViolation}

@[simp] theorem stopIf_continueProcessing :
    (v.stopIf failed violation).continueProcessing = (v.continueProcessing && !failed) := by
  unfold stopIf
  cases hv : v.continueProcessing <;> cases failed <;> simp [hv]

/-- The first reason to stop stays. -/
theorem stopIf_of_stopped (h : v.continueProcessing = false) : v.stopIf failed violation = v := by
  simp [stopIf, h]

theorem Explained.stopIf (h : v.Explained) : (v.stopIf failed violation).Explained := by
  unfold Verdict.stopIf
  split
  · exact fun _ => rfl
  · exact h

variable (response : Option DenyResponse) (decision : Decision)
  (pending : Option PendingElicitation)

theorem explained_suspend_ofDecision :
    ((ofDecision response decision).suspend pending).Explained := by
  cases pending with
  | some p => exact fun _ => rfl
  | none =>
    cases decision with
    | allow => exact fun h => nomatch h
    | deny reason ruleSource => exact fun _ => rfl

theorem suspend_ofDecision_continue_iff :
    ((ofDecision response decision).suspend pending).continueProcessing = true ↔
      decision = .allow ∧ pending = none := by
  cases pending <;> cases decision <;> simp [ofDecision, suspend]

end Verdict

section
variable [Platform] (handler : AplRouteHandler) (e : Evaluated σ) (headers : Extensions)
  (conflict : Option ConstraintConflict)

/-- A verdict to continue: the policy allows, nothing is pending, the caller did not only peek at
an approval, the labels are persisted, and the constraints do not conflict. -/
theorem verdict_continue_iff :
    (handler.verdict e headers conflict).continueProcessing = true ↔
      e.decision.decision = .allow ∧ e.decision.pending = none ∧
        ¬ (elicitationPeekFromHeaders headers = true ∧ SaysApproved e.phase.bag) ∧
        e.persisted = .ok () ∧ conflict = none := by
  have hpersisted : e.persisted.isOk = true ↔ e.persisted = .ok () := by
    cases e.persisted with
    | error err => exact iff_of_false Bool.false_ne_true nofun
    | ok u => exact iff_of_true rfl rfl
  unfold AplRouteHandler.verdict SaysApproved
  simp only [Verdict.stopIf_continueProcessing, Bool.and_eq_true, Bool.not_not, hpersisted,
    Verdict.suspend_ofDecision_continue_iff, Bool.not_eq_true', Bool.and_eq_false_iff,
    Option.isSome_eq_false_iff, Option.isNone_iff_eq_none, beq_eq_false_iff_ne, and_assoc,
    not_and_or, Bool.not_eq_true, ne_eq]

theorem verdict_explained : (handler.verdict e headers conflict).Explained :=
  (Verdict.explained_suspend_ofDecision _ _ _).stopIf.stopIf.stopIf

/-- The violation of a policy that denies stays, whatever fails afterwards. -/
theorem verdict_of_deny (hdeny : e.decision.decision = .deny reason ruleSource)
    (hpending : e.decision.pending = none) :
    handler.verdict e headers conflict =
      Verdict.ofDecision handler.route.response (.deny reason ruleSource) := by
  unfold AplRouteHandler.verdict
  rw [hdeny, hpending]
  dsimp only [Verdict.suspend]
  rw [Verdict.stopIf_of_stopped rfl, Verdict.stopIf_of_stopped rfl, Verdict.stopIf_of_stopped rfl]

end

/-! ### Nothing is pending behind a deny -/

section
variable [Platform]

theorem evaluateEffects_pending
    (heval : evaluateEffects env effects bag phase payload world = (eval, es))
    (h : eval.decision ≠ .allow) : eval.pending = none := by
  unfold evaluateEffects at heval
  generalize evaluateLoop env phase effects (.start bag payload world) = r at heval
  obtain ⟨outcome, st⟩ := r
  cases heval
  cases outcome with
  | «continue» => rfl
  | halt d => rfl
  -- A suspended phase reports an allow.
  | pending bundle => exact absurd rfl h

/-- A policy that denies leaves no elicitation pending. -/
theorem evaluate_pending (handler : AplRouteHandler) (host : HandlerHost η σ τ)
    (plan : RouteDispatchPlan η) (payload : MessagePayload) (request : RequestState σ)
    (h : (handler.evaluate host plan payload request).1.decision ≠ .allow) :
    (handler.evaluate host plan payload request).1.pending = none := by
  obtain ⟨phase, rules, effects, -, hran⟩ := handler.evaluate_ran host plan payload request
  cases hran with
  | denied _ hreport => exact hreport.2
  | ran _ heval hreport =>
    exact hreport.2.trans (evaluateEffects_pending heval (hreport.1 ▸ h))

end

/-! ### The handler -/

theorem decorateDenialResponse_text (violation : PluginViolation)
    (response : Option DenyResponse) :
    (decorateDenialResponse violation response).code = violation.code ∧
      (decorateDenialResponse violation response).reason = violation.reason := by
  cases response with
  | none | some resp => exact ⟨rfl, rfl⟩

section
variable [Platform] (host : HandlerHost η σ τ) (s : ServerState σ τ) (r : RoutedRequest η)

/-- The session's labels load, or the request has no session. -/
def LabelsLoad : Prop :=
  (forRequest host.sessionStore host.shortHash r.extensions r.payload s.disabled s.world
    s.sessions).1.isOk = true

/-- A request is evaluated, or its labels do not load and it is stopped with a violation. -/
theorem handle_cases :
    (LabelsLoad host s r ∧ ∃ e, (handle host s r).evaluated = some e) ∨
      (handle host s r).result.continueProcessing = false ∧
        (handle host s r).result.violation.isSome = true := by
  unfold LabelsLoad handle AplRouteHandler.invoke
  cases forRequest host.sessionStore host.shortHash r.extensions r.payload s.disabled s.world
    s.sessions with
  | mk answer sessions =>
  cases answer with
  | error e => exact .inr ⟨rfl, rfl⟩
  | ok opening => exact .inl ⟨rfl, _, rfl⟩

/-- An evaluated request gets the verdict on its evaluation, with the headers it came with. -/
theorem handle_verdict (h : (handle host s r).evaluated = some e) :
    ∃ headers conflict,
      elicitationPeekFromHeaders headers = elicitationPeekFromHeaders r.extensions ∧
      (conflict = none ↔
        ∃ folded, foldCandidateConstraints e.decision.constraints = .ok folded) ∧
      (handle host s r).result.continueProcessing =
        (r.handler.verdict e headers conflict).continueProcessing ∧
      (handle host s r).result.violation = (r.handler.verdict e headers conflict).violation := by
  obtain ⟨opened, request, sessions, hfrom⟩ := handle_evaluated host h
  obtain ⟨stored, hopened, -⟩ := forRequest_opened (congrArg Prod.fst hfrom.opens)
  have hhttp : request.extensions.http = r.extensions.http := by
    have hsame := congrArg (fun o => o.2.extensions.http) hopened
    cases stored <;> exact hsame.symm
  have hpeek : elicitationPeekFromHeaders request.extensions =
      elicitationPeekFromHeaders r.extensions := by
    unfold elicitationPeekFromHeaders
    rw [hhttp]
  rw [hfrom.settles]
  unfold AplRouteHandler.settle
  cases hfold : foldCandidateConstraints e.decision.constraints with
  | error conflict =>
    refine ⟨request.extensions, some conflict, hpeek, iff_of_false nofun ?_, rfl, rfl⟩
    rintro ⟨folded, hok⟩
    exact nomatch hok
  | ok folded => exact ⟨request.extensions, none, hpeek, iff_of_true rfl ⟨folded, rfl⟩, rfl, rfl⟩

/-- The gate of a handler. A request continues exactly if its session's labels loaded, the policy
allows, no elicitation is pending, the caller does not peek at an elicitation that was approved,
the labels were persisted and the constraints folded. That an elicitation was approved is what the
bag says; where no elicitation sits under `parallel`, it is that an approval is on record. A
request that is stopped has a violation, and if the policy denies it is the policy's, with its
code and its reason. -/
theorem handle_gate :
    ((handle host s r).result.continueProcessing = true ↔
      ∃ e, LabelsLoad host s r ∧ (handle host s r).evaluated = some e ∧
        e.decision.decision = .allow ∧ e.decision.pending = none ∧
        ¬ (elicitationPeekFromHeaders r.extensions = true ∧ SaysApproved e.phase.bag) ∧
        e.persisted = .ok () ∧
        ∃ folded, foldCandidateConstraints e.decision.constraints = .ok folded) ∧
    (∀ e, (handle host s r).evaluated = some e → r.handler.ElicitFreeParallel →
      e.decision.decision = .allow → e.decision.pending = none →
      (SaysApproved e.phase.bag ↔ ∃ x ∈ e.phase.trace, x.Approves)) ∧
    ((handle host s r).result.continueProcessing = false →
      (handle host s r).result.violation.isSome = true) ∧
    (∀ e reason ruleSource, (handle host s r).evaluated = some e →
      e.decision.decision = .deny reason ruleSource →
      ∃ v, (handle host s r).result.violation = some v ∧
        v.code = (if ruleSource = "" then "policy.deny" else ruleSource) ∧
        v.reason = reason.getD "access denied") := by
  have hevaluated {e : Evaluated σ} (heval : (handle host s r).evaluated = some e) :
      ∃ request, r.handler.evaluate host r.plan r.payload request = (e.decision, e.phase) := by
    obtain ⟨opened, request, sessions, hfrom⟩ := handle_evaluated host heval
    exact ⟨request, hfrom.evaluates⟩
  refine ⟨⟨fun hgo => ?_, ?_⟩, fun e heval hfree hallow hpending => ?_, fun hstop => ?_,
    fun e reason ruleSource heval hdeny => ?_⟩
  · obtain ⟨hload, e, heval⟩ | ⟨hstop, -⟩ := handle_cases host s r
    · obtain ⟨headers, conflict, hpeek, hconflict, hcontinue, -⟩ := handle_verdict host s r heval
      rw [hcontinue, verdict_continue_iff, hpeek, hconflict] at hgo
      exact ⟨e, hload, heval, hgo⟩
    · rw [hstop] at hgo
      cases hgo
  · rintro ⟨e, -, heval, hgo⟩
    obtain ⟨headers, conflict, hpeek, hconflict, hcontinue, -⟩ := handle_verdict host s r heval
    rwa [hcontinue, verdict_continue_iff, hpeek, hconflict]
  · obtain ⟨request, hrun⟩ := hevaluated heval
    have happroved := evaluate_approved_iff r.handler host r.plan hfree r.payload request
    rw [hrun] at happroved
    exact happroved hallow hpending
  · obtain ⟨-, e, heval⟩ | ⟨-, hviolation⟩ := handle_cases host s r
    · obtain ⟨headers, conflict, -, -, hcontinue, hviolation⟩ := handle_verdict host s r heval
      rw [hcontinue] at hstop
      rw [hviolation]
      exact verdict_explained r.handler e headers conflict hstop
    · exact hviolation
  · obtain ⟨request, hrun⟩ := hevaluated heval
    have hpending := evaluate_pending r.handler host r.plan r.payload request
    rw [hrun] at hpending
    obtain ⟨headers, conflict, -, -, -, hviolation⟩ := handle_verdict host s r heval
    rw [verdict_of_deny r.handler e headers conflict hdeny
      (hpending (by rw [hdeny]; exact Decision.noConfusion))] at hviolation
    have htext := decorateDenialResponse_text
      (.new (if ruleSource = "" then "policy.deny" else ruleSource) (reason.getD "access denied"))
      r.handler.route.response
    exact ⟨_, hviolation, htext⟩

end

section
attribute [local instance] Platform.bare

/-- A call on a route with two restrictions that conflict, and a deny. -/
def conflictingCall : RoutedRequest Unit where
  handler :=
    { route :=
        { routeKey := "tool:read"
          policy :=
            [.restrict { custom := [("gpu", "a100")] }, .restrict { custom := [("gpu", "h100")] },
              .deny (some "not today") (some "closed")] }
      phase := .pre
      pluginRegistry := ∅
      origin := none }
  plan := {}
  payload := ⟨{ role := .user }⟩
  extensions := {}

/-- The constraints of the call do not fold, and the violation is still the policy's. -/
theorem handle_gate_conflicting :
    ∃ e v, (handle plainHost freshServer conflictingCall).evaluated = some e ∧
      (foldCandidateConstraints e.decision.constraints).isOk = false ∧
      (handle plainHost freshServer conflictingCall).result.violation = some v ∧
      v.code = "closed" ∧ v.reason = "not today" := by
  have hrun : (handle plainHost freshServer conflictingCall).evaluated.map (fun e =>
        (e.decision.decision, (foldCandidateConstraints e.decision.constraints).isOk)) =
      some (.deny (some "not today") "closed", false) := by
    decide +kernel
  obtain ⟨e, heval, he⟩ := Option.map_eq_some_iff.mp hrun
  obtain ⟨hdeny, hconflict⟩ := Prod.mk.inj he
  obtain ⟨v, hv, hcode, hreason⟩ :=
    (handle_gate plainHost freshServer conflictingCall).2.2.2 e _ _ heval hdeny
  exact ⟨e, v, heval, hconflict, hv, hcode, hreason⟩

end

end Cpex.Core
