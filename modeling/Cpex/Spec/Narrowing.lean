import Cpex.Spec.HandlerGate
import Cpex.Spec.Restrictions
import Cpex.Spec.RouteEdits

/-! # The routing constraint over a request

Each hook of a request runs a handler of its own, on the extensions the one before left. Within one
evaluation the restrictions of a route only take backends away. Across evaluations they do not:
a handler folds its constraints without the one that is there, and the merge puts the result in its
place.
-/

namespace Cpex.Core

variable {η σ τ : Type}

/-- A request without a constraint may go to any backend. -/
def acceptedBy (constraint : Option CandidateConstraintExtension) (backend : BackendLabels)
    (tierRank : String → Option Nat) : Bool :=
  constraint.all (·.accepts backend tierRank)

/-- Every backend `later` accepts is one `earlier` accepts, in every order of the cost tiers. -/
def KeepsWithin (earlier : CandidateConstraintExtension)
    (later : Option CandidateConstraintExtension) : Prop :=
  ∀ backend tierRank, acceptedBy later backend tierRank = true →
    earlier.accepts backend tierRank = true

theorem KeepsWithin.self (c : CandidateConstraintExtension) : KeepsWithin c (some c) :=
  fun _ _ h => h

/-- The constraint after the merge of what was handed back. -/
theorem takenOver_candidateConstraint :
    (takenOver extensions capabilities (some owned)).candidateConstraint =
      if mergeGate extensions owned capabilities then owned.candidateConstraint
      else extensions.candidateConstraint := by
  rw [takenOver]
  split
  · exact mergeOwned_candidateConstraint extensions _
  · rfl

/-- The fold comes to nothing exactly if no `restrict` asked for anything. -/
theorem Collects.isEmpty_iff (h : Collects constraints folded) :
    folded.isEmpty = true ↔ ∀ c ∈ constraints, c.isEmpty = true := by
  have hlist {field : CandidateConstraint → Option (List String)} {acc : Option (List String)}
      (hfield : Intersected field constraints acc) :
      acc = none ↔ ∀ c ∈ constraints, field c = none := by
    cases acc with
    | none => exact iff_of_true rfl hfield
    | some members =>
      obtain ⟨⟨c, hc, hset⟩, -⟩ := hfield
      exact iff_of_false (Option.some_ne_none _) fun hall => hset (hall c hc)
  simp only [CandidateConstraintExtension.isEmpty, CandidateConstraint.isEmpty, Bool.and_eq_true,
    Option.isNone_iff_eq_none, List.isEmpty_iff, hlist h.allowModels, hlist h.allowRegions,
    hlist h.allowSites, List.eq_nil_iff_forall_not_mem, h.denyModels.mem_iff,
    h.maxCostTiers.mem_iff, h.custom.mem_iff, Option.eq_none_iff_forall_ne_some]
  grind

/-- What the route asked for keeps to the backends of `c₀`: its own restrictions, all of them
together; or, where they ask for nothing and something else is handed back, the constraint its
plugins left. -/
structure StaysWithin (c₀ : CandidateConstraintExtension) (e : Evaluated σ) : Prop where
  restricts : (∃ c ∈ e.decision.constraints, c.isEmpty = false) → ∀ backend tierRank,
    SharesPattern e.decision.constraints backend →
    (∀ c ∈ e.decision.constraints, (wireConstraint c).accepts backend tierRank = true) →
    c₀.accepts backend tierRank = true
  plugins : (∀ c ∈ e.decision.constraints, c.isEmpty = true) →
    extensionsChanged e.request.replaced = true →
    KeepsWithin c₀ e.request.extensions.candidateConstraint

/-- The same of the one constraint that is handed over. -/
theorem staysWithin_iff (hfold : foldCandidateConstraints e.decision.constraints = .ok result) :
    StaysWithin c₀ e ↔ ∀ constraint, handedOver e = some constraint → KeepsWithin c₀ constraint := by
  unfold handedOver
  rw [foldCandidateConstraints_eq] at hfold ⊢
  cases hfolded : e.decision.constraints.foldlM foldConstraint unconstrained with
  | error conflict =>
    rw [hfolded] at hfold
    cases hfold
  | ok folded =>
    have hcollects := (foldlM_foldConstraint_iff.mp hfolded).2
    by_cases hempty : folded.isEmpty = true
    · have hnone := hcollects.isEmpty_iff.mp hempty
      simp only [Except.map, if_pos hempty, Option.ite_none_right_eq_some, Option.some.injEq]
      constructor
      · rintro ⟨-, hplugins⟩ constraint ⟨hchanged, rfl⟩
        exact hplugins hnone hchanged
      · refine fun h => ⟨?_, fun _ hchanged => h _ ⟨hchanged, rfl⟩⟩
        rintro ⟨c, hc, hasks⟩
        exact absurd (hnone c hc) (by simp [hasks])
    · have hasks : ¬ ∀ c ∈ e.decision.constraints, c.isEmpty = true :=
        fun hall => hempty (hcollects.isEmpty_iff.mpr hall)
      simp only [Except.map, if_neg hempty, Option.some.injEq, forall_eq']
      constructor
      · rintro ⟨hrestricts, -⟩ backend tierRank haccepts
        obtain ⟨hshares, heach⟩ := hcollects.accepts_iff.mp haccepts
        exact hrestricts (by simpa using hasks) backend tierRank hshares heach
      · refine fun h => ⟨fun _ backend tierRank hshares heach => ?_, fun hall => absurd hall hasks⟩
        exact h backend tierRank (hcollects.accepts_iff.mpr ⟨hshares, heach⟩)

section
variable [Platform] (host : HandlerHost η σ τ)

/-- An installed handler lets a request continue that carries a constraint. The constraint the
request carries afterwards accepts only backends the first one accepts exactly if the merge refuses
what the handler hands back, or the backends that pass all restrictions of the route, or where it
has none the constraint its plugins left, are such backends. -/
theorem restriction_narrows_iff {visitor : AplConfigVisitor} {route : CompiledRoute}
    {registry : DeclRegistry} {installed : Annotation}
    (hinstalled : InstalledFor visitor route registry installed) (plan : RouteDispatchPlan η)
    (config : ExecutorConfig) (payload : MessagePayload) (extensions : Extensions)
    (contextTable : Option PluginContextTable) (s : ServerState σ τ)
    (hactive : installed.2.pluginRef.id ∉ s.disabled) (c₀ : CandidateConstraintExtension)
    (hcarries : extensions.candidateConstraint = some c₀)
    (hgo : (handle host s ⟨installed.2.handler, plan, payload,
      serialView extensions installed.2.capabilities⟩).result.continueProcessing = true) :
    ∃ e outer,
      (handle host s ⟨installed.2.handler, plan, payload,
        serialView extensions installed.2.capabilities⟩).evaluated = some e ∧
      (execute (.routes host plan) config [installed.2] payload extensions contextTable s.disabled
        s).result.modifiedExtensions = some outer ∧
      (KeepsWithin c₀ outer.candidateConstraint ↔
        (mergeGate extensions e.request.extensions.cowCopy installed.2.capabilities = true →
          StaysWithin c₀ e)) := by
  obtain ⟨-, hmode, -, hcap⟩ := hinstalled.fixed
  obtain ⟨e, heval⟩ := evaluated_of_continue host hgo
  obtain ⟨opened, request, sessions, hfrom⟩ := handle_evaluated host heval
  obtain ⟨headers, conflict, -, hconflict, hcontinue, -⟩ := handle_verdict host s _ heval
  obtain ⟨-, -, -, -, hnone⟩ := (verdict_continue_iff ..).mp (hcontinue.symm.trans hgo)
  obtain ⟨result, hfold⟩ := hconflict.mp hnone
  have hserial : (installed.2.pluginRef.mode s.disabled).canModify = true := by
    rw [PluginRef.mode, if_neg hactive, hmode]
    rfl
  have houter := execute_single_extensions (.routes host plan) config installed.2 payload
    extensions contextTable s.disabled s hserial hgo fun ctx => rfl
  rw [hfrom.settles, settle_modifiedExtensions_eq] at houter
  refine ⟨e, _, heval, houter, ?_⟩
  rw [staysWithin_iff hfold]
  cases hhanded : handedOver e with
  | none =>
    -- Nothing is merged, and the constraint stays.
    refine iff_of_true ?_ fun _ c h => absurd h.symm (Option.some_ne_none c)
    rw [Option.map_none, takenOver, hcarries]
    exact .self c₀
  | some constraint =>
    -- The handler may write a constraint, so the gate does not look at it.
    have hgate : mergeGate extensions
        { e.request.extensions.cowCopy with candidateConstraint := constraint }
        installed.2.capabilities =
          mergeGate extensions e.request.extensions.cowCopy installed.2.capabilities := by
      simp [mergeGate, Extensions.candidateConstraintWriteOk, hcap, Extensions.validateImmutable,
        labelsOk]
    rw [Option.map_some, takenOver_candidateConstraint, hgate, hcarries]
    simp only [Option.some.injEq, forall_eq']
    split
    · next hpass => exact ⟨fun h _ => h, fun h => h hpass⟩
    · next hpass => exact iff_of_true (.self c₀) fun h => absurd h hpass

end

/-! ### Two hooks that restrict -/

section
attribute [local instance] Platform.bare

/-- A handler that restricts where requests go, and does nothing else. -/
def restrictingHandler (entityType hookName : String) (spec : RestrictSpec) : Annotation :=
  installHandler plainVisitor none entityType "*" none hookName .pre
    { routeKey := entityType ++ ":*", policy := [.restrict spec] } ∅

/-- The handler of the HTTP request, which keeps requests in the region. -/
def regionHandler : Annotation :=
  restrictingHandler "http" "cmf.http_request" { allowRegions := some (.literal ["eu"]) }

/-- The handler of the model call, which asks for a label. -/
def gpuHandler : Annotation :=
  restrictingHandler "llm" "cmf.llm_input" { custom := [("gpu", "h100")] }

/-- What the handlers restrict to, and what they fold that to. -/
def regionRestrict : CandidateConstraint := { allowRegions := some ["eu"] }

def gpuRestrict : CandidateConstraint := { custom := [("gpu", "h100")] }

def regionConstraint : CandidateConstraintExtension := { allowRegions := some ["eu"] }

def gpuConstraint : CandidateConstraintExtension := { custom := [("gpu", "h100")] }

/-- A request that carries a constraint at most. -/
def carrying (constraint : Option CandidateConstraintExtension) : Extensions where
  candidateConstraint := constraint

/-- A handler on a request. -/
def restrictingRun (handler : Annotation) (extensions : Extensions) :
    HandlerRun Unit (HashMap String (Finset String)) :=
  handle plainHost freshServer ⟨handler.2.handler, {}, ⟨{ role := .user }⟩,
    serialView extensions handler.2.capabilities⟩

/-- The extensions the pipeline that calls the handler reports. -/
def restrictingOuter (handler : Annotation) (extensions : Extensions) : Option Extensions :=
  (execute (.routes plainHost {}) {} [handler.2] ⟨{ role := .user }⟩ extensions none
    freshServer.disabled freshServer).result.modifiedExtensions

/-- An evaluation of a handler that allows, restricts to `c` and folds that to `folded`. -/
structure FoldsTo (handler : Annotation) (extensions : Extensions) (c : CandidateConstraint)
    (folded : CandidateConstraintExtension) (e : Evaluated Unit) : Prop where
  evaluated : (restrictingRun handler extensions).evaluated = some e
  allows : e.decision.decision = .allow
  pending : e.decision.pending = none
  persisted : e.persisted = .ok ()
  emits : e.decision.constraints = [c]
  folds : foldCandidateConstraints [c] = .ok (some folded)
  merges : takenOver extensions handler.2.capabilities
    (some { e.request.extensions.cowCopy with candidateConstraint := some folded }) =
      carrying (some folded)

variable {constraint : Option CandidateConstraintExtension}

theorem FoldsTo.continues (h : FoldsTo handler (carrying constraint) c folded e) :
    (restrictingRun handler (carrying constraint)).result.continueProcessing = true := by
  obtain ⟨headers, conflict, hpeek, hconflict, hcontinue, -⟩ :=
    handle_verdict plainHost freshServer _ h.evaluated
  have hno : elicitationPeekFromHeaders (serialView (carrying constraint) handler.2.capabilities) =
      false := by
    rfl
  unfold restrictingRun
  rw [hcontinue, verdict_continue_iff, hpeek, hconflict]
  refine ⟨h.allows, h.pending, fun hpeeks => ?_, h.persisted, _, h.emits ▸ h.folds⟩
  exact absurd hpeeks.1 (by rw [hno]; exact Bool.false_ne_true)

theorem regionHandler_folds (constraint : Option CandidateConstraintExtension) :
    ∃ e, FoldsTo regionHandler (carrying constraint) regionRestrict regionConstraint e := by
  refine ⟨_, rfl, rfl, rfl, rfl, rfl, ?_, rfl⟩
  simp [foldCandidateConstraints, foldConstraint, regionRestrict, intersectInto, insertAll,
    strictest, CandidateConstraintExtension.isEmpty, regionConstraint, bind, Except.bind, pure,
    Except.pure]

theorem gpuHandler_folds (constraint : Option CandidateConstraintExtension) :
    ∃ e, FoldsTo gpuHandler (carrying constraint) gpuRestrict gpuConstraint e := by
  refine ⟨_, rfl, rfl, rfl, rfl, rfl, ?_, rfl⟩
  simp [foldCandidateConstraints, foldConstraint, gpuRestrict, intersectInto, insertAll,
    insertCustom, List.insertKey, strictest, CandidateConstraintExtension.isEmpty,
    gpuConstraint, bind, Except.bind, pure, Except.pure]

/-- What the executor reports of such a handler: the constraint is replaced. -/
theorem FoldsTo.reports (h : FoldsTo handler (carrying constraint) c folded e)
    (hserial : (handler.2.pluginRef.mode freshServer.disabled).canModify = true) :
    restrictingOuter handler (carrying constraint) = some (carrying (some folded)) := by
  obtain ⟨opened, request, sessions, hfrom⟩ := handle_evaluated plainHost h.evaluated
  have hhanded : handedOver e = some (some folded) := by rw [handedOver, h.emits, h.folds]
  have houter := execute_single_extensions (.routes plainHost {}) {} handler.2 ⟨{ role := .user }⟩
    (carrying constraint) none freshServer.disabled freshServer hserial h.continues fun ctx => rfl
  unfold restrictingOuter
  rw [houter]
  unfold restrictingRun
  rw [hfrom.settles, settle_modifiedExtensions_eq, hhanded, Option.map_some, h.merges]

/-- A model call that only asks for what the request asks for already keeps its constraint. -/
theorem restriction_narrows_repeated :
    ∃ e outer, (restrictingRun gpuHandler (carrying (some gpuConstraint))).evaluated = some e ∧
      restrictingOuter gpuHandler (carrying (some gpuConstraint)) = some outer ∧
      KeepsWithin gpuConstraint outer.candidateConstraint := by
  have hinstalled : InstalledFor plainVisitor
      { routeKey := "llm" ++ ":*", policy := [.restrict { custom := [("gpu", "h100")] }] } ∅
      gpuHandler := ⟨none, "llm", "*", none, "cmf.llm_input", .pre, rfl⟩
  obtain ⟨e, hfolds⟩ := gpuHandler_folds (some gpuConstraint)
  obtain ⟨e', outer, heval, houter, hiff⟩ := restriction_narrows_iff plainHost hinstalled {} {}
    ⟨{ role := .user }⟩ (carrying (some gpuConstraint)) none freshServer (Finset.notMem_empty _)
    gpuConstraint rfl hfolds.continues
  refine ⟨e', outer, heval, houter, hiff.mpr fun _ => ?_⟩
  obtain rfl : e = e' := Option.some.inj (hfolds.evaluated.symm.trans heval)
  have hasks : gpuRestrict ∈ e.decision.constraints := hfolds.emits ▸ List.mem_singleton_self _
  exact ⟨fun _ backend tierRank _ heach => heach gpuRestrict hasks,
    fun hall => absurd (hall gpuRestrict hasks) (by decide)⟩

/-- The HTTP request is kept in the region. The model call that follows asks for a label, and then
goes to a backend elsewhere. -/
theorem restriction_replaced :
    (restrictingRun regionHandler (carrying none)).result.continueProcessing = true ∧
      restrictingOuter regionHandler (carrying none) = some (carrying (some regionConstraint)) ∧
      (restrictingRun gpuHandler
        (carrying (some regionConstraint))).result.continueProcessing = true ∧
      restrictingOuter gpuHandler (carrying (some regionConstraint)) =
        some (carrying (some gpuConstraint)) ∧
      acceptedBy (some gpuConstraint) (fun k => [("region", "us"), ("gpu", "h100")].lookup k)
        (fun _ => none) = true ∧
      regionConstraint.accepts (fun k => [("region", "us"), ("gpu", "h100")].lookup k)
        (fun _ => none) = false := by
  obtain ⟨e, hregion⟩ := regionHandler_folds none
  obtain ⟨e', hgpu⟩ := gpuHandler_folds (some regionConstraint)
  exact ⟨hregion.continues, hregion.reports rfl, hgpu.continues, hgpu.reports rfl, by decide,
    by decide⟩

end

end Cpex.Core
