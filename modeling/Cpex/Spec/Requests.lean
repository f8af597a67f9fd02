import Cpex.Native.RouteHandler
import Cpex.Spec.PipelineRun

/-! # Runs of requests

The handlers of all routes share the plugins' state, the plugins that were disabled and the
session store. A run handles one request after the other, each with its own handler.
-/

namespace Cpex.Core

variable {η σ τ : Type}

/-- A request on its way to the handler of its route: the extensions are those the executor
    hands to the handler. -/
structure RoutedRequest (η : Type) where
  handler : AplRouteHandler
  plan : RouteDispatchPlan η
  payload : MessagePayload
  extensions : Extensions

/-- What requests leave behind for later ones. -/
structure ServerState (σ τ : Type) where
  sessions : τ
  disabled : Finset Uuid
  world : σ

/-- The state after a request. -/
def HandlerRun.next (run : HandlerRun σ τ) : ServerState σ τ :=
  ⟨run.sessions, run.disabled, run.world⟩

/-- A request that opened was opened on the labels of its session, or on none. -/
theorem forRequest_opened
    (h : (forRequest store shortHash extensions payload disabled world sessions).1 =
      .ok (opened, request)) :
    ∃ stored,
      openRequest ((resolveSession shortHash extensions).map Prod.fst) stored extensions payload
        disabled world = (opened, request) ∧
      ∀ sid, (resolveSession shortHash extensions).map Prod.fst = some sid →
        (store.loadLabels sid sessions).1 = .ok stored := by
  unfold forRequest at h
  cases hsid : (resolveSession shortHash extensions).map Prod.fst with
  | none =>
    rw [hsid] at h
    exact ⟨[], Except.ok.inj h, nofun⟩
  | some sid =>
    rw [hsid] at h
    cases hload : (store.loadLabels sid sessions).1 with
    | error e => simp [hload, Except.map] at h
    | ok stored =>
      simp only [hload, Except.map, Except.ok.injEq] at h
      refine ⟨stored, h, ?_⟩
      rintro _ ⟨⟩
      exact hload

section
variable [Platform] (host : HandlerHost η σ τ)

/-- Handle one request. -/
def handle (s : ServerState σ τ) (r : RoutedRequest η) : HandlerRun σ τ :=
  r.handler.invoke host r.plan r.payload r.extensions s.disabled s.world s.sessions

/-- How an evaluated request came about: it was opened, its route was evaluated, the taints were
    applied, the labels were written back, and the handler settled. -/
structure EvaluatedFrom (s : ServerState σ τ) (r : RoutedRequest η) (e : Evaluated σ)
    (opened : OpenedRequest) (request : RequestState σ) (sessions : τ) : Prop where
  opens : forRequest host.sessionStore host.shortHash r.extensions r.payload s.disabled s.world
    s.sessions = (.ok (opened, request), sessions)
  evaluates : r.handler.evaluate host r.plan r.payload request = (e.decision, e.phase)
  taints : e.request = applySessionTaints e.decision.taints e.phase.world
  persists : persistSession host.sessionStore opened e.request sessions =
    (e.persisted, (handle host s r).next.sessions)
  settles : (handle host s r).result = r.handler.settle r.payload e request.extensions

variable {s : ServerState σ τ} {r : RoutedRequest η}

theorem handle_of_opened
    (h : forRequest host.sessionStore host.shortHash r.extensions r.payload s.disabled s.world
      s.sessions = (.ok (opened, request), sessions)) :
    let out := r.handler.evaluateOpened host r.plan r.payload opened request sessions
    (handle host s r).evaluated = some out.1 ∧
      (handle host s r).result = r.handler.settle r.payload out.1 request.extensions ∧
      (handle host s r).next.sessions = out.2 := by
  unfold handle AplRouteHandler.invoke
  rewrite [h]
  exact ⟨rfl, rfl, rfl⟩

theorem handle_evaluated (h : (handle host s r).evaluated = some e) :
    ∃ opened request sessions, EvaluatedFrom host s r e opened request sessions := by
  cases hopen : forRequest host.sessionStore host.shortHash r.extensions r.payload s.disabled
    s.world s.sessions with
  | mk answer sessions =>
  cases answer with
  | error err =>
    unfold handle AplRouteHandler.invoke at h
    rw [hopen] at h
    exact nomatch h
  | ok opening =>
    obtain ⟨opened, request⟩ := opening
    obtain ⟨heval, hresult, hsessions⟩ := handle_of_opened host hopen
    obtain rfl := Option.some.inj (heval.symm.trans h)
    exact ⟨opened, request, sessions, hopen, rfl, rfl, by rw [hsessions]; rfl, hresult⟩

/-- A request the handler lets continue was evaluated. -/
theorem evaluated_of_continue (h : (handle host s r).result.continueProcessing = true) :
    ∃ e, (handle host s r).evaluated = some e := by
  unfold handle AplRouteHandler.invoke at h ⊢
  cases hopen : forRequest host.sessionStore host.shortHash r.extensions r.payload s.disabled
    s.world s.sessions with
  | mk answer sessions =>
  rw [hopen] at h
  cases answer with
  | error err => exact nomatch h
  | ok opening => exact ⟨_, rfl⟩

/-- Handle requests one after the other. -/
def handleAll (s : ServerState σ τ) (requests : List (RoutedRequest η)) : ServerState σ τ :=
  requests.foldl (fun s r => (handle host s r).next) s

/-- The run rule: a preorder every request respects is respected by a run. -/
theorem handleAll_rel (Rel : ServerState σ τ → ServerState σ τ → Prop)
    (hrefl : ∀ s, Rel s s) (htrans : ∀ {s t u}, Rel s t → Rel t u → Rel s u)
    (hstep : ∀ s r, Rel s (handle host s r).next) (s : ServerState σ τ)
    (requests : List (RoutedRequest η)) : Rel s (handleAll host s requests) := by
  induction requests generalizing s with
  | nil => exact hrefl s
  | cons r requests ih => exact htrans (hstep s r) (ih _)

end

/-! ### A small host -/

/-- Handlers that let everything pass. -/
def Runtime.passing {π : Type} : Runtime η π σ := .direct fun _ _ _ world => ({}, world)

/-- A host with an in-memory session store and no policy decision points; its session ids are
    not hashed, and no plugin edits under `parallel`. -/
def HandlerHost.direct (cmf : Runtime η MessagePayload σ)
    (elicitation : Runtime η ElicitationPayload σ) :
    HandlerHost η σ (HashMap String (Finset String)) where
  cmf := cmf
  delegation := .passing
  elicitation := elicitation
  pdp world call _ := (.error (.noResolver call.dialect), world)
  parallel :=
    { fork := fun world _ => world
      join := fun world _ => world
      schedule := fun _ results => results.zipIdx.map fun r => .finished r.2 (.completed r.1)
      admissible := fun _ results => .inOrder _ _ results }
  sharing :=
    { found := (·.toSharedRequest)
      left := fun st _ => st.toSharedRequest
      left_extensions := fun _ _ _ => rfl }
  sessionStore := MemorySessionStore
  shortHash s := s

end Cpex.Core
