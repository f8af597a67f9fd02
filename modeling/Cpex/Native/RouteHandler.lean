import Cpex.Native.Bag
import Cpex.Native.ConstraintFold
import Cpex.Native.Invokers
import Cpex.Native.Session
import Cpex.Native.Visitor

/-! # The synthetic handler of a route

`apl-cpex/src/route_handler.rs`, with the request and session bookkeeping of
`apl-cpex/src/cmf_invoker.rs`: open the request, evaluate the route, write the session labels
back, and turn the decision into the fields the executor reads. -/

namespace Cpex

/-- `get_header_ci`. -/
def getHeaderCi [Platform] (headers : HashMap String String) (name : String) : Option String :=
  (headers.entries.find? fun e =>
    Platform.toLowercase e.1 == Platform.toLowercase name).map (·.2)

/-- `HttpExtension::get_request_header`. -/
def HttpExtension.getRequestHeader [Platform] (self : HttpExtension) (name : String) :
    Option String :=
  getHeaderCi self.requestHeaders name

/-- `HttpExtension::set_request_header`. -/
def HttpExtension.setRequestHeader (self : HttpExtension) (name value : String) :
    HttpExtension :=
  { self with requestHeaders := self.requestHeaders.insert name value }

/-- `HttpExtension::add_request_header`, with whether it was added. -/
def HttpExtension.addRequestHeader [Platform] (self : HttpExtension) (name value : String) :
    Bool × HttpExtension :=
  if (self.getRequestHeader name).isSome then (false, self)
  else (true, self.setRequestHeader name value)

/-- `remove_header_ci`, with the value that was removed. -/
def removeHeaderCi [Platform] (headers : HashMap String String) (name : String) :
    Option String × HashMap String String :=
  match headers.entries.find? fun e => Platform.toLowercase e.1 == Platform.toLowercase name with
  | some e => (some e.2, headers.erase e.1)
  | none => (none, headers)

/-- `HttpExtension::remove_request_header`. -/
def HttpExtension.removeRequestHeader [Platform] (self : HttpExtension) (name : String) :
    Option String × HttpExtension :=
  let (value, headers) := removeHeaderCi self.requestHeaders name
  (value, { self with requestHeaders := headers })

namespace Core

variable {η σ τ : Type}

/-! ### Opening and closing a request -/

/-- `hydrate_labels`. -/
def hydrateLabels (extensions : Extensions) (labels : List String) : Extensions :=
  let security := extensions.security.getD {}
  { extensions with
    security := some { security with labels := security.labels ∪ labels.toFinset } }

/-- The fields of `CmfPluginInvoker` that stay as `for_request` set them. -/
structure OpenedRequest where
  sessionId : Option String
  initialLabels : Finset String

/-- The request `for_request` opens on the labels that were `stored`. -/
def openRequest (sessionId : Option String) (stored : List String) (extensions : Extensions)
    (payload : MessagePayload) (disabled : Finset Uuid) (world : σ) :
    OpenedRequest × RequestState σ :=
  let hydrated := if stored.isEmpty then extensions else hydrateLabels extensions stored
  (⟨sessionId, snapshotLabels hydrated⟩,
    { extensions := hydrated
      payload
      replaced := { security := !stored.isEmpty }
      disabled
      world })

/-- `CmfPluginInvoker::for_request`. -/
def forRequest (store : SessionStore τ) (shortHash : String → String) (extensions : Extensions)
    (payload : MessagePayload) (disabled : Finset Uuid) (world : σ) (sessions : τ) :
    Except SessionStoreError (OpenedRequest × RequestState σ) × τ :=
  match (resolveSession shortHash extensions).map Prod.fst with
  | none => (.ok (openRequest none [] extensions payload disabled world), sessions)
  | some sid =>
    let (answer, sessions) := store.loadLabels sid sessions
    (answer.map fun stored => openRequest (some sid) stored extensions payload disabled world,
      sessions)

/-- The labels of the taints in the session's scope. -/
def sessionLabels (taints : List TaintEvent) : List String :=
  (taints.filter fun t => t.scopes.contains .session).map (·.label)

/-- `CmfPluginInvoker::apply_session_taints`. -/
def applySessionTaints (taints : List TaintEvent) (st : RequestState σ) : RequestState σ :=
  let labels := sessionLabels taints
  if labels.isEmpty then st
  else
    { st with
      extensions := hydrateLabels st.extensions labels
      replaced := st.replaced.or { security := true } }

/-- `CmfPluginInvoker::persist_session`. -/
def persistSession (store : SessionStore τ) (opened : OpenedRequest) (st : RequestState σ)
    (sessions : τ) : Except SessionStoreError Unit × τ :=
  match opened.sessionId, st.extensions.security with
  | some sid, some security =>
    let newLabels := (security.labels \ opened.initialLabels).sort (· ≤ ·)
    if newLabels.isEmpty then (.ok (), sessions) else store.appendLabels sid newLabels sessions
  | _, _ => (.ok (), sessions)

/-! ### Violations -/

/-- `decorate_denial_response`. -/
def decorateDenialResponse (violation : PluginViolation) (response : Option DenyResponse) :
    PluginViolation :=
  match response with
  | none => violation
  | some resp =>
    let details := violation.details
    let details := match resp.status with
      | some status => details.insert "http.status" (.number (.posInt status))
      | none => details
    let details := match resp.body with
      | some body => details.insert "http.body" (.string body)
      | none => details
    let details :=
      if resp.headers.isEmpty then details
      else details.insert "http.headers" (.object (resp.headers.map fun h => (h.1, .string h.2)))
    { violation with details }

/-- `details.insert(key, value)` behind an `if let Some(..)`. -/
def insertText (details : HashMap String Json) (key : String) (value : Option String) :
    HashMap String Json :=
  match value with
  | some v => details.insert key (.string v)
  | none => details

/-- `pending_violation`. -/
def pendingViolation (p : PendingElicitation) : PluginViolation :=
  let details : HashMap String Json :=
    ((∅ : HashMap String Json).insert "elicitation_id" (.string p.id)).insert "plugin"
      (.string p.pluginName)
  let details := insertText details "approver" p.approver
  let details := insertText details "channel" p.channel
  let details := insertText details "expires_at" p.expiresAt
  let details := insertText details "intent_id" p.intentId
  { code := "elicitation.pending"
    reason := "awaiting approval `" ++ p.id ++ "` via `" ++ p.pluginName ++
      "` — retry with this id"
    details
    protoErrorCode := some (-32120) }

/-- `approved_peek_violation`. -/
def approvedPeekViolation (bag : AttributeBag) : PluginViolation where
  code := "elicitation.approved"
  reason := "approved — confirm to apply (re-send without the peek header)"
  details := insertText (insertText ∅ "elicitation_id" (bag.getString ElicitationBagKeys.id))
    "approver" (bag.getString ElicitationBagKeys.approver)
  protoErrorCode := some (-32121)

/-- `ELICITATION_ID_HEADER`. -/
def elicitationIdHeader : String := "X-Policy-Elicitation-Id"

/-- `ELICITATION_PEEK_HEADER`. -/
def elicitationPeekHeader : String := "X-Policy-Elicitation-Peek"

section
variable [Platform]

/-- `elicitation_id_from_headers`. -/
def elicitationIdFromHeaders (ext : Extensions) : Option String :=
  (ext.http.bind (·.getRequestHeader elicitationIdHeader)).filter (· ≠ "")

/-- `elicitation_peek_from_headers`. -/
def elicitationPeekFromHeaders (ext : Extensions) : Bool :=
  (ext.http.bind (·.getRequestHeader elicitationPeekHeader)).any fun v =>
    v != "" && !Text.eqIgnoreAsciiCase v "false" && v != "0"

end

/-! ### The verdict -/

/-- The variables `continue_processing` and `violation`. -/
structure Verdict where
  continueProcessing : Bool
  violation : Option PluginViolation

namespace Verdict

/-- The verdict of the policy. -/
def ofDecision (response : Option DenyResponse) : Decision → Verdict
  | .allow => ⟨true, none⟩
  | .deny reason ruleSource =>
    let code := if ruleSource = "" then "policy.deny" else ruleSource
    ⟨false, some (decorateDenialResponse
      (.new code (reason.getD "access denied")) response)⟩

/-- A suspended phase does not go on. -/
def suspend (pending : Option PendingElicitation) (v : Verdict) : Verdict :=
  match pending with
  | some p => ⟨false, some (pendingViolation p)⟩
  | none => v

/-- Stop with `violation` when something `failed`, unless the verdict is to stop already. -/
def stopIf (failed : Bool) (violation : PluginViolation) (v : Verdict) : Verdict :=
  if v.continueProcessing && failed then ⟨false, some violation⟩ else v

end Verdict

/-! ### Modifications -/

/-- `extensions_changed`. -/
def extensionsChanged (replaced : Replaced) : Bool :=
  replaced.security || replaced.delegation || replaced.rawCredentials

/-- The extensions a handler returns. -/
def modifiedExtensions (request : RequestState σ)
    (folded : Option CandidateConstraintExtension) : Option OwnedExtensions :=
  let owned :=
    if extensionsChanged request.replaced then some request.extensions.cowCopy else none
  match folded with
  | some constraint =>
    some { owned.getD request.extensions.cowCopy with candidateConstraint := some constraint }
  | none => owned

/-- The payload a handler returns, for the message it was given. -/
def modifiedPayload (phase : Phase) (given : Message) (decision : RouteDecision)
    (routePayload : RoutePayload) (request : RequestState σ) : Option MessagePayload :=
  let final := request.payload.message
  if decision.argsModified then
    match phase with
    | .pre =>
      let merged := applyChangedPaths (extractArgsFromMessage final)
        (extractArgsFromMessage given) routePayload.args
      some ⟨writeArgsBackToMessage final merged⟩
    -- Arguments are not written back after the invocation.
    | .post => some ⟨final⟩
  else if decision.resultModified then
    match phase, routePayload.result with
    | .post, some result =>
      let merged := applyChangedPaths (extractResultFromMessage final)
        (extractResultFromMessage given) result
      some ⟨writeResultBackToMessage final merged⟩
    | _, _ => some ⟨final⟩
  else if request.payloadModified then some request.payload
  else none

/-! ### The handler -/

/-- What a handler is wired to. -/
structure HandlerHost (η σ τ : Type) extends RouteHost η σ where
  sessionStore : SessionStore τ
  shortHash : String → String
  attributeTree : Json := .object []

/-- A request as its route leaves it: what `for_request` fixed, the decision and the phase it
    was made in, the request with the taints applied, and whether the labels were persisted. -/
structure Evaluated (σ : Type) where
  opened : OpenedRequest
  decision : RouteDecision
  phase : PhaseState (RequestState σ)
  request : RequestState σ
  persisted : Except SessionStoreError Unit

/-- What `AplRouteHandler::invoke` returns and leaves behind. `evaluated` is not in the source:
    it is what the route came to, if it was evaluated. -/
structure HandlerRun (σ τ : Type) where
  result : ErasedResultFields MessagePayload
  sessions : τ
  disabled : Finset Uuid
  world : σ
  evaluated : Option (Evaluated σ)

section
variable [Platform]

/-- The bag a route is evaluated against. -/
def requestBag (attributeTree : Json) (routeKey : String) (ext : Extensions) : AttributeBag :=
  let bag := buildBag ext routeKey attributeTree
  -- A retry echoes the id of the elicitation it waits for.
  match elicitationIdFromHeaders ext with
  | some elicitationId => bag.set ElicitationBagKeys.id (.string elicitationId)
  | none => bag

namespace AplRouteHandler

variable (self : AplRouteHandler) (host : HandlerHost η σ τ) (plan : RouteDispatchPlan η)

/-- The state the handler's phase starts in. -/
def startPhase (payload : MessagePayload) (request : RequestState σ) :
    PhaseState (RequestState σ) :=
  let request := { request with routeKey := self.route.routeKey }
  let bag := requestBag host.attributeTree self.route.routeKey request.extensions
  let args := extractArgsFromMessage payload.message
  match self.phase with
  | .pre => ⟨extractArgs args bag, { args }, request, []⟩
  | .post =>
    let result := extractResultFromMessage payload.message
    ⟨extractResult result (extractArgs args bag), { args, result := some result }, request, []⟩

/-- The evaluation of the route in the handler's phase. -/
def evaluate (payload : MessagePayload) (request : RequestState σ) :
    RouteDecision × PhaseState (RequestState σ) :=
  let start := self.startPhase host payload request
  match self.phase with
  | .pre => evaluatePre (routeEnv host.toRouteHost plan) self.route start
  | .post => evaluatePost (routeEnv host.toRouteHost plan) self.route start

/-- The verdict on an evaluated request; `headers` are the extensions before the evaluation. -/
def verdict (evaluated : Evaluated σ) (headers : Extensions)
    (conflict : Option ConstraintConflict) : Verdict :=
  let response := self.route.response
  let bag := evaluated.phase.bag
  let v := Verdict.ofDecision response evaluated.decision.decision
  let v := v.suspend evaluated.decision.pending
  -- From here on only a verdict to continue is turned into a stop, so the first reason stays.
  let v := v.stopIf
    (elicitationPeekFromHeaders headers &&
      bag.getString ElicitationBagKeys.outcome == some "approved")
    (approvedPeekViolation bag)
  let v := v.stopIf (!evaluated.persisted.isOk)
    (decorateDenialResponse
      (.new "session.persist_failed" "session state could not be persisted") response)
  v.stopIf conflict.isSome
    (.new "policy.restrict_conflict" ((conflict.map (·.toText)).getD ""))

/-- The evaluation of an opened request, up to writing its labels back. -/
def evaluateOpened (payload : MessagePayload) (opened : OpenedRequest)
    (request : RequestState σ) (sessions : τ) : Evaluated σ × τ :=
  let (decision, phase) := self.evaluate host plan payload request
  -- The labels are written back also for a request that will be denied.
  let final := applySessionTaints decision.taints phase.world
  let (persisted, sessions) := persistSession host.sessionStore opened final sessions
  (⟨opened, decision, phase, final, persisted⟩, sessions)

/-- The fields returned for an evaluated request. -/
def settle (payload : MessagePayload) (evaluated : Evaluated σ) (headers : Extensions) :
    ErasedResultFields MessagePayload :=
  let (folded, conflict) := match foldCandidateConstraints evaluated.decision.constraints with
    | .ok folded => (folded, none)
    | .error e => (none, some e)
  let verdict := self.verdict evaluated headers conflict
  { continueProcessing := verdict.continueProcessing
    modifiedPayload := modifiedPayload self.phase payload.message evaluated.decision
      evaluated.phase.payload evaluated.request
    modifiedExtensions := modifiedExtensions evaluated.request folded
    violation := verdict.violation }

/-- `AplRouteHandler::invoke`. -/
def invoke (payload : MessagePayload) (extensions : Extensions) (disabled : Finset Uuid)
    (world : σ) (sessions : τ) : HandlerRun σ τ :=
  match forRequest host.sessionStore host.shortHash extensions payload disabled world sessions with
  -- Without the session's labels the route is not evaluated at all.
  | (.error _, sessions) =>
    { result :=
        { continueProcessing := false
          violation := some (decorateDenialResponse
            (.new "session.load_failed" "session state could not be loaded")
            self.route.response) }
      sessions, disabled, world
      evaluated := none }
  | (.ok (opened, request), sessions) =>
    let (evaluated, sessions) := self.evaluateOpened host plan payload opened request sessions
    { result := self.settle payload evaluated request.extensions
      sessions
      disabled := evaluated.request.disabled
      world := evaluated.request.world
      evaluated := some evaluated }

end AplRouteHandler

end

end Core

end Cpex
