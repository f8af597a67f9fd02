import Cpex.Native.Executor
import Cpex.Native.HookPayloads

/-! # The CIBA approver

`builtins/plugins/elicitation-ciba/src/{approver,store}.rs`: the handler of the elicitation hook
that asks a human through an OpenID provider. The provider, the clock and the decoding of tokens
are parameters; the client's credentials and the deserialisation of its configuration are left
out. -/

namespace Cpex.Core.Ciba

/-! ### The correlation store -/

/-- `Correlation`. `origin` is not in the source: it records what was asked. -/
structure Correlation where
  expectedApprover : String
  resolvedApprover : Option String
  origin : ElicitOrigin

/-- `InMemoryCorrelationStore`. -/
abbrev CorrelationStore := HashMap String Correlation

/-- `set_resolved_approver`. -/
def CorrelationStore.setResolvedApprover (inner : CorrelationStore) (id approver : String) :
    CorrelationStore :=
  match inner.lookup id with
  | some c => inner.insert id { c with resolvedApprover := some approver }
  | none => inner

/-! ### The provider -/

/-- How the POST to the backchannel endpoint ended. -/
inductive BackchannelAnswer where
  | timedOut (e : String)
  | unreachable (e : String)
  | rejected (status body : String)
  | malformed (e : String)
  | accepted (authReqId : String) (expiresIn : Option Int)

/-- How the poll of the token endpoint ended. `error` is the code of a body that reads as an
    `OAuthError`, and empty otherwise. -/
inductive TokenAnswer where
  | timedOut (e : String)
  | unreachable (e : String)
  | malformed (e : String)
  | issued (idToken accessToken : Option String)
  | refused (status body error : String)

/-- An OpenID provider with state `ω`. -/
structure OpenIdProvider (ω : Type) where
  backchannel : List (String × String) → ω → BackchannelAnswer × ω
  token : List (String × String) → ω → TokenAnswer × ω
  /-- `decode_jwt_claim`. -/
  decodeJwtClaim : String → String → Option String
  /-- The time so many seconds from now, through `to_rfc3339`. -/
  expiresAt : ω → Int → String

/-- `CibaConfig`. -/
structure CibaConfig where
  backchannelEndpoint : String
  tokenEndpoint : String
  scope : String := "openid"
  defaultRequestedExpirySeconds : Nat := 300
  approverClaim : String := "preferred_username"

/-- One approver's store, and its provider's state. -/
structure CibaState (ω : Type) where
  store : CorrelationStore := ∅
  op : ω

/-! ### Helpers -/

/-- `str::parse::<u64>`. -/
def parseU64 (s : String) : Option Nat :=
  let digits := match s.toList with
    -- `parse` accepts a plus sign.
    | '+' :: rest => rest
    | cs => cs
  (Text.parseDigits digits).filter (· < 2 ^ 64)

/-- `parse_duration_secs`; the product is a `u64`. -/
def parseDurationSecs (s : String) : Option Nat :=
  let cs := Text.trimChars s.toList
  let scaled (num : List Char) (mult : Nat) : Option Nat :=
    (parseU64 (String.ofList (Text.trimChars num))).map fun n => n * mult % 2 ^ 64
  cs.getLast?.bind fun last =>
    match last with
    | 's' => scaled cs.dropLast 1
    | 'm' => scaled cs.dropLast 60
    | 'h' => scaled cs.dropLast 3600
    | 'd' => scaled cs.dropLast 86400
    -- A bare number counts seconds.
    | c => if c.isDigit then scaled cs 1 else none

/-- The loop of `sanitize_binding_message`. -/
def bindingChars : List Char → List Char → Bool → List Char
  | [], out, _ => out
  | ch :: cs, out, prevDash =>
    if ch.isAlphanum then bindingChars cs (out ++ [ch]) false
    else if Text.isWhitespace ch && !out.isEmpty && !prevDash then
      -- A run of whitespace becomes one dash; other characters are dropped.
      bindingChars cs (out ++ ['-']) true
    else bindingChars cs out prevDash

/-- `sanitize_binding_message`. -/
def sanitizeBindingMessage (purpose : String) : String :=
  let capped := (bindingChars purpose.toList [] false).take 50
  String.ofList (capped.reverse.dropWhile (· == '-')).reverse

/-- `deny`. -/
def deny (code reason : String) : ErasedResultFields ElicitationPayload :=
  { continueProcessing := false, violation := some (.new code reason) }

/-- `PluginResult::modify_payload`. -/
def modifyPayload (out : ElicitationPayload) : ErasedResultFields ElicitationPayload :=
  { modifiedPayload := some out }

/-- `invalid`: a verdict, not a failure. -/
def invalid (payload : ElicitationPayload) (reason : String) :
    ErasedResultFields ElicitationPayload :=
  modifyPayload { payload with valid := some false, reason := some reason }

/-! ### The operations -/

section
variable {ω : Type} (config : CibaConfig) (op : OpenIdProvider ω) (payload : ElicitationPayload)
  (s : CibaState ω)

/-- The form `do_dispatch` posts. -/
def dispatchForm : List (String × String) :=
  let requestedExpiry := (payload.timeout.bind parseDurationSecs).getD
    config.defaultRequestedExpirySeconds
  let bindingMessage := (payload.purpose.map sanitizeBindingMessage).filter (· ≠ "")
  [("scope", config.scope), ("login_hint", payload.from),
    ("requested_expiry", toString requestedExpiry)] ++
    (bindingMessage.map fun bm => ("binding_message", bm)).toList

/-- `do_dispatch`. -/
def doDispatch : ErasedResultFields ElicitationPayload × CibaState ω :=
  if payload.from = "" then
    (deny "elicitation.bad_request" ("CIBA dispatch requires a resolved approver (login_hint) — " ++
      "`from` resolved to empty"), s)
  else
    let (answer, opState) := op.backchannel (dispatchForm config payload) s.op
    let s := { s with op := opState }
    match answer with
    | .timedOut e =>
      (deny "elicitation.op_timeout" ("CIBA backchannel POST timed out: " ++ e), s)
    | .unreachable e =>
      (deny "elicitation.op_unreachable"
        ("CIBA backchannel POST to " ++ config.backchannelEndpoint ++ " failed: " ++ e), s)
    | .rejected status body =>
      (deny "elicitation.op_rejected"
        ("CIBA backchannel rejected (" ++ status ++ "): " ++ body), s)
    | .malformed e =>
      (deny "elicitation.bad_response"
        ("CIBA backchannel response wasn't valid JSON: " ++ e), s)
    | .accepted id expiresIn =>
      -- From here on the approver knows the elicitation by this id, and whom it asked.
      (modifyPayload { payload with
        id := some id
        status := some .pending
        approver := some payload.from
        expiresAt := expiresIn.map (op.expiresAt s.op) },
        { s with store := s.store.insert id ⟨payload.from, none, payload.origin⟩ })

/-- `GRANT_TYPE_CIBA`. -/
def grantTypeCiba : String := "urn:openid:params:grant-type:ciba"

/-- The payload `do_check` returns for a state of the elicitation. -/
def checkedPayload (status : ElicitationStatusKind) (outcome : Option ElicitationOutcomeKind) :
    ErasedResultFields ElicitationPayload :=
  modifyPayload { payload with status := some status, outcome }

/-- The state of an elicitation by the error code of a poll, if the code stands for one. -/
def lifecycle : String → Option (ElicitationStatusKind × Option ElicitationOutcomeKind)
  | "authorization_pending" | "slow_down" => some (.pending, none)
  | "expired_token" => some (.expired, none)
  | "access_denied" => some (.resolved, some .denied)
  | _ => none

/-- The poll of `do_check`. -/
def pollToken (id : String) : ErasedResultFields ElicitationPayload × CibaState ω :=
  let (answer, opState) := op.token [("grant_type", grantTypeCiba), ("auth_req_id", id)] s.op
  let s := { s with op := opState }
  match answer with
  | .timedOut e => (deny "elicitation.op_timeout" ("CIBA token poll timed out: " ++ e), s)
  | .unreachable e =>
    (deny "elicitation.op_unreachable"
      ("CIBA token poll to " ++ config.tokenEndpoint ++ " failed: " ++ e), s)
  | .malformed e =>
    (deny "elicitation.bad_response" ("CIBA token response wasn't valid JSON: " ++ e), s)
  | .issued idToken accessToken =>
    -- The id token is preferred, since it carries the claims of the user.
    let approver := (idToken.or accessToken).bind fun token =>
      op.decodeJwtClaim token config.approverClaim
    let store := match approver with
      | some a => s.store.setResolvedApprover id a
      -- An approval without the claim is reported all the same; `validate` will reject it.
      | none => s.store
    (checkedPayload payload .resolved (some .approved), { s with store })
  | .refused status body error =>
    match lifecycle error with
    | some (kind, outcome) => (checkedPayload payload kind outcome, s)
    | none =>
      (deny "elicitation.op_rejected"
        ("CIBA token poll failed (" ++ status ++ "): " ++ body), s)

/-- `do_check`: an approval that was seen before is replayed. -/
def doCheck : ErasedResultFields ElicitationPayload × CibaState ω :=
  match payload.elicitationId with
  | none => (deny "elicitation.bad_request" "CIBA check requires an elicitation id", s)
  | some id =>
    if (s.store.lookup id).any (·.resolvedApprover.isSome) then
      (checkedPayload payload .resolved (some .approved), s)
    else pollToken config op payload s id

/-- `do_validate`. -/
def doValidate : ErasedResultFields ElicitationPayload :=
  match payload.elicitationId with
  | none => deny "elicitation.bad_request" "CIBA validate requires an elicitation id"
  | some id =>
    match s.store.lookup id with
    | none => invalid payload "unknown elicitation id"
    | some correlation =>
      match correlation.resolvedApprover with
      | none =>
        invalid payload ("elicitation has no resolved approver (no `" ++ config.approverClaim ++
          "` claim was extracted at check, or it hasn't resolved)")
      | some resolved =>
        let out := { payload with approver := some resolved }
        if resolved = correlation.expectedApprover then modifyPayload { out with valid := some true }
        else
          modifyPayload { out with
            valid := some false
            reason := some ("approver mismatch: token names `" ++ resolved ++ "`, expected `" ++
              correlation.expectedApprover ++ "`") }

/-- `CibaApprover::handle`. -/
def handle : ErasedResultFields ElicitationPayload × CibaState ω :=
  match payload.operation with
  | .dispatch => doDispatch config op payload s
  | .check => doCheck config op payload s
  | .validate => (doValidate config payload s, s)

end

/-- The approvers of a host, each with its own state. -/
def handleOf {η ω : Type} [DecidableEq η] (configs : η → CibaConfig) (op : OpenIdProvider ω)
    (handler : η) (payload : ElicitationPayload) (world : η → CibaState ω) :
    ErasedResultFields ElicitationPayload × (η → CibaState ω) :=
  let (result, s) := handle (configs handler) op payload (world handler)
  (result, Function.update world handler s)

end Cpex.Core.Ciba
