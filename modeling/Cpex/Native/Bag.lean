import Cpex.Native.Payload
import Cpex.Native.Extensions

/-! # Extensions in the attribute bag

The extractors of `apl-cmf`, one for each extension slot, and `BagBuilder`, which runs them
before a route is evaluated. -/

namespace Cpex

/-! ### Runs of writes -/

namespace AttributeBag

/-- A run of `if let Some(v) = .. { bag.set(key, v) }`. -/
def setOpts (bag : AttributeBag) (fields : List (String × Option String)) : AttributeBag :=
  fields.foldl (fun bag field => bag.setOpt field.1 field.2) bag

/-- `bag.set(key, items)` unless there are none. -/
def setItems (bag : AttributeBag) (key : String) (items : Finset String) : AttributeBag :=
  if items = ∅ then bag else bag.set key (.stringSet items)

/-- `bag.set(start + item, true)` for each item. -/
def setFlags (bag : AttributeBag) (start : String) (items : List String) : AttributeBag :=
  items.foldl (fun bag item => bag.set (start ++ item) (.bool true)) bag

/-- `bag.set(start + key, value)` for each entry. -/
def setTexts (bag : AttributeBag) (start : String) (entries : HashMap String String) :
    AttributeBag :=
  entries.entries.foldl (fun bag e => bag.set (start ++ e.1) (.string e.2)) bag

/-- `walk(value, start + key, bag)` for each entry. -/
def walkEntries (bag : AttributeBag) (start : String) (entries : HashMap String Json) :
    AttributeBag :=
  entries.entries.foldl (fun bag e => walk e.2 (start ++ e.1) bag) bag

end AttributeBag

/-- The cast `n as i64` of a `u64`. -/
def u64AsI64 (n : Nat) : Int := if n < 2 ^ 63 then n else (n : Int) - 2 ^ 64

/-! ### Security -/

/-- `subject_type_str`. -/
def subjectTypeStr : SubjectType → String
  | .user => "user"
  | .agent => "agent"
  | .service => "service"
  | .system => "system"

/-- `trust_level_str`. -/
def trustLevelStr : ClientTrustLevel → String
  | .firstParty => "first_party"
  | .thirdParty => "third_party"
  | .internal => "internal"
  | .custom name => name

/-- The subject part of `extract_security`. -/
def extractSubject (subject : SubjectExtension) (bag : AttributeBag) : AttributeBag :=
  let bag := bag.setOpt "subject.id" subject.id
  let bag := bag.setOpt "subject.type" (subject.subjectType.map subjectTypeStr)
  let bag := bag.setFlags "role." (subject.roles.sort (· ≤ ·))
  let bag := bag.setFlags "perm." (subject.permissions.sort (· ≤ ·))
  let bag := bag.setItems "subject.teams" subject.teams
  let bag := bag.setFlags "team." (subject.teams.sort (· ≤ ·))
  let bag := bag.setTexts "claim." subject.claims
  if subject.id.isSome then bag.set "authenticated" (.bool true) else bag

/-- `extract_client`. -/
def extractClient (client : ClientExtension) (bag : AttributeBag) : AttributeBag :=
  let bag := bag.set "client.client_id" (.string client.clientId)
  let bag := bag.setOpt "client.client_name" client.clientName
  let bag := bag.set "client.trust_level" (.string (trustLevelStr client.trustLevel))
  let bag := bag.setFlags "client.role." client.roles
  let bag := bag.setFlags "client.perm." client.permissions
  let bag := bag.setItems "client.authorized_scopes" client.authorizedScopes.toFinset
  let bag := bag.setItems "client.authorized_audiences" client.authorizedAudiences.toFinset
  let bag := bag.setItems "client.teams" client.teams.toFinset
  bag.walkEntries "client.claim." client.claims

/-- `extract_workload`; the attestation time is not an attribute. -/
def extractWorkload (start : String) (w : WorkloadIdentity) (bag : AttributeBag) : AttributeBag :=
  let bag := bag.setOpts [(start ++ ".spiffe_id", w.spiffeId),
    (start ++ ".trust_domain", w.trustDomain), (start ++ ".attestor", w.attestor)]
  let bag := bag.setItems (start ++ ".selectors") w.selectors.toFinset
  bag.setOpt (start ++ ".client_id") w.clientId

/-- `if let Some(v) = slot { extract(v, bag) }`. -/
def extractOpt {α : Type} (extract : α → AttributeBag → AttributeBag) (slot : Option α)
    (bag : AttributeBag) : AttributeBag :=
  match slot with
  | some v => extract v bag
  | none => bag

/-- `extract_security`. -/
def extractSecurity (sec : SecurityExtension) (bag : AttributeBag) : AttributeBag :=
  let bag := extractOpt extractSubject sec.subject bag
  let bag := extractOpt extractClient sec.client bag
  let bag := extractOpt (extractWorkload "caller_workload") sec.callerWorkload bag
  let bag := extractOpt (extractWorkload "this_workload") sec.thisWorkload bag
  let bag := bag.setOpt "auth_method" sec.authMethod
  let bag := bag.setItems "security.labels" sec.labels
  bag.setOpt "security.classification" sec.classification

/-! ### The other slots -/

/-- `extract_delegation`. -/
def extractDelegation (del : DelegationExtension) (bag : AttributeBag) : AttributeBag :=
  let bag := bag.set "delegation.depth" (.int del.depth)
  let bag := bag.set "delegation.delegated" (.bool del.delegated)
  let bag := bag.set "delegated" (.bool del.delegated)
  let bag := bag.setOpts [("delegation.origin_subject_id", del.originSubjectId),
    ("delegation.actor_subject_id", del.actorSubjectId)]
  bag.set "delegation.age_seconds" (.float del.ageSeconds)

/-- `extract_agent`. -/
def extractAgent (agent : AgentExtension) (bag : AttributeBag) : AttributeBag :=
  let bag := bag.setOpts [("agent.input", agent.input), ("agent.session_id", agent.sessionId),
    ("agent.conversation_id", agent.conversationId)]
  let bag := extractOpt (fun turn bag => bag.set "agent.turn" (.int turn)) agent.turn bag
  let bag := bag.setOpts [("agent.agent_id", agent.agentId),
    ("agent.parent_agent_id", agent.parentAgentId)]
  extractOpt (fun conv bag =>
    (bag.setOpt "agent.conversation.summary" conv.summary).setItems
      "agent.conversation.topics" conv.topics.toFinset) agent.conversation bag

/-- `extract_meta`. -/
def extractMeta («meta» : MetaExtension) (bag : AttributeBag) : AttributeBag :=
  let bag := bag.setOpts [("meta.entity_type", «meta».entityType),
    ("meta.entity_name", «meta».entityName)]
  let bag := bag.setItems "meta.tags" «meta».tags
  let bag := bag.setOpt "meta.scope" «meta».scope
  bag.setTexts "meta.properties." «meta».properties

/-- `extract_request`. -/
def extractRequest (req : RequestExtension) (bag : AttributeBag) : AttributeBag :=
  bag.setOpts [("request.environment", req.environment), ("request.request_id", req.requestId),
    ("request.timestamp", req.timestamp), ("request.trace_id", req.traceId),
    ("request.span_id", req.spanId)]

/-- `extract_http`; header names are lowercased. -/
def extractHttp [Platform] (http : HttpExtension) (bag : AttributeBag) : AttributeBag :=
  let bag := bag.setOpts [("http.method", http.method), ("http.path", http.path),
    ("http.host", http.host), ("http.scheme", http.scheme)]
  let headers (start : String) (entries : HashMap String String) (bag : AttributeBag) :=
    entries.entries.foldl
      (fun bag e => bag.set (start ++ Platform.toLowercase e.1) (.string e.2)) bag
  headers "http.response_headers." http.responseHeaders
    (headers "http.request_headers." http.requestHeaders bag)

/-- `extract_llm`. -/
def extractLlm (llm : LLMExtension) (bag : AttributeBag) : AttributeBag :=
  (bag.setOpts [("llm.model_id", llm.modelId), ("llm.provider", llm.provider)]).setItems
    "llm.capabilities" llm.capabilities.toFinset

/-- `extract_mcp`. -/
def extractMcp (mcp : MCPExtension) (bag : AttributeBag) : AttributeBag :=
  let bag := extractOpt (fun tool bag =>
    (bag.set "mcp.tool.name" (.string tool.name)).setOpts [("mcp.tool.title", tool.title),
      ("mcp.tool.description", tool.description), ("mcp.tool.server_id", tool.serverId),
      ("mcp.tool.namespace", tool.namespace)]) mcp.tool bag
  let bag := extractOpt (fun res bag =>
    (bag.set "mcp.resource.uri" (.string res.uri)).setOpts [("mcp.resource.name", res.name),
      ("mcp.resource.description", res.description), ("mcp.resource.mime_type", res.mimeType),
      ("mcp.resource.server_id", res.serverId)]) mcp.resource bag
  extractOpt (fun prompt bag =>
    (bag.set "mcp.prompt.name" (.string prompt.name)).setOpts
      [("mcp.prompt.description", prompt.description),
        ("mcp.prompt.server_id", prompt.serverId)]) mcp.prompt bag

/-- `stop_reason_str`. -/
def stopReasonStr : StopReason → String
  | .end => "end"
  | .return => "return"
  | .call => "call"
  | .maxTokens => "max_tokens"
  | .stopSequence => "stop_sequence"

/-- `extract_completion`. -/
def extractCompletion (c : CompletionExtension) (bag : AttributeBag) : AttributeBag :=
  let bag := bag.setOpt "completion.stop_reason" (c.stopReason.map stopReasonStr)
  let bag := extractOpt (fun tu bag =>
    ((bag.set "completion.tokens.input" (.int tu.inputTokens)).set
      "completion.tokens.output" (.int tu.outputTokens)).set
      "completion.tokens.total" (.int tu.totalTokens)) c.tokens bag
  let bag := bag.setOpts [("completion.model", c.model), ("completion.raw_format", c.rawFormat),
    ("completion.created_at", c.createdAt)]
  extractOpt (fun ms bag => bag.set "completion.latency_ms" (.int (u64AsI64 ms))) c.latencyMs bag

/-- `extract_provenance`. -/
def extractProvenance (p : ProvenanceExtension) (bag : AttributeBag) : AttributeBag :=
  bag.setOpts [("provenance.source", p.source), ("provenance.message_id", p.messageId),
    ("provenance.parent_id", p.parentId)]

/-- `extract_framework`. -/
def extractFramework (f : FrameworkExtension) (bag : AttributeBag) : AttributeBag :=
  (bag.setOpts [("framework.framework", f.framework),
    ("framework.framework_version", f.frameworkVersion), ("framework.node_id", f.nodeId),
    ("framework.graph_id", f.graphId)]).walkEntries "framework.metadata." f.metadata

/-- `extract_custom`. -/
def extractCustom (custom : HashMap String Json) (bag : AttributeBag) : AttributeBag :=
  bag.walkEntries "custom." custom

/-! ### All of them -/

/-- `extract_extensions`. -/
def extractExtensions [Platform] (ext : Extensions) (bag : AttributeBag) : AttributeBag :=
  let bag := extractOpt extractSecurity ext.security bag
  let bag := extractOpt extractDelegation ext.delegation bag
  let bag := extractOpt extractAgent (ext.agent.map (·.val)) bag
  let bag := extractOpt extractMeta (ext.meta.map (·.val)) bag
  let bag := extractOpt extractRequest (ext.request.map (·.val)) bag
  let bag := extractOpt extractHttp ext.http bag
  let bag := extractOpt extractLlm (ext.llm.map (·.val)) bag
  let bag := extractOpt extractMcp (ext.mcp.map (·.val)) bag
  let bag := extractOpt extractCompletion (ext.completion.map (·.val)) bag
  let bag := extractOpt extractProvenance (ext.provenance.map (·.val)) bag
  let bag := extractOpt extractFramework (ext.framework.map (·.val)) bag
  extractOpt extractCustom ext.custom bag

/-- `BagBuilder` with the extensions, the route key and the static attributes. -/
def buildBag [Platform] (ext : Extensions) (routeKey : String) (data : Json) : AttributeBag :=
  extractData data ((extractExtensions ext .new).set "route.key" (.string routeKey))

end Cpex
