import Cpex.ForStd.AList
import Cpex.Native.Executor
import Cpex.Native.Json

/-! # The Python host's extension channel

`cpex-hosts-python/src/extensions.rs` and the response half of `conversion.rs`: what a plugin
behind the Python host is sent, and how its response becomes a result the executor consumes.

Slots cross the process boundary through their serde forms. Those are derived code, and enter
as the `Codec` the functions are given. -/

namespace Cpex.PythonHost

open Cpex.Core

/-- `HostError`: the one case the functions below raise. -/
inductive HostError where
  | protocol (message : String)

/-- The serde forms of the slots, and of the payload a hook carries. -/
structure Codec (π : Type) where
  request : RequestExtension → Except String Json
  agent : AgentExtension → Except String Json
  http : HttpExtension → Except String Json
  security : SecurityExtension → Except String Json
  delegation : DelegationExtension → Except String Json
  mcp : MCPExtension → Except String Json
  completion : CompletionExtension → Except String Json
  provenance : ProvenanceExtension → Except String Json
  llm : LLMExtension → Except String Json
  framework : FrameworkExtension → Except String Json
  «meta» : MetaExtension → Except String Json
  custom : HashMap String Json → Except String Json
  readHttp : Json → Except String HttpExtension
  readSecurity : Json → Except String SecurityExtension
  readDelegation : Json → Except String DelegationExtension
  readCustom : Json → Except String (HashMap String Json)
  /-- `deserialize_payload`, by the name of the hook. -/
  readPayload : String → Json → Except String π

/-- `MODIFIED_EXTENSIONS_FIELD`. -/
def modifiedExtensionsField : String := "modified_extensions"

/-! ### Sensitive headers -/

/-- `SENSITIVE_HEADERS`. -/
def sensitiveHeaders : List String := ["authorization", "cookie", "set-cookie", "x-api-key"]

/-- `is_sensitive`. -/
def isSensitive (name : String) : Bool :=
  sensitiveHeaders.any fun s => Text.eqIgnoreAsciiCase name s

/-- `strip_sensitive`. -/
def stripSensitive (headers : HashMap String String) : HashMap String String :=
  headers.filterKeys fun name => !isSensitive name

/-- `sanitize_http`. -/
def sanitizeHttp (http : HttpExtension) : HttpExtension where
  requestHeaders := stripSensitive http.requestHeaders
  responseHeaders := stripSensitive http.responseHeaders
  method := http.method
  path := http.path
  host := http.host
  scheme := http.scheme

/-- `returned_http`: the worker's headers under the request line it was sent. -/
def returnedHttp (returned : HttpExtension) (inbound : Option HttpExtension) : HttpExtension where
  requestHeaders := stripSensitive returned.requestHeaders
  responseHeaders := stripSensitive returned.responseHeaders
  method := inbound.bind (·.method)
  path := inbound.bind (·.path)
  host := inbound.bind (·.host)
  scheme := inbound.bind (·.scheme)

/-! ### The way out -/

/-- `put` of `to_wire`: nothing for a slot that is not there. -/
def put {α : Type} (key : String) (toValue : α → Except String Json) (slot : Option α)
    (map : List (String × Json)) : Except HostError (List (String × Json)) :=
  match slot with
  | none => .ok map
  | some x =>
    match toValue x with
    | .ok value => .ok (Json.insertField key value map)
    | .error e => .error (.protocol
        ("could not serialize the '" ++ key ++ "' extension for the worker: " ++ e))

variable {π : Type} (codec : Codec π)

/-- `to_wire`. There is no `raw_credentials` on this channel. -/
def toWire (extensions : Extensions) : Except HostError Json := do
  let map ← put "request" codec.request (extensions.request.map Arc.val) []
  let map ← put "agent" codec.agent (extensions.agent.map Arc.val) map
  let map ← put "http" codec.http (extensions.http.map sanitizeHttp) map
  let map ← put "security" codec.security extensions.security map
  let map ← put "delegation" codec.delegation extensions.delegation map
  let map ← put "mcp" codec.mcp (extensions.mcp.map Arc.val) map
  let map ← put "completion" codec.completion (extensions.completion.map Arc.val) map
  let map ← put "provenance" codec.provenance (extensions.provenance.map Arc.val) map
  let map ← put "llm" codec.llm (extensions.llm.map Arc.val) map
  let map ← put "framework" codec.framework (extensions.framework.map Arc.val) map
  let map ← put "meta" codec.meta (extensions.meta.map Arc.val) map
  let map ← put "custom" codec.custom extensions.custom map
  return .object map

/-! ### The way back -/

/-- `slot` of `owned_from_returned_slot`: a null reads like a missing key. -/
def slot {α : Type} (fromValue : Json → Except String α) (object : List (String × Json))
    (key : String) : Except HostError (Option α) :=
  match object.lookup key with
  | none | some .null => .ok none
  | some value =>
    match fromValue value with
    | .ok x => .ok (some x)
    | .error e => .error (.protocol
        ("could not deserialize the '" ++ key ++ "' extension returned by the worker: " ++ e))

/-- Headers only, and only with the write token. -/
def takeHttp (inbound : Extensions) (returned : Option HttpExtension)
    (out : OwnedExtensions × Bool) : OwnedExtensions × Bool :=
  match returned with
  | some http =>
    if inbound.httpWriteToken then
      ({ out.1 with http := some (returnedHttp http inbound.http) }, true)
    else out
  | none => out

/-- Labels only, added to the slot the plugin was sent. -/
def takeSecurity (inbound : Extensions) (returned : Option SecurityExtension)
    (out : OwnedExtensions × Bool) : OwnedExtensions × Bool :=
  match returned with
  | some security =>
    if inbound.labelsWriteToken then
      let merged := inbound.security.getD {}
      ({ out.1 with security := some { merged with labels := merged.labels ∪ security.labels } },
        true)
    else out
  | none => out

/-- A chain that does not extend the one the plugin was sent is dropped. -/
def takeDelegation (inbound : Extensions) (returned : Option DelegationExtension)
    (out : OwnedExtensions × Bool) : OwnedExtensions × Bool :=
  match returned with
  | some delegation =>
    if inbound.delegationWriteToken &&
        chainExtends ((inbound.delegation.map (·.chain)).getD []) delegation.chain then
      ({ out.1 with delegation := some delegation }, true)
    else out
  | none => out

/-- Unrestricted: accepted without a token. -/
def takeCustom (returned : Option (HashMap String Json)) (out : OwnedExtensions × Bool) :
    OwnedExtensions × Bool :=
  match returned with
  | some custom => ({ out.1 with custom := some custom }, true)
  | none => out

/-- `owned_from_returned_slot`. -/
def ownedFromReturnedSlot (field : Json) (inbound : Extensions) :
    Except HostError (Option OwnedExtensions) :=
  match field with
  | .null => .ok none
  | .object object => do
    let http ← slot codec.readHttp object "http"
    let security ← slot codec.readSecurity object "security"
    let delegation ← slot codec.readDelegation object "delegation"
    let custom ← slot codec.readCustom object "custom"
    -- Any other slot the worker returns is not looked at.
    let (owned, applied) := takeCustom custom (takeDelegation inbound delegation
      (takeSecurity inbound security (takeHttp inbound http (inbound.cowCopy, false))))
    return if applied then some owned else none
  | _ => .error (.protocol
      ("the worker returned a '" ++ modifiedExtensionsField ++ "' field that is not a JSON object"))

/-- `Value::as_bool`. -/
def asBool : Json → Option Bool
  | .bool b => some b
  | _ => none

/-- `parse_violation`. -/
def parseViolation (raw : Json) : Except HostError PluginViolation :=
  match raw with
  | .object fields =>
    let code := ((fields.lookup "code").bind Json.asStr).getD ""
    let reason := ((fields.lookup "reason").bind Json.asStr).getD ""
    .ok { PluginViolation.new code reason with
      description := (fields.lookup "description").bind Json.asStr
      details := match fields.lookup "details" with
        | some (.object details) => details.foldl (fun m e => m.insert e.1 e.2) ∅
        | _ => ∅
      -- The name on the Python side, then the one on the Rust side.
      protoErrorCode :=
        ((fields.lookup "mcp_error_code").or (fields.lookup "proto_error_code")).bind Json.asI64 }
  | _ => .error (.protocol "worker returned a violation that is not a JSON object")

/-- A field of the response, read unless it is missing or null. -/
def readField {α : Type} (response : Json) (key : String) (read : Json → Except HostError α) :
    Except HostError (Option α) :=
  match response.get key with
  | none | some .null => .ok none
  | some raw => some <$> read raw

/-- `deserialize_payload`. -/
def deserializePayload (hookName : String) (value : Json) : Except HostError π :=
  match codec.readPayload hookName value with
  | .ok payload => .ok payload
  | .error e => .error (.protocol ("worker returned a modified payload that does not match hook '"
      ++ hookName ++ "': " ++ e))

/-- `response_to_result`. -/
def responseToResult (hookName : String) (response : Json) (inbound : Extensions) :
    Except HostError (ErasedResultFields π) := do
  -- A response without a verdict lets the pipeline continue.
  let continueProcessing := ((response.get "continue_processing").bind asBool).getD true
  let violation ← readField response "violation" parseViolation
  let modifiedPayload ← readField response "modified_payload" (deserializePayload codec hookName)
  let modifiedExtensions ← readField response modifiedExtensionsField fun raw =>
    ownedFromReturnedSlot codec raw inbound
  return { continueProcessing, modifiedPayload, violation,
           modifiedExtensions := modifiedExtensions.bind id }

end Cpex.PythonHost
