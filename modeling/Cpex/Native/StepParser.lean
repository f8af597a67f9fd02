import Cpex.ForStd.Except
import Cpex.Native.Json
import Cpex.Native.PipelineParser

/-! # The parsers of single lines

The entries of `pre_invocation` and `post_invocation` that are strings: `parse_rule` and
`parse_step_string` of `apl-core/src/parser.rs`, with the argument lists of `deny(..)`,
`delegate(..)` and the elicitation verbs. -/

namespace Cpex

/-- What the parser takes from outside the repository, besides `Platform`. -/
class ParserPlatform where
  /-- `serde_yaml::Value` through `Debug`, and a `Mapping` as the value it is the body of. -/
  debugYaml : Yaml → String
  /-- `Effect` through the `Debug` its `derive` writes. -/
  debugEffect : Effect → String
  /-- `serde_yaml::Number` through `Display`. -/
  displayNumber : Number → String
  /-- `char::is_alphanumeric`. -/
  isAlphanumeric : Char → Bool

/-- A platform that prints nothing, for evaluating closed terms. -/
@[reducible] def ParserPlatform.bare : ParserPlatform where
  debugYaml _ := ""
  debugEffect _ := ""
  displayNumber _ := ""
  isAlphanumeric := Char.isAlphanum

/-- An entry of a phase before it becomes an effect. -/
inductive Step where
  | rule (r : Rule)
  | pdp (call : PdpCall) (onDeny onAllow : List Step)
  | plugin (name : String)
  | delegate (step : DelegateStep)
  | taint (label : String) (scopes : List TaintScope)
  | restrict (spec : RestrictSpec)
  | elicit (step : ElicitStep)

/-- An `Err` that names the text it is about. -/
def ruleErr {α : Type} (rule msg : String) : Except Stop α := throw (.error (.rule rule msg))

/-! ### Argument lists -/

/-- The variables of the loop of `split_top_level_commas`. -/
structure CommaScan where
  parts : List String := []
  current : List Char := []
  bracketDepth : Nat := 0
  quote : Option Char := none
  escape : Bool := false

/-- One character of `split_top_level_commas`. -/
def CommaScan.step (st : CommaScan) (ch : Char) : Except String CommaScan :=
  let pushed := { st with current := st.current ++ [ch] }
  if st.escape then .ok { pushed with escape := false }
  else
    match st.quote with
    | some q =>
      if ch = '\\' then .ok { pushed with escape := true }
      else if ch = q then .ok { pushed with quote := none }
      else .ok pushed
    | none =>
      if ch = '"' ∨ ch = '\'' then .ok { pushed with quote := some ch }
      else if ch = '[' ∨ ch = '(' ∨ ch = '{' then
        .ok { pushed with bracketDepth := st.bracketDepth + 1 }
      else if ch = ']' ∨ ch = ')' ∨ ch = '}' then
        match st.bracketDepth with
        | 0 => .error ("unmatched `" ++ ch.toString ++ "` in delegate(...) args")
        | depth + 1 => .ok { pushed with bracketDepth := depth }
      else if ch = ',' ∧ st.bracketDepth = 0 then
        .ok { st with parts := st.parts ++ [String.ofList st.current], current := [] }
      else .ok pushed

/-- `split_top_level_commas`. -/
def splitTopLevelCommas (input : String) : Except String (List String) := do
  let st ← input.toList.foldlM CommaScan.step {}
  if st.quote.isSome then throw "unterminated quoted string in delegate(...) args"
  else if st.bracketDepth ≠ 0 then throw "unbalanced brackets in delegate(...) args"
  else return st.parts ++ [String.ofList st.current]

/-- A character is added to the part the scan is in, or ends that part. -/
theorem CommaScan.step_cases {st : CommaScan} (h : st.step ch = .ok st') :
    (st'.parts = st.parts ∧ st'.current = st.current ++ [ch]) ∨
      (st'.parts = st.parts ++ [String.ofList st.current] ∧ st'.current = []) := by
  unfold CommaScan.step at h
  repeat' split at h
  all_goals cases h
  all_goals first
    | exact .inl ⟨rfl, rfl⟩
    | exact .inr ⟨rfl, rfl⟩

/-- No part is longer than the text. -/
theorem length_of_splitTopLevelCommas (h : splitTopLevelCommas input = .ok parts) :
    ∀ part ∈ parts, part.toList.length ≤ input.toList.length := by
  obtain ⟨st, hst, h⟩ := Except.ok_of_bind h
  have hscan : ∀ part ∈ st.parts ++ [String.ofList st.current],
      part.toList.length ≤ input.toList.length := by
    refine List.foldlM_ok_of_step (p := fun cs (st : CommaScan) =>
      ∀ part ∈ st.parts ++ [String.ofList st.current], part.toList.length ≤ cs.length)
      (by simp) (fun {cs st ch st'} hcs hstep part hpart => ?_) hst
    rw [List.length_append, List.length_singleton]
    rcases CommaScan.step_cases hstep with ⟨hparts, hcurrent⟩ | ⟨hparts, hcurrent⟩
    · rw [hparts, hcurrent] at hpart
      rcases List.mem_append.mp hpart with hpart | hpart
      · exact Nat.le_succ_of_le (hcs part (List.mem_append_left _ hpart))
      · rw [List.mem_singleton.mp hpart]
        simpa using hcs _ (List.mem_append_right _ List.mem_cons_self)
    · rw [hparts, hcurrent] at hpart
      rcases List.mem_append.mp hpart with hpart | hpart
      · exact Nat.le_succ_of_le (hcs part hpart)
      · rw [List.mem_singleton.mp hpart]
        exact Nat.zero_le _
  split at h
  · exact nomatch h
  split at h
  · exact nomatch h
  cases h
  exact hscan

/-- What stands between the brackets of a list literal. -/
def listLiteral (text : String) : Option String :=
  (Text.stripStart text "[").bind (Text.stripEnd · "]")

/-- An element of a list literal is shorter than the literal: the brackets are gone, and a part is
    no longer than what it was cut from. -/
theorem length_listItem_lt (hempty : text ≠ "") (hstripped : listLiteral text = some stripped)
    (hitems : splitTopLevelCommas stripped = .ok items) (hitem : item ∈ items) :
    (Text.trim item).toList.length < text.toList.length := by
  obtain ⟨opened, hopened, hclosed⟩ := Option.bind_eq_some_iff.mp hstripped
  have hpos : 0 < text.toList.length := by
    rw [List.length_pos_iff, ne_eq, String.toList_eq_nil_iff]
    exact hempty
  have hbracket : "[".toList.length = 1 := by simp
  have hopen := Text.length_stripStart hopened
  have hclose := Text.length_stripEnd_le hclosed
  have hpart := length_of_splitTopLevelCommas hitems item hitem
  have htrim := Text.length_trim_le item
  omega

/-- Whether `s` is at least two bytes long and stands between two quotes of one kind. -/
def isQuoted (s : String) : Bool :=
  ((Text.startsWith s "'" && Text.endsWith s "'") ||
    (Text.startsWith s "\"" && Text.endsWith s "\"")) && 2 ≤ Text.byteLen s

/-- `strip_wrapping_quotes`. -/
def stripWrappingQuotes (s : String) : Except Stop String :=
  if isQuoted s then Text.sliceInner s else return s

/-- `strip_string_literal`. -/
def stripStringLiteral (s rule : String) : Except Stop String :=
  let s := Text.trim s
  if isQuoted s then Text.sliceInner s
  else ruleErr rule ("expected a quoted string, got `" ++ s ++ "`")

/-! ### Rules -/

/-- `try_bare_action`. -/
def tryBareAction (s : String) : Option (List Effect) :=
  match Text.trim s with
  | "deny" => some [.deny none none]
  | "allow" => some [.allow]
  | _ => none

/-- `try_parse_deny_call`. -/
def tryParseDenyCall (s rule : String) : Except Stop (Option Effect) := do
  if !Text.startsWith s "deny(" then return none
  let some inside ← extractCallArgs s "deny" | ruleErr rule "malformed `deny(...)`"
  match splitTopLevelCommas inside with
  | .error e => ruleErr rule ("deny(...): " ++ e)
  | .ok parts =>
    let reason ← parts[0]?.mapM fun p => stripStringLiteral (Text.trim p) rule
    let code ← parts[1]?.mapM fun p => stripStringLiteral (Text.trim p) rule
    if parts[2]?.isSome then
      ruleErr rule "deny(...) takes at most two args: deny('reason', 'code')"
    else return some (.deny reason code)

/-- `parse_action`. -/
def parseAction (s rule : String) : Except Stop (List Effect) := do
  match tryBareAction s with
  | some effects => return effects
  | none =>
    match ← tryParseDenyCall (Text.trim s) rule with
    | some deny => return [deny]
    | none =>
      ruleErr rule ("unsupported action `" ++ Text.trim s ++
        "` — recognized: `deny`, `deny('reason')`, `deny('reason', 'code')`, `allow`")

/-- `is_require_call`. -/
def isRequireCall (s : String) : Bool := Text.startsWith (Text.trimStart s) "require("

/-- `detect_step_kind`. -/
def detectStepKind (s : String) : Option String :=
  let s := Text.trimStart s
  (["taint(", "plugin(", "run(", "cedar:", "opa(", "authzen(", "nemo(", "cel:", "sequential:",
    "parallel:"].find? (Text.startsWith s)).map fun start =>
      Text.trimEndMatches (Text.trimEndMatches start '(') ':'

/-- `split_predicate_action`. -/
def splitPredicateAction (s : String) : Except Stop (Option (String × String)) := do
  match (topLevel ['('] [')'] ':' {} (Text.charIndices s)).getLast? with
  | none => return none
  | some i => return some (Text.trim (← Text.sliceTo s i), Text.trim (← Text.sliceFrom s (i + 1)))

section
variable [Platform]

/-- The loop of `parse_require_rule`, after a key: the further keys, the separator, and what is
    left after the `)`. -/
def requireKeys (line : String) : Option Tok → List Tok →
    Except Stop (List String × Option Tok × List Tok)
  | _, [] => ruleErr line "unexpected end of require(...) — missing `)`"
  | sep, .rparen :: toks => .ok ([], sep, toks)
  | sep, t :: toks =>
    if t = .comma ∨ t = .or then
      if sep.isSome ∧ sep ≠ some t then
        ruleErr line ("require(...) cannot mix `,` (AND) and `|` (OR) — use one or the other")
      else
        match toks with
        | .ident s :: toks => do
          let (keys, sep, toks) ← requireKeys line (some t) toks
          .ok (s :: keys, sep, toks)
        | _ => ruleErr line "expected identifier after `,` or `|` in require(...)"
    else
      ruleErr line ("expected `,`, `|`, or `)` in require(...), got " ++ t.debug)

/-- `parse_require_rule`. -/
def parseRequireRule (line : String) : Except Stop Expression := do
  match ← tokenize line with
  | .require :: .lparen :: .ident first :: toks =>
    let (more, sep, rest) ← requireKeys line none toks
    if rest ≠ [] then
      ruleErr line "trailing tokens after `require(...)` — require is a complete rule"
    else
      let isFalse (key : String) : Expression := .condition (.isFalse key)
      if more = [] then return isFalse first
      else if sep = some .or then return .and ((first :: more).map isFalse)
      else return .or ((first :: more).map isFalse)
  | .require :: .lparen :: _ => ruleErr line "expected identifier inside `require(...)`"
  | .require :: _ => ruleErr line "expected `(` after `require`"
  | _ => ruleErr line "expected `require`"

/-- The effects and the predicate of a rule that is neither a `require` nor a step; `none` for the
    predicate of a rule without a condition. -/
def ruleParts (trimmed : String) : Except Stop (Option String × List Effect) := do
  match ← splitPredicateAction trimmed with
  | some (predicate, action) => return (some predicate, ← parseAction action trimmed)
  | none =>
    match tryBareAction trimmed with
    | some effects => return (none, effects)
    | none =>
      match ← tryParseDenyCall trimmed trimmed with
      | some deny => return (none, [deny])
      -- A bare predicate denies.
      | none => return (some trimmed, [.deny none none])

/-- `parse_rule`. -/
def parseRule (line source : String) : Except Stop Rule := do
  let trimmed := Text.trim line
  if isRequireCall trimmed then
    let condition ← parseRequireRule trimmed
    return { condition, effects := [.deny none none], source }
  match detectStepKind trimmed with
  | some kind =>
    throw (.error (.unsupportedStep trimmed (kind ++ " (use parse_step for step kinds)")))
  | none =>
    let (predicate, effects) ← ruleParts trimmed
    match predicate with
    | none => return { condition := .always, effects, source }
    | some predicate =>
      match parsePredicate predicate with
      | .error e => ruleErr trimmed e.toText
      | .ok condition => return { condition, effects, source }

/-! ### Calls with keyword arguments -/

/-- The scalars of `parse_delegate_value`. -/
def parseDelegateScalar (trimmed : String) : Except Stop Yaml :=
  if isQuoted trimmed then do return .string (← Text.sliceInner trimmed)
  else if trimmed = "true" then return .bool true
  else if trimmed = "false" then return .bool false
  else
    match Text.parseI64 trimmed, Platform.parseF64 trimmed with
    | some n, _ => return .number (.ofI64 n)
    | none, some x => return .number (.float x)
    -- As a YAML scalar without quotes.
    | none, none => return .string trimmed

/-- `parse_delegate_value` on trimmed text; `bad` is what the caller makes of its error. -/
def parseDelegateTrimmed (bad : String → Stop) (trimmed : String) : Except Stop Yaml :=
  if hempty : trimmed = "" then throw (bad "empty value")
  else
    match hstripped : listLiteral trimmed with
    | some stripped =>
      match hitems : splitTopLevelCommas stripped with
      | .error msg => throw (bad msg)
      | .ok items => do
        let values ← (items.attach.filter fun item => Text.trim item.1 ≠ "").mapM fun item =>
          have := length_listItem_lt hempty hstripped hitems item.2
          parseDelegateTrimmed bad (Text.trim item.1)
        return .sequence values
    | none => parseDelegateScalar trimmed
termination_by trimmed.toList.length

/-- `parse_delegate_value`. -/
def parseDelegateValue (bad : String → Stop) (s : String) : Except Stop Yaml :=
  parseDelegateTrimmed bad (Text.trim s)

/-- A `key: value` argument, trimmed; the messages for one without a `:` and for one with an empty
    key are the callers'. -/
def splitKwarg (kwarg notPair emptyKey : String) : Except Stop (String × String) :=
  match Text.splitOnce kwarg ':' with
  | none => ruleErr kwarg notPair
  | some (key, value) =>
    if Text.trim key = "" then ruleErr kwarg emptyKey
    else return (Text.trim key, Text.trim value)

/-- The `config_override` of a call: `None` if no argument was left for it. -/
def configOverride (configMap : List (Yaml × Yaml)) : Option Yaml :=
  if configMap = [] then none else some (.mapping configMap)

/-- `ParsedDelegateCall`, with the entries of `config_override`. -/
structure ParsedDelegateCall where
  pluginName : String
  configMap : List (Yaml × Yaml) := []
  onError : Option String := none

/-- One keyword argument of `parse_delegate_call_args`. -/
def delegateKwarg (source : String) (call : ParsedDelegateCall) (rawKwarg : String) :
    Except Stop ParsedDelegateCall := do
  let kwarg := Text.trim rawKwarg
  if kwarg = "" then return call
  let (key, valueStr) ← splitKwarg kwarg
    (source ++ ": `delegate(...)` kwarg `" ++ kwarg ++ "` must be `key: value` " ++
      "(use the map form for richer config)")
    (source ++ ": `delegate(...)` kwarg has empty key")
  let bad (msg : String) : Stop := .error (.rule kwarg (source ++ ": " ++ msg))
  match key with
  | "on_error" =>
    let val ← parseDelegateValue (fun msg => bad ("on_error: " ++ msg)) valueStr
    match val.asStr with
    | some text => return { call with onError := some text }
    | none => throw (bad "`on_error` must be a string")
  | "plugin" =>
    throw (bad ("`plugin` is set as the first positional argument of `delegate(...)`; " ++
      "don't pass it as a kwarg too"))
  | key =>
    let value ← parseDelegateValue (fun msg => bad ("`" ++ key ++ "`: " ++ msg)) valueStr
    return { call with configMap := Yaml.insertKey key value call.configMap }

/-- `parse_delegate_call_args`. -/
def parseDelegateCallArgs (inside source : String) : Except Stop ParsedDelegateCall := do
  let rule := "delegate(" ++ inside ++ ")"
  match splitTopLevelCommas inside with
  | .error msg => ruleErr rule (source ++ ": " ++ msg)
  | .ok parts =>
    let first := Text.trim (parts.headD "")
    if first = "" then
      ruleErr rule (source ++ ": `delegate(...)` requires a plugin name as the first positional " ++
        "argument")
    else
      let pluginName ← stripWrappingQuotes first
      if pluginName = "" then
        ruleErr rule (source ++ ": `delegate(...)` plugin name cannot be empty")
      else parts.tail.foldlM (delegateKwarg source) { pluginName }

/-- `ELICIT_VERBS`. -/
def elicitVerbs : List (String × ElicitKind) :=
  [("require_approval", .approval), ("confirm", .confirm), ("require_step_up", .stepUp),
    ("require_attestation", .attestation), ("request_info", .info), ("require_review", .review)]

/-- `ParsedElicitCall` while its arguments are read: `from` may still be missing. -/
structure ParsedElicitCall where
  pluginName : String
  «from» : Option String := none
  channel : Option String := none
  purpose : Option String := none
  scope : Option String := none
  timeout : Option String := none
  onError : Option String := none
  configMap : List (Yaml × Yaml) := []

variable [ParserPlatform]

/-- The closure `as_string` of `parse_elicit_call_args`. -/
def elicitString (verb source key : String) : Yaml → Except Stop (Option String)
  | .string s => .ok (some s)
  | other =>
    ruleErr (verb ++ "(...)") (source ++ ": `" ++ key ++ "` must be a string, got " ++
      ParserPlatform.debugYaml other)

/-- One keyword argument of `parse_elicit_call_args`. -/
def elicitKwarg (verb source : String) (call : ParsedElicitCall) (rawKwarg : String) :
    Except Stop ParsedElicitCall := do
  let kwarg := Text.trim rawKwarg
  if kwarg = "" then return call
  let (key, valueStr) ← splitKwarg kwarg
    (source ++ ": `" ++ verb ++ "(...)` argument `" ++ kwarg ++ "` must be `key: value` " ++
      "(the plugin name is the first positional argument)")
    (source ++ ": `" ++ verb ++ "(...)` argument has empty key")
  let bad (msg : String) : Stop := .error (.rule kwarg (source ++ ": " ++ msg))
  let value ← parseDelegateValue (fun msg => bad ("`" ++ key ++ "`: " ++ msg)) valueStr
  match key with
  | "from" => return { call with «from» := ← elicitString verb source key value }
  | "channel" => return { call with channel := ← elicitString verb source key value }
  | "scope" => return { call with scope := ← elicitString verb source key value }
  | "purpose" => return { call with purpose := ← elicitString verb source key value }
  | "prompt" => return { call with purpose := ← elicitString verb source key value }
  | "timeout" => return { call with timeout := ← elicitString verb source key value }
  | "on_error" => return { call with onError := ← elicitString verb source key value }
  | "plugin" =>
    throw (bad ("the plugin name is the first positional argument of `" ++ verb ++ "(...)`; " ++
      "don't pass it as a kwarg too"))
  | key => return { call with configMap := Yaml.insertKey key value call.configMap }

/-- `parse_elicit_call_args`, and the step its caller builds of it. -/
def parseElicitCallArgs (verb inside source : String) (kind : ElicitKind) :
    Except Stop ElicitStep := do
  let rule := verb ++ "(" ++ inside ++ ")"
  match splitTopLevelCommas inside with
  | .error msg => ruleErr rule (source ++ ": " ++ msg)
  | .ok parts =>
    let pluginName ← stripWrappingQuotes (Text.trim (parts.headD ""))
    if pluginName = "" then
      ruleErr rule (source ++ ": `" ++ verb ++ "(...)` requires an ElicitationHandler plugin " ++
        "name as the first positional argument")
    else
      let call ← parts.tail.foldlM (elicitKwarg verb source) { pluginName }
      match call.«from» with
      | none => ruleErr rule (source ++ ": `" ++ verb ++ "(...)` requires `from` (the approver)")
      | some approver =>
        return {
          kind, source, «from» := approver, pluginName := call.pluginName
          channel := call.channel, purpose := call.purpose, scope := call.scope
          timeout := call.timeout, onError := call.onError
          configOverride := configOverride call.configMap }

/-! ### Lines -/

/-- The arguments of the call `verb(..)`, which `trimmed` starts with. -/
def callArgs (trimmed verb : String) : Except Stop String := do
  match ← extractCallArgs trimmed verb with
  | some inside => return inside
  | none => ruleErr trimmed ("malformed `" ++ verb ++ "(...)`")

/-- The branch of `parse_step_string` for `plugin(..)` and `run(..)`. -/
def parsePluginCall (trimmed verb : String) : Except Stop Step := do
  let name := Text.trim (← callArgs trimmed verb)
  if name = "" then ruleErr trimmed ("`" ++ verb ++ "(...)`: plugin name must not be empty")
  else return .plugin name

/-- `parse_step_string`. -/
def parseStepString (line source : String) : Except Stop Step := do
  let trimmed := Text.trim line
  if Text.startsWith trimmed "taint(" then
    let (label, scopes) ← parseTaint (← callArgs trimmed "taint") trimmed
    return .taint label scopes
  else if Text.startsWith trimmed "plugin(" then parsePluginCall trimmed "plugin"
  else if Text.startsWith trimmed "run(" then parsePluginCall trimmed "run"
  else if Text.startsWith trimmed "delegate(" then
    let call ← parseDelegateCallArgs (← callArgs trimmed "delegate") source
    return .delegate {
      pluginName := call.pluginName, configOverride := configOverride call.configMap
      onError := call.onError, source }
  else
    match elicitVerbs.find? fun v => Text.startsWith trimmed (v.1 ++ "(") with
    | some (verb, kind) =>
      return .elicit (← parseElicitCallArgs verb (← callArgs trimmed verb) source kind)
    | none => return .rule (← parseRule trimmed source)

end

end Cpex
