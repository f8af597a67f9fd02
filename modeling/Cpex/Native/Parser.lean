import Cpex.Native.Compile
import Cpex.Native.RestrictParser

/-! # The parser of policies

`parse_step` of `apl-core/src/parser.rs` with the functions it calls on YAML values: rules with a
`do:` list, `sequential:` and `parallel:` groups, and calls of a policy decision point with their
reactions. `PolicyParser.apl` is the parser `compile_policy_block_value` uses.

The functions call each other on a value and on its parts; the size of the value decreases, or it
stays and the function called comes earlier in a fixed order. -/

namespace Cpex

/-! ### Mutation under `parallel:` -/

mutual

/-- `Effect::contains_mutation`. -/
def Effect.containsMutation : Effect → Bool
  | .fieldOp _ _ | .delegate _ | .elicit _ => true
  | .sequential effects | .parallel effects => anyContainsMutation effects
  | .when _ body _ => anyContainsMutation body
  | .pdp _ onAllow onDeny => anyContainsMutation onAllow || anyContainsMutation onDeny
  | .allow | .deny _ _ | .plugin _ | .taint _ _ | .restrict _ => false

/-- `effects.iter().any(Effect::contains_mutation)`. -/
def anyContainsMutation : List Effect → Bool
  | [] => false
  | e :: es => e.containsMutation || anyContainsMutation es

end

section
variable [ParserPlatform]

mutual

/-- `Effect::validate_parallel_purity`. -/
def Effect.validateParallelPurity : Effect → Except String Unit
  | .parallel effects => validateBranches effects
  | .sequential effects => validateEach effects
  | .when _ body _ => validateEach body
  | .pdp _ onAllow onDeny => do
    validateEach onAllow
    validateEach onDeny
  | _ => .ok ()

/-- The loop over the branches of a `parallel:`. -/
def validateBranches : List Effect → Except String Unit
  | [] => .ok ()
  | e :: es =>
    if e.containsMutation then
      .error ("`parallel:` contains a mutation effect (" ++ ParserPlatform.debugEffect e ++
        "); use `sequential:` for ordered mutations")
    else do
      e.validateParallelPurity
      validateBranches es

/-- The loop over the effects of any other group. -/
def validateEach : List Effect → Except String Unit
  | [] => .ok ()
  | e :: es => do
    e.validateParallelPurity
    validateEach es

end

end

/-! ### Field operations -/

/-- `find_top_level_pipe`, from a depth and a quote on. -/
def findTopLevelPipe : Int → Option Char → List (Nat × Char) → Option Nat
  | _, _, [] => none
  | depth, some q, (_, c) :: rest =>
    if c = '\\' then
      -- The escaped character is skipped.
      match rest with
      | [] => none
      | _ :: rest => findTopLevelPipe depth (some q) rest
    else findTopLevelPipe depth (if c = q then none else some q) rest
  | depth, none, (i, c) :: rest =>
    if c = '\'' ∨ c = '"' then findTopLevelPipe depth (some c) rest
    else if c = '(' ∨ c = '[' then findTopLevelPipe (depth + 1) none rest
    else if c = ')' ∨ c = ']' then findTopLevelPipe (depth - 1) none rest
    else if c = '|' ∧ depth = 0 then
      match rest with
      | (_, '|') :: rest => findTopLevelPipe depth none rest
      | _ => some i
    else findTopLevelPipe depth none rest

section
variable [Platform] [ParserPlatform]

/-- `is_valid_field_path`. -/
def isValidFieldPath (s : String) : Bool :=
  match (Text.stripStart s "args.").or (Text.stripStart s "result.") with
  | none => false
  | some rest =>
    rest ≠ "" && (Text.split rest '.').all fun seg =>
      seg ≠ "" && seg.toList.all fun c => ParserPlatform.isAlphanumeric c || c == '_'

/-- `try_parse_field_op`. -/
def tryParseFieldOp (s rule : String) : Except Stop (Option Effect) := do
  match findTopLevelPipe 0 none (Text.charIndices s) with
  | none => return none
  | some pipeIdx =>
    let path := Text.trim (← Text.sliceTo s pipeIdx)
    let chain := Text.trim (← Text.sliceFrom s (pipeIdx + 1))
    if path = "" ∨ chain = "" ∨ isValidFieldPath path = false then return none
    else
      let pipeline ← (parsePipeline chain).mapError <| Stop.mapErr fun e =>
        .rule rule ("field op `" ++ path ++ "`: " ++ e.toText)
      if pipeline.stages.isEmpty then ruleErr rule ("field op `" ++ path ++ "` has no stages")
      else return some (.fieldOp path pipeline.stages)

/-! ### Effects of a list -/

/-- The test of `step_to_effect` for an unconditional rule. -/
def Expression.isAlways : Expression → Bool
  | .always => true
  | _ => false

/-- `step_to_effect`. -/
def stepToEffect (step : Step) (source : String) : Except Stop Effect :=
  match step with
  | .plugin name => .ok (.plugin name)
  | .delegate d => .ok (.delegate d)
  | .elicit e => .ok (.elicit e)
  | .taint label scopes => .ok (.taint label scopes)
  | .restrict spec => .ok (.restrict spec)
  | .rule rule =>
    if !rule.condition.isAlways then
      ruleErr source ("conditional rules nested inside `do:` are not supported (use a sibling " ++
        "`when:`/`do:` rule instead)")
    else
      match rule.effects with
      | [effect] => .ok effect
      | effects =>
        ruleErr source ("unconditional rule inside `do:` must produce exactly one effect, got " ++
          toString effects.length)
  | .pdp _ _ _ =>
    ruleErr source "PDP calls inside `do:` are not supported (use a sibling step instead)"

/-- `parse_effect_string`. -/
def parseEffectString (s source : String) : Except Stop Effect := do
  let trimmed := Text.trim s
  match tryBareAction trimmed with
  | some [effect] => return effect
  | _ =>
    match ← tryParseDenyCall trimmed s with
    | some effect => return effect
    | none =>
      match ← tryParseFieldOp trimmed s with
      | some effect => return effect
      | none => stepToEffect (← parseStepString s source) source

/-! ### Steps that are maps -/

omit [Platform] [ParserPlatform] in
theorem Yaml.sizeOf_untag_le (v : Yaml) : sizeOf v.untag ≤ sizeOf v := by
  fun_induction Yaml.untag v with
  | case1 tag v ih => rw [Yaml.tagged.sizeOf_spec]; omega
  | case2 v => exact Nat.le_refl _

variable {v : Yaml}

omit [Platform] [ParserPlatform] in
theorem Yaml.sizeOf_asSequence (h : v.asSequence = some items) :
    sizeOf items < sizeOf v := by
  have hle := v.sizeOf_untag_le
  unfold Yaml.asSequence at h
  split at h
  next hv =>
    cases h
    rw [hv, Yaml.sequence.sizeOf_spec] at hle
    omega
  · exact nomatch h

omit [Platform] [ParserPlatform] in
theorem Yaml.sizeOf_asMapping (h : v.asMapping = some entries) :
    sizeOf entries < sizeOf v := by
  have hle := v.sizeOf_untag_le
  unfold Yaml.asMapping at h
  split at h
  next hv =>
    cases h
    rw [hv, Yaml.mapping.sizeOf_spec] at hle
    omega
  · exact nomatch h

omit [Platform] [ParserPlatform] in
theorem Yaml.sizeOf_lookupKey (h : Yaml.lookupKey entries key = some v) :
    sizeOf v < sizeOf entries := by
  obtain ⟨⟨k, v⟩, hentry, rfl⟩ := Option.map_eq_some_iff.mp h
  have hlt := List.sizeOf_lt_of_mem (List.mem_of_find?_eq_some hentry)
  exact Nat.lt_of_le_of_lt (Nat.le_add_left _ _) hlt

/-- `has_key`. -/
def hasKey (m : List (Yaml × Yaml)) (key : String) : Bool := (Yaml.lookupKey m key).isSome

/-- `is_known_pdp_dialect`. -/
def isKnownPdpDialect (key : String) : Except Stop Bool := do
  let base ← match Text.find key '(' with
    | some i => Text.sliceTo key i
    | none => pure key
  return ["cedar", "opa", "authzen", "nemo", "cel"].contains (Text.trim base)

/-- `PdpDialect::from_key`. -/
def PdpDialect.fromKey : String → PdpDialect
  | "cedar" => .cedar
  | "opa" => .opa
  | "authzen" => .authZen
  | "nemo" => .neMo
  | "cel" => .cel
  | other => .custom other

/-- The effects of the shorthand `"predicate": [..]`; `none` if the map is not one. -/
def shorthandItems (key : String) (body : Yaml) : Except Stop (Option (List Yaml)) := do
  match body with
  | .sequence items =>
    let trimmed := Text.trim key
    if trimmed = "delegate" ∨ trimmed = "sequential" ∨ trimmed = "parallel" then return none
    else if ← isKnownPdpDialect trimmed then return none
    else return some items
  | _ => return none

omit [Platform] [ParserPlatform] in
theorem sizeOf_shorthandItems (h : shorthandItems key body = .ok (some items)) :
    sizeOf items < sizeOf body := by
  unfold shorthandItems at h
  split at h
  next entries =>
    dsimp only at h
    split at h
    · exact nomatch h
    · obtain ⟨known, _, h⟩ := Except.ok_of_bind h
      cases known
      · cases h
        rw [Yaml.sequence.sizeOf_spec]
        omega
      · exact nomatch h
  · exact nomatch h

/-- The key of a policy decision point call, cut into the dialect and what is in parentheses. -/
def splitSignature (key : String) : Except Stop (String × Option String) := do
  match Text.find key '(' with
  | none => return (Text.trim key, none)
  | some start =>
    match Text.rfind key ')' with
    | none => ruleErr key "missing `)` in PDP call signature"
    | some close =>
      -- The last `)` may come before the first `(`.
      let inside := Text.trim (← Text.slice key (start + 1) close)
      return (Text.trim (← Text.sliceTo key start), some inside)

/-- `parse_delegate_step`. -/
def parseDelegateStep (bodyVal : Yaml) (source : String) : Except Stop Step :=
  match bodyVal.asMapping with
  | none =>
    ruleErr source "`delegate:` body must be a map with `plugin:` and optional `config:` / `on_error:`"
  | some body =>
    match Yaml.lookupKey body "plugin" with
    | none =>
      ruleErr source ("`delegate:` requires `plugin: <name>` referencing a top-level plugin " ++
        "registered under `token.delegate`")
    | some plugin =>
      match plugin.asStr with
      | none => ruleErr source "`delegate.plugin` must be a string"
      | some "" => ruleErr source "`delegate.plugin` cannot be empty"
      | some pluginName => do
        let onError ← (Yaml.lookupKey body "on_error").mapM fun v =>
          match v.asStr with
          | some text => pure text
          | none =>
            ruleErr source "`delegate.on_error` must be a string (e.g. `deny`, `continue`)"
        return .delegate {
          pluginName, configOverride := Yaml.lookupKey body "config", onError, source }

/-- The predicate of a rule, read for the message of `rule`. -/
def parseCondition (predicate rule : String) : Except Stop Expression :=
  (parsePredicate predicate).mapError fun e => .error (.rule rule e.toText)

/-- The loop of `parse_when_do_rule` over the keys of the map. -/
def checkRuleKeys (m : List (Yaml × Yaml)) : Except Stop Unit :=
  m.forM fun entry =>
    let key := entry.1.asStr.getD ""
    if ["when", "do", "id"].contains key then pure ()
    else
      ruleErr (ParserPlatform.debugYaml (.mapping m)) ("unexpected key `" ++ key ++
        "` in when/do rule (allowed: `when`, `do`, `id`)")

/-- What `extract_pdp_body` collects. -/
structure PdpBody where
  args : List (Yaml × Yaml) := []
  onDeny : List Step := []
  onAllow : List Step := []

/-- An unconditional rule around one effect: what a top-level group becomes. -/
def Step.unconditional (effect : Effect) (source : String) : Step :=
  .rule { condition := .always, effects := [effect], source }

mutual

/-- `parse_step`. -/
def parseStep (value : Yaml) (source : String) : Except Stop Step :=
  match value with
  | .string s => parseStepString s source
  | .mapping m => parseStepMap m source
  | other => ruleErr (ParserPlatform.debugYaml other) "step must be a string or a single-key map"
termination_by 4 * sizeOf value

/-- `parse_step_map`. -/
def parseStepMap (m : List (Yaml × Yaml)) (source : String) : Except Stop Step :=
  if hasKey m "when" && hasKey m "do" then parseWhenDoRule m source
  else
    match m with
    | [(keyVal, bodyVal)] =>
      match keyVal.asStr with
      | none => ruleErr (ParserPlatform.debugYaml keyVal) "PDP step key must be a string"
      | some key =>
        match _ : shorthandItems key bodyVal with
        | .error stop => .error stop
        | .ok (some items) => parseShorthandMultiEffect (Text.trim key) items source
        | .ok none =>
          match Text.trim key with
          | "delegate" => parseDelegateStep bodyVal source
          | "restrict" => do return .restrict (← parseRestrictSpec bodyVal source)
          | "sequential" => do
            return .unconditional (← parseSequentialEffect bodyVal source) source
          | "parallel" => do return .unconditional (← parseParallelEffect bodyVal source) source
          | _ => do
            let (dialect, parenArgs) ← splitSignature key
            match _ : bodyVal.asMapping with
            | none =>
              ruleErr (ParserPlatform.debugYaml bodyVal)
                ("`" ++ key ++ ":` body must be a map (with on_deny / on_allow / args)")
            | some entries =>
              let body ← extractPdpBody source entries {}
              let args := match parenArgs with
                | some text => Yaml.string text
                | none => .mapping body.args
              return .pdp { dialect := .fromKey dialect, args } body.onDeny body.onAllow
    | _ =>
      ruleErr (ParserPlatform.debugYaml (.mapping m)) ("step map must have exactly one key " ++
        "(PDP call signature, `when:`/`do:`, or a `predicate: [effects...]` shorthand)")
termination_by 4 * sizeOf m + 1
decreasing_by
  · omega
  · have hitems := sizeOf_shorthandItems ‹_›
    simp only [List.cons.sizeOf_spec, Prod.mk.sizeOf_spec]
    omega
  · simp only [List.cons.sizeOf_spec, Prod.mk.sizeOf_spec]
    omega
  · simp only [List.cons.sizeOf_spec, Prod.mk.sizeOf_spec]
    omega
  · have hentries := Yaml.sizeOf_asMapping ‹_›
    simp only [List.cons.sizeOf_spec, Prod.mk.sizeOf_spec]
    omega

/-- `parse_when_do_rule`. -/
def parseWhenDoRule (m : List (Yaml × Yaml)) (source : String) : Except Stop Step := do
  checkRuleKeys m
  match Yaml.lookupKey m "when" with
  | none => throw .panic
  | some whenVal =>
    match whenVal.asStr with
    | none => ruleErr (ParserPlatform.debugYaml whenVal) "`when:` must be a predicate string"
    | some predicate =>
      let condition ← parseCondition predicate ("when: " ++ predicate)
      match _ : Yaml.lookupKey m "do" with
      | none => throw .panic
      | some doVal =>
        let effects ← parseDoBody doVal source
        if effects.isEmpty then
          ruleErr (ParserPlatform.debugYaml (.mapping m)) "`do:` produced no effects"
        else return .rule { condition, effects, source }
termination_by 4 * sizeOf m
decreasing_by
  have hdo := Yaml.sizeOf_lookupKey ‹_›
  omega

/-- `parse_shorthand_multi_effect`. -/
def parseShorthandMultiEffect (predicate : String) (items : List Yaml) (source : String) :
    Except Stop Step := do
  let condition ← parseCondition predicate predicate
  let effects ← parseEffectValues items source
  if effects.isEmpty then
    ruleErr predicate "shorthand multi-effect map produced no effects"
  else return .rule { condition, effects, source }
termination_by 4 * sizeOf items + 1

/-- `parse_do_body`. -/
def parseDoBody (val : Yaml) (source : String) : Except Stop (List Effect) :=
  match val with
  | .string s => do return [← parseEffectString s source]
  | .sequence items => parseEffectValues items source
  | .mapping m => do return [← parseEffectValue (.mapping m) source]
  | other =>
    ruleErr (ParserPlatform.debugYaml other)
      "`do:` value must be a string, a list of effects, or an effect map"
termination_by 4 * sizeOf val + 3

/-- `parse_effect_value`. -/
def parseEffectValue (val : Yaml) (source : String) : Except Stop Effect :=
  match val with
  | .string s => parseEffectString s source
  | .mapping [(k, v)] =>
    match k.asStr.map Text.trim with
    | some "sequential" => parseSequentialEffect v source
    | some "parallel" => parseParallelEffect v source
    | some "restrict" => do return .restrict (← parseRestrictSpec v source)
    | _ => do stepToEffect (← parseStep (.mapping [(k, v)]) source) source
  | .mapping m => do stepToEffect (← parseStep (.mapping m) source) source
  | other => ruleErr (ParserPlatform.debugYaml other) "effect entry must be a string or a map"
termination_by 4 * sizeOf val + 2

/-- `parse_effect_value` on the items of a list. -/
def parseEffectValues (items : List Yaml) (source : String) : Except Stop (List Effect) :=
  match items with
  | [] => .ok []
  | item :: items => do
    let effect ← parseEffectValue item source
    let effects ← parseEffectValues items source
    return effect :: effects
termination_by 4 * sizeOf items

/-- `parse_sequential_effect`. -/
def parseSequentialEffect (body : Yaml) (source : String) : Except Stop Effect :=
  match _ : body.asSequence with
  | none =>
    ruleErr (ParserPlatform.debugYaml body) "`sequential:` body must be a list of effects"
  | some items =>
    if items.isEmpty then ruleErr (ParserPlatform.debugYaml body) "`sequential:` body is empty"
    else do return .sequential (← parseEffectValues items source)
termination_by 4 * sizeOf body
decreasing_by
  have hitems := Yaml.sizeOf_asSequence ‹_›
  omega

/-- `parse_parallel_effect`. -/
def parseParallelEffect (body : Yaml) (source : String) : Except Stop Effect :=
  match _ : body.asSequence with
  | none => ruleErr (ParserPlatform.debugYaml body) "`parallel:` body must be a list of effects"
  | some items =>
    if items.isEmpty then ruleErr (ParserPlatform.debugYaml body) "`parallel:` body is empty"
    else do
      let effects ← parseEffectValues items source
      match (Effect.parallel effects).validateParallelPurity with
      | .error msg => ruleErr source msg
      | .ok () => return .parallel effects
termination_by 4 * sizeOf body
decreasing_by
  have hitems := Yaml.sizeOf_asSequence ‹_›
  omega

/-- The loop of `extract_pdp_body`; a key that is not a reaction is an argument. -/
def extractPdpBody (source : String) (entries : List (Yaml × Yaml)) (body : PdpBody) :
    Except Stop PdpBody :=
  match entries with
  | [] => .ok body
  | (k, v) :: entries =>
    match k.asStr with
    | some "on_deny" => do
      let onDeny ← parseReactionList v source "on_deny"
      extractPdpBody source entries { body with onDeny }
    | some "on_allow" => do
      let onAllow ← parseReactionList v source "on_allow"
      extractPdpBody source entries { body with onAllow }
    | _ => extractPdpBody source entries { body with args := body.args ++ [(k, v)] }
termination_by 4 * sizeOf entries

/-- `parse_reaction_list`. -/
def parseReactionList (v : Yaml) (source which : String) : Except Stop (List Step) :=
  match _ : v.asSequence with
  | none => ruleErr (ParserPlatform.debugYaml v) ("`" ++ which ++ ":` must be a list of steps")
  | some items => parseReactions (source ++ "." ++ which) 0 items
termination_by 4 * sizeOf v
decreasing_by
  have hitems := Yaml.sizeOf_asSequence ‹_›
  omega

/-- The steps of a reaction list from index `i` on. -/
def parseReactions (location : String) (i : Nat) (items : List Yaml) :
    Except Stop (List Step) :=
  match items with
  | [] => .ok []
  | item :: items => do
    let step ← parseStep item (location ++ "[" ++ toString i ++ "]")
    let steps ← parseReactions location (i + 1) items
    return step :: steps
termination_by 4 * sizeOf items

end

mutual

/-- `step_to_top_level_effect`, which never fails. -/
def stepToTopLevelEffect : Step → Effect
  | .rule rule => rule.toEffect
  | .pdp call onDeny onAllow =>
    .pdp call (stepsToTopLevelEffects onAllow) (stepsToTopLevelEffects onDeny)
  | .plugin name => .plugin name
  | .delegate d => .delegate d
  | .elicit e => .elicit e
  | .taint label scopes => .taint label scopes
  | .restrict spec => .restrict spec

def stepsToTopLevelEffects : List Step → List Effect
  | [] => []
  | step :: steps => stepToTopLevelEffect step :: stepsToTopLevelEffects steps

end

/-- What a stopped parser leaves its caller with. After a panic there is no result at all; it is
    recorded as an error, so that it is not taken for a success. -/
def Stop.toError : Stop → ParseError
  | .error e => e
  | .panic => .yaml "panic"

/-- The deserialisation `serde` derives for the configuration. -/
class ConfigSerde where
  /-- `serde_yaml::from_value::<RouteYaml>`. -/
  routeYaml : Yaml → Except String RouteYaml
  /-- `serde_yaml::from_value::<DenyResponse>`. -/
  denyResponse : Yaml → Option DenyResponse

/-- A deserialisation that reads the flat `pre_invocation` only, for evaluating closed terms. -/
@[reducible] def ConfigSerde.bare : ConfigSerde where
  routeYaml block :=
    .ok { preInvocation := ((block.get "pre_invocation").bind Yaml.asSequence).getD [] }
  denyResponse _ := none

/-- The parser of `apl-core/src/parser.rs`. -/
@[reducible] def PolicyParser.apl [ConfigSerde] : PolicyParser where
  routeYaml := ConfigSerde.routeYaml
  denyResponse := ConfigSerde.denyResponse
  parseStep entry source :=
    (Cpex.parseStep entry source).mapError Stop.toError |>.map stepToTopLevelEffect
  parsePipeline src := (Cpex.parsePipeline src).mapError Stop.toError

end

end Cpex
