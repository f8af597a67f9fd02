import Cpex.Native.Route
import Cpex.ForStd.Except

/-! # Compiling policy blocks

`compile_policy_block_value` of `apl-core/src/parser.rs`: one APL block of the configuration
becomes a `CompiledRoute`, whose rules record where in the configuration they were written.

The parsers of single steps and pipelines, and the deserialisation `serde` derives, are the
class `PolicyParser`.
-/

namespace Cpex

/-- `AuthorizationYaml`. -/
structure AuthorizationYaml where
  preInvocation : List Yaml := []
  postInvocation : List Yaml := []

/-- `RouteYaml`. -/
structure RouteYaml where
  preInvocation : List Yaml := []
  postInvocation : List Yaml := []
  authorization : Option AuthorizationYaml := none
  args : HashMap String String := ∅
  result : HashMap String String := ∅
  plugins : HashMap String PluginOverride := ∅
  other : HashMap String Yaml := ∅

/-- What the compiler of blocks calls. -/
class PolicyParser where
  /-- `serde_yaml::from_value::<RouteYaml>`. -/
  routeYaml : Yaml → Except String RouteYaml
  /-- `serde_yaml::from_value::<DenyResponse>`. -/
  denyResponse : Yaml → Option DenyResponse
  /-- `parse_step` and `step_to_top_level_effect`: an entry of a phase, and its path. -/
  parseStep : Yaml → String → Except ParseError Effect
  /-- `parse_pipeline`. -/
  parsePipeline : String → Except ParseError Pipeline

/-- A parser that reads `pre_invocation` only, and takes every entry of it for a deny. -/
@[reducible] def PolicyParser.denying : PolicyParser where
  routeYaml block :=
    .ok { preInvocation := ((block.get "pre_invocation").bind Yaml.asSequence).getD [] }
  denyResponse _ := none
  parseStep _ _ := .ok (.deny none none)
  parsePipeline _ := .ok {}

/-- `RENAMED_FIELDS`, and `RENAMED_APL_KEYS` of the visitor. -/
def renamedFields : List (String × String) :=
  [("policy", "authorization.pre_invocation (or flat pre_invocation)"),
    ("post_policy", "authorization.post_invocation (or flat post_invocation)")]

/-- `reject_legacy_keys`. -/
def rejectLegacyKeys (location : String) (other : HashMap String Yaml) : Except ParseError Unit :=
  renamedFields.forM fun field =>
    if (other.lookup field.1).isSome then .error (.renamedField location field.1 field.2)
    else .ok ()

section
variable [Platform] [PolicyParser]

/-- The loop over the entries of `pre_invocation` or `post_invocation`. -/
def compileSteps (source phase : String) (entries : List Yaml) : Except ParseError (List Effect) :=
  entries.zipIdx.mapM fun entry =>
    PolicyParser.parseStep entry.1 (source ++ "." ++ phase ++ "[" ++ toString entry.2 ++ "]")

/-- One iteration of the loops over `args` and `result`. -/
def compileField (source section_ field chain : String) : Except ParseError FieldRule :=
  match PolicyParser.parsePipeline chain with
  | .error e =>
    .error (.rule (section_ ++ "." ++ field ++ ": " ++ Platform.debugStr chain) e.toText)
  | .ok pipeline =>
    .ok { field, pipeline, source := source ++ "." ++ section_ ++ "." ++ field }

/-- The loop over the fields of `args` or `result`. -/
def compileFields (source section_ : String) (fields : HashMap String String) :
    Except ParseError (List FieldRule) :=
  fields.entries.mapM fun e => compileField source section_ e.1 e.2

/-- `compile_apl_blocks`. -/
def compileAplBlocks (source : String) (raw : RouteYaml) : Except ParseError CompiledRoute := do
  rejectLegacyKeys source raw.other
  let auth := raw.authorization.getD {}
  if auth.preInvocation ≠ [] ∧ raw.preInvocation ≠ [] then
    throw (.conflictingAuthorizationForms source "pre_invocation")
  if auth.postInvocation ≠ [] ∧ raw.postInvocation ≠ [] then
    throw (.conflictingAuthorizationForms source "post_invocation")
  let policy ← compileSteps source "pre_invocation" (auth.preInvocation ++ raw.preInvocation)
  let postPolicy ←
    compileSteps source "post_invocation" (auth.postInvocation ++ raw.postInvocation)
  let args ← compileFields source "args" raw.args
  let result ← compileFields source "result" raw.result
  return { CompiledRoute.new source with
    policy, postPolicy, args, result, pluginOverrides := raw.plugins }

/-- `compile_policy_block_value`. -/
def compilePolicyBlockValue (source : String) (block : Yaml) :
    Except ParseError CompiledRoute :=
  if block.isNull then .ok (CompiledRoute.new source)
  else
    match PolicyParser.routeYaml block with
    | .error msg => .error (.yaml msg)
    | .ok raw => compileAplBlocks source raw

/-! ### Where the rules of a block come from -/

variable {source : String}

theorem compileField_source (h : compileField source section_ field chain = .ok rule) :
    rule.source = source ++ "." ++ section_ ++ "." ++ rule.field := by
  unfold compileField at h
  split at h
  · exact nomatch h
  · cases h; rfl

theorem compileFields_source (h : compileFields source section_ fields = .ok rules) :
    ∀ rule ∈ rules, rule.source = source ++ "." ++ section_ ++ "." ++ rule.field := by
  intro rule hrule
  obtain ⟨e, _, he⟩ := List.exists_of_mem_mapM_ok h hrule
  exact compileField_source he

variable {route : CompiledRoute}

/-- What a successful compilation of a block consists of. -/
theorem compileAplBlocks_ok (h : compileAplBlocks source raw = .ok route) :
    (∃ entries, compileSteps source "pre_invocation" entries = .ok route.policy) ∧
      (∃ entries, compileSteps source "post_invocation" entries = .ok route.postPolicy) ∧
      compileFields source "args" raw.args = .ok route.args ∧
      compileFields source "result" raw.result = .ok route.result ∧ route.routeKey = source := by
  obtain ⟨_, _, h⟩ := Except.ok_of_bind h
  dsimp only at h
  split at h
  · exact nomatch h
  split at h
  · exact nomatch h
  obtain ⟨policy, hpolicy, h⟩ := Except.ok_of_bind h
  obtain ⟨postPolicy, hpostPolicy, h⟩ := Except.ok_of_bind h
  obtain ⟨args, hargs, h⟩ := Except.ok_of_bind h
  obtain ⟨result, hresult, h⟩ := Except.ok_of_bind h
  cases h
  exact ⟨⟨_, hpolicy⟩, ⟨_, hpostPolicy⟩, hargs, hresult, rfl⟩

omit [Platform] in
/-- Each effect of a phase is what the parser made of one of its entries. -/
theorem exists_of_mem_compileSteps (h : compileSteps source phase entries = .ok effects) :
    ∀ e ∈ effects, ∃ entry location, PolicyParser.parseStep entry location = .ok e := by
  intro e he
  obtain ⟨entry, _, hentry⟩ := List.exists_of_mem_mapM_ok h he
  exact ⟨entry.1, _, hentry⟩

variable {block : Yaml}

/-- Either a block is null, or it is compiled from its deserialised form. -/
theorem compilePolicyBlockValue_ok (h : compilePolicyBlockValue source block = .ok route) :
    route = CompiledRoute.new source ∨ ∃ raw, compileAplBlocks source raw = .ok route := by
  unfold compilePolicyBlockValue at h
  split at h
  · cases h; exact .inl rfl
  · split at h
    · exact nomatch h
    · exact .inr ⟨_, h⟩

theorem compilePolicyBlockValue_fields (h : compilePolicyBlockValue source block = .ok route) :
    (∀ rule ∈ route.args, rule.source = source ++ "." ++ "args" ++ "." ++ rule.field) ∧
      ∀ rule ∈ route.result, rule.source = source ++ "." ++ "result" ++ "." ++ rule.field := by
  rcases compilePolicyBlockValue_ok h with rfl | ⟨raw, hraw⟩
  · exact ⟨fun _ hrule => (nomatch hrule), fun _ hrule => (nomatch hrule)⟩
  · obtain ⟨-, -, hargs, hresult, -⟩ := compileAplBlocks_ok hraw
    exact ⟨compileFields_source hargs, compileFields_source hresult⟩

theorem compilePolicyBlockValue_routeKey (h : compilePolicyBlockValue source block = .ok route) :
    route.routeKey = source := by
  rcases compilePolicyBlockValue_ok h with rfl | ⟨raw, hraw⟩
  · rfl
  · exact (compileAplBlocks_ok hraw).2.2.2.2

end

end Cpex
