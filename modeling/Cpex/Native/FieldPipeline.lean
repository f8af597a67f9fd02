import Cpex.Native.Expression
import Cpex.Native.Json
import Cpex.Native.Step

/-! # Field pipelines

`evaluate_pipeline` (`apl-core/src/evaluator.rs`): the stages of a pipe chain applied to one
field value, left to right. -/

namespace Cpex

/-- Result of running a pipeline against one field's value. -/
inductive FieldOutcome where
  | pass
  | replace (value : Json)
  | omit
  | deny (reason : String) (stageIndex : Nat)

section
variable [Platform]

/-- `TypeCheck` through `Debug`. -/
def TypeCheck.debug : TypeCheck → String
  | .str => "Str"
  | .int => "Int"
  | .bool => "Bool"
  | .float => "Float"
  | .email => "Email"
  | .url => "Url"
  | .uuid => "Uuid"

/-- `Option` of a number through `Debug`. -/
def debugOpt {α : Type} [ToString α] : Option α → String
  | some x => s!"Some({x})"
  | none => "None"

/-- `Vec<String>` through `Debug`. -/
def debugStrings (values : List String) : String :=
  "[" ++ ", ".intercalate (values.map Platform.debugStr) ++ "]"

/-- `value_kind`. -/
def valueKind : Json → String
  | .null => "null"
  | .bool _ => "bool"
  | .number n => if (Json.number n).isI64 then "int" else "float"
  | .string _ => "string"
  | .array _ => "array"
  | .object _ => "object"

def isHexDigit (c : Char) : Bool :=
  c.isDigit || ('a' ≤ c && c ≤ 'f') || ('A' ≤ c && c ≤ 'F')

/-- `is_uuid_shape`: 8-4-4-4-12 hex digits. -/
def isUuidShape (s : String) : Bool :=
  s.toList.length == 36 &&
    s.toList.zipIdx.all fun (c, i) =>
      if i = 8 ∨ i = 13 ∨ i = 18 ∨ i = 23 then c == '-' else isHexDigit c

/-- `type_check`. -/
def typeCheck (tc : TypeCheck) (v : Json) : Bool :=
  let onStr (p : String → Bool) : Bool := (v.asStr.map p).getD false
  match tc with
  | .str => v.isString
  | .int => v.isI64
  | .bool => v.isBoolean
  | .float => v.isF64 || v.isI64
  | .email => onStr fun s => Text.containsChar s '@' && Text.containsChar s '.'
  | .url => onStr fun s => Text.startsWith s "http://" || Text.startsWith s "https://"
  | .uuid => onStr isUuidShape

/-- A `u64` as sixteen lower-case hex digits, `{:016x}`. -/
def hex16 (n : UInt64) : String :=
  let digits := (Nat.toDigits 16 n.toNat)
  String.ofList (List.replicate (16 - digits.length) '0' ++ digits)

/-- The masking of `Stage::Mask`: all but the last `keepLast` characters become `*`. -/
def maskChars (keepLast : Nat) (cs : List Char) : List Char :=
  let maskCount := cs.length - min keepLast cs.length
  List.replicate maskCount '*' ++ cs.drop maskCount

end

/-- What the evaluation of a phase has reached so far. The program keeps no such record: no
    definition reads it, it is what the correctness statements are about. -/
inductive Reached where
  | deny (reason code : Option String)
  | pdp (call : PdpCall) (answer : Except PdpError PdpDecision)
  | plugin (name : String) (answer : Except PluginError PluginOutcome)
  | delegate (step : DelegateStep) (answer : Except DelegationError DelegationOutcome)
  /-- An elicitation step: whether `from` resolved, the answers of the calls it made, and
      the bag its scope is evaluated against. -/
  | elicit (step : ElicitStep) (fromResolved : Bool)
      (dispatched : Option (Except ElicitationError ElicitationDispatch))
      (checked : Option (Except ElicitationError ElicitationStatus))
      (validated : Option (Except ElicitationError ElicitationValidation))
      (bag : AttributeBag)
  | restrict (spec : RestrictSpec) (answer : Except RestrictResolveError CandidateConstraint)
  /-- The task of a `parallel` branch panicked. -/
  | panicked (payload : String)

/-- The variables of the stage loop. -/
structure PipelineState (σ : Type) where
  current : Json
  replaced : Bool
  taints : List TaintEvent
  world : σ
  trace : List Reached

namespace PipelineState

variable {σ : Type}

/-- `current = v; replaced = true`. -/
def replaceWith (st : PipelineState σ) (v : Json) : PipelineState σ :=
  { st with current := v, replaced := true }

/-- `taints.push(..)`. -/
def pushTaint (st : PipelineState σ) (t : TaintEvent) : PipelineState σ :=
  { st with taints := st.taints ++ [t] }

end PipelineState

section
variable [Platform] {σ : Type} (inv : Invokers σ)

/-- `Stage::Plugin`: call the plugin on the current value; fail closed on an error. -/
def runPluginStage (bag : AttributeBag) (fieldName : String) (phase : DispatchPhase) (idx : Nat)
    (name : String) (st : PipelineState σ) : Option FieldOutcome × PipelineState σ :=
  let (answer, world) := inv.invoke st.world name bag (.field fieldName st.current phase)
  let st := { st with world, trace := st.trace ++ [.plugin name answer] }
  match answer with
  | .ok outcome =>
    let st := { st with taints := st.taints ++ outcome.taints }
    match outcome.decision with
    | .allow =>
      match outcome.modifiedValue with
      | some v => (none, st.replaceWith v)
      | none => (none, st)
    | .deny reason _ => (some (.deny (reason.getD s!"plugin `{name}` denied") idx), st)
  | .error e => (some (.deny ("plugin `" ++ name ++ "` error: " ++ e.toText) idx), st)

/-- A stage that needs a string: deny other values, naming the stage. -/
def onString (what : String) (idx : Nat) (st : PipelineState σ)
    (k : String → Option FieldOutcome × PipelineState σ) :
    Option FieldOutcome × PipelineState σ :=
  match st.current.asStr with
  | some s => k s
  | none =>
    (some (.deny (what ++ " requires string value, got " ++ valueKind st.current) idx), st)

/-- One iteration of the stage loop: `some` outcome ends the pipeline. -/
def runStage (bag : AttributeBag) (fieldName : String) (phase : DispatchPhase) (idx : Nat)
    (stage : Stage) (st : PipelineState σ) : Option FieldOutcome × PipelineState σ :=
  match stage with
  | .type tc =>
    if typeCheck tc st.current then (none, st)
    else (some (.deny ("expected " ++ tc.debug ++ ", got " ++ valueKind st.current) idx), st)
  | .length min max =>
    onString "len(...)" idx st fun s =>
      let len := s.toList.length
      if min.any (len < ·) || max.any (len > ·) then
        (some (.deny (s!"length {len} outside [" ++ debugOpt min ++ ", " ++ debugOpt max ++ "]")
          idx), st)
      else (none, st)
  | .range min max =>
    match st.current.asI64 with
    | none =>
      (some (.deny ("range requires integer value, got " ++ valueKind st.current) idx), st)
    | some n =>
      if min.any (n < ·) || max.any (n > ·) then
        (some (.deny (s!"value {n} outside [" ++ debugOpt min ++ ", " ++ debugOpt max ++ "]")
          idx), st)
      else (none, st)
  | .enum values =>
    onString "enum(...)" idx st fun s =>
      if values.contains s then (none, st)
      else (some (.deny (s!"value `{s}` not in enum " ++ debugStrings values) idx), st)
  | .regex pattern =>
    -- The pattern is compiled before the value is looked at.
    match Platform.regexNew pattern with
    | .error e => (some (.deny s!"invalid regex `{pattern}`: {e}" idx), st)
    | .ok isMatch =>
      onString "regex" idx st fun s =>
        if isMatch s then (none, st)
        else (some (.deny s!"value did not match regex `{pattern}`" idx), st)
  | .validate name =>
    (some (.deny (s!"`validate({name})` is not implemented; use `regex(...)` " ++
      s!"or `plugin({name})` instead") idx), st)
  | .mask keepLast =>
    onString "mask(...)" idx st fun s =>
      (none, st.replaceWith (.string (String.ofList (maskChars keepLast s.toList))))
  | .redact condition =>
    if (condition.map (evalExpression bag)).getD true then
      (none, st.replaceWith (.string "[REDACTED]"))
    else (none, st)
  | .omit => (some .omit, st)
  | .hash =>
    let digest := Platform.hashString (Platform.jsonToString st.current)
    (none, st.replaceWith (.string ("hash:" ++ hex16 digest)))
  | .taint label scopes => (none, st.pushTaint ⟨label, scopes⟩)
  | .plugin name => runPluginStage inv bag fieldName phase idx name st
  | .scan kind =>
    match kind with
    | .piiDetect => (none, st.pushTaint ⟨"PII", [.session]⟩)
    | .piiRedact =>
      (none, (st.pushTaint ⟨"PII", [.session]⟩).replaceWith (.string "[REDACTED]"))
    | .injectionScan => (none, st.pushTaint ⟨"injection", [.session]⟩)

/-- Only the plugin stage makes a call: any other leaves the world and the record alone. -/
theorem runStage_frame (bag : AttributeBag) (fieldName : String) (phase : DispatchPhase)
    (idx : Nat) (stage : Stage) (st : PipelineState σ) (h : ∀ name, stage ≠ .plugin name) :
    (runStage inv bag fieldName phase idx stage st).2.world = st.world ∧
      (runStage inv bag fieldName phase idx stage st).2.trace = st.trace := by
  cases stage with
  | plugin name => exact absurd rfl (h name)
  | scan kind => cases kind <;> exact ⟨rfl, rfl⟩
  | _ =>
    -- The other stages test or rewrite the value, each by a cascade of cases.
    simp only [runStage, onString]
    repeat' split
    all_goals trivial

/-- The stage loop from stage `idx` on. -/
def runStages (bag : AttributeBag) (fieldName : String) (phase : DispatchPhase) :
    Nat → List Stage → PipelineState σ → FieldOutcome × PipelineState σ
  | _, [], st => (if st.replaced then .replace st.current else .pass, st)
  | idx, stage :: stages, st =>
    match runStage inv bag fieldName phase idx stage st with
    | (some outcome, st) => (outcome, st)
    | (none, st) => runStages bag fieldName phase (idx + 1) stages st

/-- `evaluate_pipeline`: the outcome, and the final state with the taints it emitted. -/
def evaluatePipeline (pipeline : Pipeline) (value : Json) (bag : AttributeBag) (world : σ)
    (fieldName : String) (phase : DispatchPhase) : FieldOutcome × PipelineState σ :=
  runStages inv bag fieldName phase 0 pipeline.stages ⟨value, false, [], world, []⟩

end

end Cpex
