import Cpex.Native.Slice

/-! # The pipeline parser

`parse_pipeline` of `apl-core/src/parser.rs`: a pipe chain is cut at its top-level `|` and every
piece read as a stage. `parse_taint` serves `taint(..)` steps as well. -/

namespace Cpex

/-! ### Ranges -/

/-- `i64::checked_mul`: the product, unless it overflows. -/
def checkedMul (a b : Int) : Option Int :=
  if -2 ^ 63 ≤ a * b ∧ a * b < 2 ^ 63 then some (a * b) else none

/-- `parse_numeric_with_suffix`. -/
def parseNumericWithSuffix (s : String) : Except Stop (Option Int) := do
  let s := Text.trim s
  match s.toList.getLast? with
  | none => return none
  | some last =>
    let (numPart, mult) ←
      if last = 'k' ∨ last = 'K' then
        pure (← Text.sliceTo s (Text.byteLen s - 1), 1000)
      else if last = 'm' ∨ last = 'M' then
        pure (← Text.sliceTo s (Text.byteLen s - 1), 1000000)
      else pure (s, 1)
    return (Text.parseI64 numPart).bind (checkedMul · mult)

/-- One end of a range: `some none` if it is open, `none` if it is not a number. -/
def parseRangeEnd (s : String) : Except Stop (Option (Option Int)) :=
  if s = "" then return some none else return (← parseNumericWithSuffix s).map some

/-- `parse_range_inner`. -/
def parseRangeInner (s : String) : Except Stop (Option (Option Int × Option Int)) := do
  match Text.findStr s ".." with
  | none => return none
  | some dotdot =>
    let left := Text.trim (← Text.sliceTo s dotdot)
    let right := Text.trim (← Text.sliceFrom s (dotdot + 2))
    let some min ← parseRangeEnd left | return none
    let some max ← parseRangeEnd right | return none
    -- `..` alone is not a range.
    if min.isNone && max.isNone then return none
    return some (min, max)

/-- `try_parse_range`. -/
def tryParseRange (s : String) : Except Stop (Option Stage) := do
  if (Text.findStr s "..").isNone then return none
  match s.toList.head? with
  | none => return none
  | some first =>
    if isIdentStart first then return none
    return (← parseRangeInner s).map fun (min, max) => .range min max

/-! ### Taints -/

/-- `parse_taint_scope`. -/
def parseTaintScope (s src : String) : Except Stop TaintScope :=
  match s with
  | "session" => .ok .session
  | "message" => .ok .message
  | other =>
    throw (.error (.predicate src
      ("unknown taint scope `" ++ other ++ "` (expected `session` or `message`)")))

/-- `parse_taint`: the label and the scopes of the stage it returns. -/
def parseTaint (args src : String) : Except Stop (String × List TaintScope) := do
  match ← splitTopLevel args ',' with
  | [] => throw (.error (.predicate src "taint() requires at least a label"))
  | first :: rest =>
    let label := Text.trim first
    if label = "" then throw (.error (.predicate src "taint label must not be empty"))
    if rest = [] then return (label, [.session])
    let scopeArg := Text.trim (",".intercalate rest)
    if Text.startsWith scopeArg "[" && Text.endsWith scopeArg "]" then
      let parts ← splitTopLevel (← Text.sliceInner scopeArg) ','
      return (label, ← parts.mapM fun s => parseTaintScope (Text.trim s) src)
    return (label, [← parseTaintScope scopeArg src])

/-! ### Stages -/

/-- `split_head_args`. -/
def splitHeadArgs (s : String) : Except Stop (Option (String × Option String)) := do
  match Text.find s '(' with
  | none =>
    let head := Text.trim s
    return if head = "" then none else some (head, none)
  | some start =>
    match closingParen 0 ((Text.charIndices s).filter fun p => start ≤ p.1) with
    | none => return none
    | some close =>
      let head := Text.trim (← Text.sliceTo s start)
      if head = "" then return none
      let args ← Text.slice s (start + 1) close
      -- Trailing text after the closing parenthesis is rejected.
      if Text.trim (← Text.sliceFrom s (close + 1)) = "" then return some (head, some args)
      return none

/-- The text between a pair of equal quotes, or the text itself. The length is not checked: a
    single quote is a pair here, and its inside is an empty range that ends before it starts. -/
def unquote (t : String) : Except Stop String :=
  if (Text.startsWith t "\"" && Text.endsWith t "\"") ||
      (Text.startsWith t "'" && Text.endsWith t "'") then
    Text.sliceInner t
  else return t

section
variable (bad : String → Stop)

/-- `parse_stage_mask`. -/
def parseStageMask (a : String) : Except Stop Stage :=
  match Text.parseUsize (Text.trim a) with
  | some n => .ok (.mask n)
  | none => throw (bad ("mask(N) expects integer, got `" ++ a ++ "`"))

/-- The closure `to_usize` of `parse_stage_len`, on an end that may be open. -/
def lenBound : Option Int → Except Stop (Option Nat)
  | none => .ok none
  | some v => if v < 0 then throw (bad "len bounds must be non-negative") else .ok (some v.toNat)

/-- `parse_stage_len`. -/
def parseStageLen (a : String) : Except Stop Stage := do
  match ← parseRangeInner a with
  | none => throw (bad ("len(...) expects N..M range, got `" ++ a ++ "`"))
  | some (min, max) => return .length (← lenBound bad min) (← lenBound bad max)

/-- `parse_stage_enum`. -/
def parseStageEnum (a : String) : Except Stop Stage := do
  let pieces ← splitTopLevel a ','
  let values ← pieces.mapM fun v => unquote (Text.trim v)
  let values := values.filter (· ≠ "")
  if values = [] then throw (bad "enum() requires at least one value")
  return .enum values

/-- `parse_stage_regex`. -/
def parseStageRegex (a : String) : Except Stop Stage := do
  return .regex (← unquote (Text.trim a))

/-- `parse_stage_validate_rejected`. -/
def parseStageValidateRejected (a : String) : Stop :=
  let a := Text.trim a
  bad ("`validate(" ++ a ++ ")` — named-validator dispatch is not implemented in this build. " ++
    "Use `regex(\"pattern\")` for a named-regex equivalent, or `plugin(" ++ a ++ ")` for " ++
    "richer validation logic.")

/-- `parse_stage_plugin`. -/
def parseStagePlugin (head a : String) : Except Stop Stage :=
  let name := Text.trim a
  if name = "" then throw (bad ("`" ++ head ++ "(...)`: plugin name must not be empty"))
  else .ok (.plugin name)

end

section
variable [Platform]

/-- `parse_stage_redact_cond`. -/
def parseStageRedactCond (a src : String) : Except Stop Stage :=
  match parsePredicate a with
  | .ok cond => .ok (.redact (some cond))
  | .error e => throw (.error (.predicate src ("invalid redact() condition: " ++ e.toText)))

/-- The match of `parse_stage` on the head of a stage and its arguments. -/
def parseStageCall (src head : String) (args : Option String) : Except Stop Stage :=
  let bad (msg : String) : Stop := .error (.predicate src msg)
  match head, args with
  | "str", none => .ok (.type .str)
  | "int", none => .ok (.type .int)
  | "bool", none => .ok (.type .bool)
  | "float", none => .ok (.type .float)
  | "email", none => .ok (.type .email)
  | "url", none => .ok (.type .url)
  | "uuid", none => .ok (.type .uuid)
  | "redact", none => .ok (.redact none)
  | "omit", none => .ok .omit
  | "hash", none => .ok .hash
  | "mask", some a => parseStageMask bad a
  | "redact", some a => parseStageRedactCond a src
  | "hash", some _ => throw (bad "hash takes no arguments")
  | "omit", some _ =>
    throw (bad "omit takes no arguments — for conditional omit, use a policy rule predicate")
  | "len", some a => parseStageLen bad a
  | "enum", some a => parseStageEnum bad a
  | "regex", some a => parseStageRegex a
  | "validate", some a => throw (parseStageValidateRejected bad a)
  | "plugin", some a => parseStagePlugin bad "plugin" a
  | "run", some a => parseStagePlugin bad "run" a
  | "taint", some a => do
    let (label, scopes) ← parseTaint a src
    return .taint label scopes
  | "pii.redact", none => .ok (.scan .piiRedact)
  | "pii.detect", none => .ok (.scan .piiDetect)
  | "injection.scan", none => .ok (.scan .injectionScan)
  | other, _ => throw (bad ("unknown stage `" ++ other ++ "`"))

/-- `parse_stage`. -/
def parseStage (src : String) : Except Stop Stage := do
  let s := Text.trim src
  match ← tryParseRange s with
  | some stage => return stage
  | none =>
    match ← splitHeadArgs s with
    | none => throw (.error (.predicate src "expected stage identifier"))
    | some (head, args) => parseStageCall src head args

/-- `parse_pipeline`. -/
def parsePipeline (src : String) : Except Stop Pipeline := do
  let segs ← splitTopLevel (Text.trim src) '|'
  let segs := (segs.map Text.trim).filter (· ≠ "")
  return { stages := ← segs.mapM parseStage }

end

end Cpex
