import Cpex.Native.Rules

/-! # Predicate evaluation

`eval_expression` and its helpers (`apl-core/src/evaluator.rs`). Evaluation is total: a missing
attribute and an operator that does not apply are both `false`. -/

namespace Cpex

variable [Platform]

/-- `values_eq`. -/
def valuesEq : AttributeValue → Literal → Bool
  | .bool a, .bool b => a == b
  | .int a, .int b => a == b
  | .float a, .float b => a.beq b
  | .string a, .string b => a == b
  -- Int and float are compared as floats.
  | .int a, .float b => (F64.ofInt a).beq b
  | .float a, .int b => a.beq (F64.ofInt b)
  | _, _ => false

/-- `coerce_f64_attr`. -/
def coerceF64Attr : AttributeValue → Option F64
  | .int a => some (F64.ofInt a)
  | .float a => some a
  | .string s => Platform.parseF64 (Text.trim s)
  | _ => none

/-- `coerce_f64_lit`. -/
def coerceF64Lit : Literal → Option F64
  | .int b => some (F64.ofInt b)
  | .float b => some b
  | .string s => Platform.parseF64 (Text.trim s)
  | _ => none

/-- `numeric_compare`; `eval_comparison` calls it with an order operator. -/
def numericCompare (attr : AttributeValue) (lit : Literal) (op : CompareOp) : Bool :=
  match coerceF64Attr attr, coerceF64Lit lit with
  | some a, some b =>
    match op with
    | .gt => b.lt a
    | .gtEq => b.le a
    | .lt => a.lt b
    | .ltEq => a.le b
    | _ => false
  | _, _ => false

/-- `eval_comparison`. -/
def evalComparison (key : String) (op : CompareOp) (lit : Literal) (bag : AttributeBag) : Bool :=
  match bag.get key with
  | none => false
  | some attr =>
    match op with
    | .contains =>
      match attr, lit with
      | .stringSet _, .string s => bag.setContains key s
      | _, _ => false
    | .eq => valuesEq attr lit
    | .notEq => !valuesEq attr lit
    | .gt | .gtEq | .lt | .ltEq => numericCompare attr lit op

/-- `eval_condition`. -/
def evalCondition (cond : Condition) (bag : AttributeBag) : Bool :=
  match cond with
  | .isTrue key =>
    ((bag.resolveKey key).map fun k => (bag.getBool k).getD false).getD false
  -- An absent key is falsy, so `IsFalse` holds for it.
  | .isFalse key =>
    ((bag.resolveKey key).map fun k => !(bag.getBool k).getD false).getD true
  | .exists key => ((bag.resolveKey key).map bag.contains).getD false
  | .comparison key op value =>
    match bag.resolveKey key with
    | some k => evalComparison k op value bag
    | none => false
  | .inSet valueKey setKey negate =>
    let inSet :=
      match bag.resolveKey valueKey, bag.resolveKey setKey with
      | some vk, some sk =>
        match bag.getString vk, bag.getStringSet sk with
        | some s, some set => decide (s ∈ set)
        | _, _ => false
      | _, _ => false
    if negate then !inSet else inSet

mutual

/-- `eval_expression`. -/
def evalExpression (bag : AttributeBag) : Expression → Bool
  | .condition c => evalCondition c bag
  | .and parts => evalAll bag parts
  | .or parts => evalAny bag parts
  | .not inner => !evalExpression bag inner
  | .always => true

/-- `parts.iter().all(..)`. -/
def evalAll (bag : AttributeBag) : List Expression → Bool
  | [] => true
  | e :: es => evalExpression bag e && evalAll bag es

/-- `parts.iter().any(..)`. -/
def evalAny (bag : AttributeBag) : List Expression → Bool
  | [] => false
  | e :: es => evalExpression bag e || evalAny bag es

end

/-- `looks_like_attribute_ref`: a dotted path of identifier characters. -/
def looksLikeAttributeRef (s : String) : Bool :=
  Text.containsChar s '.' && (s.toList.head?.map Char.isAlpha).getD false &&
    s.toList.all fun c => c.isAlphanum || c == '_' || c == '.'

end Cpex
