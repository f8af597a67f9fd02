import Cpex.Native.StepParser
import Cpex.Spec.Slices

/-! # Lines never panic

A computation of the parser does not panic if it returns a value or an error. One rule for each way
in which the parser puts computations together, and from them the parsers of single lines, up to
`parse_rule`: every slice they take lies between boundaries that they have found in the text
before.
-/

namespace Cpex

open Text

/-- The computation returns a value or an error. -/
def Safe {α : Type} (x : Except Stop α) : Prop := x ≠ .error .panic

section

variable {α β : Type}

@[simp] theorem safe_ok (a : α) : Safe (.ok a : Except Stop α) := fun h => by cases h

@[simp] theorem safe_pure (a : α) : Safe (pure a : Except Stop α) := safe_ok a

@[simp] theorem safe_error (e : ParseError) : Safe (.error (.error e) : Except Stop α) :=
  fun h => by cases h

@[simp] theorem safe_throw (e : ParseError) :
    Safe (throw (Stop.error e) : Except Stop α) := safe_error e

@[simp] theorem safe_ruleErr (rule msg : String) : Safe (ruleErr rule msg : Except Stop α) :=
  safe_throw _

variable {x : Except Stop α}

/-- A computation that does not panic and does not return a value is an error. -/
theorem Safe.exists_error (h : Safe x) (hok : ∀ a, x ≠ .ok a) : ∃ e, x = .error (.error e) := by
  cases x with
  | ok a => exact absurd rfl (hok a)
  | error stop =>
    cases stop with
    | error e => exact ⟨e, rfl⟩
    | panic => exact absurd rfl h

variable {f : α → Except Stop β}

/-- What follows has to be safe only for the value that it is given. -/
theorem Safe.bind (hx : Safe x) (hf : ∀ a, x = .ok a → Safe (f a)) : Safe (x >>= f) := by
  cases x with
  | error stop =>
    intro h
    cases h
    exact hx rfl
  | ok a => exact hf a rfl

/-- Parsers put the rule into the errors of those they call. -/
theorem Safe.mapError (hx : Safe x) (f : ParseError → ParseError) :
    Safe (x.mapError (Stop.mapErr f)) := by
  cases x with
  | ok a => exact safe_ok a
  | error stop =>
    cases stop with
    | error e => exact safe_error _
    | panic => exact absurd rfl hx

/-- The lexer and the predicate parser only return errors. -/
theorem safe_mapError_error {ε : Type} (x : Except ε α) (f : ε → ParseError) :
    Safe (x.mapError fun e => Stop.error (f e)) := by
  cases x with
  | ok a => exact safe_ok a
  | error e => exact safe_error _

theorem safe_option_mapM {o : Option α} (h : ∀ a, Safe (f a)) : Safe (o.mapM f) := by
  cases o with
  | none => exact safe_ok none
  | some a => exact (h a).bind fun b _ => safe_pure _

end

/-! ### Slices -/

variable {s : String} {i : Nat}

/-- The one rule for slices: both ends are boundaries, in this order. -/
theorem slice_safe (hi : IsBoundary s i) (hj : IsBoundary s j) (hle : i ≤ j) :
    Safe (slice s i j) := by
  obtain ⟨_, _, _, _, _, _, hslice⟩ := slice_eq_ok hi hj hle
  rw [hslice]
  exact safe_ok _

theorem sliceTo_safe (h : IsBoundary s i) : Safe (sliceTo s i) :=
  slice_safe (isBoundary_zero s) h (Nat.zero_le i)

theorem sliceFrom_safe (h : IsBoundary s i) : Safe (sliceFrom s i) :=
  slice_safe h (isBoundary_byteLen s) h.le

/-- A text between two characters of one byte. -/
theorem sliceInner_safe (hp : p.utf8Size = 1) (hq : q.utf8Size = 1)
    (hstart : ∃ rest, s.toList = p :: rest) (hend : ∃ init, s.toList = init ++ [q])
    (hlen : 2 ≤ byteLen s) : Safe (sliceInner s) := by
  obtain ⟨rest, hrest⟩ := hstart
  obtain ⟨init, hinit⟩ := hend
  have hone : IsBoundary s 1 := ⟨[p], rest, hrest, by simp [hp]⟩
  have hlast : IsBoundary s (byteLen s - 1) := by
    refine ⟨init, [q], hinit, ?_⟩
    rw [byteLen, hinit, byteLenChars_append, byteLenChars_cons, hq, byteLenChars_nil]
    omega
  exact slice_safe hone hlast (by omega)

theorem startsWith_iff {p : String} :
    startsWith s p = true ↔ ∃ rest, s.toList = p.toList ++ rest := by
  rw [startsWith, List.isPrefixOf_iff_prefix]
  constructor <;> rintro ⟨rest, h⟩ <;> exact ⟨rest, h.symm⟩

theorem endsWith_iff {p : String} : endsWith s p = true ↔ ∃ init, s.toList = init ++ p.toList := by
  rw [endsWith, List.isSuffixOf_iff_suffix]
  constructor <;> rintro ⟨rest, h⟩ <;> exact ⟨rest, h.symm⟩

/-- Quotes take one byte, so the text between them can be cut out. -/
theorem isQuoted_safe (h : isQuoted s = true) : Safe (sliceInner s) := by
  simp only [isQuoted, Bool.and_eq_true, Bool.or_eq_true, startsWith_iff, endsWith_iff,
    decide_eq_true_eq] at h
  obtain ⟨⟨hstart, hend⟩ | ⟨hstart, hend⟩, hlen⟩ := h
  · exact sliceInner_safe rfl rfl hstart hend hlen
  · exact sliceInner_safe rfl rfl hstart hend hlen

/-- `extract_call_args`: the closing parenthesis comes behind the opening one. -/
theorem extractCallArgs_safe (line name : String) : Safe (extractCallArgs line name) := by
  unfold extractCallArgs
  dsimp only
  split
  · exact safe_pure _
  · next hname =>
    have hname : startsWith (trim line) name = true := by simpa using hname
    obtain ⟨rest, hrest⟩ := startsWith_iff.mp hname
    refine (sliceFrom_safe ⟨name.toList, rest, hrest, rfl⟩).bind fun after _ => ?_
    split
    · exact safe_pure _
    · next hopen =>
      have hopen : startsWith after "(" = true := by simpa using hopen
      obtain ⟨tail, htail⟩ := startsWith_iff.mp hopen
      have hparen : StandsAt after 0 '(' := ⟨[], tail, htail, rfl⟩
      split
      · exact safe_pure _
      · next i hclose =>
        have hi := standsAt_of_mem (mem_of_closingParen hclose)
        -- The text starts with `(`, so the `)` stands further on.
        have hpos : 1 ≤ i := by
          rcases Nat.eq_zero_or_pos i with rfl | hpos
          · exact absurd (hparen.unique hi) (by decide)
          · exact hpos
        refine (sliceFrom_safe (hi.isBoundary_succ rfl)).bind fun behind _ => ?_
        split
        · exact (slice_safe (hparen.isBoundary_succ rfl) hi.isBoundary hpos).bind
            fun _ _ => safe_pure _
        · exact safe_pure _

/-! ### Rules -/

/-- A literal without its quotes, or an error. -/
theorem stripStringLiteral_safe (s rule : String) : Safe (stripStringLiteral s rule) := by
  unfold stripStringLiteral
  dsimp only
  split
  · next h => exact isQuoted_safe h
  · exact safe_ruleErr _ _

/-- `deny(..)` takes a reason and perhaps a code, both literals. -/
theorem tryParseDenyCall_safe (s rule : String) : Safe (tryParseDenyCall s rule) := by
  unfold tryParseDenyCall
  split
  · exact safe_pure _
  · refine (extractCallArgs_safe s "deny").bind fun args _ => ?_
    cases args with
    | none => exact safe_ruleErr _ _
    | some inside =>
      dsimp only
      split
      · exact safe_ruleErr _ _
      · next parts _ =>
        have hliteral (p : String) := stripStringLiteral_safe (trim p) rule
        refine (safe_option_mapM hliteral).bind fun reason _ => ?_
        refine (safe_option_mapM hliteral).bind fun code _ => ?_
        split
        · exact safe_ruleErr _ _
        · exact safe_pure _

/-- The action behind the colon of a rule. -/
theorem parseAction_safe (s rule : String) : Safe (parseAction s rule) := by
  unfold parseAction
  split
  · exact safe_pure _
  · refine (tryParseDenyCall_safe _ _).bind fun deny _ => ?_
    cases deny with
    | none => exact safe_ruleErr _ _
    | some deny => exact safe_pure _

/-- A rule is split at a colon that was found in it. -/
theorem splitPredicateAction_safe (s : String) : Safe (splitPredicateAction s) := by
  unfold splitPredicateAction
  split
  · exact safe_pure _
  · next i hi =>
    have hcolon := standsAt_of_mem (mem_of_topLevel (List.mem_of_getLast? hi))
    refine (sliceTo_safe hcolon.isBoundary).bind fun _ _ => ?_
    exact (sliceFrom_safe (hcolon.isBoundary_succ rfl)).bind fun _ _ => safe_pure _

/-- A line without a colon is an action or a predicate. -/
theorem ruleParts_safe (trimmed : String) : Safe (ruleParts trimmed) := by
  refine (splitPredicateAction_safe _).bind fun parts _ => ?_
  cases parts with
  | some parts => exact (parseAction_safe _ _).bind fun _ _ => safe_pure _
  | none =>
    dsimp only
    split
    · exact safe_pure _
    · refine (tryParseDenyCall_safe _ _).bind fun deny _ => ?_
      cases deny with
      | none => exact safe_pure _
      | some deny => exact safe_pure _

section

variable [Platform]

/-- Keys are read from tokens, with no slice. -/
theorem requireKeys_safe (line : String) (sep : Option Tok) (toks : List Tok) :
    Safe (requireKeys line sep toks) := by
  -- A round takes a separator and a key.
  induction hn : toks.length using Nat.strong_induction_on generalizing sep toks with
  | _ n ih =>
    unfold requireKeys
    split
    · exact safe_ruleErr _ _
    · exact safe_ok _
    · repeat' split
      case h_1 s toks =>
        have hlt : toks.length < n := by simp at hn; omega
        exact (ih _ hlt _ _ rfl).bind fun _ _ => safe_ok _
      all_goals exact safe_ruleErr _ _

/-- `require(..)` up to its closing parenthesis. -/
theorem parseRequireRule_safe (line : String) : Safe (parseRequireRule line) := by
  refine (safe_mapError_error (tokenize line) id).bind fun toks _ => ?_
  split
  · refine (requireKeys_safe _ _ _).bind fun r _ => ?_
    repeat' split
    all_goals first
      | exact safe_ruleErr _ _
      | exact safe_pure _
  all_goals exact safe_ruleErr _ _

/-- No rule panics. -/
theorem parseRule_safe (line source : String) : Safe (parseRule line source) := by
  unfold parseRule
  dsimp only
  split
  · exact (parseRequireRule_safe _).bind fun _ _ => safe_pure _
  · split
    · exact safe_throw _
    · refine (ruleParts_safe _).bind fun parts _ => ?_
      obtain ⟨predicate, effects⟩ := parts
      cases predicate with
      | none => exact safe_pure _
      | some predicate =>
        dsimp only
        split
        · exact safe_ruleErr _ _
        · exact safe_pure _

end

end Cpex
