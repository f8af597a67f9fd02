import Cpex.Native.Evaluator
import Cpex.Spec.NoPanic
import Cpex.Spec.PredicateTokens

/-! # `require` rules

`require(a, b)` and `require(a | b)` from their text to the decision: the tokens that
`parse_require_rule` accepts, the condition it makes of them, and what a rule with that condition
decides.
-/

namespace Cpex

theorem AttributeBag.getD_getBool (bag : AttributeBag) (key : String) :
    (bag.getBool key).getD false = true ↔ bag.get key = some (.bool true) := by
  unfold AttributeBag.getBool
  split
  · next v hv => simp [hv]
  · next hv =>
    simp only [Option.getD_none, Bool.false_eq_true, false_iff]
    exact hv true

/-! ### The tokens of a call -/

/-- `,` or `|`. -/
inductive RequireSep where
  | all
  | any
  deriving DecidableEq

namespace RequireSep

def tok : RequireSep → Tok
  | .all => .comma
  | .any => .or

def text : RequireSep → String
  | .all => ", "
  | .any => " | "

/-- The keys behind the first one, each with its separator. -/
def more (sep : RequireSep) : List String → List Tok
  | [] => []
  | k :: keys => sep.tok :: .ident k :: sep.more keys

/-- The tokens of a call. -/
def call (sep : RequireSep) (first : String) (keys : List String) : List Tok :=
  .require :: .lparen :: .ident first :: (sep.more keys ++ [.rparen])

/-- The condition a call stands for: it holds where the rule denies. -/
def condition (sep : RequireSep) : List String → Expression
  | [k] => .condition (.isFalse k)
  | keys =>
    match sep with
    | .all => .or (keys.map fun k => .condition (.isFalse k))
    | .any => .and (keys.map fun k => .condition (.isFalse k))

variable (t : RequireSep)

/-- One separator, and one only, stands in a call. -/
theorem not_mixed (first : String) (more : List String) :
    ¬(Tok.comma ∈ t.call first more ∧ Tok.or ∈ t.call first more) := by
  have hmore {sep : Tok} (hsep : sep = .comma ∨ sep = .or) (hmem : sep ∈ t.call first more) :
      sep = t.tok := by
    have hkeys : sep ∈ t.more more := by
      rcases hsep with rfl | rfl <;> simpa [call] using hmem
    clear hmem
    induction more with
    | nil => cases hkeys
    | cons k more ih =>
      rw [RequireSep.more, List.mem_cons, List.mem_cons] at hkeys
      rcases hkeys with hkeys | hkeys | hkeys
      · exact hkeys
      · rcases hsep with rfl | rfl <;> cases hkeys
      · exact ih hkeys
  rintro ⟨hcomma, hor⟩
  have hclash := (hmore (.inl rfl) hcomma).trans (hmore (.inr rfl) hor).symm
  cases hclash

variable {first : String} {more : List String}

/-- Nothing goes on with the `)` at the end. -/
theorem ends_last (h : last ∈ (t.call first more).getLast?) (next : Option Char) :
    last.Ends next := by
  have hlast : (t.call first more).getLast? = some .rparen := by
    simp [call, List.getLast?_cons]
  rw [hlast] at h
  cases h
  trivial

theorem rparen_notMem_more (keys : List String) : Tok.rparen ∉ t.more keys := by
  induction keys with
  | nil => exact List.not_mem_nil
  | cons k keys ih =>
    have htok : Tok.rparen ≠ t.tok := by cases t <;> decide
    simp [more, htok, ih]

/-- The tokens of a call are not the start of the tokens of a longer one. -/
theorem call_append_eq_call {t' : RequireSep}
    (h : t.call first more ++ extra = t'.call first' more') : extra = [] := by
  rcases List.eq_nil_or_concat extra with hextra | ⟨init, last, rfl⟩
  · exact hextra
  -- Else the `)` of the first call stands before the last token of the second.
  · have hinit : t.call first more ++ init =
        .require :: .lparen :: .ident first' :: t'.more more' := by
      have h' : t.call first more ++ init ++ [last] =
          (.require :: .lparen :: .ident first' :: t'.more more') ++ [.rparen] := by
        rw [List.append_assoc, ← List.concat_eq_append]
        exact h
      exact (List.append_inj' h' rfl).1
    have hmem : Tok.rparen ∈ t.call first more ++ init := by simp [call]
    rw [hinit] at hmem
    exact absurd (by simpa using hmem) (t'.rparen_notMem_more more')

end RequireSep

/-! ### What a call says -/

section

variable [Platform]

/-- The path of the key resolves, and to the boolean `true`. -/
def AttributeBag.ResolvesToTrue (bag : AttributeBag) (key : String) : Prop :=
  ∃ resolved, bag.resolveKey key = some resolved ∧ bag.get resolved = some (.bool true)

variable (bag : AttributeBag)

/-- A key that does not resolve is false, and so is one with a value of another type. -/
theorem evalCondition_isFalse :
    evalCondition (.isFalse key) bag = true ↔ ¬bag.ResolvesToTrue key := by
  simp only [evalCondition, AttributeBag.ResolvesToTrue]
  cases bag.resolveKey key with
  | none => simp
  | some resolved =>
    have hbool := bag.getD_getBool resolved
    simp [← hbool]

theorem evalAny_map (f : String → Expression) (keys : List String) :
    evalAny bag (keys.map f) = true ↔ ∃ k ∈ keys, evalExpression bag (f k) = true := by
  induction keys with
  | nil => simp [evalAny]
  | cons k keys ih => simp [evalAny, ih]

theorem evalAll_map (f : String → Expression) (keys : List String) :
    evalAll bag (keys.map f) = true ↔ ∀ k ∈ keys, evalExpression bag (f k) = true := by
  induction keys with
  | nil => simp [evalAll]
  | cons k keys ih => simp [evalAll, ih]

namespace RequireSep

/-- The bag does not have what a call requires of the keys. -/
def Fails (bag : AttributeBag) (keys : List String) : RequireSep → Prop
  | .all => ∃ k ∈ keys, ¬bag.ResolvesToTrue k
  | .any => ∀ k ∈ keys, ¬bag.ResolvesToTrue k

theorem evalExpression_condition (sep : RequireSep) (bag : AttributeBag) (keys : List String) :
    evalExpression bag (sep.condition keys) = true ↔ sep.Fails bag keys := by
  unfold condition
  split
  · cases sep <;> simp [Fails, evalExpression, evalCondition_isFalse]
  · cases sep <;> simp [Fails, evalExpression, evalAny_map, evalAll_map, evalCondition_isFalse]

end RequireSep

/-! ### Parsing a call -/

variable {line : String} {keys : List String}

/-- The loop reads keys up to the `)`, all behind the same separator. -/
theorem requireKeys_ok (h : requireKeys line sep toks = .ok (keys, sep', rest)) :
    (keys = [] ∧ sep' = sep ∧ toks = .rparen :: rest) ∨
      ∃ t : RequireSep, (sep = none ∨ sep = some t.tok) ∧ sep' = some t.tok ∧
        toks = t.more keys ++ .rparen :: rest := by
  -- A round takes a separator and a key.
  induction hn : toks.length using Nat.strong_induction_on generalizing sep toks keys sep' rest with
  | _ n ih =>
    unfold requireKeys at h
    split at h
    · cases h
    · cases h
      exact .inl ⟨rfl, rfl, rfl⟩
    · next tok toks _ =>
      split at h
      · next htok =>
        split at h
        · cases h
        · next hmix =>
          split at h
          · next s toks =>
            obtain ⟨⟨keys', sep'', rest'⟩, hkeys, h⟩ := Except.ok_of_bind h
            cases h
            obtain ⟨t, rfl⟩ : ∃ t : RequireSep, t.tok = tok := by
              rcases htok with rfl | rfl
              · exact ⟨.all, rfl⟩
              · exact ⟨.any, rfl⟩
            have hsep : sep = none ∨ sep = some t.tok := by
              cases sep with
              | none => exact .inl rfl
              | some u => exact .inr (by simpa using hmix)
            have hlt : toks.length < n := by simp at hn; omega
            -- A key further on was read with this separator before it.
            rcases ih _ hlt hkeys rfl with ⟨rfl, rfl, rfl⟩ | ⟨u, hu, rfl, rfl⟩
            · exact .inr ⟨t, hsep, rfl, rfl⟩
            · have htu : t.tok = u.tok :=
                Option.some.inj (hu.resolve_left (Option.some_ne_none _))
              refine .inr ⟨u, htu ▸ hsep, rfl, ?_⟩
              rw [htu]
              rfl
          · cases h
      · cases h

theorem requireKeys_more (line : String) (t : RequireSep) (rest : List Tok) (keys : List String)
    (hsep : sep = none ∨ sep = some t.tok) :
    requireKeys line sep (t.more keys ++ .rparen :: rest) =
      .ok (keys, if keys = [] then sep else some t.tok, rest) := by
  induction keys generalizing sep with
  | nil => rfl
  | cons k keys ih =>
    have hkeys := ih (.inr rfl)
    rw [ite_self] at hkeys
    have htok : t.tok = .comma ∨ t.tok = .or := by
      cases t
      · exact .inl rfl
      · exact .inr rfl
    have hparen : t.tok ≠ .rparen := by cases t <;> decide
    have hmix : ¬(sep.isSome = true ∧ sep ≠ some t.tok) := by
      rcases hsep with rfl | rfl <;> simp
    rw [RequireSep.more, List.cons_append, List.cons_append, requireKeys, if_pos htok, if_neg hmix,
      hkeys]
    · rfl
    · exact hparen

/-- Calls are written with one separator, and nothing stands behind the `)`. -/
theorem parseRequireRule_eq_ok_iff {e : Expression} :
    parseRequireRule line = .ok e ↔
      ∃ (t : RequireSep) (first : String) (more : List String),
        tokenize line = .ok (t.call first more) ∧ e = t.condition (first :: more) := by
  constructor
  · intro h
    obtain ⟨toks, htoks, h⟩ := Except.ok_of_bind h
    replace htoks := Except.ok_of_mapError htoks
    split at h
    · next first toks =>
      obtain ⟨⟨more, sep, rest⟩, hkeys, hcond⟩ := Except.ok_of_bind h
      dsimp only at hcond
      split at hcond
      · cases hcond
      · next hrest =>
        cases not_not.mp hrest
        rcases requireKeys_ok hkeys with ⟨rfl, rfl, rfl⟩ | ⟨t, -, rfl, rfl⟩
        · cases hcond
          exact ⟨.all, first, [], htoks, rfl⟩
        · refine ⟨t, first, more, htoks, ?_⟩
          cases more with
          | nil =>
            cases hcond
            rfl
          | cons k more =>
            cases t
            · cases hcond
              rfl
            · cases hcond
              rfl
    · cases h
    · cases h
    · cases h
  · rintro ⟨t, first, more, htoks, rfl⟩
    have hkeys := requireKeys_more line t [] more (.inl rfl)
    unfold parseRequireRule
    rw [htoks]
    change (requireKeys line none (t.more more ++ [.rparen]) >>= fun r => _) = _
    rw [hkeys]
    cases more with
    | nil => rfl
    | cons k more =>
      cases t
      · rfl
      · rfl

/-! ### The text of a call -/

/-- `require(k1, ..., kn)`, or `require(k1 | ... | kn)`. -/
def RequireSep.callText (sep : RequireSep) (keys : List String) : String :=
  "require(" ++ sep.text.intercalate keys ++ ")"

variable (sep : RequireSep) {first : String}

/-- The keys and the closing parenthesis. -/
theorem RequireSep.spells_keys (hkeys : ∀ k ∈ first :: keys, IsKey k) :
    lexicon.Spells (.ident first :: (sep.more keys ++ [.rparen]))
      ((sep.text.intercalate (first :: keys)).toList ++ [')']) := by
  induction keys generalizing first with
  | nil =>
    have hclose : lexicon.Spells [.rparen] [')'] := spells_cons .rparen trivial spells_nil
    exact spells_cons (hkeys first List.mem_cons_self).lexeme
      (ends_of_separator _ (.inr (.inl rfl))) hclose
  | cons k keys ih =>
    obtain ⟨hfirst, hkeys⟩ := List.forall_mem_cons.mp hkeys
    have hrest := spells_blank (ih hkeys)
    rw [String.intercalate_cons_cons, String.toList_append, String.toList_append,
      List.append_assoc, List.append_assoc]
    cases sep with
    | all =>
      have htext : RequireSep.all.text.toList = [','] ++ [' '] := rfl
      rw [htext, List.append_assoc]
      exact spells_cons hfirst.lexeme (ends_of_separator _ (.inr (.inr rfl)))
        (spells_cons .comma trivial hrest)
    | any =>
      have htext : RequireSep.any.text.toList = ' ' :: (['|'] ++ [' ']) := rfl
      rw [htext, List.cons_append, List.append_assoc]
      exact spells_cons hfirst.lexeme (ends_of_separator _ (.inl rfl))
        (spells_blank (spells_cons .or trivial hrest))

theorem RequireSep.tokenize_callText (hkeys : ∀ k ∈ first :: keys, IsKey k) :
    tokenize (sep.callText (first :: keys)) = .ok (sep.call first keys) := by
  have hrequire : Lexeme .require "require".toList :=
    Tok.Writable.lexeme (t := .require) trivial
  have hends : Tok.require.Ends (some '(') := by
    rintro c ⟨⟩
    decide
  have hopen : "require(".toList = "require".toList ++ ['('] := rfl
  rw [tokenize_eq_ok_iff, callText, String.toList_append, String.toList_append, hopen,
    List.append_assoc, List.append_assoc]
  exact spells_cons hrequire hends (spells_cons .lparen trivial (sep.spells_keys hkeys))

section
omit [Platform]

/-- A trimmed line is a call if it begins as one. -/
theorem isRequireCall_trim_iff {s : String} :
    isRequireCall (Text.trim s) = true ↔
      ∃ rest, s.toList.trim Text.isWhitespace = "require(".toList ++ rest := by
  have hstart : (s.toList.trim Text.isWhitespace).dropWhile Text.isWhitespace =
      s.toList.trim Text.isWhitespace :=
    List.dropWhile_append_of_head (l := []) (List.forall_mem_nil _) List.head?_trim
  have htrim : Text.trimChars s.toList = s.toList.trim Text.isWhitespace := rfl
  rw [isRequireCall, Text.trimStart, Text.trim, String.toList_ofList, htrim, hstart,
    startsWith_iff, String.toList_ofList]

theorem RequireSep.isRequireCall_callText (keys : List String) :
    isRequireCall (Text.trim (sep.callText keys)) = true := by
  refine isRequireCall_trim_iff.mpr ⟨(sep.text.intercalate keys).toList ++ [')'], ?_⟩
  have htext : (sep.callText keys).toList =
      [] ++ ("require(".toList ++ ((sep.text.intercalate keys).toList ++ [')'])) ++ [] := by
    rw [callText, String.toList_append, String.toList_append]
    simp
  have hhead : ∀ c ∈ ("require(".toList ++ ((sep.text.intercalate keys).toList ++ [')'])).head?,
      Text.isWhitespace c = false := by
    rintro c ⟨⟩
    decide
  rw [htext]
  refine List.trim_eq (List.forall_mem_nil _) (by simp) hhead ?_ (List.forall_mem_nil _)
  rw [← List.append_assoc, List.getLast?_concat]
  rintro c ⟨⟩
  decide

/-- What is put behind a call does not hide it. -/
theorem isRequireCall_trim_append (h : isRequireCall (Text.trim line) = true)
    (htail : Text.trim tail ≠ "") : isRequireCall (Text.trim (line ++ tail)) = true := by
  obtain ⟨rest, hrest⟩ := isRequireCall_trim_iff.mp h
  have hline : line.toList.trim Text.isWhitespace ≠ [] := by
    rw [hrest]
    exact List.append_ne_nil_of_left_ne_nil (by decide) _
  have htail : tail.toList.trim Text.isWhitespace ≠ [] := fun hnil => htail (by
    change String.ofList (tail.toList.trim Text.isWhitespace) = ""
    rw [hnil])
  obtain ⟨gap, -, hjoined, -⟩ := List.exists_trim_append hline htail
  refine isRequireCall_trim_iff.mpr ⟨rest ++ (gap ++ tail.toList.trim Text.isWhitespace), ?_⟩
  rw [String.toList_append, hjoined, hrest, List.append_assoc]

end

/-! ### Rules -/

theorem parseRule_of_isRequireCall (h : isRequireCall (Text.trim line) = true) (source : String) :
    parseRule line source = (parseRequireRule (Text.trim line) >>= fun condition =>
      .ok { condition, effects := [.deny none none], source }) := by
  unfold parseRule
  rw [if_pos h]
  rfl

/-- The rule that a line with the tokens of a call is parsed to, and no other line. -/
theorem parseRule_require_iff {source : String} {rule : Rule}
    (h : isRequireCall (Text.trim line) = true) :
    parseRule line source = .ok rule ↔
      ∃ (t : RequireSep) (first : String) (more : List String),
        tokenize (Text.trim line) = .ok (t.call first more) ∧
        rule = { condition := t.condition (first :: more), effects := [.deny none none],
                 source } := by
  rw [parseRule_of_isRequireCall h]
  constructor
  · intro hrule
    obtain ⟨condition, hcondition, hrule⟩ := Except.ok_of_bind hrule
    cases hrule
    obtain ⟨t, first, more, htoks, rfl⟩ := parseRequireRule_eq_ok_iff.mp hcondition
    exact ⟨t, first, more, htoks, rfl⟩
  · rintro ⟨t, first, more, htoks, rfl⟩
    rw [parseRequireRule_eq_ok_iff.mpr ⟨t, first, more, htoks, rfl⟩]
    rfl

/-- A rule that denies without a reason denies exactly where its condition holds. -/
theorem evaluateRules_deny (source : String) (bag : AttributeBag) :
    (∃ reason at', evaluateRules
        [{ condition, effects := [.deny none none], source }] bag = .deny reason at') ↔
      evalExpression bag condition = true := by
  cases h : evalExpression bag condition with
  | true => simp [evaluateRules, h, Rule.denies]
  | false => simp [evaluateRules, h]

/-- The rule of `require(k1, ..., kn)` denies where some key does not resolve to `true`, that of
    `require(k1 | ... | kn)` where none does, however the call is laid out. A call with both
    separators is rejected, and so is a call with anything behind it. -/
theorem require_rules (source : String) :
    (∀ keys, keys ≠ [] → (∀ k ∈ keys, IsKey k) →
      (∃ rule, parseRule (RequireSep.all.callText keys) source = .ok rule ∧
        ∀ bag, (∃ reason at', evaluateRules [rule] bag = .deny reason at') ↔
          ∃ k ∈ keys, ¬bag.ResolvesToTrue k) ∧
      (∃ rule, parseRule (RequireSep.any.callText keys) source = .ok rule ∧
        ∀ bag, (∃ reason at', evaluateRules [rule] bag = .deny reason at') ↔
          ∀ k ∈ keys, ¬bag.ResolvesToTrue k)) ∧
    (∀ line, isRequireCall (Text.trim line) = true →
      (∀ (sep : RequireSep) first more, tokenize (Text.trim line) = .ok (sep.call first more) →
        ∃ rule, parseRule line source = .ok rule ∧
          ∀ bag, (∃ reason at', evaluateRules [rule] bag = .deny reason at') ↔
            sep.Fails bag (first :: more)) ∧
      (∀ toks, tokenize (Text.trim line) = .ok toks → Tok.comma ∈ toks → Tok.or ∈ toks →
        ∃ e, parseRule line source = .error (.error e)) ∧
      ∀ rule tail, parseRule line source = .ok rule → Text.trim tail ≠ "" →
        ∃ e, parseRule (line ++ tail) source = .error (.error e)) := by
  have hcall {line : String} (hline : isRequireCall (Text.trim line) = true) {sep : RequireSep}
      {first more} (htoks : tokenize (Text.trim line) = .ok (sep.call first more)) :
      ∃ rule, parseRule line source = .ok rule ∧
        ∀ bag, (∃ reason at', evaluateRules [rule] bag = .deny reason at') ↔
          sep.Fails bag (first :: more) := by
    refine ⟨_, (parseRule_require_iff hline).mpr ⟨sep, first, more, htoks, rfl⟩, fun bag => ?_⟩
    rw [evaluateRules_deny, RequireSep.evalExpression_condition]
  refine ⟨fun keys hne hkeys => ?_, fun line hline => ⟨fun _ _ _ => hcall hline,
    fun toks htoks hcomma hor => ?_, fun rule tail hrule htail => ?_⟩⟩
  · obtain ⟨first, more, rfl⟩ := List.exists_cons_of_ne_nil hne
    have hread (sep : RequireSep) := hcall (sep.isRequireCall_callText (first :: more))
      (tokenize_trim (sep.tokenize_callText hkeys))
    exact ⟨hread .all, hread .any⟩
  · refine (parseRule_safe line source).exists_error fun rule hrule => ?_
    obtain ⟨t, first, more, htoks', -⟩ := (parseRule_require_iff hline).mp hrule
    cases htoks.symm.trans htoks'
    exact t.not_mixed first more ⟨hcomma, hor⟩
  · obtain ⟨t, first, more, htoks, -⟩ := (parseRule_require_iff hline).mp hrule
    refine (parseRule_safe _ _).exists_error fun rule' hrule' => ?_
    obtain ⟨t', first', more', htoks', -⟩ :=
      (parseRule_require_iff (isRequireCall_trim_append hline htail)).mp hrule'
    -- The tokens of the longer line are those of a call, and more.
    obtain ⟨extra, hextra, heq, -⟩ := tokenize_trim_append htoks (List.cons_ne_nil _ _) htail
      (fun last hlast => t.ends_last hlast _) htoks'
    exact hextra (t.call_append_eq_call heq.symm)

end

section

attribute [local instance] Platform.bare

/-- With nothing in the bag the keyed lookup does not resolve, and the rule denies. -/
theorem require_rules_unresolved :
    ∃ rule, parseRule "require(role.hr, data[subject.tenant])" "r" = .ok rule ∧
      ∃ reason at', evaluateRules [rule] .new = .deny reason at' := by
  obtain ⟨rule, hrule, hdeny⟩ := ((require_rules "r").1 ["role.hr", "data[subject.tenant]"]
    (by decide) (by decide)).1
  refine ⟨rule, hrule, (hdeny .new).mpr ⟨"data[subject.tenant]", by simp, ?_⟩⟩
  rintro ⟨resolved, hresolved, -⟩
  cases hresolved

end

end Cpex
