import Cpex.ForStd.Except
import Cpex.Native.Predicate

/-! # The predicate grammar

The grammar that `PredParser` of `apl-core/src/parser.rs` recognises, as derivations over token
lists: `|` binds loosest, then `&`, then `!`. The parser finds a derivation exactly when there is
one, and it never runs out of the fuel it is given.
-/

namespace Cpex

/-- The operators that join operands. -/
inductive Joiner where
  | or
  | and

/-- What the parser is reading: operands with an operator between them, the operands that follow
    the first of these, or a single operand. -/
inductive Nonterminal where
  | joined (op : Joiner)
  | more (op : Joiner)
  | unary

namespace Joiner

def tok : Joiner → Tok
  | .or => .or
  | .and => .and

def join : Joiner → List Expression → Expression
  | .or => .or
  | .and => .and

/-- What the operator joins. -/
def operand : Joiner → Nonterminal
  | .or => .joined .and
  | .and => .unary

/-- How many levels the operator is above the loosest one. -/
def level : Joiner → Nat
  | .or => 0
  | .and => 1

end Joiner

/-- The literal a token stands for, if any. -/
def Tok.literal? : Tok → Option Literal
  | .stringLit s => some (.string s)
  | .intLit i => some (.int i)
  | .floatLit x => some (.float x)
  | .boolLit b => some (.bool b)
  | _ => none

/-- Behind these tokens a key stands for itself. `not` is no keyword, but `not in` is. -/
structure EndsKey (rest : List Tok) : Prop where
  notIn : rest.head? ≠ some .in
  notNotIn : ∀ more, rest ≠ .ident "not" :: .in :: more
  notOp : ∀ t ∈ rest.head?, t.compareOp? = none

/-- `Derives goal toks es rest`: `toks` begins with a `goal` that stands for `es`, and `rest` is
    what follows it. -/
inductive Derives : Nonterminal → List Tok → List Expression → List Tok → Prop where
  | joined {op : Joiner} {toks mid rest : List Tok} {e : Expression} {es : List Expression}
      (hfirst : Derives op.operand toks [e] mid) (hmore : Derives (.more op) mid es rest) :
      Derives (.joined op) toks [joinParts op.join e es] rest
  | more {op : Joiner} {toks mid rest : List Tok} {e : Expression} {es : List Expression}
      (hfirst : Derives op.operand toks [e] mid) (hmore : Derives (.more op) mid es rest) :
      Derives (.more op) (op.tok :: toks) (e :: es) rest
  | done {op : Joiner} {toks : List Tok} (hstop : toks.head? ≠ some op.tok) :
      Derives (.more op) toks [] toks
  | not {toks rest : List Tok} {e : Expression} (hinner : Derives .unary toks [e] rest) :
      Derives .unary (.not :: toks) [.not e] rest
  | paren {toks rest : List Tok} {e : Expression}
      (hinner : Derives (.joined .or) toks [e] (.rparen :: rest)) :
      Derives .unary (.lparen :: toks) [e] rest
  | exists {key : String} {rest : List Tok} :
      Derives .unary (.exists :: .lparen :: .ident key :: .rparen :: rest)
        [.condition (.exists key)] rest
  | key {key : String} {rest : List Tok} (hstop : EndsKey rest) :
      Derives .unary (.ident key :: rest) [.condition (.isTrue key)] rest
  | comparison {key : String} {op : CompareOp} {value : Literal} {t lit : Tok} {rest : List Tok}
      (hop : t.compareOp? = some op) (hlit : lit.literal? = some value) :
      Derives .unary (.ident key :: t :: lit :: rest) [.condition (.comparison key op value)] rest
  | inSet {key setKey : String} {rest : List Tok} :
      Derives .unary (.ident key :: .in :: .ident setKey :: rest)
        [.condition (.inSet key setKey false)] rest
  | notInSet {key setKey : String} {rest : List Tok} :
      Derives .unary (.ident key :: .ident "not" :: .in :: .ident setKey :: rest)
        [.condition (.inSet key setKey true)] rest

/-! ### Progress -/

/-- The tokens a derivation has at least. -/
def Nonterminal.least : Nonterminal → Nat
  | .joined _ | .unary => 1
  | .more _ => 0

@[simp] theorem Joiner.least_operand (op : Joiner) : op.operand.least = 1 := by
  cases op <;> rfl

variable {goal : Nonterminal} {toks rest : List Tok} {es : List Expression}

/-- A derivation uses up tokens, which is what the fuel is counted in. -/
theorem Derives.length_le (h : Derives goal toks es rest) :
    rest.length + goal.least ≤ toks.length := by
  induction h with
  | @joined op | @more op =>
    have hop := op.least_operand
    simp only [Nonterminal.least, List.length_cons] at *
    omega
  | _ =>
    simp only [Nonterminal.least, List.length_cons] at *
    omega

/-! ### What may follow -/

/-- Tokens behind a derivation do not become part of it, unless they go on with its last operand. -/
theorem Derives.append (hkey : EndsKey extra) (hop : ∀ op : Joiner, extra.head? ≠ some op.tok)
    (h : Derives goal toks es rest) :
    Derives goal (toks ++ extra) es (rest ++ extra) := by
  induction h with
  | joined _ _ ihFirst ihMore => exact .joined ihFirst ihMore
  | more _ _ ihFirst ihMore => exact .more ihFirst ihMore
  | @done op toks hstop =>
    refine .done ?_
    cases toks with
    | nil => exact hop op
    | cons t toks => exact hstop
  | not _ ih => exact .not ih
  | paren _ ih => exact .paren ih
  | «exists» => exact .exists
  | @key key rest hstop =>
    refine .key ?_
    cases rest with
    | nil => exact hkey
    | cons t rest =>
      refine ⟨hstop.notIn, fun more heq => ?_, hstop.notOp⟩
      -- `not` at the end would need an `in` behind it.
      cases rest with
      | nil =>
        have hextra : extra = .in :: more := (List.cons.inj heq).2
        exact hkey.notIn (by rw [hextra]; rfl)
      | cons u rest =>
        obtain ⟨rfl, hrest⟩ := List.cons.inj heq
        obtain ⟨rfl, -⟩ := List.cons.inj hrest
        exact hstop.notNotIn rest rfl
  | comparison hop hlit => exact .comparison hop hlit
  | inSet => exact .inSet
  | notInSet => exact .notInSet

/-! ### The parser finds derivations -/

variable [Platform] {src key : String} {e : Expression}

/-- A set is named by its key. -/
theorem finishInSet_ok (h : finishInSet src key negate toks = .ok (e, rest)) :
    ∃ setKey, toks = .ident setKey :: rest ∧ e = .condition (.inSet key setKey negate) := by
  unfold finishInSet at h
  split at h
  · cases h
    exact ⟨_, rfl, rfl⟩
  · cases h

/-- A literal is one token. -/
theorem parseLiteral_ok (h : parseLiteral src toks = .ok (value, rest)) :
    ∃ lit, toks = lit :: rest ∧ lit.literal? = some value := by
  unfold parseLiteral at h
  split at h
  all_goals cases h
  all_goals exact ⟨_, rfl, rfl⟩

theorem parseExists_ok (h : parseExists src toks = .ok (e, rest)) :
    ∃ key, toks = .lparen :: .ident key :: .rparen :: rest ∧ e = .condition (.exists key) := by
  unfold parseExists at h
  split at h
  all_goals cases h
  exact ⟨_, rfl, rfl⟩

/-- Behind a key, a membership, a comparison, or what ends the key. -/
theorem derives_of_identifier (h : parseIdentifierPredicate src key toks = .ok (e, rest)) :
    Derives .unary (.ident key :: toks) [e] rest := by
  unfold parseIdentifierPredicate at h
  split at h
  · obtain ⟨setKey, rfl, rfl⟩ := finishInSet_ok h
    exact .inSet
  · obtain ⟨setKey, rfl, rfl⟩ := finishInSet_ok h
    exact .notInSet
  · cases h
    exact .key ⟨by simp, by simp, by simp⟩
  · next tok more hin hnot =>
    split at h
    · next hop =>
      cases h
      refine .key ⟨?_, ?_, ?_⟩
      · rintro ⟨⟩
        exact hin rfl
      · rintro more' ⟨⟩
        exact hnot _ rfl rfl
      · rintro t ⟨⟩
        exact hop
    · next op hop =>
      obtain ⟨⟨value, rest'⟩, hvalue, h⟩ := Except.ok_of_bind h
      cases h
      obtain ⟨lit, rfl, hlit⟩ := parseLiteral_ok hvalue
      exact .comparison hop hlit

/-! The functions of the two operators differ in the operator and in what they call. -/

/-- `parse_or` and `parse_and`. -/
def parseJoined (src : String) :
    Joiner → Nat → List Tok → Except ParseError (Expression × List Tok)
  | .or => parseOr src
  | .and => parseAnd src

/-- What these call for each operand. -/
def parseOperand (src : String) :
    Joiner → Nat → List Tok → Except ParseError (Expression × List Tok)
  | .or => parseAnd src
  | .and => parseUnary src

/-- Their loops. -/
def parseMore (src : String) :
    Joiner → Nat → List Tok → Except ParseError (List Expression × List Tok)
  | .or => parseOrMore src
  | .and => parseAndMore src

theorem parseJoined_succ :
    parseJoined src op (fuel + 1) toks = (parseOperand src op fuel toks >>= fun first =>
      parseMore src op fuel first.2 >>= fun more =>
        .ok (joinParts op.join first.1 more.1, more.2)) := by
  cases op with
  | or => exact parseOr.eq_2 src toks fuel
  | and => exact parseAnd.eq_2 src toks fuel

theorem parseMore_succ :
    parseMore src op (fuel + 1) (op.tok :: toks) = (parseOperand src op fuel toks >>= fun first =>
      parseMore src op fuel first.2 >>= fun more => .ok (first.1 :: more.1, more.2)) := by
  cases op with
  | or => exact parseOrMore.eq_1 src fuel toks
  | and => exact parseAndMore.eq_1 src fuel toks

/-- The loop ends where the operator is missing, also without fuel. -/
theorem parseMore_done (src : String) {op : Joiner} (fuel : Nat) (h : toks.head? ≠ some op.tok) :
    parseMore src op fuel toks = .ok ([], toks) := by
  cases op with
  | or =>
    rw [parseMore]
    unfold parseOrMore
    split
    · exact absurd rfl h
    · rfl
  | and =>
    rw [parseMore]
    unfold parseAndMore
    split
    · exact absurd rfl h
    · rfl

/-- What the parser returns is derived. Four units of fuel for each token are enough; the levels
    that are called without a token in between need a little less. -/
structure ParserSound (src : String) (fuel : Nat) : Prop where
  joined : ∀ {op toks e rest}, 4 * toks.length ≤ fuel + op.level →
    parseJoined src op fuel toks = .ok (e, rest) → Derives (.joined op) toks [e] rest
  more : ∀ {op toks es rest}, 4 * toks.length ≤ fuel →
    parseMore src op fuel toks = .ok (es, rest) → Derives (.more op) toks es rest
  unary : ∀ {toks e rest}, 4 * toks.length ≤ fuel + 2 →
    parseUnary src fuel toks = .ok (e, rest) → Derives .unary toks [e] rest

/-- An operand is one level below its operator. -/
theorem ParserSound.operand (h : ParserSound src fuel)
    (hlen : 4 * toks.length ≤ fuel + (op.level + 1))
    (hparse : parseOperand src op fuel toks = .ok (e, rest)) :
    Derives op.operand toks [e] rest := by
  cases op with
  | or => exact h.joined hlen hparse
  | and => exact h.unary hlen hparse

omit [Platform] in
theorem Joiner.level_le (op : Joiner) : op.level ≤ 1 := by
  cases op <;> decide

/-- By induction on the fuel; a call takes a token or goes down a level. -/
theorem parserSound (src : String) (fuel : Nat) : ParserSound src fuel := by
  induction fuel with
  | zero =>
    -- Without fuel, only the end of the operands is found.
    constructor
    · intro op toks e rest hlen h
      cases op with
      | or => cases (parseOr.eq_1 src toks).symm.trans h
      | and => cases (parseAnd.eq_1 src toks).symm.trans h
    · intro op toks es rest hlen h
      obtain rfl : toks = [] := List.length_eq_zero_iff.mp (by omega)
      rw [parseMore_done src 0 (by simp)] at h
      cases h
      exact .done (by simp)
    · intro toks e rest hlen h
      cases h
  | succ fuel ih =>
    constructor
    · intro op toks e rest hlen h
      have hlevel := op.level_le
      rw [parseJoined_succ] at h
      obtain ⟨⟨first, mid⟩, hfirst, h⟩ := Except.ok_of_bind h
      obtain ⟨⟨more, rest'⟩, hmore, h⟩ := Except.ok_of_bind h
      cases h
      have hfirst := ih.operand (by omega) hfirst
      have hmid := hfirst.length_le
      rw [op.least_operand] at hmid
      exact .joined hfirst (ih.more (by omega) hmore)
    · intro op toks es rest hlen h
      by_cases hhead : toks.head? = some op.tok
      · obtain ⟨toks, rfl⟩ := List.head?_eq_some_iff.mp hhead
        rw [parseMore_succ] at h
        obtain ⟨⟨first, mid⟩, hfirst, h⟩ := Except.ok_of_bind h
        obtain ⟨⟨more, rest'⟩, hmore, h⟩ := Except.ok_of_bind h
        cases h
        rw [List.length_cons] at hlen
        have hfirst := ih.operand (by omega) hfirst
        have hmid := hfirst.length_le
        exact .more hfirst (ih.more (by omega) hmore)
      · rw [parseMore_done src _ hhead] at h
        cases h
        exact .done hhead
    · intro toks e rest hlen h
      unfold parseUnary at h
      split at h
      · cases h
      · next fuel' toks' heq =>
        cases heq
        obtain ⟨⟨inner, rest'⟩, hinner, h⟩ := Except.ok_of_bind h
        cases h
        rw [List.length_cons] at hlen
        exact .not (ih.unary (by omega) hinner)
      · next fuel' toks' heq =>
        cases heq
        obtain ⟨⟨inner, rest'⟩, hinner, h⟩ := Except.ok_of_bind h
        dsimp only at h
        split at h
        · cases h
          rw [List.length_cons] at hlen
          exact .paren (ih.joined (by omega) hinner)
        · cases h
      · cases h
      · obtain ⟨key, rfl, rfl⟩ := parseExists_ok h
        exact .exists
      · exact derives_of_identifier h
      · cases h

/-! ### The parser finds every derivation -/

/-- A key by itself is a condition. -/
theorem parseIdentifierPredicate_key (src : String) (h : EndsKey rest) :
    parseIdentifierPredicate src key rest = .ok (.condition (.isTrue key), rest) := by
  unfold parseIdentifierPredicate
  split
  · exact absurd rfl h.notIn
  · next more => exact absurd rfl (h.notNotIn more)
  · rfl
  · next t more _ _ => rw [h.notOp t rfl]

theorem parseIdentifierPredicate_comparison (src : String) {t lit : Tok}
    (hop : t.compareOp? = some op) (hlit : lit.literal? = some value) :
    parseIdentifierPredicate src key (t :: lit :: rest) =
      .ok (.condition (.comparison key op value), rest) := by
  have hvalue : parseLiteral src (lit :: rest) = .ok (value, rest) := by
    cases lit <;> cases hlit <;> rfl
  unfold parseIdentifierPredicate
  split
  · next heq =>
    cases heq
    cases hop
  · next heq =>
    cases heq
    cases hop
  · next heq => cases heq
  · next heq =>
    cases heq
    rw [hop]
    rw [hvalue]
    rfl

/-- The parser, with enough fuel, returns what it reads as the goal. -/
def Returns (src : String) : Nonterminal → List Tok → List Expression → List Tok → Prop
  | .joined op, toks, es, rest => ∀ fuel, 4 * toks.length ≤ fuel + op.level →
    ∃ e, es = [e] ∧ parseJoined src op fuel toks = .ok (e, rest)
  | .more op, toks, es, rest => ∀ fuel, 4 * toks.length ≤ fuel →
    parseMore src op fuel toks = .ok (es, rest)
  | .unary, toks, es, rest => ∀ fuel, 4 * toks.length ≤ fuel + 2 →
    ∃ e, es = [e] ∧ parseUnary src fuel toks = .ok (e, rest)

theorem Returns.operand {op : Joiner} (h : Returns src op.operand toks [e] rest)
    (hfuel : 4 * toks.length ≤ fuel + (op.level + 1)) :
    parseOperand src op fuel toks = .ok (e, rest) := by
  cases op with
  | or | and =>
    obtain ⟨_, ⟨⟩, hparse⟩ := h fuel hfuel
    exact hparse

/-- What is read without a call further down needs a single unit of fuel. -/
theorem returns_atom (hne : toks ≠ [])
    (h : ∀ fuel, parseUnary src (fuel + 1) toks = .ok (e, rest)) :
    Returns src .unary toks [e] rest := by
  intro fuel hfuel
  have hpos := List.length_pos_of_ne_nil hne
  obtain ⟨fuel, rfl⟩ : ∃ m, fuel = m + 1 := ⟨fuel - 1, by omega⟩
  exact ⟨e, rfl, h fuel⟩

/-- What is derived is what the parser returns. -/
theorem Derives.returns (src : String) (h : Derives goal toks es rest) :
    Returns src goal toks es rest := by
  -- What a premise reads has fewer tokens, or is a level down.
  induction h with
  | @joined op toks mid rest e es hfirst hmore ihFirst ihMore =>
    intro fuel hfuel
    have hlevel := op.level_le
    have hmid := hfirst.length_le
    rw [op.least_operand] at hmid
    obtain ⟨fuel, rfl⟩ : ∃ m, fuel = m + 1 := ⟨fuel - 1, by omega⟩
    refine ⟨_, rfl, ?_⟩
    rw [parseJoined_succ, ihFirst.operand (by omega)]
    change (parseMore src op fuel mid >>= fun r => _) = _
    rw [ihMore fuel (by omega)]
    rfl
  | @more op toks mid rest e es hfirst hmore ihFirst ihMore =>
    intro fuel hfuel
    rw [List.length_cons] at hfuel
    have hmid := hfirst.length_le
    obtain ⟨fuel, rfl⟩ : ∃ m, fuel = m + 1 := ⟨fuel - 1, by omega⟩
    rw [parseMore_succ, ihFirst.operand (by omega)]
    change (parseMore src op fuel mid >>= fun r => _) = _
    rw [ihMore fuel (by omega)]
    rfl
  | done hstop => exact fun fuel _ => parseMore_done src fuel hstop
  | @not toks rest e hinner ih =>
    intro fuel hfuel
    rw [List.length_cons] at hfuel
    obtain ⟨fuel, rfl⟩ : ∃ m, fuel = m + 1 := ⟨fuel - 1, by omega⟩
    obtain ⟨e', ⟨⟩, hparse⟩ := ih fuel (by omega)
    refine ⟨_, rfl, ?_⟩
    unfold parseUnary
    rw [hparse]
    rfl
  | @paren toks rest e hinner ih =>
    intro fuel hfuel
    rw [List.length_cons] at hfuel
    obtain ⟨fuel, rfl⟩ : ∃ m, fuel = m + 1 := ⟨fuel - 1, by omega⟩
    obtain ⟨e', ⟨⟩, hparse⟩ := ih fuel (by omega)
    refine ⟨_, rfl, ?_⟩
    change (parseJoined src .or fuel toks >>= fun r => _) = _
    rw [hparse]
    rfl
  | «exists» => exact returns_atom (List.cons_ne_nil _ _) fun fuel => by unfold parseUnary; rfl
  | key hstop =>
    refine returns_atom (List.cons_ne_nil _ _) fun fuel => ?_
    exact parseIdentifierPredicate_key src hstop
  | comparison hop hlit =>
    refine returns_atom (List.cons_ne_nil _ _) fun fuel => ?_
    exact parseIdentifierPredicate_comparison src hop hlit
  | inSet | notInSet =>
    exact returns_atom (List.cons_ne_nil _ _) fun fuel => by unfold parseUnary; rfl

/-- One tree, and one end of it, is derived. -/
theorem Derives.unique (h : Derives (.joined .or) toks [e] rest)
    (h' : Derives (.joined .or) toks [e'] rest') :
    e = e' ∧ rest = rest' := by
  obtain ⟨_, ⟨⟩, hparse⟩ := h.returns "" _ (Nat.le_refl _)
  obtain ⟨_, ⟨⟩, hparse'⟩ := h'.returns "" _ (Nat.le_refl _)
  have heq := Except.ok.inj (hparse.symm.trans hparse')
  exact Prod.mk.inj heq

/-- A predicate is accepted if its tokens, all of them, are derived. -/
theorem PredParser.parse_eq_ok_iff :
    PredParser.parse src = .ok e ↔
      ∃ toks, tokenize src = .ok toks ∧ Derives (.joined .or) toks [e] [] := by
  constructor
  · intro h
    obtain ⟨toks, htoks, h⟩ := Except.ok_of_bind h
    obtain ⟨⟨e', rest⟩, hparse, h⟩ := Except.ok_of_bind h
    dsimp only at h
    split at h
    · cases h
      change parseJoined src .or (4 * (toks.length + 1)) toks = .ok (e, []) at hparse
      exact ⟨toks, htoks, (parserSound src _).joined (by omega) hparse⟩
    · cases h
  · rintro ⟨toks, htoks, hderives⟩
    obtain ⟨_, ⟨⟩, hparse⟩ := hderives.returns src (4 * (toks.length + 1)) (by omega)
    unfold PredParser.parse
    rw [htoks]
    change (parseJoined src .or (4 * (toks.length + 1)) toks >>= fun r => _) = _
    rw [hparse]
    rfl

end Cpex
