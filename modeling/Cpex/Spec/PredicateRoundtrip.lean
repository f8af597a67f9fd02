import Cpex.Spec.PredicateGrammar
import Cpex.Spec.PredicateTokens

/-! # Writing predicates and reading them back

The predicates of the language written with as few parentheses as the levels of the grammar allow,
and read back by `parse_predicate`; and that nothing of an accepted text is left out: its tokens
are those of the tree, up to parentheses, and no token can be put behind it, a lone exception
aside.
-/

namespace Cpex

/-! ### The tokens of a predicate -/

def CompareOp.tok : CompareOp → Tok
  | .eq => .eq
  | .notEq => .notEq
  | .gt => .gt
  | .gtEq => .gtEq
  | .lt => .lt
  | .ltEq => .ltEq
  | .contains => .contains

def Literal.tok : Literal → Tok
  | .bool b => .boolLit b
  | .int i => .intLit i
  | .float x => .floatLit x
  | .string s => .stringLit s

/-- `IsFalse` is what `require` makes of a key; no predicate is written that way. -/
def Condition.tokens : Condition → List Tok
  | .isTrue key => [.ident key]
  | .exists key => [.exists, .lparen, .ident key, .rparen]
  | .comparison key op value => [.ident key, op.tok, value.tok]
  | .inSet valueKey setKey false => [.ident valueKey, .in, .ident setKey]
  | .inSet valueKey setKey true => [.ident valueKey, .ident "not", .in, .ident setKey]
  | .isFalse _ => []

/-- Parentheses, where they are needed. -/
def grouped (needed : Bool) (toks : List Tok) : List Tok :=
  if needed then .lparen :: (toks ++ [.rparen]) else toks

mutual

/-- The tokens of an operand: `0` is the level of `|`, `1` that of `&` and `2` that of `!`. -/
def Expression.tokens (level : Nat) : Expression → List Tok
  | .condition c => c.tokens
  | .not inner => .not :: inner.tokens 2
  | .and [] | .or [] | .always => []
  | .and (e :: es) => grouped (1 < level) (e.tokens 2 ++ Expression.moreTokens .and 2 es)
  | .or (e :: es) => grouped (0 < level) (e.tokens 1 ++ Expression.moreTokens .or 1 es)

/-- The further operands, each behind its operator. -/
def Expression.moreTokens (operator : Tok) (level : Nat) : List Expression → List Tok
  | [] => []
  | e :: es => operator :: (e.tokens level ++ Expression.moreTokens operator level es)

end

/-- The text of a predicate. -/
def Expression.print (e : Expression) : String := layout (e.tokens 0)

example : (Expression.and [.or [.condition (.isTrue "a"), .condition (.exists "b.c")],
    .not (.condition (.comparison "d" .eq (.string "it's")))]).print =
    "(a | exists(b.c)) & !d == \"it's\"" := by decide

/-! ### Derivations of the tokens -/

theorem compareOp?_tok (op : CompareOp) : op.tok.compareOp? = some op := by
  cases op <;> rfl

theorem literal?_tok (value : Literal) : value.tok.literal? = some value := by
  cases value <;> rfl

/-- What may follow an operand of the level: the end, a parenthesis, or a looser operator. -/
def Stops (level : Nat) (rest : List Tok) : Prop :=
  ∀ t ∈ rest.head?, t = .rparen ∨ (t = .or ∧ 1 ≤ level) ∨ (t = .and ∧ 2 ≤ level)

variable {level : Nat} {rest : List Tok}

theorem Stops.endsKey (h : Stops level rest) : EndsKey rest := by
  cases rest with
  | nil => exact ⟨by simp, by simp, by simp⟩
  | cons t rest =>
    have ht : t = .rparen ∨ t = .or ∨ t = .and := (h t rfl).imp_right (Or.imp And.left And.left)
    refine ⟨?_, ?_, ?_⟩
    · rintro ⟨⟩
      simp at ht
    · rintro more ⟨⟩
      simp at ht
    · rintro u ⟨⟩
      rcases ht with rfl | rfl | rfl <;> rfl

theorem Stops.ne_tok {op : Joiner} (h : Stops op.level rest) : rest.head? ≠ some op.tok := by
  intro hhead
  have hlooser := h op.tok hhead
  cases op <;> simp [Joiner.tok, Joiner.level] at hlooser

theorem Stops.mono (h : Stops level rest) (hle : level ≤ level') :
    Stops level' rest := by
  intro t ht
  rcases h t ht with h | ⟨h, hlevel⟩ | ⟨h, hlevel⟩
  · exact .inl h
  · exact .inr (.inl ⟨h, hlevel.trans hle⟩)
  · exact .inr (.inr ⟨h, hlevel.trans hle⟩)

/-- The tokens of the predicate derive it at all three levels. -/
structure ReadsBack (e : Expression) : Prop where
  joined : ∀ {op rest}, Stops op.level rest →
    Derives (.joined op) (e.tokens op.level ++ rest) [e] rest
  unary : ∀ {rest}, Stops 2 rest → Derives .unary (e.tokens 2 ++ rest) [e] rest

variable {e : Expression} {toks : List Tok} {op : Joiner}

theorem ReadsBack.operand (h : ReadsBack e) (hstops : Stops (op.level + 1) rest) :
    Derives op.operand (e.tokens (op.level + 1) ++ rest) [e] rest := by
  cases op with
  | or => exact h.joined hstops
  | and => exact h.unary hstops

/-- A looser level adds nothing to an operand that needs no parentheses there. -/
theorem derives_joined_of_operand (hstops : Stops op.level rest)
    (h : Derives op.operand toks [e] rest) : Derives (.joined op) toks [e] rest :=
  .joined h (.done hstops.ne_tok)

theorem derives_joined_of_unary (hstops : Stops op.level rest) (h : Derives .unary toks [e] rest) :
    Derives (.joined op) toks [e] rest := by
  cases op with
  | or =>
    refine derives_joined_of_operand hstops ?_
    exact derives_joined_of_operand (hstops.mono (Nat.zero_le 1)) h
  | and => exact derives_joined_of_operand hstops h

/-- Operands that look the same at every level. -/
theorem ReadsBack.of_unary (toks : List Tok) (htoks : ∀ n, e.tokens n = toks)
    (h : ∀ {rest}, Stops 2 rest → Derives .unary (toks ++ rest) [e] rest) : ReadsBack e where
  joined {op rest} hstops := by
    have hlevel := op.level_le
    rw [htoks]
    exact derives_joined_of_unary hstops (h (hstops.mono (by omega)))
  unary hstops := by
    rw [htoks]
    exact h hstops

theorem ReadsBack.not (h : ReadsBack e) : ReadsBack (.not e) :=
  .of_unary (.not :: e.tokens 2) (fun n => by rw [Expression.tokens])
    fun hstops => .not (h.unary hstops)

theorem stops_moreTokens (es : List Expression) (h : Stops op.level rest) :
    Stops (op.level + 1) (Expression.moreTokens op.tok (op.level + 1) es ++ rest) := by
  cases es with
  | nil =>
    exact h.mono (Nat.le_succ _)
  | cons e es =>
    rintro t ⟨⟩
    cases op with
    | or => exact .inr (.inl ⟨rfl, Nat.le_refl 1⟩)
    | and => exact .inr (.inr ⟨rfl, Nat.le_refl 2⟩)

variable {es : List Expression}

/-- The operands behind the first one. -/
theorem derives_more (hes : ∀ e ∈ es, ReadsBack e) (hstops : Stops op.level rest) :
    Derives (.more op) (Expression.moreTokens op.tok (op.level + 1) es ++ rest) es rest := by
  induction es with
  | nil =>
    exact .done hstops.ne_tok
  | cons e es ih =>
    obtain ⟨he, hes⟩ := List.forall_mem_cons.mp hes
    rw [Expression.moreTokens, List.cons_append, List.append_assoc]
    exact .more (he.operand (stops_moreTokens es hstops)) (ih hes)

/-- Parentheses make an operand of any predicate. -/
theorem derives_grouped (h : Derives (.joined .or) (body ++ .rparen :: rest) [e] (.rparen :: rest)) :
    Derives .unary (grouped true body ++ rest) [e] rest := by
  have htoks : grouped true body ++ rest = .lparen :: (body ++ .rparen :: rest) := by
    simp [grouped]
  rw [htoks]
  exact .paren h

theorem stops_rparen (level : Nat) (rest : List Tok) : Stops level (.rparen :: rest) := by
  rintro t ⟨⟩
  exact .inl rfl

theorem tokens_join_cons :
    (op.join (e :: es)).tokens level = grouped (op.level < level)
      (e.tokens (op.level + 1) ++ Expression.moreTokens op.tok (op.level + 1) es) := by
  cases op with
  | or => exact Expression.tokens.eq_7 level e es
  | and => exact Expression.tokens.eq_6 level e es

theorem ReadsBack.join (op : Joiner) (hlen : 2 ≤ es.length) (h : ∀ e ∈ es, ReadsBack e) :
    ReadsBack (op.join es) := by
  obtain ⟨e, es, rfl⟩ := List.exists_cons_of_length_pos (by omega : 0 < es.length)
  obtain ⟨he, hes⟩ := List.forall_mem_cons.mp h
  have hne : es ≠ [] := List.ne_nil_of_length_pos (Nat.lt_of_succ_le (Nat.le_of_succ_le_succ hlen))
  have hjoin : joinParts op.join e es = op.join (e :: es) := by simp [joinParts, hne]
  have hjoined {rest : List Tok} (hstops : Stops op.level rest) :
      Derives (.joined op) (e.tokens (op.level + 1) ++
        Expression.moreTokens op.tok (op.level + 1) es ++ rest) [op.join (e :: es)] rest := by
    rw [List.append_assoc, ← hjoin]
    exact .joined (he.operand (stops_moreTokens es hstops)) (derives_more hes hstops)
  -- An `&` is an operand of `|`; an `|` needs its parentheses below its own level.
  have hloosest {rest : List Tok} (hstops : Stops 0 rest) :
      Derives (.joined .or) (e.tokens (op.level + 1) ++
        Expression.moreTokens op.tok (op.level + 1) es ++ rest) [op.join (e :: es)] rest := by
    cases op with
    | or => exact hjoined hstops
    | and => exact derives_joined_of_operand hstops (hjoined (hstops.mono (Nat.zero_le 1)))
  have hgrouped {rest : List Tok} := derives_grouped (hloosest (stops_rparen 0 rest))
  constructor
  · intro op' rest hstops
    rw [tokens_join_cons]
    cases op' with
    | or =>
      exact hloosest hstops
    | and =>
      cases op with
      | or => exact derives_joined_of_unary hstops hgrouped
      | and => exact hjoined hstops
  · intro rest hstops
    have hlevel := op.level_le
    rw [tokens_join_cons, decide_eq_true (by omega)]
    exact hgrouped

variable {s : String}

/-! ### Nothing is left out -/

/-- The tokens without the parentheses. -/
def unparenthesised (toks : List Tok) : List Tok :=
  toks.filter fun t => t ≠ .lparen ∧ t ≠ .rparen

theorem unparenthesised_append :
    unparenthesised (a ++ b) = unparenthesised a ++ unparenthesised b := List.filter_append ..

variable {t : Tok}

theorem unparenthesised_cons (h : t ≠ .lparen ∧ t ≠ .rparen) (toks : List Tok) :
    unparenthesised (t :: toks) = t :: unparenthesised toks :=
  List.filter_cons_of_pos (by simpa using h)

theorem unparenthesised_grouped : unparenthesised (grouped needed toks) = unparenthesised toks := by
  cases needed <;> simp [grouped, unparenthesised]

/-- The level only decides on parentheses. -/
theorem unparenthesised_tokens (e : Expression) (level : Nat) :
    unparenthesised (e.tokens level) = unparenthesised (e.tokens 0) := by
  cases e with
  | and es | or es => cases es <;> simp [Expression.tokens, unparenthesised_grouped]
  | _ => simp [Expression.tokens]

/-- The tokens of what is read as the goal, without the parentheses. -/
def Nonterminal.flat : Nonterminal → List Expression → List Tok
  | .more op, es => unparenthesised (Expression.moreTokens op.tok (op.level + 1) es)
  | _, es => es.flatMap fun e => unparenthesised (e.tokens 0)

theorem Nonterminal.flat_singleton {goal : Nonterminal} (h : goal.least = 1) (e : Expression) :
    goal.flat [e] = unparenthesised (e.tokens 0) := by
  cases goal with
  | more op => cases h
  | _ => simp [Nonterminal.flat]

theorem unparenthesised_joinParts (op : Joiner) (e : Expression) (es : List Expression) :
    unparenthesised ((joinParts op.join e es).tokens 0) =
      unparenthesised (e.tokens 0) ++ (Nonterminal.more op).flat es := by
  cases es with
  | nil => simp [joinParts, Nonterminal.flat, Expression.moreTokens, unparenthesised]
  | cons e' es =>
    simp only [joinParts, List.isEmpty_cons, Bool.false_eq_true, if_false, tokens_join_cons,
      unparenthesised_grouped, unparenthesised_append, Nonterminal.flat]
    rw [unparenthesised_tokens e (op.level + 1)]

theorem Joiner.tok_ne : op.tok ≠ .lparen ∧ op.tok ≠ .rparen := by
  cases op <;> exact ⟨by simp [Joiner.tok], by simp [Joiner.tok]⟩

theorem compareOp?_eq_some {op : CompareOp} (h : t.compareOp? = some op) : t = op.tok := by
  cases t <;> cases h <;> rfl

theorem literal?_eq_some (h : t.literal? = some value) : t = value.tok := by
  cases t <;> cases h <;> rfl

/-- The tokens of a derivation are those of the tree and those of the rest. -/
theorem Derives.unparenthesised (h : Derives goal toks es rest) :
    Cpex.unparenthesised toks = goal.flat es ++ Cpex.unparenthesised rest := by
  induction h with
  | @joined op toks mid rest e es _ _ ihFirst ihMore =>
    rw [ihFirst, ihMore, Nonterminal.flat_singleton op.least_operand,
      Nonterminal.flat_singleton rfl, unparenthesised_joinParts op e es, List.append_assoc]
  | @more op toks mid rest e es _ _ ihFirst ihMore =>
    rw [unparenthesised_cons op.tok_ne, ihFirst, ihMore,
      Nonterminal.flat_singleton op.least_operand]
    simp only [Nonterminal.flat, Expression.moreTokens]
    rw [unparenthesised_cons op.tok_ne, unparenthesised_append,
      unparenthesised_tokens e (op.level + 1), List.cons_append, List.append_assoc]
  | done _ => rfl
  | @not toks rest e _ ih =>
    rw [unparenthesised_cons (by simp), ih, Nonterminal.flat_singleton rfl,
      Nonterminal.flat_singleton rfl, Expression.tokens, unparenthesised_cons (by simp),
      unparenthesised_tokens e 2, List.cons_append]
  | @paren toks rest e _ ih =>
    rw [Nonterminal.flat_singleton rfl] at ih ⊢
    simpa [Cpex.unparenthesised] using ih
  | comparison hop hlit =>
    rw [compareOp?_eq_some hop, literal?_eq_some hlit]
    simp [Nonterminal.flat, Expression.tokens, Condition.tokens, ← unparenthesised_append]
  | _ =>
    simp [Nonterminal.flat, Expression.tokens, Condition.tokens, Cpex.unparenthesised]

/-! ### First and last tokens -/

/-- The tokens a predicate can begin with. -/
def Tok.Begins : Tok → Prop
  | .not | .lparen | .exists | .ident _ => True
  | _ => False

theorem Derives.begins (h : Derives goal toks es rest) (hgoal : goal.least = 1) :
    ∃ t more, toks = t :: more ∧ t.Begins := by
  induction h with
  | @joined op _ _ _ _ _ _ _ ih _ => exact ih op.least_operand
  | more | done => cases hgoal
  | _ => exact ⟨_, _, rfl, trivial⟩

/-- A predicate does not go on with the one before it, unless it is a `not in` test. -/
theorem Derives.endsKey (h : Derives (.joined .or) toks [e] rest)
    (hnot : ∀ more, toks ≠ .ident "not" :: .in :: more) :
    EndsKey toks ∧ ∀ op : Joiner, toks.head? ≠ some op.tok := by
  obtain ⟨t, more, rfl, ht⟩ := h.begins rfl
  cases t with
  | not | lparen | «exists» | ident =>
    refine ⟨⟨by simp, hnot, ?_⟩, fun op => by cases op <;> simp [Joiner.tok]⟩
    rintro u ⟨⟩
    rfl
  | _ => exact ht.elim

theorem trim_append_left {gap : String} (hgap : ∀ c ∈ gap.toList, Text.isWhitespace c)
    (s : String) : Text.trim (gap ++ s) = Text.trim s := by
  rw [Text.trim, Text.trim, Text.trimChars, Text.trimChars, String.toList_append,
    List.dropWhile_append_of_pos hgap]

/-! ### The predicates that can be written -/

section

variable [Platform]

/-- The literals that can be written: no float, and no string with both kinds of quotes. -/
def Literal.Written (value : Literal) : Prop := value.tok.Writable

/-- The conditions that can be written. -/
def Condition.Written : Condition → Prop
  | .isTrue key | .exists key => IsKey key
  | .comparison key _ value => IsKey key ∧ value.Written
  | .inSet valueKey setKey _ => IsKey valueKey ∧ IsKey setKey
  | .isFalse _ => False

/-- The predicates of the language. -/
inductive Expression.Written : Expression → Prop where
  | condition {c : Condition} (h : c.Written) : Written (.condition c)
  | not {e : Expression} (h : Written e) : Written (.not e)
  | and {es : List Expression} (hlen : 2 ≤ es.length) (h : ∀ e ∈ es, Written e) :
      Written (.and es)
  | or {es : List Expression} (hlen : 2 ≤ es.length) (h : ∀ e ∈ es, Written e) : Written (.or es)

theorem ReadsBack.condition {c : Condition} (hc : c.Written) : ReadsBack (.condition c) := by
  refine .of_unary c.tokens (fun n => by rw [Expression.tokens]) fun hstops => ?_
  cases c with
  | isTrue key => exact .key hstops.endsKey
  | «exists» key => exact .exists
  | comparison key op value => exact .comparison (compareOp?_tok op) (literal?_tok value)
  | inSet valueKey setKey negate =>
    cases negate with
    | false => exact .inSet
    | true => exact .notInSet
  | isFalse key => exact hc.elim

/-- Every predicate of the language is derived by its tokens. -/
theorem Expression.Written.readsBack (h : e.Written) : ReadsBack e := by
  induction h with
  | condition hc => exact .condition hc
  | not _ ih => exact ih.not
  | and hlen _ ih => exact ReadsBack.join .and hlen ih
  | or hlen _ ih => exact ReadsBack.join .or hlen ih

/-! ### The round trip -/

theorem isKey_not : IsKey "not" := by
  have hlexeme : Lexeme (.ident "not") "not".toList :=
    lexeme_word rfl ⟨'n', rfl, rfl⟩ (by decide)
  have hspells := spells_cons hlexeme (ends_none _) spells_nil
  exact tokenize_eq_ok_iff.mpr hspells

theorem Condition.Written.writable {c : Condition} (h : c.Written) :
    ∀ t ∈ c.tokens, t.Writable := by
  cases c with
  | isTrue key => simpa [Condition.tokens] using writable_ident.mpr h
  | «exists» key =>
    have hkey : IsKey key := h
    simpa [Condition.tokens, Tok.Writable] using hkey
  | comparison key op value =>
    have hop : op.tok.Writable := by cases op <;> trivial
    simp only [Condition.tokens, List.mem_cons, List.not_mem_nil, or_false]
    rintro t (rfl | rfl | rfl)
    · exact writable_ident.mpr h.1
    · exact hop
    · exact h.2
  | inSet valueKey setKey negate =>
    have hvalue := writable_ident.mpr h.1
    have hset := writable_ident.mpr h.2
    have hin : Tok.in.Writable := trivial
    cases negate with
    | false => simp [Condition.tokens, hvalue, hset, hin]
    | true => simp [Condition.tokens, hvalue, hset, hin, writable_ident.mpr isKey_not]
  | isFalse key => exact h.elim

theorem writable_grouped {needed : Bool} (h : ∀ t ∈ toks, t.Writable) :
    ∀ t ∈ grouped needed toks, t.Writable := by
  unfold grouped
  split
  · have hopen : Tok.lparen.Writable := trivial
    have hclose : Tok.rparen.Writable := trivial
    simp only [List.mem_cons, List.mem_append, List.not_mem_nil, or_false]
    rintro t (rfl | ht | rfl)
    · exact hopen
    · exact h t ht
    · exact hclose
  · exact h

theorem writable_moreTokens {operator : Tok} (hoperator : operator.Writable)
    (h : ∀ e ∈ es, ∀ t ∈ e.tokens level, t.Writable) :
    ∀ t ∈ Expression.moreTokens operator level es, t.Writable := by
  induction es with
  | nil => simp [Expression.moreTokens]
  | cons e es ih =>
    obtain ⟨he, hes⟩ := List.forall_mem_cons.mp h
    simp only [Expression.moreTokens, List.mem_cons, List.mem_append]
    rintro t (rfl | ht | ht)
    · exact hoperator
    · exact he t ht
    · exact ih hes t ht

theorem Expression.Written.writable (h : e.Written) :
    ∀ level, ∀ t ∈ e.tokens level, t.Writable := by
  have hjoined (operator : Tok) (hoperator : operator.Writable) (level : Nat) {e : Expression}
      {es : List Expression} (h : ∀ e' ∈ e :: es, ∀ level, ∀ t ∈ e'.tokens level, t.Writable) :
      ∀ t ∈ e.tokens level ++ Expression.moreTokens operator level es, t.Writable := by
    obtain ⟨he, hes⟩ := List.forall_mem_cons.mp h
    intro t ht
    rcases List.mem_append.mp ht with ht | ht
    · exact he level t ht
    · exact writable_moreTokens hoperator (fun e' he' => hes e' he' level) t ht
  induction h with
  | condition hc =>
    intro level
    exact hc.writable
  | not _ ih =>
    intro level
    exact List.forall_mem_cons.mpr ⟨trivial, ih 2⟩
  | @and es hlen _ ih =>
    intro level
    cases es with
    | nil => cases hlen
    | cons e es =>
      exact writable_grouped (hjoined .and trivial 2 ih)
  | @or es hlen _ ih =>
    intro level
    cases es with
    | nil => cases hlen
    | cons e es =>
      exact writable_grouped (hjoined .or trivial 1 ih)

/-- Acceptance of a text by its tokens, white space at its ends aside. -/
theorem parsePredicate_eq_ok_iff :
    parsePredicate s = .ok e ↔
      ∃ toks, tokenize (Text.trim s) = .ok toks ∧ Derives (.joined .or) toks [e] [] :=
  PredParser.parse_eq_ok_iff

theorem Expression.Written.parsePredicate_print (h : e.Written) :
    parsePredicate e.print = .ok e := by
  have hstops : Stops Joiner.or.level [] := by simp [Stops]
  have hderives := h.readsBack.joined hstops
  rw [List.append_nil] at hderives
  exact parsePredicate_eq_ok_iff.mpr
    ⟨e.tokens 0, tokenize_trim (tokenize_layout (h.writable 0)), hderives⟩

/-! ### Nothing can follow -/

/-- Tokens that do not go on with the last operand are not accepted behind a predicate. -/
theorem parsePredicate_append_error (hs : parsePredicate s = .ok e)
    (hx : tokenize (Text.trim x) = .ok more) (hne : more ≠ [])
    (hends : ∀ t : Tok, t.Ends x.toList.head?) (hkey : EndsKey more)
    (hop : ∀ op : Joiner, more.head? ≠ some op.tok) :
    ∃ err, parsePredicate (s ++ x) = .error err := by
  cases hparsed : parsePredicate (s ++ x) with
  | error err => exact ⟨err, rfl⟩
  | ok whole =>
    obtain ⟨toks, htoks, hderives⟩ := parsePredicate_eq_ok_iff.mp hs
    obtain ⟨all, hall, hwhole⟩ := parsePredicate_eq_ok_iff.mp hparsed
    have htoksNe : toks ≠ [] := by
      obtain ⟨t, toks, rfl, -⟩ := hderives.begins rfl
      exact List.cons_ne_nil _ _
    have hxNe : Text.trim x ≠ "" := by
      intro hempty
      rw [hempty, tokenize_eq_ok_iff] at hx
      exact hne (spells_unique hx spells_nil)
    obtain ⟨more', -, rfl, hmore'⟩ :=
      tokenize_trim_append htoks htoksNe hxNe (fun t _ => hends t) hall
    rw [hx] at hmore'
    cases hmore'
    -- The derivation of the text alone stops before the tokens that follow.
    have hstopped := (hderives.append hkey hop).unique hwhole
    exact absurd hstopped.2 hne

/-- Behind a gap, no other predicate is accepted. -/
theorem parsePredicate_gap_error (hs : parsePredicate s = .ok e) (hne : gap ≠ "")
    (hgap : ∀ c ∈ gap.toList, Text.isWhitespace c) (ha : parsePredicate a = .ok e')
    (hnot : ∀ more, tokenize (Text.trim a) ≠ .ok (.ident "not" :: .in :: more)) :
    ∃ err, parsePredicate (s ++ gap ++ a) = .error err := by
  obtain ⟨more, hmore, hderives⟩ := parsePredicate_eq_ok_iff.mp ha
  have hmoreNe : more ≠ [] := by
    obtain ⟨t, toks, rfl, -⟩ := hderives.begins rfl
    exact List.cons_ne_nil _ _
  have hends (t : Tok) : t.Ends (gap ++ a).toList.head? := by
    obtain ⟨c, cs, hcs⟩ := List.exists_cons_of_ne_nil
      (fun hnil => hne (String.toList_eq_nil_iff.mp hnil) : gap.toList ≠ [])
    rw [String.toList_append, hcs]
    exact ends_whitespace t (hgap c (by simp [hcs]))
  obtain ⟨hkey, hop⟩ := hderives.endsKey fun rest heq => hnot rest (heq ▸ hmore)
  rw [String.append_assoc]
  rw [← trim_append_left hgap] at hmore
  exact parsePredicate_append_error hs hmore hmoreNe hends hkey hop

/-- A closing parenthesis too many is not accepted. -/
theorem parsePredicate_rparen_error (hs : parsePredicate s = .ok e) :
    ∃ err, parsePredicate (s ++ ")") = .error err := by
  have hlexeme : Lexeme .rparen [')'] := Tok.Writable.lexeme (t := .rparen) trivial
  have htoks : tokenize (Text.trim ")") = .ok [.rparen] :=
    tokenize_eq_ok_iff.mpr (spells_cons hlexeme (ends_none _) spells_nil)
  have hstops : Stops 0 [.rparen] := stops_rparen 0 []
  exact parsePredicate_append_error hs htoks (List.cons_ne_nil _ _)
    (fun t => ends_of_separator t (.inr (.inl rfl))) hstops.endsKey
    (fun op => by cases op <;> simp [Joiner.tok])

/-- Every predicate of the language is read back from its text. Of an accepted text every token is
    in the tree, up to parentheses, and neither a closing parenthesis nor a predicate can stand
    behind it, unless that predicate is an `in` test of a key that is spelled `not`. -/
theorem predicate_roundtrip :
    (∀ e : Expression, e.Written → parsePredicate e.print = .ok e) ∧
    ∀ s e, parsePredicate s = .ok e →
      (∃ toks, tokenize (Text.trim s) = .ok toks ∧
        unparenthesised toks = unparenthesised (e.tokens 0)) ∧
      (∃ err, parsePredicate (s ++ ")") = .error err) ∧
      ∀ gap a e', gap ≠ "" → (∀ c ∈ gap.toList, Text.isWhitespace c) →
        parsePredicate a = .ok e' →
        (∀ more, tokenize (Text.trim a) ≠ .ok (.ident "not" :: .in :: more)) →
        ∃ err, parsePredicate (s ++ gap ++ a) = .error err := by
  refine ⟨fun e he => he.parsePredicate_print, fun s e hs => ⟨?_, ?_, ?_⟩⟩
  · obtain ⟨toks, htoks, hderives⟩ := parsePredicate_eq_ok_iff.mp hs
    have hflat := hderives.unparenthesised
    rw [Nonterminal.flat_singleton rfl] at hflat
    exact ⟨toks, htoks, hflat.trans (List.append_nil _)⟩
  · exact parsePredicate_rparen_error hs
  · intro gap a e' hne hgap ha hnot
    exact parsePredicate_gap_error hs hne hgap ha hnot

/-- A string has at most one kind of quotes: there are no escapes. -/
theorem tokenize_stringLit (h : tokenize s = .ok toks) (hmem : .stringLit body ∈ toks) :
    '"' ∉ body.toList ∨ '\'' ∉ body.toList := by
  obtain ⟨text, htext⟩ := (tokenize_eq_ok_iff.mp h).exists_lexeme hmem
  generalize ht : Tok.stringLit body = t at htext
  cases htext with
  | string hquote hbody =>
    cases ht
    rw [String.toList_ofList]
    rcases hquote with rfl | rfl
    · exact .inl fun hc => hbody _ hc rfl
    · exact .inr fun hc => hbody _ hc rfl
  | @path _ _ b _ _ =>
    unfold pathTok at ht
    repeat' split at ht
    all_goals cases ht
  | _ => cases ht

end

section

attribute [local instance] Platform.bare

/-- A nested predicate with both kinds of quotes, and what cannot follow it. -/
theorem predicate_roundtrip_nested :
    ∃ e s, e = Expression.and [.or [.condition (.isTrue "a"), .condition (.exists "b[c.d]")],
        .not (.condition (.comparison "role" .notEq (.string "it's")))] ∧
      s = "(a | exists(b[c.d])) & !role != \"it's\"" ∧ e.print = s ∧ parsePredicate s = .ok e ∧
      (∃ err, parsePredicate (s ++ ")") = .error err) ∧
      ∃ err, parsePredicate (s ++ " " ++ "f") = .error err := by
  have ha : (Expression.condition (.isTrue "a")).Written := .condition (by decide : IsKey "a")
  have hexists : (Expression.condition (.exists "b[c.d]")).Written :=
    .condition (by decide : IsKey "b[c.d]")
  have hrole : (Expression.condition (.comparison "role" .notEq (.string "it's"))).Written :=
    .condition ⟨by decide, .inl (by decide)⟩
  have hor := @Expression.Written.or _ [_, _] (Nat.le_refl 2) (by simpa using ⟨ha, hexists⟩)
  have hand := @Expression.Written.and _ [_, _] (Nat.le_refl 2) (by simpa using ⟨hor, .not hrole⟩)
  have hread := predicate_roundtrip.1 _ hand
  refine ⟨_, _, rfl, rfl, by decide, hread, (predicate_roundtrip.2 _ _ hread).2.1, ?_⟩
  have hf : tokenize (Text.trim "f") = .ok [.ident "f"] := by decide
  refine (predicate_roundtrip.2 _ _ hread).2.2 " " "f" (.condition (.isTrue "f"))
    (by decide) (List.all_eq_true.mp rfl) rfl ?_
  intro more heq
  simp [hf] at heq

/-- `not` is a key as well as the first word of `not in`, and a string with both kinds of quotes
    has no text. -/
theorem predicate_roundtrip_limits :
    parsePredicate "a" = .ok (.condition (.isTrue "a")) ∧
    parsePredicate "not in b" = .ok (.condition (.inSet "not" "b" false)) ∧
    parsePredicate "a not in b" = .ok (.condition (.inSet "a" "b" true)) ∧
    ∀ s, parsePredicate s ≠ .ok (.condition (.comparison "a" .eq (.string "\"'"))) := by
  refine ⟨rfl, rfl, rfl, fun s hs => ?_⟩
  obtain ⟨toks, htoks, hderives⟩ := parsePredicate_eq_ok_iff.mp hs
  have hflat := hderives.unparenthesised
  have hmem : .stringLit "\"'" ∈ unparenthesised toks := by
    rw [hflat, Nonterminal.flat_singleton rfl]
    decide
  rcases tokenize_stringLit htoks (List.mem_of_mem_filter hmem) with h | h
  · exact absurd h (by decide)
  · exact absurd h (by decide)

end

end Cpex
