import Cpex.Native.Rules

/-! # The predicate parser

`parse_predicate` of `apl-core/src/parser.rs`: a lexer over the bytes of the text and a
recursive-descent parser over its tokens. The lexer only branches on ASCII bytes, so it is
written here over the characters, with `pos` counting the bytes consumed. -/

namespace Cpex

/-- `ParseError`. -/
inductive ParseError where
  | yaml (msg : String)
  | rule (rule msg : String)
  | unsupportedStep (rule kind : String)
  | predicate (predicate msg : String)
  | renamedField (location old new : String)
  | conflictingAuthorizationForms (location phase : String)
  deriving DecidableEq, Repr

/-- `ParseError` through `Display`. -/
def ParseError.toText : ParseError → String
  | .yaml msg => s!"YAML parse error: {msg}"
  | .rule line msg => s!"rule '{line}': {msg}"
  | .unsupportedStep line kind => s!"unsupported step `{kind}` in rule '{line}'"
  | .predicate text msg => s!"predicate '{text}': {msg}"
  | .renamedField location old new =>
    s!"in `{location}`: config field `{old}` was renamed to `{new}` — update your config"
  | .conflictingAuthorizationForms location phase =>
    s!"in `{location}`: `{phase}` is declared both nested under `authorization:` and flat on " ++
      "the section — use one form, not both (declaring both runs the effects twice)"

/-- Tokens of the predicate language. -/
inductive Tok where
  | ident (s : String)
  | stringLit (s : String)
  | intLit (i : Int)
  | floatLit (x : F64)
  | boolLit (b : Bool)
  | eq
  | notEq
  | gt
  | gtEq
  | lt
  | ltEq
  | and
  | or
  | not
  | lparen
  | rparen
  | comma
  | contains
  | require
  | exists
  | in
  deriving DecidableEq, Repr

section Lexer

/-- What is left to read, and how many bytes were read before it. -/
structure Cursor where
  pos : Nat
  rest : List Char

/-- Advance over the characters satisfying `p`; returns them and the new cursor. -/
def Cursor.takeWhile (c : Cursor) (p : Char → Bool) : List Char × Cursor :=
  let taken := c.rest.takeWhile p
  (taken, ⟨c.pos + (taken.map Char.utf8Size).sum, c.rest.dropWhile p⟩)

/-- Advance over one character. -/
def Cursor.bump (c : Cursor) : Cursor :=
  match c.rest with
  | [] => c
  | x :: xs => ⟨c.pos + x.utf8Size, xs⟩

/-- `Lexer::err`. -/
def lexErr (src : String) (pos : Nat) (msg : String) : ParseError :=
  .predicate src s!"at byte {pos}: {msg}"

/-- The first byte of the UTF-8 encoding of `c`. -/
def leadByte (c : Char) : Nat :=
  let n := c.toNat
  if n < 0x80 then n
  else if n < 0x800 then 0xC0 + n / 0x40
  else if n < 0x10000 then 0xE0 + n / 0x1000
  else 0xF0 + n / 0x40000

def isIdentStart (c : Char) : Bool := c.isAlpha || c == '_'

def isIdentCont (c : Char) : Bool := c.isAlphanum || c == '_' || c == '.'

variable [Platform]

/-- `Lexer::lex_string`, after the opening quote was seen. -/
def lexString (src : String) (quote : Char) (c : Cursor) : Except ParseError (Tok × Cursor) :=
  let (body, c) := c.bump.takeWhile (· ≠ quote)
  match c.rest with
  | [] => .error (lexErr src c.pos "unterminated string literal")
  | _ :: _ => .ok (.stringLit (String.ofList body), c.bump)

/-- The sign a number may begin with. -/
def takeSign (c : Cursor) : List Char × Cursor :=
  match c.rest with
  | '-' :: _ => (['-'], c.bump)
  | _ => ([], c)

/-- `Lexer::lex_number`, after the sign. -/
def lexDigits (src : String) (sign : List Char) (c : Cursor) : Except ParseError (Tok × Cursor) :=
  let (digits, c) := c.takeWhile Char.isDigit
  match c.rest with
  | '.' :: _ =>
    let (fraction, c) := c.bump.takeWhile Char.isDigit
    let text := String.ofList (sign ++ digits ++ '.' :: fraction)
    match Platform.parseF64 text with
    | some x => .ok (.floatLit x, c)
    | none => .error (lexErr src c.pos s!"bad float `{text}`")
  | _ =>
    let text := String.ofList (sign ++ digits)
    match Text.parseI64 text with
    | some i => .ok (.intLit i, c)
    | none => .error (lexErr src c.pos s!"bad int `{text}`")

/-- `Lexer::lex_number`. -/
def lexNumber (src : String) (c : Cursor) : Except ParseError (Tok × Cursor) :=
  lexDigits src (takeSign c).1 (takeSign c).2

/-- The loop of `lex_ident_or_keyword`: identifier runs interleaved with `[..]` groups.
    Returns the text read and whether it had a group. -/
def lexPath (src : String) : Nat → Cursor → Except ParseError (List Char × Bool × Cursor)
  | 0, c => .ok ([], false, c)
  | fuel + 1, c =>
    let (run, c) := c.takeWhile isIdentCont
    match c.rest with
    | '[' :: _ =>
      let (inner, c) := c.bump.takeWhile fun x => x ≠ ']' && x ≠ '['
      match c.rest with
      | ']' :: _ => do
        let (more, _, c) ← lexPath src fuel c.bump
        .ok (run ++ '[' :: inner ++ ']' :: more, true, c)
      | '[' :: _ => .error (lexErr src (c.pos + 1) "nested `[` in attribute path")
      | _ => .error (lexErr src c.pos "unterminated `[` in attribute path")
    | _ => .ok (run, false, c)

/-- A path with a group in it is no keyword. -/
def pathTok (hasBracket : Bool) (s : String) : Tok :=
  if hasBracket then Tok.ident s
  else match s with
    | "true" => .boolLit true
    | "false" => .boolLit false
    | "contains" => .contains
    | "require" => .require
    | "exists" => .exists
    | "in" => .in
    | _ => .ident s

/-- `Lexer::lex_ident_or_keyword`. -/
def lexIdentOrKeyword (src : String) (c : Cursor) : Except ParseError (Tok × Cursor) := do
  let (chars, hasBracket, c) ← lexPath src c.rest.length c
  .ok (pathTok hasBracket (String.ofList chars), c)

/-- An operator that may be followed by `=`. -/
def lexWithEq (next : Cursor) (long short : Tok) : Except ParseError (Tok × Cursor) :=
  match next.rest with
  | '=' :: _ => .ok (long, next.bump)
  | _ => .ok (short, next)

/-- One token, at a cursor that is not at the end of the text. -/
def lexToken (src : String) (b : Char) (c : Cursor) : Except ParseError (Tok × Cursor) :=
  let next := c.bump
  if b = '(' then .ok (.lparen, next)
  else if b = ')' then .ok (.rparen, next)
  else if b = ',' then .ok (.comma, next)
  else if b = '&' then .ok (.and, next)
  else if b = '|' then .ok (.or, next)
  else if b = '=' then
    match next.rest with
    | '=' :: _ => .ok (.eq, next.bump)
    | _ => .error (lexErr src next.pos "expected `==`, saw `=`")
  else if b = '!' then lexWithEq next .notEq .not
  else if b = '>' then lexWithEq next .gtEq .gt
  else if b = '<' then lexWithEq next .ltEq .lt
  else if b = '"' || b = '\'' then lexString src b c
  else if b = '-' || b.isDigit then lexNumber src c
  else if isIdentStart b then lexIdentOrKeyword src c
  else .error (lexErr src c.pos ("unexpected char `" ++ (Char.ofNat (leadByte b)).toString ++ "`"))

/-- `Lexer::tokenize_all`; every token consumes a character, so the length is enough fuel. -/
def tokenizeAll (src : String) : Nat → Cursor → Except ParseError (List Tok)
  | 0, _ => .ok []
  | fuel + 1, c =>
    let c := (c.takeWhile Text.isAsciiWhitespace).2
    match c.rest with
    | [] => .ok []
    | b :: _ => do
      let (tok, c) ← lexToken src b c
      let toks ← tokenizeAll src fuel c
      .ok (tok :: toks)

/-- `Lexer::new(src).tokenize_all()`. -/
def tokenize (src : String) : Except ParseError (List Tok) :=
  tokenizeAll src (src.toList.length + 1) ⟨0, src.toList⟩

end Lexer

section Parser
variable [Platform]

/-- `Tok` through `Debug`. -/
def Tok.debug : Tok → String
  | .ident s => "Ident(" ++ Platform.debugStr s ++ ")"
  | .stringLit s => "StringLit(" ++ Platform.debugStr s ++ ")"
  | .intLit i => s!"IntLit({i})"
  | .floatLit x => "FloatLit(" ++ Platform.debugF64 x ++ ")"
  | .boolLit b => s!"BoolLit({b})"
  | .eq => "Eq"
  | .notEq => "NotEq"
  | .gt => "Gt"
  | .gtEq => "GtEq"
  | .lt => "Lt"
  | .ltEq => "LtEq"
  | .and => "And"
  | .or => "Or"
  | .not => "Not"
  | .lparen => "LParen"
  | .rparen => "RParen"
  | .comma => "Comma"
  | .contains => "Contains"
  | .require => "Require"
  | .exists => "Exists"
  | .in => "In"

/-- `Option<Tok>` through `Debug`. -/
def debugOptTok : Option Tok → String
  | some t => "Some(" ++ t.debug ++ ")"
  | none => "None"

/-- The operator a token stands for, if any. -/
def Tok.compareOp? : Tok → Option CompareOp
  | .eq => some .eq
  | .notEq => some .notEq
  | .gt => some .gt
  | .gtEq => some .gtEq
  | .lt => some .lt
  | .ltEq => some .ltEq
  | .contains => some .contains
  | _ => none

/-- `PredParser::finish_in_set`. -/
def finishInSet (src valueKey : String) (negate : Bool) :
    List Tok → Except ParseError (Expression × List Tok)
  | .ident setKey :: toks => .ok (.condition (.inSet valueKey setKey negate), toks)
  | toks =>
    let phrase := if negate then "not in" else "in"
    .error (.predicate src ("expected set-attribute identifier after `" ++ phrase ++ "`, got " ++
      debugOptTok toks.head?))

/-- `PredParser::parse_exists`, after the keyword. -/
def parseExists (src : String) : List Tok → Except ParseError (Expression × List Tok)
  | .lparen :: .ident key :: .rparen :: toks => .ok (.condition (.exists key), toks)
  | .lparen :: .ident _ :: toks =>
    .error (.predicate src ("expected `)` after exists() argument, got " ++
      debugOptTok toks.head?))
  | .lparen :: toks =>
    .error (.predicate src ("exists(...) expects an attribute key, got " ++
      debugOptTok toks.head?))
  | _ => .error (.predicate src "expected `(` after `exists`")

/-- The literal on the right of a comparison. -/
def parseLiteral (src : String) : List Tok → Except ParseError (Literal × List Tok)
  | .stringLit s :: toks => .ok (.string s, toks)
  | .intLit i :: toks => .ok (.int i, toks)
  | .floatLit x :: toks => .ok (.float x, toks)
  | .boolLit b :: toks => .ok (.bool b, toks)
  | .ident _ :: _ =>
    .error (.predicate src ("RHS-as-identifier on comparison operators not supported — " ++
      "for set membership use `value_key in set_key`"))
  | toks => .error (.predicate src ("expected literal RHS, got " ++ debugOptTok toks.head?))

/-- `PredParser::parse_identifier_predicate`, after the identifier `key`. -/
def parseIdentifierPredicate (src key : String) (toks : List Tok) :
    Except ParseError (Expression × List Tok) :=
  match toks with
  | .in :: toks => finishInSet src key false toks
  | .ident "not" :: .in :: toks => finishInSet src key true toks
  | [] => .ok (.condition (.isTrue key), [])
  | tok :: rest =>
    match tok.compareOp? with
    | none => .ok (.condition (.isTrue key), toks)
    | some op => do
      let (value, toks) ← parseLiteral src rest
      .ok (.condition (.comparison key op value), toks)

/-- One operand stands for itself, several are joined. -/
def joinParts (join : List Expression → Expression) (first : Expression)
    (more : List Expression) : Expression :=
  if more.isEmpty then first else join (first :: more)

mutual

/-- `PredParser::parse_or`. The recursion is on `fuel`, of which `parsePredicate` supplies
    four units for each token. -/
def parseOr (src : String) : Nat → List Tok → Except ParseError (Expression × List Tok)
  | 0, _ => .error (.predicate src "out of fuel")
  | fuel + 1, toks => do
    let (first, toks) ← parseAnd src fuel toks
    let (more, toks) ← parseOrMore src fuel toks
    .ok (joinParts .or first more, toks)

/-- The loop of `parse_or`. -/
def parseOrMore (src : String) :
    Nat → List Tok → Except ParseError (List Expression × List Tok)
  | fuel + 1, .or :: toks => do
    let (e, toks) ← parseAnd src fuel toks
    let (more, toks) ← parseOrMore src fuel toks
    .ok (e :: more, toks)
  | _, toks => .ok ([], toks)

/-- `PredParser::parse_and`. -/
def parseAnd (src : String) : Nat → List Tok → Except ParseError (Expression × List Tok)
  | 0, _ => .error (.predicate src "out of fuel")
  | fuel + 1, toks => do
    let (first, toks) ← parseUnary src fuel toks
    let (more, toks) ← parseAndMore src fuel toks
    .ok (joinParts .and first more, toks)

/-- The loop of `parse_and`. -/
def parseAndMore (src : String) :
    Nat → List Tok → Except ParseError (List Expression × List Tok)
  | fuel + 1, .and :: toks => do
    let (e, toks) ← parseUnary src fuel toks
    let (more, toks) ← parseAndMore src fuel toks
    .ok (e :: more, toks)
  | _, toks => .ok ([], toks)

/-- `PredParser::parse_unary` with `parse_atom`. -/
def parseUnary (src : String) : Nat → List Tok → Except ParseError (Expression × List Tok)
  | 0, _ => .error (.predicate src "out of fuel")
  | fuel + 1, .not :: toks => do
    let (inner, toks) ← parseUnary src fuel toks
    .ok (.not inner, toks)
  | fuel + 1, .lparen :: toks => do
    let (inner, toks) ← parseOr src fuel toks
    match toks with
    | .rparen :: toks => .ok (inner, toks)
    | _ => .error (.predicate src "expected `)`")
  | _, .require :: _ =>
    .error (.predicate src ("`require(...)` is a rule-level shorthand, not a sub-predicate " ++
      "— use `&` / `|` / `!` over bare identifiers instead"))
  | _, .exists :: toks => parseExists src toks
  | _, .ident key :: toks => parseIdentifierPredicate src key toks
  | _, toks => .error (.predicate src ("expected atom, got " ++ debugOptTok toks.head?))

end

/-- `PredParser::parse`. -/
def PredParser.parse (src : String) : Except ParseError Expression := do
  let toks ← tokenize src
  let (expr, rest) ← parseOr src (4 * (toks.length + 1)) toks
  match rest with
  | [] => .ok expr
  | _ :: _ =>
    .error (.predicate src ("trailing tokens after expression: [" ++
      ", ".intercalate (rest.map Tok.debug) ++ "]"))

/-- `parse_predicate`. -/
def parsePredicate (src : String) : Except ParseError Expression :=
  PredParser.parse (Text.trim src)

end Parser

end Cpex
