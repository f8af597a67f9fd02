import Cpex.Native.Predicate

/-! # Slices of text

Byte offsets into a `str`, and the slices the parser takes at them. A slice whose ends are out of
order, past the end of the text or inside a character panics: that is `Stop.panic`.

The scans over `str::as_bytes` in `apl-core/src/parser.rs` branch on ASCII bytes only, and no byte
of a longer character is one. They run here over the characters, each with the offset of its first
byte. -/

namespace Cpex

/-- How a call of the parser ends when it does not return a value. -/
inductive Stop where
  | error (e : ParseError)
  | panic
  deriving DecidableEq, Repr

/-- `Result::map_err`. -/
def Stop.mapErr (f : ParseError → ParseError) : Stop → Stop
  | .error e => .error (f e)
  | .panic => .panic

instance : MonadLift (Except ParseError) (Except Stop) where
  monadLift x := x.mapError .error

namespace Text

/-- `str::len` on the character list. -/
def byteLenChars (cs : List Char) : Nat := (cs.map Char.utf8Size).sum

/-- `str::len`. -/
def byteLen (s : String) : Nat := byteLenChars s.toList

/-- `str::split_at_checked`: `none` unless the offset is a character boundary. -/
def splitAtByte : Nat → List Char → Option (List Char × List Char)
  | 0, cs => some ([], cs)
  | _ + 1, [] => none
  | n + 1, c :: cs =>
    if c.utf8Size ≤ n + 1 then
      (splitAtByte (n + 1 - c.utf8Size) cs).map fun parts => (c :: parts.1, parts.2)
    else none

/-- `&s[i..j]`. -/
def slice (s : String) (i j : Nat) : Except Stop String :=
  match (splitAtByte j s.toList).bind fun parts => splitAtByte i parts.1 with
  | some (_, cs) => .ok (String.ofList cs)
  | none => .error .panic

/-- `&s[..j]`. -/
def sliceTo (s : String) (j : Nat) : Except Stop String := slice s 0 j

/-- `&s[i..]`. -/
def sliceFrom (s : String) (i : Nat) : Except Stop String := slice s i (byteLen s)

/-- `&s[1..s.len() - 1]`. -/
def sliceInner (s : String) : Except Stop String := slice s 1 (byteLen s - 1)

/-- The characters, each with the offset of its first byte, counted from `i`. -/
def charIndicesFrom (i : Nat) : List Char → List (Nat × Char)
  | [] => []
  | c :: cs => (i, c) :: charIndicesFrom (i + c.utf8Size) cs

/-- `str::char_indices`. -/
def charIndices (s : String) : List (Nat × Char) := charIndicesFrom 0 s.toList

/-- `str::ends_with`. -/
def endsWith (s p : String) : Bool := p.toList.isSuffixOf s.toList

/-- `str::strip_suffix`: the text before `p`, when `s` ends with it. -/
def stripEnd (s p : String) : Option String :=
  if endsWith s p then
    some (String.ofList (s.toList.take (s.toList.length - p.toList.length)))
  else none

/-- `str::trim_start`. -/
def trimStart (s : String) : String := String.ofList (s.toList.dropWhile isWhitespace)

/-- `str::trim_end_matches` with a `char` pattern. -/
def trimEndMatches (s : String) (c : Char) : String :=
  String.ofList (s.toList.reverse.dropWhile (· = c)).reverse

/-- `str::find` with a `char` pattern. -/
def find (s : String) (c : Char) : Option Nat :=
  ((charIndices s).find? (·.2 = c)).map Prod.fst

/-- `str::rfind` with a `char` pattern. -/
def rfind (s : String) (c : Char) : Option Nat :=
  ((charIndices s).reverse.find? (·.2 = c)).map Prod.fst

/-- `str::find` with a string pattern, on character lists. -/
def findChars (p : List Char) : List Char → Option Nat
  | [] => if p.isEmpty then some 0 else none
  | c :: cs =>
    if p.isPrefixOf (c :: cs) then some 0 else (findChars p cs).map (· + c.utf8Size)

/-- `str::find` with a string pattern. -/
def findStr (s p : String) : Option Nat := findChars p.toList s.toList

theorem length_trim_le (s : String) : (trim s).toList.length ≤ s.toList.length := by
  unfold trim trimChars
  rw [String.toList_ofList, List.length_reverse]
  calc _ ≤ (s.toList.dropWhile isWhitespace).reverse.length :=
        (List.dropWhile_sublist _).length_le
    _ = (s.toList.dropWhile isWhitespace).length := List.length_reverse
    _ ≤ s.toList.length := (List.dropWhile_sublist _).length_le

theorem length_stripStart (h : stripStart s p = some t) :
    t.toList.length = s.toList.length - p.toList.length := by
  unfold stripStart at h
  split at h
  · cases h; rw [String.toList_ofList, List.length_drop]
  · exact nomatch h

theorem length_stripEnd_le (h : stripEnd s p = some t) :
    t.toList.length ≤ s.toList.length - p.toList.length := by
  unfold stripEnd at h
  split at h
  · cases h; rw [String.toList_ofList]; exact List.length_take_le _ _
  · exact nomatch h

/-- `str::split_once` with a `char` pattern. -/
def splitOnce (s : String) (c : Char) : Option (String × String) :=
  match s.toList.dropWhile (· ≠ c) with
  | [] => none
  | _ :: after => some (String.ofList (s.toList.takeWhile (· ≠ c)), String.ofList after)

/-- `str::parse::<usize>`: an optional `+`, then digits, in range. -/
def parseUsize (s : String) : Option Nat :=
  let digits := match s.toList with
    | '+' :: rest => rest
    | rest => rest
  (parseDigits digits).filter (· < 2 ^ 64)

end Text

/-! ### Quotes and brackets -/

/-- What a scan over the bytes keeps: how many brackets are open, and the quote it is inside. -/
structure Nesting where
  depth : Int := 0
  inQuote : Option Char := none

/-- One byte of the scans in `split_predicate_action` and `split_top_level`, which count the
    brackets `opening` and `closing`. -/
def Nesting.step (opening closing : List Char) (n : Nesting) (c : Char) : Nesting :=
  match n.inQuote with
  | some q => if c = q then { n with inQuote := none } else n
  | none =>
    if c = '"' ∨ c = '\'' then { n with inQuote := some c }
    else if c ∈ opening then { n with depth := n.depth + 1 }
    else if c ∈ closing then { n with depth := n.depth - 1 }
    else n

/-- Outside quotes, with no bracket open. -/
def Nesting.atTop (n : Nesting) : Bool := n.inQuote.isNone && n.depth == 0

/-- The offsets at which `delim` stands outside quotes and brackets. -/
def topLevel (opening closing : List Char) (delim : Char) :
    Nesting → List (Nat × Char) → List Nat
  | _, [] => []
  | n, (i, c) :: rest =>
    let more := topLevel opening closing delim (n.step opening closing c) rest
    if n.atTop && c == delim then i :: more else more

/-- The pieces of `s` from `start` on, cut at the offsets of a delimiter of one byte. -/
def slicesBetween (s : String) (start : Nat) : List Nat → Except Stop (List String)
  | [] => do return [← Text.sliceFrom s start]
  | i :: rest => do
    let piece ← Text.slice s start i
    let more ← slicesBetween s (i + 1) rest
    return piece :: more

/-- `split_top_level`. -/
def splitTopLevel (s : String) (delim : Char) : Except Stop (List String) :=
  slicesBetween s 0 (topLevel ['(', '['] [')', ']'] delim {} (Text.charIndices s))

/-- The offset of the `)` that takes the count of open parentheses to zero: the loop of
    `extract_call_args` and of `split_head_args`. -/
def closingParen : Int → List (Nat × Char) → Option Nat
  | _, [] => none
  | depth, (i, c) :: rest =>
    if c = '(' then closingParen (depth + 1) rest
    else if c = ')' then if depth - 1 = 0 then some i else closingParen (depth - 1) rest
    else closingParen depth rest

/-- `extract_call_args`. -/
def extractCallArgs (line name : String) : Except Stop (Option String) := do
  let line := Text.trim line
  if !Text.startsWith line name then return none
  let after ← Text.sliceFrom line (Text.byteLen name)
  if !Text.startsWith after "(" then return none
  match closingParen 0 (Text.charIndices after) with
  | none => return none
  | some i =>
    -- Anything after the closing parenthesis is invalid.
    if Text.trim (← Text.sliceFrom after (i + 1)) = "" then
      return some (← Text.slice after 1 i)
    else return none

end Cpex
