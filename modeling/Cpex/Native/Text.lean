import Mathlib.Algebra.Group.Int.Defs
import Mathlib.Algebra.GroupWithZero.Nat
import Mathlib.Data.List.Basic

/-! # Rust string operations

The operations of `str` and `char` that the program uses, defined on the character list so
that they evaluate in the kernel. -/

namespace Cpex.Text

/-- `str::to_ascii_lowercase`. -/
def toAsciiLowercase (s : String) : String :=
  String.ofList (s.toList.map Char.toLower)

/-- `str::eq_ignore_ascii_case`. -/
def eqIgnoreAsciiCase (a b : String) : Bool :=
  toAsciiLowercase a == toAsciiLowercase b

/-- `str::contains` with a `char` pattern. -/
def containsChar (s : String) (c : Char) : Bool :=
  s.toList.contains c

/-- `str::starts_with` with a string pattern. -/
def startsWith (s p : String) : Bool :=
  p.toList.isPrefixOf s.toList

/-- `str::strip_prefix`: the text after `p`, when `s` starts with it. -/
def stripStart (s p : String) : Option String :=
  if startsWith s p then some (String.ofList (s.toList.drop p.toList.length)) else none

/-- Unicode `White_Space`, the property behind `char::is_whitespace`. -/
def isWhitespace (c : Char) : Bool :=
  let n := c.toNat
  (0x09 ≤ n && n ≤ 0x0D) || n == 0x20 || n == 0x85 || n == 0xA0 || n == 0x1680 ||
    (0x2000 ≤ n && n ≤ 0x200A) || n == 0x2028 || n == 0x2029 || n == 0x202F ||
    n == 0x205F || n == 0x3000

/-- `u8::is_ascii_whitespace` (no vertical tab). -/
def isAsciiWhitespace (c : Char) : Bool :=
  c == ' ' || c == '\t' || c == '\n' || c == '\x0c' || c == '\r'

/-- `str::trim` on the character list. -/
def trimChars (cs : List Char) : List Char :=
  ((cs.dropWhile isWhitespace).reverse.dropWhile isWhitespace).reverse

/-- `str::trim`. -/
def trim (s : String) : String :=
  String.ofList (trimChars s.toList)

/-- The pieces of `cs` between occurrences of `c`; never empty. -/
def splitChars (c : Char) : List Char → List (List Char)
  | [] => [[]]
  | x :: xs =>
    if x = c then [] :: splitChars c xs
    else match splitChars c xs with
      | [] => [[x]]
      | p :: ps => (x :: p) :: ps

/-- `str::split` with a `char` pattern. -/
def split (s : String) (c : Char) : List String :=
  (splitChars c s.toList).map String.ofList

theorem splitChars_ne_nil (c : Char) (cs : List Char) : splitChars c cs ≠ [] := by
  cases cs with
  | nil => simp [splitChars]
  | cons x xs =>
    simp only [splitChars]
    split
    · simp
    · split <;> simp

/-- `str::split` always yields at least one piece. -/
theorem split_ne_nil (s : String) (c : Char) : split s c ≠ [] := by
  simpa [split] using splitChars_ne_nil c s.toList

/-- The value of a digit string, read left to right. -/
def digitsVal (cs : List Char) : Nat :=
  cs.foldl (fun n c => 10 * n + (c.toNat - '0'.toNat)) 0

/-- Unsigned decimal text: at least one digit and digits only. -/
def parseDigits (cs : List Char) : Option Nat :=
  if cs ≠ [] ∧ cs.all Char.isDigit then some (digitsVal cs) else none

/-- `str::parse::<i64>` on the character list: an optional sign, then digits, in range. -/
def parseI64Chars (cs : List Char) : Option Int :=
  let inRange (i : Int) : Option Int :=
    if -2 ^ 63 ≤ i ∧ i < 2 ^ 63 then some i else none
  match cs with
  | '-' :: rest => (parseDigits rest).bind fun n => inRange (-n)
  | '+' :: rest => (parseDigits rest).bind fun n => inRange n
  | rest => (parseDigits rest).bind fun n => inRange n

/-- `str::parse::<i64>`. -/
def parseI64 (s : String) : Option Int := parseI64Chars s.toList

/-- The matcher of the `wildmatch` crate on character lists: `*` stands for any run of
    characters, `?` for exactly one. -/
def wildMatchChars : List Char → List Char → Bool
  | [], cs => cs.isEmpty
  | '*' :: ps, cs => cs.tails.any (wildMatchChars ps)
  | '?' :: _, [] => false
  | '?' :: ps, _ :: cs => wildMatchChars ps cs
  | _ :: _, [] => false
  | p :: ps, c :: cs => p == c && wildMatchChars ps cs

/-- `WildMatch::new(pattern).matches(s)`. -/
def wildMatch (pattern s : String) : Bool := wildMatchChars pattern.toList s.toList

end Cpex.Text
