import Mathlib
import Cpex.ForStd.Lexing
import Cpex.Native.Predicate

/-! # The predicate lexer

The lexicon behind `Lexer` of `apl-core/src/parser.rs`: how every token is written, with one
character of lookahead. The lexer returns a token list exactly when the text spells it, whatever
text it quotes in its errors and wherever in that text it stands.
-/

namespace Cpex

/-! ### Attribute paths -/

/-- How an attribute path is written: identifier characters, with `[..]` groups in between. The
    flag says whether there is a group. -/
inductive PathText : Bool → List Char → Prop where
  | run {run : List Char} (hrun : ∀ c ∈ run, isIdentCont c) : PathText false run
  | group {run inner more : List Char} {b : Bool} (hrun : ∀ c ∈ run, isIdentCont c)
      (hinner : ∀ c ∈ inner, c ≠ ']' && c ≠ '[') (hmore : PathText b more) :
      PathText true (run ++ '[' :: inner ++ ']' :: more)

/-- A path goes on over identifier characters and groups. -/
def EndsPath (next : Option Char) : Prop := ∀ c ∈ next, isIdentCont c = false ∧ c ≠ '['

theorem EndsPath.isIdentCont (h : EndsPath next) :
    ∀ c ∈ next, isIdentCont c = false := fun c hc => (h c hc).1

theorem isIdentCont_bracket : isIdentCont '[' = false := rfl

/-! ### The cursor -/

variable {c c' : Cursor}

/-- A run is taken whole. -/
theorem Cursor.takeWhile_spec {p : Char → Bool} (h : c.takeWhile p = (taken, c')) :
    c.rest = taken ++ c'.rest ∧ (∀ x ∈ taken, p x) ∧ ∀ x ∈ c'.rest.head?, p x = false := by
  cases h
  exact ⟨List.takeWhile_append_dropWhile.symm, fun x hx => List.mem_takeWhile_imp hx,
    fun x hx => List.eq_false_of_mem_head?_dropWhile hx⟩

variable {rest : List Char}

theorem Cursor.takeWhile_eq {p : Char → Bool} (hrest : c.rest = taken ++ rest)
    (htaken : ∀ x ∈ taken, p x) (hhead : ∀ x ∈ rest.head?, p x = false) :
    ∃ pos, c.takeWhile p = (taken, ⟨pos, rest⟩) := by
  refine ⟨c.pos + (taken.map Char.utf8Size).sum, ?_⟩
  rw [Cursor.takeWhile, hrest, List.takeWhile_append_of_head htaken hhead,
    List.dropWhile_append_of_head htaken hhead]

theorem Cursor.bump_rest (h : c.rest = x :: xs) : c.bump.rest = xs := by
  rw [Cursor.bump, h]

/-! ### Reading a path -/

variable {src : String} {text : List Char}

/-- What `lexPath` reads is a path, and all of the path that stands there. -/
theorem lexPath_sound (hfuel : c.rest.length ≤ fuel) (h : lexPath src fuel c = .ok (text, b, c')) :
    PathText b text ∧ c.rest = text ++ c'.rest ∧ EndsPath c'.rest.head? := by
  induction fuel generalizing c text b with
  | zero =>
    cases h
    have hnil := List.eq_nil_of_length_eq_zero (Nat.le_zero.mp hfuel)
    rw [hnil]
    exact ⟨.run (List.forall_mem_nil _), rfl, by simp [EndsPath]⟩
  | succ fuel ih =>
    rw [lexPath] at h
    generalize hrun : c.takeWhile isIdentCont = r at h
    obtain ⟨run, c₁⟩ := r
    obtain ⟨hsplit, hall, hbehind⟩ := Cursor.takeWhile_spec hrun
    dsimp only at h
    split at h
    · next x tail hopen =>
      generalize hinner : c₁.bump.takeWhile (fun x => x ≠ ']' && x ≠ '[') = r at h
      obtain ⟨inner, c₂⟩ := r
      obtain ⟨hsplit₂, hall₂, -⟩ := Cursor.takeWhile_spec hinner
      split at h
      · next y tail₂ hclose =>
        obtain ⟨⟨more, b', c₃⟩, hmore, h⟩ := Except.ok_of_bind h
        cases h
        rw [Cursor.bump_rest hopen] at hsplit₂
        have hrest : c.rest = run ++ '[' :: inner ++ ']' :: c₂.bump.rest := by
          rw [hsplit, hopen, hsplit₂, hclose, Cursor.bump_rest hclose]
          simp
        have hlen : c₂.bump.rest.length ≤ fuel := by
          rw [hrest] at hfuel
          simp only [List.length_append, List.length_cons] at hfuel
          omega
        obtain ⟨hpath, hsplit₃, hends⟩ := ih hlen hmore
        refine ⟨.group hall hall₂ hpath, ?_, hends⟩
        rw [hrest, hsplit₃]
        simp
      · cases h
      · cases h
    · next hopen =>
      cases h
      refine ⟨.run hall, hsplit, fun x hx => ⟨hbehind x hx, ?_⟩⟩
      rintro rfl
      obtain ⟨tail, htail⟩ := List.head?_eq_some_iff.mp hx
      exact hopen tail htail

/-- A path is read whole. -/
theorem lexPath_complete (h : PathText b text) (hends : EndsPath rest.head?)
    (hrest : c.rest = text ++ rest) (hfuel : c.rest.length ≤ fuel) :
    ∃ pos, lexPath src fuel c = .ok (text, b, ⟨pos, rest⟩) := by
  induction h generalizing fuel c with
  | @run run hrun =>
    cases fuel with
    | zero =>
      have hnil := List.eq_nil_of_length_eq_zero (Nat.le_zero.mp hfuel)
      rw [hrest] at hnil
      obtain ⟨rfl, rfl⟩ := List.append_eq_nil_iff.mp hnil
      obtain ⟨pos, left⟩ := c
      cases hrest
      exact ⟨pos, rfl⟩
    | succ fuel =>
      obtain ⟨pos, htake⟩ := Cursor.takeWhile_eq hrest hrun hends.isIdentCont
      refine ⟨pos, ?_⟩
      rw [lexPath, htake]
      dsimp only
      split
      · exact absurd rfl (hends '[' rfl).2
      · rfl
  | @group run inner more b hrun hinner hmore ih =>
    obtain ⟨fuel, rfl⟩ : ∃ n, fuel = n + 1 := ⟨fuel - 1, by simp [hrest] at hfuel; omega⟩
    have hopen : c.rest = run ++ '[' :: (inner ++ ']' :: (more ++ rest)) := by
      rw [hrest]
      simp
    obtain ⟨pos, htake⟩ := Cursor.takeWhile_eq hopen hrun (by simp [isIdentCont_bracket])
    have hclose : (⟨pos, '[' :: (inner ++ ']' :: (more ++ rest))⟩ : Cursor).bump.rest =
      inner ++ ']' :: (more ++ rest) := rfl
    obtain ⟨pos₂, htake₂⟩ := Cursor.takeWhile_eq hclose hinner (by simp)
    have hlen : (more ++ rest).length ≤ fuel := by
      simp only [hopen, List.length_append, List.length_cons] at hfuel ⊢
      omega
    obtain ⟨pos₃, hmore⟩ := ih (c := ⟨_, more ++ rest⟩) rfl hlen
    refine ⟨pos₃, ?_⟩
    rw [lexPath, htake]
    dsimp only
    rw [htake₂]
    dsimp only [Cursor.bump]
    rw [hmore]
    rfl

theorem lexIdentOrKeyword_complete (src : String) (hrest : c.rest = text ++ rest)
    (hpath : PathText b text) (hends : EndsPath rest.head?) :
    ∃ c', lexIdentOrKeyword src c = .ok (pathTok b (String.ofList text), c') ∧ c'.rest = rest := by
  obtain ⟨pos, hread⟩ := lexPath_complete hpath hends hrest (Nat.le_refl _)
  refine ⟨⟨pos, rest⟩, ?_, rfl⟩
  rw [lexIdentOrKeyword, hread]
  rfl

/-! ### Strings, operators and signs -/

theorem lexString_complete (src : String) (hrest : c.rest = quote :: body ++ [quote] ++ rest)
    (hbody : ∀ x ∈ body, x ≠ quote) :
    ∃ c', lexString src quote c = .ok (.stringLit (String.ofList body), c') ∧ c'.rest = rest := by
  have hbump : c.bump.rest = body ++ quote :: rest := by
    rw [Cursor.bump, hrest]
    simp
  obtain ⟨pos, htake⟩ := Cursor.takeWhile_eq (p := (· ≠ quote)) hbump (by simpa using hbody)
    (by simp)
  refine ⟨(⟨pos, quote :: rest⟩ : Cursor).bump, ?_, rfl⟩
  rw [lexString, htake]

variable {t : Tok} {b : Char} {cs : List Char}

/-- An operator that `=` makes longer. -/
theorem lexWithEq_sound {long short : Tok} (hrest : c.rest = b :: cs)
    (h : lexWithEq c.bump long short = .ok (t, c')) :
    (t = long ∧ c.rest = [b, '='] ++ c'.rest) ∨
      (t = short ∧ c.rest = [b] ++ c'.rest ∧ c'.rest.head? ≠ some '=') := by
  have hbump := Cursor.bump_rest hrest
  unfold lexWithEq at h
  split at h
  · next tail heq =>
    cases h
    refine .inl ⟨rfl, ?_⟩
    rw [hrest, ← hbump, heq, Cursor.bump_rest heq]
    rfl
  · next hne =>
    cases h
    refine .inr ⟨rfl, by rw [hrest, hbump]; rfl, fun hhead => ?_⟩
    obtain ⟨tail, htail⟩ := List.head?_eq_some_iff.mp hhead
    exact hne tail htail

theorem lexWithEq_short {long short : Tok} (h : c.bump.rest.head? ≠ some '=') :
    lexWithEq c.bump long short = .ok (short, c.bump) := by
  unfold lexWithEq
  split
  · next heq => exact absurd (by rw [heq]; rfl) h
  · rfl

/-! ### The lexicon -/

/-- The sign of a number. -/
def signText (negative : Bool) : List Char := if negative then ['-'] else []

variable {negative : Bool}

theorem takeSign_eq (hrest : c.rest = signText negative ++ cs)
    (hsign : negative = false → ∀ x ∈ cs.head?, x ≠ '-') :
    ∃ pos, takeSign c = (signText negative, ⟨pos, cs⟩) := by
  obtain ⟨pos, left⟩ := c
  cases hrest
  cases negative with
  | true => exact ⟨pos + Char.utf8Size '-', rfl⟩
  | false =>
    refine ⟨pos, ?_⟩
    unfold takeSign
    split
    · next hcs =>
      cases hcs
      exact absurd rfl (hsign rfl '-' rfl)
    · rfl

variable {digits : List Char}

/-- The first character of an unsigned number is a digit, not a sign. -/
theorem digits_head (hne : signText negative ++ digits ≠ []) (hdigits : ∀ x ∈ digits, x.isDigit)
    (hneg : negative = false) : ∀ x ∈ (digits ++ cs).head?, x ≠ '-' := by
  subst hneg
  cases digits with
  | nil => exact absurd rfl hne
  | cons d digits =>
    intro x hx
    cases hx
    rintro rfl
    exact absurd (hdigits '-' List.mem_cons_self) (by decide)

/-- What may stand behind a token without becoming part of it. -/
def Tok.Ends : Tok → Option Char → Prop
  | .not, next | .gt, next | .lt, next => next ≠ some '='
  | .intLit _, next => ∀ c ∈ next, c.isDigit = false ∧ c ≠ '.'
  | .floatLit _, next => ∀ c ∈ next, c.isDigit = false
  | .ident _, next | .boolLit _, next | .contains, next | .require, next | .exists, next
  | .in, next => EndsPath next
  | _, _ => True

variable {s : String}

theorem ends_pathTok {b : Bool} {next : Option Char} : (pathTok b s).Ends next ↔ EndsPath next := by
  unfold pathTok
  repeat' split
  all_goals exact Iff.rfl

/-! ### White space -/

theorem isWhitespace_of_isAsciiWhitespace {c : Char} (h : Text.isAsciiWhitespace c) :
    Text.isWhitespace c := by
  simp only [Text.isAsciiWhitespace, Bool.or_eq_true, beq_iff_eq] at h
  rcases h with (((rfl | rfl) | rfl) | rfl) | rfl <;> decide

theorem isWhitespace_of_isIdentCont {c : Char} (h : isIdentCont c) :
    Text.isWhitespace c = false := by
  have hcases : (c.toNat ≤ 90 ∧ 46 ≤ c.toNat) ∨ (c.toNat ≤ 122 ∧ 95 ≤ c.toNat) := by
    simp only [isIdentCont, Char.isAlphanum, Char.isAlpha, Char.isUpper, Char.isLower,
      Char.isDigit, Bool.or_eq_true, Bool.and_eq_true, decide_eq_true_eq, beq_iff_eq,
      UInt32.le_iff_toNat_le] at h
    rcases h with ((((h | h) | h) | rfl) | rfl)
    · simp at h; omega
    · simp at h; omega
    · simp at h; omega
    · decide
    · decide
  by_contra hne
  simp only [Text.isWhitespace, Bool.not_eq_false, Bool.or_eq_true, Bool.and_eq_true,
    decide_eq_true_eq, beq_iff_eq] at hne
  omega

theorem isIdentCont_of_isIdentStart {c : Char} (h : isIdentStart c) : isIdentCont c := by
  simp only [isIdentStart, isIdentCont, Char.isAlphanum, Bool.or_eq_true] at h ⊢
  rcases h with h | h
  · exact .inl (.inl (.inl h))
  · exact .inl (.inr h)

theorem isIdentCont_of_isDigit {c : Char} (h : c.isDigit) : isIdentCont c := by
  simp [isIdentCont, Char.isAlphanum, h]

theorem PathText.getLast {b : Bool} (h : PathText b text) :
    ∀ c ∈ text.getLast?, Text.isWhitespace c = false := by
  induction h with
  | run hrun =>
    intro c hc
    exact isWhitespace_of_isIdentCont (hrun c (List.mem_of_mem_getLast? hc))
  | @group run inner more b hrun hinner hmore ih =>
    intro c hc
    rw [List.getLast?_append_of_ne_nil _ (List.cons_ne_nil _ _), List.getLast?_cons] at hc
    cases hmore : more.getLast? with
    | none =>
      rw [hmore] at hc
      cases hc
      decide
    | some d =>
      rw [hmore] at hc
      cases hc
      exact ih _ hmore

/-! ### Lexemes -/

variable [Platform]

/-- How a token is written. -/
inductive Lexeme : Tok → List Char → Prop where
  | lparen : Lexeme .lparen ['(']
  | rparen : Lexeme .rparen [')']
  | comma : Lexeme .comma [',']
  | and : Lexeme .and ['&']
  | or : Lexeme .or ['|']
  | eq : Lexeme .eq ['=', '=']
  | notEq : Lexeme .notEq ['!', '=']
  | not : Lexeme .not ['!']
  | gtEq : Lexeme .gtEq ['>', '=']
  | gt : Lexeme .gt ['>']
  | ltEq : Lexeme .ltEq ['<', '=']
  | lt : Lexeme .lt ['<']
  | string {quote : Char} {body : List Char} (hquote : quote = '"' ∨ quote = '\'')
      (hbody : ∀ c ∈ body, c ≠ quote) :
      Lexeme (.stringLit (String.ofList body)) (quote :: body ++ [quote])
  | int {negative : Bool} {digits : List Char} {i : Int} (hne : signText negative ++ digits ≠ [])
      (hdigits : ∀ c ∈ digits, c.isDigit)
      (hparse : Text.parseI64 (String.ofList (signText negative ++ digits)) = some i) :
      Lexeme (.intLit i) (signText negative ++ digits)
  | float {negative : Bool} {digits fraction : List Char} {x : F64}
      (hne : signText negative ++ digits ≠ []) (hdigits : ∀ c ∈ digits, c.isDigit)
      (hfraction : ∀ c ∈ fraction, c.isDigit)
      (hparse : Platform.parseF64
        (String.ofList (signText negative ++ digits ++ '.' :: fraction)) = some x) :
      Lexeme (.floatLit x) (signText negative ++ digits ++ '.' :: fraction)
  | path {c : Char} {cs : List Char} {b : Bool} (hstart : isIdentStart c)
      (hpath : PathText b (c :: cs)) : Lexeme (pathTok b (String.ofList (c :: cs))) (c :: cs)

/-- No token begins with white space. -/
theorem Lexeme.head (h : Lexeme t text) : ∃ c ∈ text.head?, Text.isWhitespace c = false := by
  have digits_head {negative : Bool} {digits cs : List Char} (hne : signText negative ++ digits ≠ [])
      (hdigits : ∀ c ∈ digits, c.isDigit) :
      ∃ c ∈ (signText negative ++ digits ++ cs).head?, Text.isWhitespace c = false := by
    cases negative with
    | true => exact ⟨'-', rfl, by decide⟩
    | false =>
      cases digits with
      | nil => exact absurd rfl hne
      | cons d digits =>
        have hd := hdigits d List.mem_cons_self
        exact ⟨d, rfl, isWhitespace_of_isIdentCont (isIdentCont_of_isDigit hd)⟩
  cases h with
  | @string quote body hquote hbody =>
    refine ⟨quote, rfl, ?_⟩
    rcases hquote with rfl | rfl <;> decide
  | @int negative digits i hne hdigits hparse =>
    rw [← List.append_nil (signText negative ++ digits)]
    exact digits_head hne hdigits
  | float hne hdigits hfraction hparse => exact digits_head hne hdigits
  | @path c cs b hstart hpath =>
    exact ⟨c, rfl, isWhitespace_of_isIdentCont (isIdentCont_of_isIdentStart hstart)⟩
  | _ => exact ⟨_, rfl, by decide⟩

/-- No token ends with white space. -/
theorem Lexeme.getLast (h : Lexeme t text) : ∃ c ∈ text.getLast?, Text.isWhitespace c = false := by
  have nonblank {c : Char} (h : c.isDigit) : Text.isWhitespace c = false :=
    isWhitespace_of_isIdentCont (isIdentCont_of_isDigit h)
  have last {text : List Char} (hne : text ≠ [])
      (hall : ∀ c ∈ text.getLast?, Text.isWhitespace c = false) :
      ∃ c ∈ text.getLast?, Text.isWhitespace c = false :=
    ⟨text.getLast hne, List.getLast?_eq_some_getLast hne, hall _ (List.getLast?_eq_some_getLast hne)⟩
  cases h with
  | @string quote body hquote hbody =>
    refine ⟨quote, List.getLast?_concat, ?_⟩
    rcases hquote with rfl | rfl <;> decide
  | @int negative digits i hne hdigits hparse =>
    refine last hne fun c hc => ?_
    rcases List.mem_append.mp (List.mem_of_mem_getLast? hc) with hc | hc
    · cases negative with
      | true =>
        cases List.mem_singleton.mp hc
        decide
      | false => cases hc
    · exact nonblank (hdigits c hc)
  | @float negative digits fraction x hne hdigits hfraction hparse =>
    refine last (by simp) fun c hc => ?_
    rw [List.getLast?_append_of_ne_nil _ (List.cons_ne_nil _ _)] at hc
    rcases List.mem_cons.mp (List.mem_of_mem_getLast? hc) with rfl | hc
    · decide
    · exact nonblank (hfraction c hc)
  | @path c cs b hstart hpath => exact last (List.cons_ne_nil _ _) hpath.getLast
  | _ => exact ⟨_, rfl, by decide⟩

/-! ### Reading one token -/

/-- What `lexDigits` reads: the digits, and a fraction if a `.` follows. -/
theorem lexDigits_sound (h : lexDigits src sign c = .ok (t, c')) :
    ∃ digits, (∀ x ∈ digits, x.isDigit) ∧
      ((∃ i, t = .intLit i ∧ c.rest = digits ++ c'.rest ∧
          Text.parseI64 (String.ofList (sign ++ digits)) = some i) ∨
        ∃ fraction x, t = .floatLit x ∧ c.rest = digits ++ '.' :: fraction ++ c'.rest ∧
          (∀ x ∈ fraction, x.isDigit) ∧
          Platform.parseF64 (String.ofList (sign ++ digits ++ '.' :: fraction)) = some x) ∧
      (∀ x ∈ (c.rest.drop digits.length).head?, x.isDigit = false) ∧ t.Ends c'.rest.head? := by
  unfold lexDigits at h
  generalize hdigits : c.takeWhile Char.isDigit = r at h
  obtain ⟨digits, c₁⟩ := r
  obtain ⟨hsplit, hall, hbehind⟩ := Cursor.takeWhile_spec hdigits
  dsimp only at h
  have hdrop : c.rest.drop digits.length = c₁.rest := by rw [hsplit, List.drop_left]
  refine ⟨digits, hall, ?_⟩
  rw [hdrop]
  split at h
  · next tail hdot =>
    generalize hfraction : c₁.bump.takeWhile Char.isDigit = r at h
    obtain ⟨fraction, c₂⟩ := r
    obtain ⟨hsplit₂, hall₂, hbehind₂⟩ := Cursor.takeWhile_spec hfraction
    split at h
    · next x hparse =>
      cases h
      rw [Cursor.bump_rest hdot] at hsplit₂
      refine ⟨.inr ⟨fraction, x, rfl, ?_, hall₂, hparse⟩, hbehind, hbehind₂⟩
      rw [hsplit, hdot, hsplit₂]
      simp
    · cases h
  · next hdot =>
    split at h
    · next i hparse =>
      cases h
      refine ⟨.inl ⟨i, rfl, hsplit, hparse⟩, hbehind, fun x hx => ⟨hbehind x hx, ?_⟩⟩
      rintro rfl
      obtain ⟨tail, htail⟩ := List.head?_eq_some_iff.mp hx
      exact hdot tail htail
    · cases h

/-- The token stands between the cursors, and it ends there. -/
def Cursor.Reads (c : Cursor) (t : Tok) (c' : Cursor) : Prop :=
  ∃ text, c.rest = text ++ c'.rest ∧ Lexeme t text ∧ t.Ends c'.rest.head?

theorem lexNumber_sound (hrest : c.rest = b :: cs) (hb : b = '-' ∨ b.isDigit)
    (h : lexNumber src c = .ok (t, c')) : c.Reads t c' := by
  obtain ⟨negative, left, hsign, hnext⟩ : ∃ negative left, c.rest = signText negative ++ left ∧
      (negative = false → ∃ x ∈ left.head?, x.isDigit) := by
    by_cases hminus : b = '-'
    · exact ⟨true, cs, by rw [hrest, hminus]; rfl, by simp⟩
    · exact ⟨false, c.rest, rfl, fun _ => ⟨b, by rw [hrest]; rfl, hb.resolve_left hminus⟩⟩
  obtain ⟨pos, htake⟩ := takeSign_eq hsign fun hpos x hx => by
    obtain ⟨y, hy, hdigit⟩ := hnext hpos
    cases Option.mem_unique hx hy
    rintro rfl
    exact absurd hdigit (by decide)
  rw [lexNumber, htake] at h
  obtain ⟨digits, hall, hread, hbehind, hends⟩ := lexDigits_sound h
  -- Without a sign the number begins with a digit, so there is one.
  have hne : signText negative ++ digits ≠ [] := by
    intro hnil
    obtain ⟨hnosign, rfl⟩ := List.append_eq_nil_iff.mp hnil
    cases negative with
    | true => cases hnosign
    | false =>
      obtain ⟨x, hx, hdigit⟩ := hnext rfl
      exact absurd hdigit (by simp [hbehind x hx])
  rcases hread with ⟨i, rfl, hsplit, hparse⟩ | ⟨fraction, x, rfl, hsplit, hall₂, hparse⟩
  · refine ⟨signText negative ++ digits, ?_, .int hne hall hparse, hends⟩
    rw [hsign, List.append_assoc, ← hsplit]
  · refine ⟨signText negative ++ digits ++ '.' :: fraction, ?_, .float hne hall hall₂ hparse, hends⟩
    rw [hsign, List.append_assoc, List.append_assoc, ← List.append_assoc digits, ← hsplit]

theorem lexNumber_int (src : String) (hrest : c.rest = signText negative ++ digits ++ rest)
    (hne : signText negative ++ digits ≠ []) (hdigits : ∀ x ∈ digits, x.isDigit)
    (hparse : Text.parseI64 (String.ofList (signText negative ++ digits)) = some i)
    (hends : (Tok.intLit i).Ends rest.head?) :
    ∃ c', lexNumber src c = .ok (.intLit i, c') ∧ c'.rest = rest := by
  rw [List.append_assoc] at hrest
  obtain ⟨pos, hsign⟩ := takeSign_eq hrest (digits_head hne hdigits)
  obtain ⟨pos₂, htake⟩ := Cursor.takeWhile_eq (c := ⟨pos, digits ++ rest⟩) rfl hdigits
    fun x hx => (hends x hx).1
  refine ⟨⟨pos₂, rest⟩, ?_, rfl⟩
  rw [lexNumber, hsign, lexDigits, htake]
  dsimp only
  split
  · exact absurd rfl (hends '.' rfl).2
  · rw [hparse]

theorem lexNumber_float (src : String)
    (hrest : c.rest = signText negative ++ digits ++ '.' :: fraction ++ rest)
    (hne : signText negative ++ digits ≠ []) (hdigits : ∀ x ∈ digits, x.isDigit)
    (hfraction : ∀ x ∈ fraction, x.isDigit) (hparse : Platform.parseF64
      (String.ofList (signText negative ++ digits ++ '.' :: fraction)) = some x)
    (hends : (Tok.floatLit x).Ends rest.head?) :
    ∃ c', lexNumber src c = .ok (.floatLit x, c') ∧ c'.rest = rest := by
  have hrest' : c.rest = signText negative ++ (digits ++ '.' :: (fraction ++ rest)) := by
    rw [hrest]
    simp
  obtain ⟨pos, hsign⟩ := takeSign_eq hrest' (digits_head hne hdigits)
  obtain ⟨pos₂, htake⟩ := Cursor.takeWhile_eq (c := ⟨pos, digits ++ '.' :: (fraction ++ rest)⟩) rfl
    hdigits (by simp)
  obtain ⟨pos₃, htake₃⟩ := Cursor.takeWhile_eq
    (c := (⟨pos₂, '.' :: (fraction ++ rest)⟩ : Cursor).bump) rfl hfraction hends
  refine ⟨⟨pos₃, rest⟩, ?_, rfl⟩
  rw [lexNumber, hsign, lexDigits, htake]
  dsimp only
  rw [htake₃]
  rw [hparse]
  rfl

theorem lexString_sound (hquote : quote = '"' ∨ quote = '\'') (hrest : c.rest = quote :: cs)
    (h : lexString src quote c = .ok (t, c')) : c.Reads t c' := by
  unfold lexString at h
  generalize hbody : c.bump.takeWhile (· ≠ quote) = r at h
  obtain ⟨body, c₁⟩ := r
  obtain ⟨hsplit, hall, hbehind⟩ := Cursor.takeWhile_spec hbody
  rw [Cursor.bump_rest hrest] at hsplit
  dsimp only at h
  split at h
  · cases h
  · next x xs hclose =>
    cases h
    have hx : x = quote := by simpa using hbehind x (by rw [hclose]; rfl)
    refine ⟨quote :: body ++ [quote], ?_, .string hquote (by simpa using hall), trivial⟩
    rw [hrest, hsplit, Cursor.bump_rest hclose, hclose, hx]
    simp

theorem lexIdentOrKeyword_sound (hrest : c.rest = b :: cs) (hb : isIdentStart b)
    (h : lexIdentOrKeyword src c = .ok (t, c')) : c.Reads t c' := by
  obtain ⟨⟨text, grouped, c₁⟩, hpath, h⟩ := Except.ok_of_bind h
  cases h
  obtain ⟨hpath, hsplit, hends⟩ := lexPath_sound (Nat.le_refl _) hpath
  refine ⟨text, hsplit, ?_, ends_pathTok.mpr hends⟩
  cases text with
  | nil =>
    -- The first character starts an identifier, so it belongs to the path.
    rw [hsplit, List.nil_append] at hrest
    have hcont : isIdentCont b = false := (hends b (by rw [hrest]; rfl)).1
    simp [isIdentStart, isIdentCont, Char.isAlphanum] at hb hcont
    simp [hcont] at hb
  | cons x xs =>
    rw [hsplit, List.cons_append, List.cons.injEq] at hrest
    rw [← hrest.1] at hb
    exact .path hb hpath

/-- Where `lexToken` finds a token, that token is written, and ends. -/
theorem lexToken_sound (hrest : c.rest = b :: cs) (h : lexToken src b c = .ok (t, c')) :
    c.Reads t c' := by
  have hbump := Cursor.bump_rest hrest
  have single {t : Tok} (hlex : Lexeme t [b]) (hends : t.Ends c.bump.rest.head?) :
      c.Reads t c.bump :=
    ⟨[b], by rw [hrest, hbump]; rfl, hlex, hends⟩
  have double {long short : Tok} (hlong : Lexeme long [b, '=']) (hshort : Lexeme short [b])
      (hlongEnds : ∀ next, long.Ends next)
      (hshortEnds : ∀ next, next ≠ some '=' → short.Ends next)
      (h : lexWithEq c.bump long short = .ok (t, c')) : c.Reads t c' := by
    rcases lexWithEq_sound hrest h with ⟨rfl, hsplit⟩ | ⟨rfl, hsplit, hends⟩
    · exact ⟨[b, '='], hsplit, hlong, hlongEnds _⟩
    · exact ⟨[b], hsplit, hshort, hshortEnds _ hends⟩
  unfold lexToken at h
  rcases ite_eq_iff.mp h with ⟨rfl, h⟩ | ⟨-, h⟩
  · cases h
    exact single .lparen trivial
  rcases ite_eq_iff.mp h with ⟨rfl, h⟩ | ⟨-, h⟩
  · cases h
    exact single .rparen trivial
  rcases ite_eq_iff.mp h with ⟨rfl, h⟩ | ⟨-, h⟩
  · cases h
    exact single .comma trivial
  rcases ite_eq_iff.mp h with ⟨rfl, h⟩ | ⟨-, h⟩
  · cases h
    exact single .and trivial
  rcases ite_eq_iff.mp h with ⟨rfl, h⟩ | ⟨-, h⟩
  · cases h
    exact single .or trivial
  rcases ite_eq_iff.mp h with ⟨rfl, heq⟩ | ⟨-, h⟩
  · split at heq
    · next tail hnext =>
      cases heq
      refine ⟨['=', '='], ?_, .eq, trivial⟩
      rw [hrest, ← hbump, hnext, Cursor.bump_rest hnext]
      rfl
    · cases heq
  rcases ite_eq_iff.mp h with ⟨rfl, h⟩ | ⟨-, h⟩
  · exact double .notEq .not (fun _ => trivial) (fun _ h => h) h
  rcases ite_eq_iff.mp h with ⟨rfl, h⟩ | ⟨-, h⟩
  · exact double .gtEq .gt (fun _ => trivial) (fun _ h => h) h
  rcases ite_eq_iff.mp h with ⟨rfl, h⟩ | ⟨-, h⟩
  · exact double .ltEq .lt (fun _ => trivial) (fun _ h => h) h
  rcases ite_eq_iff.mp h with ⟨hb, h⟩ | ⟨-, h⟩
  · exact lexString_sound (by simpa using hb) hrest h
  rcases ite_eq_iff.mp h with ⟨hb, h⟩ | ⟨-, h⟩
  · exact lexNumber_sound hrest (by simpa using hb) h
  rcases ite_eq_iff.mp h with ⟨hb, h⟩ | ⟨-, h⟩
  · exact lexIdentOrKeyword_sound hrest hb h
  · cases h

/-- A token that begins with none of the fixed characters is a number or a path. -/
theorem lexToken_of_forall_ne (h : ∀ x ∈ "(),&|=!><\"'".toList, b ≠ x) :
    lexToken src b c =
      if b = '-' || b.isDigit then lexNumber src c
      else if isIdentStart b then lexIdentOrKeyword src c
      else .error (lexErr src c.pos
        ("unexpected char `" ++ (Char.ofNat (leadByte b)).toString ++ "`")) := by
  simp only [List.forall_mem_cons, String.reduceToList] at h
  obtain ⟨h₁, h₂, h₃, h₄, h₅, h₆, h₇, h₈, h₉, h₁₀, h₁₁, -⟩ := h
  simp only [lexToken, h₁, h₂, h₃, h₄, h₅, h₆, h₇, h₈, h₉, h₁₀, h₁₁, if_false, decide_false,
    Bool.or_false, Bool.false_eq_true]

theorem lexToken_number (hb : b = '-' ∨ b.isDigit) : lexToken src b c = lexNumber src c := by
  rw [lexToken_of_forall_ne, if_pos (by simpa using hb)]
  rintro x hx rfl
  rcases hb with rfl | hb
  · exact absurd hx (by decide)
  · have hnot := List.all_eq_true.mp (by rfl : "(),&|=!><\"'".toList.all (!·.isDigit) = true) b hx
    simp [hb] at hnot

theorem lexToken_path (hb : isIdentStart b) : lexToken src b c = lexIdentOrKeyword src c := by
  have hne (x : Char) (hx : isIdentStart x = false) : b ≠ x := by
    rintro rfl
    simp [hb] at hx
  have hdigit : b.isDigit = false := by
    by_contra hdigit
    simp only [isIdentStart, Char.isAlpha, Char.isUpper, Char.isLower, Char.isDigit,
      Bool.or_eq_true, Bool.and_eq_true, decide_eq_true_eq, beq_iff_eq, Bool.not_eq_false,
      UInt32.le_iff_toNat_le] at hb hdigit
    rcases hb with (hb | hb) | rfl
    · simp at hb hdigit; omega
    · simp at hb hdigit; omega
    · simp at hdigit
  rw [lexToken_of_forall_ne, if_neg (by simp [hne '-' rfl, hdigit]), if_pos hb]
  intro x hx
  have hnot := List.all_eq_true.mp (by rfl : "(),&|=!><\"'".toList.all (!isIdentStart ·) = true) x hx
  exact hne x (by simpa using hnot)

/-- The first character of a token decides how the rest of it is read. -/
def nextToken (src : String) (c : Cursor) : Except ParseError (Tok × Cursor) :=
  match c.rest with
  | [] => .error (lexErr src c.pos "")
  | b :: _ => lexToken src b c

theorem nextToken_eq (src : String) (hrest : c.rest = b :: cs) :
    nextToken src c = lexToken src b c := by
  rw [nextToken, hrest]

theorem nextToken_number (src : String) (hne : signText negative ++ digits ≠ [])
    (hdigits : ∀ x ∈ digits, x.isDigit) (hrest : c.rest = signText negative ++ digits ++ cs) :
    nextToken src c = lexNumber src c := by
  cases negative with
  | true => rw [nextToken_eq src hrest, lexToken_number (.inl rfl)]
  | false =>
    cases digits with
    | nil => exact absurd rfl hne
    | cons d digits =>
      rw [nextToken_eq src hrest, lexToken_number (.inr (hdigits d List.mem_cons_self))]

/-- Where a token is written, and ends, it is found. -/
theorem nextToken_complete (src : String) (hrest : c.rest = text ++ rest) (htext : Lexeme t text)
    (hends : t.Ends rest.head?) : ∃ c', nextToken src c = .ok (t, c') ∧ c'.rest = rest := by
  cases htext with
  | @string quote body hquote hbody =>
    obtain ⟨c', hread, hc'⟩ := lexString_complete src hrest hbody
    refine ⟨c', ?_, hc'⟩
    rw [nextToken_eq src hrest, ← hread]
    rcases hquote with rfl | rfl
    · rfl
    · rfl
  | @int negative digits i hne hdigits hparse =>
    rw [nextToken_number src hne hdigits hrest]
    exact lexNumber_int src hrest hne hdigits hparse hends
  | @float negative digits fraction x hne hdigits hfraction hparse =>
    rw [nextToken_number src hne hdigits (hrest.trans (List.append_assoc _ _ _))]
    exact lexNumber_float src hrest hne hdigits hfraction hparse hends
  | @path b cs grouped hstart hpath =>
    rw [nextToken_eq src hrest, lexToken_path hstart]
    exact lexIdentOrKeyword_complete src hrest hpath (ends_pathTok.mp hends)
  | _ =>
    -- The tokens of one or two fixed characters.
    obtain ⟨pos, left⟩ := c
    cases hrest
    first
      | exact ⟨_, rfl, rfl⟩
      | exact ⟨_, lexWithEq_short (c := ⟨pos, _ :: rest⟩) hends, rfl⟩

/-! ### The lexer -/

/-- How predicates are written. -/
def lexicon : Lexicon Char Tok where
  space := Text.isAsciiWhitespace
  Lexeme := Lexeme
  Ends := Tok.Ends
  head_lexeme h := by
    obtain ⟨c, hc, hspace⟩ := h.head
    refine ⟨c, hc, ?_⟩
    by_contra hne
    rw [isWhitespace_of_isAsciiWhitespace (by simpa using hne)] at hspace
    cases hspace

/-- The lexer reads what the lexicon writes. -/
theorem lexicon_reader (src : String) :
    lexicon.Reader Cursor.rest (fun c => (c.takeWhile Text.isAsciiWhitespace).2)
      (nextToken src) where
  view_skip _ := rfl
  sound {c t c'} h := by
    cases hrest : c.rest with
    | nil =>
      rw [nextToken, hrest] at h
      cases h
    | cons b cs =>
      rw [nextToken_eq src hrest] at h
      rw [← hrest]
      exact lexToken_sound hrest h
  complete hrest htext hends := nextToken_complete src hrest htext hends

theorem tokenizeAll_eq :
    tokenizeAll src fuel c =
      Lexicon.lexAll Cursor.rest (fun c => (c.takeWhile Text.isAsciiWhitespace).2)
        (nextToken src) fuel c := by
  induction fuel generalizing c with
  | zero => rfl
  | succ fuel ih =>
    rw [tokenizeAll, Lexicon.lexAll]
    generalize (c.takeWhile Text.isAsciiWhitespace).2 = c₁
    cases hrest : c₁.rest with
    | nil => rfl
    | cons b cs =>
      rw [List.isEmpty_cons, if_neg Bool.false_ne_true, nextToken_eq src hrest]
      simp only [ih]

variable {toks : List Tok}

/-- The tokens of a text are the ones it spells. -/
theorem tokenize_eq_ok_iff : tokenize s = .ok toks ↔ lexicon.Spells toks s.toList := by
  rw [tokenize, tokenizeAll_eq]
  exact (lexicon_reader s).lexAll_eq_ok_iff (Nat.lt_succ_self _)

/-- A token in front of others. -/
theorem spells_cons (htext : Lexeme t text) (hends : t.Ends rest.head?)
    (hrest : lexicon.Spells toks rest) : lexicon.Spells (t :: toks) (text ++ rest) :=
  .lexeme htext hends hrest

theorem spells_blank (h : lexicon.Spells toks rest) : lexicon.Spells toks (' ' :: rest) :=
  Lexicon.Spells.space_append (List.forall_mem_singleton.mpr rfl) h

theorem spells_nil : lexicon.Spells [] [] := .nil (List.forall_mem_nil _)

theorem spells_unique (h : lexicon.Spells toks cs) (h' : lexicon.Spells toks' cs) : toks = toks' :=
  (lexicon_reader "").spells_unique (c := ⟨0, cs⟩) h h'

omit [Platform] in
theorem ends_none (t : Tok) : t.Ends none := by
  cases t <;> simp [Tok.Ends, EndsPath]

/-- Trimming a text keeps its tokens. -/
theorem spells_trimChars (h : lexicon.Spells toks cs) : lexicon.Spells toks (Text.trimChars cs) :=
  (h.dropWhile (fun _ => isWhitespace_of_isAsciiWhitespace) Lexeme.head).rdropWhile
    (fun _ => isWhitespace_of_isAsciiWhitespace) ends_none Lexeme.getLast

theorem tokenize_trim (h : tokenize s = .ok toks) : tokenize (Text.trim s) = .ok toks := by
  rw [tokenize_eq_ok_iff] at h ⊢
  rw [Text.trim, String.toList_ofList]
  exact spells_trimChars h

omit [Platform] in
/-- No token goes on over white space. -/
theorem ends_whitespace (t : Tok) {c : Char} (h : Text.isWhitespace c) : t.Ends (some c) := by
  have hne {x : Char} (hx : Text.isWhitespace x = false) : c ≠ x := by
    rintro rfl
    rw [hx] at h
    cases h
  have hcont : isIdentCont c = false := by
    by_contra hcont
    rw [isWhitespace_of_isIdentCont (by simpa using hcont)] at h
    cases h
  have hdigit : c.isDigit = false := by
    by_contra hdigit
    rw [isIdentCont_of_isDigit (by simpa using hdigit)] at hcont
    cases hcont
  have heq : c ≠ '=' := hne rfl
  have hdot : c ≠ '.' := hne rfl
  have hbracket : c ≠ '[' := hne rfl
  cases t <;> simp [Tok.Ends, EndsPath, hcont, hdigit, heq, hdot, hbracket]

/-- What is put behind a text puts its tokens behind the others, if the last of those ends there.
    White space between the two that is not ASCII is an error. -/
theorem tokenize_trim_append (hs : tokenize (Text.trim s) = .ok toks) (hne : toks ≠ [])
    (hx : Text.trim x ≠ "") (hlast : ∀ t ∈ toks.getLast?, t.Ends x.toList.head?)
    (h : tokenize (Text.trim (s ++ x)) = .ok all) :
    ∃ more, more ≠ [] ∧ all = toks ++ more ∧ tokenize (Text.trim x) = .ok more := by
  simp only [tokenize_eq_ok_iff, Text.trim, String.toList_ofList, String.toList_append] at hs h ⊢
  have htrim (cs : List Char) : Text.trimChars cs = cs.trim Text.isWhitespace := rfl
  simp only [htrim] at hs h ⊢
  have hsne : s.toList.trim Text.isWhitespace ≠ [] := by
    intro hnil
    rw [hnil] at hs
    exact hne hs.eq_nil
  have hxne : x.toList.trim Text.isWhitespace ≠ [] := by
    intro hnil
    exact hx (by rw [Text.trim, htrim, hnil])
  obtain ⟨gap, hgap, hjoined, hhead⟩ := List.exists_trim_append hsne hxne
  rw [hjoined] at h
  have hends : ∀ t ∈ toks.getLast?, t.Ends (gap ++ x.toList.trim Text.isWhitespace).head? := by
    intro t ht
    cases hnext : (gap ++ x.toList.trim Text.isWhitespace).head? with
    | none => exact ends_none t
    | some c =>
      rcases hhead c hnext with hc | hc
      · exact ends_whitespace t hc
      · exact Option.mem_def.mp hc ▸ hlast t ht
  obtain ⟨more, rfl, hmore⟩ :=
    (lexicon_reader "").spells_append_inv (fun cs => ⟨⟨0, cs⟩, rfl⟩) hs hends h
  -- The tokens of the rest do not begin in the white space before it.
  have hdrop := hmore.dropWhile (fun _ => isWhitespace_of_isAsciiWhitespace) Lexeme.head
  rw [List.dropWhile_append_of_head hgap List.head?_trim] at hdrop
  refine ⟨more, ?_, rfl, hdrop⟩
  rintro rfl
  obtain ⟨c, cs, hcs⟩ := List.exists_cons_of_ne_nil hxne
  have hc := isWhitespace_of_isAsciiWhitespace (hdrop.forall_space c (by simp [hcs]))
  have hnot := List.head?_trim (p := Text.isWhitespace) (l := x.toList) c (by rw [hcs]; rfl)
  rw [hc] at hnot
  cases hnot

end Cpex
