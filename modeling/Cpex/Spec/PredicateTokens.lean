import Cpex.Spec.PredicateLexer

/-! # The tokens of a predicate

Tokens written down as text. The attribute keys are the texts that the lexer takes for one
identifier; every token that can be written at all reads back as itself, in any list of them.
-/

namespace Cpex

variable [Platform]

/-! ### Attribute keys -/

/-- The lexable attribute paths that are no keyword. -/
def IsKey (k : String) : Prop := tokenize k = .ok [.ident k]

instance decidableIsKey (k : String) : Decidable (IsKey k) := inferInstanceAs (Decidable (_ = _))

variable {s k : String}

omit [Platform] in
theorem eq_of_pathTok_eq_ident (h : pathTok b s = .ident k) : s = k := by
  unfold pathTok at h
  repeat' split at h
  all_goals cases h
  all_goals rfl

theorem Lexeme.ident_text (h : Lexeme (.ident k) text) : text = k.toList := by
  generalize ht : Tok.ident k = t at h
  cases h with
  | path hstart hpath => rw [← eq_of_pathTok_eq_ident ht.symm, String.toList_ofList]
  | _ => cases ht

theorem IsKey.lexeme (h : IsKey k) : Lexeme (.ident k) k.toList := by
  have hspells := tokenize_eq_ok_iff.mp h
  generalize hcs : k.toList = cs at hspells
  cases hspells with
  | @cons gap text rest t ts hgap htext hends hrest =>
    have htext' : Lexeme (.ident k) text := htext
    rwa [← hcs, ← htext'.ident_text]

/-- A key begins with a letter or an underscore. -/
theorem IsKey.head (h : IsKey k) : ∃ c ∈ k.toList.head?, isIdentStart c := by
  have hlexeme := h.lexeme
  generalize hcs : k.toList = cs at hlexeme ⊢
  generalize ht : Tok.ident k = t at hlexeme
  cases hlexeme with
  | path hstart hpath => exact ⟨_, rfl, hstart⟩
  | _ => cases ht

/-! ### Writing tokens -/

/-- A string between quotes that it does not contain. -/
def quoted (s : String) : String :=
  if '"' ∈ s.toList then "'" ++ s ++ "'" else "\"" ++ s ++ "\""

/-- The text of a token; a float has none here, since `Platform` reads it. -/
def Tok.text : Tok → String
  | .ident s => s
  | .stringLit s => quoted s
  | .intLit i => String.ofList (signText (i < 0) ++ Nat.toDigits 10 i.natAbs)
  | .floatLit _ => ""
  | .boolLit true => "true"
  | .boolLit false => "false"
  | .eq => "=="
  | .notEq => "!="
  | .gt => ">"
  | .gtEq => ">="
  | .lt => "<"
  | .ltEq => "<="
  | .and => "&"
  | .or => "|"
  | .not => "!"
  | .lparen => "("
  | .rparen => ")"
  | .comma => ","
  | .contains => "contains"
  | .require => "require"
  | .exists => "exists"
  | .in => "in"

/-- The tokens that can be written: keys, strings with one kind of quotes at most, and integers in
    the range of `i64`, beside the fixed ones. -/
def Tok.Writable : Tok → Prop
  | .ident s => IsKey s
  | .stringLit s => '"' ∉ s.toList ∨ '\'' ∉ s.toList
  | .intLit i => -2 ^ 63 ≤ i ∧ i < 2 ^ 63
  | .floatLit _ => False
  | _ => True

theorem writable_ident : (Tok.ident s).Writable ↔ IsKey s := by
  rw [Tok.Writable]

omit [Platform] in
theorem parseI64Chars_of_digits (h : Text.parseDigits cs = some n) :
    Text.parseI64Chars cs =
      if -2 ^ 63 ≤ (n : Int) ∧ (n : Int) < 2 ^ 63 then some (n : Int) else none := by
  have hdigits : ∀ c ∈ cs, c.isDigit := by
    unfold Text.parseDigits at h
    split at h
    · next hcs => exact List.all_eq_true.mp hcs.2
    · cases h
  unfold Text.parseI64Chars
  split
  · exact absurd (hdigits '-' List.mem_cons_self) (by decide)
  · exact absurd (hdigits '+' List.mem_cons_self) (by decide)
  · rw [h, Option.bind_some]

variable {t : Tok}

omit [Platform] in
theorem parseI64_text (h : -2 ^ 63 ≤ i ∧ i < 2 ^ 63) :
    Text.parseI64 (String.ofList (signText (i < 0) ++ Nat.toDigits 10 i.natAbs)) = some i := by
  have hdigits : Text.parseDigits (Nat.toDigits 10 i.natAbs) = some i.natAbs := by
    have hall : (Nat.toDigits 10 i.natAbs).all Char.isDigit :=
      List.all_eq_true.mpr fun c hc => Nat.isDigit_of_mem_toDigits (by decide) (by decide) hc
    rw [Text.parseDigits, if_pos ⟨Nat.toDigits_ne_nil, hall⟩]
    exact congrArg some (Nat.ofDigitChars_toDigits (by decide) (by decide))
  rw [Text.parseI64, String.toList_ofList]
  by_cases hneg : i < 0
  · have habs : -(i.natAbs : Int) = i := by omega
    rw [signText, if_pos (by simpa using hneg), List.singleton_append]
    simp only [Text.parseI64Chars]
    rw [hdigits, Option.bind_some, habs, if_pos h]
  · have habs : (i.natAbs : Int) = i := by omega
    rw [signText, if_neg (by simpa using hneg), List.nil_append, parseI64Chars_of_digits hdigits,
      habs, if_pos h]

/-- A keyword, or a word that is none, on its own. -/
theorem lexeme_word (hs : pathTok false s = t) (hstart : ∃ c ∈ s.toList.head?, isIdentStart c)
    (hcont : s.toList.all isIdentCont = true) : Lexeme t s.toList := by
  obtain ⟨c, hc, hstart⟩ := hstart
  obtain ⟨cs, hcs⟩ := List.head?_eq_some_iff.mp hc
  have hlexeme := Lexeme.path hstart (.run (by rwa [← hcs, ← List.all_eq_true]))
  rwa [← hcs, String.ofList_toList, hs] at hlexeme

omit [Platform] in
theorem toList_quoted (h : '"' ∉ s.toList ∨ '\'' ∉ s.toList) :
    ∃ quote, (quote = '"' ∨ quote = '\'') ∧ (∀ c ∈ s.toList, c ≠ quote) ∧
      (quoted s).toList = quote :: s.toList ++ [quote] := by
  unfold quoted
  by_cases hdouble : '"' ∈ s.toList
  · refine ⟨'\'', .inr rfl, ?_, by simp [hdouble]⟩
    rintro c hc rfl
    exact h.elim (fun h => h hdouble) (fun h => h hc)
  · refine ⟨'"', .inl rfl, ?_, by simp [hdouble]⟩
    rintro c hc rfl
    exact hdouble hc

/-- A token that can be written is written by its text. -/
theorem Tok.Writable.lexeme (h : t.Writable) : Lexeme t t.text.toList := by
  cases t with
  | ident s =>
    exact h.lexeme
  | stringLit s =>
    obtain ⟨quote, hquote, hbody, htext⟩ := toList_quoted h
    have hlexeme := Lexeme.string hquote hbody
    rw [String.ofList_toList] at hlexeme
    rwa [Tok.text, htext]
  | intLit i =>
    have hne : signText (i < 0) ++ Nat.toDigits 10 i.natAbs ≠ [] := by simp [Nat.toDigits_ne_nil]
    rw [Tok.text, String.toList_ofList]
    exact .int hne (fun c hc => Nat.isDigit_of_mem_toDigits (by decide) (by decide) hc)
      (parseI64_text h)
  | floatLit x => exact h.elim
  | boolLit b =>
    cases b with
    | true => exact lexeme_word rfl ⟨'t', rfl, rfl⟩ (by decide)
    | false => exact lexeme_word rfl ⟨'f', rfl, rfl⟩ (by decide)
  | contains => exact lexeme_word rfl ⟨'c', rfl, rfl⟩ (by decide)
  | require => exact lexeme_word rfl ⟨'r', rfl, rfl⟩ (by decide)
  | «exists» => exact lexeme_word rfl ⟨'e', rfl, rfl⟩ (by decide)
  | «in» => exact lexeme_word rfl ⟨'i', rfl, rfl⟩ (by decide)
  | _ => constructor

/-- The pairs of tokens that are written without a blank between them. -/
def tight : Tok → Tok → Bool
  | .lparen, _ | _, .rparen | _, .comma => true
  | .exists, .lparen | .require, .lparen => true
  | .not, .lparen | .not, .not | .not, .exists | .not, .ident _ => true
  | _, _ => false

/-- Tokens written one after the other. -/
def layout : List Tok → String
  | [] => ""
  | [t] => t.text
  | t :: u :: toks => t.text ++ (if tight t u then "" else " ") ++ layout (u :: toks)

omit [Platform] in
/-- Every token ends before a blank, a closing parenthesis and a comma. -/
theorem ends_of_separator (t : Tok) {c : Char} (h : c = ' ' ∨ c = ')' ∨ c = ',') :
    t.Ends (some c) := by
  rcases h with rfl | rfl | rfl <;> cases t <;> simp [Tok.Ends, EndsPath] <;> decide

/-- Where there is no blank, the next token does not go on with the one before. -/
theorem ends_of_tight (h : tight t u) (hu : u.Writable) : t.Ends u.text.toList.head? := by
  unfold tight at h
  split at h
  · trivial
  · exact ends_of_separator _ (.inr (.inl rfl))
  · exact ends_of_separator _ (.inr (.inr rfl))
  · rintro c ⟨⟩
    decide
  · rintro c ⟨⟩
    decide
  · rintro ⟨⟩
  · rintro ⟨⟩
  · rintro ⟨⟩
  · next s =>
    obtain ⟨c, hc, hstart⟩ := hu.head
    rw [Tok.text, Option.mem_def.mp hc]
    rintro ⟨⟩
    exact absurd hstart (by decide)
  · cases h

/-- What is written reads back. -/
theorem spells_layout (h : ∀ t ∈ toks, t.Writable) :
    lexicon.Spells toks (layout toks).toList := by
  induction toks with
  | nil => exact spells_nil
  | cons t toks ih =>
    obtain ⟨ht, htoks⟩ := List.forall_mem_cons.mp h
    cases toks with
    | nil =>
      rw [layout, ← List.append_nil t.text.toList]
      exact spells_cons ht.lexeme (ends_none t) spells_nil
    | cons u toks =>
      have hu := htoks u List.mem_cons_self
      have hnext : (layout (u :: toks)).toList.head? = u.text.toList.head? := by
        obtain ⟨c, hc, -⟩ := hu.lexeme.head
        obtain ⟨cs, hcs⟩ := List.head?_eq_some_iff.mp hc
        cases toks with
        | nil => rfl
        | cons v toks => simp [layout, hcs]
      rw [layout, String.toList_append, String.toList_append]
      split
      · next htight =>
        rw [String.toList_empty, List.append_nil]
        exact spells_cons ht.lexeme (hnext ▸ ends_of_tight htight hu) (ih htoks)
      · rw [List.append_assoc]
        exact spells_cons ht.lexeme (ends_of_separator t (.inl rfl)) (spells_blank (ih htoks))

theorem tokenize_layout (h : ∀ t ∈ toks, t.Writable) :
    tokenize (layout toks) = .ok toks :=
  tokenize_eq_ok_iff.mpr (spells_layout h)

end Cpex
