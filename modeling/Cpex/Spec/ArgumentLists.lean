import Cpex.Native.StepParser

/-! # Argument lists

`split_top_level_commas` cuts the arguments of `delegate(..)`, `deny(..)` and the elicitation calls.
Outside quotes a text is read character by character, and a quoted string is read as a whole; the
commas outside quotes and brackets are where it is cut.
-/

namespace Cpex

/-- What stands behind an open quote: a backslash takes the next character with it. -/
inductive QuoteBody (quote : Char) : List Char → Prop where
  | nil : QuoteBody quote []
  | char (hcs : QuoteBody quote cs) (hquote : c ≠ quote) (hescape : c ≠ '\\') :
      QuoteBody quote (cs ++ [c])
  | escape (hcs : QuoteBody quote cs) (c : Char) : QuoteBody quote (cs ++ ['\\', c])

/-- A text outside quotes: the parts it is cut into so far, the part it is in, and the depth. -/
inductive Reads : List Char → List String → List Char → Nat → Prop where
  | nil : Reads [] [] [] 0
  | comma (h : Reads cs parts current 0) :
      Reads (cs ++ [',']) (parts ++ [String.ofList current]) [] 0
  | plain (h : Reads cs parts current d) (hc : c ∉ ['"', '\'', '[', '(', '{', ']', ')', '}'])
      (hcomma : ¬ (c = ',' ∧ d = 0)) : Reads (cs ++ [c]) parts (current ++ [c]) d
  | opened (h : Reads cs parts current d) (hc : c ∈ ['[', '(', '{']) :
      Reads (cs ++ [c]) parts (current ++ [c]) (d + 1)
  | closed (h : Reads cs parts current (d + 1)) (hc : c ∈ [']', ')', '}']) :
      Reads (cs ++ [c]) parts (current ++ [c]) d
  | quoted (h : Reads cs parts current d) (hquote : quote ∈ ['"', '\''])
      (hbody : QuoteBody quote body) :
      Reads (cs ++ (quote :: body ++ [quote])) parts (current ++ (quote :: body ++ [quote])) d

/-- A quote that is not closed. -/
def Unterminated (rest : List Char) : Prop :=
  ∃ quote ∈ ['"', '\''], ∃ body, QuoteBody quote body ∧
    (rest = quote :: body ∨ rest = quote :: (body ++ ['\\']))

/-- A bracket is closed at depth zero. -/
def ClosesNone (d : Nat) (rest : List Char) : Prop :=
  d = 0 ∧ ∃ c ∈ [']', ')', '}'], ∃ more, rest = c :: more

/-- Every text is read up to an open quote, or a bracket that closes none. -/
theorem exists_reads (cs : List Char) :
    ∃ a rest parts current d, cs = a ++ rest ∧ Reads a parts current d ∧
      (rest = [] ∨ Unterminated rest ∨ ClosesNone d rest) := by
  induction cs using List.reverseRecOn with
  | nil => exact ⟨[], [], [], [], 0, rfl, .nil, .inl rfl⟩
  | append_singleton cs c ih =>
    obtain ⟨a, rest, parts, current, d, rfl, ha, rfl | hopen | ⟨hd, x, hx, more, rfl⟩⟩ := ih
    · rw [List.append_nil]
      by_cases hquote : c ∈ ['"', '\'']
      · exact ⟨a, [c], _, _, _, rfl, ha, .inr (.inl ⟨c, hquote, [], .nil, .inl rfl⟩)⟩
      by_cases hopened : c ∈ ['[', '(', '{']
      · exact ⟨_, [], _, _, _, (List.append_nil _).symm, ha.opened hopened, .inl rfl⟩
      by_cases hclosed : c ∈ [']', ')', '}']
      · cases d with
        | zero => exact ⟨a, [c], _, _, _, rfl, ha, .inr (.inr ⟨rfl, c, hclosed, [], rfl⟩)⟩
        | succ d => exact ⟨_, [], _, _, _, (List.append_nil _).symm, ha.closed hclosed, .inl rfl⟩
      by_cases hcomma : c = ',' ∧ d = 0
      · obtain ⟨rfl, rfl⟩ := hcomma
        exact ⟨_, [], _, _, _, (List.append_nil _).symm, ha.comma, .inl rfl⟩
      · refine ⟨_, [], _, _, _, (List.append_nil _).symm, ha.plain ?_ hcomma, .inl rfl⟩
        simp_all
    · obtain ⟨quote, hquote, body, hbody, rfl | rfl⟩ := hopen
      · by_cases hend : c = quote
        · subst hend
          exact ⟨_, [], _, _, _, by simp, ha.quoted hquote hbody, .inl rfl⟩
        refine ⟨a, quote :: (body ++ [c]), _, _, _, by simp, ha, .inr (.inl ⟨quote, hquote, ?_⟩)⟩
        by_cases hescape : c = '\\'
        · exact ⟨body, hbody, .inr (by rw [hescape])⟩
        · exact ⟨_, hbody.char hend hescape, .inl rfl⟩
      · exact ⟨a, quote :: (body ++ ['\\', c]), _, _, _, by simp, ha,
          .inr (.inl ⟨quote, hquote, _, hbody.escape c, .inl rfl⟩)⟩
    · exact ⟨a, x :: more ++ [c], _, _, _, by simp, ha, .inr (.inr ⟨hd, x, hx, _, rfl⟩)⟩

/-- The parts joined with commas are the text. -/
theorem Reads.join (h : Reads cs parts current d) :
    ",".intercalate (parts ++ [String.ofList current]) = String.ofList cs := by
  have hpush (parts : List String) (current more : List Char) :
      ",".intercalate (parts ++ [String.ofList (current ++ more)]) =
        ",".intercalate (parts ++ [String.ofList current]) ++ String.ofList more := by
    rcases eq_or_ne parts [] with rfl | hne
    · simp
    · simp [String.intercalate_append_of_ne_nil hne, String.append_assoc]
  induction h with
  | nil => rfl
  | comma _ ih =>
    rw [String.intercalate_append_of_ne_nil (by simp) (by simp), ih]
    simp
  | plain _ _ _ ih | opened _ _ ih | closed _ _ ih | quoted _ _ _ ih =>
    rw [hpush, ih]
    exact String.ofList_append.symm

/-- The scan behind an open quote. -/
theorem QuoteBody.scan (h : QuoteBody quote body) (hquote : quote ∈ ['"', '\'']) :
    (quote :: body).foldlM CommaScan.step ⟨parts, current, d, none, false⟩ =
      .ok ⟨parts, current ++ quote :: body, d, some quote, false⟩ := by
  induction h with
  | nil =>
    simp only [List.mem_cons, List.not_mem_nil, or_false] at hquote
    simp [CommaScan.step, hquote]
  | char _ hne hescape ih =>
    rw [← List.cons_append, List.foldlM_append_of_ok ih]
    simp [CommaScan.step, hne, hescape]
  | escape _ c ih =>
    rw [← List.cons_append, List.foldlM_append_of_ok ih]
    simp [CommaScan.step, bind, Except.bind]
    rfl

theorem Reads.scan (h : Reads cs parts current d) :
    cs.foldlM CommaScan.step {} = .ok ⟨parts, current, d, none, false⟩ := by
  induction h with
  | nil => rfl
  | comma _ ih =>
    rw [List.foldlM_append_of_ok ih]
    simp [CommaScan.step]
  | plain _ hc hcomma ih =>
    rw [List.foldlM_append_of_ok ih]
    simp only [List.mem_cons, List.not_mem_nil, or_false, not_or] at hc
    simp [CommaScan.step, hc, hcomma]
  | opened _ hc ih | closed _ hc ih =>
    rw [List.foldlM_append_of_ok ih]
    simp only [List.mem_cons, List.not_mem_nil, or_false] at hc
    rcases hc with rfl | rfl | rfl <;> simp [CommaScan.step]
  | quoted _ hquote hbody ih =>
    rw [List.foldlM_append_of_ok ih, List.foldlM_append_of_ok (hbody.scan hquote)]
    simp only [List.mem_cons, List.not_mem_nil, or_false] at hquote
    rcases hquote with rfl | rfl <;> simp [CommaScan.step]

/-- A quote that is not closed, a bracket that closes none, or one that stays open. -/
def Malformed (cs : List Char) : Prop :=
  ∃ a rest parts current d, cs = a ++ rest ∧ Reads a parts current d ∧
    (Unterminated rest ∨ ClosesNone d rest ∨ (rest = [] ∧ d ≠ 0))

theorem Malformed.error {input : String} (h : Malformed input.toList) :
    ∃ e, splitTopLevelCommas input = .error e := by
  obtain ⟨a, rest, parts, current, d, hinput, ha, hbad⟩ := h
  rw [splitTopLevelCommas, hinput, List.foldlM_append_of_ok ha.scan]
  rcases hbad with ⟨quote, hquote, body, hbody, rfl | rfl⟩ | ⟨rfl, c, hc, more, rfl⟩ | ⟨rfl, hd⟩
  · rw [hbody.scan hquote]
    exact ⟨_, rfl⟩
  · rw [← List.cons_append, List.foldlM_append_of_ok (hbody.scan hquote)]
    exact ⟨_, by simp [CommaScan.step]; rfl⟩
  · simp only [List.mem_cons, List.not_mem_nil, or_false] at hc
    rcases hc with rfl | rfl | rfl <;> exact ⟨_, rfl⟩
  · exact ⟨_, if_pos hd⟩

/-- An accepted text is cut at its commas outside quotes and outside all brackets, and at no other
    place; rejected are the texts with a quote that is not closed, with a bracket that is closed at
    depth zero, and those that do not end at depth zero. -/
theorem splitTopLevelCommas_exact (input : String) :
    (∀ parts, splitTopLevelCommas input = .ok parts →
      ",".intercalate parts = input ∧ ∃ before last,
        parts = before ++ [String.ofList last] ∧ Reads input.toList before last 0) ∧
    ((∃ e, splitTopLevelCommas input = .error e) ↔ Malformed input.toList) := by
  have hcases : Malformed input.toList ∨ ∃ before last, Reads input.toList before last 0 ∧
      splitTopLevelCommas input = .ok (before ++ [String.ofList last]) := by
    obtain ⟨a, rest, parts, current, d, hinput, ha, rfl | hrest⟩ := exists_reads input.toList
    · by_cases hd : d = 0
      · subst hd
        rw [List.append_nil] at hinput
        exact .inr ⟨parts, current, hinput ▸ ha, by rw [splitTopLevelCommas, hinput, ha.scan]; rfl⟩
      · exact .inl ⟨a, [], parts, current, d, hinput, ha, .inr (.inr ⟨rfl, hd⟩)⟩
    · exact .inl ⟨a, rest, parts, current, d, hinput, ha, hrest.imp_right .inl⟩
  rcases hcases with hbad | ⟨before, last, hreads, hok⟩
  · obtain ⟨e, he⟩ := hbad.error
    refine ⟨fun parts h => ?_, fun _ => hbad, fun _ => ⟨e, he⟩⟩
    cases he.symm.trans h
  · refine ⟨fun parts h => ?_, fun h => ?_, Malformed.error⟩
    · cases hok.symm.trans h
      exact ⟨hreads.join.trans String.ofList_toList, before, last, rfl, hreads⟩
    · obtain ⟨e, he⟩ := h
      cases hok.symm.trans he

theorem splitTopLevelCommas_exact_call :
    ∃ before last, ["a", "f(b,c)"] = before ++ [String.ofList last] ∧
      Reads "a,f(b,c)".toList before last 0 :=
  ((splitTopLevelCommas_exact "a,f(b,c)").1 _ rfl).2

end Cpex
