import Cpex.ForStd.Except
import Cpex.ForStd.Trim

/-! # Lexers

A lexer reads a text token by token: it skips space, reads the one token that stands there, and
goes on behind it. A `Lexicon` says how the tokens are written, one lookahead character included,
and `Lexicon.Spells` which token lists a text stands for. A lexer that reads single tokens the way
the lexicon writes them (`Lexicon.Reader`) finds exactly the tokens that the text spells.
-/

/-- How tokens are written: what may stand between two of them, the texts of each, and whether it
    ends where the given character, or the end of the text, follows. -/
structure Lexicon (α τ : Type) where
  space : α → Bool
  Lexeme : τ → List α → Prop
  Ends : τ → Option α → Prop
  /-- A token is not empty, and does not begin with space. -/
  head_lexeme : ∀ {t text}, Lexeme t text → ∃ a ∈ text.head?, space a = false

namespace Lexicon

variable {α τ : Type} (L : Lexicon α τ)

/-- The token lists that a text stands for. -/
inductive Spells : List τ → List α → Prop where
  | nil {gap : List α} (hgap : ∀ a ∈ gap, L.space a) : Spells [] gap
  | cons {gap text rest : List α} {t : τ} {ts : List τ} (hgap : ∀ a ∈ gap, L.space a)
      (htext : L.Lexeme t text) (hends : L.Ends t rest.head?) (hrest : Spells ts rest) :
      Spells (t :: ts) (gap ++ text ++ rest)

namespace Spells

variable {L} {ts us : List τ} {a b : List α}

/-- Every token has a lexeme in the text. -/
theorem exists_lexeme (h : L.Spells ts a) (ht : t ∈ ts) : ∃ text, L.Lexeme t text := by
  induction h with
  | nil => cases ht
  | cons _ htext _ _ ih =>
    rcases List.mem_cons.mp ht with rfl | ht
    · exact ⟨_, htext⟩
    · exact ih ht

/-- A token without space before it. -/
theorem lexeme (htext : L.Lexeme t text) (hends : L.Ends t rest.head?) (hrest : L.Spells ts rest) :
    L.Spells (t :: ts) (text ++ rest) :=
  @cons _ _ L [] _ _ _ _ (List.forall_mem_nil _) htext hends hrest

/-- Space in front changes nothing. -/
theorem space_append (hgap : ∀ a ∈ gap, L.space a) (h : L.Spells ts b) :
    L.Spells ts (gap ++ b) := by
  cases h with
  | nil hb => exact nil fun a ha => (List.mem_append.mp ha).elim (hgap a) (hb a)
  | cons hb htext hends hrest =>
    rw [List.append_assoc, ← List.append_assoc, ← List.append_assoc]
    exact cons (fun a ha => (List.mem_append.mp ha).elim (hgap a) (hb a)) htext hends hrest

theorem forall_space (h : L.Spells [] a) : ∀ c ∈ a, L.space c := by
  cases h with
  | nil hgap => exact hgap

theorem eq_nil (h : L.Spells ts []) : ts = [] := by
  generalize hcs : ([] : List α) = cs at h
  cases h with
  | nil _ => rfl
  | cons _ htext _ _ =>
    obtain ⟨a, ha, -⟩ := L.head_lexeme htext
    have htext := (List.append_eq_nil_iff.mp (List.append_eq_nil_iff.mp hcs.symm).1).2
    rw [htext] at ha
    cases ha

/-- Nor does leaving out space in front. -/
theorem of_space_append (hgap : ∀ a ∈ gap, L.space a) (h : L.Spells ts (gap ++ b)) :
    L.Spells ts b := by
  induction gap with
  | nil => exact h
  | cons c gap ih =>
    obtain ⟨hc, hgap⟩ := List.forall_mem_cons.mp hgap
    apply ih hgap
    generalize hcs : c :: gap ++ b = cs at h
    cases h with
    | nil hcs' =>
      rw [← hcs, List.cons_append, List.forall_mem_cons] at hcs'
      exact nil hcs'.2
    | @cons gap' text rest t ts hgap' htext hends hrest =>
      cases gap' with
      | nil =>
        -- The space would be the first character of a token.
        obtain ⟨a, ha, hspace⟩ := L.head_lexeme htext
        obtain ⟨text, rfl⟩ := List.head?_eq_some_iff.mp ha
        rw [(List.cons.inj hcs).1, hspace] at hc
        cases hc
      | cons c' gap' =>
        have hcs' : gap ++ b = gap' ++ text ++ rest := (List.cons.inj hcs).2
        rw [hcs']
        exact cons (List.forall_mem_cons.mp hgap').2 htext hends hrest

variable {p : α → Bool}

/-- Dropping what stands in front of the first token keeps the tokens. -/
theorem dropWhile (hspace : ∀ a, L.space a → p a)
    (hhead : ∀ {t text}, L.Lexeme t text → ∃ a ∈ text.head?, p a = false) (h : L.Spells ts a) :
    L.Spells ts (a.dropWhile p) := by
  cases h with
  | nil hgap =>
    rw [List.dropWhile_eq_nil_iff.mpr fun a ha => hspace a (hgap a ha)]
    exact nil (List.forall_mem_nil _)
  | @cons gap text rest t ts hgap htext hends hrest =>
    obtain ⟨b, hb, hpb⟩ := hhead htext
    obtain ⟨text, rfl⟩ := List.head?_eq_some_iff.mp hb
    have hdrop : (gap ++ b :: text ++ rest).dropWhile p = b :: text ++ rest := by
      rw [List.append_assoc]
      refine List.dropWhile_append_of_head (fun a ha => hspace a (hgap a ha)) fun a ha => ?_
      cases ha
      exact hpb
    rw [hdrop]
    exact lexeme htext hends hrest

/-- Dropping what stands behind the last token keeps the tokens. -/
theorem rdropWhile (hspace : ∀ a, L.space a → p a) (hnone : ∀ t, L.Ends t none)
    (hlast : ∀ {t text}, L.Lexeme t text → ∃ a ∈ text.getLast?, p a = false) (h : L.Spells ts a) :
    L.Spells ts (a.rdropWhile p) := by
  induction h with
  | nil hgap =>
    rw [List.rdropWhile_eq_nil_iff.mpr fun a ha => hspace a (hgap a ha)]
    exact nil (List.forall_mem_nil _)
  | @cons gap text rest t ts hgap htext hends hrest ih =>
    obtain ⟨b, hb, hpb⟩ := hlast htext
    obtain ⟨text, rfl⟩ := List.getLast?_eq_some_iff.mp hb
    -- The last character of the token stays, so only `rest` is cut.
    rw [← List.append_assoc, List.rdropWhile_append_of_last hpb, List.append_assoc gap]
    refine cons hgap htext ?_ ih
    obtain ⟨cut, hcut⟩ := List.rdropWhile_prefix p rest
    rcases hkept : rest.rdropWhile p with _ | ⟨c, kept⟩
    · exact hnone t
    · rw [hkept] at hcut
      rw [← hcut] at hends
      exact hends

end Spells

/-! ### The loop -/

variable {σ ε : Type}

/-- Read tokens until nothing but space is left; `view` is what is left to read. -/
def lexAll (view : σ → List α) (skip : σ → σ) (next : σ → Except ε (τ × σ)) :
    Nat → σ → Except ε (List τ)
  | 0, _ => .ok []
  | fuel + 1, c =>
    if (view (skip c)).isEmpty then .ok []
    else do
      let (t, c) ← next (skip c)
      let ts ← lexAll view skip next fuel c
      .ok (t :: ts)

/-- Reading one token, and skipping space, as the lexicon says. -/
structure Reader (view : σ → List α) (skip : σ → σ) (next : σ → Except ε (τ × σ)) : Prop where
  view_skip : ∀ c, view (skip c) = (view c).dropWhile L.space
  sound : ∀ {c t c'}, next c = .ok (t, c') →
    ∃ text, view c = text ++ view c' ∧ L.Lexeme t text ∧ L.Ends t (view c').head?
  complete : ∀ {c t text rest}, view c = text ++ rest → L.Lexeme t text → L.Ends t rest.head? →
    ∃ c', next c = .ok (t, c') ∧ view c' = rest

namespace Reader

variable {L} {view : σ → List α} {skip : σ → σ} {next : σ → Except ε (τ × σ)}

/-- Every token is at least one character, so a fuel above the length of the text is enough. -/
theorem lexAll_eq_ok_iff (h : L.Reader view skip next) (hfuel : (view c).length < fuel)
    {ts : List τ} :
    lexAll view skip next fuel c = .ok ts ↔ L.Spells ts (view c) := by
  constructor
  · intro hlex
    induction fuel generalizing c ts with
    | zero => exact absurd hfuel (Nat.not_lt_zero _)
    | succ fuel ih =>
      have hgap : ∀ a ∈ (view c).takeWhile L.space, L.space a :=
        fun a ha => List.mem_takeWhile_imp ha
      have hsplit : view c = (view c).takeWhile L.space ++ view (skip c) := by
        rw [h.view_skip, List.takeWhile_append_dropWhile]
      rw [lexAll] at hlex
      rw [hsplit]
      split at hlex
      · next hempty =>
        cases hlex
        rw [List.isEmpty_iff.mp hempty, List.append_nil]
        exact .nil hgap
      · obtain ⟨⟨t, c'⟩, hnext, hlex⟩ := Except.ok_of_bind hlex
        obtain ⟨ts', hts', hlex⟩ := Except.ok_of_bind hlex
        cases hlex
        obtain ⟨text, hview, htext, hends⟩ := h.sound hnext
        have hpos : 0 < text.length := by
          obtain ⟨a, ha, -⟩ := L.head_lexeme htext
          exact List.length_pos_of_ne_nil (List.ne_nil_of_mem (List.mem_of_mem_head? ha))
        have hlen := congrArg List.length hsplit
        rw [hview] at hlen ⊢
        simp only [List.length_append] at hlen
        rw [← List.append_assoc]
        exact .cons hgap htext hends (ih (by omega) hts')
  · intro hspells
    generalize hview : view c = cs at hspells
    rw [hview] at hfuel
    induction hspells generalizing fuel c with
    | @nil gap hgap =>
      cases fuel with
      | zero => rfl
      | succ fuel =>
        rw [lexAll, h.view_skip, hview, List.dropWhile_eq_nil_iff.mpr hgap]
        rfl
    | @cons gap text rest t ts hgap htext hends hrest ih =>
      obtain ⟨fuel, rfl⟩ : ∃ n, fuel = n + 1 := ⟨fuel - 1, by omega⟩
      obtain ⟨a, ha, hspace⟩ := L.head_lexeme htext
      obtain ⟨text', rfl⟩ : ∃ text', text = a :: text' := List.head?_eq_some_iff.mp ha
      -- The space is skipped up to the token, which does not begin with space.
      have hskip : view (skip c) = (a :: text') ++ rest := by
        rw [h.view_skip, hview, List.append_assoc]
        exact List.dropWhile_append_of_head hgap fun b hb => by
          rw [List.cons_append, List.head?_cons, Option.mem_some_iff] at hb
          exact hb ▸ hspace
      obtain ⟨c', hnext, hc'⟩ := h.complete hskip htext hends
      have hlen : rest.length < fuel := by
        simp only [List.length_append, List.length_cons] at hfuel
        omega
      have hrec := ih hlen hc'
      rw [lexAll, hskip, List.cons_append, List.isEmpty_cons, if_neg Bool.false_ne_true, hnext]
      change (lexAll view skip next fuel c' >>= fun ts => .ok (t :: ts)) = _
      rw [hrec]
      rfl

/-- A text spells one token list at most. -/
theorem spells_unique (h : L.Reader view skip next) (hts : L.Spells ts (view c))
    (hus : L.Spells us (view c)) : ts = us := by
  have hts' := (h.lexAll_eq_ok_iff (Nat.lt_succ_self _)).mpr hts
  have hus' := (h.lexAll_eq_ok_iff (Nat.lt_succ_self _)).mpr hus
  exact Except.ok.inj (hts'.symm.trans hus')

/-- The token that a text begins with is the first of its tokens. -/
theorem spells_lexeme_inv (h : L.Reader view skip next) (hview : ∀ cs, ∃ c, view c = cs)
    (htext : L.Lexeme t text) (hends : L.Ends t rest.head?) (hus : L.Spells us (text ++ rest)) :
    ∃ vs, us = t :: vs ∧ L.Spells vs rest := by
  obtain ⟨c, hc⟩ := hview (text ++ rest)
  rw [← hc] at hus
  have hlex := (h.lexAll_eq_ok_iff (Nat.lt_succ_self _)).mpr hus
  obtain ⟨a, ha, hspace⟩ := L.head_lexeme htext
  obtain ⟨text, rfl⟩ := List.head?_eq_some_iff.mp ha
  have hskip : view (skip c) = a :: text ++ rest := by
    rw [h.view_skip, hc, List.cons_append, List.dropWhile_cons_of_neg (by simp [hspace])]
  obtain ⟨c', hnext, hc'⟩ := h.complete hskip htext hends
  rw [lexAll, hskip, List.cons_append, List.isEmpty_cons, if_neg Bool.false_ne_true] at hlex
  obtain ⟨found, hfound, hlex⟩ := Except.ok_of_bind hlex
  obtain ⟨vs, hvs, hlex⟩ := Except.ok_of_bind hlex
  rw [hnext] at hfound
  cases hfound
  cases hlex
  refine ⟨vs, rfl, ?_⟩
  rw [← hc']
  refine (h.lexAll_eq_ok_iff ?_).mp hvs
  rw [hc, hc', List.length_append, List.length_cons]
  omega

/-- A text in front of another has its own tokens, if the last of them ends there. -/
theorem spells_append_inv (h : L.Reader view skip next) (hview : ∀ cs, ∃ c, view c = cs)
    (ha : L.Spells ts a) (hlast : ∀ t ∈ ts.getLast?, L.Ends t b.head?) (hab : L.Spells us (a ++ b)) :
    ∃ vs, us = ts ++ vs ∧ L.Spells vs b := by
  induction ha generalizing us with
  | nil hgap => exact ⟨us, rfl, hab.of_space_append hgap⟩
  | @cons gap text rest t ts hgap htext hends hrest ih =>
    have hrestEnds : L.Ends t (rest ++ b).head? := by
      cases rest with
      | cons c rest => exact hends
      | nil =>
        -- Nothing is left, so this is the last token.
        rw [hrest.eq_nil] at hlast
        exact hlast t rfl
    rw [List.append_assoc, List.append_assoc] at hab
    obtain ⟨us, rfl, hus⟩ := h.spells_lexeme_inv hview htext hrestEnds (hab.of_space_append hgap)
    have hlast' : ∀ t' ∈ ts.getLast?, L.Ends t' b.head? := fun t' ht' => hlast t' <| by
      rw [Option.mem_def, List.getLast?_cons, Option.mem_def.mp ht']
      rfl
    obtain ⟨vs, rfl, hvs⟩ := ih hlast' hus
    exact ⟨vs, rfl, hvs⟩

end Reader

end Lexicon
