import Mathlib.Data.List.Basic
import Mathlib.Data.String.Basic

/-! # Texts joined by a separator

Two parts joined by a separator that may also occur inside them do not determine the parts: the
boundary can be read at any separator of the text.
-/

namespace List

variable {α : Type*}

/-- Two pairs joined by `c` are the same text, and their first parts differ, exactly if one first
    part continues into the other past a separator. -/
theorem append_cons_eq_iff {c : α} {r s : List α} (hne : x ≠ y) :
    x ++ c :: r = y ++ c :: s ↔
      (∃ t, y = x ++ c :: t ∧ r = t ++ c :: s) ∨ ∃ t, x = y ++ c :: t ∧ s = t ++ c :: r := by
  constructor
  · intro h
    rcases append_eq_append_iff.mp h with ⟨t, hy, hr⟩ | ⟨t, hx, hs⟩
    · cases t with
      | nil =>
        rw [append_nil] at hy
        exact absurd hy.symm hne
      | cons d t =>
        obtain ⟨rfl, htail⟩ := cons_eq_cons.mp (hr.trans (cons_append ..))
        exact .inl ⟨t, hy, htail⟩
    · cases t with
      | nil =>
        rw [append_nil] at hx
        exact absurd hx hne
      | cons d t =>
        obtain ⟨rfl, htail⟩ := cons_eq_cons.mp (hs.trans (cons_append ..))
        exact .inr ⟨t, hx, htail⟩
  · rintro (⟨t, rfl, rfl⟩ | ⟨t, rfl, rfl⟩)
    · rw [append_assoc, cons_append]
    · rw [append_assoc, cons_append]

end List

namespace String

variable {sep : String} {c : Char}

theorem toList_append_sep (hsep : sep.toList = [c]) (x r : String) :
    (x ++ sep ++ r).toList = x.toList ++ c :: r.toList := by
  rw [toList_append, toList_append, hsep, List.append_assoc, List.singleton_append]

/-- A text does not go on after itself. -/
theorem ne_append_sep (hsep : sep.toList = [c]) (x r : String) : x ≠ x ++ sep ++ r := by
  intro h
  have hlength := congrArg (fun s => s.toList.length) h
  simp only [toList_append_sep hsep, List.length_append, List.length_cons] at hlength
  omega

/-- The same for strings. -/
theorem append_sep_eq_iff (hsep : sep.toList = [c]) {r s : String} (hne : x ≠ y) :
    x ++ sep ++ r = y ++ sep ++ s ↔
      (∃ t, y = x ++ sep ++ t ∧ r = t ++ sep ++ s) ∨
        ∃ t, x = y ++ sep ++ t ∧ s = t ++ sep ++ r := by
  have hne' : x.toList ≠ y.toList := fun h => hne (toList_inj.mp h)
  -- A text between the parts is a string exactly as well as a character list.
  have hbetween : ∀ a b d e : String,
      (∃ t, a.toList = b.toList ++ c :: t ∧ d.toList = t ++ c :: e.toList) ↔
        ∃ t, a = b ++ sep ++ t ∧ d = t ++ sep ++ e := by
    intro a b d e
    constructor
    · rintro ⟨t, ha, hd⟩
      refine ⟨ofList t, toList_inj.mp ?_, toList_inj.mp ?_⟩
      · rw [toList_append_sep hsep, toList_ofList, ha]
      · rw [toList_append_sep hsep, toList_ofList, hd]
    · rintro ⟨t, rfl, rfl⟩
      exact ⟨t.toList, toList_append_sep hsep b t, toList_append_sep hsep t e⟩
  rw [← toList_inj, toList_append_sep hsep, toList_append_sep hsep, List.append_cons_eq_iff hne',
    hbetween, hbetween]

end String
