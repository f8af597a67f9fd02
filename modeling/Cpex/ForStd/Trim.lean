import Mathlib.Data.List.DropRight
import Mathlib.Data.List.TakeWhile

/-! # Runs at the ends of a list

What `takeWhile`, `dropWhile` and `rdropWhile` take from a list whose parts are known, and
`List.trim`, which drops a run at both ends. -/

namespace List

variable {α : Type*} {p : α → Bool} {l r : List α}

/-- A run ends at the first element outside it. -/
theorem takeWhile_append_of_head (hl : ∀ a ∈ l, p a) (hr : ∀ a ∈ r.head?, p a = false) :
    (l ++ r).takeWhile p = l := by
  rw [takeWhile_append_of_pos hl]
  cases r with
  | nil => simp
  | cons a r => rw [takeWhile_cons_of_neg (by simp [hr a rfl]), append_nil]

theorem dropWhile_append_of_head (hl : ∀ a ∈ l, p a) (hr : ∀ a ∈ r.head?, p a = false) :
    (l ++ r).dropWhile p = r := by
  rw [dropWhile_append_of_pos hl]
  cases r with
  | nil => rfl
  | cons a r => rw [dropWhile_cons_of_neg (by simp [hr a rfl])]

theorem rdropWhile_append_of_last (ha : p a = false) :
    (l ++ [a] ++ r).rdropWhile p = l ++ [a] ++ r.rdropWhile p := by
  induction r using reverseRecOn with
  | nil => simp [ha]
  | append_singleton r b ih =>
    rw [← append_assoc, rdropWhile_concat, rdropWhile_concat, ih]
    split <;> simp

/-- What stands behind a run is outside it. -/
theorem eq_false_of_mem_head?_dropWhile (h : a ∈ (l.dropWhile p).head?) : p a = false := by
  have hnot := head?_dropWhile_not p l
  rwa [Option.mem_def.mp h] at hnot

/-- The list without the runs of `p` at its two ends. -/
def trim (p : α → Bool) (l : List α) : List α := (l.dropWhile p).rdropWhile p

theorem exists_eq_trim (p : α → Bool) (l : List α) :
    ∃ before after, (∀ a ∈ before, p a) ∧ (∀ a ∈ after, p a) ∧
      l = before ++ l.trim p ++ after := by
  refine ⟨l.takeWhile p, (l.dropWhile p).rtakeWhile p, fun a ha => mem_takeWhile_imp ha,
    fun a ha => mem_rtakeWhile_imp ha, ?_⟩
  rw [append_assoc, trim, rdropWhile_append_rtakeWhile, takeWhile_append_dropWhile]

/-- What is left of a list begins outside the runs. -/
theorem head?_trim : ∀ a ∈ (l.trim p).head?, p a = false := by
  intro a ha
  obtain ⟨after, hafter⟩ := rdropWhile_prefix p (l.dropWhile p)
  obtain ⟨kept, hkept⟩ := head?_eq_some_iff.mp ha
  change l.trim p ++ after = l.dropWhile p at hafter
  rw [hkept] at hafter
  exact eq_false_of_mem_head?_dropWhile (l := l) (by rw [← hafter]; rfl)

/-- What is left of a list ends outside the runs. -/
theorem getLast?_trim : ∀ a ∈ (l.trim p).getLast?, p a = false := by
  intro a ha
  obtain ⟨kept, hkept⟩ := getLast?_eq_some_iff.mp ha
  have hlast := rdropWhile_last_not p (l.dropWhile p) (by
    change l.trim p ≠ []
    simp [hkept])
  change ¬p ((l.trim p).getLast _) at hlast
  simpa [hkept] using hlast

theorem trim_eq {before after : List α} (hbefore : ∀ a ∈ before, p a) (hne : l ≠ [])
    (hhead : ∀ a ∈ l.head?, p a = false) (hlast : ∀ a ∈ l.getLast?, p a = false)
    (hafter : ∀ a ∈ after, p a) : (before ++ l ++ after).trim p = l := by
  have hdrop : (before ++ l ++ after).dropWhile p = l ++ after := by
    rw [append_assoc]
    refine dropWhile_append_of_head hbefore fun a ha => hhead a ?_
    rwa [head?_append_of_ne_nil _ hne] at ha
  obtain ⟨init, last, rfl⟩ : ∃ init last, l = init ++ [last] :=
    ⟨l.dropLast, l.getLast hne, (dropLast_append_getLast hne).symm⟩
  rw [trim, hdrop, rdropWhile_append_of_last (hlast last getLast?_concat),
    rdropWhile_eq_nil_iff.mpr hafter, append_nil]

/-- Two lists that are not all run, one after the other: what stands between them stays. -/
theorem exists_trim_append {a b : List α} (ha : a.trim p ≠ []) (hb : b.trim p ≠ []) :
    ∃ gap, (∀ x ∈ gap, p x) ∧ (a ++ b).trim p = a.trim p ++ (gap ++ b.trim p) ∧
      ∀ x ∈ (gap ++ b.trim p).head?, p x ∨ x ∈ b.head? := by
  obtain ⟨before, after, hbefore, hafter, hsplit⟩ := exists_eq_trim p a
  obtain ⟨before', after', hbefore', hafter', hsplit'⟩ := exists_eq_trim p b
  refine ⟨after ++ before', ?_, ?_, ?_⟩
  · intro x hx
    exact (mem_append.mp hx).elim (hafter x) (hbefore' x)
  · have hjoined : a ++ b = before ++ (a.trim p ++ (after ++ before' ++ b.trim p)) ++ after' := by
      nth_rewrite 1 [hsplit, hsplit']
      simp
    rw [hjoined]
    refine trim_eq hbefore (append_ne_nil_of_left_ne_nil ha _) ?_ ?_ hafter'
    · rw [head?_append_of_ne_nil _ ha]
      exact head?_trim
    · rw [← append_assoc, getLast?_append_of_ne_nil _ hb]
      exact getLast?_trim
  · intro x hx
    cases after with
    | cons y after =>
      rw [cons_append, cons_append, head?_cons, Option.mem_some_iff] at hx
      exact .inl (hx ▸ hafter y mem_cons_self)
    | nil =>
      have hne : before' ++ b.trim p ≠ [] := append_ne_nil_of_right_ne_nil _ hb
      rw [hsplit', head?_append_of_ne_nil _ hne]
      exact .inr hx

end List
