import Mathlib.Data.List.Basic
import Mathlib.Data.List.Induction

/-! # The first best element of a list

A left-to-right scan that keeps the element with the greatest score, the earlier one on ties;
elements without a score are skipped.
-/

namespace List

variable {α β : Type}

/-- One step of the scan. -/
def bestStep (score : α → Option Nat) (best : Option (Nat × α)) (a : α) : Option (Nat × α) :=
  match score a with
  | none => best
  | some s => if best.all fun b => b.1 < s then some (s, a) else best

/-- The scan. -/
def firstBest (score : α → Option Nat) (l : List α) : Option α :=
  (l.foldl (bestStep score) none).map Prod.snd

variable {score : α → Option Nat} {a : α}

/-- A step on the image of an element of the same score. -/
theorem bestStep_map {best : Option (Nat × α)} (h : score' (f a) = score a) :
    bestStep score' (best.map (Prod.map id f)) (f a) =
      (bestStep score best a).map (Prod.map id f) := by
  unfold bestStep
  rw [h]
  cases score a with
  | none => rfl
  | some s =>
    have hall : (best.map (Prod.map id f)).all (fun b => b.1 < s) = best.all fun b => b.1 < s := by
      cases best <;> rfl
    dsimp only
    rw [hall]
    split <;> rfl

variable {l : List α}

/-- Replacing every element by one of the same score replaces the result. -/
theorem firstBest_map {score' : β → Option Nat} {f : α → β} (h : ∀ a ∈ l, score' (f a) = score a) :
    (l.map f).firstBest score' = (l.firstBest score).map f := by
  have hfold : ∀ best : Option (Nat × α),
      (l.map f).foldl (bestStep score') (best.map (Prod.map id f)) =
        (l.foldl (bestStep score) best).map (Prod.map id f) := by
    induction l with
    | nil => intro best; rfl
    | cons a l ih =>
      intro best
      rw [map_cons, foldl_cons, foldl_cons, bestStep_map (h a mem_cons_self)]
      exact ih (fun b hb => h b (mem_cons_of_mem _ hb)) _
  rw [firstBest, firstBest, show (none : Option (Nat × β)) = none.map (Prod.map id f) from rfl,
    hfold, Option.map_map, Option.map_map]
  rfl

/-- An element with its score that is the first of the greatest score in the list. -/
structure IsFirstBest (score : α → Option Nat) (l before : List α) (a : α) (after : List α)
    (s : Nat) : Prop where
  split : l = before ++ a :: after
  score_eq : score a = some s
  lt : ∀ b ∈ before, ∀ t, score b = some t → t < s
  le : ∀ b ∈ after, ∀ t, score b = some t → t ≤ s

theorem IsFirstBest.max {before after : List α} {s : Nat} (h : IsFirstBest score l before a after s)
    {b : α} (hb : b ∈ l) {t : Nat} (ht : score b = some t) : t ≤ s := by
  rw [h.split, mem_append, mem_cons] at hb
  rcases hb with hb | rfl | hb
  · exact Nat.le_of_lt (h.lt b hb t ht)
  · exact Nat.le_of_eq (Option.some.inj (ht.symm.trans h.score_eq))
  · exact h.le b hb t ht

/-- What the scan holds after the list. The induction is from the end, as the scan goes. -/
theorem foldl_bestStep_spec (score : α → Option Nat) (l : List α) :
    (l.foldl (bestStep score) none = none → ∀ b ∈ l, score b = none) ∧
      ∀ s a, l.foldl (bestStep score) none = some (s, a) →
        ∃ before after, IsFirstBest score l before a after s := by
  induction l using List.reverseRecOn with
  | nil => exact ⟨fun _ b hb => absurd hb not_mem_nil, fun s a h => by cases h⟩
  | append_singleton l c ih =>
    rw [foldl_append, foldl_cons, foldl_nil]
    obtain ⟨ihnone, ihsome⟩ := ih
    generalize l.foldl (bestStep score) none = best at ihnone ihsome
    unfold bestStep
    cases hc : score c with
    | none =>
      refine ⟨fun hbest b hb => ?_, fun s a hbest => ?_⟩
      · rcases mem_append.mp hb with hb | hb
        · exact ihnone hbest b hb
        · rw [mem_singleton.mp hb, hc]
      · obtain ⟨before, after, h⟩ := ihsome s a hbest
        refine ⟨before, after ++ [c], by rw [h.split, append_assoc, cons_append], h.score_eq, h.lt,
          fun b hb t ht => ?_⟩
        rcases mem_append.mp hb with hb | hb
        · exact h.le b hb t ht
        · rw [mem_singleton.mp hb, hc] at ht
          cases ht
    | some t =>
      dsimp only
      split
      · rename_i hgreater
        refine ⟨fun hbest => absurd hbest (Option.some_ne_none _), fun s a hbest => ?_⟩
        cases hbest
        refine ⟨l, [], rfl, hc, fun b hb u hu => ?_, fun b hb => absurd hb not_mem_nil⟩
        cases best with
        | none =>
          rw [ihnone rfl b hb] at hu
          cases hu
        | some held =>
          obtain ⟨before, after, h⟩ := ihsome held.1 held.2 rfl
          have hheld : held.1 < t := by simpa using hgreater
          exact Nat.lt_of_le_of_lt (h.max hb hu) hheld
      · rename_i hnot
        refine ⟨fun hbest => ?_, fun s a hbest => ?_⟩
        · rw [hbest] at hnot
          exact absurd rfl hnot
        · have hle : t ≤ s := by simpa [hbest] using hnot
          obtain ⟨before, after, h⟩ := ihsome s a hbest
          refine ⟨before, after ++ [c], by rw [h.split, append_assoc, cons_append], h.score_eq, h.lt,
            fun b hb u hu => ?_⟩
          rcases mem_append.mp hb with hb | hb
          · exact h.le b hb u hu
          · rw [mem_singleton.mp hb, hc] at hu
            exact Option.some.inj hu ▸ hle

theorem firstBest_eq_some (h : l.firstBest score = some a) :
    ∃ before after s, IsFirstBest score l before a after s := by
  obtain ⟨⟨s, b⟩, hb, rfl⟩ := Option.map_eq_some_iff.mp h
  obtain ⟨before, after, hbest⟩ := (foldl_bestStep_spec score l).2 s b hb
  exact ⟨before, after, s, hbest⟩

theorem mem_of_firstBest (h : l.firstBest score = some a) : a ∈ l ∧ ∃ s, score a = some s := by
  obtain ⟨before, after, s, hbest⟩ := firstBest_eq_some h
  exact ⟨hbest.split ▸ mem_append_right _ mem_cons_self, s, hbest.score_eq⟩

theorem firstBest_eq_none (h : l.firstBest score = none) : ∀ a ∈ l, score a = none :=
  (foldl_bestStep_spec score l).1 (Option.map_eq_none_iff.mp h)

end List
