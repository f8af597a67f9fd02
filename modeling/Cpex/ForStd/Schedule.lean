import Mathlib.Data.List.Basic

/-! # Runs

A system takes one step after another. A schedule says which.
-/

namespace Schedule

variable {σ τ : Type} (step : σ → τ → σ)

/-- The state after the steps of the schedule. -/
def run (schedule : List τ) (s : σ) : σ := schedule.foldl step s

/-- Every step of the run satisfies `p` in the state in which it is taken. -/
def Always (p : σ → τ → Prop) (schedule : List τ) (s : σ) : Prop :=
  ∀ before t after, schedule = before ++ t :: after → p (run step before s) t

variable {step} {p : σ → τ → Prop} {inv : σ → Prop} {schedule : List τ} {s : σ} {t : τ}

theorem run_append (before after : List τ) (s : σ) :
    run step (before ++ after) s = run step after (run step before s) :=
  List.foldl_append

theorem run_snoc : run step (schedule ++ [t]) s = step (run step schedule s) t :=
  run_append schedule [t] s

theorem run_induction (hstep : ∀ s t, inv s → inv (step s t)) (schedule : List τ) (hs : inv s) :
    inv (run step schedule s) := by
  induction schedule generalizing s with
  | nil => exact hs
  | cons t schedule ih => exact ih (hstep s t hs)

theorem always_nil : Always step p [] s := by
  intro before t after h
  cases before <;> exact nomatch h

theorem always_cons :
    Always step p (t :: schedule) s ↔ p s t ∧ Always step p schedule (step s t) := by
  constructor
  · intro h
    refine ⟨h [] t schedule rfl, fun before t' after hsplit => ?_⟩
    exact h (t :: before) t' after (congrArg (t :: ·) hsplit)
  · rintro ⟨hhead, htail⟩ before t' after hsplit
    cases before with
    | nil =>
      obtain ⟨rfl, _⟩ := List.cons.inj hsplit
      exact hhead
    | cons t'' before =>
      obtain ⟨rfl, hrest⟩ := List.cons.inj hsplit
      exact htail before t' after hrest

theorem always_append {before after : List τ} :
    Always step p (before ++ after) s ↔
      Always step p before s ∧ Always step p after (run step before s) := by
  induction before generalizing s with
  | nil => exact ⟨fun h => ⟨always_nil, h⟩, And.right⟩
  | cons t before ih =>
    rw [List.cons_append, always_cons, always_cons, ih, and_assoc]
    rfl

theorem Always.run_induction (h : Always step p schedule s)
    (hstep : ∀ s t, p s t → inv s → inv (step s t)) (hs : inv s) : inv (run step schedule s) := by
  induction schedule generalizing s with
  | nil => exact hs
  | cons t schedule ih =>
    obtain ⟨hhead, htail⟩ := always_cons.mp h
    exact ih htail (hstep s t hhead hs)

instance Always.decidable [∀ s t, Decidable (p s t)] :
    (schedule : List τ) → (s : σ) → Decidable (Always step p schedule s)
  | [], _ => .isTrue always_nil
  | t :: schedule, s =>
    have := Always.decidable schedule (step s t)
    decidable_of_iff _ always_cons.symm

/-! ### Steps of two kinds -/

variable {ι κ : Type}

instance decidableForallInl {q : ι → Prop} [DecidablePred q] (t : ι ⊕ κ) :
    Decidable (∀ i, t = .inl i → q i) :=
  match t with
  | .inl i => decidable_of_iff (q i) ⟨fun h _ heq => Sum.inl.inj heq ▸ h, fun h => h i rfl⟩
  | .inr _ => .isTrue nofun

instance decidableForallInr {q : κ → Prop} [DecidablePred q] (t : ι ⊕ κ) :
    Decidable (∀ k, t = .inr k → q k) :=
  match t with
  | .inl _ => .isTrue nofun
  | .inr k => decidable_of_iff (q k) ⟨fun h _ heq => Sum.inr.inj heq ▸ h, fun h => h k rfl⟩

end Schedule
