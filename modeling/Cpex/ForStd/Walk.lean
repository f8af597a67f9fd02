import Mathlib.Data.List.Perm.Basic

/-! # Walks that may halt

A list of steps is walked from a state until one of them halts. When steps that are independent of
each other do not change whether the other halts, and commute up to an equivalence of states, the
order of the list does not matter: one order halts exactly if the other does, and two walks that get
to the end end in equivalent states.
-/

namespace List

variable {α σ δ : Type*} (step : α → σ → Option δ × σ)

/-- Walk the list until a step halts. -/
def walk : List α → σ → Option δ × σ
  | [], s => (none, s)
  | a :: l, s =>
    match step a s with
    | (some d, s) => (some d, s)
    | (none, s) => walk l s

/-- Go on from the end of a walk, unless it halted. -/
def andThen (r : Option δ × σ) (next : σ → Option δ × σ) : Option δ × σ :=
  match r with
  | (some d, s) => (some d, s)
  | (none, s) => next s

/-- The end of two walks: both halt, or both end in related states. -/
structure SameEnd (R : σ → σ → Prop) (r r' : Option δ × σ) : Prop where
  halts : r.1.isSome = r'.1.isSome
  related : r.1 = none → R r.2 r'.2

variable {step} {R : σ → σ → Prop}

theorem SameEnd.halted : SameEnd R (some d, s) (some d', s') := ⟨rfl, nofun⟩

theorem SameEnd.trans (hR : ∀ a b c, R a b → R b c → R a c) (h : SameEnd R r₁ r₂)
    (h' : SameEnd R r₂ r₃) : SameEnd R r₁ r₃ where
  halts := h.halts.trans h'.halts
  related hnone := by
    have hmid : r₂.1 = none := by
      have hhalts := h.halts
      rw [hnone] at hhalts
      exact Option.not_isSome_iff_eq_none.mp (by simp [← hhalts])
    exact hR _ _ _ (h.related hnone) (h'.related hmid)

variable {s : σ}

/-- Walks that go on alike from where two walks ended alike. -/
theorem SameEnd.andThen {next next' : σ → Option δ × σ} (h : SameEnd R r r')
    (hrest : ∀ t t', r = (none, t) → r' = (none, t') → R t t' →
      SameEnd R (next t) (next' t')) :
    SameEnd R (andThen r next) (andThen r' next') := by
  obtain ⟨halted, t⟩ := r
  obtain ⟨halted', t'⟩ := r'
  have hhalts := h.halts
  cases halted with
  | some d =>
    cases halted' with
    | some d' => exact .halted
    | none => cases hhalts
  | none =>
    cases halted' with
    | some d' => cases hhalts
    | none => exact hrest t t' rfl rfl (h.related rfl)

/-- Related states walk alike. -/
theorem walk_rel (hstep : ∀ a s s', R s s' → SameEnd R (step a s) (step a s')) (l : List α)
    (h : R s s') : SameEnd R (walk step l s) (walk step l s') := by
  induction l generalizing s s' with
  | nil => exact ⟨rfl, fun _ => h⟩
  | cons a l ih => exact (hstep a s s' h).andThen fun t t' _ _ ht => ih ht

/-- What the steps keep, a walk keeps. -/
theorem walk_induction {P : Option δ → σ → Prop}
    (hstep : ∀ a ∈ l, ∀ s, P none s → P (step a s).1 (step a s).2) (h : P none s) :
    P (walk step l s).1 (walk step l s).2 := by
  induction l generalizing s with
  | nil => exact h
  | cons a l ih =>
    obtain ⟨ha, hl⟩ := forall_mem_cons.mp hstep
    have hnext := ha s h
    rw [walk]
    generalize step a s = r at hnext
    obtain ⟨halted, t⟩ := r
    cases halted with
    | some d => exact hnext
    | none => exact ih hl hnext

/-- Two steps that do not disturb each other: what the one does does not change whether the other
    halts, and they commute. -/
structure Independent (step : α → σ → Option δ × σ) (R : σ → σ → Prop) (a b : α) (s : σ) :
    Prop where
  halts_left : ∀ t, step b s = (none, t) → (step a t).1.isSome = (step a s).1.isSome
  halts_right : ∀ t, step a s = (none, t) → (step b t).1.isSome = (step b s).1.isSome
  commute : ∀ t t', step a s = (none, t) → step b s = (none, t') → R (step b t).2 (step a t').2

/-- Two independent steps in a row end alike in either order. -/
theorem Independent.walk_swap (h : Independent step R a b s) :
    SameEnd R (walk step [a, b] s) (walk step [b, a] s) := by
  have hleft := h.halts_left
  have hright := h.halts_right
  have hcommute := h.commute
  simp only [walk]
  revert hleft hright hcommute
  generalize step a s = ra
  generalize step b s = rb
  obtain ⟨halted, t⟩ := ra
  obtain ⟨halted', t'⟩ := rb
  intro hleft hright hcommute
  cases halted with
  | some d =>
    cases halted' with
    | some d' => exact .halted
    | none =>
      -- The first order halts at once, the second at its second step.
      have hhalts := hleft t' rfl
      dsimp only
      generalize step a t' = r at hhalts
      obtain ⟨halted', u⟩ := r
      cases halted' with
      | some d' => exact .halted
      | none => cases hhalts
  | none =>
    have hhalts := hright t rfl
    cases halted' with
    | some d' =>
      dsimp only
      generalize step b t = r at hhalts
      obtain ⟨halted, u⟩ := r
      cases halted with
      | some d => exact .halted
      | none => cases hhalts
    | none =>
      have hhalts' := hleft t' rfl
      have hend := hcommute t t' rfl rfl
      dsimp only
      generalize step b t = r at hhalts hend
      generalize step a t' = r' at hhalts' hend
      obtain ⟨halted, u⟩ := r
      obtain ⟨halted', u'⟩ := r'
      cases halted with
      | some d => cases hhalts
      | none =>
        cases halted' with
        | some d' => cases hhalts'
        | none => exact ⟨rfl, fun _ => hend⟩

/-- A walk goes on with the second list if the first lets it. -/
theorem walk_append (l l' : List α) (s : σ) :
    walk step (l ++ l') s = andThen (walk step l s) (walk step l') := by
  induction l generalizing s with
  | nil => rfl
  | cons a l ih =>
    rw [cons_append, walk, walk]
    generalize step a s = r
    obtain ⟨halted, t⟩ := r
    cases halted with
    | some d => rfl
    | none => exact ih t

/-- The order of independent steps does not matter. `I` is what the steps keep of the state and
    what their independence may rest on. -/
theorem walk_perm {I : σ → Prop} {K : α → α → Prop} (hK : ∀ a b, K a b → K b a) (hrefl : ∀ s, R s s)
    (htrans : ∀ a b c, R a b → R b c → R a c)
    (hstep : ∀ a s s', R s s' → SameEnd R (step a s) (step a s')) (hperm : l.Perm l')
    (hkeeps : ∀ a ∈ l, ∀ s, I s → I (step a s).2)
    (hindependent : ∀ a ∈ l, ∀ b ∈ l, K a b → ∀ s, I s → Independent step R a b s)
    (hpairwise : l.Pairwise K) (hs : I s) : SameEnd R (walk step l s) (walk step l' s) := by
  induction hperm generalizing s with
  | nil => exact ⟨rfl, fun _ => hrefl s⟩
  | cons a _ ih =>
    have hsame : SameEnd R (step a s) (step a s) := ⟨rfl, fun _ => hrefl _⟩
    refine hsame.andThen fun t t' ht ht' _ => ?_
    obtain rfl : t = t' := congrArg Prod.snd (ht.symm.trans ht')
    have hnext := hkeeps a mem_cons_self s hs
    rw [ht] at hnext
    exact ih (fun b hb => hkeeps b (mem_cons_of_mem _ hb))
      (fun b hb c hc => hindependent b (mem_cons_of_mem _ hb) c (mem_cons_of_mem _ hc))
      (pairwise_cons.mp hpairwise).2 hnext
  | swap a b l =>
    -- Walk the two steps together, then the rest from where they end.
    have hba : K b a := (pairwise_cons.mp hpairwise).1 a mem_cons_self
    have hswap := (hindependent b mem_cons_self a (mem_cons_of_mem _ mem_cons_self) hba s
      hs).walk_swap
    have hsplit (x y : α) : x :: y :: l = [x, y] ++ l := rfl
    rw [hsplit, hsplit, walk_append, walk_append]
    exact hswap.andThen fun t t' _ _ ht => walk_rel hstep l ht
  | trans hleft _ ih ih' =>
    refine (ih hkeeps hindependent hpairwise hs).trans htrans (ih' ?_ ?_ ?_ hs)
    · exact fun a ha => hkeeps a (hleft.mem_iff.mpr ha)
    · exact fun a ha b hb => hindependent a (hleft.mem_iff.mpr ha) b (hleft.mem_iff.mpr hb)
    · exact (hleft.pairwise_iff fun h => hK _ _ h).mp hpairwise

end List
