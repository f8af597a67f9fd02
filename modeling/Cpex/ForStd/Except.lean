import Mathlib.Data.List.Basic
import Mathlib.Data.List.Induction

/-! # Computations in `Except` that succeed

What the parts of a computation returned, once the whole of it is known to have succeeded. -/

namespace Except

variable {ε ε' α β : Type} {x : Except ε α}

theorem ok_of_map (h : x.map f = .ok b) : ∃ a, x = .ok a ∧ f a = b := by
  cases x with
  | error e => exact nomatch h
  | ok a => exact ⟨a, rfl, Except.ok.inj h⟩

theorem ok_of_mapError (h : x.mapError f = .ok a) : x = .ok a := by
  cases x with
  | error e => exact nomatch h
  | ok b => exact congrArg Except.ok (Except.ok.inj h)

theorem ok_of_toOption (h : x.toOption = some a) : x = .ok a := by
  cases x with
  | error e => exact nomatch h
  | ok b => exact congrArg Except.ok (Option.some.inj h)

theorem ok_of_bind (h : x >>= f = .ok b) :
    ∃ a, x = .ok a ∧ f a = .ok b := by
  cases x with
  | error e => exact nomatch h
  | ok a => exact ⟨a, rfl, h⟩

end Except

namespace List

variable {ε α β : Type} {l : List α}

/-- A loop of checks that passes, passes every check. -/
theorem forM_ok {f : α → Except ε Unit} (h : l.forM f = .ok ()) : ∀ a ∈ l, f a = .ok () := by
  induction l with
  | nil => exact forall_mem_nil _
  | cons b l ih =>
    obtain ⟨⟨⟩, hb, h⟩ := Except.ok_of_bind h
    exact forall_mem_cons.mpr ⟨hb, ih h⟩

variable {f : α → Except ε β} {l' : List β}

/-- Every result of a loop comes from an element of the list. -/
theorem exists_of_mem_mapM_ok (h : l.mapM f = .ok l') (hb : b ∈ l') :
    ∃ a ∈ l, f a = .ok b := by
  induction l generalizing l' with
  | nil => cases h; exact nomatch hb
  | cons a l ih =>
    rw [mapM_cons] at h
    obtain ⟨c, hc, h⟩ := Except.ok_of_bind h
    obtain ⟨cs, hcs, h⟩ := Except.ok_of_bind h
    cases h
    rcases mem_cons.mp hb with rfl | hb
    · exact ⟨a, mem_cons_self, hc⟩
    · obtain ⟨a', ha', hb⟩ := ih hcs hb
      exact ⟨a', mem_cons_of_mem _ ha', hb⟩

/-- A loop that succeeds has a result for every element. -/
theorem exists_mem_of_mapM_ok (h : l.mapM f = .ok l') (ha : a ∈ l) :
    ∃ b ∈ l', f a = .ok b := by
  induction l generalizing l' with
  | nil => exact nomatch ha
  | cons c l ih =>
    rw [mapM_cons] at h
    obtain ⟨b, hb, h⟩ := Except.ok_of_bind h
    obtain ⟨bs, hbs, h⟩ := Except.ok_of_bind h
    cases h
    rcases mem_cons.mp ha with rfl | ha
    · exact ⟨b, mem_cons_self, hb⟩
    · obtain ⟨b', hb', ha⟩ := ih hbs ha
      exact ⟨b', mem_cons_of_mem _ hb', ha⟩

/-- What is in one of the lists that a loop makes. -/
theorem mem_flatten_mapM_iff {f : α → Except ε (List β)} (h : l.mapM f = .ok lists) {p : α → Prop}
    (hp : ∀ {a bs}, f a = .ok bs → (b ∈ bs ↔ p a)) : b ∈ lists.flatten ↔ ∃ a ∈ l, p a := by
  rw [mem_flatten]
  constructor
  · rintro ⟨bs, hbs, hb⟩
    obtain ⟨a, ha, hf⟩ := exists_of_mem_mapM_ok h hbs
    exact ⟨a, ha, (hp hf).mp hb⟩
  · rintro ⟨a, ha, hpa⟩
    obtain ⟨bs, hbs, hf⟩ := exists_mem_of_mapM_ok h ha
    exact ⟨bs, hbs, (hp hf).mpr hpa⟩

/-- A loop over two parts is a loop over each. -/
theorem mapM_append_ok {l₁ l₂ : List α} (h : (l₁ ++ l₂).mapM f = .ok l') :
    ∃ r₁ r₂, l₁.mapM f = .ok r₁ ∧ l₂.mapM f = .ok r₂ ∧ l' = r₁ ++ r₂ := by
  rw [mapM_append] at h
  obtain ⟨r₁, h₁, h⟩ := Except.ok_of_bind h
  obtain ⟨r₂, h₂, h⟩ := Except.ok_of_bind h
  cases h
  exact ⟨r₁, r₂, h₁, h₂, rfl⟩

section

variable {σ : Type} {step : σ → α → Except ε σ} {p : List α → σ → Prop} {l : List α} {s : σ}
  (hs : p [] s) (hstep : ∀ {l s a t}, p l s → step s a = .ok t → p (l ++ [a]) t)

theorem foldlM_append_of_ok (h : l.foldlM step s = .ok t) (l' : List α) :
    (l ++ l').foldlM step s = l'.foldlM step t := by
  rw [foldlM_append, h]
  rfl

include hs hstep

/-- What every step of a loop keeps, of the elements so far and the state, the loop keeps. -/
theorem foldlM_ok_of_step (h : l.foldlM step s = .ok t) : p l t := by
  induction l using reverseRecOn generalizing t with
  | nil =>
    cases h
    exact hs
  | append_singleton l a ih =>
    rw [foldlM_append] at h
    obtain ⟨u, hu, h⟩ := Except.ok_of_bind h
    obtain ⟨v, hv, h⟩ := Except.ok_of_bind h
    cases h
    exact hstep (ih hu) hv

/-- A loop gets through elements that go together, if each step does. -/
theorem exists_foldlM_ok {q : List α → Prop} (hinit : ∀ {l a}, q (l ++ [a]) → q l)
    (hok : ∀ {l a s}, q (l ++ [a]) → p l s → ∃ t, step s a = .ok t) (hl : q l) :
    ∃ t, l.foldlM step s = .ok t := by
  induction l using reverseRecOn with
  | nil => exact ⟨s, rfl⟩
  | append_singleton l a ih =>
    obtain ⟨u, hu⟩ := ih (hinit hl)
    obtain ⟨t, ht⟩ := hok hl (foldlM_ok_of_step hs hstep hu)
    refine ⟨t, ?_⟩
    rw [foldlM_append, hu]
    change step u a >>= pure = _
    rw [ht]
    rfl

end

end List
