import Mathlib.Data.Option.Basic

/-! # Gated values

A value that is shown when a condition holds and replaced by a blank otherwise. A view that is
built from gated parts cannot tell two values apart that agree where its conditions hold,
looking twice shows nothing else than looking once, and a weaker condition shows more.
-/

variable {α β : Type*}

/-- `x` if the gate is open, `blank` otherwise. -/
def gate (isOpen : Prop) [Decidable isOpen] (blank x : α) : α := if isOpen then x else blank

/-- `v` shows nothing that `w` does not show: it is blank, or the same. -/
def Shows (blank v w : α) : Prop := v = blank ∨ v = w

section

variable {p q : Prop} [Decidable p] [Decidable q] {blank x y : α}

theorem gate_of_open (h : p) : gate p blank x = x := if_pos h

theorem gate_of_closed (h : ¬p) : gate p blank x = blank := if_neg h

theorem gate_congr (h : p → x = y) : gate p blank x = gate p blank y := by
  unfold gate
  split
  · rename_i hp
    exact h hp
  · rfl

theorem gate_idem : gate p blank (gate p blank x) = gate p blank x := by
  unfold gate
  split <;> rfl

theorem gate_shows (h : p → q) : Shows blank (gate p blank x) (gate q blank x) := by
  by_cases hp : p
  · rw [gate_of_open hp, gate_of_open (h hp)]
    exact .inr rfl
  · exact .inl (gate_of_closed hp)

end

/-- Filtering by a fixed condition is a gate on the whole option. -/
theorem Option.filter_const : o.filter (fun _ => b) = gate (b = true) none o := by
  cases o <;> cases b <;> rfl

/-- So is a `bind` that keeps its value on a fixed condition. -/
theorem Option.bind_ite_const (o : Option α) (f : α → β) (p : Prop) [Decidable p] :
    (o.bind fun x => if p then some (f x) else none) = gate p none (o.map f) := by
  cases o with
  | none => exact (ite_self none).symm
  | some x => rfl

theorem Option.map_gate (f : α → β) (p : Prop) [Decidable p] (o : Option α) :
    (gate p none o).map f = gate p none (o.map f) := by
  unfold gate
  split <;> rfl

/-- Showing a gated option twice, through a view that is idempotent on its value. -/
theorem Option.gate_map_idem (hf : ∀ x, f (f x) = f x) (p : Prop) [Decidable p] (o : Option α) :
    gate p none ((gate p none (o.map f)).map f) = gate p none (o.map f) := by
  rw [Option.map_gate, gate_idem, Option.map_map]
  exact congrArg (gate p none) (Option.map_congr fun x _ => hf x)

variable {f : α → β}

/-- Related options have the same image under a map that respects the relation. -/
theorem Option.map_eq_of_rel {r : α → α → Prop} (hf : ∀ x y, r x y → f x = f y)
    (h : Option.Rel r a b) : a.map f = b.map f := by
  cases h with
  | some h => exact congrArg some (hf _ _ h)
  | none => rfl

/-- Two images of one option under pointwise related maps. -/
theorem Option.map_rel {r : β → β → Prop} (h : ∀ x, r (f x) (g x)) (o : Option α) :
    Option.Rel r (o.map f) (o.map g) := by
  cases o with
  | none => exact .none
  | some x => exact .some (h x)

/-- A weaker gate shows at least a related value. -/
theorem Option.gate_map_rel {r : β → β → Prop} {p q : Prop} [Decidable p] [Decidable q]
    (hpq : p → q) (h : ∀ x, r (f x) (g x)) (o : Option α) :
    gate p none (o.map f) = none ∨
      Option.Rel r (gate p none (o.map f)) (gate q none (o.map g)) := by
  by_cases hp : p
  · rw [gate_of_open hp, gate_of_open (hpq hp)]
    exact .inr (Option.map_rel h o)
  · exact .inl (gate_of_closed hp)
