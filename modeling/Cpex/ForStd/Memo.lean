import Mathlib.Data.List.AList

/-! # A bounded memo table

Requests are answered from a table under a key, and computed on a miss. A table at its capacity
takes no new entries; nothing is ever evicted.
-/

namespace Memo

variable {κ ρ ν : Type} [DecidableEq κ] (key : ρ → κ) (compute : ρ → ν) (capacity : Nat)

/-- Answer one request. -/
def step (table : AList fun _ : κ => ν) (r : ρ) : ν × AList fun _ : κ => ν :=
  match table.lookup (key r) with
  | some v => (v, table)
  | none =>
    if table.entries.length < capacity then (compute r, table.insert (key r) (compute r))
    else (compute r, table)

/-- The table holds values computed for requests in `served`, under their keys. -/
def Sound (served : List ρ) (table : AList fun _ : κ => ν) : Prop :=
  ∀ k v, table.lookup k = some v → ∃ r ∈ served, key r = k ∧ compute r = v

variable {key compute capacity} {table : AList fun _ : κ => ν} {r : ρ}

theorem sound_empty : Sound key compute [] (∅ : AList fun _ : κ => ν) := by
  intro k v h
  exact nomatch h

variable {served : List ρ}

theorem Sound.mono (h : Sound key compute served table) (hsub : served ⊆ served') :
    Sound key compute served' table := by
  intro k v hv
  obtain ⟨r, hr, hrk⟩ := h k v hv
  exact ⟨r, hsub hr, hrk⟩

theorem Sound.step (h : Sound key compute served table) (r : ρ) :
    Sound key compute (r :: served) (step key compute capacity table r).2 := by
  have hmono : Sound key compute (r :: served) table := h.mono (List.subset_cons_self r served)
  unfold Memo.step
  split
  · exact hmono
  · split
    · intro k v hv
      by_cases hk : k = key r
      · subst hk
        rw [AList.lookup_insert] at hv
        exact ⟨r, List.mem_cons_self, rfl, Option.some.inj hv⟩
      · rw [AList.lookup_insert_ne hk] at hv
        exact hmono k v hv
    · exact hmono

theorem exists_of_step (h : Sound key compute served table) (capacity : Nat) (r : ρ) :
    ∃ r' ∈ r :: served, key r' = key r ∧ (step key compute capacity table r).1 = compute r' := by
  unfold Memo.step
  split
  · rename_i v hv
    obtain ⟨r', hr', hk, hv'⟩ := h _ _ hv
    exact ⟨r', List.mem_cons_of_mem _ hr', hk, hv'.symm⟩
  · refine ⟨r, List.mem_cons_self, rfl, ?_⟩
    split <;> rfl

end Memo
