import Cpex.ForStd.AList

/-! # Values of a generation

Requests are answered from a table under a key. An entry counts only in the generation it was built
in; otherwise a value is built and takes its place. Between two requests the generation may move
on, and what values are built from may change.
-/

namespace Generations

variable {κ ρ ν σ : Type} [DecidableEq κ]

/-- The table with the current generation and what values are built from. `builds` records what was
    built; no step depends on it. -/
structure State (κ ρ ν σ : Type) where
  table : AList fun _ : κ => Nat × ν := ∅
  generation : Nat := 0
  world : σ
  builds : List (ρ × Nat × ν) := []

/-- What happens to the table. -/
inductive Op (ρ σ : Type) where
  | request (r : ρ)
  | advance (world : σ)

variable (key : ρ → κ) (build : ρ → σ → ν × σ)

/-- The value of the current generation under a key. -/
def State.current (st : State κ ρ ν σ) (k : κ) : Option ν :=
  (st.table.lookup k).bind fun entry => if entry.1 = st.generation then some entry.2 else none

/-- Build the value of a request and store it. -/
def State.store (st : State κ ρ ν σ) (r : ρ) : State κ ρ ν σ :=
  { st with
    table := st.table.insert (key r) (st.generation, (build r st.world).1)
    world := (build r st.world).2
    builds := (r, st.generation, (build r st.world).1) :: st.builds }

/-- Answer a request. -/
def answer (st : State κ ρ ν σ) (r : ρ) : ν × State κ ρ ν σ :=
  match st.current (key r) with
  | some value => (value, st)
  | none => ((build r st.world).1, st.store key build r)

def step (st : State κ ρ ν σ) : Op ρ σ → State κ ρ ν σ
  | .request r => (answer key build st r).2
  | .advance world => { st with generation := st.generation + 1, world }

def run (st : State κ ρ ν σ) (ops : List (Op ρ σ)) : State κ ρ ν σ :=
  ops.foldl (step key build) st

/-- The requests among the operations are in `served`. -/
def Serves (served : ρ → Prop) (ops : List (Op ρ σ)) : Prop :=
  ∀ r, .request r ∈ ops → served r

/-- The answer to the request was built for it, in the current generation. -/
def Own (st : State κ ρ ν σ) (r : ρ) : Prop :=
  (r, st.generation, (answer key build st r).1) ∈ (answer key build st r).2.builds

/-- The table holds values built for requests in `served`, under their keys. -/
def Sound (served : ρ → Prop) (st : State κ ρ ν σ) : Prop :=
  ∀ k entry, st.table.lookup k = some entry →
    ∃ r, served r ∧ key r = k ∧ (r, entry) ∈ st.builds

variable {key build} {served : ρ → Prop} {st : State κ ρ ν σ}

variable {r : ρ}

theorem answer_of_current (h : st.current (key r) = some value) :
    answer key build st r = (value, st) := by
  rw [answer, h]

theorem answer_of_miss (h : st.current (key r) = none) :
    answer key build st r = ((build r st.world).1, st.store key build r) := by
  rw [answer, h]

@[simp] theorem current_store_self (r : ρ) :
    (st.store key build r).current (key r) = some (build r st.world).1 := by
  simp [State.current, State.store]

theorem sound_empty (generation : Nat) (world : σ) :
    Sound key served ({ generation, world } : State κ ρ ν σ) :=
  fun _ _ h => nomatch h

theorem Sound.answer (h : Sound key served st) (hr : served r) :
    Sound key served (answer key build st r).2 := by
  unfold Generations.answer
  split
  · exact h
  · unfold State.store
    refine AList.forall_lookup_insert (fun k entry hentry => ?_) ?_
    · obtain ⟨r', hr', hk, hmem⟩ := h k entry hentry
      exact ⟨r', hr', hk, List.mem_cons_of_mem _ hmem⟩
    · exact ⟨r, hr, rfl, List.mem_cons_self⟩

theorem Sound.step (h : Sound key served st) (hop : ∀ r, op = .request r → served r) :
    Sound key served (step key build st op) := by
  cases op with
  | request r => exact h.answer (hop r rfl)
  | advance world => exact h

theorem Sound.run (h : Sound key served st) (hops : Serves served ops) :
    Sound key served (run key build st ops) := by
  induction ops generalizing st with
  | nil => exact h
  | cons op ops ih =>
    refine ih (h.step fun r hr => hops r (hr ▸ List.mem_cons_self)) fun r hr => ?_
    exact hops r (List.mem_cons_of_mem _ hr)

/-- Among requests with different keys, each is answered with a value of its own. -/
theorem Sound.own (h : Sound key served st) (hkey : ∀ r', served r' → key r' = key r → r' = r) :
    Own key build st r := by
  unfold Own Generations.answer
  split
  · rename_i value hcurrent
    obtain ⟨entry, hentry, hgeneration⟩ := Option.bind_eq_some_iff.mp hcurrent
    obtain ⟨r', hr', hk, hmem⟩ := h _ entry hentry
    obtain rfl : r' = r := hkey r' hr' hk
    split at hgeneration
    · rename_i heq
      cases hgeneration
      rw [← heq]
      exact hmem
    · exact nomatch hgeneration
  · exact List.mem_cons_self

/-- The second of two requests with the same key gets what was built for the first. -/
theorem not_own_of_key_eq (hkey : key a = key b) (hne : a ≠ b) (generation : Nat) (world : σ) :
    ¬Own key build (answer key build ({ generation, world } : State κ ρ ν σ) a).2 b := by
  have hmiss : ({ generation, world } : State κ ρ ν σ).current (key a) = none := rfl
  rw [answer_of_miss hmiss, Own, answer_of_current (by rw [← hkey]; exact current_store_self a)]
  intro hmem
  have heq := List.mem_singleton.mp hmem
  exact hne (congrArg Prod.fst heq).symm

/-- In every run from an empty table, each request is answered with a value that was built for it in
    the current generation, exactly if requests with the same key are the same. -/
theorem ownAnswers_iff (generation : Nat) (world : σ) :
    (∀ ops, Serves served ops → ∀ r, served r →
      Own key build (run key build ({ generation, world } : State κ ρ ν σ) ops) r) ↔
      ∀ a b, served a → served b → key a = key b → a = b := by
  constructor
  · intro h a b ha hb hkey
    by_contra hne
    refine not_own_of_key_eq hkey hne generation world (h [.request a] ?_ b hb)
    intro r hr
    cases List.mem_singleton.mp hr
    exact ha
  · intro h ops hops r hr
    exact ((sound_empty generation world).run hops).own fun r' hr' hk => h r' r hr' hr hk

end Generations
