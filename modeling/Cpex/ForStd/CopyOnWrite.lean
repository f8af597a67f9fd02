import Mathlib.Logic.Function.Basic
import Mathlib.Data.List.Nodup
import Cpex.ForStd.Except
import Cpex.ForStd.Schedule

/-! # A shared value updated by copying

Each of any number of updaters loads the value, computes a new one from what it loaded, and stores
that, unless the computation failed. Loading and storing are atomic; between the two, others may
store. An updater that was overtaken in this way takes back what was stored since it loaded.
-/

namespace CopyOnWrite

/-- How far an updater is. -/
inductive Phase (σ ε : Type) where
  | idle
  | loaded (value : σ) (version : Nat)
  | stored
  | failed (error : ε)

/-- The value, how often it was stored, and the updaters. -/
structure Cell (ι σ ε : Type) where
  value : σ
  version : Nat := 0
  phase : ι → Phase σ ε := fun _ => .idle

variable {ι σ ε : Type} [DecidableEq ι] (update : ι → σ → Except ε σ)

/-- The next atomic step of one updater. -/
def step (c : Cell ι σ ε) (i : ι) : Cell ι σ ε :=
  match c.phase i with
  | .idle => { c with phase := Function.update c.phase i (.loaded c.value c.version) }
  | .loaded v _ =>
    match update i v with
    | .ok v' => ⟨v', c.version + 1, Function.update c.phase i .stored⟩
    | .error e => { c with phase := Function.update c.phase i (.failed e) }
  | .stored | .failed _ => c

/-- The updaters take steps in the order of the schedule. -/
def run (schedule : List ι) (c : Cell ι σ ε) : Cell ι σ ε := Schedule.run (step update) schedule c

/-- The updater is about to store, and another one stored after it loaded. -/
def Overtaken (c : Cell ι σ ε) (i : ι) : Prop :=
  ∃ v n v', c.phase i = .loaded v n ∧ update i v = .ok v' ∧ n < c.version

/-- No updater is overtaken in the run. -/
def Isolated (schedule : List ι) (c : Cell ι σ ε) : Prop :=
  Schedule.Always (step update) (fun c i => ¬ Overtaken update c i) schedule c

/-- `v` is what the updates of `order` make of `init`, each of them stored. -/
structure Serial (c : Cell ι σ ε) (init : σ) (order : List ι) (v : σ) : Prop where
  nodup : order.Nodup
  stored : ∀ i ∈ order, c.phase i = .stored
  result : order.foldlM (fun v i => update i v) init = .ok v

variable {update} {c : Cell ι σ ε} {init : σ}

/-! ### One step -/

variable {i : ι}

theorem step_of_idle (h : c.phase i = .idle) : step update c i =
    { c with phase := Function.update c.phase i (.loaded c.value c.version) } := by
  simp only [step, h]

variable {v : σ} {n : Nat}

theorem step_of_ok (h : c.phase i = .loaded v n) (hok : update i v = .ok v') :
    step update c i = ⟨v', c.version + 1, Function.update c.phase i .stored⟩ := by
  simp only [step, h, hok]

theorem step_of_error (h : c.phase i = .loaded v n) (herror : update i v = .error e) :
    step update c i = { c with phase := Function.update c.phase i (.failed e) } := by
  simp only [step, h, herror]

theorem step_of_stored (h : c.phase i = .stored) : step update c i = c := by
  simp only [step, h]

theorem step_of_failed (h : c.phase i = .failed e) : step update c i = c := by
  simp only [step, h]

variable (update) in
theorem step_cases (c : Cell ι σ ε) (i : ι) :
    c.phase i = .idle ∧
        step update c i =
          { c with phase := Function.update c.phase i (.loaded c.value c.version) } ∨
      (∃ v n v', c.phase i = .loaded v n ∧ update i v = .ok v' ∧
        step update c i = ⟨v', c.version + 1, Function.update c.phase i .stored⟩) ∨
      (∃ v n e, c.phase i = .loaded v n ∧
        step update c i = { c with phase := Function.update c.phase i (.failed e) }) ∨
      step update c i = c := by
  cases hphase : c.phase i with
  | idle => exact .inl ⟨rfl, step_of_idle hphase⟩
  | loaded v n =>
    cases hupdate : update i v with
    | ok v' => exact .inr (.inl ⟨v, n, v', rfl, hupdate, step_of_ok hphase hupdate⟩)
    | error e => exact .inr (.inr (.inl ⟨v, n, e, rfl, step_of_error hphase hupdate⟩))
  | stored => exact .inr (.inr (.inr (step_of_stored hphase)))
  | failed e => exact .inr (.inr (.inr (step_of_failed hphase)))

variable {j : ι}

/-- The other updaters take no notice of a step. -/
theorem step_phase_of_ne (h : j ≠ i) : (step update c i).phase j = c.phase j := by
  rcases step_cases update c i with ⟨_, hstep⟩ | ⟨_, _, _, _, _, hstep⟩ |
    ⟨_, _, _, _, hstep⟩ | hstep <;> rw [hstep]
  · exact Function.update_of_ne h _ _
  · exact Function.update_of_ne h _ _
  · exact Function.update_of_ne h _ _

/-- What is stored stays stored. -/
theorem stored_of_step (h : c.phase j = .stored) : (step update c i).phase j = .stored := by
  by_cases hji : j = i
  · subst hji
    rw [step_of_stored h]
    exact h
  · exact (step_phase_of_ne hji).trans h

theorem Serial.step (h : Serial update c init order v) (i : ι) :
    Serial update (step update c i) init order v :=
  ⟨h.nodup, fun j hj => stored_of_step (h.stored j hj), h.result⟩

/-- An update that is stored comes after those that made the value it loaded. -/
theorem Serial.store (h : Serial update c init order v) (hi : c.phase i = .loaded v n)
    (hv' : update i v = .ok v') :
    Serial update ⟨v', c.version + 1, Function.update c.phase i .stored⟩ init
      (order ++ [i]) v' := by
  have hnot : i ∉ order := by
    intro hmem
    have hstored := h.stored i hmem
    rw [hi] at hstored
    exact nomatch hstored
  refine ⟨?_, ?_, ?_⟩
  · exact h.nodup.append (List.nodup_singleton i) (List.disjoint_singleton.mpr hnot)
  · intro j hj
    by_cases hji : j = i
    · subst hji
      exact Function.update_self _ _ _
    · rcases List.mem_append.mp hj with hj | hj
      · exact (Function.update_of_ne hji _ _).trans (h.stored j hj)
      · exact absurd (List.mem_singleton.mp hj) hji
  · rw [List.foldlM_append, h.result]
    change ([i].foldlM (fun v i => update i v) v) = .ok v'
    rw [List.foldlM_cons, hv']
    rfl

variable (update) in
/-- A step that stores nothing changes neither the value nor who stored. -/
theorem quiet_or_store (c : Cell ι σ ε) (i : ι) :
    ((step update c i).value = c.value ∧ (step update c i).version = c.version ∧
        ∀ j, (step update c i).phase j = .stored → c.phase j = .stored) ∨
      ∃ v n v', c.phase i = .loaded v n ∧ update i v = .ok v' ∧
        step update c i = ⟨v', c.version + 1, Function.update c.phase i .stored⟩ := by
  have hothers : (step update c i).phase i ≠ .stored →
      ∀ j, (step update c i).phase j = .stored → c.phase j = .stored := by
    intro hi j hj
    have hji : j ≠ i := fun hji => hi (hji ▸ hj)
    exact (step_phase_of_ne hji).symm.trans hj
  rcases step_cases update c i with ⟨_, hstep⟩ | hstore | ⟨_, _, _, _, hstep⟩ | hstep
  · refine .inl ⟨by rw [hstep], by rw [hstep], hothers ?_⟩
    simp [hstep]
  · exact .inr hstore
  · refine .inl ⟨by rw [hstep], by rw [hstep], hothers ?_⟩
    simp [hstep]
  · exact .inl (by rw [hstep]; exact ⟨rfl, rfl, fun _ hj => hj⟩)

/-- What an updater holds after a step it held before, or it is the value. -/
theorem loaded_of_step (h : (step update c i).phase j = .loaded v n) :
    c.phase j = .loaded v n ∨ v = c.value ∧ n = c.version ∧
      (step update c i).value = c.value ∧ (step update c i).version = c.version := by
  by_cases hji : j = i
  · subst hji
    rcases step_cases update c j with ⟨_, hstep⟩ | ⟨_, _, _, _, _, hstep⟩ |
      ⟨_, _, _, _, hstep⟩ | hstep <;> simp only [hstep, Function.update_self] at h
    · cases h
      exact .inr ⟨rfl, rfl, by rw [hstep], by rw [hstep]⟩
    · exact nomatch h
    · exact nomatch h
    · exact .inl h
  · exact .inl ((step_phase_of_ne hji).symm.trans h)

/-! ### Runs -/

/-- What an updater holds is the value, or was stored over. -/
def HoldsPast (c : Cell ι σ ε) : Prop :=
  ∀ i v n, c.phase i = .loaded v n → n ≤ c.version ∧ (n = c.version → v = c.value)

theorem HoldsPast.after_step (h : HoldsPast c) (i : ι) : HoldsPast (step update c i) := by
  intro j v n hj
  rcases loaded_of_step hj with hj | ⟨rfl, rfl, hvalue, hversion⟩
  · obtain ⟨hle, heq⟩ := h j v n hj
    rcases quiet_or_store update c i with ⟨hvalue, hversion, _⟩ | ⟨_, _, _, _, _, hstep⟩
    · rw [hvalue, hversion]
      exact ⟨hle, heq⟩
    · rw [hstep]
      exact ⟨Nat.le_succ_of_le hle, fun hn => absurd hn (Nat.ne_of_lt (Nat.lt_succ_of_le hle))⟩
  · rw [hvalue, hversion]
    exact ⟨Nat.le_refl _, fun _ => rfl⟩

/-- The value is the result of all updates that were stored. -/
def Complete (update : ι → σ → Except ε σ) (init : σ) (c : Cell ι σ ε) : Prop :=
  HoldsPast c ∧ ∃ order, Serial update c init order c.value ∧
    ∀ i, c.phase i = .stored → i ∈ order

theorem Complete.after_step (h : Complete update init c) (hi : ¬ Overtaken update c i) :
    Complete update init (step update c i) := by
  obtain ⟨hpast, order, hserial, hall⟩ := h
  refine ⟨hpast.after_step i, ?_⟩
  rcases quiet_or_store update c i with ⟨hvalue, _, hstored⟩ |
    ⟨v, n, v', hloaded, hv', hstep⟩
  · exact ⟨order, hvalue ▸ hserial.step i, fun j hj => hall j (hstored j hj)⟩
  · -- Not overtaken, the updater holds the value itself.
    obtain ⟨hle, heq⟩ := hpast i v n hloaded
    have hn : n = c.version := by
      by_contra hne
      exact hi ⟨v, n, v', hloaded, hv', Nat.lt_of_le_of_ne hle hne⟩
    obtain rfl := heq hn
    rw [hstep]
    refine ⟨order ++ [i], hserial.store hloaded hv', fun j hj => ?_⟩
    by_cases hji : j = i
    · simp [hji]
    · exact List.mem_append_left _ (hall j ((Function.update_of_ne hji _ _).symm.trans hj))

/-- Without an overtaking no update is lost. -/
theorem exists_serial_of_isolated (h : Isolated update schedule { value := init }) :
    ∃ order, Serial update (run update schedule { value := init }) init order
        (run update schedule { value := init }).value ∧
      ∀ i, (run update schedule { value := init }).phase i = .stored → i ∈ order := by
  have hinit : Complete update init ({ value := init } : Cell ι σ ε) :=
    ⟨fun i v n hi => (nomatch hi), [], ⟨List.nodup_nil, fun i hi => (nomatch hi), rfl⟩,
      fun i hi => (nomatch hi)⟩
  exact (h.run_induction (fun _ _ hi hc => hc.after_step hi) hinit).2

end CopyOnWrite
