import Cpex.Native.Concurrent
import Cpex.ForStd.CopyOnWrite

/-! # Concurrent changes of the snapshot

The mutators update the runtime snapshot by copying: the store of one takes back what others stored
since it loaded. Every snapshot is still the result of some mutators, applied one after another; it
is the result of all that reported success if no store falls between the load and the store of
another one.
-/

namespace Cpex.Core

variable {ι κ η : Type}

/-- The call has stored its snapshot. It reports success, now or after it has cleared the cache. -/
def MutatorState.Succeeded : MutatorState η → Prop
  | .stored _ | .returned _ _ => True
  | .called | .loaded _ _ | .failed _ => False

section
variable [DecidableEq ι] [DecidableEq κ] (calls : Traffic ι κ η)

/-- The mutator `i` is about to store, and another one stored after it loaded. -/
def Traffic.Overtaken (sys : System ι κ η) (i : ι) : Prop :=
  ∃ snapshot version next, sys.mutators i = .loaded snapshot version ∧
    (calls.mutator i).apply snapshot = .ok next ∧ version < sys.version

/-- No mutator is overtaken in the run. -/
def Traffic.Isolated (schedule : List (ι ⊕ κ)) (sys : System ι κ η) : Prop :=
  Schedule.Always calls.step (fun sys t => ∀ i, t = .inl i → ¬ calls.Overtaken sys i) schedule sys

/-- The mutators of `order`, applied one after another. -/
def Traffic.applyAll (order : List ι) (snapshot : Snapshot η) : Except PluginError (Snapshot η) :=
  order.foldlM (fun snapshot i => (calls.mutator i).apply snapshot) snapshot

/-! ### The snapshot as a cell -/

/-- A mutator as an updater. -/
def MutatorState.phase : MutatorState η → CopyOnWrite.Phase (Snapshot η) PluginError
  | .called => .idle
  | .loaded snapshot version => .loaded snapshot version
  | .stored _ | .returned _ _ => .stored
  | .failed e => .failed e

/-- The part of the manager that mutators load and store. -/
def System.cell (sys : System ι κ η) : CopyOnWrite.Cell ι (Snapshot η) PluginError :=
  ⟨sys.runtime, sys.version, fun i => (sys.mutators i).phase⟩

/-- What the mutators make of the snapshot. -/
def Traffic.update (i : ι) : Snapshot η → Except PluginError (Snapshot η) := (calls.mutator i).apply

variable (sys : System ι κ η) (i : ι) (state : MutatorState η)

omit [DecidableEq κ] in
theorem cell_setMutator :
    (sys.setMutator i state).cell =
      { sys.cell with phase := Function.update sys.cell.phase i state.phase } := by
  have hphase : (fun j => (Function.update sys.mutators i state j).phase) =
      Function.update (fun j => (sys.mutators j).phase) i state.phase :=
    Function.comp_update MutatorState.phase sys.mutators i state
  unfold System.cell System.setMutator
  rw [hphase]

/-- A step of a mutator is a step of its updater. Clearing the cache is none. -/
theorem cell_step_mutator :
    (calls.step sys (.inl i)).cell = CopyOnWrite.step calls.update sys.cell i := by
  have hphase : sys.cell.phase i = (sys.mutators i).phase := rfl
  change (mutatorStep (calls.mutator i) i sys).cell = _
  cases hstate : sys.mutators i with
  | called =>
    rw [hstate] at hphase
    rw [mutatorStep_of_called hstate, cell_setMutator, CopyOnWrite.step_of_idle hphase]
    rfl
  | loaded snapshot version =>
    rw [hstate] at hphase
    cases hupdate : (calls.mutator i).apply snapshot with
    | error e =>
      rw [mutatorStep_of_error hstate hupdate, cell_setMutator,
        CopyOnWrite.step_of_error hphase hupdate]
      rfl
    | ok next =>
      rw [mutatorStep_of_ok hstate hupdate, cell_setMutator, CopyOnWrite.step_of_ok hphase hupdate]
      split <;> rfl
  | stored version =>
    rw [hstate] at hphase
    rw [mutatorStep_of_stored hstate, cell_setMutator, CopyOnWrite.step_of_stored hphase]
    have hsame : Function.update sys.cell.phase i .stored = sys.cell.phase :=
      Function.update_eq_self_iff.mpr hphase.symm
    exact congrArg (fun phase => { sys.cell with phase }) hsame
  | returned version cleared =>
    rw [hstate] at hphase
    rw [mutatorStep_of_returned hstate, CopyOnWrite.step_of_stored hphase]
  | failed e =>
    rw [hstate] at hphase
    rw [mutatorStep_of_failed hstate, CopyOnWrite.step_of_failed hphase]

theorem cell_step_dispatch (k : κ) : (calls.step sys (.inr k)).cell = sys.cell := by
  unfold Traffic.step dispatchStep
  dsimp only
  split <;> rfl

/-- To the snapshot, a run is one of the updaters; the dispatches only look at it. -/
theorem cell_run (schedule : List (ι ⊕ κ)) (sys : System ι κ η) :
    (calls.run schedule sys).cell =
      CopyOnWrite.run calls.update (schedule.filterMap Sum.getLeft?) sys.cell := by
  induction schedule generalizing sys with
  | nil => rfl
  | cons t schedule ih =>
    refine (ih (calls.step sys t)).trans ?_
    cases t with
    | inl i => rw [cell_step_mutator]; rfl
    | inr k => rw [cell_step_dispatch]; rfl

/-! ### Serial results -/

omit [DecidableEq ι] [DecidableEq κ] in
theorem phase_eq_stored : state.phase = .stored ↔ state.Succeeded := by
  cases state <;> simp [MutatorState.phase, MutatorState.Succeeded]

omit [DecidableEq ι] [DecidableEq κ] in
theorem loaded_of_phase {state : MutatorState η} (h : state.phase = .loaded snapshot version) :
    state = .loaded snapshot version := by
  cases state with
  | loaded snapshot' version' =>
    cases h
    rfl
  | _ => exact nomatch h

theorem Traffic.Isolated.cell {calls : Traffic ι κ η} (h : calls.Isolated schedule sys) :
    CopyOnWrite.Isolated calls.update (schedule.filterMap Sum.getLeft?) sys.cell := by
  intro before i after hsplit
  obtain ⟨steps, rest, rfl, rfl, hrest⟩ := List.filterMap_eq_append_iff.mp hsplit
  obtain ⟨dispatches, t, _, rfl, hnone, ht, _⟩ := List.filterMap_eq_cons_iff.mp hrest
  obtain rfl : t = .inl i := Sum.getLeft?_eq_some_iff.mp ht
  -- The dispatches in between make no difference to the snapshot.
  have hcell : (calls.run (steps ++ dispatches) sys).cell =
      CopyOnWrite.run calls.update (steps.filterMap Sum.getLeft?) sys.cell := by
    rw [cell_run, List.filterMap_append, List.filterMap_eq_nil_iff.mpr hnone, List.append_nil]
  change ¬ CopyOnWrite.Overtaken calls.update (CopyOnWrite.run calls.update _ sys.cell) i
  rw [← hcell]
  rintro ⟨snapshot, version, next, hphase, hok, hlt⟩
  exact h (steps ++ dispatches) (.inl i) _ (List.append_assoc ..).symm i rfl
    ⟨snapshot, version, next, loaded_of_phase hphase, hok, hlt⟩

/-- The cell of a run that starts with the snapshot `init`. -/
theorem run_cell (init : Snapshot η) :
    CopyOnWrite.run calls.update (schedule.filterMap Sum.getLeft?) { value := init } =
      (calls.run schedule { runtime := init }).cell :=
  (cell_run calls schedule { runtime := init }).symm

/-- For every schedule of any number of mutators, among any number of dispatches: if no mutator that
succeeds stores over a snapshot that was stored after its load, then the snapshot is the result of
applying all mutators that succeeded one after another, in some order. -/
theorem runtime_eq_applyAll_of_isolated {calls : Traffic ι κ η} {schedule : List (ι ⊕ κ)}
    {init : Snapshot η} (h : calls.Isolated schedule { runtime := init }) :
    ∃ order : List ι, order.Nodup ∧
      (∀ i, i ∈ order ↔ ((calls.run schedule { runtime := init }).mutators i).Succeeded) ∧
      calls.applyAll order init = .ok (calls.run schedule { runtime := init }).runtime := by
  obtain ⟨order, hserial, hall⟩ := CopyOnWrite.exists_serial_of_isolated h.cell
  rw [run_cell] at hserial hall
  refine ⟨order, hserial.nodup, fun i => ⟨fun hi => ?_, fun hi => ?_⟩, hserial.result⟩
  · exact (phase_eq_stored _).mp (hserial.stored i hi)
  · exact hall i ((phase_eq_stored _).mpr hi)

/-! ### Deciding whether a run is isolated -/

instance (sys : System ι κ η) (i : ι) : Decidable (calls.Overtaken sys i) :=
  match h : sys.mutators i with
  | .loaded snapshot version =>
    match hok : (calls.mutator i).apply snapshot with
    | .ok next =>
      if hlt : version < sys.version then .isTrue ⟨snapshot, version, next, h, hok, hlt⟩
      else .isFalse fun ⟨_, _, _, h', _, hlt'⟩ => by
        rw [h] at h'
        cases h'
        exact hlt hlt'
    | .error e => .isFalse fun ⟨_, _, _, h', hok', _⟩ => by
        rw [h] at h'
        cases h'
        rw [hok] at hok'
        exact nomatch hok'
  | .called | .stored _ | .returned _ _ | .failed _ =>
    .isFalse fun ⟨_, _, _, h', _⟩ => nomatch h.symm.trans h'

instance (schedule : List (ι ⊕ κ)) (sys : System ι κ η) :
    Decidable (calls.Isolated schedule sys) :=
  inferInstanceAs (Decidable (Schedule.Always ..))

end

section

/-- A snapshot before anything was registered. -/
def emptySnapshot : Snapshot Unit := { executor := {}, routeCacheMaxEntries := 10000 }

/-- Two registrations. -/
def registrations : Traffic Bool Empty Unit where
  host := .bare {}
  mutator second := .register ⟨{ name := if second then "audit" else "guard" }, 0⟩ ()
    ["tool_pre_invoke"]
  request := nofun

/-- One registration after the other. -/
theorem runtime_eq_applyAll_of_isolated_two :
    let sys := registrations.run [.inl false, .inl false, .inl false, .inl true, .inl true,
      .inl true] { runtime := emptySnapshot }
    ∃ order : List Bool, order.Nodup ∧ (∀ i, i ∈ order ↔ (sys.mutators i).Succeeded) ∧
      registrations.applyAll order emptySnapshot = .ok sys.runtime :=
  runtime_eq_applyAll_of_isolated (by decide +kernel)

/-- Both registrations load the snapshot before one of them stores. Both report success, and the
    plugin that was stored first is gone: no order of the two has this result. -/
theorem register_lost :
    let sys := registrations.run [.inl false, .inl true, .inl false, .inl false, .inl true,
      .inl true] { runtime := emptySnapshot }
    sys.mutators false = .returned 1 true ∧ sys.mutators true = .returned 2 true ∧
      ∀ order : List Bool, order.Nodup → (∀ i, i ∈ order ↔ (sys.mutators i).Succeeded) →
        registrations.applyAll order emptySnapshot ≠ .ok sys.runtime := by
  refine ⟨rfl, rfl, fun order hnodup hall hresult => ?_⟩
  have hperm : order.Perm [false, true] := by
    rw [List.perm_ext_iff_of_nodup hnodup (by decide)]
    intro i
    rw [hall]
    cases i <;> exact iff_of_true trivial (by decide)
  -- Whatever the order, a serial result has both plugins.
  have hserial : ∀ a b : Bool, a ≠ b →
      ((registrations.applyAll [a, b] emptySnapshot).toOption.bind fun snapshot =>
        snapshot.registry.plugins.lookup "guard").isSome = true := by
    decide +kernel
  obtain ⟨a, b, rfl⟩ := List.length_eq_two.mp hperm.length_eq
  have hguard := hserial a b (by simpa using hnodup)
  rw [hresult] at hguard
  exact nomatch hguard

end

end Cpex.Core
