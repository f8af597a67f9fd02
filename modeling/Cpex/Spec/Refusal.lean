import Cpex.Spec.PipelineRun

/-! # Refusals and the pipeline's verdict

The pipeline denies exactly when one of its calls halts it. A Concurrent refusal always halts.
A Sequential refusal halts only if the handler attached a violation; without one it is treated
as consent, its modifications included.
-/

namespace Cpex.Core

variable {η π σ : Type}

/-- Every blocking plugin that refused stopped the pipeline, and nothing of a refusing
    Sequential plugin was accepted. -/
def RefusalsRespected (ex : Execution η π σ) : Prop :=
  ∀ r ∈ ex.state.trace, r.mode.canBlock = true → r.refuses = true →
    ex.result.continueProcessing = false ∧ ex.result.violation.isSome = true ∧
      (r.mode = .sequential → r.accepted.payload = false ∧ r.accepted.extensions = false)

variable {r : Ran η π}

/-- A handler that refused handed back a result. -/
theorem Ran.failed_of_refuses (h : r.refuses = true) : r.failed = false := by
  unfold Ran.refuses Ran.erased at h
  unfold Ran.failed
  cases hi : r.invocation with
  | returned result => rfl
  | failed e | timedOut | panicked text => rw [hi] at h; exact nomatch h

/-- A Sequential refusal halts exactly when it carries a violation. -/
theorem Ran.halts_of_refuses_sequential (hmode : r.mode = .sequential) (h : r.refuses = true) :
    r.halts = r.refusesWithViolation := by
  rw [Ran.halts_of_canModify (by rw [hmode]; rfl), Ran.failed_of_refuses h, hmode]
  simp [PluginMode.canBlock]

/-- A Concurrent refusal always halts. -/
theorem Ran.halts_of_refuses_concurrent (hmode : r.mode = .concurrent) (h : r.refuses = true) :
    r.halts = true := by
  unfold Ran.halts
  rw [hmode]
  simp [h]

/-- Every refusal stops the pipeline exactly when each Sequential plugin that refuses without
    a violation hands back nothing the executor would take over, and another call halts. -/
theorem execute_respects_refusals_iff (rt : Runtime η π σ) (config : ExecutorConfig)
    (entries : List (HookEntry η)) (payload : π) (extensions : Extensions)
    (contextTable : Option PluginContextTable) (disabled : Finset Uuid) (world : σ) :
    let ex := execute rt config entries payload extensions contextTable disabled world
    RefusalsRespected ex ↔
      ∀ r ∈ ex.state.trace, r.mode = .sequential → r.refuses = true →
        r.refusesWithViolation = false →
          r.returnedPayload = none ∧ r.passesGate = false ∧
            ∃ other ∈ ex.state.trace, other.halts = true := by
  intro ex
  obtain ⟨run, reports⟩ := execute_run rt config entries payload extensions contextTable disabled
    world
  have hhalted := run.halted_iff rfl
  have haccepted := run.accepted rfl
  have hdenied : ex.result.continueProcessing = false ↔ ex.result.violation.isSome = true := by
    rw [reports.violation]
    cases ex.result.violation <;> simp
  constructor
  · intro h r hr hmode hrefuses hsilent
    obtain ⟨-, hv, hnone⟩ := h r hr (by rw [hmode]; rfl) hrefuses
    have hkeep := haccepted r hr (by rw [hmode]; rfl)
    rw [Ran.halts_of_refuses_sequential hmode hrefuses, hsilent] at hkeep
    obtain ⟨hp, he⟩ := hnone hmode
    rw [hkeep] at hp he
    refine ⟨by simpa using hp, by simpa using he, ?_⟩
    rw [hhalted] at hv
    exact List.any_eq_true.mp hv
  · intro h r hr hblock hrefuses
    cases hmode : r.mode with
    | concurrent =>
      have hv : ex.result.violation.isSome = true := by
        rw [hhalted]
        exact List.any_eq_true.mpr ⟨r, hr, Ran.halts_of_refuses_concurrent hmode hrefuses⟩
      exact ⟨hdenied.mpr hv, hv, nofun⟩
    | sequential =>
      have hkeep := haccepted r hr (by rw [hmode]; rfl)
      have hhalts := Ran.halts_of_refuses_sequential hmode hrefuses
      cases hsilent : r.refusesWithViolation with
      | true =>
        rw [hsilent] at hhalts
        have hv : ex.result.violation.isSome = true := by
          rw [hhalted]
          exact List.any_eq_true.mpr ⟨r, hr, hhalts⟩
        rw [hkeep, hhalts]
        exact ⟨hdenied.mpr hv, hv, fun _ => ⟨rfl, rfl⟩⟩
      | false =>
        obtain ⟨hp, he, other, hother, hhalt⟩ := h r hr hmode hrefuses hsilent
        have hv : ex.result.violation.isSome = true := by
          rw [hhalted]
          exact List.any_eq_true.mpr ⟨other, hother, hhalt⟩
        rw [hkeep, hp, he]
        exact ⟨hdenied.mpr hv, hv, fun _ => by simp⟩
    | transform | audit | fireAndForget | disabled => rw [hmode] at hblock; exact nomatch hblock

/-! ### A refusal that is delivered -/

/-- Handlers that return themselves. -/
def Runtime.scripted : Runtime (ErasedResultFields π) π Unit :=
  .direct fun handler _ _ _ => (handler, ())

/-- A plugin in SEQUENTIAL mode without capabilities, returning `result`. -/
def scriptedEntry (name : String) (result : ErasedResultFields π) :
    HookEntry (ErasedResultFields π) where
  pluginRef := { trustedConfig := { name }, id := 0 }
  handler := result

/-- A Sequential plugin refuses without a violation and hands back another payload: the
    pipeline is allowed, with that payload. -/
theorem execute_passes_silent_refusal :
    let ex := execute .scripted {} [scriptedEntry "guard" (π := Nat)
      { continueProcessing := false, modifiedPayload := some 1 }] 0 {} none ∅ ()
    ex.result.continueProcessing = true ∧ ex.result.modifiedPayload = some 1 ∧
      ¬ RefusalsRespected ex := by
  refine ⟨rfl, rfl, fun h => ?_⟩
  have hrespected := h _ List.mem_cons_self rfl rfl
  exact nomatch hrespected.1

end Cpex.Core
