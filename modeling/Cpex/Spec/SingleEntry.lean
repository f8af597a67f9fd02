import Cpex.Spec.PipelineRun

/-! # Pipelines of one entry

The invokers of a route run the executor on one entry at a time, and so does the manager on a
route that has a handler. Such a pipeline is one serial call, or calls that only read.
-/

namespace Cpex.Core

variable {η π σ : Type}

/-- The execution that ends with a serial step. -/
def PipelineState.settled : Option PluginViolation × PipelineState η π σ → Execution η π σ
  | (some v, st) => st.deny v
  | (none, st) =>
    { result := { PipelineResult.allowedWith st.payload st.extensions st.ctxTable with
        errors := st.errors, payloadModified := st.payloadModified }
      background := []
      state := st }

/-- The handler was called on `payload`, and handed back the payload `out`. -/
def Runtime.Answers (rt : Runtime η π σ) (handler : η) (payload : π) (world : σ) (out : π)
    (world' : σ) : Prop :=
  ∃ view ctx erased ctx', rt.invoke handler payload view ctx world =
    (.ok (some erased), ctx', world') ∧ erased.modifiedPayload = some out

theorem groupByMode_single :
    groupByMode disabled [entry] mode =
      if entry.pluginRef.mode disabled = mode then [entry] else [] := by
  unfold groupByMode
  by_cases h : entry.pluginRef.mode disabled = mode <;> simp [h]

section
variable (rt : Runtime η π σ) (config : ExecutorConfig) (entry : HookEntry η)

@[simp] theorem runSerialPhase_single :
    runSerialPhase rt config mode canBlock canModify [entry] st =
      serialStep rt config mode canBlock canModify entry st := by
  unfold runSerialPhase
  generalize serialStep rt config mode canBlock canModify entry st = out
  obtain ⟨violation, st'⟩ := out
  cases violation <;> rfl

/-- Without entries in the later phases, `execute` ends where the serial phases did. -/
theorem executeRest_empty (group : PluginMode → List (HookEntry η)) (st : PipelineState η π σ)
    (haudit : group .audit = []) (hconcurrent : group .concurrent = [])
    (hforget : group .fireAndForget = []) :
    executeRest rt config group st = PipelineState.settled
      (none, (runSerialPhase rt config .transform false true (group .transform) st).2) := by
  unfold executeRest
  rw [haudit, hconcurrent, hforget]
  rfl

variable (payload : π) (extensions : Extensions) (contextTable : Option PluginContextTable)
  (disabled : Finset Uuid) (world : σ)

/-- The pipeline of a modifying entry is one serial step. -/
theorem execute_single_serial (h : (entry.pluginRef.mode disabled).canModify = true) :
    execute rt config [entry] payload extensions contextTable disabled world =
      PipelineState.settled (serialStep rt config (entry.pluginRef.mode disabled)
        (entry.pluginRef.mode disabled).canBlock true entry
        (.start payload extensions contextTable disabled world)) := by
  unfold execute
  dsimp only
  generalize PipelineState.start payload extensions contextTable disabled world = st
  cases hmode : entry.pluginRef.mode disabled with
  | audit | concurrent | fireAndForget | disabled => rw [hmode] at h; exact nomatch h
  | sequential =>
    have hother (m : PluginMode) (hm : m ≠ .sequential) : groupByMode disabled [entry] m = [] := by
      rw [groupByMode_single, hmode, if_neg hm.symm]
    rw [groupByMode_single, if_pos hmode, runSerialPhase_single]
    change _ = PipelineState.settled (serialStep rt config .sequential true true entry st)
    generalize serialStep rt config .sequential true true entry st = out
    obtain ⟨violation, st'⟩ := out
    cases violation with
    | some v => rfl
    | none =>
      dsimp only
      rw [executeRest_empty rt config _ st' (hother _ (by decide)) (hother _ (by decide))
        (hother _ (by decide)), hother _ (by decide)]
      rfl
  | transform =>
    have hother (m : PluginMode) (hm : m ≠ .transform) : groupByMode disabled [entry] m = [] := by
      rw [groupByMode_single, hmode, if_neg hm.symm]
    have hnone := runSerialPhase_transform_fst rt config [entry] st
    rw [runSerialPhase_single] at hnone
    rw [hother .sequential (by decide)]
    change executeRest rt config (groupByMode disabled [entry]) st =
      PipelineState.settled (serialStep rt config .transform false true entry st)
    rw [executeRest_empty rt config _ st (hother _ (by decide)) (hother _ (by decide))
      (hother _ (by decide)), groupByMode_single, if_pos hmode, runSerialPhase_single, ← hnone]

/-- The pipeline of any other entry only reads. -/
theorem execute_single_readOnly (h : (entry.pluginRef.mode disabled).canModify = false) :
    let st := (execute rt config [entry] payload extensions contextTable disabled world).state
    st.payload = payload ∧ st.extensions = extensions ∧ st.payloadModified = false := by
  have hkept {st st' : PipelineState η π σ} {v : Option PluginViolation} {rs : List (Ran η π)}
      (hst : st.payload = payload ∧ st.extensions = extensions ∧ st.payloadModified = false)
      (calls : ReadOnlyCalls st v st' rs) :
      st'.payload = payload ∧ st'.extensions = extensions ∧ st'.payloadModified = false := by
    rw [calls.payload, calls.extensions, calls.payloadModified]
    exact hst
  refine execute_induction (P := fun _ st => st.payload = payload ∧ st.extensions = extensions ∧
    st.payloadModified = false) ⟨rfl, rfl, rfl⟩ (fun mode hmode e he => ?_) (fun e _ st hst => ?_)
    fun st hst => ?_
  · -- The serial phases are empty.
    rw [groupByMode_single] at he
    split at he
    · next heq => exact nomatch (heq ▸ h).symm.trans hmode
    · exact nomatch he
  · obtain ⟨rs, -, calls⟩ := refStep_call rt config st e
    exact hkept hst calls
  · obtain ⟨rs, -, calls⟩ := runConcurrentPhase_calls rt config _ st
    exact hkept hst calls

/-- A call that returned ran to its end. -/
theorem Runtime.invoke_of_timeout
    (h : rt.timeout config handler payload view ctx world = (.returned result, ctx', world')) :
    rt.invoke handler payload view ctx world = (.ok result, ctx', world') := by
  unfold Runtime.timeout at h
  cases helapsed : rt.elapsed config.timeoutSeconds handler payload view ctx world with
  | some left => simp [helapsed] at h
  | none =>
    cases hinvoke : rt.invoke handler payload view ctx world with
    | mk answer left =>
    cases answer with
    | error e => simp [helapsed, hinvoke] at h
    | ok res =>
      simp only [helapsed, hinvoke, Prod.mk.injEq, Invocation.returned.injEq] at h
      rw [← h.1, ← h.2.1, ← h.2.2]

/-- Settling a call keeps the payload, or takes the one that was returned. -/
theorem settleSerial_payload (canBlock : Bool) (invocation : Invocation π)
    (st : PipelineState η π σ) :
    let st' := (settleSerial config canBlock true entry invocation st).2.2
    st'.world = st.world ∧
      (st'.payload = st.payload ∧ st'.payloadModified = st.payloadModified ∨
        ∃ erased, invocation = .returned (some erased) ∧
          erased.modifiedPayload = some st'.payload) := by
  have hfailure (code reason : String) (e : PluginError) :
      let st' := (serialFailure canBlock entry code reason e st).2
      st'.world = st.world ∧ st'.payload = st.payload ∧
        st'.payloadModified = st.payloadModified := by
    unfold serialFailure
    split <;> exact ⟨rfl, rfl, rfl⟩
  cases invocation with
  | panicked text => exact ⟨rfl, .inl ⟨rfl, rfl⟩⟩
  | failed e => exact ⟨(hfailure _ _ e).1, .inl (hfailure _ _ e).2⟩
  | timedOut => exact ⟨(hfailure _ _ _).1, .inl (hfailure _ _ _).2⟩
  | returned result =>
    cases result with
    | none => exact ⟨rfl, .inl ⟨rfl, rfl⟩⟩
    | some erased =>
      simp only [settleSerial]
      generalize (if (!erased.continueProcessing && canBlock) = true then erased.violation
        else none) = refusal
      cases refusal with
      | some v => exact ⟨rfl, .inl ⟨rfl, rfl⟩⟩
      | none =>
        simp only [acceptModifications, if_true]
        cases hp : erased.modifiedPayload with
        | none => exact ⟨trivial, .inl ⟨rfl, rfl⟩⟩
        | some out => exact ⟨trivial, .inr ⟨erased, rfl, hp⟩⟩

/-- A serial step keeps the payload, or takes the one the handler answered with. -/
theorem serialStep_payload (mode : PluginMode) (canBlock : Bool) (st : PipelineState η π σ) :
    let st' := (serialStep rt config mode canBlock true entry st).2
    st'.payload = st.payload ∧ st'.payloadModified = st.payloadModified ∨
      rt.Answers entry.handler st.payload st.world st'.payload st'.world := by
  unfold serialStep
  dsimp only
  generalize st.ctxTable.takeContext entry.pluginRef.id = taken
  obtain ⟨ctx, ctxTable⟩ := taken
  cases hcall : rt.timeout config entry.handler st.payload
    (serialView st.extensions entry.capabilities) ctx st.world with
  | mk invocation left =>
  obtain ⟨ctx', world'⟩ := left
  obtain ⟨hworld, hpayload⟩ := settleSerial_payload config entry canBlock invocation
    { st with ctxTable, world := world' }
  generalize settleSerial config canBlock true entry invocation
    { st with ctxTable, world := world' } = out at hworld hpayload ⊢
  obtain ⟨violation, accepted, st'⟩ := out
  -- Whether the step halts only decides what becomes of the plugin's context.
  suffices hanswer : st'.payload = st.payload ∧ st'.payloadModified = st.payloadModified ∨
      rt.Answers entry.handler st.payload st.world st'.payload st'.world by
    cases violation <;> exact hanswer
  rcases hpayload with hsame | ⟨erased, rfl, hout⟩
  · exact .inl hsame
  · have hinvoke := rt.invoke_of_timeout config st.payload st.world hcall
    rw [← show st'.world = world' from hworld] at hinvoke
    exact .inr ⟨_, _, erased, _, hinvoke, hout⟩

/-- The payload an allowed pipeline of one entry returns is the one it was given, or the one the
    entry's handler answered with. -/
theorem execute_single_payload (out : π) :
    let ex := execute rt config [entry] payload extensions contextTable disabled world
    ex.result.continueProcessing = true → ex.result.modifiedPayload = some out →
      (out = payload ∧ ex.result.payloadModified = false ∨
        rt.Answers entry.handler payload world out ex.state.world) := by
  dsimp only
  intro hallowed hout
  have reports := (execute_run rt config [entry] payload extensions contextTable disabled world).2
  obtain rfl : _ = out := Option.some.inj ((reports.payload hallowed).symm.trans hout)
  rw [reports.payloadModified hallowed]
  cases hmode : (entry.pluginRef.mode disabled).canModify with
  | false =>
    have hreads := execute_single_readOnly rt config entry payload extensions contextTable disabled
      world hmode
    exact .inl ⟨hreads.1, hreads.2.2⟩
  | true =>
    have hstep := serialStep_payload rt config entry (entry.pluginRef.mode disabled)
      (entry.pluginRef.mode disabled).canBlock
      (.start payload extensions contextTable disabled world)
    rw [execute_single_serial rt config entry payload extensions contextTable disabled world hmode]
    generalize serialStep rt config (entry.pluginRef.mode disabled)
      (entry.pluginRef.mode disabled).canBlock true entry
      (.start payload extensions contextTable disabled world) = step at hstep ⊢
    obtain ⟨violation, st'⟩ := step
    cases violation <;> exact hstep

/-- The extensions an allowed pipeline of one modifying entry reports. -/
theorem execute_single_extensions (hmode : (entry.pluginRef.mode disabled).canModify = true)
    (hgo : erased.continueProcessing = true)
    (hcall : ∀ ctx, (rt.timeout config entry.handler payload
      (serialView extensions entry.capabilities) ctx world).1 = .returned (some erased)) :
    (execute rt config [entry] payload extensions contextTable disabled
        world).result.modifiedExtensions =
      some (takenOver extensions entry.capabilities erased.modifiedExtensions) := by
  rw [execute_single_serial rt config entry payload extensions contextTable disabled world hmode]
  obtain ⟨hgoes, hextensions⟩ := serialStep_returned rt config (entry.pluginRef.mode disabled)
    (entry.pluginRef.mode disabled).canBlock entry
    (.start payload extensions contextTable disabled world) (hcall _) hgo
  generalize serialStep rt config _ _ true entry _ = out at hgoes hextensions ⊢
  obtain ⟨violation, st'⟩ := out
  obtain rfl : violation = none := hgoes
  exact congrArg some hextensions

end

end Cpex.Core
