import Cpex.Spec.Refusal

/-! # Local state across a hook invocation

A serial phase moves a plugin's context out of the table for the call, and back when the call is
settled. A SEQUENTIAL call that halts the pipeline returns before that, and the local state of its
plugin is gone. All other local states stay in the table, and those of plugins that were not called
are as they were.
-/

namespace Cpex.Core

variable {η π σ : Type} (rt : Runtime η π σ) (config : ExecutorConfig)

/-! ### One step -/

theorem settleSerial_ctxTable (canBlock canModify : Bool) (entry : HookEntry η)
    (invocation : Invocation π) (st : PipelineState η π σ) :
    (settleSerial config canBlock canModify entry invocation st).2.2.ctxTable = st.ctxTable := by
  unfold settleSerial serialFailure acceptModifications
  dsimp only
  repeat' split
  all_goals rfl

/-- A serial step leaves the other plugins' local states, and the plugin has one again unless the
    call halts. -/
theorem serialStep_localStates (mode : PluginMode) (canBlock canModify : Bool)
    (entry : HookEntry η) (st : PipelineState η π σ) :
    let out := serialStep rt config mode canBlock canModify entry st
    (∀ id ≠ entry.pluginRef.id,
        out.2.ctxTable.localStates.lookup id = st.ctxTable.localStates.lookup id) ∧
      (out.2.ctxTable.localStates.lookup entry.pluginRef.id).isSome = out.1.isNone := by
  unfold serialStep
  dsimp only
  generalize rt.timeout config entry.handler st.payload _ _ st.world = call
  have htable := settleSerial_ctxTable config canBlock canModify entry call.1
    { st with ctxTable := (st.ctxTable.takeContext entry.pluginRef.id).2, world := call.2.2 }
  generalize settleSerial config canBlock canModify entry call.1 _ = out at htable ⊢
  obtain ⟨violation, accepted, st'⟩ := out
  dsimp only [PluginContextTable.takeContext] at htable
  cases violation with
  | some v =>
    simp only [PipelineState.ran, htable]
    exact ⟨fun id hid => AList.lookup_erase_ne hid, by simp⟩
  | none =>
    simp only [PipelineState.ran, htable, PluginContextTable.storeContext]
    refine ⟨fun id hid => ?_, by simp⟩
    rw [AList.lookup_insert_ne hid, AList.lookup_erase_ne hid]

theorem refStep_ctxTable (st : PipelineState η π σ) (entry : HookEntry η) :
    (refStep rt config st entry).ctxTable = st.ctxTable := by
  unfold refStep
  dsimp only
  split <;> rfl

theorem runConcurrentPhase_ctxTable (entries : List (HookEntry η)) (st : PipelineState η π σ) :
    (runConcurrentPhase rt config entries st).2.ctxTable = st.ctxTable := by
  have hstep (acc : Option PluginViolation × PipelineState η π σ) (branch) :
      (concurrentStep config acc branch).2.ctxTable = acc.2.ctxTable := by
    unfold concurrentStep concurrentFailure
    repeat' split
    all_goals rfl
  unfold runConcurrentPhase
  split
  · rfl
  · refine List.foldlRecOn (motive := fun acc => acc.2.ctxTable = st.ctxTable) _
      (concurrentStep config) ?_ fun acc hacc branch _ => (hstep acc branch).trans hacc
    rfl

/-! ### Whole runs -/

/-- The local states of `table` where a run from it has got to. -/
structure LocalsKept (table : PluginContextTable) (st : PipelineState η π σ) : Prop where
  uncalled : ∀ id, (∀ r ∈ st.trace, r.entry.pluginRef.id ≠ id) →
    st.ctxTable.localStates.lookup id = table.localStates.lookup id
  kept : ∀ id, (table.localStates.lookup id).isSome →
    (st.ctxTable.localStates.lookup id).isSome ∨ ∃ r ∈ st.trace,
      r.mode.canModify = true ∧ r.halts = true ∧ r.entry.pluginRef.id = id
  lost : ∀ r ∈ st.trace, r.mode.canModify = true → r.halts = true →
    st.ctxTable.localStates.lookup r.entry.pluginRef.id = none

variable {rt config} {table : PluginContextTable} {st st' : PipelineState η π σ}

/-- Calls that only read leave the table. -/
theorem LocalsKept.readOnly (h : LocalsKept table st) (calls : ReadOnlyCalls st v st' rs)
    (htable : st'.ctxTable = st.ctxTable) :
    LocalsKept table st' := by
  constructor
  · intro id hid
    rw [calls.trace, List.forall_mem_append] at hid
    rw [htable]
    exact h.uncalled id hid.1
  · intro id hid
    rw [htable, calls.trace]
    refine (h.kept id hid).imp_right ?_
    rintro ⟨r, hr, hhalts⟩
    exact ⟨r, List.mem_append_left _ hr, hhalts⟩
  · intro r hr hmode hhalts
    rw [calls.trace] at hr
    rw [htable]
    rcases List.mem_append.mp hr with hr | hr
    · exact h.lost r hr hmode hhalts
    · exact nomatch (calls.canModify r hr).symm.trans hmode

/-- A serial call of a run that is still going. -/
theorem LocalsKept.serialStep (h : LocalsKept table st) (hgoing : st.trace.any Ran.halts = false)
    {mode : PluginMode} (hmode : mode.canModify = true) (entry : HookEntry η) :
    LocalsKept table (serialStep rt config mode mode.canBlock true entry st).2 := by
  obtain ⟨r, -, rfl, call⟩ := serialStep_call rt config mode hmode entry st
  obtain ⟨hothers, hown⟩ :=
    serialStep_localStates rt config mode mode.canBlock true r.entry st
  generalize Core.serialStep rt config mode mode.canBlock true r.entry st = out
    at call hothers hown ⊢
  have hhalts := call.halts
  constructor
  · intro id hid
    rw [call.trace, List.forall_mem_append] at hid
    rw [hothers id (hid.2 r (List.mem_singleton_self r)).symm]
    exact h.uncalled id hid.1
  · intro id hid
    rw [call.trace]
    by_cases hsame : id = r.entry.pluginRef.id
    · subst hsame
      cases hv : out.1 with
      | none => exact .inl (by rw [hown, hv]; rfl)
      | some v =>
        rw [hv] at hhalts
        exact .inr ⟨r, by simp, call.canModify, hhalts.symm, rfl⟩
    · rw [hothers id hsame]
      refine (h.kept id hid).imp_right ?_
      rintro ⟨r', hr', hhalts'⟩
      exact ⟨r', List.mem_append_left _ hr', hhalts'⟩
  · intro r' hr' _ hhalts'
    rw [call.trace] at hr'
    rcases List.mem_append.mp hr' with hr' | hr'
    · -- The run would have been over.
      exact absurd hhalts' (List.any_eq_false.mp hgoing r' hr')
    · cases List.mem_singleton.mp hr'
      rw [hhalts'] at hhalts
      cases hv : out.1 with
      | none => rw [hv] at hhalts; exact nomatch hhalts
      | some v => simpa [hv] using hown

variable (rt config)

/-- Every plugin with local state has local state after the invocation, exactly if no serial
    call that halted it was one of theirs; and the local state of a plugin that was not called is
    as it was. -/
theorem execute_localStates_iff (entries : List (HookEntry η)) (payload : π)
    (extensions : Extensions) (contextTable : Option PluginContextTable) (disabled : Finset Uuid)
    (world : σ) :
    let ex := execute rt config entries payload extensions contextTable disabled world
    let before := (contextTable.getD {}).localStates
    let after := ex.result.contextTable.localStates
    ((∀ id, (before.lookup id).isSome → (after.lookup id).isSome) ↔
        ∀ r ∈ ex.state.trace, r.mode.canModify = true → r.halts = true →
          before.lookup r.entry.pluginRef.id = none) ∧
      ∀ id, (∀ r ∈ ex.state.trace, r.entry.pluginRef.id ≠ id) →
        after.lookup id = before.lookup id := by
  intro ex before after
  have hrun : Run (.start payload extensions contextTable disabled world) ex.result.violation
      ex.state ∧ LocalsKept (contextTable.getD {}) ex.state := by
    refine execute_induction (P := fun v st => Run _ v st ∧ LocalsKept _ st)
      ⟨.start, fun _ _ => rfl, fun _ hid => .inl hid, fun r hr => nomatch hr⟩
      (fun mode hmode entry _ st h => ?_) (fun entry _ st h => ?_) fun st h => ?_
    · obtain ⟨r, -, -, call⟩ := serialStep_call rt config mode hmode entry st
      exact ⟨h.1.serial call, h.2.serialStep (h.1.halted_iff rfl).symm hmode entry⟩
    · obtain ⟨rs, -, calls⟩ := refStep_call rt config st entry
      exact ⟨h.1.readOnly calls, h.2.readOnly calls (refStep_ctxTable rt config st entry)⟩
    · obtain ⟨rs, -, calls⟩ := runConcurrentPhase_calls rt config _ st
      exact ⟨h.1.readOnly calls, h.2.readOnly calls (runConcurrentPhase_ctxTable rt config _ st)⟩
  have htable : ex.result.contextTable = ex.state.ctxTable := by
    rcases execute_result rt config entries payload extensions contextTable disabled world with
      ⟨v, hresult⟩ | hresult
    · exact congrArg (·.contextTable) hresult
    · exact congrArg (·.contextTable) hresult
  simp only [after, before, htable]
  refine ⟨⟨fun hkept r hr hmode hhalts => ?_, fun hnone id hid => ?_⟩, hrun.2.uncalled⟩
  · by_contra hsome
    have hstill := hkept _ (Option.isSome_iff_ne_none.mpr hsome)
    rw [hrun.2.lost r hr hmode hhalts] at hstill
    exact nomatch hstill
  · rcases hrun.2.kept id hid with hstill | ⟨r, hr, hmode, hhalts, rfl⟩
    · exact hstill
    · rw [hnone r hr hmode hhalts] at hid
      exact nomatch hid

/-- A plugin with local state denies: the table that is returned has no entry for it. -/
theorem execute_drops_local_state :
    let table : PluginContextTable := { localStates := AList.singleton 0 ∅ }
    let ex := execute .scripted {} [scriptedEntry "guard" (π := Nat)
      { continueProcessing := false, violation := some { code := "denied", reason := "" } }] 0 {}
      (some table) ∅ ()
    ex.result.continueProcessing = false ∧ (table.localStates.lookup 0).isSome = true ∧
      ex.result.contextTable.localStates.lookup 0 = none :=
  ⟨rfl, rfl, rfl⟩

end Cpex.Core
