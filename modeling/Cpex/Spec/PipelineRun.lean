import Cpex.ForStd.Walk
import Cpex.Native.Executor
import Cpex.Spec.RunBranches

/-! # Every hook invocation is a run of calls

`execute` interleaves filtering, calls, error policies and merges over five phases. `Run` says
what is left of it for a reader of the results: a sequence of handler calls, each of which
either halts the pipeline or hands over the state it may change.

Properties of `execute` over all entries and all handlers are proved by induction on `Run`,
with one case for a serial call and one for calls that only read.
-/

namespace Cpex.Core

variable {η π σ : Type}

/-! ### What a recorded call says -/

namespace Ran

/-- The fields the handler handed back, if it handed back any. -/
def erased (r : Ran η π) : Option (ErasedResultFields π) :=
  match r.invocation with
  | .returned result => result
  | _ => none

/-- The handler refused to continue. -/
def refuses (r : Ran η π) : Bool := r.erased.any fun e => !e.continueProcessing

/-- The handler refused to continue and said why. -/
def refusesWithViolation (r : Ran η π) : Bool :=
  r.erased.any fun e => !e.continueProcessing && e.violation.isSome

/-- The call ended without a result. -/
def failed (r : Ran η π) : Bool :=
  match r.invocation with
  | .returned _ => false
  | _ => true

/-- The call stops the pipeline. -/
def halts (r : Ran η π) : Bool :=
  match r.mode with
  | .sequential => r.refusesWithViolation || (r.failed && decide (r.entry.onError = .fail))
  | .concurrent => r.refuses || (r.failed && decide (r.entry.onError = .fail))
  | _ => false

/-- The payload the handler handed back. -/
def returnedPayload (r : Ran η π) : Option π := r.erased.bind (·.modifiedPayload)

/-- The extensions the handler handed back. -/
def owned (r : Ran η π) : Option OwnedExtensions := r.erased.bind (·.modifiedExtensions)

/-- The handler's extensions pass the tests of the merge. -/
def passesGate (r : Ran η π) : Bool :=
  r.owned.any fun owned => mergeGate r.before owned r.entry.capabilities

/-- The canonical extensions with the handler's edit merged in. -/
def merged (r : Ran η π) : Extensions :=
  match r.owned with
  | some owned => r.before.mergeOwned (grantTokens owned r.entry.capabilities)
  | none => r.before

end Ran

/-! ### Steps and runs -/

/-- One call of a serial phase took the pipeline from `st` to `st'`, halting on `v`. -/
structure SerialCall (st : PipelineState η π σ) (v : Option PluginViolation)
    (st' : PipelineState η π σ) (r : Ran η π) : Prop where
  trace : st'.trace = st.trace ++ [r]
  canModify : r.mode.canModify = true
  before : r.before = st.extensions
  halts : v.isSome = r.halts
  accepted : r.accepted = ⟨!r.halts && r.returnedPayload.isSome, !r.halts && r.passesGate⟩
  payload : st'.payload =
    if r.accepted.payload then r.returnedPayload.getD st.payload else st.payload
  payloadModified : st'.payloadModified = (st.payloadModified || r.accepted.payload)
  extensions : st'.extensions = if r.accepted.extensions then r.merged else st.extensions

/-- Calls that only read took the pipeline from `st` to `st'`, halting on `v`. -/
structure ReadOnlyCalls (st : PipelineState η π σ) (v : Option PluginViolation)
    (st' : PipelineState η π σ) (rs : List (Ran η π)) : Prop where
  trace : st'.trace = st.trace ++ rs
  canModify : ∀ r ∈ rs, r.mode.canModify = false
  before : ∀ r ∈ rs, r.before = st.extensions
  accepted : ∀ r ∈ rs, r.accepted = {}
  halts : v.isSome = rs.any Ran.halts
  payload : st'.payload = st.payload
  payloadModified : st'.payloadModified = st.payloadModified
  extensions : st'.extensions = st.extensions

/-- The pipeline goes from `st₀` to a state, halted on a violation or still going. -/
inductive Run (st₀ : PipelineState η π σ) :
    Option PluginViolation → PipelineState η π σ → Prop where
  | start : Run st₀ none st₀
  | serial {st v st' r} (run : Run st₀ none st) (call : SerialCall st v st' r) : Run st₀ v st'
  | readOnly {st v st' rs} (run : Run st₀ none st) (calls : ReadOnlyCalls st v st' rs) :
      Run st₀ v st'

variable {st₀ : PipelineState η π σ}

/-- A run ends with a violation exactly when one of its calls halts. -/
theorem Run.halted_iff (run : Run st₀ v st) (h₀ : st₀.trace = []) :
    v.isSome = st.trace.any Ran.halts := by
  induction run with
  | start => rw [h₀]; rfl
  | serial _ call ih =>
    -- The run was still going, so the new call decides.
    rw [call.trace, List.any_append, ← ih, call.halts, List.any_cons, List.any_nil, Bool.or_false]
    rfl
  | readOnly _ calls ih =>
    rw [calls.trace, List.any_append, ← ih, calls.halts]
    rfl

/-- The executor accepts what a call returned unless the call halts, and accepts nothing from
    calls that only read. -/
theorem Run.accepted (run : Run st₀ v st) (h₀ : st₀.trace = []) :
    ∀ r ∈ st.trace, r.mode.canModify = true →
      r.accepted = ⟨!r.halts && r.returnedPayload.isSome, !r.halts && r.passesGate⟩ := by
  induction run with
  | start => simp [h₀]
  | serial _ call ih =>
    intro r hr hmode
    rw [call.trace, List.mem_append, List.mem_singleton] at hr
    rcases hr with hr | rfl
    · exact ih r hr hmode
    · exact call.accepted
  | readOnly _ calls ih =>
    intro r hr hmode
    rw [calls.trace, List.mem_append] at hr
    rcases hr with hr | hr
    · exact ih r hr hmode
    · rw [calls.canModify r hr] at hmode
      exact nomatch hmode

/-- Error policies change nothing a plugin may modify, and no record. -/
structure Untouched (st st' : PipelineState η π σ) : Prop where
  trace : st'.trace = st.trace
  payload : st'.payload = st.payload
  payloadModified : st'.payloadModified = st.payloadModified
  extensions : st'.extensions = st.extensions

theorem Untouched.refl (st : PipelineState η π σ) : Untouched st st := ⟨rfl, rfl, rfl, rfl⟩

theorem Untouched.trans (h : Untouched a b) (h' : Untouched b c) :
    Untouched a c :=
  ⟨h'.trace.trans h.trace, h'.payload.trans h.payload,
    h'.payloadModified.trans h.payloadModified, h'.extensions.trans h.extensions⟩

theorem recordFailure_untouched (st : PipelineState η π σ) (entry : HookEntry η)
    (e : PluginError) : Untouched st (st.recordFailure entry e) := ⟨rfl, rfl, rfl, rfl⟩

/-! ### Serial phases -/

variable (rt : Runtime η π σ) (config : ExecutorConfig)

/-- The timer and the handler never report a joined task's panic. -/
theorem Runtime.timeout_ne_panicked (handler : η) (payload : π) (view : Extensions)
    (ctx : PluginContext) (world : σ) (text : String) :
    (rt.timeout config handler payload view ctx world).1 ≠ .panicked text := by
  unfold Runtime.timeout
  split
  · simp
  · split <;> simp

/-- A failed serial call halts under `on_error: fail` in a blocking phase, and otherwise only
    leaves a record. -/
theorem serialFailure_spec (canBlock : Bool) (entry : HookEntry η) (code reason : String)
    (e : PluginError) (st : PipelineState η π σ) :
    let out := serialFailure canBlock entry code reason e st
    out.1.isSome = (canBlock && decide (entry.onError = .fail)) ∧ Untouched st out.2 := by
  unfold serialFailure
  by_cases h : entry.onError = .fail ∧ canBlock
  · rw [if_pos h]
    exact ⟨by simp [h.1, h.2], .refl st⟩
  · rw [if_neg h]
    refine ⟨?_, recordFailure_untouched st entry e⟩
    cases canBlock <;> simp_all

/-- Accepting modifications: the payload if there is one, the extensions if they pass. -/
theorem acceptModifications_spec (entry : HookEntry η) (erased : ErasedResultFields π)
    (st : PipelineState η π σ) :
    let out := acceptModifications true entry erased st
    let passes := erased.modifiedExtensions.any fun owned =>
      mergeGate st.extensions owned entry.capabilities
    out.1 = ⟨erased.modifiedPayload.isSome, passes⟩ ∧ out.2.trace = st.trace ∧
      out.2.payload = erased.modifiedPayload.getD st.payload ∧
      out.2.payloadModified = (st.payloadModified || erased.modifiedPayload.isSome) := by
  unfold acceptModifications
  cases hp : erased.modifiedPayload <;> cases he : erased.modifiedExtensions with
  | none => simp
  | some owned => by_cases hg : mergeGate st.extensions owned entry.capabilities <;> simp [hg]

/-- The extensions after a call that returned `owned`, if it returned any. -/
def takenOver (extensions : Extensions) (capabilities : Finset String) :
    Option OwnedExtensions → Extensions
  | none => extensions
  | some owned =>
    if mergeGate extensions owned capabilities then
      extensions.mergeOwned (grantTokens owned capabilities)
    else extensions

theorem acceptModifications_extensions (entry : HookEntry η) (erased : ErasedResultFields π)
    (st : PipelineState η π σ) :
    (acceptModifications true entry erased st).2.extensions =
      takenOver st.extensions entry.capabilities erased.modifiedExtensions := by
  unfold acceptModifications takenOver
  cases erased.modifiedExtensions with
  | none => rfl
  | some owned =>
    dsimp only
    cases mergeGate st.extensions owned entry.capabilities <;> rfl

variable (mode : PluginMode) {erased : ErasedResultFields π}

section
variable (canBlock : Bool) (entry : HookEntry η) (st : PipelineState η π σ)

/-- What the handler of the entry does when the serial step calls it. -/
def serialCall : Invocation π :=
  (rt.timeout config entry.handler st.payload (serialView st.extensions entry.capabilities)
    (st.ctxTable.takeContext entry.pluginRef.id).1 st.world).1

variable (hreturned : serialCall rt config entry st = .returned (some erased))
include hreturned

/-- A step that does not stop the pipeline goes on with what the call returned. -/
theorem serialStep_extensions (hgo : (serialStep rt config mode canBlock true entry st).1 = none) :
    (serialStep rt config mode canBlock true entry st).2.extensions =
      takenOver st.extensions entry.capabilities erased.modifiedExtensions := by
  unfold serialStep at hgo ⊢
  unfold serialCall at hreturned
  dsimp only at hgo ⊢
  rw [hreturned] at hgo ⊢
  simp only [settleSerial] at hgo ⊢
  generalize (if !erased.continueProcessing && canBlock then erased.violation else none) =
    refusal at hgo ⊢
  cases refusal with
  | some v => exact nomatch hgo
  | none =>
    -- Storing the context and recording the call leave the extensions.
    exact acceptModifications_extensions entry erased _

/-- A serial step goes on with what a call that lets the pipeline continue returned. -/
theorem serialStep_returned (hgo : erased.continueProcessing = true) :
    (serialStep rt config mode canBlock true entry st).1 = none ∧
      (serialStep rt config mode canBlock true entry st).2.extensions =
        takenOver st.extensions entry.capabilities erased.modifiedExtensions := by
  have hnone : (serialStep rt config mode canBlock true entry st).1 = none := by
    unfold serialStep
    unfold serialCall at hreturned
    dsimp only
    rw [hreturned]
    simp only [settleSerial, hgo, Bool.not_true, Bool.false_and, Bool.false_eq_true, if_false]
  exact ⟨hnone, serialStep_extensions rt config mode canBlock entry st hreturned hnone⟩

end

/-- When a call of a modifying phase stops the pipeline. -/
theorem Ran.halts_of_canModify {r : Ran η π} (h : r.mode.canModify = true) :
    r.halts = (r.mode.canBlock &&
      (r.refusesWithViolation || (r.failed && decide (r.entry.onError = .fail)))) := by
  unfold Ran.halts
  cases hm : r.mode with
  | sequential => rfl
  | transform => rfl
  | audit | concurrent | fireAndForget | disabled => rw [hm] at h; exact nomatch h

/-- Settling a serial call does what its record says. -/
theorem settleSerial_spec (config : ExecutorConfig) (mode : PluginMode)
    (hmode : mode.canModify = true) (entry : HookEntry η)
    (hne : ∀ text, invocation ≠ .panicked text) (st : PipelineState η π σ) :
    let out := settleSerial config mode.canBlock true entry invocation st
    let r : Ran η π := ⟨mode, entry, st.extensions, invocation, out.2.1⟩
    out.1.isSome = r.halts ∧
      out.2.1 = ⟨!r.halts && r.returnedPayload.isSome, !r.halts && r.passesGate⟩ ∧
      out.2.2.trace = st.trace ∧
      out.2.2.payload =
        (if out.2.1.payload then r.returnedPayload.getD st.payload else st.payload) ∧
      out.2.2.payloadModified = (st.payloadModified || out.2.1.payload) ∧
      out.2.2.extensions = if out.2.1.extensions then r.merged else st.extensions := by
  intro out r
  have hhalts := Ran.halts_of_canModify (r := r) hmode
  rw [hhalts]
  cases invocation with
  | panicked text => exact absurd rfl (hne text)
  | failed _ | timedOut =>
    have hfails (code reason : String) (e : PluginError) :=
      serialFailure_spec mode.canBlock entry code reason e st
    exact ⟨(hfails _ _ _).1.trans
        (by simp [r, Ran.refusesWithViolation, Ran.erased, Ran.failed]),
      by simp [r, out, settleSerial, Ran.returnedPayload, Ran.passesGate, Ran.owned, Ran.erased],
      (hfails _ _ _).2.trace, (hfails _ _ _).2.payload,
      (hfails _ _ _).2.payloadModified.trans (Bool.or_false _).symm, (hfails _ _ _).2.extensions⟩
  | returned result =>
    cases result with
    | none => simp [r, out, settleSerial, Ran.refusesWithViolation, Ran.erased, Ran.failed,
        Ran.returnedPayload, Ran.passesGate, Ran.owned]
    | some erased =>
      obtain ⟨hacc, htrace, hpayload, hmod⟩ := acceptModifications_spec entry erased st
      let refusal := if !erased.continueProcessing && mode.canBlock then erased.violation else none
      have hrefusal : (mode.canBlock && (r.refusesWithViolation ||
          (r.failed && decide (r.entry.onError = .fail)))) = refusal.isSome := by
        simp only [r, refusal, Ran.refusesWithViolation, Ran.failed, Ran.erased, Option.any_some,
          Bool.false_and, Bool.or_false]
        cases mode.canBlock <;> cases erased.continueProcessing <;> simp
      rw [hrefusal]
      cases hr : refusal with
      | some v =>
        have hout : out = (some { v with pluginName := some entry.name }, {}, st) := by
          simp only [out, settleSerial, show (if _ then _ else _) = some v from hr]
        rw [hout]
        simp
      | none =>
        -- Also a refusal without a violation gets here.
        have hout : out = (none, acceptModifications true entry erased st) := by
          simp only [out, settleSerial, show (if _ then _ else _) = none from hr]
        rw [hout]
        refine ⟨rfl, hacc, htrace, ?_, ?_, ?_⟩
        · dsimp only
          rw [hpayload, hacc]
          show _ = if erased.modifiedPayload.isSome then erased.modifiedPayload.getD st.payload
            else st.payload
          cases erased.modifiedPayload <;> rfl
        · dsimp only
          rw [hmod, hacc]
        · dsimp only
          rw [acceptModifications_extensions, hacc]
          simp only [r, Ran.merged, Ran.owned, Ran.erased, Option.bind_some, takenOver]
          cases erased.modifiedExtensions <;> rfl

/-- The loop body of a serial phase is one call. -/
theorem serialStep_call (hmode : mode.canModify = true) (entry : HookEntry η)
    (st : PipelineState η π σ) :
    ∃ r, r.mode = mode ∧ r.entry = entry ∧ SerialCall st
      (serialStep rt config mode mode.canBlock true entry st).1
      (serialStep rt config mode mode.canBlock true entry st).2 r := by
  have hne := rt.timeout_ne_panicked config entry.handler st.payload
    (serialView st.extensions entry.capabilities)
    (st.ctxTable.takeContext entry.pluginRef.id).1 st.world
  unfold serialStep
  dsimp only
  generalize rt.timeout config entry.handler st.payload
    (serialView st.extensions entry.capabilities)
    (st.ctxTable.takeContext entry.pluginRef.id).1 st.world = call at hne ⊢
  obtain ⟨invocation, ctx, world⟩ := call
  obtain ⟨hv, hacc, htrace, hpayload, hmod, hext⟩ := settleSerial_spec config mode hmode entry hne
    { st with ctxTable := (st.ctxTable.takeContext entry.pluginRef.id).2, world }
  generalize settleSerial config mode.canBlock true entry invocation
    { st with ctxTable := (st.ctxTable.takeContext entry.pluginRef.id).2, world } = out
    at hv hacc htrace hpayload hmod hext ⊢
  obtain ⟨violation, accepted, st'⟩ := out
  refine ⟨⟨mode, entry, st.extensions, invocation, accepted⟩, rfl, rfl, ?_⟩
  -- The context table is not part of what a call is recorded to do.
  cases violation with
  | none | some v =>
    exact ⟨congrArg (· ++ _) htrace, hmode, rfl, hv, hacc, hpayload, hmod, hext⟩

theorem runSerialPhase_eq_walk (canBlock canModify : Bool) (entries : List (HookEntry η))
    (st : PipelineState η π σ) :
    runSerialPhase rt config mode canBlock canModify entries st =
      entries.walk (serialStep rt config mode canBlock canModify) st := by
  induction entries generalizing st with
  | nil => rfl
  | cons entry entries ih =>
    rw [runSerialPhase, List.walk]
    generalize serialStep rt config mode canBlock canModify entry st = out
    obtain ⟨violation, st'⟩ := out
    cases violation with
    | some v => rfl
    | none => exact ih st'

/-- A phase that cannot block reports no violation. -/
theorem runSerialPhase_transform_fst (entries : List (HookEntry η)) (st : PipelineState η π σ) :
    (runSerialPhase rt config .transform false true entries st).1 = none := by
  rw [runSerialPhase_eq_walk]
  refine List.walk_induction (P := fun violation _ => violation = none) (fun entry _ st _ => ?_) rfl
  obtain ⟨r, hr, -, call⟩ := serialStep_call rt config .transform rfl entry st
  have hnone := call.halts
  rw [Ran.halts_of_canModify call.canModify, hr] at hnone
  exact Option.not_isSome_iff_eq_none.mp (hnone ▸ Bool.false_ne_true)

/-! ### Phases that only read -/

/-- The loop body of the audit phase is one call that only reads. -/
theorem refStep_call (st : PipelineState η π σ) (entry : HookEntry η) :
    ∃ rs, (∀ r ∈ rs, r.entry = entry) ∧
      ReadOnlyCalls st none (refStep rt config st entry) rs := by
  unfold refStep
  dsimp only
  generalize rt.timeout config entry.handler st.payload
    (filterExtensions st.extensions entry.capabilities)
    (st.ctxTable.snapshotContext entry.pluginRef.id) st.world = call
  obtain ⟨invocation, ctx, world⟩ := call
  refine ⟨[⟨.audit, entry, st.extensions, invocation, {}⟩], by simp, ?_⟩
  cases invocation <;>
    exact ⟨rfl, by simp [PluginMode.canModify], by simp, by simp, rfl, rfl, rfl, rfl⟩

/-- An outcome the post-loop of the concurrent phase turns into a violation. -/
def haltsOn (branch : HookEntry η × BranchOutcome BranchData) : Bool :=
  match branch.2 with
  | .completed .allow | .aborted => false
  | .completed (.deny _) => true
  | .completed (.error _) | .timedOut | .panicked _ => decide (branch.1.onError = .fail)

/-- A failed concurrent call halts under `on_error: fail`, and otherwise only leaves a
    record. -/
theorem concurrentFailure_spec (entry : HookEntry η) (code reason : String) (e : PluginError)
    (acc : Option PluginViolation × PipelineState η π σ) :
    (concurrentFailure entry code reason e acc).1.isSome =
        (acc.1.isSome || decide (entry.onError = .fail)) ∧
      Untouched acc.2 (concurrentFailure entry code reason e acc).2 := by
  unfold concurrentFailure
  by_cases h : entry.onError = .fail
  · rw [if_pos h]
    exact ⟨by simp [h], .refl acc.2⟩
  · rw [if_neg h]
    exact ⟨by simp [h], recordFailure_untouched acc.2 entry e⟩

/-- The post-loop keeps a violation once some outcome halts. -/
theorem concurrentStep_spec (acc : Option PluginViolation × PipelineState η π σ)
    (branch : HookEntry η × BranchOutcome BranchData) :
    (concurrentStep config acc branch).1.isSome = (acc.1.isSome || haltsOn branch) ∧
      Untouched acc.2 (concurrentStep config acc branch).2 := by
  obtain ⟨entry, outcome⟩ := branch
  cases outcome with
  | completed data =>
    cases data with
    | allow => exact ⟨(Bool.or_false _).symm, .refl _⟩
    | deny v => exact ⟨by simp [concurrentStep, haltsOn], .refl _⟩
    | error e => exact concurrentFailure_spec entry _ _ _ acc
  | timedOut | panicked payload => exact concurrentFailure_spec entry _ _ _ acc
  | aborted => exact ⟨(Bool.or_false _).symm, .refl _⟩

/-- The post-loop over all outcomes. -/
theorem foldl_concurrentStep (branches : List (HookEntry η × BranchOutcome BranchData))
    (acc : Option PluginViolation × PipelineState η π σ) :
    (branches.foldl (concurrentStep config) acc).1.isSome =
        (acc.1.isSome || branches.any haltsOn) ∧
      Untouched acc.2 (branches.foldl (concurrentStep config) acc).2 := by
  induction branches generalizing acc with
  | nil => exact ⟨(Bool.or_false _).symm, .refl _⟩
  | cons branch branches ih =>
    obtain ⟨hv, htouch⟩ := concurrentStep_spec config acc branch
    obtain ⟨hv', htouch'⟩ := ih (concurrentStep config acc branch)
    refine ⟨?_, htouch.trans htouch'⟩
    rw [List.foldl_cons, hv', hv, List.any_cons, Bool.or_assoc]

/-- A concurrent call's record halts exactly when its outcome does. -/
theorem ConcurrentCall.record_halts (before : Extensions) (call : ConcurrentCall η π σ)
    (hown : ∀ v, outcome = .completed v → v = call.data) :
    (record before (call, outcome)).any Ran.halts = haltsOn (call.entry, outcome) := by
  cases outcome with
  | completed v =>
    rw [hown v rfl]
    unfold record ended data haltsOn
    cases call.answer with
    | error e => simp [Ran.halts, Ran.refuses, Ran.erased, Ran.failed]
    | ok result =>
      cases result with
      | none => simp [Ran.halts, Ran.refuses, Ran.erased, Ran.failed]
      | some erased =>
        cases h : erased.continueProcessing <;>
          simp [Ran.halts, Ran.refuses, Ran.erased, Ran.failed, h]
  | timedOut => simp [record, ended, haltsOn, Ran.halts, Ran.refuses, Ran.erased, Ran.failed]
  | panicked payload =>
    simp [record, ended, haltsOn, Ran.halts, Ran.refuses, Ran.erased, Ran.failed]
  | aborted => rfl

/-- Over lists: the records of the calls halt exactly when the outcomes do. -/
theorem any_halts_records (before : Extensions) (calls : List (ConcurrentCall η π σ))
    (outcomes : List (BranchOutcome BranchData))
    (hown : ∀ branch ∈ calls.zip outcomes, ∀ v, branch.2 = .completed v → v = branch.1.data) :
    ((calls.zip outcomes).filterMap (ConcurrentCall.record before)).any Ran.halts =
      ((calls.map (·.entry)).zip outcomes).any haltsOn := by
  induction calls generalizing outcomes with
  | nil => rfl
  | cons call calls ih =>
    cases outcomes with
    | nil => rfl
    | cons outcome outcomes =>
      have hrest := ih outcomes fun branch h => hown branch (List.mem_cons_of_mem _ h)
      have hhead := call.record_halts before (hown (call, outcome) List.mem_cons_self)
      rw [List.map_cons, List.zip_cons_cons, List.zip_cons_cons, List.any_cons, ← hrest, ← hhead]
      cases hrec : ConcurrentCall.record before (call, outcome) with
      | none => rw [List.filterMap_cons_none hrec]; rfl
      | some r => rw [List.filterMap_cons_some hrec]; rfl

/-- A completed branch carries its own call's data. -/
theorem concurrentOutcomes_own (calls : List (ConcurrentCall η π σ)) (world : σ) :
    ∀ branch ∈ calls.zip (concurrentOutcomes rt config calls world),
      ∀ v, branch.2 = .completed v → v = branch.1.data := by
  rintro ⟨call, outcome⟩ hmem v rfl
  obtain ⟨i, hi⟩ := List.mem_iff_getElem?.mp hmem
  obtain ⟨hcall, hout⟩ := List.getElem?_zip_eq_some.mp hi
  have adm := rt.admissible (concurrentConfig config) world (calls.map (·.data))
  have hv := adm.getElem?_of_completed hout
  rw [List.getElem?_map, hcall] at hv
  exact (Option.some.inj hv).symm

@[simp] theorem concurrentCalls_map_entry :
    (concurrentCalls rt entries st).map (·.entry) = entries := by
  apply List.ext_getElem?
  intro i
  simp [concurrentCalls, Function.comp_def]

/-- The concurrent phase only reads, and halts exactly when one of its calls does. -/
theorem runConcurrentPhase_calls (entries : List (HookEntry η)) (st : PipelineState η π σ) :
    ∃ rs, (∀ r ∈ rs, r.entry ∈ entries) ∧
      ReadOnlyCalls st (runConcurrentPhase rt config entries st).1
        (runConcurrentPhase rt config entries st).2 rs := by
  unfold runConcurrentPhase
  split
  · exact ⟨[], by simp, by simp, by simp, by simp, by simp, rfl, rfl, rfl, rfl⟩
  · dsimp only
    have hown := concurrentOutcomes_own rt config (concurrentCalls rt entries st) st.world
    generalize concurrentOutcomes rt config (concurrentCalls rt entries st) st.world = outcomes
      at hown ⊢
    have hany := any_halts_records st.extensions (concurrentCalls rt entries st) outcomes hown
    rw [concurrentCalls_map_entry] at hany
    obtain ⟨hv, htouch⟩ := foldl_concurrentStep config (entries.zip outcomes)
      (none, { st with
        world := rt.join st.world ((concurrentCalls rt entries st).map (·.world))
        trace := st.trace ++ ((concurrentCalls rt entries st).zip outcomes).filterMap
          (ConcurrentCall.record st.extensions) })
    have hrec : ∀ r ∈ ((concurrentCalls rt entries st).zip outcomes).filterMap
        (ConcurrentCall.record st.extensions),
        r.entry ∈ entries ∧ r.mode = .concurrent ∧ r.before = st.extensions ∧
          r.accepted = {} := by
      intro r hr
      obtain ⟨⟨call, outcome⟩, hbranch, hrecord⟩ := List.mem_filterMap.mp hr
      obtain ⟨invocation, -, rfl⟩ := Option.map_eq_some_iff.mp hrecord
      have hcall : call.entry ∈ (concurrentCalls rt entries st).map (·.entry) :=
        List.mem_map_of_mem (List.of_mem_zip hbranch).1
      rw [concurrentCalls_map_entry] at hcall
      exact ⟨hcall, rfl, rfl, rfl⟩
    refine ⟨_, fun r hr => (hrec r hr).1, htouch.trace, ?_, fun r hr => (hrec r hr).2.2.1,
      fun r hr => (hrec r hr).2.2.2, ?_, htouch.payload, htouch.payloadModified,
      htouch.extensions⟩
    · intro r hr
      rw [(hrec r hr).2.1]
      rfl
    · rw [hany]
      exact hv.trans (Bool.false_or _)

/-! ### `execute` -/

section
variable {rt config} {entries : List (HookEntry η)}
  {P : Option PluginViolation → PipelineState η π σ → Prop}

variable {payload : π} {extensions : Extensions} {contextTable : Option PluginContextTable}
  {disabled : Finset Uuid} {world : σ}

/-- What the steps of all phases keep holds where `execute` ends. -/
theorem execute_induction
    (hstart : P none (.start payload extensions contextTable disabled world))
    (hserial : ∀ mode : PluginMode, mode.canModify = true →
      ∀ entry ∈ groupByMode disabled entries mode, ∀ st, P none st →
        P (serialStep rt config mode mode.canBlock true entry st).1
          (serialStep rt config mode mode.canBlock true entry st).2)
    (haudit : ∀ entry ∈ groupByMode disabled entries .audit, ∀ st, P none st →
      P none (refStep rt config st entry))
    (hconcurrent : ∀ st, P none st →
      let out := runConcurrentPhase rt config (groupByMode disabled entries .concurrent) st
      P out.1 out.2) :
    let ex := execute rt config entries payload extensions contextTable disabled world
    P ex.result.violation ex.state := by
  unfold execute
  dsimp only
  split
  · exact hstart
  · have hsequential := List.walk_induction (hserial .sequential rfl) hstart
    rw [← runSerialPhase_eq_walk] at hsequential
    change P (runSerialPhase rt config .sequential true true _ _).1
      (runSerialPhase rt config .sequential true true _ _).2 at hsequential
    generalize runSerialPhase rt config .sequential true true _ _ = out at hsequential ⊢
    obtain ⟨violation, st⟩ := out
    cases violation with
    | some v => exact hsequential
    | none =>
      have htransform := List.walk_induction (hserial .transform rfl) hsequential
      rw [← runSerialPhase_eq_walk] at htransform
      change P (runSerialPhase rt config .transform false true _ st).1
        (runSerialPhase rt config .transform false true _ st).2 at htransform
      rw [runSerialPhase_transform_fst] at htransform
      have haudited : P none (runRefPhase rt config (groupByMode disabled entries .audit) _) :=
        List.foldlRecOn _ (refStep rt config) htransform fun st h entry he =>
          haudit entry he st h
      have hend := hconcurrent _ haudited
      dsimp only [executeRest] at hend ⊢
      generalize runConcurrentPhase rt config _ _ = out at hend ⊢
      obtain ⟨violation, st'⟩ := out
      cases violation <;> exact hend

end

variable (entries : List (HookEntry η)) (payload : π) (extensions : Extensions)
  (contextTable : Option PluginContextTable) (disabled : Finset Uuid) (world : σ)

/-- The result of `execute` is a denial or an approval, in the state it ended in. -/
theorem execute_result :
    let ex := execute rt config entries payload extensions contextTable disabled world
    (∃ v, ex.result = (ex.state.deny v).result) ∨
      ex.result =
        { PipelineResult.allowedWith ex.state.payload ex.state.extensions ex.state.ctxTable with
          errors := ex.state.errors, payloadModified := ex.state.payloadModified } := by
  unfold execute
  dsimp only
  split
  · exact .inr rfl
  · rcases runSerialPhase rt config .sequential true true _ _ with ⟨_ | v, st⟩
    · dsimp only [executeRest]
      rcases runConcurrentPhase rt config _ _ with ⟨_ | v, st'⟩
      · exact .inr rfl
      · exact .inl ⟨v, rfl⟩
    · exact .inl ⟨v, rfl⟩

/-- The result of `execute` reports the state it ended in. -/
structure Reports (ex : Execution η π σ) : Prop where
  violation : ex.result.continueProcessing = ex.result.violation.isNone
  extensions : ex.result.modifiedExtensions = some ex.state.extensions
  payload : ex.result.continueProcessing = true →
    ex.result.modifiedPayload = some ex.state.payload
  payloadModified : ex.result.continueProcessing = true →
    ex.result.payloadModified = ex.state.payloadModified

/-- `execute` is a run from its starting state, and its result reports where the run ended. -/
theorem execute_run :
    let ex := execute rt config entries payload extensions contextTable disabled world
    Run (.start payload extensions contextTable disabled world) ex.result.violation ex.state ∧
      Reports ex := by
  refine ⟨execute_induction .start (fun mode hmode entry _ st run => ?_)
    (fun entry _ st run => ?_) fun st run => ?_, ?_⟩
  · obtain ⟨r, -, -, call⟩ := serialStep_call rt config mode hmode entry st
    exact run.serial call
  · obtain ⟨rs, -, calls⟩ := refStep_call rt config st entry
    exact run.readOnly calls
  · obtain ⟨rs, -, calls⟩ := runConcurrentPhase_calls rt config _ st
    exact run.readOnly calls
  · rcases execute_result rt config entries payload extensions contextTable disabled world with
      ⟨v, hresult⟩ | hresult
    · constructor <;> rw [hresult] <;> simp [PipelineState.deny, PipelineResult.denied]
    · constructor <;> rw [hresult] <;> simp [PipelineResult.allowedWith]

/-- The executor calls handlers of the entries it is given, and no others. -/
theorem execute_trace :
    ∀ r ∈ (execute rt config entries payload extensions contextTable disabled world).state.trace,
      r.entry ∈ entries := by
  refine execute_induction (P := fun _ st => ∀ r ∈ st.trace, r.entry ∈ entries)
    (fun r hr => nomatch hr) (fun mode hmode entry hentry st h => ?_)
    (fun entry hentry st h => ?_) fun st h => ?_
  · obtain ⟨r, -, rfl, call⟩ := serialStep_call rt config mode hmode entry st
    rw [call.trace, List.forall_mem_append]
    exact ⟨h, by simpa using List.mem_of_mem_filter hentry⟩
  · obtain ⟨rs, hrs, calls⟩ := refStep_call rt config st entry
    rw [calls.trace, List.forall_mem_append]
    exact ⟨h, fun r hr => hrs r hr ▸ List.mem_of_mem_filter hentry⟩
  · obtain ⟨rs, hrs, calls⟩ := runConcurrentPhase_calls rt config _ st
    dsimp only
    rw [calls.trace, List.forall_mem_append]
    exact ⟨h, fun r hr => List.mem_of_mem_filter (hrs r hr)⟩

/-! ### A small runtime -/

/-- A runtime without timeouts, whose handlers run `handle`. -/
def Runtime.direct (handle : η → π → Extensions → σ → ErasedResultFields π × σ) :
    Runtime η π σ where
  invoke handler payload view ctx world :=
    let (result, world) := handle handler payload view world
    (.ok (some result), ctx, world)
  elapsed _ _ _ _ _ _ := none
  fork world _ := world
  join world _ := world
  schedule _ _ values := values.zipIdx.map fun v => .finished v.2 (.completed v.1)
  admissible _ _ values := .inOrder _ _ values

end Cpex.Core
