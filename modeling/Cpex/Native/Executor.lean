import Cpex.Native.Orchestration
import Cpex.Native.Plugin

/-! # The plugin executor

`cpex-core/src/executor.rs`: one hook invocation through the phases SEQUENTIAL, TRANSFORM,
AUDIT, CONCURRENT and FIRE_AND_FORGET.

Handlers are code outside the repository. `Runtime` keeps them as arbitrary functions over an
arbitrary state `σ`, together with the timer and the task set of the async runtime. A handler
that panics in a serial phase unwinds out of `execute`, which then has no result; panics are
therefore only seen in the concurrent phase, where tasks are joined.

`PipelineState.trace` is not in the source: it records every handler call that ended, what the
call returned, and whether the executor accepted its modifications. -/

namespace Cpex.Core

/-- `ExecutorConfig`. -/
structure ExecutorConfig where
  timeoutSeconds : Nat := 30
  shortCircuitOnDeny : Bool := true

/-- `ErasedResultFields`: what a handler hands back, for payloads of type `π`. -/
structure ErasedResultFields (π : Type) where
  continueProcessing : Bool := true
  modifiedPayload : Option π := none
  modifiedExtensions : Option OwnedExtensions := none
  violation : Option PluginViolation := none

/-- How a handler call ended. `extract_erased` finds no fields in a result of another type. -/
inductive Invocation (π : Type) where
  | returned (result : Option (ErasedResultFields π))
  | failed (e : PluginError)
  | timedOut
  | panicked (payload : String)

/-- `BranchData` of the concurrent phase. -/
inductive BranchData where
  | allow
  | deny (violation : Option PluginViolation)
  | error (e : PluginError)

/-- The `is_deny` predicate of the concurrent phase. -/
def BranchData.isDeny : BranchData → Bool
  | .deny _ => true
  | _ => false

/-- The handlers, and the async runtime they run on. -/
structure Runtime (η π σ : Type) where
  /-- `AnyHookHandler::invoke`, run to its end. -/
  invoke : η → π → Extensions → PluginContext → σ →
    Except PluginError (Option (ErasedResultFields π)) × PluginContext × σ
  /-- Whether the timer fires before the call ends, and then what the call leaves behind. -/
  elapsed : Nat → η → π → Extensions → PluginContext → σ → Option (PluginContext × σ)
  /-- The state as concurrent branch `i` sees it. -/
  fork : σ → Nat → σ
  /-- The state after the concurrent branches. -/
  join : σ → List σ → σ
  /-- The joins of concurrent branches that return `values` when they complete. -/
  schedule : BranchConfig → σ → List BranchData → List (JoinEvent BranchData)
  admissible : ∀ config world values,
    Admissible config BranchData.isDeny values (schedule config world values)

/-- The modifications of a call that the executor took over. -/
structure Accepted where
  payload : Bool := false
  extensions : Bool := false

/-- One handler call that ended, with the canonical extensions it started from. -/
structure Ran (η π : Type) where
  mode : PluginMode
  entry : HookEntry η
  before : Extensions
  invocation : Invocation π
  accepted : Accepted := {}

/-- The mutable state of `execute`. -/
structure PipelineState (η π σ : Type) where
  payload : π
  extensions : Extensions
  ctxTable : PluginContextTable
  errors : List PluginErrorRecord
  payloadModified : Bool
  disabled : Finset Uuid
  world : σ
  trace : List (Ran η π)

variable {η π σ : Type}

/-- `tokio::time::timeout(.., handler.invoke(..))`. -/
def Runtime.timeout (rt : Runtime η π σ) (config : ExecutorConfig) (handler : η) (payload : π)
    (view : Extensions) (ctx : PluginContext) (world : σ) :
    Invocation π × PluginContext × σ :=
  match rt.elapsed config.timeoutSeconds handler payload view ctx world with
  | some (ctx, world) => (.timedOut, ctx, world)
  | none =>
    match rt.invoke handler payload view ctx world with
    | (.ok result, ctx, world) => (.returned result, ctx, world)
    | (.error e, ctx, world) => (.failed e, ctx, world)

/-- The `PluginError::Timeout` of a plugin; the milliseconds are a `u64`. -/
def timeoutError (config : ExecutorConfig) (entry : HookEntry η) : PluginError :=
  .timeout entry.name (config.timeoutSeconds * 1000 % 2 ^ 64) none

/-- A violation the executor raises in the plugin's name. -/
def raise (entry : HookEntry η) (code reason : String) : PluginViolation :=
  { PluginViolation.new code reason with pluginName := some entry.name }

namespace PipelineState

/-- Push the error record, and take the plugin out of rotation under `on_error: disable`. -/
def recordFailure (st : PipelineState η π σ) (entry : HookEntry η) (e : PluginError) :
    PipelineState η π σ :=
  { st with
    errors := st.errors ++ [.ofError e]
    disabled :=
      if entry.onError = .disable then insert entry.pluginRef.id st.disabled else st.disabled }

/-- Record a call that ended. -/
def ran (st : PipelineState η π σ) (r : Ran η π) : PipelineState η π σ :=
  { st with trace := st.trace ++ [r] }

end PipelineState

/-! ### Serial phases -/

/-- The view of a serial plugin: filtered, with the write tokens its capabilities grant. -/
def serialView (extensions : Extensions) (capabilities : Finset String) : Extensions :=
  { filterExtensions extensions capabilities with
    httpWriteToken := decide ("write_headers" ∈ capabilities)
    labelsWriteToken := decide ("append_labels" ∈ capabilities)
    delegationWriteToken := decide ("append_delegation" ∈ capabilities) }

/-- The tokens of returned extensions, derived anew from the plugin's capabilities. -/
def grantTokens (owned : OwnedExtensions) (capabilities : Finset String) : OwnedExtensions :=
  { owned with
    httpWriteToken := decide ("write_headers" ∈ capabilities)
    labelsWriteToken := decide ("append_labels" ∈ capabilities)
    delegationWriteToken := decide ("append_delegation" ∈ capabilities) }

/-- `labels_ok`: a plugin that sees labels may only add to them. -/
def labelsOk (extensions : Extensions) (owned : OwnedExtensions)
    (capabilities : Finset String) : Bool :=
  !decide ("read_labels" ∈ capabilities) ||
    match extensions.security, owned.security with
    | some orig, some new => decide (orig.labels ⊆ new.labels)
    | _, _ => true

/-- The tests returned extensions have to pass: `immutable_ok`, `labels_ok`,
    `constraint_ok`. -/
def mergeGate (extensions : Extensions) (owned : OwnedExtensions)
    (capabilities : Finset String) : Bool :=
  extensions.validateImmutable owned && labelsOk extensions owned capabilities &&
    extensions.candidateConstraintWriteOk owned capabilities

/-- "Accept modifications" of `run_serial_phase`. -/
def acceptModifications (canModify : Bool) (entry : HookEntry η) (erased : ErasedResultFields π)
    (st : PipelineState η π σ) : Accepted × PipelineState η π σ :=
  if canModify then
    let (payload, payloadModified, tookPayload) := match erased.modifiedPayload with
      | some mp => (mp, true, true)
      | none => (st.payload, st.payloadModified, false)
    let (extensions, tookExtensions) := match erased.modifiedExtensions with
      | some owned =>
        if mergeGate st.extensions owned entry.capabilities then
          (st.extensions.mergeOwned (grantTokens owned entry.capabilities), true)
        else (st.extensions, false)
      | none => (st.extensions, false)
    (⟨tookPayload, tookExtensions⟩, { st with payload, payloadModified, extensions })
  else ({}, st)

/-- The `on_error` policy of a serial phase. -/
def serialFailure (canBlock : Bool) (entry : HookEntry η) (code reason : String)
    (e : PluginError) (st : PipelineState η π σ) :
    Option PluginViolation × PipelineState η π σ :=
  if entry.onError = .fail ∧ canBlock then (some (raise entry code reason), st)
  else (none, st.recordFailure entry e)

/-- What `run_serial_phase` does with a call that ended: the violation it halts on, if any,
    and what it accepted. -/
def settleSerial (config : ExecutorConfig) (canBlock canModify : Bool) (entry : HookEntry η)
    (invocation : Invocation π) (st : PipelineState η π σ) :
    Option PluginViolation × Accepted × PipelineState η π σ :=
  match invocation with
  | .returned (some erased) =>
    let refusal := if !erased.continueProcessing && canBlock then erased.violation else none
    match refusal with
    | some v => (some { v with pluginName := some entry.name }, {}, st)
    -- A refusal without a violation comes here too.
    | none => (none, acceptModifications canModify entry erased st)
  | .failed e =>
    let (v, st) := serialFailure canBlock entry "plugin_error"
      ("Plugin '" ++ entry.name ++ "' failed: " ++ e.toText) e st
    (v, {}, st)
  | .timedOut =>
    let (v, st) := serialFailure canBlock entry "plugin_timeout"
      ("Plugin '" ++ entry.name ++ "' timed out") (timeoutError config entry) st
    (v, {}, st)
  -- The result has another type, or the call unwound.
  | .returned none | .panicked _ => (none, {}, st)

/-- The loop body of `run_serial_phase`. A halting plugin's context is not stored back. -/
def serialStep (rt : Runtime η π σ) (config : ExecutorConfig) (mode : PluginMode)
    (canBlock canModify : Bool) (entry : HookEntry η) (st : PipelineState η π σ) :
    Option PluginViolation × PipelineState η π σ :=
  let (ctx, ctxTable) := st.ctxTable.takeContext entry.pluginRef.id
  let view := serialView st.extensions entry.capabilities
  let (invocation, ctx, world) := rt.timeout config entry.handler st.payload view ctx st.world
  let (violation, accepted, st') :=
    settleSerial config canBlock canModify entry invocation { st with ctxTable, world }
  let st' := st'.ran ⟨mode, entry, st.extensions, invocation, accepted⟩
  match violation with
  | some v => (some v, st')
  | none => (none, { st' with ctxTable := st'.ctxTable.storeContext entry.pluginRef.id ctx })

/-- `run_serial_phase`. -/
def runSerialPhase (rt : Runtime η π σ) (config : ExecutorConfig) (mode : PluginMode)
    (canBlock canModify : Bool) :
    List (HookEntry η) → PipelineState η π σ → Option PluginViolation × PipelineState η π σ
  | [], st => (none, st)
  | entry :: entries, st =>
    match serialStep rt config mode canBlock canModify entry st with
    | (some v, st) => (some v, st)
    | (none, st) => runSerialPhase rt config mode canBlock canModify entries st

/-! ### The audit phase -/

/-- The loop body of `run_ref_phase`: the result is discarded. -/
def refStep (rt : Runtime η π σ) (config : ExecutorConfig) (st : PipelineState η π σ)
    (entry : HookEntry η) : PipelineState η π σ :=
  let ctx := st.ctxTable.snapshotContext entry.pluginRef.id
  let view := filterExtensions st.extensions entry.capabilities
  let (invocation, _, world) := rt.timeout config entry.handler st.payload view ctx st.world
  let st := { st with world }.ran ⟨.audit, entry, st.extensions, invocation, {}⟩
  match invocation with
  | .failed e => st.recordFailure entry e
  | .timedOut => st.recordFailure entry (timeoutError config entry)
  | _ => st

/-- `run_ref_phase`. -/
def runRefPhase (rt : Runtime η π σ) (config : ExecutorConfig) (entries : List (HookEntry η))
    (st : PipelineState η π σ) : PipelineState η π σ :=
  entries.foldl (refStep rt config) st

/-! ### The concurrent phase -/

/-- A concurrent call run to its end. -/
structure ConcurrentCall (η π σ : Type) where
  entry : HookEntry η
  answer : Except PluginError (Option (ErasedResultFields π))
  world : σ

namespace ConcurrentCall

/-- The `BranchData` of a call. -/
def data (call : ConcurrentCall η π σ) : BranchData :=
  match call.answer with
  | .ok (some erased) =>
    if erased.continueProcessing then .allow
    else .deny (erased.violation.map fun v => { v with pluginName := some call.entry.name })
  | .ok none => .allow
  | .error e => .error e

/-- How the call ended, given the outcome `run_branches` reports for it; nothing if it was
    cut short. -/
def ended (call : ConcurrentCall η π σ) : BranchOutcome BranchData → Option (Invocation π)
  | .completed _ =>
    match call.answer with
    | .ok result => some (.returned result)
    | .error e => some (.failed e)
  | .timedOut => some .timedOut
  | .panicked payload => some (.panicked payload)
  | .aborted => none

/-- The record of a concurrent call, if it ended. -/
def record (before : Extensions) (branch : ConcurrentCall η π σ × BranchOutcome BranchData) :
    Option (Ran η π) :=
  (branch.1.ended branch.2).map fun invocation =>
    ⟨.concurrent, branch.1.entry, before, invocation, {}⟩

end ConcurrentCall

/-- The `on_error` policy of the concurrent phase. -/
def concurrentFailure (entry : HookEntry η) (code reason : String) (e : PluginError)
    (acc : Option PluginViolation × PipelineState η π σ) :
    Option PluginViolation × PipelineState η π σ :=
  if entry.onError = .fail then (acc.1.or (some (raise entry code reason)), acc.2)
  else (acc.1, acc.2.recordFailure entry e)

/-- The post-loop of `run_concurrent_phase` for one outcome: the first violation stays. -/
def concurrentStep (config : ExecutorConfig)
    (acc : Option PluginViolation × PipelineState η π σ)
    (branch : HookEntry η × BranchOutcome BranchData) :
    Option PluginViolation × PipelineState η π σ :=
  let (entry, outcome) := branch
  match outcome with
  | .completed .allow | .aborted => acc
  | .completed (.deny v) =>
    let violation := v.getD
      (raise entry "concurrent_deny" ("Plugin '" ++ entry.name ++ "' denied"))
    (acc.1.or (some violation), acc.2)
  | .completed (.error e) =>
    concurrentFailure entry "plugin_error"
      ("Plugin '" ++ entry.name ++ "' failed: " ++ e.toText) e acc
  | .timedOut =>
    concurrentFailure entry "plugin_timeout"
      ("Plugin '" ++ entry.name ++ "' timed out") (timeoutError config entry) acc
  | .panicked payload =>
    concurrentFailure entry "plugin_panic"
      ("Plugin '" ++ entry.name ++ "' task panicked: " ++ payload)
      (.execution entry.name ("task panicked: " ++ payload) (some "panic") ∅ none) acc

/-- The branches of `run_concurrent_phase`, each on its own. -/
def concurrentCalls (rt : Runtime η π σ) (entries : List (HookEntry η))
    (st : PipelineState η π σ) : List (ConcurrentCall η π σ) :=
  entries.mapIdx fun i entry =>
    let ctx := st.ctxTable.snapshotContext entry.pluginRef.id
    let view := filterExtensions st.extensions entry.capabilities
    let (answer, _, world) :=
      rt.invoke entry.handler st.payload view ctx (rt.fork st.world i)
    ⟨entry, answer, world⟩

/-- The `BranchConfig` of the concurrent phase. -/
def concurrentConfig (config : ExecutorConfig) : BranchConfig where
  timeoutPerBranch := some (config.timeoutSeconds * 1000)
  shortCircuitOnDeny := config.shortCircuitOnDeny

/-- `run_branches` on the concurrent calls. -/
def concurrentOutcomes (rt : Runtime η π σ) (config : ExecutorConfig)
    (calls : List (ConcurrentCall η π σ)) (world : σ) : List (BranchOutcome BranchData) :=
  let values := calls.map (·.data)
  let branchConfig := concurrentConfig config
  runBranches values.length branchConfig BranchData.isDeny (rt.schedule branchConfig world values)

/-- `run_concurrent_phase`. -/
def runConcurrentPhase (rt : Runtime η π σ) (config : ExecutorConfig)
    (entries : List (HookEntry η)) (st : PipelineState η π σ) :
    Option PluginViolation × PipelineState η π σ :=
  if entries.isEmpty then (none, st)
  else
    let calls := concurrentCalls rt entries st
    let outcomes := concurrentOutcomes rt config calls st.world
    let records := (calls.zip outcomes).filterMap (ConcurrentCall.record st.extensions)
    let st := { st with
      world := rt.join st.world (calls.map (·.world)), trace := st.trace ++ records }
    (entries.zip outcomes).foldl (concurrentStep config) (none, st)

/-! ### `execute` -/

/-- `PipelineResult`. -/
structure PipelineResult (π : Type) where
  continueProcessing : Bool
  modifiedPayload : Option π
  payloadModified : Bool
  modifiedExtensions : Option Extensions
  violation : Option PluginViolation
  errors : List PluginErrorRecord
  contextTable : PluginContextTable

/-- `PipelineResult::allowed_with`. -/
def PipelineResult.allowedWith (payload : π) (extensions : Extensions)
    (contextTable : PluginContextTable) : PipelineResult π where
  continueProcessing := true
  modifiedPayload := some payload
  payloadModified := false
  modifiedExtensions := some extensions
  violation := none
  errors := []
  contextTable := contextTable

/-- `PipelineResult::denied`. -/
def PipelineResult.denied (violation : PluginViolation) (extensions : Extensions)
    (contextTable : PluginContextTable) : PipelineResult π where
  continueProcessing := false
  modifiedPayload := none
  payloadModified := false
  modifiedExtensions := some extensions
  violation := some violation
  errors := []
  contextTable := contextTable

/-- What `execute` returns, the names of the background tasks it spawned, and the state it
    ended in. -/
structure Execution (η π σ : Type) where
  result : PipelineResult π
  background : List String
  state : PipelineState η π σ

/-- The state `execute` starts in. -/
def PipelineState.start (payload : π) (extensions : Extensions)
    (contextTable : Option PluginContextTable) (disabled : Finset Uuid) (world : σ) :
    PipelineState η π σ where
  payload := payload
  extensions := extensions
  ctxTable := contextTable.getD {}
  errors := []
  payloadModified := false
  disabled := disabled
  world := world
  trace := []

/-- `PipelineResult::denied(..).with_errors(..)` from the current state. -/
def PipelineState.deny (st : PipelineState η π σ) (v : PluginViolation) : Execution η π σ where
  result := { PipelineResult.denied v st.extensions st.ctxTable with errors := st.errors }
  background := []
  state := st

/-- The phases of `execute` after SEQUENTIAL. -/
def executeRest (rt : Runtime η π σ) (config : ExecutorConfig)
    (group : PluginMode → List (HookEntry η)) (st : PipelineState η π σ) : Execution η π σ :=
  let (_, st) := runSerialPhase rt config .transform false true (group .transform) st
  let st := runRefPhase rt config (group .audit) st
  match runConcurrentPhase rt config (group .concurrent) st with
  | (some v, st) => st.deny v
  | (none, st) =>
    { result := { PipelineResult.allowedWith st.payload st.extensions st.ctxTable with
        errors := st.errors, payloadModified := st.payloadModified }
      background := (group .fireAndForget).map (·.name)
      state := st }

/-- `Executor::execute`. -/
def execute (rt : Runtime η π σ) (config : ExecutorConfig) (entries : List (HookEntry η))
    (payload : π) (extensions : Extensions) (contextTable : Option PluginContextTable)
    (disabled : Finset Uuid) (world : σ) : Execution η π σ :=
  let st := PipelineState.start payload extensions contextTable disabled world
  if entries.isEmpty then ⟨.allowedWith st.payload st.extensions st.ctxTable, [], st⟩
  else
    let group := groupByMode disabled entries
    match runSerialPhase rt config .sequential true true (group .sequential) st with
    | (some v, st) => st.deny v
    | (none, st) => executeRest rt config group st

end Cpex.Core
