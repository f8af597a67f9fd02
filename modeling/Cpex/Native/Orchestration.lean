import Mathlib.Data.List.Perm.Basic
import Cpex.Native.Attributes

/-! # Concurrent branches

`run_branches` of `cpex-orchestration`: spawn every branch on a `JoinSet`, store results in
input order as the tasks are joined, and abort the rest after the first deny.

The `JoinSet` is the runtime's. It appears here as the list of results its
`join_next_with_id` yields, and `Admissible` states what tokio promises about that list: each
task is reported once, with its own result, and is reported cancelled only after
`abort_all`.

The loop itself is `runBranchesById`: a failed task comes back as a `JoinError` with nothing but
the task's id, which `id_to_idx` maps to the input index. `runBranches` is the same loop over
results that carry the index already, which is what the callers are verified against. -/

namespace Cpex

/-- `BranchConfig`; the timeout is in milliseconds. -/
structure BranchConfig where
  timeoutPerBranch : Option Nat := none
  shortCircuitOnDeny : Bool := true
  deriving DecidableEq, Repr

/-- What happened to one branch. -/
inductive BranchOutcome (α : Type) where
  | completed (value : α)
  | timedOut
  | aborted
  | panicked (payload : String)
  deriving DecidableEq, Repr

/-- One result of `join_next_with_id`, with the input index of its task: the task returned,
    or its `JoinError` is a panic or a cancellation. -/
inductive JoinEvent (α : Type) where
  | finished (idx : Nat) (outcome : BranchOutcome α)
  | panicked (idx : Nat) (payload : String)
  | cancelled (idx : Nat)
  deriving DecidableEq, Repr

/-- The input index of the task. -/
def JoinEvent.idx {α : Type} : JoinEvent α → Nat
  | .finished idx _ => idx
  | .panicked idx _ => idx
  | .cancelled idx => idx

/-- The variables of the join loop. -/
structure JoinState (α : Type) where
  slots : List (Option (BranchOutcome α))
  aborted : Bool

namespace JoinState

variable {α : Type}

/-- The state before the first join. -/
def init (n : Nat) : JoinState α := ⟨List.replicate n none, false⟩

/-- The body of the join loop. -/
def step (config : BranchConfig) (isDeny : α → Bool) (s : JoinState α) :
    JoinEvent α → JoinState α
  | .finished idx outcome =>
    let halts := match outcome with
      | .completed v => isDeny v
      | _ => false
    { slots := s.slots.set idx (some outcome)
      aborted := s.aborted || (halts && config.shortCircuitOnDeny) }
  | .panicked idx payload => { s with slots := s.slots.set idx (some (.panicked payload)) }
  -- Cancelled slots stay unset and become `Aborted` after the loop.
  | .cancelled _ => s

/-- The join loop over the results the task set yields. -/
def run (config : BranchConfig) (isDeny : α → Bool) (s : JoinState α)
    (events : List (JoinEvent α)) : JoinState α :=
  events.foldl (step config isDeny) s

end JoinState

variable {α : Type}

/-- `run_branches` on `n` branches, joined as `events` says. -/
def runBranches (n : Nat) (config : BranchConfig) (isDeny : α → Bool)
    (events : List (JoinEvent α)) : List (BranchOutcome α) :=
  if n = 0 then []
  else ((JoinState.init n).run config isDeny events).slots.map (·.getD .aborted)

/-- What the task set guarantees about the order of joins, for branches that return `values`
    when they run to completion. -/
structure Admissible (config : BranchConfig) (isDeny : α → Bool) (values : List α)
    (events : List (JoinEvent α)) : Prop where
  /-- Each task is reported exactly once. -/
  reported : (events.map JoinEvent.idx).Perm (List.range values.length)
  /-- A task that returns, returns its own branch's value, or `TimedOut` under a timeout. -/
  own : ∀ idx outcome, .finished idx outcome ∈ events →
    (∃ v, values[idx]? = some v ∧ outcome = .completed v) ∨
      (outcome = .timedOut ∧ config.timeoutPerBranch.isSome)
  /-- Nothing is cancelled before `abort_all`. -/
  cancelled : ∀ pre idx post, events = pre ++ .cancelled idx :: post →
    ((JoinState.init values.length).run config isDeny pre).aborted = true

/-! ### The loop over task ids -/

/-- One result of `join_next_with_id` as the loop receives it: the index and outcome a task
    returned, or a `JoinError`, which carries the task's id only. -/
inductive Joined (ι α : Type) where
  | ok (id : ι) (idx : Nat) (outcome : BranchOutcome α)
  | panic (id : ι) (payload : String)
  | cancelled (id : ι)
  deriving DecidableEq, Repr

namespace Joined

variable {ι : Type}

/-- The id of the task. -/
def id : Joined ι α → ι
  | .ok id _ _ => id
  | .panic id _ => id
  | .cancelled id => id

/-- What becomes of the branch whose task is joined so. -/
def outcome : Joined ι α → BranchOutcome α
  | .ok _ _ outcome => outcome
  | .panic _ payload => .panicked payload
  | .cancelled _ => .aborted

end Joined

section
variable {ι : Type} [DecidableEq ι]

/-- `id_to_idx`, from the ids of the spawned tasks in input order. -/
def idToIdx (ids : List ι) : HashMap ι Nat :=
  ids.zipIdx.foldl (fun m task => m.insert task.1 task.2) ∅

/-- The body of the join loop on one result of `join_next_with_id`. -/
def JoinState.stepById (config : BranchConfig) (isDeny : α → Bool) (idToIdx : HashMap ι Nat)
    (s : JoinState α) : Joined ι α → JoinState α
  | .ok _ idx outcome => s.step config isDeny (.finished idx outcome)
  | .panic id payload =>
    match idToIdx.lookup id with
    | some idx => s.step config isDeny (.panicked idx payload)
    | none => s
  | .cancelled _ => s

/-- The join loop over the results of `join_next_with_id`. -/
def JoinState.runById (config : BranchConfig) (isDeny : α → Bool) (idToIdx : HashMap ι Nat)
    (s : JoinState α) (joined : List (Joined ι α)) : JoinState α :=
  joined.foldl (stepById config isDeny idToIdx) s

/-- `run_branches` on branches whose tasks got `ids`, joined as `joined` says. -/
def runBranchesById (ids : List ι) (config : BranchConfig) (isDeny : α → Bool)
    (joined : List (Joined ι α)) : List (BranchOutcome α) :=
  if ids.length = 0 then []
  else ((JoinState.init ids.length).runById config isDeny (idToIdx ids) joined).slots.map
    (·.getD .aborted)

/-- What the task set guarantees about its joins, for branches of which the `i`-th may return
    the values in `returns i`. -/
structure TaskSet (config : BranchConfig) (isDeny : α → Bool) (ids : List ι)
    (returns : Nat → α → Prop) (joined : List (Joined ι α)) : Prop where
  /-- Tasks of one set that are not yet joined have different ids. -/
  distinct : ids.Nodup
  /-- Each task is reported exactly once. -/
  reported : (joined.map Joined.id).Perm ids
  /-- A task that returns, returns the index it was spawned with and its own branch's value, or
      `TimedOut` under a timeout. -/
  own : ∀ id idx outcome, .ok id idx outcome ∈ joined → ids[idx]? = some id ∧
    ((∃ v, returns idx v ∧ outcome = .completed v) ∨
      (outcome = .timedOut ∧ config.timeoutPerBranch.isSome))
  /-- Nothing is cancelled before `abort_all`. -/
  cancelled : ∀ pre id post, joined = pre ++ .cancelled id :: post →
    ((JoinState.init ids.length).runById config isDeny (idToIdx ids) pre).aborted = true

end

end Cpex
