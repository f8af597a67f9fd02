import Cpex.Spec.EffectSteps
import Cpex.Spec.RunBranches

/-! # `parallel` blocks

A `parallel` block is decided by its branches' results in input order: the first halt wins,
and the taints and constraints of completed branches are appended. A block that continues has
lost no branch other than those whose task panicked: the aggregation loop drops a panicked
branch on purpose, with whatever it would have denied or emitted.
-/

namespace Cpex

/-! ### The aggregation loop -/

/-- The deny of a completed branch that halted. -/
def haltOf : BranchOutcome BranchResult → Option Decision
  | .completed ⟨.halt d, _, _⟩ => some d
  | _ => none

/-- The taints a branch contributes to the block. -/
def taintsOf : BranchOutcome BranchResult → List TaintEvent
  | .completed r => r.taints
  | _ => []

/-- The constraints a branch contributes to the block. -/
def constraintsOf : BranchOutcome BranchResult → List CandidateConstraint
  | .completed r => r.constraints
  | _ => []

/-- The aggregation loop in closed form. -/
theorem foldl_aggregateStep (outcomes : List (BranchOutcome BranchResult))
    (acc : Option Decision × List TaintEvent × List CandidateConstraint) :
    outcomes.foldl aggregateStep acc =
      (acc.1.or (outcomes.findSome? haltOf), acc.2.1 ++ outcomes.flatMap taintsOf,
        acc.2.2 ++ outcomes.flatMap constraintsOf) := by
  induction outcomes generalizing acc with
  | nil => simp
  | cons o outcomes ih =>
    obtain ⟨firstHalt, taints, constraints⟩ := acc
    rw [List.foldl_cons, ih]
    cases o with
    | completed r =>
      obtain ⟨outcome, ts, cs⟩ := r
      cases outcome <;> cases firstHalt <;>
        simp [aggregateStep, haltOf, taintsOf, constraintsOf, List.findSome?_cons]
    | _ => simp [aggregateStep, haltOf, taintsOf, constraintsOf, List.findSome?_cons]

/-- The verdict of a block whose branches end so. -/
def blockVerdict (outcomes : List (BranchOutcome BranchResult)) : EffectOutcome :=
  (outcomes.findSome? haltOf).elim .continue .halt

/-- A branch that panicked neither halts the block nor reports anything. -/
theorem eraseIdx_panicked {outcomes : List (BranchOutcome BranchResult)}
    (h : outcomes[i]? = some (.panicked payload)) :
    blockVerdict (outcomes.eraseIdx i) = blockVerdict outcomes ∧
      (outcomes.eraseIdx i).flatMap taintsOf = outcomes.flatMap taintsOf ∧
      (outcomes.eraseIdx i).flatMap constraintsOf = outcomes.flatMap constraintsOf := by
  obtain ⟨hi, hget⟩ := List.getElem?_eq_some_iff.mp h
  have hsplit : outcomes = outcomes.take i ++ .panicked payload :: outcomes.drop (i + 1) := by
    rw [← hget, List.getElem_cons_drop, List.take_append_drop]
  rw [List.eraseIdx_eq_take_drop_succ]
  generalize outcomes.take i = before, outcomes.drop (i + 1) = after at hsplit ⊢
  subst hsplit
  simp [blockVerdict, List.findSome?_append, List.findSome?_cons, haltOf, taintsOf, constraintsOf]

section
variable {σ : Type} (env : Env σ) (branches : List (EffectOutcome × EvalState σ))
  (st : EvalState σ)

/-- What `run_branches` returns for a block. -/
def blockOutcomes : List (BranchOutcome BranchResult) :=
  runBranches branches.length parallelConfig BranchResult.isHalt
    (env.runtime.schedule st.world (branches.map branchResult))

/-- The block's verdict is the first halt in input order, and what its completed branches report
    is appended. -/
theorem joinParallel_reports :
    let outcomes := blockOutcomes env branches st
    (joinParallel env branches st).1 = blockVerdict outcomes ∧
      (joinParallel env branches st).2.taints = st.taints ++ outcomes.flatMap taintsOf ∧
      (joinParallel env branches st).2.constraints =
        st.constraints ++ outcomes.flatMap constraintsOf := by
  unfold joinParallel blockOutcomes blockVerdict
  cases branches with
  | nil => simp [runBranches]
  | cons b bs =>
    simp only [List.isEmpty_cons, Bool.false_eq_true, if_false, foldl_aggregateStep,
      Option.none_or, List.length_map]
    split
    · next h => exact ⟨by rw [h]; rfl, rfl, rfl⟩
    · next h => exact ⟨by rw [h]; rfl, rfl, rfl⟩

theorem joinParallel_trace (h : branches ≠ []) :
    (joinParallel env branches st).2.trace =
      st.trace ++ (branches.map (·.2.trace)).flatten ++
        (env.runtime.schedule st.world (branches.map branchResult)).filterMap
          JoinEvent.panicRecord := by
  unfold joinParallel
  rw [if_neg (by simpa using h)]
  dsimp only
  split <;> rfl

theorem haltOf_branchResult (r : EffectOutcome × EvalState σ) :
    haltOf (.completed (branchResult r)) = some d ↔ r.1 = .halt d := by
  obtain ⟨outcome, st⟩ := r
  cases outcome <;> simp [haltOf, branchResult]

theorem joinParallel_eq_halt_iff :
    (joinParallel env branches st).1 = .halt d ↔
      (blockOutcomes env branches st).findSome? haltOf = some d := by
  rw [(joinParallel_reports env branches st).1, blockVerdict]
  cases (blockOutcomes env branches st).findSome? haltOf <;> simp

/-- A slot holds what its task was reported with. -/
theorem blockOutcomes_getElem?
    (h : ev ∈ env.runtime.schedule st.world (branches.map branchResult)) :
    (blockOutcomes env branches st)[ev.idx]? = some ev.outcome := by
  rw [blockOutcomes, ← List.length_map branchResult]
  exact runBranches_getElem?_of_mem (env.runtime.admissible st.world _) h

/-- A slot that holds a halt is that of a branch that halts, and is not cancelled. -/
theorem exists_of_haltOf {i : Nat} (ho : (blockOutcomes env branches st)[i]? = some o)
    (hhalt : haltOf o = some d) :
    ∃ r, branches[i]? = some r ∧ r.1 = .halt d ∧
      .cancelled i ∉ env.runtime.schedule st.world (branches.map branchResult) := by
  have adm := env.runtime.admissible st.world (branches.map branchResult)
  cases o with
  | completed v =>
    have hv := adm.getElem?_of_completed (by rwa [List.length_map])
    rw [List.getElem?_map] at hv
    obtain ⟨r, hr, rfl⟩ := Option.map_eq_some_iff.mp hv
    refine ⟨r, hr, (haltOf_branchResult r).mp hhalt, fun hc => ?_⟩
    exact nomatch ho.symm.trans (blockOutcomes_getElem? env branches st hc)
  | _ => cases hhalt

theorem exists_of_joinParallel_halt (h : (joinParallel env branches st).1 = .halt d) :
    ∃ (i : Nat) (r : _), branches[i]? = some r ∧ r.1 = .halt d := by
  rw [joinParallel_eq_halt_iff] at h
  obtain ⟨o, ho, hhalt⟩ := List.exists_of_findSome?_eq_some h
  obtain ⟨i, hi⟩ := List.mem_iff_getElem?.mp ho
  obtain ⟨r, hr, hd, -⟩ := exists_of_haltOf env branches st hi hhalt
  exact ⟨i, r, hr, hd⟩

/-- A block never suspends: a pending branch is not a halt. -/
theorem joinParallel_ne_pending (bundle : PendingElicitation) :
    (joinParallel env branches st).1 ≠ .pending bundle := by
  rw [(joinParallel_reports env branches st).1, blockVerdict]
  cases (blockOutcomes env branches st).findSome? haltOf <;> simp

/-- What becomes of a branch: its task panics, its slot holds its own result, or it is cancelled
    after another branch halted. -/
theorem blockOutcomes_cases (hr : branches[i]? = some r) :
    let events := env.runtime.schedule st.world (branches.map branchResult)
    (∃ payload, .panicked i payload ∈ events) ∨
      (.cancelled i ∉ events ∧
        (blockOutcomes env branches st)[i]? = some (.completed (branchResult r))) ∨
      (.cancelled i ∈ events ∧ (blockOutcomes env branches st)[i]? = some .aborted ∧
        ∃ o ∈ blockOutcomes env branches st, (haltOf o).isSome = true) := by
  intro events
  have adm := env.runtime.admissible st.world (branches.map branchResult)
  have hslot {ev : JoinEvent BranchResult} (hev : ev ∈ events) :=
    blockOutcomes_getElem? env branches st hev
  obtain ⟨hi, -⟩ := List.getElem?_eq_some_iff.mp hr
  obtain ⟨ev, hev, rfl⟩ := adm.exists_event (i := i) (by rwa [List.length_map])
  cases ev with
  | finished idx outcome =>
    rcases adm.own idx outcome hev with ⟨v, hv, rfl⟩ | ⟨-, hto⟩
    · rw [List.getElem?_map, show branches[idx]? = some r from hr] at hv
      cases hv
      refine .inr (.inl ⟨fun hc => ?_, hslot hev⟩)
      have haborted := hslot hc
      exact nomatch (hslot hev).symm.trans haborted
    · exact nomatch hto
  | panicked idx payload => exact .inl ⟨payload, hev⟩
  | cancelled idx =>
    obtain ⟨-, v, hv, hdeny⟩ := adm.deny_of_cancelled hev
    rw [List.length_map] at hv
    refine .inr (.inr ⟨hev, hslot hev, _, hv, ?_⟩)
    obtain ⟨outcome, taints, constraints⟩ := v
    cases outcome <;> simp_all [BranchResult.isHalt, haltOf]

/-- In a block that continues, a branch whose task did not panic ran to completion and did
    not halt. -/
theorem joinParallel_continue (h : (joinParallel env branches st).1 = .continue)
    (hr : branches[i]? = some r) :
    (∃ payload, .panicked i payload ∈
        env.runtime.schedule st.world (branches.map branchResult)) ∨
      ((blockOutcomes env branches st)[i]? = some (.completed (branchResult r)) ∧
        ∀ d, r.1 ≠ .halt d) := by
  have hnone {o : BranchOutcome BranchResult} (ho : o ∈ blockOutcomes env branches st) :
      haltOf o = none := by
    rw [(joinParallel_reports env branches st).1, blockVerdict] at h
    cases hhalt : (blockOutcomes env branches st).findSome? haltOf with
    | none => exact List.findSome?_eq_none_iff.mp hhalt o ho
    | some d => simp [hhalt] at h
  refine (blockOutcomes_cases env branches st hr).imp_right ?_
  rintro (⟨-, hslot⟩ | ⟨-, -, o, ho, hhalt⟩)
  · refine ⟨hslot, fun d hd => ?_⟩
    exact nomatch (hnone (List.mem_of_getElem? hslot)).symm.trans ((haltOf_branchResult r).mpr hd)
  · rw [hnone ho] at hhalt
    exact nomatch hhalt

end

/-! ### Branches of an effect list -/

mutual

/-- Whether an `Elicit` effect occurs in the tree. -/
def Effect.hasElicit : Effect → Bool
  | .elicit _ => true
  | .sequential es => Effect.anyElicit es
  | .parallel es => Effect.anyElicit es
  | .when _ body _ => Effect.anyElicit body
  | .pdp _ onAllow onDeny => Effect.anyElicit onAllow || Effect.anyElicit onDeny
  | _ => false

/-- Whether an `Elicit` effect occurs in one of the trees. -/
def Effect.anyElicit : List Effect → Bool
  | [] => false
  | e :: es => e.hasElicit || Effect.anyElicit es

end

attribute [simp] Effect.hasElicit Effect.anyElicit

section
variable [Platform] {σ : Type} (env : Env σ) (phase : DispatchPhase)

variable {env phase} in
/-- Without an `Elicit` effect, nothing suspends. -/
theorem Runs.ne_pending (h : Runs env phase es st r) (hes : Effect.anyElicit es = false)
    (bundle : PendingElicitation) :
    r.1 ≠ .pending bundle := by
  induction h with
  | nil | allow | deny | taint | skip | pdpFailed | pdpDenied => simp
  | cons _ _ _ ih =>
    simp only [Effect.anyElicit, Bool.or_eq_false_iff] at hes
    exact ih hes.2
  | stop _ _ ih =>
    simp only [Effect.anyElicit, Bool.or_eq_false_iff] at hes
    exact ih (by simp [hes.1])
  | plugin | delegate | restrict | fieldOp =>
    -- Each ends in a halt or goes on, whatever it is answered.
    simp only [dispatchPlugin, dispatchDelegate, dispatchRestrict, dispatchFieldOp]
    repeat' split
    all_goals simp
  | elicit => simp at hes
  | parallel => exact joinParallel_ne_pending env _ _ bundle
  | sequential _ ih | when _ ih => exact ih (by simpa using hes)
  | pdpAllowed _ _ _ ih | pdpReacted _ _ _ ih =>
    simp only [Effect.anyElicit, Effect.hasElicit, Bool.or_eq_false_iff] at hes
    exact ih (by simp only [hes])

omit [Platform] in
theorem anyElicit_eq_false_iff {es : List Effect} :
    Effect.anyElicit es = false ↔ ∀ e ∈ es, e.hasElicit = false := by
  induction es with
  | nil => simp
  | cons e es ih => simp [ih]

theorem dispatchEffect_ne_pending (fallbackSource : String) {e : Effect} (h : e.hasElicit = false)
    (st : EvalState σ) (bundle : PendingElicitation) :
    (dispatchEffect env phase fallbackSource e st).1 ≠ .pending bundle :=
  (dispatchEffect_runs env phase fallbackSource e st).ne_pending
    (by simp [h]) bundle

/-- Branch `i` of a block runs its effect from its own copy of the state. -/
theorem dispatchBranches_getElem? (fallbackSource : String) (k i : Nat) (effects : List Effect)
    (st : EvalState σ) :
    (dispatchBranches env phase fallbackSource k effects st)[i]? =
      effects[i]?.map fun e => dispatchEffect env phase fallbackSource e (st.branch env (k + i)) := by
  induction effects generalizing k i with
  | nil => simp [dispatchBranches]
  | cons e effects ih =>
    rw [dispatchBranches]
    cases i with
    | zero => rfl
    | succ i =>
      rw [List.getElem?_cons_succ, List.getElem?_cons_succ, ih]
      simp only [Nat.add_right_comm, Nat.add_assoc]

/-- Branch `i` of the block ran `e` to completion, and all it emitted is in the block's
    accumulators. -/
structure BranchLanded (fallbackSource : String) (effects : List Effect) (st : EvalState σ)
    (i : Nat) (e : Effect) : Prop where
  completed : (blockOutcomes env (dispatchBranches env phase fallbackSource 0 effects st) st)[i]? =
    some (.completed (branchResult (dispatchEffect env phase fallbackSource e (st.branch env i))))
  taints : (dispatchEffect env phase fallbackSource e (st.branch env i)).2.taints <:+:
    (dispatchParallel env phase fallbackSource effects st).2.taints
  constraints : (dispatchEffect env phase fallbackSource e (st.branch env i)).2.constraints <:+:
    (dispatchParallel env phase fallbackSource effects st).2.constraints

/-- The task of branch `i` of the block panicked. -/
def BranchPanicked (fallbackSource : String) (effects : List Effect) (st : EvalState σ)
    (i : Nat) : Prop :=
  ∃ payload, .panicked i payload ∈ env.runtime.schedule st.world
    ((dispatchBranches env phase fallbackSource 0 effects st).map branchResult)

/-- The block ends as it would without branch `i`. -/
def BranchDropped (fallbackSource : String) (effects : List Effect) (st : EvalState σ)
    (i : Nat) : Prop :=
  let others :=
    (blockOutcomes env (dispatchBranches env phase fallbackSource 0 effects st) st).eraseIdx i
  let block := dispatchParallel env phase fallbackSource effects st
  block.1 = blockVerdict others ∧ block.2.taints = st.taints ++ others.flatMap taintsOf ∧
    block.2.constraints = st.constraints ++ others.flatMap constraintsOf

/-- The slot of a panicked task is passed over. -/
theorem BranchPanicked.dropped (h : BranchPanicked env phase fallbackSource effects st i) :
    BranchDropped env phase fallbackSource effects st i := by
  obtain ⟨payload, hmem⟩ := h
  obtain ⟨hverdict, htaints, hconstraints⟩ :=
    eraseIdx_panicked (blockOutcomes_getElem? env _ st hmem)
  unfold BranchDropped
  dsimp only [JoinEvent.idx] at hverdict htaints hconstraints ⊢
  rw [hverdict, htaints, hconstraints]
  exact joinParallel_reports env _ st

/-- In a `parallel` block that continues, every branch whose task did not panic ran to
    completion without halting (with `Continue`, unless it contains an elicitation), and its
    taints and constraints are in the outer accumulators. A branch whose task panicked has no part
    in how any block ends. -/
theorem dispatchParallel_branch_landed (fallbackSource : String) (effects : List Effect)
    (st : EvalState σ) :
    ((dispatchParallel env phase fallbackSource effects st).1 = .continue →
      ∀ i e, effects[i]? = some e →
        BranchPanicked env phase fallbackSource effects st i ∨
          (BranchLanded env phase fallbackSource effects st i e ∧
            (∀ d, (dispatchEffect env phase fallbackSource e (st.branch env i)).1 ≠ .halt d) ∧
            (e.hasElicit = false →
              (dispatchEffect env phase fallbackSource e (st.branch env i)).1 = .continue))) ∧
      ∀ i, BranchPanicked env phase fallbackSource effects st i →
        BranchDropped env phase fallbackSource effects st i := by
  refine ⟨fun h i e he => ?_, fun i hpanicked => hpanicked.dropped⟩
  have hbranch : (dispatchBranches env phase fallbackSource 0 effects st)[i]? =
      some (dispatchEffect env phase fallbackSource e (st.branch env i)) := by
    rw [dispatchBranches_getElem?, he, Nat.zero_add]; rfl
  obtain ⟨-, htaints, hconstraints⟩ :=
    joinParallel_reports env (dispatchBranches env phase fallbackSource 0 effects st) st
  rcases joinParallel_continue env _ st h hbranch with hpanic | ⟨hdone, hhalt⟩
  · exact .inl hpanic
  refine .inr ⟨⟨hdone, ?_, ?_⟩, hhalt, fun helicit => ?_⟩
  · rw [dispatchParallel, htaints]
    exact (List.flatMap_run_of_mem taintsOf (List.mem_of_getElem? hdone)).trans
      (List.suffix_append _ _).isInfix
  · rw [dispatchParallel, hconstraints]
    exact (List.flatMap_run_of_mem constraintsOf (List.mem_of_getElem? hdone)).trans
      (List.suffix_append _ _).isInfix
  · have hpending := dispatchEffect_ne_pending env phase fallbackSource helicit (st.branch env i)
    cases hout : (dispatchEffect env phase fallbackSource e (st.branch env i)).1 with
    | «continue» => rfl
    | halt d => exact absurd hout (hhalt d)
    | pending bundle => exact absurd hout (hpending bundle)

end

/-! ### Closed runs -/

/-- Invokers that allow and approve everything. -/
def permissive : Invokers Unit where
  evaluate _ _ _ := (.ok ⟨.allow, []⟩, ())
  invoke _ _ _ _ := (.ok .allow, ())
  delegate _ _ := (.ok ⟨.allow, [], none, none⟩, ())
  dispatch _ _ _ := (.ok ⟨"elic-1", none, none, none⟩, ())
  check _ _ _ := (.ok (.resolved .approved), ())
  validate _ _ _ := (.ok ⟨true, none, none, none⟩, ())

/-- A runtime on which every branch completes, in input order. -/
def Runtime.orderly : Runtime Unit where
  fork _ _ := ()
  join _ _ := ()
  schedule _ results := results.zipIdx.map fun r => .finished r.2 (.completed r.1)
  admissible _ results := .inOrder _ _ results

/-- A runtime on which every task panics. -/
def Runtime.panicking : Runtime Unit where
  fork _ _ := ()
  join _ _ := ()
  schedule _ results := (List.range results.length).map fun i => .panicked i "boom"
  admissible _ results := by
    refine .of_not_cancelled ?_ ?_ ?_
    · rw [List.map_map]
      exact .of_eq (List.map_id _)
    · simp
    · simp

section
attribute [local instance] Platform.bare

/-- The start of an evaluation on an empty payload. -/
def blankState : EvalState Unit := .start .new ⟨.null, none⟩ ()

/-- A block with one branch that taints the session and then calls a plugin. -/
def taintingBlock : List Effect := [.sequential [.taint "PII" [.session], .plugin "scanner"]]

/-- A block with one branch, which asks a manager. -/
def askingBlock : List Effect :=
  [.elicit { kind := .approval, pluginName := "approver", «from» := "alice", source := "" }]

/-- An approver without an answer yet, and nothing that refuses. -/
def unanswered : Invokers Unit := { permissive with check := fun _ _ _ => (.ok .pending, ()) }

/-- The plugin's panic takes the branch's taint with it, and the block still passes. So does a
    block in which an approval is outstanding. -/
theorem dispatchParallel_passes_panicked_branch :
    ((dispatchParallel ⟨permissive, .panicking⟩ .pre "" taintingBlock blankState).1 = .continue ∧
      ¬ ∀ i e, taintingBlock[i]? = some e →
        BranchLanded ⟨permissive, .panicking⟩ .pre "" taintingBlock blankState i e ∧
          (dispatchEffect ⟨permissive, .panicking⟩ .pre "" e
            (blankState.branch ⟨permissive, .panicking⟩ i)).1 = .continue) ∧
      (dispatchParallel ⟨unanswered, .orderly⟩ .pre "" askingBlock blankState).1 = .continue ∧
      ∃ e bundle, askingBlock[0]? = some e ∧
        (dispatchEffect ⟨unanswered, .orderly⟩ .pre "" e
          (blankState.branch ⟨unanswered, .orderly⟩ 0)).1 = .pending bundle := by
  refine ⟨⟨by decide, fun h => ?_⟩, by decide, _, _, rfl, rfl⟩
  have hdone := (h 0 _ rfl).1.completed
  exact nomatch hdone

/-- On an orderly runtime the same block keeps the taint. -/
theorem dispatchParallel_branch_landed_orderly :
    BranchLanded ⟨permissive, .orderly⟩ .pre "" taintingBlock blankState 0
      (.sequential [.taint "PII" [.session], .plugin "scanner"]) := by
  have h := (dispatchParallel_branch_landed ⟨permissive, .orderly⟩ .pre "" taintingBlock
    blankState).1 (by decide) 0 _ rfl
  refine (h.resolve_left ?_).1
  rintro ⟨payload, hmem⟩
  obtain ⟨r, _, heq⟩ := List.mem_map.mp hmem
  exact nomatch heq

end

end Cpex
