import Cpex.Spec.ParallelBlock
import Cpex.Spec.Refusal

/-! # Verdicts and schedules

The branches of a `parallel` block and of the concurrent phase are joined in any order, and a
denial cuts the rest short. Which branches are cut short depends on the schedule, and so do the
taints of a block and the violation of a phase. Whether there is a verdict against the request
does not: a branch is only cut short once another one has denied.
-/

namespace Cpex

/-! ### `parallel` blocks -/

section
variable {σ : Type} (env : Env σ) (branches : List (EffectOutcome × EvalState σ))
  (st : EvalState σ)

variable (hpanic : ∀ i payload, .panicked i payload ∉
  env.runtime.schedule st.world (branches.map branchResult))
include hpanic

/-- Without panics, a block halts exactly if one of its branches does. -/
theorem joinParallel_halts_iff :
    (∃ d, (joinParallel env branches st).1 = .halt d) ↔
      ∃ (i : Nat) (r : _), branches[i]? = some r ∧ ∃ d, r.1 = .halt d := by
  constructor
  · rintro ⟨d, hd⟩
    obtain ⟨i, r, hr, hhalts⟩ := exists_of_joinParallel_halt env branches st hd
    exact ⟨i, r, hr, d, hhalts⟩
  · rintro ⟨i, r, hr, d, hd⟩
    simp only [joinParallel_eq_halt_iff]
    rw [← Option.isSome_iff_exists, List.findSome?_isSome_iff]
    rcases blockOutcomes_cases env branches st hr with
      ⟨payload, hp⟩ | ⟨-, hslot⟩ | ⟨-, -, o, ho, hhalt⟩
    · exact absurd hp (hpanic i payload)
    · exact ⟨_, List.mem_of_getElem? hslot, by rw [(haltOf_branchResult r).mpr hd]; rfl⟩
    · -- A branch is only cancelled once another one has halted.
      exact ⟨o, ho, hhalt⟩

/-- Without panics, a block halts with the decision of the first halting branch that was not
    cancelled. -/
theorem joinParallel_halt_iff (d : Decision) :
    (joinParallel env branches st).1 = .halt d ↔
      ∃ (i : Nat) (r : _), branches[i]? = some r ∧ r.1 = .halt d ∧
        .cancelled i ∉ env.runtime.schedule st.world (branches.map branchResult) ∧
        ∀ (j : Nat) (r' : _) (d' : Decision), j < i → branches[j]? = some r' → r'.1 = .halt d' →
          .cancelled j ∈ env.runtime.schedule st.world (branches.map branchResult) := by
  have hslots {j : Nat} {r' : EffectOutcome × EvalState σ} (hr' : branches[j]? = some r') :=
    (blockOutcomes_cases env branches st hr').resolve_left
      (not_exists.mpr fun payload => hpanic j payload)
  rw [joinParallel_eq_halt_iff, List.findSome?_eq_some_iff_getElem?]
  constructor
  · rintro ⟨i, o, ho, hhalt, hbefore⟩
    obtain ⟨r, hr, hd, hkept⟩ := exists_of_haltOf env branches st ho hhalt
    refine ⟨i, r, hr, hd, hkept, fun j r' d' hj hr' hd' => ?_⟩
    rcases hslots hr' with ⟨-, hslot⟩ | ⟨hcancelled, -⟩
    · exact nomatch (hbefore j hj _ hslot).symm.trans ((haltOf_branchResult r').mpr hd')
    · exact hcancelled
  · rintro ⟨i, r, hr, hd, hkept, hbefore⟩
    obtain ⟨-, hslot⟩ := (hslots hr).resolve_right fun h => hkept h.1
    refine ⟨i, _, hslot, (haltOf_branchResult r).mpr hd, fun j hj o ho => ?_⟩
    refine Option.eq_none_iff_forall_ne_some.mpr fun d' hd' => ?_
    obtain ⟨r', hr', hhalt', hkept'⟩ := exists_of_haltOf env branches st ho hd'
    exact hkept' (hbefore j r' d' hj hr' hhalt')

end

section
variable [Platform] {σ : Type} (env : Env σ) (phase : DispatchPhase)

/-- Whatever the schedule, as long as no task panics: a `parallel` block halts exactly if the
    effect of some branch, run on that branch's copy of the state, halts. -/
theorem dispatchParallel_halts_iff (fallbackSource : String) (effects : List Effect)
    (st : EvalState σ)
    (hpanic : ∀ i, ¬BranchPanicked env phase fallbackSource effects st i) :
    (∃ d, (dispatchParallel env phase fallbackSource effects st).1 = .halt d) ↔
      ∃ (i : Nat) (e : _), effects[i]? = some e ∧
        ∃ d, (dispatchEffect env phase fallbackSource e (st.branch env i)).1 = .halt d := by
  rw [dispatchParallel, joinParallel_halts_iff env _ st fun i payload h => hpanic i ⟨payload, h⟩]
  constructor
  · rintro ⟨i, r, hr, hd⟩
    rw [dispatchBranches_getElem?, Nat.zero_add] at hr
    obtain ⟨e, he, rfl⟩ := Option.map_eq_some_iff.mp hr
    exact ⟨i, e, he, hd⟩
  · rintro ⟨i, e, he, hd⟩
    refine ⟨i, _, ?_, hd⟩
    rw [dispatchBranches_getElem?, Nat.zero_add, he]
    rfl

end

section
attribute [local instance] Platform.bare

/-- The deny of the second branch halts the block, whatever the plugin of the first says. -/
theorem dispatchParallel_halts_orderly :
    ∃ d, (dispatchParallel ⟨permissive, .orderly⟩ .pre "" [.plugin "scanner", .deny none none]
      blankState).1 = .halt d := by
  refine (dispatchParallel_halts_iff ⟨permissive, .orderly⟩ .pre ""
    [.plugin "scanner", .deny none none] blankState ?_).mpr ⟨1, .deny none none, rfl, _, rfl⟩
  rintro i ⟨payload, hmem⟩
  obtain ⟨r, -, heq⟩ := List.mem_map.mp hmem
  exact nomatch heq

end

/-! ### The decision of a block -/

section
variable [Platform] {σ : Type} (env : Env σ) (phase : DispatchPhase)
  (fallbackSource : String) (effects : List Effect) (st : EvalState σ)

/-- Branch `i` of the block, run on its own copy of the state, halts with `d`. -/
def BranchHalts (i : Nat) (d : Decision) : Prop :=
  ∃ e, effects[i]? = some e ∧
    (dispatchEffect env phase fallbackSource e (st.branch env i)).1 = .halt d

/-- The task of branch `i` of the block was cancelled before it returned. -/
def BranchCancelled (i : Nat) : Prop :=
  .cancelled i ∈ env.runtime.schedule st.world
    ((dispatchBranches env phase fallbackSource 0 effects st).map branchResult)

/-- Branch `i` halts with `d` and is not cancelled; every branch before it that halts is. -/
def HaltsFirst (i : Nat) (d : Decision) : Prop :=
  BranchHalts env phase fallbackSource effects st i d ∧
    ¬BranchCancelled env phase fallbackSource effects st i ∧
    ∀ j < i, ∀ d, BranchHalts env phase fallbackSource effects st j d →
      BranchCancelled env phase fallbackSource effects st j

theorem branchHalts_iff :
    BranchHalts env phase fallbackSource effects st i d ↔
      ∃ r, (dispatchBranches env phase fallbackSource 0 effects st)[i]? = some r ∧
        r.1 = .halt d := by
  simp only [BranchHalts, dispatchBranches_getElem?, Nat.zero_add, Option.map_eq_some_iff]
  constructor
  · rintro ⟨e, he, hd⟩
    exact ⟨_, ⟨e, he, rfl⟩, hd⟩
  · rintro ⟨_, ⟨e, he, rfl⟩, hd⟩
    exact ⟨e, he, hd⟩

/-- Let `i₀` be the first branch of a `parallel` block that halts on its own, with `d₀`, and let
    no task panic. The block halts with `d₀` exactly if the schedule does not cancel that branch,
    or the first halting branch it does not cancel happens to give the same decision. -/
theorem dispatchParallel_lowest_halt_iff
    (hpanic : ∀ i, ¬BranchPanicked env phase fallbackSource effects st i)
    (i₀ : Nat) (d₀ : Decision) (hhalts : BranchHalts env phase fallbackSource effects st i₀ d₀)
    (hlowest : ∀ i < i₀, ∀ d, ¬BranchHalts env phase fallbackSource effects st i d) :
    (dispatchParallel env phase fallbackSource effects st).1 = .halt d₀ ↔
      ¬BranchCancelled env phase fallbackSource effects st i₀ ∨
        ∃ i, i₀ < i ∧ HaltsFirst env phase fallbackSource effects st i d₀ := by
  have hfirst : (dispatchParallel env phase fallbackSource effects st).1 = .halt d₀ ↔
      ∃ i, HaltsFirst env phase fallbackSource effects st i d₀ := by
    rw [dispatchParallel, joinParallel_halt_iff env _ st fun i payload h => hpanic i ⟨payload, h⟩]
    simp only [HaltsFirst, branchHalts_iff]
    constructor
    · rintro ⟨i, r, hr, hd, hkept, hbefore⟩
      refine ⟨i, ⟨r, hr, hd⟩, hkept, ?_⟩
      rintro j hj d ⟨r', hr', hd'⟩
      exact hbefore j r' d hj hr' hd'
    · rintro ⟨i, ⟨r, hr, hd⟩, hkept, hbefore⟩
      exact ⟨i, r, hr, hd, hkept, fun j r' d' hj hr' hd' => hbefore j hj d' ⟨r', hr', hd'⟩⟩
  rw [hfirst]
  constructor
  · rintro ⟨i, hi, hkept, hbefore⟩
    rcases Nat.lt_trichotomy i i₀ with hlt | rfl | hgt
    · exact absurd hi (hlowest i hlt d₀)
    · exact .inl hkept
    · exact .inr ⟨i, hgt, hi, hkept, hbefore⟩
  · rintro (hkept | ⟨i, -, hi, hkept, hbefore⟩)
    · exact ⟨i₀, hhalts, hkept, fun j hj d hd => absurd hd (hlowest j hj d)⟩
    · exact ⟨i, hi, hkept, hbefore⟩

end

/-- A runtime on which the second of two branches overtakes the first, which is still running when
    the second one halts. -/
def Runtime.overtaking : Runtime Unit where
  fork _ _ := ()
  join _ _ := ()
  schedule _ results :=
    match results with
    | [first, second] =>
      if second.isHalt then [.finished 1 (.completed second), .cancelled 0]
      else [.finished 0 (.completed first), .finished 1 (.completed second)]
    | results => results.zipIdx.map fun r => .finished r.2 (.completed r.1)
  admissible _ results := by
    match results with
    | [first, second] =>
      dsimp only
      split
      · rename_i hhalt
        refine ⟨.swap .., ?_, ?_⟩
        · intro idx outcome h
          rcases List.mem_cons.mp h with heq | h
          · cases heq
            exact .inl ⟨second, rfl, rfl⟩
          · simp at h
        · intro pre idx post h
          rcases pre with _ | ⟨a, _ | ⟨b, pre⟩⟩ <;> simp at h
          obtain ⟨rfl, -⟩ := h
          simp [JoinState.run, JoinState.step, hhalt, parallelConfig]
      · exact .inOrder _ _ [first, second]
    | [] => exact .inOrder _ _ []
    | [first] => exact .inOrder _ _ [first]
    | first :: second :: third :: results =>
      exact .inOrder _ _ (first :: second :: third :: results)

section
attribute [local instance] Platform.bare

/-- Two branches that deny, each for a reason of its own. -/
def denyingBlock : List Effect := [.deny (some "idx-0") none, .deny (some "idx-1") none]

/-- The branch with the lower index is cancelled, and the block reports the other's reason. -/
theorem dispatchParallel_reports_overtaking_branch :
    BranchHalts ⟨permissive, .overtaking⟩ .pre "" denyingBlock blankState 0
        (.deny (some "idx-0") "") ∧
      (dispatchParallel ⟨permissive, .overtaking⟩ .pre "" denyingBlock blankState).1 =
        .halt (.deny (some "idx-1") "") :=
  ⟨⟨_, rfl, rfl⟩, rfl⟩

/-- On an orderly runtime the same block reports the reason of its first branch. -/
theorem dispatchParallel_lowest_halt_orderly :
    (dispatchParallel ⟨permissive, .orderly⟩ .pre "" denyingBlock blankState).1 =
      .halt (.deny (some "idx-0") "") := by
  refine (dispatchParallel_lowest_halt_iff ⟨permissive, .orderly⟩ .pre "" denyingBlock
    blankState ?_ 0 _ ⟨_, rfl, rfl⟩ ?_).mpr (.inl ?_)
  · rintro i ⟨payload, hmem⟩
    obtain ⟨r, -, heq⟩ := List.mem_map.mp hmem
    exact nomatch heq
  · exact fun i hi => absurd hi (Nat.not_lt_zero i)
  · intro hmem
    obtain ⟨r, -, heq⟩ := List.mem_map.mp hmem
    exact nomatch heq

end

namespace Core

/-! ### The concurrent phase -/

variable {η π σ : Type}

/-- What cuts a call off that would otherwise return. -/
inductive Interruption where
  | timeout
  | panic (payload : String)

/-- What becomes of a concurrent call that is not aborted. -/
def ConcurrentCall.fate (call : ConcurrentCall η π σ) :
    Option Interruption → BranchOutcome BranchData
  | none => .completed call.data
  | some .timeout => .timedOut
  | some (.panic payload) => .panicked payload

/-- The plugin said no. -/
def Denied : BranchOutcome BranchData → Prop
  | .completed (.deny _) => True
  | _ => False

/-- The plugin did not get as far as an answer. -/
def Failed : BranchOutcome BranchData → Prop
  | .completed (.error _) | .timedOut | .panicked _ => True
  | _ => False

theorem haltsOn_iff (entry : HookEntry η) (o : BranchOutcome BranchData) :
    haltsOn (entry, o) = true ↔ Denied o ∨ entry.onError = .fail ∧ Failed o := by
  cases o with
  | completed data => cases data <;> simp [haltsOn, Denied, Failed]
  | _ => simp [haltsOn, Denied, Failed]

/-- The joins of the concurrent phase. -/
def concurrentJoins (rt : Runtime η π σ) (config : ExecutorConfig) (entries : List (HookEntry η))
    (st : PipelineState η π σ) : List (JoinEvent BranchData) :=
  rt.schedule (concurrentConfig config) st.world
    ((concurrentCalls rt entries st).map (·.data))

/-- The concurrent phase reports a violation exactly if some outcome halts. -/
theorem runConcurrentPhase_isSome_iff (rt : Runtime η π σ) (config : ExecutorConfig)
    (entries : List (HookEntry η)) (st : PipelineState η π σ) :
    (runConcurrentPhase rt config entries st).1.isSome = true ↔
      ∃ (i : Nat) (o : _), (concurrentOutcomes rt config (concurrentCalls rt entries st)
        st.world)[i]? = some o ∧ ∃ entry, entries[i]? = some entry ∧
          haltsOn (entry, o) = true := by
  have hany : (runConcurrentPhase rt config entries st).1.isSome =
      (entries.zip (concurrentOutcomes rt config (concurrentCalls rt entries st)
        st.world)).any haltsOn := by
    unfold runConcurrentPhase
    cases entries with
    | nil => rfl
    | cons entry entries =>
      exact (foldl_concurrentStep config _ _).1.trans (Bool.false_or _)
  rw [hany, List.any_eq_true]
  constructor
  · rintro ⟨⟨entry, o⟩, hmem, hhalts⟩
    obtain ⟨i, hi⟩ := List.mem_iff_getElem?.mp hmem
    obtain ⟨hentry, ho⟩ := List.getElem?_zip_eq_some.mp hi
    exact ⟨i, o, ho, entry, hentry, hhalts⟩
  · rintro ⟨i, o, ho, entry, hentry, hhalts⟩
    exact ⟨(entry, o), List.mem_of_getElem? (List.getElem?_zip_eq_some.mpr ⟨hentry, ho⟩), hhalts⟩

/-- Let every entry have an outcome of its own: what its handler answers, unless it times out or
    panics. Whatever order the runtime joins and aborts them in, and whether or not a denial
    aborts the rest, the concurrent phase reports a violation exactly if some entry denies, or
    some entry with `on_error: fail` errors, times out or panics. -/
theorem runConcurrentPhase_violation_iff (rt : Runtime η π σ) (config : ExecutorConfig)
    (entries : List (HookEntry η)) (st : PipelineState η π σ)
    (interrupted : Nat → Option Interruption)
    (hfates : ReportsFates (concurrentJoins rt config entries st)
      ((concurrentCalls rt entries st).mapIdx fun i call => call.fate (interrupted i))) :
    (runConcurrentPhase rt config entries st).1.isSome = true ↔
      ∃ (i : Nat) (call : _), (concurrentCalls rt entries st)[i]? = some call ∧
        (Denied (call.fate (interrupted i)) ∨
          call.entry.onError = .fail ∧ Failed (call.fate (interrupted i))) := by
  have adm := rt.admissible (concurrentConfig config) st.world
    ((concurrentCalls rt entries st).map (·.data))
  have hlen : (concurrentCalls rt entries st).length = entries.length := by
    simp [concurrentCalls]
  have hiff := runBranches_exists_iff adm (by simp) hfates
    (p := fun i o => ∃ entry, entries[i]? = some entry ∧ haltsOn (entry, o) = true)
    (by simp [haltsOn]) fun i v hi hdeny => by
      rw [List.length_map, hlen] at hi
      refine ⟨entries[i], List.getElem?_eq_getElem hi, ?_⟩
      cases v with
      | deny violation => rfl
      | allow => cases hdeny
      | error e => cases hdeny
  refine (runConcurrentPhase_isSome_iff rt config entries st).trans (hiff.trans ?_)
  have hentry (i : Nat) : entries[i]? = ((concurrentCalls rt entries st)[i]?).map (·.entry) := by
    rw [← List.getElem?_map, concurrentCalls_map_entry]
  constructor
  · rintro ⟨i, fate, hfate, entry, he, hhalts⟩
    rw [List.getElem?_mapIdx] at hfate
    obtain ⟨call, hcall, rfl⟩ := Option.map_eq_some_iff.mp hfate
    rw [hentry, hcall] at he
    cases he
    exact ⟨i, call, hcall, (haltsOn_iff _ _).mp hhalts⟩
  · rintro ⟨i, call, hcall, hhalts⟩
    refine ⟨i, call.fate (interrupted i), ?_, call.entry, ?_, (haltsOn_iff _ _).mpr hhalts⟩
    · rw [List.getElem?_mapIdx, hcall]
      rfl
    · rw [hentry, hcall]
      rfl

/-- A plugin that refuses without a violation, next to one that allows: the phase reports a
    violation of its own making. -/
theorem runConcurrentPhase_violation_silent :
    (runConcurrentPhase (π := Nat) .scripted {} [scriptedEntry "meter" {},
      scriptedEntry "guard" { continueProcessing := false }]
        (.start 0 {} none ∅ ())).1.isSome = true := by
  refine (runConcurrentPhase_violation_iff .scripted {} [scriptedEntry "meter" {},
    scriptedEntry "guard" { continueProcessing := false }] (.start 0 {} none ∅ ())
      (fun _ => none) ?_).mpr ⟨1, _, rfl, .inl trivial⟩
  intro ev hev _
  obtain ⟨⟨v, i⟩, hmem, rfl⟩ := List.mem_map.mp hev
  have hv := List.mem_zipIdx_iff_getElem?.mp hmem
  rw [List.getElem?_map] at hv
  obtain ⟨call, hcall, rfl⟩ := Option.map_eq_some_iff.mp hv
  exact (List.getElem?_mapIdx ..).trans (congrArg (Option.map _) hcall)

end Core

end Cpex
