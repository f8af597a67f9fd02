import Mathlib.Data.List.Nodup
import Cpex.ForStd.AList
import Cpex.Native.Orchestration

/-! # `run_branches` accounts for every branch

The join loop stores each task's result in its own slot, so what a caller finds at position
`i` is the fate of branch `i`, whatever the order of completion.
-/

namespace Cpex

variable {α : Type} {config : BranchConfig} {isDeny : α → Bool} {values : List α}
  {events : List (JoinEvent α)}

/-- The outcome `run_branches` reports for a joined task. -/
def JoinEvent.outcome : JoinEvent α → BranchOutcome α
  | .finished _ outcome => outcome
  | .panicked _ payload => .panicked payload
  | .cancelled _ => .aborted

/-- The slot write of one iteration of the join loop, if it makes one. -/
def JoinEvent.write : JoinEvent α → Option (Nat × Option (BranchOutcome α))
  | .finished idx outcome => some (idx, some outcome)
  | .panicked idx payload => some (idx, some (.panicked payload))
  | .cancelled _ => none

/-- The join loop's slots are the fold of its writes. -/
theorem JoinState.run_slots (s : JoinState α) (events : List (JoinEvent α)) :
    (s.run config isDeny events).slots =
      (events.filterMap JoinEvent.write).foldl (fun l w => l.set w.1 w.2) s.slots := by
  induction events generalizing s with
  | nil => rfl
  | cons ev events ih =>
    refine (ih _).trans ?_
    cases ev <;> rfl

/-- The loop calls `abort_all` only after a completed branch denied. -/
theorem JoinState.run_aborted (s : JoinState α)
    (h : (s.run config isDeny events).aborted = true) :
    s.aborted = true ∨ config.shortCircuitOnDeny = true ∧
      ∃ idx v, .finished idx (.completed v) ∈ events ∧ isDeny v = true := by
  induction events generalizing s with
  | nil => exact .inl h
  | cons ev events ih =>
    rcases ih _ h with hs | ⟨hshort, idx, v, hmem, hdeny⟩
    · -- The flag was set before this iteration, or by it.
      cases ev with
      | finished idx outcome =>
        cases outcome with
        | completed v =>
          simp only [step, Bool.or_eq_true, Bool.and_eq_true] at hs
          rcases hs with hs | ⟨hdeny, hshort⟩
          · exact .inl hs
          · exact .inr ⟨hshort, idx, v, List.mem_cons_self, hdeny⟩
        | timedOut => exact .inl (by simpa [step] using hs)
        | aborted => exact .inl (by simpa [step] using hs)
        | panicked payload => exact .inl (by simpa [step] using hs)
      | panicked idx payload => exact .inl hs
      | cancelled idx => exact .inl hs
    · exact .inr ⟨hshort, idx, v, List.mem_cons_of_mem _ hmem, hdeny⟩

variable {ev : JoinEvent α}

/-- A write goes to the index of its task. -/
private theorem JoinEvent.write_fst (h : ev.write = some w) :
    w.1 = ev.idx := by
  cases ev with
  | cancelled idx => exact nomatch h
  | _ => cases h; rfl

/-- The indices written to are among the indices joined, in the same order. -/
private theorem writes_sublist (events : List (JoinEvent α)) :
    ((events.filterMap JoinEvent.write).map Prod.fst).Sublist (events.map JoinEvent.idx) := by
  induction events with
  | nil => exact .slnil
  | cons ev events ih =>
    cases hw : ev.write with
    | none =>
      rw [List.filterMap_cons_none hw, List.map_cons]
      exact ih.cons _
    | some w =>
      rw [List.filterMap_cons_some hw, List.map_cons, List.map_cons, JoinEvent.write_fst hw]
      exact ih.cons_cons _

namespace Admissible

/-- Joins without a cancellation meet the contract as soon as each task is reported once,
    with its own result. -/
theorem of_not_cancelled (reported : (events.map JoinEvent.idx).Perm (List.range values.length))
    (own : ∀ idx outcome, .finished idx outcome ∈ events →
      ∃ v, values[idx]? = some v ∧ outcome = .completed v)
    (hcancel : ∀ idx, .cancelled idx ∉ events) : Admissible config isDeny values events where
  reported := reported
  own := fun idx outcome h => .inl (own idx outcome h)
  cancelled := fun pre idx post h => absurd (by rw [h]; simp) (hcancel idx)

/-- Joining every task in input order, each with its own result, meets the contract. -/
theorem inOrder (config : BranchConfig) (isDeny : α → Bool) (values : List α) :
    Admissible config isDeny values
      (values.zipIdx.map fun v => .finished v.2 (.completed v.1)) := by
  refine .of_not_cancelled ?_ ?_ ?_
  · rw [List.map_map]
    exact .of_eq ((List.zipIdx_map_snd 0 values).trans List.range_eq_range'.symm)
  · intro idx outcome h
    obtain ⟨⟨v, i⟩, hmem, heq⟩ := List.mem_map.mp h
    cases heq
    exact ⟨v, List.mem_zipIdx_iff_getElem?.mp hmem, rfl⟩
  · simp

end Admissible

@[simp] theorem length_runBranches (n : Nat) (config : BranchConfig) (isDeny : α → Bool)
    (events : List (JoinEvent α)) : (runBranches n config isDeny events).length = n := by
  unfold runBranches
  split
  · simp_all
  · simp [JoinState.run_slots, JoinState.init]

/-- The slot of a joined task holds that task's outcome, as soon as each of the `n` tasks is
    reported once. -/
theorem runBranches_getElem?_of_reported
    (hreported : (events.map JoinEvent.idx).Perm (List.range n)) (hev : ev ∈ events) :
    (runBranches n config isDeny events)[ev.idx]? = some ev.outcome := by
  have hlt : ev.idx < n :=
    List.mem_range.mp (hreported.mem_iff.mp (List.mem_map_of_mem hev))
  have hne : n ≠ 0 := by omega
  have hnodup : (events.map JoinEvent.idx).Nodup :=
    hreported.nodup_iff.mpr List.nodup_range
  rw [runBranches, if_neg hne, List.getElem?_map, JoinState.run_slots]
  cases hw : ev.write with
  | some w =>
    -- The slot was written once, by this event.
    have hmem : w ∈ events.filterMap JoinEvent.write := List.mem_filterMap.mpr ⟨ev, hev, hw⟩
    have hset := List.getElem?_foldl_set_of_mem (events.filterMap JoinEvent.write)
      (JoinState.init (α := α) n).slots (i := w.1) (a := w.2)
      ((writes_sublist events).nodup hnodup) hmem
      (by rw [JoinEvent.write_fst hw]; simpa [JoinState.init] using hlt)
    rw [JoinEvent.write_fst hw] at hset
    rw [hset]
    cases ev with
    | cancelled idx => exact nomatch hw
    | _ => cases hw; rfl
  | none =>
    -- Only a cancelled task writes nothing, and no other event has its index.
    have hfree : ev.idx ∉ (events.filterMap JoinEvent.write).map Prod.fst := by
      intro hin
      obtain ⟨w, hwmem, hwidx⟩ := List.mem_map.mp hin
      obtain ⟨ev', hev', hw'⟩ := List.mem_filterMap.mp hwmem
      have hsame : ev' = ev :=
        List.inj_on_of_nodup_map hnodup hev' hev ((JoinEvent.write_fst hw').symm.trans hwidx)
      rw [hsame, hw] at hw'
      exact nomatch hw'
    rw [List.getElem?_foldl_set_of_notMem _ _ hfree, JoinState.init,
      List.getElem?_replicate_of_lt hlt]
    cases ev with
    | cancelled idx => rfl
    | _ => exact nomatch hw

section
variable (adm : Admissible config isDeny values events)
include adm

/-- Every branch is joined. -/
theorem Admissible.exists_event (hi : i < values.length) : ∃ ev ∈ events, ev.idx = i :=
  List.mem_map.mp (adm.reported.mem_iff.mpr (List.mem_range.mpr hi))

/-- The slot of a joined task holds that task's outcome. -/
theorem runBranches_getElem?_of_mem (hev : ev ∈ events) :
    (runBranches values.length config isDeny events)[ev.idx]? = some ev.outcome :=
  runBranches_getElem?_of_reported adm.reported hev

/-- A cancelled task was preceded by a completed branch that denied. -/
theorem Admissible.deny_of_cancelled (h : .cancelled i ∈ events) :
    config.shortCircuitOnDeny = true ∧
      ∃ v, .completed v ∈ runBranches values.length config isDeny events ∧ isDeny v = true := by
  obtain ⟨pre, post, hsplit⟩ := List.append_of_mem h
  have hab := adm.cancelled pre i post hsplit
  rcases JoinState.run_aborted _ hab with hinit | ⟨hshort, j, v, hmem, hdeny⟩
  · exact nomatch hinit
  · have hmem' : .finished j (.completed v) ∈ events := by
      rw [hsplit]; exact List.mem_append_left _ hmem
    exact ⟨hshort, v, List.mem_of_getElem? (runBranches_getElem?_of_mem adm hmem'), hdeny⟩

/-! ### Fixed outcomes -/

/-- The joins report the `fates` the branches have on their own, cancelled ones apart. -/
def ReportsFates (events : List (JoinEvent α)) (fates : List (BranchOutcome α)) : Prop :=
  ∀ ev ∈ events, ev.outcome ≠ .aborted → fates[ev.idx]? = some ev.outcome

/-- Let `p` hold of denials and not of aborted branches. Some branch has it in the result exactly
    if some branch has it on its own: a branch is only cut short after a denial. -/
theorem runBranches_exists_iff (hlen : fates.length = values.length)
    (hfates : ReportsFates events fates) {p : Nat → BranchOutcome α → Prop}
    (haborted : ∀ i, ¬p i .aborted)
    (hdeny : ∀ i v, i < values.length → isDeny v = true → p i (.completed v)) :
    (∃ i o, (runBranches values.length config isDeny events)[i]? = some o ∧ p i o) ↔
      ∃ i fate, fates[i]? = some fate ∧ p i fate := by
  constructor
  · rintro ⟨i, o, ho, hp⟩
    have hi : i < values.length := by
      simpa using (List.getElem?_eq_some_iff.mp ho).1
    obtain ⟨ev, hev, rfl⟩ := adm.exists_event hi
    obtain rfl : ev.outcome = o :=
      Option.some.inj ((runBranches_getElem?_of_mem adm hev).symm.trans ho)
    refine ⟨ev.idx, ev.outcome, hfates ev hev ?_, hp⟩
    intro hab
    rw [hab] at hp
    exact haborted _ hp
  · rintro ⟨i, fate, hfate, hp⟩
    have hi : i < values.length := hlen ▸ (List.getElem?_eq_some_iff.mp hfate).1
    obtain ⟨ev, hev, rfl⟩ := adm.exists_event hi
    by_cases hab : ev.outcome = .aborted
    · -- Cut short, so another branch denied and was kept.
      have hcancelled : .cancelled ev.idx ∈ events := by
        cases ev with
        | finished idx outcome =>
          rcases adm.own idx outcome hev with ⟨v, -, rfl⟩ | ⟨rfl, -⟩ <;> exact nomatch hab
        | panicked idx payload => exact nomatch hab
        | cancelled idx => exact hev
      obtain ⟨-, v, hv, hdenied⟩ := adm.deny_of_cancelled hcancelled
      obtain ⟨j, hj⟩ := List.mem_iff_getElem?.mp hv
      have hlt : j < values.length := by
        simpa using (List.getElem?_eq_some_iff.mp hj).1
      exact ⟨j, .completed v, hj, hdeny j v hlt hdenied⟩
    · obtain rfl : ev.outcome = fate :=
        Option.some.inj ((hfates ev hev hab).symm.trans hfate)
      exact ⟨ev.idx, ev.outcome, runBranches_getElem?_of_mem adm hev, hp⟩

/-- A completed value is the value of its branch. -/
theorem Admissible.getElem?_of_completed {i : Nat}
    (h : (runBranches values.length config isDeny events)[i]? = some (.completed v)) :
    values[i]? = some v := by
  have hi : i < values.length := by simpa using (List.getElem?_eq_some_iff.mp h).1
  obtain ⟨ev, hev, rfl⟩ := adm.exists_event hi
  have hsame := h.symm.trans (runBranches_getElem?_of_mem adm hev)
  cases ev with
  | finished idx outcome =>
    rcases adm.own idx outcome hev with ⟨w, hw, rfl⟩ | ⟨rfl, -⟩
    · cases hsame
      exact hw
    · exact nomatch hsame
  | _ => exact nomatch hsame

end

/-! ### Tasks by their ids -/

section
variable {ι : Type} [DecidableEq ι] {ids : List ι} {joined : List (Joined ι α)}
  {returns : Nat → α → Prop}

/-- The position of a task among the spawned ones is the index `id_to_idx` gives for its id. -/
theorem lookup_idToIdx (hdistinct : ids.Nodup) {i : Nat} {id : ι} (hid : ids[i]? = some id) :
    (idToIdx ids).lookup id = some i := by
  obtain ⟨j, hmem, hlookup⟩ := AList.exists_lookup_foldl_insert (m := ∅)
    ⟨(id, i), List.mem_zipIdx_iff_getElem?.mpr hid, rfl⟩
  have hj : ids[j]? = some id := List.mem_zipIdx_iff_getElem?.mp hmem
  obtain ⟨hlt, -⟩ := List.getElem?_eq_some_iff.mp hid
  obtain rfl : i = j := (List.getElem?_inj hlt hdistinct).mp (hid.trans hj.symm)
  exact hlookup

/-- A result of `join_next_with_id`, with the index of its task looked up. -/
def Joined.event (ids : List ι) : Joined ι α → JoinEvent α
  | .ok _ idx outcome => .finished idx outcome
  | .panic id payload => .panicked (ids.idxOf id) payload
  | .cancelled id => .cancelled (ids.idxOf id)

theorem Joined.outcome_event (r : Joined ι α) : (r.event ids).outcome = r.outcome := by
  cases r <;> rfl

/-- The position of an id among distinct ids. -/
private theorem idxOf_eq (hdistinct : ids.Nodup) {i : Nat} {id : ι} (hid : ids[i]? = some id) :
    ids.idxOf id = i := by
  obtain ⟨hlt, rfl⟩ := List.getElem?_eq_some_iff.mp hid
  exact hdistinct.idxOf_getElem i hlt

/-- On the result of a spawned task the loop makes the same step whether it is given the index or
    looks it up. -/
theorem JoinState.stepById_eq (hdistinct : ids.Nodup) (s : JoinState α) {r : Joined ι α}
    (hr : r.id ∈ ids) :
    s.stepById config isDeny (idToIdx ids) r = s.step config isDeny (r.event ids) := by
  cases r with
  | ok id idx outcome => rfl
  | panic id payload =>
    obtain ⟨i, hi⟩ : ∃ i : Nat, ids[i]? = some id := List.mem_iff_getElem?.mp hr
    rw [stepById, lookup_idToIdx hdistinct hi, Joined.event, idxOf_eq hdistinct hi]
  | cancelled id => rfl

theorem JoinState.runById_eq (hdistinct : ids.Nodup) (s : JoinState α)
    (hjoined : ∀ r ∈ joined, r.id ∈ ids) :
    s.runById config isDeny (idToIdx ids) joined =
      s.run config isDeny (joined.map (Joined.event ids)) := by
  induction joined generalizing s with
  | nil => rfl
  | cons r joined ih =>
    rw [List.map_cons, run, List.foldl_cons, runById, List.foldl_cons,
      stepById_eq hdistinct s (hjoined r List.mem_cons_self)]
    exact ih _ fun r' hr' => hjoined r' (List.mem_cons_of_mem _ hr')

namespace TaskSet

variable {r : Joined ι α} (set : TaskSet config isDeny ids returns joined)
include set

/-- Joined tasks were spawned. -/
theorem id_mem (hr : r ∈ joined) : r.id ∈ ids :=
  set.reported.mem_iff.mp (List.mem_map_of_mem hr)

/-- The index a joined task is accounted under is its position among the spawned ones. -/
theorem idx_event (hr : r ∈ joined) : (r.event ids).idx = ids.idxOf r.id := by
  cases r with
  | ok id idx outcome => exact (idxOf_eq set.distinct (set.own id idx outcome hr).1).symm
  | panic id payload => rfl
  | cancelled id => rfl

/-- With the indices looked up, each of the tasks is reported once. -/
theorem reported_idx :
    ((joined.map (Joined.event ids)).map JoinEvent.idx).Perm (List.range ids.length) := by
  have hmap : (joined.map (Joined.event ids)).map JoinEvent.idx =
      (joined.map Joined.id).map ids.idxOf := by
    rw [List.map_map, List.map_map]
    exact List.map_congr_left fun r hr => set.idx_event hr
  have hrange : ids.map ids.idxOf = List.range ids.length := by
    refine List.ext_getElem (by simp) fun i hi _ => ?_
    rw [List.getElem_map, List.getElem_range]
    exact set.distinct.idxOf_getElem i (by simpa using hi)
  rw [hmap, ← hrange]
  exact set.reported.map _

/-- The loop of the source computes what the loop over indexed results does. -/
theorem runBranchesById_eq :
    runBranchesById ids config isDeny joined =
      runBranches ids.length config isDeny (joined.map (Joined.event ids)) := by
  rw [runBranchesById, runBranches,
    JoinState.runById_eq set.distinct _ fun r hr => set.id_mem hr]

/-- The position of a task's branch holds what became of the task. -/
theorem getElem?_runBranchesById (hr : r ∈ joined) {i : Nat} (hi : ids[i]? = some r.id) :
    (runBranchesById ids config isDeny joined)[i]? = some r.outcome := by
  have hslot : (runBranches ids.length config isDeny (joined.map (Joined.event ids)))[
      (r.event ids).idx]? = some (r.event ids).outcome :=
    runBranches_getElem?_of_reported set.reported_idx (List.mem_map_of_mem hr)
  rwa [set.idx_event hr, idxOf_eq set.distinct hi, Joined.outcome_event,
    ← set.runBranchesById_eq] at hslot

theorem length_runBranchesById :
    (runBranchesById ids config isDeny joined).length = ids.length := by
  rw [set.runBranchesById_eq, length_runBranches]

/-- The task at every position of the result is joined. -/
theorem exists_joined {i : Nat} {o : BranchOutcome α}
    (ho : (runBranchesById ids config isDeny joined)[i]? = some o) :
    ∃ r ∈ joined, ids[i]? = some r.id ∧ o = r.outcome := by
  have hi : i < ids.length := by
    simpa [set.length_runBranchesById] using (List.getElem?_eq_some_iff.mp ho).1
  have hid : ids[i]? = some ids[i] := List.getElem?_eq_getElem hi
  obtain ⟨r, hr, hrid⟩ := List.mem_map.mp (set.reported.mem_iff.mpr (List.mem_of_getElem? hid))
  rw [← hrid] at hid
  exact ⟨r, hr, hid, Option.some.inj (ho.symm.trans (set.getElem?_runBranchesById hr hid))⟩

/-- A cancelled task was preceded by a completed branch that denied. -/
theorem deny_of_cancelled {id : ι} (h : .cancelled id ∈ joined) :
    config.shortCircuitOnDeny = true ∧
      ∃ v, .completed v ∈ runBranchesById ids config isDeny joined ∧ isDeny v = true := by
  obtain ⟨pre, post, hsplit⟩ := List.append_of_mem h
  have hpre {r : Joined ι α} (hr : r ∈ pre) : r ∈ joined := by
    rw [hsplit]; exact List.mem_append_left _ hr
  have hab := set.cancelled pre id post hsplit
  rw [JoinState.runById_eq set.distinct _ fun r hr => set.id_mem (hpre hr)] at hab
  rcases JoinState.run_aborted _ hab with hinit | ⟨hshort, j, v, hmem, hdeny⟩
  · exact nomatch hinit
  · obtain ⟨r, hr, hev⟩ := List.mem_map.mp hmem
    cases r with
    | ok id' idx outcome =>
      cases hev
      have hj := set.getElem?_runBranchesById (hpre hr) (set.own _ _ _ (hpre hr)).1
      exact ⟨hshort, v, List.mem_of_getElem? hj, hdeny⟩
    | panic id' payload => exact nomatch hev
    | cancelled id' => exact nomatch hev

end TaskSet

/-- `run_branches` accounts for every branch, whatever the order in which its tasks return, time
    out, panic and are cancelled: there is one position for each branch, and it holds what became
    of that branch's task. A task that returned or panicked is reported as it ended, with the
    value of its own branch; and `Aborted` appears only under `short_circuit_on_deny`, next to a
    completed branch that denied. -/
theorem runBranchesById_accounts (set : TaskSet config isDeny ids returns joined) :
    (runBranchesById ids config isDeny joined).length = ids.length ∧
      (∀ (i : Nat) (o : BranchOutcome α),
        (runBranchesById ids config isDeny joined)[i]? = some o →
          ∃ r ∈ joined, ids[i]? = some r.id ∧ o = r.outcome) ∧
      (∀ (i : Nat) (id : ι), ids[i]? = some id →
        (∀ idx v, .ok id idx (.completed v) ∈ joined →
          (runBranchesById ids config isDeny joined)[i]? = some (.completed v) ∧ returns i v) ∧
        (∀ idx, .ok id idx .timedOut ∈ joined →
          (runBranchesById ids config isDeny joined)[i]? = some .timedOut) ∧
        ∀ payload, .panic id payload ∈ joined →
          (runBranchesById ids config isDeny joined)[i]? = some (.panicked payload)) ∧
      (.aborted ∈ runBranchesById ids config isDeny joined →
        config.shortCircuitOnDeny = true ∧
          ∃ (j : Nat) (v : α), (runBranchesById ids config isDeny joined)[j]? =
            some (.completed v) ∧ isDeny v = true) := by
  refine ⟨set.length_runBranchesById, fun i o ho => set.exists_joined ho,
    fun i id hid => ⟨?_, ?_, ?_⟩, ?_⟩
  · intro idx v hr
    refine ⟨set.getElem?_runBranchesById hr hid, ?_⟩
    obtain ⟨hidx, hown⟩ := set.own id idx _ hr
    obtain rfl : idx = i := (idxOf_eq set.distinct hidx).symm.trans (idxOf_eq set.distinct hid)
    rcases hown with ⟨w, hw, heq⟩ | ⟨heq, -⟩
    · cases heq; exact hw
    · exact nomatch heq
  · exact fun idx hr => set.getElem?_runBranchesById hr hid
  · exact fun payload hr => set.getElem?_runBranchesById hr hid
  · intro hab
    obtain ⟨i, hi⟩ := List.mem_iff_getElem?.mp hab
    obtain ⟨r, hr, -, heq⟩ := set.exists_joined hi
    have hcancelled : .cancelled r.id ∈ joined := by
      cases r with
      | ok id idx outcome =>
        -- A task never returns `Aborted` itself.
        rcases (set.own id idx outcome hr).2 with ⟨v, -, rfl⟩ | ⟨rfl, -⟩ <;> exact nomatch heq
      | panic id payload => exact nomatch heq
      | cancelled id => exact hr
    obtain ⟨hshort, v, hv, hdeny⟩ := set.deny_of_cancelled hcancelled
    obtain ⟨j, hj⟩ := List.mem_iff_getElem?.mp hv
    exact ⟨hshort, j, v, hj, hdeny⟩

/-- Of three tasks with ids 7, 3 and 5 the second denies, the third panics after the abort, and
    the first is cancelled. -/
theorem runBranchesById_accounts_denied :
    (runBranchesById [7, 3, 5] {} (· == "deny")
      [.ok 3 1 (.completed "deny"), .panic 5 "boom", .cancelled 7])[2]? =
        some (.panicked "boom") := by
  have set : TaskSet {} (· == "deny") [7, 3, 5] (fun _ v => v = "deny")
      [.ok 3 1 (.completed "deny"), .panic 5 "boom", .cancelled 7] := by
    refine ⟨by decide, by decide, ?_, ?_⟩
    · intro id idx outcome h
      rcases List.mem_cons.mp h with heq | h
      · cases heq
        exact ⟨rfl, .inl ⟨_, rfl, rfl⟩⟩
      · simp at h
    · intro pre id post h
      -- The cancellation comes last.
      rcases pre with _ | ⟨a, _ | ⟨b, _ | ⟨c, pre⟩⟩⟩ <;> simp at h
      obtain ⟨rfl, rfl, -⟩ := h
      decide
  exact ((runBranchesById_accounts set).2.2.1 2 5 rfl).2.2 "boom" (by simp)

end

end Cpex
