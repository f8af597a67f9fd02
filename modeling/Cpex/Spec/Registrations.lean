import Cpex.ForStd.Schedule
import Cpex.ForStd.StableSort
import Cpex.Native.Registry

/-! # The registry over its history

The registry keeps two maps, the plugins by name and the entries by hook. Both are functions of the
registrations that are in force: those that succeeded and were not taken back, in the order in which
they were made. A hook has the entries of these registrations, sorted by priority by a stable sort,
and no hook is kept without entries.
-/

namespace Cpex.Core

variable {η : Type}

/-! ### Registrations -/

/-- A registration: a plugin, and its handlers with their hooks. -/
structure Registration (η : Type) where
  pluginRef : PluginRef
  handlers : List (String × η)

namespace Registration

def name (self : Registration η) : String := self.pluginRef.trustedConfig.name

/-- The entries it makes under a hook. -/
def entriesAt (self : Registration η) (hook : String) : List (HookEntry η) :=
  (self.handlers.filter (·.1 = hook)).map fun h => ⟨self.pluginRef, h.2⟩

variable {self : Registration η} {hook : String}

theorem pluginRef_of_mem_entriesAt (h : e ∈ self.entriesAt hook) :
    e.pluginRef = self.pluginRef := by
  obtain ⟨_, _, rfl⟩ := List.mem_map.mp h
  rfl

theorem name_of_mem_entriesAt (h : e ∈ self.entriesAt hook) :
    e.name = self.name :=
  congrArg (·.trustedConfig.name) (pluginRef_of_mem_entriesAt h)

theorem entriesAt_eq_nil_iff : self.entriesAt hook = [] ↔ hook ∉ self.handlers.map (·.1) := by
  simp only [entriesAt, List.map_eq_nil_iff, List.filter_eq_nil_iff, List.mem_map, not_exists,
    not_and, decide_eq_true_eq]

end Registration

/-- The entries of a list of registrations under a hook, as they were made. -/
def entriesOf (current : List (Registration η)) (hook : String) : List (HookEntry η) :=
  current.flatMap (·.entriesAt hook)

theorem sortByPriority_eq_nil_iff {entries : List (HookEntry η)} :
    sortByPriority entries = [] ↔ entries = [] := by
  rw [← List.length_eq_zero_iff, ← List.length_eq_zero_iff, sortByPriority,
    List.length_insertionSort]

/-- A filter by the plugin's name selects the registrations of that name. -/
theorem filter_entriesOf (current : List (Registration η)) (hook : String) (p : String → Bool) :
    (entriesOf current hook).filter (fun e => p e.name) =
      entriesOf (current.filter fun r => p r.name) hook := by
  induction current with
  | nil => rfl
  | cons r current ih =>
    unfold entriesOf at ih ⊢
    rw [List.flatMap_cons, List.filter_append, ih, List.filter_cons]
    have hr (e : HookEntry η) (he : e ∈ r.entriesAt hook) : p e.name = p r.name := by
      rw [Registration.name_of_mem_entriesAt he]
    cases hp : p r.name with
    | true =>
      congr 1
      exact List.filter_eq_self.mpr fun e he => (hr e he).trans hp
    | false =>
      rw [if_neg (by simp), List.filter_eq_nil_iff.mpr fun e he => by simp [hr e he, hp],
        List.nil_append]

/-! ### The two loops of a registration -/

namespace PluginRegistry

variable (r : Registration η) (index : HashMap String (List (HookEntry η))) (hook : String)

/-- The first loop appends the new entries of each hook. -/
theorem lookup_pushEntries :
    (r.handlers.foldl (fun index h => pushEntry index h.1 ⟨r.pluginRef, h.2⟩) index).lookup hook =
      if r.entriesAt hook = [] then index.lookup hook
      else some ((index.lookup hook).getD [] ++ r.entriesAt hook) := by
  obtain ⟨pluginRef, handlers⟩ := r
  induction handlers generalizing index with
  | nil => rfl
  | cons h handlers ih =>
    rw [List.foldl_cons, ih]
    have hcons : (⟨pluginRef, h :: handlers⟩ : Registration η).entriesAt hook =
        (if h.1 = hook then [⟨pluginRef, h.2⟩] else []) ++
          (⟨pluginRef, handlers⟩ : Registration η).entriesAt hook := by
      unfold Registration.entriesAt
      by_cases hh : h.1 = hook <;> simp [hh]
    rw [hcons, pushEntry]
    generalize (⟨pluginRef, handlers⟩ : Registration η).entriesAt hook = new
    by_cases hh : h.1 = hook
    · subst hh
      have hne : ([⟨pluginRef, h.2⟩] ++ new : List (HookEntry η)) ≠ [] := List.cons_ne_nil _ _
      rw [AList.lookup_insert, if_pos rfl, if_neg hne]
      by_cases hnew : new = []
      · rw [if_pos hnew, hnew, List.append_nil]
      · rw [if_neg hnew, Option.getD_some, List.append_assoc]
    · rw [AList.lookup_insert_ne (Ne.symm hh), if_neg hh, List.nil_append]

/-- The second loop sorts the hooks of the new entries. A hook that has several is sorted several
    times, which makes no difference. -/
theorem lookup_sortHooks (hooks : List String) (index : HashMap String (List (HookEntry η)))
    (hook : String) :
    (hooks.foldl sortHook index).lookup hook =
      if hook ∈ hooks then (index.lookup hook).map sortByPriority else index.lookup hook := by
  have hone (index : HashMap String (List (HookEntry η))) (h : String) :
      (sortHook index h).lookup hook =
        if hook = h then (index.lookup hook).map sortByPriority else index.lookup hook := by
    unfold sortHook
    by_cases heq : hook = h
    · subst heq
      cases hentries : index.lookup hook <;> simp [hentries]
    · cases index.lookup h <;> simp [heq]
  induction hooks generalizing index with
  | nil => rfl
  | cons h hooks ih =>
    rw [List.foldl_cons, ih, hone]
    by_cases heq : hook = h
    · have hmem : hook ∈ h :: hooks := List.mem_cons.mpr (.inl heq)
      by_cases hrest : hook ∈ hooks
      · have hidem : sortByPriority ∘ sortByPriority = sortByPriority (η := η) := by
          funext entries
          exact List.sortByKey_sortByKey HookEntry.priority entries
        rw [if_pos hrest, if_pos heq, if_pos hmem, Option.map_map, hidem]
      · rw [if_neg hrest, if_pos heq, if_pos hmem]
    · simp only [List.mem_cons, heq, if_false, false_or]

/-- What a successful registration leaves under a hook. -/
theorem lookup_registered :
    ((r.handlers.foldl (fun index h => sortHook index h.1)
        (r.handlers.foldl (fun index h => pushEntry index h.1 ⟨r.pluginRef, h.2⟩)
          index)).lookup hook) =
      if r.entriesAt hook = [] then index.lookup hook
      else some (sortByPriority ((index.lookup hook).getD [] ++ r.entriesAt hook)) := by
  have hsort := lookup_sortHooks (r.handlers.map (·.1))
    (r.handlers.foldl (fun index h => pushEntry index h.1 ⟨r.pluginRef, h.2⟩) index) hook
  rw [List.foldl_map] at hsort
  rw [hsort, lookup_pushEntries]
  by_cases hnone : r.entriesAt hook = []
  · rw [if_neg (Registration.entriesAt_eq_nil_iff.mp hnone), if_pos hnone, if_pos hnone]
  · have hmem : hook ∈ r.handlers.map (·.1) := by
      rw [Registration.entriesAt_eq_nil_iff, not_not] at hnone
      exact hnone
    rw [if_pos hmem, if_neg hnone, if_neg hnone, Option.map_some]

end PluginRegistry

/-! ### Calls -/

/-- A call that changes the registry. `register_for_names` and its variants, `register` included, are
    `register_for_names_inner`. -/
inductive RegistryCall (η : Type) where
  | registerMultiHandler (pluginRef : PluginRef) (handlers : List (String × η))
  | registerForNames (pluginRef : PluginRef) (handler : η) (names : List String)
  | unregister (name : String)

namespace RegistryCall

/-- What a call returns, and the registry after it. -/
def run (registry : PluginRegistry η) (call : RegistryCall η) :
    Except String Unit × PluginRegistry η :=
  let settle (result : Except String (PluginRegistry η)) :=
    match result with
    | .ok next => (.ok (), next)
    | .error e => (.error e, registry)
  match call with
  | .registerMultiHandler pluginRef handlers =>
    settle (registry.registerMultiHandler pluginRef handlers)
  | .registerForNames pluginRef handler names =>
    settle (registry.registerForNamesInner pluginRef handler names)
  | .unregister name => (.ok (), (registry.unregister name).2)

/-- The registrations in force after a call that returned `result`: a registration that succeeded
    is added at the end, and the registration of an unregistered plugin is gone. -/
def track (current : List (Registration η)) (result : Except String Unit) :
    RegistryCall η → List (Registration η)
  | .registerMultiHandler pluginRef handlers =>
    match result with
    | .ok _ => current ++ [⟨pluginRef, handlers⟩]
    | .error _ => current
  | .registerForNames pluginRef handler names =>
    match result with
    | .ok _ => current ++ [⟨pluginRef, names.map fun name => (name, handler)⟩]
    | .error _ => current
  | .unregister name => current.filter (·.name ≠ name)

/-- The registry with the registrations that are in force. -/
def step (s : PluginRegistry η × List (Registration η)) (call : RegistryCall η) :
    PluginRegistry η × List (Registration η) :=
  ((call.run s.1).2, call.track s.2 (call.run s.1).1)

end RegistryCall

/-- The two maps of the registry belong to the registrations in force. -/
structure Reflects (registry : PluginRegistry η) (current : List (Registration η)) : Prop where
  nodup : (current.map (·.name)).Nodup
  plugins : ∀ name, registry.plugins.lookup name =
    (current.find? (·.name = name)).map (·.pluginRef)
  hooks : ∀ hook, registry.hookIndex.lookup hook =
    if entriesOf current hook = [] then none else some (sortByPriority (entriesOf current hook))

namespace Reflects

theorem empty : Reflects ({} : PluginRegistry η) [] :=
  ⟨List.nodup_nil, fun _ => rfl, fun _ => rfl⟩

variable {registry : PluginRegistry η} {current : List (Registration η)}
  (h : Reflects registry current)
include h

/-- The entries of a hook are those of the registrations, sorted. -/
theorem entriesForHook (hook : String) :
    registry.entriesForHook hook = sortByPriority (entriesOf current hook) := by
  rw [PluginRegistry.entriesForHook, h.hooks]
  split
  · rename_i hnone
    rw [hnone]
    rfl
  · rfl

theorem lookup_eq_none_iff :
    registry.plugins.lookup name = none ↔ name ∉ current.map (·.name) := by
  rw [h.plugins, Option.map_eq_none_iff, List.find?_eq_none]
  simp

variable {r : Registration η}

/-- A registration under a name that is free. -/
theorem register
    (hok : registry.registerMultiHandler r.pluginRef r.handlers = .ok next) :
    Reflects next (current ++ [r]) := by
  unfold PluginRegistry.registerMultiHandler at hok
  dsimp only at hok
  split at hok
  · cases hok
  next hsome =>
    have hfree : registry.plugins.lookup r.name = none := Option.not_isSome_iff_eq_none.mp hsome
    have hfresh := h.lookup_eq_none_iff.mp hfree
    cases hok
    refine ⟨?_, fun name => ?_, fun hook => ?_⟩
    · rw [List.map_append]
      refine List.nodup_append.mpr ⟨h.nodup, List.nodup_singleton _, fun a ha b hb hab => ?_⟩
      have hb : b = r.name := List.mem_singleton.mp hb
      exact hfresh (hb ▸ hab ▸ ha)
    · rw [List.find?_append]
      by_cases hname : name = r.name
      · subst hname
        have hnone : current.find? (·.name = r.name) = none :=
          Option.map_eq_none_iff.mp ((h.plugins r.name).symm.trans hfree)
        have hlookup : AList.lookup r.name (registry.plugins.insert r.name r.pluginRef) =
            some r.pluginRef := AList.lookup_insert _
        rw [hnone, Option.none_or, List.find?_singleton, if_pos (by simp)]
        exact hlookup
      · have hlookup : AList.lookup name (registry.plugins.insert r.name r.pluginRef) =
            registry.plugins.lookup name := AList.lookup_insert_ne hname
        rw [List.find?_singleton, if_neg (by simpa using Ne.symm hname), Option.or_none]
        exact hlookup.trans (h.plugins name)
    · have hentries : entriesOf (current ++ [r]) hook =
          entriesOf current hook ++ r.entriesAt hook := by
        simp [entriesOf]
      rw [PluginRegistry.lookup_registered r, hentries]
      by_cases hnone : r.entriesAt hook = []
      · rw [if_pos hnone, hnone, List.append_nil, h.hooks]
      · -- What was there is sorted already.
        have hold : (registry.hookIndex.lookup hook).getD [] =
            sortByPriority (entriesOf current hook) := h.entriesForHook hook
        rw [if_neg hnone, if_neg (by simp [hnone]), hold]
        exact congrArg some (List.sortByKey_append HookEntry.priority _ _)

/-- The end of a plugin's registration. -/
theorem unregister (name : String) :
    Reflects (registry.unregister name).2 (current.filter (·.name ≠ name)) := by
  unfold PluginRegistry.unregister
  cases hregistered : registry.plugins.lookup name with
  | none =>
    -- There is no such registration.
    have hkept : current.filter (·.name ≠ name) = current := by
      refine List.filter_eq_self.mpr fun r hr => decide_eq_true fun heq => ?_
      exact h.lookup_eq_none_iff.mp hregistered (List.mem_map.mpr ⟨r, hr, heq⟩)
    rw [hkept]
    exact h
  | some pluginRef =>
    refine ⟨h.nodup.sublist (List.filter_sublist.map _), fun other => ?_, fun hook => ?_⟩
    · dsimp only
      rw [List.find?_filter]
      by_cases hother : other = name
      · rw [hother, AList.lookup_erase, List.find?_eq_none.mpr (by simp)]
        rfl
      · rw [AList.lookup_erase_ne hother, h.plugins]
        congr 2
        funext r
        by_cases hr : r.name = other <;> simp [hr, hother]
    · dsimp only
      rw [AList.lookup_filterMapValues, h.hooks,
        ← filter_entriesOf current hook fun n => decide (n ≠ name)]
      split
      · rename_i hnone
        rw [hnone]
        rfl
      · have hsorted : (sortByPriority (entriesOf current hook)).filter (fun e => e.name ≠ name) =
            sortByPriority ((entriesOf current hook).filter fun e => e.name ≠ name) :=
          List.filter_sortByKey HookEntry.priority _ _
        rw [Option.bind_some, PluginRegistry.retainOthers, hsorted]
        by_cases hnone : (entriesOf current hook).filter (fun e => e.name ≠ name) = []
        · rw [if_pos hnone, hnone]
          rfl
        · have hne : sortByPriority ((entriesOf current hook).filter fun e => e.name ≠ name) ≠ [] :=
            fun hnil => hnone (sortByPriority_eq_nil_iff.mp hnil)
          rw [if_neg hnone, if_neg (by simpa using hne)]

omit h in
/-- Every call keeps the maps and the registrations together. -/
theorem step {s : PluginRegistry η × List (Registration η)} (h : Reflects s.1 s.2)
    (call : RegistryCall η) : Reflects (call.step s).1 (call.step s).2 := by
  unfold RegistryCall.step RegistryCall.run RegistryCall.track
  cases call with
  | unregister name => exact h.unregister name
  | registerMultiHandler pluginRef handlers =>
    dsimp only
    cases hresult : s.1.registerMultiHandler pluginRef handlers with
    | error e => exact h
    | ok next => exact h.register (r := ⟨pluginRef, handlers⟩) hresult
  | registerForNames pluginRef handler names =>
    dsimp only
    cases hresult : s.1.registerForNamesInner pluginRef handler names with
    | error e => exact h
    | ok next => exact h.register (r := ⟨pluginRef, names.map fun name => (name, handler)⟩) hresult

/-- A registration is the only one of its name. -/
theorem filter_name (hr : r ∈ current) :
    current.filter (·.name = r.name) = [r] := by
  have hone := List.count_eq_one_of_mem h.nodup (List.mem_map_of_mem hr)
  rw [List.count_eq_length_filter, List.filter_map, List.length_map, List.length_eq_one_iff] at hone
  obtain ⟨r', hr'⟩ := hone
  have hmem : r ∈ current.filter (·.name = r.name) := List.mem_filter.mpr ⟨hr, by simp⟩
  have heq : current.filter (·.name = r.name) = [r'] := by
    rw [← hr']
    exact List.filter_congr fun x _ => (beq_eq_decide x.name r.name).symm
  rw [heq] at hmem ⊢
  rw [List.mem_singleton.mp hmem]

/-- The registry knows the plugin of every registration. -/
theorem lookup_of_mem (hr : r ∈ current) :
    registry.plugins.lookup r.name = some r.pluginRef := by
  rw [h.plugins, ← List.head?_filter, h.filter_name hr]
  rfl

/-- Under every hook a plugin has the entries of its registration, in their order. -/
theorem filter_entriesForHook (hr : r ∈ current) (hook : String) :
    (registry.entriesForHook hook).filter (·.name = r.name) = r.entriesAt hook := by
  rw [h.entriesForHook, sortByPriority, List.filter_sortByKey HookEntry.priority,
    filter_entriesOf current hook fun n => decide (n = r.name),
    h.filter_name hr]
  have hsingle : entriesOf [r] hook = r.entriesAt hook := by simp [entriesOf]
  rw [hsingle]
  -- They all have the priority of the one plugin.
  refine List.Pairwise.insertionSort_eq (List.pairwise_of_forall_mem_list fun e he e' he' => ?_)
  unfold HookEntry.priority
  rw [Registration.pluginRef_of_mem_entriesAt he, Registration.pluginRef_of_mem_entriesAt he']

end Reflects

/-- After every sequence of calls on an empty registry: the entries of a hook are there, sorted by
    priority and in the order of registration where the priority is the same, and belong to
    registered plugins; a plugin has its handlers under the hooks that it was registered for and no
    others; a call that fails changes nothing; and of an unregistered plugin no entry is left. -/
theorem registry_invariant (calls : List (RegistryCall η)) :
    let s := Schedule.run RegistryCall.step calls ({}, [])
    (∀ hook entries, s.1.hookIndex.lookup hook = some entries →
      entries ≠ [] ∧ entries.Pairwise (fun e e' => e.priority ≤ e'.priority) ∧
        (∀ p, entries.filter (·.priority = p) =
          (entriesOf s.2 hook).filter (·.priority = p)) ∧
        ∀ e ∈ entries, s.1.plugins.lookup e.name = some e.pluginRef) ∧
      (∀ name pluginRef, s.1.plugins.lookup name = some pluginRef →
        ∃ r ∈ s.2, r.name = name ∧ r.pluginRef = pluginRef) ∧
      (∀ r ∈ s.2, s.1.plugins.lookup r.name = some r.pluginRef ∧
        ∀ hook, (s.1.entriesForHook hook).filter (·.name = r.name) = r.entriesAt hook) ∧
      (∀ (call : RegistryCall η) e, (call.run s.1).1 = .error e → (call.run s.1).2 = s.1) ∧
      ∀ name hook, ∀ e ∈ (s.1.unregister name).2.entriesForHook hook, e.name ≠ name := by
  intro s
  have h : Reflects s.1 s.2 :=
    @Schedule.run_induction _ _ RegistryCall.step (fun s => Reflects s.1 s.2) ({}, [])
      (fun _ call hs => Reflects.step hs call) calls Reflects.empty
  refine ⟨fun hook entries hentries => ?_, fun name pluginRef hname => ?_, fun r hr => ?_,
    fun call e herror => ?_, fun name hook e he => ?_⟩
  · rw [h.hooks] at hentries
    split at hentries
    · cases hentries
    · rename_i hne
      cases hentries
      refine ⟨fun hnil => hne (sortByPriority_eq_nil_iff.mp hnil),
        List.pairwise_sortByKey HookEntry.priority _,
        List.filter_key_sortByKey HookEntry.priority _, fun e he => ?_⟩
      obtain ⟨r, hr, her⟩ := List.mem_flatMap.mp ((List.mem_insertionSort _).mp he)
      rw [Registration.name_of_mem_entriesAt her, Registration.pluginRef_of_mem_entriesAt her]
      exact h.lookup_of_mem hr
  · rw [h.plugins] at hname
    obtain ⟨r, hr, rfl⟩ := Option.map_eq_some_iff.mp hname
    have hfound := List.find?_some hr
    exact ⟨r, List.mem_of_find?_eq_some hr, by simpa using hfound, rfl⟩
  · exact ⟨h.lookup_of_mem hr, h.filter_entriesForHook hr⟩
  · revert herror
    unfold RegistryCall.run
    cases call with
    | unregister name => exact fun herror => by cases herror
    | registerMultiHandler pluginRef handlers | registerForNames pluginRef handler names =>
      dsimp only
      split
      · exact fun herror => by cases herror
      · exact fun _ => rfl
  · rw [(h.unregister name).entriesForHook] at he
    obtain ⟨r, hr, her⟩ := List.mem_flatMap.mp ((List.mem_insertionSort _).mp he)
    rw [Registration.name_of_mem_entriesAt her]
    exact of_decide_eq_true (List.mem_filter.mp hr).2

/-- Two plugins of which the second comes first, one of them under a hook twice, a name that is
    taken, and an unregistration. -/
def registryCalls : List (RegistryCall Nat) :=
  [.registerMultiHandler ⟨{ name := "audit", priority := 20 }, 0⟩ [("pre", 0), ("pre", 1)],
    .registerForNames ⟨{ name := "limiter", priority := 10 }, 1⟩ 2 ["pre", "post"],
    .registerForNames ⟨{ name := "audit", priority := 0 }, 2⟩ 3 ["post"],
    .unregister "limiter"]

/-- The entries left are those of the first registration. -/
theorem registry_invariant_audit :
    let s := Schedule.run RegistryCall.step registryCalls ({}, [])
    (s.1.entriesForHook "pre").map (·.handler) = [0, 1] ∧
      (s.1.entriesForHook "pre").filter (·.name = "audit") =
        (⟨⟨{ name := "audit", priority := 20 }, 0⟩, [("pre", 0), ("pre", 1)]⟩ :
          Registration Nat).entriesAt "pre" := by
  refine ⟨rfl, ?_⟩
  exact ((registry_invariant registryCalls).2.2.1 _ List.mem_cons_self).2 "pre"

end Cpex.Core
