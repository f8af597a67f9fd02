import Cpex.Native.Concurrent
import Cpex.Spec.RouteCache

/-! # Steps of the manager

What a step of a mutator or of a dispatch does to the route cache and to the other calls.
-/

namespace Cpex.Core

variable {ι κ η : Type} [DecidableEq ι] [DecidableEq κ] {calls : Traffic ι κ η} {sys : System ι κ η}

/-! ### Steps of mutators -/

theorem dispatches_mutatorStep (i : ι) :
    (calls.step sys (.inl i)).dispatches = sys.dispatches := by
  unfold Traffic.step mutatorStep
  dsimp only
  split
  · rfl
  · split <;> rfl
  · rfl
  · rfl
  · rfl

theorem mutators_mutatorStep_of_ne (h : j ≠ i) :
    (calls.step sys (.inl i)).mutators j = sys.mutators j := by
  unfold Traffic.step mutatorStep
  dsimp only
  split
  · exact Function.update_of_ne h _ _
  · split <;> exact Function.update_of_ne h _ _
  · exact Function.update_of_ne h _ _
  · rfl
  · rfl

/-- A change that has returned stays so. -/
theorem returned_mutatorStep {i : ι} (h : sys.mutators j = .returned n cleared) :
    (calls.step sys (.inl i)).mutators j = .returned n cleared := by
  by_cases hji : j = i
  · subst hji
    have hstep : calls.step sys (.inl j) = sys := mutatorStep_of_returned h
    rw [hstep]
    exact h
  · rw [mutators_mutatorStep_of_ne hji]
    exact h

variable (calls sys) in
/-- A mutator that leaves anything in the cache does not return from a change. -/
theorem mutatorStep_cases (i : ι) :
    (calls.step sys (.inl i)).routeCache = ∅ ∨
      (calls.step sys (.inl i)).routeCache = sys.routeCache ∧
        ∀ j n, (calls.step sys (.inl i)).mutators j = .returned n true →
          sys.mutators j = .returned n true := by
  have hothers : ((∃ n, (calls.step sys (.inl i)).mutators i = .returned n true) →
      calls.step sys (.inl i) = sys) → ∀ j n,
      (calls.step sys (.inl i)).mutators j = .returned n true →
        sys.mutators j = .returned n true := by
    intro hi j n hj
    by_cases hji : j = i
    · subst hji
      rw [hi ⟨n, hj⟩] at hj
      exact hj
    · exact (mutators_mutatorStep_of_ne hji).symm.trans hj
  cases hstate : sys.mutators i with
  | called =>
    have hstep : calls.step sys (.inl i) = _ := mutatorStep_of_called hstate
    refine .inr ⟨by rw [hstep]; rfl, hothers fun ⟨n, hn⟩ => ?_⟩
    rw [hstep, setMutator_self] at hn
    exact nomatch hn
  | loaded snapshot version =>
    cases happly : (calls.mutator i).apply snapshot with
    | error e =>
      have hstep : calls.step sys (.inl i) = _ := mutatorStep_of_error hstate happly
      refine .inr ⟨by rw [hstep]; rfl, hothers fun ⟨n, hn⟩ => ?_⟩
      rw [hstep, setMutator_self] at hn
      exact nomatch hn
    | ok next =>
      have hstep : calls.step sys (.inl i) = _ := mutatorStep_of_ok hstate happly
      refine .inr ⟨by rw [hstep]; rfl, hothers fun ⟨n, hn⟩ => ?_⟩
      rw [hstep, setMutator_self] at hn
      split at hn <;> exact nomatch hn
  | stored version =>
    have hstep : calls.step sys (.inl i) = _ := mutatorStep_of_stored hstate
    exact .inl (by rw [hstep]; rfl)
  | returned version cleared =>
    have hstep : calls.step sys (.inl i) = sys := mutatorStep_of_returned hstate
    exact .inr ⟨by rw [hstep], hothers fun _ => hstep⟩
  | failed e =>
    have hstep : calls.step sys (.inl i) = sys := mutatorStep_of_failed hstate
    exact .inr ⟨by rw [hstep], hothers fun _ => hstep⟩

/-! ### Steps of dispatches -/

theorem mutators_dispatchStep (k : κ) : (calls.step sys (.inr k)).mutators = sys.mutators := by
  unfold Traffic.step dispatchStep
  dsimp only
  split <;> rfl

variable {k : κ}

theorem dispatches_dispatchStep_of_ne (h : l ≠ k) :
    (calls.step sys (.inr k)).dispatches l = sys.dispatches l := by
  unfold Traffic.step dispatchStep
  dsimp only
  split
  · exact Function.update_of_ne h _ _
  · exact Function.update_of_ne h _ _
  · exact Function.update_of_ne h _ _
  · exact Function.update_of_ne h _ _
  · rfl

/-- What a step of the dispatch `k` can do: the state it leads to, and the cache it leaves. -/
inductive DispatchMoves (calls : Traffic ι κ η) (sys : System ι κ η) (k : κ) :
    DispatchState η → HashMap RouteCacheKey (Resolution η) → Prop
  | load (h : sys.dispatches k = .called) :
      DispatchMoves calls sys k (.loaded sys.runtime sys.version) sys.routeCache
  | look {snapshot : Snapshot η} {version : Nat}
      (h : sys.dispatches k = .loaded snapshot version) :
      DispatchMoves calls sys k
        (lookupStep calls.host (calls.request k) snapshot version sys.routeCache) sys.routeCache
  | resolve {snapshot : Snapshot η} {version : Nat} {config : CpexConfig} {entity : EntityRef}
      (h : sys.dispatches k = .missed snapshot version config entity) :
      DispatchMoves calls sys k
        (.resolved snapshot version entity (resolveEntries calls.host config (calls.request k).hash
          (snapshot.registry.entriesForHook (calls.request k).hookName) entity
          (calls.request k).hookName)) sys.routeCache
  | fill {snapshot : Snapshot η} {version : Nat} {entity : EntityRef}
      {entries : List (HookEntry η)}
      (h : sys.dispatches k = .resolved snapshot version entity entries)
      (hroom : sys.routeCache.entries.length < snapshot.routeCacheMaxEntries) :
      DispatchMoves calls sys k (.returned (pluginChain entries) none)
        (sys.routeCache.insert (cacheKey entity (calls.request k).hookName) ⟨entries, version⟩)
  | full {snapshot : Snapshot η} {version : Nat} {entity : EntityRef}
      {entries : List (HookEntry η)}
      (h : sys.dispatches k = .resolved snapshot version entity entries)
      (hroom : ¬ sys.routeCache.entries.length < snapshot.routeCacheMaxEntries) :
      DispatchMoves calls sys k (.returned (pluginChain entries) none) sys.routeCache
  | done {entries : List (HookEntry (Handler η))} {cached : Option Nat}
      (h : sys.dispatches k = .returned entries cached) :
      DispatchMoves calls sys k (.returned entries cached) sys.routeCache

variable (calls sys) in
theorem dispatch_moves (k : κ) : DispatchMoves calls sys k ((calls.step sys (.inr k)).dispatches k)
    (calls.step sys (.inr k)).routeCache := by
  unfold Traffic.step dispatchStep
  dsimp only
  split
  next hstate =>
    rw [setDispatch_self]
    exact .load hstate
  next hstate =>
    rw [setDispatch_self]
    exact .look hstate
  next hstate =>
    rw [setDispatch_self]
    exact .resolve hstate
  next snapshot _ _ _ hstate =>
    rw [setDispatch_self]
    by_cases hroom : sys.routeCache.entries.length < snapshot.routeCacheMaxEntries
    · rw [if_pos hroom]
      exact .fill hstate hroom
    · rw [if_neg hroom]
      exact .full hstate hroom
  next hstate =>
    rw [hstate]
    exact .done hstate

/-- What a dispatch does when it looks into the cache. -/
theorem lookupStep_cases (host : Host η) (request : Request) (snapshot : Snapshot η)
    (version : Nat) (routeCache : HashMap RouteCacheKey (Resolution η)) :
    (∃ entries, lookupStep host request snapshot version routeCache = .returned entries none) ∨
      ∃ config entity,
        routedBy snapshot.toRuntime request.extensions request.hookName = some (config, entity) ∧
        ((∃ r, routeCache.lookup (cacheKey entity request.hookName) = some r ∧
            lookupStep host request snapshot version routeCache =
              .returned (pluginChain r.entries) (some r.version)) ∨
          lookupStep host request snapshot version routeCache =
            .missed snapshot version config entity) := by
  unfold lookupStep
  dsimp only
  split
  · exact .inl ⟨[], rfl⟩
  · cases hrouted : routedBy snapshot.toRuntime request.extensions request.hookName with
    | none => exact .inl ⟨_, rfl⟩
    | some routed =>
      obtain ⟨config, entity⟩ := routed
      refine .inr ⟨config, entity, rfl, ?_⟩
      dsimp only
      cases hlookup : routeCache.lookup (cacheKey entity request.hookName) with
      | none => exact .inr rfl
      | some r => exact .inl ⟨r, rfl, rfl⟩

end Cpex.Core
