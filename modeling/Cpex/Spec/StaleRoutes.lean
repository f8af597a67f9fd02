import Cpex.Spec.DispatchSteps

/-! # The route cache across changes

A change of the configuration stores its snapshot and then clears the route cache, while dispatches
that loaded an older snapshot may still be resolving. One of them that fills the cache after it was
cleared leaves there what its old snapshot said, for every dispatch that comes later.
-/

namespace Cpex.Core

variable {ι κ η : Type}

/-- The dispatch `k` is about to fill the route cache with what it resolved against a snapshot older
    than that of a change which has returned. -/
def System.FillsLate (sys : System ι κ η) (k : κ) : Prop :=
  ∃ snapshot version entity entries,
    sys.dispatches k = .resolved snapshot version entity entries ∧
      sys.routeCache.entries.length < snapshot.routeCacheMaxEntries ∧
      ∃ i changed, sys.mutators i = .returned changed true ∧ version < changed

section
variable [DecidableEq ι] [DecidableEq κ]

/-- No dispatch of the run fills the route cache late. -/
def Traffic.FillsInTime (calls : Traffic ι κ η) (schedule : List (ι ⊕ κ)) (sys : System ι κ η) :
    Prop :=
  Schedule.Always calls.step (fun sys t => ∀ k, t = .inr k → ¬ sys.FillsLate k) schedule sys

variable {calls : Traffic ι κ η} {sys : System ι κ η}

/-! ### What the cache holds -/

/-- `snapshot` has the number `version` in the run. -/
def Traffic.Numbered (calls : Traffic ι κ η) (schedule : List (ι ⊕ κ)) (sys : System ι κ η)
    (snapshot : Snapshot η) (version : Nat) : Prop :=
  ∃ before after, schedule = before ++ after ∧ (calls.run before sys).runtime = snapshot ∧
    (calls.run before sys).version = version

/-- `entries` is what a request of the run resolves to against the snapshot number `version`, and
    `key` is its cache key. -/
def Traffic.ResolvedAt (calls : Traffic ι κ η) (schedule : List (ι ⊕ κ)) (sys : System ι κ η)
    (key : RouteCacheKey) (entries : List (HookEntry η)) (version : Nat) : Prop :=
  ∃ k snapshot config entity, calls.Numbered schedule sys snapshot version ∧
    routedBy snapshot.toRuntime (calls.request k).extensions (calls.request k).hookName =
      some (config, entity) ∧
    key = cacheKey entity (calls.request k).hookName ∧
    entries = resolveEntries calls.host config (calls.request k).hash
      (snapshot.registry.entriesForHook (calls.request k).hookName) entity
      (calls.request k).hookName

/-- What is known of the state of the dispatch `k`. -/
def Traffic.Accounts (calls : Traffic ι κ η) (schedule : List (ι ⊕ κ)) (sys : System ι κ η)
    (k : κ) : DispatchState η → Prop
  | .loaded snapshot version => calls.Numbered schedule sys snapshot version
  | .missed snapshot version config entity => calls.Numbered schedule sys snapshot version ∧
      routedBy snapshot.toRuntime (calls.request k).extensions (calls.request k).hookName =
        some (config, entity)
  | .resolved _ version entity entries => calls.ResolvedAt schedule sys
      (cacheKey entity (calls.request k).hookName) entries version
  | .returned entries (some version) => ∃ entity entries',
      entityRef (calls.request k).extensions = some entity ∧ entries = pluginChain entries' ∧
        calls.ResolvedAt schedule sys (cacheKey entity (calls.request k).hookName) entries' version
  | .called | .returned _ none => True

section
variable {schedule : List (ι ⊕ κ)} {start : System ι κ η}

theorem Traffic.Numbered.append (h : calls.Numbered schedule start snapshot version)
    (more : List (ι ⊕ κ)) :
    calls.Numbered (schedule ++ more) start snapshot version := by
  obtain ⟨before, after, rfl, hruntime, hversion⟩ := h
  exact ⟨before, after ++ more, List.append_assoc .., hruntime, hversion⟩

theorem Traffic.ResolvedAt.append (h : calls.ResolvedAt schedule start key entries version)
    (more : List (ι ⊕ κ)) : calls.ResolvedAt (schedule ++ more) start key entries version := by
  obtain ⟨k, snapshot, config, entity, hnumbered, hrest⟩ := h
  exact ⟨k, snapshot, config, entity, hnumbered.append more, hrest⟩

theorem Traffic.Accounts.append (h : calls.Accounts schedule start k state) (more : List (ι ⊕ κ)) :
    calls.Accounts (schedule ++ more) start k state := by
  cases state with
  | called => trivial
  | loaded snapshot version => exact Traffic.Numbered.append h more
  | missed snapshot version config entity => exact ⟨h.1.append more, h.2⟩
  | resolved snapshot version entity entries => exact Traffic.ResolvedAt.append h more
  | returned entries cached =>
    cases cached with
    | none => trivial
    | some version =>
      obtain ⟨entity, entries', hentity, hentries, hresolved⟩ := h
      exact ⟨entity, entries', hentity, hentries, hresolved.append more⟩

theorem Traffic.run_append (before after : List (ι ⊕ κ)) :
    calls.run (before ++ after) start = calls.run after (calls.run before start) :=
  Schedule.run_append before after start

theorem Traffic.run_snoc (t : ι ⊕ κ) :
    calls.run (schedule ++ [t]) start = calls.step (calls.run schedule start) t :=
  Schedule.run_snoc

/-- Everything in the cache, and everything the dispatches hold, is accounted for. -/
structure Traffic.Accounted (calls : Traffic ι κ η) (schedule : List (ι ⊕ κ))
    (start : System ι κ η) : Prop where
  dispatches : ∀ k, calls.Accounts schedule start k ((calls.run schedule start).dispatches k)
  cache : ∀ key r, (calls.run schedule start).routeCache.lookup key = some r →
    calls.ResolvedAt schedule start key r.entries r.version

theorem Traffic.Accounted.mutator_step (h : calls.Accounted schedule start) (i : ι) :
    calls.Accounted (schedule ++ [.inl i]) start := by
  constructor
  · intro k
    rw [Traffic.run_snoc, dispatches_mutatorStep]
    exact (h.dispatches k).append _
  · intro key r hr
    rw [Traffic.run_snoc] at hr
    rcases mutatorStep_cases calls (calls.run schedule start) i with hempty | ⟨hsame, _⟩
    · rw [hempty] at hr
      exact nomatch hr
    · rw [hsame] at hr
      exact (h.cache key r hr).append _

section
variable {k : κ} {state : DispatchState η} {routeCache : HashMap RouteCacheKey (Resolution η)}

/-- The state a dispatch gets to by its own step. -/
theorem Traffic.Accounted.own_step (h : calls.Accounted schedule start)
    (hmove : DispatchMoves calls (calls.run schedule start) k state routeCache) :
    calls.Accounts (schedule ++ [.inr k]) start k state := by
  have hown := (h.dispatches k).append [.inr k]
  cases hmove with
  | load hstate => exact ⟨schedule, [.inr k], rfl, rfl, rfl⟩
  | look hstate =>
    rw [hstate] at hown
    rcases lookupStep_cases calls.host (calls.request k) _ _
      (calls.run schedule start).routeCache with ⟨entries, hlookup⟩ |
        ⟨config, entity, hrouted, ⟨r, hr, hlookup⟩ | hlookup⟩ <;> rw [hlookup]
    · trivial
    -- A hit: the entries are accounted for because those of the cache were.
    · exact ⟨entity, r.entries, (routedBy_eq_some_iff.mp hrouted).about, rfl,
        (h.cache _ r hr).append _⟩
    · exact ⟨hown, hrouted⟩
  | resolve hstate =>
    rw [hstate] at hown
    exact ⟨k, _, _, _, hown.1, hown.2, rfl, rfl⟩
  | fill hstate hroom => trivial
  | full hstate hroom => trivial
  | done hstate =>
    rw [hstate] at hown
    exact hown

/-- The cache a dispatch leaves. -/
theorem Traffic.Accounted.cache_step (h : calls.Accounted schedule start)
    (hmove : DispatchMoves calls (calls.run schedule start) k state routeCache) :
    ∀ key r, routeCache.lookup key = some r →
      calls.ResolvedAt (schedule ++ [.inr k]) start key r.entries r.version := by
  have hold := fun key r hr => (h.cache key r hr).append [.inr k]
  cases hmove with
  | fill hstate hroom =>
    have hown := h.dispatches k
    rw [hstate] at hown
    exact AList.forall_lookup_insert hold (Traffic.ResolvedAt.append hown _)
  | load _ | look _ | resolve _ | full _ _ | done _ => exact hold

end

theorem Traffic.Accounted.dispatch_step (h : calls.Accounted schedule start) (k : κ) :
    calls.Accounted (schedule ++ [.inr k]) start := by
  have hmove := dispatch_moves calls (calls.run schedule start) k
  constructor
  · intro l
    rw [Traffic.run_snoc]
    by_cases hlk : l = k
    · subst hlk
      exact h.own_step hmove
    · rw [dispatches_dispatchStep_of_ne hlk]
      exact (h.dispatches l).append _
  · rw [Traffic.run_snoc]
    exact h.cache_step hmove

/-- What the cache holds was resolved against a snapshot of the run. -/
theorem accounted (calls : Traffic ι κ η) (schedule : List (ι ⊕ κ)) (init : Snapshot η) :
    calls.Accounted schedule { runtime := init } := by
  induction schedule using List.reverseRecOn with
  | nil => exact ⟨fun _ => trivial, fun key r hr => (nomatch hr)⟩
  | append_singleton schedule t ih =>
    cases t with
    | inl i => exact ih.mutator_step i
    | inr k => exact ih.dispatch_step k

/-! ### Changes -/

/-- Nothing in the cache is older than a change that has returned. -/
def System.Current (sys : System ι κ η) : Prop :=
  ∀ key r, sys.routeCache.lookup key = some r →
    ∀ i n, sys.mutators i = .returned n true → n ≤ r.version

section
omit [DecidableEq ι] [DecidableEq κ]
variable {k : κ} {state : DispatchState η} {routeCache : HashMap RouteCacheKey (Resolution η)}

theorem System.Current.cache_step (h : sys.Current) (hlate : ¬ sys.FillsLate k)
    (hmove : DispatchMoves calls sys k state routeCache) :
    ∀ key r, routeCache.lookup key = some r →
      ∀ i n, sys.mutators i = .returned n true → n ≤ r.version := by
  cases hmove with
  | fill hstate hroom =>
    refine AList.forall_lookup_insert h fun i n hi => ?_
    by_contra hlt
    exact hlate ⟨_, _, _, _, hstate, hroom, i, n, hi, Nat.lt_of_not_le hlt⟩
  | load _ | look _ | resolve _ | full _ _ | done _ => exact h

/-- A dispatch that returns entries from the cache has just found them there, or had returned. -/
theorem DispatchMoves.hit (hmove : DispatchMoves calls sys k state routeCache)
    (h : state = .returned entries (some v)) :
    sys.dispatches k = .returned entries (some v) ∨
      ∃ key r, sys.routeCache.lookup key = some r ∧ r.version = v := by
  cases hmove with
  | look hstate =>
    rcases lookupStep_cases calls.host (calls.request k) _ _ sys.routeCache with
      ⟨_, hlookup⟩ | ⟨_, entity, _, ⟨r, hr, hlookup⟩ | hlookup⟩ <;> rw [hlookup] at h
    · exact nomatch h
    · cases h
      exact .inr ⟨_, r, hr, rfl⟩
    · exact nomatch h
  | done hstate => exact .inl (hstate.trans h)
  | load _ | resolve _ | fill _ _ | full _ _ => exact nomatch h

end

variable {t : ι ⊕ κ}

theorem System.Current.step (h : sys.Current) (ht : ∀ k, t = .inr k → ¬ sys.FillsLate k) :
    (calls.step sys t).Current := by
  cases t with
  | inl i =>
    intro key r hr j n hj
    rcases mutatorStep_cases calls sys i with hempty | ⟨hsame, hreturned⟩
    · rw [hempty] at hr
      exact nomatch hr
    · rw [hsame] at hr
      exact h key r hr j n (hreturned j n hj)
  | inr k =>
    unfold System.Current
    rw [mutators_dispatchStep]
    exact h.cache_step (ht k rfl) (dispatch_moves calls sys k)

theorem hit_of_step (h : (calls.step sys t).dispatches k = .returned entries (some v)) :
    sys.dispatches k = .returned entries (some v) ∨
      ∃ key r, sys.routeCache.lookup key = some r ∧ r.version = v := by
  cases t with
  | inl i =>
    rw [dispatches_mutatorStep] at h
    exact .inl h
  | inr l =>
    by_cases hkl : k = l
    · subst hkl
      exact (dispatch_moves calls sys k).hit h
    · rw [dispatches_dispatchStep_of_ne hkl] at h
      exact .inl h

/-- The change `i` has returned, and the dispatch `k` gets nothing older from the cache. -/
structure System.ServedAfter (sys : System ι κ η) (i : ι) (changed : Nat) (k : κ) : Prop where
  current : sys.Current
  returned : sys.mutators i = .returned changed true
  hit : ∀ entries version, sys.dispatches k = .returned entries (some version) →
    changed ≤ version

theorem System.ServedAfter.step (h : sys.ServedAfter i changed k)
    (ht : ∀ k, t = .inr k → ¬ sys.FillsLate k) :
    (calls.step sys t).ServedAfter i changed k where
  current := h.current.step ht
  returned := by
    cases t with
    | inl j => exact returned_mutatorStep h.returned
    | inr l =>
      rw [mutators_dispatchStep]
      exact h.returned
  hit := by
    intro entries version hhit
    rcases hit_of_step hhit with hhit | ⟨key, r, hr, rfl⟩
    · exact h.hit entries version hhit
    · exact h.current key r hr i changed h.returned

/-- Whatever the steps of any number of mutators and dispatches, and whatever their order: if no
dispatch fills the cache with what it resolved against a snapshot older than a change that has
returned, then a dispatch that loads its snapshot after a change has returned gets from the cache
only entries of its own cache key that were resolved against the snapshot of the change, or a later
one. -/
theorem dispatch_current {before after : List (ι ⊕ κ)} {init : Snapshot η} {i : ι} {changed : Nat}
    {k : κ} {entries : List (HookEntry (Handler η))} {version : Nat}
    (hfills : calls.FillsInTime (before ++ after) { runtime := init })
    (hchange : (calls.run before { runtime := init }).mutators i = .returned changed true)
    (hcalled : (calls.run before { runtime := init }).dispatches k = .called)
    (hhit : (calls.run (before ++ after) { runtime := init }).dispatches k =
      .returned entries (some version)) :
    changed ≤ version ∧ ∃ entity entries',
      entityRef (calls.request k).extensions = some entity ∧ entries = pluginChain entries' ∧
      calls.ResolvedAt (before ++ after) { runtime := init }
        (cacheKey entity (calls.request k).hookName) entries' version := by
  have haccounts := (accounted calls (before ++ after) init).dispatches k
  rw [hhit] at haccounts
  refine ⟨?_, haccounts⟩
  obtain ⟨hbefore, hafter⟩ := Schedule.always_append.mp hfills
  have hcurrent : (calls.run before { runtime := init }).Current :=
    hbefore.run_induction (fun _ _ ht h => h.step ht) fun key r hr => (nomatch hr)
  have hserved : (calls.run before { runtime := init }).ServedAfter i changed k :=
    ⟨hcurrent, hchange, fun entries version h => nomatch hcalled.symm.trans h⟩
  have hend : (calls.run (before ++ after) { runtime := init }).ServedAfter i changed k := by
    rw [Traffic.run_append]
    exact hafter.run_induction
      (fun sys _ ht (h : sys.ServedAfter i changed k) => h.step ht) hserved
  exact hend.hit entries version hhit

end

/-! ### A reload -/

/-- Whether a mutator has returned from a change after the snapshot number `version`. -/
instance (state : MutatorState η) (version : Nat) :
    Decidable (∃ changed, state = .returned changed true ∧ version < changed) :=
  match state with
  | .returned changed true =>
    if h : version < changed then .isTrue ⟨changed, rfl, h⟩
    else .isFalse fun ⟨_, heq, hlt⟩ => by
      cases heq
      exact h hlt
  | .returned _ false => .isFalse nofun
  | .called | .loaded _ _ | .stored _ | .failed _ => .isFalse nofun

instance [Fintype ι] (sys : System ι κ η) (k : κ) : Decidable (sys.FillsLate k) :=
  match h : sys.dispatches k with
  | .resolved snapshot version entity entries =>
    decidable_of_iff (sys.routeCache.entries.length < snapshot.routeCacheMaxEntries ∧
        ∃ i changed, sys.mutators i = .returned changed true ∧ version < changed) <| by
      constructor
      · exact fun hlate => ⟨snapshot, version, entity, entries, h, hlate⟩
      · rintro ⟨_, _, _, _, h', hlate⟩
        cases h.symm.trans h'
        exact hlate
  | .called | .loaded _ _ | .missed _ _ _ _ | .returned _ _ =>
    .isFalse fun ⟨_, _, _, _, h', _⟩ => nomatch h.symm.trans h'

instance [Fintype ι] (calls : Traffic ι κ η) (schedule : List (ι ⊕ κ)) (sys : System ι κ η) :
    Decidable (calls.FillsInTime schedule sys) :=
  inferInstanceAs (Decidable (Schedule.Always ..))

end

section

/-- A configuration that runs one plugin for every entity. -/
def runningEverywhere (plugin : String) : CpexConfig where
  global := { policies := AList.singleton "all" { plugins := [.name plugin] } }
  plugins := [{ name := plugin, kind := "builtin" }]
  pluginSettings := { routingEnabled := true }

/-- An entry of the plugin on the hook of the requests below. -/
def builtinEntry (plugin : String) (id : Uuid) : HookEntry Unit :=
  ⟨⟨{ name := plugin, kind := "builtin" }, id⟩, ()⟩

/-- A manager that runs `lenient`. -/
def lenientSnapshot : Snapshot Unit :=
  .fromConfig
    { plugins := AList.singleton "lenient" (builtinEntry "lenient" 0).pluginRef
      hookIndex := AList.singleton "tool_pre_invoke" [builtinEntry "lenient" 0] }
    (runningEverywhere "lenient")

/-- A reload that makes it run `strict`, among requests about one tool. -/
def reload : Traffic Unit Nat Unit where
  host := .bare {}
  mutator _ := .loadConfig (runningEverywhere "strict") fun _ =>
    some fun _ => .ok ⟨[("tool_pre_invoke", ())], 1⟩
  request _ := ⟨.sorted, toolRequest "search" ∅, "tool_pre_invoke"⟩

/-- A dispatch that is done before the reload, and two after it: the first of them fills the cache,
    the second one finds what it left there. -/
theorem dispatch_current_reload :
    let before : List (Unit ⊕ Nat) := [.inr 0, .inr 0, .inr 0, .inr 0, .inl (), .inl (), .inl ()]
    let after : List (Unit ⊕ Nat) := [.inr 1, .inr 1, .inr 1, .inr 1, .inr 2, .inr 2]
    (reload.run (before ++ after) { runtime := lenientSnapshot }).dispatches 2 =
        .returned (pluginChain [builtinEntry "strict" 1]) (some 1) ∧
      1 ≤ 1 ∧ ∃ entity entries', entityRef (reload.request 2).extensions = some entity ∧
        pluginChain [builtinEntry "strict" 1] = pluginChain entries' ∧
        reload.ResolvedAt (before ++ after) { runtime := lenientSnapshot }
          (cacheKey entity (reload.request 2).hookName) entries' 1 := by
  intro before after
  have hchange : (reload.run before { runtime := lenientSnapshot }).mutators () =
      .returned 1 true := rfl
  have hcalled : (reload.run before { runtime := lenientSnapshot }).dispatches 2 = .called := rfl
  have hhit : (reload.run (before ++ after) { runtime := lenientSnapshot }).dispatches 2 =
      .returned (pluginChain [builtinEntry "strict" 1]) (some 1) := rfl
  exact ⟨hhit, dispatch_current (by decide +kernel) hchange hcalled hhit⟩

/-- A dispatch has looked into the cache when the reload begins, and fills it when the reload has
    returned. The next dispatch loads the new snapshot, gets `lenient` from the cache, and `strict`
    does not run. -/
theorem dispatch_stale :
    let before : List (Unit ⊕ Nat) := [.inr 0, .inr 0, .inl (), .inl (), .inl ()]
    let after : List (Unit ⊕ Nat) := [.inr 0, .inr 0, .inr 1, .inr 1]
    let sys := reload.run (before ++ after) { runtime := lenientSnapshot }
    (reload.run before { runtime := lenientSnapshot }).mutators () = .returned 1 true ∧
      (reload.run before { runtime := lenientSnapshot }).dispatches 1 = .called ∧
      sys.dispatches 1 = .returned (pluginChain [builtinEntry "lenient" 0]) (some 0) ∧
      (filterEntriesByRoute reload.host sys.runtime.toRuntime (reload.request 1).hash
        (sys.runtime.registry.entriesForHook "tool_pre_invoke") (reload.request 1).extensions
        "tool_pre_invoke" ∅).1 = pluginChain [builtinEntry "strict" 1] :=
  ⟨rfl, rfl, rfl, rfl⟩

end

end Cpex.Core
