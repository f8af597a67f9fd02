import Cpex.Spec.RouteEdits

/-! # The delegation chain inside of a route

The steps of a route see the delegation chain that the steps before them left. A plugin step goes
through the merge, which only extends the chain. A `delegate` step goes around it: what the handler
resolved replaces the slot, so the chain grows only if the handler saw to it.
-/

namespace Cpex

/-- The delegation chain, empty if there is no delegation. -/
def Extensions.chain (e : Extensions) : List DelegationHop :=
  (e.delegation.map (·.chain)).getD []

theorem ChainGrows.nil (chain : List DelegationHop) : ChainGrows [] chain :=
  fun _ _ h => nomatch h

theorem Tiers.chain (h : Tiers e e') : ChainGrows e.chain e'.chain := by
  unfold Extensions.chain
  cases hd : e.delegation with
  | none => exact .nil _
  | some d =>
    obtain ⟨d', hd', hgrows, -⟩ := h.delegation d hd
    rw [hd']
    exact hgrows

end Cpex

namespace Cpex.Core

open Cpex

variable {η σ τ : Type}

/-- What the handler resolved extends the chain of the request. -/
def DelegationPayload.ExtendsChain (resolved : DelegationPayload) (ext : Extensions) : Prop :=
  ∀ update, resolved.delegationUpdate = some update → ChainGrows ext.chain update.chain

theorem DelegationPayload.extendsChain_iff (resolved : DelegationPayload) (ext : Extensions) :
    resolved.ExtendsChain ext ↔ ChainGrows ext.chain (resolved.applyToExtensions ext).chain := by
  have htoken : (resolved.applyToken ext).chain = ext.chain := by
    unfold applyToken
    cases resolved.delegatedToken <;> rfl
  unfold ExtendsChain applyToExtensions
  cases resolved.delegationUpdate with
  | none =>
    rw [htoken]
    exact iff_of_true nofun (.refl _)
  | some update =>
    simp only [Option.some.injEq, forall_eq']
    rfl

/-! ### What is on record -/

/-- The record of `b` continues that of `a` by lawful writes. -/
def WritesLawfully (a b : RequestState σ) : Prop :=
  ∃ new, b.writes = a.writes ++ new ∧ ∀ w ∈ new, w.Lawful

/-- Whatever a route calls, its record is lawful. -/
theorem lawful_of_calls [Platform] (host : RouteHost η σ) (plan : RouteDispatchPlan η)
    {branch may : Call → Prop} (h : Calls (routeEnv host plan) branch may w w') :
    WritesLawfully w w' := by
  refine calls_induction host plan (fun _ _ _ h h' => recorded_trans h h') (fun w => ?_)
    (fun _ _ ws h => ⟨ws, h.writes, h.lawful⟩) (fun w ends _ => ?_) h
  · exact ⟨[], by rw [sync_writes, List.append_nil], by simp⟩
  · -- What the branches wrote goes on record as theirs.
    refine ⟨_, rfl, fun u hu => ?_⟩
    obtain ⟨u₀, -, rfl⟩ := List.mem_map.mp hu
    trivial

/-! ### What the steps see -/

/-- The steps of a record outside of `parallel` blocks. -/
def sequentialSteps (writes : List ExtensionsWrite) : List ExtensionsWrite :=
  writes.filter fun w => w.writer ≠ .branch

/-- Each step sees a chain that has the chain of every earlier step at its start, and so does who
    gets the extensions in the end. -/
structure ChainOnlyGrows (writes : List ExtensionsWrite) (final : Extensions) : Prop where
  steps : (sequentialSteps writes).Pairwise fun w u => ChainGrows w.before.chain u.before.chain
  result : ∀ w ∈ sequentialSteps writes, ChainGrows w.before.chain final.chain

variable {w : ExtensionsWrite} {ws : List ExtensionsWrite}

theorem sequentialSteps_cons (h : w.writer ≠ .branch) :
    sequentialSteps (w :: ws) = w :: sequentialSteps ws :=
  List.filter_cons_of_pos (decide_eq_true h)

theorem sequentialSteps_branch (h : w.writer = .branch) :
    sequentialSteps (w :: ws) = sequentialSteps ws :=
  List.filter_cons_of_neg (by simp [h])

theorem ne_branch_of_kept (h : w.writer = .plugin ∨ w.writer = .grant) : w.writer ≠ .branch := by
  rcases h with h | h <;> simp [h]

theorem ne_branch_of_dropped (h : w.writer = .delegator ∨ w.writer = .approver) :
    w.writer ≠ .branch := by
  rcases h with h | h <;> simp [h]

/-- Each write that the request goes on with extends the chain. -/
def ExtendingWrites (writes : List ExtensionsWrite) : Prop :=
  ∀ w ∈ writes, w.writer = .plugin ∨ w.writer = .grant → ChainGrows w.before.chain w.after.chain

theorem extendingWrites_cons :
    ExtendingWrites (w :: ws) ↔
      (w.writer = .plugin ∨ w.writer = .grant → ChainGrows w.before.chain w.after.chain) ∧
        ExtendingWrites ws :=
  List.forall_mem_cons

variable {e e' : Extensions}

/-- The first step sees the extensions that the record starts from. Without a step, they are what
    it ends with. -/
theorem Replays.seen (h : Replays e ws e') :
    (∃ w ∈ sequentialSteps ws, w.before = e) ∨ sequentialSteps ws = [] ∧ e' = e := by
  induction h with
  | nil e => exact .inr ⟨rfl, rfl⟩
  | @kept e w ws e' hwriter hbefore _ _ _ =>
    have hstep := ne_branch_of_kept hwriter
    rw [sequentialSteps_cons hstep]
    exact .inl ⟨w, List.mem_cons_self, hbefore⟩
  | @dropped e w ws e' hwriter hbefore _ _ _ =>
    have hstep := ne_branch_of_dropped hwriter
    rw [sequentialSteps_cons hstep]
    exact .inl ⟨w, List.mem_cons_self, hbefore⟩
  | branch hwriter _ _ ih => rwa [sequentialSteps_branch hwriter]

/-- Along writes that extend the chain, every step and the end see the chain of the start. -/
theorem Replays.chain (h : Replays e ws e') (hextending : ExtendingWrites ws) :
    ChainGrows e.chain e'.chain ∧
      ∀ w ∈ sequentialSteps ws, ChainGrows e.chain w.before.chain := by
  induction h with
  | nil e => exact ⟨.refl _, fun _ h => absurd h List.not_mem_nil⟩
  | @kept e w ws e' hwriter hbefore _ _ ih =>
    have hstep := ne_branch_of_kept hwriter
    have hgrows := hextending w List.mem_cons_self hwriter
    obtain ⟨hend, hsteps⟩ := ih fun u hu => hextending u (List.mem_cons_of_mem _ hu)
    rw [sequentialSteps_cons hstep, ← hbefore]
    refine ⟨hgrows.trans hend, fun u hu => ?_⟩
    rcases List.mem_cons.mp hu with rfl | hu
    · exact .refl _
    · exact hgrows.trans (hsteps u hu)
  | @dropped e w ws e' hwriter hbefore _ _ ih =>
    -- The request goes on with what it had, so the write need not extend the chain.
    have hstep := ne_branch_of_dropped hwriter
    obtain ⟨hend, hsteps⟩ := ih fun u hu => hextending u (List.mem_cons_of_mem _ hu)
    rw [sequentialSteps_cons hstep]
    refine ⟨hend, fun u hu => ?_⟩
    rcases List.mem_cons.mp hu with rfl | hu
    · rw [hbefore]
      exact .refl _
    · exact hsteps u hu
  | branch hwriter _ _ ih =>
    rw [sequentialSteps_branch hwriter]
    exact ih fun u hu => hextending u (List.mem_cons_of_mem _ hu)

theorem chainOnlyGrows_cons {final : Extensions} (h : w.writer ≠ .branch) :
    ChainOnlyGrows (w :: ws) final ↔
      (∀ u ∈ sequentialSteps ws, ChainGrows w.before.chain u.before.chain) ∧
        ChainGrows w.before.chain final.chain ∧ ChainOnlyGrows ws final := by
  constructor
  · rintro ⟨hsteps, hresult⟩
    rw [sequentialSteps_cons h] at hsteps hresult
    obtain ⟨hhead, htail⟩ := List.pairwise_cons.mp hsteps
    obtain ⟨hfinal, hresult⟩ := List.forall_mem_cons.mp hresult
    exact ⟨hhead, hfinal, htail, hresult⟩
  · rintro ⟨hhead, hfinal, htail, hresult⟩
    refine ⟨?_, ?_⟩ <;> rw [sequentialSteps_cons h]
    · exact List.pairwise_cons.mpr ⟨hhead, htail⟩
    · exact List.forall_mem_cons.mpr ⟨hfinal, hresult⟩

theorem chainOnlyGrows_branch {final : Extensions} (h : w.writer = .branch) :
    ChainOnlyGrows (w :: ws) final ↔ ChainOnlyGrows ws final := by
  constructor <;> rintro ⟨hsteps, hresult⟩
  · rw [sequentialSteps_branch h] at hsteps hresult
    exact ⟨hsteps, hresult⟩
  · refine ⟨?_, ?_⟩ <;> rwa [sequentialSteps_branch h]

/-- The chain only grows exactly if each write that the request goes on with extends it: a write
    that does not is seen by the next step, or in the end. -/
theorem Replays.chainOnlyGrows_iff (h : Replays e ws e') :
    ChainOnlyGrows ws e' ↔ ExtendingWrites ws := by
  induction h with
  | nil e =>
    exact iff_of_true ⟨.nil, fun _ h => absurd h List.not_mem_nil⟩
      fun _ h => absurd h List.not_mem_nil
  | @kept e w ws e' hwriter _ _ rest ih =>
    have hstep := ne_branch_of_kept hwriter
    rw [chainOnlyGrows_cons hstep, ih, extendingWrites_cons]
    constructor
    · rintro ⟨hsteps, hend, hrest⟩
      refine ⟨fun _ => ?_, hrest⟩
      -- What this write left is what the next step finds, or what the route ends with.
      rcases rest.seen with ⟨u, hu, hbefore⟩ | ⟨-, hsame⟩
      · exact hbefore ▸ hsteps u hu
      · exact hsame ▸ hend
    · rintro ⟨hgrows, hrest⟩
      obtain ⟨hend, hsteps⟩ := rest.chain hrest
      exact ⟨fun u hu => (hgrows hwriter).trans (hsteps u hu), (hgrows hwriter).trans hend, hrest⟩
  | @dropped e w ws e' hwriter hbefore _ rest ih =>
    have hstep := ne_branch_of_dropped hwriter
    have hnone : ¬(w.writer = .plugin ∨ w.writer = .grant) := by
      rcases hwriter with h | h <;> simp [h]
    rw [chainOnlyGrows_cons hstep, ih, extendingWrites_cons]
    constructor
    · rintro ⟨-, -, hrest⟩
      exact ⟨fun hw => absurd hw hnone, hrest⟩
    · rintro ⟨-, hrest⟩
      obtain ⟨hend, hsteps⟩ := rest.chain hrest
      rw [hbefore]
      exact ⟨hsteps, hend, hrest⟩
  | @branch e w ws e' hwriter _ _ ih =>
    have hnone : ¬(w.writer = .plugin ∨ w.writer = .grant) := by simp [hwriter]
    rw [chainOnlyGrows_branch hwriter, ih, extendingWrites_cons]
    exact ⟨fun hrest => ⟨fun hw => absurd hw hnone, hrest⟩, fun hrest => hrest.2⟩

/-! ### Routes -/

/-- Each grant on record applied a payload that extends the chain of the request. -/
def GrantsExtend (writes : List ExtensionsWrite) : Prop :=
  ∀ w ∈ writes, w.writer = .grant → ∃ resolved : DelegationPayload,
    w.after = resolved.applyToExtensions w.before ∧ resolved.ExtendsChain w.before

/-- On a lawful record it is up to the grants. -/
theorem extendingWrites_iff (h : ∀ w ∈ writes, w.Lawful) :
    ExtendingWrites writes ↔ GrantsExtend writes := by
  refine forall₂_congr fun w hw => ?_
  have hlawful := h w hw
  unfold ExtensionsWrite.Lawful at hlawful
  constructor
  · intro hextends hgrant
    simp only [hgrant] at hlawful
    obtain ⟨resolved, hafter⟩ := hlawful
    refine ⟨resolved, hafter, (resolved.extendsChain_iff w.before).mpr ?_⟩
    exact hafter ▸ hextends (.inr hgrant)
  · rintro hgrants (hplugin | hgrant)
    · simp only [hplugin] at hlawful
      exact hlawful.chain
    · obtain ⟨resolved, hafter, hextends⟩ := hgrants hgrant
      rw [hafter]
      exact (resolved.extendsChain_iff w.before).mp hextends

theorem applySessionTaints_chain :
    (applySessionTaints taints st).extensions.chain = st.extensions.chain := by
  unfold applySessionTaints
  dsimp only
  split <;> rfl

section
variable [Platform] (host : HandlerHost η σ τ)

/-- The record of an evaluated route is lawful. -/
theorem EvaluatedFrom.lawful {s : ServerState σ τ} {r : RoutedRequest η} {e : Evaluated σ}
    {opened : OpenedRequest} {request : RequestState σ} {sessions : τ}
    (h : EvaluatedFrom host s r e opened request sessions)
    (hreads : ParallelReads r.plan r.handler.route) : ∀ w ∈ e.request.writes, w.Lawful := by
  obtain ⟨new, hwrites, hlawful⟩ := lawful_of_calls host.toRouteHost r.plan
    (r.handler.evaluate_calls host hreads r.payload request)
  -- The record of the request that was opened is empty.
  rw [(r.handler.startPhase_request host r.payload request).1, (h.fresh host).1,
    List.nil_append] at hwrites
  rw [h.writes host, hwrites]
  exact hlawful

/-- The steps of a route, and who gets the extensions that it ends with, see a chain that only
    grows exactly if each delegation that was granted extends the chain its step saw. -/
theorem handle_chainOnlyGrows_iff {s : ServerState σ τ} {r : RoutedRequest η}
    (hreads : ParallelReads r.plan r.handler.route) {e : Evaluated σ}
    (heval : (handle host s r).evaluated = some e) :
    ChainOnlyGrows e.request.writes e.request.extensions ↔ GrantsExtend e.request.writes := by
  obtain ⟨opened, request, sessions, hfrom⟩ := handle_evaluated host heval
  -- Session taints come after the record, and leave the chain.
  have hchain : e.request.extensions.chain = e.phase.world.extensions.chain := by
    rw [hfrom.taints, applySessionTaints_chain]
  have hsame : ChainOnlyGrows e.request.writes e.request.extensions ↔
      ChainOnlyGrows e.request.writes e.phase.world.extensions := by
    constructor <;> rintro ⟨hsteps, hresult⟩
    · exact ⟨hsteps, hchain ▸ hresult⟩
    · exact ⟨hsteps, hchain.symm ▸ hresult⟩
  rw [hsame, (hfrom.replays host hreads).chainOnlyGrows_iff,
    extendingWrites_iff (hfrom.lawful host hreads)]

end

/-! ### A step that mints a token -/

section
attribute [local instance] Platform.bare

/-- A host whose delegation handlers resolve to the chain. -/
def mintingHost (chain : List DelegationHop) :
    HandlerHost Unit Unit (HashMap String (Finset String)) :=
  { HandlerHost.direct .passing .passing with
    delegation := .direct fun _ payload _ world =>
      ({ modifiedPayload := some { payload with delegationUpdate := some { chain } } }, world) }

/-- A plan with the delegation plugin `minter`. -/
def minterPlan : RouteDispatchPlan Unit where
  delegationEntries := (∅ : HashMap String (HookEntry Unit)).insert "minter"
    ⟨⟨{ name := "minter", kind := "builtin" }, 1⟩, ()⟩

/-- A route that delegates. -/
def minterHandler : Annotation :=
  installHandler plainVisitor none "tool" "send" none "cmf.tool_pre_invoke" .pre
    { routeKey := "tool:send"
      policy := [.delegate { pluginName := "minter", source := "policy" }] }
    ∅

/-- The route on a request that `alice` delegated to begin with. -/
def minterRun (chain : List DelegationHop) : HandlerRun Unit (HashMap String (Finset String)) :=
  handle (mintingHost chain) freshServer ⟨minterHandler.2.handler, minterPlan, ⟨{ role := .user }⟩,
    { delegation := some { chain := [{ subjectId := "alice" }] } }⟩

theorem minterHandler_reads : ParallelReads minterPlan minterHandler.2.handler.route :=
  ⟨⟨trivial, trivial⟩, trivial⟩

/-- A handler that appends its hop. -/
theorem handle_chainOnlyGrows_appended :
    ∃ e, (minterRun [{ subjectId := "alice" }, { subjectId := "agent" }]).evaluated = some e ∧
      ChainOnlyGrows e.request.writes e.request.extensions := by
  have hrun : (minterRun [{ subjectId := "alice" }, { subjectId := "agent" }]).evaluated.map
      (fun e => e.request.writes.map fun w => (w.before.chain, w.after.chain)) =
        some [([{ subjectId := "alice" }], [{ subjectId := "alice" }]),
          ([{ subjectId := "alice" }], [{ subjectId := "alice" }, { subjectId := "agent" }])] := by
    decide +kernel
  obtain ⟨e, heval, hwrites⟩ := Option.map_eq_some_iff.mp hrun
  refine ⟨e, heval, (handle_chainOnlyGrows_iff _ minterHandler_reads heval).mpr ?_⟩
  obtain ⟨_, _, _, hfrom⟩ := handle_evaluated _ heval
  refine (extendingWrites_iff (hfrom.lawful _ minterHandler_reads)).mp fun w hw _ => ?_
  have hmem : (w.before.chain, w.after.chain) ∈ e.request.writes.map fun w =>
      (w.before.chain, w.after.chain) := List.mem_map.mpr ⟨w, hw, rfl⟩
  rw [hwrites] at hmem
  simp only [List.mem_cons, List.not_mem_nil, or_false, Prod.mk.injEq] at hmem
  rcases hmem with ⟨hbefore, hafter⟩ | ⟨hbefore, hafter⟩ <;> rw [hbefore, hafter] <;>
    exact chainGrows_of_chainExtends (by decide)

/-- A handler that resolves to its hop alone: who gets the extensions in the end does not see the
    hop that the step saw. -/
theorem handle_replaces_chain :
    ∃ e, (minterRun [{ subjectId := "agent" }]).evaluated = some e ∧
      ¬ChainOnlyGrows e.request.writes e.request.extensions := by
  have hrun : (minterRun [{ subjectId := "agent" }]).evaluated.map (fun e =>
      ((sequentialSteps e.request.writes).map fun w => w.before.chain,
        e.request.extensions.chain)) =
        some ([[{ subjectId := "alice" }], [{ subjectId := "alice" }]],
          [{ subjectId := "agent" }]) := by
    decide +kernel
  obtain ⟨e, heval, hchains⟩ := Option.map_eq_some_iff.mp hrun
  obtain ⟨hsteps, hfinal⟩ := Prod.mk.inj hchains
  refine ⟨e, heval, fun hgrows => ?_⟩
  obtain ⟨w, hw, hbefore⟩ := List.mem_map.mp (hsteps ▸ List.mem_cons_self)
  have hlost := hgrows.result w hw
  rw [hbefore, hfinal] at hlost
  obtain ⟨hop, hhop, hsame⟩ := hlost 0 _ rfl
  cases hhop
  exact absurd hsame.subjectId (by decide)

end

end Cpex.Core
