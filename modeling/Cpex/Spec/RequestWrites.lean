import Cpex.Spec.CallPaths
import Cpex.Spec.PipelineTiers
import Cpex.Spec.SingleEntry

/-! # The extensions of a request under evaluation

A plugin step replaces the extensions of the request by those its pipeline ended with, and so
does the grant of a `delegate` step. What the plugins of `delegate` and elicitation steps return
is not taken over, and plugins under `parallel` that cannot modify leave the extensions as they
are. The record of a request's writes says all of this, and replaying it gives the extensions the
request ends with.
-/

namespace Cpex.Core

variable {η π σ : Type}

/-! ### Slots every pipeline keeps -/

/-- Labels are only added, an http slot stays, and the immutable slots are the same. -/
structure KeepsSlots (a b : Extensions) : Prop where
  labels : a.labels ⊆ b.labels
  http : a.http.isSome = true → b.http.isSome = true
  immutableSlots : b.immutableSlots = a.immutableSlots

namespace KeepsSlots

theorem refl (e : Extensions) : KeepsSlots e e :=
  ⟨subset_rfl, id, rfl⟩

theorem trans {a b c : Extensions} (hab : KeepsSlots a b) (hbc : KeepsSlots b c) :
    KeepsSlots a c where
  labels := hab.labels.trans hbc.labels
  http h := hbc.http (hab.http h)
  immutableSlots := hbc.immutableSlots.trans hab.immutableSlots

theorem of_tiers (h : Tiers a b) (http : a.http.isSome = true → b.http.isSome = true) :
    KeepsSlots a b :=
  ⟨h.labels, http, h.immutableSlots⟩

end KeepsSlots

theorem mergeOwned_http_isSome (e : Extensions) (owned : OwnedExtensions)
    (h : e.http.isSome = true) : (e.mergeOwned owned).http.isSome = true := by
  rw [mergeOwned_http_eq]
  -- A handed back slot replaces the old one; without one the old stays.
  unfold Extensions.mergeHttp
  split
  · rfl
  · exact h

theorem Run.http_isSome (run : Run st₀ v st) (h : st₀.extensions.http.isSome = true) :
    st.extensions.http.isSome = true := by
  induction run with
  | start => exact h
  | readOnly _ calls ih => rw [calls.extensions]; exact ih
  | serial _ call ih =>
    rename_i r _
    by_cases hacc : r.accepted.extensions = true
    · obtain ⟨owned, -, -, hext⟩ := call.mergeGate_of_accepted hacc
      rw [hext]
      exact mergeOwned_http_isSome _ _ ih
    · rw [call.extensions, if_neg hacc]
      exact ih

/-! ### Replaying the record -/

/-- Replaying the writes `ws` on `e` gives `e'`. -/
inductive Replays : Extensions → List ExtensionsWrite → Extensions → Prop where
  | nil (e : Extensions) : Replays e [] e
  /-- The request goes on with what a plugin step or a grant wrote. -/
  | kept {e w ws e'} (hwriter : w.writer = .plugin ∨ w.writer = .grant) (hbefore : w.before = e)
      (hslots : KeepsSlots w.before w.after) (rest : Replays w.after ws e') :
      Replays e (w :: ws) e'
  /-- What the plugin of a `delegate` or an elicitation step wrote is left behind. -/
  | dropped {e w ws e'} (hwriter : w.writer = .delegator ∨ w.writer = .approver)
      (hbefore : w.before = e) (hslots : KeepsSlots w.before w.after) (rest : Replays e ws e') :
      Replays e (w :: ws) e'
  /-- A plugin under `parallel` wrote nothing. -/
  | branch {e w ws e'} (hwriter : w.writer = .branch) (hsame : w.after = w.before)
      (rest : Replays e ws e') : Replays e (w :: ws) e'

variable {ws : List ExtensionsWrite} {e e' : Extensions}

theorem Replays.append (h : Replays e ws e') (h' : Replays e' vs e'') :
    Replays e (ws ++ vs) e'' := by
  induction h with
  | nil e => exact h'
  | kept hwriter hbefore hslots _ ih => exact .kept hwriter hbefore hslots (ih h')
  | dropped hwriter hbefore hslots _ ih => exact .dropped hwriter hbefore hslots (ih h')
  | branch hwriter hsame _ ih => exact .branch hwriter hsame (ih h')

theorem Replays.keeps (h : Replays e ws e') : KeepsSlots e e' := by
  induction h with
  | nil e => exact .refl e
  | kept _ hbefore hslots _ ih => exact (hbefore ▸ hslots).trans ih
  | dropped _ _ _ _ ih => exact ih
  | branch _ _ _ ih => exact ih

/-- A plugin step wrote what the merges made of the extensions, and a grant what the handler of the
    step resolved. -/
def ExtensionsWrite.Lawful (w : ExtensionsWrite) : Prop :=
  match w.writer with
  | .plugin => Tiers w.before w.after
  | .grant => ∃ resolved : DelegationPayload, w.after = resolved.applyToExtensions w.before
  | .branch | .delegator | .approver => True

/-- The record of `b` continues that of `a`, and accounts for its extensions. -/
def Follows (a b : RequestState σ) : Prop :=
  ∃ new, b.writes = a.writes ++ new ∧ Replays a.extensions new b.extensions

/-- The record of `b` continues that of `a` by writes that edit nothing. -/
def Unedited (a b : RequestState σ) : Prop :=
  ∃ new, b.writes = a.writes ++ new ∧ ∀ w ∈ new, w.after = w.before

/-- Records that continue one another by writes of one kind. -/
theorem recorded_trans {p : ExtensionsWrite → Prop} {a b c : RequestState σ}
    (hab : ∃ new, b.writes = a.writes ++ new ∧ ∀ w ∈ new, p w)
    (hbc : ∃ new, c.writes = b.writes ++ new ∧ ∀ w ∈ new, p w) :
    ∃ new, c.writes = a.writes ++ new ∧ ∀ w ∈ new, p w := by
  obtain ⟨new, hwrites, hnew⟩ := hab
  obtain ⟨new', hwrites', hnew'⟩ := hbc
  refine ⟨new ++ new', by rw [hwrites', hwrites, List.append_assoc], fun w hw => ?_⟩
  rcases List.mem_append.mp hw with hw | hw
  · exact hnew w hw
  · exact hnew' w hw

namespace Follows

variable {a b : RequestState σ}

/-- Neither the record nor the extensions change. -/
theorem of_eq (hwrites : b.writes = a.writes) (hextensions : b.extensions = a.extensions) :
    Follows a b :=
  ⟨[], by rw [hwrites, List.append_nil], by rw [hextensions]; exact .nil _⟩

theorem trans {c : RequestState σ} (hab : Follows a b) (hbc : Follows b c) : Follows a c := by
  obtain ⟨new, hwrites, hreplays⟩ := hab
  obtain ⟨new', hwrites', hreplays'⟩ := hbc
  exact ⟨new ++ new', by rw [hwrites', hwrites, List.append_assoc], hreplays.append hreplays'⟩

end Follows

namespace Unedited

variable {a b : RequestState σ}

theorem of_eq (hwrites : b.writes = a.writes) : Unedited a b :=
  ⟨[], by rw [hwrites, List.append_nil], by simp⟩

theorem trans {c : RequestState σ} (hab : Unedited a b) (hbc : Unedited b c) : Unedited a c :=
  recorded_trans hab hbc

end Unedited

/-! ### The invokers -/

/-- The extensions the pipeline of one entry ends with. -/
def pipelineExtensions {π : Type} (config : ExecutorConfig) (rt : Runtime η π σ)
    (entry : HookEntry η) (payload : π) (st : RequestState σ) : Extensions :=
  (execute rt config [entry] payload st.extensions none st.disabled
    st.world).result.modifiedExtensions.getD st.extensions

section
variable (config : ExecutorConfig) (rt : Runtime η π σ) (entry : HookEntry η) (payload : π)
  (st : RequestState σ)

theorem pipelineExtensions_run :
    Run (.start payload st.extensions none st.disabled st.world)
        (execute rt config [entry] payload st.extensions none st.disabled st.world).result.violation
        (execute rt config [entry] payload st.extensions none st.disabled st.world).state ∧
      pipelineExtensions config rt entry payload st =
        (execute rt config [entry] payload st.extensions none st.disabled
          st.world).state.extensions := by
  obtain ⟨run, reports⟩ := execute_run rt config [entry] payload st.extensions none st.disabled
    st.world
  refine ⟨run, ?_⟩
  rw [pipelineExtensions, reports.extensions]
  rfl

theorem pipelineExtensions_tiers :
    Tiers st.extensions (pipelineExtensions config rt entry payload st) := by
  obtain ⟨run, heq⟩ := pipelineExtensions_run config rt entry payload st
  rw [heq]
  exact run.tiers

theorem pipelineExtensions_keeps :
    KeepsSlots st.extensions (pipelineExtensions config rt entry payload st) := by
  obtain ⟨run, heq⟩ := pipelineExtensions_run config rt entry payload st
  rw [heq]
  exact .of_tiers run.tiers run.http_isSome

/-- An entry that cannot modify leaves the extensions as they are. -/
theorem pipelineExtensions_readOnly (h : (entry.pluginRef.mode st.disabled).canModify = false) :
    pipelineExtensions config rt entry payload st = st.extensions := by
  rw [(pipelineExtensions_run config rt entry payload st).2]
  exact (execute_single_readOnly rt config entry payload st.extensions none st.disabled st.world
    h).2.1

end

theorem settlePlugin_writes (invocation : PluginInvocation) (run : Execution η MessagePayload σ)
    (st : RequestState σ) :
    (settlePlugin invocation run st).2.writes = st.writes ++
        [⟨.plugin, st.extensions, run.result.modifiedExtensions.getD st.extensions⟩] ∧
      (settlePlugin invocation run st).2.extensions =
        run.result.modifiedExtensions.getD st.extensions ∧
      (settlePlugin invocation run st).2.inBranch = st.inBranch := by
  unfold settlePlugin
  dsimp only
  split <;> exact ⟨rfl, rfl, rfl⟩

/-- Applying a delegation touches the delegation and the credentials only. -/
theorem applyToExtensions_keeps (resolved : DelegationPayload) (ext : Extensions) :
    KeepsSlots ext (resolved.applyToExtensions ext) := by
  have htoken : KeepsSlots ext (resolved.applyToken ext) := by
    unfold DelegationPayload.applyToken
    cases resolved.delegatedToken with
    | none => exact .refl ext
    | some token => exact ⟨subset_rfl, id, rfl⟩
  unfold DelegationPayload.applyToExtensions
  cases resolved.delegationUpdate with
  | none => exact htoken
  | some update => exact htoken.trans ⟨subset_rfl, id, rfl⟩

/-- What a call of an invoker does to the request: the writes `ws` go on record. -/
structure Records (st st' : RequestState σ) (ws : List ExtensionsWrite) : Prop where
  writes : st'.writes = st.writes ++ ws
  replays : Replays st.extensions ws st'.extensions
  lawful : ∀ w ∈ ws, w.Lawful
  inBranch : st'.inBranch = st.inBranch

namespace Records

variable {st st' : RequestState σ}

theorem nil (hwrites : st'.writes = st.writes) (hextensions : st'.extensions = st.extensions)
    (hbranch : st'.inBranch = st.inBranch) : Records st st' [] :=
  ⟨by rw [hwrites, List.append_nil], by rw [hextensions]; exact .nil _, by simp, hbranch⟩

theorem trans {st'' : RequestState σ} {ws ws' : List ExtensionsWrite} (h : Records st st' ws)
    (h' : Records st' st'' ws') : Records st st'' (ws ++ ws') where
  writes := by rw [h'.writes, h.writes, List.append_assoc]
  replays := h.replays.append h'.replays
  lawful := List.forall_mem_append.mpr ⟨h.lawful, h'.lawful⟩
  inBranch := h'.inBranch.trans h.inBranch

/-- The plugin of a `delegate` or an elicitation step is called. -/
theorem dropped (config : ExecutorConfig) (rt : Runtime η π σ) (entry : HookEntry η) (payload : π)
    (st : RequestState σ) (hwriter : writer = .delegator ∨ writer = .approver) :
    Records st ((st.invokeEntry config rt entry payload).2.wrote writer st.extensions
        (pipelineExtensions config rt entry payload st))
      [⟨writer, st.extensions, pipelineExtensions config rt entry payload st⟩] := by
  refine ⟨rfl, .dropped hwriter rfl (pipelineExtensions_keeps ..) (.nil _), fun w hw => ?_, rfl⟩
  rw [List.mem_singleton.mp hw]
  rcases hwriter with rfl | rfl <;> trivial

theorem grant (resolved : DelegationPayload) (st : RequestState σ) :
    Records st (st.grant resolved)
      [⟨.grant, st.extensions, resolved.applyToExtensions st.extensions⟩] := by
  refine ⟨rfl, .kept (.inr rfl) rfl (applyToExtensions_keeps resolved _) (.nil _),
    fun w hw => ?_, rfl⟩
  rw [List.mem_singleton.mp hw]
  exact ⟨resolved, rfl⟩

end Records

variable (host : RouteHost η σ) (plan : RouteDispatchPlan η) (st : RequestState σ) (name : String)
  (bag : AttributeBag)

/-- What a plugin step writes: nothing if the plugin has no entry for the context, else what the
    pipeline of the entry ended with. -/
theorem cmfInvoke_writes [Platform] (invocation : PluginInvocation) :
    (cmfInvoke host plan st name bag invocation).2 = st ∨
      ∃ resolved entry, plan.plugins.lookup name = some resolved ∧
        resolved.pickEntry host.hookMetadata (st.extensions.meta.bind (·.val.entityType))
          (invocationPhase invocation) = some entry ∧
        (cmfInvoke host plan st name bag invocation).2.writes = st.writes ++
          [⟨.plugin, st.extensions,
            pipelineExtensions host.executor host.cmf entry st.payload st⟩] ∧
        (cmfInvoke host plan st name bag invocation).2.extensions =
          pipelineExtensions host.executor host.cmf entry st.payload st ∧
        (cmfInvoke host plan st name bag invocation).2.inBranch = st.inBranch := by
  unfold cmfInvoke
  cases hplugin : plan.plugins.lookup name with
  | none => exact .inl rfl
  | some resolved =>
    dsimp only
    cases hentry : resolved.pickEntry host.hookMetadata
      (st.extensions.meta.bind (·.val.entityType)) (invocationPhase invocation) with
    | none => exact .inl rfl
    | some entry =>
      exact .inr ⟨resolved, entry, rfl, hentry, settlePlugin_writes invocation
        (st.invokeEntry host.executor host.cmf entry st.payload).1
        (st.invokeEntry host.executor host.cmf entry st.payload).2⟩

theorem cmfInvoke_records [Platform] (invocation : PluginInvocation) :
    ∃ ws, Records st (cmfInvoke host plan st name bag invocation).2 ws := by
  rcases cmfInvoke_writes host plan st name bag invocation with
    hsame | ⟨resolved, entry, -, -, hwrites, hextensions, hbranch⟩
  · rw [hsame]
    exact ⟨[], .nil rfl rfl rfl⟩
  · refine ⟨_, hwrites, ?_, fun w hw => ?_, hbranch⟩
    · rw [hextensions]
      exact .kept (.inl rfl) rfl (pipelineExtensions_keeps ..) (.nil _)
    · rw [List.mem_singleton.mp hw]
      exact pipelineExtensions_tiers ..

theorem delegate_records [Platform] (step : DelegateStep) :
    ∃ ws, Records st (delegate host plan st step).2 ws := by
  unfold delegate
  cases plan.delegationEntries.lookup step.pluginName with
  | none => exact ⟨[], .nil rfl rfl rfl⟩
  | some entry =>
    cases delegationPayload step st.extensions with
    | error e => exact ⟨[], .nil rfl rfl rfl⟩
    | ok payload =>
      have hcalled := Records.dropped host.executor host.delegation entry payload st (.inl rfl)
      dsimp only
      split
      · -- Only a step that grants applies the resolved payload to the request.
        split
        · exact ⟨_, hcalled⟩
        · exact ⟨_, hcalled.trans (.grant _ _)⟩
      · exact ⟨_, hcalled⟩

theorem elicitationInvoke_records (op name : String) (payload : ElicitationPayload) :
    ∃ ws, Records st (elicitationInvoke host plan st op name payload).2 ws := by
  unfold elicitationInvoke
  cases plan.elicitationEntries.lookup name with
  | none => exact ⟨[], .nil rfl rfl rfl⟩
  | some entry =>
    have hcalled := Records.dropped host.executor host.elicitation entry payload st (.inr rfl)
    dsimp only
    split
    · split <;> exact ⟨_, hcalled⟩
    · exact ⟨_, hcalled⟩

/-! ### Under `parallel` -/

/-- Calls that edit nothing: of decision points, and of plugins that cannot modify in any of their
    hooks. -/
def BranchCall : Call → Prop
  | .plugin name => ∀ resolved, plan.plugins.lookup name = some resolved →
      ∀ e ∈ resolved.entriesByHook.entries, ∀ disabled,
        (e.2.pluginRef.mode disabled).canModify = false
  | .pdp _ => True
  | .delegate _ | .elicit _ => False

theorem cmfInvoke_unedited [Platform] {name : String} (h : BranchCall plan (.plugin name))
    (st : RequestState σ) (bag : AttributeBag) (invocation : PluginInvocation) :
    Unedited st (cmfInvoke host plan st name bag invocation).2 := by
  rcases cmfInvoke_writes host plan st name bag invocation with
    hsame | ⟨resolved, entry, hplugin, hentry, hwrites, -⟩
  · rw [hsame]
    exact .of_eq rfl
  · -- The picked entry is one of those the hypothesis is about.
    obtain ⟨e, hfind, rfl⟩ := Option.map_eq_some_iff.mp hentry
    have hmode := h resolved hplugin e (List.mem_of_find?_eq_some hfind) st.disabled
    refine ⟨_, hwrites, fun w hw => ?_⟩
    rw [List.mem_singleton.mp hw]
    exact pipelineExtensions_readOnly _ _ _ _ _ hmode

/-- Branches that edit nothing have a record of such writes only. -/
theorem branches_unedited {st : RequestState σ} {ends : List (Nat × RequestState σ)}
    (h : ∀ b ∈ ends, Unedited (st.fork host b.1) b.2) :
    ∀ b ∈ ends.map (·.2), ∀ w ∈ b.writes, w.after = w.before := by
  intro b hb w hw
  obtain ⟨e, he, rfl⟩ := List.mem_map.mp hb
  obtain ⟨new, hwrites, hsame⟩ := h e he
  -- A fork starts with an empty record, so its writes are the new ones.
  rw [hwrites] at hw
  exact hsame w (by simpa [RequestState.fork] using hw)

/-- The writes of branches that edit nothing, as the block records them. -/
theorem join_branches_unedited {branches : List (RequestState σ)}
    (h : ∀ b ∈ branches, ∀ w ∈ b.writes, w.after = w.before) :
    ∀ w ∈ (branches.flatMap (·.writes)).map fun w => { w with writer := .branch },
      w.writer = .branch ∧ w.after = w.before := by
  intro w hw
  obtain ⟨w₀, hw₀, rfl⟩ := List.mem_map.mp hw
  obtain ⟨b, hb, hmem⟩ := List.mem_flatMap.mp hw₀
  exact ⟨rfl, h b hb w₀ hmem⟩

theorem Replays.of_branches (e : Extensions)
    (h : ∀ w ∈ ws, w.writer = .branch ∧ w.after = w.before) : Replays e ws e := by
  induction ws with
  | nil => exact .nil e
  | cons w ws ih =>
    obtain ⟨hwriter, hsame⟩ := h w List.mem_cons_self
    exact .branch hwriter hsame (ih fun w hw => h w (List.mem_cons_of_mem _ hw))

/-! ### Routes -/

section
variable [Platform] {may : Call → Prop} {w w' : RequestState σ}

/-- A branch that makes no other calls edits nothing, whatever it finds. -/
theorem unedited_of_calls (h : Calls (routeEnv host plan) (BranchCall plan) may w w')
    (hmay : may = BranchCall plan) : Unedited w w' := by
  induction h with
  | refl w => exact .of_eq rfl
  | trans _ _ ih ih' => exact (ih hmay).trans (ih' hmay)
  | @plugin may w name bag invocation hcall =>
    subst hmay
    have hsync : Unedited w (w.sync host) := .of_eq (sync_writes host w)
    exact hsync.trans (cmfInvoke_unedited host plan hcall (w.sync host) bag invocation)
  -- The parser rejects mutations under `parallel`.
  | delegate hcall | dispatch hcall | check hcall | validate hcall => subst hmay; exact hcall.elim
  | pdp hcall => exact .of_eq rfl
  | parallel ends _ ih =>
    have hunedited := branches_unedited host fun b hb => ih b hb rfl
    exact ⟨_, rfl, fun w hw => (join_branches_unedited hunedited w hw).2⟩

/-- What holds of every call of an invoker and of every `parallel` block holds along the calls of a
    route. -/
theorem calls_induction {branch : Call → Prop} {P : RequestState σ → RequestState σ → Prop}
    (htrans : ∀ w w' w'', P w w' → P w' w'' → P w w'') (hsync : ∀ w, P w (w.sync host))
    (hrecords : ∀ w w' ws, Records w w' ws → P w w')
    (hparallel : ∀ (w : RequestState σ) (ends : List (Nat × RequestState σ)),
      (∀ b ∈ ends, Calls (routeEnv host plan) branch branch (w.fork host b.1) b.2) →
        P w (w.join host (ends.map (·.2))))
    (h : Calls (routeEnv host plan) branch may w w') : P w w' := by
  have hcall {w w' : RequestState σ} (h : ∃ ws, Records (w.sync host) w' ws) : P w w' :=
    htrans _ _ _ (hsync w) (hrecords _ _ _ h.choose_spec)
  induction h with
  | refl w => exact hrecords _ _ _ (.nil rfl rfl rfl)
  | trans _ _ ih ih' => exact htrans _ _ _ ih ih'
  | @plugin _ _ name bag invocation _ =>
    exact hcall (cmfInvoke_records host plan _ name bag invocation)
  | delegate _ => exact hcall (delegate_records host plan _ _)
  | dispatch _ | check _ | validate _ => exact hcall (elicitationInvoke_records host plan _ _ _ _)
  | pdp _ => exact hrecords _ _ _ (.nil rfl rfl rfl)
  | parallel ends h _ => exact hparallel _ ends h

/-- If nothing edits under `parallel`, the record of a request accounts for its extensions,
    whatever its route calls. -/
theorem follows_of_calls (h : Calls (routeEnv host plan) (BranchCall plan) may w w')
    (hw : w.inBranch = false) : Follows w w' := by
  refine (calls_induction host plan
    (P := fun w w' => w.inBranch = false → Follows w w' ∧ w'.inBranch = false)
    (fun _ _ _ h h' hw => ?_) (fun w hw => ?_)
    (fun _ _ ws h hw => ⟨⟨ws, h.writes, h.replays⟩, h.inBranch.trans hw⟩)
    (fun w ends hcalls hw => ?_) h hw).1
  · exact ⟨(h hw).1.trans (h' (h hw).2).1, (h' (h hw).2).2⟩
  · -- Outside of branches no one else writes.
    unfold RequestState.sync
    rw [hw]
    exact ⟨.of_eq rfl rfl, hw⟩
  · -- The branches write back what they find, so the block leaves what it found.
    have hunedited := branches_unedited host fun b hb =>
      unedited_of_calls host plan (hcalls b hb) rfl
    have hleft : (w.join host (ends.map (·.2))).extensions = w.extensions :=
      host.sharing.left_extensions w _ hunedited
    refine ⟨⟨_, rfl, ?_⟩, hw⟩
    rw [hleft]
    exact .of_branches _ (join_branches_unedited hunedited)

end

end Cpex.Core
