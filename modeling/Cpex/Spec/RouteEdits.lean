import Cpex.Spec.HandBack
import Cpex.Spec.SessionIds
import Cpex.Spec.SessionTaints

/-! # What a route's edits come to

The plugins of a route edit the extensions of the request through pipelines of their own. The
handler hands the outcome back to the executor that called it, which merges it under the
handler's capabilities. Two things are lost on the way. The handler hands back nothing unless the
security, delegation or credential slot was replaced or a constraint was folded, so an edit of
headers or custom values alone goes missing. And the labels of taints are merged like a plugin's,
so they go missing unless the handler holds `append_labels`.
-/

namespace Cpex.Core

variable {η σ τ : Type}

/-! ### Edits that stand -/

/-- `w` changed the item, and no later write of the record did. -/
def StandingEdit (writes : List ExtensionsWrite) (w : ExtensionsWrite) (x : EditItem) : Prop :=
  ∃ earlier later, writes = earlier ++ w :: later ∧ x.read w.after ≠ x.read w.before ∧
    ∀ u ∈ later, x.read u.after = x.read u.before

variable {e' : Extensions} {e : Extensions} {ws : List ExtensionsWrite}

theorem Replays.tail (h : Replays e (earlier ++ ws) e') :
    ∃ middle, Replays middle ws e' := by
  induction earlier generalizing e with
  | nil => exact ⟨e, h⟩
  | cons w earlier ih =>
    cases h with
    | kept _ _ _ rest => exact ih rest
    | dropped _ _ _ rest => exact ih rest
    | branch _ _ rest => exact ih rest

/-- Writes that leave an item alone leave it alone together. -/
theorem Replays.read_eq {x : EditItem} (h : Replays e ws e')
    (hsame : ∀ u ∈ ws, x.read u.after = x.read u.before) :
    x.read e' = x.read e := by
  induction h with
  | nil e => rfl
  | kept _ hbefore _ _ ih =>
    have hrest := ih fun u hu => hsame u (List.mem_cons_of_mem _ hu)
    rw [hrest, hsame _ List.mem_cons_self, hbefore]
  | dropped _ _ _ _ ih | branch _ _ _ ih => exact ih fun u hu => hsame u (List.mem_cons_of_mem _ hu)

/-- The request ends with the edits of its plugin steps and grants, and without those of the
    plugins of `delegate` and elicitation steps. Nothing else edits. -/
theorem StandingEdit.read_final (h : StandingEdit writes w x) (hreplays : Replays e writes e') :
    KeepsSlots w.before w.after ∧
      ((w.writer = .plugin ∨ w.writer = .grant) ∧ x.read e' = x.read w.after ∨
        (w.writer = .delegator ∨ w.writer = .approver) ∧ x.read e' = x.read w.before) := by
  obtain ⟨earlier, later, rfl, hedit, hlater⟩ := h
  obtain ⟨middle, hlast⟩ := hreplays.tail
  cases hlast with
  | kept hwriter _ hslots rest => exact ⟨hslots, .inl ⟨hwriter, rest.read_eq hlater⟩⟩
  | dropped hwriter hbefore hslots rest =>
    exact ⟨hslots, .inr ⟨hwriter, hbefore ▸ rest.read_eq hlater⟩⟩
  | branch _ hsame _ => exact absurd (congrArg x.read hsame) hedit

/-- Labels are only added, so a changed one is there. -/
theorem KeepsSlots.read_label (h : KeepsSlots a b)
    (hedit : (EditItem.label l).read b ≠ (EditItem.label l).read a) :
    (EditItem.label l).read b = true := by
  by_cases hmem : l ∈ a.labels
  · exact decide_eq_true (h.labels hmem)
  · dsimp only [EditItem.read] at hedit ⊢
    rw [decide_eq_false hmem] at hedit
    exact Bool.eq_true_of_not_eq_false hedit

/-! ### The taints of a session -/

theorem snapshotLabels_eq : snapshotLabels e = e.labels := by
  unfold snapshotLabels Extensions.labels
  cases e.security <;> rfl

theorem hydrateLabels_keeps (e : Extensions) (labels : List String) :
    KeepsSlots e (hydrateLabels e labels) :=
  ⟨Finset.subset_union_left, id, rfl⟩

variable (taints : List TaintEvent) (st : RequestState σ)

theorem applySessionTaints_keeps :
    KeepsSlots st.extensions (applySessionTaints taints st).extensions := by
  unfold applySessionTaints
  dsimp only
  split
  · exact .refl _
  · exact hydrateLabels_keeps st.extensions _

@[simp] theorem applySessionTaints_writes : (applySessionTaints taints st).writes = st.writes := by
  unfold applySessionTaints
  dsimp only
  split <;> rfl

theorem mem_labels_applySessionTaints {taints : List TaintEvent} {st : RequestState σ}
    {l : String} : l ∈ (applySessionTaints taints st).extensions.labels ↔
      l ∈ st.extensions.labels ∨ l ∈ sessionLabels taints := by
  rw [← snapshotLabels_eq, snapshotLabels_applySessionTaints, Finset.mem_union,
    List.mem_toFinset, snapshotLabels_eq]

/-- Applying the taints changes no other item than their labels. -/
theorem read_applySessionTaints {x : EditItem} (h : ∀ l ∈ sessionLabels taints, x ≠ .label l) :
    x.read (applySessionTaints taints st).extensions = x.read st.extensions := by
  cases x with
  | label l =>
    have hother : l ∉ sessionLabels taints := fun hl => h l hl rfl
    exact decide_eq_decide.mpr (by rw [mem_labels_applySessionTaints]; simp [hother])
  | _ =>
    unfold applySessionTaints
    dsimp only
    split <;> rfl

/-! ### The handler -/

/-- Under `parallel` the route calls decision points and plugins that only read. The parser
    rejects mutations there, and `validate_parallel_plugin_modes`, where it is called, the modes
    that can modify. -/
def ParallelReads (plan : RouteDispatchPlan η) (route : CompiledRoute) : Prop :=
  Effect.allWithin (BranchCall plan) Call.any route.policy ∧
    Effect.allWithin (BranchCall plan) Call.any route.postPolicy

/-- The handler hands extensions back: `extensions_changed` says so, or a constraint was
    folded. -/
def HandsBack (e : Evaluated σ) : Prop :=
  extensionsChanged e.request.replaced = true ∨
    ∃ constraint, foldCandidateConstraints e.decision.constraints = .ok (some constraint)

/-- The constraint in the extensions a handler hands back, if it hands any back: the one its
restrictions folded to, or else the one its plugins left. -/
def handedOver (e : Evaluated σ) : Option (Option CandidateConstraintExtension) :=
  match foldCandidateConstraints e.decision.constraints with
  | .ok (some folded) => some (some folded)
  | _ =>
    if extensionsChanged e.request.replaced then some e.request.extensions.candidateConstraint
    else none

theorem handsBack_iff (e : Evaluated σ) :
    HandsBack e ↔ ∃ constraint, handedOver e = some constraint := by
  unfold HandsBack handedOver
  cases foldCandidateConstraints e.decision.constraints with
  | error conflict => cases extensionsChanged e.request.replaced <;> simp
  | ok folded => cases folded <;> cases extensionsChanged e.request.replaced <;> simp

/-- The item of the evaluated request is handed back and taken over by the merge into
    `extensions`. -/
def Forwarded (e : Evaluated σ) (capabilities : Finset String) (extensions : Extensions)
    (x : EditItem) : Prop :=
  HandsBack e ∧ x.Merged capabilities extensions e.request.extensions

theorem openRequest_keeps (sessionId : Option String) (stored : List String)
    (extensions : Extensions) (payload : MessagePayload) (disabled : Finset Uuid) (world : σ) :
    let request := (openRequest sessionId stored extensions payload disabled world).2
    request.writes = [] ∧ request.inBranch = false ∧ KeepsSlots extensions request.extensions := by
  cases stored with
  | nil => exact ⟨rfl, rfl, .refl extensions⟩
  | cons label stored => exact ⟨rfl, rfl, hydrateLabels_keeps extensions (label :: stored)⟩

section
variable [Platform] (host : HandlerHost η σ τ) {plan : RouteDispatchPlan η} (self : AplRouteHandler)
  (payload : MessagePayload)

/-- A phase starts with the request as it was opened. -/
theorem AplRouteHandler.startPhase_request (request : RequestState σ) :
    (self.startPhase host payload request).world.writes = request.writes ∧
      (self.startPhase host payload request).world.extensions = request.extensions ∧
      (self.startPhase host payload request).world.inBranch = request.inBranch := by
  unfold startPhase
  cases self.phase <;> exact ⟨rfl, rfl, rfl⟩

/-- The evaluation of a route is a sequence of calls. -/
theorem AplRouteHandler.evaluate_calls (h : ParallelReads plan self.route)
    (payload : MessagePayload) (request : RequestState σ) :
    Calls (routeEnv host.toRouteHost plan) (BranchCall plan) Call.any
      (self.startPhase host payload request).world
      (self.evaluate host plan payload request).2.world := by
  obtain ⟨phase, rules, effects, heffects, hran⟩ :=
    self.evaluate_ran host plan payload request
  exact hran.calls _ phase (heffects.elim (· ▸ h.1) (· ▸ h.2))

variable {request : RequestState σ}

/-- The record of an evaluated route accounts for its extensions. -/
theorem AplRouteHandler.evaluate_follows (h : ParallelReads plan self.route)
    (payload : MessagePayload) (hopened : request.inBranch = false) :
    Follows request (self.evaluate host plan payload request).2.world := by
  obtain ⟨hwrites, hextensions, hbranch⟩ := self.startPhase_request host payload request
  have hstart : Follows request (self.startPhase host payload request).world :=
    .of_eq hwrites hextensions
  exact hstart.trans (follows_of_calls host.toRouteHost plan
    (self.evaluate_calls host h payload request) (hbranch.trans hopened))

/-- What a handler hands back: the final extensions with a constraint, or nothing. -/
theorem settle_modifiedExtensions_eq (e : Evaluated σ) (headers : Extensions) :
    (self.settle payload e headers).modifiedExtensions = (handedOver e).map fun constraint =>
      { e.request.extensions.cowCopy with candidateConstraint := constraint } := by
  unfold AplRouteHandler.settle handedOver modifiedExtensions
  cases foldCandidateConstraints e.decision.constraints with
  | error conflict => cases extensionsChanged e.request.replaced <;> rfl
  | ok folded => cases folded <;> cases extensionsChanged e.request.replaced <;> rfl

variable {s : ServerState σ τ} {r : RoutedRequest η} {opened : OpenedRequest} {sessions : τ}
  {e : Evaluated σ}

/-- The request that a route is evaluated on has no record yet. -/
theorem EvaluatedFrom.fresh (h : EvaluatedFrom host s r e opened request sessions) :
    request.writes = [] ∧ request.inBranch = false ∧
      KeepsSlots r.extensions request.extensions := by
  obtain ⟨stored, hopened, -⟩ := forRequest_opened (congrArg Prod.fst h.opens)
  have hfresh := openRequest_keeps ((resolveSession host.shortHash r.extensions).map Prod.fst)
    stored r.extensions r.payload s.disabled s.world
  rwa [hopened] at hfresh

/-- The record of a request is that of the evaluation of its route. -/
theorem EvaluatedFrom.writes (h : EvaluatedFrom host s r e opened request sessions) :
    e.request.writes = (r.handler.evaluate host r.plan r.payload request).2.world.writes := by
  rw [h.taints, applySessionTaints_writes, h.evaluates]

/-- The record of an evaluated request leads from the extensions it was opened with to those its
    taints are applied to. -/
theorem EvaluatedFrom.replays (h : EvaluatedFrom host s r e opened request sessions)
    (hreads : ParallelReads r.plan r.handler.route) :
    Replays request.extensions e.request.writes e.phase.world.extensions := by
  obtain ⟨hempty, hopen, -⟩ := h.fresh host
  obtain ⟨writes, hwrites, hreplays⟩ := r.handler.evaluate_follows host hreads r.payload hopen
  rw [h.writes host, hwrites, hempty, List.nil_append]
  rwa [h.evaluates] at hreplays

/-- What an item reads as for the caller of a handler, by whether it was forwarded. -/
theorem read_takenOver (self : AplRouteHandler) (payload : MessagePayload) (headers : Extensions)
    (hread : "read_headers" ∈ capabilities) (hwrite : capWriteCandidateConstraint ∈ capabilities)
    (hkeeps : KeepsSlots (serialView extensions capabilities) e.request.extensions) (x : EditItem) :
    let outer := takenOver extensions capabilities
      (self.settle payload e headers).modifiedExtensions
    (Forwarded e capabilities extensions x → x.read outer = x.read e.request.extensions) ∧
      (¬Forwarded e capabilities extensions x → x.read outer = x.read extensions) := by
  -- The handler sees the http slot, and no pipeline takes one away.
  have hhttp : e.request.extensions.http = none → extensions.http = none := by
    intro hnone
    have hopen : (serialView extensions capabilities).http = extensions.http := by
      rw [serialView_http, gate_of_open hread]
    rw [← hopen]
    cases hview : (serialView extensions capabilities).http with
    | none => rfl
    | some http =>
      have hstays := hkeeps.http (by rw [hview]; rfl)
      rw [hnone] at hstays
      exact nomatch hstays
  rw [settle_modifiedExtensions_eq]
  cases hhanded : handedOver e with
  | some constraint =>
    have hback := (handsBack_iff e).mpr ⟨constraint, hhanded⟩
    rw [Option.map_some, takenOver, if_pos (mergeGate_handedBack hwrite hkeeps)]
    constructor
    · rintro ⟨-, hmerged⟩
      exact read_mergeOwned_of_merged hhttp hmerged
    · intro hkept
      exact read_mergeOwned_of_not_merged fun hmerged => hkept ⟨hback, hmerged⟩
  | none =>
    have hnothing : ¬HandsBack e := by simp [handsBack_iff, hhanded]
    exact ⟨fun hforwarded => absurd hforwarded.1 hnothing, fun _ => rfl⟩

end

/-! ### The caller -/

/-- Every edit of a plugin that stands is in the extensions of the caller, and so is every label
    of a session taint. A grant is not an edit of a plugin. -/
structure EditsArrive (e : Evaluated σ) (outer : Extensions) : Prop where
  edits : ∀ w x, StandingEdit e.request.writes w x → w.writer ≠ .grant →
    x.read outer = x.read w.after
  taints : ∀ l ∈ sessionLabels e.decision.taints, l ∈ outer.labels

/-- The edits of plugin steps are forwarded or were no edits to the caller, those of the plugins
    of `delegate` and elicitation steps are covered by a taint or were no edits to the caller,
    and the labels of taints are forwarded or were there. -/
structure EditsForwarded (e : Evaluated σ) (capabilities : Finset String)
    (extensions : Extensions) : Prop where
  plugins : ∀ w x, StandingEdit e.request.writes w x → w.writer = .plugin →
    Forwarded e capabilities extensions x ∨ x.read extensions = x.read w.after
  others : ∀ w x, StandingEdit e.request.writes w x →
    w.writer = .delegator ∨ w.writer = .approver →
      Forwarded e capabilities extensions x ∧
          (∃ l ∈ sessionLabels e.decision.taints, x = .label l) ∨
        ¬Forwarded e capabilities extensions x ∧ x.read extensions = x.read w.after
  taints : ∀ l ∈ sessionLabels e.decision.taints,
    Forwarded e capabilities extensions (.label l) ∨ l ∈ extensions.labels

section
variable {e : Evaluated σ} {start extensions outer : Extensions} {capabilities : Finset String}
  {w : ExtensionsWrite} {x : EditItem}
  (hfinal : e.request = applySessionTaints e.decision.taints e.phase.world)
  (hreplays : Replays start e.request.writes e.phase.world.extensions)
  (houter : ∀ x, (Forwarded e capabilities extensions x →
      x.read outer = x.read e.request.extensions) ∧
    (¬Forwarded e capabilities extensions x → x.read outer = x.read extensions))

include hfinal in
theorem mem_labels_of_taint (h : l ∈ sessionLabels e.decision.taints) :
    l ∈ e.request.extensions.labels := by
  rw [hfinal]
  exact mem_labels_applySessionTaints.mpr (.inr h)

include hfinal hreplays in
/-- The request ends with the edit of a plugin step. -/
theorem StandingEdit.read_plugin (h : StandingEdit e.request.writes w x)
    (hwriter : w.writer = .plugin) : x.read e.request.extensions = x.read w.after := by
  obtain ⟨hslots, ⟨-, hlast⟩ | ⟨hother, -⟩⟩ := h.read_final hreplays
  · -- A taint may add the label once more; it applies after the last write.
    by_cases htaint : ∃ l ∈ sessionLabels e.decision.taints, x = .label l
    · obtain ⟨l, hl, rfl⟩ := htaint
      obtain ⟨-, -, -, hedit, -⟩ := h
      rw [hslots.read_label hedit]
      exact decide_eq_true (mem_labels_of_taint hfinal hl)
    · have hsame := read_applySessionTaints e.decision.taints e.phase.world
        fun l hl hx => htaint ⟨l, hl, hx⟩
      rw [hfinal, hsame, hlast]
  · rw [hwriter] at hother
    exact hother.elim nofun nofun

include hfinal hreplays in
/-- The request ends with the edit of any other plugin exactly if a taint adds the label. -/
theorem StandingEdit.read_other_iff (h : StandingEdit e.request.writes w x)
    (hwriter : w.writer = .delegator ∨ w.writer = .approver) :
    x.read e.request.extensions = x.read w.after ↔
      ∃ l ∈ sessionLabels e.decision.taints, x = .label l := by
  obtain ⟨hslots, ⟨hother, -⟩ | ⟨-, hlast⟩⟩ := h.read_final hreplays
  · rcases hwriter with hwriter | hwriter <;> rw [hwriter] at hother <;>
      exact hother.elim nofun nofun
  · obtain ⟨-, -, -, hedit, -⟩ := h
    constructor
    · -- Without a taint the request ends with what the item read before the edit.
      intro harrived
      by_contra htaint
      have hsame := read_applySessionTaints e.decision.taints e.phase.world
        fun l hl hx => htaint ⟨l, hl, hx⟩
      rw [hfinal, hsame, hlast] at harrived
      exact hedit harrived.symm
    · rintro ⟨l, hl, rfl⟩
      rw [hslots.read_label hedit]
      exact decide_eq_true (mem_labels_of_taint hfinal hl)

include hfinal hreplays houter in
/-- All edits arrive exactly if all are forwarded. -/
theorem editsArrive_iff : EditsArrive e outer ↔ EditsForwarded e capabilities extensions := by
  have hplugin (w : ExtensionsWrite) (x : EditItem) (h : StandingEdit e.request.writes w x)
      (hwriter : w.writer = .plugin) : x.read outer = x.read w.after ↔
        Forwarded e capabilities extensions x ∨ x.read extensions = x.read w.after := by
    by_cases hforwarded : Forwarded e capabilities extensions x
    · rw [(houter x).1 hforwarded, h.read_plugin hfinal hreplays hwriter]
      exact iff_of_true rfl (.inl hforwarded)
    · rw [(houter x).2 hforwarded]
      simp only [hforwarded, false_or]
  have hother (w : ExtensionsWrite) (x : EditItem) (h : StandingEdit e.request.writes w x)
      (hwriter : w.writer = .delegator ∨ w.writer = .approver) : x.read outer = x.read w.after ↔
        Forwarded e capabilities extensions x ∧
            (∃ l ∈ sessionLabels e.decision.taints, x = .label l) ∨
          ¬Forwarded e capabilities extensions x ∧ x.read extensions = x.read w.after := by
    by_cases hforwarded : Forwarded e capabilities extensions x
    · rw [(houter x).1 hforwarded, h.read_other_iff hfinal hreplays hwriter]
      simp only [hforwarded, true_and, not_true_eq_false, false_and, or_false]
    · rw [(houter x).2 hforwarded]
      simp only [hforwarded, false_and, not_false_eq_true, true_and, false_or]
  have htaint (l : String) (hl : l ∈ sessionLabels e.decision.taints) : l ∈ outer.labels ↔
      Forwarded e capabilities extensions (.label l) ∨ l ∈ extensions.labels := by
    by_cases hforwarded : Forwarded e capabilities extensions (.label l)
    · have hlabel := decide_eq_decide.mp ((houter (.label l)).1 hforwarded)
      exact iff_of_true (hlabel.mpr (mem_labels_of_taint hfinal hl)) (.inl hforwarded)
    · have hlabel := decide_eq_decide.mp ((houter (.label l)).2 hforwarded)
      simp only [hlabel, hforwarded, false_or]
  constructor
  · intro h
    exact ⟨fun w x hw hwriter => (hplugin w x hw hwriter).mp (h.edits w x hw (by simp [hwriter])),
      fun w x hw hwriter => (hother w x hw hwriter).mp
        (h.edits w x hw (by rcases hwriter with hwriter | hwriter <;> simp [hwriter])),
      fun l hl => (htaint l hl).mp (h.taints l hl)⟩
  · intro h
    refine ⟨fun w x hw hgrant => ?_, fun l hl => (htaint l hl).mpr (h.taints l hl)⟩
    -- The writers of a standing edit are those of the record, without the branches.
    obtain ⟨-, ⟨hwriter, -⟩ | ⟨hwriter, -⟩⟩ := hw.read_final hreplays
    · have hplug := hwriter.resolve_right hgrant
      exact (hplugin w x hw hplug).mpr (h.plugins w x hw hplug)
    · exact (hother w x hw hwriter).mpr (h.others w x hw hwriter)

end

/-- What installing a handler fixes: the route, the mode, and two capabilities. -/
theorem InstalledFor.fixed (h : InstalledFor visitor route registry installed) :
    installed.2.handler.route = route ∧
      installed.2.pluginRef.trustedConfig.mode = .sequential ∧
      "read_headers" ∈ installed.2.capabilities ∧
      capWriteCandidateConstraint ∈ installed.2.capabilities := by
  obtain ⟨origin, entityType, entityName, scope, hookName, phase, rfl⟩ := h
  refine ⟨rfl, rfl, ?_, ?_⟩
  · exact Finset.mem_union_right _ (Finset.mem_insert_self _ _)
  · exact Finset.mem_union_right _ (Finset.mem_insert_of_mem (Finset.mem_singleton_self _))

section
variable [Platform] (host : HandlerHost η σ τ)

/-- The executor's runtime for the handlers of routes. -/
def Runtime.routes (plan : RouteDispatchPlan η) :
    Runtime AplRouteHandler MessagePayload (ServerState σ τ) :=
  .direct fun handler payload view s =>
    let run := handle host s ⟨handler, plan, payload, view⟩
    (run.result, run.next)

/-- An installed handler lets a request continue. Then every edit that a plugin of the route made
    and that stands, and the label of every session taint, is in the extensions of the pipeline
    that called the handler exactly if each was forwarded by the handler and taken over by the
    merge, or makes no difference to what the request arrived with. -/
theorem routeEdits_reach_iff {visitor : AplConfigVisitor} {route : CompiledRoute}
    {registry : DeclRegistry} {installed : Annotation}
    (hinstalled : InstalledFor visitor route registry installed) {plan : RouteDispatchPlan η}
    (hreads : ParallelReads plan route) (config : ExecutorConfig) (payload : MessagePayload)
    (extensions : Extensions) (contextTable : Option PluginContextTable) (s : ServerState σ τ)
    (hactive : installed.2.pluginRef.id ∉ s.disabled)
    (hgo : (handle host s ⟨installed.2.handler, plan, payload,
      serialView extensions installed.2.capabilities⟩).result.continueProcessing = true) :
    ∃ e outer,
      (handle host s ⟨installed.2.handler, plan, payload,
        serialView extensions installed.2.capabilities⟩).evaluated = some e ∧
      (execute (.routes host plan) config [installed.2] payload extensions contextTable s.disabled
        s).result.modifiedExtensions = some outer ∧
      (EditsArrive e outer ↔ EditsForwarded e installed.2.capabilities extensions) := by
  obtain ⟨hroute, hmode, hread, hwrite⟩ := hinstalled.fixed
  rw [← hroute] at hreads
  obtain ⟨e, heval⟩ := evaluated_of_continue host hgo
  obtain ⟨opened, request, sessions, hfrom⟩ := handle_evaluated host heval
  have hreplays := hfrom.replays host hreads
  have hserial : (installed.2.pluginRef.mode s.disabled).canModify = true := by
    rw [PluginRef.mode, if_neg hactive, hmode]
    rfl
  have houter := execute_single_extensions (.routes host plan) config installed.2 payload
    extensions contextTable s.disabled s hserial hgo fun ctx => rfl
  rw [hfrom.settles] at houter
  -- The slots the merge compares are those of the handler's view, from opening to taints.
  have hkeeps : KeepsSlots (serialView extensions installed.2.capabilities)
      e.request.extensions := by
    rw [hfrom.taints]
    exact ((hfrom.fresh host).2.2.trans hreplays.keeps).trans (applySessionTaints_keeps _ _)
  exact ⟨e, _, heval, houter, editsArrive_iff hfrom.taints hreplays
    (read_takenOver installed.2.handler payload _ hread hwrite hkeeps)⟩

end

/-! ### A plugin that adds a header -/

section
attribute [local instance] Platform.bare

/-- The plugin `tagger`, which may write headers. -/
def taggerEntry : HookEntry Unit where
  pluginRef :=
    { trustedConfig :=
        { name := "tagger"
          kind := "builtin"
          hooks := ["cmf.tool_pre_invoke"]
          capabilities := {"read_headers", "write_headers"} }
      id := 1 }
  handler := ()

/-- The declaration of `tagger`. -/
def taggerRegistry : DeclRegistry :=
  (∅ : DeclRegistry).insert "tagger"
    ⟨"tagger", "builtin", ["cmf.tool_pre_invoke"], ["read_headers", "write_headers"], none, none⟩

def taggerPlan : RouteDispatchPlan Unit where
  plugins := (∅ : HashMap String (RoutePluginEntry Unit)).insert "tagger"
    ⟨"tagger", (∅ : HashMap String (HookEntry Unit)).insert "cmf.tool_pre_invoke" taggerEntry⟩

/-- A host whose plugins add the header `x-trace`. -/
def taggerHost : HandlerHost Unit Unit (HashMap String (Finset String)) :=
  .direct
    (.direct fun _ _ view world =>
      ({ modifiedExtensions := some { view.cowCopy with
          http := view.http.map fun http =>
            { http with requestHeaders := http.requestHeaders.insert "x-trace" "1" } } }, world))
    .passing

/-- A route that runs `tagger`, and then `more`. -/
def taggerRoute (more : List Effect) : CompiledRoute where
  routeKey := "tool:send"
  policy := .plugin "tagger" :: more

/-- The handler of the route, on top of `base` capabilities. -/
def taggerHandler (base : Finset String) (more : List Effect) : Annotation :=
  installHandler { plainVisitor with baseCapabilities := base } none "tool" "send" none
    "cmf.tool_pre_invoke" .pre (taggerRoute more) taggerRegistry

/-- A request without labels. -/
def sentRequest : Extensions where
  http := some {}

/-- `tagger` alone, under the default capabilities. -/
def plainTagger : Annotation := taggerHandler defaultBaseCapabilities []

/-- `tagger` and a session taint, under a handler that may append labels. -/
def taintingTagger : Annotation :=
  taggerHandler (insert "append_labels" defaultBaseCapabilities) [.taint "sent" [.session]]

/-- What the handler makes of the request. -/
def taggerRun (handler : Annotation) : HandlerRun Unit (HashMap String (Finset String)) :=
  handle taggerHost freshServer ⟨handler.2.handler, taggerPlan, ⟨{ role := .user }⟩,
    serialView sentRequest handler.2.capabilities⟩

/-- What the pipeline that calls the handler reports. -/
def taggerOuter (handler : Annotation) : Option Extensions :=
  (execute (.routes taggerHost taggerPlan) {} [handler.2] ⟨{ role := .user }⟩ sentRequest none
    freshServer.disabled freshServer).result.modifiedExtensions

theorem StandingEdit.mem (h : StandingEdit writes w x) : w ∈ writes := by
  obtain ⟨earlier, later, rfl, -⟩ := h
  exact List.mem_append_right _ List.mem_cons_self

/-- With the taint, which has the handler hand its extensions back, the header arrives. -/
theorem routeEdits_reach_tainted :
    ∃ e outer, (taggerRun taintingTagger).evaluated = some e ∧
      taggerOuter taintingTagger = some outer ∧ EditsArrive e outer := by
  have hinstalled : InstalledFor
      { plainVisitor with baseCapabilities := insert "append_labels" defaultBaseCapabilities }
      (taggerRoute [.taint "sent" [.session]]) taggerRegistry taintingTagger :=
    ⟨none, "tool", "send", none, _, .pre, rfl⟩
  have hreads : ParallelReads taggerPlan (taggerRoute [.taint "sent" [.session]]) :=
    ⟨⟨trivial, trivial, trivial⟩, trivial⟩
  obtain ⟨e, outer, heval, houter, harrive⟩ := routeEdits_reach_iff taggerHost hinstalled hreads {}
    ⟨{ role := .user }⟩ sentRequest none freshServer (Finset.notMem_empty _) (by decide +kernel)
  refine ⟨e, outer, heval, houter, harrive.mpr ?_⟩
  -- There is one write, by `tagger`, which makes no delegation; and the taint replaced the labels.
  have hrun : (taggerRun taintingTagger).evaluated.map (fun e =>
        (extensionsChanged e.request.replaced,
          e.request.writes.map fun w => (w.writer, w.after.delegation.isNone))) =
      some (true, [(.plugin, true)]) := by
    decide +kernel
  change (taggerRun taintingTagger).evaluated = some e at heval
  rw [heval, Option.map_some, Option.some.injEq, Prod.mk.injEq] at hrun
  obtain ⟨hchanged, hwrites⟩ := hrun
  obtain ⟨w₀, hsingle, hw₀⟩ := List.map_eq_singleton_iff.mp hwrites
  obtain ⟨hwriter, hdelegation⟩ := Prod.mk.inj hw₀
  have htagger {w : ExtensionsWrite} {x : EditItem} (hw : StandingEdit e.request.writes w x) :
      w = w₀ := by
    have hmem := hw.mem
    rwa [hsingle, List.mem_singleton] at hmem
  have hlabel (l : String) :
      Forwarded e taintingTagger.2.capabilities sentRequest (.label l) :=
    ⟨.inl hchanged, by decide, Finset.empty_subset _⟩
  have hheaders : "write_headers" ∈ taintingTagger.2.capabilities := by decide
  refine ⟨fun w x hw _ => ?_, fun w x hw hother => ?_, fun l _ => .inl (hlabel l)⟩
  · cases x with
    | requestHeader name | responseHeader name => exact .inl ⟨.inl hchanged, hheaders⟩
    | custom key => exact .inl ⟨.inl hchanged, trivial⟩
    | label l => exact .inl (hlabel l)
    | delegation | delegationOrigin =>
      refine .inr ?_
      dsimp only [EditItem.read]
      rw [htagger hw, Option.isNone_iff_eq_none.mp hdelegation]
      rfl
  · rw [htagger hw, hwriter] at hother
    exact hother.elim nofun nofun

/-- Without the taint the handler lets the request continue, and the header is not in the
    extensions the caller gets. -/
theorem routeEdits_header_lost :
    InstalledFor { plainVisitor with baseCapabilities := defaultBaseCapabilities }
        (taggerRoute []) taggerRegistry plainTagger ∧
      (taggerRun plainTagger).result.continueProcessing = true ∧
      ∃ e outer w, (taggerRun plainTagger).evaluated = some e ∧
        taggerOuter plainTagger = some outer ∧
        StandingEdit e.request.writes w (.requestHeader "x-trace") ∧ w.writer = .plugin ∧
        (EditItem.requestHeader "x-trace").read w.after = some "1" ∧
        (EditItem.requestHeader "x-trace").read outer = none := by
  have hrun : (taggerRun plainTagger).evaluated.map (fun e =>
        e.request.writes.map fun w =>
          (w.writer, (EditItem.requestHeader "x-trace").read w.before,
            (EditItem.requestHeader "x-trace").read w.after)) =
      some [(.plugin, none, some "1")] := by
    decide +kernel
  have hreport : (taggerOuter plainTagger).map (EditItem.requestHeader "x-trace").read =
      some none := by
    decide +kernel
  obtain ⟨e, heval, hwrites⟩ := Option.map_eq_some_iff.mp hrun
  obtain ⟨outer, houter, hlost⟩ := Option.map_eq_some_iff.mp hreport
  obtain ⟨w, hsingle, hw⟩ := List.map_eq_singleton_iff.mp hwrites
  simp only [Prod.mk.injEq] at hw
  obtain ⟨hwriter, hbefore, hafter⟩ := hw
  refine ⟨⟨none, "tool", "send", none, _, .pre, rfl⟩, by decide +kernel, e, outer, w, heval,
    houter, ⟨[], [], hsingle, ?_, by simp⟩, hwriter, hafter, hlost⟩
  rw [hbefore, hafter]
  exact nofun

end

end Cpex.Core
