import Cpex.Spec.Approvals
import Cpex.Spec.Flatten

/-! # The outcome of an elicitation in the bag

The handler learns whether an elicitation was approved from the bag, under `elicitation.outcome`.
No extractor writes that key, so a request starts without it. The evaluator writes it for an
elicitation step only; a branch of a `parallel` block works on a bag of its own, but the parser
lets no elicitation in there.
-/

namespace Cpex

/-! ### Keys the extractors leave alone -/

namespace AttributeBag

variable (bag : AttributeBag) {key k : String}

theorem get_setOpt_self : (bag.setOpt key v).get key = (v.map .string).or (bag.get key) := by
  cases v with
  | none => rfl
  | some v => exact bag.get_set_self key (.string v)

theorem get_setItems_ne (items : Finset String) (h : k ≠ key) :
    (bag.setItems key items).get k = bag.get k := by
  unfold setItems
  split
  · rfl
  · exact bag.get_set_ne _ h

/-- Writes for the elements of a list, all to other keys. -/
theorem get_foldl_set_ne {α : Type} (key : α → String) (value : α → AttributeValue) (l : List α)
    (h : ∀ x, key x ≠ k) : (l.foldl (fun bag x => bag.set (key x) (value x)) bag).get k =
      bag.get k := by
  have hnone : (l.findRev? fun x => key x = k) = none := by
    rw [List.findRev?_eq_none]
    intro x _ heq
    exact h x (by simpa using heq)
  rw [get_foldl_set, hnone]
  rfl

variable {start : String} (h : ¬ start.toList <+: k.toList)

include h

/-- A key is not one of those that begin in another way. -/
theorem append_ne_of_not_isPrefix (rest : String) : start ++ rest ≠ k := by
  rintro rfl
  exact h (by simp)

theorem get_setFlags_ne (items : List String) : (bag.setFlags start items).get k = bag.get k :=
  bag.get_foldl_set_ne (start ++ ·) (fun _ => .bool true) items (append_ne_of_not_isPrefix h)

theorem get_setTexts_ne (entries : HashMap String String) :
    (bag.setTexts start entries).get k = bag.get k :=
  bag.get_foldl_set_ne (fun e : (_ : String) × String => start ++ e.1) (fun e => .string e.2)
    entries.entries fun e => append_ne_of_not_isPrefix h e.1

/-- Flattening writes keys that start with the path it is given. -/
theorem get_walk_ne (v : Json) : (walk v start bag).get k = bag.get k := by
  have hstart : start ≠ "" := by
    rintro rfl
    exact h List.nil_prefix
  rw [walk_eq_foldl v start bag hstart]
  refine bag.get_foldl_set_ne _ _ _ fun l heq => ?_
  by_cases hnames : l.1 = []
  · rw [hnames] at heq
    exact append_ne_of_not_isPrefix h "" (by simpa [dotted] using heq)
  · rw [dotted_cons start hnames, String.append_assoc] at heq
    exact append_ne_of_not_isPrefix h _ heq

/-- Flattening each entry below its own name. -/
theorem get_walkEntries_ne (entries : HashMap String Json) :
    (bag.walkEntries start entries).get k = bag.get k := by
  unfold walkEntries
  generalize entries.entries = l
  induction l generalizing bag with
  | nil => rfl
  | cons e l ih =>
    rw [List.foldl_cons, ih]
    refine get_walk_ne bag (fun hpre => h ?_) e.2
    exact (List.prefix_append _ _).trans (by simpa using hpre)

end AttributeBag

/-- The writes `f` makes to a bag are not of the outcome of an elicitation. -/
def LeavesOutcome (f : AttributeBag → AttributeBag) : Prop :=
  ∀ bag, (f bag).get ElicitationBagKeys.outcome = bag.get ElicitationBagKeys.outcome

/-- An empty slot writes nothing. -/
theorem LeavesOutcome.opt {α : Type} {extract : α → AttributeBag → AttributeBag}
    (h : ∀ v, LeavesOutcome (extract v)) (slot : Option α) :
    LeavesOutcome (extractOpt extract slot) := by
  cases slot with
  | none => exact fun _ => rfl
  | some v => exact h v

/-- A document below a path of its own. -/
theorem LeavesOutcome.walk {start : String}
    (h : ¬ start.toList <+: ElicitationBagKeys.outcome.toList) (v : Json) :
    LeavesOutcome (walk v start) :=
  fun bag => bag.get_walk_ne h v

open AttributeBag

-- The keys of the extractors are of other families, or start with the name of one; each of them
-- is compared with the one key.

attribute [local simp] setOpts get_set_ne get_setOpt_ne get_setItems_ne get_setFlags_ne
  get_setTexts_ne get_walkEntries_ne

namespace LeavesOutcome

theorem subject (s : SubjectExtension) : LeavesOutcome (extractSubject s) := by
  intro bag
  unfold extractSubject
  split <;> simp (disch := decide)

theorem client (c : ClientExtension) : LeavesOutcome (extractClient c) := by
  intro bag
  simp (disch := decide) [extractClient]

/-- Both workloads are written, each below a name of its own. -/
theorem security (s : SecurityExtension) : LeavesOutcome (extractSecurity s) := by
  intro bag
  have hcaller : ∀ w, LeavesOutcome (extractWorkload "caller_workload" w) := fun w bag => by
    simp (disch := decide) [extractWorkload]
  have hthis : ∀ w, LeavesOutcome (extractWorkload "this_workload" w) := fun w bag => by
    simp (disch := decide) [extractWorkload]
  unfold extractSecurity
  rw [get_setOpt_ne _ _ (by decide), get_setItems_ne _ _ (by decide),
    get_setOpt_ne _ _ (by decide), opt hthis, opt hcaller, opt client, opt subject]

theorem delegation (d : DelegationExtension) : LeavesOutcome (extractDelegation d) := by
  intro bag
  simp (disch := decide) [extractDelegation]

theorem agent (a : AgentExtension) : LeavesOutcome (extractAgent a) := by
  intro bag
  unfold extractAgent
  cases a.turn <;> cases a.conversation <;> simp (disch := decide) [extractOpt]

theorem metadata (m : MetaExtension) : LeavesOutcome (extractMeta m) := by
  intro bag
  simp (disch := decide) [extractMeta]

theorem request (r : RequestExtension) : LeavesOutcome (extractRequest r) := by
  intro bag
  simp (disch := decide) [extractRequest]

/-- Headers are written in lower case, below the side they come from. -/
theorem http [Platform] (http : HttpExtension) : LeavesOutcome (extractHttp http) := by
  intro bag
  have hheaders {start : String} (h : ¬ start.toList <+: ElicitationBagKeys.outcome.toList)
      (l : List ((_ : String) × String)) :
      LeavesOutcome fun bag =>
        l.foldl (fun bag e => bag.set (start ++ Platform.toLowercase e.1) (.string e.2)) bag :=
    fun bag => bag.get_foldl_set_ne _ _ l fun e => append_ne_of_not_isPrefix h _
  unfold extractHttp
  rw [hheaders (by decide), hheaders (by decide)]
  simp (disch := decide)

theorem llm (l : LLMExtension) : LeavesOutcome (extractLlm l) := by
  intro bag
  simp (disch := decide) [extractLlm]

theorem mcp (m : MCPExtension) : LeavesOutcome (extractMcp m) := by
  intro bag
  unfold extractMcp
  cases m.tool <;> cases m.resource <;> cases m.prompt <;> simp (disch := decide) [extractOpt]

theorem completion (c : CompletionExtension) : LeavesOutcome (extractCompletion c) := by
  intro bag
  unfold extractCompletion
  cases c.tokens <;> cases c.latencyMs <;> simp (disch := decide) [extractOpt]

theorem provenance (p : ProvenanceExtension) : LeavesOutcome (extractProvenance p) := by
  intro bag
  simp (disch := decide) [extractProvenance]

theorem framework (f : FrameworkExtension) : LeavesOutcome (extractFramework f) := by
  intro bag
  simp (disch := decide) [extractFramework]

theorem custom (custom : HashMap String Json) : LeavesOutcome (extractCustom custom) :=
  fun bag => bag.get_walkEntries_ne (by decide) custom

/-- No extension that comes with a request writes the outcome. -/
theorem extensions [Platform] (ext : Extensions) : LeavesOutcome (extractExtensions ext) := by
  intro bag
  unfold extractExtensions
  rw [opt custom, opt framework, opt provenance, opt completion, opt mcp, opt llm, opt http,
    opt request, opt metadata, opt agent, opt delegation, opt security]

end LeavesOutcome

section
variable [Platform] {η σ τ : Type}

/-- Nor does anything else that the bag of a request is built from. -/
theorem get_requestBag_outcome :
    (Core.requestBag tree routeKey ext).get ElicitationBagKeys.outcome = none := by
  have hbag : (buildBag ext routeKey tree).get ElicitationBagKeys.outcome = none := by
    unfold buildBag extractData
    rw [LeavesOutcome.walk (by decide), get_set_ne _ _ (by decide),
      LeavesOutcome.extensions]
    rfl
  unfold Core.requestBag
  split
  · rw [get_set_ne _ _ (by decide), hbag]
  · exact hbag

/-- A request starts without the outcome of an elicitation. -/
theorem startPhase_outcome (handler : Core.AplRouteHandler) (host : Core.HandlerHost η σ τ) :
    (handler.startPhase host payload request).bag.get ElicitationBagKeys.outcome = none := by
  unfold Core.AplRouteHandler.startPhase extractArgs extractResult
  cases handler.phase with
  | pre =>
    rw [LeavesOutcome.walk (by decide), get_requestBag_outcome]
  | post =>
    rw [LeavesOutcome.walk (by decide), LeavesOutcome.walk (by decide), get_requestBag_outcome]

end

/-! ### Approvals on record -/

/-- The bag says that an elicitation was approved. -/
def SaysApproved (bag : AttributeBag) : Prop :=
  bag.getString ElicitationBagKeys.outcome = some "approved"

variable (bag : AttributeBag) {key : String}

theorem saysApproved_set_ne (v : AttributeValue) (h : ElicitationBagKeys.outcome ≠ key) :
    SaysApproved (bag.set key v) ↔ SaysApproved bag := by
  unfold SaysApproved
  rw [bag.getString_set_ne v h]

theorem saysApproved_setOpt_ne (h : ElicitationBagKeys.outcome ≠ key) :
    SaysApproved (bag.setOpt key v) ↔ SaysApproved bag := by
  unfold SaysApproved
  rw [bag.getString_setOpt_ne v h]

/-- A grant is written below keys of its own. -/
theorem saysApproved_recordGrant (outcome : DelegationOutcome) :
    SaysApproved (recordGrant bag outcome) ↔ SaysApproved bag := by
  unfold recordGrant
  split <;>
    simp (disch := decide) only [saysApproved_set_ne, saysApproved_setOpt_ne]

theorem saysApproved_recordAnswer (answer : DelegationAnswer) :
    SaysApproved (recordAnswer bag answer) ↔ SaysApproved bag := by
  unfold recordAnswer
  repeat' split
  · exact saysApproved_recordGrant bag _
  all_goals exact Iff.rfl

/-- To send an elicitation out does not approve it. -/
theorem saysApproved_recordDispatch (step : ElicitStep) (bag : AttributeBag)
    (d : ElicitationDispatch) : SaysApproved (recordDispatch step bag d) ↔ SaysApproved bag := by
  simp (disch := decide) only [recordDispatch, saysApproved_set_ne, saysApproved_setOpt_ne]

/-- This is the write that makes the bag say `approved`. -/
theorem saysApproved_recordApproval (v : ElicitationValidation) :
    SaysApproved (recordApproval bag v) := by
  simp (disch := decide) only [recordApproval, saysApproved_setOpt_ne]
  unfold SaysApproved AttributeBag.getString
  rw [AttributeBag.get_set_self]

section
variable [Platform] {σ : Type}

/-- The record is of an elicitation that was approved, found genuine and in scope. -/
def Reached.Approves : Reached → Prop
  | .elicit step _ _ (some (.ok (.resolved .approved))) (some (.ok v)) bag =>
    v.valid = true ∧ step.ScopeSatisfied bag
  | _ => False

/-- What a dispatch from `st` notes: an approval goes on record only if it `may`, and a dispatch
that continues leaves the bag saying `approved` if it did, or if an approval went on record. -/
def Notes (may : Prop) (st : EvalState σ) (r : EffectOutcome × EvalState σ) : Prop :=
  ∃ new, r.2.trace = st.trace ++ new ∧ ((∃ x ∈ new, x.Approves) → may) ∧
    (r.1 = .continue →
      (SaysApproved r.2.bag ↔ SaysApproved st.bag ∨ ∃ x ∈ new, x.Approves))

namespace Notes

variable {may may' : Prop} {st st' : EvalState σ} {r : EffectOutcome × EvalState σ}

/-- No approval goes on record, and a dispatch that continues leaves the outcome alone. -/
theorem of_quiet {new : List Reached} (htrace : r.2.trace = st.trace ++ new)
    (hquiet : ∀ x ∈ new, ¬ x.Approves)
    (hbag : r.1 = .continue → (SaysApproved r.2.bag ↔ SaysApproved st.bag)) : Notes may st r := by
  have hnone : ¬ ∃ x ∈ new, x.Approves := fun ⟨x, hx, happroves⟩ => hquiet x hx happroves
  exact ⟨new, htrace, fun h => absurd h hnone, fun hc => by simp only [hbag hc, hnone, or_false]⟩

/-- A step that does nothing. -/
theorem of_same (htrace : r.2.trace = st.trace) (hbag : r.2.bag = st.bag) : Notes may st r := by
  have hnil : r.2.trace = st.trace ++ [] := by rw [htrace, List.append_nil]
  exact of_quiet hnil (fun _ h => nomatch h) fun _ => by rw [hbag]

/-- One record that is no approval. -/
theorem of_reach {x : Reached} (htrace : r.2.trace = st.trace ++ [x]) (hx : ¬ x.Approves)
    (hbag : r.1 = .continue → (SaysApproved r.2.bag ↔ SaysApproved st.bag)) : Notes may st r :=
  of_quiet htrace (fun y hy => by rwa [List.mem_singleton.mp hy]) hbag

theorem mono (h : Notes may st r) (hmay : may → may') : Notes may' st r := by
  obtain ⟨new, htrace, happroves, hbag⟩ := h
  exact ⟨new, htrace, fun h => hmay (happroves h), hbag⟩

/-- Dispatching further after a dispatch that continued. -/
theorem trans (h : Notes may st (.continue, st')) (h' : Notes may' st' r) :
    Notes (may ∨ may') st r := by
  obtain ⟨new, htrace, happroves, hbag⟩ := h
  obtain ⟨new', htrace', happroves', hbag'⟩ := h'
  have hsplit : (∃ x ∈ new ++ new', x.Approves) ↔
      (∃ x ∈ new, x.Approves) ∨ ∃ x ∈ new', x.Approves := by
    simp only [List.mem_append, or_and_right, exists_or]
  refine ⟨new ++ new', by rw [htrace', htrace, List.append_assoc], ?_, fun hc => ?_⟩
  · exact fun h => (hsplit.mp h).imp happroves happroves'
  · rw [hbag' hc, hbag rfl, hsplit, or_assoc]

end Notes

/-! ### Effects without a body -/

variable (env : Env σ) (phase : DispatchPhase) {may : Prop}

/-- A plugin only reads the bag. -/
theorem dispatchPlugin_notes (name : String) (st : EvalState σ) :
    Notes may st (dispatchPlugin env phase name st) :=
  .of_reach (by rw [dispatchPlugin_snd]) id fun _ => by rw [dispatchPlugin_snd]

/-- A delegation writes to the bag, but not the outcome. -/
theorem dispatchDelegate_notes (step : DelegateStep) (st : EvalState σ) :
    Notes may st (dispatchDelegate env step st) := by
  refine .of_reach (by rw [dispatchDelegate_snd]) id fun _ => ?_
  rw [dispatchDelegate_snd]
  exact saysApproved_recordAnswer st.bag _

theorem dispatchRestrict_notes (fallbackSource : String) (spec : RestrictSpec)
    (st : EvalState σ) : Notes may st (dispatchRestrict fallbackSource spec st) := by
  obtain ⟨added, hst⟩ := dispatchRestrict_snd fallbackSource spec st
  exact .of_reach (by rw [hst]) id fun _ => by rw [hst]

variable {env} in
/-- An elicitation step makes one record, and writes the outcome only with an approval. -/
theorem Elicits.notes (h : Elicits env step st r) : Notes True st r := by
  cases h with
  | unresolved | unsent => exact .of_reach rfl (fun h => h) fun _ => Iff.rfl
  | @checked id dispatched bag w outcome checked validated bag' w' hopens hends =>
    have hopened : SaysApproved bag ↔ SaysApproved st.bag := by
      cases hopens with
      | existing => rfl
      | sent => exact saysApproved_recordDispatch step st.bag _
    cases hends with
    | failed | unvalidated => exact .of_reach rfl (fun h => h) fun _ => hopened
    | pending | denied => exact .of_reach rfl (fun h => h) fun hc => nomatch hc
    | expired =>
      exact .of_reach rfl (fun h => h) fun _ =>
        (saysApproved_set_ne bag _ (by decide)).trans hopened
    | rejected _ _ hbad =>
      refine .of_reach rfl (fun h => ?_) fun _ => hopened
      simp [h.1, ElicitStep.scopeFailure_eq_none.mpr h.2] at hbad
    | approved _ _ hvalid hscope =>
      refine ⟨[_], rfl, fun _ => trivial, fun _ => ?_⟩
      exact iff_of_true (saysApproved_recordApproval bag _) (.inr ⟨_, List.mem_singleton_self _,
        hvalid, ElicitStep.scopeFailure_eq_none.mp hscope⟩)

/-! ### Field operations -/

variable {env} in
/-- Plugins put no approval on record. -/
theorem AsksPlugins.quiet {names : String → Prop} {passed : Prop}
    (h : AsksPlugins env names passed w w' t t') :
    ∃ new, t' = t ++ new ∧ ∀ x ∈ new, ¬ x.Approves := by
  obtain ⟨new, htrace, hnew⟩ := h.trace
  refine ⟨new, htrace, fun x hx happroves => ?_⟩
  obtain ⟨name, answer, rfl, -⟩ := hnew x hx
  exact happroves

theorem dispatchFieldOp_notes (path : String) (stages : List Stage) (fallbackSource : String)
    (st : EvalState σ) :
    Notes may st (dispatchFieldOp env phase path stages fallbackSource st) := by
  obtain ⟨new, htrace, hquiet⟩ :=
    (dispatchFieldOp_asks env phase path stages fallbackSource st).quiet
  exact .of_quiet htrace hquiet fun _ => by rw [dispatchFieldOp_bag]

/-! ### The effect tree -/

variable (branches : List (EffectOutcome × EvalState σ))

omit [Platform] in
/-- The bags of the branches are dropped. -/
theorem joinParallel_bag : (joinParallel env branches st).2.bag = st.bag := by
  unfold joinParallel
  split
  · rfl
  · dsimp only
    split <;> rfl

/-- A block whose branches put no approval on record notes nothing. -/
theorem joinParallel_notes (st : EvalState σ)
    (hquiet : ∀ r ∈ branches, ∀ x ∈ r.2.trace, ¬ x.Approves) :
    Notes may st (joinParallel env branches st) := by
  by_cases hempty : branches = []
  · rw [hempty]
    exact .of_same rfl rfl
  · refine .of_quiet ((joinParallel_trace env branches st hempty).trans (List.append_assoc _ _ _))
      (fun x hx => ?_) fun _ => by rw [joinParallel_bag]
    rcases List.mem_append.mp hx with hx | hx
    · obtain ⟨trace, htrace, hx⟩ := List.mem_flatten.mp hx
      obtain ⟨r, hr, rfl⟩ := List.mem_map.mp htrace
      exact hquiet r hr x hx
    · obtain ⟨ev, -, hev⟩ := List.mem_filterMap.mp hx
      cases ev with
      | panicked i payload =>
        cases hev
        exact fun happroves => happroves
      | _ => exact nomatch hev

variable {env phase} in
/-- What effects note: an approval goes on record only where there is an elicitation, and a branch
has none. -/
theorem Runs.notes (h : Runs env phase es st r) (hes : Effect.allElicitFreeParallel es = true) :
    Notes (Effect.anyElicit es = true) st r := by
  have hcall {st : EvalState σ} {call answer w} : Notes False st
      (.continue, ({ st with world := w } : EvalState σ).reach (.pdp call answer)) :=
    .of_reach rfl (fun h => h) fun _ => Iff.rfl
  induction h with
  | nil | allow | taint | skip => exact .of_same rfl rfl
  | deny | pdpFailed => exact .of_reach rfl (fun h => h) fun hc => nomatch hc
  | cons _ _ ih ih' =>
    simp only [Effect.allElicitFreeParallel, Bool.and_eq_true] at hes
    have hfirst := ih (by simp [hes.1])
    exact (hfirst.trans (ih' hes.2)).mono fun hmay => by simpa using hmay
  | stop _ _ ih =>
    simp only [Effect.allElicitFreeParallel, Bool.and_eq_true] at hes
    refine (ih (by simp [hes.1])).mono fun hmay => ?_
    simp only [Effect.anyElicit, Bool.or_false] at hmay
    simp [hmay]
  | plugin => exact dispatchPlugin_notes env phase _ _
  | delegate => exact dispatchDelegate_notes env _ _
  | elicit => exact (dispatchElicitation_elicits env _ _).notes.mono fun _ => rfl
  | restrict => exact dispatchRestrict_notes _ _ _
  | fieldOp => exact dispatchFieldOp_notes env phase _ _ _ _
  | sequential _ ih | when _ ih =>
    exact (ih (by simpa using hes)).mono fun hmay => by simpa using hmay
  | parallel _ ih =>
    have hfree : ∀ e ∈ _, Effect.hasElicit e = false :=
      anyElicit_eq_false_iff.mp (by simpa using hes)
    refine joinParallel_notes env _ _ fun r hr x hx happroves => ?_
    obtain ⟨e, he, j, rfl⟩ := exists_of_mem_dispatchBranches env phase hr
    have hnone := hfree e he
    obtain ⟨new, htrace, hmay, -⟩ := ih e he _
      (by simp [elicitFreeParallel_of_hasElicit e hnone])
    rw [htrace] at hx
    have hnew := hmay ⟨x, hx, happroves⟩
    simp [hnone] at hnew
  | pdpAllowed _ _ _ ih =>
    simp only [Effect.allElicitFreeParallel, Effect.elicitFreeParallel, Bool.and_eq_true] at hes
    refine (hcall.trans (ih hes.1.1)).mono fun hmay => ?_
    simp [hmay.resolve_left id]
  -- Reactions that continue are turned into the deny itself.
  | pdpDenied _ _ ih =>
    simp only [Effect.allElicitFreeParallel, Effect.elicitFreeParallel, Bool.and_eq_true] at hes
    obtain ⟨new, htrace, hmay, -⟩ := hcall.trans (ih hes.1.2)
    refine ⟨new, htrace, fun h => ?_, fun hc => nomatch hc⟩
    simp [(hmay h).resolve_left id]
  | pdpReacted _ _ _ ih =>
    simp only [Effect.allElicitFreeParallel, Effect.elicitFreeParallel, Bool.and_eq_true] at hes
    refine (hcall.trans (ih hes.1.2)).mono fun hmay => ?_
    simp [hmay.resolve_left id]

/-! ### Whole phases -/

/-- A phase that allows without a pending elicitation ends with a bag that says `approved` if the
one it started with did, or if an elicitation of the phase was approved. -/
theorem evaluateEffects_approved_iff (effects : List Effect)
    (helicit : Effect.allElicitFreeParallel effects = true) (bag : AttributeBag)
    (payload : RoutePayload) (world : σ) :
    let r := evaluateEffects env effects bag phase payload world
    r.1.decision = .allow → r.1.pending = none →
      (SaysApproved r.2.bag ↔ SaysApproved bag ∨ ∃ x ∈ r.2.trace, x.Approves) := by
  intro r hallow hpending
  obtain ⟨new, htrace, -, hbag⟩ :=
    (evaluateEffects_runs env phase effects helicit bag payload world hallow hpending).notes helicit
  obtain rfl : _ = new := htrace
  exact hbag rfl

/-- Approvals are on record behind records without one. -/
theorem exists_approves_append {new : List Reached} (h : ∀ x ∈ old, ¬ x.Approves) :
    (∃ x ∈ old ++ new, x.Approves) ↔ ∃ x ∈ new, x.Approves := by
  constructor
  · rintro ⟨x, hx, happroves⟩
    rcases List.mem_append.mp hx with hx | hx
    · exact absurd happroves (h x hx)
    · exact ⟨x, hx, happroves⟩
  · rintro ⟨x, hx, happroves⟩
    exact ⟨x, List.mem_append_right _ hx, happroves⟩

/-- The same with the field rules of the phase, which ask plugins at most. -/
theorem PhaseRan.approved_iff (hran : PhaseRan env phase rules effects st r)
    (helicit : Effect.allElicitFreeParallel effects = true) (hstart : st.trace = [])
    (hallow : r.1.decision = .allow) (hpending : r.1.pending = none) :
    SaysApproved r.2.bag ↔ SaysApproved st.bag ∨ ∃ x ∈ r.2.trace, x.Approves := by
  cases hran with
  | @denied root decision fs hrules hreport =>
    have hdenied := runFieldRules_ne_allow env phase st.bag rules ⟨root, false, [], st.world, []⟩
    rw [hrules, ← hreport.1, hallow] at hdenied
    exact absurd rfl hdenied
  | @ran root fs payload eval es hrules heval hreport hstate =>
    obtain ⟨new, htrace, hquiet⟩ := (runFieldRules_asks env phase st.bag rules
      ⟨root, false, [], st.world, []⟩).quiet
    have heffects :=
      evaluateEffects_approved_iff env phase effects helicit st.bag payload fs.world
    rw [hrules, List.nil_append] at htrace
    rw [heval] at heffects
    rw [hstate.1, hstate.2.2, hstart, List.nil_append, htrace, exists_approves_append hquiet]
    exact heffects (hreport.1.symm.trans hallow) (hreport.2.symm.trans hpending)

end

/-- No elicitation sits under `parallel` in the policy a handler evaluates. -/
def Core.AplRouteHandler.ElicitFreeParallel (handler : Core.AplRouteHandler) : Prop :=
  Effect.allElicitFreeParallel handler.route.policy = true ∧
    Effect.allElicitFreeParallel handler.route.postPolicy = true

/-- A handler whose policy allows, with no elicitation pending, ends with a bag that says
`approved` exactly if an elicitation of the route was approved. -/
theorem evaluate_approved_iff [Platform] {η σ τ : Type} (handler : Core.AplRouteHandler)
    (host : Core.HandlerHost η σ τ) (plan : Core.RouteDispatchPlan η)
    (hfree : handler.ElicitFreeParallel) (payload : Core.MessagePayload)
    (request : Core.RequestState σ) :
    let r := handler.evaluate host plan payload request
    r.1.decision = .allow → r.1.pending = none →
      (SaysApproved r.2.bag ↔ ∃ x ∈ r.2.trace, x.Approves) := by
  intro r hallow hpending
  have hstart : ¬ SaysApproved (handler.startPhase host payload request).bag := by
    unfold SaysApproved AttributeBag.getString
    rw [startPhase_outcome]
    exact nofun
  have htrace : (handler.startPhase host payload request).trace = [] := by
    unfold Core.AplRouteHandler.startPhase
    cases handler.phase <;> rfl
  obtain ⟨phase, rules, effects, heffects, hran⟩ := handler.evaluate_ran host plan payload request
  have happroved :=
    hran.approved_iff _ phase (heffects.elim (· ▸ hfree.1) (· ▸ hfree.2)) htrace hallow hpending
  simpa only [hstart, false_or] using happroved

end Cpex
