import Cpex.Spec.PipelineRun

/-! # What a pipeline of arbitrary plugins can do to the extensions

`Tiers before after` is what the mutability tiers promise about the canonical extensions: labels
and delegation chains only grow, the request line and the identity stay, and the immutable slots
are the same objects. It is a preorder, a merge respects it, and so does every run.
-/

namespace Cpex

/-! ### Chains that extend -/

/-- Two hops agree on what a returned chain may not rewrite. -/
structure DelegationHop.Same (before after : DelegationHop) : Prop where
  subjectId : before.subjectId = after.subjectId
  subjectType : before.subjectType = after.subjectType
  audience : before.audience = after.audience
  scopesGranted : before.scopesGranted = after.scopesGranted
  strategy : before.strategy = after.strategy

/-- Every hop of `before` is still at its place in `after`. -/
def ChainGrows (before after : List DelegationHop) : Prop :=
  ∀ (i : Nat) (hop : DelegationHop), before[i]? = some hop →
    ∃ hop', after[i]? = some hop' ∧ hop.Same hop'

theorem ChainGrows.refl (chain : List DelegationHop) : ChainGrows chain chain :=
  fun _ hop h => ⟨hop, h, rfl, rfl, rfl, rfl, rfl⟩

theorem ChainGrows.trans (hab : ChainGrows a b) (hbc : ChainGrows b c) : ChainGrows a c := by
  intro i hop h
  obtain ⟨hop', h', hs⟩ := hab i hop h
  obtain ⟨hop'', h'', hs'⟩ := hbc i hop' h'
  exact ⟨hop'', h'', hs.subjectId.trans hs'.subjectId, hs.subjectType.trans hs'.subjectType,
    hs.audience.trans hs'.audience, hs.scopesGranted.trans hs'.scopesGranted,
    hs.strategy.trans hs'.strategy⟩

/-- What `chain_extends` accepts, grows the chain. -/
theorem chainGrows_of_chainExtends (h : chainExtends before after = true) :
    ChainGrows before after := by
  unfold chainExtends at h
  split at h
  · exact nomatch h
  · rename_i hlen
    intro i hop hi
    have hlt : i < before.length := (List.getElem?_eq_some_iff.mp hi).1
    have hlt' : i < after.length := by omega
    have hpair : (before.zip after)[i]? = some (hop, after[i]) :=
      List.getElem?_zip_eq_some.mpr ⟨hi, List.getElem?_eq_getElem hlt'⟩
    have hsame := List.all_eq_true.mp h _ (List.mem_of_getElem? hpair)
    simp only [Bool.and_eq_true, beq_iff_eq] at hsame
    obtain ⟨⟨⟨⟨h1, h2⟩, h3⟩, h4⟩, h5⟩ := hsame
    exact ⟨after[i], List.getElem?_eq_getElem hlt', h1, h2, h3, h4, h5⟩

/-! ### The tiers -/

namespace Extensions

/-- The security labels, none if there is no slot. -/
def labels (e : Extensions) : Finset String := (e.security.getD {}).labels

/-- The security slot without its labels. -/
def identity (e : Extensions) : SecurityExtension := { e.security.getD {} with labels := ∅ }

/-- Method, path, host and scheme. -/
def requestLine (e : Extensions) :
    Option String × Option String × Option String × Option String :=
  let http := e.http.getD {}
  (http.method, http.path, http.host, http.scheme)

/-- The slots no plugin may change. -/
def immutableSlots (e : Extensions) : Extensions where
  request := e.request
  agent := e.agent
  mcp := e.mcp
  completion := e.completion
  provenance := e.provenance
  llm := e.llm
  framework := e.framework
  «meta» := e.meta

end Extensions

/-- What the mutability tiers promise about the extensions before and after. -/
structure Tiers (before after : Extensions) : Prop where
  /-- Labels are only added. -/
  labels : before.labels ⊆ after.labels
  /-- An existing chain is only extended, and its origin stays once established. -/
  delegation : ∀ d, before.delegation = some d → ∃ d', after.delegation = some d' ∧
    ChainGrows d.chain d'.chain ∧
      (d.originSubjectId.isSome = true → d'.originSubjectId = d.originSubjectId)
  requestLine : after.requestLine = before.requestLine
  /-- Subject, client, workloads, authentication method, classification, objects and data. -/
  identity : after.identity = before.identity
  immutableSlots : after.immutableSlots = before.immutableSlots

variable (e : Extensions)

theorem Tiers.refl : Tiers e e :=
  ⟨subset_rfl, fun d hd => ⟨d, hd, .refl d.chain, fun _ => rfl⟩, rfl, rfl, rfl⟩

theorem Tiers.trans (hab : Tiers a b) (hbc : Tiers b c) : Tiers a c where
  labels := hab.labels.trans hbc.labels
  delegation := by
    intro d hd
    obtain ⟨d', hd', hgrow, horigin⟩ := hab.delegation d hd
    obtain ⟨d'', hd'', hgrow', horigin'⟩ := hbc.delegation d' hd'
    refine ⟨d'', hd'', hgrow.trans hgrow', fun hsome => ?_⟩
    have hsame := horigin hsome
    rw [← hsame] at hsome ⊢
    exact horigin' hsome
  requestLine := hbc.requestLine.trans hab.requestLine
  identity := hbc.identity.trans hab.identity
  immutableSlots := hbc.immutableSlots.trans hab.immutableSlots

/-! ### Merging -/

/-- Merged headers leave the request line alone. -/
theorem mergeHttp_tiers (owned : Option HttpExtension) (token : Bool) :
    Tiers e (e.mergeHttp owned token) := by
  unfold Extensions.mergeHttp
  split
  · exact ⟨subset_rfl, fun d hd => ⟨d, hd, .refl d.chain, fun _ => rfl⟩, rfl, rfl, rfl⟩
  · exact .refl e

/-- Merged labels only grow, and bring nothing else of the slot along. -/
theorem mergeSecurity_tiers (owned : Option SecurityExtension) (token : Bool) :
    Tiers e (e.mergeSecurity owned token) := by
  unfold Extensions.mergeSecurity
  split
  · dsimp only
    split
    · exact ⟨Finset.subset_union_left, fun d hd => ⟨d, hd, .refl d.chain, fun _ => rfl⟩, rfl, rfl,
        rfl⟩
    · exact .refl e
  · exact .refl e

/-- A merged chain extends the canonical one, under the same origin. -/
theorem mergeDelegation_tiers (owned : Option DelegationExtension) (token : Bool) :
    Tiers e (e.mergeDelegation owned token) := by
  unfold Extensions.mergeDelegation
  split
  · rename_i owned
    split
    · rename_i hext
      refine ⟨subset_rfl, fun d hd => ?_, rfl, rfl, rfl⟩
      rw [hd, Option.all_some] at hext
      refine ⟨_, rfl, chainGrows_of_chainExtends hext, fun hsome => ?_⟩
      -- `or` keeps the canonical origin.
      obtain ⟨origin, horigin⟩ := Option.isSome_iff_exists.mp hsome
      simp [hd, horigin]
    · exact .refl e
  · exact .refl e

/-- `merge_http` reads and writes the http slot only. -/
theorem mergeHttp_eq {e e' : Extensions} (h : e'.http = e.http) (owned : Option HttpExtension)
    (token : Bool) :
    e'.mergeHttp owned token = { e' with http := (e.mergeHttp owned token).http } := by
  unfold Extensions.mergeHttp
  rw [← h]
  split
  · rfl
  · rw [← h]

/-- `merge_security` reads and writes the security slot only. -/
theorem mergeSecurity_eq {e e' : Extensions} (h : e'.security = e.security)
    (owned : Option SecurityExtension) (token : Bool) :
    e'.mergeSecurity owned token =
      { e' with security := (e.mergeSecurity owned token).security } := by
  unfold Extensions.mergeSecurity
  rw [← h]
  split
  · dsimp only
    split
    · rfl
    · rw [← h]
  · rw [← h]

/-- `merge_delegation` reads and writes the delegation slot only. -/
theorem mergeDelegation_eq {e e' : Extensions} (h : e'.delegation = e.delegation)
    (owned : Option DelegationExtension) (token : Bool) :
    e'.mergeDelegation owned token =
      { e' with delegation := (e.mergeDelegation owned token).delegation } := by
  unfold Extensions.mergeDelegation
  rw [← h]
  split
  · split
    · rfl
    · rw [← h]
  · rw [← h]

variable (owned : OwnedExtensions)

/-- The order of the merges does not matter. -/
theorem mergeOwned_eq :
    e.mergeOwned owned = { e with
      http := (e.mergeHttp owned.http owned.httpWriteToken).http
      security := (e.mergeSecurity owned.security owned.labelsWriteToken).security
      candidateConstraint := owned.candidateConstraint
      delegation := (e.mergeDelegation owned.delegation owned.delegationWriteToken).delegation
      custom := owned.custom
      rawCredentials := owned.rawCredentials.or e.rawCredentials } := by
  unfold Extensions.mergeOwned
  dsimp only
  rw [mergeHttp_eq (e := e), mergeSecurity_eq (e := e), mergeDelegation_eq (e := e)]
  · cases owned.rawCredentials <;> rfl
  all_goals rfl

/-- Merging any returned extensions respects the tiers. -/
theorem mergeOwned_tiers : Tiers e (e.mergeOwned owned) := by
  have hhttp := mergeHttp_tiers e owned.http owned.httpWriteToken
  have hsecurity := mergeSecurity_tiers e owned.security owned.labelsWriteToken
  have hdelegation := mergeDelegation_tiers e owned.delegation owned.delegationWriteToken
  rw [mergeOwned_eq]
  exact ⟨hsecurity.labels, hdelegation.delegation, hhttp.requestLine, hsecurity.identity, rfl⟩

theorem mergeOwned_http_eq :
    (e.mergeOwned owned).http = (e.mergeHttp owned.http owned.httpWriteToken).http := by
  rw [mergeOwned_eq]

theorem mergeOwned_security_eq :
    (e.mergeOwned owned).security =
      (e.mergeSecurity owned.security owned.labelsWriteToken).security := by
  rw [mergeOwned_eq]

theorem mergeOwned_delegation_eq :
    (e.mergeOwned owned).delegation =
      (e.mergeDelegation owned.delegation owned.delegationWriteToken).delegation := by
  rw [mergeOwned_eq]

theorem mergeOwned_candidateConstraint :
    (e.mergeOwned owned).candidateConstraint = owned.candidateConstraint := by
  rw [mergeOwned_eq]

/-- The custom slot, which no capability gates. -/
theorem mergeOwned_custom : (e.mergeOwned owned).custom = owned.custom := by
  rw [mergeOwned_eq]

/-- The merged credentials are the returned ones, if any were returned. -/
theorem mergeOwned_rawCredentials :
    (e.mergeOwned owned).rawCredentials = owned.rawCredentials.or e.rawCredentials := by
  rw [mergeOwned_eq]

variable {owned}

/-- The labels after a merge that may write them. -/
theorem mergeOwned_labels_eq (htoken : owned.labelsWriteToken = true) :
    (e.mergeOwned owned).labels =
      if e.labels ⊆ (owned.security.getD {}).labels then (owned.security.getD {}).labels
      else e.labels := by
  unfold Extensions.labels
  rw [mergeOwned_security_eq, htoken]
  cases owned.security with
  | none =>
    -- Nothing is merged; only empty labels are among none.
    split
    · rename_i hsubset
      exact Finset.subset_empty.mp hsubset
    · rfl
  | some security =>
    simp only [Extensions.mergeSecurity, Option.getD_some]
    split
    · rename_i hsubset
      exact Finset.union_eq_right.mpr hsubset
    · rfl

/-- The labels after a merge that may not. -/
theorem mergeOwned_labels_of_no_token (htoken : owned.labelsWriteToken = false) :
    (e.mergeOwned owned).labels = e.labels := by
  unfold Extensions.labels
  rw [mergeOwned_security_eq, htoken]
  cases owned.security <;> rfl

/-- Without the write token the http slot stays as it is. -/
theorem mergeOwned_http {e : Extensions} (h : owned.httpWriteToken = false) :
    (e.mergeOwned owned).http = e.http := by
  rw [mergeOwned_http_eq, h]
  cases owned.http <;> rfl

end Cpex

namespace Cpex.Core

variable {η π σ : Type}

/-! ### Runs -/

variable {st st' : PipelineState η π σ} {v : Option PluginViolation} {r : Ran η π}

/-- A serial call respects the tiers. -/
theorem SerialCall.tiers (call : SerialCall st v st' r) : Tiers st.extensions st'.extensions := by
  rw [call.extensions]
  split
  · unfold Ran.merged
    rw [call.before]
    cases r.owned with
    | some owned => exact mergeOwned_tiers _ _
    | none => exact .refl _
  · exact .refl _

variable {st₀ : PipelineState η π σ}

/-- Every run respects the tiers. -/
theorem Run.tiers (run : Run st₀ v st) : Tiers st₀.extensions st.extensions := by
  induction run with
  | start => exact .refl _
  | serial _ call ih => exact ih.trans call.tiers
  | readOnly _ calls ih => rw [calls.extensions]; exact ih

/-- The edit of an accepted call passed the merge tests. -/
theorem SerialCall.mergeGate_of_accepted (call : SerialCall st v st' r)
    (h : r.accepted.extensions = true) :
    ∃ owned, r.owned = some owned ∧ mergeGate st.extensions owned r.entry.capabilities = true ∧
      st'.extensions = st.extensions.mergeOwned (grantTokens owned r.entry.capabilities) := by
  have hext := call.extensions
  rw [if_pos h, Ran.merged, call.before] at hext
  have hpass : r.passesGate = true := by
    have hacc := h
    rw [call.accepted, Bool.and_eq_true] at hacc
    exact hacc.2
  unfold Ran.passesGate at hpass
  rw [call.before] at hpass
  cases ho : r.owned with
  | none => rw [ho] at hpass; cases hpass
  | some owned =>
    rw [ho] at hpass hext
    exact ⟨owned, rfl, hpass, hext⟩

/-- A serial call of a plugin without the capability leaves the constraint alone. -/
theorem SerialCall.candidateConstraint (call : SerialCall st v st' r)
    (hcap : capWriteCandidateConstraint ∉ r.entry.capabilities) :
    st'.extensions.candidateConstraint = st.extensions.candidateConstraint := by
  by_cases h : r.accepted.extensions = true
  · obtain ⟨owned, -, hgate, hext⟩ := call.mergeGate_of_accepted h
    rw [hext, mergeOwned_candidateConstraint]
    simp only [mergeGate, Bool.and_eq_true] at hgate
    have hok := hgate.2
    simp only [Extensions.candidateConstraintWriteOk, Bool.or_eq_true, decide_eq_true_eq] at hok
    exact hok.resolve_left hcap
  · rw [call.extensions, if_neg h]

/-- A serial call of a plugin without `write_headers` leaves the http slot alone. -/
theorem SerialCall.http (call : SerialCall st v st' r)
    (hcap : "write_headers" ∉ r.entry.capabilities) : st'.extensions.http = st.extensions.http := by
  by_cases h : r.accepted.extensions = true
  · obtain ⟨owned, -, -, hext⟩ := call.mergeGate_of_accepted h
    rw [hext]
    exact mergeOwned_http (decide_eq_false hcap)
  · rw [call.extensions, if_neg h]

/-- A slot that no recorded call may write is the same after the run. -/
theorem Run.frame {α : Type} {Keeps : Ran η π → Prop} {f : Extensions → α}
    (hstep : ∀ {st st' : PipelineState η π σ} {v : Option PluginViolation} {r : Ran η π},
      SerialCall st v st' r → Keeps r → f st'.extensions = f st.extensions) (run : Run st₀ v st)
    (hkeeps : ∀ r ∈ st.trace, r.mode.canModify = true → Keeps r) :
    f st.extensions = f st₀.extensions := by
  induction run with
  | start => rfl
  | serial _ call ih =>
    rw [call.trace] at hkeeps
    have hlast := hkeeps _ (List.mem_append_right _ List.mem_cons_self) call.canModify
    exact (hstep call hlast).trans (ih fun r hr => hkeeps r (List.mem_append_left _ hr))
  | readOnly _ calls ih =>
    rw [calls.trace] at hkeeps
    rw [calls.extensions]
    exact ih fun r hr => hkeeps r (List.mem_append_left _ hr)

/-- `payload_modified` is raised by accepted payloads only. -/
theorem Run.payloadModified_iff (run : Run st₀ v st) (h₀ : st₀.trace = [])
    (hm₀ : st₀.payloadModified = false) :
    st.payloadModified = true ↔
      ∃ r ∈ st.trace, r.mode.canModify = true ∧ r.accepted.payload = true := by
  induction run with
  | start => simp [h₀, hm₀]
  | serial _ call ih =>
    rw [call.payloadModified, Bool.or_eq_true, ih, call.trace]
    constructor
    · rintro (⟨r, hr, h⟩ | h)
      · exact ⟨r, List.mem_append_left _ hr, h⟩
      · exact ⟨_, List.mem_append_right _ List.mem_cons_self, call.canModify, h⟩
    · rintro ⟨r, hr, hmode, h⟩
      rcases List.mem_append.mp hr with hr | hr
      · exact .inl ⟨r, hr, hmode, h⟩
      · rw [List.mem_singleton.mp hr] at h
        exact .inr h
  | readOnly _ calls ih =>
    rw [calls.payloadModified, ih, calls.trace]
    constructor
    · rintro ⟨r, hr, h⟩
      exact ⟨r, List.mem_append_left _ hr, h⟩
    · rintro ⟨r, hr, hmode, h⟩
      rcases List.mem_append.mp hr with hr | hr
      · exact ⟨r, hr, hmode, h⟩
      · rw [calls.canModify r hr] at hmode
        exact nomatch hmode

/-- What holds of the extensions and the payload flag once `execute` returned. -/
structure PipelineTiers (extensions : Extensions) (ex : Execution η π σ) : Prop where
  /-- The result carries the canonical extensions, and they respect the tiers. -/
  tiers : ∃ final, ex.result.modifiedExtensions = some final ∧ Tiers extensions final ∧
    -- Only a plugin that ran with the capability can change these two.
    ((∀ r ∈ ex.state.trace, r.mode.canModify = true →
      capWriteCandidateConstraint ∉ r.entry.capabilities) →
      final.candidateConstraint = extensions.candidateConstraint) ∧
    ((∀ r ∈ ex.state.trace, r.mode.canModify = true →
      "write_headers" ∉ r.entry.capabilities) → final.http = extensions.http)
  payloadModified : ex.result.continueProcessing = true →
    (ex.result.payloadModified = true ↔
      ∃ r ∈ ex.state.trace, r.mode.canModify = true ∧ r.accepted.payload = true)
  /-- An allowed pipeline accepted every payload that was handed back to it. -/
  acceptedPayload : ex.result.continueProcessing = true → ∀ r ∈ ex.state.trace,
    r.mode.canModify = true → r.accepted.payload = r.returnedPayload.isSome

/-- The tiers hold across `execute`, for any entries and any handlers. -/
theorem execute_tiers (rt : Runtime η π σ) (config : ExecutorConfig)
    (entries : List (HookEntry η)) (payload : π) (extensions : Extensions)
    (contextTable : Option PluginContextTable) (disabled : Finset Uuid) (world : σ) :
    PipelineTiers extensions
      (execute rt config entries payload extensions contextTable disabled world) := by
  obtain ⟨run, reports⟩ := execute_run rt config entries payload extensions contextTable disabled
    world
  refine ⟨⟨_, reports.extensions, run.tiers, ?_, ?_⟩, ?_, ?_⟩
  · intro hcap
    exact run.frame (f := Extensions.candidateConstraint) SerialCall.candidateConstraint hcap
  · intro hcap
    exact run.frame (f := Extensions.http) SerialCall.http hcap
  · intro hallowed
    rw [reports.payloadModified hallowed]
    exact run.payloadModified_iff rfl rfl
  · intro hallowed r hr hmode
    -- No call of an allowed pipeline halts.
    have hnone : r.halts = false := by
      rw [reports.violation, Option.isNone_iff_eq_none] at hallowed
      have hhalted := run.halted_iff rfl
      rw [hallowed, Option.isSome_none, eq_comm, List.any_eq_false] at hhalted
      exact Bool.eq_false_iff.mpr (hhalted r hr)
    rw [run.accepted rfl r hr hmode, hnone]
    rfl

end Cpex.Core
