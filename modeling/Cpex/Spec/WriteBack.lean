import Cpex.Spec.PipelineTiers
import Cpex.Spec.Refusal
import Cpex.Spec.Views

/-! # A view that is handed back

A plugin that returns the copy of its view as it got it should change nothing. What filtering
blanked is then part of what the merge is given. The merges of the gated slots tell a blank from
an edit; the credentials are taken over as they are.
-/

namespace Cpex

/-- Depth and flag of a delegation agree with its chain. -/
def DelegationExtension.Consistent (d : DelegationExtension) : Prop :=
  d.depth = d.chain.length % 2 ^ 32 ∧ d.delegated = !d.chain.isEmpty

theorem chainExtends_refl (chain : List DelegationHop) : chainExtends chain chain = true := by
  unfold chainExtends
  rw [if_neg (Nat.lt_irrefl _), List.all_eq_true]
  intro pair hpair
  have hsame : pair.1 = pair.2 := by
    rw [List.zip_eq_zipWith] at hpair
    simp only [List.zipWith_self, List.mem_map] at hpair
    obtain ⟨hop, -, rfl⟩ := hpair
    rfl
  simp [hsame]

theorem ptrEqOpt_self {α : Type} (slot : Option (Arc α)) : ptrEqOpt slot slot = true := by
  cases slot with
  | none => rfl
  | some a => exact beq_self_eq_true a.addr

theorem ptrEqOpt_gate {α : Type} (p : Prop) [Decidable p] (slot : Option (Arc α)) :
    ptrEqOpt slot (gate p none slot) = true := by
  by_cases hp : p
  · rw [gate_of_open hp]
    exact ptrEqOpt_self slot
  · rw [gate_of_closed hp]
    cases slot <;> rfl

/-! ### The merges of the gated slots -/

variable (e : Extensions) (p : Prop) [Decidable p] (token : Bool)

theorem mergeHttp_gate : e.mergeHttp (gate p none e.http) token = e := by
  by_cases hp : p
  · rw [gate_of_open hp]
    cases hhttp : e.http with
    | none => rfl
    | some http =>
      cases token with
      | false => rfl
      | true =>
        simp only [Extensions.mergeHttp, hhttp, Option.getD_some]
        rw [← hhttp]
  · rw [gate_of_closed hp]
    rfl

/-- Labels that were filtered out make the returned slot look like one that drops them. -/
theorem mergeSecurity_view (capabilities : Finset String) :
    e.mergeSecurity (filterExtensions e capabilities).security token = e := by
  rw [filterExtensions_eq]
  cases hsec : e.security with
  | none => rfl
  | some security =>
    cases token with
    | false => rfl
    | true =>
      rw [Option.map_some, buildFilteredSecurity_eq]
      simp only [Extensions.mergeSecurity, hsec, Option.getD_some]
      split
      · have hlabels : security.labels ∪
            gate (capStr .readLabels ∈ capabilities) ∅ security.labels = security.labels := by
          unfold gate
          split
          · exact Finset.union_self _
          · exact Finset.union_empty _
        rw [hlabels, ← hsec]
      · rfl

theorem mergeDelegation_gate (h : ∀ d, e.delegation = some d → d.Consistent) :
    e.mergeDelegation (gate p none e.delegation) token = e := by
  by_cases hp : p
  · rw [gate_of_open hp]
    cases hdel : e.delegation with
    | none => rfl
    | some d =>
      cases token with
      | false => rfl
      | true =>
        obtain ⟨hdepth, hflag⟩ := h d hdel
        have hextends : (e.delegation.all fun canonical => chainExtends canonical.chain d.chain) =
            true := by
          rw [hdel]
          exact chainExtends_refl d.chain
        simp only [Extensions.mergeDelegation]
        rw [if_pos hextends]
        simp only [hdel, Option.getD_some, Option.or_self, ← hdepth, ← hflag]
        rw [← hdel]
  · rw [gate_of_closed hp]
    rfl

end Cpex

namespace Cpex.Core

open Cpex

variable {η π σ : Type} {e : Extensions} {capabilities : Finset String}

/-! ### Slots of the view -/

theorem serialView_http (e : Extensions) (capabilities : Finset String) :
    (serialView e capabilities).http = gate ("read_headers" ∈ capabilities) none e.http := by
  unfold serialView
  rw [filterExtensions_eq]
  rfl

theorem serialView_labels (e : Extensions) (capabilities : Finset String) :
    (serialView e capabilities).labels = gate ("read_labels" ∈ capabilities) ∅ e.labels := by
  unfold serialView Extensions.labels
  rw [filterExtensions_eq]
  cases e.security with
  | none => exact (ite_self _).symm
  | some security =>
    simp only [Option.map_some, Option.getD_some, buildFilteredSecurity_eq]
    rfl

/-! ### The whole merge -/

/-- Returned extensions that keep the immutable slots, the labels and the constraint of the
    view they were built from. -/
structure EditsView (view : Extensions) (owned : OwnedExtensions) : Prop where
  immutable : ∀ e : Extensions, e.validateImmutable owned = e.validateImmutable view.cowCopy
  labels : ∀ security, view.security = some security →
    ∃ security', owned.security = some security' ∧ security.labels ⊆ security'.labels
  constraint : owned.candidateConstraint = view.candidateConstraint

theorem EditsView.refl (view : Extensions) : EditsView view view.cowCopy :=
  ⟨fun _ => rfl, fun security h => ⟨security, h, fun _ hl => hl⟩, rfl⟩

/-- A view has the immutable slots of the extensions, or blanks. -/
theorem validateImmutable_view (e : Extensions) (capabilities : Finset String) :
    e.validateImmutable (serialView e capabilities).cowCopy = true := by
  unfold serialView
  rw [filterExtensions_eq]
  simp only [Extensions.validateImmutable, Extensions.cowCopy, ptrEqOpt_self, ptrEqOpt_gate,
    Bool.and_self]

/-- Labels that include those of the view pass `labels_ok`. -/
theorem labelsOk_of_view {owned : OwnedExtensions}
    (h : (serialView e capabilities).labels ⊆ (owned.security.getD {}).labels) :
    labelsOk e owned capabilities = true := by
  unfold labelsOk
  by_cases hread : "read_labels" ∈ capabilities
  · -- With the capability the view shows every label.
    rw [serialView_labels, gate_of_open hread] at h
    unfold Extensions.labels at h
    cases hsec : e.security with
    | none => simp
    | some security =>
      cases howned : owned.security with
      | none => simp
      | some security' =>
        rw [hsec, howned] at h
        simpa using .inr h
  · simp [hread]

/-- Extensions built from a view this way pass the merge tests. -/
theorem EditsView.mergeGate (h : EditsView (serialView e capabilities) owned) :
    mergeGate e owned capabilities = true := by
  have himmutable : e.validateImmutable owned = true :=
    (h.immutable e).trans (validateImmutable_view e capabilities)
  have hlabels : labelsOk e owned capabilities = true := by
    apply labelsOk_of_view
    unfold Extensions.labels
    cases hview : (serialView e capabilities).security with
    | none => exact Finset.empty_subset _
    | some security =>
      obtain ⟨security', howned, hsubset⟩ := h.labels security hview
      rw [howned]
      exact hsubset
  have hconstraint : e.candidateConstraintWriteOk owned capabilities = true := by
    have hsame : owned.candidateConstraint = e.candidateConstraint := by
      rw [h.constraint]
      unfold serialView
      rw [filterExtensions_eq]
    simp [Extensions.candidateConstraintWriteOk, hsame]
  unfold Core.mergeGate
  rw [himmutable, hlabels, hconstraint]
  rfl

/-- An unmodified view passes the merge tests. -/
theorem mergeGate_view (e : Extensions) (capabilities : Finset String) :
    mergeGate e (serialView e capabilities).cowCopy capabilities = true :=
  (EditsView.refl _).mergeGate

/-- Merging an unmodified view writes the filtered credentials and nothing else. -/
theorem mergeOwned_view (h : ∀ d, e.delegation = some d → d.Consistent) :
    e.mergeOwned (grantTokens (serialView e capabilities).cowCopy capabilities) =
      { e with rawCredentials :=
          (filterExtensions e capabilities).rawCredentials.or e.rawCredentials } := by
  have hhttp (token : Bool) : e.mergeHttp (serialView e capabilities).http token = e := by
    rw [serialView_http]
    exact mergeHttp_gate e _ token
  have hdelegation (token : Bool) :
      e.mergeDelegation (serialView e capabilities).delegation token = e := by
    change e.mergeDelegation (filterExtensions e capabilities).delegation token = e
    rw [filterExtensions_eq]
    exact mergeDelegation_gate e _ token h
  have hsecurity (token : Bool) : e.mergeSecurity (serialView e capabilities).security token = e :=
    mergeSecurity_view e token capabilities
  rw [mergeOwned_eq]
  dsimp only [grantTokens, Extensions.cowCopy]
  rw [hhttp, hsecurity, hdelegation]
  rfl

/-- Each of the two credential maps is readable, or the other is not, or there is nothing
    in it. -/
def CredentialsWhole (capabilities : Finset String) (raw : RawCredentialsExtension) : Prop :=
  (capStr .readInboundCredentials ∈ capabilities → capStr .readDelegatedTokens ∉ capabilities →
      raw.delegatedTokens = ∅) ∧
    (capStr .readDelegatedTokens ∈ capabilities → capStr .readInboundCredentials ∉ capabilities →
      raw.inboundTokens = ∅)

theorem rawCredentials_view_iff :
    (filterExtensions e capabilities).rawCredentials.or e.rawCredentials = e.rawCredentials ↔
      ∀ raw, e.rawCredentials = some raw → CredentialsWhole capabilities raw := by
  rw [filterExtensions_eq]
  cases e.rawCredentials with
  | none => simp [gate]
  | some raw =>
    simp only [Option.map_some, Option.some.injEq, forall_eq', CredentialsWhole]
    by_cases hin : capStr .readInboundCredentials ∈ capabilities <;>
      by_cases hout : capStr .readDelegatedTokens ∈ capabilities
    · simp [gate, hin, hout]
    · simp [gate, hin, hout, RawCredentialsExtension.ext_iff, eq_comm]
    · simp [gate, hin, hout, RawCredentialsExtension.ext_iff, eq_comm]
    · simp [gate, hin, hout]

/-- A Sequential plugin that hands its view back unmodified leaves the canonical extensions as
    they were exactly if it reads both credential maps or neither, or the one it does not read
    is empty. -/
theorem serialStep_unmodified_iff (rt : Runtime η π σ) (config : ExecutorConfig)
    (entry : HookEntry η) (st : PipelineState η π σ) (erased : ErasedResultFields π)
    (hreturned : serialCall rt config entry st = .returned (some erased))
    (hcontinue : erased.continueProcessing = true)
    (hunmodified : erased.modifiedExtensions =
      some (serialView st.extensions entry.capabilities).cowCopy)
    (hconsistent : ∀ d, st.extensions.delegation = some d → d.Consistent) :
    (serialStep rt config .sequential true true entry st).2.extensions = st.extensions ↔
      ∀ raw, st.extensions.rawCredentials = some raw →
        CredentialsWhole entry.capabilities raw := by
  have hmerged : (serialStep rt config .sequential true true entry st).2.extensions =
      st.extensions.mergeOwned (grantTokens
        (serialView st.extensions entry.capabilities).cowCopy entry.capabilities) := by
    rw [(serialStep_returned rt config .sequential true entry st hreturned hcontinue).2,
      hunmodified, takenOver, if_pos (mergeGate_view _ _)]
  rw [hmerged, mergeOwned_view hconsistent, ← rawCredentials_view_iff]
  constructor
  · intro h
    exact congrArg Extensions.rawCredentials h
  · intro h
    rw [h]

/-! ### A forwarder that reads one of the two maps -/

/-- Plugins that hand the copy of their view back. -/
def Runtime.echo : Runtime Unit π Unit :=
  .direct fun _ _ view _ => ({ modifiedExtensions := some view.cowCopy }, ())

/-- A Sequential plugin with these capabilities. -/
def echoEntry (capabilities : Finset String) : HookEntry Unit where
  pluginRef := { trustedConfig := { name := "echo", capabilities }, id := 0 }
  handler := ()

/-- A request with the caller's token and a minted one. -/
def bothTokens : PipelineState Unit Unit Unit :=
  .start () { rawCredentials := some {
    inboundTokens := (∅ : HashMap TokenRole RawInboundToken).insert .user
      ⟨"caller", "Authorization", .jwt⟩
    delegatedTokens := (∅ : HashMap DelegationKey RawDelegatedToken).insert
      { audience := "hr", scopes := [], mode := .onBehalfOfUser }
      ⟨"minted", "Authorization", "hr", [], 0⟩ } } none ∅ ()

/-- Reading both maps, the plugin changes nothing. -/
theorem serialStep_unmodified_both :
    (serialStep .echo {} .sequential true true
      (echoEntry {"read_inbound_credentials", "read_delegated_tokens"}) bothTokens).2.extensions =
      bothTokens.extensions := by
  refine (serialStep_unmodified_iff .echo {} _ bothTokens _ rfl rfl rfl nofun).mpr ?_
  intro raw _
  exact ⟨fun _ h => absurd h (by decide), fun _ h => absurd h (by decide)⟩

/-- Reading the inbound tokens only, it wipes the minted one. -/
theorem serialStep_unmodified_wipes_minted :
    let e := (serialStep .echo {} .sequential true true
      (echoEntry {"read_inbound_credentials"}) bothTokens).2.extensions
    e.rawCredentials.map (·.delegatedTokens.entries.length) = some 0 ∧
      bothTokens.extensions.rawCredentials.map (·.delegatedTokens.entries.length) = some 1 ∧
      e ≠ bothTokens.extensions := by
  refine ⟨rfl, rfl, fun h => ?_⟩
  have hlength := congrArg (fun e : Extensions =>
    e.rawCredentials.map (·.delegatedTokens.entries.length)) h
  exact absurd hlength (by decide)

end Cpex.Core
