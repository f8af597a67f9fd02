import Cpex.Spec.RequestWrites
import Cpex.Spec.WriteBack

/-! # Handing extensions back

A handler hands the extensions of its request back to the executor, which merges them under the
capabilities of the handler. Every item of the extensions then reads as in what was handed back,
or as before: headers by `write_headers`, labels and delegation by their append capabilities and
if nothing established is dropped, and custom values in any case.
-/

namespace Cpex

/-- A part of the extensions that plugins edit. -/
inductive EditItem where
  | requestHeader (name : String)
  | responseHeader (name : String)
  | custom (key : String)
  | label (label : String)
  | delegation
  | delegationOrigin

namespace EditItem

/-- The values of an item. -/
abbrev Value : EditItem → Type
  | requestHeader _ | responseHeader _ => Option String
  | custom _ => Option Json
  | label _ => Bool
  | delegation => Option (List DelegationHop × Option String × F64)
  | delegationOrigin => Option String

/-- What an item reads as. Depth and flag of a delegation are computed from its chain. -/
def read : (x : EditItem) → Extensions → x.Value
  | requestHeader name, e => (e.http.map (·.requestHeaders)).bind (·.lookup name)
  | responseHeader name, e => (e.http.map (·.responseHeaders)).bind (·.lookup name)
  | custom key, e => e.custom.bind (·.lookup key)
  | label l, e => decide (l ∈ e.labels)
  | delegation, e => e.delegation.map fun d => (d.chain, d.actorSubjectId, d.ageSeconds)
  | delegationOrigin, e => e.delegation.bind (·.originSubjectId)

/-- The merge of `final` into `e` replaces the delegation. -/
def DelegationMerged (capabilities : Finset String) (e final : Extensions) : Prop :=
  "append_delegation" ∈ capabilities ∧ ∃ d, final.delegation = some d ∧
    (e.delegation.all fun canonical => chainExtends canonical.chain d.chain) = true

/-- The merge of `final` into `e`, under these capabilities, takes the item over. -/
def Merged (capabilities : Finset String) (e final : Extensions) : EditItem → Prop
  | requestHeader _ | responseHeader _ => "write_headers" ∈ capabilities
  | custom _ => True
  | label _ => "append_labels" ∈ capabilities ∧ e.labels ⊆ final.labels
  | delegation => DelegationMerged capabilities e final
  | delegationOrigin => DelegationMerged capabilities e final ∧
      (delegationOrigin.read e = none ∨ delegationOrigin.read e = delegationOrigin.read final)

end EditItem

namespace Core

/-! ### Merging what a handler hands back -/

section
variable {capabilities : Finset String} {e final : Extensions}
  {constraint : Option CandidateConstraintExtension}

/-- The extensions a handler hands back, with the tokens the executor grants. -/
def handedBack (capabilities : Finset String) (final : Extensions)
    (constraint : Option CandidateConstraintExtension) : OwnedExtensions :=
  grantTokens { final.cowCopy with candidateConstraint := constraint } capabilities

theorem mergeOwned_headers (hhttp : final.http = none → e.http = none)
    (hcap : "write_headers" ∈ capabilities) :
    let merged := e.mergeOwned (handedBack capabilities final constraint)
    merged.http.map (·.requestHeaders) = final.http.map (·.requestHeaders) ∧
      merged.http.map (·.responseHeaders) = final.http.map (·.responseHeaders) := by
  dsimp only
  rw [mergeOwned_http_eq]
  simp only [handedBack, grantTokens, Extensions.cowCopy, hcap, decide_true]
  cases hfinal : final.http with
  | none =>
    -- Nothing is merged, and there were no headers to begin with.
    simp only [Extensions.mergeHttp, hhttp hfinal, Option.map_none, and_self]
  | some http => exact ⟨rfl, rfl⟩

theorem mergeOwned_labels (h : "append_labels" ∈ capabilities ∧ e.labels ⊆ final.labels) :
    (e.mergeOwned (handedBack capabilities final constraint)).labels = final.labels := by
  have htoken : (handedBack capabilities final constraint).labelsWriteToken = true :=
    decide_eq_true h.1
  rw [mergeOwned_labels_eq e htoken]
  exact if_pos h.2

/-- A merge that would drop a label, or that the handler may not make, leaves the labels. -/
theorem mergeOwned_labels_kept
    (h : ¬("append_labels" ∈ capabilities ∧ e.labels ⊆ final.labels)) :
    (e.mergeOwned (handedBack capabilities final constraint)).labels = e.labels := by
  by_cases hcap : "append_labels" ∈ capabilities
  · have htoken : (handedBack capabilities final constraint).labelsWriteToken = true :=
      decide_eq_true hcap
    rw [mergeOwned_labels_eq e htoken]
    exact if_neg fun hsubset => h ⟨hcap, hsubset⟩
  · exact mergeOwned_labels_of_no_token e (decide_eq_false hcap)

theorem mergeOwned_delegation (h : EditItem.DelegationMerged capabilities e final) :
    let merged := e.mergeOwned (handedBack capabilities final constraint)
    EditItem.delegation.read merged = EditItem.delegation.read final ∧
      EditItem.delegationOrigin.read merged =
        (EditItem.delegationOrigin.read e).or (EditItem.delegationOrigin.read final) := by
  obtain ⟨hcap, d, hfinal, hextends⟩ := h
  dsimp only [EditItem.read]
  rw [mergeOwned_delegation_eq]
  simp only [handedBack, grantTokens, Extensions.cowCopy, hcap, decide_true, hfinal,
    Extensions.mergeDelegation, if_pos hextends]
  cases e.delegation <;> exact ⟨rfl, rfl⟩

theorem mergeOwned_delegation_kept (h : ¬EditItem.DelegationMerged capabilities e final) :
    (e.mergeOwned (handedBack capabilities final constraint)).delegation = e.delegation := by
  rw [mergeOwned_delegation_eq]
  simp only [handedBack, grantTokens, Extensions.cowCopy]
  cases hfinal : final.delegation with
  | none => rfl
  | some d =>
    by_cases hcap : "append_delegation" ∈ capabilities
    · have hbroken : ¬(e.delegation.all fun canonical =>
          chainExtends canonical.chain d.chain) = true := fun hextends =>
        h ⟨hcap, d, hfinal, hextends⟩
      simp only [Extensions.mergeDelegation, hcap, decide_true, if_neg hbroken]
    · simp only [Extensions.mergeDelegation, hcap, decide_false]

/-- An item the merge takes over reads as in the extensions that were handed back. -/
theorem read_mergeOwned_of_merged (hhttp : final.http = none → e.http = none) {x : EditItem}
    (h : x.Merged capabilities e final) :
    x.read (e.mergeOwned (handedBack capabilities final constraint)) = x.read final := by
  cases x with
  | requestHeader name =>
    dsimp only [EditItem.read]
    rw [(mergeOwned_headers hhttp h).1]
  | responseHeader name =>
    dsimp only [EditItem.read]
    rw [(mergeOwned_headers hhttp h).2]
  | custom key =>
    dsimp only [EditItem.read]
    rw [mergeOwned_custom]
    rfl
  | label l =>
    dsimp only [EditItem.read]
    rw [mergeOwned_labels h]
  | delegation => exact (mergeOwned_delegation h).1
  | delegationOrigin =>
    obtain ⟨hmerged, horigin⟩ := h
    rw [(mergeOwned_delegation hmerged).2]
    rcases horigin with hnone | hsame
    · rw [hnone, Option.none_or]
    · rw [hsame, Option.or_self]

/-- Any other item reads as before. -/
theorem read_mergeOwned_of_not_merged {x : EditItem} (h : ¬x.Merged capabilities e final) :
    x.read (e.mergeOwned (handedBack capabilities final constraint)) = x.read e := by
  cases x with
  | requestHeader name | responseHeader name =>
    have hcap : "write_headers" ∉ capabilities := h
    dsimp only [EditItem.read]
    rw [mergeOwned_http (decide_eq_false hcap)]
  | custom key => exact absurd trivial h
  | label l =>
    dsimp only [EditItem.read]
    rw [mergeOwned_labels_kept h]
  | delegation =>
    dsimp only [EditItem.read]
    rw [mergeOwned_delegation_kept h]
  | delegationOrigin =>
    by_cases hmerged : EditItem.DelegationMerged capabilities e final
    · -- The canonical origin is an established one, which stays.
      rw [(mergeOwned_delegation hmerged).2]
      cases horigin : EditItem.delegationOrigin.read e with
      | none => exact absurd ⟨hmerged, .inl horigin⟩ h
      | some origin => rfl
    · dsimp only [EditItem.read]
      rw [mergeOwned_delegation_kept hmerged]

/-! ### The merge gate -/

/-- What a handler hands back passes the tests of the executor. -/
theorem mergeGate_handedBack (hcap : capWriteCandidateConstraint ∈ capabilities)
    (h : KeepsSlots (serialView e capabilities) final) :
    mergeGate e { final.cowCopy with candidateConstraint := constraint } capabilities = true := by
  have himmutable : e.validateImmutable
      { final.cowCopy with candidateConstraint := constraint } = true := by
    -- The slots it compares are those of the view.
    rw [← validateImmutable_view e capabilities]
    have hslots := h.immutableSlots
    simp only [Extensions.immutableSlots, Extensions.mk.injEq] at hslots
    simp only [Extensions.validateImmutable, Extensions.cowCopy, hslots]
  have hlabels : labelsOk e { final.cowCopy with candidateConstraint := constraint }
      capabilities = true := labelsOk_of_view h.labels
  have hconstraint : e.candidateConstraintWriteOk
      { final.cowCopy with candidateConstraint := constraint } capabilities = true := by
    simp [Extensions.candidateConstraintWriteOk, hcap]
  unfold mergeGate
  rw [himmutable, hlabels, hconstraint]
  rfl

end

end Core

end Cpex
