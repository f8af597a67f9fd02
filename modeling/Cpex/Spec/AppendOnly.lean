import Cpex.Spec.WriteBack

/-! # Slots that only grow

Security labels and the delegation chain are append-only: `append_labels` and `append_delegation`
let a plugin add to them and nothing else. The merge refuses what is not an addition, by a test on
what the plugin returned. For labels the test is too strict, as it compares with labels that the
plugin did not see; for the chain it is too weak, as it compares some fields of a hop and takes over
all of them.
-/

namespace Cpex

/-! ### Labels -/

/-- `add_label` for each of the labels, on a slot that is there or created for it. -/
def OwnedExtensions.addLabels (owned : OwnedExtensions) (labels : Finset String) :
    OwnedExtensions :=
  let security := owned.security.getD {}
  { owned with security := some { security with labels := security.labels ∪ labels } }

/-! ### Hops -/

/-- The fields of a hop that `chain_extends` does not compare agree. -/
structure DelegationHop.SameRest (hop hop' : DelegationHop) : Prop where
  authorizationDetails : hop.authorizationDetails = hop'.authorizationDetails
  timestamp : hop.timestamp = hop'.timestamp
  ttlSeconds : hop.ttlSeconds = hop'.ttlSeconds
  fromCache : hop.fromCache = hop'.fromCache

theorem DelegationHop.eq_of_same {hop : DelegationHop} (h : hop.Same hop')
    (hrest : hop.SameRest hop') : hop = hop' := by
  obtain ⟨hid, htype, haudience, hscopes, hstrategy⟩ := h
  obtain ⟨hdetails, htime, httl, hcache⟩ := hrest
  cases hop
  simp_all

/-- A chain that grew has the old one as it was if the other fields agree too. -/
theorem ChainGrows.isPrefix_iff (h : ChainGrows before after) :
    before <+: after ↔ ∀ (i : Nat) (hop hop' : DelegationHop), before[i]? = some hop →
      after[i]? = some hop' → hop.SameRest hop' := by
  constructor
  · rintro ⟨appended, rfl⟩ i hop hop' hi hi'
    rw [List.getElem?_append_left (List.getElem?_eq_some_iff.mp hi).1, hi] at hi'
    cases hi'
    exact ⟨rfl, rfl, rfl, rfl⟩
  · intro hrest
    rw [List.prefix_iff_getElem?]
    intro i hi
    obtain ⟨hop', hi', hsame⟩ := h i before[i] (List.getElem?_eq_getElem hi)
    rw [hi', DelegationHop.eq_of_same hsame (hrest i _ hop' (List.getElem?_eq_getElem hi) hi')]

/-- The hops of a chain are after a merge as they were before, exactly if a chain that the merge
    takes over has them in the fields that `chain_extends` does not compare. -/
theorem mergeOwned_hops_iff (e : Extensions) {d : DelegationExtension} (hd : e.delegation = some d)
    (owned : OwnedExtensions) :
    (∃ d', (e.mergeOwned owned).delegation = some d' ∧ d.chain <+: d'.chain) ↔
      ∀ returned, owned.delegation = some returned → owned.delegationWriteToken = true →
        chainExtends d.chain returned.chain = true →
          ∀ (i : Nat) (hop hop' : DelegationHop), d.chain[i]? = some hop →
            returned.chain[i]? = some hop' → hop.SameRest hop' := by
  -- A merge that does not take the chain over leaves the slot.
  have hkept : (∃ d', e.delegation = some d' ∧ d.chain <+: d'.chain) := ⟨d, hd, List.prefix_rfl⟩
  rw [mergeOwned_delegation_eq]
  cases hreturned : owned.delegation with
  | none => exact iff_of_true hkept fun d h => absurd h.symm (Option.some_ne_none d)
  | some returned =>
    cases htoken : owned.delegationWriteToken with
    | false => exact iff_of_true hkept fun _ _ h => absurd h Bool.false_ne_true
    | true =>
      simp only [Extensions.mergeDelegation, hd, Option.all_some, Option.some.injEq, forall_eq',
        forall_const]
      by_cases hextends : chainExtends d.chain returned.chain = true
      · rw [if_pos hextends]
        simp only [Option.some.injEq, exists_eq_left', hextends, forall_const]
        exact (chainGrows_of_chainExtends hextends).isPrefix_iff
      · rw [if_neg hextends]
        exact iff_of_true hkept fun h => absurd h hextends

/-- A chain of one hop, with a lifetime. -/
def mintedChain (ttlSeconds : Nat) : DelegationExtension :=
  { chain := [{ subjectId := "alice", ttlSeconds := some ttlSeconds }] }

/-- An appended hop. -/
theorem mergeOwned_hops_appended :
    ∃ d', (({ delegation := some (mintedChain 60) } : Extensions).mergeOwned
        { delegation := some { chain := (mintedChain 60).chain ++ [{ subjectId := "agent" }] }
          delegationWriteToken := true }).delegation = some d' ∧
      (mintedChain 60).chain <+: d'.chain := by
  refine (mergeOwned_hops_iff _ rfl _).mpr ?_
  intro returned hreturned _ hextends
  cases hreturned
  exact (chainGrows_of_chainExtends hextends).isPrefix_iff.mp (List.prefix_append _ _)

/-- The lifetime of a hop is rewritten. -/
theorem mergeOwned_rewrites_hop :
    (({ delegation := some (mintedChain 60) } : Extensions).mergeOwned
        { delegation := some (mintedChain 86400), delegationWriteToken := true }).delegation.map
          (·.chain) = some (mintedChain 86400).chain ∧
      ¬(mintedChain 60).chain <+: (mintedChain 86400).chain := by
  decide

end Cpex

namespace Cpex.Core

open Cpex

variable {η π σ : Type}

/-- Labels added to a view pass the merge tests. -/
theorem EditsView.addLabels (view : Extensions) (labels : Finset String) :
    EditsView view (view.cowCopy.addLabels labels) where
  immutable _ := rfl
  labels security hsecurity := by
    refine ⟨_, rfl, ?_⟩
    have hview : view.cowCopy.security = some security := hsecurity
    rw [hview]
    exact Finset.subset_union_left
  constraint := rfl

/-- The labels that a plugin adds to its view land exactly if it sees the labels there are, or adds
    them all, or adds no other. -/
theorem serialStep_appended_iff (rt : Runtime η π σ) (config : ExecutorConfig) (mode : PluginMode)
    (hmode : mode = .sequential ∨ mode = .transform) (entry : HookEntry η)
    (happend : "append_labels" ∈ entry.capabilities) (st : PipelineState η π σ)
    (added : Finset String) (erased : ErasedResultFields π)
    (hreturned : serialCall rt config entry st = .returned (some erased))
    (hadded : erased.modifiedExtensions =
      some ((serialView st.extensions entry.capabilities).cowCopy.addLabels added))
    (hgo : (serialStep rt config mode mode.canBlock mode.canModify entry st).1 = none) :
    (serialStep rt config mode mode.canBlock mode.canModify entry st).2.extensions.labels =
        st.extensions.labels ∪ added ↔
      "read_labels" ∈ entry.capabilities ∨ st.extensions.labels ⊆ added ∨
        added ⊆ st.extensions.labels := by
  have hmodify : mode.canModify = true := by rcases hmode with rfl | rfl <;> rfl
  rw [hmodify] at hgo ⊢
  have hlabels : (serialStep rt config mode mode.canBlock true entry st).2.extensions.labels =
      if st.extensions.labels ⊆ (serialView st.extensions entry.capabilities).labels ∪ added then
        (serialView st.extensions entry.capabilities).labels ∪ added
      else st.extensions.labels := by
    rw [serialStep_extensions rt config mode mode.canBlock entry st hreturned hgo, hadded,
      takenOver, if_pos (EditsView.addLabels _ added).mergeGate]
    have htoken : (grantTokens ((serialView st.extensions entry.capabilities).cowCopy.addLabels
        added) entry.capabilities).labelsWriteToken = true := decide_eq_true happend
    exact mergeOwned_labels_eq st.extensions htoken
  rw [hlabels, serialView_labels]
  by_cases hread : "read_labels" ∈ entry.capabilities
  · rw [gate_of_open hread, if_pos Finset.subset_union_left]
    exact iff_of_true rfl (.inl hread)
  · -- To this plugin the slot was empty, so what it returns is what it adds.
    rw [gate_of_closed hread, Finset.empty_union]
    by_cases hall : st.extensions.labels ⊆ added
    · rw [if_pos hall]
      exact iff_of_true (Finset.union_eq_right.mpr hall).symm (.inr (.inl hall))
    · rw [if_neg hall, eq_comm, Finset.union_eq_left]
      simp [hread, hall]

/-- Plugins that add labels to the copy of their view. -/
def Runtime.labelling (added : Finset String) : Runtime Unit π Unit :=
  .direct fun _ _ view _ => ({ modifiedExtensions := some (view.cowCopy.addLabels added) }, ())

/-- A request with one label. -/
def labelled : PipelineState Unit Unit Unit :=
  .start () { security := some { labels := {"PII"} } } none ∅ ()

/-- A plugin that sees the labels. -/
theorem serialStep_appended_visible :
    (serialStep (.labelling {"PROCESSED"}) {} .transform false true
        (echoEntry {"append_labels", "read_labels"}) labelled).2.extensions.labels =
      labelled.extensions.labels ∪ {"PROCESSED"} :=
  (serialStep_appended_iff (.labelling {"PROCESSED"}) {} .transform (.inr rfl)
    (echoEntry {"append_labels", "read_labels"}) (by decide) labelled {"PROCESSED"} _ rfl rfl
    rfl).mpr (.inl (by decide))

/-- Without `read_labels` the label is lost. -/
theorem serialStep_appended_unseen :
    "append_labels" ∈ (echoEntry {"append_labels"}).capabilities ∧
      (serialStep (.labelling {"PROCESSED"}) {} .sequential true true
        (echoEntry {"append_labels"}) labelled).2.extensions.labels = {"PII"} := by
  decide

end Cpex.Core
