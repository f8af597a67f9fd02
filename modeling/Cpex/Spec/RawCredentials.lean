import Cpex.Spec.PipelineTiers
import Cpex.Spec.Refusal

/-! # Who writes the raw credentials

No capability of the slot table grants a write on raw credentials, but neither the immutability
check nor the merge looks at one: extensions that pass the merge tests replace the credentials
whenever they carry any.
-/

namespace Cpex.Core

variable {η π σ : Type}

/-- If the executor takes over what the call returned, the credentials in it are absent or
    are `credentials`. -/
def Ran.KeepsCredentials (credentials : Option RawCredentialsExtension) (r : Ran η π) : Prop :=
  r.halts = false → r.passesGate = true → ∀ owned, r.owned = some owned →
    owned.rawCredentials = none ∨ owned.rawCredentials = credentials

/-- A serial call keeps the credentials exactly when what it returned does. -/
theorem SerialCall.rawCredentials_iff (call : SerialCall st v st' r) :
    st'.extensions.rawCredentials = st.extensions.rawCredentials ↔
      r.KeepsCredentials st.extensions.rawCredentials := by
  by_cases h : r.accepted.extensions = true
  · obtain ⟨owned, howned, -, hext⟩ := call.mergeGate_of_accepted h
    have htaken : r.halts = false ∧ r.passesGate = true := by
      rw [call.accepted, Bool.and_eq_true, Bool.not_eq_true'] at h
      exact h
    -- The merge takes the returned credentials whenever there are any.
    have hraw : st'.extensions.rawCredentials =
        owned.rawCredentials.or st.extensions.rawCredentials := by
      rw [hext, mergeOwned_rawCredentials]
      rfl
    rw [hraw]
    constructor
    · intro hsame _ _ owned' howned'
      rw [howned] at howned'
      cases howned'
      cases hr : owned.rawCredentials with
      | none => exact .inl rfl
      | some raw => rw [hr] at hsame; exact .inr hsame
    · intro hkeeps
      rcases hkeeps htaken.1 htaken.2 owned howned with hr | hr
      · rw [hr, Option.none_or]
      · rw [hr, Option.or_self]
  · constructor
    · intro _ hhalts hpass
      rw [call.accepted, hhalts, hpass] at h
      exact absurd rfl h
    · intro _
      rw [call.extensions, if_neg h]

/-- The credentials are the initial ones in every state of a run exactly when every call of a
    modifying phase keeps them. -/
theorem Run.rawCredentials_iff (run : Run st₀ v st) (h₀ : st₀.trace = []) :
    ((∀ r ∈ st.trace, r.before.rawCredentials = st₀.extensions.rawCredentials) ∧
        st.extensions.rawCredentials = st₀.extensions.rawCredentials) ↔
      ∀ r ∈ st.trace, r.mode.canModify = true →
        r.KeepsCredentials st₀.extensions.rawCredentials := by
  induction run with
  | start => simp [h₀]
  | serial _ call ih =>
    rw [call.trace]
    simp only [List.forall_mem_append, List.forall_mem_singleton, call.canModify,
      call.before, forall_true_left]
    constructor
    · rintro ⟨⟨hold, hst⟩, hst'⟩
      refine ⟨ih.mp ⟨hold, hst⟩, ?_⟩
      rw [← hst] at hst' ⊢
      exact call.rawCredentials_iff.mp hst'
    · rintro ⟨hold, hlast⟩
      obtain ⟨hbefore, hst⟩ := ih.mpr hold
      refine ⟨⟨hbefore, hst⟩, ?_⟩
      rw [← hst] at hlast ⊢
      exact call.rawCredentials_iff.mpr hlast
  | readOnly _ calls ih =>
    rw [calls.trace, calls.extensions]
    simp only [List.forall_mem_append]
    constructor
    · rintro ⟨⟨hold, -⟩, hst⟩
      refine ⟨ih.mp ⟨hold, hst⟩, fun r hr hmode => ?_⟩
      rw [calls.canModify r hr] at hmode
      exact nomatch hmode
    · rintro ⟨hold, -⟩
      obtain ⟨hbefore, hst⟩ := ih.mpr hold
      refine ⟨⟨hbefore, fun r hr => ?_⟩, hst⟩
      rw [calls.before r hr]
      exact hst

/-- The credentials are the initial ones before every call and in the result exactly when every
    Sequential and Transform call whose extensions are merged returns none or the initial ones. -/
theorem execute_rawCredentials_iff (rt : Runtime η π σ) (config : ExecutorConfig)
    (entries : List (HookEntry η)) (payload : π) (extensions : Extensions)
    (contextTable : Option PluginContextTable) (disabled : Finset Uuid) (world : σ) :
    let ex := execute rt config entries payload extensions contextTable disabled world
    ((∀ r ∈ ex.state.trace, r.before.rawCredentials = extensions.rawCredentials) ∧
        ∃ final, ex.result.modifiedExtensions = some final ∧
          final.rawCredentials = extensions.rawCredentials) ↔
      ∀ r ∈ ex.state.trace, r.mode.canModify = true →
        r.KeepsCredentials extensions.rawCredentials := by
  intro ex
  obtain ⟨run, reports⟩ := execute_run rt config entries payload extensions contextTable disabled
    world
  have hiff := run.rawCredentials_iff rfl
  constructor
  · rintro ⟨hbefore, final, hfinal, hraw⟩
    have hsame : ex.state.extensions = final := Option.some.inj (reports.extensions.symm.trans hfinal)
    exact hiff.mp ⟨hbefore, by rw [← hsame] at hraw; exact hraw⟩
  · intro hkeeps
    obtain ⟨hbefore, hraw⟩ := hiff.mpr hkeeps
    exact ⟨hbefore, _, reports.extensions, hraw⟩

/-! ### A forged token -/

/-- Credentials with one inbound user token. -/
def inboundUser (token : String) : RawCredentialsExtension where
  inboundTokens := (∅ : HashMap TokenRole RawInboundToken).insert .user
    ⟨token, "Authorization", .jwt⟩

/-- A Sequential plugin without any capability returns its own inbound token, and the pipeline
    goes on with that token in place of the caller's. -/
theorem execute_replaces_inbound_token :
    let ex := execute .scripted {} [scriptedEntry "audit-tag" (π := Nat)
      { modifiedExtensions := some { rawCredentials := some (inboundUser "forged") } }] 0
      { rawCredentials := some (inboundUser "caller") } none ∅ ()
    ex.result.continueProcessing = true ∧
      (ex.result.modifiedExtensions.bind (·.rawCredentials)).map (·.inboundTokens.lookup .user) =
        some (some ⟨"forged", "Authorization", .jwt⟩) ∧
      ex.result.modifiedExtensions.bind (·.rawCredentials) ≠ some (inboundUser "caller") := by
  refine ⟨rfl, rfl, fun h => ?_⟩
  have htoken := congrArg (Option.map fun c => c.inboundTokens.lookup TokenRole.user) h
  exact absurd htoken (by decide)

end Cpex.Core
