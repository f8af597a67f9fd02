import Cpex.Spec.Restrictions

/-! # Laws of restrictions

The order of constraints does not matter to their fold. The folded constraint accepts a backend that
all constraints accept, if the lists of models have a matching pattern in common: they are
intersected as sets of patterns, not of models. And matching fails closed.
-/

namespace Cpex

namespace Core

/-! ## Order -/

variable {constraints constraints' : List CandidateConstraint}
  {folded : CandidateConstraintExtension}

/-- A fold over the same set of constraints, in any order and however often each, gives the same. -/
theorem foldlM_foldConstraint_of_same (hsame : ∀ c, c ∈ constraints ↔ c ∈ constraints')
    (hfold : constraints.foldlM foldConstraint unconstrained = .ok folded) :
    constraints'.foldlM foldConstraint unconstrained = .ok folded := by
  obtain ⟨hagree, hcollects⟩ := foldlM_foldConstraint_iff.mp hfold
  have hagree' : AgreeingLabels constraints' := by
    simpa only [AgreeingLabels, hsame] using hagree
  obtain ⟨folded', hfold'⟩ := exists_foldlM_foldConstraint hagree'
  rw [hfold', hcollects.eq (foldlM_foldConstraint_iff.mp hfold').2 hsame]

theorem foldCandidateConstraints_of_perm (h : constraints.Perm constraints')
    (hfold : foldCandidateConstraints constraints = .ok result) :
    foldCandidateConstraints constraints' = .ok result := by
  rw [foldCandidateConstraints_eq] at hfold ⊢
  obtain ⟨folded, hfolded, rfl⟩ := Except.ok_of_map hfold
  rw [foldlM_foldConstraint_of_same (fun _ => h.mem_iff) hfolded]
  rfl

/-- The order of the constraints does not matter: a fold fails in one order exactly if it fails in
another, and the results of two orders are equal. -/
theorem foldCandidateConstraints_perm {constraints constraints' : List CandidateConstraint}
    (h : constraints.Perm constraints') :
    (foldCandidateConstraints constraints).isOk = (foldCandidateConstraints constraints').isOk ∧
      ∀ result result', foldCandidateConstraints constraints = .ok result →
        foldCandidateConstraints constraints' = .ok result' → result = result' := by
  constructor
  · cases hfold : foldCandidateConstraints constraints with
    | ok result => rw [foldCandidateConstraints_of_perm h hfold]
    | error conflict =>
      cases hfold' : foldCandidateConstraints constraints' with
      | error conflict' => rfl
      | ok result' =>
        rw [foldCandidateConstraints_of_perm h.symm hfold'] at hfold
        exact nomatch hfold
  · intro result result' hfold hfold'
    rw [foldCandidateConstraints_of_perm h hfold] at hfold'
    exact Except.ok.inj hfold'

/-- Two restrictions on different fields, in either order. -/
theorem foldCandidateConstraints_perm_region_gpu :
    (foldCandidateConstraints regionAndGpu).isOk =
        (foldCandidateConstraints regionAndGpu.reverse).isOk ∧
      ∀ result result', foldCandidateConstraints regionAndGpu = .ok result →
        foldCandidateConstraints regionAndGpu.reverse = .ok result' → result = result' :=
  foldCandidateConstraints_perm (List.reverse_perm regionAndGpu).symm

/-- Stating some of the restrictions again changes nothing. -/
theorem foldCandidateConstraints_again (constraints : List CandidateConstraint)
    (again : CandidateConstraint → Bool) (result : Option CandidateConstraintExtension) :
    foldCandidateConstraints (constraints ++ constraints.filter again) = .ok result ↔
      foldCandidateConstraints constraints = .ok result := by
  have hsame : ∀ c, c ∈ constraints ++ constraints.filter again ↔ c ∈ constraints := by grind
  rw [foldCandidateConstraints_eq, foldCandidateConstraints_eq]
  constructor <;> intro hfold <;> obtain ⟨folded, hfolded, rfl⟩ := Except.ok_of_map hfold
  · rw [foldlM_foldConstraint_of_same hsame hfolded]
    rfl
  · rw [foldlM_foldConstraint_of_same (fun c => (hsame c).symm) hfolded]
    rfl

/-! ## Completeness -/

/-- Folding restrictions without a conflict is complete for a backend, so that the result accepts it
or is none if each `restrict` alone accepts it, exactly if one of them does not, or if the lists of
models share a pattern that the backend matches. -/
theorem foldCandidateConstraints_complete_iff {constraints : List CandidateConstraint}
    {result : Option CandidateConstraintExtension}
    (hfold : foldCandidateConstraints constraints = .ok result) (backend : BackendLabels)
    (tierRank : String → Option Nat) :
    ((∀ c ∈ constraints, (wireConstraint c).accepts backend tierRank = true) →
        ∀ folded, result = some folded → folded.accepts backend tierRank = true) ↔
      (∃ c ∈ constraints, (wireConstraint c).accepts backend tierRank = false) ∨
        SharesPattern constraints backend := by
  have hadmits : (∀ folded, result = some folded → folded.accepts backend tierRank = true) ↔
      admits constraints backend tierRank = true := by
    rw [admits, hfold]
    cases result <;> simp
  rw [foldCandidateConstraints_eq] at hfold
  obtain ⟨folded, hfolded, -⟩ := Except.ok_of_map hfold
  have hagree := (foldlM_foldConstraint_iff.mp hfolded).1
  rw [hadmits, admits_iff_each]
  by_cases heach : ∀ c ∈ constraints, (wireConstraint c).accepts backend tierRank = true
  · -- Every restriction accepts the backend, so it is up to the patterns.
    have hnone : ¬∃ c ∈ constraints, (wireConstraint c).accepts backend tierRank = false := by
      rintro ⟨c, hc, hrejects⟩
      exact Bool.false_ne_true (hrejects.symm.trans (heach c hc))
    simp only [hagree, hnone, false_or, true_and, forall_prop_of_true heach, and_iff_left heach]
  · refine iff_of_true (fun h => absurd h heach) (.inl ?_)
    simpa only [not_forall, exists_prop, Bool.not_eq_true] using heach

/-- A `restrict` that only lists models. -/
def allowingModels (patterns : List String) : CandidateConstraint where
  allowModels := some patterns

/-- A backend that serves a model. -/
def serving (model : String) : BackendLabels := fun k => [("model", model)].lookup k

/-- A folded constraint that only lists models. -/
def onlyModels (patterns : List String) : CandidateConstraintExtension where
  allowModels := some patterns

theorem fold_allowingModels (patterns patterns' : List String) :
    foldCandidateConstraints [allowingModels patterns, allowingModels patterns'] =
      .ok (some (onlyModels ((patterns.toFinset.sort (· ≤ ·)).filter (· ∈ patterns')))) := by
  simp [foldCandidateConstraints, foldConstraint, allowingModels, onlyModels, intersectInto,
    insertAll, strictest, CandidateConstraintExtension.isEmpty, bind, Except.bind, pure,
    Except.pure]

theorem accepts_allowingModels {tierRank : String → Option Nat} (hpat : pat ∈ patterns)
    (hmatch : globMatch pat model = true) :
    (wireConstraint (allowingModels patterns)).accepts (serving model) tierRank = true := by
  have hlisted : allowListed globMatch (some patterns) (some model) = true :=
    allowListed_iff.mpr fun entries hentries =>
      ⟨model, rfl, pat, Option.some.inj hentries ▸ hpat, hmatch⟩
  rw [CandidateConstraintExtension.accepts_iff]
  exact ⟨hlisted, fun _ _ _ h => absurd h List.not_mem_nil, rfl, rfl, rfl,
    fun _ h => absurd h List.not_mem_nil⟩

theorem globMatch_star_m : globMatch "*" "m" = true := by
  have hstar : ("*" : String).toUTF8.data.toList = [42] := by decide
  have hm : ("m" : String).toUTF8.data.toList = [109] := by decide
  rw [globMatch, hstar, hm, GlobCursor.start]
  simp [globLoop, globStar, GlobCursor.meetStar, GlobCursor.backtrack]

theorem globMatch_m_m : globMatch "m" "m" = true := by
  have hm : ("m" : String).toUTF8.data.toList = [109] := by decide
  rw [globMatch, hm, GlobCursor.start]
  simp [globLoop, globStar, GlobCursor.advance]

/-- With a pattern in common, the fold accepts the model that both accept. -/
theorem foldCandidateConstraints_complete_shared :
    (onlyModels ["*"]).accepts (serving "m") (fun _ => none) = true := by
  have hfold := fold_allowingModels ["*"] ["m", "*"]
  have hlist : ((["*"] : List String).toFinset.sort (· ≤ ·)).filter (· ∈ ["m", "*"]) = ["*"] := by
    simp
  rw [hlist] at hfold
  refine (foldCandidateConstraints_complete_iff hfold (serving "m") (fun _ => none)).mpr
    (.inr fun _ => ⟨"m", "*", rfl, globMatch_star_m, ?_⟩) ?_ _ rfl
  · intro c hc entries hentries
    rcases List.mem_pair.mp hc with rfl | rfl <;> cases hentries <;> simp
  · intro c hc
    rcases List.mem_pair.mp hc with rfl | rfl <;>
      exact accepts_allowingModels (by simp) globMatch_star_m

/-- A pattern for all models and one of them: the fold lists nothing, and rejects the model. -/
theorem foldCandidateConstraints_rejects_common_model :
    (∀ c ∈ [allowingModels ["*"], allowingModels ["m"]],
      (wireConstraint c).accepts (serving "m") (fun _ => none) = true) ∧
    foldCandidateConstraints [allowingModels ["*"], allowingModels ["m"]] =
      .ok (some (onlyModels [])) ∧
    (onlyModels []).accepts (serving "m") (fun _ => none) = false := by
  refine ⟨?_, ?_, by decide⟩
  · intro c hc
    rcases List.mem_pair.mp hc with rfl | rfl
    · exact accepts_allowingModels (List.mem_singleton_self _) globMatch_star_m
    · exact accepts_allowingModels (List.mem_singleton_self _) globMatch_m_m
  · rw [fold_allowingModels]
    simp

end Core

/-! ## Failing closed -/

namespace CandidateConstraintExtension

/-- The labels a backend has to have: those of the attributes with an allow-list or a ceiling, and
the custom ones. A deny-list asks for no label. -/
def requiredLabels (self : CandidateConstraintExtension) : List String :=
  (if self.allowModels.isSome then [labelModel] else []) ++
  (if self.allowRegions.isSome then [labelRegion] else []) ++
  (if self.allowSites.isSome then [labelSite] else []) ++
  (if self.maxCostTiers.isEmpty then [] else [labelCostTier]) ++
  self.custom.map (·.1)

/-- One field of the constraint is made stricter. -/
inductive Stricter (self : CandidateConstraintExtension) : CandidateConstraintExtension → Prop where
  | allowModels (allow : List String) (h : ∀ entries, self.allowModels = some entries →
      allow ⊆ entries) : Stricter self { self with allowModels := some allow }
  | denyModels (pat : String) :
      Stricter self { self with denyModels := Core.insertAll self.denyModels [pat] }
  | allowRegions (allow : List String) (h : ∀ entries, self.allowRegions = some entries →
      allow ⊆ entries) : Stricter self { self with allowRegions := some allow }
  | allowSites (allow : List String) (h : ∀ entries, self.allowSites = some entries →
      allow ⊆ entries) : Stricter self { self with allowSites := some allow }
  | maxCostTiers (ceiling : String) :
      Stricter self { self with maxCostTiers := Core.insertAll self.maxCostTiers [ceiling] }
  | custom (k v : String) (h : self.custom.lookup k = none) :
      Stricter self { self with custom := self.custom.insertKey k v }

variable {self strict : CandidateConstraintExtension} {backend : BackendLabels}
  {tierRank : String → Option Nat}

theorem Stricter.accepts (h : self.Stricter strict)
    (hstrict : strict.accepts backend tierRank = true) : self.accepts backend tierRank = true := by
  -- A label on a shorter allow-list is on the longer one.
  have hnarrow {test : String → String → Bool} {wide : Option (List String)} {allow : List String}
      {label : Option String} (hsub : ∀ entries, wide = some entries → allow ⊆ entries)
      (hallow : allowListed test (some allow) label = true) :
      allowListed test wide label = true := by
    obtain ⟨value, hvalue, entry, hentry, htest⟩ := allowListed_iff.mp hallow allow rfl
    exact allowListed_iff.mpr fun entries hentries =>
      ⟨value, hvalue, entry, hsub entries hentries hentry, htest⟩
  obtain ⟨hmodels, hdeny, hregions, hsites, htiers, hcustom⟩ := accepts_iff.mp hstrict
  rw [accepts_iff]
  cases h with
  | allowModels allow h => exact ⟨hnarrow h hmodels, hdeny, hregions, hsites, htiers, hcustom⟩
  | denyModels pat =>
    refine ⟨hmodels, fun m hm pat' hpat' => ?_, hregions, hsites, htiers, hcustom⟩
    exact hdeny m hm pat' (Core.mem_insertAll.mpr (.inl hpat'))
  | allowRegions allow h => exact ⟨hmodels, hdeny, hnarrow h hregions, hsites, htiers, hcustom⟩
  | allowSites allow h => exact ⟨hmodels, hdeny, hregions, hnarrow h hsites, htiers, hcustom⟩
  | maxCostTiers ceiling =>
    refine ⟨hmodels, hdeny, hregions, hsites, withinCeilings_iff.mpr fun c hc => ?_, hcustom⟩
    exact withinCeilings_iff.mp htiers c (Core.mem_insertAll.mpr (.inl hc))
  | custom k v h =>
    refine ⟨hmodels, hdeny, hregions, hsites, htiers, fun label hlabel => ?_⟩
    exact hcustom label ((List.mem_insertKey_of_lookup_eq_none h).mpr (.inr hlabel))

/-- An accepted backend has the labels that are required. -/
theorem isSome_of_accepts (h : self.accepts backend tierRank = true)
    (hkey : key ∈ self.requiredLabels) : (backend key).isSome = true := by
  have hlisted {test : String → String → Bool} {allow : Option (List String)} {label : String}
      (hallow : allowListed test allow (backend label) = true)
      (hmem : key ∈ if allow.isSome then [label] else []) : (backend key).isSome = true := by
    cases allow with
    | none => exact nomatch hmem
    | some entries =>
      obtain ⟨value, hvalue, -⟩ := allowListed_iff.mp hallow entries rfl
      rw [List.mem_singleton.mp hmem, hvalue]
      rfl
  obtain ⟨hmodels, -, hregions, hsites, htiers, hcustom⟩ := accepts_iff.mp h
  simp only [requiredLabels, List.mem_append, or_assoc] at hkey
  rcases hkey with hkey | hkey | hkey | hkey | hkey
  · exact hlisted hmodels hkey
  · exact hlisted hregions hkey
  · exact hlisted hsites hkey
  · cases hceilings : self.maxCostTiers with
    | nil => simp [hceilings] at hkey
    | cons ceiling rest =>
      rw [hceilings] at hkey htiers
      obtain ⟨rank, bound, hrank, -⟩ := withinCeilings_iff.mp htiers ceiling List.mem_cons_self
      obtain ⟨tier, htier, -⟩ := Option.bind_eq_some_iff.mp hrank
      rw [List.mem_singleton.mp hkey, htier]
      rfl
  · obtain ⟨label, hlabel, rfl⟩ := List.mem_map.mp hkey
    rw [hcustom label hlabel]
    rfl

/-- Matching a backend fails closed: a backend without a label that an allow-list, a ceiling or a
custom label asks for is rejected, and no field made stricter turns a rejection into an acceptance.
A deny-list asks for no label: it does not matter for a backend without a model. -/
theorem accepts_failClosed (self : CandidateConstraintExtension) (backend : BackendLabels)
    (tierRank : String → Option Nat) :
    (∀ key ∈ self.requiredLabels, backend key = none →
      self.accepts backend tierRank = false) ∧
    (backend labelModel = none → ∀ deny,
      { self with denyModels := deny }.accepts backend tierRank = self.accepts backend tierRank) ∧
    (∀ strict, self.Stricter strict → self.accepts backend tierRank = false →
      strict.accepts backend tierRank = false) := by
  refine ⟨fun key hkey hnone => ?_, fun hnone deny => ?_, fun strict hstrict hrejects => ?_⟩
  · rw [← Bool.not_eq_true]
    intro haccepts
    have hsome := isSome_of_accepts haccepts hkey
    rw [hnone] at hsome
    exact nomatch hsome
  · simp only [accepts, hnone, Option.any_none]
  · rw [← Bool.not_eq_true] at hrejects ⊢
    exact fun haccepts => hrejects (hstrict.accepts haccepts)

/-- A constraint on the region, and a backend without one. -/
theorem accepts_failClosed_region :
    CandidateConstraintExtension.accepts { allowRegions := some ["eu"] } (Core.serving "m")
      (fun _ => none) = false :=
  (accepts_failClosed { allowRegions := some ["eu"] } (Core.serving "m") (fun _ => none)).1
    labelRegion (by decide) (by decide)

/-- A backend without a model passes a deny-list of models. -/
theorem accepts_unlabelled_under_deny_list :
    let backend : BackendLabels := fun k => [("region", "eu")].lookup k
    backend labelModel = none ∧
      CandidateConstraintExtension.accepts { denyModels := ["openai/*"] } backend
        (fun _ => none) = true := by
  decide

end CandidateConstraintExtension

end Cpex
