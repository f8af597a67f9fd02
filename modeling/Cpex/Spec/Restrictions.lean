import Cpex.ForStd.Except
import Cpex.Native.ConstraintFold
import Cpex.Native.Routing

/-! # Restrictions only take backends away

The `restrict` effects of an evaluation are folded into one constraint, field by field: allow-lists
are intersected, deny-lists and ceilings collected, required labels put together. The fold fails
exactly if two constraints require one label to differ. If it succeeds, each field of the result is
determined by the set of the constraints, and it accepts a backend exactly if each constraint does
and their lists of models share a pattern. So a fold over more constraints accepts no backend that
one over fewer rejects.
-/

namespace Cpex

variable {backend : BackendLabels} {tierRank : String → Option Nat}

/-! ## What each field asks of a backend -/

theorem allowListed_iff {test : String → String → Bool} {allow : Option (List String)}
    {label : Option String} :
    allowListed test allow label = true ↔
      ∀ entries, allow = some entries →
        ∃ value, label = some value ∧ ∃ entry ∈ entries, test entry value = true := by
  cases allow with
  | none => simp [allowListed]
  | some entries => simp [allowListed, Option.any_eq_true]

theorem withinCeilings_iff {ceilings : List String} {tier : Option String} :
    withinCeilings tierRank ceilings tier = true ↔
      ∀ ceiling ∈ ceilings, ∃ rank bound, tier.bind tierRank = some rank ∧
        tierRank ceiling = some bound ∧ rank ≤ bound := by
  cases ceilings with
  | nil => simp [withinCeilings]
  | cons first rest =>
    cases hrank : tier.bind tierRank with
    | none => simpa [withinCeilings, hrank] using ⟨first, fun h => absurd rfl h⟩
    | some rank => simp [withinCeilings, hrank, Option.any_eq_true]

namespace CandidateConstraintExtension

variable {self other : CandidateConstraintExtension}

theorem accepts_iff :
    self.accepts backend tierRank = true ↔
      allowListed globMatch self.allowModels (backend labelModel) = true ∧
      (∀ m, backend labelModel = some m → ∀ pat ∈ self.denyModels, globMatch pat m = false) ∧
      allowListed (· == ·) self.allowRegions (backend labelRegion) = true ∧
      allowListed (· == ·) self.allowSites (backend labelSite) = true ∧
      withinCeilings tierRank self.maxCostTiers (backend labelCostTier) = true ∧
      ∀ label ∈ self.custom, backend label.1 = some label.2 := by
  have hdeny : (!(backend labelModel).any fun m => self.denyModels.any (globMatch · m)) = true ↔
      ∀ m, backend labelModel = some m → ∀ pat ∈ self.denyModels, globMatch pat m = false := by
    cases backend labelModel with
    | none => simp
    | some m => simp
  simp only [accepts, Bool.and_eq_true, hdeny, List.all_eq_true, beq_iff_eq, and_assoc]

/-- A constraint without fields set accepts every backend. -/
theorem accepts_of_isEmpty (h : self.isEmpty = true) : self.accepts backend tierRank = true := by
  simp only [isEmpty, Bool.and_eq_true, Option.isNone_iff_eq_none, List.isEmpty_iff] at h
  simp [accepts_iff, allowListed, withinCeilings, *]

end CandidateConstraintExtension

namespace Core

theorem mem_insertAll {members new : List String} {x : String} :
    x ∈ insertAll members new ↔ x ∈ members ∨ x ∈ new := by
  simp [insertAll]

/-! ## Sorted sets -/

section

variable {α : Type} {key : α → String} {members members' : List α} {p q : α → Prop}

/-- The list is sorted by its keys, and its members are those with the property. -/
structure MembersAre (key : α → String) (members : List α) (p : α → Prop) : Prop where
  sorted : members.Pairwise fun a b => key a < key b
  mem_iff : ∀ a, a ∈ members ↔ p a

namespace MembersAre

theorem congr (h : MembersAre key members p) (hpq : ∀ a, p a ↔ q a) : MembersAre key members q :=
  ⟨h.sorted, fun a => (h.mem_iff a).trans (hpq a)⟩

/-- The members determine the list. -/
theorem eq (h : MembersAre key members p) (h' : MembersAre key members' p) :
    members = members' := by
  exact h.sorted.eq_of_mem_iff h'.sorted fun a => (h.mem_iff a).trans (h'.mem_iff a).symm

end MembersAre

end

theorem membersAre_sort (s : Finset String) :
    MembersAre id (s.sort (· ≤ ·)) (· ∈ s) :=
  ⟨(Finset.sortedLT_sort s).pairwise, fun _ => Finset.mem_sort _⟩

theorem membersAre_insertAll {new : List String} {p : String → Prop} (h : MembersAre id members p) :
    MembersAre id (insertAll members new) fun x => p x ∨ x ∈ new :=
  (membersAre_sort _).congr fun x => by simp [h.mem_iff]

/-! ## Allow-lists -/

/-- The accumulator of an allow-list: not set while no constraint has one, and then what all of
them have. -/
def Intersected (field : CandidateConstraint → Option (List String))
    (seen : List CandidateConstraint) : Option (List String) → Prop
  | none => ∀ c ∈ seen, field c = none
  | some members => (∃ c ∈ seen, field c ≠ none) ∧
      MembersAre id members fun x => ∀ c ∈ seen, ∀ entries, field c = some entries → x ∈ entries

namespace Intersected

variable {field : CandidateConstraint → Option (List String)}
  {seen seen' : List CandidateConstraint} {acc acc' : Option (List String)}

theorem intersectInto (h : Intersected field seen acc) (c : CandidateConstraint) :
    Intersected field (seen ++ [c]) (intersectInto acc (field c)) := by
  cases hc : field c with
  | none =>
    -- A constraint without a list changes nothing.
    cases acc with
    | none =>
      intro c' hc'
      rcases List.mem_append.mp hc' with hc' | hc'
      · exact h c' hc'
      · rw [List.mem_singleton.mp hc', hc]
    | some members =>
      obtain ⟨⟨first, hfirst, hset⟩, hmembers⟩ := h
      refine ⟨⟨first, List.mem_append_left _ hfirst, hset⟩, hmembers.congr fun x => ?_⟩
      simp [or_imp, forall_and, hc]
  | some incoming =>
    have hset : ∃ c' ∈ seen ++ [c], field c' ≠ none :=
      ⟨c, List.mem_append_right _ (List.mem_singleton_self c), by simp [hc]⟩
    cases acc with
    | none =>
      -- The first list that there is becomes the accumulator, as a set.
      refine ⟨hset, (membersAre_sort _).congr fun x => ?_⟩
      have hunset : ∀ c' ∈ seen, ∀ entries, field c' = some entries → x ∈ entries := by
        intro c' hc' entries hentries
        rw [h c' hc'] at hentries
        exact nomatch hentries
      simp only [List.mem_toFinset, List.forall_mem_append, List.forall_mem_singleton, hc,
        Option.some.injEq, forall_eq']
      exact ⟨fun hx => ⟨hunset, hx⟩, fun hx => hx.2⟩
    | some members =>
      obtain ⟨-, hmembers⟩ := h
      refine ⟨hset, hmembers.sorted.filter _, fun x => ?_⟩
      simp only [List.mem_filter, decide_eq_true_eq, List.forall_mem_append,
        List.forall_mem_singleton, hc, Option.some.injEq, forall_eq']
      exact and_congr_left fun _ => hmembers.mem_iff x

/-- The set of the constraints determines the accumulator. -/
theorem eq (h : Intersected field seen acc) (h' : Intersected field seen' acc')
    (hsame : ∀ c, c ∈ seen ↔ c ∈ seen') : acc = acc' := by
  cases acc with
  | none =>
    cases acc' with
    | none => rfl
    | some members' =>
      obtain ⟨⟨c, hc, hset⟩, -⟩ := h'
      exact absurd (h c ((hsame c).mpr hc)) hset
  | some members =>
    obtain ⟨⟨c, hc, hset⟩, hmembers⟩ := h
    cases acc' with
    | none => exact absurd (h' c ((hsame c).mp hc)) hset
    | some members' =>
      exact congrArg some (hmembers.eq (h'.2.congr fun x => by simp only [hsame]))

end Intersected

/-! ## Labels -/

/-- No two labels with the property differ in their values only. -/
def Agreeing (p : String × String → Prop) : Prop := ∀ k v v', p (k, v) → p (k, v') → v = v'

theorem Agreeing.mono {p q : String × String → Prop} (h : Agreeing q) (hpq : ∀ l, p l → q l) :
    Agreeing p :=
  fun k v v' hv hv' => h k v v' (hpq _ hv) (hpq _ hv')

section

variable {custom custom' : List (String × String)} {p : String × String → Prop}
  (h : MembersAre Prod.fst custom p)

include h

theorem MembersAre.lookup_eq_some_iff {k v : String} : custom.lookup k = some v ↔ p (k, v) := by
  refine ⟨fun hv => (h.mem_iff _).mp (List.mem_of_lookup_eq_some hv), fun hp => ?_⟩
  have hkeys : custom.SortedKeys := List.pairwise_map.mpr h.sorted
  exact List.lookup_eq_some_of_mem hkeys.nodup ((h.mem_iff _).mpr hp)

theorem MembersAre.agreeing : Agreeing p := by
  intro k v v' hv hv'
  have hlookup := h.lookup_eq_some_iff.mpr hv
  rw [h.lookup_eq_some_iff.mpr hv'] at hlookup
  exact (Option.some.inj hlookup).symm

theorem membersAre_insertCustom (hstep : insertCustom custom label = .ok custom') :
    MembersAre Prod.fst custom' fun l => p l ∨ l = label := by
  unfold insertCustom at hstep
  split at hstep
  · rename_i existing hexisting
    split at hstep
    · cases hstep
    · -- The label is there already.
      rename_i hsame
      cases hstep
      rw [not_ne_iff.mp hsame] at hexisting
      have hlabel : p label := h.lookup_eq_some_iff.mp hexisting
      exact h.congr fun l => ⟨.inl, fun hl => hl.elim id fun hl => hl ▸ hlabel⟩
  · rename_i hnone
    cases hstep
    refine ⟨?_, fun l => ?_⟩
    · exact List.pairwise_map.mp
        (List.pairwise_insertKey label.1 label.2 (List.pairwise_map.mpr h.sorted))
    · rw [List.mem_insertKey_of_lookup_eq_none hnone, h.mem_iff, or_comm]

theorem exists_insertCustom (hagree : Agreeing fun l => p l ∨ l = label) :
    ∃ custom', insertCustom custom label = .ok custom' := by
  cases hlookup : custom.lookup label.1 with
  | none => exact ⟨_, by rw [insertCustom, hlookup]⟩
  | some existing =>
    have hexisting : p (label.1, existing) := h.lookup_eq_some_iff.mp hlookup
    have hsame : existing = label.2 := hagree label.1 existing label.2 (.inl hexisting) (.inr rfl)
    exact ⟨custom, by rw [insertCustom, hlookup]; exact if_neg (not_ne_iff.mpr hsame)⟩

end

section

variable {custom : List (String × String)} {p : String × String → Prop}
  (h : MembersAre Prod.fst custom p) {labels : List (String × String)}

include h

theorem membersAre_foldlM_insertCustom (hloop : labels.foldlM insertCustom custom = .ok custom') :
    MembersAre Prod.fst custom' fun l => p l ∨ l ∈ labels :=
  List.foldlM_ok_of_step (p := fun seen custom => MembersAre Prod.fst custom fun l => p l ∨ l ∈ seen)
    (h.congr fun l => by simp)
    (fun h hstep => (membersAre_insertCustom h hstep).congr fun l => by simp [or_assoc]) hloop

/-- The loop over labels that agree, with each other and with those before, goes through. -/
theorem exists_foldlM_insertCustom (hagree : Agreeing fun l => p l ∨ l ∈ labels) :
    ∃ custom', labels.foldlM insertCustom custom = .ok custom' := by
  refine List.exists_foldlM_ok (q := fun labels => Agreeing fun l => p l ∨ l ∈ labels)
    (p := fun seen custom => MembersAre Prod.fst custom fun l => p l ∨ l ∈ seen)
    (h.congr fun l => by simp)
    (fun h hstep => (membersAre_insertCustom h hstep).congr fun l => by simp [or_assoc])
    (fun hagree => hagree.mono fun l hl => ?_) (fun hagree h => ?_) hagree
  · exact hl.imp_right (List.mem_append_left _)
  · exact exists_insertCustom h (hagree.mono fun l => by simp [or_assoc])

end

/-! ## The fold -/

/-- The constraint the fold starts from. -/
def unconstrained : CandidateConstraintExtension := { onEmpty := .fallback }

/-- What a step of the fold that succeeds gives. -/
theorem foldConstraint_ok {tight : CandidateConstraintExtension}
    (h : foldConstraint tight c = .ok tight') :
    ∃ custom, c.custom.foldlM insertCustom tight.custom = .ok custom ∧
      tight' = {
        allowModels := intersectInto tight.allowModels c.allowModels
        denyModels := insertAll tight.denyModels c.denyModels
        allowRegions := intersectInto tight.allowRegions c.allowRegions
        allowSites := intersectInto tight.allowSites c.allowSites
        maxCostTiers := insertAll tight.maxCostTiers c.maxCostTier.toList
        custom
        onEmpty := strictest tight.onEmpty c.onEmpty } := by
  obtain ⟨custom, hcustom, h⟩ := Except.ok_of_bind h
  cases h
  exact ⟨custom, hcustom, rfl⟩

/-- The accumulator of the fold, after the constraints it has seen. -/
structure Collects (seen : List CandidateConstraint) (acc : CandidateConstraintExtension) :
    Prop where
  allowModels : Intersected (·.allowModels) seen acc.allowModels
  denyModels : MembersAre id acc.denyModels fun x => ∃ c ∈ seen, x ∈ c.denyModels
  allowRegions : Intersected (·.allowRegions) seen acc.allowRegions
  allowSites : Intersected (·.allowSites) seen acc.allowSites
  maxCostTiers : MembersAre id acc.maxCostTiers fun x => ∃ c ∈ seen, c.maxCostTier = some x
  custom : MembersAre Prod.fst acc.custom fun label => ∃ c ∈ seen, label ∈ c.custom
  onEmpty : acc.onEmpty = .deny ↔ ∃ c ∈ seen, c.onEmpty = .deny

/-- The labels that the constraints require agree. -/
def AgreeingLabels (constraints : List CandidateConstraint) : Prop :=
  Agreeing fun label => ∃ c ∈ constraints, label ∈ c.custom

theorem collects_unconstrained : Collects [] unconstrained where
  allowModels := nofun
  denyModels := ⟨.nil, by simp [unconstrained]⟩
  allowRegions := nofun
  allowSites := nofun
  maxCostTiers := ⟨.nil, by simp [unconstrained]⟩
  custom := ⟨.nil, by simp [unconstrained]⟩
  onEmpty := by simp [unconstrained]

theorem exists_mem_append_singleton {α : Type} {l : List α} {a : α} {p : α → Prop} :
    (∃ x ∈ l ++ [a], p x) ↔ (∃ x ∈ l, p x) ∨ p a := by
  simp [or_and_right, exists_or]

namespace Collects

variable {seen seen' : List CandidateConstraint} {acc acc' : CandidateConstraintExtension}

theorem foldConstraint (h : Collects seen acc) (hstep : foldConstraint acc c = .ok acc') :
    Collects (seen ++ [c]) acc' := by
  obtain ⟨custom, hcustom, rfl⟩ := foldConstraint_ok hstep
  exact {
    allowModels := h.allowModels.intersectInto c
    denyModels := (membersAre_insertAll h.denyModels).congr fun _ =>
      exists_mem_append_singleton.symm
    allowRegions := h.allowRegions.intersectInto c
    allowSites := h.allowSites.intersectInto c
    maxCostTiers := (membersAre_insertAll h.maxCostTiers).congr fun _ => by
      rw [Option.mem_toList, exists_mem_append_singleton]
    custom := (membersAre_foldlM_insertCustom h.custom hcustom).congr fun _ =>
      exists_mem_append_singleton.symm
    onEmpty := by
      rw [exists_mem_append_singleton, ← h.onEmpty]
      cases acc.onEmpty <;> cases c.onEmpty <;> simp [strictest] }

/-- The set of the constraints determines the result. -/
theorem eq (h : Collects seen acc) (h' : Collects seen' acc')
    (hsame : ∀ c, c ∈ seen ↔ c ∈ seen') : acc = acc' := by
  have hempty : acc.onEmpty = acc'.onEmpty := by
    have hiff : acc.onEmpty = .deny ↔ acc'.onEmpty = .deny := by
      rw [h.onEmpty, h'.onEmpty]
      simp only [hsame]
    cases hacc : acc.onEmpty <;> cases hacc' : acc'.onEmpty <;> simp_all
  have hdeny := h.denyModels.eq (h'.denyModels.congr fun x => by simp only [hsame])
  have htiers := h.maxCostTiers.eq (h'.maxCostTiers.congr fun x => by simp only [hsame])
  have hcustom := h.custom.eq (h'.custom.congr fun x => by simp only [hsame])
  have hmodels := h.allowModels.eq h'.allowModels hsame
  have hregions := h.allowRegions.eq h'.allowRegions hsame
  have hsites := h.allowSites.eq h'.allowSites hsame
  cases acc'
  subst hempty hdeny htiers hcustom hmodels hregions hsites
  rfl

end Collects

variable {constraints : List CandidateConstraint} {folded : CandidateConstraintExtension}

theorem exists_foldlM_foldConstraint (h : AgreeingLabels constraints) :
    ∃ folded, constraints.foldlM foldConstraint unconstrained = .ok folded := by
  refine List.exists_foldlM_ok (q := AgreeingLabels) collects_unconstrained
    Collects.foldConstraint (fun hagree => ?_) (fun {seen c acc} hagree hseen => ?_) h
  · exact hagree.mono fun label ⟨c, hc, hlabel⟩ => ⟨c, List.mem_append_left _ hc, hlabel⟩
  · -- Labels are all that a step can fail on.
    obtain ⟨custom, hcustom⟩ := exists_foldlM_insertCustom hseen.custom
      (hagree.mono fun label => exists_mem_append_singleton.mpr)
    exact ⟨_, by rw [foldConstraint, hcustom]; rfl⟩

/-- The fold succeeds exactly if the labels agree, and then collects the constraints. -/
theorem foldlM_foldConstraint_iff :
    constraints.foldlM foldConstraint unconstrained = .ok folded ↔
      AgreeingLabels constraints ∧ Collects constraints folded := by
  constructor
  · intro hfold
    have hcollects : Collects constraints folded :=
      List.foldlM_ok_of_step collects_unconstrained Collects.foldConstraint hfold
    exact ⟨hcollects.custom.agreeing, hcollects⟩
  · rintro ⟨hagree, hcollects⟩
    obtain ⟨folded', hfold⟩ := exists_foldlM_foldConstraint hagree
    have hcollects' : Collects constraints folded' :=
      List.foldlM_ok_of_step collects_unconstrained Collects.foldConstraint hfold
    rw [hfold, hcollects'.eq hcollects fun _ => Iff.rfl]

theorem foldCandidateConstraints_eq : foldCandidateConstraints constraints =
    (constraints.foldlM foldConstraint unconstrained).map fun folded =>
      if folded.isEmpty then none else some folded := by
  cases constraints with
  | nil => rfl
  | cons c rest =>
    change ((c :: rest).foldlM foldConstraint unconstrained >>= _) = _
    cases (c :: rest).foldlM foldConstraint unconstrained <;> rfl

/-- What becomes of a backend under a list of constraints: a conflict admits none, no constraint
admits all. -/
def admits (constraints : List CandidateConstraint) (backend : BackendLabels)
    (tierRank : String → Option Nat) : Bool :=
  match foldCandidateConstraints constraints with
  | .error _ => false
  | .ok none => true
  | .ok (some folded) => folded.accepts backend tierRank

theorem admits_iff :
    admits constraints backend tierRank = true ↔
      ∃ folded, constraints.foldlM foldConstraint unconstrained = .ok folded ∧
        folded.accepts backend tierRank = true := by
  rw [admits, foldCandidateConstraints_eq]
  cases constraints.foldlM foldConstraint unconstrained with
  | error conflict => simp [Except.map]
  | ok folded =>
    simp only [Except.map, Except.ok.injEq, exists_eq_left']
    by_cases hempty : folded.isEmpty = true
    · rw [if_pos hempty]
      exact iff_of_true rfl (CandidateConstraintExtension.accepts_of_isEmpty hempty)
    · rw [if_neg hempty]

/-! ## What the fold accepts -/

/-- The wire constraint with the fields of one `restrict`. -/
def wireConstraint (c : CandidateConstraint) : CandidateConstraintExtension where
  allowModels := c.allowModels
  denyModels := c.denyModels
  allowRegions := c.allowRegions
  allowSites := c.allowSites
  maxCostTiers := c.maxCostTier.toList
  custom := c.custom
  onEmpty := c.onEmpty

variable {backend : BackendLabels} {tierRank : String → Option Nat}

/-- If any constraint lists models, the backend's model matches a pattern that stands in each of
the lists. -/
def SharesPattern (constraints : List CandidateConstraint) (backend : BackendLabels) : Prop :=
  (∃ c ∈ constraints, c.allowModels ≠ none) →
    ∃ model pat, backend labelModel = some model ∧ globMatch pat model = true ∧
      ∀ c ∈ constraints, ∀ entries, c.allowModels = some entries → pat ∈ entries

theorem Collects.allowListed_models_iff (h : Collects constraints folded) :
    allowListed globMatch folded.allowModels (backend labelModel) = true ↔
      SharesPattern constraints backend := by
  have hmodels := h.allowModels
  cases hallow : folded.allowModels with
  | none =>
    rw [hallow] at hmodels
    refine iff_of_true rfl fun ⟨c, hc, hset⟩ => absurd (hmodels c hc) hset
  | some members =>
    rw [hallow] at hmodels
    obtain ⟨hset, hmembers⟩ := hmodels
    rw [allowListed_iff]
    constructor
    · intro h _
      obtain ⟨model, hmodel, pat, hpat, hmatch⟩ := h members rfl
      exact ⟨model, pat, hmodel, hmatch, (hmembers.mem_iff pat).mp hpat⟩
    · intro h entries hentries
      cases hentries
      obtain ⟨model, pat, hmodel, hmatch, hpat⟩ := h hset
      exact ⟨model, hmodel, pat, (hmembers.mem_iff pat).mpr hpat, hmatch⟩

/-- Lists that are compared by equality are intersected exactly. -/
theorem Intersected.allowListed_eq (h : Intersected field constraints acc)
    (heach : ∀ c ∈ constraints, allowListed (· == ·) (field c) label = true) :
    allowListed (· == ·) acc label = true := by
  cases acc with
  | none => rfl
  | some members =>
    obtain ⟨⟨c, hc, hset⟩, hmembers⟩ := h
    obtain ⟨entries, hentries⟩ := Option.ne_none_iff_exists'.mp hset
    -- The label is there, and it is the entry of every list that matches.
    obtain ⟨value, hvalue, -, -, -⟩ := allowListed_iff.mp (heach c hc) entries hentries
    rw [allowListed_iff]
    intro all hall
    cases hall
    refine ⟨value, hvalue, value, (hmembers.mem_iff value).mpr ?_, beq_self_eq_true value⟩
    intro c' hc' entries' hentries'
    obtain ⟨value', hvalue', entry, hentry, hmatch⟩ :=
      allowListed_iff.mp (heach c' hc') entries' hentries'
    rw [hvalue] at hvalue'
    cases hvalue'
    rwa [← beq_iff_eq.mp hmatch]

/-- What is in the intersection is in each list. -/
theorem Intersected.allowListed (h : Intersected field constraints acc)
    {test : String → String → Bool} (hacc : allowListed test acc label = true)
    (hc : c ∈ constraints) :
    Cpex.allowListed test (field c) label = true := by
  rw [allowListed_iff] at hacc ⊢
  intro entries hentries
  cases acc with
  | none => exact nomatch hentries.symm.trans (h c hc)
  | some members =>
    obtain ⟨value, hvalue, entry, hentry, htest⟩ := hacc members rfl
    exact ⟨value, hvalue, entry, (h.2.mem_iff entry).mp hentry c hc entries hentries, htest⟩

/-- The fold accepts what all constraints accept, if the lists of models share a pattern. -/
theorem Collects.accepts_iff (h : Collects constraints folded) :
    folded.accepts backend tierRank = true ↔ SharesPattern constraints backend ∧
      ∀ c ∈ constraints, (wireConstraint c).accepts backend tierRank = true := by
  rw [← h.allowListed_models_iff, CandidateConstraintExtension.accepts_iff]
  simp only [CandidateConstraintExtension.accepts_iff, withinCeilings_iff]
  constructor
  · rintro ⟨hmodels, hdeny, hregions, hsites, htiers, hcustom⟩
    refine ⟨hmodels, fun c hc => ⟨h.allowModels.allowListed hmodels hc, fun m hm pat hpat => ?_,
      h.allowRegions.allowListed hregions hc, h.allowSites.allowListed hsites hc,
      fun ceiling hceiling => ?_, fun label hlabel => ?_⟩⟩
    · exact hdeny m hm pat ((h.denyModels.mem_iff pat).mpr ⟨c, hc, hpat⟩)
    · exact htiers ceiling
        ((h.maxCostTiers.mem_iff ceiling).mpr ⟨c, hc, Option.mem_toList.mp hceiling⟩)
    · exact hcustom label ((h.custom.mem_iff label).mpr ⟨c, hc, hlabel⟩)
  · rintro ⟨hmodels, heach⟩
    refine ⟨hmodels, fun m hm pat hpat => ?_,
      h.allowRegions.allowListed_eq fun c hc => (heach c hc).2.2.1,
      h.allowSites.allowListed_eq fun c hc => (heach c hc).2.2.2.1,
      fun ceiling hceiling => ?_, fun label hlabel => ?_⟩
    · obtain ⟨c, hc, hdeny⟩ := (h.denyModels.mem_iff pat).mp hpat
      exact (heach c hc).2.1 m hm pat hdeny
    · obtain ⟨c, hc, htier⟩ := (h.maxCostTiers.mem_iff ceiling).mp hceiling
      exact (heach c hc).2.2.2.2.1 ceiling (Option.mem_toList.mpr htier)
    · obtain ⟨c, hc, hcustom⟩ := (h.custom.mem_iff label).mp hlabel
      exact (heach c hc).2.2.2.2.2 label hcustom

/-- A backend is admitted if the labels agree, the lists of models share a pattern, and each
constraint accepts it. -/
theorem admits_iff_each :
    admits constraints backend tierRank = true ↔
      AgreeingLabels constraints ∧ SharesPattern constraints backend ∧
        ∀ c ∈ constraints, (wireConstraint c).accepts backend tierRank = true := by
  simp only [admits_iff, foldlM_foldConstraint_iff]
  constructor
  · rintro ⟨folded, ⟨hagree, hcollects⟩, haccepts⟩
    exact ⟨hagree, hcollects.accepts_iff.mp haccepts⟩
  · rintro ⟨hagree, heach⟩
    obtain ⟨folded, hfold⟩ := exists_foldlM_foldConstraint hagree
    have hcollects := foldlM_foldConstraint_iff.mp hfold
    exact ⟨folded, hcollects, hcollects.2.accepts_iff.mpr heach⟩

/-- Folding restrictions is sound: what the fold accepts, each `restrict` alone accepts; where the
fold comes to nothing, each accepts every backend; and one `restrict` more, wherever it is put,
admits no backend that was kept out. -/
theorem foldCandidateConstraints_sound (constraints : List CandidateConstraint)
    (backend : BackendLabels) (tierRank : String → Option Nat) :
    (∀ folded, foldCandidateConstraints constraints = .ok (some folded) →
      folded.accepts backend tierRank = true →
      ∀ c ∈ constraints, (wireConstraint c).accepts backend tierRank = true) ∧
    (foldCandidateConstraints constraints = .ok none →
      ∀ c ∈ constraints, ∀ backend' tierRank',
        (wireConstraint c).accepts backend' tierRank' = true) ∧
    (∀ c before after, constraints = before ++ after →
      admits constraints backend tierRank = false →
      admits (before ++ c :: after) backend tierRank = false) := by
  refine ⟨fun folded h haccepts => ?_, fun h c hc backend' tierRank' => ?_, ?_⟩
  · exact (admits_iff_each.mp (by rw [admits, h]; exact haccepts)).2.2
  · exact (admits_iff_each.mp (by rw [admits, h])).2.2 c hc
  · rintro c before after rfl hrejected
    have hsub : before ++ after ⊆ before ++ c :: after :=
      (List.Sublist.refl before |>.append (List.sublist_cons_self c after)).subset
    rw [Bool.eq_false_iff, ne_eq, admits_iff_each] at hrejected ⊢
    rintro ⟨hagree, hshares, heach⟩
    refine hrejected ⟨hagree.mono ?_, ?_, fun c hc => heach c (hsub hc)⟩
    · exact fun label ⟨c, hc, hlabel⟩ => ⟨c, hsub hc, hlabel⟩
    · rintro ⟨c, hc, hset⟩
      obtain ⟨model, pat, hmodel, hmatch, hall⟩ := hshares ⟨c, hsub hc, hset⟩
      exact ⟨model, pat, hmodel, hmatch, fun c hc => hall c (hsub hc)⟩

/-- Two restrictions, one on the region and one on a label. -/
def regionAndGpu : List CandidateConstraint :=
  [{ allowRegions := some ["eu"] }, { custom := [("gpu", "h100")], onEmpty := .fallback }]

/-- Both accept a backend in the region with the label. -/
theorem foldCandidateConstraints_sound_region_gpu :
    ∀ c ∈ regionAndGpu,
      (wireConstraint c).accepts (fun k => [("region", "eu"), ("gpu", "h100")].lookup k)
        (fun _ => none) = true :=
  (foldCandidateConstraints_sound regionAndGpu
      (fun k => [("region", "eu"), ("gpu", "h100")].lookup k) (fun _ => none)).1
    { allowRegions := some ["eu"], custom := [("gpu", "h100")] }
    (by
      simp [foldCandidateConstraints, regionAndGpu, foldConstraint, intersectInto, insertAll,
        insertCustom, strictest, List.insertKey, CandidateConstraintExtension.isEmpty, bind,
        Except.bind, pure, Except.pure])
    (by decide)

end Core

end Cpex
