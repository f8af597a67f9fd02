import Cpex.Native.Parser

/-! # Nothing mutates under `parallel:`

The branches of a `Parallel` effect run on copies of the request whose changes are thrown away, so
an effect that changes something must not stand in one. `Effect::validate_parallel_purity` is called
in one place, where `parallel:` is parsed; the parser has no other way to make a `Parallel` effect,
so every policy it compiles is clean.
-/

namespace Cpex

/-- The effects a group is made of. -/
def Effect.children : Effect → List Effect
  | .sequential effects | .parallel effects => effects
  | .when _ body _ => body
  | .pdp _ onAllow onDeny => onAllow ++ onDeny
  | _ => []

/-- `d.Occurs e`: the effect `d` is `e`, or stands in it at any depth. -/
inductive Effect.Occurs (d : Effect) : Effect → Prop
  | here : Occurs d d
  | inside {c e : Effect} (hc : c ∈ e.children) (h : Occurs d c) : Occurs d e

/-- A `FieldOp`, a `Delegate` or an `Elicit`. -/
def Effect.mutates : Effect → Bool
  | .fieldOp _ _ | .delegate _ | .elicit _ => true
  | _ => false

/-- `d` stands under a `Parallel` effect of `top`. -/
def Effect.OccursInParallel (d top : Effect) : Prop :=
  ∃ effects, Effect.Occurs (.parallel effects) top ∧ ∃ e ∈ effects, d.Occurs e

/-- No effect that changes something stands under a `Parallel` effect. -/
def Effect.MutationFreeParallel (top : Effect) : Prop :=
  ∀ d : Effect, d.OccursInParallel top → d.mutates = false

/-- Both phases of a route are clean. -/
def CompiledRoute.MutationFree (route : CompiledRoute) : Prop :=
  ∀ top ∈ route.policy ++ route.postPolicy, top.MutationFreeParallel

/-! ### Where effects stand -/

variable {d e : Effect}

theorem Effect.occurs_iff : d.Occurs e ↔ d = e ∨ ∃ c ∈ e.children, d.Occurs c := by
  constructor
  · rintro (_ | ⟨hc, h⟩)
    · exact .inl rfl
    · exact .inr ⟨_, hc, h⟩
  · rintro (rfl | ⟨c, hc, h⟩)
    · exact .here
    · exact .inside hc h

theorem Effect.Occurs.trans (hd : d.Occurs c) (hc : c.Occurs e) : d.Occurs e := by
  induction hc with
  | here => exact hd
  | inside hc _ ih => exact .inside hc ih

theorem occursInParallel_iff (h : ∀ effects, e ≠ .parallel effects) :
    d.OccursInParallel e ↔ ∃ c ∈ e.children, d.OccursInParallel c := by
  constructor
  · rintro ⟨effects, hparallel, hd⟩
    rcases Effect.occurs_iff.mp hparallel with rfl | ⟨c, hc, hparallel⟩
    · exact absurd rfl (h effects)
    · exact ⟨c, hc, effects, hparallel, hd⟩
  · rintro ⟨c, hc, effects, hparallel, hd⟩
    exact ⟨effects, .inside hc hparallel, hd⟩

variable {effects : List Effect}

/-- Everything in a `Parallel` effect stands under it, whatever stands between. -/
theorem occursInParallel_parallel :
    d.OccursInParallel (.parallel effects) ↔ ∃ c ∈ effects, d.Occurs c := by
  constructor
  · rintro ⟨inner, hparallel, e, he, hd⟩
    rcases Effect.occurs_iff.mp hparallel with heq | ⟨c, hc, hparallel⟩
    · cases heq
      exact ⟨e, he, hd⟩
    · exact ⟨c, hc, (Effect.Occurs.inside (e := .parallel inner) he hd).trans hparallel⟩
  · rintro ⟨c, hc, hd⟩
    exact ⟨effects, .here, c, hc, hd⟩

/-! ### The check -/

theorem anyContainsMutation_eq_false (h : anyContainsMutation effects = false) :
    ∀ e ∈ effects, e.containsMutation = false := by
  induction effects with
  | nil => exact List.forall_mem_nil _
  | cons first effects ih =>
    rw [anyContainsMutation, Bool.or_eq_false_iff] at h
    exact List.forall_mem_cons.mpr ⟨h.1, ih h.2⟩

/-- `contains_mutation` looks everywhere. -/
theorem mutates_of_containsMutation (hd : d.Occurs e) (h : e.containsMutation = false) :
    d.mutates = false := by
  induction hd with
  | here => cases d <;> first | rfl | exact nomatch h
  | @inside c e hc _ ih =>
    refine ih ?_
    cases e with
    | sequential | parallel | when => exact anyContainsMutation_eq_false h _ hc
    | pdp =>
      rw [Effect.containsMutation, Bool.or_eq_false_iff] at h
      rcases List.mem_append.mp hc with hc | hc
      · exact anyContainsMutation_eq_false h.1 _ hc
      · exact anyContainsMutation_eq_false h.2 _ hc
    | _ => exact nomatch hc

section
variable [ParserPlatform]

theorem validateEach_ok (h : validateEach effects = .ok ()) :
    ∀ e ∈ effects, e.validateParallelPurity = .ok () := by
  induction effects with
  | nil => exact List.forall_mem_nil _
  | cons first effects ih =>
    obtain ⟨⟨⟩, hfirst, h⟩ := Except.ok_of_bind h
    exact List.forall_mem_cons.mpr ⟨hfirst, ih h⟩

theorem validateBranches_ok (h : validateBranches effects = .ok ()) :
    ∀ e ∈ effects, e.containsMutation = false ∧ e.validateParallelPurity = .ok () := by
  induction effects with
  | nil => exact List.forall_mem_nil _
  | cons first effects ih =>
    rw [validateBranches] at h
    split at h
    · exact nomatch h
    next hclean =>
      obtain ⟨⟨⟩, hfirst, h⟩ := Except.ok_of_bind h
      exact List.forall_mem_cons.mpr ⟨⟨Bool.not_eq_true _ ▸ hclean, hfirst⟩, ih h⟩

/-- What the check establishes. The induction is on where the `Parallel` effect stands. -/
theorem validateParallelPurity_sound {top : Effect} (h : top.validateParallelPurity = .ok ()) :
    top.MutationFreeParallel := by
  rintro d ⟨effects, hparallel, e, he, hd⟩
  induction hparallel with
  | here => exact mutates_of_containsMutation hd (validateBranches_ok h e he).1
  | @inside c top hc _ ih =>
    refine ih ?_
    cases top with
    | sequential | when => exact validateEach_ok h _ hc
    | parallel => exact (validateBranches_ok h _ hc).2
    | pdp =>
      obtain ⟨⟨⟩, hallow, hdeny⟩ := Except.ok_of_bind h
      rcases List.mem_append.mp hc with hc | hc
      · exact validateEach_ok hallow _ hc
      · exact validateEach_ok hdeny _ hc
    | _ => exact nomatch hc

end

/-! ### Groups of clean effects -/

/-- A group other than `parallel:` is clean if what it groups is. -/
theorem mutationFreeParallel_iff (h : ∀ effects, e ≠ .parallel effects) :
    e.MutationFreeParallel ↔ ∀ c ∈ e.children, c.MutationFreeParallel := by
  unfold Effect.MutationFreeParallel
  simp only [occursInParallel_iff h]
  exact ⟨fun hclean c hc d hd => hclean d ⟨c, hc, hd⟩, fun hclean d ⟨c, hc, hd⟩ => hclean c hc d hd⟩

/-- An effect without effects inside it. -/
def Effect.isLeaf : Effect → Bool
  | .sequential _ | .parallel _ | .when _ _ _ | .pdp _ _ _ => false
  | _ => true

theorem mutationFreeParallel_of_isLeaf (h : e.isLeaf = true) : e.MutationFreeParallel := by
  rintro d ⟨effects, _ | ⟨hc, _⟩, _⟩
  · cases h
  · have hchildren : e.children = [] := by cases e <;> first | rfl | cases h
    rw [hchildren] at hc
    cases hc

variable {source : String}

theorem mutationFreeParallel_when {condition : Expression} {body : List Effect} :
    (Effect.when condition body source).MutationFreeParallel ↔
      ∀ e ∈ body, e.MutationFreeParallel :=
  mutationFreeParallel_iff (by nofun)

theorem stepsToTopLevelEffects_eq :
    stepsToTopLevelEffects steps = steps.map stepToTopLevelEffect := by
  induction steps with
  | nil => rfl
  | cons step steps ih => rw [stepsToTopLevelEffects, List.map_cons, ih]

/-! ### Lines -/

theorem isLeaf_of_tryBareAction (h : tryBareAction s = some effects) :
    ∀ e ∈ effects, e.isLeaf = true := by
  unfold tryBareAction at h
  split at h
  all_goals
    cases h
    try exact List.forall_mem_singleton.mpr rfl

theorem isLeaf_of_tryParseDenyCall (h : tryParseDenyCall s rule = .ok (some e)) :
    e.isLeaf = true := by
  unfold tryParseDenyCall at h
  split at h
  · exact nomatch h
  obtain ⟨args, _, h⟩ := Except.ok_of_bind h
  split at h
  · split at h
    · exact nomatch h
    obtain ⟨reason, _, h⟩ := Except.ok_of_bind h
    obtain ⟨code, _, h⟩ := Except.ok_of_bind h
    split at h
    · exact nomatch h
    · cases h; rfl
  · exact nomatch h

theorem isLeaf_of_parseAction (h : parseAction s rule = .ok effects) :
    ∀ e ∈ effects, e.isLeaf = true := by
  unfold parseAction at h
  split at h
  next hbare => cases h; exact isLeaf_of_tryBareAction hbare
  · obtain ⟨deny, hdeny, h⟩ := Except.ok_of_bind h
    split at h
    · cases h
      exact List.forall_mem_singleton.mpr (isLeaf_of_tryParseDenyCall hdeny)
    · exact nomatch h

theorem isLeaf_of_ruleParts (h : ruleParts trimmed = .ok (predicate, effects)) :
    ∀ e ∈ effects, e.isLeaf = true := by
  obtain ⟨parts, _, h⟩ := Except.ok_of_bind h
  split at h
  · obtain ⟨action, haction, h⟩ := Except.ok_of_bind h
    cases h
    exact isLeaf_of_parseAction haction
  split at h
  next hbare => cases h; exact isLeaf_of_tryBareAction hbare
  obtain ⟨deny, hdeny, h⟩ := Except.ok_of_bind h
  split at h <;> cases h
  · exact List.forall_mem_singleton.mpr (isLeaf_of_tryParseDenyCall hdeny)
  · exact List.forall_mem_singleton.mpr rfl

variable {step : Step}

/-- The effect that a step becomes is clean. -/
abbrev Step.Clean (step : Step) : Prop := (stepToTopLevelEffect step).MutationFreeParallel

theorem isLeaf_of_parsePluginCall (h : parsePluginCall trimmed verb = .ok step) :
    (stepToTopLevelEffect step).isLeaf = true := by
  obtain ⟨args, _, h⟩ := Except.ok_of_bind h
  dsimp only at h
  split at h
  · exact nomatch h
  · cases h; rfl

theorem isLeaf_of_parseDelegateStep (h : parseDelegateStep bodyVal source = .ok step) :
    (stepToTopLevelEffect step).isLeaf = true := by
  unfold parseDelegateStep at h
  split at h
  · cases h
  split at h
  · cases h
  split at h
  · cases h
  · cases h
  obtain ⟨onError, _, h⟩ := Except.ok_of_bind h
  cases h
  rfl

theorem stepToEffect_mutationFree (h : stepToEffect step source = .ok e)
    (hstep : step.Clean) : e.MutationFreeParallel := by
  unfold stepToEffect at h
  split at h
  case h_6 rule =>
    split at h
    · exact nomatch h
    split at h
    next effect heffects =>
      cases h
      exact mutationFreeParallel_when.mp hstep e (heffects ▸ List.mem_singleton_self e)
    · exact nomatch h
  case h_7 => exact nomatch h
  all_goals
    cases h
    exact hstep

section
variable [Platform] {source : String}

/-- A rule written as a line allows or denies. -/
theorem isLeaf_of_parseRule (h : parseRule line source = .ok rule) :
    ∀ e ∈ rule.effects, e.isLeaf = true := by
  unfold parseRule at h
  dsimp only at h
  split at h
  · obtain ⟨condition, _, h⟩ := Except.ok_of_bind h
    cases h
    exact List.forall_mem_singleton.mpr rfl
  split at h
  · cases h
  obtain ⟨⟨predicate, effects⟩, hparts, h⟩ := Except.ok_of_bind h
  repeat' split at h
  all_goals cases h
  all_goals exact isLeaf_of_ruleParts hparts

variable [ParserPlatform] {e : Effect}

theorem isLeaf_of_tryParseFieldOp (h : tryParseFieldOp s rule = .ok (some e)) :
    e.isLeaf = true := by
  unfold tryParseFieldOp at h
  split at h
  · exact nomatch h
  obtain ⟨path, _, h⟩ := Except.ok_of_bind h
  obtain ⟨chain, _, h⟩ := Except.ok_of_bind h
  dsimp only at h
  split at h
  · exact nomatch h
  obtain ⟨pipeline, _, h⟩ := Except.ok_of_bind h
  split at h
  · exact nomatch h
  · cases h; rfl

/-- A line is one effect, or a rule that allows or denies. -/
theorem parseStepString_mutationFree (h : parseStepString line source = .ok step) : step.Clean := by
  unfold parseStepString at h
  dsimp only at h
  split at h
  · obtain ⟨args, _, h⟩ := Except.ok_of_bind h
    obtain ⟨⟨label, scopes⟩, _, h⟩ := Except.ok_of_bind h
    cases h
    exact mutationFreeParallel_of_isLeaf rfl
  split at h
  · exact mutationFreeParallel_of_isLeaf (isLeaf_of_parsePluginCall h)
  split at h
  · exact mutationFreeParallel_of_isLeaf (isLeaf_of_parsePluginCall h)
  split at h
  · obtain ⟨args, _, h⟩ := Except.ok_of_bind h
    obtain ⟨call, _, h⟩ := Except.ok_of_bind h
    cases h
    exact mutationFreeParallel_of_isLeaf rfl
  split at h
  · obtain ⟨args, _, h⟩ := Except.ok_of_bind h
    obtain ⟨elicit, _, h⟩ := Except.ok_of_bind h
    cases h
    exact mutationFreeParallel_of_isLeaf rfl
  · obtain ⟨rule, hrule, h⟩ := Except.ok_of_bind h
    cases h
    refine mutationFreeParallel_when.mpr fun e he => ?_
    exact mutationFreeParallel_of_isLeaf (isLeaf_of_parseRule hrule e he)

theorem parseEffectString_mutationFree (h : parseEffectString s source = .ok e) :
    e.MutationFreeParallel := by
  unfold parseEffectString at h
  dsimp only at h
  split at h
  next effect hbare =>
    cases h
    exact mutationFreeParallel_of_isLeaf
      (isLeaf_of_tryBareAction hbare e (List.mem_singleton_self e))
  obtain ⟨deny, hdeny, h⟩ := Except.ok_of_bind h
  split at h
  · cases h
    exact mutationFreeParallel_of_isLeaf (isLeaf_of_tryParseDenyCall hdeny)
  obtain ⟨fieldOp, hfieldOp, h⟩ := Except.ok_of_bind h
  split at h
  · cases h
    exact mutationFreeParallel_of_isLeaf (isLeaf_of_tryParseFieldOp hfieldOp)
  obtain ⟨step, hstep, h⟩ := Except.ok_of_bind h
  exact stepToEffect_mutationFree h (parseStepString_mutationFree hstep)

/-! ### Maps and lists -/

/-- The one place where a `Parallel` effect is made, after the check. -/
theorem parseParallelEffect_mutationFree (h : parseParallelEffect body source = .ok e) :
    e.MutationFreeParallel := by
  unfold parseParallelEffect at h
  split at h
  · cases h
  split at h
  · cases h
  obtain ⟨effects, _, h⟩ := Except.ok_of_bind h
  split at h
  · cases h
  next hvalid =>
    cases h
    exact validateParallelPurity_sound hvalid

/-- What is read from a value is clean, both as a step and as an effect of a list. -/
def Yaml.ParsesClean (v : Yaml) : Prop :=
  (∀ source step, parseStep v source = .ok step →
      (stepToTopLevelEffect step).MutationFreeParallel) ∧
    ∀ source e, parseEffectValue v source = .ok e → e.MutationFreeParallel

/-- What is read from a value smaller than `n` is clean: the hypothesis of the induction, under
    which the functions that read lists and maps are taken one by one. -/
def ParsesCleanBelow (n : Nat) : Prop := ∀ v : Yaml, sizeOf v < n → v.ParsesClean

section
variable {n : Nat} (hbelow : ParsesCleanBelow n)
include hbelow

variable {source : String}

theorem parseEffectValues_mutationFree (hn : sizeOf items ≤ n)
    (h : parseEffectValues items source = .ok effects) : ∀ e ∈ effects, e.MutationFreeParallel := by
  induction items generalizing effects with
  | nil =>
    unfold parseEffectValues at h
    cases h
    exact fun e he => nomatch he
  | cons item items ih =>
    unfold parseEffectValues at h
    rw [List.cons.sizeOf_spec] at hn
    obtain ⟨effect, heffect, h⟩ := Except.ok_of_bind h
    obtain ⟨rest, hrest, h⟩ := Except.ok_of_bind h
    cases h
    refine List.forall_mem_cons.mpr ⟨?_, ih (by omega) hrest⟩
    exact (hbelow item (by omega)).2 source effect heffect

theorem parseSequentialEffect_mutationFree (hn : sizeOf body ≤ n)
    (h : parseSequentialEffect body source = .ok e) : e.MutationFreeParallel := by
  unfold parseSequentialEffect at h
  split at h
  · cases h
  next items hitems =>
    split at h
    · cases h
    have hlt := Yaml.sizeOf_asSequence hitems
    obtain ⟨effects, heffects, h⟩ := Except.ok_of_bind h
    cases h
    exact (mutationFreeParallel_iff (by simp)).mpr
      (parseEffectValues_mutationFree hbelow (by omega) heffects)

variable {step : Step}

theorem parseShorthandMultiEffect_mutationFree (hn : sizeOf items ≤ n)
    (h : parseShorthandMultiEffect predicate items source = .ok step) : step.Clean := by
  unfold parseShorthandMultiEffect at h
  obtain ⟨condition, _, h⟩ := Except.ok_of_bind h
  obtain ⟨effects, heffects, h⟩ := Except.ok_of_bind h
  split at h
  · exact nomatch h
  · cases h
    exact mutationFreeParallel_when.mpr (parseEffectValues_mutationFree hbelow hn heffects)

theorem parseDoBody_mutationFree (hn : sizeOf val < n) (h : parseDoBody val source = .ok effects) :
    ∀ e ∈ effects, e.MutationFreeParallel := by
  unfold parseDoBody at h
  split at h
  · obtain ⟨effect, heffect, h⟩ := Except.ok_of_bind h
    cases h
    exact List.forall_mem_singleton.mpr (parseEffectString_mutationFree heffect)
  next items =>
    rw [Yaml.sequence.sizeOf_spec] at hn
    exact parseEffectValues_mutationFree hbelow (by omega) h
  · obtain ⟨effect, heffect, h⟩ := Except.ok_of_bind h
    cases h
    exact List.forall_mem_singleton.mpr ((hbelow _ hn).2 source effect heffect)
  · cases h

theorem parseWhenDoRule_mutationFree (hn : sizeOf m ≤ n) (h : parseWhenDoRule m source = .ok step) :
    step.Clean := by
  unfold parseWhenDoRule at h
  obtain ⟨⟨⟩, _, h⟩ := Except.ok_of_bind h
  split at h
  · cases h
  split at h
  · cases h
  obtain ⟨condition, _, h⟩ := Except.ok_of_bind h
  split at h
  · cases h
  next doVal hdo =>
    have hlt := Yaml.sizeOf_lookupKey hdo
    obtain ⟨effects, heffects, h⟩ := Except.ok_of_bind h
    split at h
    · cases h
    · cases h
      exact mutationFreeParallel_when.mpr
        (parseDoBody_mutationFree hbelow (by omega) heffects)

theorem parseReactions_mutationFree (hn : sizeOf items ≤ n)
    (h : parseReactions location i items = .ok steps) : ∀ step ∈ steps, step.Clean := by
  induction items generalizing i steps with
  | nil =>
    unfold parseReactions at h
    cases h
    exact fun step hstep => nomatch hstep
  | cons item items ih =>
    unfold parseReactions at h
    rw [List.cons.sizeOf_spec] at hn
    obtain ⟨step, hstep, h⟩ := Except.ok_of_bind h
    obtain ⟨rest, hrest, h⟩ := Except.ok_of_bind h
    cases h
    refine List.forall_mem_cons.mpr ⟨?_, ih (by omega) hrest⟩
    exact (hbelow item (by omega)).1 _ step hstep

theorem parseReactionList_mutationFree (hn : sizeOf v ≤ n)
    (h : parseReactionList v source which = .ok steps) : ∀ step ∈ steps, step.Clean := by
  unfold parseReactionList at h
  split at h
  · cases h
  next items hitems =>
    have hlt := Yaml.sizeOf_asSequence hitems
    exact parseReactions_mutationFree hbelow (by omega) h

/-- Both reaction lists stay clean while the body of a call is read. -/
theorem extractPdpBody_mutationFree (hn : sizeOf entries ≤ n)
    (h : extractPdpBody source entries body = .ok body')
    (hbody : ∀ step ∈ body.onDeny ++ body.onAllow, step.Clean) :
    ∀ step ∈ body'.onDeny ++ body'.onAllow, step.Clean := by
  induction entries generalizing body with
  | nil =>
    unfold extractPdpBody at h
    cases h
    exact hbody
  | cons entry entries ih =>
    unfold extractPdpBody at h
    rw [List.cons.sizeOf_spec, Prod.mk.sizeOf_spec] at hn
    split at h
    · obtain ⟨onDeny, honDeny, h⟩ := Except.ok_of_bind h
      refine ih (by omega) h (List.forall_mem_append.mpr ⟨?_, ?_⟩)
      · exact parseReactionList_mutationFree hbelow (by omega) honDeny
      · exact (List.forall_mem_append.mp hbody).2
    · obtain ⟨onAllow, honAllow, h⟩ := Except.ok_of_bind h
      refine ih (by omega) h (List.forall_mem_append.mpr ⟨?_, ?_⟩)
      · exact (List.forall_mem_append.mp hbody).1
      · exact parseReactionList_mutationFree hbelow (by omega) honAllow
    · exact ih (by omega) h hbody

theorem parseStepMap_mutationFree (hn : sizeOf m ≤ n) (h : parseStepMap m source = .ok step) :
    step.Clean := by
  unfold parseStepMap at h
  split at h
  · exact parseWhenDoRule_mutationFree hbelow hn h
  split at h
  next keyVal bodyVal _ =>
    rw [List.cons.sizeOf_spec, Prod.mk.sizeOf_spec] at hn
    split at h
    · cases h
    split at h
    · cases h
    next items hitems =>
      have hlt := sizeOf_shorthandItems hitems
      exact parseShorthandMultiEffect_mutationFree hbelow (by omega) h
    split at h
    · exact mutationFreeParallel_of_isLeaf (isLeaf_of_parseDelegateStep h)
    · obtain ⟨spec, _, h⟩ := Except.ok_of_bind h
      cases h
      exact mutationFreeParallel_of_isLeaf rfl
    · obtain ⟨effect, heffect, h⟩ := Except.ok_of_bind h
      cases h
      exact mutationFreeParallel_when.mpr (List.forall_mem_singleton.mpr
        (parseSequentialEffect_mutationFree hbelow (by omega) heffect))
    · obtain ⟨effect, heffect, h⟩ := Except.ok_of_bind h
      cases h
      exact mutationFreeParallel_when.mpr (List.forall_mem_singleton.mpr
        (parseParallelEffect_mutationFree heffect))
    · obtain ⟨⟨dialect, parenArgs⟩, _, h⟩ := Except.ok_of_bind h
      dsimp only at h
      split at h
      · cases h
      next entries hentries =>
        have hlt := Yaml.sizeOf_asMapping hentries
        obtain ⟨body, hbody, h⟩ := Except.ok_of_bind h
        cases h
        have hclean := extractPdpBody_mutationFree hbelow (by omega) hbody
          (fun step hstep => absurd hstep List.not_mem_nil)
        rw [List.forall_mem_append] at hclean
        rw [Step.Clean, stepToTopLevelEffect, stepsToTopLevelEffects_eq, stepsToTopLevelEffects_eq]
        exact (mutationFreeParallel_iff (by simp)).mpr (List.forall_mem_append.mpr
          ⟨List.forall_mem_map.mpr hclean.2, List.forall_mem_map.mpr hclean.1⟩)
  · cases h

end

theorem parseStep_mutationFree_of_below (hbelow : ParsesCleanBelow (sizeOf value))
    (h : parseStep value source = .ok step) : step.Clean := by
  unfold parseStep at h
  split at h
  · exact parseStepString_mutationFree h
  · refine parseStepMap_mutationFree hbelow ?_ h
    rw [Yaml.mapping.sizeOf_spec]
    omega
  · cases h

theorem parseEffectValue_mutationFree_of_below (hbelow : ParsesCleanBelow (sizeOf val))
    (h : parseEffectValue val source = .ok e) : e.MutationFreeParallel := by
  unfold parseEffectValue at h
  split at h
  · exact parseEffectString_mutationFree h
  next k v =>
    split at h
    · refine parseSequentialEffect_mutationFree hbelow ?_ h
      rw [Yaml.mapping.sizeOf_spec, List.cons.sizeOf_spec, Prod.mk.sizeOf_spec]
      omega
    · exact parseParallelEffect_mutationFree h
    · obtain ⟨spec, _, h⟩ := Except.ok_of_bind h
      cases h
      exact mutationFreeParallel_of_isLeaf rfl
    · obtain ⟨step, hstep, h⟩ := Except.ok_of_bind h
      exact stepToEffect_mutationFree h (parseStep_mutationFree_of_below hbelow hstep)
  · obtain ⟨step, hstep, h⟩ := Except.ok_of_bind h
    exact stepToEffect_mutationFree h (parseStep_mutationFree_of_below hbelow hstep)
  · cases h

/-- Whatever a value is read as is clean, by induction on its size. -/
theorem parsesClean (v : Yaml) : v.ParsesClean := by
  induction hn : sizeOf v using Nat.strongRecOn generalizing v with
  | ind n ih =>
    subst hn
    have hbelow : ParsesCleanBelow (sizeOf v) := fun w hw => ih _ hw w rfl
    exact ⟨fun _ _ h => parseStep_mutationFree_of_below hbelow h,
      fun _ _ h => parseEffectValue_mutationFree_of_below hbelow h⟩

/-! ### Routes -/

variable [ConfigSerde]

attribute [local instance] PolicyParser.apl

theorem compileSteps_mutationFree (h : compileSteps source phase entries = .ok effects) :
    ∀ e ∈ effects, e.MutationFreeParallel := by
  intro e he
  obtain ⟨entry, location, hentry⟩ := exists_of_mem_compileSteps h e he
  obtain ⟨step, hstep, rfl⟩ := Except.ok_of_map hentry
  exact (parsesClean entry).1 location step (Except.ok_of_mapError hstep)

theorem CompiledRoute.MutationFree.of_compile (h : compilePolicyBlockValue source block = .ok route) :
    route.MutationFree := by
  rcases compilePolicyBlockValue_ok h with rfl | ⟨raw, hraw⟩
  · exact fun top htop => nomatch htop
  · obtain ⟨⟨_, hpolicy⟩, ⟨_, hpostPolicy⟩, _⟩ := compileAplBlocks_ok hraw
    exact List.forall_mem_append.mpr
      ⟨compileSteps_mutationFree hpolicy, compileSteps_mutationFree hpostPolicy⟩

/-- In the routes that `compile_policy_block_value` makes of a block, no `FieldOp`, `Delegate` or
`Elicit` stands under a `Parallel` effect, in either phase and at any depth. -/
theorem compilePolicyBlockValue_mutationFree {source : String} {block : Yaml}
    {route : CompiledRoute} (h : compilePolicyBlockValue source block = .ok route) :
    ∀ top ∈ route.policy ++ route.postPolicy, ∀ effects : List Effect,
      Effect.Occurs (.parallel effects) top → ∀ e ∈ effects, ∀ d : Effect, d.Occurs e →
        d.mutates = false := by
  intro top htop effects hparallel e he d hd
  exact CompiledRoute.MutationFree.of_compile h top htop d ⟨effects, hparallel, e, he, hd⟩

end

section
attribute [local instance] Platform.bare ParserPlatform.bare ConfigSerde.bare PolicyParser.apl

/-- A block with a `parallel:` of `branches` in a reaction of a policy decision point, and with a
    `parallel:` and a `sequential:` in the `do:` of a rule. -/
def groupedBlock (branches : List Yaml) : Yaml :=
  let group := Yaml.mapping [(.string "parallel", .sequence [.string "plugin(audit)",
    .mapping [(.string "sequential", .sequence [.string "taint(PII)", .string "deny('no')"])]])]
  .mapping [(.string "pre_invocation", .sequence [
    .mapping [(.string "when", .string "role.hr"), (.string "do", group)],
    .mapping [(.string "opa(\"hr/allow\")", .mapping [(.string "on_deny", .sequence [
      .mapping [(.string "parallel", .sequence branches)]])])]])]

/-- Nested groups compile, and the route is clean. -/
theorem compilePolicyBlockValue_mutationFree_nested :
    ∃ route, compilePolicyBlockValue "global.apl" (groupedBlock [.string "plugin(audit)"]) =
        .ok route ∧ route.policy.length = 2 ∧
      ∀ top ∈ route.policy ++ route.postPolicy, ∀ effects : List Effect,
        Effect.Occurs (.parallel effects) top → ∀ e ∈ effects, ∀ d : Effect, d.Occurs e →
          d.mutates = false := by
  have hlength : (compilePolicyBlockValue "global.apl"
      (groupedBlock [.string "plugin(audit)"])).toOption.map (·.policy.length) = some 2 := by
    decide +kernel
  obtain ⟨route, hroute, hlength⟩ := Option.map_eq_some_iff.mp hlength
  have hok := Except.ok_of_toOption hroute
  exact ⟨route, hok, hlength, compilePolicyBlockValue_mutationFree hok⟩

/-- A field operation as a branch is rejected. -/
example : (compilePolicyBlockValue "global.apl"
    (groupedBlock [.string "args.ssn | redact"])).toOption.isNone = true := by
  decide +kernel

end

end Cpex
