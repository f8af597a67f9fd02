import Cpex.Spec.FieldRules

/-! # The order of field rules

Field rules are kept in a map of the policy file, so the order in which they run is not the author's.
A rule without plugin stages reads and writes its own field and nothing else, and the rules on fields
that lie apart are independent steps of a walk.
-/

namespace Cpex

open Json

/-- A rule whose pipeline calls no plugin. -/
def FieldRule.NoPlugin (rule : FieldRule) : Prop := ∀ name, .plugin name ∉ rule.pipeline.stages

/-- The fields of two rules lie apart: neither is at or below the other. -/
def FieldRule.Apart (rule other : FieldRule) : Prop :=
  ¬ Overlap (Text.split rule.field '.') (Text.split other.field '.')

section
variable [Platform] {σ : Type} (env : Env σ) (bag : AttributeBag) (phase : DispatchPhase)

/-! ### Rules without plugins -/

theorem runStages_frame (fieldName : String) (idx : Nat) (h : ∀ name, .plugin name ∉ stages)
    (ps : PipelineState σ) :
    (runStages env.toInvokers bag fieldName phase idx stages ps).2.world = ps.world ∧
      (runStages env.toInvokers bag fieldName phase idx stages ps).2.trace = ps.trace := by
  refine (runStages_induction env phase bag fieldName
    (P := fun _ s => s.world = ps.world ∧ s.trace = ps.trace) _ (fun stage hstage idx s hs => ?_)
    ⟨rfl, rfl⟩ idx).elim id id
  obtain ⟨hworld, htrace⟩ := runStage_frame env.toInvokers bag fieldName phase idx stage s
    fun name heq => h name (heq ▸ hstage)
  exact ⟨hworld.trans hs.1, htrace.trans hs.2⟩

/-- What comes of a rule, by the value of its field: the refusal, the write and the taints. -/
def ruleEffect (rule : FieldRule) (world : σ) :
    Option Json → Option Decision × Option (Option Json) × List TaintEvent
  | none => (none, none, [])
  | some current =>
    let r := evaluatePipeline env.toInvokers rule.pipeline current bag world rule.field phase
    (r.1.refusal rule.source, r.1.write, r.2.taints)

variable {rule : FieldRule}

/-- A rule without plugin stages: what it does depends on the value of its field alone. -/
theorem runFieldRule_eq (h : rule.NoPlugin) (fs : FieldPhase σ) :
    runFieldRule env bag phase rule fs =
      let effect := ruleEffect env bag phase rule fs.world (getDotted fs.root rule.field)
      (effect.1,
        { fs with
          root := writeField effect.2.1 fs.root rule.field
          modified := fs.modified || effect.2.1.isSome
          taints := fs.taints ++ effect.2.2 }) := by
  cases hfield : getDotted fs.root rule.field with
  | none =>
    rw [runFieldRule_of_none env phase bag hfield]
    simp [ruleEffect, writeField]
  | some current =>
    obtain ⟨hworld, htrace⟩ := runStages_frame env bag phase rule.field 0 h
      ⟨current, false, [], fs.world, []⟩
    rw [runFieldRule_of_some env bag phase hfield]
    simp only [ruleEffect, evaluatePipeline, hworld, htrace, List.append_nil]

/-- A rule writes only where it reads. -/
theorem ruleEffect_read {rule : FieldRule} {world : σ} {value : Option Json}
    (h : (ruleEffect env bag phase rule world value).2.1.isSome = true) : value.isSome = true := by
  cases value with
  | none => cases h
  | some current => rfl

/-- It writes a text, if it writes a value. -/
theorem ruleEffect_wellFormed {rule : FieldRule} (hplugin : rule.NoPlugin) {fs : FieldPhase σ}
    {new : Option Json}
    (h : (ruleEffect env bag phase rule fs.world (getDotted fs.root rule.field)).2.1 = some new) :
    ∀ v ∈ new, v.wellFormed = true := by
  rintro v rfl
  have hwrite : ruleWrite env bag phase rule fs = some (some v) := by
    unfold ruleWrite ruleOutcome
    revert h
    cases getDotted fs.root rule.field with
    | none => exact fun h => absurd h.symm (Option.some_ne_none _)
    | some current => exact id
  obtain ⟨text, rfl⟩ := ruleWrite_text bag phase
    (fun name hname => absurd hname (hplugin name)) hwrite
  rfl

/-! ### Independence -/

/-- Two states of a field phase that differ in the order of their taints at most. -/
structure FieldPhase.Alike (fs fs' : FieldPhase σ) : Prop where
  root : fs.root = fs'.root
  modified : fs.modified = fs'.modified
  world : fs.world = fs'.world
  taints : fs.taints.Perm fs'.taints

omit [Platform] in
theorem FieldPhase.Alike.refl (fs : FieldPhase σ) : fs.Alike fs := ⟨rfl, rfl, rfl, .refl _⟩

omit [Platform] in
theorem FieldPhase.Alike.trans {fs₁ fs₂ fs₃ : FieldPhase σ} (h : fs₁.Alike fs₂)
    (h' : fs₂.Alike fs₃) : fs₁.Alike fs₃ :=
  ⟨h.root.trans h'.root, h.modified.trans h'.modified, h.world.trans h'.world,
    h.taints.trans h'.taints⟩

variable {fs : FieldPhase σ}

/-- A rule does the same on states that are alike. -/
theorem runFieldRule_alike (rule : FieldRule) (h : fs.Alike fs') :
    List.SameEnd FieldPhase.Alike (runFieldRule env bag phase rule fs)
      (runFieldRule env bag phase rule fs') := by
  have hread : getDotted fs'.root rule.field = getDotted fs.root rule.field := by rw [h.root]
  cases hfield : getDotted fs.root rule.field with
  | none =>
    rw [runFieldRule_of_none env phase bag hfield,
      runFieldRule_of_none env phase bag (hread.trans hfield)]
    exact ⟨rfl, fun _ => h⟩
  | some current =>
    rw [runFieldRule_of_some env bag phase hfield,
      runFieldRule_of_some env bag phase (hread.trans hfield), h.root, h.world, h.modified]
    exact ⟨rfl, fun _ => ⟨rfl, rfl, rfl, h.taints.append_right _⟩⟩

omit [Platform] in
theorem writeField_of_node
    (h : writeNode new (Text.split field '.') (some root) = some (some root')) :
    writeField (some new) root field = root' := by
  simp [writeField, h]

variable {other : FieldRule}

omit [Platform] in
/-- Writes to fields that lie apart commute. -/
theorem writeField_comm (hapart : rule.Apart other) {root : Json} (hroot : root.wellFormed = true)
    {write write' : Option (Option Json)}
    (hread : write.isSome = true → (getDotted root rule.field).isSome = true)
    (hread' : write'.isSome = true → (getDotted root other.field).isSome = true) :
    writeField write' (writeField write root rule.field) other.field =
      writeField write (writeField write' root other.field) rule.field := by
  cases write with
  | none => rfl
  | some new =>
    cases write' with
    | none => rfl
    | some new' =>
      obtain ⟨r, hr⟩ := exists_writeNode_of_getDotted new (hread rfl)
      obtain ⟨r', hr'⟩ := exists_writeNode_of_getDotted new' (hread' rfl)
      obtain ⟨n, hn, hn'⟩ := writeNode_comm hapart
        (by rintro v ⟨⟩; exact hroot) hr hr'
      obtain ⟨both, rfl⟩ := eq_some_of_writeNode_split hn
      rw [writeField_of_node hr, writeField_of_node hr', writeField_of_node hn,
        writeField_of_node hn']

omit [Platform] in
/-- A write leaves what is at a field that lies apart. -/
theorem getDotted_writeField (hapart : rule.Apart other) (root : Json)
    (write : Option (Option Json))
    (hread : write.isSome = true → (getDotted root rule.field).isSome = true) :
    getDotted (writeField write root rule.field) other.field = getDotted root other.field := by
  cases write with
  | none => rfl
  | some new =>
    obtain ⟨r, hr⟩ := exists_writeNode_of_getDotted new (hread rfl)
    rw [writeField_of_node hr]
    exact getNode_writeNode_of_apart hr hapart

/-- A rule after another one on a field that lies apart does what it would have done first. -/
theorem runFieldRule_after (hplugin : rule.NoPlugin) (hplugin' : other.NoPlugin)
    (hapart : other.Apart rule) (fs : FieldPhase σ) :
    runFieldRule env bag phase rule (runFieldRule env bag phase other fs).2 =
      let fs' := (runFieldRule env bag phase other fs).2
      let effect := ruleEffect env bag phase rule fs.world (getDotted fs.root rule.field)
      (effect.1,
        { fs' with
          root := writeField effect.2.1 fs'.root rule.field
          modified := fs'.modified || effect.2.1.isSome
          taints := fs'.taints ++ effect.2.2 }) := by
  have hread : getDotted (runFieldRule env bag phase other fs).2.root rule.field =
      getDotted fs.root rule.field := by
    rw [runFieldRule_eq env bag phase hplugin' fs]
    exact getDotted_writeField hapart fs.root _ (ruleEffect_read env bag phase)
  have hworld : (runFieldRule env bag phase other fs).2.world = fs.world := by
    rw [runFieldRule_eq env bag phase hplugin' fs]
  rw [runFieldRule_eq env bag phase hplugin, hread]
  dsimp only
  rw [hworld]

/-- Rules without plugin stages on fields that lie apart do not disturb each other. -/
theorem independent_rules (hplugin : rule.NoPlugin) (hplugin' : other.NoPlugin)
    (hapart : rule.Apart other) (hroot : fs.root.wellFormed = true) :
    List.Independent (runFieldRule env bag phase) FieldPhase.Alike rule other fs := by
  have hfirst := runFieldRule_eq env bag phase hplugin fs
  have hfirst' := runFieldRule_eq env bag phase hplugin' fs
  have hsecond := runFieldRule_after env bag phase hplugin hplugin' (fun h => hapart h.symm) fs
  have hsecond' := runFieldRule_after env bag phase hplugin' hplugin hapart fs
  refine ⟨fun t ht => ?_, fun t ht => ?_, fun t t' ht ht' => ?_⟩
  · rw [ht] at hsecond
    rw [hsecond, hfirst]
  · rw [ht] at hsecond'
    rw [hsecond', hfirst']
  · rw [ht'] at hsecond
    rw [ht] at hsecond'
    obtain rfl : _ = t := congrArg Prod.snd (hfirst.symm.trans ht)
    obtain rfl : _ = t' := congrArg Prod.snd (hfirst'.symm.trans ht')
    rw [hsecond, hsecond']
    refine ⟨?_, Bool.or_right_comm _ _ _, rfl, ?_⟩
    · exact writeField_comm hapart hroot (ruleEffect_read env bag phase)
        (ruleEffect_read env bag phase)
    · dsimp only
      rw [List.append_assoc, List.append_assoc]
      exact List.perm_append_comm.append_left _

/-- A rule without plugin stages keeps the maps in order. -/
theorem runFieldRule_wellFormed (hplugin : rule.NoPlugin) (h : fs.root.wellFormed = true) :
    (runFieldRule env bag phase rule fs).2.root.wellFormed = true := by
  have hnew := @ruleEffect_wellFormed _ _ env bag phase rule hplugin fs
  have hread := @ruleEffect_read _ _ env bag phase rule fs.world (getDotted fs.root rule.field)
  rw [runFieldRule_eq env bag phase hplugin]
  dsimp only
  generalize (ruleEffect env bag phase rule fs.world (getDotted fs.root rule.field)).2.1 = write
    at hnew hread
  cases write with
  | none => exact h
  | some new =>
    obtain ⟨root, hroot⟩ := exists_writeNode_of_getDotted new (hread rfl)
    rw [writeField_of_node hroot]
    exact wellFormed_writeNode hroot (by rintro v ⟨⟩; exact h) (hnew rfl) root rfl

/-- The order of field rules does not matter, as long as none has plugin stages and their fields lie
    apart: one order denies exactly if the other does, and if they do not, they end in the same
    payload, with the same mark and the same taints up to their order. -/
theorem runFieldRules_perm {rules rules' : List FieldRule} (hperm : rules.Perm rules')
    (hplugin : ∀ rule ∈ rules, rule.NoPlugin) (hapart : rules.Pairwise FieldRule.Apart)
    (args : Json) (hargs : args.wellFormed = true) (world : σ) :
    let run := runFieldRules env bag phase rules ⟨args, false, [], world, []⟩
    let run' := runFieldRules env bag phase rules' ⟨args, false, [], world, []⟩
    (run.1.isSome = true ↔ run'.1.isSome = true) ∧
      (run.1 = none → run'.1 = none →
        run.2.root = run'.2.root ∧ run.2.modified = run'.2.modified ∧
          run.2.taints.Perm run'.2.taints) := by
  have hend : List.SameEnd FieldPhase.Alike
      (rules.walk (runFieldRule env bag phase) ⟨args, false, [], world, []⟩)
      (rules'.walk (runFieldRule env bag phase) ⟨args, false, [], world, []⟩) := by
    refine List.walk_perm (I := fun fs => fs.root.wellFormed = true) (K := FieldRule.Apart)
      (fun _ _ h ho => h ho.symm) FieldPhase.Alike.refl (fun _ _ _ => FieldPhase.Alike.trans)
      (fun rule _ _ => runFieldRule_alike env bag phase rule) hperm ?_ ?_ hapart hargs
    · exact fun rule hrule fs => runFieldRule_wellFormed env bag phase (hplugin rule hrule)
    · exact fun rule hrule other hother hapart fs =>
        independent_rules env bag phase (hplugin rule hrule) (hplugin other hother) hapart
  rw [runFieldRules_eq_walk, runFieldRules_eq_walk]
  refine ⟨by rw [hend.halts], fun hnone _ => ?_⟩
  have halike := hend.related hnone
  exact ⟨halike.root, halike.modified, halike.taints⟩

end

section
attribute [local instance] Platform.bare

/-- The rules of `redactingRoute`, with a taint each. -/
def taintingRules : List FieldRule :=
  [{ field := "dob", source := "args.dob", pipeline := ⟨[.taint "PII" [.session], .omit]⟩ },
    { field := "person.ssn", source := "args.person.ssn",
      pipeline := ⟨[.taint "secret" [.session], .redact none]⟩ }]

/-- In reverse order they redact the same. -/
theorem runFieldRules_perm_reversed :
    let run := runFieldRules ⟨permissive, .orderly⟩ .new .pre taintingRules
      ⟨redactedCall.payload.args, false, [], (), []⟩
    let run' := runFieldRules ⟨permissive, .orderly⟩ .new .pre taintingRules.reverse
      ⟨redactedCall.payload.args, false, [], (), []⟩
    run.1 = none ∧ run.2.root = run'.2.root ∧ run.2.taints.Perm run'.2.taints ∧
      run.2.taints ≠ run'.2.taints := by
  have hplugin : ∀ rule ∈ taintingRules, rule.NoPlugin := by
    simp [taintingRules, FieldRule.NoPlugin]
  have hapart : taintingRules.Pairwise FieldRule.Apart := by
    unfold FieldRule.Apart
    decide
  obtain ⟨-, hends⟩ := runFieldRules_perm ⟨permissive, .orderly⟩ .new .pre
    (List.reverse_perm taintingRules).symm hplugin hapart
    redactedCall.payload.args (by decide) ()
  obtain ⟨hroot, -, htaints⟩ := hends rfl rfl
  exact ⟨rfl, hroot, htaints, by decide⟩

end

end Cpex
