import Cpex.Spec.Accumulation
import Cpex.Spec.JsonPaths

/-! # What field rules do to the payload

A field rule reads its field, runs its pipeline and writes back what came of it. Since it wrote
where it could read, the write lands. So a redaction that fired is in the payload that the phase
ends with, everything away from the fields of the rules is as before, and rules on fields that lie
apart can run in any order.
-/

namespace Cpex

open Json

/-! ### Outcomes -/

namespace FieldOutcome

/-- What the outcome writes to the field: a value, nothing at all to drop the field. `none` leaves
    the field alone. -/
def write : FieldOutcome → Option (Option Json)
  | .replace v => some (some v)
  | .omit => some none
  | _ => none

/-- The decision of a rule whose pipeline ends so. -/
def refusal (source : String) : FieldOutcome → Option Decision
  | .deny reason _ => some (.deny (some reason) source)
  | _ => none

end FieldOutcome

/-- The root after a write to the field, if there is one. -/
def writeField (write : Option (Option Json)) (root : Json) (field : String) : Json :=
  match write with
  | none => root
  | some new => (writeNode new (Text.split field '.') (some root)).join.getD root

/-- A write to a field leaves a root. -/
theorem eq_some_of_writeNode_split (h : writeNode new (Text.split field '.') node = some node') :
    ∃ root, node' = some root := by
  obtain ⟨seg, path, hsplit⟩ := List.exists_cons_of_ne_nil (Text.split_ne_nil field '.')
  rw [hsplit] at h
  obtain ⟨_, _, _, _, rfl⟩ := writeNode_cons_eq_some h
  exact ⟨_, rfl⟩

/-- What can be read can be written. -/
theorem exists_writeNode_of_getDotted (new : Option Json)
    (h : (getDotted root field).isSome = true) :
    ∃ root', writeNode new (Text.split field '.') (some root) = some (some root') := by
  obtain ⟨current, hcurrent⟩ := Option.isSome_iff_exists.mp h
  have hget : getNode (some root) (Text.split field '.') = some current := hcurrent
  obtain ⟨node, hnode⟩ := exists_writeNode_of_getNode new hget
  obtain ⟨root', rfl⟩ := eq_some_of_writeNode_split hnode
  exact ⟨root', hnode⟩

section
variable [Platform] {σ : Type} (env : Env σ) (bag : AttributeBag) (phase : DispatchPhase)

/-! ### One rule -/

/-- How the pipeline of a rule ends, if the rule's field is there. -/
def ruleOutcome (rule : FieldRule) (fs : FieldPhase σ) : Option FieldOutcome :=
  (getDotted fs.root rule.field).map fun current =>
    (evaluatePipeline env.toInvokers rule.pipeline current bag fs.world rule.field phase).1

/-- What a rule writes to its field. -/
def ruleWrite (rule : FieldRule) (fs : FieldPhase σ) : Option (Option Json) :=
  (ruleOutcome env bag phase rule fs).bind FieldOutcome.write

variable {rule : FieldRule} {fs : FieldPhase σ}

/-- A rule whose field is there: the write of its outcome lands. -/
theorem runFieldRule_of_some (h : getDotted fs.root rule.field = some current) :
    runFieldRule env bag phase rule fs =
      let r := evaluatePipeline env.toInvokers rule.pipeline current bag fs.world rule.field phase
      (r.1.refusal rule.source,
        { root := writeField r.1.write fs.root rule.field
          modified := fs.modified || r.1.write.isSome
          taints := fs.taints ++ r.2.taints
          world := r.2.world
          trace := fs.trace ++ r.2.trace }) := by
  rw [runFieldRule, h]
  dsimp only
  generalize evaluatePipeline env.toInvokers rule.pipeline current bag fs.world rule.field phase = r
  obtain ⟨outcome, ps⟩ := r
  cases outcome with
  | pass | deny _ _ => simp [FieldOutcome.refusal, writeField, FieldOutcome.write]
  | replace v =>
    obtain ⟨root', hroot⟩ := exists_writeNode_of_getDotted (some v) (Option.isSome_of_eq_some h)
    have hset : setDotted fs.root rule.field v = some root' := by
      rw [setDotted_eq, hroot]
      rfl
    simp [hset, FieldOutcome.refusal, writeField, FieldOutcome.write, hroot]
  | «omit» =>
    obtain ⟨root', hroot⟩ := exists_writeNode_of_getDotted none (Option.isSome_of_eq_some h)
    have hremove : removeDotted fs.root rule.field = some root' := by
      rw [removeDotted_eq, hroot]
      rfl
    simp [hremove, FieldOutcome.refusal, writeField, FieldOutcome.write, hroot]

/-- A rule leaves the root as it was, or what it writes lands and is marked. -/
theorem runFieldRule_cases (rule : FieldRule) (fs : FieldPhase σ) :
    let out := runFieldRule env bag phase rule fs
    (ruleWrite env bag phase rule fs = none ∧ out.2.root = fs.root ∧
        out.2.modified = fs.modified) ∨
      ∃ new current, ruleWrite env bag phase rule fs = some new ∧
        getDotted fs.root rule.field = some current ∧ out.1 = none ∧
        writeNode new (Text.split rule.field '.') (some fs.root) = some (some out.2.root) ∧
        out.2.modified = true := by
  unfold ruleWrite ruleOutcome
  cases h : getDotted fs.root rule.field with
  | none =>
    rw [runFieldRule_of_none env phase bag h]
    exact .inl ⟨rfl, rfl, rfl⟩
  | some current =>
    rw [runFieldRule_of_some env bag phase h]
    simp only [Option.map_some, Option.bind_some, writeField]
    generalize (evaluatePipeline env.toInvokers rule.pipeline current bag fs.world rule.field
      phase).1 = outcome
    cases hwrite : outcome.write with
    | none => exact .inl ⟨rfl, rfl, by simp⟩
    | some new =>
      obtain ⟨root', hroot⟩ := exists_writeNode_of_getDotted new (Option.isSome_of_eq_some h)
      have hrefusal : outcome.refusal rule.source = none := by
        cases outcome <;> first | rfl | cases hwrite
      exact .inr ⟨new, current, rfl, rfl, hrefusal, by simp [hroot], by simp⟩

/-- What a rule leaves at a path that its field does not overlap. -/
theorem runFieldRule_keeps (h : ¬ Overlap path (Text.split rule.field '.')) (fs : FieldPhase σ) :
    (runFieldRule env bag phase rule fs).2.root.getSegs path = fs.root.getSegs path := by
  rcases runFieldRule_cases env bag phase rule fs with
    ⟨-, hroot, -⟩ | ⟨new, current, -, -, -, hwritten, -⟩
  · rw [hroot]
  · exact getNode_writeNode_of_apart hwritten fun ho => h ho.symm

/-! ### Whole phases -/

/-- Some rule of the phase, started on `fs`, writes to a field that the path overlaps. -/
def WritesOver (rules : List FieldRule) (fs : FieldPhase σ) (path : List String) : Prop :=
  ∃ before rule after fs' new, rules = before ++ rule :: after ∧
    runFieldRules env bag phase before fs = (none, fs') ∧
    Overlap path (Text.split rule.field '.') ∧ ruleWrite env bag phase rule fs' = some new

/-- A phase leaves what is at a path as it was, unless a rule writes over it. -/
theorem runFieldRules_keeps (rules : List FieldRule) (fs : FieldPhase σ) (path : List String) :
    (runFieldRules env bag phase rules fs).2.root.getSegs path = fs.root.getSegs path ∨
      WritesOver env bag phase rules fs path := by
  induction rules generalizing fs with
  | nil => exact .inl rfl
  | cons rule rules ih =>
    by_cases hover : Overlap path (Text.split rule.field '.') ∧
        ∃ new, ruleWrite env bag phase rule fs = some new
    · obtain ⟨hoverlap, new, hnew⟩ := hover
      exact .inr ⟨[], rule, rules, fs, new, rfl, rfl, hoverlap, hnew⟩
    · have hrule : (runFieldRule env bag phase rule fs).2.root.getSegs path =
          fs.root.getSegs path := by
        by_cases hoverlap : Overlap path (Text.split rule.field '.')
        · rcases runFieldRule_cases env bag phase rule fs with ⟨-, hroot, -⟩ | ⟨new, _, hnew, -⟩
          · rw [hroot]
          · exact absurd ⟨hoverlap, new, hnew⟩ hover
        · exact runFieldRule_keeps env bag phase hoverlap fs
      cases hrun : runFieldRule env bag phase rule fs with
      | mk denied fs' =>
        rw [hrun] at hrule
        cases denied with
        | some decision =>
          rw [runFieldRules, hrun]
          exact .inl hrule
        | none =>
          have hcons (l : List FieldRule) :
              runFieldRules env bag phase (rule :: l) fs = runFieldRules env bag phase l fs' := by
            rw [runFieldRules, hrun]
          rw [hcons rules, ← hrule]
          refine (ih fs').imp id ?_
          rintro ⟨before, later, after, fs'', new, rfl, hpassed, hlater⟩
          exact ⟨rule :: before, later, after, fs'', new, rfl, (hcons before).trans hpassed, hlater⟩

/-- A phase keeps the mark that something was modified. -/
theorem runFieldRules_modified (rules : List FieldRule) (h : fs.modified = true) :
    (runFieldRules env bag phase rules fs).2.modified = true := by
  rw [runFieldRules_eq_walk]
  refine List.walk_induction (P := fun _ (fs : FieldPhase σ) => fs.modified = true)
    (fun rule _ fs hfs => ?_) h
  rcases runFieldRule_cases env bag phase rule fs with ⟨-, -, hmod⟩ | ⟨_, _, -, -, -, -, hmod⟩
  · rw [hmod, hfs]
  · exact hmod

/-! ### Pipelines -/

/-- The stages that set a new value: `mask`, `hash`, `pii.redact`, and `redact` unless it has a
    condition that does not hold. -/
def Stage.rewrites (bag : AttributeBag) : Stage → Bool
  | .mask _ | .hash | .scan .piiRedact => true
  | .redact condition => (condition.map (evalExpression bag)).getD true
  | _ => false

/-- No plugin has a new value for anything. -/
def NeverModifies : Prop :=
  ∀ world name bag invocation outcome,
    (env.invoke world name bag invocation).1 = .ok outcome → outcome.modifiedValue = none

omit [Platform] in
variable {env} in
theorem NeverModifies.rewritesNoValue (hmod : NeverModifies env) (fieldName : String)
    (stages : List Stage) : RewritesNoValue env phase fieldName stages :=
  fun _ _ _ _ _ _ hanswer _ => hmod _ _ _ _ _ hanswer

/-- The loop has a new value exactly if some stage set it, and then it is a text. -/
structure PipelineState.Rewritten (ps : PipelineState σ) (rewritten : Bool) : Prop where
  replaced : ps.replaced = rewritten
  text : ps.replaced = true → ps.current.isString = true

omit [Platform] in
theorem PipelineState.Rewritten.fresh (value : Json) (world : σ) :
    (⟨value, false, [], world, []⟩ : PipelineState σ).Rewritten false :=
  ⟨rfl, fun h => by cases h⟩

variable {fieldName : String}

variable {env} in
omit [Platform] in
/-- A plugin that lets the pipeline go on leaves the value. -/
theorem runPluginStage_keeps (hkeeps : RewritesNoValue env phase fieldName [.plugin name])
    (idx : Nat) (ps : PipelineState σ)
    (hpassed : (runPluginStage env.toInvokers bag fieldName phase idx name ps).1 = none) :
    (runPluginStage env.toInvokers bag fieldName phase idx name ps).2.current = ps.current ∧
      (runPluginStage env.toInvokers bag fieldName phase idx name ps).2.replaced = ps.replaced := by
  revert hpassed
  have hkeeps := hkeeps name (List.mem_singleton_self _) ps.world bag ps.current
  unfold runPluginStage
  generalize env.invoke ps.world name bag (.field fieldName ps.current phase) = r at hkeeps
  obtain ⟨answer, world⟩ := r
  intro hpassed
  cases answer with
  | error e => cases hpassed
  | ok outcome =>
    cases hd : outcome.decision with
    | allow =>
      simp only [hkeeps outcome rfl hd, hd]
      exact ⟨trivial, trivial⟩
    | deny reason source => simp [hd] at hpassed

variable {env} in
/-- A stage that lets the pipeline go on has set a value if it is one that does. -/
theorem runStage_rewritten (hkeeps : RewritesNoValue env phase fieldName [stage]) (idx : Nat)
    (h : ps.Rewritten b)
    (hpassed : (runStage env.toInvokers bag fieldName phase idx stage ps).1 = none) :
    (runStage env.toInvokers bag fieldName phase idx stage ps).2.Rewritten
      (b || stage.rewrites bag) := by
  have hset (ps : PipelineState σ) (text : String) :
      (ps.replaceWith (.string text)).Rewritten true := ⟨rfl, fun _ => rfl⟩
  cases stage with
  | plugin name =>
    obtain ⟨hcurrent, hreplaced⟩ := runPluginStage_keeps bag phase hkeeps idx ps hpassed
    simp only [runStage, Stage.rewrites, Bool.or_false]
    refine ⟨hreplaced.trans h.replaced, fun hr => ?_⟩
    rw [hcurrent]
    exact h.text (hreplaced ▸ hr)
  | mask keepLast =>
    revert hpassed
    simp only [runStage, onString, Stage.rewrites, Bool.or_true]
    split
    · exact fun _ => hset _ _
    · exact fun hpassed => absurd hpassed (Option.some_ne_none _)
  | redact condition =>
    simp only [runStage, Stage.rewrites]
    split
    · rename_i hfires
      rw [hfires, Bool.or_true]
      exact hset _ _
    · rename_i hfires
      rw [Bool.not_eq_true] at hfires
      rw [hfires, Bool.or_false]
      exact h
  | hash =>
    simp only [runStage, Stage.rewrites, Bool.or_true]
    exact hset _ _
  | scan kind =>
    cases kind with
    | piiRedact =>
      simp only [runStage, Stage.rewrites, Bool.or_true]
      exact hset _ _
    | _ =>
      simp only [runStage, Stage.rewrites, Bool.or_false]
      exact ⟨h.replaced, h.text⟩
  | taint label scopes =>
    simp only [runStage, Stage.rewrites, Bool.or_false]
    exact ⟨h.replaced, h.text⟩
  | _ =>
    -- The checks leave the state alone.
    revert hpassed
    simp only [runStage, onString, Stage.rewrites, Bool.or_false]
    repeat' split
    all_goals exact fun _ => h

/-- A stage ends a pipeline by a deny or by dropping the field. -/
theorem runStage_some (fieldName : String) (idx : Nat) (stage : Stage) (ps : PipelineState σ)
    (outcome : FieldOutcome)
    (h : (runStage env.toInvokers bag fieldName phase idx stage ps).1 = some outcome) :
    (∃ reason i, outcome = .deny reason i) ∨ outcome = .omit := by
  revert h
  cases stage with
  | plugin name =>
    simp only [runStage, runPluginStage]
    repeat' split
    all_goals simp +contextual [eq_comm]
  | scan kind => cases kind <;> simp [runStage]
  | _ =>
    simp only [runStage, onString]
    repeat' split
    all_goals simp +contextual [eq_comm]

variable {env} in
/-- A pipeline that ends in neither a deny nor the drop of its field has run all of its stages. -/
theorem runStages_replaced (hkeeps : RewritesNoValue env phase fieldName stages) (idx : Nat)
    {ps : PipelineState σ} (h : ps.Rewritten b) :
    let r := runStages env.toInvokers bag fieldName phase idx stages ps
    (∃ reason i, r.1 = .deny reason i) ∨ r.1 = .omit ∨
      if b || stages.any (·.rewrites bag) then ∃ text, r.1 = .replace (.string text)
      else r.1 = .pass := by
  induction stages generalizing idx ps b with
  | nil =>
    refine .inr (.inr ?_)
    rw [List.any_nil, Bool.or_false, runStages, ← h.replaced]
    split
    · rename_i hreplaced
      have htext := h.text hreplaced
      cases hcurrent : ps.current with
      | string text => exact ⟨text, rfl⟩
      | _ => simp [hcurrent, Json.isString] at htext
    · rfl
  | cons stage stages ih =>
    have hfirst : RewritesNoValue env phase fieldName [stage] := fun name hname =>
      hkeeps name (List.mem_singleton.mp hname ▸ List.mem_cons_self)
    have hrest : RewritesNoValue env phase fieldName stages := fun name hname =>
      hkeeps name (List.mem_cons_of_mem _ hname)
    have hstage := runStage_rewritten bag phase hfirst idx h
    have hends (outcome : FieldOutcome) :=
      runStage_some env bag phase fieldName idx stage ps outcome
    rw [runStages, List.any_cons, ← Bool.or_assoc]
    generalize runStage env.toInvokers bag fieldName phase idx stage ps = r at hstage hends
    obtain ⟨outcome, ps'⟩ := r
    cases outcome with
    | none => exact ih hrest (idx + 1) (hstage rfl)
    | some outcome =>
      rcases hends outcome rfl with hdeny | homit
      · exact .inl hdeny
      · exact .inr (.inl homit)

variable {env} in
/-- A pipeline has a new value exactly if it neither denies nor drops the field, and one of its
    stages set it. -/
theorem evaluatePipeline_replace_iff (hmod : NeverModifies env) (pipeline : Pipeline)
    (value : Json) (world : σ) (fieldName : String) :
    let outcome := (evaluatePipeline env.toInvokers pipeline value bag world fieldName phase).1
    (∃ v, outcome = .replace v) ↔
      (∀ reason i, outcome ≠ .deny reason i) ∧ outcome ≠ .omit ∧
        ∃ stage ∈ pipeline.stages, stage.rewrites bag = true := by
  have hrun := runStages_replaced bag phase
    (hmod.rewritesNoValue phase fieldName pipeline.stages) 0 (.fresh value world)
  rw [← List.any_eq_true]
  unfold evaluatePipeline
  dsimp only at hrun ⊢
  generalize (runStages env.toInvokers bag fieldName phase 0 pipeline.stages
    ⟨value, false, [], world, []⟩).1 = outcome at hrun
  rcases hrun with ⟨reason, i, rfl⟩ | rfl | hends
  · simp
  · simp
  · rw [Bool.false_or] at hends
    split at hends
    · obtain ⟨text, rfl⟩ := hends
      simp [*]
    · subst hends
      simp [*]

variable {env} in
/-- A rule that writes a value writes a text. -/
theorem ruleWrite_text (hkeeps : RewritesNoValue env phase rule.field rule.pipeline.stages)
    (h : ruleWrite env bag phase rule fs = some (some v)) : ∃ text, v = .string text := by
  obtain ⟨outcome, houtcome, hwrite⟩ := Option.bind_eq_some_iff.mp h
  obtain ⟨current, -, rfl⟩ := Option.map_eq_some_iff.mp houtcome
  have hrun := runStages_replaced bag phase hkeeps 0 (.fresh current fs.world)
  unfold evaluatePipeline at hwrite
  dsimp only at hrun
  generalize (runStages env.toInvokers bag rule.field phase 0 rule.pipeline.stages
    ⟨current, false, [], fs.world, []⟩).1 = outcome at hrun hwrite
  cases outcome with
  | replace v' =>
    cases hwrite
    split at hrun
    · simpa using hrun
    · simp at hrun
  | _ => cases hwrite

/-! ### Redactions -/

variable {env} in
/-- A rule brings nothing back: what it writes has nothing below it. -/
theorem runFieldRule_absent (hmod : NeverModifies env) (rule : FieldRule) (fs : FieldPhase σ)
    (h : fs.root.getSegs path = none) :
    (runFieldRule env bag phase rule fs).2.root.getSegs path = none := by
  rcases runFieldRule_cases env bag phase rule fs with
    ⟨-, hroot, -⟩ | ⟨new, current, hnew, hcurrent, -, hwritten, -⟩
  · rw [hroot, h]
  · by_cases hoverlap : Overlap path (Text.split rule.field '.')
    · rcases hoverlap with ⟨rest, hrest⟩ | ⟨rest, hrest⟩
      · -- A field below the path would be absent as well.
        have hbelow := getNode_append (some fs.root) path rest
        have habove : getNode (some fs.root) path = none := h
        rw [hrest, habove, getNode_none] at hbelow
        exact absurd (hbelow.symm.trans hcurrent) (Option.some_ne_none _).symm
      · have hread := getNode_writeNode_append hwritten rest
        rw [hrest] at hread
        refine hread.trans ?_
        cases rest with
        | nil =>
          -- The field itself is there.
          rw [List.append_nil] at hrest
          exact absurd ((hrest ▸ h).symm.trans hcurrent) (Option.some_ne_none _).symm
        | cons seg rest =>
          cases new with
          | none => rfl
          | some v =>
            obtain ⟨text, rfl⟩ := ruleWrite_text bag phase
              (hmod.rewritesNoValue phase rule.field rule.pipeline.stages) hnew
            rfl
    · exact (runFieldRule_keeps env bag phase hoverlap fs).trans h

/-! ### Field operations behind the rules -/

/-- The side of the payload a phase works on. -/
def DispatchPhase.side : DispatchPhase → Side
  | .pre => .args
  | .post => .result

/-- A field operation of the phase addresses a field that the path overlaps. -/
def OpsOver (effects : List Effect) (path : List String) : Prop :=
  ∃ op stages sub, .fieldOp op stages ∈ Core.walkEffects effects ∧
    splitFieldPath op = some (phase.side, sub, phase) ∧ Overlap path (Text.split sub '.')

omit [Platform] in
theorem splitFieldPath_side (h : splitFieldPath op = some (side, sub, phase)) :
    side = phase.side := by
  unfold splitFieldPath at h
  repeat' split at h
  all_goals cases h
  all_goals rfl

/-- A field operation does what a field rule on its side of the payload does, or nothing. -/
theorem dispatchFieldOp_root {st : EvalState σ} (op : String) (stages : List Stage)
    (source : String) (h : st.payload.root phase.side = some root) :
    (dispatchFieldOp env phase op stages source st).2.payload.root phase.side = some root ∨
      ∃ sub fs, splitFieldPath op = some (phase.side, sub, phase) ∧ fs.root = root ∧
        (dispatchFieldOp env phase op stages source st).2.payload.root phase.side =
          some (runFieldRule env st.bag phase ⟨sub, ⟨stages⟩, source⟩ fs).2.root := by
  unfold dispatchFieldOp
  cases hop : splitFieldPath op with
  | none => exact .inl h
  | some target =>
    obtain ⟨side, sub, sidePhase⟩ := target
    obtain rfl := splitFieldPath_side sidePhase hop
    by_cases hphase : phase = sidePhase
    · subst hphase
      refine .inr ⟨sub, ⟨root, false, [], st.world, []⟩, rfl, rfl, ?_⟩
      simp only [ne_eq, not_true, if_false, h, runFieldRule]
      repeat' split
      all_goals cases phase <;> simp_all [EvalState.putRoot, RoutePayload.root, DispatchPhase.side]
    · exact .inl (by simpa [hphase] using h)

/-- Effects keep what field rules on the fields of their operations keep. -/
theorem root_kept {P : Json → Prop}
    (hops : ∀ op stages sub source bag fs, .fieldOp op stages ∈ nodes →
      splitFieldPath op = some (phase.side, sub, phase) → P fs.root →
      P (runFieldRule env bag phase ⟨sub, ⟨stages⟩, source⟩ fs).2.root) :
    KeptBySteps env phase nodes fun _ st st' =>
      (∃ root ∈ st.payload.root phase.side, P root) →
        ∃ root ∈ st'.payload.root phase.side, P root where
  refl _ := id
  append h h' hroot := h' (h hroot)
  call _ _ _ _ := id
  parallel _ _ _ _ _ hroot := by
    -- The branches work on copies.
    unfold joinParallel
    dsimp only
    repeat' split
    all_goals exact hroot
  leaf e he hbody source st hroot := by
    cases e with
    | allow | deny | taint => exact hroot
    | plugin => rwa [dispatchEffect, dispatchPlugin_snd]
    | delegate => rwa [dispatchEffect, dispatchDelegate_snd]
    | elicit step =>
      have helicits := dispatchElicitation_elicits env step st
      rw [dispatchEffect]
      generalize dispatchElicitation env step st = r at helicits ⊢
      cases helicits <;> exact hroot
    | restrict spec =>
      obtain ⟨added, hst⟩ := dispatchRestrict_snd source spec st
      rwa [dispatchEffect, hst]
    | fieldOp op stages =>
      obtain ⟨root, hroot, hP⟩ := hroot
      rcases dispatchFieldOp_root env phase op stages source hroot with
        hsame | ⟨sub, fs, hop, rfl, hnew⟩
      · exact ⟨root, hsame, hP⟩
      · exact ⟨_, hnew, hops op stages sub source _ fs he hop hP⟩
    | sequential _ | parallel _ | when _ _ _ | pdp _ _ _ => exact nomatch hbody

/-- What effects leave of a root: they change it at fields of their operations only, and bring
    nothing back. -/
structure HandsOn (effects : List Effect) (root final : Json) : Prop where
  kept : ∀ path, ¬ OpsOver phase effects path → final.getSegs path = root.getSegs path
  absent : ∀ path, root.getSegs path = none → final.getSegs path = none

omit [Platform] in
theorem HandsOn.refl (effects : List Effect) (root : Json) : HandsOn phase effects root root :=
  ⟨fun _ _ => rfl, fun _ h => h⟩

variable {env} in
theorem evaluateEffects_handsOn (hmod : NeverModifies env) (effects : List Effect)
    (payload : RoutePayload) (world : σ) (h : payload.root phase.side = some root) :
    ∃ final ∈ (evaluateEffects env effects bag phase payload world).2.payload.root phase.side,
      HandsOn phase effects root final := by
  refine (root_kept env phase fun op stages sub source bag fs hmem hop hfs => ?_).loop effects
    (List.Subset.refl _) (.start bag payload world) ⟨root, h, .refl phase effects root⟩
  refine ⟨fun path hpath => ?_, fun path hpath => ?_⟩
  · have hapart := fun hover => hpath ⟨op, stages, sub, hmem, hop, hover⟩
    exact (runFieldRule_keeps env bag phase hapart fs).trans (hfs.kept path hpath)
  · exact runFieldRule_absent bag phase hmod _ fs (hfs.absent path hpath)

/-! ### Whole routes -/

/-- What the rules of a phase, started on `fs`, and the effects behind them do to the payload.
    `final` is what the phase hands on, `marked` whether it reports a modification. -/
structure RedactionsLand (rules : List FieldRule) (effects : List Effect) (fs : FieldPhase σ)
    (final : Json) (marked : Bool) : Prop where
  /-- A new value is at its field unless something later writes over it, and it is marked. -/
  replaced : ∀ before rule after fs' v, rules = before ++ rule :: after →
    runFieldRules env bag phase before fs = (none, fs') →
    ruleOutcome env bag phase rule fs' = some (.replace v) →
      (getDotted final rule.field = some v ∨
        WritesOver env bag phase after (runFieldRule env bag phase rule fs').2
          (Text.split rule.field '.') ∨
        OpsOver phase effects (Text.split rule.field '.')) ∧ marked = true
  /-- A dropped field is gone, and it is marked. -/
  omitted : ∀ before rule after fs', rules = before ++ rule :: after →
    runFieldRules env bag phase before fs = (none, fs') →
    ruleOutcome env bag phase rule fs' = some .omit →
      getDotted final rule.field = none ∧ marked = true
  /-- At a path that is neither at, above nor below the field of a rule or an operation, nothing
      changes. -/
  kept : ∀ path, (∀ rule ∈ rules, ¬ Overlap path (Text.split rule.field '.')) →
    ¬ OpsOver phase effects path → final.getSegs path = fs.root.getSegs path

/-- A rule that writes is followed by the rest of the phase. -/
theorem runFieldRules_of_write {after : List FieldRule}
    (hbefore : runFieldRules env bag phase before fs = (none, fs'))
    (hwrite : ruleWrite env bag phase rule fs' = some new) :
    runFieldRules env bag phase (before ++ rule :: after) fs =
        runFieldRules env bag phase after (runFieldRule env bag phase rule fs').2 ∧
      getNode (some (runFieldRule env bag phase rule fs').2.root) (Text.split rule.field '.') = new ∧
      (runFieldRule env bag phase rule fs').2.modified = true := by
  rcases runFieldRule_cases env bag phase rule fs' with
    ⟨hnone, -⟩ | ⟨new', current, hnew, -, hpassed, hwritten, hmodified⟩
  · rw [hnone] at hwrite
    cases hwrite
  · obtain rfl : new' = new := Option.some.inj (hnew.symm.trans hwrite)
    refine ⟨?_, ?_, hmodified⟩
    · rw [runFieldRules_append env phase bag hbefore, runFieldRules]
      generalize runFieldRule env bag phase rule fs' = r at hpassed
      obtain ⟨denied, fs₁⟩ := r
      subst hpassed
      rfl
    · have hread := getNode_writeNode_append hwritten []
      rwa [List.append_nil, getNode_nil] at hread

variable {env} in
/-- What the rules wrote lands where the effects hand it on. -/
theorem redactionsLand (hmod : NeverModifies env) (rules : List FieldRule) (fs : FieldPhase σ)
    (hands : HandsOn phase effects (runFieldRules env bag phase rules fs).2.root final)
    (hmarked : (runFieldRules env bag phase rules fs).2.modified = true → marked = true) :
    RedactionsLand env bag phase rules effects fs final marked where
  replaced := by
    rintro before rule after fs' v rfl hbefore houtcome
    have hwrite : ruleWrite env bag phase rule fs' = some (some v) := by
      rw [ruleWrite, houtcome]
      rfl
    obtain ⟨hrun, hvalue, hmodified⟩ := runFieldRules_of_write env bag phase hbefore hwrite
    rw [hrun] at hands hmarked
    refine ⟨?_, hmarked (runFieldRules_modified env bag phase after hmodified)⟩
    by_cases hops : OpsOver phase effects (Text.split rule.field '.')
    · exact .inr (.inr hops)
    · rcases runFieldRules_keeps env bag phase after _ (Text.split rule.field '.') with hkept | hover
      · exact .inl ((hands.kept _ hops).trans (hkept.trans hvalue))
      · exact .inr (.inl hover)
  omitted := by
    rintro before rule after fs' rfl hbefore houtcome
    have hwrite : ruleWrite env bag phase rule fs' = some none := by
      rw [ruleWrite, houtcome]
      rfl
    obtain ⟨hrun, hvalue, hmodified⟩ := runFieldRules_of_write env bag phase hbefore hwrite
    rw [hrun] at hands hmarked
    refine ⟨hands.absent _ ?_, hmarked (runFieldRules_modified env bag phase after hmodified)⟩
    rw [runFieldRules_eq_walk]
    exact List.walk_induction (P := fun _ (fs : FieldPhase σ) => fs.root.getSegs _ = none)
      (fun rule _ fs => runFieldRule_absent bag phase hmod rule fs) hvalue
  kept := by
    intro path hpath hops
    rw [hands.kept path hops]
    refine (runFieldRules_keeps env bag phase rules fs path).resolve_right ?_
    rintro ⟨before, rule, after, fs', new, rfl, -, hoverlap, -⟩
    exact hpath rule (by simp) hoverlap

end

section
attribute [local instance] Platform.bare

/-- A route that drops the date of birth and redacts the number. -/
def redactingRoute : CompiledRoute where
  routeKey := "tool:lookup"
  args := [{ field := "dob", source := "args.dob", pipeline := ⟨[.omit]⟩ },
    { field := "person.ssn", source := "args.person.ssn", pipeline := ⟨[.redact none]⟩ }]

/-- A call of the tool, with a person nested in the arguments. -/
def redactedCall : PhaseState Unit where
  bag := .new
  payload := ⟨.object [("dob", .string "1970-01-01"),
    ("person", .object [("name", .string "Alice"), ("ssn", .string "078")])], none⟩
  world := ()
  trace := []

end

end Cpex
