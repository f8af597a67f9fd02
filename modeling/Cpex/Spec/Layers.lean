import Cpex.ForStd.Overlay
import Cpex.Spec.EffectLists

/-! # Stacks of policy layers

The effective policy of a route is a fold of `apply_layer` over its layers. Effects are
concatenated, field rules are laid over one another by field, overrides by plugin. This file
says what a stack holds, and when layers put under the top one change nothing.
-/

namespace Cpex.CompiledRoute

/-! ### The parts of a stack -/

theorem layerFields_eq_overlay (base more : List FieldRule) :
    layerFields base more = base.overlay FieldRule.field more := by
  unfold layerFields List.overlay
  congr 1
  refine List.filter_congr fun f _ => ?_
  rw [List.contains_eq_mem, decide_not]

/-- Two phases and two sections of a compiled route behave alike under layering. -/
def IsPhase (part : CompiledRoute → List Effect) : Prop :=
  ∀ a b, part (a.applyLayer b) = part a ++ part b

def IsSection (part : CompiledRoute → List FieldRule) : Prop :=
  ∀ a b, part (a.applyLayer b) = (part a).overlay FieldRule.field (part b)

theorem isPhase_policy : IsPhase policy := fun _ _ => rfl

theorem isPhase_postPolicy : IsPhase postPolicy := fun _ _ => rfl

theorem isSection_args : IsSection args := fun _ _ => layerFields_eq_overlay _ _

theorem isSection_result : IsSection result := fun _ _ => layerFields_eq_overlay _ _

theorem IsPhase.foldl (h : IsPhase part) (layers : List CompiledRoute) (base : CompiledRoute) :
    part (layers.foldl applyLayer base) = part base ++ layers.flatMap part := by
  induction layers generalizing base with
  | nil => simp
  | cons l layers ih => rw [List.foldl_cons, ih, h, List.flatMap_cons, List.append_assoc]

theorem IsSection.foldl (h : IsSection part) (layers : List CompiledRoute) (base : CompiledRoute) :
    part (layers.foldl applyLayer base) =
      (layers.map part).foldl (List.overlay FieldRule.field) (part base) := by
  induction layers generalizing base with
  | nil => rfl
  | cons l layers ih => rw [List.foldl_cons, ih, h, List.map_cons, List.foldl_cons]

/-- The override of a plugin: the last layer that has one decides. -/
def layeredOverride (layers : List CompiledRoute) (plugin : String) : Option PluginOverride :=
  layers.foldl (fun found l => (l.pluginOverrides.lookup plugin).or found) none

variable (a b : CompiledRoute)

theorem lookup_applyLayer :
    (a.applyLayer b).pluginOverrides.lookup plugin =
      (b.pluginOverrides.lookup plugin).or (a.pluginOverrides.lookup plugin) :=
  AList.lookup_foldl_insert_entries

variable (layers : List CompiledRoute) (base : CompiledRoute)

theorem lookup_foldl_applyLayer :
    (layers.foldl applyLayer base).pluginOverrides.lookup plugin =
      layers.foldl (fun found l => (l.pluginOverrides.lookup plugin).or found)
        (base.pluginOverrides.lookup plugin) := by
  induction layers generalizing base with
  | nil => rfl
  | cons l layers ih => rw [List.foldl_cons, ih, lookup_applyLayer, List.foldl_cons]

theorem foldl_applyLayer_routeKey : (layers.foldl applyLayer base).routeKey = base.routeKey := by
  induction layers generalizing base with
  | nil => rfl
  | cons l layers ih => rw [List.foldl_cons, ih]; rfl

/-- A stack declares nothing when none of its layers does. -/
theorem declaresNothing_applyLayer :
    (a.applyLayer b).declaresNothing = (a.declaresNothing && b.declaresNothing) := by
  have hphase : ∀ x y : List Effect, (x ++ y).isEmpty = (x.isEmpty && y.isEmpty) := by
    intro x y
    rw [Bool.eq_iff_iff]
    simp
  have hsection : ∀ x y : List FieldRule,
      (layerFields x y).isEmpty = (x.isEmpty && y.isEmpty) := by
    intro x y
    rw [layerFields_eq_overlay, Bool.eq_iff_iff]
    simp [List.overlay_eq_nil]
  unfold declaresNothing applyLayer
  rw [hphase, hphase, hsection, hsection]
  cases a.args.isEmpty <;> cases a.policy.isEmpty <;> cases a.result.isEmpty <;>
    cases a.postPolicy.isEmpty <;> cases b.args.isEmpty <;> cases b.policy.isEmpty <;>
    cases b.result.isEmpty <;> rfl

theorem declaresNothing_foldl :
    (layers.foldl applyLayer base).declaresNothing = true ↔
      base.declaresNothing = true ∧ ∀ l ∈ layers, l.declaresNothing = true := by
  induction layers generalizing base with
  | nil => simp
  | cons l layers ih =>
    rw [List.foldl_cons, ih, declaresNothing_applyLayer, Bool.and_eq_true, List.forall_mem_cons,
      and_assoc]

theorem declaresNothing_iff (r : CompiledRoute) :
    r.declaresNothing = true ↔ r.args = [] ∧ r.policy = [] ∧ r.result = [] ∧ r.postPolicy = [] := by
  unfold declaresNothing
  simp only [Bool.and_eq_true, List.isEmpty_iff, and_assoc]

/-! ### Layers that add nothing -/

/-- The same policy: equal in every part, the overrides as maps. -/
structure SamePolicy (a b : CompiledRoute) : Prop where
  routeKey : a.routeKey = b.routeKey
  args : a.args = b.args
  policy : a.policy = b.policy
  result : a.result = b.result
  postPolicy : a.postPolicy = b.postPolicy
  overrides : ∀ plugin, a.pluginOverrides.lookup plugin = b.pluginOverrides.lookup plugin
  response : a.response = b.response

/-- Applying two layers one after the other, or as one. -/
theorem applyLayer_assoc (c : CompiledRoute) :
    SamePolicy ((a.applyLayer b).applyLayer c) (a.applyLayer (b.applyLayer c)) where
  routeKey := rfl
  args := by simp only [isSection_args _ _, List.overlay_assoc]
  policy := List.append_assoc ..
  result := by simp only [isSection_result _ _, List.overlay_assoc]
  postPolicy := List.append_assoc ..
  overrides plugin := by simp only [lookup_applyLayer, Option.or_assoc]
  response := rfl

/-- A route's own block on top of the layers it inherits. -/
def stack (key : String) (inherited : List CompiledRoute) (own : CompiledRoute) : CompiledRoute :=
  (inherited.foldl applyLayer (new key)).applyLayer own

/-- The layers `more`, put between the layers `inherited` and the block `own`, add nothing. -/
structure AddsNothing (inherited more : List CompiledRoute) (own : CompiledRoute) : Prop where
  policy : ∀ l ∈ more, l.policy = []
  postPolicy : ∀ l ∈ more, l.postPolicy = []
  /-- Their field rules are all declared again by the route. -/
  args : ∀ l ∈ more, l.args.map FieldRule.field ⊆ own.args.map FieldRule.field
  result : ∀ l ∈ more, l.result.map FieldRule.field ⊆ own.result.map FieldRule.field
  /-- Nothing is installed without them, or the plugins the route leaves alone keep their
      overrides. -/
  overrides : (∀ l ∈ inherited, l.declaresNothing = true) ∧ own.declaresNothing = true ∨
    ∀ plugin, own.pluginOverrides.lookup plugin = none →
      layeredOverride (inherited ++ more) plugin = layeredOverride inherited plugin

section
variable {inherited more : List CompiledRoute} {own : CompiledRoute} {key : String}

theorem addsNothing_nil : AddsNothing inherited [] own where
  policy _ h := nomatch h
  postPolicy _ h := nomatch h
  args _ h := nomatch h
  result _ h := nomatch h
  overrides := .inr fun _ _ => by rw [List.append_nil]

theorem IsPhase.stack (h : IsPhase part) (hnew : part (new key) = []) :
    part (stack key inherited own) = inherited.flatMap part ++ part own := by
  rw [CompiledRoute.stack, h, h.foldl, hnew, List.nil_append]

variable {part : CompiledRoute → List FieldRule}

theorem IsSection.stack (h : IsSection part) :
    part (stack key inherited own) =
      ((inherited.map part).foldl (List.overlay FieldRule.field) (part (new key))).overlay
        FieldRule.field (part own) := by
  rw [CompiledRoute.stack, h, h.foldl]

theorem lookup_stack :
    (stack key inherited own).pluginOverrides.lookup plugin =
      (own.pluginOverrides.lookup plugin).or (layeredOverride inherited plugin) := by
  rw [stack, lookup_applyLayer, lookup_foldl_applyLayer]
  rfl

theorem declaresNothing_stack :
    (stack key inherited own).declaresNothing = true ↔
      (∀ l ∈ inherited, l.declaresNothing = true) ∧ own.declaresNothing = true := by
  rw [stack, declaresNothing_applyLayer, Bool.and_eq_true, declaresNothing_foldl]
  exact ⟨fun h => ⟨h.1.2, h.2⟩, fun h => ⟨⟨rfl, h.1⟩, h.2⟩⟩

theorem stack_routeKey : (stack key inherited own).routeKey = key :=
  foldl_applyLayer_routeKey inherited (new key)

theorem foldl_applyLayer_response (layers : List CompiledRoute) (base : CompiledRoute) :
    (layers.foldl applyLayer base).response = base.response := by
  induction layers generalizing base with
  | nil => rfl
  | cons l layers ih => rw [List.foldl_cons, ih]; rfl

theorem stack_response : (stack key inherited own).response = none :=
  foldl_applyLayer_response inherited (new key)

/-- Covered sections do not show. -/
theorem IsSection.stack_append (h : IsSection part)
    (hcovered : ∀ l ∈ more, (part l).map FieldRule.field ⊆ (part own).map FieldRule.field) :
    part (CompiledRoute.stack key (inherited ++ more) own) =
      part (CompiledRoute.stack key inherited own) := by
  rw [h.stack, h.stack, List.map_append, List.foldl_append]
  refine List.foldl_overlay_covered fun l hl => ?_
  obtain ⟨r, hr, rfl⟩ := List.mem_map.mp hl
  exact hcovered r hr

/-- Sections that show nothing new are covered, if the rules of the new layers can be told from
    those of the inherited ones. -/
theorem IsSection.covered (h : IsSection part) (hnew : part (new key) = [])
    (hdisjoint : ∀ l ∈ more, ∀ l' ∈ inherited, ∀ rule ∈ part l, rule ∉ part l')
    (heq : part (CompiledRoute.stack key (inherited ++ more) own) =
      part (CompiledRoute.stack key inherited own)) :
    ∀ l ∈ more, (part l).map FieldRule.field ⊆ (part own).map FieldRule.field := by
  intro l hl field hfield
  obtain ⟨rule, hrule, rfl⟩ := List.mem_map.mp hfield
  by_contra hown
  rw [h.stack, h.stack, List.map_append, List.foldl_append] at heq
  -- Some new layer's rule for the field is in the larger stack, and shows.
  obtain ⟨_, hpart, rule', hrule', hkey, hin⟩ :=
    List.exists_mem_foldl_overlay FieldRule.field
      ((inherited.map part).foldl (List.overlay FieldRule.field) (part (new key)))
      (List.mem_map_of_mem hl) hrule
  obtain ⟨l', hl', rfl⟩ := List.mem_map.mp hpart
  have hout : rule'.field ∉ (part own).map FieldRule.field := by
    rw [hkey]
    exact hown
  have hshows : rule' ∈ List.filter
      (fun r => decide (r.field ∉ (part own).map FieldRule.field)) _ :=
    List.mem_filter.mpr ⟨hin, decide_eq_true hout⟩
  -- So it is in the smaller stack, which has rules of inherited layers only.
  rw [List.filter_eq_of_overlay_eq heq] at hshows
  rcases List.mem_of_mem_foldl_overlay (List.mem_filter.mp hshows).1 with hbase | ⟨_, hpart', hin'⟩
  · rw [hnew] at hbase
    exact nomatch hbase
  · obtain ⟨l'', hl'', rfl⟩ := List.mem_map.mp hpart'
    exact hdisjoint l' hl' l'' hl'' rule' hrule' hin'

/-- A new layer with an effect makes the phase longer. -/
theorem IsPhase.eq_nil {part : CompiledRoute → List Effect} (h : IsPhase part)
    (hnew : part (new key) = [])
    (heq : part (CompiledRoute.stack key (inherited ++ more) own) =
      part (CompiledRoute.stack key inherited own)) :
    ∀ l ∈ more, part l = [] := by
  rw [h.stack hnew, h.stack hnew, List.flatMap_append, List.append_assoc,
    List.append_cancel_left_eq] at heq
  have hlen := congrArg List.length heq
  rw [List.length_append] at hlen
  have hnil : more.flatMap part = [] := by
    rw [← List.length_eq_zero_iff]
    omega
  exact List.flatMap_eq_nil_iff.mp hnil

theorem IsPhase.stack_append {part : CompiledRoute → List Effect} (h : IsPhase part)
    (hnew : part (new key) = []) (hnil : ∀ l ∈ more, part l = []) :
    part (CompiledRoute.stack key (inherited ++ more) own) =
      part (CompiledRoute.stack key inherited own) := by
  rw [h.stack hnew, h.stack hnew, List.flatMap_append, List.flatMap_eq_nil_iff.mpr hnil,
    List.append_nil]

variable {a b : CompiledRoute}

theorem SamePolicy.declaresNothing (h : SamePolicy a b) :
    a.declaresNothing = b.declaresNothing := by
  unfold CompiledRoute.declaresNothing
  rw [h.args, h.policy, h.result, h.postPolicy]

/-- What is installed for two effective policies is the same: nothing, or the same policy. -/
def InstalledAlike (a b : CompiledRoute) : Prop :=
  a.declaresNothing = true ∧ b.declaresNothing = true ∨ SamePolicy a b

/-- A denial response of its own does not tell two policies apart. -/
theorem installedAlike_response (hresponse : a.response = b.response)
    (response : Option DenyResponse) :
    InstalledAlike { a with response } { b with response } ↔ InstalledAlike a b := by
  constructor
  · exact Or.imp_right fun h => { h with response := hresponse }
  · exact Or.imp_right fun h => { h with response := rfl }

/-- Layers that add nothing leave what is installed as it is. -/
theorem AddsNothing.installedAlike (h : AddsNothing inherited more own) :
    InstalledAlike (stack key (inherited ++ more) own) (stack key inherited own) := by
  rcases h.overrides with ⟨hinherited, hown⟩ | hoverrides
  · -- Nothing is installed: the new layers could only declare what the route declares.
    obtain ⟨hargs, _, hresult, _⟩ := (declaresNothing_iff own).mp hown
    refine .inl ⟨declaresNothing_stack.mpr ⟨fun l hl => ?_, hown⟩,
      declaresNothing_stack.mpr ⟨hinherited, hown⟩⟩
    rcases List.mem_append.mp hl with hl | hl
    · exact hinherited l hl
    · have hlargs := h.args l hl
      have hlresult := h.result l hl
      rw [hargs] at hlargs
      rw [hresult] at hlresult
      rw [declaresNothing_iff]
      exact ⟨List.map_eq_nil_iff.mp (List.subset_nil.mp hlargs), h.policy l hl,
        List.map_eq_nil_iff.mp (List.subset_nil.mp hlresult), h.postPolicy l hl⟩
  · refine .inr
      { routeKey := stack_routeKey.trans stack_routeKey.symm
        args := isSection_args.stack_append h.args
        policy := isPhase_policy.stack_append rfl h.policy
        result := isSection_result.stack_append h.result
        postPolicy := isPhase_postPolicy.stack_append rfl h.postPolicy
        overrides := fun plugin => ?_
        response := stack_response.trans stack_response.symm }
    rw [lookup_stack, lookup_stack]
    cases hplugin : own.pluginOverrides.lookup plugin with
    | none => rw [hoverrides plugin hplugin]
    | some o => rfl

/-- Layers that leave what is installed as it is add nothing. -/
theorem addsNothing_of_installedAlike
    (hargs : ∀ l ∈ more, ∀ l' ∈ inherited, ∀ rule ∈ l.args, rule ∉ l'.args)
    (hresult : ∀ l ∈ more, ∀ l' ∈ inherited, ∀ rule ∈ l.result, rule ∉ l'.result)
    (h : InstalledAlike (stack key (inherited ++ more) own) (stack key inherited own)) :
    AddsNothing inherited more own := by
  rcases h with ⟨hafter, hbefore⟩ | hsame
  · have hmore : ∀ l ∈ more, l.args = [] ∧ l.policy = [] ∧ l.result = [] ∧ l.postPolicy = [] :=
      fun l hl => (declaresNothing_iff l).mp
        ((declaresNothing_stack.mp hafter).1 l (List.mem_append_right _ hl))
    exact
      { policy := fun l hl => (hmore l hl).2.1
        postPolicy := fun l hl => (hmore l hl).2.2.2
        args := fun l hl => by rw [(hmore l hl).1]; exact List.nil_subset _
        result := fun l hl => by rw [(hmore l hl).2.2.1]; exact List.nil_subset _
        overrides := .inl (declaresNothing_stack.mp hbefore) }
  · refine
      { policy := isPhase_policy.eq_nil rfl hsame.policy
        postPolicy := isPhase_postPolicy.eq_nil rfl hsame.postPolicy
        args := isSection_args.covered rfl hargs hsame.args
        result := isSection_result.covered rfl hresult hsame.result
        overrides := .inr fun plugin hplugin => ?_ }
    have hlookup := hsame.overrides plugin
    rw [lookup_stack, lookup_stack, hplugin] at hlookup
    exact hlookup

/-! ### What a stack declares -/

/-- Everything `layer` declares is declared by one of `layers`: its effects, and rules for its
    fields. -/
structure DeclaredBy (layer : CompiledRoute) (layers : List CompiledRoute) : Prop where
  policy : ∀ effect ∈ layer.policy, ∃ l ∈ layers, effect ∈ l.policy
  postPolicy : ∀ effect ∈ layer.postPolicy, ∃ l ∈ layers, effect ∈ l.postPolicy
  args : ∀ field ∈ layer.args.map FieldRule.field,
    ∃ l ∈ layers, field ∈ l.args.map FieldRule.field
  result : ∀ field ∈ layer.result.map FieldRule.field,
    ∃ l ∈ layers, field ∈ l.result.map FieldRule.field

/-- Everything `layer` declares is part of the policy `effective`; a field may have got a more
    specific rule. -/
structure PartOf (layer effective : CompiledRoute) : Prop where
  policy : layer.policy ⊆ effective.policy
  postPolicy : layer.postPolicy ⊆ effective.postPolicy
  args : layer.args.map FieldRule.field ⊆ effective.args.map FieldRule.field
  result : layer.result.map FieldRule.field ⊆ effective.result.map FieldRule.field

theorem IsPhase.mem_stack {part : CompiledRoute → List Effect} (h : IsPhase part)
    (hnew : part (new key) = []) {effect : Effect} :
    effect ∈ part (CompiledRoute.stack key inherited own) ↔
      ∃ l ∈ inherited ++ [own], effect ∈ part l := by
  rw [h.stack hnew, List.mem_append, List.mem_flatMap]
  simp only [List.mem_append, List.mem_singleton, or_and_right, exists_or, exists_eq_left]

theorem IsSection.mem_stack (h : IsSection part) (hnew : part (new key) = []) {field : String} :
    field ∈ (part (CompiledRoute.stack key inherited own)).map FieldRule.field ↔
      ∃ l ∈ inherited ++ [own], field ∈ (part l).map FieldRule.field := by
  rw [h.stack, List.mem_map_key_overlay, List.mem_map_key_foldl_overlay, hnew]
  simp only [List.map_nil, List.not_mem_nil, false_or, List.mem_map, exists_exists_and_eq_and,
    List.mem_append, List.mem_singleton, or_and_right, exists_or, exists_eq_left]

/-- What is part of a stack is what its layers declare. -/
theorem partOf_stack_iff {layer : CompiledRoute} :
    layer.PartOf (stack key inherited own) ↔ layer.DeclaredBy (inherited ++ [own]) := by
  constructor
  · intro h
    exact
      { policy := fun effect he => (isPhase_policy.mem_stack rfl).mp (h.policy he)
        postPolicy := fun effect he => (isPhase_postPolicy.mem_stack rfl).mp (h.postPolicy he)
        args := fun field hf => (isSection_args.mem_stack rfl).mp (h.args hf)
        result := fun field hf => (isSection_result.mem_stack rfl).mp (h.result hf) }
  · intro h
    exact
      { policy := fun effect he => (isPhase_policy.mem_stack rfl).mpr (h.policy effect he)
        postPolicy := fun effect he =>
          (isPhase_postPolicy.mem_stack rfl).mpr (h.postPolicy effect he)
        args := fun field hf => (isSection_args.mem_stack rfl).mpr (h.args field hf)
        result := fun field hf => (isSection_result.mem_stack rfl).mpr (h.result field hf) }

theorem declaredBy_of_mem {layer : CompiledRoute} {layers : List CompiledRoute}
    (h : layer ∈ layers) : layer.DeclaredBy layers where
  policy _ he := ⟨layer, h, he⟩
  postPolicy _ he := ⟨layer, h, he⟩
  args _ hf := ⟨layer, h, hf⟩
  result _ hf := ⟨layer, h, hf⟩

end

/-! ### Evaluating a stack -/

section
variable [Platform] {σ : Type} (env : Env σ) (phase : DispatchPhase) {es : List Effect}
  (more : List Effect)

/-- A walk that stopped does not get to what follows. -/
theorem evaluateLoop_append (h : (evaluateLoop env phase es st).1 ≠ .continue) :
    evaluateLoop env phase (es ++ more) st = evaluateLoop env phase es st := by
  rw [evaluateLoop_eq_dispatchAll] at h
  rw [evaluateLoop_eq_dispatchAll, evaluateLoop_eq_dispatchAll, dispatchAll_append]
  generalize dispatchAll env phase "" es st = r at h
  obtain ⟨outcome, st'⟩ := r
  cases outcome with
  | «continue» => exact absurd rfl h
  | halt decision => rfl
  | pending bundle => rfl

/-- A phase that denies, denies with any effects behind it, and in the same way. -/
theorem evaluateEffects_append
    (h : (evaluateEffects env es bag phase payload world).1.decision ≠ .allow) :
    evaluateEffects env (es ++ more) bag phase payload world =
      evaluateEffects env es bag phase payload world := by
  have hstop : (evaluateLoop env phase es (.start bag payload world)).1 ≠ .continue := by
    intro hgo
    rcases hrun : evaluateLoop env phase es (.start bag payload world) with ⟨outcome, st⟩
    rw [hrun] at hgo
    obtain rfl : outcome = .continue := hgo
    exact h (by simp only [evaluateEffects, hrun])
  unfold evaluateEffects
  rw [evaluateLoop_append env phase more hstop]

end

/-- Layers can be grouped in any way; and if the policy of a layer alone denies, then so does its
    policy with any more specific layers applied, with the same decision, taints and constraints.
    The invokers may answer in any way that their state and their arguments determine. -/
theorem layers_assoc_and_deny_final [Platform] (a b c : CompiledRoute) :
    SamePolicy ((a.applyLayer b).applyLayer c) (a.applyLayer (b.applyLayer c)) ∧
      ∀ {σ : Type} (env : Env σ) (bag : AttributeBag) (phase : DispatchPhase)
        (payload : RoutePayload) (world : σ) (layers : List CompiledRoute),
        let alone := (evaluateEffects env a.policy bag phase payload world).1
        let stacked :=
          (evaluateEffects env (layers.foldl applyLayer a).policy bag phase payload world).1
        alone.decision ≠ .allow → stacked.decision = alone.decision ∧
          stacked.taints = alone.taints ∧ stacked.constraints = alone.constraints := by
  refine ⟨applyLayer_assoc a b c, fun env bag phase payload world layers hdeny => ?_⟩
  rw [isPhase_policy.foldl, evaluateEffects_append env phase _ hdeny]
  exact ⟨rfl, rfl, rfl⟩

section
attribute [local instance] Platform.bare

/-- A broader layer that denies after a taint, under one that would allow. -/
theorem layers_deny_final_tainted :
    let a : CompiledRoute :=
      { routeKey := "tool:pay", policy := [.taint "seen" [.session], .deny none none] }
    let b : CompiledRoute := { routeKey := "tool:pay", policy := [.allow] }
    let run (policy : List Effect) :=
      (evaluateEffects ⟨permissive, .orderly⟩ policy .new .pre ⟨.null, none⟩ ()).1
    (run (a.applyLayer b).policy).decision = .deny none "" ∧
      (run (a.applyLayer b).policy).taints = [⟨"seen", [.session]⟩] := by
  intro a b run
  obtain ⟨hdecision, htaints, -⟩ := (layers_assoc_and_deny_final a b b).2
    ⟨permissive, .orderly⟩ .new .pre ⟨.null, none⟩ () [b] (by decide)
  exact ⟨hdecision, htaints⟩

end

end Cpex.CompiledRoute
