import Cpex.Native.Invokers
import Mathlib.Data.List.Find

/-! # The hook a route plugin is called on

A plugin of a route is called through one of the hooks it registered, the first in the order of a
hash map whose metadata fits the request. Hooks that are not bound to a phase fit every phase, and
those not bound to an entity type every entity.
-/

namespace Cpex.Core

variable {η : Type}

/-- The hook that `pick_entry` settles on, with its entry. -/
def RoutePluginEntry.pickHook (self : RoutePluginEntry η)
    (registered : List (String × HookMetadata)) (requestedEntityType : Option String)
    (requestedPhase : HookPhase) : Option (Σ _ : String, HookEntry η) :=
  self.entriesByHook.entries.find? fun e =>
    (lookupHookMetadata registered e.1).matches requestedEntityType requestedPhase

theorem RoutePluginEntry.pickEntry_eq (self : RoutePluginEntry η)
    (registered : List (String × HookMetadata)) (entityType : Option String) (phase : HookPhase) :
    self.pickEntry registered entityType phase =
      (self.pickHook registered entityType phase).map (·.2) :=
  rfl

/-- The same plugin with its hooks in another order, as another hash map has them. -/
def RoutePluginEntry.Reordered (self order : RoutePluginEntry η) : Prop :=
  order.pluginName = self.pluginName ∧
    order.entriesByHook.entries.Perm self.entriesByHook.entries

/-- A hook with this metadata is for the entity and the phase of a request, as far as both say. -/
def HookMetadata.Fits (self : HookMetadata) (entityType : Option String) (phase : HookPhase) :
    Prop :=
  (self.entityType = none ∨ entityType = none ∨ self.entityType = entityType) ∧
    (self.phase = .unphased ∨ phase = .unphased ∨ self.phase = phase)

theorem HookMetadata.matches_iff (self : HookMetadata) (entityType : Option String)
    (phase : HookPhase) : self.matches entityType phase = true ↔ self.Fits entityType phase := by
  unfold HookMetadata.«matches» HookMetadata.Fits
  cases self.entityType <;> cases entityType <;> simp [or_assoc]

/-- The hook of the message family for an entity type and a phase. -/
def CmfHook (hook entityType : String) (phase : HookPhase) : Prop :=
  (hook, ⟨some entityType, phase⟩) ∈ builtinMetadata

variable {entityType : String} {phase : HookPhase}

/-- The table has one hook of the message family for each entity type and phase. -/
theorem CmfHook.unique (ha : CmfHook a entityType phase) (hb : CmfHook b entityType phase) :
    a = b := by
  have hpairs : ∀ x ∈ builtinMetadata, ∀ y ∈ builtinMetadata,
      x.2.entityType ≠ none → x.2 = y.2 → x.1 = y.1 := by decide
  exact hpairs _ ha _ hb (nomatch ·) rfl

/-- A hook of the message family whose metadata the host has not replaced. -/
def StepHook (registered : List (String × HookMetadata)) (hook : String) : Prop :=
  registered.lookup hook = none ∧ ∃ entityType phase, CmfHook hook entityType phase

variable {hook : String} {registered : List (String × HookMetadata)}

/-- The table says of its hooks what they are for. -/
theorem CmfHook.lookup_eq (h : CmfHook hook entityType phase)
    (hregistered : registered.lookup hook = none) :
    lookupHookMetadata registered hook = ⟨some entityType, phase⟩ := by
  have htable : ∀ x ∈ builtinMetadata, builtinMetadata.lookup x.1 = some x.2 := by decide
  rw [lookupHookMetadata, List.lookup_append, hregistered, Option.none_or, htable _ h]
  rfl

theorem CmfHook.phase_ne (h : CmfHook hook entityType phase) : phase ≠ .unphased := by
  have htable : ∀ x ∈ builtinMetadata, x.2.entityType ≠ none → x.2.phase ≠ .unphased := by decide
  exact htable _ h (nomatch ·)

/-- A hook of the message family fits the requests it is made for. -/
theorem StepHook.fits_iff (h : StepHook registered hook) (hphase : phase ≠ .unphased) :
    (lookupHookMetadata registered hook).Fits (some entityType) phase ↔
      CmfHook hook entityType phase := by
  obtain ⟨hregistered, hookType, hookPhase, hhook⟩ := h
  rw [hhook.lookup_eq hregistered]
  constructor
  · rintro ⟨hentity, hphases⟩
    obtain rfl : hookType = entityType := by simpa using hentity
    obtain rfl : hookPhase = phase := by simpa [hphase, hhook.phase_ne] using hphases
    exact hhook
  · intro hrequest
    have heq := (hhook.lookup_eq hregistered).symm.trans (hrequest.lookup_eq hregistered)
    cases heq
    exact ⟨.inr (.inr rfl), .inr (.inr rfl)⟩

namespace RoutePluginEntry

variable {self order : RoutePluginEntry η} {registered : List (String × HookMetadata)}
  {entityType : Option String} {phase : HookPhase}

/-- What is picked fits, in any order of the hooks. -/
theorem Reordered.fits_of_pickHook (h : self.Reordered order)
    (hpick : order.pickHook registered entityType phase = some picked) :
    picked ∈ self.entriesByHook.entries ∧
      (lookupHookMetadata registered picked.1).Fits entityType phase := by
  have hmatches := List.find?_some hpick
  exact ⟨h.2.mem_iff.mp (List.mem_of_find?_eq_some hpick),
    (HookMetadata.matches_iff ..).mp hmatches⟩

/-- Nothing is picked exactly if no hook fits. -/
theorem Reordered.pickHook_eq_none_iff (h : self.Reordered order) :
    order.pickHook registered entityType phase = none ↔
      ∀ e ∈ self.entriesByHook.entries,
        ¬(lookupHookMetadata registered e.1).Fits entityType phase := by
  unfold pickHook
  simp only [List.find?_eq_none, HookMetadata.matches_iff, h.2.mem_iff]

/-- One hook at most fits a request. -/
def OneFits (self : RoutePluginEntry η) (registered : List (String × HookMetadata))
    (entityType : Option String) (phase : HookPhase) : Prop :=
  ∀ a ∈ self.entriesByHook.entries, ∀ b ∈ self.entriesByHook.entries,
    (lookupHookMetadata registered a.1).Fits entityType phase →
    (lookupHookMetadata registered b.1).Fits entityType phase → a.1 = b.1

/-- If one hook at most fits, every order of the hooks leads to it. -/
theorem Reordered.pickHook_eq (h : self.Reordered order)
    (hone : self.OneFits registered entityType phase) :
    order.pickHook registered entityType phase = self.pickHook registered entityType phase := by
  refine List.find?_eq_find?_of_perm h.2 ?_
  rintro a ⟨ha, hafits⟩ b ⟨hb, hbfits⟩
  have ha := h.2.mem_iff.mp ha
  have hb := h.2.mem_iff.mp hb
  have hkey := hone a ha b hb ((HookMetadata.matches_iff ..).mp hafits)
    ((HookMetadata.matches_iff ..).mp hbfits)
  exact self.entriesByHook.nodupKeys.eq_of_fst_eq ha hb hkey

/-- Of the hooks of the message family one at most fits a request for an entity in a phase. -/
theorem oneFits_of_stepHooks (hhooks : ∀ e ∈ self.entriesByHook.entries, StepHook registered e.1)
    {requestType : String} (hphase : phase ≠ .unphased) :
    self.OneFits registered (some requestType) phase := by
  intro a ha b hb hafits hbfits
  rw [(hhooks a ha).fits_iff hphase] at hafits
  rw [(hhooks b hb).fits_iff hphase] at hbfits
  exact hafits.unique hbfits

/-- Whatever the order of the hooks, the one picked fits the request, and one is picked if any fits.
    Where one hook at most fits, the order does not matter; among hooks of the message family, for a
    request with an entity type and a phase, this is always so, and the hook picked is the one for
    them. -/
theorem pickHook_context (self : RoutePluginEntry η) (registered : List (String × HookMetadata))
    (entityType : Option String) (phase : HookPhase) :
    (∀ order, self.Reordered order →
      (∀ picked, order.pickHook registered entityType phase = some picked →
        picked ∈ self.entriesByHook.entries ∧
          (lookupHookMetadata registered picked.1).Fits entityType phase) ∧
      (order.pickHook registered entityType phase = none ↔
        ∀ e ∈ self.entriesByHook.entries,
          ¬(lookupHookMetadata registered e.1).Fits entityType phase) ∧
      (self.OneFits registered entityType phase →
        order.pickEntry registered entityType phase =
          self.pickEntry registered entityType phase)) ∧
    ∀ requestType, entityType = some requestType → phase ≠ .unphased →
      (∀ e ∈ self.entriesByHook.entries, StepHook registered e.1) →
      ∀ order, self.Reordered order →
        order.pickEntry registered entityType phase = self.pickEntry registered entityType phase ∧
        ∀ picked, order.pickHook registered entityType phase = some picked →
          CmfHook picked.1 requestType phase := by
  refine ⟨fun order horder => ⟨fun picked => horder.fits_of_pickHook,
    horder.pickHook_eq_none_iff, fun hone => ?_⟩, ?_⟩
  · rw [pickEntry_eq, pickEntry_eq, horder.pickHook_eq hone]
  · rintro requestType rfl hphase hhooks order horder
    refine ⟨?_, fun picked hpicked => ?_⟩
    · rw [pickEntry_eq, pickEntry_eq, horder.pickHook_eq (oneFits_of_stepHooks hhooks hphase)]
    · obtain ⟨hmem, hfits⟩ := horder.fits_of_pickHook hpicked
      exact ((hhooks picked hmem).fits_iff hphase).mp hfits

/-- A plugin that resolves identities besides checking calls of tools, with its hooks in the given
    order. -/
def identityAndTool (hooks : List String) : RoutePluginEntry Unit where
  pluginName := "guard"
  entriesByHook := (hooks.map fun hook => (⟨hook, ⟨⟨{ name := "guard", kind := "guard" }, 0⟩, ()⟩⟩ :
    Σ _ : String, HookEntry Unit)).toAList

/-- Before a call of a tool, one order of the hooks leads to the handler for tools, the other to the
    handler that resolves identities. -/
theorem pickHook_depends_on_order :
    (identityAndTool ["cmf.tool_pre_invoke", "identity.resolve"]).Reordered
        (identityAndTool ["identity.resolve", "cmf.tool_pre_invoke"]) ∧
      ((identityAndTool ["cmf.tool_pre_invoke", "identity.resolve"]).pickHook [] (some "tool")
        .pre).map (·.1) = some "cmf.tool_pre_invoke" ∧
      ((identityAndTool ["identity.resolve", "cmf.tool_pre_invoke"]).pickHook [] (some "tool")
        .pre).map (·.1) = some "identity.resolve" ∧
      ¬∃ entityType, CmfHook "identity.resolve" entityType .pre := by
  refine ⟨⟨rfl, ?_⟩, by decide, by decide, ?_⟩
  · exact List.Perm.swap ..
  · rintro ⟨entityType, h⟩
    have hmetadata : ∀ x ∈ builtinMetadata, x.1 = "identity.resolve" → x.2.entityType = none := by
      decide
    exact nomatch hmetadata _ h rfl

end RoutePluginEntry

end Cpex.Core
