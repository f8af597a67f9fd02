import Mathlib.Data.List.Sort
import Cpex.Native.Plugin
import Cpex.ForStd.AList

/-! # The plugin registry

`cpex-core/src/registry.rs`: the plugins by name, and for each hook the entries that run there, in
the order of their priorities; and `instantiate_plugins_into` of `manager.rs`, which fills a
registry with what the host's factories make of a configuration. -/

namespace Cpex.Core

/-- `PluginRegistry`. A `HookType` is its name. -/
structure PluginRegistry (η : Type) where
  plugins : HashMap String PluginRef := ∅
  hookIndex : HashMap String (List (HookEntry η)) := ∅

/-- `PluginRef::priority`, of an entry's plugin. -/
def HookEntry.priority {η : Type} (self : HookEntry η) : Int :=
  self.pluginRef.trustedConfig.priority

/-- `sort_by_key` on the priorities. It is stable. -/
def sortByPriority {η : Type} (entries : List (HookEntry η)) : List (HookEntry η) :=
  entries.insertionSort fun a b => a.priority ≤ b.priority

namespace PluginRegistry

variable {η : Type}

/-- `hook_index.entry(hook).or_default().push(entry)`. -/
def pushEntry (hookIndex : HashMap String (List (HookEntry η))) (hook : String)
    (entry : HookEntry η) : HashMap String (List (HookEntry η)) :=
  hookIndex.insert hook ((hookIndex.lookup hook).getD [] ++ [entry])

/-- Sort the entries of one hook. -/
def sortHook (hookIndex : HashMap String (List (HookEntry η))) (hook : String) :
    HashMap String (List (HookEntry η)) :=
  match hookIndex.lookup hook with
  | none => hookIndex
  | some entries => hookIndex.insert hook (sortByPriority entries)

/-- `register_multi_handler`. The `PluginRef` is made of the configuration and a new id. -/
def registerMultiHandler (self : PluginRegistry η) (pluginRef : PluginRef)
    (handlers : List (String × η)) : Except String (PluginRegistry η) :=
  let name := pluginRef.trustedConfig.name
  if (self.plugins.lookup name).isSome then
    .error ("plugin '" ++ name ++ "' is already registered")
  else
    let pushed := handlers.foldl (fun index h => pushEntry index h.1 ⟨pluginRef, h.2⟩)
      self.hookIndex
    .ok { plugins := self.plugins.insert name pluginRef
          hookIndex := handlers.foldl (fun index h => sortHook index h.1) pushed }

/-- `register_for_names_inner`: the same handler under every name. -/
def registerForNamesInner (self : PluginRegistry η) (pluginRef : PluginRef) (handler : η)
    (names : List String) : Except String (PluginRegistry η) :=
  self.registerMultiHandler pluginRef (names.map fun name => (name, handler))

/-- The entries that `unregister` leaves of a hook; a hook without entries is dropped. -/
def retainOthers (name : String) (entries : List (HookEntry η)) : Option (List (HookEntry η)) :=
  let kept := entries.filter fun e => e.name ≠ name
  if kept.isEmpty then none else some kept

/-- `unregister`: the plugin that was removed, if there was one. -/
def unregister (self : PluginRegistry η) (name : String) : Option PluginRef × PluginRegistry η :=
  match self.plugins.lookup name with
  | none => (none, self)
  | some pluginRef =>
    (some pluginRef,
      { plugins := self.plugins.erase name
        hookIndex := self.hookIndex.filterMapValues (retainOthers name) })

/-- `entries_for_hook`. -/
def entriesForHook (self : PluginRegistry η) (hook : String) : List (HookEntry η) :=
  (self.hookIndex.lookup hook).getD []

end PluginRegistry

/-! ### Factories -/

/-- What a factory makes of a configuration, with the id its `PluginRef` is given. -/
structure PluginInstance (η : Type) where
  handlers : List (String × η)
  id : Uuid

/-- `PluginFactoryRegistry`: the `create` of the factory of a kind. -/
abbrev PluginFactoryRegistry (η : Type) :=
  String → Option (PluginConfig → Except PluginError (PluginInstance η))

variable {η : Type}

/-- The body of the loop of `instantiate_plugins_into`. -/
def instantiatePlugin (factories : PluginFactoryRegistry η) (registry : PluginRegistry η)
    (config : PluginConfig) : Except PluginError (PluginRegistry η) :=
  match factories config.kind with
  | none =>
    .error (.config ("no factory registered for plugin kind '" ++ config.kind ++ "' (plugin '" ++
      config.name ++ "')"))
  | some create => do
    let made ← create config
    (registry.registerMultiHandler ⟨config, made.id⟩ made.handlers).mapError .config

/-- `instantiate_plugins_into`. -/
def instantiatePluginsInto (registry : PluginRegistry η) (configs : List PluginConfig)
    (factories : PluginFactoryRegistry η) : Except PluginError (PluginRegistry η) :=
  configs.foldlM (instantiatePlugin factories) registry

/-- Which plugins are registered, and whether that fails, does not depend on the hooks. -/
theorem instantiatePluginsInto_plugins (factories : PluginFactoryRegistry η)
    (plugins : HashMap String PluginRef) (hooks hooks' : HashMap String (List (HookEntry η)))
    (configs : List PluginConfig) :
    (instantiatePluginsInto ⟨plugins, hooks⟩ configs factories).map (·.plugins) =
      (instantiatePluginsInto ⟨plugins, hooks'⟩ configs factories).map (·.plugins) := by
  induction configs generalizing plugins hooks hooks' with
  | nil => rfl
  | cons config configs ih =>
    unfold instantiatePluginsInto instantiatePlugin
    rw [List.foldlM_cons, List.foldlM_cons]
    cases factories config.kind with
    | none => rfl
    | some create =>
      dsimp only
      cases create config with
      | error e => rfl
      | ok made =>
        unfold PluginRegistry.registerMultiHandler
        by_cases hname : (plugins.lookup config.name).isSome
        · simp [hname, bind, Except.bind, Except.mapError, Except.map]
        · simp only [hname, bind, Except.bind]
          exact ih _ _ _

end Cpex.Core
