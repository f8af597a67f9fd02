import Cpex.ForStd.KeepLast
import Cpex.Native.Config

/-! # The plugins of a request

`resolve_plugins_for_entity` puts the layers of the configuration one after the other, from `all` to
the route, and keeps the last mention of each plugin. So a more specific layer wins. The groups of
the merged tags are one layer, in which the groups follow each other in the order of a hash set. That
order shows in the result, unless of any two groups the one is the end of the other.
-/

namespace Cpex.Core

/-! ### Deduplication -/

theorem pushUnseen_concat :
    pushUnseen seen (l ++ [rp]) = pushUnseen seen l ++
      if rp.name ∈ seen ∨ rp.name ∈ l.map (·.name) then [] else [rp] := by
  induction l generalizing seen with
  | nil => by_cases h : rp.name ∈ seen <;> simp [pushUnseen, h]
  | cons a l ih =>
    rw [List.cons_append, pushUnseen, pushUnseen]
    by_cases ha : a.name ∈ seen
    · rw [if_pos ha, if_pos ha, ih]
      by_cases heq : rp.name = a.name
      · simp [heq, ha]
      · simp [heq]
    · rw [if_neg ha, if_neg ha, ih, List.cons_append]
      simp only [List.map_cons, List.mem_cons, or_assoc, or_left_comm]

/-- The loop from the end keeps the last mention of each plugin. -/
theorem dedupByName_eq : dedupByName l = l.keepLast (·.name) := by
  induction l with
  | nil => rfl
  | cons rp l ih =>
    rw [List.keepLast_cons, ← ih, dedupByName, List.reverse_cons, pushUnseen_concat, dedupByName]
    simp only [List.not_mem_nil, false_or, List.map_reverse, List.mem_reverse]
    split <;> simp

/-! ### Layers -/

/-- The request's tags and the static tags of the route. -/
def mergedTags (route : RouteEntry) (requestTags : Finset String) : Finset String :=
  (routeStaticTags route).foldl (fun s tag => insert tag s) requestTags

/-- What a tag contributes: the plugins of its group. `all` is a layer of its own. -/
def tagPlugins (config : CpexConfig) (tag : String) : List ResolvedPlugin :=
  if tag = "all" then [] else groupPlugins config.global.policies tag

/-- The layers of a request without a route. -/
def baseLayers (config : CpexConfig) (entityType : String) : List (List ResolvedPlugin) :=
  [groupPlugins config.global.policies "all", groupPlugins config.global.defaults entityType]

/-- The layers of a request, from the least specific to the most specific. -/
def layers (config : CpexConfig) (hash : HashOrder) (entityType entityName : String)
    (scope : Option String) (requestTags : Finset String) : List (List ResolvedPlugin) :=
  baseLayers config entityType ++
    match findMatchingRoute config entityType entityName scope with
    | none => []
    | some (route, _) =>
      [(hash.iter (mergedTags route requestTags)).flatMap (tagPlugins config),
        collectPluginRefs route.plugins route.when]

section
variable {config : CpexConfig} {entityType entityName : String} {scope : Option String}
  {requestTags : Finset String}

theorem resolvePluginsForEntity_eq (hrouting : config.routingEnabled = true) (hash : HashOrder) :
    resolvePluginsForEntity config hash entityType entityName scope requestTags =
      (layers config hash entityType entityName scope requestTags).flatten.keepLast (·.name) := by
  rw [resolvePluginsForEntity, if_pos hrouting, dedupByName_eq, layers]
  congr 1
  rw [List.flatten_append]
  congr 1
  · simp [baseLayers]
  · cases findMatchingRoute config entityType entityName scope with
    | none => rfl
    | some selected =>
      simp only [List.flatten_cons, List.flatten_nil, List.append_nil]
      rfl

/-- What is kept of a list of layers comes from the last layer that names it. -/
theorem mem_keepLast_flatten {ls : List (List ResolvedPlugin)}
    (h : rp ∈ ls.flatten.keepLast (·.name)) :
    ∃ before layer after, ls = before ++ layer :: after ∧ rp ∈ layer ∧
      ∀ other ∈ after, rp.name ∉ other.map (·.name) := by
  induction ls with
  | nil => exact absurd h List.not_mem_nil
  | cons layer ls ih =>
    rw [List.flatten_cons, List.keepLast_append, List.mem_append] at h
    rcases h with hlayer | hrest
    · obtain ⟨hmem, hfresh⟩ := List.mem_filter.mp hlayer
      refine ⟨[], layer, ls, rfl, (List.keepLast_sublist _ _).subset hmem, fun other hother hn => ?_⟩
      obtain ⟨rp', hrp', hname⟩ := List.mem_map.mp hn
      have hin : rp.name ∈ ls.flatten.map (·.name) :=
        List.mem_map.mpr ⟨rp', List.mem_flatten_of_mem hother hrp', hname⟩
      exact of_decide_eq_true hfresh hin
    · obtain ⟨before, layer', after, rfl, hmem, hlater⟩ := ih hrest
      exact ⟨layer :: before, layer', after, rfl, hmem, hlater⟩

/-! ### The order of the tags -/

/-- Every listing of the elements of a set is an iteration order of it. -/
theorem HashOrder.exists_iter_eq (hnodup : l.Nodup) (hmem : ∀ x, x ∈ l ↔ x ∈ s) :
    ∃ hash : HashOrder, hash.iter s = l := by
  refine ⟨⟨fun u => if u = s then l else u.toList, fun u x => ?_, fun u => ?_⟩, if_pos rfl⟩
  · by_cases hu : u = s
    · rw [if_pos hu, hu, hmem]
    · rw [if_neg hu, Finset.mem_toList]
  · by_cases hu : u = s
    · rw [if_pos hu]
      exact hnodup
    · rw [if_neg hu]
      exact Finset.nodup_toList u

theorem HashOrder.exists_iter_last (h : tag ∈ s) :
    ∃ (hash : HashOrder) (front : List String), hash.iter s = front ++ [tag] := by
  have hnodup : ((s.erase tag).toList ++ [tag]).Nodup := by
    refine List.nodup_append.mpr ⟨Finset.nodup_toList _, List.nodup_singleton _, ?_⟩
    intro a ha b hb
    rw [List.mem_singleton.mp hb]
    exact Finset.ne_of_mem_erase (Finset.mem_toList.mp ha)
  have hmem (x : String) : x ∈ (s.erase tag).toList ++ [tag] ↔ x ∈ s := by
    by_cases hx : x = tag
    · simp [hx, h]
    · simp [hx]
  obtain ⟨hash, hiter⟩ := HashOrder.exists_iter_eq hnodup hmem
  exact ⟨hash, _, hiter⟩

/-- What is left of the group of a tag beside the route's own plugins. -/
def groupShare (config : CpexConfig) (route : RouteEntry) (tag : String) : List ResolvedPlugin :=
  (tagPlugins config tag).filter fun rp =>
    rp.name ∉ (collectPluginRefs route.plugins route.when).map (·.name)

/-- Of any two groups that the tags name, the one ends the other, without the route's own plugins
    and with the last mention of each plugin. -/
def NestedGroups (config : CpexConfig) (route : RouteEntry) (requestTags : Finset String) : Prop :=
  ∀ tag ∈ mergedTags route requestTags, ∀ tag' ∈ mergedTags route requestTags,
    (groupShare config route tag).keepLast (·.name) <:+
        (groupShare config route tag').keepLast (·.name) ∨
      (groupShare config route tag').keepLast (·.name) <:+
        (groupShare config route tag).keepLast (·.name)

/-- Blocks in two orders of the same elements: the order does not show exactly if the blocks are
    ends of each other. -/
theorem groupLayer_order_iff (f : String → List ResolvedPlugin) (tags : Finset String) :
    (∀ hash hash' : HashOrder, ((hash.iter tags).flatMap f).keepLast (·.name) =
        ((hash'.iter tags).flatMap f).keepLast (·.name)) ↔
      ∀ tag ∈ tags, ∀ tag' ∈ tags, (f tag).keepLast (·.name) <:+ (f tag').keepLast (·.name) ∨
        (f tag').keepLast (·.name) <:+ (f tag).keepLast (·.name) := by
  constructor
  · intro hsame tag htag tag' htag'
    -- The group that comes last is the end of the result.
    obtain ⟨hash, front, hiter⟩ := HashOrder.exists_iter_last htag
    obtain ⟨hash', front', hiter'⟩ := HashOrder.exists_iter_last htag'
    have hend (front : List String) (tag : String) :
        (f tag).keepLast (·.name) <:+ ((front ++ [tag]).flatMap f).keepLast (·.name) := by
      rw [List.flatMap_append, List.flatMap_singleton]
      exact List.keepLast_suffix_append _ _ _
    have hsuffix := hend front tag
    rw [← hiter, hsame hash hash', hiter'] at hsuffix
    exact List.suffix_or_suffix_of_suffix hsuffix (hend front' tag')
  · intro hnested hash hash'
    by_cases hnil : hash.iter tags = []
    · have hempty : hash'.iter tags = [] := by
        rw [List.eq_nil_iff_forall_not_mem] at hnil ⊢
        exact fun x hx => hnil x ((hash.mem_iter _ _).mpr ((hash'.mem_iter _ _).mp hx))
      rw [hnil, hempty]
    · obtain ⟨longest, hlongest, hends⟩ :=
        List.exists_longest_block (fun tag => (f tag).keepLast (·.name)) hnil
          fun tag htag tag' htag' => hnested tag ((hash.mem_iter _ _).mp htag) tag'
            ((hash.mem_iter _ _).mp htag')
      have hleft (order : HashOrder) :
          ((order.iter tags).flatMap f).keepLast (·.name) = (f longest).keepLast (·.name) := by
        refine List.keepLast_flatMap_eq _ f ?_ fun tag htag => ?_
        · exact (order.mem_iter _ _).mpr ((hash.mem_iter _ _).mp hlongest)
        · exact hends tag ((hash.mem_iter _ _).mpr ((order.mem_iter _ _).mp htag))
      rw [hleft hash, hleft hash']

/-- The result in parts: the base layers without what is named later, what is left of the groups, and
    the route's own plugins. -/
theorem keepLast_layers_of_route
    (hroute : findMatchingRoute config entityType entityName scope = some (route, i))
    (hash : HashOrder) :
    let groups := (hash.iter (mergedTags route requestTags)).flatMap (tagPlugins config)
    let own := collectPluginRefs route.plugins route.when
    (layers config hash entityType entityName scope requestTags).flatten.keepLast (·.name) =
      ((baseLayers config entityType).flatten.keepLast (·.name)).filter
          (fun rp => rp.name ∉ (groups ++ own).map (·.name)) ++
        (((hash.iter (mergedTags route requestTags)).flatMap (groupShare config route)).keepLast
          (·.name) ++ own.keepLast (·.name)) := by
  intro groups own
  have hlayers : (layers config hash entityType entityName scope requestTags).flatten =
      (baseLayers config entityType).flatten ++ (groups ++ own) := by
    simp [layers, hroute, groups, own]
  have hshare : (hash.iter (mergedTags route requestTags)).flatMap (groupShare config route) =
      groups.filter fun rp => rp.name ∉ own.map (·.name) := by
    rw [List.filter_flatMap]
    rfl
  rw [hlayers, List.keepLast_append, List.keepLast_append, hshare,
    List.keepLast_filter (fun rp : ResolvedPlugin => rp.name) (fun n => n ∉ own.map (·.name))]

/-- The order of the tags does not show exactly if the groups are nested. -/
theorem resolve_order_iff (hrouting : config.routingEnabled = true)
    (hroute : findMatchingRoute config entityType entityName scope = some (route, i)) :
    (∀ hash hash' : HashOrder,
      resolvePluginsForEntity config hash entityType entityName scope requestTags =
        resolvePluginsForEntity config hash' entityType entityName scope requestTags) ↔
      NestedGroups config route requestTags := by
  unfold NestedGroups
  rw [← groupLayer_order_iff]
  refine forall₂_congr fun hash hash' => ?_
  rw [resolvePluginsForEntity_eq hrouting, resolvePluginsForEntity_eq hrouting,
    keepLast_layers_of_route hroute, keepLast_layers_of_route hroute]
  -- Which names the groups have does not depend on their order.
  have hnames (n : String) :
      n ∈ (((hash.iter (mergedTags route requestTags)).flatMap (tagPlugins config)) ++
          collectPluginRefs route.plugins route.when).map (·.name) ↔
        n ∈ (((hash'.iter (mergedTags route requestTags)).flatMap (tagPlugins config)) ++
          collectPluginRefs route.plugins route.when).map (·.name) := by
    simp only [List.map_append, List.mem_append, List.mem_map, List.mem_flatMap, hash.mem_iter,
      hash'.mem_iter]
  simp only [hnames]
  rw [List.append_cancel_left_eq, List.append_cancel_right_eq]

end

/-- Plugin resolution depends on the order of the tags, unless the groups are nested. Each plugin
    comes up once, if routing is on or no two plugins have the same name, and is taken from the most
    specific layer that names it. -/
theorem resolvePluginsForEntity_order_iff (config : CpexConfig) (entityType entityName : String)
    (scope : Option String) (requestTags : Finset String) :
    ((∀ hash hash' : HashOrder,
      resolvePluginsForEntity config hash entityType entityName scope requestTags =
        resolvePluginsForEntity config hash' entityType entityName scope requestTags) ↔
      (config.routingEnabled = true → ∀ route i,
        findMatchingRoute config entityType entityName scope = some (route, i) →
          NestedGroups config route requestTags)) ∧
      ∀ hash : HashOrder,
        let resolved := resolvePluginsForEntity config hash entityType entityName scope requestTags
        ((resolved.map (·.name)).Nodup ↔
            config.routingEnabled = true ∨ (config.plugins.map (·.name)).Nodup) ∧
          (config.routingEnabled = true →
            (∀ rp ∈ resolved, ∃ before layer after,
              layers config hash entityType entityName scope requestTags =
                before ++ layer :: after ∧ rp ∈ layer ∧
              ∀ other ∈ after, rp.name ∉ other.map (·.name)) ∧
            ∀ layer ∈ layers config hash entityType entityName scope requestTags,
              ∀ rp ∈ layer, rp.name ∈ resolved.map (·.name)) := by
  cases hrouting : config.routingEnabled with
  | false =>
    have hall (hash : HashOrder) :
        resolvePluginsForEntity config hash entityType entityName scope requestTags =
          config.plugins.map fun p => ⟨p.name, none, none⟩ := by
      rw [resolvePluginsForEntity, hrouting]
      rfl
    simp [hall, Function.comp_def]
  | true =>
    refine ⟨?_, fun hash => ⟨?_, fun _ => ⟨fun rp hrp => ?_, fun layer hlayer rp hrp => ?_⟩⟩⟩
    · cases hroute : findMatchingRoute config entityType entityName scope with
      | some selected =>
        rw [resolve_order_iff hrouting hroute]
        refine ⟨fun hnested _ route i heq => ?_, fun hnested => hnested rfl _ _ rfl⟩
        cases heq
        exact hnested
      | none =>
        -- Without a route no tag is looked at.
        have hbase (hash : HashOrder) :
            resolvePluginsForEntity config hash entityType entityName scope requestTags =
              (baseLayers config entityType).flatten.keepLast (·.name) := by
          rw [resolvePluginsForEntity_eq hrouting, layers, hroute, List.append_nil]
        simp [hbase]
    · rw [resolvePluginsForEntity_eq hrouting]
      simp [List.nodup_map_keepLast]
    · rw [resolvePluginsForEntity_eq hrouting] at hrp
      exact mem_keepLast_flatten hrp
    · rw [resolvePluginsForEntity_eq hrouting, List.mem_map_keepLast]
      exact List.mem_map_of_mem (List.mem_flatten_of_mem hlayer hrp)

/-- The groups `eu` and `us`, and a route. -/
def twoGroups (eu us : List PluginRouteRef) : CpexConfig where
  global := { policies := (AList.singleton "eu" { plugins := eu }).insert "us" { plugins := us } }
  routes := [{ tool := some (.single "pay") }]
  pluginSettings := { routingEnabled := true }

def limiter (limit : Nat) : PluginRouteRef :=
  .withOverrides (AList.singleton "limiter" (.number (.posInt limit)))

/-- Two groups that configure the same plugin in different ways. -/
def twoLimits : CpexConfig := twoGroups [limiter 1] [limiter 2]

/-- The limit of a request that is tagged for both is that of the tag that comes last. -/
theorem resolvePluginsForEntity_order_shows :
    ∃ hash hash' : HashOrder,
      resolvePluginsForEntity twoLimits hash "tool" "pay" none {"eu", "us"} =
          [⟨"limiter", some (.number (.posInt 2)), none⟩] ∧
        resolvePluginsForEntity twoLimits hash' "tool" "pay" none {"eu", "us"} =
          [⟨"limiter", some (.number (.posInt 1)), none⟩] := by
  have hresolved (hash : HashOrder) :
      resolvePluginsForEntity twoLimits hash "tool" "pay" none {"eu", "us"} =
        dedupByName ((hash.iter {"eu", "us"}).flatMap (tagPlugins twoLimits) ++ []) := rfl
  obtain ⟨hash, hiter⟩ := HashOrder.exists_iter_eq (s := {"eu", "us"}) (l := ["eu", "us"])
    (by decide) (by simp)
  obtain ⟨hash', hiter'⟩ := HashOrder.exists_iter_eq (s := {"eu", "us"}) (l := ["us", "eu"])
    (by decide) (by simp [or_comm])
  exact ⟨hash, hash', by rw [hresolved, hiter]; rfl, by rw [hresolved, hiter']; rfl⟩

/-- Two groups of which the one ends the other. -/
def nestedLimits : CpexConfig := twoGroups [limiter 1] [.name "audit", limiter 1]

/-- The order does not show, and each plugin comes up once. -/
theorem resolvePluginsForEntity_order_nested :
    (∀ hash hash' : HashOrder,
      resolvePluginsForEntity nestedLimits hash "tool" "pay" none {"eu", "us"} =
        resolvePluginsForEntity nestedLimits hash' "tool" "pay" none {"eu", "us"}) ∧
      ∀ hash : HashOrder, ((resolvePluginsForEntity nestedLimits hash "tool" "pay" none
        {"eu", "us"}).map (·.name)).Nodup := by
  obtain ⟨horder, hall⟩ :=
    resolvePluginsForEntity_order_iff nestedLimits "tool" "pay" none {"eu", "us"}
  refine ⟨horder.mpr fun _ route i hroute tag htag tag' htag' => ?_,
    fun hash => (hall hash).1.mpr (.inl rfl)⟩
  cases hroute
  have hcases {tag : String} (h : tag ∈ ({"eu", "us"} : Finset String)) :
      tag = "eu" ∨ tag = "us" := by
    simpa using h
  rcases hcases htag with rfl | rfl <;> rcases hcases htag' with rfl | rfl
  · exact .inl List.suffix_rfl
  · exact .inl ⟨[⟨"audit", none, none⟩], rfl⟩
  · exact .inr ⟨[⟨"audit", none, none⟩], rfl⟩
  · exact .inl List.suffix_rfl

end Cpex.Core
