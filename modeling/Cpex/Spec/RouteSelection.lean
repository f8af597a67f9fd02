import Cpex.Native.Config

/-! # The selected route

`find_matching_route` selects the first of the routes with the greatest score. The score is read off
the text of the matcher: a single name without `*` counts as exact. But `?` is a wildcard as well, so
a pattern such as `pa?` counts as exact too, and can win over the route that has the name `pay`.
-/

namespace Cpex

/-! ### Wildcards -/

/-- A pattern without wildcards matches itself only. -/
theorem Text.wildMatchChars_literal {cs : List Char} (h : '*' ∉ ps ∧ '?' ∉ ps) :
    Text.wildMatchChars ps cs = true ↔ ps = cs := by
  induction ps generalizing cs with
  | nil => cases cs <;> simp [wildMatchChars]
  | cons p ps ih =>
    simp only [List.mem_cons, not_or] at h
    have hstar : p ≠ '*' := Ne.symm h.1.1
    have hquestion : p ≠ '?' := Ne.symm h.2.1
    cases cs with
    | nil => simp [wildMatchChars]
    | cons c cs => simp [wildMatchChars, ih ⟨h.1.2, h.2.2⟩]

theorem Text.containsChar_eq_false_iff {s : String} {c : Char} :
    Text.containsChar s c = false ↔ c ∉ s.toList := by
  simp [containsChar]

theorem Text.wildMatch_literal {s : String} (hstar : containsChar pattern '*' = false)
    (hquestion : containsChar pattern '?' = false) :
    Text.wildMatch pattern s = true ↔ pattern = s := by
  rw [wildMatch, wildMatchChars_literal ⟨containsChar_eq_false_iff.mp hstar,
    containsChar_eq_false_iff.mp hquestion⟩, String.toList_inj]

namespace Core

/-! ### Scores -/

/-- The route is global, or its scope is the request's. -/
def RouteEntry.Covers (route : RouteEntry) (scope : Option String) : Prop :=
  route.scope = none ∨ route.scope = scope

/-- The route's matcher for the entity type matches the name. -/
def RouteEntry.Matches (route : RouteEntry) (entityType entityName : String) : Prop :=
  ∃ m, route.entityMatcher entityType = some m ∧ m.matches entityName = true

/-- The route names the entity as a single name without wildcards. -/
def RouteEntry.NamesLiterally (route : RouteEntry) (entityType entityName : String) : Prop :=
  route.entityMatcher entityType = some (.single entityName) ∧
    Text.containsChar entityName '*' = false ∧ Text.containsChar entityName '?' = false

/-- The route matches by a single pattern with a `?` and without a `*`. -/
def RouteEntry.MatchesByQuestion (route : RouteEntry) (entityType entityName : String) : Prop :=
  ∃ p, route.entityMatcher entityType = some (.single p) ∧ Text.wildMatch p entityName = true ∧
    Text.containsChar p '*' = false ∧ Text.containsChar p '?' = true

variable {routeScope scope : Option String}

theorem scopeBonus_eq_some (h : scopeBonus routeScope scope = some bonus) :
    (routeScope = none ∨ routeScope = scope) ∧ bonus ≤ 100 := by
  unfold scopeBonus at h
  split at h
  · cases h
    exact ⟨.inl rfl, Nat.zero_le _⟩
  · split_ifs at h with heq
    cases h
    exact ⟨.inr (congrArg some heq), Nat.le_refl _⟩
  · cases h

theorem scopeBonus_isSome_iff :
    (scopeBonus routeScope scope).isSome = true ↔ routeScope = none ∨ routeScope = scope := by
  cases routeScope <;> cases scope <;> simp [scopeBonus]

variable {entityName : String}

theorem scoreEntityMatch_isSome_iff {matcher : Option StringOrList} :
    (scoreEntityMatch matcher entityName).isSome = true ↔
      ∃ m, matcher = some m ∧ m.matches entityName = true := by
  cases matcher <;> simp [scoreEntityMatch]

variable {route : RouteEntry} {entityType : String} {s : Nat}

/-- The three parts of a score. -/
theorem routeScore_eq_some (h : routeScore entityType entityName scope route = some s) :
    ∃ bonus base, scopeBonus route.scope scope = some bonus ∧
      scoreEntityMatch (route.entityMatcher entityType) entityName = some base ∧
      s = base + bonus + if route.when.isSome then specificityWhenOnly else 0 := by
  obtain ⟨bonus, hbonus, h⟩ := Option.bind_eq_some_iff.mp h
  obtain ⟨base, hbase, h⟩ := Option.bind_eq_some_iff.mp h
  cases h
  exact ⟨bonus, base, hbonus, hbase, rfl⟩

/-- A route has a score exactly if it matches the request. -/
theorem routeScore_isSome_iff :
    (routeScore entityType entityName scope route).isSome = true ↔
      route.Covers scope ∧ route.Matches entityType entityName := by
  unfold RouteEntry.Covers RouteEntry.Matches
  rw [← scopeBonus_isSome_iff, ← scoreEntityMatch_isSome_iff, routeScore]
  cases scopeBonus route.scope scope with
  | none => simp
  | some bonus =>
    cases scoreEntityMatch (route.entityMatcher entityType) entityName <;> simp

/-- The bonuses do not make up for the class of the name: only a single name without `*` scores
    1000 or more. -/
theorem routeScore_starless (h : routeScore entityType entityName scope route = some s) :
    1000 ≤ s ↔ route.NamesLiterally entityType entityName ∨
      route.MatchesByQuestion entityType entityName := by
  obtain ⟨bonus, base, hbonus, hbase, rfl⟩ := routeScore_eq_some h
  have hbonus := (scopeBonus_eq_some hbonus).2
  have hwhen : (if route.when.isSome then specificityWhenOnly else 0) ≤ 10 := by
    split <;> decide
  generalize (if route.when.isSome then specificityWhenOnly else 0) = whenBonus at hwhen
  unfold RouteEntry.NamesLiterally RouteEntry.MatchesByQuestion
  unfold scoreEntityMatch at hbase
  cases hm : route.entityMatcher entityType with
  | none =>
    rw [hm] at hbase
    cases hbase
  | some m =>
    rw [hm] at hbase
    dsimp only at hbase
    split at hbase
    · rename_i hmatches
      cases m with
      | list names =>
        cases hbase
        simp [specificityNameList]
        omega
      | single p =>
        dsimp only at hbase
        have hwild : Text.wildMatch p entityName = true := hmatches
        by_cases hstar : Text.containsChar p '*' = true
        · -- A pattern with a star is far below, the star alone included.
          have hbase : base ≤ 300 := by
            have := Option.some.inj hbase
            split_ifs at this <;> subst this <;> decide
          refine ⟨fun hs => by omega, ?_⟩
          rintro (⟨heq, hstar', -⟩ | ⟨q, heq, -, hstar', -⟩)
          · cases heq
            rw [hstar] at hstar'
            cases hstar'
          · cases heq
            rw [hstar] at hstar'
            cases hstar'
        · have hexact : base = 1000 := by
            have hne : p ≠ "*" := by
              rintro rfl
              exact hstar (by decide)
            rw [if_neg hne, if_neg hstar] at hbase
            exact (Option.some.inj hbase).symm
          have hstar : Text.containsChar p '*' = false := by simpa using hstar
          refine ⟨fun _ => ?_, fun _ => by omega⟩
          cases hquestion : Text.containsChar p '?' with
          | true => exact .inr ⟨p, rfl, hwild, hstar, hquestion⟩
          | false =>
            obtain rfl := (Text.wildMatch_literal hstar hquestion).mp hwild
            exact .inl ⟨rfl, hstar, hquestion⟩
    · cases hbase

/-! ### Selection -/

section
variable {config : CpexConfig} {entityType entityName : String} {scope : Option String}
  {route : RouteEntry}

/-- The selected route and its score: no route has a greater one, and no earlier route the same. -/
theorem findMatchingRoute_first
    (h : findMatchingRoute config entityType entityName scope = some (route, i)) :
    config.routes[i]? = some route ∧
      ∃ s, routeScore entityType entityName scope route = some s ∧
        ∀ j other t, config.routes[j]? = some other →
          routeScore entityType entityName scope other = some t → t ≤ s ∧ (t = s → i ≤ j) := by
  obtain ⟨before, after, s, hbest⟩ := List.firstBest_eq_some h
  have hmem : (route, i) ∈ config.routes.zipIdx := by
    rw [hbest.split]
    exact List.mem_append_right _ List.mem_cons_self
  refine ⟨List.mk_mem_zipIdx_iff_getElem?.mp hmem, s, hbest.score_eq, fun j other t hj ht => ?_⟩
  have hother : (other, j) ∈ config.routes.zipIdx := List.mk_mem_zipIdx_iff_getElem?.mpr hj
  refine ⟨hbest.max hother ht, fun heq => ?_⟩
  rw [hbest.split, List.mem_append] at hother
  rcases hother with hbefore | hafter
  · -- What stands before the selected route has a smaller score.
    have hlt := hbest.lt _ hbefore t ht
    omega
  · -- The positions grow along the list.
    have hsorted : (before ++ (route, i) :: after).Pairwise (fun a b => a.2 ≤ b.2) := by
      rw [← hbest.split]
      have hpositions : (List.range' 0 config.routes.length).Pairwise (· < ·) :=
        List.pairwise_lt_range'
      rw [← List.zipIdx_map_snd 0 config.routes, List.pairwise_map] at hpositions
      exact hpositions.imp fun h => Nat.le_of_lt h
    rcases List.mem_cons.mp hafter with heq | hafter
    · exact Nat.le_of_eq (congrArg Prod.snd heq).symm
    · exact (List.pairwise_cons.mp (List.pairwise_append.mp hsorted).2.1).1 _ hafter

/-- A request that some route matches has a route. -/
theorem exists_findMatchingRoute (hroute : route ∈ config.routes)
    (hmatches : (routeScore entityType entityName scope route).isSome = true) :
    ∃ selected i, findMatchingRoute config entityType entityName scope = some (selected, i) := by
  cases h : findMatchingRoute config entityType entityName scope with
  | some found => exact ⟨found.1, found.2, rfl⟩
  | none =>
    obtain ⟨j, hj⟩ := List.getElem?_of_mem hroute
    have hnone := List.firstBest_eq_none h (route, j) (List.mk_mem_zipIdx_iff_getElem?.mpr hj)
    rw [show routeScore entityType entityName scope route = none from hnone] at hmatches
    cases hmatches

theorem RouteEntry.NamesLiterally.matches (h : route.NamesLiterally entityType entityName) :
    route.Matches entityType entityName :=
  ⟨_, h.1, (Text.wildMatch_literal h.2.1 h.2.2).mpr rfl⟩

theorem RouteEntry.MatchesByQuestion.not_namesLiterally
    (h : route.MatchesByQuestion entityType entityName) :
    ¬ route.NamesLiterally entityType entityName := by
  rintro ⟨hname, -, hquestion⟩
  obtain ⟨p, hp, -, -, hp'⟩ := h
  cases hp.symm.trans hname
  rw [hquestion] at hp'
  cases hp'

/-- A route of the configuration that names the entity literally comes before position `j` with the
    score `t`: it has a greater score, or the same and stands earlier. -/
def LiteralBefore (config : CpexConfig) (entityType entityName : String) (scope : Option String)
    (j t : Nat) : Prop :=
  ∃ k literal u, config.routes[k]? = some literal ∧
    literal.NamesLiterally entityType entityName ∧
    routeScore entityType entityName scope literal = some u ∧ (t < u ∨ t = u ∧ k < j)

/-- Selection is by the greatest score, the earliest route on ties. If a route that covers the scope
    names the entity literally, the selected route does exactly if no pattern with a `?` comes before
    every such route. -/
theorem findMatchingRoute_literal_iff (config : CpexConfig) (entityType entityName : String)
    (scope : Option String) :
    (∀ route i, findMatchingRoute config entityType entityName scope = some (route, i) →
      config.routes[i]? = some route ∧ route.Covers scope ∧ route.Matches entityType entityName ∧
        ∃ s, routeScore entityType entityName scope route = some s ∧
          ∀ j other t, config.routes[j]? = some other →
            routeScore entityType entityName scope other = some t → t ≤ s ∧ (t = s → i ≤ j)) ∧
      ∀ literal ∈ config.routes, literal.Covers scope →
        literal.NamesLiterally entityType entityName →
        ∃ selected i, findMatchingRoute config entityType entityName scope = some (selected, i) ∧
          (selected.NamesLiterally entityType entityName ↔
            ∀ j other t, config.routes[j]? = some other →
              other.MatchesByQuestion entityType entityName →
              routeScore entityType entityName scope other = some t →
              LiteralBefore config entityType entityName scope j t) := by
  refine ⟨fun route i h => ?_, fun literal hliteral hcovers hnames => ?_⟩
  · obtain ⟨hroute, s, hs, hfirst⟩ := findMatchingRoute_first h
    obtain ⟨hcovers, hmatches⟩ := routeScore_isSome_iff.mp (by rw [hs]; rfl)
    exact ⟨hroute, hcovers, hmatches, s, hs, hfirst⟩
  · have hscore := routeScore_isSome_iff.mpr ⟨hcovers, hnames.matches⟩
    obtain ⟨selected, i, hselected⟩ := exists_findMatchingRoute hliteral hscore
    obtain ⟨hi, s, hs, hfirst⟩ := findMatchingRoute_first hselected
    refine ⟨selected, i, hselected, fun hlit j other t hj hother ht => ?_, fun hbefore => ?_⟩
    · -- The selected route itself comes before every pattern.
      obtain ⟨hle, htie⟩ := hfirst j other t hj ht
      refine ⟨i, selected, s, hi, hlit, hs, ?_⟩
      rcases Nat.lt_or_eq_of_le hle with hlt | rfl
      · exact .inl hlt
      · refine .inr ⟨rfl, Nat.lt_of_le_of_ne (htie rfl) ?_⟩
        rintro rfl
        cases hi.symm.trans hj
        exact hother.not_namesLiterally hlit
    · -- The literal route scores 1000, so the selected one is literal or a pattern with a `?`.
      obtain ⟨k, hk⟩ := List.getElem?_of_mem hliteral
      obtain ⟨u, hu⟩ := Option.isSome_iff_exists.mp hscore
      have hthousand : 1000 ≤ s :=
        ((routeScore_starless hu).mpr (.inl hnames)).trans (hfirst k literal u hk hu).1
      refine ((routeScore_starless hs).mp hthousand).resolve_right fun hquestion => ?_
      obtain ⟨k', other, u', hk', -, hu', hcomes⟩ := hbefore i selected s hi hquestion hs
      obtain ⟨hle, htie⟩ := hfirst k' other u' hk' hu'
      rcases hcomes with hlt | ⟨rfl, hlt⟩
      · omega
      · exact absurd (htie rfl) (Nat.not_le_of_lt hlt)

end

/-- A pattern before the route that has the name. -/
def questionBeforeName : CpexConfig where
  routes := [{ tool := some (.single "pa?") }, { tool := some (.single "pay") }]

/-- The pattern is selected, although the other route names the entity. -/
theorem findMatchingRoute_question_wins :
    (∃ literal ∈ questionBeforeName.routes, literal.Covers none ∧
      literal.NamesLiterally "tool" "pay") ∧
      ∃ selected, findMatchingRoute questionBeforeName "tool" "pay" none = some (selected, 0) ∧
        ¬ selected.NamesLiterally "tool" "pay" := by
  refine ⟨⟨_, List.mem_cons_of_mem _ List.mem_cons_self, .inl rfl, rfl, rfl, rfl⟩, _, rfl, ?_⟩
  rintro ⟨hname, -⟩
  simp [RouteEntry.entityMatcher] at hname

/-- A scoped pattern after the route that has the name, and a list. -/
def nameBeforeOthers : CpexConfig where
  routes := [{ tool := some (.single "pay") }, { tool := some (.single "pa?") },
    { tool := some (.list ["pay"]), «meta» := some { scope := some "hr" } }]

/-- Here the route with the name stands first, and a list does not come up to it with its scope. -/
theorem findMatchingRoute_name_wins :
    ∃ selected i, findMatchingRoute nameBeforeOthers "tool" "pay" (some "hr") = some (selected, i) ∧
      selected.NamesLiterally "tool" "pay" := by
  have hnames : ({ tool := some (.single "pay") } : RouteEntry).NamesLiterally "tool" "pay" :=
    ⟨rfl, rfl, rfl⟩
  obtain ⟨selected, i, hselected, hliteral⟩ :=
    (findMatchingRoute_literal_iff nameBeforeOthers "tool" "pay" (some "hr")).2 _
      List.mem_cons_self (.inl rfl) hnames
  refine ⟨selected, i, hselected, hliteral.mpr fun j other t hj hother ht => ?_⟩
  refine ⟨0, _, 1000, rfl, hnames, rfl, .inr ?_⟩
  obtain ⟨p, hp, -, -, hquestion⟩ := hother
  rcases j with _ | _ | _ | j
  · cases hj
    cases hp
    cases hquestion
  · cases hj
    cases ht
    exact ⟨rfl, Nat.one_pos⟩
  · cases hj
    cases hp
  · cases hj

end Core

end Cpex
