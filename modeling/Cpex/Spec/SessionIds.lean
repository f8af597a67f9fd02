import Cpex.ForStd.Separator
import Cpex.Native.Session
import Cpex.Native.Visitor
import Cpex.Spec.Views

/-! # Session ids

A session id is the hash of the subject id and a text that depends on the tier, joined by a
colon. Neither is escaped, so the subject id ends at any colon of the joined text. And the text
of the last tier names workloads, which a handler reads only if a plugin of its route does.
-/

namespace Cpex

/-- The authenticated subject. -/
def Extensions.subjectId (e : Extensions) : Option String :=
  (e.security.bind (·.subject)).bind (·.id)

/-- The agent's session id or else the session claim, unless empty. -/
def Extensions.givenSession (e : Extensions) : Option String :=
  ((e.agent.bind (·.val.sessionId)).filter (· ≠ "")).or
    (((e.security.bind (·.subject)).bind (·.claims.lookup "session_id")).filter (· ≠ ""))

/-- The workload ids of the identity tier. -/
def Extensions.workloads (e : Extensions) : String :=
  ((e.security.bind (·.callerWorkload)).bind (·.clientId)).getD "-" ++ ":" ++
    ((e.security.bind (·.thisWorkload)).bind (·.clientId)).getD "-"

/-- What the session id binds to the subject. -/
def Extensions.sessionText (e : Extensions) : String := e.givenSession.getD e.workloads

namespace Core

variable (shortHash : String → String)

theorem boundTier_none : boundTier shortHash source none value = none := by
  unfold boundTier
  cases value with
  | none => rfl
  | some sid =>
    rw [Option.bind_some]
    split <;> rfl

theorem boundTier_some :
    boundTier shortHash source (some sub) value =
      (value.filter (· ≠ "")).map fun sid => (shortHash (sub ++ ":" ++ sid), source) := by
  cases value with
  | none => rfl
  | some sid =>
    by_cases hempty : sid = ""
    · simp [boundTier, hempty]
    · simp [boundTier, subjectScoped, hempty]

/-- The id is the hash of the subject and the session text. Without a subject there is none. -/
theorem resolveSession_fst (e : Extensions) :
    (resolveSession shortHash e).map Prod.fst =
      e.subjectId.map fun sub => shortHash (sub ++ ":" ++ e.sessionText) := by
  have hidentity : (e.security.bind (identityTier shortHash)).map Prod.fst =
      e.subjectId.map fun sub => shortHash (sub ++ ":" ++ e.workloads) := by
    unfold Extensions.subjectId Extensions.workloads
    cases e.security with
    | none => rfl
    | some security =>
      simp only [Option.bind_some, identityTier, Option.map_map, String.append_assoc]
      rfl
  unfold resolveSession
  cases hsub : e.subjectId with
  | none =>
    rw [hsub] at hidentity
    unfold Extensions.subjectId at hsub
    simp only [hsub, boundTier_none, Option.none_or]
    exact hidentity
  | some sub =>
    rw [hsub] at hidentity
    unfold Extensions.subjectId at hsub
    simp only [hsub, boundTier_some]
    unfold Extensions.sessionText Extensions.givenSession
    cases (e.agent.bind (·.val.sessionId)).filter (· ≠ "") with
    | some sid => rfl
    | none =>
      cases ((e.security.bind (·.subject)).bind (·.claims.lookup "session_id")).filter (· ≠ "") with
      | some sid => rfl
      | none => exact hidentity

/-! ### Isolation between subjects -/

/-- The first subject id goes on, past a colon, into the second one, and the rest of the second
    one opens the session text of the first request. -/
def Overlaps (a b : Extensions) : Prop :=
  ∃ s t, a.subjectId = some s ∧ b.subjectId = some (s ++ ":" ++ t) ∧
    a.sessionText = t ++ ":" ++ b.sessionText

/-- For an injective hash, two requests of different subjects are in different sessions exactly
    if neither subject id can be read as the other one with a part of its session text. -/
theorem resolveSession_isolated_iff (hinj : Function.Injective shortHash) (a b : Extensions)
    (hne : a.subjectId ≠ b.subjectId) :
    (∀ id, (resolveSession shortHash a).map Prod.fst = some id →
        (resolveSession shortHash b).map Prod.fst ≠ some id) ↔
      ¬Overlaps a b ∧ ¬Overlaps b a := by
  rw [resolveSession_fst, resolveSession_fst]
  cases ha : a.subjectId with
  | none => simp [Overlaps, ha]
  | some s =>
    cases hb : b.subjectId with
    | none => simp [Overlaps, hb]
    | some t =>
      have hst : s ≠ t := fun h => hne (by rw [ha, hb, h])
      have hsep : (":" : String).toList = [':'] := by decide
      -- The ids are equal exactly if the hashed texts are.
      have hids : (∀ id, some (shortHash (s ++ ":" ++ a.sessionText)) = some id →
          some (shortHash (t ++ ":" ++ b.sessionText)) ≠ some id) ↔
          ¬s ++ ":" ++ a.sessionText = t ++ ":" ++ b.sessionText := by
        constructor
        · intro h heq
          exact h _ rfl (by rw [heq])
        · rintro h id ⟨⟩ heq
          exact h (hinj (Option.some.inj heq)).symm
      rw [Option.map_some, Option.map_some, hids, String.append_sep_eq_iff hsep hst, not_or]
      simp only [Overlaps, ha, hb, Option.some.injEq, exists_and_left, exists_eq_left']

/-- A request of `subject` that asks for the session `sid`. -/
def asking (subject sid : String) : Extensions where
  agent := some ⟨0, { sessionId := some sid }⟩
  security := some { subject := some { id := some subject } }

/-- Subjects whose ids do not continue into each other are kept apart. -/
theorem resolveSession_isolated_plain :
    (resolveSession id (asking "bob" "s1")).map Prod.fst ≠ some "alice:s1" := by
  have hne : (asking "alice" "s1").subjectId ≠ (asking "bob" "s1").subjectId := by decide
  refine (resolveSession_isolated_iff id Function.injective_id _ _ hne).mpr ⟨?_, ?_⟩ _ rfl
  all_goals
    rintro ⟨s, t, hs, ht, -⟩
    cases hs
    simp [asking, Extensions.subjectId, ← String.toList_inj] at ht

/-- The caller `acme` reaches the session of `acme:alice`. -/
theorem resolveSession_shared_by_subjects :
    (asking "acme" "alice:s1").subjectId ≠ (asking "acme:alice" "s1").subjectId ∧
      resolveSession id (asking "acme" "alice:s1") = resolveSession id (asking "acme:alice" "s1") := by
  decide

/-! ### The session of a route -/

section
variable {capabilities : Finset String} (e : Extensions)

theorem view_subjectId (h : hasAnySubjectCapability capabilities = true) :
    (filterExtensions e capabilities).subjectId = e.subjectId := by
  rw [filterExtensions_eq]
  unfold Extensions.subjectId
  cases e.security with
  | none => rfl
  | some security =>
    simp only [Option.map_some, Option.bind_some, buildFilteredSecurity_eq, gate_of_open h]
    cases security.subject <;> rfl

theorem view_givenSession (hagent : capStr .readAgent ∈ capabilities)
    (hclaims : capStr .readClaims ∈ capabilities) :
    (filterExtensions e capabilities).givenSession = e.givenSession := by
  have hany : hasAnySubjectCapability capabilities = true :=
    hasAnySubjectCapability_iff.mpr ⟨.readClaims, by decide, hclaims⟩
  rw [filterExtensions_eq]
  unfold Extensions.givenSession
  rw [gate_of_open hagent]
  cases e.security with
  | none => rfl
  | some security =>
    simp only [Option.map_some, Option.bind_some, buildFilteredSecurity_eq, gate_of_open hany]
    cases security.subject with
    | none => rfl
    | some subject =>
      simp only [Option.map_some, Option.bind_some, buildFilteredSubject, if_pos hclaims]

theorem view_workloads :
    (filterExtensions e capabilities).workloads =
      if capStr .readWorkload ∈ capabilities then e.workloads else "-:-" := by
  rw [filterExtensions_eq]
  unfold Extensions.workloads
  cases e.security with
  | none => split <;> rfl
  | some security =>
    simp only [Option.map_some, Option.bind_some, buildFilteredSecurity_eq]
    split
    · next hopen => simp only [gate_of_open hopen]
    · next hclosed => simp only [gate_of_closed hclosed]; rfl

end

/-- `entry` is a handler that the visitor installs for the route, for any entity, hook and
    phase. -/
def InstalledFor (visitor : AplConfigVisitor) (route : CompiledRoute) (registry : DeclRegistry)
    (entry : Annotation) : Prop :=
  ∃ origin entityType entityName scope hookName phase,
    entry = installHandler visitor origin entityType entityName scope hookName phase route
      registry

/-- A session value is given, or the workload ids make no difference to the hash. -/
def WorkloadsIgnored (e : Extensions) : Prop :=
  e.givenSession ≠ none ∨ ∀ sub, e.subjectId = some sub →
    shortHash (sub ++ ":" ++ e.workloads) = shortHash (sub ++ ":" ++ "-:-")

section
variable {visitor : AplConfigVisitor} {route : CompiledRoute} {registry : DeclRegistry}
  {entry : Annotation} (h : InstalledFor visitor route registry entry)
  (hbase : visitor.baseCapabilities = defaultBaseCapabilities)
include h hbase

/-- A handler grants `read_workload` exactly if a plugin of its route holds it. -/
theorem InstalledFor.readWorkload_iff :
    capStr .readWorkload ∈ entry.2.capabilities ↔
      "read_workload" ∈ routeCapabilityUnion route registry := by
  obtain ⟨_, _, _, _, _, _, rfl⟩ := h
  have hbaseless : "read_workload" ∉ defaultBaseCapabilities := by decide
  have hfixed : "read_workload" ∉ ({"read_headers", capWriteCandidateConstraint} :
      Finset String) := by decide
  simp only [HookEntry.capabilities, installHandler, hbase, Finset.mem_union, capStr, hbaseless,
    hfixed, false_or, or_false]

theorem InstalledFor.mem_of_base (hcap : cap ∈ defaultBaseCapabilities) :
    cap ∈ entry.2.capabilities := by
  obtain ⟨_, _, _, _, _, _, rfl⟩ := h
  simp only [HookEntry.capabilities, installHandler, hbase, Finset.mem_union]
  exact .inl (.inl hcap)

/-- The session of a request as a handler with the default base capabilities resolves it. -/
theorem InstalledFor.resolveSession_eq (e : Extensions) :
    (resolveSession shortHash (serialView e entry.2.capabilities)).map Prod.fst =
      e.subjectId.map fun sub => shortHash (sub ++ ":" ++ e.givenSession.getD
        (if "read_workload" ∈ routeCapabilityUnion route registry then e.workloads
          else "-:-")) := by
  have hagent : capStr .readAgent ∈ entry.2.capabilities := h.mem_of_base hbase (by decide)
  have hclaims : capStr .readClaims ∈ entry.2.capabilities := h.mem_of_base hbase (by decide)
  have hany : hasAnySubjectCapability entry.2.capabilities = true :=
    hasAnySubjectCapability_iff.mpr ⟨.readClaims, by decide, hclaims⟩
  have hview : resolveSession shortHash (serialView e entry.2.capabilities) =
      resolveSession shortHash (filterExtensions e entry.2.capabilities) := rfl
  rw [hview, resolveSession_fst, view_subjectId e hany]
  simp only [Extensions.sessionText, view_givenSession e hagent hclaims, view_workloads,
    h.readWorkload_iff hbase]

end

/-- Two routes put a request into the same session exactly if a plugin that reads workloads is
    on both or on neither of them, or the session does not depend on the workloads. -/
theorem resolveSession_routes_iff (visitor : AplConfigVisitor)
    (hbase : visitor.baseCapabilities = defaultBaseCapabilities) (e : Extensions)
    {route route' : CompiledRoute} {registry registry' : DeclRegistry} {a b : Annotation}
    (ha : InstalledFor visitor route registry a) (hb : InstalledFor visitor route' registry' b) :
    (resolveSession shortHash (serialView e a.2.capabilities)).map Prod.fst =
        (resolveSession shortHash (serialView e b.2.capabilities)).map Prod.fst ↔
      ("read_workload" ∈ routeCapabilityUnion route registry ↔
          "read_workload" ∈ routeCapabilityUnion route' registry') ∨
        WorkloadsIgnored shortHash e := by
  rw [ha.resolveSession_eq shortHash hbase, hb.resolveSession_eq shortHash hbase]
  unfold WorkloadsIgnored
  by_cases hread : "read_workload" ∈ routeCapabilityUnion route registry <;>
    by_cases hread' : "read_workload" ∈ routeCapabilityUnion route' registry' <;>
    cases hsub : e.subjectId <;> cases hgiven : e.givenSession <;>
    simp [hread, hread', eq_comm]

/-! ### A route with a plugin that reads workloads -/

/-- A visitor with the default base capabilities. -/
def plainVisitor : AplConfigVisitor where
  baseCapabilities := defaultBaseCapabilities
  wiring := ⟨fun _ _ => .ok (), fun _ => .ok (), fun _ => .ok ()⟩
  newId _ := 0

/-- One declared plugin, which reads workloads. -/
def attestRegistry : DeclRegistry :=
  (∅ : DeclRegistry).insert "attest"
    ⟨"attest", "builtin", ["cmf.tool_pre_invoke"], ["read_workload"], none, none⟩

/-- A route on `tool` that runs the plugins `names`. -/
def pluginRoute (tool : String) (names : List String) : CompiledRoute where
  routeKey := "tool:" ++ tool
  policy := names.map .plugin

/-- The handler of the route before the invocation. -/
def pluginHandler (tool : String) (names : List String) : Annotation :=
  installHandler plainVisitor none "tool" tool none "cmf.tool_pre_invoke" .pre
    (pluginRoute tool names) attestRegistry

theorem installedFor_pluginHandler (tool : String) (names : List String) :
    InstalledFor plainVisitor (pluginRoute tool names) attestRegistry
      (pluginHandler tool names) :=
  ⟨none, "tool", tool, none, "cmf.tool_pre_invoke", .pre, rfl⟩

/-- A request of alice through an agent. -/
def throughAgent : Extensions where
  security := some {
    subject := some { id := some "alice" }
    callerWorkload := some { clientId := some "agent-7" } }

/-- Without plugins that read workloads, the two routes share the session. -/
theorem resolveSession_routes_plain :
    (resolveSession id (serialView throughAgent (pluginHandler "read" []).2.capabilities)).map
        Prod.fst =
      (resolveSession id (serialView throughAgent (pluginHandler "send" []).2.capabilities)).map
        Prod.fst :=
  (resolveSession_routes_iff id plainVisitor rfl throughAgent
    (installedFor_pluginHandler "read" []) (installedFor_pluginHandler "send" [])).mpr
    (.inl (by decide))

/-- A taint recorded on `read`, where `attest` runs, is not in the session of `send`. -/
theorem resolveSession_differs_by_route :
    let session (handler : Annotation) :=
      (resolveSession id (serialView throughAgent handler.2.capabilities)).map Prod.fst
    session (pluginHandler "read" ["attest"]) = some "alice:agent-7:-" ∧
      session (pluginHandler "send" []) = some "alice:-:-" ∧
      session (pluginHandler "read" ["attest"]) ≠ session (pluginHandler "send" []) := by
  dsimp only
  decide

end Core

end Cpex
