import Cpex.ForStd.Gate
import Cpex.Native.Executor

/-! # What a filtered view shows

Every part of a view is either passed on or gated by one read capability, so the view is a
function of what the plugin may read.
-/

namespace Cpex

attribute [ext] SubjectExtension SecurityExtension RawCredentialsExtension Extensions

/-! ### Contents -/

/-- The shared value, its address forgotten. -/
def Arc.contents {α : Type} (self : Arc α) : Arc α := { self with addr := 0 }

/-- The extensions, with the addresses of their slots forgotten. -/
def Extensions.contents (e : Extensions) : Extensions :=
  { e with
    request := e.request.map Arc.contents
    agent := e.agent.map Arc.contents
    mcp := e.mcp.map Arc.contents
    completion := e.completion.map Arc.contents
    provenance := e.provenance.map Arc.contents
    llm := e.llm.map Arc.contents
    framework := e.framework.map Arc.contents
    «meta» := e.meta.map Arc.contents }

/-! ### Views as gated parts -/

variable {capabilities : Finset String}

/-- Reading the slot takes this capability. `read_subject` is left out: other capabilities
    imply it. -/
def GatedBy (name : SlotName) (cap : Capability) : Prop :=
  (slotPolicy name).access = .capabilityGated ∧ (slotPolicy name).readCap = some cap ∧
    cap ≠ .readSubject

theorem hasReadAccess_iff (h : GatedBy name cap) :
    hasReadAccess (slotPolicy name) capabilities = true ↔ capStr cap ∈ capabilities := by
  obtain ⟨haccess, hcap, hsubject⟩ := h
  have hgated : ¬(slotPolicy name).access = .unrestricted := by
    rw [haccess]
    exact nofun
  have hother : ¬some cap = some Capability.readSubject := fun h => hsubject (Option.some.inj h)
  unfold hasReadAccess
  rw [if_neg hgated, hcap, if_neg hother]
  simp

/-- The capabilities that make the subject readable. -/
def subjectCapabilities : List Capability :=
  [.readSubject, .readRoles, .readTeams, .readClaims, .readPermissions]

theorem hasAnySubjectCapability_iff :
    hasAnySubjectCapability capabilities = true ↔
      ∃ cap ∈ subjectCapabilities, capStr cap ∈ capabilities := by
  unfold hasAnySubjectCapability
  rw [List.any_eq_true]
  simp only [decide_eq_true_eq]
  rfl

/-- One gated slot of a view. -/
theorem filter_hasReadAccess {α : Type} (h : GatedBy name cap) (slot : Option α) :
    slot.filter (fun _ => hasReadAccess (slotPolicy name) capabilities) =
      gate (capStr cap ∈ capabilities) none slot := by
  rw [Option.filter_const]
  simp only [hasReadAccess_iff h]

variable (capabilities)

theorem buildFilteredSecurity_eq :
    buildFilteredSecurity security capabilities =
      { security with
        labels := gate (capStr .readLabels ∈ capabilities) ∅ security.labels
        subject := gate (hasAnySubjectCapability capabilities = true) none
          (security.subject.map fun subject => buildFilteredSubject subject capabilities)
        client := gate (capStr .readClient ∈ capabilities) none security.client
        callerWorkload := gate (capStr .readWorkload ∈ capabilities) none security.callerWorkload
        thisWorkload := gate (capStr .readWorkload ∈ capabilities) none security.thisWorkload } := by
  have hlabels : GatedBy .securityLabels .readLabels := ⟨rfl, rfl, nofun⟩
  have hclient : GatedBy .securityClient .readClient := ⟨rfl, rfl, nofun⟩
  have hcaller : GatedBy .securityCallerWorkload .readWorkload := ⟨rfl, rfl, nofun⟩
  have hthis : GatedBy .securityThisWorkload .readWorkload := ⟨rfl, rfl, nofun⟩
  refine SecurityExtension.ext ?_ rfl (Option.bind_ite_const _ _ _)
    (filter_hasReadAccess hclient _) (filter_hasReadAccess hcaller _)
    (filter_hasReadAccess hthis _) rfl rfl rfl
  simp only [buildFilteredSecurity, gate, hasReadAccess_iff hlabels]

theorem filterExtensions_eq (e : Extensions) :
    filterExtensions e capabilities =
      { e with
        delegation := gate (capStr .readDelegation ∈ capabilities) none e.delegation
        agent := gate (capStr .readAgent ∈ capabilities) none e.agent
        http := gate (capStr .readHeaders ∈ capabilities) none e.http
        security := e.security.map fun security => buildFilteredSecurity security capabilities
        rawCredentials := gate (capStr .readInboundCredentials ∈ capabilities ∨
            capStr .readDelegatedTokens ∈ capabilities) none
          (e.rawCredentials.map fun raw =>
            { inboundTokens :=
                gate (capStr .readInboundCredentials ∈ capabilities) ∅ raw.inboundTokens
              delegatedTokens :=
                gate (capStr .readDelegatedTokens ∈ capabilities) ∅ raw.delegatedTokens })
        httpWriteToken := false
        labelsWriteToken := false
        delegationWriteToken := false } := by
  have hdelegation : GatedBy .delegation .readDelegation := ⟨rfl, rfl, nofun⟩
  have hagent : GatedBy .agent .readAgent := ⟨rfl, rfl, nofun⟩
  have hhttp : GatedBy .http .readHeaders := ⟨rfl, rfl, nofun⟩
  have hinbound : GatedBy .rawCredentialsInbound .readInboundCredentials := ⟨rfl, rfl, nofun⟩
  have hdelegated : GatedBy .rawCredentialsDelegated .readDelegatedTokens := ⟨rfl, rfl, nofun⟩
  refine Extensions.ext rfl (filter_hasReadAccess hagent _) (filter_hasReadAccess hhttp _) rfl rfl
    (filter_hasReadAccess hdelegation _) ?_ rfl rfl rfl rfl rfl rfl rfl rfl rfl rfl
  -- The two maps of the credentials are gated one by one, and the slot by either gate.
  rw [← Option.bind_ite_const]
  simp only [filterExtensions, buildFilteredRawCredentials, gate, Bool.or_eq_true,
    hasReadAccess_iff hinbound, hasReadAccess_iff hdelegated]

/-! ### Noninterference -/

/-- The subjects agree on what is readable of them. -/
structure SubjectExtension.Agree (a b : SubjectExtension) : Prop where
  id : (∃ cap ∈ subjectCapabilities, capStr cap ∈ capabilities) → a.id = b.id
  subjectType :
    (∃ cap ∈ subjectCapabilities, capStr cap ∈ capabilities) → a.subjectType = b.subjectType
  roles : capStr .readRoles ∈ capabilities → a.roles = b.roles
  permissions : capStr .readPermissions ∈ capabilities → a.permissions = b.permissions
  teams : capStr .readTeams ∈ capabilities → a.teams = b.teams
  claims : capStr .readClaims ∈ capabilities → a.claims = b.claims

/-- The security slots agree on what is readable, and on whether there is a subject. -/
structure SecurityExtension.Agree (a b : SecurityExtension) : Prop where
  objects : a.objects = b.objects
  data : a.data = b.data
  classification : a.classification = b.classification
  authMethod : a.authMethod = b.authMethod
  labels : capStr .readLabels ∈ capabilities → a.labels = b.labels
  subject : Option.Rel (SubjectExtension.Agree capabilities) a.subject b.subject
  client : capStr .readClient ∈ capabilities → a.client = b.client
  callerWorkload : capStr .readWorkload ∈ capabilities → a.callerWorkload = b.callerWorkload
  thisWorkload : capStr .readWorkload ∈ capabilities → a.thisWorkload = b.thisWorkload

/-- The extensions agree on every unrestricted slot, on every slot the capabilities make
    readable, and on whether there is a security slot. A map of absent credentials is absent,
    not empty. -/
structure Extensions.Agree (a b : Extensions) : Prop where
  request : a.request = b.request
  provenance : a.provenance = b.provenance
  completion : a.completion = b.completion
  llm : a.llm = b.llm
  framework : a.framework = b.framework
  mcp : a.mcp = b.mcp
  «meta» : a.meta = b.meta
  custom : a.custom = b.custom
  candidateConstraint : a.candidateConstraint = b.candidateConstraint
  delegation : capStr .readDelegation ∈ capabilities → a.delegation = b.delegation
  agent : capStr .readAgent ∈ capabilities → a.agent = b.agent
  http : capStr .readHeaders ∈ capabilities → a.http = b.http
  security : Option.Rel (SecurityExtension.Agree capabilities) a.security b.security
  inboundTokens : capStr .readInboundCredentials ∈ capabilities →
    a.rawCredentials.map (·.inboundTokens) = b.rawCredentials.map (·.inboundTokens)
  delegatedTokens : capStr .readDelegatedTokens ∈ capabilities →
    a.rawCredentials.map (·.delegatedTokens) = b.rawCredentials.map (·.delegatedTokens)

variable {capabilities}

theorem SubjectExtension.Agree.view_eq {a : SubjectExtension} (h : a.Agree capabilities b)
    (hany : hasAnySubjectCapability capabilities = true) :
    buildFilteredSubject a capabilities = buildFilteredSubject b capabilities := by
  have hreads := hasAnySubjectCapability_iff.mp hany
  exact SubjectExtension.ext (h.id hreads) (h.subjectType hreads) (gate_congr h.roles)
    (gate_congr h.permissions) (gate_congr h.teams) (gate_congr h.claims)

theorem SecurityExtension.Agree.view_eq {a : SecurityExtension} (h : a.Agree capabilities b) :
    buildFilteredSecurity a capabilities = buildFilteredSecurity b capabilities := by
  have hsubject : hasAnySubjectCapability capabilities = true →
      (a.subject.map fun s => buildFilteredSubject s capabilities) =
        b.subject.map fun s => buildFilteredSubject s capabilities := fun hany =>
    Option.map_eq_of_rel (fun _ _ hs => hs.view_eq hany) h.subject
  rw [buildFilteredSecurity_eq, buildFilteredSecurity_eq]
  exact SecurityExtension.ext (gate_congr h.labels) h.classification (gate_congr hsubject)
    (gate_congr h.client) (gate_congr h.callerWorkload) (gate_congr h.thisWorkload) h.authMethod
    h.objects h.data

/-- The readable part of the credentials. An open gate on either map decides whether there are
    credentials at all. -/
theorem gate_rawCredentials_congr {p q : Prop} [Decidable p] [Decidable q]
    {a b : Option RawCredentialsExtension}
    (hin : p → a.map (·.inboundTokens) = b.map (·.inboundTokens))
    (hout : q → a.map (·.delegatedTokens) = b.map (·.delegatedTokens)) (hopen : p ∨ q) :
    (a.map fun raw => (⟨gate p ∅ raw.inboundTokens, gate q ∅ raw.delegatedTokens⟩ :
        RawCredentialsExtension)) =
      b.map fun raw => ⟨gate p ∅ raw.inboundTokens, gate q ∅ raw.delegatedTokens⟩ := by
  cases a <;> cases b
  case none.none => rfl
  case some.some ra rb =>
    exact congrArg some (RawCredentialsExtension.ext
      (gate_congr fun hp => Option.some.inj (hin hp))
      (gate_congr fun hq => Option.some.inj (hout hq)))
  all_goals exact hopen.elim (fun hp => nomatch hin hp) fun hq => nomatch hout hq

theorem Extensions.Agree.view_eq {a : Extensions} (h : a.Agree capabilities b) :
    filterExtensions a capabilities = filterExtensions b capabilities := by
  rw [filterExtensions_eq, filterExtensions_eq]
  exact Extensions.ext h.request (gate_congr h.agent) (gate_congr h.http)
    (Option.map_eq_of_rel (fun _ _ hs => hs.view_eq) h.security) h.candidateConstraint
    (gate_congr h.delegation)
    (gate_congr (gate_rawCredentials_congr h.inboundTokens h.delegatedTokens)) h.mcp
    h.completion h.provenance h.llm h.framework h.meta h.custom rfl rfl rfl

/-- Forgetting addresses before or after filtering is the same. -/
theorem filterExtensions_contents (e : Extensions) (capabilities : Finset String) :
    (filterExtensions e capabilities).contents = filterExtensions e.contents capabilities := by
  rw [filterExtensions_eq, filterExtensions_eq]
  exact Extensions.ext rfl (Option.map_gate _ _ _) rfl rfl rfl rfl rfl rfl rfl rfl rfl rfl rfl rfl
    rfl rfl rfl

/-! ### Idempotence -/

theorem buildFilteredSubject_idem (subject : SubjectExtension) :
    buildFilteredSubject (buildFilteredSubject subject capabilities) capabilities =
      buildFilteredSubject subject capabilities :=
  SubjectExtension.ext rfl rfl gate_idem gate_idem gate_idem gate_idem

theorem buildFilteredSecurity_idem (security : SecurityExtension) :
    buildFilteredSecurity (buildFilteredSecurity security capabilities) capabilities =
      buildFilteredSecurity security capabilities := by
  rw [buildFilteredSecurity_eq, buildFilteredSecurity_eq]
  exact SecurityExtension.ext gate_idem rfl (Option.gate_map_idem buildFilteredSubject_idem _ _)
    gate_idem gate_idem gate_idem rfl rfl rfl

theorem filterExtensions_idem (e : Extensions) :
    filterExtensions (filterExtensions e capabilities) capabilities =
      filterExtensions e capabilities := by
  rw [filterExtensions_eq, filterExtensions_eq]
  refine Extensions.ext rfl gate_idem gate_idem ?_ rfl gate_idem
    (Option.gate_map_idem (fun raw => RawCredentialsExtension.ext gate_idem gate_idem) _ _)
    rfl rfl rfl rfl rfl rfl rfl rfl rfl rfl
  rw [Option.map_map]
  exact Option.map_congr fun s _ => buildFilteredSecurity_idem s

/-! ### Monotonicity -/

/-- The first view of a subject shows nothing beyond the second. -/
structure SubjectExtension.Within (v w : SubjectExtension) : Prop where
  id : v.id = w.id
  subjectType : v.subjectType = w.subjectType
  roles : Shows ∅ v.roles w.roles
  permissions : Shows ∅ v.permissions w.permissions
  teams : Shows ∅ v.teams w.teams
  claims : Shows ∅ v.claims w.claims

/-- The first view of the security slot shows nothing beyond the second. -/
structure SecurityExtension.Within (v w : SecurityExtension) : Prop where
  objects : v.objects = w.objects
  data : v.data = w.data
  classification : v.classification = w.classification
  authMethod : v.authMethod = w.authMethod
  labels : Shows ∅ v.labels w.labels
  subject : v.subject = none ∨ Option.Rel SubjectExtension.Within v.subject w.subject
  client : Shows none v.client w.client
  callerWorkload : Shows none v.callerWorkload w.callerWorkload
  thisWorkload : Shows none v.thisWorkload w.thisWorkload

/-- The first view of the credentials shows nothing beyond the second. -/
structure RawCredentialsExtension.Within (v w : RawCredentialsExtension) : Prop where
  inboundTokens : Shows ∅ v.inboundTokens w.inboundTokens
  delegatedTokens : Shows ∅ v.delegatedTokens w.delegatedTokens

/-- The first view shows nothing beyond the second. -/
structure Extensions.Within (v w : Extensions) : Prop where
  request : v.request = w.request
  provenance : v.provenance = w.provenance
  completion : v.completion = w.completion
  llm : v.llm = w.llm
  framework : v.framework = w.framework
  mcp : v.mcp = w.mcp
  «meta» : v.meta = w.meta
  custom : v.custom = w.custom
  candidateConstraint : v.candidateConstraint = w.candidateConstraint
  delegation : Shows none v.delegation w.delegation
  agent : Shows none v.agent w.agent
  http : Shows none v.http w.http
  security : Option.Rel SecurityExtension.Within v.security w.security
  rawCredentials : v.rawCredentials = none ∨
    Option.Rel RawCredentialsExtension.Within v.rawCredentials w.rawCredentials

section Mono

variable {more : Finset String}

theorem hasAnySubjectCapability_mono (h : capabilities ⊆ more)
    (hany : hasAnySubjectCapability capabilities = true) :
    hasAnySubjectCapability more = true := by
  obtain ⟨cap, hcap, hmem⟩ := hasAnySubjectCapability_iff.mp hany
  exact hasAnySubjectCapability_iff.mpr ⟨cap, hcap, h hmem⟩

theorem buildFilteredSubject_within (h : capabilities ⊆ more) (subject : SubjectExtension) :
    (buildFilteredSubject subject capabilities).Within (buildFilteredSubject subject more) where
  id := rfl
  subjectType := rfl
  roles := gate_shows (h ·)
  permissions := gate_shows (h ·)
  teams := gate_shows (h ·)
  claims := gate_shows (h ·)

theorem buildFilteredSecurity_within (h : capabilities ⊆ more) (security : SecurityExtension) :
    (buildFilteredSecurity security capabilities).Within
      (buildFilteredSecurity security more) := by
  rw [buildFilteredSecurity_eq, buildFilteredSecurity_eq]
  exact {
    objects := rfl
    data := rfl
    classification := rfl
    authMethod := rfl
    labels := gate_shows (h ·)
    subject := Option.gate_map_rel (hasAnySubjectCapability_mono h)
      (buildFilteredSubject_within h) _
    client := gate_shows (h ·)
    callerWorkload := gate_shows (h ·)
    thisWorkload := gate_shows (h ·) }

theorem filterExtensions_within (h : capabilities ⊆ more) (e : Extensions) :
    (filterExtensions e capabilities).Within (filterExtensions e more) := by
  rw [filterExtensions_eq, filterExtensions_eq]
  exact {
    request := rfl
    provenance := rfl
    completion := rfl
    llm := rfl
    framework := rfl
    mcp := rfl
    «meta» := rfl
    custom := rfl
    candidateConstraint := rfl
    delegation := gate_shows (h ·)
    agent := gate_shows (h ·)
    http := gate_shows (h ·)
    security := Option.map_rel (buildFilteredSecurity_within h) _
    rawCredentials := Option.gate_map_rel (Or.imp (h ·) (h ·))
      (fun raw => ⟨gate_shows (h ·), gate_shows (h ·)⟩) _ }

end Mono

/-- Views are noninterfering: extensions that agree on what the capabilities make readable have
    the same view, looking at a view again shows the view, and more capabilities only show
    more. -/
theorem filterExtensions_noninterfering (capabilities : Finset String) :
    (∀ a b : Extensions, a.contents.Agree capabilities b.contents →
      (filterExtensions a capabilities).contents = (filterExtensions b capabilities).contents) ∧
    (∀ e : Extensions, filterExtensions (filterExtensions e capabilities) capabilities =
      filterExtensions e capabilities) ∧
    ∀ (e : Extensions) (more : Finset String), capabilities ⊆ more →
      (filterExtensions e capabilities).Within (filterExtensions e more) := by
  refine ⟨fun a b h => ?_, filterExtensions_idem, fun e more h => filterExtensions_within h e⟩
  rw [filterExtensions_contents, filterExtensions_contents]
  exact h.view_eq

/-- A request with a subject behind the subject capabilities, and one label. -/
def labelled (subjectId : String) : Extensions where
  security := some { labels := {"pii"}, subject := some { id := some subjectId } }

/-- With `read_labels` alone, two callers look the same; `read_subject` shows more. -/
theorem filterExtensions_noninterfering_labels :
    (filterExtensions (labelled "alice") {"read_labels"}).contents =
        (filterExtensions (labelled "bob") {"read_labels"}).contents ∧
      (filterExtensions (labelled "alice") {"read_labels"}).Within
        (filterExtensions (labelled "alice") {"read_labels", "read_subject"}) := by
  have hunread : ¬∃ cap ∈ subjectCapabilities, capStr cap ∈ ({"read_labels"} : Finset String) := by
    decide
  have hagree : (labelled "alice").contents.Agree {"read_labels"} (labelled "bob").contents :=
    ⟨rfl, rfl, rfl, rfl, rfl, rfl, rfl, rfl, rfl, fun _ => rfl, fun _ => rfl, fun _ => rfl,
      .some ⟨rfl, rfl, rfl, rfl, fun _ => rfl,
        .some ⟨fun h => absurd h hunread, fun h => absurd h hunread, fun _ => rfl, fun _ => rfl,
          fun _ => rfl, fun _ => rfl⟩,
        fun _ => rfl, fun _ => rfl, fun _ => rfl⟩,
      fun _ => rfl, fun _ => rfl⟩
  exact ⟨(filterExtensions_noninterfering _).1 _ _ hagree,
    (filterExtensions_noninterfering _).2.2 _ _ (by decide)⟩

end Cpex
