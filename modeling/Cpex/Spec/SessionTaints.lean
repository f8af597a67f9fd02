import Cpex.Spec.Requests

/-! # Session taints across requests

A taint in the session's scope becomes a label of the request, and the labels the request gained
are appended to the session's. What counts as gained is measured against the request after
hydration, and that includes the labels it arrived with: a taint the request already carries is
not appended, so later requests of the session do not see it.
-/

namespace Cpex.Core

variable {η σ τ : Type}

/-- What is assumed of a session store: it holds, for each session, the labels appended so far.
    An append that fails may have stored a part of them. -/
structure LawfulStore (store : SessionStore τ) where
  labels : τ → String → Finset String
  load_ok : ∀ {sid t stored}, (store.loadLabels sid t).1 = .ok stored →
    stored.toFinset = labels t sid
  load_keeps : ∀ sid t, labels (store.loadLabels sid t).2 = labels t
  append_ok : ∀ {sid new t}, (store.appendLabels sid new t).1 = .ok () →
    labels (store.appendLabels sid new t).2 sid = labels t sid ∪ new.toFinset
  append_grows : ∀ sid new t sid',
    labels t sid' ⊆ labels (store.appendLabels sid new t).2 sid'

theorem LawfulStore.mem_of_load (law : LawfulStore store)
    (hload : (store.loadLabels sid t).1 = .ok stored) (h : label ∈ law.labels t sid) :
    label ∈ stored := by
  rw [← law.load_ok hload] at h
  exact List.mem_toFinset.mp h

/-- The in-memory store is lawful. -/
def MemorySessionStore.lawful : LawfulStore MemorySessionStore where
  labels inner sid := (inner.lookup sid).getD ∅
  load_ok {sid inner stored} h := by
    have hstored := Except.ok.inj h
    subst hstored
    cases inner.lookup sid <;> simp
  load_keeps _ _ := rfl
  append_ok {sid new inner} _ := by
    cases new <;> simp [MemorySessionStore]
  append_grows sid new inner sid' := by
    cases new with
    | nil => simp [MemorySessionStore]
    | cons label new =>
      by_cases hsid : sid' = sid
      · subst hsid
        intro held hheld
        simp [MemorySessionStore, hheld]
      · simp [MemorySessionStore, AList.lookup_insert_ne hsid]

/-! ### The labels of a request -/

@[simp] theorem snapshotLabels_hydrateLabels (ext : Extensions) (labels : List String) :
    snapshotLabels (hydrateLabels ext labels) = snapshotLabels ext ∪ labels.toFinset := by
  unfold snapshotLabels hydrateLabels
  cases ext.security <;> simp

@[simp] theorem openRequest_initialLabels :
    (openRequest sessionId stored ext payload disabled world).1.initialLabels =
      snapshotLabels ext ∪ stored.toFinset := by
  unfold openRequest
  cases stored with
  | nil => simp
  | cons label stored => exact snapshotLabels_hydrateLabels ext (label :: stored)

@[simp] theorem snapshotLabels_applySessionTaints :
    snapshotLabels (applySessionTaints taints st).extensions =
      snapshotLabels st.extensions ∪ (sessionLabels taints).toFinset := by
  unfold applySessionTaints
  dsimp only
  split
  · rename_i hempty
    rw [List.isEmpty_iff.mp hempty]
    simp
  · exact snapshotLabels_hydrateLabels st.extensions (sessionLabels taints)

/-! ### Loading and appending -/

section
variable {store : SessionStore τ} (law : LawfulStore store)
include law

/-- A request of a session starts from its own labels and those of the session. -/
theorem forRequest_ok (hsid : (resolveSession shortHash ext).map Prod.fst = some sid)
    (h : (forRequest store shortHash ext payload disabled world sessions).1 =
      .ok (opened, request)) :
    opened.sessionId = some sid ∧
      opened.initialLabels = snapshotLabels ext ∪ law.labels sessions sid := by
  obtain ⟨stored, hopened, hload⟩ := forRequest_opened h
  rw [hsid] at hopened
  obtain rfl : (openRequest (some sid) stored ext payload disabled world).1 = opened :=
    congrArg Prod.fst hopened
  refine ⟨rfl, ?_⟩
  rw [openRequest_initialLabels, law.load_ok (hload sid hsid)]

theorem forRequest_labels (shortHash : String → String) (ext : Extensions)
    (payload : MessagePayload) (disabled : Finset Uuid) (world : σ) (sessions : τ) :
    law.labels (forRequest store shortHash ext payload disabled world sessions).2 =
      law.labels sessions := by
  unfold forRequest
  cases (resolveSession shortHash ext).map Prod.fst with
  | none => rfl
  | some sid => exact law.load_keeps sid sessions

/-- What is appended: the labels of the request that it did not start from. -/
theorem persistSession_labels (hsid : opened.sessionId = some sid)
    (hok : (persistSession store opened st sessions).1 = .ok ()) :
    law.labels (persistSession store opened st sessions).2 sid =
      law.labels sessions sid ∪ (snapshotLabels st.extensions \ opened.initialLabels) := by
  unfold persistSession snapshotLabels at *
  rw [hsid] at hok ⊢
  cases hsec : st.extensions.security with
  | none => simp
  | some security =>
    simp only [hsec, Option.map_some, Option.getD_some] at hok ⊢
    split at hok
    · rename_i hempty
      rw [if_pos hempty]
      -- Nothing new: the difference is empty.
      have hnone : security.labels \ opened.initialLabels = ∅ := by
        rw [← Finset.sort_toFinset (security.labels \ opened.initialLabels) (· ≤ ·),
          List.isEmpty_iff.mp hempty, List.toFinset_nil]
      rw [hnone, Finset.union_empty]
    · rename_i hne
      rw [if_neg hne, law.append_ok hok, Finset.sort_toFinset]

theorem persistSession_grows (opened : OpenedRequest) (st : RequestState σ) (sessions : τ)
    (sid : String) :
    law.labels sessions sid ⊆ law.labels (persistSession store opened st sessions).2 sid := by
  unfold persistSession
  cases opened.sessionId with
  | none => exact subset_rfl
  | some s =>
    cases st.extensions.security with
    | none => exact subset_rfl
    | some security =>
      dsimp only
      split
      · exact subset_rfl
      · exact law.append_grows s _ sessions sid

end

/-! ### One request -/

section
variable [Platform] (host : HandlerHost η σ τ) (law : LawfulStore host.sessionStore)

/-- No request takes a label out of a session. -/
theorem handle_grows (s : ServerState σ τ) (r : RoutedRequest η) (sid : String) :
    law.labels s.sessions sid ⊆ law.labels (handle host s r).next.sessions sid := by
  have hload := forRequest_labels law host.shortHash r.extensions r.payload s.disabled s.world
    s.sessions
  unfold handle AplRouteHandler.invoke
  cases hopen : forRequest host.sessionStore host.shortHash r.extensions r.payload s.disabled
    s.world s.sessions with
  | mk answer sessions =>
  rw [← hload, hopen]
  cases answer with
  | error err => exact Finset.Subset.refl _
  | ok opening => exact persistSession_grows law _ _ sessions sid

theorem handleAll_grows (s : ServerState σ τ) (requests : List (RoutedRequest η)) (sid : String) :
    law.labels s.sessions sid ⊆ law.labels (handleAll host s requests).sessions sid :=
  handleAll_rel host (fun s t => law.labels s.sessions sid ⊆ law.labels t.sessions sid)
    (fun _ => subset_rfl) (fun h₁ h₂ => h₁.trans h₂) (fun s r => handle_grows host law s r sid)
    s requests

/-- A taint is in the session after the request exactly if it was there before, or the request
    did not carry it on arrival. -/
theorem mem_labels_handle_iff (heval : (handle host s r).evaluated = some e)
    (hsid : (resolveSession host.shortHash r.extensions).map Prod.fst = some sid)
    (htaint : label ∈ sessionLabels e.decision.taints) (hok : e.persisted = .ok ()) :
    label ∈ law.labels (handle host s r).next.sessions sid ↔
      label ∉ snapshotLabels r.extensions ∨ label ∈ law.labels s.sessions sid := by
  obtain ⟨opened, request, sessions, hfrom⟩ := handle_evaluated host heval
  obtain ⟨hsession, hinitial⟩ := forRequest_ok law hsid (congrArg Prod.fst hfrom.opens)
  have hkept : law.labels sessions = law.labels s.sessions := by
    have hload := forRequest_labels law host.shortHash r.extensions r.payload s.disabled s.world
      s.sessions
    rwa [hfrom.opens] at hload
  have hcarried : label ∈ snapshotLabels e.request.extensions := by
    rw [hfrom.taints, snapshotLabels_applySessionTaints]
    exact Finset.mem_union_right _ (List.mem_toFinset.mpr htaint)
  have happended : law.labels (persistSession host.sessionStore opened e.request sessions).2 sid =
      _ := persistSession_labels law hsession (by rw [hfrom.persists]; exact hok)
  rw [hfrom.persists, hinitial, hkept] at happended
  rw [happended]
  simp only [Finset.mem_union, Finset.mem_sdiff, hcarried, true_and, not_or]
  tauto

/-! ### Runs -/

/-- A session taint of a request, once persisted, is in the session for as long as requests are
    handled exactly if the request did not arrive with that label, or the session had it
    already. -/
theorem sessionTaint_persists_iff (start : ServerState σ τ) (earlier : List (RoutedRequest η))
    (r : RoutedRequest η) {e : Evaluated σ} {sid label : String}
    (heval : (handle host (handleAll host start earlier) r).evaluated = some e)
    (hsid : (resolveSession host.shortHash r.extensions).map Prod.fst = some sid)
    (htaint : label ∈ sessionLabels e.decision.taints) (hok : e.persisted = .ok ()) :
    (∀ later,
        label ∈ law.labels
          (handleAll host (handle host (handleAll host start earlier) r).next later).sessions sid ∧
        ∀ stored, (host.sessionStore.loadLabels sid
          (handleAll host (handle host (handleAll host start earlier) r).next later).sessions).1 =
            .ok stored → label ∈ stored) ↔
      label ∉ snapshotLabels r.extensions ∨
        label ∈ law.labels (handleAll host start earlier).sessions sid := by
  rw [← mem_labels_handle_iff host law heval hsid htaint hok]
  constructor
  · intro h
    exact (h []).1
  · intro h later
    have hlater := handleAll_grows host law _ later sid h
    exact ⟨hlater, fun stored hload => law.mem_of_load hload hlater⟩

end

/-! ### A route that taints -/

section
attribute [local instance] Platform.bare

/-- A route that taints the session, before the invocation. -/
def taintHandler : AplRouteHandler where
  route := { routeKey := "tool:read", policy := [.taint "secret" [.session]] }
  phase := .pre
  pluginRegistry := ∅
  origin := none

/-- A call of `read` by alice, which arrives with `labels`. -/
def aliceReads (labels : Finset String) : RoutedRequest Unit where
  handler := taintHandler
  plan := {}
  payload := ⟨{ role := .user }⟩
  extensions := { security := some { subject := some { id := some "alice" }, labels } }

/-- A host without plugins. -/
def plainHost : HandlerHost Unit Unit (HashMap String (Finset String)) :=
  .direct .passing .passing

/-- No session has labels yet. -/
def freshServer : ServerState Unit (HashMap String (Finset String)) := ⟨∅, ∅, ()⟩

theorem persistSession_memory_ok (opened : OpenedRequest) (st : RequestState σ)
    (sessions : HashMap String (Finset String)) :
    (persistSession MemorySessionStore opened st sessions).1 = .ok () := by
  unfold persistSession MemorySessionStore
  cases opened.sessionId with
  | none => rfl
  | some sid =>
    cases st.extensions.security with
    | none => rfl
    | some security =>
      dsimp only
      split <;> rfl

/-- Whatever labels the call arrives with, its taint is emitted and the session is persisted. -/
theorem aliceReads_evaluated (labels : Finset String) :
    ∃ e, (handle plainHost freshServer (aliceReads labels)).evaluated = some e ∧
      e.decision.taints = [⟨"secret", [.session]⟩] ∧ e.persisted = .ok () := by
  obtain ⟨e, heval, htaints⟩ : ∃ e,
      (handle plainHost freshServer (aliceReads labels)).evaluated = some e ∧
        e.decision.taints = [⟨"secret", [.session]⟩] := ⟨_, rfl, rfl⟩
  obtain ⟨opened, request, sessions, hfrom⟩ := handle_evaluated plainHost heval
  have hok := persistSession_memory_ok opened e.request sessions
  exact ⟨e, heval, htaints, (congrArg Prod.fst hfrom.persists).symm.trans hok⟩

/-- A call without labels taints alice's session for good. -/
theorem sessionTaint_persists_unlabelled :
    let run := handle plainHost freshServer (aliceReads ∅)
    ∃ e, run.evaluated = some e ∧
      "secret" ∈ sessionLabels e.decision.taints ∧ e.persisted = .ok () ∧
      ∀ later,
        let sessions := (handleAll plainHost run.next later).sessions
        "secret" ∈ MemorySessionStore.lawful.labels sessions "alice:-:-" ∧
        ∀ stored, (MemorySessionStore.loadLabels "alice:-:-" sessions).1 = .ok stored →
          "secret" ∈ stored := by
  obtain ⟨e, heval, htaints, hok⟩ := aliceReads_evaluated ∅
  have htaint : "secret" ∈ sessionLabels e.decision.taints := by
    rw [htaints]
    decide
  exact ⟨e, heval, htaint, hok,
    (sessionTaint_persists_iff plainHost MemorySessionStore.lawful freshServer [] (aliceReads ∅)
      heval rfl htaint hok).mpr (.inl (Finset.notMem_empty _))⟩

/-- A call that arrives with the label taints the session with it, and the session does not
    have it afterwards. -/
theorem sessionTaint_lost_when_carried :
    let run := handle plainHost freshServer (aliceReads {"secret"})
    ∃ e, run.evaluated = some e ∧
      (resolveSession plainHost.shortHash (aliceReads {"secret"}).extensions).map Prod.fst =
        some "alice:-:-" ∧
      "secret" ∈ sessionLabels e.decision.taints ∧ e.persisted = .ok () ∧
      ∃ stored, (plainHost.sessionStore.loadLabels "alice:-:-" run.next.sessions).1 =
        .ok stored ∧ "secret" ∉ stored := by
  intro run
  obtain ⟨e, heval, htaints, hok⟩ := aliceReads_evaluated {"secret"}
  have htaint : "secret" ∈ sessionLabels e.decision.taints := by
    rw [htaints]
    decide
  have hlost : "secret" ∉ MemorySessionStore.lawful.labels run.next.sessions "alice:-:-" := by
    intro hheld
    have harrived := (mem_labels_handle_iff plainHost MemorySessionStore.lawful heval rfl htaint
      hok).mp hheld
    exact absurd harrived (by decide)
  refine ⟨e, heval, rfl, htaint, hok, _, rfl, fun hstored => hlost ?_⟩
  rw [← MemorySessionStore.lawful.load_ok rfl]
  exact List.mem_toFinset.mpr hstored

end

end Cpex.Core
