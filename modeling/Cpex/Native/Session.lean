import Cpex.Native.Extensions

/-! # Sessions

`apl-cpex/src/{session_resolver,session_store}.rs`: which session a request belongs to, and the
store of the labels a session has accumulated.

`short_hash`, the first 16 hex digits of a SHA-256, is a parameter. -/

namespace Cpex.Core

/-! ### The resolver -/

/-- `SessionSource`: the tier that produced a session id. -/
inductive SessionSource where
  | agent
  | tokenClaim
  | identity
  deriving DecidableEq, Repr

section
variable (shortHash : String → String)

/-- `subject_scoped`. -/
def subjectScoped (subjectId : Option String) (raw : String) : Option String :=
  subjectId.map fun sub => shortHash (sub ++ ":" ++ raw)

/-- A tier that binds a given value to the subject; it falls through on an empty value and
    without a subject. -/
def boundTier (source : SessionSource) (subjectId value : Option String) :
    Option (String × SessionSource) :=
  value.bind fun sid =>
    if sid = "" then none else (subjectScoped shortHash subjectId sid).map (·, source)

/-- The tier derived from the identity triple. -/
def identityTier (security : SecurityExtension) : Option (String × SessionSource) :=
  (security.subject.bind (·.id)).map fun sub =>
    let actor := (security.callerWorkload.bind (·.clientId)).getD "-"
    let aud := (security.thisWorkload.bind (·.clientId)).getD "-"
    (shortHash (sub ++ ":" ++ actor ++ ":" ++ aud), .identity)

/-- `resolve_session`: the first tier that hits. -/
def resolveSession (ext : Extensions) : Option (String × SessionSource) :=
  let subject := ext.security.bind (·.subject)
  let subjectId := subject.bind (·.id)
  (boundTier shortHash .agent subjectId (ext.agent.bind (·.val.sessionId))).or <|
    (boundTier shortHash .tokenClaim subjectId
      (subject.bind (·.claims.lookup "session_id"))).or <|
    ext.security.bind (identityTier shortHash)

end

/-! ### The store -/

/-- `SessionStoreError`. -/
inductive SessionStoreError where
  | backend (msg : String)
  deriving DecidableEq, Repr

/-- `SessionStore`, over the state `τ` of its backend. -/
structure SessionStore (τ : Type) where
  loadLabels : String → τ → Except SessionStoreError (List String) × τ
  appendLabels : String → List String → τ → Except SessionStoreError Unit × τ

/-- `MemorySessionStore`: its sets are kept sorted, the order in which a set is read is not
    used. -/
def MemorySessionStore : SessionStore (HashMap String (Finset String)) where
  loadLabels sessionId inner :=
    (.ok (((inner.lookup sessionId).map fun s => s.sort (· ≤ ·)).getD []), inner)
  appendLabels sessionId labels inner :=
    if labels.isEmpty then (.ok (), inner)
    else
      let entry := (inner.lookup sessionId).getD ∅
      (.ok (), inner.insert sessionId (entry ∪ labels.toFinset))

end Cpex.Core
