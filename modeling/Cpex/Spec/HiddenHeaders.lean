import Cpex.ForStd.Except
import Cpex.Native.PythonHost
import Cpex.Spec.WriteBack

/-! # Headers a plugin could not see

`merge_http` replaces both header maps by the returned ones. A header that was not in the view
the plugin was given is therefore lost, unless the plugin returns it all the same.

In process the view shows all headers or, without `read_headers`, none. Behind the Python host
the sensitive headers are taken out of the view, and out of what comes back.
-/

namespace Cpex

/-- The two header maps of the http slot. -/
inductive HeaderSide where
  | request
  | response

def HttpExtension.headers (http : HttpExtension) : HeaderSide → HashMap String String
  | .request => http.requestHeaders
  | .response => http.responseHeaders

/-- The value of header `name`. -/
def headerOf (http : Option HttpExtension) (side : HeaderSide) (name : String) : Option String :=
  http.bind fun http => (http.headers side).lookup name

/-- Every header of `canonical` that `view` does not show has its value in `after`. -/
def HiddenKept (canonical view after : Option HttpExtension) : Prop :=
  ∀ side name value, headerOf canonical side name = some value →
    headerOf view side name = none → headerOf after side name = some value

theorem HiddenKept.refl (canonical view : Option HttpExtension) :
    HiddenKept canonical view canonical :=
  fun _ _ _ h _ => h

/-- The returned maps take the place of the canonical ones. -/
theorem headerOf_mergeOwned {e : Extensions} {owned : OwnedExtensions} (side : HeaderSide)
    (name : String) (h : owned.httpWriteToken = true) :
    headerOf (e.mergeOwned owned).http side name =
      headerOf (owned.http.or e.http) side name := by
  rw [mergeOwned_http_eq, h]
  cases owned.http with
  | none => rfl
  | some http => cases side <;> rfl

namespace PythonHost

open Cpex.Core

variable {π : Type} (codec : Codec π)

theorem headers_stripped (headers : HashMap String String) :
    (stripSensitive headers).lookup name =
      if isSensitive name then none else headers.lookup name := by
  unfold stripSensitive
  rw [AList.lookup_filterKeys]
  cases isSensitive name <;> rfl

theorem headers_sanitizeHttp (http : HttpExtension) :
    (sanitizeHttp http).headers side = stripSensitive (http.headers side) := by
  cases side <;> rfl

theorem headers_returnedHttp (http : HttpExtension) :
    (returnedHttp http inbound).headers side = stripSensitive (http.headers side) := by
  cases side <;> rfl

/-! ### What the worker is sent -/

theorem lookup_put {α : Type} {key : String} {toValue : α → Except String Json} {slot : Option α}
    {fields fields' : List (String × Json)} (h : put key toValue slot fields = .ok fields')
    (k : String) :
    fields'.lookup k =
      if k = key then (slot.bind fun x => (toValue x).toOption).or (fields.lookup k)
      else fields.lookup k := by
  unfold put at h
  cases slot with
  | none => cases h; simp
  | some x =>
    dsimp only at h
    cases hvalue : toValue x with
    | error e => rw [hvalue] at h; exact nomatch h
    | ok value =>
      rw [hvalue] at h
      cases h
      simp [hvalue, Except.toOption]

/-- The `http` slot of a `modified_extensions` value. -/
def slotHttp (field : Json) : Option HttpExtension :=
  match field.get "http" with
  | none | some .null => none
  | some raw => (codec.readHttp raw).toOption

/-- The `http` slot a response returns. -/
def workerHttp (response : Json) : Option HttpExtension :=
  (response.get modifiedExtensionsField).bind (slotHttp codec)

theorem slot_http_ok (h : slot codec.readHttp object "http" = .ok http) :
    slotHttp codec (.object object) = http := by
  unfold slot at h
  change (match object.lookup "http" with | none | some .null => _ | some raw => _) = _
  cases hlookup : object.lookup "http" with
  | none => rw [hlookup] at h; cases h; rfl
  | some raw =>
    rw [hlookup] at h
    cases raw with
    | null => cases h; rfl
    | bool _ | number _ | string _ | array _ | object _ =>
      -- A slot that does not parse is an error, so this one did.
      dsimp only at h ⊢
      split at h
      · rename_i heq
        cases h
        rw [heq]
        rfl
      · exact nomatch h

/-- What is known of the extensions rebuilt so far: their http slot, and that they count as
    modified once the worker's headers were taken. -/
structure Rebuilt (inbound : Extensions) (http : Option HttpExtension) (taken : Bool)
    (out : OwnedExtensions × Bool) : Prop where
  edits : EditsView inbound out.1
  http : out.1.http = http
  applied : taken = true → out.2 = true

section Take

variable {inbound : Extensions} {http : Option HttpExtension} {taken : Bool}
  {out : OwnedExtensions × Bool}

theorem rebuilt_takeHttp (htoken : inbound.httpWriteToken = true)
    (returned : Option HttpExtension) :
    Rebuilt inbound ((returned.map fun http => returnedHttp http inbound.http).or inbound.http)
      returned.isSome (takeHttp inbound returned (inbound.cowCopy, false)) := by
  have hrefl := EditsView.refl inbound
  unfold takeHttp
  cases returned with
  | none => exact ⟨hrefl, rfl, nofun⟩
  | some http =>
    rw [htoken]
    exact ⟨⟨hrefl.immutable, hrefl.labels, hrefl.constraint⟩, rfl, fun _ => rfl⟩

theorem Rebuilt.takeSecurity (h : Rebuilt inbound http taken out)
    (returned : Option SecurityExtension) :
    Rebuilt inbound http taken (takeSecurity inbound returned out) := by
  unfold PythonHost.takeSecurity
  cases returned with
  | none => exact h
  | some security =>
    dsimp only
    split
    · -- The labels shown are merged with the returned ones.
      refine ⟨⟨h.edits.immutable, fun shown hshown => ⟨_, rfl, ?_⟩, h.edits.constraint⟩, h.http,
        fun _ => rfl⟩
      rw [hshown]
      exact Finset.subset_union_left
    · exact h

theorem Rebuilt.takeDelegation (h : Rebuilt inbound http taken out)
    (returned : Option DelegationExtension) :
    Rebuilt inbound http taken (takeDelegation inbound returned out) := by
  unfold PythonHost.takeDelegation
  cases returned with
  | none => exact h
  | some delegation =>
    dsimp only
    split
    · exact ⟨⟨h.edits.immutable, h.edits.labels, h.edits.constraint⟩, h.http, fun _ => rfl⟩
    · exact h

theorem Rebuilt.takeCustom (h : Rebuilt inbound http taken out)
    (returned : Option (HashMap String Json)) :
    Rebuilt inbound http taken (takeCustom returned out) := by
  cases returned with
  | none => exact h
  | some custom =>
    exact ⟨⟨h.edits.immutable, h.edits.labels, h.edits.constraint⟩, h.http, fun _ => rfl⟩

end Take

/-- What the host makes of a value whose `http` slot is `returned`. -/
inductive FromWire (inbound : Extensions) (returned : Option HttpExtension) :
    Option OwnedExtensions → Prop
  | unmodified (none_returned : returned = none) : FromWire inbound returned none
  | rebuilt (owned : OwnedExtensions) (edits : EditsView inbound owned)
      (http : owned.http =
        (returned.map fun http => returnedHttp http inbound.http).or inbound.http) :
      FromWire inbound returned (some owned)

theorem ownedFromReturnedSlot_ok (htoken : inbound.httpWriteToken = true)
    (h : ownedFromReturnedSlot codec field inbound = .ok out) :
    FromWire inbound (slotHttp codec field) out := by
  cases field with
  | null => cases h; exact .unmodified rfl
  | bool _ | number _ | string _ | array _ => exact nomatch h
  | object object =>
    obtain ⟨http, hhttp, h⟩ := Except.ok_of_bind h
    obtain ⟨security, -, h⟩ := Except.ok_of_bind h
    obtain ⟨delegation, -, h⟩ := Except.ok_of_bind h
    obtain ⟨custom, -, h⟩ := Except.ok_of_bind h
    have hrebuilt := (((rebuilt_takeHttp htoken http).takeSecurity security).takeDelegation
      delegation).takeCustom custom
    rw [slot_http_ok codec hhttp]
    generalize takeCustom custom _ = rebuilt at h hrebuilt
    obtain ⟨owned, applied⟩ := rebuilt
    cases applied with
    | true => cases h; exact .rebuilt owned hrebuilt.edits hrebuilt.http
    | false =>
      cases h
      -- Headers taken from the wire would count as a modification.
      cases http with
      | none => exact .unmodified rfl
      | some http => exact nomatch hrebuilt.applied rfl

/-- The extensions of a result read off a response. -/
theorem responseToResult_ok (htoken : inbound.httpWriteToken = true)
    (h : responseToResult codec hookName response inbound = .ok erased) :
    FromWire inbound (workerHttp codec response) erased.modifiedExtensions := by
  obtain ⟨violation, -, h⟩ := Except.ok_of_bind h
  obtain ⟨payload, -, h⟩ := Except.ok_of_bind h
  obtain ⟨extensions, hread, h⟩ := Except.ok_of_bind h
  cases h
  unfold readField at hread
  unfold workerHttp
  cases hfield : response.get modifiedExtensionsField with
  | none => rw [hfield] at hread; cases hread; exact .unmodified rfl
  | some field =>
    rw [hfield] at hread
    cases field with
    | null => cases hread; exact .unmodified rfl
    | bool _ | number _ | string _ | array _ | object _ =>
      dsimp only at hread
      cases howned : ownedFromReturnedSlot codec _ inbound with
      | error e => rw [howned] at hread; exact nomatch hread
      | ok out =>
        rw [howned] at hread
        cases hread
        exact ownedFromReturnedSlot_ok codec htoken howned

end PythonHost

namespace Core

variable {η π σ : Type}

/-! ### The merge -/

/-- What an accepted result leaves of a header. -/
theorem headerOf_accepted {e : Extensions} {owned : OwnedExtensions}
    (hwrite : "write_headers" ∈ capabilities) (side : HeaderSide) (name : String) :
    headerOf (e.mergeOwned (grantTokens owned capabilities)).http side name =
      headerOf (owned.http.or e.http) side name := by
  rw [headerOf_mergeOwned side name (by simpa [grantTokens] using hwrite)]
  rfl

/-- `http` has every header of `canonical`, under the same value. -/
def Carries (http : HttpExtension) (canonical : Option HttpExtension) : Prop :=
  ∀ side name value, headerOf canonical side name = some value →
    (http.headers side).lookup name = some value

/-- Nothing is lost, unless the accepted result has an http slot. -/
theorem hiddenKept_takenOver_iff {e : Extensions} (hwrite : "write_headers" ∈ capabilities)
    (view : Option HttpExtension) (modified : Option OwnedExtensions) :
    HiddenKept e.http view (takenOver e capabilities modified).http ↔
      ∀ owned, modified = some owned → mergeGate e owned capabilities = true →
        ∀ http, owned.http = some http → HiddenKept e.http view (some http) := by
  cases modified with
  | none => exact iff_of_true (HiddenKept.refl _ _) (by simp)
  | some owned =>
    rw [takenOver]
    by_cases hgate : mergeGate e owned capabilities = true
    · rw [if_pos hgate]
      have hafter : HiddenKept e.http view (e.mergeOwned (grantTokens owned capabilities)).http ↔
          HiddenKept e.http view (owned.http.or e.http) := by
        simp only [HiddenKept, headerOf_accepted hwrite]
      rw [hafter]
      cases hhttp : owned.http with
      | none => exact iff_of_true (HiddenKept.refl _ _) (by simp [hhttp])
      | some http => simp [hgate, hhttp]
    · -- What fails the tests is not merged.
      rw [if_neg hgate]
      refine iff_of_true (HiddenKept.refl _ _) ?_
      rintro _ ⟨⟩ hpasses
      exact absurd hpasses hgate

open PythonHost

theorem headerOf_sanitizeHttp (http : Option HttpExtension) :
    headerOf (http.map sanitizeHttp) side name =
      if isSensitive name then none else headerOf http side name := by
  cases http with
  | none => simp [headerOf]
  | some http =>
    change ((sanitizeHttp http).headers side).lookup name = _
    rw [headers_sanitizeHttp, headers_stripped]
    rfl

/-- Whether the worker is shown a header. -/
theorem headerOf_wire_eq_none_iff {e : Extensions} {capabilities : Finset String}
    (h : headerOf e.http side name = some value) :
    headerOf ((serialView e capabilities).http.map sanitizeHttp) side name = none ↔
      isSensitive name = true ∨ "read_headers" ∉ capabilities := by
  rw [headerOf_sanitizeHttp, serialView_http]
  by_cases hread : "read_headers" ∈ capabilities
  · rw [gate_of_open hread, h]
    simp [hread]
  · rw [gate_of_closed hread]
    simp [hread, headerOf]

/-- When the headers a plugin could not see keep their values. In process: it reads headers, or
    what it returns is not merged, or has no http slot, or carries every header there was.
    Behind the Python host: it returns no http slot, or no header was sensitive and it reads
    headers or returns each one. -/
theorem hiddenHeaders_kept_iff (codec : Codec π) (entry : HookEntry η)
    (hwrite : "write_headers" ∈ entry.capabilities) (st : PipelineState η π σ) :
    (∀ erased : ErasedResultFields π,
      HiddenKept st.extensions.http (serialView st.extensions entry.capabilities).http
          (acceptModifications true entry erased st).2.extensions.http ↔
        "read_headers" ∈ entry.capabilities ∨
          ∀ owned http, erased.modifiedExtensions = some owned →
            mergeGate st.extensions owned entry.capabilities = true → owned.http = some http →
            Carries http st.extensions.http) ∧
      ∀ hookName response erased, responseToResult codec hookName response
          (serialView st.extensions entry.capabilities) = .ok erased →
        (HiddenKept st.extensions.http
            ((serialView st.extensions entry.capabilities).http.map sanitizeHttp)
            (acceptModifications true entry erased st).2.extensions.http ↔
          ∀ http, workerHttp codec response = some http → ∀ side name value,
            headerOf st.extensions.http side name = some value → isSensitive name = false ∧
              ("read_headers" ∈ entry.capabilities ∨
                (http.headers side).lookup name = some value)) := by
  refine ⟨fun erased => ?_, fun hookName response erased hresult => ?_⟩
  · rw [acceptModifications_extensions, hiddenKept_takenOver_iff hwrite, serialView_http]
    by_cases hread : "read_headers" ∈ entry.capabilities
    · -- The view is the canonical slot.
      rw [gate_of_open hread]
      refine iff_of_true (fun _ _ _ _ _ side name value hvalue hhidden => ?_) (.inl hread)
      rw [hvalue] at hhidden
      exact nomatch hhidden
    · -- Every header was hidden.
      rw [gate_of_closed hread, or_iff_right hread]
      refine forall_congr' fun owned => ⟨fun h http howned hgate hhttp side name value hvalue => ?_,
        fun h howned hgate http hhttp side name value hvalue _ => ?_⟩
      · exact h howned hgate http hhttp side name value hvalue rfl
      · exact h http howned hgate hhttp side name value hvalue
  · have hwire := responseToResult_ok codec (by simpa [serialView] using hwrite) hresult
    rw [acceptModifications_extensions, hiddenKept_takenOver_iff hwrite]
    generalize workerHttp codec response = returned at hwire
    generalize erased.modifiedExtensions = modified at hwire
    cases hwire with
    | unmodified hnone =>
      rw [hnone]
      simp
    | rebuilt owned edits hhttp =>
      simp only [Option.some.injEq, forall_eq', edits.mergeGate, forall_const, hhttp]
      cases returned with
      | none =>
        -- The host hands back the http slot it was sent.
        refine iff_of_true (fun http hsent side name value hvalue _ => ?_) (by simp)
        rw [Option.map_none, Option.none_or, serialView_http] at hsent
        by_cases hread : "read_headers" ∈ entry.capabilities
        · rw [gate_of_open hread] at hsent
          rw [← hsent]
          exact hvalue
        · rw [gate_of_closed hread] at hsent
          exact nomatch hsent
      | some http =>
        -- The headers left are the returned ones, and of those not the sensitive ones.
        simp only [Option.map_some, Option.some_or, Option.some.injEq, forall_eq']
        refine forall₄_congr fun side name value hvalue => ?_
        have hafter : headerOf (some (returnedHttp http
            (serialView st.extensions entry.capabilities).http)) side name =
              if isSensitive name then none else (http.headers side).lookup name := by
          change ((returnedHttp http _).headers side).lookup name = _
          rw [headers_returnedHttp, headers_stripped]
        rw [headerOf_wire_eq_none_iff hvalue, hafter]
        cases hsens : isSensitive name with
        | true => simp
        | false => simp [or_iff_not_imp_left]

/-! ### A tenant header and a credential -/

/-- A worker that answers in terms of request headers. -/
def headersCodec : Codec Unit where
  request _ := .ok .null
  agent _ := .ok .null
  http http := .ok (.object (http.requestHeaders.entries.map fun e => (e.1, .string e.2)))
  security _ := .ok .null
  delegation _ := .ok .null
  mcp _ := .ok .null
  completion _ := .ok .null
  provenance _ := .ok .null
  llm _ := .ok .null
  framework _ := .ok .null
  «meta» _ := .ok .null
  custom _ := .ok .null
  readHttp
    | .object [(name, .string value)] =>
      .ok { requestHeaders := (∅ : HashMap String String).insert name value }
    | _ => .error "not a header"
  readSecurity _ := .error "not a security slot"
  readDelegation _ := .error "not a delegation slot"
  readCustom _ := .error "not a custom slot"
  readPayload _ _ := .ok ()

/-- A request with a credential among its headers, and the token that was taken from it. -/
def credentialed : Extensions where
  http := some { requestHeaders :=
    ((∅ : HashMap String String).insert "x-tenant" "acme").insert "Authorization" "Bearer t" }
  rawCredentials := some { inboundTokens :=
    (∅ : HashMap TokenRole RawInboundToken).insert .user ⟨"t", "Authorization", .jwt⟩ }

/-- A plugin with these capabilities. -/
def headerEntry (capabilities : Finset String) : HookEntry Unit where
  pluginRef := { trustedConfig := { name := "headers", capabilities }, id := 0 }
  handler := ()

/-- A request with one header. -/
def withHeader (name value : String) : PipelineState Unit Unit Unit :=
  .start () { http := some { requestHeaders := (∅ : HashMap String String).insert name value } }
    none ∅ ()

/-- The result of a plugin that sets one header of its own. -/
def settingHeader (view : Extensions) : ErasedResultFields Unit where
  modifiedExtensions := some { view.cowCopy with
    http := some { requestHeaders := (∅ : HashMap String String).insert "x-plugin" "1" } }

/-- The same from a worker. -/
def settingResponse : Json :=
  .object [("modified_extensions", .object [("http", .object [("x-plugin", .string "1")])])]

/-- A plugin that reads headers in process loses none it could not see. -/
theorem hiddenHeaders_kept_reading :
    let st := withHeader "x-tenant" "acme"
    let entry := headerEntry {"read_headers", "write_headers"}
    HiddenKept st.extensions.http (serialView st.extensions entry.capabilities).http
      (acceptModifications true entry (settingHeader {}) st).2.extensions.http :=
  ((hiddenHeaders_kept_iff headersCodec (headerEntry {"read_headers", "write_headers"})
    (by decide) (withHeader "x-tenant" "acme")).1 (settingHeader {})).mpr (.inl (by decide))

/-- Without `read_headers` the plugin drops the tenant header. Behind the Python host, a worker
    that reads headers drops the credential. -/
theorem hiddenHeaders_lost :
    let tenant := withHeader "x-tenant" "acme"
    let writer := headerEntry {"write_headers"}
    let unread := serialView tenant.extensions writer.capabilities
    let bearer := withHeader "Authorization" "Bearer t"
    let reader := headerEntry {"read_headers", "write_headers"}
    let view := serialView bearer.extensions reader.capabilities
    ¬ HiddenKept tenant.extensions.http unread.http
        (acceptModifications true writer (settingHeader unread) tenant).2.extensions.http ∧
      ∃ erased, responseToResult headersCodec "cmf.tool_pre_invoke" settingResponse view =
          .ok erased ∧
        ¬ HiddenKept bearer.extensions.http (view.http.map sanitizeHttp)
          (acceptModifications true reader erased bearer).2.extensions.http := by
  constructor
  · intro h
    have hafter := h .request "x-tenant" "acme" rfl rfl
    exact nomatch hafter
  · refine ⟨_, rfl, fun h => ?_⟩
    have hafter := h .request "Authorization" "Bearer t" rfl rfl
    exact nomatch hafter

end Core

end Cpex
