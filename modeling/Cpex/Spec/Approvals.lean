import Cpex.Native.Ciba
import Cpex.Spec.FailClosed
import Cpex.Spec.Requests
import Cpex.Spec.SingleEntry

/-! # What an approval was given for

An elicitation step asks the approver its `from` names, unless the bag holds an elicitation id:
then it checks on that one. The approver is not told who is asked this time, so it can only
compare the answer with its own record of the id. A step that finds the id of another
elicitation in the bag is satisfied by the approval of that one.
-/

namespace Cpex

/-! ### The id in the bag -/

variable (bag : AttributeBag) {key key' : String}

theorem AttributeBag.getString_set_ne (v : AttributeValue) (h : key' ≠ key) :
    (bag.set key v).getString key' = bag.getString key' := by
  unfold AttributeBag.getString
  rw [AttributeBag.get_set_ne bag v h]

theorem AttributeBag.getString_setOpt_ne (v : Option String) (h : key' ≠ key) :
    (bag.setOpt key v).getString key' = bag.getString key' := by
  cases v with
  | none => rfl
  | some v => exact bag.getString_set_ne (.string v) h

theorem recordApproval_id (v : ElicitationValidation) :
    (recordApproval bag v).getString ElicitationBagKeys.id =
      bag.getString ElicitationBagKeys.id := by
  simp (disch := decide) only [recordApproval, AttributeBag.getString_setOpt_ne,
    AttributeBag.getString_set_ne]

theorem recordDispatch_id (step : ElicitStep) (bag : AttributeBag) (d : ElicitationDispatch) :
    (recordDispatch step bag d).getString ElicitationBagKeys.id = some d.id := by
  simp (disch := decide) only [recordDispatch, AttributeBag.getString_setOpt_ne,
    AttributeBag.getString_set_ne]
  unfold AttributeBag.getString
  rw [AttributeBag.get_set_self]

/-! ### Steps that go on as approved -/

section
variable [Platform] {σ : Type} (env : Env σ) (step : ElicitStep)

/-- The step goes on because the elicitation was approved, found genuine and in scope. -/
def GoesOnApproved (st : EvalState σ) (r : EffectOutcome × EvalState σ) : Prop :=
  r.1 = .continue ∧ ∃ dispatched v bag,
    r.2.trace = st.trace ++ [.elicit step true dispatched (some (.ok (.resolved .approved)))
      (some (.ok v)) bag] ∧
    v.valid = true ∧ step.ScopeSatisfied bag

/-- The calls behind an approval of the elicitation `id`, from `w` to `w'`. -/
def Elicited (id : String) (w w' : σ) : Prop :=
  ∃ w₁ v, env.check w step id = (.ok (.resolved .approved), w₁) ∧
    env.validate w₁ step id = (.ok v, w') ∧ v.valid = true

variable {st : EvalState σ} {dispatched : Option (Except ElicitationError ElicitationDispatch)}

/-- What a step recorded last decides whether it went on as approved. -/
theorem GoesOnApproved.checked {r : EffectOutcome × EvalState σ} {fromResolved : Bool}
    {checked : Option (Except ElicitationError ElicitationStatus)}
    {validated : Option (Except ElicitationError ElicitationValidation)} {bag : AttributeBag}
    (h : GoesOnApproved step st r)
    (htrace : r.2.trace = st.trace ++ [.elicit step fromResolved dispatched checked validated bag]) :
    checked = some (.ok (.resolved .approved)) ∧
      (∃ v, validated = some (.ok v) ∧ v.valid = true) ∧ step.ScopeSatisfied bag := by
  obtain ⟨-, dispatched', v, bag', htrace', hvalid, hscope⟩ := h
  have hlast := List.append_cancel_left (htrace.symm.trans htrace')
  obtain ⟨-, -, rfl, rfl, rfl⟩ := hlast
  exact ⟨rfl, ⟨v, rfl, hvalid⟩, hscope⟩

variable {env} in
/-- The elicitation a step goes on with: the one in the bag, or else the one it sent out. -/
theorem Elicits.elicited {a : String} (hfrom : step.resolvedFrom st.bag = some a)
    {r : EffectOutcome × EvalState σ} (h : Elicits env step st r)
    (hgoes : GoesOnApproved step st r) :
    ∃ id w, Elicited env step id w r.2.world ∧
      r.2.bag.getString ElicitationBagKeys.id = some id ∧
      ((st.bag.getString ElicitationBagKeys.id = some id ∧ w = st.world) ∨
        (st.bag.getString ElicitationBagKeys.id = none ∧
          ∃ d, env.dispatch st.world step a = (.ok d, w) ∧ d.id = id)) := by
  cases h with
  | unresolved | unsent =>
    obtain ⟨hchecked, -⟩ := hgoes.checked step rfl
    exact nomatch hchecked
  | checked hopens hends =>
    -- The record of the step shows an approval, so it is not one of a failure.
    obtain ⟨hchecked, ⟨v, rfl, hvalid⟩, hscope⟩ := hgoes.checked step rfl
    cases hends with
    | rejected _ _ hbad =>
      simp [hvalid, ElicitStep.scopeFailure_eq_none.mpr hscope] at hbad
    | approved hcheck hvalidate =>
      have helicited : Elicited env step _ _ _ := ⟨_, v, hcheck, hvalidate, hvalid⟩
      cases hopens with
      | existing hid =>
        exact ⟨_, _, helicited, (recordApproval_id st.bag v).trans hid, .inl ⟨hid, rfl⟩⟩
      | @sent a' d w hfrom' hid hsend =>
        obtain rfl := Option.some.inj (hfrom.symm.trans hfrom')
        exact ⟨_, _, helicited, (recordApproval_id _ v).trans (recordDispatch_id step st.bag d),
          .inr ⟨hid, d, hsend, rfl⟩⟩

end

namespace Core

variable {η σ : Type}

/-! ### The approver -/

/-- What an approver keeps about an elicitation: what it was dispatched for, whom it asked, and
    who approved it. -/
structure ApprovalRecord where
  origin : ElicitOrigin
  «from» : String
  approvedBy : Option String

/-- What was asked, and whom. -/
def ApprovalRecord.asked (r : ApprovalRecord) : ElicitOrigin × String := (r.origin, r.from)

/-- An approval by the one asked is known from what was asked. -/
theorem ApprovalRecord.eq_iff_asked {r : ApprovalRecord} (h : r.approvedBy = some r.from)
    (origin : ElicitOrigin) (a : String) :
    r = ⟨origin, a, some a⟩ ↔ r.asked = (origin, a) := by
  obtain ⟨origin', a', by'⟩ := r
  dsimp only [asked] at h ⊢
  subst h
  simp only [ApprovalRecord.mk.injEq, Prod.mk.injEq]
  constructor
  · rintro ⟨rfl, rfl, -⟩
    exact ⟨rfl, rfl⟩
  · rintro ⟨rfl, rfl⟩
    exact ⟨rfl, rfl, rfl⟩

/-- What is assumed of an approver: it keeps one record for each elicitation it dispatched, and
    calls an answer genuine only if the one it asked has approved. -/
structure LawfulApprover (rt : Runtime η ElicitationPayload σ) where
  record : σ → η → String → Option ApprovalRecord
  dispatched : ∀ {handler payload world out world' id},
    rt.Answers handler payload world out world' → payload.operation = .dispatch →
      out.id = some id → record world' handler id = some ⟨payload.origin, payload.from, none⟩
  checked : ∀ {handler payload world out world' id},
    rt.Answers handler payload world out world' → payload.operation = .check →
      payload.elicitationId = some id →
      (record world' handler id).map (·.asked) = (record world handler id).map (·.asked)
  validated : ∀ {handler payload world out world' id},
    rt.Answers handler payload world out world' → payload.operation = .validate →
      payload.elicitationId = some id → out.valid = some true →
      ∃ r, record world handler id = some r ∧ record world' handler id = some r ∧
        r.approvedBy = some r.from

section
variable {host : RouteHost η σ} {plan : RouteDispatchPlan η} {st st' : RequestState σ}

/-- An answered elicitation call was answered by the step's plugin, or returned the payload it
    was given. -/
theorem elicitationInvoke_ok (h : (elicitationInvoke host plan st op name payload).1 = .ok out) :
    let st' := (elicitationInvoke host plan st op name payload).2
    ∃ entry, plan.elicitationEntries.lookup name = some entry ∧ st'.routeKey = st.routeKey ∧
      (out = payload ∨ host.elicitation.Answers entry.handler payload st.world out st'.world) := by
  unfold elicitationInvoke at h ⊢
  cases hentry : plan.elicitationEntries.lookup name with
  | none => simp [hentry] at h
  | some entry =>
    refine ⟨entry, rfl, ?_⟩
    rw [hentry] at h
    unfold RequestState.invokeEntry at h ⊢
    dsimp only at h ⊢
    have hpayload := execute_single_payload host.elicitation host.executor entry payload
      st.extensions none st.disabled st.world out
    generalize execute host.elicitation host.executor [entry] payload st.extensions none st.disabled
      st.world = run at h hpayload ⊢
    cases hallowed : run.result.continueProcessing with
    | false => simp [hallowed] at h
    | true =>
      cases hout : run.result.modifiedPayload with
      | none => simp [hallowed, hout] at h
      | some out' =>
        simp only [hallowed, hout, if_true, Except.ok.injEq] at h
        cases h
        exact ⟨rfl, (hpayload hallowed hout).imp_left And.left⟩

variable {step : ElicitStep}

theorem elicitationDispatch_ok (h : elicitationDispatch host plan st step a = (.ok d, st')) :
    ∃ entry out, plan.elicitationEntries.lookup step.pluginName = some entry ∧
      st'.routeKey = st.routeKey ∧ out.id = some d.id ∧
      host.elicitation.Answers entry.handler
        (elicitationPayload .dispatch st.routeKey step a none) st.world out st'.world := by
  obtain ⟨hanswer, rfl⟩ := Prod.ext_iff.mp h
  obtain ⟨out, hinvoke, hd⟩ := Except.ok_of_bind hanswer
  obtain ⟨entry, hentry, hroute, hout⟩ := elicitationInvoke_ok hinvoke
  cases hid : out.id with
  | none => simp [hid] at hd
  | some id =>
    simp only [hid] at hd
    cases hd
    refine ⟨entry, out, hentry, hroute, hid, hout.resolve_left ?_⟩
    -- The payload that is sent has no id.
    rintro rfl
    exact nomatch hid

theorem elicitationCheck_approved {id : String}
    (h : elicitationCheck host plan st step id = (.ok (.resolved .approved), st')) :
    ∃ entry out, plan.elicitationEntries.lookup step.pluginName = some entry ∧
      st'.routeKey = st.routeKey ∧
      host.elicitation.Answers entry.handler
        (elicitationPayload .check st.routeKey step "" (some id)) st.world out st'.world := by
  obtain ⟨hanswer, rfl⟩ := Prod.ext_iff.mp h
  obtain ⟨out, hinvoke, hstatus⟩ := Except.ok_of_map hanswer
  obtain ⟨entry, hentry, hroute, hout⟩ := elicitationInvoke_ok hinvoke
  refine ⟨entry, out, hentry, hroute, hout.resolve_left ?_⟩
  -- A payload without a status counts as pending.
  rintro rfl
  exact nomatch hstatus

theorem elicitationValidate_valid {id : String} {v : ElicitationValidation}
    (h : elicitationValidate host plan st step id = (.ok v, st')) (hvalid : v.valid = true) :
    ∃ entry out, plan.elicitationEntries.lookup step.pluginName = some entry ∧
      out.valid = some true ∧
      host.elicitation.Answers entry.handler
        (elicitationPayload .validate st.routeKey step "" (some id)) st.world out st'.world := by
  obtain ⟨hanswer, rfl⟩ := Prod.ext_iff.mp h
  obtain ⟨out, hinvoke, rfl⟩ := Except.ok_of_map hanswer
  obtain ⟨entry, hentry, -, hout⟩ := elicitationInvoke_ok hinvoke
  have htrue : out.valid = some true := by
    cases hout : out.valid with
    | none => simp [hout] at hvalid
    | some b => simpa [hout] using hvalid
  refine ⟨entry, out, hentry, htrue, hout.resolve_left ?_⟩
  rintro rfl
  exact nomatch htrue

/-! ### Approvals and records -/

variable [Platform] (law : LawfulApprover host.elicitation)

/-- The record behind an approval: the one asked approved, and what was asked is as before. -/
theorem LawfulApprover.elicited {id : String} {w w' : RequestState σ} {entry : HookEntry η}
    (hentry : plan.elicitationEntries.lookup step.pluginName = some entry)
    (h : Elicited (routeEnv host plan) step id w w') :
    ∃ r, law.record w'.world entry.handler id = some r ∧ r.approvedBy = some r.from ∧
      (law.record w.world entry.handler id).map (·.asked) = some r.asked := by
  obtain ⟨w₁, v, hcheck, hvalidate, hvalid⟩ := h
  obtain ⟨entry₁, out₁, hentry₁, -, hanswer₁⟩ := elicitationCheck_approved hcheck
  obtain ⟨entry₂, out₂, hentry₂, hout₂, hanswer₂⟩ := elicitationValidate_valid hvalidate hvalid
  obtain rfl := Option.some.inj (hentry.symm.trans hentry₁)
  obtain rfl := Option.some.inj (hentry.symm.trans hentry₂)
  rw [sync_world] at hanswer₁ hanswer₂
  obtain ⟨r, hbefore, hafter, happroved⟩ := law.validated hanswer₂ rfl rfl hout₂
  have hkept := law.checked hanswer₁ rfl rfl
  rw [hbefore] at hkept
  exact ⟨r, hafter, happroved, hkept.symm⟩

variable (plan)

/-- A step whose `from` resolves to `a` goes on as approved. The elicitation it checked was
    dispatched for this step on this route with `a` as the approver, and `a` approved it, exactly
    if the bag held no elicitation id when the step was reached, or the id of an elicitation that
    the step's plugin has on record for this step on this route and for `a`. -/
theorem approval_bound_iff (step : ElicitStep) (st : EvalState (RequestState σ)) {a : String}
    {entry : HookEntry η}
    (hentry : plan.elicitationEntries.lookup step.pluginName = some entry)
    (hfrom : step.resolvedFrom st.bag = some a)
    (happroved : GoesOnApproved step st (dispatchElicitation (routeEnv host plan) step st)) :
    let final := (dispatchElicitation (routeEnv host plan) step st).2
    (∃ id, final.bag.getString ElicitationBagKeys.id = some id ∧
        law.record final.world.world entry.handler id =
          some ⟨⟨st.world.routeKey, step⟩, a, some a⟩) ↔
      ∀ existing, st.bag.getString ElicitationBagKeys.id = some existing →
        (law.record st.world.world entry.handler existing).map (·.asked) =
          some (⟨st.world.routeKey, step⟩, a) := by
  intro final
  obtain ⟨id, w, helicited, hid, hcase⟩ :=
    (dispatchElicitation_elicits _ step st).elicited step hfrom happroved
  obtain ⟨r, hafter, hby, hbefore⟩ := law.elicited hentry helicited
  have hbound : (∃ id', final.bag.getString ElicitationBagKeys.id = some id' ∧
      law.record final.world.world entry.handler id' =
        some ⟨⟨st.world.routeKey, step⟩, a, some a⟩) ↔
      r.asked = (⟨st.world.routeKey, step⟩, a) := by
    rw [← ApprovalRecord.eq_iff_asked hby]
    constructor
    · rintro ⟨id', hid', hrecord⟩
      obtain rfl := Option.some.inj (hid.symm.trans hid')
      exact Option.some.inj (hafter.symm.trans hrecord)
    · rintro rfl
      exact ⟨id, hid, hafter⟩
  rw [hbound]
  rcases hcase with ⟨hexisting, rfl⟩ | ⟨hnone, d, hsend, rfl⟩
  · -- A retry, or a step after another one: the record is the one the id already had.
    rw [hexisting]
    constructor
    · rintro hasked existing heq
      obtain rfl := Option.some.inj heq
      rw [hbefore, hasked]
    · intro h
      exact Option.some.inj (hbefore.symm.trans (h id rfl))
  · -- The elicitation this step sent out itself.
    obtain ⟨entry', out, hentry', -, hout, hanswer⟩ := elicitationDispatch_ok hsend
    obtain rfl := Option.some.inj (hentry.symm.trans hentry')
    rw [sync_routeKey] at hanswer
    rw [law.dispatched hanswer rfl hout] at hbefore
    constructor
    · intro _ existing heq
      exact nomatch hnone.symm.trans heq
    · intro _
      exact (Option.some.inj hbefore).symm

end

/-! ### The bundled approver -/

namespace Ciba

/-- What a correlation says about its elicitation. -/
def Correlation.toRecord (c : Correlation) : ApprovalRecord :=
  ⟨c.origin, c.expectedApprover, c.resolvedApprover⟩

section
variable {ω : Type} {config : CibaConfig} {op : OpenIdProvider ω} {payload : ElicitationPayload}
  {s : CibaState ω} {out : ElicitationPayload} {id : String}

/-- A dispatch that returns an id has stored whom it asked. -/
theorem doDispatch_lookup (h : (doDispatch config op payload s).1.modifiedPayload = some out)
    (hid : out.id = some id) :
    (doDispatch config op payload s).2.store.lookup id =
      some ⟨payload.from, none, payload.origin⟩ := by
  unfold doDispatch at h ⊢
  by_cases hempty : payload.from = ""
  · -- Nobody to ask: the dispatch is refused.
    rw [if_pos hempty] at h
    exact nomatch h
  · rw [if_neg hempty] at h ⊢
    cases hanswer : op.backchannel (dispatchForm config payload) s.op with
    | mk answer opState =>
    rw [hanswer] at h
    cases answer with
    | timedOut e | unreachable e | rejected status body | malformed e => exact nomatch h
    | accepted id' expiresIn =>
      obtain rfl := Option.some.inj h
      obtain rfl := Option.some.inj hid
      exact AList.lookup_insert _

/-- Who approved is all that changes in a stored correlation. -/
theorem setResolvedApprover_asked (inner : CorrelationStore) (id approver id' : String) :
    ((inner.setResolvedApprover id approver).lookup id').map (fun c => c.toRecord.asked) =
      (inner.lookup id').map fun c => c.toRecord.asked := by
  unfold CorrelationStore.setResolvedApprover
  cases hc : inner.lookup id with
  | none => rfl
  | some c =>
    by_cases hid : id' = id
    · subst hid
      rw [AList.lookup_insert, hc]
      rfl
    · rw [AList.lookup_insert_ne hid]

theorem pollToken_asked (id id' : String) :
    ((pollToken config op payload s id).2.store.lookup id').map (fun c => c.toRecord.asked) =
      (s.store.lookup id').map fun c => c.toRecord.asked := by
  unfold pollToken
  obtain ⟨answer, opState⟩ := op.token [("grant_type", grantTypeCiba), ("auth_req_id", id)] s.op
  cases answer with
  | timedOut e | unreachable e | malformed e => rfl
  | issued idToken accessToken =>
    dsimp only
    cases (idToken.or accessToken).bind fun token =>
      op.decodeJwtClaim token config.approverClaim with
    | none => rfl
    | some a => exact setResolvedApprover_asked s.store id a id'
  | refused status body error =>
    dsimp only
    cases lifecycle error <;> rfl

/-- A check keeps what was asked. -/
theorem doCheck_asked (id' : String) :
    ((doCheck config op payload s).2.store.lookup id').map (fun c => c.toRecord.asked) =
      (s.store.lookup id').map fun c => c.toRecord.asked := by
  unfold doCheck
  cases payload.elicitationId with
  | none => rfl
  | some id =>
    dsimp only
    split
    · -- An approval that was seen before is replayed without a poll.
      rfl
    · exact pollToken_asked id id'

/-- An answer is genuine only if the approver on record approved. -/
theorem doValidate_lookup (hpayload : payload.elicitationId = some id)
    (h : (doValidate config payload s).modifiedPayload = some out)
    (hvalid : out.valid = some true) :
    ∃ c, s.store.lookup id = some c ∧ c.resolvedApprover = some c.expectedApprover := by
  unfold doValidate at h
  rw [hpayload] at h
  cases hc : s.store.lookup id with
  | none =>
    simp only [hc] at h
    obtain rfl := Option.some.inj h
    exact nomatch hvalid
  | some c =>
    cases hresolved : c.resolvedApprover with
    | none =>
      simp only [hc, hresolved] at h
      obtain rfl := Option.some.inj h
      exact nomatch hvalid
    | some resolved =>
      -- The one comparison the approver makes.
      by_cases hsame : resolved = c.expectedApprover
      · exact ⟨c, rfl, by rw [hresolved, hsame]⟩
      · simp only [hc, hresolved, if_neg hsame] at h
        obtain rfl := Option.some.inj h
        exact nomatch hvalid

end

variable {ω : Type} [DecidableEq η] (configs : η → CibaConfig) (op : OpenIdProvider ω)
  {rt : Runtime η ElicitationPayload (η → CibaState ω)}

/-- A runtime whose elicitation handlers are CIBA approvers. -/
def Serves (rt : Runtime η ElicitationPayload (η → CibaState ω)) : Prop :=
  ∀ handler payload view ctx world, rt.invoke handler payload view ctx world =
    (.ok (some (handleOf configs op handler payload world).1), ctx,
      (handleOf configs op handler payload world).2)

variable {configs op}

theorem Serves.answers (hrt : Serves configs op rt)
    (h : rt.Answers handler payload world out world') :
    (handle (configs handler) op payload (world handler)).1.modifiedPayload = some out ∧
      world' handler = (handle (configs handler) op payload (world handler)).2 := by
  obtain ⟨view, ctx, erased, ctx', hinvoke, hout⟩ := h
  rw [hrt, handleOf] at hinvoke
  obtain ⟨rfl, -, rfl⟩ := hinvoke
  exact ⟨hout, Function.update_self ..⟩

/-- CIBA approvers keep one record for each elicitation they dispatched. -/
def lawful (hrt : Serves configs op rt) : LawfulApprover rt where
  record world handler id := ((world handler).store.lookup id).map (·.toRecord)
  dispatched {handler payload world out world' id} h hop hid := by
    obtain ⟨hout, hworld⟩ := hrt.answers h
    rw [handle, hop] at hout hworld
    rw [hworld, doDispatch_lookup hout hid]
    rfl
  checked {handler payload world out world' id} h hop hid := by
    obtain ⟨hout, hworld⟩ := hrt.answers h
    rw [handle, hop] at hworld
    rw [hworld, Option.map_map, Option.map_map]
    exact doCheck_asked id
  validated {handler payload world out world' id} h hop hid hvalid := by
    obtain ⟨hout, hworld⟩ := hrt.answers h
    rw [handle, hop] at hout hworld
    obtain ⟨c, hc, happroved⟩ := doValidate_lookup hid hout hvalid
    rw [hworld, hc]
    exact ⟨c.toRecord, rfl, rfl, happroved⟩

end Ciba

/-! ### Two approvals -/

section
attribute [local instance] Platform.bare

/-- A provider through which alice approves; until the first poll the answer is outstanding. -/
def aliceApproves : Ciba.OpenIdProvider Bool where
  backchannel _ polled := (.accepted "req-1" none, polled)
  token _ polled :=
    if polled then (.issued (some "alice") none, true)
    else (.refused "400" "" "authorization_pending", true)
  decodeJwtClaim token _ := some token
  expiresAt _ _ := ""

def managerConfig : Ciba.CibaConfig where
  backchannelEndpoint := "https://kc/realms/corp/protocol/openid-connect/ext/ciba/auth"
  tokenEndpoint := "https://kc/realms/corp/protocol/openid-connect/token"

/-- One approver behind the provider. -/
def approvalRuntime : Runtime Unit ElicitationPayload (Unit → Ciba.CibaState Bool) :=
  .direct fun handler payload _ world =>
    Ciba.handleOf (fun _ => managerConfig) aliceApproves handler payload world

theorem approvalRuntime_serves :
    Ciba.Serves (fun _ => managerConfig) aliceApproves approvalRuntime := fun _ _ _ _ _ => rfl

def approvalHost :
    HandlerHost Unit (Unit → Ciba.CibaState Bool) (HashMap String (Finset String)) :=
  .direct .passing approvalRuntime

def approvalLaw : LawfulApprover approvalHost.elicitation := Ciba.lawful approvalRuntime_serves

/-- Ask `who`, by the step with index `i`. -/
def approvalStep (who : String) (i : Nat) : ElicitStep where
  kind := .approval
  pluginName := "manager-approver"
  «from» := who
  source := "tool:pay.pre_invocation[" ++ toString i ++ "]"

def approvalPlan : RouteDispatchPlan Unit where
  elicitationEntries := (∅ : HashMap String (HookEntry Unit)).insert "manager-approver"
    ⟨⟨{ name := "manager-approver" }, 0⟩, ()⟩

/-- A payment that both alice and bob have to approve. -/
def payCall (headers : HashMap String String) : RoutedRequest Unit where
  handler :=
    { route := { routeKey := "tool:pay", policy := [.elicit (approvalStep "alice" 0),
        .elicit (approvalStep "bob" 1)] }
      phase := .pre
      pluginRegistry := ∅
      origin := none }
  plan := approvalPlan
  payload := ⟨{ role := .user }⟩
  extensions := { http := some { requestHeaders := headers } }

/-- The retry of the payment. -/
def payRetry : RoutedRequest Unit :=
  payCall ((∅ : HashMap String String).insert elicitationIdHeader "req-1")

/-- No approval is on record, and alice has `polled` or not. -/
def noApprovals (polled : Bool) :
    ServerState (Unit → Ciba.CibaState Bool) (HashMap String (Finset String)) where
  sessions := ∅
  disabled := ∅
  world _ := { op := polled }

/-- The evaluation of the payment where a step is reached, with `bag` and the approver's state. -/
def payState (bag : AttributeBag) (approvals : Ciba.CibaState Bool) :
    EvalState (RequestState (Unit → Ciba.CibaState Bool)) :=
  .start bag { args := .object [] }
    { routeKey := "tool:pay"
      extensions := {}
      payload := ⟨{ role := .user }⟩
      disabled := ∅
      world := fun _ => approvals }

/-- The first arrival at alice's step, with an answer at once: the approval is for that step. -/
theorem approval_bound_first_arrival :
    let st := payState .new { op := true }
    let final := (dispatchElicitation (routeEnv approvalHost.toRouteHost approvalPlan)
      (approvalStep "alice" 0) st).2
    ∃ id, final.bag.getString ElicitationBagKeys.id = some id ∧
      approvalLaw.record final.world.world () id =
        some ⟨⟨"tool:pay", approvalStep "alice" 0⟩, "alice", some "alice"⟩ := by
  refine (approval_bound_iff approvalPlan approvalLaw (approvalStep "alice" 0)
    (payState .new { op := true }) rfl rfl ?_).mpr nofun
  exact ⟨rfl, _, _, _, rfl, rfl, nofun⟩

/-- Alice's answer, on record for her step. -/
def aliceApproved : Ciba.CibaState Bool where
  store := (∅ : HashMap String Ciba.Correlation).insert "req-1"
    ⟨"alice", some "alice", ⟨"tool:pay", approvalStep "alice" 0⟩⟩
  op := true

/-- The payment is suspended until alice answers; its retry passes both steps on her approval,
    and bob, who is to approve by the second step, is never asked. -/
theorem approval_of_alice_passes_for_bob :
    let first := handle approvalHost (noApprovals false) (payCall ∅)
    let retry := handle approvalHost first.next payRetry
    first.result.violation.map (·.code) = some "elicitation.pending" ∧
      retry.result.continueProcessing = true ∧
      -- One elicitation was sent, and to alice.
      (retry.next.world ()).store.keys = ["req-1"] ∧
      ((retry.next.world ()).store.lookup "req-1").map (·.expectedApprover) = some "alice" ∧
      -- Bob's step, where the retry reaches it.
      let st := payState (AttributeBag.new.set ElicitationBagKeys.id (.string "req-1"))
        aliceApproved
      let r := dispatchElicitation (routeEnv approvalHost.toRouteHost approvalPlan)
        (approvalStep "bob" 1) st
      (approvalStep "bob" 1).resolvedFrom st.bag = some "bob" ∧
        GoesOnApproved (approvalStep "bob" 1) st r ∧
        r.2.bag.getString ElicitationBagKeys.id = some "req-1" ∧
        approvalLaw.record r.2.world.world () "req-1" =
          some ⟨⟨"tool:pay", approvalStep "alice" 0⟩, "alice", some "alice"⟩ := by
  -- The two requests are evaluated by the kernel; bob's step is small enough to unfold.
  refine ⟨by decide +kernel, by decide +kernel, by decide +kernel, by decide +kernel, ?_⟩
  exact ⟨rfl, ⟨rfl, _, _, _, rfl, rfl, nofun⟩, rfl, rfl⟩

end

/-! ### Timeouts -/

namespace Ciba

/-- The units of a timeout, in seconds. -/
def unitSecs : Char → Option Nat
  | 's' => some 1
  | 'm' => some 60
  | 'h' => some 3600
  | 'd' => some 86400
  | _ => none

/-- A timeout is a number and a unit, or a number of seconds. -/
inductive Duration (s : String) : Nat → Nat → Prop where
  | unit {num : List Char} {c : Char} {n unit : Nat}
      (htext : Text.trimChars s.toList = num ++ [c]) (hunit : unitSecs c = some unit)
      (hnum : parseU64 (String.ofList (Text.trimChars num)) = some n) : Duration s n unit
  | bare {num : List Char} {c : Char} {n : Nat} (htext : Text.trimChars s.toList = num ++ [c])
      (hunit : unitSecs c = none) (hdigit : c.isDigit = true)
      (hnum : parseU64 (String.ofList (Text.trimChars (num ++ [c]))) = some n) : Duration s n 1

/-- The parser goes by the last character. -/
theorem parseDurationSecs_of_last {s : String} (htext : Text.trimChars s.toList = num ++ [c]) :
    parseDurationSecs s =
      ((unitSecs c).map (num, ·) <|> if c.isDigit then some (num ++ [c], 1) else none).bind fun r =>
        (parseU64 (String.ofList (Text.trimChars r.1))).map fun n => n * r.2 % 2 ^ 64 := by
  unfold parseDurationSecs
  simp only [htext, List.getLast?_concat, List.dropLast_concat, Option.bind_some]
  split
  iterate 4 rfl
  · have hunit : unitSecs c = none := by
      unfold unitSecs
      split <;> first | contradiction | rfl
    rw [hunit]
    cases c.isDigit <;> rfl

/-- The parser returns the number times the unit, or nothing, exactly if that is a `u64`: it wraps
    around (and panics, where overflow is checked). What is no timeout has no duration. -/
theorem parseDurationSecs_exact_iff (s : String) :
    (∀ n unit, Duration s n unit →
      (parseDurationSecs s = some (n * unit) ∨ parseDurationSecs s = none ↔ n * unit < 2 ^ 64)) ∧
    ((∀ n unit, ¬ Duration s n unit) → parseDurationSecs s = none) := by
  constructor
  · intro n unit hdur
    have hparse : parseDurationSecs s = some (n * unit % 2 ^ 64) := by
      cases hdur with
      | unit htext hunit hnum => simp [parseDurationSecs_of_last htext, hunit, hnum]
      | bare htext hunit hdigit hnum => simp [parseDurationSecs_of_last htext, hunit, hdigit, hnum]
    simp only [hparse, Option.some.injEq, reduceCtorEq, or_false]
    omega
  · intro hnone
    rcases List.eq_nil_or_concat (Text.trimChars s.toList) with hnil | ⟨num, c, htext⟩
    · simp [parseDurationSecs, hnil]
    rw [List.concat_eq_append] at htext
    rw [parseDurationSecs_of_last htext]
    by_contra hsome
    obtain ⟨secs, hsecs⟩ := Option.ne_none_iff_exists'.mp hsome
    obtain ⟨r, hr, hsecs⟩ := Option.bind_eq_some_iff.mp hsecs
    obtain ⟨n, hnum, -⟩ := Option.map_eq_some_iff.mp hsecs
    cases hunit : unitSecs c with
    | some unit =>
      rw [hunit] at hr
      cases hr
      exact hnone _ _ (.unit htext hunit hnum)
    | none =>
      rw [hunit] at hr
      obtain ⟨hdigit, hr⟩ := Option.ite_none_right_eq_some.mp hr
      cases hr
      exact hnone _ _ (.bare htext hunit hdigit hnum)

theorem parseDurationSecs_exact_minutes :
    parseDurationSecs "5m" = some 300 ∨ parseDurationSecs "5m" = none :=
  ((parseDurationSecs_exact_iff "5m").1 5 60
    (@Duration.unit _ "5".toList 'm' _ _ (by decide) rfl (by decide))).mpr (by decide)

/-- So many days are more seconds than a `u64` holds. -/
theorem parseDurationSecs_wraps_days :
    Duration "213503982334602d" 213503982334602 86400 ∧
      parseDurationSecs "213503982334602d" = some 61184 :=
  ⟨@Duration.unit _ "213503982334602".toList 'd' _ _ (by decide) rfl (by decide), by decide⟩

end Ciba

end Core

end Cpex
