import Cpex.Spec.AskedPlugins

/-! # What the bag says about a delegation

A granted `delegate` step writes `delegation.granted` and what was granted to the bag, for the rules
after it. Nothing is taken back: a step that is denied and may be continued leaves the attributes of
an earlier grant, and a grant without an audience leaves the audience of an earlier one. So what the
bag says is that of the last grant that had the attribute, and not of the last step.
-/

namespace Cpex

/-- What a granted delegation leaves in the bag besides the flag. -/
inductive GrantAttribute where
  | permissions
  | audience
  | expiresAt
  deriving DecidableEq

def GrantAttribute.key : GrantAttribute → String
  | .permissions => DelegationBagKeys.grantedPermissions
  | .audience => DelegationBagKeys.grantedAudience
  | .expiresAt => DelegationBagKeys.grantedExpiresAt

/-- The value an outcome has for an attribute. -/
def DelegationOutcome.value (outcome : DelegationOutcome) :
    GrantAttribute → Option AttributeValue
  | .permissions =>
    if outcome.grantedPermissions.isEmpty then none
    else some (.stringSet outcome.grantedPermissions.toFinset)
  | .audience => outcome.grantedAudience.map .string
  | .expiresAt => outcome.grantedExpiresAt.map .string

namespace DelegationAnswer

/-- The call returned `Allow`. -/
def Granted : DelegationAnswer → Prop
  | .ok outcome => outcome.decision = .allow
  | .error _ => False

/-- What the outcome of the call has for an attribute, nothing if there is no outcome. -/
def value (a : GrantAttribute) : DelegationAnswer → Option AttributeValue
  | .ok outcome => outcome.value a
  | .error _ => none

/-- The value that a granted call has for an attribute. -/
def written (a : GrantAttribute) : DelegationAnswer → Option AttributeValue
  | .ok outcome =>
    match outcome.decision with
    | .allow => outcome.value a
    | .deny _ _ => none
  | .error _ => none

end DelegationAnswer

/-- The bag describes a step with this answer. -/
structure Describes (bag : AttributeBag) (answer : DelegationAnswer) : Prop where
  flag : bag.get DelegationBagKeys.granted = some (.bool true) ↔ answer.Granted
  attributes : ∀ a : GrantAttribute, bag.get a.key = answer.value a

/-- The last value that a granted call had for an attribute, or else the one in the bag before
    them. -/
def lastWritten (bag : AttributeBag) (answers : List DelegationAnswer) (a : GrantAttribute) :
    Option AttributeValue :=
  (answers.filterMap (DelegationAnswer.written a)).getLast?.or (bag.get a.key)

/-- After the answers so far, nothing is there that would be stale after this one. A call that is
    not granted comes before any grant, and an attribute that it does not write is already what its
    outcome has for it. -/
structure NothingStale (bag : AttributeBag) (answers : List DelegationAnswer)
    (answer : DelegationAnswer) : Prop where
  flag : ¬answer.Granted → bag.get DelegationBagKeys.granted ≠ some (.bool true) ∧
    ∀ earlier ∈ answers, ¬earlier.Granted
  attributes : ∀ a, answer.written a = none → lastWritten bag answers a = answer.value a

/-- The bag is as the answers left it, when it was `start` before them. -/
structure Stands (start : AttributeBag) (answers : List DelegationAnswer) (bag : AttributeBag) :
    Prop where
  flag : bag.get DelegationBagKeys.granted = some (.bool true) ↔
    start.get DelegationBagKeys.granted = some (.bool true) ∨ ∃ answer ∈ answers, answer.Granted
  attributes : ∀ a : GrantAttribute, bag.get a.key = lastWritten start answers a

/-! ### One step -/

variable (bag : AttributeBag) (outcome : DelegationOutcome)

theorem get_recordGrant_granted :
    (recordGrant bag outcome).get DelegationBagKeys.granted = some (.bool true) := by
  simp (disch := decide) only [recordGrant, AttributeBag.get_setOpt_ne]
  split
  · exact AttributeBag.get_set_self _ _ _
  · simp (disch := decide) only [AttributeBag.get_set_ne, AttributeBag.get_set_self]

theorem get_recordGrant (a : GrantAttribute) :
    (recordGrant bag outcome).get a.key = (outcome.value a).or (bag.get a.key) := by
  -- The attribute's own write, seen through the writes of the others.
  cases a with
  | permissions =>
    simp (disch := decide) only [GrantAttribute.key, recordGrant, AttributeBag.get_setOpt_ne,
      DelegationOutcome.value]
    split
    · exact AttributeBag.get_set_ne _ _ (by decide)
    · exact AttributeBag.get_set_self _ _ _
  | audience | expiresAt =>
    simp (disch := decide) only [GrantAttribute.key, recordGrant, AttributeBag.get_setOpt_ne,
      AttributeBag.get_setOpt_self, DelegationOutcome.value]
    congr 1
    split <;> simp (disch := decide) only [AttributeBag.get_set_ne]

theorem get_recordAnswer :
    (recordAnswer bag answer).get a.key = (answer.written a).or (bag.get a.key) := by
  cases answer with
  | error e => rfl
  | ok outcome =>
    simp only [recordAnswer, DelegationAnswer.written]
    cases outcome.decision with
    | allow => exact get_recordGrant bag outcome a
    | deny reason source => rfl

theorem get_recordAnswer_granted (answer : DelegationAnswer) :
    (recordAnswer bag answer).get DelegationBagKeys.granted = some (.bool true) ↔
      bag.get DelegationBagKeys.granted = some (.bool true) ∨ answer.Granted := by
  cases answer with
  | error e => simp [recordAnswer, DelegationAnswer.Granted]
  | ok outcome =>
    simp only [recordAnswer, DelegationAnswer.Granted]
    cases outcome.decision with
    | allow => simp [get_recordGrant_granted]
    | deny reason source => simp

/-- What a call writes, its outcome has. -/
theorem DelegationAnswer.value_of_written {answer : DelegationAnswer}
    (h : answer.written a = some v) : answer.value a = some v := by
  cases answer with
  | error e => cases h
  | ok outcome =>
    simp only [written] at h
    split at h
    · exact h
    · cases h

theorem lastWritten_concat :
    lastWritten start (answers ++ [answer]) a =
      (answer.written a).or (lastWritten start answers a) := by
  have hone : ([answer].filterMap (DelegationAnswer.written a)).getLast? = answer.written a := by
    cases h : answer.written a with
    | none => simp [h]
    | some v => simp [h]
  rw [lastWritten, List.filterMap_append, List.getLast?_append, hone, Option.or_assoc, lastWritten]

namespace Stands

variable {start bag bag' : AttributeBag} {answers : List DelegationAnswer}

theorem refl (start : AttributeBag) : Stands start [] start :=
  ⟨by simp, fun _ => rfl⟩

theorem congr (h : Stands start answers bag)
    (hflag : bag'.get DelegationBagKeys.granted = bag.get DelegationBagKeys.granted)
    (hattributes : ∀ a : GrantAttribute, bag'.get a.key = bag.get a.key) :
    Stands start answers bag' :=
  ⟨by rw [hflag, h.flag], fun a => by rw [hattributes, h.attributes]⟩

/-- One more answer. -/
theorem record (h : Stands start answers bag) (answer : DelegationAnswer) :
    Stands start (answers ++ [answer]) (recordAnswer bag answer) where
  flag := by
    rw [get_recordAnswer_granted, h.flag, or_assoc]
    simp [or_and_right, exists_or]
  attributes a := by rw [get_recordAnswer, h.attributes, lastWritten_concat]

/-- After a step the bag describes it exactly if the earlier answers left nothing stale. -/
theorem describes_iff (h : Stands start answers bag) (answer : DelegationAnswer) :
    Describes (recordAnswer bag answer) answer ↔ NothingStale start answers answer := by
  constructor
  · intro hd
    refine ⟨fun hdenied => ?_, fun a hnone => ?_⟩
    · have hflag : bag.get DelegationBagKeys.granted ≠ some (.bool true) := fun hflag =>
        hdenied (hd.flag.mp ((get_recordAnswer_granted bag answer).mpr (.inl hflag)))
      rw [Ne, h.flag, not_or] at hflag
      exact ⟨hflag.1, fun earlier hmem hgranted => hflag.2 ⟨earlier, hmem, hgranted⟩⟩
    · rw [← hd.attributes, get_recordAnswer, hnone, Option.none_or, h.attributes]
  · intro hs
    refine ⟨?_, fun a => ?_⟩
    · rw [get_recordAnswer_granted, h.flag]
      refine ⟨fun hor => ?_, .inr⟩
      by_contra hdenied
      obtain ⟨hstart, hearlier⟩ := hs.flag hdenied
      rcases hor with (hflag | ⟨earlier, hmem, hgranted⟩) | hgranted
      · exact hstart hflag
      · exact hearlier earlier hmem hgranted
      · exact hdenied hgranted
    · -- What the step does not write is what the earlier answers left.
      rw [get_recordAnswer]
      cases hwritten : answer.written a with
      | some v => rw [Option.some_or, DelegationAnswer.value_of_written hwritten]
      | none => rw [Option.none_or, h.attributes, hs.attributes a hwritten]

end Stands

/-! ### Records -/

/-- The delegation that a record is of, with its answer. -/
def Reached.delegation : Reached → Option (DelegateStep × DelegationAnswer)
  | .delegate step answer => some (step, answer)
  | _ => none

/-- The answers on record, in order. -/
def delegationAnswers (trace : List Reached) : List DelegationAnswer :=
  (trace.filterMap Reached.delegation).map Prod.snd

theorem delegation_eq_none_of_asked {x : Reached}
    (h : ∀ name, x.asked ≠ some (.delegation name)) : x.delegation = none := by
  cases x with
  | delegate step answer => exact absurd rfl (h step.pluginName)
  | _ => rfl

/-- What does not ask for a delegation puts none on record. -/
theorem Asks.filterMap_delegation {must may : Asked → Prop} (h : Asks must may t t')
    (hmay : ∀ name, ¬may (.delegation name)) :
    t'.filterMap Reached.delegation = t.filterMap Reached.delegation := by
  obtain ⟨new, rfl, hnew, -⟩ := h
  have hnone : new.filterMap Reached.delegation = [] := by
    rw [List.filterMap_eq_nil_iff]
    exact fun x hx => delegation_eq_none_of_asked fun name hname => hmay name (hnew x hx _ hname)
  rw [List.filterMap_append, hnone, List.append_nil]

/-! ### The steps of a phase -/

section
variable [Platform] {σ : Type} (env : Env σ) (phase : DispatchPhase)

/-- A `delegate` step that is dispatched, and the state it is dispatched in. -/
structure Delegation (σ : Type) where
  step : DelegateStep
  before : EvalState σ

namespace Delegation

variable (d : Delegation σ)

/-- What the invoker answers. -/
def answer : DelegationAnswer := (env.delegate d.before.world d.step).1

/-- The state right after the step. -/
def after : EvalState σ := (dispatchDelegate env d.step d.before).2

/-- The step lets the phase continue. -/
def Continues : Prop := (dispatchDelegate env d.step d.before).1 = .continue

end Delegation

/-- A visit of a `delegate` step. -/
def Visit.delegation : Visit σ → Option (Delegation σ)
  | (.delegate step, st) => some ⟨step, st⟩
  | _ => none

/-- The `delegate` steps that the evaluation of a phase gets to. -/
def phaseDelegations (effects : List Effect) (bag : AttributeBag) (payload : RoutePayload)
    (world : σ) : List (Delegation σ) :=
  (Effect.allVisits env phase "" effects (.start bag payload world)).filterMap Visit.delegation

/-- The bag is as the answers on record left it, when it was `start` before them. -/
def EvalState.Told (start : AttributeBag) (st : EvalState σ) : Prop :=
  Stands start (delegationAnswers st.trace) st.bag

/-- Between the two states the steps were dispatched: they are what the record grew by, and each of
    them found the bag as the answers on record left it. -/
structure Tracks (start : AttributeBag) (steps : List (Delegation σ)) (st st' : EvalState σ) :
    Prop where
  recorded : st'.trace.filterMap Reached.delegation =
    st.trace.filterMap Reached.delegation ++ steps.map fun d => (d.step, d.answer env)
  told : st.Told start → st'.Told start
  found : st.Told start → ∀ d ∈ steps, d.before.Told start

namespace Tracks

variable {env} {start : AttributeBag} {steps steps' : List (Delegation σ)}
  {st st' st'' : EvalState σ}

section
omit [Platform]

theorem of_quiet
    (htrace : st'.trace.filterMap Reached.delegation = st.trace.filterMap Reached.delegation)
    (hbag : ∀ k ∉ elicitationKeys, st'.bag.get k = st.bag.get k) : Tracks env start [] st st' where
  recorded := by rw [htrace, List.map_nil, List.append_nil]
  told h := by
    -- None of the keys of a delegation is one of an elicitation.
    rw [EvalState.Told, delegationAnswers, htrace]
    refine Stands.congr h (hbag _ (by decide)) fun a => hbag _ ?_
    cases a <;> decide
  found _ d hd := absurd hd List.not_mem_nil

theorem of_asks {must may : Asked → Prop} (h : Asks must may st.trace st'.trace)
    (hmay : ∀ name, ¬may (.delegation name)) (hbag : st'.bag = st.bag) :
    Tracks env start [] st st' :=
  of_quiet (h.filterMap_delegation hmay) fun _ _ => by rw [hbag]

theorem of_reach (hx : x.delegation = none) (htrace : st'.trace = st.trace ++ [x])
    (hbag : st'.bag = st.bag) : Tracks env start [] st st' := by
  refine of_quiet ?_ fun _ _ => by rw [hbag]
  rw [htrace, List.filterMap_append, List.filterMap_cons_none hx, List.filterMap_nil,
    List.append_nil]

theorem refl (start : AttributeBag) (st : EvalState σ) : Tracks env start [] st st :=
  of_quiet rfl fun _ _ => rfl

theorem append (h : Tracks env start steps st st') (h' : Tracks env start steps' st' st'') :
    Tracks env start (steps ++ steps') st st'' where
  recorded := by rw [h'.recorded, h.recorded, List.append_assoc, List.map_append]
  told hst := h'.told (h.told hst)
  found hst d hd := (List.mem_append.mp hd).elim (h.found hst d) (h'.found (h.told hst) d)

end

end Tracks

omit [Platform] in
theorem dispatchDelegate_tracks (start : AttributeBag) (step : DelegateStep) (st : EvalState σ) :
    Tracks env start [⟨step, st⟩] st (dispatchDelegate env step st).2 := by
  have hrecorded : (dispatchDelegate env step st).2.trace.filterMap Reached.delegation =
      st.trace.filterMap Reached.delegation ++ [(step, (env.delegate st.world step).1)] := by
    rw [dispatchDelegate_snd, List.filterMap_append]
    rfl
  refine ⟨hrecorded, fun hst => ?_, fun hst d hd => ?_⟩
  · rw [EvalState.Told, delegationAnswers, hrecorded, dispatchDelegate_snd, List.map_append]
    exact Stands.record hst _
  · rw [List.mem_singleton.mp hd]
    exact hst

/-! ### The effect tree -/

/-- There is no `parallel` among the nodes. -/
def ParallelFree (nodes : List Effect) : Prop :=
  ∀ es, .parallel es ∉ nodes

theorem dispatchEffect_tracks (start : AttributeBag) {e : Effect} (hbody : e.hasBody = false)
    (source : String) (st : EvalState σ) :
    Tracks env start ([(e, st)].filterMap Visit.delegation) st
      (dispatchEffect env phase source e st).2 := by
  cases e with
  | allow => exact .refl start st
  | deny reason code => exact .of_reach rfl rfl rfl
  | plugin name =>
    rw [dispatchEffect, dispatchPlugin_snd]
    exact .of_reach rfl rfl rfl
  | delegate step => exact dispatchDelegate_tracks env start step st
  | elicit step =>
    have hasks : Asks (fun _ => False) (Eq (.elicitation step.pluginName)) st.trace
        (dispatchElicitation env step st).2.trace :=
      dispatchElicitation_asks env (fun _ h => h) rfl st
    exact .of_quiet (hasks.filterMap_delegation fun _ h => nomatch h)
      (dispatchElicitation_elicits env step st).frame.bag
  | taint label scopes => exact .of_quiet rfl fun _ _ => rfl
  | restrict spec =>
    obtain ⟨added, hst⟩ := dispatchRestrict_snd source spec st
    rw [dispatchEffect, hst]
    exact .of_reach rfl rfl rfl
  | fieldOp path stages =>
    refine .of_asks (dispatchFieldOp_asks env phase path stages source st).asks ?_
      (dispatchFieldOp_bag ..)
    rintro name ⟨_, hname, -⟩
    exact nomatch hname
  | sequential _ | parallel _ | when _ _ _ | pdp _ _ _ => exact nomatch hbody

/-- Every step outside of a `parallel` is on record, in the state it found. -/
theorem tracks_kept (start : AttributeBag) (h : ParallelFree nodes) :
    KeptBySteps env phase nodes fun vs st st' =>
      Tracks env start (vs.filterMap Visit.delegation) st st' where
  refl := .refl start
  append h h' := by
    rw [List.filterMap_append]
    exact h.append h'
  leaf _ _ hbody := dispatchEffect_tracks env phase start hbody
  call _ _ _ _ := .of_reach rfl rfl rfl
  parallel es hmem := absurd hmem (h es)

/-! ### Whole phases -/

theorem evaluateEffects_tracks (effects : List Effect)
    (hparallel : ParallelFree (Core.walkEffects effects)) (bag : AttributeBag)
    (payload : RoutePayload) (world : σ) :
    Tracks env bag (phaseDelegations env phase effects bag payload world)
      (.start bag payload world) (evaluateEffects env effects bag phase payload world).2 := by
  have h := (tracks_kept env phase bag hparallel).loop effects (List.Subset.refl _)
    (.start bag payload world)
  unfold evaluateEffects
  generalize evaluateLoop env phase effects (.start bag payload world) = r at h
  obtain ⟨outcome, st⟩ := r
  cases outcome with
  | «continue» | halt decision | pending bundle => exact h

/-- Each `delegate` step finds the bag as the answers before it left it. -/
theorem phaseDelegations_told (effects : List Effect)
    (hparallel : ParallelFree (Core.walkEffects effects)) (bag : AttributeBag)
    (payload : RoutePayload) (world : σ)
    (hd : d ∈ phaseDelegations env phase effects bag payload world) : d.before.Told bag :=
  (evaluateEffects_tracks env phase effects hparallel bag payload world).found (.refl bag) d hd

/-- Right after each `delegate` step that lets the phase continue the bag describes the step,
    exactly if at each of them the phase's bag and the earlier answers leave nothing stale. -/
theorem evaluateEffects_describes_iff (effects : List Effect)
    (hparallel : ParallelFree (Core.walkEffects effects)) (bag : AttributeBag)
    (payload : RoutePayload) (world : σ) :
    (∀ d ∈ phaseDelegations env phase effects bag payload world, d.Continues env →
        Describes (d.after env).bag (d.answer env)) ↔
      ∀ d ∈ phaseDelegations env phase effects bag payload world, d.Continues env →
        NothingStale bag (delegationAnswers d.before.trace) (d.answer env) := by
  refine forall₂_congr fun d hd => imp_congr_right fun _ => ?_
  have htold := phaseDelegations_told env phase effects hparallel bag payload world hd
  rw [Delegation.after, dispatchDelegate_snd]
  exact Stands.describes_iff htold (d.answer env)

end

/-! ### Closed runs -/

section
attribute [local instance] Platform.bare

/-- A broker that grants what the plugin `vault` asks for, and denies the others. -/
def brokered : Invokers Unit :=
  { permissive with
    delegate := fun _ step =>
      if step.pluginName = "vault" then (.ok ⟨.allow, ["read"], some "hr", some "noon"⟩, ())
      else (.ok ⟨.deny none "broker", [], none, none⟩, ()) }

/-- A step whose refusal may be continued. -/
def lenientStep (pluginName : String) : DelegateStep :=
  { pluginName, onError := some "continue", source := "route" }

/-- A denied step and a granted one: nothing was granted before the first, and the second writes
    all the attributes. -/
theorem evaluateEffects_describes_denied_granted :
    let steps := phaseDelegations ⟨brokered, .orderly⟩ .pre
      [.delegate (lenientStep "mint"), .delegate (lenientStep "vault")] .new ⟨.null, none⟩ ()
    steps.length = 2 ∧ ∀ d ∈ steps, d.Continues ⟨brokered, .orderly⟩ →
      Describes (d.after ⟨brokered, .orderly⟩).bag (d.answer ⟨brokered, .orderly⟩) := by
  refine ⟨rfl, ?_⟩
  refine (evaluateEffects_describes_iff ⟨brokered, .orderly⟩ .pre _ ?_ .new ⟨.null, none⟩ ()).mpr ?_
  · intro es hmem
    simp [Core.walkEffects, Core.effectNodes] at hmem
  · intro d hd _
    rcases List.mem_cons.mp hd with rfl | hd
    · exact ⟨fun _ => ⟨by decide, fun _ h => absurd h List.not_mem_nil⟩, fun a _ => by
        cases a <;> rfl⟩
    · rw [List.mem_singleton.mp hd]
      exact ⟨fun h => absurd rfl h, fun a h => by cases a <;> exact nomatch h⟩

/-- After a granted step and a denied one that may be continued, the bag still says that a
    delegation was granted. -/
theorem evaluateEffects_granted_stale :
    ∃ d ∈ phaseDelegations ⟨brokered, .orderly⟩ .pre
        [.delegate (lenientStep "vault"), .delegate (lenientStep "mint")] .new ⟨.null, none⟩ (),
      d.Continues ⟨brokered, .orderly⟩ ∧ ¬(d.answer ⟨brokered, .orderly⟩).Granted ∧
        (d.after ⟨brokered, .orderly⟩).bag.get DelegationBagKeys.granted = some (.bool true) ∧
        (d.after ⟨brokered, .orderly⟩).bag.get DelegationBagKeys.grantedAudience =
          some (.string "hr") :=
  ⟨_, List.mem_cons_of_mem _ List.mem_cons_self, rfl, nofun, by decide, by decide⟩

end

end Cpex
