import Cpex.ForStd.AList
import Cpex.ForStd.Schedule
import Cpex.Native.RouteHandler

/-! # What the order of a map decides

Headers are looked up by walking a hash map whose order means nothing.
-/

namespace Cpex

section Headers

variable [Platform]

/-- Do two names differ in case only? -/
def SameName (n n' : String) : Prop := Platform.toLowercase n = Platform.toLowercase n'

variable {headers : HashMap String String} {name value : String}

theorem getHeaderCi_congr (h : SameName n name) :
    getHeaderCi headers n = getHeaderCi headers name := by
  rw [getHeaderCi, h]
  rfl

theorem getHeaderCi_insert (headers : HashMap String String) :
    getHeaderCi (headers.insert name value) name = some value := by
  simp [getHeaderCi, AList.entries_insert]

theorem find?_header_eq_none_iff :
    (headers.entries.find? fun e =>
      Platform.toLowercase e.1 == Platform.toLowercase name) = none ↔
      ∀ k ∈ headers, ¬SameName k name := by
  rw [List.find?_eq_none]
  constructor
  · intro h k hk hname
    obtain ⟨e, he, rfl⟩ := List.mem_map.mp hk
    exact h e he (beq_iff_eq.mpr hname)
  · intro h e he hname
    exact h e.1 (List.mem_map_of_mem he) (beq_iff_eq.mp hname)

/-- Every order of a map with the entry finds it if and only if no other spelling has another
    value. -/
theorem forall_getHeaderCi_insert_iff :
    (∀ order : HashMap String String, order.entries.Perm (headers.insert name value).entries →
        getHeaderCi order name = some value) ↔
      ∀ k v, headers.lookup k = some v → SameName k name → k ≠ name → v = value := by
  rw [← getHeaderCi_insert headers]
  refine AList.forall_perm_find?_iff.trans ⟨?_, ?_⟩
  · intro h k v hv hname hne
    have hk : ⟨k, v⟩ ∈ (headers.insert name value).entries :=
      AList.mem_lookup_iff.mp (by rw [AList.lookup_insert_ne hne]; exact hv)
    have hset : ⟨name, value⟩ ∈ (headers.insert name value).entries :=
      AList.mem_lookup_iff.mp (AList.lookup_insert headers)
    exact h _ hk _ hset (beq_iff_eq.mpr hname) (beq_self_eq_true _)
  · intro h
    have hvalue : ∀ e ∈ (headers.insert name value).entries, SameName e.1 name → e.2 = value := by
      intro e he hname
      have hlookup := AList.mem_lookup_iff.mpr he
      by_cases heq : e.1 = name
      · rw [heq, AList.lookup_insert] at hlookup
        exact (Option.some.inj hlookup).symm
      · rw [AList.lookup_insert_ne heq] at hlookup
        exact h e.1 e.2 hlookup hname heq
    intro a ha b hb hpa hpb
    exact (hvalue a ha (beq_iff_eq.mp hpa)).trans (hvalue b hb (beq_iff_eq.mp hpb)).symm

/-! ### Sequences of operations -/

/-- An operation on the request headers. -/
inductive HeaderOp where
  | set (name value : String)
  | add (name value : String)
  | remove (name : String)

/-- The name under which an operation may make an entry. -/
def HeaderOp.written : HeaderOp → Option String
  | .set name _ | .add name _ => some name
  | .remove _ => none

def HttpExtension.apply (http : HttpExtension) : HeaderOp → HttpExtension
  | .set name value => http.setRequestHeader name value
  | .add name value => (http.addRequestHeader name value).2
  | .remove name => (http.removeRequestHeader name).2

theorem written_of_mem_apply {http : HttpExtension} (op : HeaderOp)
    (h : k ∈ (http.apply op).requestHeaders) : k ∈ http.requestHeaders ∨ op.written = some k := by
  have hset {name value} (h : k ∈ (http.setRequestHeader name value).requestHeaders) :
      k ∈ http.requestHeaders ∨ some name = some k := by
    rcases (AList.mem_insert _).mp h with rfl | h
    · exact .inr rfl
    · exact .inl h
  cases op with
  | set name value => exact hset h
  | add name value =>
    simp only [HttpExtension.apply, HttpExtension.addRequestHeader] at h
    split at h
    · exact .inl h
    · exact hset h
  | remove name =>
    simp only [HttpExtension.apply, HttpExtension.removeRequestHeader, removeHeaderCi] at h
    split at h
    · exact .inl (AList.mem_erase.mp h).2
    · exact .inl h

/-- What a run leaves was there, or one of its operations made it. -/
theorem written_of_mem_run {http : HttpExtension} (ops : List HeaderOp)
    (h : k ∈ (Schedule.run HttpExtension.apply ops http).requestHeaders) :
    k ∈ http.requestHeaders ∨ ∃ op ∈ ops, op.written = some k := by
  induction ops generalizing http with
  | nil => exact .inl h
  | cons op ops ih =>
    rcases ih h with hmem | ⟨op', hop', hwritten⟩
    · exact (written_of_mem_apply op hmem).imp_right fun h => ⟨op, List.mem_cons_self, h⟩
    · exact .inr ⟨op', List.mem_cons_of_mem _ hop', hwritten⟩

/-- After a `set`, every order of the map finds the value under every spelling exactly if no other
    spelling has another value; after a `remove` no spelling is left exactly if there was one at
    most; and an `add` makes no second spelling. A sequence of operations on an empty map leaves one
    spelling of each name, if it spells each name that it sets or adds in one way. -/
theorem header_spellings (http : HttpExtension) (name value : String) :
    ((∀ order : HashMap String String,
        order.entries.Perm (http.setRequestHeader name value).requestHeaders.entries →
        ∀ n, SameName n name → getHeaderCi order n = some value) ↔
      ∀ k v, http.requestHeaders.lookup k = some v → SameName k name → k ≠ name → v = value) ∧
    ((∀ k ∈ (http.removeRequestHeader name).2.requestHeaders, ¬SameName k name) ↔
      ∀ k ∈ http.requestHeaders, ∀ k' ∈ http.requestHeaders,
        SameName k name → SameName k' name → k = k') ∧
    (∀ k ∈ (http.addRequestHeader name value).2.requestHeaders,
      ∀ k' ∈ (http.addRequestHeader name value).2.requestHeaders, SameName k k' → k ≠ k' →
        k ∈ http.requestHeaders ∧ k' ∈ http.requestHeaders) ∧
    ∀ ops : List HeaderOp,
      (∀ n ∈ ops.filterMap HeaderOp.written, ∀ n' ∈ ops.filterMap HeaderOp.written,
        SameName n n' → n = n') →
      ∀ k ∈ (Schedule.run HttpExtension.apply ops {}).requestHeaders,
        ∀ k' ∈ (Schedule.run HttpExtension.apply ops {}).requestHeaders,
          SameName k k' → k = k' := by
  refine ⟨?_, ?_, ?_, fun ops hspelt k hk k' hk' hsame => ?_⟩
  · rw [← forall_getHeaderCi_insert_iff]
    constructor
    · intro h order hperm
      exact h order hperm name rfl
    · intro h order hperm n hn
      rw [getHeaderCi_congr hn]
      exact h order hperm
  · unfold HttpExtension.removeRequestHeader removeHeaderCi
    cases hfind : http.requestHeaders.entries.find? fun e =>
        Platform.toLowercase e.1 == Platform.toLowercase name with
    | none =>
      have hnone := find?_header_eq_none_iff.mp hfind
      exact ⟨fun _ k hk _ _ hname => absurd hname (hnone k hk), fun _ => hnone⟩
    | some e =>
      have hname : SameName e.1 name := by simpa [SameName] using List.find?_some hfind
      have hmem : e.1 ∈ http.requestHeaders :=
        List.mem_map_of_mem (List.mem_of_find?_eq_some hfind)
      simp only [AList.mem_erase]
      constructor
      · intro h k hk k' hk' hkname hkname'
        -- The entry that was removed is the only one.
        have hone : ∀ k ∈ http.requestHeaders, SameName k name → k = e.1 := fun k hk hkname =>
          by_contra fun hne => h k ⟨hne, hk⟩ hkname
        rw [hone k hk hkname, hone k' hk' hkname']
      · intro h k hk hkname
        exact hk.1 (h k hk.2 e.1 hmem hkname hname)
  · unfold HttpExtension.addRequestHeader
    split
    · exact fun k hk k' hk' _ _ => ⟨hk, hk'⟩
    · next hnone =>
      rw [Bool.not_eq_true, Option.isSome_eq_false_iff, Option.isNone_iff_eq_none] at hnone
      have hnone := find?_header_eq_none_iff.mp (Option.map_eq_none_iff.mp hnone)
      simp only [HttpExtension.setRequestHeader, AList.mem_insert]
      rintro k (rfl | hk) k' (rfl | hk') hsame hne
      · exact absurd rfl hne
      · exact absurd hsame.symm (hnone k' hk')
      · exact absurd hsame (hnone k hk)
      · exact ⟨hk, hk'⟩
  · have hwritten {k} (hk : k ∈ (Schedule.run HttpExtension.apply ops {}).requestHeaders) :=
      List.mem_filterMap.mpr ((written_of_mem_run ops hk).resolve_left (AList.notMem_empty k))
    exact hspelt k (hwritten hk) k' (hwritten hk') hsame

end Headers

section

/-- Names are ASCII. -/
abbrev Platform.ascii : Platform := { Platform.bare with toLowercase := Text.toAsciiLowercase }

attribute [local instance] Platform.ascii

/-- Set again after other operations, a header has its new value under either spelling. -/
theorem header_spellings_again :
    let http := Schedule.run HttpExtension.apply
      [.set "Accept" "1", .add "Via" "2", .add "Accept" "3", .remove "via"] {}
    ∀ order : HashMap String String,
      order.entries.Perm (http.setRequestHeader "Accept" "4").requestHeaders.entries →
        getHeaderCi order "accept" = some "4" := by
  intro http order hperm
  obtain ⟨hset, -, -, hruns⟩ := header_spellings http "Accept" "4"
  refine hset.mpr (fun k v hv hsame hne => absurd ?_ hne) order hperm "accept" rfl
  exact hruns _ (by unfold SameName; decide) k
    (AList.lookup_isSome.mp (Option.isSome_of_eq_some hv)) "Accept"
    (by decide) hsame

/-- A header set under two spellings is found, and left, under either. -/
theorem setRequestHeader_two_spellings :
    let http := (({} : HttpExtension).setRequestHeader "A" "1").setRequestHeader "a" "2"
    (∃ order : HashMap String String, order.entries.Perm http.requestHeaders.entries ∧
      getHeaderCi order "a" = some "1") ∧
    "A" ∈ (http.removeRequestHeader "a").2.requestHeaders :=
  ⟨⟨((({} : HttpExtension).setRequestHeader "a" "2").setRequestHeader "A" "1").requestHeaders,
    .swap _ _ _, rfl⟩, by decide⟩

end

end Cpex
