import Cpex.Native.Slice

/-! # Slices that do not panic

A byte offset is a character boundary of a text if some part of the text from its start has that
many bytes. A slice whose ends are boundaries, in order, is taken; the offsets that the scans of
`apl-core/src/parser.rs` find are boundaries, since each belongs to an ASCII character.
-/

namespace Cpex

open Text

/-! ### Offsets -/

@[simp] theorem byteLenChars_nil : byteLenChars [] = 0 := rfl

@[simp] theorem byteLenChars_cons :
    byteLenChars (c :: cs) = c.utf8Size + byteLenChars cs := rfl

@[simp] theorem byteLenChars_append : byteLenChars (a ++ b) = byteLenChars a + byteLenChars b := by
  simp [byteLenChars]

theorem splitAtByte_append : splitAtByte (byteLenChars a) (a ++ b) = some (a, b) := by
  induction a with
  | nil => cases b <;> rfl
  | cons c a ih =>
    have hpos := c.utf8Size_pos
    obtain ⟨n, hn⟩ : ∃ n, byteLenChars (c :: a) = n + 1 :=
      ⟨c.utf8Size + byteLenChars a - 1, by rw [byteLenChars_cons]; omega⟩
    have hrest : n + 1 - c.utf8Size = byteLenChars a := by
      rw [← hn, byteLenChars_cons]
      omega
    rw [hn, List.cons_append, splitAtByte, if_pos, hrest, ih]
    · rfl
    · rw [← hn, byteLenChars_cons]
      omega

/-- The offset lies between two characters of the text, or at one of its ends. -/
def IsBoundary (s : String) (n : Nat) : Prop :=
  ∃ before after, s.toList = before ++ after ∧ byteLenChars before = n

/-- Two starts of one text: the one with fewer bytes is a start of the other. -/
theorem exists_append_of_byteLenChars_le (h : a ++ b = c ++ d)
    (hle : byteLenChars a ≤ byteLenChars c) : ∃ mid, c = a ++ mid := by
  rcases List.append_eq_append_iff.mp h with ⟨mid, rfl, -⟩ | ⟨mid, rfl, -⟩
  · exact ⟨mid, rfl⟩
  · -- The first start has no fewer bytes either, so nothing lies between them.
    cases mid with
    | nil => exact ⟨[], by simp⟩
    | cons x mid =>
      have hpos := x.utf8Size_pos
      simp only [byteLenChars_append, byteLenChars_cons] at hle
      omega

variable {s : String} {i : Nat}

/-- The slice between two boundaries. -/
theorem slice_eq_ok (hi : IsBoundary s i) (hj : IsBoundary s j) (hle : i ≤ j) :
    ∃ before mid after, s.toList = before ++ mid ++ after ∧ byteLenChars before = i ∧
      byteLenChars (before ++ mid) = j ∧ slice s i j = .ok (String.ofList mid) := by
  obtain ⟨before, rest, hs, rfl⟩ := hi
  obtain ⟨upto, after, hs', rfl⟩ := hj
  obtain ⟨mid, rfl⟩ := exists_append_of_byteLenChars_le (hs.symm.trans hs') hle
  refine ⟨before, mid, after, hs', rfl, rfl, ?_⟩
  rw [slice, hs', splitAtByte_append, Option.bind_some, splitAtByte_append]

theorem isBoundary_zero (s : String) : IsBoundary s 0 := ⟨[], s.toList, rfl, rfl⟩

theorem isBoundary_byteLen (s : String) : IsBoundary s (byteLen s) :=
  ⟨s.toList, [], (List.append_nil _).symm, rfl⟩

theorem IsBoundary.le (h : IsBoundary s n) : n ≤ byteLen s := by
  obtain ⟨before, after, hs, rfl⟩ := h
  rw [byteLen, hs, byteLenChars_append]
  exact Nat.le_add_right _ _

/-! ### The offsets of characters -/

theorem mem_charIndicesFrom (h : (i, c) ∈ charIndicesFrom n cs) :
    ∃ before after, cs = before ++ c :: after ∧ i = n + byteLenChars before := by
  induction cs generalizing n with
  | nil => cases h
  | cons x cs ih =>
    rw [charIndicesFrom, List.mem_cons] at h
    rcases h with h | h
    · cases h
      exact ⟨[], cs, rfl, rfl⟩
    · obtain ⟨before, after, rfl, rfl⟩ := ih h
      exact ⟨x :: before, after, rfl, by rw [byteLenChars_cons]; omega⟩

/-- Where a character stands in a text. -/
def StandsAt (s : String) (i : Nat) (c : Char) : Prop :=
  ∃ before after, s.toList = before ++ c :: after ∧ byteLenChars before = i

theorem standsAt_of_mem (h : (i, c) ∈ charIndices s) : StandsAt s i c := by
  obtain ⟨before, after, hs, rfl⟩ := mem_charIndicesFrom h
  exact ⟨before, after, hs, (Nat.zero_add _).symm⟩

namespace StandsAt

variable {s : String} {i : Nat} {c : Char}

theorem isBoundary (h : StandsAt s i c) : IsBoundary s i := by
  obtain ⟨before, after, hs, hi⟩ := h
  exact ⟨before, c :: after, hs, hi⟩

/-- Behind a character of one byte. -/
theorem isBoundary_succ (h : StandsAt s i c) (hc : c.utf8Size = 1) : IsBoundary s (i + 1) := by
  obtain ⟨before, after, hs, rfl⟩ := h
  refine ⟨before ++ [c], after, by rw [hs]; simp, ?_⟩
  rw [byteLenChars_append, byteLenChars_cons, hc, byteLenChars_nil]

end StandsAt

/-- One character stands at an offset. -/
theorem StandsAt.unique (hc : StandsAt s i c) (hd : StandsAt s i d) : c = d := by
  obtain ⟨before, after, hs, hi⟩ := hc
  obtain ⟨before', after', hs', hi'⟩ := hd
  have hsplit := hs.symm.trans hs'
  obtain ⟨mid, rfl⟩ := exists_append_of_byteLenChars_le hsplit (Nat.le_of_eq (hi.trans hi'.symm))
  cases mid with
  | nil => simpa using (by simpa using hsplit : c = d ∧ after = after').1
  | cons x mid =>
    have hpos := x.utf8Size_pos
    simp only [byteLenChars_append, byteLenChars_cons] at hi'
    omega

/-! ### The scans -/

/-- A delimiter that a scan finds stands where the scan says. -/
theorem mem_of_topLevel (h : i ∈ topLevel opening closing delim n l) :
    (i, delim) ∈ l := by
  induction l generalizing n with
  | nil => cases h
  | cons p l ih =>
    obtain ⟨j, c⟩ := p
    rw [topLevel] at h
    split at h
    · next htop =>
      have hc : c = delim := by simpa using (Bool.and_eq_true_iff.mp htop).2
      rcases List.mem_cons.mp h with rfl | h
      · exact hc ▸ List.mem_cons_self
      · exact List.mem_cons_of_mem _ (ih h)
    · exact List.mem_cons_of_mem _ (ih h)

theorem mem_of_closingParen (h : closingParen depth l = some i) : (i, ')') ∈ l := by
  induction l generalizing depth with
  | nil => cases h
  | cons p l ih =>
    rw [closingParen] at h
    split at h
    · exact List.mem_cons_of_mem _ (ih h)
    · split at h
      · next hc =>
        split at h
        · cases h
          exact hc ▸ List.mem_cons_self
        · exact List.mem_cons_of_mem _ (ih h)
      · exact List.mem_cons_of_mem _ (ih h)

end Cpex
