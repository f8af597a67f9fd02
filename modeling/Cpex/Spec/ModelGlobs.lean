import Cpex.Native.Routing

/-! # What a model glob matches

`glob_match` walks the text once and goes back to the last `*` it has met on a mismatch. `Glob` says
what a pattern stands for, without a walk. The walk accepts only texts of the pattern, and it accepts
all of them if no `*` of the pattern meets one of the text on the way: a byte of the pattern is
compared with the text before it is recognised as a `*`, so the `*` of the text uses up that of the
pattern, and there is nothing to go back to.
-/

namespace Cpex

/-- The text comes from the pattern by putting some bytes in the place of each `*`. -/
inductive Glob : List UInt8 → List UInt8 → Prop where
  | nil : Glob [] []
  | byte {b : UInt8} {p t : List UInt8} (hb : b ≠ globStar) (h : Glob p t) : Glob (b :: p) (b :: t)
  | star (run : List UInt8) {p t : List UInt8} (h : Glob p t) : Glob (globStar :: p) (run ++ t)

namespace Glob

variable {b : UInt8} {p t : List UInt8}

theorem nil_left (h : Glob [] t) : t = [] := by
  cases h with
  | nil => rfl

theorem byte_iff (hb : b ≠ globStar) : Glob (b :: p) t ↔ ∃ t', t = b :: t' ∧ Glob p t' := by
  constructor
  · intro h
    cases h with
    | byte _ h => exact ⟨_, rfl, h⟩
    | star => exact absurd rfl hb
  · rintro ⟨t', rfl, h⟩
    exact .byte hb h

theorem star_iff : Glob (globStar :: p) t ↔ ∃ k ≤ t.length, Glob p (t.drop k) := by
  constructor
  · intro h
    cases h with
    | byte hb => exact absurd rfl hb
    | star run h => exact ⟨run.length, by simp, by simpa using h⟩
  · rintro ⟨k, -, h⟩
    simpa using h.star (t.take k)

/-- A `*` may swallow more. -/
theorem drop_le (h : Glob (globStar :: p) (t.drop j)) (hij : i ≤ j) :
    Glob (globStar :: p) (t.drop i) := by
  obtain ⟨k, -, h⟩ := star_iff.mp h
  rw [List.drop_drop, show j + k = i + (j - i + k) by omega, ← List.drop_drop] at h
  simpa using h.star ((t.drop i).take (j - i + k))

/-- Bytes other than `*` stand for themselves. -/
theorem append_iff (hbytes : globStar ∉ bytes) :
    Glob (bytes ++ p) t ↔ ∃ t', t = bytes ++ t' ∧ Glob p t' := by
  induction bytes generalizing t with
  | nil => simp
  | cons b bytes ih =>
    simp only [List.mem_cons, not_or] at hbytes
    simp only [List.cons_append, byte_iff (Ne.symm hbytes.1), ih hbytes.2]
    constructor
    · rintro ⟨_, rfl, t', rfl, h⟩
      exact ⟨t', rfl, h⟩
    · rintro ⟨t', rfl, h⟩
      exact ⟨_, rfl, t', rfl, h⟩

/-- A pattern stands for itself, and so does what it begins with. -/
theorem append_left (bytes : List UInt8) (h : Glob p t) : Glob (bytes ++ p) (bytes ++ t) := by
  induction bytes with
  | nil => exact h
  | cons b bytes ih =>
    by_cases hb : b = globStar
    · exact hb ▸ ih.star [b]
    · exact ih.byte hb

theorem nil_right_iff : Glob p [] ↔ p.all (· == globStar) = true := by
  induction p with
  | nil => simp [Glob.nil]
  | cons b p ih =>
    by_cases hb : b = globStar
    · subst hb
      simp [star_iff, ih]
    · simp [byte_iff hb, hb]

end Glob

namespace GlobCursor

variable {p t : List UInt8} {c : GlobCursor}

/-- What the loop still has to find: the rest of the text as it stands, or, after going back, a rest
    that begins further on. -/
def Matches (p t : List UInt8) (c : GlobCursor) : Prop :=
  Glob (p.drop c.pi) (t.drop c.ti) ∨
    ∃ s, c.star = some s ∧ ∃ k, c.resume < k ∧ k ≤ t.length ∧ Glob (p.drop (s + 1)) (t.drop k)

/-- From here on, a `*` of the pattern meets a `*` of the text. -/
inductive Meets (p t : List UInt8) : GlobCursor → Prop where
  | here {c : GlobCursor} (hp : p[c.pi]? = some globStar) (ht : t[c.ti]? = some globStar) :
      Meets p t c
  | advance {c : GlobCursor} (hlt : c.ti < t.length) (heq : p[c.pi]? = t[c.ti]?)
      (h : Meets p t c.advance) : Meets p t c
  | meetStar {c : GlobCursor} (hlt : c.ti < t.length) (hne : p[c.pi]? ≠ t[c.ti]?)
      (hstar : p[c.pi]? = some globStar) (h : Meets p t c.meetStar) : Meets p t c
  | backtrack {c : GlobCursor} {s} (hlt : c.ti < t.length) (hne : p[c.pi]? ≠ t[c.ti]?)
      (hstar : p[c.pi]? ≠ some globStar) (hs : c.star = some s) (h : Meets p t (c.backtrack s)) :
      Meets p t c

/-- Where one side has no `*`, none are met. -/
theorem Meets.mem (h : Meets p t c) : globStar ∈ p ∧ globStar ∈ t := by
  induction h with
  | here hp ht => exact ⟨List.mem_of_getElem? hp, List.mem_of_getElem? ht⟩
  | advance _ _ _ ih | meetStar _ _ _ _ ih | backtrack _ _ _ _ _ ih => exact ih

/-- Since the `*` to go back to, pattern and text have agreed byte by byte, and in no `*`. -/
structure Agrees (p t : List UInt8) (c : GlobCursor) : Prop where
  ti_le : c.ti ≤ t.length
  since : ∀ s, c.star = some s → ∃ bytes, globStar ∉ bytes ∧
    p.drop (s + 1) = bytes ++ p.drop c.pi ∧ t.drop c.resume = bytes ++ t.drop c.ti

theorem matches_backtrack_iff {s : Nat} (hlt : c.ti < t.length) :
    (c.backtrack s).Matches p t ↔ ∃ k, c.resume < k ∧ k ≤ t.length ∧
      Glob (p.drop (s + 1)) (t.drop k) := by
  have hle := c.resume_le
  simp only [Matches, backtrack, Option.some.injEq, exists_eq_left']
  constructor
  · rintro (h | ⟨k, hk, hkt, h⟩)
    · exact ⟨c.resume + 1, by omega, by omega, h⟩
    · exact ⟨k, by omega, hkt, h⟩
  · rintro ⟨k, hk, hkt, h⟩
    rcases Nat.eq_or_lt_of_le hk with rfl | hk
    · exact .inl h
    · exact .inr ⟨k, hk, hkt, h⟩

theorem matches_meetStar_iff (hstar : p[c.pi]? = some globStar) (hti : c.ti ≤ t.length) :
    c.meetStar.Matches p t ↔ Glob (p.drop c.pi) (t.drop c.ti) := by
  obtain ⟨hpi, hget⟩ := List.getElem?_eq_some_iff.mp hstar
  rw [List.drop_eq_getElem_cons hpi, hget, Glob.star_iff]
  simp only [Matches, meetStar, Option.some.injEq, exists_eq_left', List.drop_drop,
    List.length_drop]
  constructor
  · rintro (h | ⟨k, hk, hkt, h⟩)
    · exact ⟨0, by omega, by simpa using h⟩
    · exact ⟨k - c.ti, by omega, by rwa [Nat.add_sub_cancel' (by omega)]⟩
  · rintro ⟨k, hk, h⟩
    rcases Nat.eq_zero_or_pos k with rfl | hpos
    · exact .inl (by simpa using h)
    · exact .inr ⟨c.ti + k, by omega, by omega, h⟩

/-- A byte in which pattern and text agree. -/
theorem exists_drop_eq_cons (hlt : c.ti < t.length) (heq : p[c.pi]? = t[c.ti]?) :
    ∃ b, p.drop c.pi = b :: p.drop (c.pi + 1) ∧ t.drop c.ti = b :: t.drop (c.ti + 1) := by
  rw [List.getElem?_eq_getElem hlt] at heq
  obtain ⟨hpi, hget⟩ := List.getElem?_eq_some_iff.mp heq
  exact ⟨t[c.ti], by rw [List.drop_eq_getElem_cons hpi, hget], List.drop_eq_getElem_cons hlt⟩

theorem not_glob_of_mismatch (hlt : c.ti < t.length) (hne : p[c.pi]? ≠ t[c.ti]?)
    (hstar : p[c.pi]? ≠ some globStar) : ¬ Glob (p.drop c.pi) (t.drop c.ti) := by
  intro h
  rw [List.drop_eq_getElem_cons hlt] at h
  rcases Nat.lt_or_ge c.pi p.length with hpi | hpi
  · rw [List.getElem?_eq_getElem hpi] at hne hstar
    rw [List.drop_eq_getElem_cons hpi, Glob.byte_iff (fun hb => hstar (congrArg some hb))] at h
    obtain ⟨_, heq, -⟩ := h
    rw [List.getElem?_eq_getElem hlt] at hne
    exact hne (congrArg some (List.cons.inj heq).1.symm)
  · rw [List.drop_eq_nil_of_le hpi] at h
    cases h.nil_left

/-- A text that the loop accepts matches. -/
theorem matches_of_globLoop (h : globLoop p t c = true) : c.Matches p t := by
  fun_induction globLoop p t c with
  | case1 c hlt heq ih =>
    obtain ⟨b, hp, ht⟩ := exists_drop_eq_cons hlt heq
    rcases ih h with h | h
    · left
      rw [hp, ht]
      by_cases hb : b = globStar
      · exact hb ▸ h.star [b]
      · exact h.byte hb
    · exact .inr h
  | case2 c hlt hne hstar ih => exact .inl ((matches_meetStar_iff hstar hlt.le).mp (ih h))
  | case3 c hlt hne hstar s hs ih => exact .inr ⟨s, hs, (matches_backtrack_iff hlt).mp (ih h)⟩
  | case4 => cases h
  | case5 c hle =>
    left
    rw [List.drop_eq_nil_of_le (by omega : t.length ≤ c.ti), Glob.nil_right_iff]
    exact h

/-- Going back to an earlier `*` finds nothing that the rest of the pattern, taken from where the
    walk is, would miss. -/
theorem Agrees.exists_glob (h : Agrees p t c) (hs : c.star = some s) (hk : c.resume < k)
    (hkt : k ≤ t.length) (hglob : Glob (p.drop (s + 1)) (t.drop k)) :
    ∃ j, c.ti < j ∧ j ≤ t.length ∧ Glob (p.drop c.pi) (t.drop j) := by
  obtain ⟨bytes, hbytes, hp, hresume⟩ := h.since s hs
  rw [hp, Glob.append_iff hbytes] at hglob
  obtain ⟨rest, hrest, hglob⟩ := hglob
  have hlen := congrArg List.length hresume
  have hlen' := congrArg List.length hrest
  simp only [List.length_drop, List.length_append] at hlen hlen'
  refine ⟨k + bytes.length, by omega, by omega, ?_⟩
  rwa [← List.drop_drop, hrest, List.drop_left]

/-- A text that matches is accepted, unless a `*` meets a `*` on the way. -/
theorem globLoop_of_matches (hmeets : ¬ Meets p t c) (hc : Agrees p t c) (h : c.Matches p t) :
    globLoop p t c = true := by
  fun_induction globLoop p t c with
  | case1 c hlt heq ih =>
    obtain ⟨b, hp, htext⟩ := exists_drop_eq_cons hlt heq
    have hb : b ≠ globStar := by
      rintro rfl
      have hhead := congrArg List.head? htext
      rw [List.head?_drop] at hhead
      exact hmeets (.here (heq.trans hhead) hhead)
    refine ih (fun h => hmeets (.advance hlt heq h)) ⟨hlt, fun s hs => ?_⟩ ?_
    · obtain ⟨bytes, hbytes, hp', ht'⟩ := hc.since s hs
      rw [hp] at hp'
      rw [htext] at ht'
      exact ⟨bytes ++ [b], by simp [hbytes, Ne.symm hb], hp'.trans (List.append_cons ..),
        ht'.trans (List.append_cons ..)⟩
    · rcases h with h | h
      · rw [hp, htext, Glob.byte_iff hb] at h
        obtain ⟨_, heq, h⟩ := h
        exact .inl ((List.cons.inj heq).2 ▸ h)
      · exact .inr h
  | case2 c hlt hne hstar ih =>
    refine ih (fun h => hmeets (.meetStar hlt hne hstar h)) ⟨hlt.le, fun s hs => ?_⟩
      ((matches_meetStar_iff hstar hlt.le).mpr ?_)
    · cases hs
      exact ⟨[], List.not_mem_nil, rfl, rfl⟩
    · rcases h with h | ⟨s, hs, k, hk, hkt, h⟩
      · exact h
      · -- The new `*` takes over what the old one would have swallowed.
        obtain ⟨j, hj, -, h⟩ := hc.exists_glob hs hk hkt h
        obtain ⟨hpi, hget⟩ := List.getElem?_eq_some_iff.mp hstar
        rw [List.drop_eq_getElem_cons hpi, hget] at h ⊢
        exact h.drop_le hj.le
  | case3 c hlt hne hstar s hs ih =>
    have hle := c.resume_le
    refine ih (fun h => hmeets (.backtrack hlt hne hstar hs h))
      ⟨show c.resume + 1 ≤ t.length by omega, fun s' hs' => ?_⟩
      ((matches_backtrack_iff hlt).mpr ?_)
    · cases hs'
      exact ⟨[], List.not_mem_nil, rfl, rfl⟩
    · rcases h with h | ⟨_, hs', h⟩
      · exact absurd h (not_glob_of_mismatch hlt hne hstar)
      · cases hs.symm.trans hs'
        exact h
  | case4 c hlt hne hstar hnone =>
    rcases h with h | ⟨_, hs, -⟩
    · exact absurd h (not_glob_of_mismatch hlt hne hstar)
    · cases hnone.symm.trans hs
  | case5 c hle =>
    rcases h with h | ⟨s, hs, k, hk, hkt, h⟩
    · rwa [List.drop_eq_nil_of_le (by omega : t.length ≤ c.ti), Glob.nil_right_iff] at h
    · obtain ⟨j, hj, hjt, -⟩ := hc.exists_glob hs hk hkt h
      omega

/-- A text that goes on behind the bytes of the pattern is refused, whatever they are: each is taken
    for itself, so there is no `*` to go back to. -/
theorem globLoop_of_longer (hstart : p <+: t) (hlt : p.length < t.length) (hpi : c.pi ≤ p.length)
    (hti : c.ti = c.pi) (hnone : c.star = none) : globLoop p t c = false := by
  have hsame {i : Nat} (hi : i < p.length) : p[i]? = t[i]? := by
    obtain ⟨rest, rfl⟩ := hstart
    exact (List.getElem?_append_left hi).symm
  fun_induction globLoop p t c with
  | case1 c hlt heq ih =>
    rw [List.getElem?_eq_getElem hlt] at heq
    exact ih (List.getElem?_eq_some_iff.mp heq).1 (congrArg (· + 1) hti) hnone
  | case2 c _ hne hstar =>
    rw [hti] at hne
    exact absurd (hsame (List.getElem?_eq_some_iff.mp hstar).1) hne
  | case3 c _ _ _ s hs => cases hnone.symm.trans hs
  | case4 => rfl
  | case5 c hle => omega

end GlobCursor

/-- `glob_match` accepts nothing that the pattern does not stand for, and every text of the pattern
    unless a `*` of the pattern meets a `*` of the text. Each text that goes on behind a `*` is one
    that some pattern stands for and that it refuses. -/
theorem globMatch_glob (pattern text : String) :
    (globMatch pattern text = true →
      Glob pattern.toUTF8.data.toList text.toUTF8.data.toList) ∧
    (¬ GlobCursor.Meets pattern.toUTF8.data.toList text.toUTF8.data.toList .start →
      (globMatch pattern text = true ↔
        Glob pattern.toUTF8.data.toList text.toUTF8.data.toList)) ∧
    ∀ before rest : String, rest ≠ "" → text = before ++ "*" ++ rest →
      globMatch (before ++ "*") text = false ∧
        Glob (before ++ "*").toUTF8.data.toList text.toUTF8.data.toList := by
  have hsound : globMatch pattern text = true →
      Glob pattern.toUTF8.data.toList text.toUTF8.data.toList := by
    intro h
    rcases GlobCursor.matches_of_globLoop h with h | ⟨_, hs, -⟩
    · exact h
    · cases hs
  refine ⟨hsound, fun hmeets => ⟨hsound, fun h => ?_⟩, ?_⟩
  · exact GlobCursor.globLoop_of_matches hmeets ⟨Nat.zero_le _, fun s hs => by cases hs⟩ (.inl h)
  · rintro before rest hne rfl
    have hbytes : (before ++ "*" ++ rest).toUTF8.data.toList =
        (before ++ "*").toUTF8.data.toList ++ rest.toUTF8.data.toList := by simp
    have hsize : rest.toUTF8.data.toList.length ≠ 0 := by simpa using hne
    constructor
    · refine GlobCursor.globLoop_of_longer ⟨_, hbytes.symm⟩ ?_ (Nat.zero_le _) rfl rfl
      rw [hbytes, List.length_append]
      omega
    · have hstar : (before ++ "*").toUTF8.data.toList =
          before.toUTF8.data.toList ++ [globStar] := by simp; rfl
      rw [hbytes, hstar, List.append_assoc]
      have hrun := Glob.nil.star (globStar :: rest.toUTF8.data.toList)
      rw [List.append_nil] at hrun
      exact .append_left _ hrun

/-- A `*` in the pattern only, and one in the text only. -/
theorem globMatch_glob_unmet :
    (globMatch "*" "m" = true ↔ Glob "*".toUTF8.data.toList "m".toUTF8.data.toList) ∧
      (globMatch "abc" "a*c" = true ↔ Glob "abc".toUTF8.data.toList "a*c".toUTF8.data.toList) :=
  ⟨(globMatch_glob "*" "m").2.1 fun h => absurd h.mem.2 (by decide),
    (globMatch_glob "abc" "a*c").2.1 fun h => absurd h.mem.1 (by decide)⟩

/-- `*` does not match `*a`: the `*` of the text is taken for the one of the pattern. -/
theorem globMatch_star_star_a : globMatch "*" "*a" = false ∧
    Glob "*".toUTF8.data.toList "*a".toUTF8.data.toList :=
  ⟨GlobCursor.globLoop_of_longer (by decide) (by decide) (Nat.zero_le _) rfl rfl,
    Glob.nil.star "*a".toUTF8.data.toList⟩

end Cpex
