import Cpex.ForStd.AList
import Cpex.Spec.JsonValues

/-! # Message projections as lenses

A projection stands for one part of a message: the first tool call or prompt request for the
arguments, the first tool result for the result. It reads that part, and writes it back. Without
such a part the text of the message takes its place: it is read as the texts of all parts together,
and written to the first text part only, or to a new one. So the round trips hold on messages with
the structured part, and on messages whose text is all in the first of their text parts; on others
neither holds, and a message without any text gains an empty part.
-/

namespace Cpex.Core

open Json

/-! ### Messages up to the order of a `HashMap` -/

/-- The same part, whatever the order of its arguments in memory. -/
def ContentPart.Same : ContentPart → ContentPart → Prop
  | .toolCall a, .toolCall b =>
    a.toolCallId = b.toolCallId ∧ a.name = b.name ∧ a.namespace = b.namespace ∧
      ∀ k, a.arguments.lookup k = b.arguments.lookup k
  | .promptRequest a, .promptRequest b =>
    a.promptRequestId = b.promptRequestId ∧ a.name = b.name ∧ a.serverId = b.serverId ∧
      ∀ k, a.arguments.lookup k = b.arguments.lookup k
  | p, q => p = q

/-- The same message, whatever the order of its arguments in memory. -/
structure Message.Same (a b : Message) : Prop where
  schemaVersion : a.schemaVersion = b.schemaVersion
  role : a.role = b.role
  channel : a.channel = b.channel
  content : List.Forall₂ ContentPart.Same a.content b.content

theorem ContentPart.same_refl (p : ContentPart) : p.Same p := by
  cases p with
  | toolCall a | promptRequest a => exact ⟨rfl, rfl, rfl, fun _ => rfl⟩
  | _ => rfl

theorem forall₂_same_refl (parts : List ContentPart) :
    List.Forall₂ ContentPart.Same parts parts :=
  List.forall₂_same.mpr fun p _ => p.same_refl

/-! ### The first part with something -/

variable {rewrite? : ContentPart → Option ContentPart}

/-- `rewriteFirst` on a list split at the part it rewrites. -/
theorem rewriteFirst_append (hbefore : ∀ x ∈ before, rewrite? x = none)
    (hpart : rewrite? part = some part') (after : List ContentPart) :
    rewriteFirst rewrite? (before ++ part :: after) = some (before ++ part' :: after) := by
  induction before with
  | nil => simp only [List.nil_append, rewriteFirst, hpart]
  | cons x before ih =>
    rw [List.cons_append, rewriteFirst, hbefore x List.mem_cons_self,
      ih fun y hy => hbefore y (List.mem_cons_of_mem _ hy)]
    rfl

theorem rewriteFirst_eq_none (h : ∀ x ∈ parts, rewrite? x = none) :
    rewriteFirst rewrite? parts = none := by
  induction parts with
  | nil => rfl
  | cons x parts ih =>
    rw [rewriteFirst, h x List.mem_cons_self, ih fun y hy => h y (List.mem_cons_of_mem _ hy)]
    rfl

/-! ### Texts -/

/-- The text of a text part. -/
def ContentPart.text? : ContentPart → Option String
  | .text s => some s
  | _ => none

/-- A text part with another text. -/
def ContentPart.withText? (s : String) : ContentPart → Option ContentPart
  | .text _ => some (.text s)
  | _ => none

theorem ContentPart.withText?_eq_none {part : ContentPart} (h : part.text? = none) (s : String) :
    part.withText? s = none := by
  cases part with
  | text t => exact nomatch h
  | _ => rfl

/-- The texts of the message's parts. -/
def Message.texts (m : Message) : List String := m.content.filterMap ContentPart.text?

/-- The text of the message is in the first of its text parts. -/
def Message.OneText (m : Message) : Prop :=
  ∃ first rest, m.texts = first :: rest ∧ ∀ s ∈ rest, s = ""

variable (m : Message)

theorem getTextContent_eq : m.getTextContent = "".intercalate m.texts := rfl

variable (s : String) (texts : List String)

theorem intercalate_cons : "".intercalate (s :: texts) = s ++ "".intercalate texts := by
  cases texts with
  | nil => simp
  | cons t texts => simp

theorem intercalate_eq_empty_iff : "".intercalate texts = "" ↔ ∀ s ∈ texts, s = "" := by
  induction texts with
  | nil => simp
  | cons s texts ih => rw [intercalate_cons, List.forall_mem_cons, ← ih, String.append_eq_empty_iff]

/-- A message without text parts gains one; in any other the first is rewritten. -/
theorem rewriteMessageText_cases :
    (m.texts = [] ∧ rewriteMessageText m s = { m with content := m.content ++ [.text s] }) ∨
      ∃ before first after, m.content = before ++ .text first :: after ∧
        before.filterMap ContentPart.text? = [] ∧
        rewriteMessageText m s = { m with content := before ++ .text s :: after } := by
  have hrewrite : rewriteMessageText m s = { m with
      content := (rewriteFirst (ContentPart.withText? s) m.content).getD
        (m.content ++ [.text s]) } := rfl
  cases hfirst : m.content.findSome? ContentPart.text? with
  | none =>
    have hall := List.findSome?_eq_none_iff.mp hfirst
    refine .inl ⟨List.filterMap_eq_nil_iff.mpr hall, ?_⟩
    rw [hrewrite, rewriteFirst_eq_none fun x hx => ContentPart.withText?_eq_none (hall x hx) s]
    rfl
  | some first =>
    obtain ⟨before, part, after, hcontent, hpart, hbefore⟩ :=
      List.findSome?_eq_some_iff.mp hfirst
    cases part with
    | text t =>
      cases hpart
      refine .inr ⟨before, first, after, hcontent, List.filterMap_eq_nil_iff.mpr hbefore, ?_⟩
      rw [hrewrite, hcontent, rewriteFirst_append
        (fun x hx => ContentPart.withText?_eq_none (hbefore x hx) s)
        (show (ContentPart.text first).withText? s = some (.text s) from rfl)]
      rfl
    | _ => exact nomatch hpart

variable {m s} in
theorem mem_rewriteMessageText (h : x ∈ (rewriteMessageText m s).content) :
    x = .text s ∨ x ∈ m.content := by
  rcases rewriteMessageText_cases m s with ⟨-, heq⟩ | ⟨before, first, after, hcontent, -, heq⟩
  · simpa [heq, or_comm] using h
  · rw [heq] at h
    rw [hcontent]
    simp only [List.mem_append, List.mem_cons] at h ⊢
    tauto

theorem texts_rewriteMessageText : (rewriteMessageText m s).texts = s :: m.texts.tail := by
  rcases rewriteMessageText_cases m s with
    ⟨hnone, heq⟩ | ⟨before, first, after, hcontent, hbefore, heq⟩
  · rw [heq, hnone, Message.texts, List.filterMap_append,
      show m.content.filterMap ContentPart.text? = [] from hnone]
    rfl
  · rw [heq, Message.texts, Message.texts, hcontent, List.filterMap_append, List.filterMap_append,
      hbefore]
    rfl

/-- Writing the text of a message leaves the message exactly if it is the text of its first text
    part. -/
theorem same_rewriteMessageText_iff : (rewriteMessageText m s).Same m ↔ m.texts.head? = some s := by
  rcases rewriteMessageText_cases m s with
    ⟨hnone, heq⟩ | ⟨before, first, after, hcontent, hbefore, heq⟩
  · rw [heq, hnone]
    refine iff_of_false (fun h => ?_) (by simp)
    have hlen := h.content.length_eq
    simp at hlen
  · have hhead : m.texts.head? = some first := by
      rw [Message.texts, hcontent, List.filterMap_append, hbefore]
      rfl
    rw [heq, hhead]
    constructor
    · intro h
      have hcontent' := h.content
      rw [hcontent, List.forall₂_iff_get] at hcontent'
      have hpart := hcontent'.2 before.length (by simp) (by simp)
      have htext : (ContentPart.text s).Same (.text first) := by simpa using hpart
      cases htext
      rfl
    · rintro ⟨⟩
      refine ⟨rfl, rfl, rfl, ?_⟩
      rw [hcontent]
      exact forall₂_same_refl _

/-- The text is read back as it was written if the text parts after the first are empty. -/
theorem getTextContent_rewriteMessageText_iff :
    (rewriteMessageText m s).getTextContent = s ↔ ∀ t ∈ m.texts.tail, t = "" := by
  rw [getTextContent_eq, texts_rewriteMessageText, intercalate_cons, ← intercalate_eq_empty_iff]
  constructor
  · intro h
    exact String.append_right_inj s |>.mp (h.trans (String.append_empty).symm)
  · intro h
    rw [h, String.append_empty]

/-! ### Lenses on a part -/

/-- The kind of part a projection stands for: what it reads of such a part, what writing a value
    makes of it, the values it can take, and the two lens laws on the part. -/
structure PartLens where
  get? : ContentPart → Option Json
  set? : Json → ContentPart → Option ContentPart
  Shape : Json → Prop
  isSome_set? : ∀ v part, (set? v part).isSome = (get? part).isSome
  get?_text : ∀ s, get? (.text s) = none
  get?_of_set? : ∀ v part part', Shape v → set? v part = some part' → get? part' = some v
  same_of_set? : ∀ v part part', get? part = some v → set? v part = some part' → part'.Same part

namespace PartLens

variable (l : PartLens)

/-- Read the first part of the kind, or the text. -/
def extract (m : Message) : Json :=
  (m.content.findSome? l.get?).getD (.string m.getTextContent)

/-- Write the first part of the kind, or the text. -/
def writeBack (m : Message) (v : Json) : Message :=
  match rewriteFirst (l.set? v) m.content with
  | some content => { m with content }
  | none => writeText m v

/-- The message has a part of the kind. -/
def Has (m : Message) : Prop := ∃ part ∈ m.content, (l.get? part).isSome = true

/-- The values that can be written to the message: those of the part, or strings. -/
def HasShape (m : Message) (v : Json) : Prop :=
  (l.Has m → l.Shape v) ∧ (¬l.Has m → v.isString = true)

/-- The projection is a lens on the message. -/
structure IsLensAt (m : Message) : Prop where
  extract_write : (l.writeBack m (l.extract m)).Same m
  write_extract : ∀ v, l.HasShape m v → l.extract (l.writeBack m v) = v

theorem set?_eq_none_iff (v : Json) (part : ContentPart) :
    l.set? v part = none ↔ l.get? part = none := by
  rw [← Option.isNone_iff_eq_none, ← Option.isNone_iff_eq_none, ← Option.not_isSome,
    ← Option.not_isSome, l.isSome_set?]

variable {m : Message}

/-- A message with a part of the kind, split at the first. -/
theorem exists_split (h : l.Has m) :
    ∃ before part after v, m.content = before ++ part :: after ∧
      (∀ x ∈ before, l.get? x = none) ∧ l.get? part = some v := by
  cases hfirst : m.content.findSome? l.get? with
  | none =>
    obtain ⟨part, hmem, hsome⟩ := h
    rw [List.findSome?_eq_none_iff.mp hfirst part hmem] at hsome
    exact nomatch hsome
  | some v =>
    obtain ⟨before, part, after, hcontent, hpart, hbefore⟩ :=
      List.findSome?_eq_some_iff.mp hfirst
    exact ⟨before, part, after, v, hcontent, hbefore, hpart⟩

/-- On a message with a part of the kind, both laws hold. -/
theorem isLensAt_of_has (h : l.Has m) : l.IsLensAt m := by
  obtain ⟨before, part, after, u, hcontent, hbefore, hpart⟩ := l.exists_split h
  have hextract : l.extract m = u := by
    rw [extract, hcontent, List.findSome?_append, List.findSome?_eq_none_iff.mpr hbefore]
    simp [hpart]
  -- What writing `v` does to the message.
  have hwrite (v : Json) : ∃ part', l.set? v part = some part' ∧
      l.writeBack m v = { m with content := before ++ part' :: after } := by
    have hsome : (l.set? v part).isSome = true := by rw [l.isSome_set?, hpart]; rfl
    obtain ⟨part', hpart'⟩ := Option.isSome_iff_exists.mp hsome
    refine ⟨part', hpart', ?_⟩
    rw [writeBack, hcontent, rewriteFirst_append
      (fun x hx => (l.set?_eq_none_iff v x).mpr (hbefore x hx)) hpart']
  refine ⟨?_, fun v hv => ?_⟩
  · rw [hextract]
    obtain ⟨part', hpart', hwrite⟩ := hwrite u
    rw [hwrite]
    refine ⟨rfl, rfl, rfl, ?_⟩
    rw [hcontent]
    exact List.rel_append (forall₂_same_refl before)
      (.cons (l.same_of_set? u part part' hpart hpart') (forall₂_same_refl after))
  · obtain ⟨part', hpart', hwrite⟩ := hwrite v
    rw [hwrite, extract, List.findSome?_append, List.findSome?_eq_none_iff.mpr hbefore]
    simp [l.get?_of_set? v part part' (hv.1 h) hpart']

/-- On a message without a part of the kind, the text is read and written. -/
theorem isLensAt_iff_of_not_has (h : ¬l.Has m) : l.IsLensAt m ↔ m.OneText := by
  have hnone : ∀ part ∈ m.content, l.get? part = none := by
    intro part hmem
    cases hpart : l.get? part with
    | none => rfl
    | some v => exact absurd ⟨part, hmem, by rw [hpart]; rfl⟩ h
  have hextract : l.extract m = .string m.getTextContent := by
    rw [extract, List.findSome?_eq_none_iff.mpr hnone]
    rfl
  have hwrite (s : String) : l.writeBack m (.string s) = rewriteMessageText m s := by
    rw [writeBack, rewriteFirst_eq_none fun x hx => (l.set?_eq_none_iff _ x).mpr (hnone x hx)]
    rfl
  have hextract' (s : String) : l.extract (rewriteMessageText m s) =
      .string (rewriteMessageText m s).getTextContent := by
    rw [extract, List.findSome?_eq_none_iff.mpr]
    · rfl
    · intro x hx
      rcases mem_rewriteMessageText hx with rfl | hx
      · exact l.get?_text s
      · exact hnone x hx
  constructor
  · rintro ⟨hsame, -⟩
    rw [hextract, hwrite, same_rewriteMessageText_iff] at hsame
    cases htexts : m.texts with
    | nil => rw [htexts] at hsame; exact nomatch hsame
    | cons first rest =>
      refine ⟨first, rest, htexts, (intercalate_eq_empty_iff rest).mp ?_⟩
      rw [getTextContent_eq, htexts, intercalate_cons, List.head?_cons] at hsame
      have heq : first ++ "" = first ++ "".intercalate rest := by
        rw [String.append_empty]
        exact Option.some.inj hsame
      exact ((String.append_right_inj first).mp heq).symm
  · rintro ⟨first, rest, htexts, hrest⟩
    have hcontent : m.getTextContent = first := by
      rw [getTextContent_eq, htexts, intercalate_cons, (intercalate_eq_empty_iff rest).mpr hrest,
        String.append_empty]
    refine ⟨?_, fun v hv => ?_⟩
    · rw [hextract, hwrite, same_rewriteMessageText_iff, hcontent, htexts]
      rfl
    · cases v with
      | string s =>
        rw [hwrite, hextract', (getTextContent_rewriteMessageText_iff m s).mpr]
        rw [htexts]
        exact hrest
      | _ => exact nomatch hv.2 h

/-- A projection is a lens on a message exactly if the message has a part of its kind, or its text
    is in its first text part. -/
theorem isLensAt_iff : l.IsLensAt m ↔ l.Has m ∨ m.OneText := by
  by_cases h : l.Has m
  · exact iff_of_true (l.isLensAt_of_has h) (.inl h)
  · rw [l.isLensAt_iff_of_not_has h, or_iff_right h]

end PartLens

/-! ### Arguments -/

/-- A JSON map collected from a `HashMap` has its values. -/
theorem lookup_argumentFields : (argumentFields arguments).lookup k = arguments.lookup k := by
  have hfold : ∀ (l : List (Sigma fun _ : String => Json)) (fields : List (String × Json)),
      l.NodupKeys → (l.foldl (fun fields e => insertField e.1 e.2 fields) fields).lookup k =
        (l.dlookup k).or (fields.lookup k) := by
    intro l
    induction l with
    | nil => exact fun fields _ => rfl
    | cons e l ih =>
      intro fields hnodup
      obtain ⟨hfresh, hrest⟩ := List.nodupKeys_cons.mp hnodup
      obtain ⟨key, value⟩ := e
      rw [List.foldl_cons, ih _ hrest, lookup_insertField]
      by_cases hk : k = key
      · subst hk
        rw [List.dlookup_eq_none.mpr hfresh, List.dlookup_cons_eq, if_pos rfl]
        rfl
      · rw [List.dlookup_cons_ne _ _ hk, if_neg hk]
  rw [argumentFields, hfold _ _ arguments.nodupKeys]
  exact Option.or_none

theorem pairwise_keys_argumentFields (arguments : HashMap String Json) :
    (argumentFields arguments).SortedKeys :=
  List.foldlRecOn (motive := List.SortedKeys) _ _ .nil fun _ h _ _ =>
    pairwise_keys_insertField _ _ h

theorem lookup_fieldArguments {fields : List (String × Json)} (h : fields.SortedKeys) (k : String) :
    (fieldArguments fields).lookup k = fields.lookup k := by
  have hnodup : (fields.map Prod.fst).Nodup := h.imp fun hlt => hlt.ne
  rw [fieldArguments, AList.lookup_foldl_insert_of_nodup hnodup]
  exact Option.or_none

/-- The projection of arguments: the first tool call or prompt request. -/
def argsLens : PartLens where
  get? := ContentPart.arguments?
  set? := ContentPart.writeArguments?
  Shape v := v.isObject = true ∧ v.wellFormed = true
  isSome_set? v part := by cases part <;> rfl
  get?_text _ := rfl
  get?_of_set? v part part' hshape h := by
    cases v with
    | object fields =>
      have hkeys := (wellFormed_object.mp hshape.2).1
      have hfields : argumentFields (fieldArguments fields) = fields :=
        List.eq_of_lookup_eq (pairwise_keys_argumentFields _) hkeys fun k => by
          rw [lookup_argumentFields, lookup_fieldArguments hkeys]
      cases part with
      | toolCall content | promptRequest content =>
        cases h
        exact congrArg (fun f => some (Json.object f)) hfields
      | _ => exact nomatch h
    | _ => exact nomatch hshape.1
  same_of_set? v part part' hget hset := by
    have hlookup (arguments : HashMap String Json) (k : String) :
        (fieldArguments (argumentFields arguments)).lookup k = arguments.lookup k := by
      rw [lookup_fieldArguments (pairwise_keys_argumentFields _), lookup_argumentFields]
    cases part with
    | toolCall content | promptRequest content =>
      cases hget
      cases hset
      exact ⟨rfl, rfl, rfl, hlookup content.arguments⟩
    | _ => exact nomatch hget

/-- The projection of a result: the first tool result. -/
def resultLens : PartLens where
  get? := ContentPart.result?
  set? := ContentPart.writeResult?
  Shape _ := True
  isSome_set? v part := by cases part <;> rfl
  get?_text _ := rfl
  get?_of_set? v part part' _ h := by
    cases part with
    | toolResult content => cases h; rfl
    | _ => exact nomatch h
  same_of_set? v part part' hget hset := by
    cases part with
    | toolResult content => cases hget; cases hset; rfl
    | _ => exact nomatch hget

/-- Both projections are lenses on a message (writing back what was extracted leaves the message,
    and what is written, of the shape the message takes, is extracted) exactly if the text of the
    message is in its first text part, or no projection needs the text: there is a tool call or a
    prompt request for the arguments, and a tool result for the result. -/
theorem projections_lens_iff (m : Message) :
    (((writeArgsBackToMessage m (extractArgsFromMessage m)).Same m ∧
        ∀ v, argsLens.HasShape m v →
          extractArgsFromMessage (writeArgsBackToMessage m v) = v) ∧
      ((writeResultBackToMessage m (extractResultFromMessage m)).Same m ∧
        ∀ v, resultLens.HasShape m v →
          extractResultFromMessage (writeResultBackToMessage m v) = v)) ↔
      (argsLens.Has m ∨ m.OneText) ∧ (resultLens.Has m ∨ m.OneText) := by
  rw [← argsLens.isLensAt_iff, ← resultLens.isLensAt_iff]
  exact and_congr ⟨fun h => ⟨h.1, h.2⟩, fun h => ⟨h.1, h.2⟩⟩
    ⟨fun h => ⟨h.1, h.2⟩, fun h => ⟨h.1, h.2⟩⟩

/-- A message of two texts. -/
def twoTexts : Message := { role := .user, content := [.text "a", .text "b"] }

/-- Extracting the text of two parts and writing it back puts the second text in twice. -/
theorem writeArgsBackToMessage_doubles_text :
    (writeArgsBackToMessage twoTexts (extractArgsFromMessage twoTexts)).content =
        [.text "ab", .text "b"] ∧
      ¬(writeArgsBackToMessage twoTexts (extractArgsFromMessage twoTexts)).Same twoTexts := by
  refine ⟨rfl, fun h => ?_⟩
  cases h.content with
  | cons hpart _ => exact absurd (ContentPart.text.inj hpart) (by decide)

end Cpex.Core
